import McAdmin.Doorman
import McAdmin.Histories
import McAdmin.RestoreSteps

/-!
# The world is written between a stop and the next start

The steps of a run of the worker are read with their past.  A step that changes the data
directory outside the transaction names has to come after a stop that the controller has
returned from, with no request to the controller in between.  Only `syncFrom` writes there;
everything else stays aside, and asks nothing of the past.

What a returned stop is worth is the controller's matter: `DockerContainerController.stop`
calls Docker for one status only.
-/

namespace RestoreWorker

open CrashLogic FileTree

/-! ### The order of a run -/

/-- The last request to the controller was a stop and it has returned: its two steps were the
first ones after the request, and nothing has been requested since. -/
def StoppedSince (past : History World) (calls : List Call) : Prop :=
  calls.getLast? = some .stop ∧
    ∃ earlier w later,
      past = earlier ++ .done w { w with running := false } ::
        .done { w with running := false } { w with running := false } :: later ∧
      w.calls = calls ∧ (∀ m ∈ earlier, m.Within fun v => v.calls ≠ calls) ∧
      ∀ m ∈ later, m.Within fun v => v.calls = calls

/-- A step that changes anything but the transaction names comes after a returned stop and
before the next start. -/
def WriteStopped (past : History World) (w w' : World) : Prop :=
  (∀ n, n ∉ protectedRootNames → w'.slot n = w.slot n) ∨ StoppedSince past w.calls

def WritesStopped (moments : List (Moment World)) : Prop :=
  ∀ past w w' rest, moments = past ++ .done w w' :: rest → WriteStopped past w w'

/-! ### Programs that stay aside -/

def Aside (w w' : World) : Prop :=
  w'.calls = w.calls ∧ ∀ n, n ∉ protectedRootNames → w'.slot n = w.slot n

theorem Aside.refl (w : World) : Aside w w := ⟨rfl, fun _ _ => rfl⟩

def StaysAside {α : Type} (p : Prog World Exn α) : Prop := ∀ w, p.Keeps (Aside w)

section

variable {α β : Type}

theorem StaysAside.bind {p : Prog World Exn α} {g : α → Prog World Exn β} (hp : StaysAside p)
    (hg : ∀ a, StaysAside (g a)) : StaysAside (p >>= g) := fun w =>
  (hp w).bind fun a => hg a w

theorem staysAside_zoom {n : Name} (hn : n ∈ protectedRootNames) (p : OnSlot α) :
    StaysAside (p.zoom (at_ n)) := by
  intro w
  refine Prog.Keeps.zoom (at_ n) (fun v t hv => ⟨hv.1, fun m hm => ?_⟩) p
  rw [← hv.2 m hm]
  exact Folder.get_set_ne v.root (ne_of_not_protected hm hn).symm t

theorem staysAside_assign {f : World → World}
    (hf : ∀ w, (f w).calls = w.calls ∧ (f w).root = w.root) : StaysAside (.assign f) := by
  intro w
  refine Prog.keeps_assign fun v hv => ⟨(hf v).1.trans hv.1, fun n hn => ?_⟩
  rw [World.slot, (hf v).2]
  exact hv.2 n hn

theorem staysAside_skip : StaysAside (.perform .ok) := by
  intro w
  refine ⟨fun v v' hv hstep => ?_, trivial⟩
  obtain rfl := Except.ok.inj hstep
  exact hv

theorem staysAside_replace :
    StaysAside ((Prog.perform (replace stateTmpName stateName)).zoom rootOf) := by
  intro w
  refine ⟨fun v v' hv hstep => ?_, trivial⟩
  cases hreplace : replace stateTmpName stateName v.root with
  | error e =>
    have hstep : Except.map (rootOf.set v) (replace stateTmpName stateName v.root) = .ok v' := hstep
    simp only [hreplace, Except.map, reduceCtorEq] at hstep
  | ok f =>
    have hstep : Except.map (rootOf.set v) (replace stateTmpName stateName v.root) = .ok v' := hstep
    simp only [hreplace, Except.map, Except.ok.injEq] at hstep
    subst hstep
    refine ⟨hv.1, fun n hn => ?_⟩
    rw [← hv.2 n hn]
    simp only [replace] at hreplace
    split at hreplace
    · cases hreplace
    · split at hreplace
      · cases hreplace
      · obtain rfl := Except.ok.inj hreplace
        change ((v.root.set stateTmpName none).set stateName _).get n = v.root.get n
        rw [Folder.get_set_ne _ (ne_of_not_protected hn state_mem).symm,
          Folder.get_set_ne _ (ne_of_not_protected hn stateTmp_mem).symm]

theorem staysAside_writeState (phase : Phase) (target : String) :
    StaysAside (writeState phase target) :=
  (staysAside_zoom stateTmp_mem _).bind fun _ => staysAside_replace

theorem staysAside_cleanupTransaction : StaysAside cleanupTransaction := by
  refine (staysAside_zoom stage_mem _).bind fun _ => ?_
  refine StaysAside.bind (staysAside_assign ?_) fun _ => ?_
  · exact fun _ => ⟨rfl, rfl⟩
  refine (staysAside_zoom rollback_mem _).bind fun _ => ?_
  refine StaysAside.bind (staysAside_assign ?_) fun _ => ?_
  · exact fun _ => ⟨rfl, rfl⟩
  exact (staysAside_zoom state_mem _).bind fun _ => staysAside_zoom stateTmp_mem _

end

/-! ### What the past keeps -/

def Logged (past : History World) (w : World) : Prop :=
  ∀ m ∈ past, m.Within fun v => v.calls.length ≤ w.calls.length

def Stopped (past : History World) (w : World) : Prop :=
  Logged past w ∧ StoppedSince past w.calls

theorem Logged.snoc {past : History World} {w w' : World} {m : Moment World} (h : Logged past w)
    (hle : w.calls.length ≤ w'.calls.length)
    (hm : m.Within fun v => v.calls.length ≤ w'.calls.length) : Logged (past ++ [m]) w' := by
  intro m' hm'
  rcases List.mem_append.mp hm' with hm' | hm'
  · exact (h m' hm').mono fun v hv => Nat.le_trans hv hle
  · rw [List.mem_singleton.mp hm']
    exact hm

section

variable {P : World → Prop} {past past' : History World} {w w' : World}

theorem Logged.grows (h : Logged past w) (hP : ∀ v, P v → v.calls = w.calls)
    (hgrows : Grows P past past') (hw' : P w') : Logged past' w' := by
  obtain ⟨more, rfl, hmore⟩ := hgrows
  intro m hm
  rw [hP w' hw']
  rcases List.mem_append.mp hm with hm | hm
  · exact h m hm
  · exact (hmore m hm).mono fun v hv => Nat.le_of_eq (congrArg List.length (hP v hv))

theorem StoppedSince.grows {calls : List Call} (h : StoppedSince past calls)
    (hP : ∀ v, P v → v.calls = calls) (hgrows : Grows P past past') :
    StoppedSince past' calls := by
  obtain ⟨hlast, earlier, w, later, rfl, hw, hearlier, hlater⟩ := h
  obtain ⟨more, rfl, hmore⟩ := hgrows
  refine ⟨hlast, earlier, w, later ++ more, ?_, hw, hearlier, fun m hm => ?_⟩
  · simp only [List.append_assoc, List.cons_append]
  · rcases List.mem_append.mp hm with hm | hm
    · exact hlater m hm
    · exact (hmore m hm).mono hP

end

/-! ### The steps under the contract -/

section

variable {α : Type} {p : Prog World Exn α}

theorem wpPast_aside (hp : StaysAside p) (past : History World) (w : World) :
    wpPast WriteStopped p (fun _ past' w' => Grows (Aside w) past past' ∧ Aside w w')
      (fun past' w' => Grows (Aside w) past past' ∧ Aside w w') past w := by
  refine wpPast_of_keeps (hp w) (fun _ v v' _ hv hv' => Or.inl fun n hn => ?_) (.refl _ past)
    (.refl w)
  rw [hv.2 n hn, hv'.2 n hn]

theorem Logged.aside {past past' : History World} {w w' : World} (h : Logged past w)
    (hend : Grows (Aside w) past past' ∧ Aside w w') : Logged past' w' :=
  h.grows (fun _ hv => hv.1) hend.1 hend.2

theorem logged_aside (hp : StaysAside p) : Triple WriteStopped Logged p Logged Logged :=
  fun past w h => wpPast_mono (wpPast_aside hp past w) (fun _ _ _ hend => h.aside hend)
    fun _ _ hend => h.aside hend

theorem stopped_aside (hp : StaysAside p) : Triple WriteStopped Stopped p Stopped Logged := by
  intro past w h
  refine wpPast_mono (wpPast_aside hp past w) (fun _ _ w' hend => ⟨h.1.aside hend, ?_⟩)
    fun _ _ hend => h.1.aside hend
  rw [hend.2.1]
  exact h.2.grows (fun _ hv => hv.1) hend.1

theorem stopped_syncFrom (name : Name) (removeAbsent : Bool) :
    Triple WriteStopped Stopped (syncFrom name removeAbsent) Logged Logged := by
  intro past w h
  have hkeeps : (syncFrom name removeAbsent).Keeps fun v => v.calls = w.calls := by
    simp only [syncFrom]
    refine (Prog.keeps_read _).bind fun source => ?_
    have hsync : (Prog.zoom rootOf
        (syncTree source.folder protectedRootNames removeAbsent)).Keeps fun v => v.calls = w.calls :=
      Prog.Keeps.zoom rootOf (fun v f hv => hv) _
    cases source.isDir with
    | false => exact trivial
    | true => exact hsync
  refine wpPast_mono (wpPast_of_keeps hkeeps (fun past' v v' hgrows hv _ => Or.inr ?_)
    (.refl _ past) rfl) (fun _ _ _ hend => h.1.grows (fun _ hv => hv) hend.1 hend.2)
    fun _ _ hend => h.1.grows (fun _ hv => hv) hend.1 hend.2
  rw [hv]
  exact h.2.grows (fun _ hv => hv) hgrows

theorem logged_request (call : Call) (running : Bool) {Q : History World → World → Prop}
    (hQ : ∀ past w, Logged past w →
      let asked := { w with calls := w.calls ++ [call] }
      let done := { asked with running := running }
      Logged (past ++ [.done asked done] ++ [.done done done]) done →
        Q (past ++ [.done asked done] ++ [.done done done]) done) :
    Triple WriteStopped Logged
      (do
        .assign fun w => { w with calls := w.calls ++ [call] }
        .perform fun w => .ok { w with running := running }
        .perform .ok : Prog World Exn Unit) Q Logged := by
  intro past w h
  have hle : w.calls.length ≤ (w.calls ++ [call]).length := by simp
  rw [wpPast_bind, wpPast_assign, wpPast_bind, wpPast_perform, wpPast_perform]
  have hacted : Logged (past ++ [.done { w with calls := w.calls ++ [call] }
      { w with calls := w.calls ++ [call], running := running }])
      { w with calls := w.calls ++ [call], running := running } :=
    h.snoc hle ⟨Nat.le_refl _, Nat.le_refl _⟩
  refine ⟨⟨Or.inl fun _ _ => rfl, ⟨Or.inl fun _ _ => rfl, ?_⟩, ?_⟩, ?_⟩
  · exact hQ past w h (hacted.snoc (Nat.le_refl _) ⟨Nat.le_refl _, Nat.le_refl _⟩)
  · exact hacted.snoc (Nat.le_refl _) (Nat.le_refl _)
  · exact h.snoc hle (Nat.le_refl _)

theorem logged_controllerStart : Triple WriteStopped Logged controllerStart Logged Logged :=
  logged_request .start true fun _ _ _ hlogged => hlogged

theorem logged_controllerStop : Triple WriteStopped Logged controllerStop Stopped Logged := by
  refine logged_request .stop false fun past w h hlogged => ⟨hlogged, List.getLast?_concat, past,
    { w with calls := w.calls ++ [.stop] }, [], ?_, rfl, fun m hm => ?_,
    fun _ hm => absurd hm List.not_mem_nil⟩
  · simp only [List.append_assoc, List.cons_append, List.nil_append]
  · refine (h m hm).mono fun v hv heq => ?_
    have hlength : v.calls.length = w.calls.length + 1 := by
      rw [heq, List.length_append, List.length_singleton]
    omega

/-! ### The transactions under the contract -/

theorem logged_cleanupTransaction :
    Triple WriteStopped Logged cleanupTransaction Logged Logged :=
  logged_aside staysAside_cleanupTransaction

theorem logged_swapBack {Q : History World → World → Prop} {next : Prog World Exn α}
    (hnext : Triple WriteStopped Logged next Q Logged) :
    Triple WriteStopped Logged
      (do
        controllerStop
        syncFrom rollbackName true
        controllerStart
        next) Q Logged :=
  logged_controllerStop.seq fun _ => (stopped_syncFrom _ _).seq fun _ =>
    logged_controllerStart.seq fun _ => hnext

theorem logged_recoverState (rollback : Slot Content) (state : Option (Phase × String)) :
    Triple WriteStopped Logged (recoverState rollback state) Logged Logged := by
  have hthrow : ∀ message, Triple WriteStopped Logged
      (throw (.message message) : Prog World Exn (Option String)) Logged Logged := fun message =>
    Triple.throw _ fun _ _ h => h
  have hrestart : ∀ message, Triple WriteStopped Logged
      (do
        controllerStart
        cleanupTransaction
        throw (.message message) : Prog World Exn (Option String)) Logged Logged := fun message =>
    logged_controllerStart.seq fun _ => logged_cleanupTransaction.seq fun _ => hthrow message
  simp only [recoverState]
  split
  · exact logged_cleanupTransaction.seq fun _ => Triple.pure _ fun _ _ h => h
  · split
    · exact logged_swapBack (logged_cleanupTransaction.seq fun _ => hthrow _)
    · split
      · exact hrestart _
      · split
        · exact hrestart _
        · exact hthrow _

theorem logged_recoverInterruptedTransaction :
    Triple WriteStopped Logged recoverInterruptedTransaction Logged Logged := by
  refine Triple.read fun marker => Triple.read fun rollback => ?_
  split
  · refine (logged_aside (staysAside_zoom stage_mem _)).seq fun _ => ?_
    refine (logged_aside (staysAside_zoom stateTmp_mem _)).seq fun _ => ?_
    exact Triple.pure _ fun _ _ h => h
  · cases readState marker with
    | ok state => exact logged_recoverState rollback state
    | error e =>
      simp only
      split
      · exact Triple.throw _ fun _ _ h => h
      · exact logged_recoverState rollback none

theorem logged_writeState (phase : Phase) (target : String) :
    Triple WriteStopped Logged (writeState phase target) Logged Logged :=
  logged_aside (staysAside_writeState phase target)

theorem stopped_writeState (phase : Phase) (target : String) :
    Triple WriteStopped Stopped (writeState phase target) Stopped Logged :=
  stopped_aside (staysAside_writeState phase target)

theorem logged_applyTransaction (request : Request) (target : String) :
    Triple WriteStopped Logged (applyTransaction request target) Logged Logged := by
  refine (logged_writeState _ _).seq fun _ => ?_
  refine Triple.seq (logged_aside (staysAside_assign ?_)) fun _ => ?_
  · exact fun _ => ⟨rfl, rfl⟩
  refine logged_controllerStop.seq fun _ => ?_
  refine (stopped_writeState _ _).seq fun _ => Triple.read fun dataRoot => ?_
  refine (stopped_aside (staysAside_zoom rollback_mem _)).seq fun _ => ?_
  refine Triple.seq (stopped_aside (staysAside_assign ?_)) fun _ => ?_
  · exact fun _ => ⟨rfl, rfl⟩
  refine (stopped_writeState _ _).seq fun _ => (stopped_writeState _ _).seq fun _ => ?_
  refine (stopped_syncFrom _ _).seq fun _ => ?_
  refine (logged_writeState _ _).seq fun _ => (logged_writeState _ _).seq fun _ => ?_
  refine logged_controllerStart.seq fun _ => ?_
  refine Triple.seq (logged_aside (staysAside_assign ?_)) fun _ => logged_writeState _ _
  exact fun _ => ⟨rfl, rfl⟩

theorem logged_undoTransaction (target : String) (exc : Exn) :
    Triple WriteStopped Logged (undoTransaction target exc) Logged Logged := by
  refine Triple.seq (logged_aside (staysAside_assign ?_)) fun _ => Triple.read fun ready => ?_
  · exact fun _ => ⟨rfl, rfl⟩
  split
  · refine Triple.seq (Triple.catch ?_ fun _ => ?_) fun _ => Triple.throw _ fun _ _ h => h
    · refine (logged_writeState _ _).seq fun _ => logged_swapBack ?_
      refine Triple.seq (logged_aside (staysAside_assign ?_)) fun _ => logged_cleanupTransaction
      exact fun _ => ⟨rfl, rfl⟩
    · refine Triple.seq (Triple.catch (logged_writeState _ _) fun _ => ?_) fun _ => ?_
      · exact Triple.pure _ fun _ _ h => h
      · exact Triple.throw _ fun _ _ h => h
  · refine Triple.read fun stopped => ?_
    split
    · refine Triple.seq (M := Logged)
        (Triple.catch ?_ fun _ => Triple.throw _ fun _ _ h => h) fun _ => ?_
      · refine logged_controllerStart.seq fun _ => logged_aside (staysAside_assign ?_)
        exact fun _ => ⟨rfl, rfl⟩
      · exact logged_cleanupTransaction.seq fun _ => Triple.throw _ fun _ _ h => h
    · exact logged_cleanupTransaction.seq fun _ => Triple.throw _ fun _ _ h => h

theorem logged_newTransaction (request : Request) :
    Triple WriteStopped Logged (newTransaction request) Logged Logged := by
  refine (logged_aside staysAside_skip).seq fun _ => ?_
  cases request.resolved with
  | error e => exact Triple.throw _ fun _ _ h => h
  | ok resolved =>
    refine (logged_aside (staysAside_zoom stage_mem _)).seq fun _ => ?_
    refine (logged_writeState _ _).seq fun _ => ?_
    refine (Triple.catch (logged_applyTransaction request _)
      fun e => logged_undoTransaction _ e).seq fun _ => ?_
    refine (Triple.catch logged_cleanupTransaction fun _ => ?_).seq fun _ => ?_
    · exact Triple.pure _ fun _ _ h => h
    · exact Triple.pure _ fun _ _ h => h

theorem logged_restoreTransaction (request : Request) :
    Triple WriteStopped Logged (restoreTransaction request) Logged Logged := by
  refine logged_recoverInterruptedTransaction.seq fun recovered => ?_
  cases recovered with
  | some target => exact Triple.pure _ fun _ _ h => h
  | none => exact logged_newTransaction request

theorem run_writesStopped (request : Request) (plan : Plan Exn Empty) (w : World) :
    WritesStopped (run request plan w).moments := by
  have hstart : Logged [] w.fresh := fun _ hm => absurd hm List.not_mem_nil
  have hrun : Follows WriteStopped [] (run request plan w).moments :=
    (exec_follows _ (logged_restoreTransaction request [] w.fresh hstart) plan).1
  intro past v v' rest hmoments
  rw [hmoments] at hrun
  exact hrun.at_step

end

/-! ### The controller of the container -/

namespace DockerContainerController

open Doorman (Status Reading Lookup Error)

/-- What a call of `stop` meets. -/
structure Meeting where
  lookup : Lookup
  reload : Reading := lookup.reading
  /-- `container.stop` returns. -/
  stops : Bool := true

/-- A call of `stop`: its error, the status seen, and whether Docker stopped the container. -/
structure Stopping where
  error : Option Error := none
  seen : Option Status := none
  stopped : Bool := false

/-- As for the doorman, `_container` refuses a container of another name. -/
def stop (m : Meeting) : Stopping :=
  match m.lookup.container with
  | .error e => { error := some e }
  | .ok _ =>
    match m.reload with
    | .status status =>
      if status = .running then
        if m.stops then { seen := some status, stopped := true }
        else { error := some .failure, seen := some status }
      else { seen := some status }
    | _ => { error := some .failure }

def canRun : Status → Bool
  | .running | .restarting | .paused => true
  | _ => false

/-- A call that returns has stopped the container, or has seen it unable to run. -/
def Stopping.Safe (r : Stopping) : Prop :=
  r.error = none → r.stopped = true ∨ ∃ seen, r.seen = some seen ∧ canRun seen = false

/-- The container is found, in a status that `stop` takes for a stopped one. -/
def leaves (m : Meeting) : Prop :=
  m.lookup.container.isOk = true ∧ (m.reload = .status .restarting ∨ m.reload = .status .paused)

theorem stop_safe_iff (m : Meeting) : (stop m).Safe ↔ ¬ leaves m := by
  cases hcontainer : m.lookup.container with
  | error e => simp [stop, Stopping.Safe, leaves, hcontainer, Except.isOk, Except.toBool]
  | ok found =>
    cases hreload : m.reload with
    | notFound => simp [stop, Stopping.Safe, leaves, hcontainer, hreload]
    | failed => simp [stop, Stopping.Safe, leaves, hcontainer, hreload]
    | status seen =>
      cases seen with
      | running => cases hstops : m.stops <;>
          simp [stop, Stopping.Safe, leaves, hcontainer, hreload, hstops]
      | restarting => simp [stop, Stopping.Safe, leaves, hcontainer, hreload, canRun]
      | paused => simp [stop, Stopping.Safe, leaves, hcontainer, hreload, canRun]
      | created => simp [stop, Stopping.Safe, leaves, hcontainer, hreload, canRun]
      | removing => simp [stop, Stopping.Safe, leaves, hcontainer, hreload, canRun]
      | exited => simp [stop, Stopping.Safe, leaves, hcontainer, hreload, canRun]
      | dead => simp [stop, Stopping.Safe, leaves, hcontainer, hreload, canRun]

end DockerContainerController

open DockerContainerController in
/-- The order holds in every run; a returned stop is worth something unless Docker reports a
status that is neither running nor stopped. -/
theorem world_written_while_stopped (request : Request) (plan : Plan Exn Empty) (w : World)
    (m : Meeting) :
    WritesStopped (run request plan w).moments ∧ ((stop m).Safe ↔ ¬ leaves m) :=
  ⟨run_writesStopped request plan w, stop_safe_iff m⟩

open DockerContainerController in
/-- A container that Docker restarts is left to run again. -/
theorem restarting_container_left :
    ¬ ∀ (request : Request) (plan : Plan Exn Empty) (w : World) (m : Meeting),
      WritesStopped (run request plan w).moments ∧ (stop m).Safe := by
  intro h
  have hrestarting := (h { resolved := .error (.message "") } [] { root := .empty, running := true }
    { lookup := { reading := .status .restarting } }).2 rfl
  rcases hrestarting with hstopped | ⟨seen, hseen, hcannot⟩
  · cases hstopped
  · cases hseen
    cases hcannot

end RestoreWorker
