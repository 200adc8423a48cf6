import McAdmin.RestoreTransaction

/-!
# Faults, crashes and recoveries of the restore worker

What the invariant says of whole runs: of one run whose steps may raise, of any
number of runs that are killed or made to raise anywhere, and of the undisturbed
run that follows them.
-/

namespace RestoreWorker

open CrashLogic FileTree

section

variable {T : Terms World Empty} {A B : Prop} {G : Folder Content → Prop} {up : Prop} {w : World}

/-! ### One run -/

/-- How a run that begins in `w` ends. -/
def ended (T : Terms World Empty) (A B : Prop) (G : Folder Content → Prop) (up : Prop)
    (w : World) : Post World Exn String where
  ok _ w' := Invariant A B G up w' ∧
    (Still T → w'.slot rollbackName = none ∧ (B → AllGone w' ∧ w'.running = true))
  raised _ w' := Invariant A B G up w' ∧
    (Still T → w'.slot rollbackName = none ∧
      (B → AllGone w' ∧ (w.slot stateName ≠ none → w'.running = true)))
  failed _ := Invariant A B G up
  killed := Invariant A B G up

theorem wp_restoreTransaction (hS : Setting T A B G) (request : Request)
    (hinv : Invariant A B G up w) (hready : w.rollbackReady = false) (hcalls : w.calls = [])
    (hG : ∀ f f', G f → Fulfilled request f f' → G f') :
    wp T (restoreTransaction request) (ended T A B G up w) w := by
  rw [restoreTransaction, wp_bind]
  refine wp_mono (wp_recoverInterruptedTransaction hS hinv) ⟨fun r w₁ h₁ => ?_, fun e w₁ h₁ => ?_,
    fun _ _ h => h, fun _ h => h⟩
  · obtain ⟨hgone, hlive, hinv₁, hnothing, hrunning⟩ := h₁
    cases r with
    | some target =>
      exact ⟨hinv₁, fun _ => ⟨hgone _ rollback_mem, fun hB => ⟨hgone, hrunning nofun hB⟩⟩⟩
    | none =>
      obtain ⟨hnone, hfields⟩ := hnothing rfl
      have hready₁ : w₁.rollbackReady = false := by
        rw [hfields]
        exact hready
      have hcalls₁ : w₁.calls = [] := by
        rw [hfields]
        exact hcalls
      have hG₁ : A → G w₁.root := fun hA => (hinv₁.held hA).live (Or.inl (hgone _ rollback_mem))
      have hup₁ : B → up → w₁.running = true := fun hB =>
        (hinv₁.recoverable hB).idle (hgone _ state_mem)
      refine wp_mono (wp_newTransaction hS request hgone hready₁ hcalls₁ hG₁ hup₁
        fun f' hf' hA => hG _ _ (hG₁ hA) hf') ⟨fun _ w₂ h₂ => ?_, fun _ w₂ h₂ => ?_,
        fun _ w₂ h₂ => h₂.inv, fun _ h => h⟩
      · exact ⟨h₂.inv, fun hs => ⟨h₂.still hs _ rollback_mem, fun _ => ⟨h₂.still hs, h₂.running⟩⟩⟩
      · exact ⟨h₂.inv, fun hs => ⟨h₂.still hs _ rollback_mem, fun _ => ⟨h₂.still hs,
          fun h => absurd hnone h⟩⟩⟩
  · exact ⟨h₁.1, fun _ => ⟨h₁.2.1, fun hB => ⟨(h₁.2.2 hB).2.1, fun _ => (h₁.2.2 hB).2.2⟩⟩⟩

/-- The surroundings of a run that may be struck where `P` says. -/
def struckWhere (P : Strike → World → Prop) : Terms World Empty :=
  ⟨alone, P, fun _ _ => True⟩

/-- The moment is not a strike, or one that `P` allows. -/
def OnlyWhere (P : Strike → World → Prop) : Moment World → Prop
  | .done _ _ => True
  | .struck k w => P k w

instance (P : Strike → World → Prop) [∀ k w, Decidable (P k w)] :
    ∀ m, Decidable (OnlyWhere P m)
  | .done _ _ => isTrue trivial
  | .struck k w => inferInstanceAs (Decidable (P k w))

theorem allows_of_onlyWhere {P : Strike → World → Prop} {m : Moment World} (h : OnlyWhere P m) :
    (struckWhere P).Allows m := by
  cases m <;> exact h

theorem run_holds {P : Strike → World → Prop} {request : Request}
    {Φ : Post World Exn String} (h : wp (struckWhere P) (restoreTransaction request) Φ w.fresh)
    (plan : Plan Exn Empty) (hplan : ∀ m ∈ (run request plan w).moments, OnlyWhere P m) :
    Φ.Holds (run request plan w).outcome (run request plan w).state :=
  (exec_sound (struckWhere P) (restoreTransaction request) h plan
    fun m hm => allows_of_onlyWhere (hplan m hm)).1

theorem Invariant.fresh (h : Invariant A B G up w) : Invariant A B G up w.fresh :=
  ⟨h.shape.congr rfl rfl h.shape.tmp, fun hA => ⟨(h.held hA).live, (h.held hA).kept⟩, fun hB =>
    ⟨(h.recoverable hB).usable, (h.recoverable hB).started, (h.recoverable hB).idle⟩⟩

theorem Post.Holds.invariant {outcome : Outcome Exn String} {w' : World}
    (h : (ended T A B G up w).Holds outcome w') : Invariant A B G up w' := by
  cases outcome with
  | ok => exact h.1
  | raised => exact h.elim (·.1) id
  | killed => exact h

section Runs

variable {P : Strike → World → Prop} {request : Request}

theorem run_invariant (hS : Setting (struckWhere P) A B G)
    (hG : ∀ f f', G f → Fulfilled request f f' → G f') (hinv : Invariant A B G up w)
    (plan : Plan Exn Empty) (hplan : ∀ m ∈ (run request plan w).moments, OnlyWhere P m) :
    Invariant A B G up (run request plan w).state :=
  Post.Holds.invariant
    (run_holds (wp_restoreTransaction hS request hinv.fresh rfl rfl hG) plan hplan)

theorem runs_invariant (hS : Setting (struckWhere P) A B G)
    (hG : ∀ f f', G f → Fulfilled request f f' → G f') (plans : List (Plan Exn Empty))
    (hinv : Invariant A B G up w)
    (hplans : ∀ m ∈ moments request plans w, OnlyWhere P m) :
    Invariant A B G up (runs request plans w) := by
  induction plans generalizing w with
  | nil => exact hinv
  | cons plan plans ih =>
    rw [moments] at hplans
    have hrun := run_invariant hS hG hinv plan fun m hm => hplans m (List.mem_append_left _ hm)
    exact ih hrun fun m hm => hplans m (List.mem_append_right _ hm)

theorem run_undisturbed (hclosed : ∀ f g, SameLive f g → G f → G g)
    (hG : ∀ f f', G f → Fulfilled request f f' → G f') (hinv : Invariant A B G up w) :
    Invariant A B G up (run request [] w).state ∧
      (run request [] w).state.slot rollbackName = none ∧
      (B → AllGone (run request [] w).state ∧
        ((∃ target, (run request [] w).outcome = .ok target) ∨ w.slot stateName ≠ none →
          (run request [] w).state.running = true)) := by
  have hS : Setting (struckWhere fun _ _ => False) A B G :=
    ⟨fun _ _ => trivial, fun _ _ _ h => h.elim, fun _ _ _ h => h.elim, hclosed⟩
  have hstill : Still (struckWhere fun _ _ => False) := fun _ _ h => h
  have hholds := run_holds (wp_marked (wp_restoreTransaction hS request hinv.fresh rfl rfl hG)) []
    fun m hm => match m, hm with
      | .done _ _, _ => trivial
      | .struck k w', hm => (exec_nil _ _ _).2 k w' hm
  cases houtcome : (run request [] w).outcome with
  | ok target =>
    rw [houtcome] at hholds
    obtain ⟨hrollback, hgone⟩ := hholds.2 hstill
    exact ⟨hholds.1, hrollback, fun hB => ⟨(hgone hB).1, fun _ => (hgone hB).2⟩⟩
  | raised e =>
    rw [houtcome] at hholds
    obtain ⟨hinv', hend⟩ := hholds.resolve_right fun h => h.2
    obtain ⟨hrollback, hgone⟩ := hend hstill
    exact ⟨hinv', hrollback, fun hB => ⟨(hgone hB).1, fun h => (hgone hB).2
      (h.resolve_left fun ⟨_, h⟩ => nomatch h)⟩⟩
  | killed =>
    rw [houtcome] at hholds
    exact hholds.2.elim

end Runs

end

/-! ### Faults without a crash -/

/-- A step that raises, before the handler of `restore_transaction` has begun. -/
def FaultBeforeHandler (k : Strike) (w : World) : Prop := k = .fail ∧ w.handling = false

instance (k : Strike) (w : World) : Decidable (FaultBeforeHandler k w) :=
  inferInstanceAs (Decidable (_ ∧ _))

structure Undone (f₀ : Folder Content) (w : World) : Prop where
  live : SameLive f₀ w.root
  rollback : w.slot rollbackName = none
  marker : w.slot stateName = none
  restarted : Call.stop ∈ w.calls → w.running = true

theorem wp_restoreUndone (request : Request) {w : World} (hgone : AllGone w)
    (hready : w.rollbackReady = false) (hcalls : w.calls = []) :
    wp (struckWhere FaultBeforeHandler) (restoreTransaction request)
      ⟨fun _ _ => True, fun _ => Undone w.root, fun _ => Undone w.root, fun _ => True⟩ w := by
  have hS : Setting (struckWhere FaultBeforeHandler) False False fun _ => True :=
    ⟨fun _ _ => trivial, fun h => h.elim, fun h => h.elim, fun _ _ _ _ => trivial⟩
  have hquiet : Quiet (struckWhere FaultBeforeHandler) := fun _ _ h => h
  have hidle : ∀ w₁, SameBut [stageName, stateTmpName] w w₁ → Undone w.root w₁ := by
    intro w₁ h₁
    refine ⟨h₁.sameLive (by decide), ?_, ?_, ?_⟩
    · rw [h₁.2 _ (by decide)]
      exact hgone _ rollback_mem
    · rw [h₁.2 _ (by decide)]
      exact hgone _ state_mem
    · rw [h₁.1, hcalls]
      exact nofun
  rw [restoreTransaction, wp_bind]
  refine wp_mono (wp_recoverNothing hS.free (hgone _ state_mem) (hgone _ rollback_mem)
    (Or.inl (hgone _ stateTmp_mem))) (Post.orCut_imp ?_
      (fun _ w₁ h₁ => hidle w₁ (h₁.mono (by decide))) fun _ _ => trivial)
  rintro _ w₁ ⟨rfl, hgone₁, hsame⟩
  have hended : ∀ w₂, Ended (struckWhere FaultBeforeHandler) False False (fun _ => True) False
      w₁.root w₂ → Undone w.root w₂ := by
    intro w₂ h₂
    obtain ⟨hlive, hrollback, hmarker, hrestarted⟩ := h₂.quiet hquiet
    exact ⟨(hsame.sameLive (by decide)).trans hlive, hrollback, hmarker, hrestarted⟩
  refine wp_mono (wp_newTransaction hS request hgone₁ ?_ ?_ (fun h => h.elim) (fun h => h.elim)
    fun _ _ h => h.elim) ⟨fun _ _ _ => trivial, fun _ => hended, fun _ => hended,
      fun _ _ => trivial⟩
  · rw [hsame.1]
    exact hready
  · rw [hsame.1]
    exact hcalls

/-- Whatever steps raise, a run that raises has put everything back. -/
theorem restore_undone_of_raised (request : Request) (plan : Plan Exn Empty) (w : World)
    (hgone : AllGone w)
    (hfaults : ∀ m ∈ (run request plan w).moments, OnlyWhere FaultBeforeHandler m) (e : Exn)
    (hraised : (run request plan w).outcome = .raised e) :
    Undone w.root (run request plan w).state := by
  have hholds := run_holds (wp_restoreUndone request (w := w.fresh) hgone rfl rfl) plan hfaults
  rw [hraised] at hholds
  exact hholds.elim id id

/-! ### Small runs -/

def sampleWorld : World where
  root := ⟨.cons "a" (.file (.bytes [1])) (.cons "b" (.file (.bytes [2])) .nil), rfl⟩
  running := true

def sampleRequest : Request where
  resolved := .ok ("a.tar.gz",
    { members := [{ name := "a", kind := .regular (some (.bytes [3])) }],
      inspection := { ok := true, restorable := true } })

def killAfter (steps : Nat) : Plan Exn Empty :=
  List.replicate steps ({} : Decision Exn Empty) ++ [{ verdict := .kill }]

def failAfter (steps : Nat) : Plan Exn Empty :=
  List.replicate steps ({} : Decision Exn Empty) ++ [{ verdict := .fail (.os .inputOutput) }]

theorem sampleWorld_gone : AllGone sampleWorld := by
  unfold AllGone
  decide

/-- The server does not come up with the restored world. -/
theorem restore_undone_of_raised_sample :
    (run sampleRequest (failAfter 76) sampleWorld).outcome =
        .raised (.message "restauration annulée, rollback appliqué : Input/output error") ∧
      Undone sampleWorld.root (run sampleRequest (failAfter 76) sampleWorld).state :=
  have hraised : (run sampleRequest (failAfter 76) sampleWorld).outcome =
      .raised (.message "restauration annulée, rollback appliqué : Input/output error") := by
    decide +kernel
  ⟨hraised, restore_undone_of_raised sampleRequest (failAfter 76) sampleWorld sampleWorld_gone
    (by decide +kernel) _ hraised⟩

/-! ### Crashes -/

/-- The complete original tree, or the complete restored one. -/
def CompleteTree (request : Request) (f f' : Folder Content) : Prop :=
  SameLive f f' ∨ Fulfilled request f f'

theorem CompleteTree.sameLive {request : Request} {f f' f'' : Folder Content}
    (h : CompleteTree request f f') (h' : SameLive f' f'') : CompleteTree request f f'' := by
  rcases h with h | ⟨target, archive, hrequest, h⟩
  · exact Or.inl (h.trans h')
  · exact Or.inr ⟨target, archive, hrequest, h.trans_sameLive h'⟩

theorem CompleteTree.fulfilled {request : Request} {f f' f'' : Folder Content}
    (h : CompleteTree request f f') (h' : Fulfilled request f' f'') :
    CompleteTree request f f'' := by
  obtain ⟨target, archive, hrequest, hrestored⟩ := h'
  refine Or.inr ⟨target, archive, hrequest, ?_⟩
  rcases h with h | ⟨target', archive', hrequest', h⟩
  · exact hrestored.of_sameLive h
  · rw [hrequest, Except.ok.injEq, Prod.mk.injEq] at hrequest'
    obtain ⟨rfl, rfl⟩ := hrequest'
    intro n hn
    rw [hrestored n hn, h n hn]
    by_cases hnone : (extractedTree archive).folder.get n = none
    · rw [if_pos hnone, if_pos hnone]
    · rw [if_neg hnone, if_neg hnone]

theorem CompleteTree.keeps {request : Request} {f f' : Folder Content}
    (h : CompleteTree request f f') {n : Name} (hn : n ∉ protectedRootNames)
    (hf : f.get n ≠ none) : f'.get n ≠ none := by
  have hview : ∀ t : Slot Content, t ≠ none → t.view ≠ Slot.view none :=
    fun t ht h => ht (Slot.view_eq_none.mp h)
  intro hnone
  rcases h with h | ⟨target, archive, _, h⟩
  · refine hview _ hf ?_
    rw [h n hn, hnone]
  · have hn' := h n hn
    rw [hnone] at hn'
    by_cases hstage : (extractedTree archive).folder.get n = none
    · rw [if_pos hstage] at hn'
      exact hview _ hf hn'.symm
    · rw [if_neg hstage] at hn'
      exact hview _ hstage hn'.symm

theorem invariant_of_gone {A B : Prop} {G : Folder Content → Prop} {w : World} (hgone : AllGone w)
    (hG : G w.root) : Invariant A B G (w.running = true) w :=
  .of_gone hgone (fun _ => hG) fun _ h => h

/-- Any number of runs, made to raise or killed anywhere except while the rollback
is partly removed under a marker that sends the next run to it: a complete tree
always stands at the root or in the rollback, and the undisturbed run that follows
leaves one at the root. -/
theorem restore_crash_safe (request : Request) (plans : List (Plan Exn Empty)) (w : World)
    (hgone : AllGone w)
    (hcuts : ∀ m ∈ moments request plans w, OnlyWhere (fun _ => RollbackWhole) m) :
    (CompleteTree request w.root (runs request plans w).root ∨
        (runs request plans w).slot rollbackName ≠ none ∧
          CompleteTree request w.root ((runs request plans w).slot rollbackName).folder) ∧
      CompleteTree request w.root (run request [] (runs request plans w)).state.root := by
  have hclosed : ∀ f g, SameLive f g → CompleteTree request w.root f →
      CompleteTree request w.root g := fun _ _ hlive h => h.sameLive hlive
  have hG : ∀ f f', CompleteTree request w.root f → Fulfilled request f f' →
      CompleteTree request w.root f' := fun _ _ h h' => h.fulfilled h'
  have hS : Setting (struckWhere fun _ => RollbackWhole) True False (CompleteTree request w.root) :=
    ⟨fun _ _ => trivial, fun _ _ _ h => h, fun h => h.elim, hclosed⟩
  have hinv := runs_invariant hS hG plans (invariant_of_gone hgone (Or.inl (.refl _))) hcuts
  have hheld := hinv.held trivial
  constructor
  · by_cases hthere : (runs request plans w).slot rollbackName = none
    · exact Or.inl (hheld.live (Or.inl hthere))
    · by_cases hphase : (runs request plans w).phase ∈ rollbackPhases.map some
      · exact Or.inr ⟨hthere, hheld.kept hthere hphase⟩
      · exact Or.inl (hheld.live (Or.inr hphase))
  · obtain ⟨hlast, hrollback, _⟩ := run_undisturbed hclosed hG hinv
    exact (hlast.held trivial).live (Or.inl hrollback)

/-- Killed while it applies the archive, then before the first file of the rollback is
removed. -/
theorem restore_crash_safe_sample :
    CompleteTree sampleRequest sampleWorld.root (run sampleRequest []
      (runs sampleRequest [killAfter 55, killAfter 18] sampleWorld)).state.root :=
  (restore_crash_safe sampleRequest [killAfter 55, killAfter 18] sampleWorld sampleWorld_gone
    (by decide +kernel)).2

/-- Killed while it applies the archive, then, in the recovery, after the first file of
the rollback is removed. -/
theorem restore_loses_file :
    ¬ ∀ (request : Request) (plans : List (Plan Exn Empty)) (w : World), AllGone w →
      (∀ plan ∈ plans, ∀ d ∈ plan, d.verdict = .go ∨ d.verdict = .kill) →
      CompleteTree request w.root (run request [] (runs request plans w)).state.root := by
  intro h
  have hlost : (run sampleRequest []
      (runs sampleRequest [killAfter 55, killAfter 19] sampleWorld)).state.root.get "a" = none := by
    decide +kernel
  have hcomplete := h sampleRequest [killAfter 55, killAfter 19] sampleWorld sampleWorld_gone
    (by decide)
  exact hcomplete.keeps (n := "a") (by decide) (by decide) hlost

/-! ### Recoveries -/

/-- The next run will find a branch to take, whether this one is killed here or made
to raise. -/
def LeavesRecovery (k : Strike) (w : World) : Prop :=
  MarkerUsable w ∧ ¬ (k = .fail ∧ Unmarked w)

instance (k : Strike) (w : World) : Decidable (LeavesRecovery k w) :=
  inferInstanceAs (Decidable (_ ∧ _))

theorem recovery_not_refused {B : Prop} {G : Folder Content → Prop} {up : Prop} {w : World}
    (hclosed : ∀ f g, SameLive f g → G f → G g) (hinv : Invariant False B G up w) (hB : B) :
    (exec alone recoverInterruptedTransaction [] w).outcome ≠ .raised (.message refusalMessage) := by
  have hS : Setting (struckWhere fun _ _ => False) False B G :=
    ⟨fun _ _ => trivial, fun h => h.elim, fun _ _ _ h => h.elim, hclosed⟩
  have hsound := (exec_sound (struckWhere fun _ _ => False) recoverInterruptedTransaction
    (wp_marked (wp_recoverInterruptedTransaction hS hinv)) [] fun m hm => match m, hm with
      | .done _ _, _ => trivial
      | .struck k w', hm => (exec_nil _ _ _).2 k w' hm).1
  intro hrefused
  have hraised := hsound
  rw [show (struckWhere fun _ _ => False).meddle = alone from rfl, hrefused] at hraised
  exact (((hraised.resolve_right fun h => h.2).2.2) hB).1 rfl

/-- Any number of runs, made to raise or killed anywhere except between the removal of
the rollback and that of a marker that needs it, or where the handler would write a
new marker without a rollback: the undisturbed run that follows closes the
transaction, with the server up. -/
theorem restore_recoverable (request : Request) (plans : List (Plan Exn Empty)) (w : World)
    (hgone : AllGone w) (hcuts : ∀ m ∈ moments request plans w, OnlyWhere LeavesRecovery m) :
    AllGone (run request [] (runs request plans w)).state ∧
      (w.running = true ∨ (runs request plans w).slot stateName ≠ none ∨
          (∃ target, (run request [] (runs request plans w)).outcome = .ok target) →
        (run request [] (runs request plans w)).state.running = true) ∧
      (exec alone recoverInterruptedTransaction [] (runs request plans w).fresh).outcome ≠
        .raised (.message refusalMessage) := by
  have hclosed : ∀ f g : Folder Content, SameLive f g → True → True := fun _ _ _ h => h
  have hG : ∀ f f', True → Fulfilled request f f' → True := fun _ _ h _ => h
  have hS : Setting (struckWhere LeavesRecovery) False True fun _ => True :=
    ⟨fun _ _ => trivial, fun h => h.elim, fun _ _ _ h => h, hclosed⟩
  have hinv := runs_invariant hS hG plans (invariant_of_gone hgone trivial) hcuts
  obtain ⟨hlast, _, hclosing⟩ := run_undisturbed hclosed hG hinv
  obtain ⟨hgone', hrunning⟩ := hclosing trivial
  refine ⟨hgone', ?_, recovery_not_refused hclosed hinv.fresh trivial⟩
  rintro (hup | hmarker | hok)
  · exact (hlast.recoverable trivial).idle (hgone' _ state_mem) hup
  · exact hrunning (Or.inr hmarker)
  · exact hrunning (Or.inl hok)

/-- Killed while it applies the archive, then before the last entry of the rollback is
removed. -/
theorem restore_recoverable_sample :
    AllGone (run sampleRequest []
        (runs sampleRequest [killAfter 55, killAfter 20] sampleWorld)).state ∧
      (run sampleRequest []
        (runs sampleRequest [killAfter 55, killAfter 20] sampleWorld)).state.running = true :=
  have h := restore_recoverable sampleRequest [killAfter 55, killAfter 20] sampleWorld
    sampleWorld_gone (by decide +kernel)
  ⟨h.1, h.2.1 (Or.inl rfl)⟩

/-- Killed while it applies the archive, then, in the recovery, between the removal of
the rollback and that of the marker. -/
theorem restore_refuses :
    ¬ ∀ (request : Request) (plans : List (Plan Exn Empty)) (w : World), AllGone w →
      w.running = true → (∀ plan ∈ plans, ∀ d ∈ plan, d.verdict = .go ∨ d.verdict = .kill) →
      AllGone (run request [] (runs request plans w)).state := by
  intro h
  have hleft : (run sampleRequest []
      (runs sampleRequest [killAfter 55, killAfter 21] sampleWorld)).state.slot stateName ≠
        none := by
    decide +kernel
  exact hleft (h sampleRequest [killAfter 55, killAfter 21] sampleWorld sampleWorld_gone rfl
    (by decide) _ state_mem)

end RestoreWorker
