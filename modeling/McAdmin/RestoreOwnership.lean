import McAdmin.MarkerCounts
import McAdmin.ServiceLooks

/-!
# Who owns the world during a restore

While a restore is pending or its worker runs, no other operation may touch the server or launch a
worker, and no restore may begin while another worker runs.  The operations go on call by call, so
that a look is of use only while nothing begins between it and the call it is for.
-/

namespace RestoreOwnership

open AdminService hiding State server respond
open Calls hiding World Pool Step Record Caller
open Markers hiding World duty
open McAdmin Runs ServiceCore ServiceOperations

/-! ### The promise -/

/-- The safety backup is awaited, or the worker runs. -/
def InRestore (s : State) : Prop := s.pendingRestore.isSome = true ∨ s.restoreWorker = true

instance (s : State) : Decidable (InRestore s) := inferInstanceAs (Decidable (_ ∨ _))

/-- Neither of the two other workers runs. -/
def WorkersIdle (s : State) : Prop := s.opLevels = none ∧ s.updater = false

instance (s : State) : Decidable (WorkersIdle s) := inferInstanceAs (Decidable (_ ∧ _))

/-- The server is started, restarted or stopped, or another worker launched. -/
def isForeign : Effect → Bool
  | .restart | .start | .stop | .launchLevels | .launchUpdater => true
  | _ => false

/-- A restore is accepted or launched. -/
def begins : Effect → Bool
  | .accept _ | .launchRestore => true
  | _ => false

/-- In a restore no call acts on the server and no other worker runs, and a restore is neither
accepted nor launched while another worker runs. -/
structure Owned (cfg : Config) (r : Record) : Prop where
  others : ∀ e ∈ effect cfg r.before r.call, isForeign e = true → ¬InRestore r.before
  converse : ∀ e ∈ effect cfg r.before r.call, begins e = true → WorkersIdle r.before
  alone : InRestore r.before → WorkersIdle r.before

/-! ### The condition -/

/-- No restore was accepted or launched from the one state to the other. -/
def NoRestoreSince (s s' : State) : Prop :=
  s.accepted = s'.accepted ∧ s.restoresLaunched = s'.restoresLaunched

instance (s s' : State) : Decidable (NoRestoreSince s s') := inferInstanceAs (Decidable (_ ∧ _))

/-- Neither of the other workers was launched. -/
def NoWorkerSince (s s' : State) : Prop :=
  s.levelsLaunched = s'.levelsLaunched ∧ s.updatesLaunched = s'.updatesLaunched

instance (s s' : State) : Decidable (NoWorkerSince s s') := inferInstanceAs (Decidable (_ ∧ _))

/-- The request looks for a restore before it touches the server. -/
def looks : Request → Bool
  | .enterMaintenance .. | .exitMaintenance _ | .tickMaintenance _ => true
  | _ => false

def isRestoreLook : Call Port → Bool
  | .port (.outside .getPendingRestore) | .port (.outside .restoreRunning) => true
  | _ => false

/-- What is asked of a call by what it does: a request that looks for a restore, that none began
since it looked; another, that there was none when it came and none began since; and a restore,
that the other workers were idle when it was asked for and none was launched since, and that it
still waits when it is launched. -/
def Fair (k : Caller) (past : List Step) (s : State) : Effect → Prop
  | .restart | .start | .stop | .launchLevels | .launchUpdater =>
    if looks k.request = true then
      ∀ step ∈ past, isRestoreLook step.call = true → NoRestoreSince step.before s
    else ¬InRestore k.arrival ∧ NoRestoreSince k.arrival s
  | .accept _ => WorkersIdle k.arrival ∧ NoWorkerSince k.arrival s
  | .launchRestore => ∀ step ∈ past, isRestoreLook step.call = true → step.before.cleared = s.cleared
  | _ => True

instance (k : Caller) (past : List Step) (s : State) : DecidablePred (Fair k past s)
  | .restart | .start | .stop | .launchLevels | .launchUpdater =>
    inferInstanceAs (Decidable (if looks k.request = true then
        ∀ step ∈ past, isRestoreLook step.call = true → NoRestoreSince step.before s
      else ¬InRestore k.arrival ∧ NoRestoreSince k.arrival s))
  | .accept _ => inferInstanceAs (Decidable (_ ∧ _))
  | .launchRestore => inferInstanceAs (Decidable (∀ step ∈ past, _ → _))
  | .engage | .release | .clear => inferInstanceAs (Decidable True)

def Harmless (cfg : Config) (w : World) (k : Caller) (past : List Step) (c : Call Port) : Prop :=
  ∀ e ∈ effect cfg w.state c, Fair k past w.state e

instance (cfg : Config) (w : World) (k : Caller) (past : List Step) (c : Call Port) :
    Decidable (Harmless cfg w k past c) := by
  unfold Harmless
  infer_instance

/-! ### The invariant -/

/-- In a restore the other workers are idle, and what is not configured never runs. -/
structure Invariant (cfg : Config) (s : State) : Prop where
  idle : InRestore s → WorkersIdle s
  pending : s.pendingRestore.isSome = true → cfg.hasPendingRestore = true
  worker : s.restoreWorker = true → cfg.hasRestore = true

section

variable {cfg : Config} {s s' : State} {w : World} {k : Caller} {past : List Step} {c : Call Port}
  {e : Effect}

theorem Invariant.off (h : Invariant cfg s) (hoff : Off s s') : Invariant cfg s' := by
  constructor
  · intro hin
    have hidle : WorkersIdle s := by
      refine h.idle (hin.imp (fun hpending => hoff.pendingRestore ▸ hpending) fun hworker => ?_)
      by_contra hno
      rw [hoff.restoreWorker (Bool.eq_false_iff.mpr hno)] at hworker
      cases hworker
    exact ⟨hoff.opLevels hidle.1, hoff.updater hidle.2⟩
  · intro hpending
    exact h.pending (hoff.pendingRestore ▸ hpending)
  · intro hworker
    by_contra hno
    have hfalse : s.restoreWorker = false := Bool.eq_false_iff.mpr fun hs => hno (h.worker hs)
    rw [hoff.restoreWorker hfalse] at hworker
    cases hworker

theorem Invariant.apply (h : Invariant cfg s) (hcauses : Causes cfg s' c e)
    (hforeign : isForeign e = true → ¬InRestore s) (hbegins : begins e = true → WorkersIdle s) :
    Invariant cfg (e.apply s) := by
  cases hcauses with
  | restart | start | stop | engage | release => exact h.off (off_apply s (by simp))
  | launchLevels | launchUpdater =>
    exact ⟨fun hin => absurd hin (hforeign rfl), h.pending, h.worker⟩
  | accept pending hhas => exact ⟨fun _ => hbegins rfl, fun _ => hhas, h.worker⟩
  | clear =>
    refine ⟨fun hin => h.idle (hin.imp (fun hnone => ?_) id), fun hnone => ?_, h.worker⟩
    · cases hnone
    · cases hnone
  | launchRestore filename hhas => exact ⟨fun _ => hbegins rfl, h.pending, fun _ => hhas⟩

theorem Invariant.reborn (h : Invariant cfg s) : Invariant cfg (reborn s) := by
  refine ⟨fun hin => h.idle (.inr (hin.resolve_left ?_)), fun hnone => ?_, h.worker⟩
  · intro hnone
    cases hnone
  · cases hnone

/-! ### The calls -/

theorem not_inRestore_later (hlater : Later s s') (h : ¬InRestore s) (hsince : NoRestoreSince s s') :
    ¬InRestore s' := by
  rintro (hpending | hworker)
  · have hnone : s.pendingRestore = none := Option.not_isSome_iff_eq_none.mp fun hs => h (.inl hs)
    rw [hlater.accepted.holds hsince.1 hnone] at hpending
    cases hpending
  · have hfalse : s.restoreWorker = false := Bool.eq_false_iff.mpr fun hs => h (.inr hs)
    rw [hlater.restores.holds hsince.2 hfalse] at hworker
    cases hworker

theorem workersIdle_later (hlater : Later s s') (h : WorkersIdle s) (hsince : NoWorkerSince s s') :
    WorkersIdle s' :=
  ⟨hlater.levels.holds hsince.1 h.1, hlater.updates.holds hsince.2 h.2⟩

theorem not_inRestore_of_looked (h : Invariant cfg w.state)
    (hallowed : Allowed cfg (Harmless cfg) w k past c) (hlooked : Unrestored cfg (made past))
    (hsince : ∀ step ∈ past, isRestoreLook step.call = true → NoRestoreSince step.before w.state) :
    ¬InRestore w.state := by
  rintro (hpending | hworker)
  · obtain ⟨step, hstep, hcall, hanswer⟩ :=
      answer_of_mem hallowed.credible (hlooked.1 (h.pending hpending))
    have hlater := later_of_mem hallowed.sound hallowed.credible hstep
    have hnone : step.before.pendingRestore = none := eq_of_map hanswer
    rw [hlater.accepted.holds (hsince step hstep (by rw [hcall]; rfl)).1 hnone] at hpending
    cases hpending
  · obtain ⟨step, hstep, hcall, hanswer⟩ :=
      answer_of_mem hallowed.credible (hlooked.2 (h.worker hworker))
    have hlater := later_of_mem hallowed.sound hallowed.credible hstep
    have hfalse : step.before.restoreWorker = false := eq_of_map hanswer
    rw [hlater.restores.holds (hsince step hstep (by rw [hcall]; rfl)).2 hfalse] at hworker
    cases hworker

theorem looked_of_looks {r : Request} (h : looks r = true) : Looked cfg r = Unrestored cfg := by
  cases r with
  | enterMaintenance | exitMaintenance | tickMaintenance => rfl
  | _ => cases h

theorem not_inRestore_of_foreign (h : Invariant cfg w.state)
    (hallowed : Allowed cfg (Harmless cfg) w k past c) (he : effect cfg w.state c = some e)
    (hforeign : isForeign e = true) : ¬InRestore w.state := by
  have hfair : if looks k.request = true then
      ∀ step ∈ past, isRestoreLook step.call = true → NoRestoreSince step.before w.state
    else ¬InRestore k.arrival ∧ NoRestoreSince k.arrival w.state := by
    have hfair := hallowed.condition e he
    cases e with
    | restart | start | stop | launchLevels | launchUpdater => exact hfair
    | _ => cases hforeign
  split_ifs at hfair with hlooks
  · have htouches := (touches_of_causes (causes_of_effect he)).resolve_right fun hother => by
      rcases hother with rfl | ⟨pending, rfl⟩ <;> cases hforeign
    have hlooked := hallowed.duty.2 htouches
    rw [looked_of_looks hlooks] at hlooked
    exact not_inRestore_of_looked h hallowed hlooked hfair
  · exact not_inRestore_later hallowed.credible.arrived hfair.1 hfair.2

theorem workersIdle_of_begins (h : Invariant cfg w.state)
    (hallowed : Allowed cfg (Harmless cfg) w k past c) (he : effect cfg w.state c = some e)
    (hbegins : begins e = true) : WorkersIdle w.state := by
  have hfair := hallowed.condition e he
  have hduty := hallowed.duty.1
  cases causes_of_effect he with
  | accept pending _ => exact workersIdle_later hallowed.credible.arrived hfair.1 hfair.2
  | launchRestore filename _ =>
    obtain ⟨pending, hoffered⟩ := hduty
    obtain ⟨step, hstep, hcall, hanswer⟩ := answer_of_mem hallowed.credible hoffered
    have hlater := later_of_mem hallowed.sound hallowed.credible hstep
    have hsome : step.before.pendingRestore.isSome = true := by
      rw [eq_of_map hanswer]
      rfl
    exact h.idle (.inl (hlater.cleared.holds (hfair step hstep (by rw [hcall]; rfl)) hsome))
  | _ => cases hbegins

theorem owned_call (w : World) (k : Caller) (past : List Step) (c : Call Port) (χ : Surroundings)
    (hallowed : Allowed cfg (Harmless cfg) w k past c) (h : Invariant cfg w.state) :
    Invariant cfg (ServiceOperations.respond cfg χ c w.state).2 ∧
      Owned cfg ⟨(ServiceOperations.server cfg).stepOf χ c w.state, k, past⟩ := by
  refine ⟨?_, ?_⟩
  · apply respond_keeps fun service => h.off (off_service _ service)
    · intro e service he
      exact (h.off (off_service _ service)).apply (causes_of_effect he)
        (not_inRestore_of_foreign h hallowed he) (workersIdle_of_begins h hallowed he)
    · intro s happening hs
      exact hs.off (off_happen s happening)
  · constructor
    · intro e he
      exact not_inRestore_of_foreign h hallowed he
    · intro e he
      exact workersIdle_of_begins h hallowed he
    · exact h.idle

theorem invariant_initial : Invariant cfg {} := by
  refine ⟨fun hin => ?_, fun h => ?_, fun h => ?_⟩
  · rcases hin with h | h <;> cases h
  · cases h
  · cases h

end

/-- Over all the lives of the service. -/
theorem restore_owns_world (cfg : Config) (lives : List Life)
    (h : Along (leaves cfg) (Meeting cfg (Harmless cfg)) {} lives) :
    Along (leaves cfg) (fun s life => ∀ r ∈ (live cfg s life).world.trace, Owned cfg r) {} lives := by
  have hall := along_lives (I := Invariant cfg) (P := Owned cfg) (fun s => Invariant.reborn)
    owned_call invariant_initial h
  exact Along.of_invariant (P := fun _ => True) (fun _ _ _ _ => trivial)
    (fun _ _ _ hlife => hlife.2) trivial hall

/-! ### Runs -/

/-- A service with restores and a doorman. -/
def restoreConfig : Config :=
  { smallConfig with
    hasDoorman := true
    hasPendingRestore := true
    hasRestore := true
    hasArchiveChecks := true
    hasArchiveValidator := true }

/-- One archive, which is sound; the doorman is away, and every call gets through. -/
def atHand : Surroundings where
  answers
    | .now => .ok 0
    | .record _ => .ok ()
    | .port (.memory _) => .error ⟨.other, ""⟩
    | .port (.outside p) => match p with
      | .archivePath filename => .ok (some filename)
      | .listArchives => .ok [⟨"world.tgz", 1, 0⟩]
      | .archiveStatuses => .ok (Dict.set ∅ "world.tgz" ⟨"world.tgz", true, 1, "", 0, some true⟩)
      | .archiveChecking => .ok none
      | .triggerSafety => .ok ⟨true, ""⟩
      | .safetyRunning | .restoreRunning | .doormanRunning => .ok false
      | .getPendingRestore => .ok none
      | .setPendingRestore _ | .restartContainer | .notify _ => .ok ()
      | _ => .error ⟨.serverUnavailable, "RCON indisponible"⟩

/-- A request, and its turns one after the other. -/
def served (i : ℕ) (request : Request) : Life :=
  .arrive request :: (List.replicate 30 (.proceed i atHand))

/-- A restore is accepted, and the server cannot be closed meanwhile; after the service has begun
again it is restarted. -/
def restoreAmongRequests : List Life :=
  [served 0 (.restoreBackup owner "world.tgz") ++
      served 1 (.enterMaintenance owner "" "" (.finite 0) false),
    served 0 (.restart owner)]

theorem restore_owns_world_sample :
    Along (leaves restoreConfig)
      (fun s life => ∀ r ∈ (live restoreConfig s life).world.trace, Owned restoreConfig r) {}
      restoreAmongRequests :=
  restore_owns_world restoreConfig restoreAmongRequests (by decide +kernel)

/-- A restart while the safety backup of a restore is taken. -/
theorem restart_in_restore :
    ¬∀ (cfg : Config) (lives : List Life), Along (leaves cfg)
      (fun s life => ∀ r ∈ (live cfg s life).world.trace, Owned cfg r) {} lives := by
  intro h
  let life := served 0 (.restoreBackup owner "world.tgz") ++ served 1 (.restart owner)
  have howned := (h restoreConfig [life]).1
  have hrestart : ∃ r ∈ (live restoreConfig {} life).world.trace,
      effect restoreConfig r.before r.call = some .restart ∧ InRestore r.before := by
    decide +kernel
  obtain ⟨r, hr, heffect, hin⟩ := hrestart
  exact (howned r hr).others .restart heffect rfl hin

end RestoreOwnership
