import Mathlib.Data.Int.Notation
import Mathlib.Logic.Function.Basic
import McAdmin.RestoreGate
import McAdmin.Runs

/-!
# A restore and a maintenance

A restore is accepted by a request and then carried on by the coordinator; a
maintenance is announced or engaged by a request or by the tick.  Each side looks at
the other and writes its own state later, with no lock in common: each access to a
port is one step here, and the steps of the calls come in any order.
-/

namespace RestoreMaintenance

open Runs
open RestoreGate (Phase)

/-! ### The parties -/

inductive Doorman where
  | maintenance
  | restore
deriving DecidableEq

structure PendingMaintenance where
  engageAt : ℤ
  deferIfPlayers : Bool
deriving DecidableEq

/-- How far `restore_backup` has come, behind its lock.  `seen` numbers the closures at
its first look at the maintenance. -/
inductive RestoreCall where
  | idle
  | operationRead
  | pendingRead
  | workerRead
  | doormanRead (seen : ℕ)
  | maintenanceRead (seen : ℕ)
  | preflightPassed (seen : ℕ)
  | safetyStarted (seen : ℕ)
deriving DecidableEq

inductive CoordinatorTick where
  | idle
  | gating
  | abandoned
  | starting
  | started
  | recorded
  | failed
  | operation
deriving DecidableEq

inductive Goal where
  | announce (p : PendingMaintenance)
  | engage
  /-- The tick carries out what was announced. -/
  | close (p : PendingMaintenance)
deriving DecidableEq

/-- How far a closure has come.  `seen` numbers the acceptances at its first look at the
restore. -/
inductive Closure where
  | idle
  | arming (p : PendingMaintenance)
  | due
  | wanted (goal : Goal)
  | pendingRead (goal : Goal) (seen : ℕ)
  | operationRead (goal : Goal) (seen : ℕ)
  | restoreChecked (goal : Goal) (seen : ℕ)
  | ready (goal : Goal) (seen : ℕ)
  | cancelled (seen : ℕ)
  | closing (seen : ℕ)
  | stopped (seen : ℕ)
deriving DecidableEq

/-- The requests `enter_maintenance`, and the one tick. -/
inductive Caller where
  | request (i : ℕ)
  | tick
deriving DecidableEq

structure State where
  pendingRestore : Bool := false
  operation : Option Phase := none
  workerRunning : Bool := false
  safetyRunning : Bool := false
  pendingMaintenance : Option PendingMaintenance := none
  doorman : Option Doorman := none
  restoreCall : RestoreCall := .idle
  coordinator : CoordinatorTick := .idle
  closures : Caller → Closure := fun _ => .idle
  /-- The restores accepted so far. -/
  accepted : ℕ := 0
  /-- The maintenances announced or engaged so far. -/
  closed : ℕ := 0

inductive Fate where
  | done
  | failed
  | failedAfter
deriving DecidableEq

/-- What the coordinator finds out about the safety backup and the archives. -/
inductive Verdict where
  | wait
  | abandon
  | restore
deriving DecidableEq

structure Moment where
  now : ℤ := 0
  /-- The checks that involve neither of the two sides pass. -/
  passes : Bool := true
  readable : Bool := true
  fate : Fate := .done
  verdict : Verdict := .restore
  /-- The phase a restore under way is found to have reached. -/
  reached : Option Phase := none
  /-- What the request asks for, or what the list of maintenances has due. -/
  asked : Option PendingMaintenance := none

/-! ### The restore -/

def active (operation : Option Phase) : Bool := operation.any (!·.isFinal)

def State.setRestore (s : State) (phase : RestoreCall) : State := { s with restoreCall := phase }

/-- A check of the preflight: on failure the request is refused. -/
def State.restoreTo (s : State) (passes : Bool) (phase : RestoreCall) : State :=
  s.setRestore (if passes then phase else .idle)

def dismissed (s : State) : State :=
  if active s.operation then s else { s with operation := none }

/-- What `doorman.is_running()` answers: a state that cannot be read counts as stopped. -/
def doormanRunning (m : Moment) (s : State) : Bool := m.readable && s.doorman.isSome

/-- The next access of `restore_backup`. -/
def restoreStep (m : Moment) (s : State) : State :=
  match s.restoreCall with
  | .idle => (dismissed s).restoreTo (m.passes && !active s.operation) .operationRead
  | .operationRead => s.restoreTo (!s.pendingRestore) .pendingRead
  | .pendingRead => s.restoreTo (m.readable && !s.workerRunning) .workerRead
  | .workerRead => s.restoreTo (!doormanRunning m s) (.doormanRead s.closed)
  | .doormanRead seen => s.restoreTo s.pendingMaintenance.isNone (.maintenanceRead seen)
  | .maintenanceRead seen =>
    s.restoreTo (m.passes && m.readable && !s.safetyRunning) (.preflightPassed seen)
  | .preflightPassed seen =>
    match m.fate with
    | .done => { s with safetyRunning := true }.setRestore (.safetyStarted seen)
    | .failed => s.setRestore .idle
    | .failedAfter => { s with safetyRunning := true }.setRestore .idle
  | .safetyStarted _ =>
    { s.setRestore .idle with pendingRestore := true, accepted := s.accepted + 1 }

def State.setCoordinator (s : State) (phase : CoordinatorTick) : State :=
  { s with coordinator := phase }

/-- The next access of `tick_pending_restore`. -/
def coordinatorStep (m : Moment) (s : State) : State :=
  match s.coordinator with
  | .idle =>
    if m.passes then s.setCoordinator (if s.pendingRestore then .gating else .operation) else s
  | .gating =>
    match m.verdict with
    | .wait => s.setCoordinator .idle
    | .abandon => { s.setCoordinator .abandoned with pendingRestore := false }
    | .restore => s.setCoordinator .starting
  | .abandoned => { s.setCoordinator .idle with operation := some .failed }
  | .starting =>
    match m.fate with
    | .done => { s.setCoordinator .started with workerRunning := true }
    | .failed => s.setCoordinator .failed
    | .failedAfter => { s.setCoordinator .failed with workerRunning := true }
  | .started => { s.setCoordinator .recorded with operation := some .restoreRunning }
  | .recorded => { s.setCoordinator .idle with pendingRestore := false }
  | .failed => { s.setCoordinator .idle with pendingRestore := false }
  | .operation =>
    if active s.operation && m.reached.isSome then
      { s.setCoordinator .idle with operation := m.reached }
    else s.setCoordinator .idle

/-! ### The maintenance -/

def State.setClosure (s : State) (c : Caller) (phase : Closure) : State :=
  { s with closures := Function.update s.closures c phase }

/-- Where a call is when it is done with its goal: the tick first arms, then looks at
what is due. -/
def endOf : Caller → Goal → Closure
  | .tick, .announce _ => .due
  | _, _ => .idle

/-- A check on the way to a closure: on failure the goal is dropped. -/
def State.closeTo (s : State) (c : Caller) (goal : Goal) (passes : Bool) (phase : Closure) :
    State :=
  s.setClosure c (if passes then phase else endOf c goal)

/-- The next access of `enter_maintenance` or of `tick_maintenance`. -/
def closureStep (c : Caller) (m : Moment) (s : State) : State :=
  match s.closures c with
  | .idle =>
    match c with
    | .request _ =>
      if m.passes then
        s.setClosure c (.wanted (match m.asked with | some p => .announce p | none => .engage))
      else s
    | .tick =>
      s.setClosure c (match s.pendingMaintenance, m.asked with
        | none, some p => .arming p
        | _, _ => .due)
  | .arming p =>
    s.closeTo c (.announce p) (!doormanRunning m s) (.wanted (.announce p))
  | .due =>
    s.setClosure c (match s.pendingMaintenance with
      | none => .idle
      | some p => if p.engageAt ≤ m.now then .wanted (.close p) else .idle)
  | .wanted goal => s.closeTo c goal (!s.pendingRestore) (.pendingRead goal s.accepted)
  | .pendingRead goal seen => s.closeTo c goal (!active s.operation) (.operationRead goal seen)
  | .operationRead goal seen =>
    s.closeTo c goal (m.readable && !s.workerRunning) (.restoreChecked goal seen)
  | .restoreChecked goal seen =>
    match c with
    | .request _ => s.closeTo c goal (m.passes && !doormanRunning m s) (.ready goal seen)
    | .tick => s.closeTo c goal m.passes (.ready goal seen)
  | .ready (.announce p) _ =>
    { s.setClosure c (endOf c (.announce p)) with
      pendingMaintenance := some p, closed := s.closed + 1 }
  | .ready .engage seen => s.setClosure c (.closing seen)
  | .ready (.close _) seen => { s.setClosure c (.cancelled seen) with pendingMaintenance := none }
  | .cancelled seen => s.closeTo c .engage m.passes (.closing seen)
  | .closing seen => s.closeTo c .engage m.passes (.stopped seen)
  | .stopped _ =>
    match m.fate with
    | .failed => s.setClosure c .idle
    | _ => { s.setClosure c .idle with doorman := some .maintenance, closed := s.closed + 1 }

/-! ### The runs -/

inductive Event where
  | restore (m : Moment)
  | coordinator (m : Moment)
  | closure (c : Caller) (m : Moment)
  | safetyEnded
  | workerEnded
  /-- The worker's doorman takes the address while the worker is at work. -/
  | workerEngages
  /-- A reopening, the end of the worker, or a failure of the doorman. -/
  | doormanReleased
  /-- A cancellation, or a reopening. -/
  | maintenanceCancelled
  | dismiss
  | serviceRestarted

def step (s : State) : Event → State
  | .restore m => restoreStep m s
  | .coordinator m => coordinatorStep m s
  | .closure c m => closureStep c m s
  | .safetyEnded => { s with safetyRunning := false }
  | .workerEnded => { s with workerRunning := false }
  | .workerEngages =>
    if s.workerRunning && s.doorman.isNone then { s with doorman := some .restore } else s
  | .doormanReleased => { s with doorman := none }
  | .maintenanceCancelled => { s with pendingMaintenance := none }
  | .dismiss => dismissed s
  | .serviceRestarted =>
    { s with
      pendingRestore := false, operation := none, pendingMaintenance := none
      restoreCall := .idle, coordinator := .idle, closures := fun _ => .idle }

def InRestore (s : State) : Prop :=
  s.pendingRestore = true ∨ active s.operation = true ∨ s.workerRunning = true

def InMaintenance (s : State) : Prop :=
  s.pendingMaintenance ≠ none ∨ s.doorman = some .maintenance

instance (s : State) : Decidable (InRestore s) := inferInstanceAs (Decidable (_ ∨ _ ∨ _))

instance (s : State) : Decidable (InMaintenance s) := inferInstanceAs (Decidable (_ ∨ _))

def Exclusive (s : State) : Prop := ¬ (InRestore s ∧ InMaintenance s)

/-- What a call had seen when its next access is the one that accepts, announces or
engages. -/
def RestoreCall.writes : RestoreCall → Option ℕ
  | .safetyStarted seen => some seen
  | _ => none

def Closure.writes : Closure → Option ℕ
  | .ready (.announce _) seen => some seen
  | .stopped seen => some seen
  | _ => none

/-- The restore can read the state of a doorman that is engaged; no maintenance has been
announced or engaged since it looked, and no restore has been accepted since a closure
looked. -/
def Undisturbed (s : State) : Event → Prop
  | .restore m => (s.restoreCall = .workerRead → s.doorman = some .maintenance →
      m.readable = true) ∧ ∀ seen ∈ s.restoreCall.writes, seen = s.closed
  | .closure c _ => ∀ seen ∈ (s.closures c).writes, seen = s.accepted
  | _ => True

instance (s : State) (event : Event) : Decidable (Undisturbed s event) :=
  match event with
  | .restore m => inferInstanceAs (Decidable ((s.restoreCall = .workerRead →
      s.doorman = some .maintenance → m.readable = true) ∧
      ∀ seen ∈ s.restoreCall.writes, seen = s.closed))
  | .closure c _ => inferInstanceAs (Decidable (∀ seen ∈ (s.closures c).writes, seen = s.accepted))
  | .coordinator _ => isTrue trivial
  | .safetyEnded => isTrue trivial
  | .workerEnded => isTrue trivial
  | .workerEngages => isTrue trivial
  | .doormanReleased => isTrue trivial
  | .maintenanceCancelled => isTrue trivial
  | .dismiss => isTrue trivial
  | .serviceRestarted => isTrue trivial

/-! ### What the calls know -/

/-- What a request for a restore has seen of the maintenance, and whether it has looked at
the announcement too. -/
def RestoreCall.checked : RestoreCall → Option (ℕ × Bool)
  | .doormanRead seen => some (seen, false)
  | .maintenanceRead seen => some (seen, true)
  | .preflightPassed seen => some (seen, true)
  | .safetyStarted seen => some (seen, true)
  | _ => none

/-- What a closure has seen of the restore, and how many of its three looks it has made. -/
def Closure.checked : Closure → Option (ℕ × ℕ)
  | .pendingRead _ seen => some (seen, 1)
  | .operationRead _ seen => some (seen, 2)
  | .restoreChecked _ seen => some (seen, 3)
  | .ready _ seen => some (seen, 3)
  | .cancelled seen => some (seen, 3)
  | .closing seen => some (seen, 3)
  | .stopped seen => some (seen, 3)
  | _ => none

def CoordinatorTick.holds : CoordinatorTick → Bool
  | .gating => true
  | .starting => true
  | .started => true
  | .recorded => true
  | .failed => true
  | _ => false

def NoMaintenance (s : State) (both : Bool) : Prop :=
  s.doorman ≠ some .maintenance ∧ (both = true → s.pendingMaintenance = none)

def NoRestore (s : State) (looks : ℕ) : Prop :=
  s.pendingRestore = false ∧ (2 ≤ looks → active s.operation = false) ∧
    (3 ≤ looks → s.workerRunning = false)

structure Invariant (s : State) : Prop where
  exclusive : Exclusive s
  restore : ∀ seen both, s.restoreCall.checked = some (seen, both) →
    seen ≤ s.closed ∧ (seen = s.closed → NoMaintenance s both)
  closure : ∀ c seen looks, (s.closures c).checked = some (seen, looks) →
    seen ≤ s.accepted ∧ (seen = s.accepted → NoRestore s looks)
  coordinator : s.coordinator.holds = true → s.pendingRestore = true

theorem initial_invariant : Invariant {} := by
  constructor
  · rintro ⟨_, hmaintenance | hmaintenance⟩
    · exact hmaintenance rfl
    · cases hmaintenance
  · nofun
  · nofun
  · nofun

section

variable {s : State}

theorem NoMaintenance.not_inMaintenance (h : NoMaintenance s true) : ¬ InMaintenance s := by
  rintro (hpending | hdoorman)
  · exact hpending (h.2 rfl)
  · exact h.1 hdoorman

theorem NoRestore.not_inRestore (h : NoRestore s 3) : ¬ InRestore s := by
  rcases h with ⟨hpending, hoperation, hworker⟩
  simp [InRestore, hpending, hoperation, hworker]

/-! ### Steps of one call -/

theorem Invariant.setRestore (h : Invariant s) (phase : RestoreCall)
    (hphase : ∀ seen both, phase.checked = some (seen, both) →
      seen ≤ s.closed ∧ (seen = s.closed → NoMaintenance s both)) :
    Invariant (s.setRestore phase) :=
  { h with restore := hphase }

theorem Invariant.restoreTo (h : Invariant s) (passes : Bool) (phase : RestoreCall)
    (hphase : passes = true → ∀ seen both, phase.checked = some (seen, both) →
      seen ≤ s.closed ∧ (seen = s.closed → NoMaintenance s both)) :
    Invariant (s.restoreTo passes phase) := by
  cases passes with
  | false => exact h.setRestore .idle nofun
  | true => exact h.setRestore phase (hphase rfl)

theorem Invariant.setCoordinator (h : Invariant s) (phase : CoordinatorTick)
    (hphase : phase.holds = true → s.pendingRestore = true) :
    Invariant (s.setCoordinator phase) :=
  { h with coordinator := hphase }

theorem Invariant.setClosure (h : Invariant s) (c : Caller) (phase : Closure)
    (hphase : ∀ seen looks, phase.checked = some (seen, looks) →
      seen ≤ s.accepted ∧ (seen = s.accepted → NoRestore s looks)) :
    Invariant (s.setClosure c phase) := by
  refine { h with closure := ?_ }
  intro other seen looks hchecked
  by_cases hc : other = c
  · subst hc
    simp only [State.setClosure, Function.update_self] at hchecked
    exact hphase seen looks hchecked
  · simp only [State.setClosure, Function.update_of_ne hc] at hchecked
    exact h.closure other seen looks hchecked

theorem endOf_checked (c : Caller) (goal : Goal) : (endOf c goal).checked = none := by
  cases c with
  | request i => rfl
  | tick => cases goal <;> rfl

theorem Invariant.closeTo (h : Invariant s) (c : Caller) (goal : Goal) (passes : Bool)
    (phase : Closure) (hphase : passes = true → ∀ seen looks,
      phase.checked = some (seen, looks) →
      seen ≤ s.accepted ∧ (seen = s.accepted → NoRestore s looks)) :
    Invariant (s.closeTo c goal passes phase) := by
  cases passes with
  | false =>
    apply h.setClosure
    intro seen looks hchecked
    rw [if_neg Bool.false_ne_true, endOf_checked] at hchecked
    cases hchecked
  | true => exact h.setClosure c phase (hphase rfl)

/-! ### Steps that write -/

theorem Invariant.cancelMaintenance (h : Invariant s) :
    Invariant { s with pendingMaintenance := none } := by
  refine { h with exclusive := ?_, restore := ?_ }
  · rintro ⟨hrestore, hpending | hdoorman⟩
    · exact hpending rfl
    · exact h.exclusive ⟨hrestore, .inr hdoorman⟩
  · intro seen both hchecked
    rcases h.restore seen both hchecked with ⟨hle, hfresh⟩
    exact ⟨hle, fun heq => ⟨(hfresh heq).1, fun _ => rfl⟩⟩

theorem Invariant.setDoorman (h : Invariant s) {doorman : Option Doorman}
    (hdoorman : doorman ≠ some .maintenance) : Invariant { s with doorman } := by
  refine { h with exclusive := ?_, restore := ?_ }
  · rintro ⟨hrestore, hpending | hengaged⟩
    · exact h.exclusive ⟨hrestore, .inl hpending⟩
    · exact hdoorman hengaged
  · intro seen both hchecked
    rcases h.restore seen both hchecked with ⟨hle, hfresh⟩
    exact ⟨hle, fun heq => ⟨hdoorman, (hfresh heq).2⟩⟩

theorem Invariant.setRestoring (h : Invariant s) {pendingRestore workerRunning : Bool}
    {operation : Option Phase} (hpending : pendingRestore = true → s.pendingRestore = true)
    (hoperation : active operation = true → active s.operation = true)
    (hworker : workerRunning = true → s.workerRunning = true)
    (hcoordinator : s.coordinator.holds = true → pendingRestore = true) :
    Invariant { s with pendingRestore, workerRunning, operation } := by
  refine { h with exclusive := ?_, closure := ?_, coordinator := hcoordinator }
  · rintro ⟨hrestore, hmaintenance⟩
    exact h.exclusive ⟨hrestore.imp hpending (Or.imp hoperation hworker), hmaintenance⟩
  · intro c seen looks hchecked
    rcases h.closure c seen looks hchecked with ⟨hle, hfresh⟩
    refine ⟨hle, fun heq => ?_⟩
    rcases hfresh heq with ⟨hnot, hnotActive, hnotRunning⟩
    refine ⟨?_, fun htwo => ?_, fun hthree => ?_⟩
    · exact Bool.eq_false_iff.mpr fun htrue => Bool.eq_false_iff.mp hnot (hpending htrue)
    · exact Bool.eq_false_iff.mpr fun htrue =>
        Bool.eq_false_iff.mp (hnotActive htwo) (hoperation htrue)
    · exact Bool.eq_false_iff.mpr fun htrue =>
        Bool.eq_false_iff.mp (hnotRunning hthree) (hworker htrue)

theorem Invariant.carryOn (h : Invariant s) (hpending : s.pendingRestore = true)
    (workerRunning : Bool) (operation : Option Phase) :
    Invariant { s with workerRunning, operation } := by
  refine { h with exclusive := ?_, closure := ?_ }
  · rintro ⟨_, hmaintenance⟩
    exact h.exclusive ⟨.inl hpending, hmaintenance⟩
  · intro c seen looks hchecked
    rcases h.closure c seen looks hchecked with ⟨hle, hfresh⟩
    refine ⟨hle, fun heq => ?_⟩
    -- a closure that has looked since the acceptance has seen what is pending
    rcases hfresh heq with ⟨hnot, _⟩
    rw [hpending] at hnot
    cases hnot

theorem Invariant.accept (h : Invariant s) (hmaintenance : ¬ InMaintenance s) :
    Invariant { s with pendingRestore := true, accepted := s.accepted + 1 } := by
  refine { h with exclusive := ?_, closure := ?_, coordinator := fun _ => rfl }
  · rintro ⟨_, hin⟩
    exact hmaintenance hin
  · intro c seen looks hchecked
    have hle := (h.closure c seen looks hchecked).1
    exact ⟨Nat.le_succ_of_le hle, fun heq => absurd hle (by simp only at heq; omega)⟩

theorem Invariant.close (h : Invariant s) (hrestore : ¬ InRestore s)
    (pendingMaintenance : Option PendingMaintenance) (doorman : Option Doorman) :
    Invariant { s with pendingMaintenance, doorman, closed := s.closed + 1 } := by
  refine { h with exclusive := ?_, restore := ?_ }
  · rintro ⟨hin, _⟩
    exact hrestore hin
  · intro seen both hchecked
    have hle := (h.restore seen both hchecked).1
    exact ⟨Nat.le_succ_of_le hle, fun heq => absurd hle (by simp only at heq; omega)⟩

theorem Invariant.dismissed (h : Invariant s) : Invariant (dismissed s) := by
  simp only [RestoreMaintenance.dismissed]
  split
  · exact h
  · exact h.setRestoring id (fun hactive => by cases hactive) id h.coordinator

/-! ### The steps -/

theorem Invariant.restoreStep (h : Invariant s) (m : Moment)
    (hfair : Undisturbed s (.restore m)) : Invariant (restoreStep m s) := by
  have hkeep : ∀ seen both, s.restoreCall.checked = some (seen, both) →
      seen ≤ s.closed ∧ (seen = s.closed → NoMaintenance s both) := h.restore
  simp only [Undisturbed] at hfair
  simp only [RestoreMaintenance.restoreStep]
  cases hcall : s.restoreCall with
  | idle => exact h.dismissed.restoreTo _ _ nofun
  | operationRead => exact h.restoreTo _ _ nofun
  | pendingRead => exact h.restoreTo _ _ nofun
  | workerRead =>
    apply h.restoreTo
    rintro hpasses seen both ⟨⟩
    refine ⟨le_refl _, fun _ => ⟨fun hdoorman => ?_, nofun⟩⟩
    rw [doormanRunning, hfair.1 hcall hdoorman, hdoorman] at hpasses
    cases hpasses
  | doormanRead seen =>
    apply h.restoreTo
    rintro hpasses _ both ⟨⟩
    rcases hkeep seen false (by rw [hcall]; rfl) with ⟨hle, hfresh⟩
    exact ⟨hle, fun heq => ⟨(hfresh heq).1, fun _ => Option.isNone_iff_eq_none.mp hpasses⟩⟩
  | maintenanceRead seen =>
    apply h.restoreTo
    rintro _ _ both ⟨⟩
    exact hkeep seen true (by rw [hcall]; rfl)
  | preflightPassed seen =>
    have hstarted : Invariant { s with safetyRunning := true } := { h with }
    cases m.fate with
    | done =>
      apply hstarted.setRestore
      rintro _ both ⟨⟩
      exact hkeep seen true (by rw [hcall]; rfl)
    | failed => exact h.setRestore .idle nofun
    | failedAfter => exact hstarted.setRestore .idle nofun
  | safetyStarted seen =>
    -- no closure began since the look, so that what it saw still holds
    have heq : seen = s.closed := hfair.2 seen (by rw [hcall]; rfl)
    have hnone : NoMaintenance s true := (hkeep seen true (by rw [hcall]; rfl)).2 heq
    exact (h.setRestore .idle nofun).accept hnone.not_inMaintenance

theorem Invariant.coordinatorStep (h : Invariant s) (m : Moment) :
    Invariant (coordinatorStep m s) := by
  simp only [RestoreMaintenance.coordinatorStep]
  have hpending := h.coordinator
  cases hphase : s.coordinator with
  | idle =>
    simp only
    split
    · apply h.setCoordinator
      cases s.pendingRestore with
      | false => nofun
      | true => exact fun _ => rfl
    · exact h
  | gating =>
    rw [hphase] at hpending
    cases m.verdict with
    | wait => exact h.setCoordinator .idle nofun
    | abandon => exact (h.setCoordinator .abandoned nofun).setRestoring nofun id id nofun
    | restore => exact h.setCoordinator .starting hpending
  | abandoned => exact (h.setCoordinator .idle nofun).setRestoring id nofun id nofun
  | starting =>
    rw [hphase] at hpending
    cases m.fate with
    | done => exact (h.setCoordinator .started hpending).carryOn (hpending rfl) true s.operation
    | failed => exact h.setCoordinator .failed hpending
    | failedAfter =>
      exact (h.setCoordinator .failed hpending).carryOn (hpending rfl) true s.operation
  | started =>
    rw [hphase] at hpending
    exact (h.setCoordinator .recorded hpending).carryOn (hpending rfl) s.workerRunning _
  | recorded => exact (h.setCoordinator .idle nofun).setRestoring nofun id id nofun
  | failed => exact (h.setCoordinator .idle nofun).setRestoring nofun id id nofun
  | operation =>
    simp only
    split
    · rename_i hactive
      apply (h.setCoordinator .idle nofun).setRestoring id _ id nofun
      exact fun _ => (Bool.and_eq_true_iff.mp hactive).1
    · exact h.setCoordinator .idle nofun

theorem Invariant.advance (h : Invariant s) {c : Caller} {phase phase' : Closure}
    (hphase : s.closures c = phase) (hchecked : phase'.checked = phase.checked) :
    Invariant (s.setClosure c phase') := by
  apply h.setClosure
  intro seen looks hseen
  rw [hchecked, ← hphase] at hseen
  exact h.closure c seen looks hseen

theorem Invariant.advanceTo (h : Invariant s) {c : Caller} {phase phase' : Closure} (goal : Goal)
    (passes : Bool) (hphase : s.closures c = phase) (hchecked : phase'.checked = phase.checked) :
    Invariant (s.closeTo c goal passes phase') := by
  apply h.closeTo
  intro _ seen looks hseen
  rw [hchecked, ← hphase] at hseen
  exact h.closure c seen looks hseen

theorem Invariant.look (h : Invariant s) {c : Caller} {phase : Closure} {goal : Goal}
    {seen looks : ℕ} (passes : Bool) (phase' : Closure) (hphase : s.closures c = phase)
    (hchecked : phase.checked = some (seen, looks))
    (hchecked' : phase'.checked = some (seen, looks + 1))
    (hlook : passes = true → NoRestore s looks → NoRestore s (looks + 1)) :
    Invariant (s.closeTo c goal passes phase') := by
  apply h.closeTo
  intro hpasses seen' looks' hseen
  rw [hchecked'] at hseen
  cases hseen
  rw [← hphase] at hchecked
  rcases h.closure c seen looks hchecked with ⟨hle, hfresh⟩
  exact ⟨hle, fun heq => hlook hpasses (hfresh heq)⟩

theorem Invariant.closureStep (h : Invariant s) (c : Caller) (m : Moment)
    (hfair : Undisturbed s (.closure c m)) : Invariant (closureStep c m s) := by
  simp only [Undisturbed] at hfair
  simp only [RestoreMaintenance.closureStep]
  -- only the announcement and the engagement write, and both go by looks that still hold
  cases hphase : s.closures c with
  | idle =>
    cases c with
    | request i =>
      simp only
      split
      · apply h.setClosure
        cases m.asked <;> nofun
      · exact h
    | tick =>
      apply h.setClosure
      cases s.pendingMaintenance <;> cases m.asked <;> nofun
  | arming p => exact h.closeTo _ _ _ _ nofun
  | due =>
    apply h.setClosure
    cases s.pendingMaintenance with
    | none => nofun
    | some p =>
      simp only
      split <;> nofun
  | wanted goal =>
    apply h.closeTo
    rintro hpasses seen looks ⟨⟩
    refine ⟨le_refl _, fun _ => ⟨by simpa using hpasses, by omega, by omega⟩⟩
  | pendingRead goal seen =>
    apply h.look _ _ hphase rfl rfl
    intro hpasses hnone
    exact ⟨hnone.1, fun _ => by simpa using hpasses, by omega⟩
  | operationRead goal seen =>
    apply h.look _ _ hphase rfl rfl
    intro hpasses hnone
    simp only [Bool.and_eq_true, Bool.not_eq_true'] at hpasses
    exact ⟨hnone.1, fun _ => hnone.2.1 (le_refl _), fun _ => hpasses.2⟩
  | restoreChecked goal seen =>
    cases c with
    | request i => exact h.advanceTo goal _ hphase rfl
    | tick => exact h.advanceTo goal _ hphase rfl
  | ready goal seen =>
    cases goal with
    | announce p =>
      -- no restore was accepted since the first look, so that its answers still hold
      have heq : seen = s.accepted := hfair seen (by rw [hphase]; rfl)
      have hnone := (h.closure c seen 3 (by rw [hphase]; rfl)).2 heq
      have hended : Invariant (s.setClosure c (endOf c (.announce p))) := by
        apply h.setClosure
        rw [endOf_checked]
        nofun
      exact hended.close hnone.not_inRestore (some p) s.doorman
    | engage => exact h.advance hphase rfl
    | close p =>
      have hcancelled : Invariant (s.setClosure c (.cancelled seen)) := h.advance hphase rfl
      exact hcancelled.cancelMaintenance
  | cancelled seen => exact h.advanceTo .engage _ hphase rfl
  | closing seen => exact h.advanceTo .engage _ hphase rfl
  | stopped seen =>
    have heq : seen = s.accepted := hfair seen (by rw [hphase]; rfl)
    have hnone := (h.closure c seen 3 (by rw [hphase]; rfl)).2 heq
    have hended : Invariant (s.setClosure c .idle) := h.setClosure c .idle nofun
    have hengaged := hended.close hnone.not_inRestore s.pendingMaintenance (some .maintenance)
    cases m.fate with
    | done => exact hengaged
    | failed => exact hended
    | failedAfter => exact hengaged

theorem Invariant.step {event : Event} (h : Invariant s) (hfair : Undisturbed s event) :
    Invariant (step s event) := by
  cases event with
  | restore m => exact h.restoreStep m hfair
  | coordinator m => exact h.coordinatorStep m
  | closure c m => exact h.closureStep c m hfair
  | safetyEnded => exact { h with }
  | workerEnded => exact h.setRestoring id id nofun h.coordinator
  | workerEngages =>
    simp only [RestoreMaintenance.step]
    split
    · exact h.setDoorman nofun
    · exact h
  | doormanReleased => exact h.setDoorman nofun
  | maintenanceCancelled => exact h.cancelMaintenance
  | dismiss => exact h.dismissed
  | serviceRestarted =>
    have hcancelled := h.cancelMaintenance
    refine ⟨?_, nofun, nofun, nofun⟩
    rintro ⟨hrestore, hmaintenance⟩
    refine hcancelled.exclusive ⟨?_, hmaintenance⟩
    rcases hrestore with hpending | hactive | hworker
    · cases hpending
    · cases hactive
    · exact .inr (.inr hworker)

end

/-- In every run in which neither side writes on an outdated look at the other, no restore
is accepted while a maintenance is announced or engaged. -/
theorem restore_maintenance_exclusive (events : List Event)
    (hfair : Along step Undisturbed {} events) : Exclusive (run step {} events) :=
  (run_induction (fun _ _ hs hevent => hs.step hevent) initial_invariant hfair).exclusive

/-- A restore is carried through while a closure is refused; afterwards the server is
closed at once. -/
def restoreThenClosure : List Event :=
  List.replicate 8 (.restore {}) ++ List.replicate 2 (.closure (.request 0) {}) ++
    List.replicate 5 (.coordinator {}) ++
    [.workerEnded, .coordinator {}, .coordinator { reached := some .success }] ++
    List.replicate 8 (.closure (.request 1) {})

example : (run step {} restoreThenClosure).accepted = 1 ∧
    InMaintenance (run step {} restoreThenClosure) := by
  decide +kernel

theorem restore_maintenance_exclusive_sample : Exclusive (run step {} restoreThenClosure) :=
  restore_maintenance_exclusive restoreThenClosure (by decide +kernel)

/-- A restore looks at the maintenance, a closure is announced, and the restore is
accepted. -/
theorem restore_accepted_in_maintenance :
    ¬ ∀ events : List Event, Exclusive (run step {} events) := by
  intro h
  apply h (List.replicate 7 (.restore {}) ++
    List.replicate 6 (.closure (.request 0) { asked := some ⟨600, false⟩ }) ++ [.restore {}])
  decide +kernel

end RestoreMaintenance
