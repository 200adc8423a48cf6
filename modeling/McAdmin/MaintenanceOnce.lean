import McAdmin.RestoreMaintenance

/-!
# A maintenance is engaged at most once

What closures, reopenings and cancellations do to the doorman when no restore is about.
A closure passes its look at the doorman, or, for the tick, finds an announcement due,
and from there on it goes on to stop the server and to engage the doorman.  When the doorman does
not engage, an alert says that it is missing.
-/

namespace MaintenanceOnce

open Runs RestoreMaintenance

/-- The operations on the maintenance, a reopening being a release and a cancellation. -/
def OfMaintenance : Event → Prop
  | .closure _ _ => True
  | .doormanReleased => True
  | .maintenanceCancelled => True
  | .serviceRestarted => True
  | _ => False

instance (event : Event) : Decidable (OfMaintenance event) := by
  cases event <;> simp only [OfMaintenance] <;> infer_instance

/-- The closure executes `_engage_maintenance`: it stops the server or calls the doorman. -/
def engages : Closure → Bool
  | .closing _ => true
  | .stopped _ => true
  | _ => false

/-- `_engage_maintenance` is executed only while the doorman does not hold the post. -/
def EngagedOnce (s : State) : Event → Prop
  | .closure c _ => engages (s.closures c) = true → s.doorman = none
  | _ => True

instance (s : State) (event : Event) : Decidable (EngagedOnce s event) := by
  cases event <;> simp only [EngagedOnce] <;> infer_instance

/-- `engage` raises, as it does when it finds the doorman in place, and "Portier de maintenance
absent" is notified. -/
def alerts (s : State) : Event → Bool
  | .closure c m =>
    match s.closures c with
    | .stopped _ => m.fate != .done || s.doorman.isSome
    | _ => false
  | _ => false

/-- The doorman is said to be missing only where it is. -/
def AlertTrue (s : State) (event : Event) : Prop :=
  alerts s event = true → (step s event).doorman = none

instance (s : State) (event : Event) : Decidable (AlertTrue s event) :=
  inferInstanceAs (Decidable (_ → _))

def Once (s : State) (event : Event) : Prop := EngagedOnce s event ∧ AlertTrue s event

instance (s : State) (event : Event) : Decidable (Once s event) :=
  inferInstanceAs (Decidable (_ ∧ _))

def committed : Closure → Bool
  | .wanted (.close _) => true
  | .pendingRead (.close _) _ => true
  | .operationRead (.close _) _ => true
  | .restoreChecked (.close _) _ => true
  | .ready (.close _) _ => true
  | .ready .engage _ => true
  | .cancelled _ => true
  | .closing _ => true
  | .stopped _ => true
  | _ => false

/-- A request that looks at a doorman in place can read its state; the tick finds an
announcement due only while there is no doorman; the start of the doorman does not raise once it
has taken effect; and when a closure engages the doorman no other one is past its look. -/
def Fair (s : State) : Event → Prop
  | .closure c m =>
    match s.closures c with
    | .restoreChecked .engage _ => s.doorman ≠ none → m.readable = true
    | .due => (∃ p ∈ s.pendingMaintenance, p.engageAt ≤ m.now) → s.doorman = none
    | .stopped _ => m.fate ≠ .failedAfter ∧
        (m.fate = .done → ∀ c' ≠ c, committed (s.closures c') = false)
    | _ => True
  | _ => True

def ofTick : Closure → Bool
  | .wanted .engage => false
  | .pendingRead .engage _ => false
  | .operationRead .engage _ => false
  | .restoreChecked .engage _ => false
  | _ => true

structure Invariant (s : State) : Prop where
  free : ∀ c, committed (s.closures c) = true → s.doorman = none
  tick : ofTick (s.closures .tick) = true

theorem initial_invariant : Invariant {} :=
  ⟨nofun, rfl⟩

section

variable {s : State} {c : Caller}

theorem Invariant.setClosure (h : Invariant s) (phase : Closure)
    (hfree : committed phase = true → s.doorman = none)
    (htick : c = .tick → ofTick phase = true) : Invariant (s.setClosure c phase) := by
  constructor
  · intro c' hc'
    by_cases heq : c' = c
    · subst heq
      simp only [State.setClosure, Function.update_self] at hc'
      exact hfree hc'
    · simp only [State.setClosure, Function.update_of_ne heq] at hc'
      exact h.free c' hc'
  · by_cases heq : Caller.tick = c
    · subst heq
      simp only [State.setClosure, Function.update_self]
      exact htick rfl
    · simp only [State.setClosure, Function.update_of_ne heq]
      exact h.tick

theorem closures_closureStep {c' : Caller} (hc : c' ≠ c) (m : Moment) :
    (closureStep c m s).closures c' = s.closures c' := by
  have hset : ∀ phase, (s.setClosure c phase).closures c' = s.closures c' :=
    fun _ => Function.update_of_ne hc ..
  simp only [RestoreMaintenance.closureStep]
  cases s.closures c with
  | idle =>
    cases c with
    | request i =>
      simp only
      split
      · exact hset _
      · rfl
    | tick => exact hset _
  | restoreChecked goal seen => cases c <;> exact hset _
  | ready goal seen => cases goal <;> exact hset _
  | stopped seen => cases m.fate <;> exact hset _
  | _ => exact hset _

theorem committed_endOf (goal : Goal) : committed (endOf c goal) = false := by
  cases c with
  | request i => rfl
  | tick => cases goal <;> rfl

theorem ofTick_endOf (goal : Goal) : ofTick (endOf c goal) = true := by
  cases c with
  | request i => rfl
  | tick => cases goal <;> rfl

theorem Invariant.closeTo (h : Invariant s) (goal : Goal) (passes : Bool) (phase : Closure)
    (hfree : passes = true → committed phase = true → s.doorman = none)
    (htick : c = .tick → ofTick phase = true) :
    Invariant (s.closeTo c goal passes phase) := by
  cases passes with
  | false =>
    apply h.setClosure
    · intro hcommitted
      rw [if_neg Bool.false_ne_true, committed_endOf] at hcommitted
      cases hcommitted
    · intro _
      rw [if_neg Bool.false_ne_true, ofTick_endOf]
  | true => exact h.setClosure phase (hfree rfl) htick

theorem Invariant.advanceTo (h : Invariant s) {phase phase' : Closure} (goal : Goal)
    (passes : Bool) (hphase : s.closures c = phase)
    (hcommitted : committed phase' = true → committed phase = true)
    (htick : ofTick phase = true → ofTick phase' = true) :
    Invariant (s.closeTo c goal passes phase') := by
  apply h.closeTo
  · intro _ hcommitted'
    apply h.free c
    rw [hphase]
    exact hcommitted hcommitted'
  · intro hc
    apply htick
    rw [← hphase, hc]
    exact h.tick

theorem Invariant.engage (h : Invariant s)
    (hothers : ∀ c', c' ≠ c → committed (s.closures c') = false) :
    Invariant { s.setClosure c .idle with doorman := some .maintenance, closed := s.closed + 1 } := by
  have hended : Invariant (s.setClosure c .idle) := h.setClosure .idle nofun fun _ => rfl
  refine ⟨?_, hended.tick⟩
  intro c' hc'
  by_cases heq : c' = c
  · subst heq
    simp only [State.setClosure, Function.update_self] at hc'
    cases hc'
  · simp only [State.setClosure, Function.update_of_ne heq] at hc'
    rw [hothers c' heq] at hc'
    cases hc'

theorem Invariant.idleStep (h : Invariant s) (m : Moment) (hphase : s.closures c = .idle) :
    Invariant (closureStep c m s) := by
  simp only [RestoreMaintenance.closureStep, hphase]
  cases c with
  | request i =>
    simp only
    split
    · apply h.setClosure
      · cases m.asked with
        | none => intro hcommitted; cases hcommitted
        | some p => intro hcommitted; cases hcommitted
      · intro htick
        cases htick
    · exact h
  | tick =>
    apply h.setClosure
    · cases s.pendingMaintenance <;> cases m.asked <;>
        (intro hcommitted; cases hcommitted)
    · intro _
      cases s.pendingMaintenance <;> cases m.asked <;> rfl

theorem Invariant.restoreCheckedStep (h : Invariant s) (m : Moment)
    (hfair : Fair s (.closure c m)) {goal : Goal} {seen : ℕ}
    (hphase : s.closures c = .restoreChecked goal seen) : Invariant (closureStep c m s) := by
  simp only [Fair] at hfair
  simp only [RestoreMaintenance.closureStep, hphase]
  cases c with
  | request i =>
    apply h.closeTo
    · intro hpasses hcommitted
      rw [hphase] at hfair
      cases goal with
      | announce p => cases hcommitted
      | engage =>
        by_contra hdoorman
        simp [doormanRunning, hfair hdoorman, Option.isSome_iff_ne_none.mpr hdoorman] at hpasses
      | close p => exact h.free _ (by rw [hphase]; rfl)
    · intro htick
      cases htick
  | tick =>
    cases goal with
    | announce p => exact h.advanceTo _ _ hphase id id
    | engage =>
      have htick := h.tick
      rw [hphase] at htick
      cases htick
    | close p => exact h.advanceTo _ _ hphase id id

theorem Invariant.readyStep (h : Invariant s) (m : Moment) {goal : Goal} {seen : ℕ}
    (hphase : s.closures c = .ready goal seen) : Invariant (closureStep c m s) := by
  simp only [RestoreMaintenance.closureStep, hphase]
  cases goal with
  | announce p =>
    have hended : Invariant (s.setClosure c (endOf c (.announce p))) := by
      apply h.setClosure
      · rw [committed_endOf]
        intro hcommitted
        cases hcommitted
      · intro _
        exact ofTick_endOf _
    exact ⟨hended.free, hended.tick⟩
  | engage =>
    exact h.setClosure _ (fun _ => h.free c (by rw [hphase]; rfl)) fun _ => rfl
  | close p =>
    have hcancelled : Invariant (s.setClosure c (.cancelled seen)) :=
      h.setClosure _ (fun _ => h.free c (by rw [hphase]; rfl)) fun _ => rfl
    exact ⟨hcancelled.free, hcancelled.tick⟩

theorem Invariant.closureStep (h : Invariant s) (m : Moment) (hfair : Fair s (.closure c m)) :
    Invariant (closureStep c m s) := by
  cases hphase : s.closures c with
  | idle => exact h.idleStep m hphase
  | restoreChecked goal seen => exact h.restoreCheckedStep m hfair hphase
  | ready goal seen => exact h.readyStep m hphase
  | arming p =>
    simp only [RestoreMaintenance.closureStep, hphase]
    exact h.closeTo _ _ _ (fun _ hcommitted => by cases hcommitted) fun _ => rfl
  | due =>
    simp only [Fair] at hfair
    rw [hphase] at hfair
    simp only [RestoreMaintenance.closureStep, hphase]
    cases hpending : s.pendingMaintenance with
    | none => exact h.setClosure .idle (fun hcommitted => by cases hcommitted) fun _ => rfl
    | some p =>
      simp only
      split
      · rename_i hdue
        exact h.setClosure _ (fun _ => hfair ⟨p, hpending, hdue⟩) fun _ => rfl
      · exact h.setClosure .idle (fun hcommitted => by cases hcommitted) fun _ => rfl
  | wanted goal | pendingRead goal seen | operationRead goal seen =>
    simp only [RestoreMaintenance.closureStep, hphase]
    cases goal <;> exact h.advanceTo _ _ hphase id id
  | cancelled seen | closing seen =>
    simp only [RestoreMaintenance.closureStep, hphase]
    exact h.advanceTo .engage _ hphase id id
  | stopped seen =>
    simp only [Fair] at hfair
    rw [hphase] at hfair
    simp only [RestoreMaintenance.closureStep, hphase]
    cases hfate : m.fate with
    | done => exact h.engage (hfair.2 hfate)
    | failed => exact h.setClosure .idle (fun hcommitted => by cases hcommitted) fun _ => rfl
    | failedAfter => exact absurd hfate hfair.1

theorem Invariant.step (h : Invariant s) {event : Event} (hevent : OfMaintenance event)
    (hfair : Fair s event) : Invariant (step s event) := by
  cases event with
  | closure c m => exact h.closureStep m hfair
  | doormanReleased => exact ⟨fun _ _ => rfl, h.tick⟩
  | maintenanceCancelled => exact ⟨h.free, h.tick⟩
  | serviceRestarted => exact ⟨nofun, rfl⟩
  | restore m => cases hevent
  | coordinator m => cases hevent
  | safetyEnded => cases hevent
  | workerEnded => cases hevent
  | workerEngages => cases hevent
  | dismiss => cases hevent

theorem committed_of_engages {phase : Closure} (h : engages phase = true) :
    committed phase = true := by
  cases phase <;> first | rfl | cases h

theorem Invariant.engagedOnce (h : Invariant s) (event : Event) : EngagedOnce s event := by
  cases event with
  | closure c m =>
    intro hengages
    exact h.free c (committed_of_engages hengages)
  | _ => trivial

theorem Invariant.alertTrue (h : Invariant s) {event : Event} (hfair : Fair s event) :
    AlertTrue s event := by
  cases event with
  | closure c m =>
    intro halerts
    simp only [alerts] at halerts
    cases hphase : s.closures c with
    | stopped seen =>
      rw [hphase] at halerts
      simp only [Fair, hphase] at hfair
      have hdoorman : s.doorman = none := h.free c (by rw [hphase]; rfl)
      have hraised : m.fate ≠ .done := by simpa [hdoorman] using halerts
      simp only [RestoreMaintenance.step, RestoreMaintenance.closureStep, hphase]
      cases hfate : m.fate with
      | done => exact absurd hfate hraised
      | failed => exact hdoorman
      | failedAfter => exact absurd hfate hfair.1
    | _ =>
      rw [hphase] at halerts
      cases halerts
  | _ => exact fun halerts => absurd halerts Bool.false_ne_true

end

/-- In every run of closures, cancellations and reopenings whose ticks find nothing due
while the doorman is in place, whose requests can read it, in which the start of the doorman does
not raise once it has taken effect and two closures do not pass their looks together: a maintenance
is engaged only while the doorman is not, and the doorman is said to be missing only where it is. -/
theorem maintenance_engaged_once (events : List Event)
    (hevents : ∀ event ∈ events, OfMaintenance event) (hfair : Along step Fair {} events) :
    Along step Once {} events := by
  have hboth : Along step (fun s event => OfMaintenance event ∧ Fair s event) {} events :=
    hfair.and_of_mem hevents
  apply hboth.of_invariant (P := Invariant)
  · intro s event h hevent
    exact h.step hevent.1 hevent.2
  · intro s event h hevent
    exact ⟨h.engagedOnce event, h.alertTrue hevent.2⟩
  · exact initial_invariant

/-- The server is closed at once, by a second attempt: in the first one the doorman does not start,
and the alert is true. -/
def closedAndReopened : List Event :=
  List.replicate 7 (.closure (.request 0) {}) ++ [.closure (.request 0) { fate := .failed }] ++
    List.replicate 8 (.closure (.request 0) {}) ++ [.doormanReleased, .maintenanceCancelled]

example : (run step {} closedAndReopened).closed = 1 := by decide +kernel

theorem maintenance_engaged_once_sample : Along step Once {} closedAndReopened := by
  apply maintenance_engaged_once closedAndReopened (by decide +kernel)
  refine ⟨trivial, trivial, trivial, trivial, fun h => absurd rfl h, trivial, trivial,
    ⟨by decide, fun h => absurd h (by decide)⟩, trivial, trivial, trivial, trivial,
    fun h => absurd rfl h, trivial, trivial, ⟨by decide, ?_⟩, trivial, trivial, trivial⟩
  intro _ c hc
  simp only [step, closures_closureStep hc]
  rfl

/-- A closure is announced, another request closes the server at once, and the tick engages
the announced one too. -/
theorem maintenance_engaged_twice :
    ¬ ∀ events : List Event, (∀ event ∈ events, OfMaintenance event) →
      Along step Once {} events := by
  intro h
  have hrun := h (List.replicate 6 (.closure (.request 0) { asked := some ⟨600, false⟩ }) ++
    List.replicate 8 (.closure (.request 1) {}) ++ List.replicate 9 (.closure .tick { now := 600 }))
    (by decide +kernel)
  exact absurd hrun (by decide +kernel)

end MaintenanceOnce
