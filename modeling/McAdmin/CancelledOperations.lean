import Mathlib.Data.Int.Notation
import Mathlib.Logic.Function.Basic
import McAdmin.Runs

/-!
# Cancelling what is pending

The pending restart and the pending closure are each a cell that a background thread
reads, clears and then acts on, and that any number of requests read and clear to
cancel it.  Each access to the cell is one step, and so is each check between them;
the cell's contents carry the number of the call that scheduled them.
-/

namespace CancelledOperations

open Runs

/-! ### The parties -/

/-- Which of the two: they differ in the checks around the clearing. -/
inductive Operation where
  | restart
  | maintenance

structure Pending where
  serial : ℕ
  dueAt : ℤ
  deferIfPlayers : Bool
deriving DecidableEq

/-- How far the tick has come with the operation it has read. -/
inductive TickPhase where
  | idle
  | due (p : Pending)
  | checked (p : Pending)
  | granted (p : Pending)
  | cleared (p : Pending)
deriving DecidableEq

inductive CallPhase where
  | idle
  | looked (p : Option Pending)
  | reporting (p : Pending)
deriving DecidableEq

inductive Act where
  | cancelled (p : Pending)
  | performed (p : Pending)
deriving DecidableEq

structure State where
  pending : Option Pending := none
  tick : TickPhase := .idle
  calls : ℕ → CallPhase := fun _ => .idle
  nextSerial : ℕ := 0
  journal : List Act := []

structure Moment where
  now : ℤ := 0
  restoring : Bool := false
  /-- The server answers that nobody is connected. -/
  confirmedEmpty : Bool := true
  opLevelsBusy : Bool := false
  /-- The doorman is known not to be able to take its place. -/
  unfit : Bool := false

/-- A check the tick makes: on failure it ends and leaves the operation pending. -/
def State.checkTo (s : State) (passes : Bool) (phase : TickPhase) : State :=
  { s with tick := if passes then phase else .idle }

def undisturbing (p : Pending) (m : Moment) : Bool := !p.deferIfPlayers || m.confirmedEmpty

/-- The next access of `tick_scheduled_restart` or of `tick_maintenance`. -/
def tickStep (operation : Operation) (m : Moment) (s : State) : State :=
  match s.tick with
  | .idle =>
    match s.pending with
    | none => s
    | some p => s.checkTo (p.dueAt ≤ m.now) (.due p)
  | .due p =>
    match operation with
    | .restart => s.checkTo (undisturbing p m) (.checked p)
    | .maintenance => s.checkTo (!m.restoring) (.checked p)
  | .checked p =>
    match operation with
    | .restart => s.checkTo (!m.opLevelsBusy) (.granted p)
    | .maintenance => s.checkTo (undisturbing p m) (.granted p)
  | .granted p => { s with pending := none, tick := .cleared p }
  | .cleared p =>
    match operation with
    | .restart => { s with tick := .idle, journal := s.journal ++ [.performed p] }
    | .maintenance =>
      if m.unfit then { s with tick := .idle }
      else { s with tick := .idle, journal := s.journal ++ [.performed p] }

def State.setCall (s : State) (i : ℕ) (phase : CallPhase) : State :=
  { s with calls := Function.update s.calls i phase }

/-- The next access of `cancel_scheduled_restart` or of `cancel_pending_maintenance`. -/
def cancelStep (i : ℕ) (s : State) : State :=
  match s.calls i with
  | .idle => s.setCall i (.looked s.pending)
  | .looked p =>
    let s' := { s with pending := none }
    match s.pending, p with
    | some _, some p => s'.setCall i (.reporting p)
    | _, _ => s'.setCall i .idle
  | .reporting p => { s.setCall i .idle with journal := s.journal ++ [.cancelled p] }

inductive Event where
  | tick (m : Moment)
  | cancel (i : ℕ)
  /-- A request schedules the operation, or the tick arms a recurring one. -/
  | schedule (dueAt : ℤ) (deferIfPlayers : Bool)
  /-- A reopening clears the cell and reports nothing. -/
  | clear

def step (operation : Operation) (s : State) : Event → State
  | .tick m => tickStep operation m s
  | .cancel i => cancelStep i s
  | .schedule dueAt deferIfPlayers =>
    { s with
      pending := some ⟨s.nextSerial, dueAt, deferIfPlayers⟩
      nextSerial := s.nextSerial + 1 }
  | .clear => { s with pending := none }

/-! ### What a cancellation promises -/

/-- Nothing that is reported as cancelled is performed afterwards. -/
def Kept (s : State) : Prop :=
  s.journal.Pairwise fun before after => ∀ p, before = .cancelled p → after ≠ .performed p

def TickPhase.held : TickPhase → Option Pending
  | .idle => none
  | .due p => some p
  | .checked p => some p
  | .granted p => some p
  | .cleared p => some p

/-- A request is about to report as cancelled what the tick is at work on. -/
def Overlaps (s : State) : Event → Prop
  | .cancel i => ∃ p, s.calls i = .reporting p ∧ s.tick.held = some p
  | _ => False

instance (s : State) (event : Event) : Decidable (Overlaps s event) :=
  match event with
  | .tick _ => isFalse id
  | .schedule _ _ => isFalse id
  | .clear => isFalse id
  | .cancel i =>
    match h : s.calls i with
    | .idle => isFalse (by simp [Overlaps, h])
    | .looked _ => isFalse (by simp [Overlaps, h])
    | .reporting p => decidable_of_iff (s.tick.held = some p) (by simp [Overlaps, h])

def CallPhase.seen : CallPhase → Option Pending
  | .idle => none
  | .looked p => p
  | .reporting p => some p

structure Invariant (s : State) : Prop where
  pending_lt : ∀ p, s.pending = some p → p.serial < s.nextSerial
  held_lt : ∀ p, s.tick.held = some p → p.serial < s.nextSerial
  seen_lt : ∀ i p, (s.calls i).seen = some p → p.serial < s.nextSerial
  cancelled_lt : ∀ p, .cancelled p ∈ s.journal → p.serial < s.nextSerial
  /-- What is about to be reported is no longer pending. -/
  gone : ∀ i p, s.calls i = .reporting p → s.pending ≠ some p
  /-- What is reported is neither pending nor at work. -/
  cancelled : ∀ p, .cancelled p ∈ s.journal → s.pending ≠ some p ∧ s.tick.held ≠ some p
  kept : Kept s

theorem initial_invariant : Invariant {} := by
  constructor
  · nofun
  · nofun
  · nofun
  · nofun
  · nofun
  · nofun
  · exact List.Pairwise.nil

section

variable {operation : Operation} {s : State}

theorem Invariant.setTick (h : Invariant s) (phase : TickPhase)
    (hphase : ∀ p, phase.held = some p → s.tick.held = some p) :
    Invariant { s with tick := phase } :=
  { h with
    held_lt := fun p hp => h.held_lt p (hphase p hp)
    cancelled := fun p hp => ⟨(h.cancelled p hp).1, fun hheld =>
      (h.cancelled p hp).2 (hphase p hheld)⟩ }

theorem Invariant.check (h : Invariant s) (passes : Bool) (phase : TickPhase)
    (hphase : ∀ p, phase.held = some p → s.tick.held = some p) :
    Invariant (s.checkTo passes phase) := by
  apply h.setTick
  intro p hp
  cases passes with
  | false => cases hp
  | true => exact hphase p hp

theorem Invariant.takeUp (h : Invariant s) {p : Pending} (hpending : s.pending = some p)
    (passes : Bool) : Invariant (s.checkTo passes (.due p)) := by
  cases passes with
  | false =>
    apply h.setTick
    intro q hq
    cases hq
  | true =>
    exact { h with
      held_lt := by
        rintro _ ⟨⟩
        exact h.pending_lt p hpending
      cancelled := by
        intro q hq
        refine ⟨(h.cancelled q hq).1, ?_⟩
        rintro ⟨⟩
        exact (h.cancelled p hq).1 hpending }

theorem Invariant.clear (h : Invariant s) : Invariant { s with pending := none } :=
  { h with
    pending_lt := nofun
    gone := nofun
    cancelled := fun p hp => ⟨nofun, (h.cancelled p hp).2⟩ }

theorem Invariant.perform (h : Invariant s) {p : Pending} (hheld : s.tick.held = some p) :
    Invariant { s with tick := .idle, journal := s.journal ++ [.performed p] } := by
  have hcancelled : ∀ q, .cancelled q ∈ s.journal ++ [.performed p] → .cancelled q ∈ s.journal := by
    intro q hq
    simpa using hq
  constructor
  · exact h.pending_lt
  · nofun
  · exact h.seen_lt
  · intro q hq
    exact h.cancelled_lt q (hcancelled q hq)
  · exact h.gone
  · intro q hq
    exact ⟨(h.cancelled q (hcancelled q hq)).1, nofun⟩
  · simp only [Kept]
    rw [List.pairwise_append]
    refine ⟨h.kept, List.pairwise_singleton _ _, ?_⟩
    intro before hbefore after hafter q hq
    subst hq
    rw [List.mem_singleton.mp hafter]
    rintro ⟨⟩
    exact (h.cancelled p hbefore).2 hheld

theorem Invariant.tick (h : Invariant s) (m : Moment) : Invariant (tickStep operation m s) := by
  simp only [tickStep]
  cases htick : s.tick with
  | idle =>
    cases hpending : s.pending with
    | none => exact h
    | some p => exact h.takeUp hpending _
  | due p | checked p =>
    cases operation with
    | restart => exact h.check _ _ (by rw [htick]; exact fun _ hp => hp)
    | maintenance => exact h.check _ _ (by rw [htick]; exact fun _ hp => hp)
  | granted p => exact h.clear.setTick (.cleared p) (by simp only [htick]; exact fun _ hp => hp)
  | cleared p =>
    have hheld : s.tick.held = some p := by rw [htick]; rfl
    cases operation with
    | restart => exact h.perform hheld
    | maintenance =>
      simp only
      split
      · exact h.setTick .idle nofun
      · exact h.perform hheld

theorem Invariant.setCall (h : Invariant s) (i : ℕ) (phase : CallPhase)
    (hseen : ∀ p, phase.seen = some p → p.serial < s.nextSerial)
    (hgone : ∀ p, phase = .reporting p → s.pending ≠ some p) :
    Invariant (s.setCall i phase) := by
  refine { h with seen_lt := ?_, gone := ?_ }
  · intro j p hp
    by_cases hj : j = i
    · subst hj
      simp only [State.setCall, Function.update_self] at hp
      exact hseen p hp
    · simp only [State.setCall, Function.update_of_ne hj] at hp
      exact h.seen_lt j p hp
  · intro j p hp
    by_cases hj : j = i
    · subst hj
      simp only [State.setCall, Function.update_self] at hp
      exact hgone p hp
    · simp only [State.setCall, Function.update_of_ne hj] at hp
      exact h.gone j p hp

theorem Invariant.report (h : Invariant s) {i : ℕ} {p : Pending}
    (hcall : s.calls i = .reporting p) (hheld : s.tick.held ≠ some p) :
    Invariant { s with journal := s.journal ++ [.cancelled p] } := by
  have hcancelled : ∀ q, .cancelled q ∈ s.journal ++ [.cancelled p] →
      .cancelled q ∈ s.journal ∨ q = p := by
    intro q hq
    simpa using hq
  refine { h with cancelled_lt := ?_, cancelled := ?_, kept := ?_ }
  · intro q hq
    rcases hcancelled q hq with hq | rfl
    · exact h.cancelled_lt q hq
    · exact h.seen_lt i q (by rw [hcall]; rfl)
  · intro q hq
    rcases hcancelled q hq with hq | rfl
    · exact h.cancelled q hq
    · exact ⟨h.gone i q hcall, hheld⟩
  · simp only [Kept]
    rw [List.pairwise_append]
    refine ⟨h.kept, List.pairwise_singleton _ _, ?_⟩
    intro before _ after hafter q _
    rw [List.mem_singleton.mp hafter]
    nofun

theorem Invariant.cancel (h : Invariant s) {i : ℕ} (hfair : ¬ Overlaps s (.cancel i)) :
    Invariant (cancelStep i s) := by
  simp only [cancelStep]
  cases hcall : s.calls i with
  | idle => exact h.setCall i _ h.pending_lt nofun
  | looked o =>
    have hlt : ∀ p, o = some p → p.serial < s.nextSerial := by
      intro p hp
      exact h.seen_lt i p (by rw [hcall]; exact hp)
    cases hpending : s.pending with
    | none => exact h.clear.setCall i .idle nofun nofun
    | some q =>
      cases o with
      | none => exact h.clear.setCall i .idle nofun nofun
      | some p =>
        apply h.clear.setCall i (.reporting p)
        · rintro _ ⟨⟩
          exact hlt p rfl
        · nofun
  | reporting p =>
    have hheld : s.tick.held ≠ some p := fun hheld => hfair ⟨p, hcall, hheld⟩
    exact (h.report hcall hheld).setCall i .idle nofun nofun

theorem Invariant.schedule (h : Invariant s) (dueAt : ℤ) (deferIfPlayers : Bool) :
    Invariant { s with
      pending := some ⟨s.nextSerial, dueAt, deferIfPlayers⟩
      nextSerial := s.nextSerial + 1 } := by
  -- what was seen before has a smaller number than what is scheduled now
  have hfresh : ∀ p : Pending, p.serial < s.nextSerial →
      some ⟨s.nextSerial, dueAt, deferIfPlayers⟩ ≠ some p := by
    rintro p hp ⟨⟩
    exact absurd hp (Nat.lt_irrefl _)
  constructor
  · rintro _ ⟨⟩
    exact Nat.lt_succ_self _
  · intro p hp
    exact Nat.lt_succ_of_lt (h.held_lt p hp)
  · intro i p hp
    exact Nat.lt_succ_of_lt (h.seen_lt i p hp)
  · intro p hp
    exact Nat.lt_succ_of_lt (h.cancelled_lt p hp)
  · intro i p hp
    exact hfresh p (h.seen_lt i p (by simp only at hp; rw [hp]; rfl))
  · intro p hp
    exact ⟨hfresh p (h.cancelled_lt p hp), (h.cancelled p hp).2⟩
  · exact h.kept

theorem Invariant.step {event : Event} (h : Invariant s) (hfair : ¬ Overlaps s event) :
    Invariant (CancelledOperations.step operation s event) := by
  cases event with
  | tick m => exact h.tick m
  | cancel i => exact h.cancel hfair
  | schedule dueAt deferIfPlayers => exact h.schedule dueAt deferIfPlayers
  | clear => exact h.clear

end

/-- In every run whose reports come when the tick is not at work on what they report,
nothing reported as cancelled is performed afterwards. -/
theorem cancelled_never_performed (operation : Operation) (events : List Event)
    (hfair : Along (step operation) (fun s event => ¬ Overlaps s event) {} events) :
    Kept (run (step operation) {} events) :=
  (run_induction (fun _ _ hs hevent => hs.step hevent) initial_invariant hfair).kept

/-- A cancellation before the tick reads the operation, and another operation carried out. -/
def timelyCancel : List Event :=
  [.schedule 10 false, .tick { now := 5 }, .cancel 0, .cancel 0, .cancel 0,
    .schedule 20 false, .tick { now := 20 }, .tick { now := 20 }, .tick { now := 20 },
    .tick { now := 20 }, .tick { now := 20 }]

theorem cancelled_never_performed_sample :
    Kept (run (step .restart) {} timelyCancel) :=
  cancelled_never_performed .restart timelyCancel (by decide +kernel)

/-- The tick has read the restart, a request cancels it, and the tick restarts. -/
theorem cancelled_restart_performed :
    ¬ ∀ (operation : Operation) (events : List Event),
      Kept (run (step operation) {} events) := by
  intro h
  have hkept := h .restart [.schedule 10 false, .tick { now := 10 }, .tick { now := 10 },
    .cancel 0, .cancel 0, .cancel 0, .tick { now := 10 }, .tick { now := 10 },
    .tick { now := 10 }]
  have hjournal : (run (step .restart) {} [.schedule 10 false, .tick { now := 10 },
      .tick { now := 10 }, .cancel 0, .cancel 0, .cancel 0, .tick { now := 10 },
      .tick { now := 10 }, .tick { now := 10 }]).journal =
        [.cancelled ⟨0, 10, false⟩, .performed ⟨0, 10, false⟩] := by decide +kernel
  simp only [Kept] at hkept
  rw [hjournal, List.pairwise_pair] at hkept
  exact hkept _ rfl rfl

end CancelledOperations
