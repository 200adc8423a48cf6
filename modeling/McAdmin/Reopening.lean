import McAdmin.Doorman
import McAdmin.Runs

/-!
# Closing and reopening the server

`enter_maintenance` and the tick close the server: Minecraft is stopped, then the
doorman takes its place.  `exit_maintenance` is the way back, also from a closure that
failed half-way.  The state is that of the two containers and of the announcement; every
call of Docker or of the disk may fail, before or after its effect.
-/

namespace Reopening

open Runs
open Doorman

structure Messages where
  motd : String := ""
  kick : String := ""
deriving DecidableEq

structure PendingMaintenance where
  engageAt : ℤ
  messages : Messages := {}
  deferIfPlayers : Bool := false
deriving DecidableEq

structure State where
  minecraft : Bool := true
  /-- The status of the doorman's container, when there is one. -/
  doorman : Option Status := some .created
  /-- The file the doorman reads when it starts. -/
  instructions : Option Messages := none
  pending : Option PendingMaintenance := none
deriving DecidableEq

structure Moment where
  now : ℤ := 0
  /-- The caller may close the server, a doorman is configured, the delay is valid. -/
  allowed : Bool := true
  restoring : Bool := false
  /-- Docker answers about the doorman. -/
  readable : Bool := true
  unfit : Bool := false
  confirmedEmpty : Bool := true
  stop : Fate := .done
  /-- The instructions can be written. -/
  writes : Bool := true
  start : Fate := .done

/-- What `containers.get` answers about the doorman. -/
def State.lookup (s : State) (readable : Bool) : Lookup :=
  if readable then
    match s.doorman with
    | none => ⟨.notFound, true⟩
    | some status => ⟨.status status, true⟩
  else ⟨.failed, true⟩

/-! ### Closing -/

/-- The server is stopped first; when the doorman fails it stays stopped. -/
def engageMaintenance (m : Moment) (messages : Messages) (s : State) : State :=
  match m.stop with
  | .failed => s
  | .failedAfter => { s with minecraft := false }
  | .done =>
    let engaging := DockerDoorman.engage (s.lookup m.readable) m.writes m.start
    { s with
      minecraft := false
      instructions := if engaging.wrote then some messages else s.instructions
      doorman := if engaging.started then some .running else s.doorman }

def enterMaintenance (messages : Messages) (grace : Option PendingMaintenance) (m : Moment)
    (s : State) : State :=
  if m.allowed = false then s
  else if m.restoring then s
  else match DockerDoorman.isRunning (s.lookup m.readable) with
    | .error _ => s
    | .ok true => s
    | .ok false =>
      if m.unfit then s
      else match grace with
        | none => engageMaintenance m messages s
        | some p => { s with pending := some p }

def tickScheduledMaintenance (arms : Option PendingMaintenance) (m : Moment) (s : State) :
    State :=
  match s.pending, arms with
  | none, some p =>
    match DockerDoorman.isRunning (s.lookup m.readable) with
    | .ok true => s
    | _ => if m.restoring || m.unfit then s else { s with pending := some p }
  | _, _ => s

def tickPendingMaintenance (m : Moment) (s : State) : State :=
  match s.pending with
  | none => s
  | some p =>
    if m.now < p.engageAt then s
    else if m.restoring then s
    else if p.deferIfPlayers ∧ m.confirmedEmpty = false then s
    else if m.unfit then { s with pending := none }
    else engageMaintenance m p.messages { s with pending := none }

def tickMaintenance (arms : Option PendingMaintenance) (m : Moment) (s : State) : State :=
  if m.allowed = false then s
  else tickPendingMaintenance m (tickScheduledMaintenance arms m s)

/-! ### Reopening -/

/-- What a call of `exit_maintenance` meets. -/
structure Exit where
  allowed : Bool := true
  restoring : Bool := false
  release : Meeting
  start : Fate := .done

inductive Call where
  | release (r : Release)
  | start
deriving DecidableEq

/-- A container that has its network attached holds the address of the server. -/
def holdsAddress : Option Status → Bool
  | some .running => true
  | some .paused => true
  | some .restarting => true
  | _ => false

def starts (start : Fate) (s : State) : State :=
  if start = .failed ∨ holdsAddress s.doorman then s else { s with minecraft := true }

/-- The announcement is gone and the doorman, if the release has stopped it, too. -/
def cleared (m : Meeting) (s : State) : State :=
  { s with
    pending := none
    doorman := if DockerDoorman.stopped m then some .exited else s.doorman }

/-- The doorman is released before Minecraft is started. -/
def exitMaintenance (timeout : ℤ) (m : Exit) (s : State) : State × List Call :=
  if m.allowed = false then (s, [])
  else if m.restoring then (s, [])
  else
    let release := DockerDoorman.release timeout m.release
    if release.outcome = .returned then
      (starts m.start (cleared m.release s), [.release release, .start])
    else (cleared m.release s, [.release release])

/-- The start of the restore worker, `DoormanAwareController.start`. -/
def DoormanAwareController.start (timeout : ℤ) (m : Meeting) : List Call :=
  let release := DoormanController.release timeout m
  if release.outcome = .returned then [.release release, .start] else [.release release]

/-! ### Minecraft is started on a free address only -/

/-- The doorman has been released, and was last seen stopped or reported not to exist. -/
def Released (r : Release) : Prop :=
  r.outcome = .returned ∧ ∃ reading ∈ r.readings.getLast?, reading.free = true

def StartsFree (calls : List Call) : Prop :=
  .start ∈ calls → ∃ r, Released r ∧ [.release r, .start].Sublist calls

theorem startsFree_iff_safe (r : Release) :
    StartsFree (if r.outcome = .returned then [.release r, .start] else [.release r]) ↔
      r.Safe := by
  by_cases hreturned : r.outcome = .returned
  · rw [if_pos hreturned]
    constructor
    · intro h _
      rcases h (by simp) with ⟨r', hreleased, hsub⟩
      have heq : Call.release r' = .release r := by
        have := List.Sublist.eq_of_length hsub rfl
        exact (List.cons.inj this).1
      rw [Call.release.inj heq] at hreleased
      exact hreleased.2
    · intro h _
      exact ⟨r, ⟨hreturned, h hreturned⟩, List.Sublist.refl _⟩
  · rw [if_neg hreturned]
    constructor
    · intro _ h
      exact absurd h hreturned
    · intro _ h
      simp at h

theorem exitMaintenance_startsFree (timeout : ℤ) (m : Exit) (s : State) :
    StartsFree (exitMaintenance timeout m s).2 := by
  have hsafe := DockerDoorman.release_safe timeout m.release
  rw [← startsFree_iff_safe] at hsafe
  simp only [exitMaintenance]
  split
  · nofun
  · split
    · nofun
    · split <;> rename_i hreturned
      · rwa [if_pos hreturned] at hsafe
      · rwa [if_neg hreturned] at hsafe

structure FreeAddress (timeout timeout' : ℤ) (m : Exit) (s : State) (m' : Meeting) : Prop where
  released : (DockerDoorman.release timeout m.release).Safe
  reopened : StartsFree (exitMaintenance timeout m s).2
  released' : (DoormanController.release timeout' m').Safe
  restarted : StartsFree (DoormanAwareController.start timeout' m')

/-- On the side of the service a release that returns, and a start of Minecraft, always
follow an answer that leaves the address free; in the worker exactly when no error of
Docker is what ends the release. -/
theorem freeAddress_iff (timeout timeout' : ℤ) (m : Exit) (s : State) (m' : Meeting) :
    FreeAddress timeout timeout' m s m' ↔ DoormanController.swallows timeout' m' = false := by
  have hstart : StartsFree (DoormanAwareController.start timeout' m') ↔
      (DoormanController.release timeout' m').Safe := startsFree_iff_safe _
  have hsafe := DoormanController.release_safe_iff timeout' m'
  constructor
  · intro h
    exact hsafe.mp h.released'
  · intro h
    exact ⟨DockerDoorman.release_safe timeout m.release, exitMaintenance_startsFree timeout m s,
      hsafe.mpr h, hstart.mpr (hsafe.mpr h)⟩

/-- The worker's first lookup fails while the doorman is in place: Minecraft is started. -/
theorem minecraft_started_under_doorman :
    ¬ ∀ (timeout timeout' : ℤ) (m : Exit) (s : State) (m' : Meeting),
      FreeAddress timeout timeout' m s m' := by
  intro h
  have hrestarted := (h 15 15 ⟨true, false, ⟨⟨.notFound, true⟩, .notFound, true, 0, []⟩, .done⟩ {}
    ⟨⟨.failed, true⟩, .failed, true, 0, []⟩).restarted
  rcases hrestarted (by decide) with ⟨r, ⟨_, reading, hreading, hfree⟩, hsub⟩
  have hcalls := List.Sublist.eq_of_length hsub rfl
  have hrelease := Call.release.inj (List.cons.inj hcalls).1
  subst hrelease
  rw [Option.mem_def] at hreading
  cases hreading
  cases hfree

/-! ### Reopening from every state that can be reached -/

inductive Event where
  | enter (messages : Messages) (grace : Option PendingMaintenance) (m : Moment)
  | tick (arms : Option PendingMaintenance) (m : Moment)
  | exit (timeout : ℤ) (m : Exit)
  | cancel
  | serviceRestarted
  | doormanCreated
  | doormanRemoved
  | doormanExits
  | minecraftStops

def step (s : State) : Event → State
  | .enter messages grace m => enterMaintenance messages grace m s
  | .tick arms m => tickMaintenance arms m s
  | .exit timeout m => (exitMaintenance timeout m s).1
  | .cancel => { s with pending := none }
  | .serviceRestarted => { s with pending := none }
  | .doormanCreated => { s with doorman := s.doorman.or (some .created) }
  | .doormanRemoved => { s with doorman := none }
  | .doormanExits => { s with doorman := s.doorman.map fun _ => .exited }
  | .minecraftStops => { s with minecraft := false }

/-- The wait of a release sees the doorman as it is: running until its stop has taken effect,
which happens before the deadline. -/
def Stops (deadline : ℤ) (before after : Lookup) (turns : List Turn) : Prop :=
  ∃ slow turn rest, turns = slow ++ turn :: rest ∧
    (∀ t ∈ slow, t.lookup = before ∧ t.now < deadline) ∧ turn.lookup = after

structure Works (timeout : ℤ) (m : Exit) (s : State) : Prop where
  allowed : m.allowed = true
  restoring : m.restoring = false
  lookup : m.release.lookup = s.lookup true
  stops : m.release.stops = true
  turns : ∀ status, s.doorman = some status → Stops (m.release.now + timeout)
    ⟨.status status, true⟩ ⟨.status (if status = .running then .exited else status), true⟩
    m.release.turns
  start : m.start = .done

/-- Nothing is announced, the doorman does not run, and Minecraft is started. -/
structure Reopened (s : State) : Prop where
  pending : s.pending = none
  doorman : s.doorman ≠ some .running
  minecraft : s.minecraft = true

def Invariant (s : State) : Prop :=
  ∀ status, s.doorman = some status → status = .created ∨ status = .running ∨ status = .exited

theorem initial_invariant : Invariant {} := by
  intro status h
  exact .inl (Option.some.inj h).symm

section

variable {s : State}

theorem Invariant.engageMaintenance (h : Invariant s) (m : Moment) (messages : Messages) :
    Invariant (engageMaintenance m messages s) := by
  simp only [Reopening.engageMaintenance]
  split
  · exact h
  · exact h
  · intro status hstatus
    dsimp only at hstatus
    split at hstatus
    · exact .inr (.inl (Option.some.inj hstatus).symm)
    · exact h status hstatus

theorem Invariant.enterMaintenance (h : Invariant s) (messages : Messages)
    (grace : Option PendingMaintenance) (m : Moment) :
    Invariant (enterMaintenance messages grace m s) := by
  simp only [Reopening.enterMaintenance]
  split
  · exact h
  · split
    · exact h
    · split
      · exact h
      · exact h
      · split
        · exact h
        · split
          · exact h.engageMaintenance m messages
          · exact h

theorem Invariant.tickScheduledMaintenance (h : Invariant s) (arms : Option PendingMaintenance)
    (m : Moment) : Invariant (tickScheduledMaintenance arms m s) := by
  simp only [Reopening.tickScheduledMaintenance]
  split
  · split
    · exact h
    · split
      · exact h
      · exact h
  · exact h

theorem Invariant.tickPendingMaintenance (h : Invariant s) (m : Moment) :
    Invariant (tickPendingMaintenance m s) := by
  simp only [Reopening.tickPendingMaintenance]
  split
  · exact h
  · rename_i p _
    have hcleared : Invariant { s with pending := none } := h
    split
    · exact h
    · split
      · exact h
      · split
        · exact h
        · split
          · exact hcleared
          · exact hcleared.engageMaintenance m p.messages

theorem Invariant.starts (h : Invariant s) (start : Fate) : Invariant (starts start s) := by
  simp only [Reopening.starts]
  split
  · exact h
  · exact h

theorem Invariant.cleared (h : Invariant s) (m : Meeting) : Invariant (cleared m s) := by
  intro status hstatus
  simp only [Reopening.cleared] at hstatus
  split at hstatus
  · exact .inr (.inr (Option.some.inj hstatus).symm)
  · exact h status hstatus

theorem Invariant.exitMaintenance (h : Invariant s) (timeout : ℤ) (m : Exit) :
    Invariant (exitMaintenance timeout m s).1 := by
  simp only [Reopening.exitMaintenance]
  split
  · exact h
  · split
    · exact h
    · split
      · exact (h.cleared m.release).starts m.start
      · exact h.cleared m.release

theorem Invariant.step (h : Invariant s) (event : Event) : Invariant (step s event) := by
  cases event with
  | enter messages grace m => exact h.enterMaintenance messages grace m
  | tick arms m =>
    simp only [Reopening.step, tickMaintenance]
    split
    · exact h
    · exact (h.tickScheduledMaintenance arms m).tickPendingMaintenance m
  | exit timeout m => exact h.exitMaintenance timeout m
  | cancel => exact h
  | serviceRestarted => exact h
  | doormanCreated =>
    intro status hstatus
    rcases Option.or_eq_some_iff.mp hstatus with hbefore | ⟨_, hcreated⟩
    · exact h status hbefore
    · exact .inl (Option.some.inj hcreated).symm
  | doormanRemoved => nofun
  | doormanExits =>
    intro status hstatus
    rcases Option.map_eq_some_iff.mp hstatus with ⟨_, _, hexited⟩
    exact .inr (.inr hexited.symm)
  | minecraftStops => exact h

end

theorem reachable_invariant (events : List Event) : Invariant (run step {} events) := by
  apply run_induction (Q := fun _ _ => True)
  · intro _ event h _
    exact h.step event
  · exact initial_invariant
  · exact Along.of_forall (fun _ _ => trivial) _ events

/-! ### What a release achieves when everything works -/

theorem await_returns {deadline : ℤ} {before after : Status} (hafter : after ≠ .running)
    {turns : List Turn}
    (h : Stops deadline ⟨.status before, true⟩ ⟨.status after, true⟩ turns) :
    (DockerDoorman.await deadline turns).outcome = .returned := by
  rcases h with ⟨slow, turn, rest, rfl, hslow, hturn⟩
  induction slow with
  | nil => simp [DockerDoorman.await, hturn, hafter]
  | cons t slow ih =>
    rcases hslow t (List.mem_cons_self ..) with ⟨hlookup, hearly⟩
    have hrest := ih fun t' ht' => hslow t' (List.mem_cons_of_mem _ ht')
    by_cases hbefore : before = .running
    · simpa [DockerDoorman.await, hlookup, hbefore, Int.not_le.mpr hearly] using hrest
    · simp [DockerDoorman.await, hlookup, hbefore]

section

variable {s : State} {timeout : ℤ} {m : Exit}

theorem Works.release_returns (h : Works timeout m s) {status : Status}
    (hstatus : s.doorman = some status) :
    (DockerDoorman.release timeout m.release).outcome = .returned := by
  have hlookup : m.release.lookup = ⟨.status status, true⟩ := by
    rw [h.lookup]
    simp [State.lookup, hstatus]
  have hafter : (if status = .running then Status.exited else status) ≠ .running := by
    split
    · nofun
    · assumption
  have hreturned := await_returns hafter (h.turns status hstatus)
  simpa [DockerDoorman.release, hlookup, h.stops] using hreturned

theorem Works.release_raised (h : Works timeout m s) (hstatus : s.doorman = none) :
    (DockerDoorman.release timeout m.release).outcome = .raised .failure := by
  have hlookup : m.release.lookup = ⟨.notFound, true⟩ := by
    rw [h.lookup]
    simp [State.lookup, hstatus]
  simp [DockerDoorman.release, hlookup]

theorem Works.cleared_doorman (h : Works timeout m s) (hs : Invariant s) :
    holdsAddress (cleared m.release s).doorman = false := by
  have hlookup := h.lookup
  simp only [State.lookup, ↓reduceIte] at hlookup
  simp only [cleared, DockerDoorman.stopped, hlookup]
  cases hstatus : s.doorman with
  | none => rfl
  | some status =>
    rcases hs status hstatus with rfl | rfl | rfl
    · rfl
    · simp [h.stops, holdsAddress]
    · rfl

theorem Works.exit_of_some (h : Works timeout m s) (hs : Invariant s) {status : Status}
    (hstatus : s.doorman = some status) :
    (exitMaintenance timeout m s).1 = { cleared m.release s with minecraft := true } := by
  simp [exitMaintenance, h.allowed, h.restoring, h.release_returns hstatus, starts, h.start,
    h.cleared_doorman hs]

theorem Works.exit_of_none (h : Works timeout m s) (hstatus : s.doorman = none) :
    (exitMaintenance timeout m s).1 = cleared m.release s := by
  simp [exitMaintenance, h.allowed, h.restoring, h.release_raised hstatus]

theorem Works.reopened_iff (h : Works timeout m s) (hs : Invariant s) :
    Reopened (exitMaintenance timeout m s).1 ↔ s.doorman ≠ none ∨ s.minecraft = true := by
  have hfree : (cleared m.release s).doorman ≠ some .running := by
    intro hrunning
    have hholds := h.cleared_doorman hs
    rw [hrunning] at hholds
    cases hholds
  cases hstatus : s.doorman with
  | none =>
    rw [h.exit_of_none hstatus]
    constructor
    · intro hreopened
      exact .inr hreopened.minecraft
    · rintro (hexists | hminecraft)
      · exact absurd rfl hexists
      · exact ⟨rfl, hfree, hminecraft⟩
  | some status =>
    rw [h.exit_of_some hs hstatus]
    constructor
    · intro _
      exact .inl nofun
    · intro _
      exact ⟨rfl, hfree, rfl⟩

end

/-- From every state that closures, ticks, reopenings and their failures lead to, one
reopening with everything working recovers the server if and only if the doorman's
container exists, or Minecraft was running all along. -/
theorem reopening_recovers_iff (events : List Event) (timeout : ℤ) (m : Exit)
    (hworks : Works timeout m (run step {} events)) :
    Reopened (exitMaintenance timeout m (run step {} events)).1 ↔
      (run step {} events).doorman ≠ none ∨ (run step {} events).minecraft = true :=
  hworks.reopened_iff (reachable_invariant events)

/-- The doorman starts although its start is reported as failed. -/
def halfEngaged : List Event := [.enter {} none { start := .failedAfter }]

def reopening : Exit :=
  { release :=
      { lookup := ⟨.status .running, true⟩
        turns := [{ lookup := ⟨.status .running, true⟩, now := 3 },
          { lookup := ⟨.status .exited, true⟩, now := 4 }] } }

theorem reopening_recovers_sample :
    Works 15 reopening (run step {} halfEngaged) ∧
      (Reopened (exitMaintenance 15 reopening (run step {} halfEngaged)).1 ↔
        (run step {} halfEngaged).doorman ≠ none ∨ (run step {} halfEngaged).minecraft = true) := by
  have hworks : Works 15 reopening (run step {} halfEngaged) := by
    constructor
    · rfl
    · rfl
    · rfl
    · rfl
    · intro status hstatus
      cases hstatus
      exact ⟨[{ lookup := ⟨.status .running, true⟩, now := 3 }], _, [], rfl, by decide, rfl⟩
    · rfl
  exact ⟨hworks, reopening_recovers_iff halfEngaged 15 reopening hworks⟩

/-- The doorman's container has been removed when the server is closed: it cannot be
reopened this way. -/
theorem server_not_reopened :
    ¬ ∀ (events : List Event) (timeout : ℤ) (m : Exit),
      Works timeout m (run step {} events) →
        Reopened (exitMaintenance timeout m (run step {} events)).1 := by
  intro h
  have hreopened := h [.doormanRemoved, .enter {} none {}] 15
    { release := { lookup := ⟨.notFound, true⟩ } } ⟨rfl, rfl, rfl, rfl, nofun, rfl⟩
  exact absurd hreopened.minecraft (by decide)

end Reopening
