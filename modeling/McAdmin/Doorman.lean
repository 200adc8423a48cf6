import Mathlib.Data.Int.Notation

/-!
# The doorman

The doorman is a container that takes the address of the server while Minecraft is
stopped.  The service drives it through `DockerDoorman`, the restore worker through
`DoormanController`.  Both wait on release until Docker no longer reports it running,
and each has its own way with what Docker cannot answer.  A call meets the answers of
Docker in order; a wait that is not over when the answers end is still waiting.
-/

namespace Doorman

inductive Status where
  | created
  | running
  | paused
  | restarting
  | removing
  | exited
  | dead
deriving DecidableEq

inductive Reading where
  | status (status : Status)
  | notFound
  /-- The proxy or Docker did not answer. -/
  | failed
deriving DecidableEq

/-- The answer to `containers.get`, and whether the container found bears the name. -/
structure Lookup where
  reading : Reading
  named : Bool := true
deriving DecidableEq

inductive Error where
  /-- The container found is not the doorman. -/
  | unauthorized
  /-- An error of Docker, or of the disk. -/
  | failure
  | alreadyEngaged
  | stillRunning
deriving DecidableEq

inductive Fate where
  | done
  | failed
  | failedAfter
deriving DecidableEq

/-- How a call of `release` ends. -/
inductive Outcome where
  | returned
  | raised (error : Error)
  | waiting
deriving DecidableEq

/-- A call of `release`: its end, and what its looks at the container were answered. -/
structure Release where
  outcome : Outcome
  readings : List Reading := []
deriving DecidableEq

def Release.saw (reading : Reading) (r : Release) : Release :=
  { r with readings := reading :: r.readings }

@[simp] theorem Release.saw_outcome (reading : Reading) (r : Release) :
    (r.saw reading).outcome = r.outcome := rfl

@[simp] theorem Release.saw_readings (reading : Reading) (r : Release) :
    (r.saw reading).readings = reading :: r.readings := rfl

/-- One turn of the wait.  Only the worker reloads the container it has looked up. -/
structure Turn where
  lookup : Lookup
  reload : Reading := lookup.reading
  now : ℤ := 0

/-- What a call of `release` meets. -/
structure Meeting where
  lookup : Lookup
  reload : Reading := lookup.reading
  /-- `container.stop` returns. -/
  stops : Bool := true
  now : ℤ := 0
  turns : List Turn := []

/-- `_container`: the lookup and the check of the name. -/
def Lookup.container (l : Lookup) : Except Error Status :=
  match l.reading with
  | .status status => if l.named then .ok status else .error .unauthorized
  | .notFound => .error .failure
  | .failed => .error .failure

/-! ### The doorman of the service -/

namespace DockerDoorman

/-- A call of `engage`: its error, whether the instructions were written and the container
started. -/
structure Engaging where
  error : Option Error := none
  wrote : Bool := false
  started : Bool := false

def engage (l : Lookup) (writes : Bool) (start : Fate) : Engaging :=
  match l.container with
  | .error e => { error := some e }
  | .ok status =>
    if status = .running then { error := some .alreadyEngaged }
    else if writes = false then { error := some .failure }
    else match start with
      | .done => { wrote := true, started := true }
      | .failed => { error := some .failure, wrote := true }
      | .failedAfter => { error := some .failure, wrote := true, started := true }

/-- The wait of `release`, until the deadline. -/
def await (deadline : ℤ) : List Turn → Release
  | [] => { outcome := .waiting }
  | turn :: turns =>
    Release.saw turn.lookup.reading <|
      match turn.lookup.container with
      | .error e => { outcome := .raised e }
      | .ok status =>
        if status ≠ .running then { outcome := .returned }
        else if deadline ≤ turn.now then { outcome := .raised .stillRunning }
        else await deadline turns

def release (timeout : ℤ) (m : Meeting) : Release :=
  Release.saw m.lookup.reading <|
    match m.lookup.container with
    | .error e => { outcome := .raised e }
    | .ok status =>
      if status = .running ∧ m.stops = false then { outcome := .raised .failure }
      else await (m.now + timeout) m.turns

/-- The call of `container.stop` in `release`, when it returns. -/
def stopped (m : Meeting) : Bool :=
  match m.lookup.container with
  | .error _ => false
  | .ok status => status = .running && m.stops

def isRunning (l : Lookup) : Except Error Bool :=
  match l.container with
  | .error .unauthorized => .error .unauthorized
  | .error _ => .ok false
  | .ok status => .ok (status = .running)

end DockerDoorman

/-! ### The doorman of the restore worker -/

namespace DoormanController

/-- The wait of `release`: an error of Docker ends it, one of the worker's own is raised. -/
def await (deadline : ℤ) : List Turn → Release
  | [] => { outcome := .waiting }
  | turn :: turns =>
    Release.saw turn.lookup.reading <|
      match turn.lookup.container with
      | .error .unauthorized => { outcome := .raised .unauthorized }
      | .error _ => { outcome := .returned }
      | .ok _ =>
        Release.saw turn.reload <|
          match turn.reload with
          | .status status =>
            if status ≠ .running then { outcome := .returned }
            else if deadline ≤ turn.now then { outcome := .raised .stillRunning }
            else await deadline turns
          | _ => { outcome := .returned }

def release (timeout : ℤ) (m : Meeting) : Release :=
  Release.saw m.lookup.reading <|
    match m.lookup.container with
    | .error .unauthorized => { outcome := .raised .unauthorized }
    | .error _ => { outcome := .returned }
    | .ok _ =>
      Release.saw m.reload <|
        match m.reload with
        | .status status =>
          if status = .running ∧ m.stops = false then { outcome := .raised .failure }
          else await (m.now + timeout) m.turns
        | _ => { outcome := .raised .failure }

end DoormanController

/-! ### What a release that returns has seen -/

def Reading.free : Reading → Bool
  | .status seen => seen ≠ .running
  | .notFound => true
  | .failed => false

/-- A release returns only when the last answer leaves the address free. -/
def Release.Safe (r : Release) : Prop :=
  r.outcome = .returned → ∃ reading ∈ r.readings.getLast?, reading.free = true

/-- The same for what comes after a look that was answered `last`. -/
def Release.SafeAfter (last : Reading) (r : Release) : Prop :=
  r.outcome = .returned → (r.readings.getLast?.getD last).free = true

@[simp] theorem Release.safe_saw {reading : Reading} {r : Release} :
    (r.saw reading).Safe ↔ r.SafeAfter reading := by
  simp [Safe, SafeAfter, List.getLast?_cons]

@[simp] theorem Release.safeAfter_saw {last reading : Reading} {r : Release} :
    (r.saw reading).SafeAfter last ↔ r.SafeAfter reading := by
  simp [SafeAfter, List.getLast?_cons]

@[simp] theorem Release.safeAfter_returned {last : Reading} :
    Release.SafeAfter last { outcome := .returned } ↔ last.free = true := by
  simp [SafeAfter]

@[simp] theorem Release.safeAfter_raised {last : Reading} {e : Error} :
    Release.SafeAfter last { outcome := .raised e } :=
  nofun

@[simp] theorem Release.safeAfter_waiting {last : Reading} :
    Release.SafeAfter last { outcome := .waiting } :=
  nofun

@[simp] theorem Lookup.container_found (seen : Status) :
    Lookup.container ⟨.status seen, true⟩ = .ok seen := rfl

@[simp] theorem Lookup.container_misnamed (seen : Status) :
    Lookup.container ⟨.status seen, false⟩ = .error .unauthorized := rfl

@[simp] theorem Lookup.container_notFound (named : Bool) :
    Lookup.container ⟨.notFound, named⟩ = .error .failure := rfl

@[simp] theorem Lookup.container_failed (named : Bool) :
    Lookup.container ⟨.failed, named⟩ = .error .failure := rfl

theorem Lookup.reading_of_container {l : Lookup} {seen : Status} (h : l.container = .ok seen) :
    l.reading = .status seen := by
  rcases l with ⟨reading, named⟩
  cases reading with
  | notFound => cases h
  | failed => cases h
  | status found =>
    cases named with
    | false => cases h
    | true => rw [Except.ok.inj h]

@[simp] theorem isOk_ok (seen : Status) : (Except.ok seen : Except Error Status).isOk = true := rfl

@[simp] theorem isOk_error (e : Error) : (Except.error e : Except Error Status).isOk = false := rfl

namespace DockerDoorman

theorem safeAfter_await (deadline : ℤ) (turns : List Turn) (last : Reading) :
    (await deadline turns).SafeAfter last := by
  induction turns generalizing last with
  | nil => exact Release.safeAfter_waiting
  | cons turn turns ih =>
    simp only [await, Release.safeAfter_saw]
    split
    · exact Release.safeAfter_raised
    · rename_i status hstatus
      split
      · rename_i hstopped
        rw [Release.safeAfter_returned, Lookup.reading_of_container hstatus]
        simpa [Reading.free] using hstopped
      · split
        · exact Release.safeAfter_raised
        · exact ih _

theorem release_safe (timeout : ℤ) (m : Meeting) : (release timeout m).Safe := by
  simp only [release, Release.safe_saw]
  split
  · exact Release.safeAfter_raised
  · split
    · exact Release.safeAfter_raised
    · exact safeAfter_await _ _ _

end DockerDoorman

namespace DoormanController

def fails (turn : Turn) : Bool :=
  turn.lookup.reading = .failed || turn.lookup.container.isOk && turn.reload = .failed

def holds (deadline : ℤ) (turn : Turn) : Bool :=
  turn.lookup.container.isOk && turn.reload = .status .running && turn.now < deadline

def failsFirst (deadline : ℤ) : List Turn → Bool
  | [] => false
  | turn :: turns => fails turn || holds deadline turn && failsFirst deadline turns

/-- An error other than "not found" is what makes `release` return. -/
def swallows (timeout : ℤ) (m : Meeting) : Bool :=
  m.lookup.reading = .failed ||
    m.lookup.container.isOk && (match m.reload with
      | .status status => status ≠ .running || m.stops
      | _ => false) && failsFirst (m.now + timeout) m.turns

theorem safeAfter_await_iff (deadline : ℤ) (turns : List Turn) (last : Reading) :
    (await deadline turns).SafeAfter last ↔ failsFirst deadline turns = false := by
  induction turns generalizing last with
  | nil => simp [await, failsFirst]
  | cons turn turns ih =>
    rcases turn with ⟨⟨reading, named⟩, reload, now⟩
    cases reading with
    | notFound => simp [await, failsFirst, fails, holds, Reading.free]
    | failed => simp [await, failsFirst, fails, Reading.free]
    | status found =>
      cases named with
      | false => simp [await, failsFirst, fails, holds]
      | true =>
        cases reload with
        | notFound => simp [await, failsFirst, fails, holds, Reading.free]
        | failed => simp [await, failsFirst, fails, Reading.free]
        | status seen =>
          by_cases hrunning : seen = .running
          · by_cases hdeadline : deadline ≤ now
            · simp [await, failsFirst, fails, holds, hrunning, hdeadline, Int.not_lt.mpr hdeadline]
            · simp [await, failsFirst, fails, holds, hrunning, hdeadline, Int.not_le.mp hdeadline,
                ih]
          · simp [await, failsFirst, fails, holds, Reading.free, hrunning]

theorem release_safe_iff (timeout : ℤ) (m : Meeting) :
    (release timeout m).Safe ↔ swallows timeout m = false := by
  rcases m with ⟨⟨reading, named⟩, reload, stops, now, turns⟩
  cases reading with
  | notFound => simp [release, swallows, Reading.free]
  | failed => simp [release, swallows, Reading.free]
  | status found =>
    cases named with
    | false => simp [release, swallows]
    | true =>
      cases reload with
      | notFound => simp [release, swallows]
      | failed => simp [release, swallows]
      | status seen =>
        by_cases hstuck : seen = .running ∧ stops = false
        · simp [release, swallows, hstuck]
        · have hgoes : (decide (seen ≠ .running) || stops) = true := by
            simpa [Decidable.or_iff_not_imp_left] using hstuck
          simp only [release, swallows, Lookup.container_found, isOk_ok, Release.safe_saw,
            Release.safeAfter_saw, if_neg hstuck, hgoes, safeAfter_await_iff]
          simp

end DoormanController

end Doorman
