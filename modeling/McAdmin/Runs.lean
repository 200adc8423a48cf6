import Mathlib.Data.List.Basic

/-!
# Runs of a state machine

A machine takes an event to the next state.  `run` is where a list of events
leads, and `Along` says that each step of it satisfies a predicate of the state
the step is taken in and of the event.  An invariant of the steps that meet a
condition holds wherever they lead, and what it implies of a step holds of each
of them.
-/

namespace Runs

variable {σ ε : Type}

def run (step : σ → ε → σ) (s : σ) (events : List ε) : σ := events.foldl step s

/-- The states of an endless run. -/
def trace (step : σ → ε → σ) (s : σ) (events : ℕ → ε) : ℕ → σ
  | 0 => s
  | n + 1 => step (trace step s events n) (events n)

/-- Every step of the run satisfies `Q`. -/
def Along (step : σ → ε → σ) (Q : σ → ε → Prop) : σ → List ε → Prop
  | _, [] => True
  | s, event :: events => Q s event ∧ Along step Q (step s event) events

instance Along.decidable (step : σ → ε → σ) (Q : σ → ε → Prop) [∀ s e, Decidable (Q s e)] :
    ∀ (s : σ) (events : List ε), Decidable (Along step Q s events)
  | _, [] => isTrue trivial
  | s, event :: events =>
    have : Decidable (Along step Q (step s event) events) := decidable step Q _ events
    inferInstanceAs (Decidable (Q s event ∧ Along step Q (step s event) events))

section

variable {step : σ → ε → σ} {P : σ → Prop} {Q R S : σ → ε → Prop} {s : σ} {events : List ε}

@[simp] theorem run_nil (step : σ → ε → σ) (s : σ) : run step s [] = s := rfl

@[simp] theorem run_cons (step : σ → ε → σ) (s : σ) (event : ε) (events : List ε) :
    run step s (event :: events) = run step (step s event) events := rfl

theorem run_append (step : σ → ε → σ) (s : σ) (events events' : List ε) :
    run step s (events ++ events') = run step (run step s events) events' :=
  List.foldl_append

theorem run_snoc (step : σ → ε → σ) (s : σ) (events : List ε) (event : ε) :
    run step s (events ++ [event]) = step (run step s events) event := by
  rw [run_append]
  rfl

theorem along_append {events' : List ε} :
    Along step Q s (events ++ events') ↔
      Along step Q s events ∧ Along step Q (run step s events) events' := by
  induction events generalizing s with
  | nil => simp [Along]
  | cons event events ih => simp [Along, ih, and_assoc]

/-- The rule of an invariant: kept by each step that meets the condition, it holds at
the end of the run. -/
theorem run_induction (hstep : ∀ s event, P s → Q s event → P (step s event)) (hs : P s)
    (h : Along step Q s events) : P (run step s events) := by
  induction events generalizing s with
  | nil => exact hs
  | cons event events ih => exact ih (hstep s event hs h.1) h.2

/-- What an invariant and the condition imply of a step holds along the run. -/
theorem Along.of_invariant (hstep : ∀ s event, P s → Q s event → P (step s event))
    (himp : ∀ s event, P s → Q s event → R s event) (hs : P s) (h : Along step Q s events) :
    Along step R s events := by
  induction events generalizing s with
  | nil => trivial
  | cons event events ih => exact ⟨himp s event hs h.1, ih (hstep s event hs h.1) h.2⟩

/-- Two conditions that agree wherever an invariant holds agree along a run, when either
of them keeps the invariant. -/
theorem along_congr (hiff : ∀ s event, P s → Q s event → (R s event ↔ S s event))
    (hstep : ∀ s event, P s → Q s event → S s event → P (step s event)) (hs : P s)
    (h : Along step Q s events) : Along step R s events ↔ Along step S s events := by
  induction events generalizing s with
  | nil => exact Iff.rfl
  | cons event events ih =>
    have hhead := hiff s event hs h.1
    constructor
    · intro hrest
      have hevent := hhead.mp hrest.1
      exact ⟨hevent, (ih (hstep s event hs h.1 hevent) h.2).mp hrest.2⟩
    · intro hrest
      exact ⟨hhead.mpr hrest.1, (ih (hstep s event hs h.1 hrest.1) h.2).mpr hrest.2⟩

/-- What holds of each event holds along the run. -/
theorem Along.and_of_mem {C : ε → Prop} (h : Along step Q s events)
    (hevents : ∀ event ∈ events, C event) :
    Along step (fun s event => C event ∧ Q s event) s events := by
  induction events generalizing s with
  | nil => trivial
  | cons event events ih =>
    exact ⟨⟨hevents event (List.mem_cons_self ..), h.1⟩,
      ih h.2 fun event hevent => hevents event (List.mem_cons_of_mem _ hevent)⟩

theorem Along.of_mem {C : ε → Prop} (hevents : ∀ event ∈ events, C event) :
    Along step (fun _ event => C event) s events := by
  induction events generalizing s with
  | nil => trivial
  | cons event events ih =>
    exact ⟨hevents event (List.mem_cons_self ..),
      ih fun event hevent => hevents event (List.mem_cons_of_mem _ hevent)⟩

theorem Along.of_forall (h : ∀ s event, Q s event) (s : σ) (events : List ε) :
    Along step Q s events := by
  induction events generalizing s with
  | nil => trivial
  | cons event events ih => exact ⟨h s event, ih _⟩

end

end Runs
