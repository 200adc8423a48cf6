import Mathlib.Algebra.Order.Group.Int
import Mathlib.Data.Nat.Find
import Mathlib.Order.Monotone.Basic

/-!
# Ticks and daily appointments

A clock is read again and again, in microseconds of local time, each time after less
than some lead.  Before any instant that the readings pass there is then a first
reading within the lead of it, and that reading lies on the date of its appointment
unless the lead reaches back over midnight.
-/

namespace Ticks

def second : ℤ := 1000000

def day : ℤ := 86400000000

def date (t : ℤ) : ℤ := t / day

def timeOfDay (hour minute : ℕ) : ℤ := (hour * 60 + minute) * 60000000

def appointment (d : ℤ) (hour minute : ℕ) : ℤ := d * day + timeOfDay hour minute

def InLead (lead target t : ℤ) : Prop := target - lead ≤ t ∧ t < target

instance (lead target t : ℤ) : Decidable (InLead lead target t) :=
  inferInstanceAs (Decidable (_ ∧ _))

/-- The reading is the first within the lead before the target. -/
def FirstInLead (lead target : ℤ) (t : ℕ → ℤ) (n : ℕ) : Prop :=
  InLead lead target (t n) ∧ ∀ i < n, ¬ InLead lead target (t i)

def Forward (t : ℕ → ℤ) : Prop := ∀ ⦃i j : ℕ⦄, i ≤ j → t i ≤ t j

/-- The readings never go back and follow each other within the lead. -/
def Steady (lead : ℤ) (t : ℕ → ℤ) : Prop := ∀ n, t n ≤ t (n + 1) ∧ t (n + 1) < t n + lead

section

variable {lead target x : ℤ} {t : ℕ → ℤ} {n i : ℕ}

theorem Steady.forward (h : Steady lead t) : Forward t :=
  fun _ _ hij => monotone_nat_of_le_succ (fun n => (h n).1) hij

theorem Steady.exists_inLead (h : Steady lead t) (hstart : t 0 < target) (hpast : target ≤ t n) :
    ∃ i, InLead lead target (t i) := by
  induction n with
  | zero => exact absurd hstart (by omega)
  | succ n ih =>
    by_cases hreached : target ≤ t n
    · exact ih hreached
    · obtain ⟨-, hgap⟩ := h n
      refine ⟨n, ?_, by omega⟩
      omega

theorem exists_firstInLead (h : ∃ i, InLead lead target (t i)) :
    ∃ n, FirstInLead lead target t n :=
  ⟨Nat.find h, Nat.find_spec h, fun _ hi => Nat.find_min h hi⟩

theorem FirstInLead.unique (hn : FirstInLead lead target t n) (hi : FirstInLead lead target t i) :
    n = i := by
  rcases Nat.lt_trichotomy n i with hlt | heq | hgt
  · exact absurd hn.1 (hi.2 n hlt)
  · exact heq
  · exact absurd hi.1 (hn.2 i hgt)

/-! ### Dates -/

theorem date_eq_iff {d : ℤ} : date x = d ↔ d * day ≤ x ∧ x < (d + 1) * day := by
  unfold date day
  omega

theorem date_mono {y : ℤ} (h : x ≤ y) : date x ≤ date y :=
  Int.ediv_le_ediv (by decide) h

theorem appointment_mem_date {hour minute : ℕ} (hhour : hour < 24) (hminute : minute < 60)
    (d : ℤ) : d * day ≤ appointment d hour minute ∧ appointment d hour minute < (d + 1) * day := by
  unfold appointment timeOfDay day
  omega

theorem appointment_inj {hour minute : ℕ} {d d' : ℤ}
    (h : appointment d hour minute = appointment d' hour minute) : d = d' := by
  unfold appointment day at h
  omega

theorem date_of_inLead {hour minute : ℕ} {d : ℤ} (hhour : hour < 24) (hminute : minute < 60)
    (hlead : lead ≤ timeOfDay hour minute) (h : InLead lead (appointment d hour minute) x) :
    date x = d := by
  obtain ⟨-, hend⟩ := appointment_mem_date hhour hminute d
  obtain ⟨hfrom, hto⟩ := h
  rw [date_eq_iff]
  unfold appointment at hfrom hto hend
  omega

end

end Ticks
