import Mathlib.Algebra.Order.Group.Int
import McAdmin.Pattern

/-!
# Whole numbers as texts

`int` of a text and `isdigit`, which is broader: a superscript is a digit that no number is
written with.
-/

namespace IntText

open Backtracking

/-- The digits of the engine's Unicode tables, fixed on ASCII only. -/
structure DigitTable extends CharTable where
  /-- What `isdigit` accepts. -/
  isDigit : Char → Bool
  /-- The value of a decimal digit. -/
  value : Char → ℕ
  isDigit_of_isDecimal : ∀ c, isDecimal c = true → isDigit c = true
  isSpace_of_isDigit : ∀ c, isDigit c = true → isSpace c = false
  isDigit_ascii : ∀ c : Char, c.toNat < 128 → isDigit c = c.isDigit
  value_ascii : ∀ c : Char, c.isDigit = true → value c = c.toNat - '0'.toNat

/-- `sys.int_info.default_max_str_digits` -/
def maxStrDigits : ℕ := 4300

section

variable (u : DigitTable)

def isdigit (t : Text) : Bool := t ≠ [] && t.all u.isDigit

/-- The digits of a number, with single underscores between them; the flag tells that the next
one must be a digit. -/
def digitsFrom : Bool → Text → Option (List ℕ)
  | expected, [] => if expected then none else some []
  | expected, c :: rest =>
    if u.isDecimal c then (digitsFrom false rest).map (u.value c :: ·)
    else if c = '_' ∧ expected = false then digitsFrom true rest
    else none

def sign : Text → Bool × Text
  | [] => (false, [])
  | c :: rest => if c = '-' then (true, rest) else (false, if c = '+' then rest else c :: rest)

def number (digits : List ℕ) : ℤ := digits.foldl (fun (n : ℤ) d => n * 10 + d) 0

/-- `int(t)`, `none` where it raises `ValueError`. -/
def int (t : Text) : Option ℤ :=
  let signed := sign (u.strip t)
  match digitsFrom u true signed.2 with
  | none => none
  | some digits =>
    if maxStrDigits < digits.length then none
    else some (if signed.1 then -number digits else number digits)

end

section

variable {u : DigitTable} {t : Text}

theorem isSpace_of_isdigit (h : isdigit u t = true) : ∀ c ∈ t, u.isSpace c = false := by
  intro c hc
  rw [isdigit, Bool.and_eq_true, List.all_eq_true] at h
  exact u.isSpace_of_isDigit c (h.2 c hc)

theorem strip_of_isdigit (h : isdigit u t = true) : u.strip t = t := by
  have hspace := isSpace_of_isdigit h
  have hfront : t.dropWhile u.isSpace = t := by
    cases t with
    | nil => rfl
    | cons c rest =>
      rw [List.dropWhile_cons_of_neg]
      rw [hspace c List.mem_cons_self]
      exact Bool.false_ne_true
  rw [CharTable.strip, hfront, List.rdropWhile_eq_self_iff]
  intro hne
  rw [hspace _ (List.getLast_mem hne)]
  exact Bool.false_ne_true

theorem sign_of_isdigit (h : isdigit u t = true) : sign t = (false, t) := by
  cases t with
  | nil => rfl
  | cons c rest =>
    have hdigit : u.isDigit c = true := by
      rw [isdigit, Bool.and_eq_true, List.all_eq_true] at h
      exact h.2 c List.mem_cons_self
    have hminus : c ≠ '-' := by
      rintro rfl
      rw [u.isDigit_ascii _ (by decide)] at hdigit
      exact absurd hdigit (by decide)
    have hplus : c ≠ '+' := by
      rintro rfl
      rw [u.isDigit_ascii _ (by decide)] at hdigit
      exact absurd hdigit (by decide)
    rw [sign, if_neg hminus, if_neg hplus]

theorem digitsFrom_decimals (h : ∀ c ∈ t, u.isDecimal c = true) (hne : t ≠ []) :
    digitsFrom u true t = some (t.map u.value) := by
  have hrest : ∀ t : Text, (∀ c ∈ t, u.isDecimal c = true) →
      digitsFrom u false t = some (t.map u.value) := by
    intro t h
    induction t with
    | nil => rfl
    | cons c rest ih =>
      rcases List.forall_mem_cons.mp h with ⟨hc, hrest⟩
      rw [digitsFrom, if_pos hc, ih hrest]
      rfl
  cases t with
  | nil => exact absurd rfl hne
  | cons c rest =>
    rcases List.forall_mem_cons.mp h with ⟨hc, hdecimals⟩
    rw [digitsFrom, if_pos hc, hrest rest hdecimals]
    rfl

theorem digitsFrom_eq_none {expected : Bool} {c : Char} (hc : c ∈ t) (hdigit : c ≠ '_')
    (hdecimal : u.isDecimal c = false) : digitsFrom u expected t = none := by
  induction t generalizing expected with
  | nil => cases hc
  | cons first rest ih =>
    rw [digitsFrom]
    rcases List.mem_cons.mp hc with rfl | hc
    · rw [hdecimal, if_neg Bool.false_ne_true, if_neg fun h => hdigit h.1]
    · rw [ih hc, ih hc, Option.map_none, ite_self, ite_self]

theorem int_of_isdigit (h : isdigit u t = true) :
    int u t = if t.all u.isDecimal = true ∧ t.length ≤ maxStrDigits then
      some (number (t.map u.value)) else none := by
  have hparts := h
  rw [isdigit, Bool.and_eq_true, decide_eq_true_iff, List.all_eq_true] at hparts
  rcases hparts with ⟨hne, hdigits⟩
  unfold int
  rw [strip_of_isdigit h, sign_of_isdigit h]
  by_cases hdecimal : t.all u.isDecimal = true
  · have hall := List.all_eq_true.mp hdecimal
    simp only [digitsFrom_decimals hall hne, List.length_map, Bool.false_eq_true, if_false]
    by_cases hlength : t.length ≤ maxStrDigits
    · rw [if_neg (not_lt.mpr hlength), if_pos ⟨hdecimal, hlength⟩]
    · rw [if_pos (not_le.mp hlength), if_neg fun hboth => hlength hboth.2]
  · rw [if_neg fun hboth => hdecimal hboth.1]
    rw [List.all_eq_true] at hdecimal
    push Not at hdecimal
    rcases hdecimal with ⟨c, hc, hnot⟩
    have hunderscore : c ≠ '_' := by
      rintro rfl
      have hunder := hdigits '_' hc
      rw [u.isDigit_ascii _ (by decide)] at hunder
      exact absurd hunder (by decide)
    simp only [digitsFrom_eq_none hc hunderscore (Bool.eq_false_iff.mpr hnot)]

theorem number_nonneg (digits : List ℕ) : 0 ≤ number digits := by
  have hfold : ∀ n : ℤ, 0 ≤ n → 0 ≤ digits.foldl (fun (n : ℤ) d => n * 10 + d) n := by
    induction digits with
    | nil => exact fun n hn => hn
    | cons d digits ih =>
      intro n hn
      have hnext : 0 ≤ n * 10 + (d : ℤ) := by omega
      exact ih _ hnext
  exact hfold 0 le_rfl

end

end IntText
