import Mathlib.Algebra.Group.Nat.Defs
import Mathlib.Data.Char
import Mathlib.Data.List.Lex
import Mathlib.Data.Prod.Lex

/-!
# Times as texts

A time in UTC as `isoformat` writes it, and the name of a month.  The names are in the order of
the months.
-/

namespace Calendar

abbrev Text := List Char

/-! ### Digits -/

def digits : ℕ → ℕ → Text
  | 0, _ => []
  | width + 1, n => digits width (n / 10) ++ [Nat.digitChar (n % 10)]

def number (text : Text) : ℕ := text.foldl (fun n c => n * 10 + (c.toNat - '0'.toNat)) 0

def field (width : ℕ) (text : Text) : Option (ℕ × Text) :=
  if (text.take width).length = width ∧ (text.take width).all Char.isDigit then
    some (number (text.take width), text.drop width)
  else none

def expect (c : Char) : Text → Option Text
  | [] => none
  | d :: text => if d = c then some text else none

section

variable {width n n' : ℕ} {text : Text}

theorem digitChar_digit : ∀ d < 10, (Nat.digitChar d).isDigit = true ∧
    (Nat.digitChar d).toNat - '0'.toNat = d := by decide

@[simp] theorem length_digits (width n : ℕ) : (digits width n).length = width := by
  induction width generalizing n with
  | zero => rfl
  | succ width ih => rw [digits, List.length_append, ih]; rfl

theorem all_digits (width n : ℕ) : (digits width n).all Char.isDigit = true := by
  induction width generalizing n with
  | zero => rfl
  | succ width ih => simp [digits, ih, (digitChar_digit _ (Nat.mod_lt n (by decide : 0 < 10))).1]

theorem number_digits (h : n < 10 ^ width) : number (digits width n) = n := by
  induction width generalizing n with
  | zero => simpa [digits, number] using (Nat.lt_one_iff.mp h).symm
  | succ width ih =>
    have hdigit := (digitChar_digit (n % 10) (Nat.mod_lt n (by decide))).2
    have hdiv : n / 10 < 10 ^ width := by
      rw [Nat.pow_succ] at h
      exact Nat.div_lt_of_lt_mul (by omega)
    have hrest := ih hdiv
    rw [number] at hrest ⊢
    rw [digits, List.foldl_append, hrest, List.foldl_cons, List.foldl_nil, hdigit]
    exact Nat.div_add_mod' n 10

theorem field_digits (h : n < 10 ^ width) (text : Text) :
    field width (digits width n ++ text) = some (n, text) := by
  have htake : (digits width n ++ text).take width = digits width n :=
    List.take_left' (length_digits width n)
  have hdrop : (digits width n ++ text).drop width = text :=
    List.drop_left' (length_digits width n)
  rw [field, htake, hdrop, if_pos ⟨length_digits width n, all_digits width n⟩, number_digits h]

theorem expect_cons (c : Char) (text : Text) : expect c (c :: text) = some text := if_pos rfl

theorem append_lt {a b : Text} (hlength : a.length = b.length) (h : a < b) (c d : Text) :
    a ++ c < b ++ d := by
  induction a generalizing b with
  | nil =>
    rw [List.length_nil] at hlength
    rw [List.length_eq_zero_iff.mp hlength.symm] at h
    exact absurd h (List.not_lt_nil [])
  | cons x a ih =>
    cases b with
    | nil => exact absurd h (List.not_lt_nil _)
    | cons y b =>
      rw [List.cons_append, List.cons_append, List.cons_lt_cons_iff]
      rcases List.cons_lt_cons_iff.mp h with hxy | ⟨rfl, hab⟩
      · exact .inl hxy
      · exact .inr ⟨rfl, ih (by simpa using hlength) hab⟩

theorem digitChar_lt : ∀ d' < 10, ∀ d < d', Nat.digitChar d < Nat.digitChar d' := by decide

theorem digits_lt (h : n < n') (h' : n' < 10 ^ width) : digits width n < digits width n' := by
  induction width generalizing n n' with
  | zero => omega
  | succ width ih =>
    rw [digits, digits]
    by_cases hdiv : n / 10 = n' / 10
    · rw [hdiv]
      apply List.append_left_lt
      rw [List.cons_lt_cons_iff]
      exact .inl (digitChar_lt _ (Nat.mod_lt n' (by decide)) _ (by omega))
    · have hlt : n / 10 < n' / 10 := by omega
      have hbound : n' / 10 < 10 ^ width := by
        rw [Nat.pow_succ] at h'
        exact Nat.div_lt_of_lt_mul (by omega)
      exact append_lt (by simp) (ih hlt hbound) _ _

end

/-! ### Times -/

def daysIn (year month : ℕ) : ℕ :=
  if month = 2 then if year % 4 = 0 ∧ (year % 100 ≠ 0 ∨ year % 400 = 0) then 29 else 28
  else if month = 4 ∨ month = 6 ∨ month = 9 ∨ month = 11 then 30
  else 31

def IsTime (year month day hour minute second microsecond : ℕ) : Prop :=
  (1 ≤ year ∧ year < 10 ^ 4) ∧ (1 ≤ month ∧ month ≤ 12) ∧ (1 ≤ day ∧ day ≤ daysIn year month) ∧
    hour < 24 ∧ minute < 60 ∧ second < 60 ∧ microsecond < 10 ^ 6

instance (year month day hour minute second microsecond : ℕ) :
    Decidable (IsTime year month day hour minute second microsecond) :=
  inferInstanceAs (Decidable (_ ∧ _ ∧ _ ∧ _ ∧ _ ∧ _ ∧ _))

/-- `datetime`, in UTC -/
structure Time where
  year : ℕ
  month : ℕ
  day : ℕ
  hour : ℕ
  minute : ℕ
  second : ℕ
  microsecond : ℕ
  valid : IsTime year month day hour minute second microsecond
deriving DecidableEq

def isoformat (t : Time) : Text :=
  digits 4 t.year ++ '-' :: (digits 2 t.month ++ '-' :: (digits 2 t.day ++ 'T' ::
    (digits 2 t.hour ++ ':' :: (digits 2 t.minute ++ ':' :: (digits 2 t.second ++
      ((if t.microsecond = 0 then [] else '.' :: digits 6 t.microsecond) ++ "+00:00".toList))))))

/-- The microseconds after a point, which need not be there. -/
def microseconds : Text → Option (ℕ × Text)
  | '.' :: text => field 6 text
  | text => some (0, text)

/-- `datetime.fromisoformat(text)`, for the form that `isoformat` gives to a time in UTC -/
def fromisoformat (text : Text) : Option Time := do
  let (year, text) ← field 4 text
  let text ← expect '-' text
  let (month, text) ← field 2 text
  let text ← expect '-' text
  let (day, text) ← field 2 text
  let text ← expect 'T' text
  let (hour, text) ← field 2 text
  let text ← expect ':' text
  let (minute, text) ← field 2 text
  let text ← expect ':' text
  let (second, text) ← field 2 text
  let (microsecond, text) ← microseconds text
  if h : IsTime year month day hour minute second microsecond ∧ text = "+00:00".toList then
    some ⟨year, month, day, hour, minute, second, microsecond, h.1⟩
  else none

theorem daysIn_le (year month : ℕ) : daysIn year month ≤ 31 := by
  unfold daysIn
  split_ifs <;> decide

theorem microseconds_text (h : n < 10 ^ 6) :
    microseconds ((if n = 0 then [] else '.' :: digits 6 n) ++ "+00:00".toList) =
      some (n, "+00:00".toList) := by
  by_cases hn : n = 0
  · rw [if_pos hn, hn]
    rfl
  · rw [if_neg hn, List.cons_append, microseconds, field_digits h]

theorem fromisoformat_isoformat (t : Time) : fromisoformat (isoformat t) = some t := by
  rcases t with ⟨year, month, day, hour, minute, second, microsecond, hvalid⟩
  have hall := hvalid
  rcases hvalid with ⟨hyear, hmonth, hday, hhour, hminute, hsecond, hmicro⟩
  have hdays := daysIn_le year month
  rw [fromisoformat, isoformat]
  rw [field_digits hyear.2]
  simp only [Option.bind_eq_bind, Option.bind_some, expect_cons]
  rw [field_digits (by omega)]
  simp only [Option.bind_some, expect_cons]
  rw [field_digits (by omega)]
  simp only [Option.bind_some, expect_cons]
  rw [field_digits (by omega)]
  simp only [Option.bind_some, expect_cons]
  rw [field_digits (by omega)]
  simp only [Option.bind_some, expect_cons]
  rw [field_digits (by omega)]
  simp only [Option.bind_some, microseconds_text hmicro]
  exact dif_pos ⟨hall, trivial⟩

/-! ### The order of times -/

/-- What two times in UTC are compared by, one after the other. -/
def Time.key (t : Time) : ℕ ×ₗ ℕ ×ₗ ℕ ×ₗ ℕ ×ₗ ℕ ×ₗ ℕ ×ₗ ℕ :=
  toLex (t.year, toLex (t.month, toLex (t.day, toLex (t.hour, toLex (t.minute,
    toLex (t.second, t.microsecond))))))

theorem Time.key_injective : Function.Injective Time.key := by
  intro t t' h
  simp only [Time.key, toLex_inj, Prod.mk.injEq] at h
  rcases t with ⟨year, month, day, hour, minute, second, microsecond, hvalid⟩
  rcases t' with ⟨year', month', day', hour', minute', second', microsecond', hvalid'⟩
  obtain ⟨rfl, rfl, rfl, rfl, rfl, rfl, rfl⟩ := h
  rfl

theorem digits_append_lt {width n n' : ℕ} (h : n < n') (h' : n' < 10 ^ width) (c d : Text) :
    digits width n ++ c < digits width n' ++ d :=
  append_lt (by simp) (digits_lt h h') c d

theorem digits_append_lt_of {width n n' : ℕ} {c d : Text} (h : n < n' ∨ n = n' ∧ c < d)
    (h' : n' < 10 ^ width) : digits width n ++ c < digits width n' ++ d := by
  rcases h with h | ⟨rfl, h⟩
  · exact digits_append_lt h h' c d
  · exact List.append_left_lt h

theorem microsecond_text_lt {n n' : ℕ} (h : n < n') (h' : n' < 10 ^ 6) :
    (if n = 0 then [] else '.' :: digits 6 n) ++ "+00:00".toList <
      (if n' = 0 then [] else '.' :: digits 6 n') ++ "+00:00".toList := by
  have hpositive : n' ≠ 0 := by omega
  rw [if_neg hpositive]
  by_cases hn : n = 0
  · rw [if_pos hn, List.nil_append, List.cons_append]
    exact List.cons_lt_cons_iff.mpr (.inl (by decide))
  · rw [if_neg hn, List.cons_append, List.cons_append]
    exact List.cons_lt_cons_iff.mpr (.inr ⟨rfl, digits_append_lt h h' _ _⟩)

theorem cons_lt_cons_of {c : Char} {a b : Text} (h : a < b) : c :: a < c :: b :=
  List.cons_lt_cons_iff.mpr (.inr ⟨rfl, h⟩)

theorem isoformat_lt {t t' : Time} (h : t.key < t'.key) : isoformat t < isoformat t' := by
  have hdays := daysIn_le t'.year t'.month
  obtain ⟨hyear, hmonth, hday, hhour, hminute, hsecond, hmicro⟩ := t'.valid
  simp only [Time.key, Prod.Lex.toLex_lt_toLex] at h
  refine digits_append_lt_of (h.imp_right fun h => ⟨h.1, cons_lt_cons_of ?_⟩) hyear.2
  refine digits_append_lt_of (h.2.imp_right fun h => ⟨h.1, cons_lt_cons_of ?_⟩) (by omega)
  refine digits_append_lt_of (h.2.imp_right fun h => ⟨h.1, cons_lt_cons_of ?_⟩) (by omega)
  refine digits_append_lt_of (h.2.imp_right fun h => ⟨h.1, cons_lt_cons_of ?_⟩) (by omega)
  refine digits_append_lt_of (h.2.imp_right fun h => ⟨h.1, cons_lt_cons_of ?_⟩) (by omega)
  refine digits_append_lt_of (h.2.imp_right fun h => ⟨h.1, ?_⟩) (by omega)
  exact microsecond_text_lt h.2 hmicro

theorem isoformat_le {t t' : Time} : isoformat t ≤ isoformat t' ↔ t.key ≤ t'.key := by
  rcases lt_trichotomy t.key t'.key with h | h | h
  · exact iff_of_true (isoformat_lt h).le h.le
  · rw [Time.key_injective h]
    exact iff_of_true le_rfl le_rfl
  · exact iff_of_false (isoformat_lt h).not_ge h.not_ge

/-! ### Months -/

structure Month where
  year : ℕ
  month : ℕ
  valid : (1000 ≤ year ∧ year < 10 ^ 4) ∧ 1 ≤ month ∧ month ≤ 12
deriving DecidableEq

namespace Month

def Before (m m' : Month) : Prop := m.year < m'.year ∨ m.year = m'.year ∧ m.month < m'.month

instance (m m' : Month) : Decidable (m.Before m') := inferInstanceAs (Decidable (_ ∨ _))

/-- `time.strftime('%Y-%m')` -/
def name (m : Month) : Text := digits 4 m.year ++ '-' :: digits 2 m.month

theorem name_lt {m m' : Month} (h : m.Before m') : m.name < m'.name := by
  have hvalid := m'.valid
  rw [name, name]
  rcases h with hyear | ⟨hyear, hmonth⟩
  · exact append_lt (by simp) (digits_lt hyear (by omega)) _ _
  · rw [hyear]
    apply List.append_left_lt
    rw [List.cons_lt_cons_iff]
    exact .inr ⟨rfl, digits_lt hmonth (by omega)⟩

end Month

end Calendar
