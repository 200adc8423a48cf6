import Mathlib.Algebra.BigOperators.Group.List.Basic
import Mathlib.Algebra.Order.BigOperators.Group.List
import Mathlib.Data.Int.Log
import Mathlib.Data.Rat.Floor
import Mathlib.Tactic.FieldSimp
import Mathlib.Tactic.Linarith
import Mathlib.Tactic.Positivity
import Mathlib.Tactic.Ring

/-!
# Doubles

The double next to a rational, the even one of two.  Arithmetic in doubles is exact arithmetic
whose results are rounded; what rounding does to one number bounds what it does to a sum.
-/

namespace Binary64

def roundEven (q : ℚ) : ℤ :=
  if q - ⌊q⌋ < 1 / 2 then ⌊q⌋
  else if q - ⌊q⌋ = 1 / 2 ∧ ⌊q⌋ % 2 = 0 then ⌊q⌋
  else ⌊q⌋ + 1

def unit (q : ℚ) : ℚ := 2 ^ max (Int.log 2 |q| - 52) (-1074)

def nearest (q : ℚ) : ℚ := roundEven (q / unit q) * unit q

/-- The double, or nothing where the number is too large for one. -/
def round (q : ℚ) : Option ℚ := if |nearest q| < 2 ^ 1024 then some (nearest q) else none

def sum (ds : List ℚ) : ℚ := ds.foldl (fun total d => nearest (total + d)) 0

section

variable {q : ℚ} {n : ℤ} {ds : List ℚ}

theorem abs_roundEven_sub_le (q : ℚ) : |(roundEven q : ℚ) - q| ≤ 1 / 2 := by
  have hlow := Int.floor_le q
  have hhigh := Int.lt_floor_add_one q
  rw [roundEven, abs_le]
  by_cases hhalf : q - ⌊q⌋ < 1 / 2
  · rw [if_pos hhalf]
    constructor <;> linarith
  · rw [if_neg hhalf]
    by_cases heven : q - ⌊q⌋ = 1 / 2 ∧ ⌊q⌋ % 2 = 0
    · rw [if_pos heven]
      constructor <;> linarith [heven.1]
    · rw [if_neg heven]
      push_cast
      constructor <;> linarith

theorem roundEven_intCast (n : ℤ) : roundEven n = n := by
  rw [roundEven, Int.floor_intCast, sub_self, if_pos (by norm_num)]

theorem roundEven_neg (q : ℚ) : roundEven (-q) = -roundEven q := by
  rcases eq_or_ne (⌊q⌋ : ℚ) q with hint | hint
  · rw [← hint, ← Int.cast_neg, roundEven_intCast, roundEven_intCast]
  · have hlow : (⌊q⌋ : ℚ) < q := lt_of_le_of_ne (Int.floor_le q) hint
    have hhigh := Int.lt_floor_add_one q
    have hfloor : ⌊-q⌋ = -⌊q⌋ - 1 := by
      rw [Int.floor_eq_iff]
      push_cast
      constructor <;> linarith
    rw [roundEven, roundEven, hfloor]
    push_cast
    by_cases hhalf : q - ⌊q⌋ = 1 / 2
    · have hhalf' : -q - (-(⌊q⌋ : ℚ) - 1) = 1 / 2 := by linarith
      rw [hhalf, hhalf']
      simp only [lt_irrefl, if_false, true_and]
      split_ifs <;> omega
    · have hneg : ¬ -q - (-(⌊q⌋ : ℚ) - 1) = 1 / 2 := fun h => hhalf (by linarith)
      simp only [hhalf, hneg, false_and, if_false]
      by_cases hless : q - ⌊q⌋ < 1 / 2
      · have hmore : ¬ -q - (-(⌊q⌋ : ℚ) - 1) < 1 / 2 := by linarith
        rw [if_pos hless, if_neg hmore]
        omega
      · have hmore : -q - (-(⌊q⌋ : ℚ) - 1) < 1 / 2 := by
          have hne := lt_of_le_of_ne (not_lt.mp hless) (Ne.symm hhalf)
          linarith
        rw [if_neg hless, if_pos hmore]
        omega

theorem unit_pos (q : ℚ) : 0 < unit q := by
  rw [unit]
  exact zpow_pos two_pos _

theorem abs_nearest_sub_le (q : ℚ) : |nearest q - q| ≤ unit q / 2 := by
  have hunit := unit_pos q
  have hscale : nearest q - q = (roundEven (q / unit q) - q / unit q) * unit q := by
    rw [nearest, sub_mul, div_mul_cancel₀ q hunit.ne']
  have hround := mul_le_mul_of_nonneg_right (abs_roundEven_sub_le (q / unit q)) hunit.le
  rw [hscale, abs_mul, abs_of_pos hunit]
  linarith

theorem unit_le (h : 2 ^ (-1022 : ℤ) ≤ |q|) : unit q ≤ 2 ^ (-52 : ℤ) * |q| := by
  have hpos : 0 < |q| := lt_of_lt_of_le (zpow_pos two_pos _) h
  have hlog : (-1022 : ℤ) ≤ Int.log 2 |q| := by
    rw [← Int.zpow_le_iff_le_log (by norm_num) hpos]
    exact_mod_cast h
  have hmax : max (Int.log 2 |q| - 52) (-1074) = -52 + Int.log 2 |q| := by omega
  have hself : ((2 : ℕ) : ℚ) ^ Int.log 2 |q| ≤ |q| := Int.zpow_log_le_self (by norm_num) hpos
  rw [unit, hmax, zpow_add₀ (by norm_num)]
  push_cast at hself
  exact mul_le_mul_of_nonneg_left hself (zpow_pos two_pos _).le

def Normal (q : ℚ) : Prop := q = 0 ∨ 2 ^ (-1022 : ℤ) ≤ |q|

theorem nearest_zero : nearest 0 = 0 := by
  rw [nearest, zero_div]
  have hzero : roundEven 0 = 0 := roundEven_intCast 0
  rw [hzero, Int.cast_zero, zero_mul]

theorem nearest_relative (h : Normal q) : |nearest q - q| ≤ 2 ^ (-53 : ℤ) * |q| := by
  rcases h with rfl | h
  · rw [nearest_zero, sub_self, abs_zero, mul_zero]
  · have hhalf : (2 : ℚ) ^ (-52 : ℤ) = 2 * 2 ^ (-53 : ℤ) := by norm_num
    have hunit := unit_le h
    rw [hhalf] at hunit
    linarith [abs_nearest_sub_le q]

theorem nearest_neg (q : ℚ) : nearest (-q) = -nearest q := by
  have hunit : unit (-q) = unit q := by rw [unit, unit, abs_neg]
  rw [nearest, nearest, hunit, neg_div, roundEven_neg, Int.cast_neg, neg_mul]

theorem round_neg (q : ℚ) : round (-q) = (round q).map fun r => -r := by
  rw [round, round, nearest_neg, abs_neg]
  split_ifs <;> rfl

theorem nearest_of_round {r : ℚ} (h : round q = some r) : r = nearest q := by
  rw [round] at h
  split_ifs at h
  exact (Option.some.inj h).symm

theorem nearest_intCast (h : |n| < 2 ^ 53) : nearest n = n := by
  rcases eq_or_ne n 0 with rfl | hne
  · exact_mod_cast nearest_zero
  have hone : (1 : ℤ) ≤ |n| := Int.one_le_abs hne
  have hlow : 0 ≤ Int.log 2 |(n : ℚ)| := by
    rw [← Int.zpow_le_iff_le_log (by norm_num) (by positivity), zpow_zero]
    exact_mod_cast hone
  have hhigh : Int.log 2 |(n : ℚ)| < 53 := by
    rw [← Int.lt_zpow_iff_log_lt (by norm_num) (by positivity)]
    exact_mod_cast h
  obtain ⟨k, hk⟩ : ∃ k : ℕ, unit (n : ℚ) = 1 / 2 ^ k := by
    refine ⟨(52 - Int.log 2 |(n : ℚ)|).toNat, ?_⟩
    have hmax : max (Int.log 2 |(n : ℚ)| - 52) (-1074) =
        -((52 - Int.log 2 |(n : ℚ)|).toNat : ℤ) := by omega
    rw [unit, hmax, zpow_neg, zpow_natCast, one_div]
  have hdiv : (n : ℚ) / (1 / 2 ^ k) = ((n * 2 ^ k : ℤ) : ℚ) := by
    push_cast
    field_simp
  rw [nearest, hk, hdiv, roundEven_intCast]
  push_cast
  field_simp

end

/-! ### Sums -/

section

variable {q q' : ℚ} {xs : List ℚ} {ns : List ℕ}

def Amount (q : ℚ) : Prop := q = 0 ∨ 2 ^ (-1022 : ℤ) ≤ q

theorem Amount.nonneg (h : Amount q) : 0 ≤ q := by
  rcases h with rfl | h
  · exact le_rfl
  · exact (zpow_pos two_pos _).le.trans h

theorem Amount.normal (h : Amount q) : Normal q := by
  have hnonneg := h.nonneg
  rcases h with h | h
  · exact .inl h
  · exact .inr (by rwa [abs_of_nonneg hnonneg])

theorem Amount.add (h : Amount q) (h' : Amount q') : Amount (q + q') := by
  rcases h with rfl | h
  · rwa [zero_add]
  · exact .inr (by linarith [h'.nonneg])

theorem le_roundEven {n : ℤ} (h : (n : ℚ) ≤ q) : n ≤ roundEven q := by
  have hfloor : n ≤ ⌊q⌋ := Int.le_floor.mpr h
  rw [roundEven]
  split_ifs <;> omega

theorem roundEven_le {n : ℤ} (h : q ≤ n) : roundEven q ≤ n := by
  rcases h.eq_or_lt with rfl | h
  · exact (roundEven_intCast n).le
  · have hfloor : ⌊q⌋ < n := Int.floor_lt.mpr h
    rw [roundEven]
    split_ifs <;> omega

theorem nearest_nonpos (h : q ≤ 0) : nearest q ≤ 0 := by
  have hscaled : q / unit q ≤ ((0 : ℤ) : ℚ) := by
    rw [Int.cast_zero]
    exact div_nonpos_of_nonpos_of_nonneg h (unit_pos q).le
  have hround : ((roundEven (q / unit q) : ℤ) : ℚ) ≤ 0 := by exact_mod_cast roundEven_le hscaled
  exact mul_nonpos_of_nonpos_of_nonneg hround (unit_pos q).le

theorem nearest_nonneg (h : 0 ≤ q) : 0 ≤ nearest q := by
  have hneg := nearest_nonpos (neg_nonpos.mpr h)
  rw [nearest_neg] at hneg
  linarith

theorem amount_of_le {e : ℤ} (he : -1022 ≤ e) (h : 2 ^ e ≤ q) : Amount q :=
  .inr ((zpow_le_zpow_right₀ (by norm_num) he).trans h)

theorem Amount.nearest (h : Amount q) : Amount (nearest q) := by
  rcases h with rfl | h
  · exact .inl nearest_zero
  · have hpos : 0 < q := lt_of_lt_of_le (zpow_pos two_pos _) h
    have hlog : (-1022 : ℤ) ≤ Int.log 2 q := by
      rw [← Int.zpow_le_iff_le_log (by norm_num) hpos]
      exact_mod_cast h
    have hself : ((2 : ℕ) : ℚ) ^ Int.log 2 q ≤ q := Int.zpow_log_le_self (by norm_num) hpos
    push_cast at hself
    have hunit : (2 : ℚ) ^ Int.log 2 q = ((2 ^ 52 : ℤ) : ℚ) * unit q := by
      have hmax : max (Int.log 2 q - 52) (-1074) = -52 + Int.log 2 q := by omega
      rw [unit, abs_of_pos hpos, hmax, zpow_add₀ (by norm_num), ← mul_assoc]
      norm_num
    have hdigits : ((2 ^ 52 : ℤ) : ℚ) ≤ q / unit q := by
      rw [le_div_iff₀ (unit_pos q), ← hunit]
      exact hself
    have hround : ((2 ^ 52 : ℤ) : ℚ) ≤ roundEven (q / unit q) := by
      exact_mod_cast le_roundEven hdigits
    refine .inr ?_
    calc (2 : ℚ) ^ (-1022 : ℤ) ≤ 2 ^ Int.log 2 q := zpow_le_zpow_right₀ (by norm_num) hlog
      _ = ((2 ^ 52 : ℤ) : ℚ) * unit q := hunit
      _ ≤ roundEven (q / unit q) * unit q := mul_le_mul_of_nonneg_right hround (unit_pos q).le

theorem nearest_pos {e : ℤ} (he : -1022 ≤ e) (h : 2 ^ e ≤ q) : 0 < nearest q := by
  have hpos : 0 < q := lt_of_lt_of_le (zpow_pos two_pos _) h
  have hrelative := nearest_relative (amount_of_le he h).normal
  have hhalf : (2 : ℚ) ^ (-53 : ℤ) < 1 := by norm_num
  rw [abs_of_pos hpos, abs_le] at hrelative
  have hloss := mul_lt_of_lt_one_left hpos hhalf
  linarith [hrelative.1]

def ulp : ℚ := 2 ^ (-53 : ℤ)

theorem Amount.bounds (h : Amount q) :
    q * (1 - ulp) ≤ Binary64.nearest q ∧ Binary64.nearest q ≤ q * (1 + ulp) := by
  have hrelative := nearest_relative h.normal
  rw [abs_of_nonneg h.nonneg, abs_le] at hrelative
  rw [ulp]
  constructor <;> linarith [hrelative.1, hrelative.2]

theorem sum_append_singleton (ds : List ℚ) (d : ℚ) : sum (ds ++ [d]) = nearest (sum ds + d) := by
  rw [sum, List.foldl_append]
  rfl

theorem amount_sum (h : ∀ x ∈ xs, Amount x) : Amount (sum (xs.map nearest)) := by
  induction xs using List.reverseRecOn with
  | nil => exact .inl rfl
  | append_singleton xs x ih =>
    have hxs := ih fun x' hx' => h x' (List.mem_append_left _ hx')
    have hx := h x (List.mem_append_right _ List.mem_cons_self)
    rw [List.map_append, List.map_singleton, sum_append_singleton]
    exact (hxs.add hx.nearest).nearest

theorem sum_bounds (h : ∀ x ∈ xs, Amount x) :
    xs.sum * (1 - ulp) ^ (xs.length + 1) ≤ sum (xs.map nearest) ∧
      sum (xs.map nearest) ≤ xs.sum * (1 + ulp) ^ (xs.length + 1) := by
  induction xs using List.reverseRecOn with
  | nil => simp [sum]
  | append_singleton xs x ih =>
    have hless : ∀ x' ∈ xs, Amount x' := fun x' hx' => h x' (List.mem_append_left _ hx')
    have hx := h x (List.mem_append_right _ List.mem_cons_self)
    obtain ⟨hlow, hhigh⟩ := ih hless
    obtain ⟨hxlow, hxhigh⟩ := hx.bounds
    obtain ⟨hlast, hlast'⟩ := ((amount_sum hless).add hx.nearest).bounds
    have hulp : 0 < ulp ∧ ulp < 1 := by norm_num [ulp]
    have hdown : (1 - ulp) ^ (xs.length + 1) ≤ 1 - ulp := by
      rw [pow_succ]
      exact mul_le_of_le_one_left (by linarith) (pow_le_one₀ (by linarith) (by linarith))
    have hup : 1 + ulp ≤ (1 + ulp) ^ (xs.length + 1) := by
      rw [pow_succ]
      exact le_mul_of_one_le_left (by linarith) (one_le_pow₀ (by linarith))
    have hxdown := mul_le_mul_of_nonneg_left hdown hx.nonneg
    have hxup := mul_le_mul_of_nonneg_left hup hx.nonneg
    rw [List.map_append, List.map_singleton, sum_append_singleton, List.sum_append,
      List.sum_singleton, List.length_append, List.length_singleton,
      pow_succ (1 - ulp) (xs.length + 1), pow_succ (1 + ulp) (xs.length + 1), ← mul_assoc,
      ← mul_assoc]
    constructor
    · have hstep : (xs.sum + x) * (1 - ulp) ^ (xs.length + 1) ≤
          sum (xs.map nearest) + Binary64.nearest x := by linarith
      exact (mul_le_mul_of_nonneg_right hstep (by linarith)).trans hlast
    · have hstep : sum (xs.map nearest) + Binary64.nearest x ≤
          (xs.sum + x) * (1 + ulp) ^ (xs.length + 1) := by linarith
      exact hlast'.trans (mul_le_mul_of_nonneg_right hstep (by linarith))

theorem nearest_natCast {n : ℕ} (h : n < 2 ^ 53) : nearest (n : ℚ) = n := by
  have hint : nearest ((n : ℤ) : ℚ) = ((n : ℤ) : ℚ) := by
    refine nearest_intCast ?_
    rw [Nat.abs_cast]
    exact_mod_cast h
  exact_mod_cast hint

theorem sum_natCast (h : ns.sum < 2 ^ 53) :
    sum ((ns.map fun n : ℕ => (n : ℚ)).map nearest) = ns.sum := by
  induction ns using List.reverseRecOn with
  | nil => rfl
  | append_singleton ns n ih =>
    rw [List.sum_append, List.sum_singleton] at h
    have hns := ih (by omega)
    have hn : nearest (n : ℚ) = n := nearest_natCast (by omega)
    have htotal : nearest ((ns.sum + n : ℕ) : ℚ) = (ns.sum + n : ℕ) := nearest_natCast h
    rw [Nat.cast_add] at htotal
    rw [List.map_append, List.map_append, List.map_singleton, List.map_singleton,
      sum_append_singleton, hns, hn, htotal, List.sum_append, List.sum_singleton, Nat.cast_add]

end

end Binary64
