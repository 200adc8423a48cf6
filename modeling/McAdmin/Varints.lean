import Mathlib.Data.Nat.Bitwise
import Mathlib.Tactic.Ring

/-!
# Numbers in groups of seven bits

A number is written seven bits at a time from the lowest on, and every byte but the last has its
high bit set.  A reader takes so many bytes at most.
-/

namespace Varints

def encode (value : ℕ) : List UInt8 :=
  let byte := value &&& 0x7F
  let value' := value >>> 7
  if value' = 0 then [UInt8.ofNat byte] else UInt8.ofNat (byte ||| 0x80) :: encode value'
termination_by value
decreasing_by
  simp only [Nat.shiftRight_eq_div_pow, value'] at *
  omega

def isLast (b : UInt8) : Bool := b.toNat &&& 0x80 = 0

def put (position value : ℕ) (b : UInt8) : ℕ := value ||| ((b.toNat &&& 0x7F) <<< (7 * position))

/-- The number that some bytes begin with, in so many bytes at most, and the bytes after it. -/
def decodeFrom : ℕ → ℕ → ℕ → List UInt8 → Option (ℕ × List UInt8)
  | 0, _, _, _ => none
  | _ + 1, _, _, [] => none
  | rounds + 1, position, value, b :: bytes =>
    if isLast b then some (put position value b, bytes)
    else decodeFrom rounds (position + 1) (put position value b) bytes

/-- The number that some bytes begin with, in five bytes at most. -/
def decode (bytes : List UInt8) : Option (ℕ × List UInt8) := decodeFrom 5 0 0 bytes

section

variable {value value' position rounds n : ℕ} {b : UInt8} {bytes rest rest' : List UInt8}

theorem and_low (n : ℕ) : n &&& 0x7F = n % 128 := Nat.and_two_pow_sub_one_eq_mod n 7

theorem encode_small (h : value < 128) : encode value = [UInt8.ofNat value] := by
  have hshift : value >>> 7 = 0 := by
    rw [Nat.shiftRight_eq_div_pow]
    omega
  rw [encode]
  simp only [hshift, if_true, and_low, Nat.mod_eq_of_lt h]

theorem encode_large (h : 128 ≤ value) :
    encode value = UInt8.ofNat (value % 128 + 128) :: encode (value / 128) := by
  have hshift : value >>> 7 = value / 128 := Nat.shiftRight_eq_div_pow _ 7
  have hmore : value / 128 ≠ 0 := by omega
  have hor : value % 128 ||| 0x80 = value % 128 + 128 := by
    have hsum := Nat.shiftLeft_add_eq_or_of_lt (i := 7) (Nat.mod_lt value (by decide)) 1
    rw [Nat.or_comm, Nat.add_comm]
    exact hsum.symm
  rw [encode]
  simp only [hshift, if_neg hmore, and_low, hor]

theorem isLast_iff : isLast b = true ↔ b.toNat < 128 := by
  have hbits : ∀ n < 256, (n &&& 0x80 = 0) = decide (n < 128) := by decide +kernel
  rw [isLast, decide_eq_true_iff, hbits _ b.toNat_lt, decide_eq_true_iff]

theorem put_eq (h : value < 2 ^ (7 * position)) (b : UInt8) :
    put position value b = b.toNat % 128 * 2 ^ (7 * position) + value := by
  rw [put, and_low, Nat.or_comm, ← Nat.shiftLeft_add_eq_or_of_lt h, Nat.shiftLeft_eq]

theorem decodeFrom_encode (hvalue : value < 2 ^ (7 * position)) (hrounds : 0 < rounds)
    (h : n < 2 ^ (7 * rounds)) (rest : List UInt8) :
    decodeFrom rounds position value (encode n ++ rest) =
      some (n * 2 ^ (7 * position) + value, rest) := by
  induction rounds generalizing n position value with
  | zero => omega
  | succ rounds ih =>
    by_cases hsmall : n < 128
    · have hbyte : (UInt8.ofNat n).toNat = n := by
        rw [UInt8.toNat_ofNat']
        omega
      -- the last byte carries no continuation bit
      have hlast : isLast (UInt8.ofNat n) = true := by rwa [isLast_iff, hbyte]
      rw [encode_small hsmall, List.singleton_append, decodeFrom, if_pos hlast, put_eq hvalue,
        hbyte, Nat.mod_eq_of_lt hsmall]
    · have hlarge : 128 ≤ n := not_lt.mp hsmall
      have hbyte : (UInt8.ofNat (n % 128 + 128)).toNat = n % 128 + 128 := by
        rw [UInt8.toNat_ofNat']
        omega
      have hnotLast : ¬ isLast (UInt8.ofNat (n % 128 + 128)) = true := by
        rw [isLast_iff, hbyte]
        omega
      have hpower : (2 : ℕ) ^ (7 * (rounds + 1)) = 2 ^ (7 * rounds) * 128 := by ring
      have hposition : (2 : ℕ) ^ (7 * (position + 1)) = 2 ^ (7 * position) * 128 := by ring
      -- seven bits are taken off, and one round is used up
      have hrest : n / 128 < 2 ^ (7 * rounds) := by
        rw [Nat.div_lt_iff_lt_mul (by decide), ← hpower]
        exact h
      have hmore : 0 < rounds := by
        rw [Nat.pos_iff_ne_zero]
        rintro rfl
        have hpow : (2 : ℕ) ^ (7 * 0) = 1 := rfl
        omega
      have hput : put position value (UInt8.ofNat (n % 128 + 128)) =
          n % 128 * 2 ^ (7 * position) + value := by
        rw [put_eq hvalue, hbyte, Nat.add_mod_right, Nat.mod_mod]
      have hnext : n % 128 * 2 ^ (7 * position) + value < 2 ^ (7 * (position + 1)) := by
        have hmod : n % 128 + 1 ≤ 128 := Nat.mod_lt n (by decide)
        have hmul := Nat.mul_le_mul_right (2 ^ (7 * position)) hmod
        rw [Nat.add_mul] at hmul
        omega
      rw [encode_large hlarge, List.cons_append, decodeFrom, if_neg hnotLast, hput,
        ih hnext hmore hrest, hposition]
      have hsplit := Nat.div_add_mod n 128
      congr 2
      calc n / 128 * (2 ^ (7 * position) * 128) + (n % 128 * 2 ^ (7 * position) + value)
          = (128 * (n / 128) + n % 128) * 2 ^ (7 * position) + value := by ring
        _ = n * 2 ^ (7 * position) + value := by rw [hsplit]

theorem decode_encode (h : n < 2 ^ 35) (rest : List UInt8) :
    decode (encode n ++ rest) = some (n, rest) := by
  have hdecode : decodeFrom 5 0 0 (encode n ++ rest) = some (n * 2 ^ (7 * 0) + 0, rest) :=
    decodeFrom_encode (by decide) (by decide) h rest
  rwa [Nat.mul_zero, pow_zero, Nat.mul_one, Nat.add_zero] at hdecode

theorem encode_ne_nil (n : ℕ) : encode n ≠ [] := by
  by_cases h : n < 128
  · simp [encode_small h]
  · simp [encode_large (not_lt.mp h)]

theorem length_encode_le {n rounds : ℕ} (h : n < 2 ^ (7 * rounds)) (hrounds : 0 < rounds) :
    (encode n).length ≤ rounds := by
  induction rounds generalizing n with
  | zero => omega
  | succ rounds ih =>
    by_cases hsmall : n < 128
    · rw [encode_small hsmall]
      simp
    · have hpower : (2 : ℕ) ^ (7 * (rounds + 1)) = 2 ^ (7 * rounds) * 128 := by ring
      have hrest : n / 128 < 2 ^ (7 * rounds) := by
        rw [Nat.div_lt_iff_lt_mul (by decide), ← hpower]
        exact h
      have hmore : 0 < rounds := by
        rw [Nat.pos_iff_ne_zero]
        rintro rfl
        have hpow : (2 : ℕ) ^ (7 * 0) = 1 := rfl
        omega
      rw [encode_large (not_lt.mp hsmall), List.length_cons]
      exact Nat.succ_le_succ (ih hrest hmore)

theorem encode_append_inj (h : encode value ++ rest = encode value' ++ rest') :
    value = value' ∧ rest = rest' := by
  induction value using Nat.strongRecOn generalizing value' with
  | ind value ih =>
    have hbyte : ∀ n < 256, (UInt8.ofNat n).toNat = n := fun n hn => by
      rw [UInt8.toNat_ofNat']
      omega
    by_cases hsmall : value < 128 <;> by_cases hsmall' : value' < 128
    · rw [encode_small hsmall, encode_small hsmall'] at h
      obtain ⟨hfirst, hrest⟩ := List.cons.inj h
      have hnat := congrArg UInt8.toNat hfirst
      rw [hbyte _ (by omega), hbyte _ (by omega)] at hnat
      exact ⟨hnat, hrest⟩
    · rw [encode_small hsmall, encode_large (not_lt.mp hsmall')] at h
      have hnat := congrArg UInt8.toNat (List.cons.inj h).1
      rw [hbyte _ (by omega), hbyte _ (by omega)] at hnat
      omega
    · rw [encode_large (not_lt.mp hsmall), encode_small hsmall'] at h
      have hnat := congrArg UInt8.toNat (List.cons.inj h).1
      rw [hbyte _ (by omega), hbyte _ (by omega)] at hnat
      omega
    · rw [encode_large (not_lt.mp hsmall), encode_large (not_lt.mp hsmall')] at h
      obtain ⟨hfirst, hrest⟩ := List.cons.inj h
      have hnat := congrArg UInt8.toNat hfirst
      rw [hbyte _ (by omega), hbyte _ (by omega)] at hnat
      obtain ⟨hquotient, hrest⟩ := ih (value / 128) (by omega) hrest
      exact ⟨by omega, hrest⟩

end

end Varints
