import Mathlib.Algebra.Ring.Int.Defs
import Mathlib.Algebra.Ring.Nat
import Mathlib.Tactic.SplitIfs

/-!
# Integers of four bytes

Signed integers of 32 bits as `struct` packs them with `<i`, the least byte first.
-/

namespace PackedInts

def IsInt32 (n : ℤ) : Prop := -2 ^ 31 ≤ n ∧ n < 2 ^ 31

instance (n : ℤ) : Decidable (IsInt32 n) := inferInstanceAs (Decidable (_ ∧ _))

def littleEndian : ℕ → ℕ → List UInt8
  | 0, _ => []
  | count + 1, n => UInt8.ofNat (n % 256) :: littleEndian count (n / 256)

def ofLittleEndian : List UInt8 → ℕ
  | [] => 0
  | b :: bytes => b.toNat + 256 * ofLittleEndian bytes

def intBytes (n : ℤ) : List UInt8 := littleEndian 4 (n % 2 ^ 32).toNat

/-- `struct.pack("<i", n)`, or nothing where it raises. -/
def pack (n : ℤ) : Option (List UInt8) := if IsInt32 n then some (intBytes n) else none

def signed (n : ℕ) : ℤ := if n < 2 ^ 31 then n else n - 2 ^ 32

/-- `struct.unpack("<i", bytes)` -/
def unpack (bytes : List UInt8) : Option ℤ :=
  if bytes.length = 4 then some (signed (ofLittleEndian bytes)) else none

/-- `struct.pack("<ii", n, m)` -/
def packTwo (n m : ℤ) : Option (List UInt8) :=
  if IsInt32 n ∧ IsInt32 m then some (intBytes n ++ intBytes m) else none

/-- `struct.unpack("<ii", bytes)` -/
def unpackTwo (bytes : List UInt8) : Option (ℤ × ℤ) :=
  if bytes.length = 8 then
    some (signed (ofLittleEndian (bytes.take 4)), signed (ofLittleEndian (bytes.drop 4)))
  else none

section

variable {n m : ℤ} {bytes : List UInt8}

@[simp] theorem length_littleEndian (count n : ℕ) : (littleEndian count n).length = count := by
  induction count generalizing n with
  | zero => rfl
  | succ count ih => rw [littleEndian, List.length_cons, ih]

@[simp] theorem length_intBytes (n : ℤ) : (intBytes n).length = 4 := length_littleEndian _ _

theorem ofLittleEndian_littleEndian {count n : ℕ} (h : n < 256 ^ count) :
    ofLittleEndian (littleEndian count n) = n := by
  induction count generalizing n with
  | zero =>
    rw [pow_zero] at h
    exact (Nat.lt_one_iff.mp h).symm
  | succ count ih =>
    have hrest : n / 256 < 256 ^ count := by
      rw [Nat.div_lt_iff_lt_mul (by decide), ← pow_succ]
      exact h
    have hbyte : (UInt8.ofNat (n % 256)).toNat = n % 256 := by
      rw [UInt8.toNat_ofNat']
      omega
    rw [littleEndian, ofLittleEndian, ih hrest, hbyte]
    omega

theorem signed_intBytes (h : IsInt32 n) : signed (ofLittleEndian (intBytes n)) = n := by
  obtain ⟨hleast, hmost⟩ := h
  have hnat : (n % 2 ^ 32).toNat < 256 ^ 4 := by omega
  rw [intBytes, ofLittleEndian_littleEndian hnat, signed]
  split_ifs with hsmall <;> omega

theorem unpackTwo_intBytes (hn : IsInt32 n) (hm : IsInt32 m) :
    unpackTwo (intBytes n ++ intBytes m) = some (n, m) := by
  rw [unpackTwo, if_pos (by simp), List.take_left' (length_intBytes n),
    List.drop_left' (length_intBytes n), signed_intBytes hn, signed_intBytes hm]

end

end PackedInts
