import Mathlib.Algebra.Ring.Nat
import Mathlib.Data.List.DropRight
import Mathlib.Data.List.Basic

/-!
# Base 32

Bytes as letters, as `base64` has them: forty bits at a time, five bytes and eight letters.  What
is encoded in whole groups is decoded again.
-/

namespace Base32

/-! ### Digits and pieces -/

section

variable {α : Type} {base count n : ℕ} {ds : List ℕ} {l : List α} {groups : List (List α)}

def bigEndian (base : ℕ) : ℕ → ℕ → List ℕ
  | 0, _ => []
  | count + 1, n => bigEndian base count (n / base) ++ [n % base]

def value (base : ℕ) (ds : List ℕ) : ℕ := ds.foldl (fun n d => n * base + d) 0

theorem value_append_singleton (base : ℕ) (ds : List ℕ) (d : ℕ) :
    value base (ds ++ [d]) = value base ds * base + d := by
  rw [value, List.foldl_append]
  rfl

theorem length_bigEndian (base count n : ℕ) : (bigEndian base count n).length = count := by
  induction count generalizing n with
  | zero => rfl
  | succ count ih => rw [bigEndian, List.length_append, ih, List.length_singleton]

theorem lt_of_mem_bigEndian (hbase : 0 < base) {d : ℕ} (h : d ∈ bigEndian base count n) :
    d < base := by
  induction count generalizing n with
  | zero => cases h
  | succ count ih =>
    rcases List.mem_append.mp h with h | h
    · exact ih h
    · rw [List.mem_singleton.mp h]
      exact Nat.mod_lt _ hbase

theorem value_bigEndian (hbase : 0 < base) (h : n < base ^ count) :
    value base (bigEndian base count n) = n := by
  induction count generalizing n with
  | zero =>
    rw [pow_zero] at h
    exact (Nat.lt_one_iff.mp h).symm
  | succ count ih =>
    have hrest : n / base < base ^ count := by
      rw [Nat.div_lt_iff_lt_mul hbase, ← pow_succ]
      exact h
    rw [bigEndian, value_append_singleton, ih hrest]
    exact Nat.div_add_mod' n base

theorem value_lt (h : ∀ d ∈ ds, d < base) : value base ds < base ^ ds.length := by
  induction ds using List.reverseRecOn with
  | nil => exact Nat.one_pos
  | append_singleton ds d ih =>
    have hrest := ih fun d' hd' => h d' (List.mem_append_left _ hd')
    have hd := h d (by simp)
    have hmul := Nat.mul_le_mul_right base hrest
    rw [value_append_singleton, List.length_append, List.length_singleton, pow_succ]
    rw [Nat.succ_mul] at hmul
    omega

theorem bigEndian_value (h : ∀ d ∈ ds, d < base) :
    bigEndian base ds.length (value base ds) = ds := by
  induction ds using List.reverseRecOn with
  | nil => rfl
  | append_singleton ds d ih =>
    have hrest := ih fun d' hd' => h d' (List.mem_append_left _ hd')
    have hd := h d (by simp)
    have hpos : 0 < base := by omega
    have hdiv : (value base ds * base + d) / base = value base ds := by
      rw [Nat.add_comm, Nat.add_mul_div_right _ _ hpos, Nat.div_eq_of_lt hd, Nat.zero_add]
    have hmod : (value base ds * base + d) % base = d := by
      rw [Nat.add_comm, Nat.add_mul_mod_self_right, Nat.mod_eq_of_lt hd]
    rw [List.length_append, List.length_singleton, bigEndian, value_append_singleton, hdiv, hmod,
      hrest]

def pieces (n : ℕ) (l : List α) : List (List α) :=
  if l = [] ∨ n = 0 then [] else l.take n :: pieces n (l.drop n)
termination_by l.length
decreasing_by
  rename_i h
  rw [not_or, ← List.length_eq_zero_iff] at h
  rw [List.length_drop]
  omega

theorem pieces_nil (n : ℕ) : pieces n ([] : List α) = [] := by
  rw [pieces, if_pos (.inl rfl)]

theorem pieces_of_ne_nil (hn : 0 < n) (h : l ≠ []) :
    pieces n l = l.take n :: pieces n (l.drop n) := by
  rw [pieces, if_neg]
  rintro (hnil | hzero)
  · exact h hnil
  · omega

theorem flatten_pieces (hn : 0 < n) (l : List α) : (pieces n l).flatten = l := by
  induction hlength : l.length using Nat.strongRecOn generalizing l with
  | ind length ih =>
    by_cases hl : l = []
    · rw [hl, pieces_nil, List.flatten_nil]
    · have hpos := List.length_pos_iff.mpr hl
      have hless : (l.drop n).length < length := by
        rw [List.length_drop]
        omega
      rw [pieces_of_ne_nil hn hl, List.flatten_cons, ih _ hless _ rfl, List.take_append_drop]

theorem length_of_mem_pieces (hn : 0 < n) (h : l.length % n = 0) {g : List α}
    (hg : g ∈ pieces n l) : g.length = n := by
  induction hlength : l.length using Nat.strongRecOn generalizing l with
  | ind length ih =>
    by_cases hl : l = []
    · rw [hl, pieces_nil] at hg
      cases hg
    · have hpos := List.length_pos_iff.mpr hl
      have hle : n ≤ l.length := Nat.le_of_dvd hpos (Nat.dvd_of_mod_eq_zero h)
      have hdrop : (l.drop n).length = l.length - n := List.length_drop
      rw [pieces_of_ne_nil hn hl] at hg
      rcases List.mem_cons.mp hg with rfl | hg
      · rw [List.length_take]
        omega
      · refine ih _ (by omega) ?_ hg rfl
        rw [hdrop, ← Nat.mod_eq_sub_mod hle]
        exact h

theorem pieces_flatten (hn : 0 < n) (h : ∀ g ∈ groups, g.length = n) :
    pieces n groups.flatten = groups := by
  induction groups with
  | nil => exact pieces_nil n
  | cons g groups ih =>
    have hg := h g List.mem_cons_self
    have hne : g ++ groups.flatten ≠ [] := by
      intro hnil
      rw [(List.append_eq_nil_iff.mp hnil).1] at hg
      exact hn.ne hg
    rw [List.flatten_cons, pieces_of_ne_nil hn hne, List.take_left' hg, List.drop_left' hg,
      ih fun g' hg' => h g' (List.mem_cons_of_mem _ hg')]

theorem length_flatten_of_length (h : ∀ g ∈ groups, g.length = n) :
    groups.flatten.length = groups.length * n := by
  induction groups with
  | nil => exact (Nat.zero_mul n).symm
  | cons g groups ih =>
    rw [List.flatten_cons, List.length_append, h g List.mem_cons_self,
      ih fun g' hg' => h g' (List.mem_cons_of_mem _ hg'), List.length_cons, Nat.succ_mul,
      Nat.add_comm]

end

/-! ### Letters -/

abbrev Text := List Char

def alphabet : List Char := "ABCDEFGHIJKLMNOPQRSTUVWXYZ234567".toList

def letter (d : ℕ) : Char := alphabet.getD d 'A'

def digit (c : Char) : Option ℕ := alphabet.idxOf? c

def encodeGroup (bytes : List UInt8) : Text :=
  (bigEndian 32 8 (value 256 (bytes.map UInt8.toNat))).map letter

/-- How many letters `=` replaces, by the bytes in the last group. -/
def pads : List ℕ := [0, 6, 4, 3, 1]

def b32encode (bytes : List UInt8) : Text :=
  let leftover := bytes.length % 5
  let whole := bytes ++ List.replicate ((5 - leftover) % 5) 0
  let encoded := (pieces 5 whole).flatMap encodeGroup
  let padded := pads.getD leftover 0
  encoded.take (encoded.length - padded) ++ List.replicate padded '='

def quantum (letters : Text) : Option ℕ := (letters.mapM digit).map (value 32)

def toBytes (count n : ℕ) : List UInt8 := (bigEndian 256 count n).map UInt8.ofNat

/-- `base64.b32decode` of a text with `casefold=True`, or nothing where it raises. -/
def b32decode (t : Text) : Option (List UInt8) :=
  if (t.any fun c => 128 ≤ c.toNat) || t.length % 8 ≠ 0 then none
  else
    let s := (t.map Char.toUpper).rdropWhile (· == '=')
    let padchars := t.length - s.length
    match (pieces 8 s).mapM quantum with
    | none => none
    | some quanta =>
      let decoded := quanta.flatMap (toBytes 5)
      if padchars ∉ [0, 1, 3, 4, 6] then none
      else if padchars = 0 ∨ decoded = [] then some decoded
      else
        let last := toBytes 5 (quanta.getLastD 0 * 32 ^ padchars)
        some (decoded.take (decoded.length - 5) ++ last.take ((43 - 5 * padchars) / 8))

example : b32encode [0x66, 0x6F, 0x6F] = "MZXW6===".toList := by decide +kernel

/-! ### Whole groups -/

section

variable {bytes : List UInt8} {groups : List (List UInt8)} {group : List UInt8} {c : Char}

theorem digit_letter {d : ℕ} (h : d < 32) : digit (letter d) = some d := by
  revert d
  decide +kernel

structure Plain (c : Char) : Prop where
  low : 32 < c.toNat
  high : c.toNat < 128
  upper : c.toUpper = c
  not_pad : c ≠ '='

theorem plain_letter {d : ℕ} (h : d < 32) : Plain (letter d) := by
  have hletter : 32 < (letter d).toNat ∧ (letter d).toNat < 128 ∧
      (letter d).toUpper = letter d ∧ letter d ≠ '=' := by
    revert d
    decide +kernel
  exact ⟨hletter.1, hletter.2.1, hletter.2.2.1, hletter.2.2.2⟩

theorem bytes_lt {d : ℕ} (h : d ∈ group.map UInt8.toNat) : d < 256 := by
  obtain ⟨byte, -, rfl⟩ := List.mem_map.mp h
  exact byte.toNat_lt

theorem mapM_digit {ds : List ℕ} (h : ∀ d ∈ ds, d < 32) :
    (ds.map letter).mapM digit = some ds := by
  induction ds with
  | nil => rfl
  | cons d ds ih =>
    have hd := digit_letter (h d List.mem_cons_self)
    have hrest := ih fun d' hd' => h d' (List.mem_cons_of_mem _ hd')
    rw [List.map_cons, List.mapM_cons, hd, hrest]
    rfl

theorem length_encodeGroup (group : List UInt8) : (encodeGroup group).length = 8 := by
  rw [encodeGroup, List.length_map, length_bigEndian]

theorem length_of_mem_groups {letters : Text} (h : letters ∈ groups.map encodeGroup) :
    letters.length = 8 := by
  obtain ⟨group, -, rfl⟩ := List.mem_map.mp h
  exact length_encodeGroup group

theorem quantum_encodeGroup (h : group.length = 5) :
    quantum (encodeGroup group) = some (value 256 (group.map UInt8.toNat)) := by
  have hlt : value 256 (group.map UInt8.toNat) < 256 ^ 5 := by
    have hlt := value_lt fun d (hd : d ∈ group.map UInt8.toNat) => bytes_lt hd
    rw [List.length_map, h] at hlt
    exact hlt
  have hdigits : ∀ d ∈ bigEndian 32 8 (value 256 (group.map UInt8.toNat)), d < 32 :=
    fun d hd => lt_of_mem_bigEndian (by decide) hd
  rw [quantum, encodeGroup, mapM_digit hdigits, Option.map_some,
    value_bigEndian (by decide) (by omega)]

theorem toBytes_value (h : group.length = 5) :
    toBytes 5 (value 256 (group.map UInt8.toNat)) = group := by
  have hdigits := bigEndian_value fun d (hd : d ∈ group.map UInt8.toNat) => bytes_lt hd
  rw [List.length_map, h] at hdigits
  have hbyte : (UInt8.ofNat ∘ UInt8.toNat) = id := funext fun byte => UInt8.ofNat_toNat
  rw [toBytes, hdigits, List.map_map, hbyte, List.map_id]

theorem mapM_quantum (h : ∀ g ∈ groups, g.length = 5) :
    (groups.map encodeGroup).mapM quantum =
      some (groups.map fun g => value 256 (g.map UInt8.toNat)) := by
  induction groups with
  | nil => rfl
  | cons g groups ih =>
    have hg := quantum_encodeGroup (h g List.mem_cons_self)
    have hrest := ih fun g' hg' => h g' (List.mem_cons_of_mem _ hg')
    rw [List.map_cons, List.mapM_cons, hg, hrest]
    rfl

theorem flatMap_toBytes (h : ∀ g ∈ groups, g.length = 5) :
    (groups.map fun g => value 256 (g.map UInt8.toNat)).flatMap (toBytes 5) = groups.flatten := by
  induction groups with
  | nil => rfl
  | cons g groups ih =>
    have hg := toBytes_value (h g List.mem_cons_self)
    rw [List.map_cons, List.flatMap_cons, hg, List.flatten_cons,
      ih fun g' hg' => h g' (List.mem_cons_of_mem _ hg')]

theorem b32encode_of_whole (h : bytes.length % 5 = 0) :
    b32encode bytes = ((pieces 5 bytes).map encodeGroup).flatten := by
  simp only [b32encode, h, pads, List.getD_cons_zero, Nat.sub_zero, Nat.mod_self,
    List.replicate_zero, List.append_nil, List.take_length, List.flatMap_def]

theorem plain_of_mem_b32encode (h : bytes.length % 5 = 0) (hc : c ∈ b32encode bytes) :
    Plain c := by
  rw [b32encode_of_whole h, List.mem_flatten] at hc
  obtain ⟨letters, hletters, hc⟩ := hc
  obtain ⟨group, -, rfl⟩ := List.mem_map.mp hletters
  obtain ⟨d, hd, rfl⟩ := List.mem_map.mp hc
  exact plain_letter (lt_of_mem_bigEndian (by decide) hd)

theorem length_b32encode_mod (h : bytes.length % 5 = 0) : (b32encode bytes).length % 8 = 0 := by
  rw [b32encode_of_whole h, length_flatten_of_length fun _ => length_of_mem_groups, Nat.mul_mod_left]

theorem rdropWhile_of_not {p : Char → Bool} {t : Text} (h : ∀ c ∈ t, p c = false) :
    t.rdropWhile p = t := by
  rw [List.rdropWhile_eq_self_iff]
  intro hne
  rw [h _ (List.getLast_mem hne)]
  exact Bool.false_ne_true

theorem b32decode_b32encode (h : bytes.length % 5 = 0) :
    b32decode (b32encode bytes) = some bytes := by
  have hplain := fun c hc => plain_of_mem_b32encode (c := c) h hc
  have hascii : ((b32encode bytes).any fun c => 128 ≤ c.toNat) = false := by
    rw [List.any_eq_false]
    intro c hc
    have := (hplain c hc).high
    simp only [decide_eq_true_eq]
    omega
  have hupper : (b32encode bytes).map Char.toUpper = b32encode bytes :=
    (List.map_congr_left fun c hc => (hplain c hc).upper).trans (List.map_id _)
  have hstrip : (b32encode bytes).rdropWhile (· == '=') = b32encode bytes :=
    rdropWhile_of_not fun c hc => beq_false_of_ne (hplain c hc).not_pad
  have hbytes : ∀ g ∈ pieces 5 bytes, g.length = 5 :=
    fun g hg => length_of_mem_pieces (by decide) h hg
  have hpieces : pieces 8 (b32encode bytes) = (pieces 5 bytes).map encodeGroup := by
    rw [b32encode_of_whole h, pieces_flatten (by decide) fun _ => length_of_mem_groups]
  have hdecoded := flatMap_toBytes hbytes
  rw [flatten_pieces (by decide)] at hdecoded
  simp [b32decode, hascii, length_b32encode_mod h, hupper, hstrip, hpieces, mapM_quantum hbytes,
    hdecoded]

end

end Base32
