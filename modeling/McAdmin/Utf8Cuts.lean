import Mathlib.Algebra.Order.BigOperators.Group.List
import Mathlib.Algebra.Order.Ring.Nat
import McAdmin.Utf8

/-!
# Texts in UTF-8 that are cut

The bytes of a text are cut anywhere and each piece is decoded by itself.  Every piece gives a
character for each byte in it that begins one, and one more where it begins with a byte that
continues a character; so the text comes back exactly when no piece does.
-/

namespace PlainText

def continues (b : UInt8) : Bool := 0x80 ≤ b && b ≤ 0xBF

def starts (bytes : List UInt8) : ℕ := bytes.countP fun b => !continues b

def BeginsWhole (bytes : List UInt8) : Prop := ∀ b ∈ bytes.head?, continues b = false

section

variable {value n : ℕ} {b : UInt8} {bytes bytes' : List UInt8} {ranges : List (UInt8 × UInt8)}
  {text : List Char} {pieces : List (List UInt8)}

/-! ### What a decoder makes of any bytes -/

theorem continues_iff : continues b = true ↔ 0x80 ≤ b.toNat ∧ b.toNat ≤ 0xBF := by
  simp [continues, UInt8.le_iff_toNat_le]

theorem continues_eq_false_iff : continues b = false ↔ b.toNat < 0x80 ∨ 0xBF < b.toNat := by
  rw [← Bool.not_eq_true, continues_iff]
  omega

theorem followers_continue (h : followers b = some ranges) :
    continues b = false ∧ ∀ range ∈ ranges, 0x80 ≤ range.1.toNat ∧ range.2.toNat ≤ 0xBF := by
  rw [continues_eq_false_iff]
  unfold followers at h
  simp only [UInt8.lt_iff_toNat_lt] at h
  have hvalues : (0x80 : UInt8).toNat = 0x80 ∧ (0xC2 : UInt8).toNat = 0xC2 := ⟨rfl, rfl⟩
  split_ifs at h with hone hnone
  · cases h
    exact ⟨.inl (by omega), fun range hrange => absurd hrange List.not_mem_nil⟩
  all_goals
    cases h
    refine ⟨.inr (by omega), ?_⟩
    simp

theorem followers_of_continues (h : continues b = true) : followers b = none := by
  cases hfollowers : followers b with
  | none => rfl
  | some ranges =>
    rw [(followers_continue hfollowers).1] at h
    cases h

theorem starts_cons (b : UInt8) (bytes : List UInt8) :
    starts (b :: bytes) = starts bytes + if continues b then 0 else 1 := by
  rw [starts, List.countP_cons, starts]
  cases continues b <;> rfl

theorem follow_starts (hranges : ∀ range ∈ ranges, 0x80 ≤ range.1.toNat ∧ range.2.toNat ≤ 0xBF) :
    starts (follow value ranges bytes).2 = starts bytes ∧
      (follow value ranges bytes).2.length ≤ bytes.length := by
  induction ranges generalizing value bytes with
  | nil => exact ⟨rfl, le_rfl⟩
  | cons range ranges ih =>
    obtain ⟨least, most⟩ := range
    cases bytes with
    | nil => exact ⟨rfl, le_rfl⟩
    | cons b bytes =>
      rw [follow]
      split_ifs with hb
      · have hrest : starts (follow (value * 64 + b.toNat % 64) ranges bytes).2 = starts bytes ∧
            (follow (value * 64 + b.toNat % 64) ranges bytes).2.length ≤ bytes.length :=
          ih fun range hrange => hranges range (List.mem_cons_of_mem _ hrange)
        have hrange := hranges _ List.mem_cons_self
        have hcontinues : continues b = true := by
          rw [UInt8.le_iff_toNat_le, UInt8.le_iff_toNat_le] at hb
          exact continues_iff.mpr ⟨hrange.1.trans hb.1, hb.2.trans hrange.2⟩
        rw [starts_cons, hcontinues]
        exact ⟨hrest.1, hrest.2.trans (Nat.le_succ _)⟩
      · exact ⟨rfl, le_rfl⟩

theorem nextChar_starts (b : UInt8) (bytes : List UInt8) :
    starts (nextChar b bytes).2 = starts bytes ∧ (nextChar b bytes).2.length ≤ bytes.length := by
  rw [nextChar]
  cases hfollowers : followers b with
  | none => exact ⟨rfl, le_rfl⟩
  | some ranges => exact follow_starts (followers_continue hfollowers).2

theorem starts_le_decodeFrom (h : bytes.length ≤ n) : starts bytes ≤ (decodeFrom n bytes).length := by
  induction n generalizing bytes with
  | zero =>
    rw [List.length_eq_zero_iff.mp (Nat.le_zero.mp h)]
    exact le_rfl
  | succ n ih =>
    cases bytes with
    | nil => exact le_rfl
    | cons b bytes =>
      obtain ⟨hstarts, hlength⟩ := nextChar_starts b bytes
      have hrest := ih (hlength.trans (Nat.le_of_succ_le_succ h))
      rw [decodeFrom, List.length_cons, starts_cons]
      split_ifs <;> omega

theorem starts_le_decodeReplace (bytes : List UInt8) :
    starts bytes ≤ (decodeReplace bytes).length := by
  rw [decodeReplace, List.length_map]
  exact starts_le_decodeFrom le_rfl

theorem starts_lt_decodeReplace (h : ¬ BeginsWhole bytes) :
    starts bytes < (decodeReplace bytes).length := by
  cases bytes with
  | nil => exact absurd (fun b hb => by simp at hb) h
  | cons b bytes =>
    have hcontinues : continues b = true := by
      by_contra hb
      refine h fun b' hb' => ?_
      rw [← Option.some.inj hb']
      exact Bool.eq_false_iff.mpr hb
    have hnext : nextChar b bytes = (none, bytes) := by
      rw [nextChar, followers_of_continues hcontinues]
    have hrest := starts_le_decodeFrom (le_refl bytes.length)
    rw [decodeReplace, List.length_map, List.length_cons, decodeFrom, hnext, List.length_cons,
      starts_cons, hcontinues]
    exact Nat.lt_succ_of_le hrest

/-! ### The bytes of a text -/

theorem utf8EncodeChar_shape (c : Char) : ∃ b bs, String.utf8EncodeChar c = b :: bs ∧
    continues b = false ∧ ∀ b' ∈ bs, continues b' = true := by
  have hbounds := char_bounds c
  have hval : c.val.toNat = c.toNat := rfl
  have hlead : ∀ k < 256, k < 0x80 ∨ 0xBF < k → continues (UInt8.ofNat k) = false := by
    intro k hk h
    rwa [continues_eq_false_iff, toNat_ofNat hk]
  have hnext : ∀ k < 64, continues (UInt8.ofNat (k + 0x80)) = true := by
    intro k hk
    rw [continues_iff, toNat_ofNat (by omega)]
    omega
  simp only [String.utf8EncodeChar, hval]
  generalize c.toNat = m at hbounds
  split_ifs
  · exact ⟨_, _, rfl, hlead _ (by omega) (by omega), by simp⟩
  · refine ⟨_, _, rfl, hlead _ (by omega) (by omega), ?_⟩
    simp only [List.mem_singleton, forall_eq]
    exact hnext _ (by omega)
  · refine ⟨_, _, rfl, hlead _ (by omega) (by omega), ?_⟩
    simp only [List.mem_cons, List.not_mem_nil, or_false, forall_eq_or_imp, forall_eq]
    exact ⟨hnext _ (by omega), hnext _ (by omega)⟩
  · refine ⟨_, _, rfl, hlead _ (by omega) (by omega), ?_⟩
    simp only [List.mem_cons, List.not_mem_nil, or_false, forall_eq_or_imp, forall_eq]
    exact ⟨hnext _ (by omega), hnext _ (by omega), hnext _ (by omega)⟩

theorem starts_encode (text : List Char) : starts (encode text) = text.length := by
  induction text with
  | nil => rfl
  | cons c text ih =>
    obtain ⟨b, bs, hc, hb, hbs⟩ := utf8EncodeChar_shape c
    have hnone : bs.countP (fun b => !continues b) = 0 :=
      List.countP_eq_zero.mpr fun b' hb' => by simp [hbs b' hb']
    rw [starts] at ih
    rw [encode, List.flatMap_cons, hc, List.cons_append, starts_cons, hb, starts,
      List.countP_append, hnone]
    simpa [encode] using ih

theorem encode_eq_append (hcut : encode text = bytes ++ bytes') (hwhole : BeginsWhole bytes') :
    ∃ front back, text = front ++ back ∧ encode front = bytes ∧ encode back = bytes' := by
  induction text generalizing bytes with
  | nil =>
    obtain ⟨rfl, rfl⟩ := List.append_eq_nil_iff.mp hcut.symm
    exact ⟨[], [], rfl, rfl, rfl⟩
  | cons c text ih =>
    cases bytes with
    | nil => exact ⟨[], c :: text, rfl, rfl, hcut⟩
    | cons b bytes =>
      obtain ⟨lead, bs, hc, hlead, hbs⟩ := utf8EncodeChar_shape c
      rw [encode, List.flatMap_cons, hc, List.cons_append, List.cons_append] at hcut
      obtain ⟨rfl, hrest⟩ := List.cons.inj hcut
      have hinside : ∀ more, bytes = bs ++ more → encode text = more ++ bytes' →
          ∃ front back, c :: text = front ++ back ∧ encode front = lead :: bytes ∧
            encode back = bytes' := by
        intro more hmore hrest
        obtain ⟨front, back, rfl, hfront, hback⟩ := ih hrest
        refine ⟨c :: front, back, rfl, ?_, hback⟩
        rw [hmore, ← hfront, encode, List.flatMap_cons, hc]
        rfl
      rcases List.append_eq_append_iff.mp hrest with ⟨more, hmore, hrest⟩ | ⟨more, hmore, hrest⟩
      · exact hinside more hmore hrest
      · cases more with
        | nil =>
          rw [List.append_nil] at hmore
          exact hinside [] (by rw [hmore, List.append_nil]) hrest.symm
        | cons b' more =>
          have hcontinues := hbs b' (by rw [hmore]; simp)
          rw [hwhole b' (by rw [hrest]; rfl)] at hcontinues
          cases hcontinues

theorem decodeReplace_encode (text : List Char) : decodeReplace (encode text) = text := by
  rw [decodeReplace, decodeFrom_encode text le_rfl, List.map_map]
  exact List.map_id text

/-! ### Pieces -/

theorem beginsWhole_flatten (h : ∀ piece ∈ pieces, BeginsWhole piece) :
    BeginsWhole pieces.flatten := by
  induction pieces with
  | nil => exact fun b hb => by simp at hb
  | cons piece pieces ih =>
    cases piece with
    | nil => exact ih fun piece hpiece => h piece (List.mem_cons_of_mem _ hpiece)
    | cons b bytes => exact h (b :: bytes) List.mem_cons_self

theorem flatMap_decodeReplace_iff (hpieces : pieces.flatten = encode text) :
    pieces.flatMap decodeReplace = text ↔ ∀ piece ∈ pieces, BeginsWhole piece := by
  constructor
  · intro htext
    have hsum : (pieces.map starts).sum = (pieces.map fun piece => (decodeReplace piece).length).sum := by
      have hbytes := congrArg starts hpieces
      have hlength := congrArg List.length htext
      rw [starts_encode, starts, List.countP_flatten] at hbytes
      rw [List.length_flatMap] at hlength
      exact hbytes.trans hlength.symm
    by_contra hcut
    push Not at hcut
    obtain ⟨piece, hpiece, hcut⟩ := hcut
    have hless := List.sum_lt_sum starts (fun piece => (decodeReplace piece).length)
      (fun piece _ => starts_le_decodeReplace piece) ⟨piece, hpiece, starts_lt_decodeReplace hcut⟩
    omega
  · intro hwhole
    induction pieces generalizing text with
    | nil => exact (encode_eq_nil.mp hpieces.symm).symm
    | cons piece pieces ih =>
      have hrest := fun piece hpiece => hwhole piece (List.mem_cons_of_mem _ hpiece)
      obtain ⟨front, back, rfl, rfl, hback⟩ :=
        encode_eq_append (hpieces.symm.trans List.flatten_cons) (beginsWhole_flatten hrest)
      rw [List.flatMap_cons, decodeReplace_encode, ih hback.symm hrest]

end

end PlainText
