import McAdmin.PlainText

/-!
# Texts in UTF-8

What is encoded is decoded again, character after character.
-/

namespace PlainText

/-- `text.encode("utf-8")` -/
def encode (text : List Char) : List UInt8 := text.flatMap String.utf8EncodeChar

section

variable {value k : ℕ} {c : Char} {least most : UInt8} {ranges : List (UInt8 × UInt8)}
  {bytes : List UInt8}

theorem toNat_ofNat (h : k < 256) : (UInt8.ofNat k).toNat = k := by
  rw [UInt8.toNat_ofNat']
  exact Nat.mod_eq_of_lt h

theorem followers_ofNat (h : k < 256) :
    followers (UInt8.ofNat k) =
      if k < 0x80 then some []
      else if k < 0xC2 then none
      else if k < 0xE0 then some [(0x80, 0xBF)]
      else if k = 0xE0 then some [(0xA0, 0xBF), (0x80, 0xBF)]
      else if k = 0xED then some [(0x80, 0x9F), (0x80, 0xBF)]
      else if k < 0xF0 then some [(0x80, 0xBF), (0x80, 0xBF)]
      else if k = 0xF0 then some [(0x90, 0xBF), (0x80, 0xBF), (0x80, 0xBF)]
      else if k < 0xF4 then some [(0x80, 0xBF), (0x80, 0xBF), (0x80, 0xBF)]
      else if k = 0xF4 then some [(0x80, 0x8F), (0x80, 0xBF), (0x80, 0xBF)]
      else none := by
  simp only [followers, UInt8.lt_iff_toNat_lt, ← UInt8.toNat_inj, toNat_ofNat h]
  rfl

theorem leadBits_ofNat (h : k < 256) :
    leadBits (UInt8.ofNat k) =
      if k < 0x80 then k else if k < 0xE0 then k % 32 else if k < 0xF0 then k % 16 else k % 8 := by
  simp only [leadBits, UInt8.lt_iff_toNat_lt, toNat_ofNat h]
  rfl

theorem follow_cons (hk : k < 64) (hleast : least.toNat ≤ k + 0x80) (hmost : k + 0x80 ≤ most.toNat) :
    follow value ((least, most) :: ranges) (UInt8.ofNat (k + 0x80) :: bytes) =
      follow (value * 64 + k) ranges bytes := by
  have hbyte : (UInt8.ofNat (k + 0x80)).toNat = k + 0x80 := toNat_ofNat (by omega)
  have hbounds : least ≤ UInt8.ofNat (k + 0x80) ∧ UInt8.ofNat (k + 0x80) ≤ most := by
    rw [UInt8.le_iff_toNat_le, UInt8.le_iff_toNat_le, hbyte]
    exact ⟨hleast, hmost⟩
  rw [follow, if_pos hbounds, hbyte]
  congr 2
  omega

theorem char_bounds (c : Char) : c.toNat < 0xD800 ∨ 0xDFFF < c.toNat ∧ c.toNat < 0x110000 := c.valid

theorem follow_nil (h : value = c.toNat) : follow value [] bytes = (some c, bytes) := by
  rw [follow, h, Char.ofNat_toNat]

theorem followers_three {n : ℕ} (hleast : 0x800 ≤ n) (hmost : n < 0x10000)
    (hvalid : n < 0xD800 ∨ 0xDFFF < n) :
    ∃ least most : UInt8, followers (UInt8.ofNat (n / 4096 % 16 + 0xE0)) =
        some [(least, most), (0x80, 0xBF)] ∧
      least.toNat ≤ n / 64 % 64 + 0x80 ∧ n / 64 % 64 + 0x80 ≤ most.toNat := by
  rw [followers_ofNat (by omega), if_neg (by omega), if_neg (by omega), if_neg (by omega)]
  by_cases hfirst : n / 4096 % 16 + 0xE0 = 0xE0
  · refine ⟨0xA0, 0xBF, if_pos hfirst, ?_, ?_⟩
    · change 0xA0 ≤ _
      omega
    · change _ ≤ 0xBF
      omega
  rw [if_neg hfirst]
  by_cases hsurrogates : n / 4096 % 16 + 0xE0 = 0xED
  · refine ⟨0x80, 0x9F, if_pos hsurrogates, ?_, ?_⟩
    · change 0x80 ≤ _
      omega
    · change _ ≤ 0x9F
      omega
  · rw [if_neg hsurrogates, if_pos (by omega)]
    refine ⟨0x80, 0xBF, rfl, ?_, ?_⟩
    · change 0x80 ≤ _
      omega
    · change _ ≤ 0xBF
      omega

theorem followers_four {n : ℕ} (hleast : 0x10000 ≤ n) (hmost : n < 0x110000) :
    ∃ least most : UInt8, followers (UInt8.ofNat (n / 262144 % 8 + 0xF0)) =
        some [(least, most), (0x80, 0xBF), (0x80, 0xBF)] ∧
      least.toNat ≤ n / 4096 % 64 + 0x80 ∧ n / 4096 % 64 + 0x80 ≤ most.toNat := by
  rw [followers_ofNat (by omega), if_neg (by omega), if_neg (by omega), if_neg (by omega),
    if_neg (by omega), if_neg (by omega), if_neg (by omega)]
  by_cases hfirst : n / 262144 % 8 + 0xF0 = 0xF0
  · refine ⟨0x90, 0xBF, if_pos hfirst, ?_, ?_⟩
    · change 0x90 ≤ _
      omega
    · change _ ≤ 0xBF
      omega
  rw [if_neg hfirst]
  by_cases hlast : n / 262144 % 8 + 0xF0 = 0xF4
  · rw [if_neg (by omega)]
    refine ⟨0x80, 0x8F, if_pos hlast, ?_, ?_⟩
    · change 0x80 ≤ _
      omega
    · change _ ≤ 0x8F
      omega
  · rw [if_pos (by omega)]
    refine ⟨0x80, 0xBF, rfl, ?_, ?_⟩
    · change 0x80 ≤ _
      omega
    · change _ ≤ 0xBF
      omega

theorem nextChar_encode (c : Char) : ∃ b bs, String.utf8EncodeChar c = b :: bs ∧
    ∀ bytes, nextChar b (bs ++ bytes) = (some c, bytes) := by
  have hbounds := char_bounds c
  have hval : c.val.toNat = c.toNat := rfl
  have hleast : (0x80 : UInt8).toNat = 0x80 := rfl
  have hmost : (0xBF : UInt8).toNat = 0xBF := rfl
  simp only [String.utf8EncodeChar, hval]
  generalize hn : c.toNat = n at hbounds
  split_ifs with hone htwo hthree
  · refine ⟨_, _, rfl, fun bytes => ?_⟩
    rw [nextChar, followers_ofNat (by omega), leadBits_ofNat (by omega), if_pos (by omega),
      if_pos (by omega)]
    exact follow_nil hn.symm
  · refine ⟨_, _, rfl, fun bytes => ?_⟩
    rw [nextChar, followers_ofNat (by omega), leadBits_ofNat (by omega), if_neg (by omega),
      if_neg (by omega), if_pos (by omega), if_neg (by omega), if_pos (by omega)]
    exact (follow_cons (by omega) (by omega) (by omega)).trans (follow_nil (by omega))
  · rcases followers_three (by omega) (by omega) (hbounds.imp_right And.left) with
      ⟨least, most, hfollowers, hlo, hhi⟩
    refine ⟨_, _, rfl, fun bytes => ?_⟩
    rw [nextChar, hfollowers, leadBits_ofNat (by omega), if_neg (by omega), if_neg (by omega),
      if_pos (by omega)]
    exact ((follow_cons (by omega) hlo hhi).trans
      (follow_cons (by omega) (by omega) (by omega))).trans (follow_nil (by omega))
  · rcases followers_four (n := n) (by omega) (by omega) with ⟨least, most, hfollowers, hlo, hhi⟩
    refine ⟨_, _, rfl, fun bytes => ?_⟩
    rw [nextChar, hfollowers, leadBits_ofNat (by omega), if_neg (by omega), if_neg (by omega),
      if_neg (by omega)]
    exact (((follow_cons (by omega) hlo hhi).trans
      (follow_cons (by omega) (by omega) (by omega))).trans
      (follow_cons (by omega) (by omega) (by omega))).trans (follow_nil (by omega))

theorem decodeFrom_encode (text : List Char) {n : ℕ} (hn : (encode text).length ≤ n) :
    decodeFrom n (encode text) = text.map some := by
  induction text generalizing n with
  | nil => cases n <;> rfl
  | cons c text ih =>
    rcases nextChar_encode c with ⟨b, bs, hc, hnext⟩
    have hcons : encode (c :: text) = b :: (bs ++ encode text) := by
      rw [encode, List.flatMap_cons, hc]
      rfl
    rw [hcons] at hn ⊢
    rw [List.length_cons, List.length_append] at hn
    cases n with
    | zero => omega
    | succ n => rw [decodeFrom, hnext, ih (by omega), List.map_cons]

theorem decode_encode (text : List Char) : decode (encode text) = some text := by
  rw [decode, decodeFrom_encode text le_rfl, List.mapM_map]
  induction text with
  | nil => rfl
  | cons c text ih =>
    rw [List.mapM_cons, ih]
    rfl

@[simp] theorem encode_nil : encode [] = [] := rfl

theorem encode_append (text text' : List Char) : encode (text ++ text') = encode text ++ encode text' :=
  List.flatMap_append

theorem encode_eq_nil {text : List Char} : encode text = [] ↔ text = [] := by
  cases text with
  | nil => simp
  | cons c text => simp [encode, String.utf8EncodeChar_ne_nil]

theorem mem_encode_ten {text : List Char} (h : 10 ∈ encode text) : '\n' ∈ text := by
  rcases List.mem_flatMap.mp h with ⟨c, hc, hten⟩
  have hbounds := char_bounds c
  have hval : c.val.toNat = c.toNat := rfl
  have hbyte : ∀ n < 256, 10 = UInt8.ofNat n → n = 10 := by
    intro n hn heq
    have hnat := congrArg UInt8.toNat heq
    rw [toNat_ofNat hn] at hnat
    exact hnat.symm
  have hline : c.toNat = 10 := by
    rw [String.utf8EncodeChar, hval] at hten
    generalize c.toNat = n at hten hbounds ⊢
    split_ifs at hten
    · exact hbyte n (by omega) (List.mem_singleton.mp hten)
    all_goals
      simp only [List.mem_cons, List.not_mem_nil, or_false] at hten
      exfalso
    · rcases hten with hten | hten
      all_goals
        have hn := hbyte _ (by omega) hten
        omega
    · rcases hten with hten | hten | hten
      all_goals
        have hn := hbyte _ (by omega) hten
        omega
    · rcases hten with hten | hten | hten | hten
      all_goals
        have hn := hbyte _ (by omega) hten
        omega
  have heq : c = '\n' := Char.toNat_inj.mp hline
  exact heq ▸ hc

end

end PlainText
