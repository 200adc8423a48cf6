import Mathlib.Data.Rat.Floor
import McAdmin.Base32
import McAdmin.Totp

/-!
# One-time codes, any window

`verify` with the window its caller chooses, the code of a moment, and the secret as it is drawn
and as it is shown.  Six digits that are not all of ASCII make the comparison raise, and so does a
counter that outgrows eight bytes; everything else is answered.
-/

namespace Totp

open Backtracking

/-- The tables of the text functions, and HMAC-SHA1 of the packed counter. -/
structure Tables extends CharTable where
  /-- `str.isdigit`, for one character -/
  isDigit : Char → Bool
  /-- `str.upper`, for one character -/
  upperOf : Char → Text
  /-- The twenty bytes of the digest. -/
  hmacSha1 : List UInt8 → ℕ → Fin 20 → UInt8
  isDigit_ascii : ∀ c : Char, c.toNat < 128 → isDigit c = c.isDigit
  upperOf_ascii : ∀ c : Char, c.toNat < 128 → upperOf c = [c.toUpper]

/-- The library with `base64.b32decode` as it is written. -/
def Tables.library (tables : Tables) : Library where
  toCharTable := tables.toCharTable
  isDigit := tables.isDigit
  upper t := t.flatMap tables.upperOf
  b32decode := Base32.b32decode
  hmacSha1 := tables.hmacSha1
  isDigit_ascii := tables.isDigit_ascii
  upper_nil := rfl

variable (lib : Library)

/-- `range(-window, window + 1)` -/
def drifts (window : ℕ) : List ℤ := (List.range (2 * window + 1)).map fun i : ℕ => (i : ℤ) - window

/-- `verify` at a moment, with a window. -/
def verifyWithin (window : ℕ) (secret code : Text) (moment : ℚ) : Except Error Bool :=
  match decodeSecret lib secret with
  | none => .ok false
  | some key =>
    if wellFormed lib code then
      matchWindow lib key (lib.strip code) (counterAt moment) (drifts window)
    else .ok false

def codeAt (secret : Text) (moment : ℚ) : Except Error (Option Text) :=
  match decodeSecret lib secret with
  | none => .ok none
  | some key => (hotp lib key (counterAt moment)).map some

def formatSecret (secret : Text) : Text := [' '].intercalate (Base32.pieces 4 secret)

def secretBytes : ℕ := 20

/-- `generate_secret`, from the bytes that are drawn. -/
def generateSecret (bytes : List UInt8) : Text := (Base32.b32encode bytes).rdropWhile (· == '=')

variable {lib}

/-! ### The window -/

section

variable {window : ℕ} {key : List UInt8} {candidate : Text} {counter drift : ℤ} {ds : List ℤ}

theorem mem_drifts : drift ∈ drifts window ↔ |drift| ≤ window := by
  rw [drifts, List.mem_map, abs_le]
  constructor
  · rintro ⟨i, hi, rfl⟩
    rw [List.mem_range] at hi
    omega
  · rintro ⟨hlow, hhigh⟩
    exact ⟨(drift + window).toNat, by rw [List.mem_range]; omega, by omega⟩

theorem drifts_ascending (window : ℕ) : (drifts window).Pairwise (· < ·) := by
  refine List.pairwise_map.mpr (List.pairwise_lt_range.imp ?_)
  intro i j hij
  omega

theorem drifts_ne_nil (window : ℕ) : drifts window ≠ [] := by
  simp [drifts]

theorem matchWindow_cons_of_ok {expected : Text}
    (h : hotp lib key (counter + drift) = .ok expected) (hascii : isAscii candidate = true) :
    matchWindow lib key candidate counter (drift :: ds) =
      if expected = candidate then .ok true else matchWindow lib key candidate counter ds := by
  simp only [matchWindow, h, compareDigest_hotp h, hascii, if_true, bind, Except.bind]
  by_cases heq : expected = candidate
  · simp [heq, pure, Except.pure]
  · simp [heq]

theorem matchWindow_of_not_ascii (hascii : isAscii candidate = false) (hne : ds ≠ []) :
    ∃ e, matchWindow lib key candidate counter ds = .error e := by
  obtain ⟨drift, rest, rfl⟩ := List.exists_cons_of_ne_nil hne
  cases hcode : hotp lib key (counter + drift) with
  | error e => exact ⟨e, by simp [matchWindow, hcode, bind, Except.bind]⟩
  | ok expected =>
    refine ⟨.comparison, ?_⟩
    simp [matchWindow, hcode, compareDigest_hotp hcode, hascii, bind, Except.bind]

theorem range_of_hotp {text : Text} (h : hotp lib key counter = .ok text) :
    0 ≤ counter ∧ counter < 2 ^ 64 := by
  by_contra hrange
  rw [hotp, if_neg hrange] at h
  cases h

theorem matchWindow_of_mem (hascii : isAscii candidate = true) (hlow : ∀ d ∈ ds, 0 ≤ counter + d)
    (hascending : ds.Pairwise (· < ·)) (hmem : drift ∈ ds)
    (h : hotp lib key (counter + drift) = .ok candidate) :
    matchWindow lib key candidate counter ds = .ok true := by
  induction ds with
  | nil => cases hmem
  | cons d rest ih =>
    obtain ⟨hfirst, hrest⟩ := List.pairwise_cons.mp hascending
    rcases List.mem_cons.mp hmem with rfl | hmem
    · rw [matchWindow_cons_of_ok h hascii, if_pos rfl]
    · have hless := hfirst drift hmem
      have hhigh := (range_of_hotp h).2
      have hd := hlow d List.mem_cons_self
      have hd' : 0 ≤ counter + d ∧ counter + d < 2 ^ 64 := ⟨hd, by omega⟩
      obtain ⟨expected, hexpected⟩ := hotp_of_range lib key hd'
      have htail := ih (fun d' hd' => hlow d' (List.mem_cons_of_mem _ hd')) hrest hmem
      rw [matchWindow_cons_of_ok hexpected hascii, htail, ite_self]

theorem matchWindow_answer {b : Bool} (hascii : isAscii candidate = true)
    (h : matchWindow lib key candidate counter ds = .ok b) :
    if b then ∃ d ∈ ds, hotp lib key (counter + d) = .ok candidate
    else ∀ d ∈ ds, ∃ expected, hotp lib key (counter + d) = .ok expected ∧
      expected ≠ candidate := by
  induction ds with
  | nil =>
    obtain rfl : false = b := by simpa [matchWindow] using h
    simp
  | cons d rest ih =>
    cases hcode : hotp lib key (counter + d) with
    | error e => simp [matchWindow, hcode, bind, Except.bind] at h
    | ok expected =>
      rw [matchWindow_cons_of_ok hcode hascii] at h
      by_cases heq : expected = candidate
      · rw [if_pos heq] at h
        obtain rfl : true = b := by simpa using h
        exact ⟨d, List.mem_cons_self, by rw [hcode, heq]⟩
      · rw [if_neg heq] at h
        have hrest := ih h
        cases b with
        | true =>
          obtain ⟨d', hd', hmatch⟩ := hrest
          exact ⟨d', List.mem_cons_of_mem _ hd', hmatch⟩
        | false => exact List.forall_mem_cons.mpr ⟨⟨expected, hcode, heq⟩, hrest⟩

end

/-! ### The code of a moment -/

section

variable {key : List UInt8} {counter : ℤ} {text : Text}

theorem digits_of_hotp (h : hotp lib key counter = .ok text) :
    text.length = digits ∧ ∀ c ∈ text, c.isDigit = true := by
  rw [hotp, if_pos (range_of_hotp h), Except.ok.injEq] at h
  subst h
  have hlength := (Nat.length_toDigits_le_iff (b := 10) (by decide) (k := digits) (by decide)).mpr
    (Nat.mod_lt (truncated (lib.hmacSha1 key counter.toNat)) (y := 10 ^ digits) (by decide))
  constructor
  · rw [zfill, List.length_append, List.length_replicate]
    omega
  · intro c hc
    rcases List.mem_append.mp hc with hc | hc
    · rw [(List.mem_replicate.mp hc).2]
      rfl
    · exact Nat.isDigit_of_mem_toDigits (by decide) (by decide) hc

theorem strip_of_no_space (h : ∀ c ∈ text, lib.isSpace c = false) : lib.strip text = text := by
  have hleft : text.dropWhile lib.isSpace = text := by
    rw [List.dropWhile_eq_self_iff]
    intro hpos
    rw [h _ (List.getElem_mem hpos)]
    exact Bool.false_ne_true
  rw [CharTable.strip, hleft, Base32.rdropWhile_of_not h]

theorem toNat_of_isDigit {c : Char} (h : c.isDigit = true) : 48 ≤ c.toNat ∧ c.toNat ≤ 57 :=
  Char.isDigit_iff_toNat.mp h

theorem strip_of_digits (h : ∀ c ∈ text, c.isDigit = true) : lib.strip text = text := by
  refine strip_of_no_space fun c hc => ?_
  obtain ⟨hlow, hhigh⟩ := toNat_of_isDigit (h c hc)
  exact lib.isSpace_of_shown (by omega) (by omega)

theorem wellFormed_of_digits (hlength : text.length = digits)
    (h : ∀ c ∈ text, c.isDigit = true) : wellFormed lib text = true := by
  rw [wellFormed, strip_of_digits h, hlength, beq_self_eq_true, Bool.true_and, List.all_eq_true]
  intro c hc
  obtain ⟨-, hhigh⟩ := toNat_of_isDigit (h c hc)
  rw [lib.isDigit_ascii c (by omega)]
  exact h c hc

end

/-! ### The secret -/

section

variable {tables : Tables} {secret : Text} {bytes : List UInt8}

theorem filter_strip (lib : Library) (t : Text) :
    (lib.strip t).filter (· != ' ') = lib.strip (t.filter (· != ' ')) := by
  have hspace : ∀ c, lib.isSpace c = false → (c != ' ') = true := by
    intro c hc
    rw [bne_iff_ne]
    rintro rfl
    rw [lib.isSpace_ascii _ (by decide)] at hc
    exact absurd hc (by decide)
  have hleft : ∀ t : Text, (t.dropWhile lib.isSpace).filter (· != ' ') =
      (t.filter (· != ' ')).dropWhile lib.isSpace := by
    intro t
    induction t with
    | nil => rfl
    | cons c t ih =>
      cases hc : lib.isSpace c with
      | true =>
        rw [List.dropWhile_cons_of_pos hc, ih, List.filter_cons]
        by_cases hblank : (c != ' ') = true
        · rw [if_pos hblank, List.dropWhile_cons_of_pos hc]
        · rw [if_neg hblank]
      | false =>
        have hneg : ¬ lib.isSpace c = true := by simp [hc]
        rw [List.dropWhile_cons_of_neg hneg, List.filter_cons, if_pos (hspace c hc),
          List.dropWhile_cons_of_neg hneg]
  rw [CharTable.strip, CharTable.strip, List.rdropWhile, List.rdropWhile, List.filter_reverse,
    hleft, List.filter_reverse, hleft]

theorem filter_formatSecret (secret : Text) :
    (formatSecret secret).filter (· != ' ') = secret.filter (· != ' ') := by
  have hjoin : ∀ groups : List Text,
      ([' '].intercalate groups).filter (· != ' ') = groups.flatten.filter (· != ' ') := by
    intro groups
    induction groups with
    | nil => rfl
    | cons g groups ih =>
      cases groups with
      | nil => simp
      | cons g' groups =>
        have hsep : [' '].filter (· != ' ') = [] := rfl
        rw [List.intercalate_cons_cons, List.filter_append, List.filter_append, ih, hsep,
          List.append_nil, ← List.filter_append, ← List.flatten_cons]
  rw [formatSecret, hjoin, Base32.flatten_pieces (by decide)]

theorem decodeSecret_formatSecret (lib : Library) (secret : Text) :
    decodeSecret lib (formatSecret secret) = decodeSecret lib secret := by
  simp only [decodeSecret]
  rw [filter_strip, filter_strip, filter_formatSecret]

theorem decodeSecret_generateSecret (h : bytes.length = secretBytes) :
    decodeSecret tables.library (generateSecret bytes) = some bytes := by
  have hwhole : bytes.length % 5 = 0 := by rw [h]; rfl
  have hplain : ∀ c ∈ Base32.b32encode bytes, Base32.Plain c :=
    fun c hc => Base32.plain_of_mem_b32encode hwhole hc
  have hgenerate : generateSecret bytes = Base32.b32encode bytes :=
    Base32.rdropWhile_of_not fun c hc => beq_false_of_ne (hplain c hc).not_pad
  have hstrip : tables.library.strip (Base32.b32encode bytes) = Base32.b32encode bytes :=
    strip_of_no_space fun c hc =>
      tables.library.isSpace_of_shown (hplain c hc).low (hplain c hc).high
  have hblank : (Base32.b32encode bytes).filter (· != ' ') = Base32.b32encode bytes := by
    rw [List.filter_eq_self]
    intro c hc
    rw [bne_iff_ne]
    rintro rfl
    exact absurd (hplain _ hc).low (by decide)
  have hupper : (Base32.b32encode bytes).flatMap tables.upperOf = Base32.b32encode bytes := by
    have hone : (Base32.b32encode bytes).map tables.upperOf =
        (Base32.b32encode bytes).map fun c => [c] := by
      refine List.map_congr_left fun c hc => ?_
      rw [tables.upperOf_ascii c (hplain c hc).high, (hplain c hc).upper]
    rw [List.flatMap_def, hone, ← List.flatMap_def, List.flatMap_singleton']
  have hdecode := Base32.b32decode_b32encode hwhole
  have hne : Base32.b32encode bytes ≠ [] := by
    intro hnil
    rw [hnil] at hdecode
    obtain rfl : [] = bytes := by simpa [Base32.b32decode, Base32.pieces_nil] using hdecode
    cases h
  have hupper' : tables.library.upper (Base32.b32encode bytes) = Base32.b32encode bytes := hupper
  have hmod := Base32.length_b32encode_mod hwhole
  simp only [decodeSecret, hgenerate, hstrip, hblank, hupper', hne, if_false, hmod]
  have hpad : List.replicate ((8 - 0) % 8) '=' = [] := rfl
  rw [hpad, List.append_nil]
  exact hdecode

end

/-! ### The verification -/

section

variable {tables : Tables} {window : ℕ} {secret code text : Text} {moment : ℚ} {key : List UInt8}
  {counter : ℤ}

theorem le_counterAt (h : 30 * (window : ℚ) ≤ moment) : (window : ℤ) ≤ counterAt moment := by
  have hpos : 0 ≤ moment := le_trans (by positivity) h
  have hfloor : (30 * window : ℤ) ≤ ⌊moment⌋ := by
    rw [Int.le_floor]
    push_cast
    exact h
  have hnum : 0 ≤ moment.num := Rat.num_nonneg.mpr hpos
  have hsteps : (window : ℤ) ≤ ⌊moment⌋ / period := by
    rw [period]
    omega
  rw [Rat.floor_def'] at hsteps
  rw [counterAt, Int.tdiv_eq_ediv_of_nonneg hnum]
  exact hsteps

def Matches (lib : Library) (window : ℕ) (key : List UInt8) (code : Text) (moment : ℚ) : Prop :=
  ∃ counter, |counter - counterAt moment| ≤ (window : ℤ) ∧
    hotp lib key counter = .ok (lib.strip code)

/-- What a caller is told by `verify`, and what the secrets and codes it is given come from. -/
structure Verified (lib : Library) (window : ℕ) (secret code : Text) (moment : ℚ) : Prop where
  answered : ∃ b, verifyWithin lib window secret code moment = .ok b ∧
    (b = true ↔ ∃ key, decodeSecret lib secret = some key ∧ Matches lib window key code moment)
  accepted : ∀ (other : ℚ) (text : Text), codeAt lib secret other = .ok (some text) →
    |counterAt other - counterAt moment| ≤ (window : ℤ) →
    verifyWithin lib window secret text moment = .ok true
  grouped : decodeSecret lib (formatSecret secret) = decodeSecret lib secret
  generated : ∀ bytes, bytes.length = secretBytes →
    decodeSecret lib (generateSecret bytes) = some bytes

theorem exists_drift (h : |counter - counterAt moment| ≤ (window : ℤ)) :
    ∃ drift ∈ drifts window, counterAt moment + drift = counter :=
  ⟨counter - counterAt moment, mem_drifts.mpr h, by omega⟩

theorem nonneg_of_mem_drifts (h : 30 * (window : ℚ) ≤ moment) :
    ∀ drift ∈ drifts window, 0 ≤ counterAt moment + drift := by
  intro drift hdrift
  have hlow := le_counterAt h
  rw [mem_drifts, abs_le] at hdrift
  omega

theorem verifyWithin_of_matches (h : 30 * (window : ℚ) ≤ moment)
    (hkey : decodeSecret lib secret = some key) (hmatch : Matches lib window key code moment) :
    verifyWithin lib window secret code moment = .ok true := by
  obtain ⟨counter, hnear, hcode⟩ := hmatch
  obtain ⟨drift, hdrift, rfl⟩ := exists_drift hnear
  obtain ⟨hlength, hdigits⟩ := digits_of_hotp hcode
  have hformed : wellFormed lib code = true := by
    have hstrip : wellFormed lib (lib.strip code) = true := wellFormed_of_digits hlength hdigits
    rw [wellFormed, strip_of_digits hdigits] at hstrip
    exact hstrip
  simp only [verifyWithin, hkey, hformed, if_true]
  exact matchWindow_of_mem (isAscii_hotp hcode) (nonneg_of_mem_drifts h) (drifts_ascending window)
    hdrift hcode

theorem verifyWithin_codeAt {other : ℚ} (h : 30 * (window : ℚ) ≤ moment)
    (hcode : codeAt lib secret other = .ok (some text))
    (hnear : |counterAt other - counterAt moment| ≤ (window : ℤ)) :
    verifyWithin lib window secret text moment = .ok true := by
  rw [codeAt] at hcode
  cases hkey : decodeSecret lib secret with
  | none => simp [hkey] at hcode
  | some key =>
    cases hhotp : hotp lib key (counterAt other) with
    | error e => simp [hkey, hhotp, Except.map] at hcode
    | ok expected =>
      obtain rfl : expected = text := by simpa [hkey, hhotp, Except.map] using hcode
      refine verifyWithin_of_matches h hkey ⟨counterAt other, hnear, ?_⟩
      rw [strip_of_digits (digits_of_hotp hhotp).2]
      exact hhotp

/-- Six digits are answered when they are of ASCII and the loop does not outgrow the counter
before it meets them. -/
def Answerable (lib : Library) (window : ℕ) (key : List UInt8) (code : Text) (moment : ℚ) : Prop :=
  isAscii (lib.strip code) = true ∧
    (counterAt moment + window < 2 ^ 64 ∨ Matches lib window key code moment)

theorem matchWindow_answered_iff (h : 30 * (window : ℚ) ≤ moment) :
    (∃ b, matchWindow lib key (lib.strip code) (counterAt moment) (drifts window) = .ok b ∧
      (b = true ↔ Matches lib window key code moment)) ↔
      Answerable lib window key code moment := by
  have hlow := nonneg_of_mem_drifts h
  cases hascii : isAscii (lib.strip code) with
  | false =>
    obtain ⟨e, he⟩ : ∃ e, matchWindow lib key (lib.strip code) (counterAt moment)
        (drifts window) = .error e := matchWindow_of_not_ascii hascii (drifts_ne_nil window)
    rw [he]
    simp [Answerable, hascii]
  | true =>
    by_cases hmatch : Matches lib window key code moment
    · obtain ⟨counter, hnear, hcode⟩ := hmatch
      obtain ⟨drift, hdrift, rfl⟩ := exists_drift hnear
      have hmatch : Matches lib window key code moment := ⟨_, hnear, hcode⟩
      refine iff_of_true ⟨true, ?_, by simp [hmatch]⟩ ⟨hascii, .inr hmatch⟩
      exact matchWindow_of_mem hascii hlow (drifts_ascending window) hdrift hcode
    · constructor
      · rintro ⟨b, hb, hanswer⟩
        obtain rfl : b = false := by simpa [hmatch] using hanswer
        have hcompared := matchWindow_answer hascii hb
        -- no code matches, so that the loop came to the last counter
        have hlast := hcompared window (mem_drifts.mpr (by simp))
        obtain ⟨expected, hexpected, -⟩ := hlast
        exact ⟨hascii, .inl (range_of_hotp hexpected).2⟩
      · rintro ⟨-, hroom | hmatch'⟩
        · have hrange : ∀ drift ∈ drifts window,
              0 ≤ counterAt moment + drift ∧ counterAt moment + drift < 2 ^ 64 := by
            intro drift hdrift
            have hpositive := hlow drift hdrift
            rw [mem_drifts, abs_le] at hdrift
            exact ⟨hpositive, by omega⟩
          obtain ⟨b, hb⟩ := matchWindow_ok lib key hascii hrange
          refine ⟨b, hb, ?_⟩
          cases b with
          | false => simp [hmatch]
          | true =>
            obtain ⟨drift, hdrift, hcode⟩ := matchWindow_answer hascii hb
            rw [mem_drifts] at hdrift
            exact absurd ⟨_, by rw [add_sub_cancel_left]; exact hdrift, hcode⟩ hmatch
        · exact absurd hmatch' hmatch

theorem Verified.answerable (h : 30 * (window : ℚ) ≤ moment)
    (hverified : Verified lib window secret code moment)
    (hkey : decodeSecret lib secret = some key) (hformed : wellFormed lib code = true) :
    Answerable lib window key code moment := by
  obtain ⟨b, hb, hanswer⟩ := hverified.answered
  simp only [verifyWithin, hkey, hformed, if_true] at hb
  refine (matchWindow_answered_iff h).mp ⟨b, hb, hanswer.trans ?_⟩
  simp [hkey]

theorem verified_iff (tables : Tables) (window : ℕ) (secret code : Text) (moment : ℚ)
    (h : 30 * (window : ℚ) ≤ moment) :
    Verified tables.library window secret code moment ↔
      ∀ key, decodeSecret tables.library secret = some key →
        wellFormed tables.library code = true →
        Answerable tables.library window key code moment := by
  constructor
  · exact fun hverified key hkey hformed => hverified.answerable h hkey hformed
  · intro hanswerable
    refine ⟨?_, fun other text => verifyWithin_codeAt h, decodeSecret_formatSecret _ secret,
      fun bytes => decodeSecret_generateSecret⟩
    cases hkey : decodeSecret tables.library secret with
    | none => exact ⟨false, by simp [verifyWithin, hkey], by simp⟩
    | some key =>
      cases hformed : wellFormed tables.library code with
      | true =>
        obtain ⟨b, hb, hanswer⟩ :=
          (matchWindow_answered_iff h).mpr (hanswerable key hkey hformed)
        exact ⟨b, by simpa [verifyWithin, hkey, hformed] using hb, by simpa using hanswer⟩
      | false =>
        refine ⟨false, by simp [verifyWithin, hkey, hformed], iff_of_false (by simp) ?_⟩
        rintro ⟨key', hkey', hmatch⟩
        obtain rfl : key = key' := by simpa using hkey'
        have htrue := verifyWithin_of_matches h hkey hmatch
        simp [verifyWithin, hkey, hformed] at htrue

end

/-! ### Six digits of another alphabet -/

/-- ASCII tables with the Arabic digits, and the digest of the secret of zeros for the second
half-minute. -/
def sampleTables : Tables where
  toCharTable := .ascii
  isDigit c := c.isDigit || (0x660 ≤ c.toNat && c.toNat ≤ 0x669)
  upperOf c := [c.toUpper]
  hmacSha1 _ _ i :=
    [238, 176, 11, 11, 204, 134, 70, 121, 255, 45, 141, 211, 11, 236, 73, 92, 181, 242, 238,
      158].getD i 0
  isDigit_ascii := isDigit_of_ascii
  upperOf_ascii _ _ := rfl

def sampleSecret : Text := List.replicate 32 'A'

def arabicCode : Text := "١٢٣٤٥٦".toList

theorem decodeSecret_sampleSecret :
    decodeSecret sampleTables.library sampleSecret = some (List.replicate 20 0) := by
  decide +kernel

theorem counterAt_sample : counterAt 59 = 1 := by decide +kernel

/-- The code of the moment is verified. -/
theorem sample_verified : Verified sampleTables.library 0 sampleSecret "812658".toList 59 := by
  refine (verified_iff sampleTables 0 sampleSecret "812658".toList 59 (by norm_num)).mpr ?_
  intro key _ _
  exact ⟨by decide +kernel, .inl (by rw [counterAt_sample]; norm_num)⟩

/-- Digits that are not of ASCII pass `isdigit` and make the comparison raise. -/
theorem arabic_not_verified :
    ¬ Verified sampleTables.library 1 sampleSecret arabicCode 59 := by
  intro h
  have hbound : 30 * ((1 : ℕ) : ℚ) ≤ 59 := by norm_num
  obtain ⟨hascii, -⟩ := h.answerable hbound decodeSecret_sampleSecret (by decide +kernel)
  exact absurd hascii (by decide +kernel)

end Totp
