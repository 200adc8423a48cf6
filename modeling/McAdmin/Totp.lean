import Mathlib.Algebra.Order.Ring.Rat
import McAdmin.Pattern

/-!
# One-time codes

A code is six digits of a keyed hash of the number of the current half-minute.  The code a user
types is compared with those of the window around now; the comparison, and the packing of the
counter, raise on what they cannot take.
-/

namespace Totp

open Backtracking

/-- What is used of the standard library: the tables of the text functions, `base64.b32decode` of
a padded secret, and HMAC-SHA1 of the packed counter. -/
structure Library extends CharTable where
  /-- `str.isdigit`, for one character -/
  isDigit : Char → Bool
  upper : Text → Text
  /-- `none` when it raises. -/
  b32decode : Text → Option (List UInt8)
  /-- The twenty bytes of the digest. -/
  hmacSha1 : List UInt8 → ℕ → Fin 20 → UInt8
  isDigit_ascii : ∀ c : Char, c.toNat < 128 → isDigit c = c.isDigit
  upper_nil : upper [] = []

theorem isDigit_of_ascii (c : Char) (h : c.toNat < 128) :
    (c.isDigit || (0x660 ≤ c.toNat && c.toNat ≤ 0x669)) = c.isDigit := by
  have hlow : ¬ 0x660 ≤ c.toNat := by omega
  simp [hlow]

def period : ℤ := 30

def digits : ℕ := 6

inductive Error where
  /-- `struct.error`: the counter does not fit in eight bytes. -/
  | counter
  /-- `TypeError`: `hmac.compare_digest` takes ASCII texts only. -/
  | comparison
deriving DecidableEq

variable (lib : Library)

def decodeSecret (secret : Text) : Option (List UInt8) :=
  let cleaned := lib.upper ((lib.strip secret).filter fun c => c != ' ')
  if cleaned = [] then none
  else lib.b32decode (cleaned ++ List.replicate ((8 - cleaned.length % 8) % 8) '=')

def zfill (width : ℕ) (t : Text) : Text := List.replicate (width - t.length) '0' ++ t

def truncated (mac : Fin 20 → UInt8) : ℕ :=
  let offset := (mac 19).toNat % 16
  let byte := fun i => (mac (Fin.ofNat 20 (offset + i))).toNat
  (((byte 0 * 256 + byte 1) * 256 + byte 2) * 256 + byte 3) % 2 ^ 31

def hotp (key : List UInt8) (counter : ℤ) : Except Error Text :=
  if 0 ≤ counter ∧ counter < 2 ^ 64 then
    .ok (zfill digits (Nat.toDigits 10 (truncated (lib.hmacSha1 key counter.toNat) % 10 ^ digits)))
  else .error .counter

def isAscii (t : Text) : Bool := t.all fun c => c.toNat < 128

/-- `hmac.compare_digest` of two texts. -/
def compareDigest (a b : Text) : Except Error Bool :=
  if isAscii a && isAscii b then .ok (a == b) else .error .comparison

/-- `int(moment) // _PERIOD` -/
def counterAt (moment : ℚ) : ℤ := moment.num.tdiv moment.den / period

def matchWindow (key : List UInt8) (candidate : Text) (counter : ℤ) :
    List ℤ → Except Error Bool
  | [] => .ok false
  | drift :: rest => do
    let expected ← hotp lib key (counter + drift)
    if ← compareDigest expected candidate then return true
    matchWindow key candidate counter rest

def wellFormed (code : Text) : Bool :=
  (lib.strip code).length == digits && (lib.strip code).all lib.isDigit

/-- `verify`, once the secret is decoded and the code is six digits. -/
def verifyAt (key : List UInt8) (code : Text) (moment : ℚ) : Except Error Bool :=
  matchWindow lib key (lib.strip code) (counterAt moment) [-1, 0, 1]

/-- `verify` at a moment. -/
def verify (secret code : Text) (moment : ℚ) : Except Error Bool :=
  match decodeSecret lib secret with
  | none => .ok false
  | some key => if wellFormed lib code then verifyAt lib key code moment else .ok false

variable {lib}

theorem verify_nil (code : Text) (moment : ℚ) : verify lib [] code moment = .ok false := by
  have hdecode : decodeSecret lib [] = none := by
    simp [decodeSecret, CharTable.strip, List.rdropWhile, lib.upper_nil]
  simp [verify, hdecode]

/-! ### When it raises -/

theorem isAscii_toDigits (n : ℕ) : isAscii (Nat.toDigits 10 n) = true := by
  rw [isAscii, List.all_eq_true]
  intro c hc
  have hdigit := Nat.isDigit_of_mem_toDigits (by decide) (by decide) hc
  simp only [Char.isDigit, Bool.and_eq_true, decide_eq_true_eq] at hdigit
  have hle : c.val.toNat ≤ 57 := UInt32.le_iff_toNat_le.mp hdigit.2
  have hval : c.toNat ≤ 57 := hle
  simp only [decide_eq_true_eq]
  omega

theorem isAscii_hotp {key : List UInt8} {counter : ℤ} {expected : Text}
    (h : hotp lib key counter = .ok expected) : isAscii expected = true := by
  simp only [hotp] at h
  by_cases hcounter : 0 ≤ counter ∧ counter < 2 ^ 64
  · rw [if_pos hcounter, Except.ok.injEq] at h
    subst h
    have hzeros : ∀ n, isAscii (List.replicate n '0') = true := by
      intro n
      rw [isAscii, List.all_eq_true]
      intro c hc
      rw [(List.mem_replicate.mp hc).2]
      rfl
    have happend : ∀ a b : Text, isAscii (a ++ b) = (isAscii a && isAscii b) :=
      fun a b => List.all_append
    rw [zfill, happend, hzeros, isAscii_toDigits]
    rfl
  · rw [if_neg hcounter] at h
    exact absurd h (by simp)

def InRange (moment : ℚ) : Prop := 1 ≤ counterAt moment ∧ counterAt moment + 1 < 2 ^ 64

theorem compareDigest_hotp {key : List UInt8} {counter : ℤ} {expected candidate : Text}
    (h : hotp lib key counter = .ok expected) :
    compareDigest expected candidate =
      if isAscii candidate then .ok (expected == candidate) else .error .comparison := by
  rw [compareDigest, isAscii_hotp h, Bool.true_and]

theorem hotp_of_range (lib : Library) (key : List UInt8) {counter : ℤ}
    (h : 0 ≤ counter ∧ counter < 2 ^ 64) :
    ∃ expected, hotp lib key counter = .ok expected := by
  rw [hotp, if_pos h]
  exact ⟨_, rfl⟩

theorem matchWindow_ok (lib : Library) (key : List UInt8) {candidate : Text} {counter : ℤ}
    {drifts : List ℤ}
    (hascii : isAscii candidate = true)
    (hrange : ∀ drift ∈ drifts, 0 ≤ counter + drift ∧ counter + drift < 2 ^ 64) :
    ∃ b, matchWindow lib key candidate counter drifts = .ok b := by
  induction drifts with
  | nil => exact ⟨false, rfl⟩
  | cons drift rest ih =>
    obtain ⟨b, hb⟩ := ih fun drift' h => hrange drift' (List.mem_cons_of_mem _ h)
    have hcounter := hrange drift (List.mem_cons_self ..)
    obtain ⟨expected, hexpected⟩ := hotp_of_range lib key hcounter
    simp only [matchWindow, hexpected, compareDigest_hotp hexpected, hascii, if_true, bind,
      Except.bind]
    by_cases heq : expected = candidate
    · exact ⟨true, by simp [heq, pure, Except.pure]⟩
    · exact ⟨b, by simp [heq, hb]⟩

theorem verify_raises_iff {secret code : Text} {moment : ℚ} (hrange : InRange moment) :
    (∃ e, verify lib secret code moment = .error e) ↔
      decodeSecret lib secret ≠ none ∧ wellFormed lib code = true ∧
        isAscii (lib.strip code) = false := by
  simp only [verify]
  cases hkey : decodeSecret lib secret with
  | none => simp
  | some key =>
    by_cases hcode : wellFormed lib code = true
    · simp only [hcode, if_true, ne_eq, reduceCtorEq, not_false_eq_true, true_and]
      have hdrift : ∀ drift ∈ [(-1 : ℤ), 0, 1],
          0 ≤ counterAt moment + drift ∧ counterAt moment + drift < 2 ^ 64 := by
        obtain ⟨hlow, hhigh⟩ := hrange
        simp only [List.forall_mem_cons, List.not_mem_nil, false_implies, implies_true, and_true]
        omega
      cases hascii : isAscii (lib.strip code) with
      | true =>
        obtain ⟨b, hb⟩ := matchWindow_ok lib key hascii hdrift
        simp [verifyAt, hb]
      | false =>
        have hfirst := hdrift (-1) (List.mem_cons_self ..)
        obtain ⟨expected, hexpected⟩ := hotp_of_range lib key hfirst
        refine iff_of_true ⟨.comparison, ?_⟩ rfl
        simp only [verifyAt, matchWindow, hexpected, compareDigest_hotp hexpected, hascii, bind,
          Except.bind]
        rfl
    · simp [hcode]

end Totp
