import Mathlib.Data.List.DropRight

/-!
# Text as the standard library has it

The bytes of a text in UTF-8, its lines, and the blanks around it.
-/

namespace PlainText

/-! ### Characters -/

/-- `str.isspace()` of one character. -/
def isSpace (c : Char) : Bool :=
  let n := c.toNat
  (9 ≤ n && n ≤ 13) || (28 ≤ n && n ≤ 32) || n == 0x85 || n == 0xA0 || n == 0x1680 ||
    (0x2000 ≤ n && n ≤ 0x200A) || n == 0x2028 || n == 0x2029 || n == 0x202F || n == 0x205F ||
    n == 0x3000

def strip (text : List Char) : List Char := (text.dropWhile isSpace).rdropWhile isSpace

section

variable {text blanks : List Char}

theorem strip_append (h : ∀ c ∈ blanks, isSpace c = true) : strip (text ++ blanks) = strip text := by
  have hback : ∀ front : List Char, (front ++ blanks).rdropWhile isSpace =
      front.rdropWhile isSpace := by
    intro front
    rw [List.rdropWhile, List.rdropWhile, List.reverse_append, List.dropWhile_append_of_pos]
    exact fun c hc => h c (List.mem_reverse.mp hc)
  by_cases hfront : text.dropWhile isSpace = []
  · have hall := List.dropWhile_eq_nil_iff.mp hfront
    have hblanks : blanks.dropWhile isSpace = [] := List.dropWhile_eq_nil_iff.mpr h
    rw [strip, strip, List.dropWhile_append_of_pos hall, hblanks, hfront]
  · rw [strip, strip, List.dropWhile_append, if_neg (by simpa using hfront), hback]

theorem strip_strip : strip (strip text) = strip text := by
  have hfront : (strip text).dropWhile isSpace = strip text := by
    rw [List.dropWhile_eq_self_iff]
    intro hpos hspace
    have hprefix : strip text <+: text.dropWhile isSpace := List.rdropWhile_prefix _ _
    have hlength := hpos.trans_le hprefix.length_le
    have hhead := List.dropWhile_get_zero_not isSpace text hlength
    rw [List.get_eq_getElem, ← hprefix.getElem hpos] at hhead
    exact hhead hspace
  rw [strip, hfront, strip, List.rdropWhile_idempotent]

theorem strip_map {f : Char → Char} (hf : ∀ c, isSpace (f c) = isSpace c) (text : List Char) :
    strip (text.map f) = (strip text).map f := by
  have hcomp : isSpace ∘ f = isSpace := funext hf
  simp only [strip, List.rdropWhile, ← List.map_reverse, List.dropWhile_map, hcomp]

theorem countP_strip {p : Char → Bool} (hp : ∀ c, isSpace c = true → p c = false)
    (text : List Char) : (strip text).countP p = text.countP p := by
  have hnone : ∀ blanks : List Char, (∀ c ∈ blanks, isSpace c = true) → blanks.countP p = 0 :=
    fun blanks h => List.countP_eq_zero.mpr fun c hc => by simp [hp c (h c hc)]
  have hback : ∀ front : List Char, (front.rdropWhile isSpace).countP p = front.countP p := by
    intro front
    have hsplit := congrArg (List.countP p)
      (List.rdropWhile_append_rtakeWhile (p := isSpace) (l := front))
    rw [List.countP_append, hnone _ fun c hc => List.mem_rtakeWhile_imp hc] at hsplit
    exact hsplit
  have hfront := congrArg (List.countP p)
    (List.takeWhile_append_dropWhile (p := isSpace) (l := text))
  rw [List.countP_append, hnone _ fun c hc => List.mem_takeWhile_imp hc, Nat.zero_add] at hfront
  rw [strip, hback, hfront]

end

/-- Where `str.splitlines()` ends a line. -/
def endsLine (c : Char) : Bool :=
  let n := c.toNat
  (10 ≤ n && n ≤ 13) || (28 ≤ n && n ≤ 30) || n == 0x85 || n == 0x2028 || n == 0x2029

/-- The rest of a line that has begun, and the lines after it. -/
def linesFrom (line : List Char) : List Char → List (List Char)
  | [] => if line = [] then [] else [line.reverse]
  | '\r' :: '\n' :: text => line.reverse :: linesFrom [] text
  | c :: text => if endsLine c then line.reverse :: linesFrom [] text else linesFrom (c :: line) text

def splitlines (text : List Char) : List (List Char) := linesFrom [] text

example : splitlines "a\r\nb\n\nc".toList = ["a".toList, "b".toList, [], "c".toList] := by decide

/-! ### UTF-8 -/

/-- The bytes that may follow a lead byte, as ranges; `none` for a byte that leads nothing. -/
def followers (b : UInt8) : Option (List (UInt8 × UInt8)) :=
  if b < 0x80 then some []
  else if b < 0xC2 then none
  else if b < 0xE0 then some [(0x80, 0xBF)]
  else if b = 0xE0 then some [(0xA0, 0xBF), (0x80, 0xBF)]
  else if b = 0xED then some [(0x80, 0x9F), (0x80, 0xBF)]
  else if b < 0xF0 then some [(0x80, 0xBF), (0x80, 0xBF)]
  else if b = 0xF0 then some [(0x90, 0xBF), (0x80, 0xBF), (0x80, 0xBF)]
  else if b < 0xF4 then some [(0x80, 0xBF), (0x80, 0xBF), (0x80, 0xBF)]
  else if b = 0xF4 then some [(0x80, 0x8F), (0x80, 0xBF), (0x80, 0xBF)]
  else none

/-- Go on with a character as long as the bytes follow, and return what is left. -/
def follow (value : ℕ) : List (UInt8 × UInt8) → List UInt8 → Option Char × List UInt8
  | [], bytes => (some (Char.ofNat value), bytes)
  | _ :: _, [] => (none, [])
  | (least, most) :: ranges, b :: bytes =>
    if least ≤ b ∧ b ≤ most then follow (value * 64 + b.toNat % 64) ranges bytes
    else (none, b :: bytes)

def leadBits (b : UInt8) : ℕ :=
  if b < 0x80 then b.toNat
  else if b < 0xE0 then b.toNat % 32
  else if b < 0xF0 then b.toNat % 16
  else b.toNat % 8

/-- The next character, or the start of one that is broken off. -/
def nextChar (b : UInt8) (bytes : List UInt8) : Option Char × List UInt8 :=
  match followers b with
  | none => (none, bytes)
  | some ranges => follow (leadBits b) ranges bytes

/-- The characters of some bytes, at most so many, with the places where there is none. -/
def decodeFrom : ℕ → List UInt8 → List (Option Char)
  | 0, _ => []
  | _ + 1, [] => []
  | n + 1, b :: bytes => (nextChar b bytes).1 :: decodeFrom n (nextChar b bytes).2

/-- `bytes.decode("utf-8", errors="replace")` -/
def decodeReplace (bytes : List UInt8) : List Char :=
  (decodeFrom bytes.length bytes).map (·.getD '\ufffd')

/-- `bytes.decode("utf-8")` -/
def decode (bytes : List UInt8) : Option (List Char) :=
  (decodeFrom bytes.length bytes).mapM id

example : decodeReplace [0x61, 0xC3, 0xA9, 0xF0, 0x9F, 0x98, 0x62, 0xE2] =
    ['a', 'é', '\ufffd', 'b', '\ufffd'] := by decide

end PlainText
