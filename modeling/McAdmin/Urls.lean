import Mathlib.Data.List.Infix
import Mathlib.Data.List.TakeWhile
import McAdmin.Utf8

/-!
# Addresses and the places they name

The scheme, the authority and the path of an address, percent-decoding, and the removal of dot
segments.  A path lies at another or below it when it still does after both.
-/

namespace Urls

abbrev Text := List Char

abbrev Bytes := List UInt8

/-! ### Dot segments -/

/-- The segments of a path that have a meaning of their own. -/
structure Marks (α : Type) where
  /-- `.` -/
  here : α
  /-- `..` -/
  up : α
  /-- What stands after the last slash of `a/`. -/
  empty : α

/-- A way from a directory: so many levels up, then down by these names. -/
structure Course (α : Type) where
  climbs : ℕ
  names : List α

namespace Marks

variable {α : Type} [DecidableEq α] (m : Marks α)

def step (out : List α) (segment : α) : List α :=
  if segment = m.up then out.dropLast
  else if segment = m.here then out
  else out ++ [segment]

def walk (out segments : List α) : List α := segments.foldl m.step out

def trailing (segments : List α) : List α :=
  if segments.getLast? = some m.here ∨ segments.getLast? = some m.up then [m.empty] else []

def removeDots (segments : List α) : List α := m.walk [] segments ++ m.trailing segments

def move (c : Course α) (segment : α) : Course α :=
  if segment = m.up then
    if c.names = [] then { c with climbs := c.climbs + 1 }
    else { c with names := c.names.dropLast }
  else if segment = m.here then c
  else { c with names := c.names ++ [segment] }

def course (segments : List α) : Course α := segments.foldl m.move ⟨0, []⟩

/-- The way climbs out of the directory only to come back, down by the same names. -/
def ComesBack (base segments : List α) : Prop :=
  base.drop (base.length - (m.course segments).climbs) <+:
    (m.course segments).names ++ m.trailing segments

section

variable {m} {base segments first second : List α}

theorem step_course (c : Course α) (segment : α) :
    m.step (base.take (base.length - c.climbs) ++ c.names) segment =
      base.take (base.length - (m.move c segment).climbs) ++ (m.move c segment).names := by
  unfold step move
  by_cases hup : segment = m.up
  · rw [if_pos hup, if_pos hup]
    by_cases hnames : c.names = []
    · rw [if_pos hnames, hnames, List.append_nil, List.append_nil, List.dropLast_eq_take,
        List.take_take, List.length_take, Nat.min_eq_left (Nat.sub_le _ _), Nat.sub_sub,
        Nat.min_eq_left (Nat.sub_le_sub_left (Nat.le_succ _) _)]
    · rw [if_neg hnames, List.dropLast_append_of_ne_nil hnames]
  · rw [if_neg hup, if_neg hup]
    by_cases hhere : segment = m.here
    · rw [if_pos hhere, if_pos hhere]
    · rw [if_neg hhere, if_neg hhere, List.append_assoc]

theorem foldl_step (c : Course α) (segments : List α) :
    m.walk (base.take (base.length - c.climbs) ++ c.names) segments =
      base.take (base.length - (segments.foldl m.move c).climbs) ++
        (segments.foldl m.move c).names := by
  induction segments generalizing c with
  | nil => rfl
  | cons segment segments ih =>
    have hstep := ih (m.move c segment)
    rw [← step_course] at hstep
    exact hstep

theorem walk_eq (base segments : List α) :
    m.walk base segments =
      base.take (base.length - (m.course segments).climbs) ++ (m.course segments).names := by
  have hwalk : m.walk (base.take (base.length - 0) ++ []) segments = _ :=
    foldl_step ⟨0, []⟩ segments
  rw [Nat.sub_zero, List.take_length, List.append_nil] at hwalk
  exact hwalk

theorem walk_append (base first second : List α) :
    m.walk base (first ++ second) = m.walk (m.walk base first) second :=
  List.foldl_append

theorem trailing_append (first : List α) (h : second ≠ []) :
    m.trailing (first ++ second) = m.trailing second := by
  unfold trailing
  rw [List.getLast?_append_of_ne_nil _ h]

theorem comesBack_iff :
    m.ComesBack base segments ↔ base <+: m.walk base segments ++ m.trailing segments := by
  have hbase := List.take_append_drop (base.length - (m.course segments).climbs) base
  rw [walk_eq, List.append_assoc]
  constructor
  · intro h
    obtain ⟨rest, hrest⟩ := h
    refine ⟨rest, ?_⟩
    conv_lhs => rw [← hbase]
    rw [List.append_assoc, hrest]
  · intro h
    conv at h => lhs; rw [← hbase]
    exact (List.prefix_append_right_inj _).mp h

theorem mem_walk {segment : α} (h : segment ∈ m.walk base segments) :
    segment ∈ base ∨ segment ∈ segments := by
  induction segments generalizing base with
  | nil => exact .inl h
  | cons first segments ih =>
    have hmem : segment ∈ m.step base first → segment ∈ base ∨ segment = first := by
      intro hstep
      unfold step at hstep
      split at hstep
      · exact .inl (List.mem_of_mem_dropLast hstep)
      · split at hstep
        · exact .inl hstep
        · exact (List.mem_append.mp hstep).imp_right List.mem_singleton.mp
    rcases ih h with h | h
    · rcases hmem h with h | h
      · exact .inl h
      · exact .inr (h ▸ List.mem_cons_self)
    · exact .inr (List.mem_cons_of_mem _ h)

theorem mem_removeDots {segment : α} (h : segment ∈ m.removeDots segments) :
    segment ∈ segments ∨ segment = m.empty := by
  rcases List.mem_append.mp h with h | h
  · rcases mem_walk h with h | h
    · cases h
    · exact .inl h
  · unfold trailing at h
    split at h
    · exact .inr (List.mem_singleton.mp h)
    · cases h

end

end Marks

/-! ### Percent-decoding -/

def hexValue (b : UInt8) : Option UInt8 :=
  if 48 ≤ b ∧ b ≤ 57 then some (b - 48)
  else if 65 ≤ b ∧ b ≤ 70 then some (b - 55)
  else if 97 ≤ b ∧ b ≤ 102 then some (b - 87)
  else none

def hexByte (high low : UInt8) : Option UInt8 :=
  (hexValue high).bind fun h => (hexValue low).map fun l => h * 16 + l

def percentDecode : Bytes → Bytes
  | [] => []
  | [b] => [b]
  | [b, c] => [b, c]
  | b :: high :: low :: bytes =>
    if b = 37 then
      match hexByte high low with
      | some c => c :: percentDecode bytes
      | none => b :: percentDecode (high :: low :: bytes)
    else b :: percentDecode (high :: low :: bytes)

section

variable {b : UInt8} {bytes : Bytes}

theorem percentDecode_cons
    (h : b = 37 → ∀ high low rest, bytes = high :: low :: rest → hexByte high low = none) :
    percentDecode (b :: bytes) = b :: percentDecode bytes := by
  cases bytes with
  | nil => rfl
  | cons high bytes =>
    cases bytes with
    | nil => rfl
    | cons low bytes =>
      rw [percentDecode]
      by_cases hb : b = 37
      · rw [if_pos hb, h hb high low bytes rfl]
      · rw [if_neg hb]

theorem percentDecode_escape {c high low : UInt8} (h : hexByte high low = some c) :
    percentDecode (37 :: high :: low :: bytes) = c :: percentDecode bytes := by
  rw [percentDecode, if_pos rfl, h]

theorem hexByte_slash_left (low : UInt8) : hexByte 47 low = none := rfl

theorem hexByte_slash_right (high : UInt8) : hexByte high 47 = none := by
  cases hhigh : hexValue high with
  | none => rw [hexByte, hhigh, Option.bind_none]
  | some h =>
    rw [hexByte, hhigh, Option.bind_some]
    rfl

theorem percentDecode_slash (bytes rest : Bytes) :
    percentDecode (bytes ++ 47 :: rest) = percentDecode bytes ++ 47 :: percentDecode rest := by
  have hslash : percentDecode (47 :: rest) = 47 :: percentDecode rest :=
    percentDecode_cons fun h => absurd h (by decide)
  -- Before the slash there may be the start of an escape that it breaks off.
  have hone : ∀ b : UInt8, percentDecode (b :: 47 :: rest) = b :: 47 :: percentDecode rest := by
    intro b
    rw [percentDecode_cons, hslash]
    rintro - high low _ h
    rw [← (List.cons.inj h).1]
    exact hexByte_slash_left low
  fun_induction percentDecode bytes with
  | case1 => exact hslash
  | case2 b => exact hone b
  | case3 b c =>
    rw [List.cons_append, percentDecode_cons]
    · rw [List.cons_append, List.nil_append, hone]
      rfl
    · rintro - high low _ h
      rw [← (List.cons.inj (List.cons.inj h).2).1]
      exact hexByte_slash_right high
  | case4 high low bytes c hc ih =>
    rw [List.cons_append, List.cons_append, List.cons_append, percentDecode_escape hc, ih]
    rfl
  | case5 high low bytes hnone ih =>
    rw [List.cons_append, percentDecode_cons, ih]
    · rfl
    · rintro - high' low' _ h
      rw [← (List.cons.inj h).1, ← (List.cons.inj (List.cons.inj h).2).1]
      exact hnone
  | case6 b high low bytes hb ih =>
    rw [List.cons_append, percentDecode_cons fun h => absurd h hb, ih]
    rfl

end

/-! ### Addresses -/

/-- An address as far as it says where to ask for what: `scheme://authority/path`. -/
structure Url where
  scheme : Text
  authority : Text
  path : Text
deriving DecidableEq

def endsPath (c : Char) : Bool := c == '?' || c == '#'

/-- What stands between `//` and the query: the authority, then the path. -/
def place (url : Text) : Text := ((url.dropWhile (· ≠ ':')).drop 3).takeWhile (!endsPath ·)

def readUrl (url : Text) : Option Url :=
  if "://".toList <+: url.dropWhile (· ≠ ':') then
    some {
      scheme := url.takeWhile (· ≠ ':')
      authority := (place url).takeWhile (· ≠ '/')
      path := (place url).dropWhile (· ≠ '/')
    }
  else none

def byteMarks : Marks Bytes := ⟨[46], [46, 46], []⟩

def segments (path : Text) : List Bytes :=
  ((percentDecode (PlainText.encode path)).splitOn 47).tail

def directory (path : Text) : List Bytes := byteMarks.walk [] (segments path)

def Below (path base : Text) : Prop := directory base <+: byteMarks.removeDots (segments path)

instance (path base : Text) : Decidable (Below path base) := inferInstanceAs (Decidable (_ <+: _))

structure Within (u base : Url) : Prop where
  scheme : u.scheme = base.scheme
  authority : u.authority = base.authority
  path : Below u.path base.path

section

variable {scheme found tail path rest : Text}

theorem segments_slash (path rest : Text) :
    segments (path ++ '/' :: rest) =
      segments path ++ (percentDecode (PlainText.encode rest)).splitOn 47 := by
  have hencode : PlainText.encode (path ++ '/' :: rest) =
      PlainText.encode path ++ 47 :: PlainText.encode rest := by
    rw [PlainText.encode, List.flatMap_append, List.flatMap_cons]
    rfl
  rw [segments, hencode, percentDecode_slash, List.splitOn_append_cons_self,
    List.tail_append_of_ne_nil (List.splitOn_ne_nil _ _)]
  rfl

theorem below_self (path : Text) : Below path path := List.prefix_append _ _

theorem below_slash : Below (path ++ '/' :: rest) path ↔
    byteMarks.ComesBack (directory path) ((percentDecode (PlainText.encode rest)).splitOn 47) := by
  rw [Marks.comesBack_iff, Below, segments_slash, Marks.removeDots, Marks.walk_append,
    Marks.trailing_append _ (List.splitOn_ne_nil _ _)]
  rfl

theorem takeWhile_ends (hfound : ∀ c ∈ found, endsPath c = false)
    (htail : ∀ c ∈ tail.head?, endsPath c = true) :
    (found ++ tail).takeWhile (!endsPath ·) = found := by
  rw [List.takeWhile_append_of_pos (by simpa using hfound)]
  cases tail with
  | nil => exact List.append_nil found
  | cons c tail =>
    rw [List.takeWhile_cons_of_neg (by simpa using htail), List.append_nil]

theorem dropWhile_scheme (hscheme : ':' ∉ scheme) (rest : Text) :
    (scheme ++ "://".toList ++ rest).dropWhile (· ≠ ':') = "://".toList ++ rest := by
  have hall : ∀ c ∈ scheme, decide (c ≠ ':') = true := by
    intro c hc
    exact decide_eq_true fun h => hscheme (h ▸ hc)
  rw [List.append_assoc, List.dropWhile_append_of_pos hall]
  rfl

theorem takeWhile_scheme (hscheme : ':' ∉ scheme) (rest : Text) :
    (scheme ++ "://".toList ++ rest).takeWhile (· ≠ ':') = scheme := by
  have hall : ∀ c ∈ scheme, decide (c ≠ ':') = true := by
    intro c hc
    exact decide_eq_true fun h => hscheme (h ▸ hc)
  rw [List.append_assoc, List.takeWhile_append_of_pos hall]
  exact List.append_nil scheme

theorem place_append (hscheme : ':' ∉ scheme) (hfound : ∀ c ∈ found, endsPath c = false)
    (htail : ∀ c ∈ tail.head?, endsPath c = true) :
    place (scheme ++ "://".toList ++ (found ++ tail)) = found := by
  rw [place, dropWhile_scheme hscheme]
  exact takeWhile_ends hfound htail

theorem readUrl_append (hscheme : ':' ∉ scheme) (hfound : ∀ c ∈ found, endsPath c = false)
    (htail : ∀ c ∈ tail.head?, endsPath c = true) :
    readUrl (scheme ++ "://".toList ++ (found ++ tail)) =
      some ⟨scheme, found.takeWhile (· ≠ '/'), found.dropWhile (· ≠ '/')⟩ := by
  rw [readUrl, dropWhile_scheme hscheme, if_pos (List.prefix_append _ _), takeWhile_scheme hscheme,
    place_append hscheme hfound htail]

end

end Urls
