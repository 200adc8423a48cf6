import Mathlib.Data.List.Nodup
import McAdmin.PlainText
import McAdmin.Substitution

/-!
# Release notes

Notes in Markdown become HTML.  The lines of a block are joined and escaped; links, bold text and
code are then marked by three substitutions, each on what the one before it left.
-/

namespace ReleaseNotes

open Backtracking Substitution

/-! ### Patterns -/

/-- `.` -/
def isDot (c : Char) : Bool := c != '\n'

section

variable (m : Markupsafe) (u : CharTable)

/-- `(.*)` -/
def anyText : Pattern := .group (.many true isDot 0 none)

def headingRe : Pattern :=
  .many true u.isSpace 0 none ++ .group (.many true (· == '#') 1 (some 4)) ++
    .many true u.isSpace 1 none ++ anyText ++ .stop

def bulletRe : Pattern :=
  .many true u.isSpace 0 none ++ .many true (fun c => c == '-' || c == '*') 1 (some 1) ++
    .many true u.isSpace 1 none ++ anyText ++ .stop

/-- `[^\]\n]` -/
def isLabelChar (c : Char) : Bool := c != ']' && c != '\n'

/-- `[^)\s]` -/
def isUrlChar (c : Char) : Bool := c != ')' && !u.isSpace c

def backquote : Char := Char.ofNat 96

/-- ``[^`\n]`` -/
def isCodeChar (c : Char) : Bool := c != backquote && c != '\n'

def urlRe : Pattern :=
  .str "http" ++ (.opt (.str "s") ++ (.str "://" ++ .many true (isUrlChar u) 1 none))

def linkRe : Pattern :=
  .str "[" ++ (.group (.many true isLabelChar 1 none) ++ (.str "](" ++
    (.group (urlRe u) ++ .str ")")))

def boldRe : Pattern := .str "**" ++ (.group (.many false isDot 1 none) ++ .str "**")

def codeRe : Pattern :=
  .lit [backquote] ++ (.group (.many true isCodeChar 1 none) ++ .lit [backquote])

/-! ### A line of text -/

def special : List Char := ['&', '<', '>', '\'', '"']

/-- What the name of a reference to a character is written with. -/
def isNameChar (c : Char) : Bool := c.isAlphanum || c == '#'

/-- `markupsafe.escape`, which the repository does not have: it writes each character by itself, a
special one as a reference of its own and any other as it is. -/
structure Markupsafe where
  escape : Text → Text
  escape_each : ∀ text, escape text = text.flatMap fun c => escape [c]
  escape_plain : ∀ c, c ∉ special → escape [c] = [c]
  escape_special : ∀ c ∈ special, ∃ name : Text,
    escape [c] = '&' :: (name ++ [';']) ∧ ∀ d ∈ name, isNameChar d = true
  escape_distinct : ∀ c ∈ special, ∀ d ∈ special, escape [c] = escape [d] → c = d

def Markupsafe.escapeChar (m : Markupsafe) (c : Char) : Text := m.escape [c]

/-- `<a href="\2" target="_blank" rel="noopener">\1</a>` -/
def anchor (found : Hit) : Text :=
  "<a href=\"".toList ++ found.group 2 ++ "\" target=\"_blank\" rel=\"noopener\">".toList ++
    found.group 1 ++ "</a>".toList

def strong (found : Hit) : Text :=
  "<strong>".toList ++ found.group 1 ++ "</strong>".toList

def code (found : Hit) : Text := "<code>".toList ++ found.group 1 ++ "</code>".toList

def inline (text : Text) : Text :=
  sub codeRe code (sub boldRe strong (sub (linkRe u) anchor (m.escape text)))

/-! ### Blocks -/

inductive BlockKind where
  | p
  | li
deriving DecidableEq

inductive Piece where
  | openList
  | closeList
  | heading (text : Text)
  | paragraph (text : Text)
  | item (text : Text)
deriving DecidableEq

def Piece.html : Piece → Text
  | .openList => "<ul>".toList
  | .closeList => "</ul>".toList
  | .heading text => "<h3>".toList ++ inline m u text ++ "</h3>".toList
  | .paragraph text => "<p>".toList ++ inline m u text ++ "</p>".toList
  | .item text => "<li>".toList ++ inline m u text ++ "</li>".toList

structure Rendering where
  html : List Piece := []
  inList : Bool := false
  block : List Text := []
  blockKind : Option BlockKind := none

def Rendering.append (r : Rendering) (piece : Piece) : Rendering :=
  { r with html := r.html ++ [piece] }

def Rendering.closeList (r : Rendering) : Rendering :=
  if r.inList then { r.append .closeList with inList := false } else r

def Rendering.openList (r : Rendering) : Rendering :=
  if r.inList then r else { r.append .openList with inList := true }

def Rendering.flush (r : Rendering) : Rendering :=
  if r.block = [] then r
  else
    let text := List.intercalate [' '] r.block
    let r :=
      if r.blockKind = some .li then r.openList.append (.item text)
      else r.closeList.append (.paragraph text)
    { r with block := [], blockKind := none }

def Rendering.readLine (r : Rendering) (raw : Text) : Rendering :=
  let line := u.strip raw
  if line = [] then r.flush
  else
    match (headingRe u).atStart raw with
    | some heading => r.flush.closeList.append (.heading (u.strip (heading.group 2)))
    | none =>
      match (bulletRe u).atStart raw with
      | some bullet =>
        { r.flush with block := [u.strip (bullet.group 1)], blockKind := some .li }
      | none =>
        { r with blockKind := r.blockKind.or (some .p), block := r.block ++ [line] }

/-- What `render_release_notes` joins. -/
def pieces (notes : Text) : List Piece :=
  ((PlainText.splitlines notes).foldl (Rendering.readLine u) {}).flush.closeList.html

def renderReleaseNotes (notes : Text) : Text := (pieces u notes).flatMap (Piece.html m u)

end

/-! ### The references of the library -/

def reference (c : Char) : Text :=
  if c = '&' then "&amp;".toList
  else if c = '<' then "&lt;".toList
  else if c = '>' then "&gt;".toList
  else if c = '\'' then "&#39;".toList
  else if c = '"' then "&#34;".toList
  else [c]

theorem reference_of_notMem {c : Char} (h : c ∉ special) : reference c = [c] := by
  simp only [special, List.mem_cons, List.not_mem_nil, or_false, not_or] at h
  obtain ⟨hamp, hlt, hgt, hquote, hdouble⟩ := h
  rw [reference, if_neg hamp, if_neg hlt, if_neg hgt, if_neg hquote, if_neg hdouble]

theorem forall_of_all {α : Type} {P : α → Prop} [DecidablePred P] {l : List α}
    (h : (l.all fun a => decide (P a)) = true) : ∀ a ∈ l, P a :=
  fun a ha => of_decide_eq_true (List.all_eq_true.mp h a ha)

theorem reference_named : ∀ c ∈ special, reference c =
    '&' :: (((reference c).drop 1).dropLast ++ [';']) ∧
      ((reference c).drop 1).dropLast.all isNameChar = true :=
  forall_of_all (by decide)

theorem reference_distinct : ∀ c ∈ special, ∀ d ∈ special, reference c = reference d → c = d := by
  have hinj : (special.map reference).Nodup := by decide
  intro c hc d hd heq
  exact List.inj_on_of_nodup_map hinj hc hd heq

def Markupsafe.library : Markupsafe where
  escape text := text.flatMap reference
  escape_each text := by
    simp only [List.flatMap_singleton]
  escape_plain c hc := by
    rw [List.flatMap_singleton, reference_of_notMem hc]
  escape_special c hc := by
    rw [List.flatMap_singleton]
    exact ⟨_, (reference_named c hc).1, List.all_eq_true.mp (reference_named c hc).2⟩
  escape_distinct c hc d hd heq := by
    rw [List.flatMap_singleton, List.flatMap_singleton] at heq
    exact reference_distinct c hc d hd heq

example : renderReleaseNotes Markupsafe.library CharTable.ascii
    "### New\n- **2FA** and\n  `x < 1`\n\nSee [it](https://a.b/c).".toList =
      ("<h3>New</h3><ul><li><strong>2FA</strong> and <code>x &lt; 1</code></li></ul>" ++
        "<p>See <a href=\"https://a.b/c\" target=\"_blank\" rel=\"noopener\">it</a>.</p>").toList := by
  decide +kernel

end ReleaseNotes
