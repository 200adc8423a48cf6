import McAdmin.SafeHtml
import McAdmin.Urllib

/-!
# Which notes are rendered safely

The spans of a text are its links, its bold text and its code.  The HTML of notes is safe when in
every text the addresses hold nothing but characters and no two spans cross, and not otherwise: an
address in which a mark begins or ends is no longer text, and spans that cross are not nested.  The
special characters of the notes are never part of a mark.
-/

namespace ReleaseNotes

open Backtracking Brackets Substitution

section

variable {κ : Type} {m : Markupsafe} {u : CharTable} {e : Element} {t : Text} {mark : Mark}
  {marks : List Mark} {f : Mark → Option (Bracket κ)} {find : List Mark → Option (List Mark × ℕ)}

/-! ### How the marks of a row take turns -/

/-- What is found is put between the marks of an element, without its delimiters, which are no
special characters. -/
def Encloses (e : Element) (find : List Mark → Option (List Mark × ℕ)) : Prop :=
  ∀ marks found n, find marks = some (found, n) → 0 < n ∧ ∃ before inner after,
    marks = chars before ++ (inner ++ (chars after ++ marks.drop n)) ∧
      found = .start e :: inner ++ [.stop e] ∧ ∀ c ∈ before ++ after, c ∉ special

theorem encloses_bold : Encloses .strong boldMarks := by
  intro marks found n hfound
  obtain ⟨inner, rest, -, rfl, rfl, rfl, -⟩ := boldMarks_eq_some hfound
  refine ⟨Nat.succ_pos _, ['*', '*'], inner, ['*', '*'], ?_, rfl, forall_of_all (by decide)⟩
  have hsplit : star :: star :: (inner ++ star :: star :: rest) =
      (star :: star :: (inner ++ [star, star])) ++ rest := by simp
  have hdrop : (star :: star :: (inner ++ star :: star :: rest)).drop (inner.length + 4) =
      rest := by
    rw [hsplit]
    exact List.drop_left' (by simp)
  rw [hdrop]
  rfl

theorem encloses_code : Encloses .code codeMarks := by
  intro marks found n hfound
  obtain ⟨inner, rest, -, -, rfl, rfl, rfl⟩ := codeMarks_eq_some hfound
  refine ⟨Nat.succ_pos _, [backquote], inner, [backquote], ?_, rfl, forall_of_all (by decide)⟩
  have hsplit : quote :: (inner ++ quote :: rest) = (quote :: (inner ++ [quote])) ++ rest := by simp
  have hdrop : (quote :: (inner ++ quote :: rest)).drop (inner.length + 2) = rest := by
    rw [hsplit]
    exact List.drop_left' (by simp)
  rw [hdrop]
  rfl

theorem filterMap_chars (hchar : ∀ c, f (.char c) = none) (text : Text) :
    (chars text).filterMap f = [] := by
  rw [List.filterMap_eq_nil_iff]
  intro mark hmem
  obtain ⟨c, -, rfl⟩ := List.mem_map.mp hmem
  exact hchar c

theorem linkRead_filterMap (hchar : ∀ c, f (.char c) = none) (secure : Bool) (more label : Text) :
    (linkRead secure more label).filterMap f =
      [.address secure].filterMap f ++
        ([Mark.label].filterMap f ++ [Mark.linkEnd].filterMap f) := by
  have hsplit : linkRead secure more label = [.address secure] ++ (chars more ++
      ([.label] ++ (chars label ++ [.linkEnd]))) := by
    simp [linkRead]
  simp only [hsplit, List.filterMap_append, filterMap_chars hchar, List.nil_append]

variable [DecidableEq κ] {k : κ}

theorem alternates_mark (h : ∀ b, f mark = some b → b.kind ≠ k) (isOpen : Bool)
    (row : List (Bracket κ)) :
    alternates k isOpen ([mark].filterMap f ++ row) = alternates k isOpen row := by
  refine alternates_of_free ?_
  intro b hb
  obtain ⟨mark', hmem, hb⟩ := List.mem_filterMap.mp hb
  rw [List.mem_singleton.mp hmem] at hb
  exact h b hb

theorem alternates_scan (hfind : Encloses e find) (hchar : ∀ c, f (.char c) = none)
    (hstart : ∀ b, f (.start e) = some b → b.kind ≠ k)
    (hstop : ∀ b, f (.stop e) = some b → b.kind ≠ k) (marks : List Mark) : ∀ isOpen,
      alternates k isOpen ((scan find id 0 marks).filterMap f) =
        alternates k isOpen (marks.filterMap f) := by
  refine scan_induction (motive := fun marks out => ∀ isOpen,
    alternates k isOpen (out.filterMap f) = alternates k isOpen (marks.filterMap f))
      (fun _ => rfl) ?_ ?_ (fun _ _ _ _ h => (hfind _ _ _ h).1) marks
  · intro mark rest out _ ih
    rw [← List.singleton_append, ← List.singleton_append (l := rest), List.filterMap_append,
      List.filterMap_append]
    exact alternates_append_congr ih _
  · intro mark rest found n out hfound ih isOpen
    obtain ⟨-, before, inner, after, hsplit, rfl, -⟩ := hfind _ _ _ hfound
    have hbrackets : (mark :: rest).filterMap f =
        inner.filterMap f ++ ((mark :: rest).drop n).filterMap f := by
      refine (congrArg (List.filterMap f) hsplit).trans ?_
      simp only [List.filterMap_append, filterMap_chars hchar, List.nil_append]
    rw [hbrackets, List.cons_append, ← List.singleton_append]
    simp only [List.filterMap_append, List.append_assoc]
    rw [alternates_mark hstart]
    refine alternates_append_congr (fun isOpen => ?_) _ isOpen
    rw [alternates_mark hstop]
    exact ih isOpen

theorem kind_ne (h : mark ≠ .start e ∧ mark ≠ .stop e) :
    ∀ b, mark.bracket = some b → b.kind ≠ some e := by
  obtain ⟨hstart, hstop⟩ := h
  rintro b hb heq
  cases mark with
  | start e' =>
    cases hb
    cases heq
    exact hstart rfl
  | stop e' =>
    cases hb
    cases heq
    exact hstop rfl
  | address secure =>
    cases hb
    cases heq
  | linkEnd =>
    cases hb
    cases heq
  | char c => cases hb
  | label => cases hb

theorem kinds_ne (h : ∀ mark ∈ marks, mark ≠ .start e ∧ mark ≠ .stop e) :
    ∀ b ∈ marks.filterMap Mark.bracket, b.kind ≠ some e := by
  intro b hb
  obtain ⟨mark, hmem, hb⟩ := List.mem_filterMap.mp hb
  exact kind_ne (h mark hmem) b hb

theorem whole_scan (hfind : Encloses e find)
    (hfree : ∀ mark ∈ marks, mark ≠ .start e ∧ mark ≠ .stop e) :
    Whole (some e) ((scan find id 0 marks).filterMap Mark.bracket) := by
  revert hfree
  refine scan_induction (motive := fun marks out =>
    (∀ mark ∈ marks, mark ≠ .start e ∧ mark ≠ .stop e) →
      Whole (some e) (out.filterMap Mark.bracket)) (fun _ => rfl) ?_ ?_
      (fun _ _ _ _ h => (hfind _ _ _ h).1) marks
  · intro mark rest out _ ih hfree
    obtain ⟨hmark, hrest⟩ := List.forall_mem_cons.mp hfree
    rw [← List.singleton_append, List.filterMap_append, Whole, id,
      alternates_mark (kind_ne hmark)]
    exact ih hrest
  · intro mark rest found n out hfound ih hfree
    obtain ⟨-, before, inner, after, hsplit, rfl, -⟩ := hfind _ _ _ hfound
    have hinner : ∀ b ∈ inner.filterMap Mark.bracket, b.kind ≠ some e := by
      refine kinds_ne fun mark' hmem => hfree mark' ?_
      rw [hsplit]
      simp [hmem]
    have hout : Whole (some e) (out.filterMap Mark.bracket) :=
      ih fun mark' hmem => hfree mark' (List.mem_of_mem_drop hmem)
    have hstart : (Mark.start e).bracket = some (.start (some e)) := rfl
    have hstop : (Mark.stop e).bracket = some (.stop (some e)) := rfl
    rw [List.filterMap_append, List.cons_append, List.filterMap_cons_some hstart,
      List.filterMap_append, List.filterMap_cons_some hstop, Whole, List.cons_append, alternates,
      if_pos rfl, List.append_assoc, alternates_of_free hinner]
    change (!false && alternates _ true (.stop (some e) :: out.filterMap Mark.bracket)) = true
    rw [alternates, if_pos rfl]
    exact hout

/-! ### The row of a text -/

theorem linkRow_free (t : Text) : ∀ mark ∈ linkRow u t, mark ≠ .start e ∧ mark ≠ .stop e := by
  have hchars : ∀ text, ∀ mark ∈ chars text, mark ≠ .start e ∧ mark ≠ .stop e := by
    intro text mark hmem
    obtain ⟨c, -, rfl⟩ := List.mem_map.mp hmem
    exact ⟨Mark.noConfusion, Mark.noConfusion⟩
  refine forall_scan (P := fun _ => True) (fun _ _ => ⟨Mark.noConfusion, Mark.noConfusion⟩) ?_
    fun _ _ => trivial
  intro items found n _ hfound mark hmem
  obtain ⟨secure, more, label, rest, -, -, rfl, -⟩ := linkMarks_eq_some hfound
  simp only [linkRead, List.mem_append, List.mem_cons, List.cons_append] at hmem
  rcases hmem with rfl | (hmem | rfl | hmem) | rfl | hmem
  · exact ⟨Mark.noConfusion, Mark.noConfusion⟩
  · exact hchars _ mark hmem
  · exact ⟨Mark.noConfusion, Mark.noConfusion⟩
  · exact hchars _ mark hmem
  · exact ⟨Mark.noConfusion, Mark.noConfusion⟩
  · cases hmem

theorem scan_free {e' : Element} (hfind : Encloses e' find) (hne : e' ≠ e)
    (hfree : ∀ mark ∈ marks, mark ≠ .start e ∧ mark ≠ .stop e) :
    ∀ mark ∈ scan find id 0 marks, mark ≠ .start e ∧ mark ≠ .stop e := by
  refine forall_scan (fun _ h => h) ?_ hfree
  intro items found n hitems hfound mark hmem
  obtain ⟨-, before, inner, after, hsplit, rfl, -⟩ := hfind _ _ _ hfound
  rcases List.mem_append.mp hmem with hmem | hmem
  · rcases List.mem_cons.mp hmem with rfl | hmem
    · exact ⟨fun heq => hne (Mark.start.inj heq), Mark.noConfusion⟩
    · refine hitems mark ?_
      rw [hsplit]
      simp [hmem]
  · rw [List.mem_singleton.mp hmem]
    exact ⟨Mark.noConfusion, fun heq => hne (Mark.stop.inj heq)⟩

theorem row_free (hstrong : Element.strong ≠ e) (hcode : Element.code ≠ e) (t : Text) :
    ∀ mark ∈ row u t, mark ≠ .start e ∧ mark ≠ .stop e :=
  scan_free encloses_code hcode (scan_free encloses_bold hstrong (linkRow_free t))

theorem linkRow_whole (hchar : ∀ c, f (.char c) = none)
    (hlink : ∀ secure more label, Whole k ((linkRead secure more label).filterMap f)) (t : Text) :
    Whole k ((linkRow u t).filterMap f) := by
  refine scan_induction (motive := fun _ out => Whole k (out.filterMap f)) rfl ?_ ?_ ?_ t
  · intro c rest out _ hout
    rw [List.filterMap_cons_none (hchar c)]
    exact hout
  · intro c rest found n out hfound hout
    obtain ⟨secure, more, label, rest', -, -, rfl, -⟩ := linkMarks_eq_some hfound
    rw [List.filterMap_append]
    exact (hlink secure more label).append hout
  · intro c rest found n hfound
    obtain ⟨secure, more, label, rest', -, -, -, rfl⟩ := linkMarks_eq_some hfound
    simp [linkText]

theorem linked_row (t : Text) : Linked (row u t) := by
  have hnone : ∀ (b : Bracket Unit), none = some b → b.kind ≠ () := by
    intro b hb
    cases hb
  have hchar : ∀ c, (Mark.char c).turn = none := fun _ => rfl
  rw [Linked, Whole, row, alternates_scan encloses_code hchar hnone hnone, boldRow,
    alternates_scan encloses_bold hchar hnone hnone]
  refine linkRow_whole hchar ?_ t
  intro secure more label
  rw [linkRead_filterMap hchar]
  rfl

theorem whole_row (k : Option Element) (t : Text) : Whole k ((row u t).filterMap Mark.bracket) := by
  have hchar : ∀ c, (Mark.char c).bracket = none := fun _ => rfl
  have hother : ∀ e : Element, some e ≠ k → (∀ b, (Mark.start e).bracket = some b → b.kind ≠ k) ∧
      ∀ b, (Mark.stop e).bracket = some b → b.kind ≠ k := by
    intro e hne
    constructor <;>
    · rintro b ⟨rfl⟩
      exact hne
  by_cases hcode : some Element.code = k
  · subst hcode
    exact whole_scan encloses_code
      (scan_free encloses_bold Element.noConfusion (linkRow_free t))
  · rw [row, Whole, alternates_scan encloses_code hchar (hother _ hcode).1 (hother _ hcode).2]
    by_cases hstrong : some Element.strong = k
    · subst hstrong
      exact whole_scan encloses_bold (linkRow_free t)
    · rw [boldRow, alternates_scan encloses_bold hchar (hother _ hstrong).1 (hother _ hstrong).2]
      refine linkRow_whole hchar ?_ t
      intro secure more label
      rw [linkRead_filterMap hchar]
      change Whole k [.start none, .stop none]
      cases k <;> rfl

end

/-! ### The special characters of a row -/

def Sign.tells : Sign → Bool
  | .char c => c ∈ special
  | .first _ | .close | .anchorEnd => true
  | .start _ | .stop _ | .bare | .next _ => false

def Mark.told (mark : Mark) : List Sign := mark.signs.filter Sign.tells

section

variable {u : CharTable} {e : Element} {c : Char} {t text : Text} {marks : List Mark}
  {find : List Mark → Option (List Mark × ℕ)}

theorem specials_append (text text' : Text) :
    specials (text ++ text') = specials text ++ specials text' :=
  List.filter_append ..

theorem specials_eq_nil (h : ∀ c ∈ text, c ∉ special) : specials text = [] :=
  List.filter_eq_nil_iff.mpr fun c hc hspecial => h c hc (of_decide_eq_true hspecial)

theorem specials_cons (hc : c ∉ special) (text : Text) : specials (c :: text) = specials text :=
  List.filter_cons_of_neg fun h => hc (of_decide_eq_true h)

theorem specials_told (inValue : Bool) (pending : Text) (signs : List Sign) :
    specials (signsTold inValue pending signs) =
      signsTold inValue (specials pending) (signs.filter Sign.tells) := by
  induction signs generalizing inValue pending with
  | nil => cases inValue <;> rfl
  | cons sign signs ih =>
    cases sign with
    | char c =>
      -- only a special character counts, told now or pending in a value
      by_cases hc : c ∈ special
      · have htells : (Sign.char c).tells = true := decide_eq_true hc
        have hself : specials [c] = [c] := List.filter_cons_of_pos (decide_eq_true hc)
        rw [List.filter_cons_of_pos htells]
        cases inValue with
        | true =>
          simp only [signsTold]
          rw [ih, specials_append, hself]
        | false =>
          simp only [signsTold]
          rw [← ih, ← List.singleton_append, specials_append, hself]
          rfl
      · have htells : ¬ (Sign.char c).tells = true := fun h => hc (of_decide_eq_true h)
        have hself : specials [c] = [] := List.filter_cons_of_neg fun h => hc (of_decide_eq_true h)
        rw [List.filter_cons_of_neg htells, ← ih]
        cases inValue with
        | true =>
          simp only [signsTold]
          rw [ih, ih, specials_append, hself, List.append_nil]
        | false =>
          simp only [signsTold]
          rw [← List.singleton_append, specials_append, hself, List.nil_append]
    | anchorEnd =>
      rw [List.filter_cons_of_pos rfl]
      cases inValue with
      | true => exact (specials_append _ _).trans (congrArg (specials pending ++ ·) (ih true []))
      | false => exact (specials_append _ _).trans (congrArg (specials pending ++ ·) (ih false []))
    | first name =>
      rw [List.filter_cons_of_pos rfl]
      cases inValue <;> exact ih true pending
    | close =>
      rw [List.filter_cons_of_pos rfl]
      cases inValue <;> exact ih false pending
    | start _ | stop _ | bare | next _ =>
      rw [List.filter_cons_of_neg Bool.false_ne_true]
      cases inValue with
      | true => exact ih true pending
      | false => exact ih false pending

theorem filter_signs (marks : List Mark) :
    (marks.flatMap Mark.signs).filter Sign.tells = marks.flatMap Mark.told :=
  List.filter_flatMap

theorem told_signChars (text : Text) :
    (signChars text).filter Sign.tells = signChars (specials text) :=
  List.filter_map

theorem told_chars (text : Text) : (chars text).flatMap Mark.told = signChars (specials text) := by
  rw [← told_signChars, ← filter_signs, chars, List.flatMap_map]
  exact congrArg (List.filter Sign.tells) List.map_eq_flatMap.symm

theorem told_scan (hfind : Encloses e find) (marks : List Mark) :
    (scan find id 0 marks).flatMap Mark.told = marks.flatMap Mark.told := by
  refine scan_induction (motive := fun marks out =>
    out.flatMap Mark.told = marks.flatMap Mark.told) rfl ?_ ?_
      (fun _ _ _ _ h => (hfind _ _ _ h).1) marks
  · intro mark rest out _ ih
    rw [List.flatMap_cons, List.flatMap_cons, ih]
    rfl
  · intro mark rest found n out hfound ih
    obtain ⟨-, before, inner, after, hsplit, rfl, hplain⟩ := hfind _ _ _ hfound
    obtain ⟨hbefore, hafter⟩ := List.forall_mem_append.mp hplain
    refine Eq.trans ?_ (congrArg (List.flatMap Mark.told) hsplit).symm
    simp only [List.flatMap_append, told_chars, specials_eq_nil hbefore, specials_eq_nil hafter,
      ih, List.cons_append, List.flatMap_cons, List.append_assoc]
    rfl

theorem signsTold_text (text pending : Text) (signs : List Sign) :
    signsTold false pending (signChars text ++ signs) = text ++ signsTold false pending signs := by
  induction text with
  | nil => rfl
  | cons c text ih => exact congrArg (c :: ·) ih

theorem told_linkRead (secure : Bool) (more label : Text) (rest : List Sign) :
    signsTold false [] ((linkRead secure more label).flatMap Mark.told ++ rest) =
      specials (linkText label ((scheme secure).toList ++ more)) ++ signsTold false [] rest := by
  have haddress : (Mark.address secure).told = [.first .href] := by
    cases secure <;> decide
  have hlabel : Mark.label.told = [.close] := by decide
  have hdelimiters : specials (linkText label ((scheme secure).toList ++ more)) =
      specials label ++ specials more := by
    have hclose : specials [')'] = [] := by decide
    rw [linkText, List.cons_append, List.cons_append, specials_cons (by decide), List.append_assoc,
      specials_append, List.cons_append, specials_cons (by decide), List.cons_append,
      specials_cons (by decide), specials_append, specials_append,
      specials_eq_nil (scheme_plain secure), hclose, List.append_nil, List.nil_append]
  have hread : (linkRead secure more label).flatMap Mark.told ++ rest =
      .first .href :: (signChars (specials more) ++
        .close :: (signChars (specials label) ++ .anchorEnd :: rest)) := by
    simp only [linkRead, List.cons_append, List.flatMap_cons, List.flatMap_append, told_chars,
      haddress, hlabel, List.append_assoc, List.flatMap_nil, List.nil_append]
    rfl
  rw [hread, hdelimiters]
  refine (signsTold_value (specials more) [] _).trans ?_
  refine (signsTold_text (specials label) (specials more) _).trans ?_
  rw [List.append_assoc]
  rfl

theorem told_linkRow (t : Text) : ∀ rest,
    signsTold false [] ((linkRow u t).flatMap Mark.told ++ rest) =
      specials t ++ signsTold false [] rest := by
  refine scan_induction (motive := fun t out => ∀ rest,
    signsTold false [] (out.flatMap Mark.told ++ rest) = specials t ++ signsTold false [] rest)
      (fun _ => rfl) ?_ ?_ ?_ t
  · intro c t out _ ih rest
    have hchar : (Mark.char c).told = signChars (specials [c]) := told_signChars [c]
    have hsplit : specials (c :: t) = specials [c] ++ specials t := specials_append [c] t
    rw [List.flatMap_cons, hchar, List.append_assoc, signsTold_text, ih rest, hsplit,
      List.append_assoc]
  · intro c t found n out hfound ih rest
    obtain ⟨secure, more, label, rest', -, htext, rfl, rfl⟩ := linkMarks_eq_some hfound
    rw [htext, List.drop_left] at ih
    rw [htext, List.flatMap_append, List.append_assoc, told_linkRead, ih rest, specials_append,
      List.append_assoc]
  · intro c t found n hfound
    obtain ⟨secure, more, label, rest', -, -, -, rfl⟩ := linkMarks_eq_some hfound
    simp [linkText]

theorem told_row (t : Text) (rest : List Sign) :
    signsTold false [] ((row u t).flatMap Mark.told ++ rest) =
      specials t ++ signsTold false [] rest := by
  rw [row, told_scan encloses_code, boldRow, told_scan encloses_bold, told_linkRow]

end

/-! ### Blocks -/

section

variable (u : CharTable)

/-- The addresses of a text hold nothing but characters, and no two of its spans cross. -/
def Orderly (text : Text) : Prop :=
  PlainAddresses (row u text) ∧ Uncrossed ((row u text).filterMap Mark.bracket)

def Piece.text : Piece → Option Text
  | .openList | .closeList => none
  | .heading text | .paragraph text | .item text => some text

/-- The headings, the paragraphs and the items of notes. -/
def texts (notes : Text) : List Text := (pieces u notes).filterMap Piece.text

def Piece.marks : Piece → List Mark
  | .openList => [.start .ul]
  | .closeList => [.stop .ul]
  | .heading text => .start .h3 :: row u text ++ [.stop .h3]
  | .paragraph text => .start .p :: row u text ++ [.stop .p]
  | .item text => .start .li :: row u text ++ [.stop .li]

def Piece.brackets (piece : Piece) : List (Bracket (Option Element)) :=
  (piece.marks u).filterMap Mark.bracket

structure Rendering.Unbroken (r : Rendering) : Prop where
  html : ∀ piece ∈ r.html, ∀ text ∈ piece.text, '\n' ∉ text
  block : ∀ line ∈ r.block, '\n' ∉ line

def listOpened (inList : Bool) : List (Option Element) := if inList then [some .ul] else []

/-- The tags are nested but for the list that is open, when those of each text are. -/
def Rendering.Balanced (r : Rendering) : Prop :=
  (∀ piece ∈ r.html, ∀ text ∈ piece.text, Nested ((row u text).filterMap Mark.bracket)) →
    run [] (r.html.flatMap (Piece.brackets u)) = some (listOpened r.inList)

variable {m : Markupsafe} {u} {r : Rendering} {piece : Piece} {text raw : Text} {notes : Text}

theorem Rendering.Unbroken.append (h : r.Unbroken) (piece : Piece)
    (hpiece : ∀ text ∈ piece.text, '\n' ∉ text) : (r.append piece).Unbroken :=
  ⟨List.forall_mem_append.mpr ⟨h.html, List.forall_mem_singleton.mpr hpiece⟩, h.block⟩

theorem Rendering.Unbroken.closeList (h : r.Unbroken) : r.closeList.Unbroken := by
  have hpiece : ∀ text ∈ Piece.closeList.text, '\n' ∉ text := by
    intro text htext
    cases htext
  unfold Rendering.closeList
  split
  · exact ⟨(h.append _ hpiece).html, h.block⟩
  · exact h

theorem Rendering.Unbroken.openList (h : r.Unbroken) : r.openList.Unbroken := by
  have hpiece : ∀ text ∈ Piece.openList.text, '\n' ∉ text := by
    intro text htext
    cases htext
  unfold Rendering.openList
  split
  · exact h
  · exact ⟨(h.append _ hpiece).html, h.block⟩

theorem intercalate_unbroken {lines : List Text} (h : ∀ line ∈ lines, '\n' ∉ line) :
    '\n' ∉ List.intercalate [' '] lines := by
  intro hmem
  rcases Urllib.mem_intercalate hmem with hblank | ⟨line, hline, hmem⟩
  · exact absurd hblank (by decide)
  · exact h line hline hmem

theorem Rendering.Unbroken.flush (h : r.Unbroken) : r.flush.Unbroken := by
  have hpiece : ∀ text ∈ some (List.intercalate [' '] r.block), '\n' ∉ text := by
    rintro _ ⟨rfl⟩
    exact intercalate_unbroken h.block
  unfold Rendering.flush
  split
  · exact h
  · split
    · exact ⟨(h.openList.append (.item _) hpiece).html, List.forall_mem_nil _⟩
    · exact ⟨(h.closeList.append (.paragraph _) hpiece).html, List.forall_mem_nil _⟩

theorem strip_subset (u : CharTable) (t : Text) : u.strip t ⊆ t := by
  intro c hc
  exact (List.dropWhile_suffix _).subset ((List.rdropWhile_prefix _ _).subset hc)

theorem strip_unbroken (h : '\n' ∉ text) : '\n' ∉ u.strip text :=
  fun hmem => h (strip_subset u text hmem)

theorem unbroken_of_dots (h : ∀ c ∈ text, isDot c = true) : '\n' ∉ text :=
  fun hmem => absurd (h _ hmem) (by decide)

theorem captured_of_hit {front : Pattern} {found : Hit}
    (h : found ∈ (front ++ anyText ++ .stop).hits raw) : ∃ before text rest,
      before ∈ front.hits raw ∧ raw = before.text ++ (text ++ rest) ∧
        found.captures = before.captures ++ [some text] ∧ '\n' ∉ text ∧
          (rest = [] ∨ rest = ['\n']) := by
  simp only [anyText, mem_hits_append, mem_hits_group] at h
  obtain ⟨_, ⟨before, hbefore, _, ⟨taken, htaken, rfl⟩, rfl⟩, last, hlast, rfl⟩ := h
  obtain ⟨hsplit, hcaptures, hdots, -⟩ := mem_hits_many.mp htaken
  obtain ⟨rfl, hrest⟩ := mem_hits_stop.mp hlast
  refine ⟨before, taken.text, taken.rest, hbefore, ?_, ?_, unbroken_of_dots hdots, hrest⟩
  · rw [← hsplit]
    exact hit_splits hbefore
  · simp [hcaptures]

def PlainFront (front : Pattern) (captured : ℕ) : Prop :=
  ∀ raw, ∀ found ∈ front.hits raw,
    found.captures.length = captured ∧ ∀ c ∈ found.text, c ∉ special

theorem not_special {p : Char → Bool} (hp : ∀ c ∈ special, p c = false)
    (h : ∀ c ∈ text, p c = true) : ∀ c ∈ text, c ∉ special := by
  intro c hc hspecial
  have hclass := h c hc
  rw [hp c hspecial] at hclass
  cases hclass

theorem blank_plain (u : CharTable) : ∀ c ∈ special, u.isSpace c = false := by
  intro c hc
  obtain ⟨hlow, hhigh, -⟩ := special_shown c hc
  exact u.isSpace_of_shown hlow hhigh

theorem plainFront_heading (u : CharTable) : PlainFront (.many true u.isSpace 0 none ++
    .group (.many true (· == '#') 1 (some 4)) ++ .many true u.isSpace 1 none) 1 := by
  intro raw found hfound
  simp only [mem_hits_append, mem_hits_group] at hfound
  obtain ⟨_, ⟨_, hblank, _, ⟨_, hmarks, rfl⟩, rfl⟩, _, hblank', rfl⟩ := hfound
  obtain ⟨-, hcaptures, hblank, -⟩ := mem_hits_many.mp hblank
  obtain ⟨-, hcaptures', hmarks, -⟩ := mem_hits_many.mp hmarks
  obtain ⟨-, hcaptures'', hblank', -⟩ := mem_hits_many.mp hblank'
  refine ⟨by simp [hcaptures, hcaptures', hcaptures''], ?_⟩
  exact List.forall_mem_append.mpr ⟨List.forall_mem_append.mpr ⟨not_special (blank_plain u) hblank,
    not_special (forall_of_all (by decide)) hmarks⟩, not_special (blank_plain u) hblank'⟩

theorem plainFront_bullet (u : CharTable) : PlainFront (.many true u.isSpace 0 none ++
    .many true (fun c => c == '-' || c == '*') 1 (some 1) ++ .many true u.isSpace 1 none) 0 := by
  intro raw found hfound
  simp only [mem_hits_append] at hfound
  obtain ⟨_, ⟨_, hblank, _, hmarks, rfl⟩, _, hblank', rfl⟩ := hfound
  obtain ⟨-, hcaptures, hblank, -⟩ := mem_hits_many.mp hblank
  obtain ⟨-, hcaptures', hmarks, -⟩ := mem_hits_many.mp hmarks
  obtain ⟨-, hcaptures'', hblank', -⟩ := mem_hits_many.mp hblank'
  refine ⟨by simp [hcaptures, hcaptures', hcaptures''], ?_⟩
  exact List.forall_mem_append.mpr ⟨List.forall_mem_append.mpr ⟨not_special (blank_plain u) hblank,
    not_special (forall_of_all (by decide)) hmarks⟩, not_special (blank_plain u) hblank'⟩

theorem captured_after {front : Pattern} {captured : ℕ} {found : Hit}
    (hfront : PlainFront front captured) (h : (front ++ anyText ++ .stop).atStart raw = some found) :
    '\n' ∉ found.group (captured + 1) ∧
      specials (found.group (captured + 1)) = specials raw := by
  obtain ⟨before, text, rest, hbefore, hsplit, hcaptures, hunbroken, hrest⟩ :=
    captured_of_hit (List.mem_of_head? h)
  obtain ⟨hlength, hplain⟩ := hfront raw before hbefore
  have hgroup : found.group (captured + 1) = text := by
    simp [Hit.group, hcaptures, ← hlength]
  have hend : specials rest = [] := by
    rcases hrest with rfl | rfl <;> decide
  rw [hgroup, hsplit, specials_append, specials_append, specials_eq_nil hplain, hend,
    List.append_nil, List.nil_append]
  exact ⟨hunbroken, rfl⟩

theorem heading_captured {found : Hit} (h : (headingRe u).atStart raw = some found) :
    '\n' ∉ found.group 2 ∧ specials (found.group 2) = specials raw :=
  captured_after (plainFront_heading u) h

theorem bullet_captured {found : Hit} (h : (bulletRe u).atStart raw = some found) :
    '\n' ∉ found.group 1 ∧ specials (found.group 1) = specials raw :=
  captured_after (plainFront_bullet u) h

theorem Rendering.Unbroken.readLine (h : r.Unbroken) (hraw : '\n' ∉ raw) :
    (r.readLine u raw).Unbroken := by
  unfold Rendering.readLine
  dsimp only
  split
  · exact h.flush
  · split
    · rename_i heading hheading
      apply h.flush.closeList.append (.heading _)
      rintro _ ⟨rfl⟩
      exact strip_unbroken (heading_captured hheading).1
    · split
      · rename_i bullet hbullet
        exact ⟨h.flush.html, List.forall_mem_singleton.mpr
          (strip_unbroken (bullet_captured hbullet).1)⟩
      · exact ⟨h.html, List.forall_mem_append.mpr
          ⟨h.block, List.forall_mem_singleton.mpr (strip_unbroken hraw)⟩⟩

theorem unbroken_linesFrom {line : List Char} (h : '\n' ∉ line) (text : Text) :
    ∀ raw ∈ PlainText.linesFrom line text, '\n' ∉ raw := by
  have hreverse : ∀ {line : List Char}, '\n' ∉ line → '\n' ∉ line.reverse :=
    fun h hmem => h (List.mem_reverse.mp hmem)
  induction line, text using PlainText.linesFrom.induct with
  | case1 =>
    rw [PlainText.linesFrom, if_pos rfl]
    exact List.forall_mem_nil _
  | case2 line hne =>
    rw [PlainText.linesFrom, if_neg hne]
    exact List.forall_mem_singleton.mpr (hreverse h)
  | case3 line text ih =>
    rw [PlainText.linesFrom]
    exact List.forall_mem_cons.mpr ⟨hreverse h, ih List.not_mem_nil⟩
  | case4 line c text hreturn hends ih =>
    rw [PlainText.linesFrom, if_pos hends]
    · exact List.forall_mem_cons.mpr ⟨hreverse h, ih List.not_mem_nil⟩
    · exact hreturn
  | case5 line c text hreturn hends ih =>
    rw [PlainText.linesFrom, if_neg hends]
    · refine ih fun hmem => ?_
      rcases List.mem_cons.mp hmem with rfl | hmem
      · exact hends (by decide)
      · exact h hmem
    · exact hreturn

theorem unbroken_pieces (notes : Text) :
    ∀ piece ∈ pieces u notes, ∀ text ∈ piece.text, '\n' ∉ text := by
  have hlines : ∀ raw ∈ PlainText.splitlines notes, '\n' ∉ raw :=
    unbroken_linesFrom List.not_mem_nil notes
  have hstart : ({} : Rendering).Unbroken := ⟨List.forall_mem_nil _, List.forall_mem_nil _⟩
  have hread : ((PlainText.splitlines notes).foldl (Rendering.readLine u) {}).Unbroken :=
    List.foldlRecOn _ _ hstart fun r h raw hraw => h.readLine (hlines raw hraw)
  exact hread.flush.closeList.html

/-! ### The special characters of notes -/

def Rendering.texts (r : Rendering) : Text :=
  (r.html.filterMap Piece.text).flatten ++ r.block.flatten

theorem specials_dropWhile (text : Text) : specials (text.dropWhile u.isSpace) = specials text := by
  induction text with
  | nil => rfl
  | cons c text ih =>
    by_cases hc : u.isSpace c = true
    · have hplain : c ∉ special := by
        intro hspecial
        rw [blank_plain u c hspecial] at hc
        cases hc
      rw [List.dropWhile_cons_of_pos hc, ih, specials_cons hplain]
    · rw [List.dropWhile_cons_of_neg hc]

theorem specials_strip (text : Text) : specials (u.strip text) = specials text := by
  have hreverse : ∀ text : Text, specials text.reverse = (specials text).reverse :=
    fun text => List.filter_reverse
  rw [CharTable.strip, List.rdropWhile, hreverse, specials_dropWhile, hreverse, List.reverse_reverse,
    specials_dropWhile]

theorem specials_intercalate (lines : List Text) :
    specials (List.intercalate [' '] lines) = specials lines.flatten := by
  induction lines with
  | nil => rfl
  | cons line lines ih =>
    cases lines with
    | nil => simp [List.intercalate]
    | cons line' lines =>
      have hblank : specials [' '] = [] := by decide
      rw [List.intercalate_cons_cons, specials_append, specials_append, ih, hblank,
        List.append_nil, ← specials_append]
      rfl

theorem closeList_texts (r : Rendering) : r.closeList.texts = r.texts := by
  unfold Rendering.closeList
  split
  · simp [Rendering.texts, Rendering.append, Piece.text]
  · rfl

theorem openList_texts (r : Rendering) : r.openList.texts = r.texts := by
  unfold Rendering.openList
  split
  · rfl
  · simp [Rendering.texts, Rendering.append, Piece.text]

theorem flush_block (r : Rendering) : r.flush.block = [] := by
  unfold Rendering.flush
  split
  · assumption
  · rfl

theorem closeList_block (r : Rendering) : r.closeList.block = r.block := by
  unfold Rendering.closeList
  split <;> rfl

theorem openList_block (r : Rendering) : r.openList.block = r.block := by
  unfold Rendering.openList
  split <;> rfl

theorem specials_append_text (h : piece.text = some text) (hblock : r.block = []) :
    specials (r.append piece).texts = specials r.texts ++ specials text := by
  simp [Rendering.texts, Rendering.append, h, hblock, specials_append]

theorem specials_flush (r : Rendering) : specials r.flush.texts = specials r.texts := by
  have hsplit : ∀ r : Rendering, specials r.texts =
      specials { r with block := [] }.texts ++ specials r.block.flatten := by
    intro r
    simp [Rendering.texts, specials_append]
  have happend : ∀ (r' : Rendering) (piece : Piece), r'.texts = r.texts → r'.block = r.block →
      piece.text = some (List.intercalate [' '] r.block) →
      specials { r'.append piece with block := [], blockKind := none }.texts =
        specials r.texts := by
    intro r' piece htexts hblock hpiece
    have hsame : { r'.append piece with block := [], blockKind := none }.texts =
        ({ r' with block := [] }.append piece).texts := rfl
    rw [hsame, specials_append_text hpiece rfl, specials_intercalate, ← htexts, hsplit r', hblock]
  unfold Rendering.flush
  split
  · rfl
  · dsimp only
    split
    · exact happend r.openList (.item _) (openList_texts r) (openList_block r) rfl
    · exact happend r.closeList (.paragraph _) (closeList_texts r) (closeList_block r) rfl

theorem specials_readLine (r : Rendering) (raw : Text) :
    specials (r.readLine u raw).texts = specials r.texts ++ specials raw := by
  unfold Rendering.readLine
  dsimp only
  split
  · rename_i hblank
    have hraw : specials raw = [] := by
      rw [← specials_strip (u := u), hblank]
      rfl
    rw [specials_flush, hraw, List.append_nil]
  · split
    · rename_i heading hheading
      have hblock : r.flush.closeList.block = [] := (closeList_block _).trans (flush_block r)
      have htext : (Piece.heading (u.strip (heading.group 2))).text =
          some (u.strip (heading.group 2)) := rfl
      rw [specials_append_text htext hblock, closeList_texts, specials_flush, specials_strip,
        (heading_captured hheading).2]
    · split
      · rename_i bullet hbullet
        have hblock : { r.flush with
            block := [u.strip (bullet.group 1)], blockKind := some .li }.texts =
              r.flush.texts ++ u.strip (bullet.group 1) := by
          simp [Rendering.texts, flush_block]
        rw [hblock, specials_append, specials_flush, specials_strip, (bullet_captured hbullet).2]
      · have hblock : { r with
            blockKind := r.blockKind.or (some .p)
            block := r.block ++ [u.strip raw] }.texts = r.texts ++ u.strip raw := by
          simp [Rendering.texts]
        rw [hblock, specials_append, specials_strip]

theorem specials_linesFrom (line text : Text) :
    specials (PlainText.linesFrom line text).flatten = specials (line.reverse ++ text) := by
  have hends : ∀ c ∈ special, PlainText.endsLine c = false := forall_of_all (by decide)
  induction line, text using PlainText.linesFrom.induct with
  | case1 =>
    rw [PlainText.linesFrom, if_pos rfl]
    rfl
  | case2 line hne =>
    rw [PlainText.linesFrom, if_neg hne, List.flatten_singleton, List.append_nil]
  | case3 line text ih =>
    rw [PlainText.linesFrom, List.flatten_cons, specials_append, specials_append, ih,
      specials_cons (by decide), specials_cons (by decide)]
    rfl
  | case4 line c text hreturn hline ih =>
    have hplain : c ∉ special := by
      intro hspecial
      rw [hends c hspecial] at hline
      cases hline
    rw [PlainText.linesFrom, if_pos hline, List.flatten_cons, specials_append, specials_append, ih,
      specials_cons hplain]
    · rfl
    · exact hreturn
  | case5 line c text hreturn hline ih =>
    rw [PlainText.linesFrom, if_neg hline, ih, List.reverse_cons, List.append_assoc]
    · rfl
    · exact hreturn

theorem specials_texts (notes : Text) : specials (texts u notes).flatten = specials notes := by
  have hread : ∀ (lines : List Text) (r : Rendering),
      specials (lines.foldl (Rendering.readLine u) r).texts =
        specials r.texts ++ specials lines.flatten := by
    intro lines
    induction lines with
    | nil =>
      intro r
      exact (List.append_nil _).symm
    | cons line lines ih =>
      intro r
      rw [List.foldl_cons, ih, specials_readLine, List.flatten_cons, specials_append,
        List.append_assoc]
  have hend := hread (PlainText.splitlines notes) {}
  rw [PlainText.splitlines, specials_linesFrom] at hend
  have hlast : (texts u notes).flatten =
      ((PlainText.splitlines notes).foldl (Rendering.readLine u) {}).flush.closeList.texts := by
    rw [Rendering.texts, closeList_block, flush_block, List.flatten_nil, List.append_nil]
    rfl
  rw [hlast, closeList_texts, specials_flush]
  exact hend

/-! ### Lists -/

theorem brackets_of_text (h : piece.text = some text) : ∃ e : Element, .strong ≠ e ∧ .code ≠ e ∧
    piece.marks u = .start e :: (row u text ++ [.stop e]) ∧
      piece.brackets u = .start (some e) ::
        ((row u text).filterMap Mark.bracket ++ [.stop (some e)]) := by
  have hbrackets : ∀ e : Element, (.start e :: (row u text ++ [.stop e])).filterMap Mark.bracket =
      .start (some e) :: ((row u text).filterMap Mark.bracket ++ [.stop (some e)]) := by
    intro e
    have hstart : (Mark.start e).bracket = some (.start (some e)) := rfl
    rw [List.filterMap_cons_some hstart, List.filterMap_append]
    rfl
  cases piece with
  | openList => cases h
  | closeList => cases h
  | heading text =>
    cases h
    exact ⟨.h3, Element.noConfusion, Element.noConfusion, rfl, hbrackets .h3⟩
  | paragraph text =>
    cases h
    exact ⟨.p, Element.noConfusion, Element.noConfusion, rfl, hbrackets .p⟩
  | item text =>
    cases h
    exact ⟨.li, Element.noConfusion, Element.noConfusion, rfl, hbrackets .li⟩

theorem Rendering.Balanced.append (h : r.Balanced u) (isOpen : Bool)
    (hpiece : (∀ text ∈ piece.text, Nested ((row u text).filterMap Mark.bracket)) →
      run (listOpened r.inList) (piece.brackets u) = some (listOpened isOpen)) :
    Rendering.Balanced u { r.append piece with inList := isOpen } := by
  intro hnested
  have hnested' := List.forall_mem_append.mp hnested
  change run [] ((r.html ++ [piece]).flatMap (Piece.brackets u)) = _
  rw [List.flatMap_append, run_append, h hnested'.1, Option.bind_some, List.flatMap_singleton]
  exact hpiece (List.forall_mem_singleton.mp hnested'.2)

theorem Rendering.Balanced.appendText (h : r.Balanced u) (piece : Piece)
    (htext : piece.text = some text) : (r.append piece).Balanced u := by
  refine h.append r.inList fun hnested => ?_
  obtain ⟨e, -, -, -, hbrackets⟩ := brackets_of_text (u := u) htext
  rw [hbrackets]
  exact run_of_nested (.span _ (hnested text htext) .nil) _

theorem Rendering.Balanced.closeList (h : r.Balanced u) : r.closeList.Balanced u := by
  unfold Rendering.closeList
  split
  · rename_i hopen
    refine h.append false fun _ => ?_
    rw [hopen]
    rfl
  · exact h

theorem Rendering.Balanced.openList (h : r.Balanced u) : r.openList.Balanced u := by
  unfold Rendering.openList
  split
  · exact h
  · rename_i hclosed
    refine h.append true fun _ => ?_
    rw [Bool.eq_false_iff.mpr hclosed]
    rfl

theorem Rendering.Balanced.flush (h : r.Balanced u) : r.flush.Balanced u := by
  unfold Rendering.flush
  split
  · exact h
  · dsimp only
    split
    · exact h.openList.appendText (.item _) rfl
    · exact h.closeList.appendText (.paragraph _) rfl

theorem Rendering.Balanced.readLine (h : r.Balanced u) (raw : Text) :
    (r.readLine u raw).Balanced u := by
  unfold Rendering.readLine
  dsimp only
  split
  · exact h.flush
  · split
    · exact h.flush.closeList.appendText (.heading _) rfl
    · split
      · exact h.flush
      · exact h

theorem closeList_closed (r : Rendering) : r.closeList.inList = false := by
  unfold Rendering.closeList
  split
  · rfl
  · rename_i hclosed
    exact Bool.eq_false_iff.mpr hclosed

theorem nested_pieces (h : ∀ text ∈ texts u notes, Nested ((row u text).filterMap Mark.bracket)) :
    Nested ((pieces u notes).flatMap (Piece.brackets u)) := by
  have hstart : ({} : Rendering).Balanced u := fun _ => rfl
  have hread : ((PlainText.splitlines notes).foldl (Rendering.readLine u) {}).Balanced u :=
    List.foldlRecOn _ _ hstart fun r h raw _ => h.readLine raw
  have hend := hread.flush.closeList fun piece hpiece text htext =>
    h text (List.mem_filterMap.mpr ⟨piece, hpiece, htext⟩)
  rw [closeList_closed] at hend
  exact run_iff_nested.mp hend

/-! ### The HTML of notes -/

theorem piece_html (hunbroken : ∀ text ∈ piece.text, '\n' ∉ text) :
    piece.html m u = (piece.marks u).flatMap (Mark.html m) := by
  have hwritten : ∀ (e : Element) (text : Text), '\n' ∉ text →
      (Mark.start e).html m ++ inline m u text ++ (Mark.stop e).html m =
        (Mark.start e :: row u text ++ [Mark.stop e]).flatMap (Mark.html m) := by
    intro e text htext
    rw [inline_eq htext, List.cons_append, List.flatMap_cons, List.flatMap_append,
      List.flatMap_singleton, List.append_assoc]
  cases piece with
  | openList =>
    change "<ul>".toList = (Mark.start .ul).tag ++ []
    decide +kernel
  | closeList =>
    change "</ul>".toList = (Mark.stop .ul).tag ++ []
    decide +kernel
  | heading text =>
    rw [Piece.marks, ← hwritten .h3 text (hunbroken text rfl)]
    rfl
  | paragraph text =>
    rw [Piece.marks, ← hwritten .p text (hunbroken text rfl)]
    rfl
  | item text =>
    rw [Piece.marks, ← hwritten .li text (hunbroken text rfl)]
    rfl

theorem renderReleaseNotes_eq (notes : Text) : renderReleaseNotes m u notes =
    ((pieces u notes).flatMap (Piece.marks u)).flatMap (Mark.html m) := by
  rw [renderReleaseNotes, List.flatMap_assoc]
  exact List.flatMap_congr fun piece hpiece => piece_html (unbroken_pieces notes piece hpiece)

theorem brackets_pieces (notes : Text) :
    ((pieces u notes).flatMap (Piece.marks u)).filterMap Mark.bracket =
      (pieces u notes).flatMap (Piece.brackets u) := by
  rw [List.filterMap_flatMap]
  rfl

theorem written_pieces (h : ∀ text ∈ texts u notes, PlainAddresses (row u text)) :
    Written ((pieces u notes).flatMap (Piece.marks u)) := by
  have hpiece : ∀ piece ∈ pieces u notes, Written (piece.marks u) := by
    intro piece hpiece
    cases htext : piece.text with
    | none =>
      cases piece with
      | openList => exact ⟨[.start .ul], rfl⟩
      | closeList => exact ⟨[.stop .ul], rfl⟩
      | _ => cases htext
    | some text =>
      obtain ⟨e, -, -, hmarks, -⟩ := brackets_of_text (u := u) htext
      have hrow : Written (row u text) := written_of_plainAddresses (linked_row text)
        (h text (List.mem_filterMap.mpr ⟨piece, hpiece, htext⟩))
      have hstart : Written [.start e] := ⟨[.start e], rfl⟩
      have hstop : Written [.stop e] := ⟨[.stop e], rfl⟩
      rw [hmarks]
      exact hstart.append (hrow.append hstop)
  generalize pieces u notes = list at hpiece
  induction list with
  | nil => exact ⟨[], rfl⟩
  | cons piece list ih =>
    obtain ⟨hfirst, hrest⟩ := List.forall_mem_cons.mp hpiece
    rw [List.flatMap_cons]
    exact hfirst.append (ih hrest)

theorem exists_marks (h : text ∈ texts u notes) : ∃ e before after, .strong ≠ e ∧ .code ≠ e ∧
    (pieces u notes).flatMap (Piece.marks u) =
      before ++ .start e :: (row u text ++ .stop e :: after) := by
  obtain ⟨piece, hpiece, htext⟩ := List.mem_filterMap.mp h
  obtain ⟨e, hstrong, hcode, hmarks, -⟩ := brackets_of_text (u := u) htext
  obtain ⟨before, after, hsplit⟩ := List.append_of_mem hpiece
  refine ⟨e, before.flatMap (Piece.marks u), after.flatMap (Piece.marks u), hstrong, hcode, ?_⟩
  rw [hsplit, List.flatMap_append, List.flatMap_cons, hmarks]
  simp

theorem orderly_of_safe (h : SafeHtml m notes (renderReleaseNotes m u notes))
    (htext : text ∈ texts u notes) :
    Orderly u text := by
  rw [renderReleaseNotes_eq, safeHtml_iff] at h
  obtain ⟨hwritten, hnested, -⟩ := h
  obtain ⟨e, before, after, hstrong, hcode, hmarks⟩ := exists_marks htext
  have hplain := plainAddresses_of_written hwritten
  rw [hmarks] at hplain hnested
  constructor
  · intro before' secure inner after' hrow
    refine hplain (before ++ .start e :: before') secure inner (after' ++ .stop e :: after) ?_
    rw [hrow]
    simp
  · refine (nested_iff_uncrossed fun k => whole_row k text).mp ?_
    have hstart : (Mark.start e).bracket = some (.start (some e)) := rfl
    have hstop : (Mark.stop e).bracket = some (.stop (some e)) := rfl
    rw [List.filterMap_append, List.filterMap_cons_some hstart, List.filterMap_append,
      List.filterMap_cons_some hstop] at hnested
    have hfree := row_free (u := u) hstrong hcode text
    exact nested_inner hnested (fun hmem => kinds_ne hfree _ hmem rfl)
      fun hmem => kinds_ne hfree _ hmem rfl

theorem told_pieces (notes : Text) :
    specials (signsTold false [] (((pieces u notes).flatMap (Piece.marks u)).flatMap Mark.signs)) =
      specials notes := by
  rw [specials_told, filter_signs, ← specials_texts (u := u) notes, texts]
  generalize pieces u notes = list
  induction list with
  | nil => rfl
  | cons piece list ih =>
    rw [List.flatMap_cons, List.flatMap_append]
    cases htext : piece.text with
    | none =>
      rw [List.filterMap_cons_none htext, ← ih]
      cases piece with
      | openList => rfl
      | closeList => rfl
      | _ => cases htext
    | some text =>
      obtain ⟨e, -, -, hmarks, -⟩ := brackets_of_text (u := u) htext
      rw [List.filterMap_cons_some htext, List.flatten_cons, specials_append, ← ih, hmarks]
      have hpiece : (Mark.start e :: (row u text ++ [Mark.stop e])).flatMap Mark.told =
          (row u text).flatMap Mark.told := by
        rw [List.flatMap_cons, List.flatMap_append]
        exact List.append_nil _
      rw [hpiece]
      exact told_row text _

theorem safe_of_orderly (h : ∀ text ∈ texts u notes, Orderly u text) :
    SafeHtml m notes (renderReleaseNotes m u notes) := by
  rw [renderReleaseNotes_eq, safeHtml_iff, brackets_pieces]
  refine ⟨written_pieces fun text htext => (h text htext).1,
    nested_pieces fun text htext => ?_, told_pieces notes⟩
  exact (nested_iff_uncrossed fun k => whole_row k text).mpr (h text htext).2

/-- Notes are rendered to safe HTML when each of their texts is orderly, and not else. -/
theorem safe_iff_orderly (m : Markupsafe) (u : CharTable) (notes : Text) :
    SafeHtml m notes (renderReleaseNotes m u notes) ↔ ∀ text ∈ texts u notes, Orderly u text :=
  ⟨fun h _ => orderly_of_safe h, safe_of_orderly⟩

theorem safe_iff_orderly_sample :
    SafeHtml Markupsafe.library "1 < **2** & 3".toList
      (renderReleaseNotes Markupsafe.library CharTable.ascii "1 < **2** & 3".toList) := by
  refine (safe_iff_orderly Markupsafe.library CharTable.ascii _).mpr fun text htext => ?_
  have htexts : texts CharTable.ascii "1 < **2** & 3".toList = ["1 < **2** & 3".toList] := by
    decide +kernel
  rw [htexts, List.mem_singleton] at htext
  subst htext
  have hrow : row CharTable.ascii "1 < **2** & 3".toList = chars "1 < ".toList ++
      [.start .strong, .char '2', .stop .strong] ++ chars " & 3".toList := by
    decide +kernel
  constructor
  · intro before secure inner after hsplit
    have hmem : .address secure ∈ row CharTable.ascii "1 < **2** & 3".toList := by
      rw [hsplit]
      simp
    rw [hrow] at hmem
    cases secure <;> exact absurd hmem (by decide)
  · refine (nested_iff_uncrossed fun k => whole_row k _).mp (run_iff_nested.mp ?_)
    rw [hrow]
    decide

/-- Bold text that begins in an address and ends in its label puts a tag into the address. -/
theorem strong_in_address :
    ¬ SafeHtml Markupsafe.library "[**a](http://x/**b)".toList
      (renderReleaseNotes Markupsafe.library CharTable.ascii "[**a](http://x/**b)".toList) := by
  intro h
  have htext : "[**a](http://x/**b)".toList ∈
      texts CharTable.ascii "[**a](http://x/**b)".toList := by
    decide +kernel
  have hrow : row CharTable.ascii "[**a](http://x/**b)".toList =
      [] ++ .address false :: [.char 'x', .char '/', .start .strong, .char 'b'] ++
        .label :: [.stop .strong, .char 'a', .linkEnd] := by
    decide +kernel
  have hplain := (orderly_of_safe h htext).1 _ _ _ _ hrow (by decide)
  obtain ⟨c, hc⟩ := hplain (.start .strong) (by decide)
  cases hc

end

end ReleaseNotes
