import McAdmin.ReleaseMarks

/-!
# Safe HTML

The HTML of notes is safe when it is a row of escaped characters and tags whose tags are nested: the
elements of release notes without attributes, and anchors with attributes of three names whose
values are escaped too and whose addresses are of the web.  The special characters of the notes are
all among those that are escaped, so that no tag is theirs.  What is written in signs, of which none
begins another, can be read back.
-/

namespace ReleaseNotes

open Backtracking Brackets Substitution

/-! ### Tokens -/

inductive Attribute where
  | href
  | target
  | rel
deriving DecidableEq

def Attribute.name : Attribute → String
  | .href => "href"
  | .target => "target"
  | .rel => "rel"

/-- The attributes of an anchor: none is given twice, and an address is of the web. -/
structure Attributes where
  values : List (Attribute × Text)
  nodup : (values.map Prod.fst).Nodup
  web : ∀ url, (.href, url) ∈ values → ∃ secure more, url = (scheme secure).toList ++ more

inductive Token where
  | char (c : Char)
  | start (e : Element)
  | stop (e : Element)
  | anchor (attributes : Attributes)
  | anchorEnd

def Attribute.opening (name : Attribute) : Text := s!" {name.name}=\"".toList

def attributeHtml (m : Markupsafe) (pair : Attribute × Text) : Text :=
  pair.1.opening ++ m.escape pair.2 ++ "\"".toList

def Token.html (m : Markupsafe) : Token → Text
  | .char c => m.escape [c]
  | .start e => s!"<{e.name}>".toList
  | .stop e => s!"</{e.name}>".toList
  | .anchor attributes => "<a".toList ++ attributes.values.flatMap (attributeHtml m) ++ ">".toList
  | .anchorEnd => "</a>".toList

/-- What a tag opens or closes; an anchor is of no element without attributes. -/
def Token.bracket : Token → Option (Bracket (Option Element))
  | .char _ => none
  | .start e => some (.start (some e))
  | .stop e => some (.stop (some e))
  | .anchor _ => some (.start none)
  | .anchorEnd => some (.stop none)

/-- The characters that tokens show, in the order of the notes: what the attributes of an anchor
have, which is `pending`, comes after its label. -/
def told : Text → List Token → Text
  | pending, [] => pending
  | pending, .char c :: tokens => c :: told pending tokens
  | pending, .anchor attributes :: tokens =>
    told (pending ++ attributes.values.flatMap Prod.snd) tokens
  | pending, .anchorEnd :: tokens => pending ++ told [] tokens
  | pending, .start _ :: tokens => told pending tokens
  | pending, .stop _ :: tokens => told pending tokens

def specials (text : Text) : Text := text.filter (· ∈ special)

/-- Escaped text and nested tags, and nothing else; the special characters of the notes are those
of the escaped text, each in its place. -/
def SafeHtml (m : Markupsafe) (notes html : Text) : Prop :=
  ∃ tokens : List Token, tokens.flatMap (Token.html m) = html ∧
    Nested (tokens.filterMap Token.bracket) ∧ specials (told [] tokens) = specials notes

/-! ### Signs -/

/-- What HTML can be read in: of the tag of an anchor, each part that ends or begins a value. -/
inductive Sign where
  | char (c : Char)
  | start (e : Element)
  | stop (e : Element)
  | bare
  | first (name : Attribute)
  | next (name : Attribute)
  | close
  | anchorEnd
deriving DecidableEq

def Sign.tag : Sign → Text
  | .char _ => []
  | .start e => s!"<{e.name}>".toList
  | .stop e => s!"</{e.name}>".toList
  | .bare => "<a>".toList
  | .first name => "<a".toList ++ name.opening
  | .next name => "\"".toList ++ name.opening
  | .close => "\">".toList
  | .anchorEnd => "</a>".toList

def Sign.html (m : Markupsafe) : Sign → Text
  | .char c => m.escapeChar c
  | sign => sign.tag

def Sign.bracket : Sign → Option (Bracket (Option Element))
  | .start e => some (.start (some e))
  | .stop e => some (.stop (some e))
  | .bare | .first _ => some (.start none)
  | .anchorEnd => some (.stop none)
  | .char _ | .next _ | .close => none

def signChars (text : Text) : List Sign := text.map .char

def Attributes.signs (attributes : Attributes) : List Sign :=
  match attributes.values with
  | [] => [.bare]
  | (name, value) :: more =>
    .first name :: signChars value ++
      more.flatMap (fun pair => .next pair.1 :: signChars pair.2) ++ [.close]

def Token.signs : Token → List Sign
  | .char c => [.char c]
  | .start e => [.start e]
  | .stop e => [.stop e]
  | .anchor attributes => attributes.signs
  | .anchorEnd => [.anchorEnd]

def Mark.signs : Mark → List Sign
  | .char c => [.char c]
  | .start e => [.start e]
  | .stop e => [.stop e]
  | .address secure => .first .href :: signChars (scheme secure).toList
  | .label =>
    .next .target :: signChars "_blank".toList ++ .next .rel :: signChars "noopener".toList ++
      [.close]
  | .linkEnd => [.anchorEnd]

section

variable {m : Markupsafe} {c d : Char} {tokens : List Token} {marks inner after : List Mark}

theorem signChars_html (text : Text) : (signChars text).flatMap (Sign.html m) = m.escape text := by
  rw [signChars, List.flatMap_map]
  exact (escape_eq text).symm

theorem mark_signs_html (mark : Mark) : mark.signs.flatMap (Sign.html m) = mark.html m := by
  cases mark with
  | char c => exact List.append_nil _
  | start e => exact List.append_nil _
  | stop e => exact List.append_nil _
  | address secure =>
    rw [Mark.signs, List.flatMap_cons, signChars_html, escape_of_forall (scheme_plain secure)]
    change Sign.tag (.first .href) ++ _ = (Mark.address secure).tag
    cases secure <;> decide
  | label =>
    have hblank : m.escape "_blank".toList = "_blank".toList :=
      escape_of_forall (forall_of_all (by decide))
    have hopener : m.escape "noopener".toList = "noopener".toList :=
      escape_of_forall (forall_of_all (by decide))
    simp only [Mark.signs, List.flatMap_append, List.flatMap_cons, List.flatMap_nil,
      signChars_html, hblank, hopener, List.cons_append]
    change Sign.tag (.next .target) ++ ("_blank".toList ++ (Sign.tag (.next .rel) ++
      ("noopener".toList ++ (Sign.tag .close ++ [])))) = Mark.label.tag
    decide
  | linkEnd => exact List.append_nil _

theorem token_signs_html (token : Token) : token.signs.flatMap (Sign.html m) = token.html m := by
  cases token with
  | char c => exact List.append_nil _
  | start e => exact List.append_nil _
  | stop e => exact List.append_nil _
  | anchorEnd => exact List.append_nil _
  | anchor attributes =>
    have hclose : Sign.close.html m = "\"".toList ++ ">".toList := by
      change Sign.close.tag = _
      decide
    -- the quote that ends a value is part of the sign after it
    have hmore : ∀ more : List (Attribute × Text),
        (more.flatMap fun pair => .next pair.1 :: signChars pair.2).flatMap (Sign.html m) ++
          "\"".toList = "\"".toList ++ more.flatMap (attributeHtml m) := by
      intro more
      induction more with
      | nil => rfl
      | cons pair more ih =>
        simp only [List.flatMap_cons, List.flatMap_append, List.append_assoc, signChars_html,
          Sign.html, Sign.tag, ih, attributeHtml, List.cons_append]
    obtain ⟨values, hnodup, hweb⟩ := attributes
    cases values with
    | nil =>
      change (Sign.bare.tag ++ [] : Text) = "<a".toList ++ [] ++ ">".toList
      decide
    | cons pair more =>
      have hquote := hmore more
      simp only [Token.signs, Attributes.signs, Token.html, List.cons_append, List.flatMap_cons,
        List.flatMap_append, List.flatMap_nil, List.append_nil, signChars_html, hclose,
        attributeHtml, List.append_assoc]
      rw [← List.append_assoc _ "\"".toList, hquote]
      simp only [Sign.html, Sign.tag, List.append_assoc]

/-! ### Reading signs back -/

def tags : List Sign :=
  [.bare, .close, .anchorEnd] ++
    [Attribute.href, .target, .rel].flatMap (fun name => [.first name, .next name]) ++
      [Element.h3, .p, .ul, .li, .strong, .code].flatMap fun e => [.start e, .stop e]

theorem char_or_tag (sign : Sign) : (∃ c, sign = .char c) ∨ sign ∈ tags := by
  cases sign with
  | char c => exact .inl ⟨c, rfl⟩
  | start e => exact .inr (by cases e <;> decide)
  | stop e => exact .inr (by cases e <;> decide)
  | first name => exact .inr (by cases name <;> decide)
  | next name => exact .inr (by cases name <;> decide)
  | bare => exact .inr (by decide)
  | close => exact .inr (by decide)
  | anchorEnd => exact .inr (by decide)

theorem notMem_escapeChar (hd : d = '<' ∨ d = '"') : d ∉ m.escapeChar c := by
  intro hmem
  rcases mem_escapeChar hmem with ⟨rfl, hplain⟩ | hentity
  · refine hplain ?_
    rcases hd with rfl | rfl <;> decide
  · revert hentity
    rcases hd with rfl | rfl <;> decide

theorem reference_unique {name name' rest : Text} (hname : ∀ c ∈ name, isNameChar c = true)
    (hname' : ∀ c ∈ name', isNameChar c = true)
    (h : name ++ ';' :: rest = name' ++ [';']) : name = name' := by
  have hend : ∀ {name : Text}, (∀ c ∈ name, isNameChar c = true) → ';' ∉ name :=
    fun hchars hmem => absurd (hchars _ hmem) (by decide)
  exact eq_of_split h (hend hname) (hend hname')

theorem escapeChar_begins (h : m.escapeChar c <+: m.escapeChar d) : c = d := by
  by_cases hc : c ∈ special
  · obtain ⟨name, hwritten, hname⟩ := m.escape_special c hc
    by_cases hd : d ∈ special
    · obtain ⟨name', hwritten', hname'⟩ := m.escape_special d hd
      rw [Markupsafe.escapeChar, Markupsafe.escapeChar, hwritten, hwritten'] at h
      obtain ⟨rest, hrest⟩ := (List.cons_prefix_cons.mp h).2
      rw [List.append_assoc] at hrest
      obtain rfl := reference_unique hname hname' hrest
      exact m.escape_distinct c hc d hd (hwritten.trans hwritten'.symm)
    · rw [Markupsafe.escapeChar, hwritten, escapeChar_plain hd] at h
      have hrest := List.prefix_nil.mp (List.cons_prefix_cons.mp h).2
      exact absurd hrest (by simp)
  · rw [escapeChar_plain hc] at h
    by_cases hd : d ∈ special
    · obtain ⟨name', hwritten', -⟩ := m.escape_special d hd
      rw [Markupsafe.escapeChar, hwritten'] at h
      obtain rfl := (List.cons_prefix_cons.mp h).1
      exact absurd (by decide) hc
    · rw [escapeChar_plain hd] at h
      exact (List.cons_prefix_cons.mp h).1

theorem html_of_tag {sign : Sign} (h : sign ∈ tags) : sign.html m = sign.tag := by
  cases sign with
  | char c => simp [tags] at h
  | _ => rfl

theorem tag_starts : ∀ tag ∈ tags, ∃ d rest, (d = '<' ∨ d = '"') ∧ tag.html m = d :: rest := by
  have hhead : ∀ tag ∈ tags, tag.tag.head? = some '<' ∨ tag.tag.head? = some '"' :=
    forall_of_all (by decide)
  intro tag htag
  rw [html_of_tag htag]
  rcases hhead tag htag with h | h
  · exact ⟨'<', _, .inl rfl, List.eq_cons_of_mem_head? h⟩
  · exact ⟨'"', _, .inr rfl, List.eq_cons_of_mem_head? h⟩

theorem sign_begins (sign sign' : Sign) (h : sign.html m <+: sign'.html m) : sign = sign' := by
  rcases char_or_tag sign with ⟨c, rfl⟩ | htag <;> rcases char_or_tag sign' with ⟨c', rfl⟩ | htag'
  · rw [escapeChar_begins h]
  · obtain ⟨d, rest, hd, hhtml⟩ := tag_starts (m := m) sign' htag'
    obtain ⟨first, more, hchar⟩ := List.exists_cons_of_ne_nil (escapeChar_ne_nil (m := m) c)
    have hstart : first :: more <+: d :: rest := by
      rw [← hchar, ← hhtml]
      exact h
    obtain ⟨rfl, -⟩ := List.cons_prefix_cons.mp hstart
    exact absurd (by rw [hchar]; exact List.mem_cons_self) (notMem_escapeChar (m := m) (c := c) hd)
  · obtain ⟨d, rest, hd, hhtml⟩ := tag_starts (m := m) sign htag
    refine absurd (h.subset ?_) (notMem_escapeChar (m := m) (c := c') hd)
    rw [hhtml]
    exact List.mem_cons_self
  · have htags : ∀ tag ∈ tags, ∀ tag' ∈ tags, tag.tag <+: tag'.tag → tag = tag' := by
      decide
    rw [html_of_tag htag, html_of_tag htag'] at h
    exact htags sign htag sign' htag' h

theorem sign_html_ne_nil (sign : Sign) : sign.html m ≠ [] := by
  rcases char_or_tag sign with ⟨c, rfl⟩ | htag
  · exact escapeChar_ne_nil c
  · obtain ⟨d, rest, -, hhtml⟩ := tag_starts (m := m) sign htag
    rw [hhtml]
    exact List.cons_ne_nil _ _

theorem signs_eq {tokens : List Token} {marks : List Mark}
    (h : tokens.flatMap (Token.html m) = marks.flatMap (Mark.html m)) :
    tokens.flatMap Token.signs = marks.flatMap Mark.signs := by
  refine flatMap_injective (sign_begins (m := m)) sign_html_ne_nil ?_
  rw [List.flatMap_assoc, List.flatMap_assoc]
  simp only [token_signs_html, mark_signs_html]
  exact h

/-! ### Tokens of a row of marks -/

def Sign.Separates : Sign → Prop
  | .next _ | .close => True
  | _ => False

theorem anchor_signs {attributes : Attributes} {name : Attribute}
    (h : .first name ∈ attributes.signs) : ∃ value sign more,
      attributes.signs = .first name :: (signChars value ++ sign :: more) ∧ sign.Separates ∧
        .first name ∉ signChars value ++ sign :: more := by
  unfold Attributes.signs at h ⊢
  split at h
  · simp at h
  · rename_i name' value more hvalues
    obtain rfl : name' = name := by
      simpa [signChars, eq_comm] using h
    cases more with
    | nil => exact ⟨value, .close, [], by simp, trivial, by simp [signChars]⟩
    | cons pair more =>
      refine ⟨value, .next pair.1, signChars pair.2 ++
        more.flatMap (fun pair => .next pair.1 :: signChars pair.2) ++ [.close], ?_, trivial, ?_⟩
      · simp
      · simp [signChars]

def Written (marks : List Mark) : Prop :=
  ∃ tokens : List Token, tokens.flatMap Token.signs = marks.flatMap Mark.signs

theorem Written.append (h : Written marks) (h' : Written after) : Written (marks ++ after) := by
  obtain ⟨tokens, htokens⟩ := h
  obtain ⟨tokens', htokens'⟩ := h'
  refine ⟨tokens ++ tokens', ?_⟩
  rw [List.flatMap_append, List.flatMap_append, htokens, htokens']

def PlainAddresses (marks : List Mark) : Prop :=
  ∀ before secure inner after, marks = before ++ .address secure :: inner ++ .label :: after →
    .label ∉ inner → ∀ mark ∈ inner, ∃ c, mark = .char c

theorem not_separates (h : .label ∉ inner) :
    ∀ sign ∈ inner.flatMap Mark.signs, ¬ sign.Separates := by
  intro sign hsign
  obtain ⟨mark, hmark, hmem⟩ := List.mem_flatMap.mp hsign
  cases mark with
  | label => exact absurd hmark h
  | address secure =>
    rcases List.mem_cons.mp hmem with rfl | hmem
    · exact id
    · obtain ⟨c, -, rfl⟩ := List.mem_map.mp hmem
      exact id
  | _ =>
    rw [List.mem_singleton.mp hmem]
    exact id

theorem char_of_signs {mark : Mark} (h : ∀ sign ∈ mark.signs, ∃ c, sign = .char c) :
    ∃ c, mark = .char c := by
  cases mark with
  | char c => exact ⟨c, rfl⟩
  | _ =>
    obtain ⟨c, hc⟩ := h _ List.mem_cons_self
    cases hc

theorem plainAddresses_of_written (h : Written marks) : PlainAddresses marks := by
  obtain ⟨tokens, h⟩ := h
  rintro before secure inner after rfl hlabel
  have hsplit : tokens.flatMap Token.signs = before.flatMap Mark.signs ++ .first .href ::
      (signChars (scheme secure).toList ++ inner.flatMap Mark.signs ++ .next .target ::
        (signChars "_blank".toList ++ .next .rel :: signChars "noopener".toList ++ [.close] ++
          after.flatMap Mark.signs)) := by
    simp only [h, List.flatMap_append, List.flatMap_cons, Mark.signs, List.cons_append,
      List.append_assoc]
  have hstart : ∀ token : Token, .first .href ∈ token.signs → ∃ tail,
      token.signs = .first .href :: tail ∧ .first .href ∉ tail := by
    intro token hmem
    cases token with
    | anchor attributes =>
      obtain ⟨value, sign, more, hsigns, -, hnot⟩ := anchor_signs hmem
      exact ⟨_, hsigns, hnot⟩
    | _ => cases List.mem_singleton.mp hmem
  -- the address is the value of one tag of the grammar
  obtain ⟨before', token, tail, after', -, htoken, -, htail⟩ := flatMap_split_start hstart hsplit
  obtain ⟨value, sign, more, rfl, hsign⟩ : ∃ value sign more,
      tail = signChars value ++ sign :: more ∧ sign.Separates := by
    cases token with
    | anchor attributes =>
      have hmem : .first .href ∈ attributes.signs := by
        change _ ∈ (Token.anchor attributes).signs
        rw [htoken]
        exact List.mem_cons_self
      obtain ⟨value, sign, more, hsigns, hsign, -⟩ := anchor_signs hmem
      refine ⟨value, sign, more, ?_, hsign⟩
      exact (List.cons.inj (htoken.symm.trans hsigns)).2
    | _ => cases htoken
  rw [List.append_assoc (signChars value), List.cons_append] at htail
  have hchars : ∀ text, ∀ sign ∈ signChars text, ¬ Sign.Separates sign := by
    intro text sign hmem
    obtain ⟨c, -, rfl⟩ := List.mem_map.mp hmem
    exact id
  -- both end at the first sign that separates, and before it are only characters
  have hvalue := eq_of_first (P := Sign.Separates) htail trivial hsign
    (List.forall_mem_append.mpr ⟨hchars _, not_separates hlabel⟩) (hchars value)
  intro mark hmark
  refine char_of_signs fun sign hmem => ?_
  have hin : sign ∈ signChars value := by
    rw [← hvalue]
    exact List.mem_append_right _ (List.mem_flatMap.mpr ⟨mark, hmark, hmem⟩)
  obtain ⟨c, -, rfl⟩ := List.mem_map.mp hin
  exact ⟨c, rfl⟩

def Mark.turn : Mark → Option (Bracket Unit)
  | .address _ => some (.start ())
  | .label => some (.stop ())
  | _ => none

def Linked (marks : List Mark) : Prop := Whole () (marks.filterMap Mark.turn)

def linkValues (secure : Bool) (more : Text) : List (Attribute × Text) :=
  [(.href, (scheme secure).toList ++ more), (.target, "_blank".toList), (.rel, "noopener".toList)]

theorem linkValues_nodup (secure : Bool) (more : Text) :
    ((linkValues secure more).map Prod.fst).Nodup := by
  change [Attribute.href, .target, .rel].Nodup
  decide

theorem linkValues_web (secure : Bool) (more : Text) (url : Text)
    (h : (.href, url) ∈ linkValues secure more) :
    ∃ secure more, url = (scheme secure).toList ++ more := by
  refine ⟨secure, more, ?_⟩
  simpa [linkValues] using h

def linkAttributes (secure : Bool) (more : Text) : Attributes :=
  ⟨linkValues secure more, linkValues_nodup secure more, linkValues_web secure more⟩

theorem link_signs (secure : Bool) (more : Text) : (linkAttributes secure more).signs =
    (.address secure :: chars more ++ [Mark.label]).flatMap Mark.signs := by
  have hchars : (chars more).flatMap Mark.signs = signChars more := by
    rw [chars, List.flatMap_map]
    exact List.map_eq_flatMap.symm
  have hsplit : signChars ((scheme secure).toList ++ more) =
      signChars (scheme secure).toList ++ signChars more := List.map_append
  simp only [Attributes.signs, linkAttributes, linkValues, List.cons_append, List.flatMap_cons,
    List.flatMap_append, List.flatMap_nil, List.append_nil, hchars, hsplit, Mark.signs,
    List.append_assoc]

theorem linked_address {secure : Bool} (h : Linked (.address secure :: marks)) :
    ∃ inner after, marks = inner ++ .label :: after ∧ .label ∉ inner ∧ Linked after := by
  have hopen : alternates () true (marks.filterMap Mark.turn) = true := h
  obtain ⟨turns, turns', hturns, hfree, hafter⟩ := exists_stop hopen
  obtain ⟨inner, rest, rfl, rfl, hrest⟩ := List.filterMap_eq_append_iff.mp hturns
  obtain ⟨passed, mark, after, rfl, hpassed, hmark, rfl⟩ := List.filterMap_eq_cons_iff.mp hrest
  have hlabel : mark = .label := by
    cases mark with
    | label => rfl
    | _ => cases hmark
  subst hlabel
  refine ⟨inner ++ passed, after, by simp, ?_, hafter⟩
  intro hmem
  rcases List.mem_append.mp hmem with hmem | hmem
  · exact hfree _ (List.mem_filterMap.mpr ⟨.label, hmem, rfl⟩) rfl
  · cases hpassed _ hmem

theorem exists_chars (h : ∀ mark ∈ marks, ∃ c, mark = .char c) : ∃ text, marks = chars text := by
  induction marks with
  | nil => exact ⟨[], rfl⟩
  | cons mark marks ih =>
    obtain ⟨⟨c, rfl⟩, hrest⟩ := List.forall_mem_cons.mp h
    obtain ⟨text, rfl⟩ := ih hrest
    exact ⟨c :: text, rfl⟩

theorem written_of_plainAddresses (hlinked : Linked marks) (hplain : PlainAddresses marks) :
    Written marks := by
  induction hlength : marks.length using Nat.strong_induction_on generalizing marks with
  | _ n ih =>
    cases marks with
    | nil => exact ⟨[], rfl⟩
    | cons mark marks =>
      have hlater : ∀ before rest, mark :: marks = before ++ rest → before ≠ [] → Linked rest →
          Written rest := by
        intro before rest hsplit hne hrest
        refine ih rest.length ?_ hrest ?_ rfl
        · have hbefore := List.length_pos_iff.mpr hne
          rw [← hlength, hsplit, List.length_append]
          omega
        · intro before' secure inner after heq
          refine hplain (before ++ before') secure inner after ?_
          rw [hsplit, heq]
          simp
      have hstep : ∀ token : Token, token.signs = mark.signs → Linked marks →
          Written (mark :: marks) := by
        intro token htoken hrest
        obtain ⟨tokens, htokens⟩ := hlater [mark] marks rfl (List.cons_ne_nil _ _) hrest
        refine ⟨token :: tokens, ?_⟩
        rw [List.flatMap_cons, List.flatMap_cons, htoken, htokens]
      cases mark with
      | char c => exact hstep (.char c) rfl hlinked
      | start e => exact hstep (.start e) rfl hlinked
      | stop e => exact hstep (.stop e) rfl hlinked
      | linkEnd => exact hstep .anchorEnd rfl hlinked
      | label => cases hlinked
      | address secure =>
        obtain ⟨inner, after, rfl, hlabel, hafter⟩ := linked_address hlinked
        have hinner := hplain [] secure inner after rfl hlabel
        obtain ⟨more, rfl⟩ := exists_chars hinner
        obtain ⟨tokens, htokens⟩ := hlater (.address secure :: chars more ++ [.label]) after
          (by simp) (List.cons_ne_nil _ _) hafter
        refine ⟨.anchor (linkAttributes secure more) :: tokens, ?_⟩
        rw [List.flatMap_cons, htokens]
        change (linkAttributes secure more).signs ++ _ = _
        rw [link_signs, ← List.flatMap_append]
        simp

/-! ### Brackets -/

/-- What a mark opens or closes: a link from its address to its end. -/
def Mark.bracket : Mark → Option (Bracket (Option Element))
  | .start e => some (.start (some e))
  | .stop e => some (.stop (some e))
  | .address _ => some (.start none)
  | .linkEnd => some (.stop none)
  | .char _ | .label => none

theorem filterMap_flatMap_of_forall {α β κ : Type} {write : α → List β} {f : β → Option κ}
    {g : α → Option κ} (h : ∀ a, (write a).filterMap f = (g a).toList) (items : List α) :
    (items.flatMap write).filterMap f = items.filterMap g := by
  induction items with
  | nil => rfl
  | cons a items ih =>
    rw [List.flatMap_cons, List.filterMap_append, h, ih, List.filterMap_cons]
    cases g a <;> rfl

theorem signChars_brackets (text : Text) : (signChars text).filterMap Sign.bracket = [] := by
  rw [List.filterMap_eq_nil_iff]
  intro sign hmem
  obtain ⟨c, -, rfl⟩ := List.mem_map.mp hmem
  rfl

theorem mark_brackets (marks : List Mark) :
    (marks.flatMap Mark.signs).filterMap Sign.bracket = marks.filterMap Mark.bracket := by
  refine filterMap_flatMap_of_forall (fun mark => ?_) marks
  cases mark with
  | address secure => cases secure <;> decide
  | label => decide
  | _ => rfl

theorem token_brackets (tokens : List Token) :
    (tokens.flatMap Token.signs).filterMap Sign.bracket = tokens.filterMap Token.bracket := by
  refine filterMap_flatMap_of_forall (fun token => ?_) tokens
  cases token with
  | anchor attributes =>
    change attributes.signs.filterMap Sign.bracket = [.start none]
    unfold Attributes.signs
    split
    · rfl
    · rename_i name value more hvalues
      have hmore : ∀ pairs : List (Attribute × Text),
          (pairs.flatMap fun pair => .next pair.1 :: signChars pair.2).filterMap Sign.bracket =
            [] := by
        intro pairs
        induction pairs with
        | nil => rfl
        | cons pair pairs ih =>
          rw [List.flatMap_cons, List.filterMap_append, ih, List.append_nil]
          exact signChars_brackets pair.2
      have hfirst : (Sign.first name).bracket = some (.start none) := rfl
      rw [List.filterMap_append, List.cons_append, List.filterMap_cons_some hfirst,
        List.filterMap_append, signChars_brackets, hmore]
      rfl
  | _ => rfl

/-! ### What is shown -/

/-- The characters that signs show, in the order of the notes; in a value they are pending. -/
def signsTold : Bool → Text → List Sign → Text
  | _, pending, [] => pending
  | true, pending, .char c :: signs => signsTold true (pending ++ [c]) signs
  | false, pending, .char c :: signs => c :: signsTold false pending signs
  | _, pending, .first _ :: signs => signsTold true pending signs
  | _, pending, .close :: signs => signsTold false pending signs
  | inValue, pending, .anchorEnd :: signs => pending ++ signsTold inValue [] signs
  | inValue, pending, .next _ :: signs => signsTold inValue pending signs
  | inValue, pending, .bare :: signs => signsTold inValue pending signs
  | inValue, pending, .start _ :: signs => signsTold inValue pending signs
  | inValue, pending, .stop _ :: signs => signsTold inValue pending signs

theorem signsTold_value (value pending : Text) (signs : List Sign) :
    signsTold true pending (signChars value ++ signs) =
      signsTold true (pending ++ value) signs := by
  induction value generalizing pending with
  | nil =>
    rw [List.append_nil]
    rfl
  | cons c value ih =>
    refine (ih (pending ++ [c])).trans ?_
    rw [List.append_assoc]
    rfl

theorem signsTold_values (more : List (Attribute × Text)) (pending : Text) (signs : List Sign) :
    signsTold true pending
        (more.flatMap (fun pair => .next pair.1 :: signChars pair.2) ++ .close :: signs) =
      signsTold false (pending ++ more.flatMap Prod.snd) signs := by
  induction more generalizing pending with
  | nil =>
    change signsTold false pending signs = signsTold false (pending ++ []) signs
    rw [List.append_nil]
  | cons pair more ih =>
    rw [List.flatMap_cons, List.flatMap_cons, List.cons_append, List.cons_append,
      List.append_assoc, ← List.append_assoc pending]
    exact (signsTold_value pair.2 pending _).trans (ih _)

theorem signsTold_tokens (tokens : List Token) (pending : Text) :
    signsTold false pending (tokens.flatMap Token.signs) = told pending tokens := by
  induction tokens generalizing pending with
  | nil => rfl
  | cons token tokens ih =>
    cases token with
    | char c => exact congrArg (c :: ·) (ih pending)
    | start e => exact ih pending
    | stop e => exact ih pending
    | anchorEnd => exact congrArg (pending ++ ·) (ih [])
    | anchor attributes =>
      rw [List.flatMap_cons]
      simp only [Token.signs, Attributes.signs, told]
      cases hvalues : attributes.values with
      | nil =>
        rw [List.flatMap_nil, List.append_nil]
        exact ih pending
      | cons pair more =>
        simp only [List.cons_append, List.append_assoc, List.nil_append, List.flatMap_cons]
        refine (signsTold_value pair.2 pending _).trans ?_
        rw [signsTold_values, ih, List.append_assoc]

/-! ### Which marks are safe -/

theorem safeHtml_iff {notes : Text} : SafeHtml m notes (marks.flatMap (Mark.html m)) ↔
    Written marks ∧ Nested (marks.filterMap Mark.bracket) ∧
      specials (signsTold false [] (marks.flatMap Mark.signs)) = specials notes := by
  constructor
  · rintro ⟨tokens, hhtml, hnested, htold⟩
    have hsigns := signs_eq hhtml
    rw [← token_brackets, hsigns, mark_brackets] at hnested
    rw [← signsTold_tokens, hsigns] at htold
    exact ⟨⟨tokens, hsigns⟩, hnested, htold⟩
  · rintro ⟨⟨tokens, hsigns⟩, hnested, htold⟩
    rw [← mark_brackets, ← hsigns, token_brackets] at hnested
    rw [← hsigns, signsTold_tokens] at htold
    refine ⟨tokens, ?_, hnested, htold⟩
    have hhtml := congrArg (List.flatMap (Sign.html m)) hsigns
    rw [List.flatMap_assoc, List.flatMap_assoc] at hhtml
    simpa only [token_signs_html, mark_signs_html] using hhtml

end

end ReleaseNotes
