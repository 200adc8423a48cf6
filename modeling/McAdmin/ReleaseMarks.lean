import McAdmin.Brackets
import McAdmin.ReleaseNotes

/-!
# The marks of a text

A text is a row of characters and marks: where a link's address and label begin and where the link
ends, and where bold text and code begin and end.  The HTML of a text writes its row.
-/

namespace ReleaseNotes

open Backtracking Brackets Substitution

inductive Element where
  | h3
  | p
  | ul
  | li
  | strong
  | code
deriving DecidableEq

def Element.name : Element → String
  | .h3 => "h3"
  | .p => "p"
  | .ul => "ul"
  | .li => "li"
  | .strong => "strong"
  | .code => "code"

inductive Mark where
  | char (c : Char)
  | start (e : Element)
  | stop (e : Element)
  /-- The address of a link begins, with its scheme: `https://` or `http://`. -/
  | address (secure : Bool)
  | label
  | linkEnd
deriving DecidableEq

def scheme (secure : Bool) : String := if secure then "https://" else "http://"

def Mark.tag : Mark → Text
  | .char _ => []
  | .start e => s!"<{e.name}>".toList
  | .stop e => s!"</{e.name}>".toList
  | .address secure => s!"<a href=\"{scheme secure}".toList
  | .label => "\" target=\"_blank\" rel=\"noopener\">".toList
  | .linkEnd => "</a>".toList

def Mark.html (m : Markupsafe) : Mark → Text
  | .char c => m.escapeChar c
  | mark => mark.tag

def chars (text : Text) : List Mark := text.map .char

/-! ### The row of a text -/

section

variable (u : CharTable)

def splitScheme (url : Text) : Bool × Text :=
  if "https://".toList <+: url then (true, url.drop 8) else (false, url.drop 7)

/-- A link at the start of a text: its address comes before its label. -/
def linkMarks (text : Text) : Option (List Mark × ℕ) :=
  ((linkRe u).atStart text).map fun found =>
    (.address (splitScheme (found.group 2)).1 :: chars (splitScheme (found.group 2)).2 ++
        .label :: chars (found.group 1) ++ [.linkEnd],
      found.text.length)

def star : Mark := .char '*'

def quote : Mark := .char backquote

/-- What comes before the next two stars, at least one mark. -/
def untilStars : List Mark → Option (List Mark)
  | [] => none
  | mark :: row =>
    if [star, star] <+: row then some [mark] else (untilStars row).map (mark :: ·)

def boldMarks (row : List Mark) : Option (List Mark × ℕ) :=
  if [star, star] <+: row then
    (untilStars (row.drop 2)).map fun inner =>
      (.start .strong :: inner ++ [.stop .strong], inner.length + 4)
  else none

def codeMarks (row : List Mark) : Option (List Mark × ℕ) :=
  let inner := (row.drop 1).takeWhile (· ≠ quote)
  if [quote] <+: row ∧ inner ≠ [] ∧ [quote] <+: row.drop (inner.length + 1) then
    some (.start .code :: inner ++ [.stop .code], inner.length + 2)
  else none

def linkRow (text : Text) : List Mark := scan (linkMarks u) .char 0 text

def boldRow (text : Text) : List Mark := scan boldMarks id 0 (linkRow u text)

/-- A text, with its links, its bold text and its code. -/
def row (text : Text) : List Mark := scan codeMarks id 0 (boldRow u text)

end

/-! ### Characters that are escaped -/

section

variable {m : Markupsafe} {u : CharTable} {c d : Char} {t t' text label url rest y : Text}
  {mark : Mark} {marks marks' inner after : List Mark}

theorem escape_eq (text : Text) : m.escape text = text.flatMap m.escapeChar := m.escape_each text

def isEntityChar (c : Char) : Bool := c == '&' || c == ';' || isNameChar c

theorem special_shown : ∀ c ∈ special, 32 < c.toNat ∧ c.toNat < 128 ∧ c ≠ ')' ∧ c ≠ ']' :=
  forall_of_all (by decide)

theorem isNameChar_shown (h : isNameChar c = true) : 32 < c.toNat ∧ c.toNat < 128 := by
  have hcases : (((c.isUpper || c.isLower) || c.isDigit) || c == '#') = true := h
  rw [Bool.or_eq_true, Bool.or_eq_true, Bool.or_eq_true, beq_iff_eq] at hcases
  rw [← Char.toNat_val]
  rcases hcases with ((h | h) | h) | rfl
  · have hupper : 65 ≤ c.val.toNat ∧ c.val.toNat ≤ 90 := of_decide_eq_true h
    omega
  · obtain ⟨hfirst, hlast⟩ := Bool.and_eq_true_iff.mp h
    have hlower : 97 ≤ c.val.toNat ∧ c.val.toNat ≤ 122 :=
      ⟨of_decide_eq_true hfirst, of_decide_eq_true hlast⟩
    omega
  · have hdigit : 48 ≤ c.val.toNat ∧ c.val.toNat ≤ 57 := Char.isDigit_iff_toNat.mp h
    omega
  · decide

theorem isEntityChar_shown (h : isEntityChar c = true) : 32 < c.toNat ∧ c.toNat < 128 := by
  rw [isEntityChar, Bool.or_eq_true, Bool.or_eq_true, beq_iff_eq, beq_iff_eq] at h
  rcases h with (rfl | rfl) | h
  · decide
  · decide
  · exact isNameChar_shown h

theorem ne_of_isEntityChar (hd : isEntityChar d = false) (h : isEntityChar c = true) : c ≠ d := by
  rintro rfl
  rw [hd] at h
  cases h

theorem escapeChar_plain (h : c ∉ special) : m.escapeChar c = [c] := m.escape_plain c h

theorem mem_escapeChar (h : d ∈ m.escapeChar c) :
    (d = c ∧ c ∉ special) ∨ isEntityChar d = true := by
  by_cases hc : c ∈ special
  · obtain ⟨name, hname, hchars⟩ := m.escape_special c hc
    rw [Markupsafe.escapeChar, hname] at h
    refine .inr ?_
    rcases List.mem_cons.mp h with rfl | h
    · rfl
    · rcases List.mem_append.mp h with h | h
      · rw [isEntityChar, hchars d h, Bool.or_true]
      · rw [List.mem_singleton.mp h]
        rfl
  · rw [escapeChar_plain hc] at h
    exact .inl ⟨List.mem_singleton.mp h, hc⟩

theorem escapeChar_ne_nil (c : Char) : m.escapeChar c ≠ [] := by
  by_cases hc : c ∈ special
  · obtain ⟨name, hname, -⟩ := m.escape_special c hc
    rw [Markupsafe.escapeChar, hname]
    exact List.cons_ne_nil _ _
  · rw [escapeChar_plain hc]
    exact List.cons_ne_nil _ _

theorem mem_escapeChar_of_plain (hd : isEntityChar d = false) (h : d ∈ m.escapeChar c) :
    c = d := by
  rcases mem_escapeChar h with ⟨rfl, -⟩ | hentity
  · rfl
  · rw [hd] at hentity
    cases hentity

theorem escape_split (hd : d ∉ special) (hentity : isEntityChar d = false)
    (h : m.escape t = t' ++ d :: y) : ∃ before after, t = before ++ d :: after ∧
      m.escape before = t' ∧ m.escape after = y := by
  rw [escape_eq] at h
  simp only [escape_eq]
  exact flatMap_split (escapeChar_plain hd) (fun _ => mem_escapeChar_of_plain hentity) h

theorem escape_nil : m.escape [] = [] := escape_eq []

theorem escape_cons_eq (c : Char) (t : Text) : m.escape (c :: t) = m.escapeChar c ++ m.escape t := by
  rw [escape_eq, escape_eq, List.flatMap_cons]

theorem escape_cons (hc : c ≠ '&') (h : m.escape t = c :: y) :
    ∃ t', t = c :: t' ∧ m.escape t' = y := by
  cases t with
  | nil =>
    rw [escape_nil] at h
    cases h
  | cons a t =>
    rw [escape_cons_eq] at h
    by_cases ha : a ∈ special
    · obtain ⟨name, hname, -⟩ := m.escape_special a ha
      rw [Markupsafe.escapeChar, hname] at h
      exact absurd (List.cons.inj h).1.symm hc
    · rw [escapeChar_plain ha] at h
      obtain ⟨rfl, hrest⟩ := List.cons.inj h
      exact ⟨t, rfl, hrest⟩

theorem escape_append {literal : Text} (hliteral : '&' ∉ literal)
    (h : m.escape t = literal ++ y) : ∃ t', t = literal ++ t' ∧ m.escape t' = y := by
  induction literal generalizing t with
  | nil => exact ⟨t, rfl, h⟩
  | cons c literal ih =>
    obtain ⟨t', rfl, hrest⟩ := escape_cons (by
      rintro rfl
      exact hliteral List.mem_cons_self) h
    obtain ⟨t'', rfl, hy⟩ := ih (List.not_mem_of_not_mem_cons hliteral) hrest
    exact ⟨t'', rfl, hy⟩

theorem escape_append_eq (t t' : Text) : m.escape (t ++ t') = m.escape t ++ m.escape t' := by
  simp only [escape_eq, List.flatMap_append]

theorem escape_of_forall (h : ∀ c ∈ t, c ∉ special) : m.escape t = t := by
  induction t with
  | nil => exact escape_nil
  | cons c t ih =>
    obtain ⟨hc, ht⟩ := List.forall_mem_cons.mp h
    rw [escape_cons_eq, escapeChar_plain hc, ih ht]
    rfl

theorem escape_ne_nil (h : t ≠ []) : m.escape t ≠ [] := by
  obtain ⟨c, t, rfl⟩ := List.exists_cons_of_ne_nil h
  rw [escape_cons_eq]
  exact List.append_ne_nil_of_left_ne_nil (escapeChar_ne_nil c) _

theorem mem_escape : d ∈ m.escape t ↔ ∃ c ∈ t, d ∈ m.escapeChar c := by
  rw [escape_eq, List.mem_flatMap]

theorem forall_escape {p : Char → Bool} (hentity : ∀ c, isEntityChar c = true → p c = true)
    (h : ∀ c ∈ t, p c = true) : ∀ c ∈ m.escape t, p c = true := by
  intro d hd
  obtain ⟨c, hc, hmem⟩ := mem_escape.mp hd
  rcases mem_escapeChar hmem with ⟨rfl, -⟩ | hin
  · exact h _ hc
  · exact hentity d hin

theorem forall_of_escape {p : Char → Bool} (hspecial : ∀ c ∈ special, p c = true)
    (h : ∀ c ∈ m.escape t, p c = true) : ∀ c ∈ t, p c = true := by
  intro c hc
  by_cases hmem : c ∈ special
  · exact hspecial c hmem
  · refine h c (mem_escape.mpr ⟨c, hc, ?_⟩)
    rw [escapeChar_plain hmem]
    exact List.mem_singleton_self c

/-! ### Links -/

structure IsLink (u : CharTable) (label url : Text) : Prop where
  label : label ≠ [] ∧ ∀ c ∈ label, isLabelChar c = true
  url : ∃ secure more, url = (scheme secure).toList ++ more ∧ more ≠ [] ∧
    ∀ c ∈ more, isUrlChar u c = true

theorem scheme_eq (secure : Bool) : (scheme secure).toList =
    ['h', 't', 't', 'p'] ++ (if secure then ['s'] else []) ++ [':', '/', '/'] := by
  cases secure <;> decide

theorem mem_hits_lit' {text : Text} {found : Hit} :
    found ∈ (Pattern.lit text).hits t ↔ ∃ rest, t = text ++ rest ∧ found = ⟨text, [], rest⟩ := by
  rw [mem_hits_lit]
  constructor
  · rintro ⟨htext, hcaptures, rfl⟩
    refine ⟨found.rest, rfl, ?_⟩
    rw [← htext, ← hcaptures]
  · rintro ⟨rest, rfl, rfl⟩
    exact ⟨rfl, rfl, rfl⟩

theorem mem_hits_url {found : Hit} : found ∈ (urlRe u).hits t ↔ ∃ secure more rest,
    more ≠ [] ∧ (∀ c ∈ more, isUrlChar u c = true) ∧
      t = (scheme secure).toList ++ more ++ rest ∧
      found = ⟨(scheme secure).toList ++ more, [], rest⟩ := by
  have hhttp : "http".toList = ['h', 't', 't', 'p'] := by decide
  have hs : "s".toList = ['s'] := by decide
  have hcolon : "://".toList = [':', '/', '/'] := by decide
  simp only [urlRe, Pattern.str, mem_hits_append, mem_hits_opt, mem_hits_lit', scheme_eq, hhttp,
    hs, hcolon]
  constructor
  · rintro ⟨_, ⟨rest₁, rfl, rfl⟩, _, ⟨_, hopt, _, ⟨_, ⟨rest₂, hrest, rfl⟩, found', hmore, rfl⟩,
      rfl⟩, rfl⟩
    obtain ⟨hsplit, hcaptures, hchars, hleast, -⟩ := mem_hits_many.mp hmore
    dsimp only at hsplit hopt hrest
    have hne : found'.text ≠ [] := List.ne_nil_of_length_pos hleast
    rcases hopt with ⟨rest₃, rfl, rfl⟩ | rfl
    · refine ⟨true, found'.text, found'.rest, hne, hchars, ?_, ?_⟩
      · simp only at hrest
        rw [hrest, hsplit]
        simp
      · simp [hcaptures]
    · refine ⟨false, found'.text, found'.rest, hne, hchars, ?_, ?_⟩
      · simp only at hrest
        rw [hrest, hsplit]
        simp
      · simp [hcaptures, Pattern.groups]
  · rintro ⟨secure, more, rest, hne, hchars, rfl, rfl⟩
    have hmany : (⟨more, [], rest⟩ : Hit) ∈
        (Pattern.many true (isUrlChar u) 1 none).hits (more ++ rest) :=
      mem_hits_many.mpr ⟨rfl, rfl, hchars, List.length_pos_iff.mpr hne, by simp⟩
    refine ⟨_, ⟨(if secure then ['s'] else []) ++ ([':', '/', '/'] ++ (more ++ rest)), ?_, rfl⟩,
      _, ⟨⟨if secure then ['s'] else [], [], [':', '/', '/'] ++ (more ++ rest)⟩, ?_, _,
        ⟨_, ⟨more ++ rest, rfl, rfl⟩, _, hmany, rfl⟩, rfl⟩, ?_⟩
    · simp only [List.append_assoc]
    · cases secure
      · exact .inr rfl
      · exact .inl ⟨_, rfl, rfl⟩
    · simp

def linkText (label url : Text) : Text := '[' :: label ++ ']' :: '(' :: url ++ [')']

theorem mem_hits_link {found : Hit} : found ∈ (linkRe u).hits t ↔ ∃ label url rest,
    IsLink u label url ∧ t = linkText label url ++ rest ∧
      found = ⟨linkText label url, [some label, some url], rest⟩ := by
  have hopen : "[".toList = ['['] := by decide
  have hmiddle : "](".toList = [']', '('] := by decide
  have hclose : ")".toList = [')'] := by decide
  simp only [linkRe, Pattern.str, mem_hits_append, mem_hits_lit', mem_hits_group, mem_hits_url,
    hopen, hmiddle, hclose]
  constructor
  · rintro ⟨_, ⟨rest₁, rfl, rfl⟩, _, ⟨_, ⟨found', hmany, rfl⟩, _, ⟨_, ⟨rest₂, hrest₂, rfl⟩, _,
      ⟨_, ⟨_, ⟨secure, more, rest₃, hne, hchars, hrest₃, rfl⟩, rfl⟩, _, ⟨rest₄, hrest₄, rfl⟩, rfl⟩,
      rfl⟩, rfl⟩, rfl⟩
    obtain ⟨hsplit, hcaptures, hlabel, hleast, -⟩ := mem_hits_many.mp hmany
    dsimp only at hsplit hrest₂ hrest₃ hrest₄
    refine ⟨found'.text, (scheme secure).toList ++ more, rest₄,
      ⟨⟨List.ne_nil_of_length_pos hleast, hlabel⟩, secure, more, rfl, hne, hchars⟩, ?_, ?_⟩
    · rw [hsplit, hrest₂, hrest₃, hrest₄]
      simp [linkText]
    · simp [linkText, hcaptures]
  · rintro ⟨label, _, rest, ⟨⟨hne, hlabel⟩, secure, more, rfl, hmore, hchars⟩, rfl, rfl⟩
    have hmany :
        (⟨label, [], ']' :: '(' :: ((scheme secure).toList ++ more ++ ')' :: rest)⟩ : Hit) ∈
        (Pattern.many true isLabelChar 1 none).hits
          (label ++ ']' :: '(' :: ((scheme secure).toList ++ more ++ ')' :: rest)) :=
      mem_hits_many.mpr ⟨rfl, rfl, hlabel, List.length_pos_iff.mpr hne, by simp⟩
    refine ⟨_, ⟨_, ?_, rfl⟩, _, ⟨_, ⟨_, hmany, rfl⟩, _, ⟨_, ⟨_, rfl, rfl⟩, _,
      ⟨_, ⟨_, ⟨secure, more, ')' :: rest, hmore, hchars, rfl, rfl⟩, rfl⟩, _, ⟨rest, rfl, rfl⟩, rfl⟩,
      rfl⟩, rfl⟩, ?_⟩
    · simp [linkText]
    · simp [linkText]

theorem IsLink.notMem_label (h : IsLink u label url) : ']' ∉ label := by
  intro hmem
  have hchar := h.label.2 _ hmem
  rw [isLabelChar] at hchar
  simp at hchar

theorem IsLink.notMem_url (h : IsLink u label url) : ')' ∉ url := by
  intro hmem
  obtain ⟨secure, more, rfl, -, hmore⟩ := h.url
  rcases List.mem_append.mp hmem with hmem | hmem
  · rw [scheme_eq] at hmem
    revert hmem
    cases secure <;> decide
  · have hchar := hmore _ hmem
    simp [isUrlChar] at hchar

theorem link_unique {label' url' rest' : Text} (h : IsLink u label url)
    (h' : IsLink u label' url')
    (heq : linkText label url ++ rest = linkText label' url' ++ rest') :
    label = label' ∧ url = url' ∧ rest = rest' := by
  simp only [linkText, List.cons_append, List.append_assoc, List.cons.injEq, true_and] at heq
  obtain rfl := eq_of_split heq h.notMem_label h'.notMem_label
  obtain ⟨-, hafter⟩ := List.cons.inj (List.append_cancel_left heq)
  obtain ⟨-, hafter⟩ := List.cons.inj hafter
  obtain rfl := eq_of_split hafter h.notMem_url h'.notMem_url
  obtain ⟨-, hrest⟩ := List.cons.inj (List.append_cancel_left hafter)
  exact ⟨rfl, rfl, hrest⟩

theorem atStart_link_of_isLink (h : IsLink u label url) :
    (linkRe u).atStart (linkText label url ++ rest) =
      some ⟨linkText label url, [some label, some url], rest⟩ := by
  have hmem : (⟨linkText label url, [some label, some url], rest⟩ : Hit) ∈
      (linkRe u).hits (linkText label url ++ rest) :=
    mem_hits_link.mpr ⟨label, url, rest, h, rfl, rfl⟩
  obtain ⟨found, hfound⟩ := Option.ne_none_iff_exists'.mp (atStart_ne_none.mpr ⟨_, hmem⟩)
  obtain ⟨label', url', rest', h', heq, rfl⟩ := mem_hits_link.mp (List.mem_of_head? hfound)
  obtain ⟨rfl, rfl, rfl⟩ := link_unique h h' heq
  exact hfound

theorem exists_link {found : Hit} (h : (linkRe u).atStart t = some found) : ∃ label url rest,
    IsLink u label url ∧ t = linkText label url ++ rest ∧
      found = ⟨linkText label url, [some label, some url], rest⟩ :=
  mem_hits_link.mp (List.mem_of_head? h)

/-! ### Links in an escaped text -/

theorem isUrlChar_of_shown (hshown : 32 < c.toNat ∧ c.toNat < 128) (hne : c ≠ ')') :
    isUrlChar u c = true := by
  simp [isUrlChar, u.isSpace_of_shown hshown.1 hshown.2, hne]

theorem isUrlChar_entity (h : isEntityChar c = true) : isUrlChar u c = true :=
  isUrlChar_of_shown (isEntityChar_shown h) (ne_of_isEntityChar (by decide) h)

theorem isUrlChar_special (h : c ∈ special) : isUrlChar u c = true := by
  obtain ⟨hlow, hhigh, hne, -⟩ := special_shown c h
  exact isUrlChar_of_shown ⟨hlow, hhigh⟩ hne

theorem isLabelChar_of_shown (hlow : 32 < c.toNat) (hne : c ≠ ']') : isLabelChar c = true := by
  have hbreak : c ≠ '\n' := by
    rintro rfl
    exact absurd hlow (by decide)
  simp [isLabelChar, hne, hbreak]

theorem isLabelChar_entity (h : isEntityChar c = true) : isLabelChar c = true :=
  isLabelChar_of_shown (isEntityChar_shown h).1 (ne_of_isEntityChar (by decide) h)

theorem isLabelChar_special (h : c ∈ special) : isLabelChar c = true := by
  obtain ⟨hlow, -, -, hne⟩ := special_shown c h
  exact isLabelChar_of_shown hlow hne

theorem scheme_plain (secure : Bool) : ∀ c ∈ (scheme secure).toList, c ∉ special := by
  cases secure <;> exact forall_of_all (by decide)

theorem escape_scheme (secure : Bool) (more : Text) :
    m.escape ((scheme secure).toList ++ more) = (scheme secure).toList ++ m.escape more := by
  rw [escape_append_eq, escape_of_forall (scheme_plain secure)]

theorem IsLink.escape (h : IsLink u label url) : IsLink u (m.escape label) (m.escape url) := by
  obtain ⟨⟨hne, hlabel⟩, secure, more, rfl, hmore, hchars⟩ := h
  exact ⟨⟨escape_ne_nil hne, forall_escape (fun _ => isLabelChar_entity) hlabel⟩, secure,
    m.escape more, escape_scheme secure more, escape_ne_nil hmore,
    forall_escape (fun _ => isUrlChar_entity) hchars⟩

theorem isLink_of_escape (h : IsLink u (m.escape label) (m.escape url)) : IsLink u label url := by
  obtain ⟨⟨hne, hlabel⟩, secure, more, hurl, hmore, hchars⟩ := h
  have hscheme : '&' ∉ (scheme secure).toList := by
    cases secure <;> decide
  obtain ⟨more, rfl, rfl⟩ := escape_append hscheme hurl
  refine ⟨⟨?_, forall_of_escape (fun _ => isLabelChar_special) hlabel⟩, secure, more, rfl,
    ?_, forall_of_escape (fun _ => isUrlChar_special) hchars⟩
  · rintro rfl
    exact hne escape_nil
  · rintro rfl
    exact hmore escape_nil

theorem escape_link (label url : Text) :
    m.escape (linkText label url) = linkText (m.escape label) (m.escape url) := by
  have hopen : m.escapeChar '[' = ['['] := escapeChar_plain (by decide)
  have hclose : m.escapeChar ']' = [']'] := escapeChar_plain (by decide)
  have hopen' : m.escapeChar '(' = ['('] := escapeChar_plain (by decide)
  have hclose' : m.escapeChar ')' = [')'] := escapeChar_plain (by decide)
  simp [escape_eq, linkText, hopen, hclose, hopen', hclose']

theorem exists_link_of_escape {label' url' : Text}
    (hlink : IsLink u label' url') (h : m.escape t = linkText label' url' ++ y) :
    ∃ label url rest, IsLink u label url ∧ t = linkText label url ++ rest := by
  simp only [linkText, List.cons_append, List.append_assoc] at h
  obtain ⟨t₁, rfl, hlabel⟩ := escape_cons (by decide) h
  obtain ⟨label, t₂, rfl, rfl, hrest⟩ := escape_split (by decide) (by decide) hlabel
  obtain ⟨t₃, rfl, hurl⟩ := escape_cons (by decide) hrest
  obtain ⟨url, t₄, rfl, rfl, -⟩ := escape_split (by decide) (by decide) hurl
  exact ⟨label, url, t₄, isLink_of_escape hlink, by simp [linkText]⟩

theorem splitScheme_eq (secure : Bool) (more : Text) :
    splitScheme ((scheme secure).toList ++ more) = (secure, more) := by
  cases secure with
  | true =>
    have hhttps : "https://".toList <+: (scheme true).toList ++ more := List.prefix_append _ _
    rw [splitScheme, if_pos hhttps]
    rfl
  | false =>
    have hhttp : (scheme false).toList = ['h', 't', 't', 'p', ':', '/', '/'] := by decide
    have hhttps : "https://".toList = ['h', 't', 't', 'p', 's', ':', '/', '/'] := by decide
    rw [splitScheme, if_neg, hhttp]
    · rfl
    · rw [hhttp, hhttps]
      simp

def linkRead (secure : Bool) (more label : Text) : List Mark :=
  .address secure :: chars more ++ .label :: chars label ++ [.linkEnd]

theorem linkMarks_eq_some {found : List Mark} {n : ℕ} (h : linkMarks u t = some (found, n)) :
    ∃ secure more label rest, IsLink u label ((scheme secure).toList ++ more) ∧
      t = linkText label ((scheme secure).toList ++ more) ++ rest ∧
      found = linkRead secure more label ∧
      n = (linkText label ((scheme secure).toList ++ more)).length := by
  obtain ⟨hit, hhit, hfound⟩ := Option.map_eq_some_iff.mp h
  obtain ⟨label, url, rest, hlink, rfl, rfl⟩ := exists_link hhit
  obtain ⟨secure, more, rfl, -, -⟩ := hlink.url
  obtain ⟨rfl, rfl⟩ := Prod.mk.inj hfound
  refine ⟨secure, more, label, rest, hlink, rfl, ?_, rfl⟩
  rw [show (⟨_, [some label, some ((scheme secure).toList ++ more)], rest⟩ : Hit).group 2 =
    (scheme secure).toList ++ more from rfl, splitScheme_eq]
  rfl

theorem chars_html (text : Text) : (chars text).flatMap (Mark.html m) = m.escape text := by
  rw [chars, List.flatMap_map]
  exact (escape_eq text).symm

theorem linkRead_html (secure : Bool) (more label : Text) :
    (linkRead secure more label).flatMap (Mark.html m) =
      "<a href=\"".toList ++ ((scheme secure).toList ++ m.escape more) ++
        "\" target=\"_blank\" rel=\"noopener\">".toList ++ m.escape label ++ "</a>".toList := by
  have haddress : (Mark.address secure).html m = "<a href=\"".toList ++ (scheme secure).toList := by
    change (Mark.address secure).tag = _
    cases secure <;> decide
  simp only [linkRead, List.cons_append, List.flatMap_cons, List.flatMap_append, chars_html,
    haddress, List.flatMap_nil, List.append_nil, List.append_assoc]
  rfl

theorem sub_link (text : Text) :
    sub (linkRe u) anchor (m.escape text) = (linkRow u text).flatMap (Mark.html m) := by
  rw [escape_eq]
  refine scan_flatMap escapeChar_ne_nil ?_ ?_ ?_
  · intro c
    exact List.map_id _
  · intro c rest found n _ hfound
    obtain ⟨secure, more, label, rest', hlink, htext, rfl, rfl⟩ := linkMarks_eq_some hfound
    refine ⟨by simp [linkText], ?_⟩
    have hescape : (c :: rest).flatMap m.escapeChar = linkText (m.escape label)
        (m.escape ((scheme secure).toList ++ more)) ++ m.escape rest' := by
      rw [htext, ← escape_link, ← escape_append_eq]
      exact (escape_eq _).symm
    have hread : m.escape (linkText label ((scheme secure).toList ++ more)) = _ := escape_link _ _
    rw [replaced, hescape, atStart_link_of_isLink hlink.escape, htext, List.take_left,
      linkRead_html, ← escape_scheme]
    exact congrArg some (Prod.ext rfl (congrArg List.length (hread.symm.trans (escape_eq _))))
  -- a link begins with a bracket, which escapes to itself: none begins inside a reference
  · intro c rest x y' _ hnone hwritten hy
    by_contra hne
    obtain ⟨hit, hhit⟩ : ∃ hit, (linkRe u).atStart (y' ++ rest.flatMap m.escapeChar) = some hit := by
      rw [replaced, Option.map_eq_none_iff] at hne
      exact Option.ne_none_iff_exists'.mp hne
    obtain ⟨label', url', rest', hlink, htext, rfl⟩ := exists_link hhit
    obtain ⟨d, y', rfl⟩ := List.exists_cons_of_ne_nil hy
    obtain ⟨rfl, -⟩ := List.cons.inj htext
    have hc : c = '[' := mem_escapeChar_of_plain (by decide) (by rw [hwritten]; simp)
    subst hc
    have hopen : m.escapeChar '[' = ['['] := escapeChar_plain (by decide)
    rw [hopen] at hwritten
    have hx : x = [] ∧ y' = [] := by
      cases x with
      | nil => exact ⟨rfl, (List.cons.inj hwritten).2.symm⟩
      | cons d x => simp at hwritten
    obtain ⟨rfl, rfl⟩ := hx
    have hstart : m.escape ('[' :: rest) = linkText label' url' ++ rest' := by
      rw [← htext, escape_cons_eq, hopen, escape_eq]
    obtain ⟨label, url, rest'', hlink', htext'⟩ := exists_link_of_escape hlink hstart
    rw [linkMarks, htext', atStart_link_of_isLink hlink'] at hnone
    cases hnone

/-! ### Delimiters in a row -/

def tagMarks : List Mark :=
  [.address true, .address false, .label, .linkEnd] ++
    [Element.h3, .p, .ul, .li, .strong, .code].flatMap fun e => [.start e, .stop e]

theorem char_or_tagMark (mark : Mark) : (∃ c, mark = .char c) ∨ mark ∈ tagMarks := by
  cases mark with
  | char c => exact .inl ⟨c, rfl⟩
  | start e => exact .inr (by cases e <;> decide)
  | stop e => exact .inr (by cases e <;> decide)
  | address secure => exact .inr (by cases secure <;> decide)
  | label => exact .inr (by decide)
  | linkEnd => exact .inr (by decide)

theorem html_of_tagMark (h : mark ∈ tagMarks) : mark.html m = mark.tag := by
  cases mark with
  | char c => simp [tagMarks] at h
  | _ => rfl

theorem eq_char_of_mem_html (hd : d ∈ ['*', backquote, '\n']) (h : d ∈ mark.html m) :
    mark = .char d := by
  rcases char_or_tagMark mark with ⟨c, rfl⟩ | htag
  · have hentity : ∀ d ∈ ['*', backquote, '\n'], isEntityChar d = false :=
      forall_of_all (by decide)
    rw [mem_escapeChar_of_plain (hentity d hd) h]
  · have hwritten : ∀ d ∈ ['*', backquote, '\n'], ∀ mark ∈ tagMarks, d ∉ mark.tag :=
      forall_of_all (by decide)
    rw [html_of_tagMark htag] at h
    exact absurd h (hwritten d hd mark htag)

theorem html_char (hd : d ∈ ['*', backquote, '\n']) : (Mark.char d).html m = [d] := by
  have hplain : ∀ d ∈ ['*', backquote, '\n'], d ∉ special := forall_of_all (by decide)
  exact escapeChar_plain (hplain d hd)

theorem html_ne_nil (mark : Mark) : mark.html m ≠ [] := by
  rcases char_or_tagMark mark with ⟨c, rfl⟩ | htag
  · exact escapeChar_ne_nil c
  · have hwritten : ∀ mark ∈ tagMarks, mark.tag ≠ [] := forall_of_all (by decide)
    rw [html_of_tagMark htag]
    exact hwritten mark htag

theorem marks_split (hd : d ∈ ['*', backquote, '\n'])
    (h : marks.flatMap (Mark.html m) = t ++ d :: y) :
    ∃ before after, marks = before ++ .char d :: after ∧
      before.flatMap (Mark.html m) = t ∧ after.flatMap (Mark.html m) = y :=
  flatMap_split (html_char hd) (fun _ => eq_char_of_mem_html hd) h

theorem eq_nil_of_html (h : marks.flatMap (Mark.html m) = []) : marks = [] := by
  cases marks with
  | nil => rfl
  | cons mark marks =>
    rw [List.flatMap_cons] at h
    exact absurd (List.append_eq_nil_iff.mp h).1 (html_ne_nil mark)

theorem marks_cons (hd : d ∈ ['*', backquote, '\n']) (h : marks.flatMap (Mark.html m) = d :: y) :
    ∃ after, marks = .char d :: after ∧ after.flatMap (Mark.html m) = y := by
  obtain ⟨before, after, rfl, hbefore, hafter⟩ := marks_split (t := []) hd h
  rw [eq_nil_of_html hbefore]
  exact ⟨after, rfl, hafter⟩

theorem html_delimiter (hd : d ∈ ['*', backquote, '\n']) (h : mark.html m = t ++ d :: y) :
    mark = .char d ∧ t = [] ∧ y = [] := by
  obtain rfl : mark = .char d := eq_char_of_mem_html hd (by rw [h]; simp)
  rw [html_char hd] at h
  cases t with
  | nil => exact ⟨rfl, rfl, (List.cons.inj h).2.symm⟩
  | cons c t => simp at h

theorem isDot_html (h : .char '\n' ∉ marks) : ∀ c ∈ marks.flatMap (Mark.html m), isDot c = true := by
  intro c hc
  obtain ⟨mark, hmark, hmem⟩ := List.mem_flatMap.mp hc
  have hne : c ≠ '\n' := by
    rintro rfl
    rw [eq_char_of_mem_html (by decide) hmem] at hmark
    exact h hmark
  simpa [isDot] using hne

theorem replaced_inside {p : Pattern} {replace : Hit → Text} (hd : d ∈ ['*', backquote, '\n'])
    (hp : Starts p (· == d)) (h : mark.html m = t ++ t') (ht' : t' ≠ [])
    (hne : replaced p replace (t' ++ y) ≠ none) :
    mark = .char d ∧ ∃ hit, p.atStart (d :: y) = some hit := by
  obtain ⟨hit, hhit⟩ : ∃ hit, p.atStart (t' ++ y) = some hit := by
    rw [replaced, Ne, Option.map_eq_none_iff] at hne
    exact Option.ne_none_iff_exists'.mp hne
  obtain ⟨c, rest, htext, hc⟩ := hp _ hit (List.mem_of_head? hhit)
  obtain ⟨c', t', rfl⟩ := List.exists_cons_of_ne_nil ht'
  obtain ⟨rfl, -⟩ := List.cons.inj htext
  rw [beq_iff_eq] at hc
  subst hc
  obtain ⟨hmark, -, rfl⟩ := html_delimiter hd h
  exact ⟨hmark, hit, hhit⟩

/-! ### Bold text -/

theorem untilStars_eq_some (h : untilStars marks = some inner) : inner ≠ [] ∧
    (∃ rest, marks = inner ++ star :: star :: rest) ∧
      ∀ inner' rest', marks = inner' ++ star :: star :: rest' → inner' ≠ [] →
        inner.length ≤ inner'.length := by
  induction marks generalizing inner with
  | nil => cases h
  | cons mark marks ih =>
    rw [untilStars] at h
    split at h
    · rename_i hstars
      obtain ⟨rest, hrest⟩ := hstars
      cases h
      refine ⟨List.cons_ne_nil _ _, ⟨rest, ?_⟩, ?_⟩
      · rw [← hrest]
        rfl
      · intro inner' _ _ hne
        exact List.length_pos_iff.mpr hne
    · rename_i hstars
      obtain ⟨inner, hinner, rfl⟩ := Option.map_eq_some_iff.mp h
      obtain ⟨-, ⟨rest, rfl⟩, hshortest⟩ := ih hinner
      refine ⟨List.cons_ne_nil _ _, ⟨rest, rfl⟩, ?_⟩
      intro inner' rest' hsplit hne
      obtain ⟨mark', inner', rfl⟩ := List.exists_cons_of_ne_nil hne
      obtain ⟨-, hsplit⟩ := List.cons.inj hsplit
      have hne' : inner' ≠ [] := by
        rintro rfl
        exact hstars ⟨rest', hsplit.symm⟩
      exact Nat.succ_le_succ (hshortest inner' rest' hsplit hne')

theorem untilStars_ne_none (hne : inner ≠ []) :
    untilStars (inner ++ star :: star :: after) ≠ none := by
  induction inner with
  | nil => exact absurd rfl hne
  | cons mark inner ih =>
    rw [List.cons_append, untilStars]
    split
    · exact Option.some_ne_none _
    · rename_i hstars
      have hne' : inner ≠ [] := by
        rintro rfl
        exact hstars ⟨after, rfl⟩
      intro hmap
      exact ih hne' (Option.map_eq_none_iff.mp hmap)

theorem atStart_bold (hne : t ≠ []) (hdot : ∀ c ∈ t, isDot c = true)
    (hshortest : ∀ t' rest', t ++ '*' :: '*' :: rest = t' ++ '*' :: '*' :: rest' → t' ≠ [] →
      t.length ≤ t'.length) :
    boldRe.atStart ('*' :: '*' :: (t ++ '*' :: '*' :: rest)) =
      some ⟨'*' :: '*' :: (t ++ ['*', '*']), [some t], rest⟩ := by
  have hstars : "**".toList = ['*', '*'] := by decide
  have hclose : (Pattern.lit ['*', '*']).atStart ('*' :: '*' :: rest) =
      some ⟨['*', '*'], [], rest⟩ := by
    simp [Pattern.atStart, Pattern.hits_lit]
  have htakes : Takes isDot 1 none t := ⟨hdot, List.length_pos_iff.mpr hne, by simp⟩
  have hlazy := atStart_lazy htakes ?_ hclose
  · have hopen := atStart_lit_append ['*', '*'] (t ++ '*' :: '*' :: rest)
      (.group (.many false isDot 1 none) ++ .lit ['*', '*'])
    rw [hlazy] at hopen
    rw [boldRe, Pattern.str, hstars]
    refine hopen.trans ?_
    simp [Hit.join]
  · intro t' rest' hsplit htakes' hlt
    by_contra hfound
    obtain ⟨hit, hhit⟩ := atStart_ne_none.mp hfound
    obtain ⟨rest'', rfl, -⟩ := mem_hits_lit'.mp hhit
    have hle := hshortest t' rest'' hsplit (List.ne_nil_of_length_pos htakes'.least)
    omega

theorem exists_bold {found : Hit} (h : boldRe.atStart t = some found) : ∃ inner rest,
    inner ≠ [] ∧ t = '*' :: '*' :: (inner ++ '*' :: '*' :: rest) := by
  have hstars : "**".toList = ['*', '*'] := by decide
  have hmem := List.mem_of_head? h
  simp only [boldRe, Pattern.str, hstars, mem_hits_append, mem_hits_lit', mem_hits_group] at hmem
  obtain ⟨_, ⟨rest₁, rfl, rfl⟩, _, ⟨_, ⟨found', hmany, rfl⟩, _, ⟨rest₂, hrest₂, rfl⟩, rfl⟩, -⟩ :=
    hmem
  obtain ⟨hsplit, -, -, hleast, -⟩ := mem_hits_many.mp hmany
  dsimp only at hsplit hrest₂
  exact ⟨found'.text, rest₂, List.ne_nil_of_length_pos hleast, by rw [hsplit, hrest₂]; rfl⟩

theorem boldMarks_eq_some {found : List Mark} {n : ℕ} (h : boldMarks marks = some (found, n)) :
    ∃ inner rest, inner ≠ [] ∧ marks = star :: star :: (inner ++ star :: star :: rest) ∧
      found = .start .strong :: inner ++ [.stop .strong] ∧ n = inner.length + 4 ∧
      ∀ inner' rest', inner ++ star :: star :: rest = inner' ++ star :: star :: rest' →
        inner' ≠ [] → inner.length ≤ inner'.length := by
  rw [boldMarks] at h
  split at h
  · rename_i hstars
    obtain ⟨marks, rfl⟩ := hstars
    obtain ⟨inner, hinner, hfound⟩ := Option.map_eq_some_iff.mp h
    obtain ⟨rfl, rfl⟩ := Prod.mk.inj hfound
    obtain ⟨hne, ⟨rest, hrest⟩, hshortest⟩ := untilStars_eq_some hinner
    have hdrop : ([star, star] ++ marks).drop 2 = marks := rfl
    rw [hdrop] at hrest hshortest
    subst hrest
    exact ⟨inner, rest, hne, rfl, rfl, rfl, hshortest⟩
  · cases h

theorem star_html : star.html m = ['*'] := html_char (by decide)

theorem strong_html : (Mark.start .strong).html m = "<strong>".toList ∧
    (Mark.stop .strong).html m = "</strong>".toList := by
  change (Mark.start .strong).tag = _ ∧ (Mark.stop .strong).tag = _
  decide

theorem sub_bold (h : .char '\n' ∉ marks) : sub boldRe strong (marks.flatMap (Mark.html m)) =
    (scan boldMarks id 0 marks).flatMap (Mark.html m) := by
  have hdelimiter : '*' ∈ ['*', backquote, '\n'] := by decide
  have hstart : (Mark.start .strong).html m = "<strong>".toList := strong_html.1
  have hstop : (Mark.stop .strong).html m = "</strong>".toList := strong_html.2
  refine scan_flatMap html_ne_nil (fun mark => List.map_id _) ?_ ?_
  -- where the marks have bold text the pattern finds it in their HTML, and nothing shorter
  · intro mark rest found n hsuffix hfound
    obtain ⟨inner, rest', hne, hmarks, rfl, rfl, hshortest⟩ := boldMarks_eq_some hfound
    refine ⟨Nat.succ_pos _, ?_⟩
    have hwritten : (mark :: rest).flatMap (Mark.html m) = '*' :: '*' ::
        (inner.flatMap (Mark.html m) ++ '*' :: '*' :: rest'.flatMap (Mark.html m)) := by
      simp [hmarks, star_html]
    have hunbroken : .char '\n' ∉ inner := by
      intro hmem
      refine h (hsuffix.subset ?_)
      simp [hmarks, hmem]
    have htake : (mark :: rest).take (inner.length + 4) =
        star :: star :: (inner ++ [star, star]) := by
      have hsplit : mark :: rest = (star :: star :: (inner ++ [star, star])) ++ rest' := by
        simp [hmarks]
      rw [hsplit]
      exact List.take_left' (by simp)
    rw [replaced, hwritten, atStart_bold ?_ (isDot_html hunbroken) ?_, htake]
    · refine congrArg some (Prod.ext ?_ ?_)
      · change "<strong>".toList ++ inner.flatMap (Mark.html m) ++ "</strong>".toList = _
        simp only [List.cons_append, List.flatMap_cons, List.flatMap_append, List.flatMap_nil,
          List.append_nil, List.append_assoc, hstart, hstop]
      · simp [star_html]
    · intro hnil
      exact hne (eq_nil_of_html hnil)
    · intro t' rest'' hsplit ht'
      have hsplit' : (inner ++ star :: star :: rest').flatMap (Mark.html m) =
          t' ++ '*' :: '*' :: rest'' := by
        rw [← hsplit]
        simp [star_html]
      obtain ⟨before, after, hmarks', rfl, hafter⟩ := marks_split hdelimiter hsplit'
      obtain ⟨after, rfl, -⟩ := marks_cons hdelimiter hafter
      have hlength : inner.length ≤ before.length := by
        refine hshortest before after hmarks' ?_
        rintro rfl
        exact ht' rfl
      have hbefore : before <+: inner ++ star :: star :: rest' := by
        rw [hmarks']
        exact List.prefix_append _ _
      obtain ⟨more, rfl⟩ :=
        List.prefix_of_prefix_length_le (List.prefix_append _ _) hbefore hlength
      rw [List.flatMap_append, List.length_append]
      exact Nat.le_add_right _ _
  -- a hit where they have none would be bold text of theirs
  · intro mark rest x y' _ hnone hwritten hy
    by_contra hne
    have hstarts : Starts boldRe (· == '*') := (starts_lit '*' ['*']).append
    obtain ⟨rfl, hit, hhit⟩ := replaced_inside hdelimiter hstarts hwritten hy hne
    obtain ⟨inner, rest', hinner, htext⟩ := exists_bold hhit
    obtain ⟨rest, rfl, hsecond⟩ := marks_cons hdelimiter (List.cons.inj htext).2
    obtain ⟨before, after, rfl, rfl, hafter⟩ := marks_split hdelimiter hsecond
    obtain ⟨after, rfl, -⟩ := marks_cons hdelimiter hafter
    have hbefore : before ≠ [] := by
      rintro rfl
      exact hinner rfl
    rw [boldMarks, if_pos ⟨_, rfl⟩, Option.map_eq_none_iff] at hnone
    exact untilStars_ne_none hbefore hnone

/-! ### Code -/

theorem takeWhile_quote (h : quote ∉ inner) :
    (inner ++ quote :: after).takeWhile (· ≠ quote) = inner := by
  have hinner : ∀ mark ∈ inner, decide (mark ≠ quote) = true := by
    intro mark hmem
    rw [decide_eq_true_iff]
    rintro rfl
    exact h hmem
  rw [List.takeWhile_append_of_pos hinner, List.takeWhile_cons_of_neg (by simp), List.append_nil]

theorem codeMarks_eq (hne : inner ≠ []) (h : quote ∉ inner) :
    codeMarks (quote :: (inner ++ quote :: after)) =
      some (.start .code :: inner ++ [.stop .code], inner.length + 2) := by
  have hwhile : ((quote :: (inner ++ quote :: after)).drop 1).takeWhile (· ≠ quote) = inner :=
    takeWhile_quote h
  have hclose : [quote] <+: (quote :: (inner ++ quote :: after)).drop (inner.length + 1) := by
    rw [List.drop_succ_cons, List.drop_left]
    exact ⟨after, rfl⟩
  rw [codeMarks, hwhile, if_pos ⟨⟨_, rfl⟩, hne, hclose⟩]

theorem codeMarks_eq_some {found : List Mark} {n : ℕ} (h : codeMarks marks = some (found, n)) :
    ∃ inner rest, inner ≠ [] ∧ quote ∉ inner ∧ marks = quote :: (inner ++ quote :: rest) ∧
      found = .start .code :: inner ++ [.stop .code] ∧ n = inner.length + 2 := by
  rw [codeMarks] at h
  split at h
  · rename_i hcode
    obtain ⟨⟨marks, rfl⟩, hne, rest, hrest⟩ := hcode
    obtain ⟨rfl, rfl⟩ := Prod.mk.inj (Option.some.inj h)
    have hdrop : ([quote] ++ marks).drop 1 = marks := rfl
    rw [hdrop] at hne hrest ⊢
    simp only [List.singleton_append, List.drop_succ_cons] at hrest
    refine ⟨_, rest, hne, ?_, ?_, rfl, rfl⟩
    · intro hmem
      simpa using List.mem_takeWhile_imp hmem
    · have hstarts := List.prefix_iff_eq_take.mp (List.takeWhile_prefix (l := marks) (· ≠ quote))
      have hsplit := List.take_append_drop (marks.takeWhile (· ≠ quote)).length marks
      rw [← hstarts, ← hrest] at hsplit
      rw [List.singleton_append, List.cons_inj_right]
      exact hsplit.symm
  · cases h

theorem atStart_code (hne : t ≠ []) (hcode : ∀ c ∈ t, isCodeChar c = true) :
    codeRe.atStart (backquote :: (t ++ backquote :: rest)) =
      some ⟨backquote :: (t ++ [backquote]), [some t], rest⟩ := by
  have hclose : (Pattern.lit [backquote]).atStart (backquote :: rest) =
      some ⟨[backquote], [], rest⟩ := by
    simp [Pattern.atStart, Pattern.hits_lit]
  have htakes : Takes isCodeChar 1 none t := ⟨hcode, List.length_pos_iff.mpr hne, by simp⟩
  have hmany : (.group (.many true isCodeChar 1 none) ++ .lit [backquote] : Pattern).atStart
      (t ++ backquote :: rest) = _ := atStart_many_of_unique htakes ?_
  · have hopen := atStart_lit_append [backquote] (t ++ backquote :: rest)
      (.group (.many true isCodeChar 1 none) ++ .lit [backquote])
    rw [hmany, hclose] at hopen
    rw [codeRe]
    refine hopen.trans ?_
    simp [Hit.join]
  · intro t' rest' hsplit htakes' ht'
    have hquote : isCodeChar backquote = false := by decide
    obtain ⟨c, more, rfl, hc⟩ := cut_in_class hquote htakes'.all hsplit ht'
    refine (starts_lit backquote []).atStart_eq_none ?_ _
    rw [beq_eq_false_iff_ne]
    rintro rfl
    rw [hcode _ hc] at hquote
    cases hquote

theorem exists_code {found : Hit} (h : codeRe.atStart t = some found) : ∃ inner rest,
    inner ≠ [] ∧ backquote ∉ inner ∧ t = backquote :: (inner ++ backquote :: rest) := by
  have hmem := List.mem_of_head? h
  simp only [codeRe, mem_hits_append, mem_hits_lit', mem_hits_group] at hmem
  obtain ⟨_, ⟨rest₁, rfl, rfl⟩, _, ⟨_, ⟨found', hmany, rfl⟩, _, ⟨rest₂, hrest₂, rfl⟩, rfl⟩, -⟩ :=
    hmem
  obtain ⟨hsplit, -, hchars, hleast, -⟩ := mem_hits_many.mp hmany
  dsimp only at hsplit hrest₂
  refine ⟨found'.text, rest₂, List.ne_nil_of_length_pos hleast, ?_, by rw [hsplit, hrest₂]; rfl⟩
  intro hquote
  exact absurd (hchars _ hquote) (by decide)

theorem quote_html : quote.html m = [backquote] := html_char (by decide)

theorem code_html : (Mark.start .code).html m = "<code>".toList ∧
    (Mark.stop .code).html m = "</code>".toList := by
  change (Mark.start .code).tag = _ ∧ (Mark.stop .code).tag = _
  decide

theorem sub_code (h : .char '\n' ∉ marks) : sub codeRe code (marks.flatMap (Mark.html m)) =
    (scan codeMarks id 0 marks).flatMap (Mark.html m) := by
  have hdelimiter : backquote ∈ ['*', backquote, '\n'] := by decide
  have hstart : (Mark.start .code).html m = "<code>".toList := code_html.1
  have hstop : (Mark.stop .code).html m = "</code>".toList := code_html.2
  refine scan_flatMap html_ne_nil (fun mark => List.map_id _) ?_ ?_
  · intro mark rest found n hsuffix hfound
    obtain ⟨inner, rest', hne, hquote, hmarks, rfl, rfl⟩ := codeMarks_eq_some hfound
    refine ⟨Nat.succ_pos _, ?_⟩
    have hwritten : (mark :: rest).flatMap (Mark.html m) = backquote ::
        (inner.flatMap (Mark.html m) ++ backquote :: rest'.flatMap (Mark.html m)) := by
      simp [hmarks, quote_html]
    have hunbroken : .char '\n' ∉ inner := by
      intro hmem
      refine h (hsuffix.subset ?_)
      simp [hmarks, hmem]
    have htake : (mark :: rest).take (inner.length + 2) = quote :: (inner ++ [quote]) := by
      have hsplit : mark :: rest = (quote :: (inner ++ [quote])) ++ rest' := by
        simp [hmarks]
      rw [hsplit]
      exact List.take_left' (by simp)
    -- no tag and no reference brings in a backquote
    have hcode : ∀ c ∈ inner.flatMap (Mark.html m), isCodeChar c = true := by
      intro c hc
      have hdot := isDot_html hunbroken c hc
      have hne : c ≠ backquote := by
        rintro rfl
        obtain ⟨mark, hmark, hmem⟩ := List.mem_flatMap.mp hc
        rw [eq_char_of_mem_html hdelimiter hmem] at hmark
        exact hquote hmark
      rw [isDot] at hdot
      rw [isCodeChar, hdot, Bool.and_true]
      exact bne_iff_ne.mpr hne
    rw [replaced, hwritten, atStart_code ?_ hcode, htake]
    · refine congrArg some (Prod.ext ?_ ?_)
      · change "<code>".toList ++ inner.flatMap (Mark.html m) ++ "</code>".toList = _
        simp only [List.cons_append, List.flatMap_cons, List.flatMap_append, List.flatMap_nil,
          List.append_nil, List.append_assoc, hstart, hstop]
      · simp [quote_html]
    · intro hnil
      exact hne (eq_nil_of_html hnil)
  · intro mark rest x y' _ hnone hwritten hy
    by_contra hne
    have hstarts : Starts codeRe (· == backquote) := (starts_lit backquote []).append
    obtain ⟨rfl, hit, hhit⟩ := replaced_inside hdelimiter hstarts hwritten hy hne
    obtain ⟨inner, rest', hinner, hquote, htext⟩ := exists_code hhit
    obtain ⟨before, after, rfl, rfl, hafter⟩ :=
      marks_split hdelimiter (List.cons.inj htext).2
    have hbefore : before ≠ [] := by
      rintro rfl
      exact hinner rfl
    have hfree : quote ∉ before := by
      intro hmem
      refine hquote (List.mem_flatMap.mpr ⟨quote, hmem, ?_⟩)
      rw [quote_html]
      exact List.mem_singleton_self _
    rw [show Mark.char backquote = quote from rfl, codeMarks_eq hbefore hfree] at hnone
    cases hnone

/-! ### The HTML of a text -/

theorem linkRow_unbroken (h : '\n' ∉ t) : .char '\n' ∉ linkRow u t := by
  have hchars : ∀ c ∈ t, c ≠ '\n' := fun c hc heq => h (heq ▸ hc)
  intro hmem
  refine forall_scan (Q := fun mark => mark ≠ .char '\n') ?_ ?_ hchars _ hmem rfl
  · intro c hc heq
    exact hc (Mark.char.inj heq)
  · intro t found n ht hfound mark hmark
    obtain ⟨secure, more, label, rest, -, rfl, rfl, -⟩ := linkMarks_eq_some hfound
    rintro rfl
    have hin : '\n' ∈ more ∨ '\n' ∈ label := by
      simpa [linkRead, chars] using hmark
    refine ht '\n' ?_ rfl
    rcases hin with hin | hin <;> simp [linkText, hin]

theorem boldRow_unbroken (h : '\n' ∉ t) : .char '\n' ∉ boldRow u t := by
  have hmarks : ∀ mark ∈ linkRow u t, mark ≠ .char '\n' := by
    rintro mark hmark rfl
    exact linkRow_unbroken h hmark
  intro hmem
  refine forall_scan (Q := fun mark => mark ≠ .char '\n') (fun _ h => h) ?_ hmarks _ hmem rfl
  intro marks found n hnot hfound mark hmark
  obtain ⟨inner, rest, -, rfl, rfl, -⟩ := boldMarks_eq_some hfound
  rintro rfl
  have hin : .char '\n' ∈ inner := by
    simpa using hmark
  exact hnot _ (by simp [hin]) rfl

theorem inline_eq (h : '\n' ∉ t) : inline m u t = (row u t).flatMap (Mark.html m) := by
  rw [inline, sub_link, sub_bold (linkRow_unbroken h)]
  exact sub_code (boldRow_unbroken h)

end

end ReleaseNotes
