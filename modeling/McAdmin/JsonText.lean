import Mathlib.Data.List.Basic

/-!
# JSON as a text

Objects of texts as `json.dumps` writes them with `ensure_ascii=False`, and `json.loads`.  What
is written is read again; what is broken off before its end is not read at all.
-/

namespace JsonText

abbrev Text := List Char

/-- A value that was read; a number stands as it was found. -/
inductive Json where
  | null
  | bool (b : Bool)
  | number (lexeme : Text)
  | text (s : Text)
  | array (items : List Json)
  | object (members : List (Text × Json))

/-! ### Writing -/

def hexDigit (n : ℕ) : Char := "0123456789abcdef".toList.getD n '0'

def escape (c : Char) : Text :=
  if c = '"' then ['\\', '"']
  else if c = '\\' then ['\\', '\\']
  else if c = '\n' then ['\\', 'n']
  else if c = '\r' then ['\\', 'r']
  else if c = '\t' then ['\\', 't']
  else if c.toNat = 8 then ['\\', 'b']
  else if c.toNat = 12 then ['\\', 'f']
  else if c.toNat < 0x20 then
    ['\\', 'u', '0', '0', hexDigit (c.toNat / 16), hexDigit (c.toNat % 16)]
  else [c]

def quote (s : Text) : Text := '"' :: (s.flatMap escape ++ ['"'])

def membersText : List (Text × Text) → Text
  | [] => ['}']
  | [member] => quote member.1 ++ ':' :: ' ' :: (quote member.2 ++ ['}'])
  | member :: member' :: members =>
    quote member.1 ++ ':' :: ' ' :: (quote member.2 ++ ',' :: ' ' :: membersText (member' :: members))

/-- `json.dumps(members, ensure_ascii=False)` -/
def dumps (members : List (Text × Text)) : Text := '{' :: membersText members

/-! ### Reading texts -/

def hexValue (c : Char) : Option ℕ :=
  if '0' ≤ c ∧ c ≤ '9' then some (c.toNat - '0'.toNat)
  else if 'a' ≤ c ∧ c ≤ 'f' then some (c.toNat - 'a'.toNat + 10)
  else if 'A' ≤ c ∧ c ≤ 'F' then some (c.toNat - 'A'.toNat + 10)
  else none

def escapes : List (Char × ℕ) :=
  [('"', '"'.toNat), ('\\', '\\'.toNat), ('/', '/'.toNat), ('b', 8), ('f', 12), ('n', 10),
    ('r', 13), ('t', 9)]

/-- Where the reading of a text is: in an escape, or in its hexadecimal digits. -/
inductive Scan where
  | plain
  | escape
  | hex (left value : ℕ)

/-- The code units of a text up to its closing quote, and what follows it. -/
def units : Scan → Text → Option (List ℕ × Text)
  | _, [] => none
  | .plain, c :: cs =>
    if c = '"' then some ([], cs)
    else if c = '\\' then units .escape cs
    else if c.toNat < 0x20 then none
    else (units .plain cs).map (Prod.map (c.toNat :: ·) id)
  | .escape, c :: cs =>
    if c = 'u' then units (.hex 3 0) cs
    else
      match escapes.lookup c with
      | none => none
      | some n => (units .plain cs).map (Prod.map (n :: ·) id)
  | .hex left value, c :: cs =>
    match hexValue c, left with
    | none, _ => none
    | some d, 0 => (units .plain cs).map (Prod.map ((value * 16 + d) :: ·) id)
    | some d, left + 1 => units (.hex left (value * 16 + d)) cs

def charOf (n : ℕ) : Option Char := if n.isValidChar then some (Char.ofNat n) else none

/-- The characters of code units, where two surrogates are one.  A text holds no surrogate that
stands alone. -/
def ofUnits : List ℕ → Option Text
  | [] => some []
  | [n] => (charOf n).map ([·])
  | high :: low :: ns =>
    if 0xD800 ≤ high ∧ high < 0xDC00 ∧ 0xDC00 ≤ low ∧ low < 0xE000 then
      (ofUnits ns).map (Char.ofNat (0x10000 + (high - 0xD800) * 0x400 + (low - 0xDC00)) :: ·)
    else
      match charOf high with
      | none => none
      | some c => (ofUnits (low :: ns)).map (c :: ·)

def string (cs : Text) : Option (Text × Text) :=
  match units .plain cs with
  | none => none
  | some (us, rest) => (ofUnits us).map (·, rest)

/-! ### Reading numbers and names -/

def integer (cs : Text) : Option (Text × Text) :=
  if cs.head? = some '0' then some (['0'], cs.drop 1)
  else if cs.takeWhile Char.isDigit = [] then none
  else some (cs.takeWhile Char.isDigit, cs.dropWhile Char.isDigit)

def digitsAfter (mark rest cs : Text) : Text × Text :=
  if rest.takeWhile Char.isDigit = [] then ([], cs)
  else (mark ++ rest.takeWhile Char.isDigit, rest.dropWhile Char.isDigit)

def fraction : Text → Text × Text
  | '.' :: cs => digitsAfter ['.'] cs ('.' :: cs)
  | cs => ([], cs)

def exponent : Text → Text × Text
  | [] => ([], [])
  | c :: cs =>
    if c = 'e' ∨ c = 'E' then
      if cs.head? = some '+' ∨ cs.head? = some '-' then
        digitsAfter (c :: cs.take 1) (cs.drop 1) (c :: cs)
      else digitsAfter [c] cs (c :: cs)
    else ([], c :: cs)

def number (cs : Text) : Option (Json × Text) :=
  let negative := cs.head? = some '-'
  match integer (if negative then cs.drop 1 else cs) with
  | none => none
  | some (whole, rest) =>
    let (part, rest) := fraction rest
    let (power, rest) := exponent rest
    some (.number ((if negative then ['-'] else []) ++ whole ++ part ++ power), rest)

def names : List (Text × Json) :=
  [("null".toList, .null), ("true".toList, .bool true), ("false".toList, .bool false),
    ("NaN".toList, .number "NaN".toList), ("Infinity".toList, .number "Infinity".toList),
    ("-Infinity".toList, .number "-Infinity".toList)]

def named (cs : Text) : Option (Json × Text) :=
  names.findSome? fun (name, v) =>
    if name.isPrefixOf cs then some (v, cs.drop name.length) else none

/-! ### Reading values -/

def isBlank (c : Char) : Bool := c = ' ' || c = '\t' || c = '\n' || c = '\r'

def skip (cs : Text) : Text := cs.dropWhile isBlank

mutual

def value : ℕ → Text → Option (Json × Text)
  | 0, _ => none
  | _ + 1, [] => none
  | n + 1, c :: cs =>
    if c = '"' then (string cs).map (Prod.map .text id)
    else if c = '{' then
      if (skip cs).head? = some '}' then some (.object [], (skip cs).drop 1)
      else (members n (skip cs)).map (Prod.map .object id)
    else if c = '[' then
      if (skip cs).head? = some ']' then some (.array [], (skip cs).drop 1)
      else (items n (skip cs)).map (Prod.map .array id)
    else (named (c :: cs)).or (number (c :: cs))

def members : ℕ → Text → Option (List (Text × Json) × Text)
  | 0, _ => none
  | n + 1, cs =>
    if cs.head? = some '"' then
      match string (cs.drop 1) with
      | none => none
      | some (key, rest) =>
        if (skip rest).head? = some ':' then
          match value n (skip ((skip rest).drop 1)) with
          | none => none
          | some (v, rest) =>
            if (skip rest).head? = some '}' then some ([(key, v)], (skip rest).drop 1)
            else if (skip rest).head? = some ',' then
              (members n (skip ((skip rest).drop 1))).map (Prod.map ((key, v) :: ·) id)
            else none
        else none
    else none

def items : ℕ → Text → Option (List Json × Text)
  | 0, _ => none
  | n + 1, cs =>
    match value n cs with
    | none => none
    | some (v, rest) =>
      if (skip rest).head? = some ']' then some ([v], (skip rest).drop 1)
      else if (skip rest).head? = some ',' then
        (items n (skip ((skip rest).drop 1))).map (Prod.map (v :: ·) id)
      else none

end

/-- `json.loads(text)` -/
def loads (text : Text) : Option Json :=
  match value (text.length + 1) (skip text) with
  | none => none
  | some (v, rest) => if skip rest = [] then some v else none

/-- `data[key]` for an object, in which the last of several members counts -/
def Json.get (key : Text) : Json → Option Json
  | .object members => members.reverse.lookup key
  | _ => none

section

variable {c : Char} {s s' p q cs rest rest' : Text} {us : List ℕ} {σ : Scan} {n : ℕ}
  {ms : List (Text × Text)}

/-! ### Texts that were written -/

theorem hexValue_hexDigit : ∀ d < 16, hexValue (hexDigit d) = some d := by decide

theorem units_hex (hc : n < 0x20) (rest : Text) :
    units .plain (['\\', 'u', '0', '0', hexDigit (n / 16), hexDigit (n % 16)] ++ rest) =
      (units .plain rest).map (Prod.map (n :: ·) id) := by
  have hhigh := hexValue_hexDigit (n / 16) (by omega)
  have hlow := hexValue_hexDigit (n % 16) (by omega)
  have hzero : hexValue '0' = some 0 := by decide
  have hvalue : n / 16 * 16 + n % 16 = n := Nat.div_add_mod' n 16
  simp [units, hhigh, hlow, hzero, hvalue]

theorem units_escape (c : Char) (rest : Text) :
    units .plain (escape c ++ rest) = (units .plain rest).map (Prod.map (c.toNat :: ·) id) := by
  have hshort : ∀ e n, e ≠ 'u' → escapes.lookup e = some n → c.toNat = n →
      units .plain (['\\', e] ++ rest) =
        (units .plain rest).map (Prod.map (c.toNat :: ·) id) := by
    intro e n hu he hn
    simp [units, hu, he, hn]
  unfold escape
  split_ifs with hquote hescape hline hreturn htab hback hfeed hcontrol
  · exact hshort '"' _ (by decide) rfl (by rw [hquote])
  · exact hshort '\\' _ (by decide) rfl (by rw [hescape])
  · exact hshort 'n' 10 (by decide) rfl (by rw [hline]; rfl)
  · exact hshort 'r' 13 (by decide) rfl (by rw [hreturn]; rfl)
  · exact hshort 't' 9 (by decide) rfl (by rw [htab]; rfl)
  · exact hshort 'b' 8 (by decide) rfl hback
  · exact hshort 'f' 12 (by decide) rfl hfeed
  · exact units_hex hcontrol rest
  · simp [units, hquote, hescape, hcontrol]

theorem units_quote (s rest : Text) :
    units .plain (s.flatMap escape ++ '"' :: rest) = some (s.map Char.toNat, rest) := by
  induction s with
  | nil => simp [units]
  | cons c s ih => rw [List.flatMap_cons, List.append_assoc, units_escape, ih]; rfl

theorem charOf_toNat (c : Char) : charOf c.toNat = some c := by
  have hvalid : c.toNat.isValidChar := c.valid
  rw [charOf, if_pos hvalid, Char.ofNat_toNat]

theorem ofUnits_toNat (s : Text) : ofUnits (s.map Char.toNat) = some s := by
  induction s with
  | nil => rfl
  | cons c s ih =>
    cases s with
    | nil => rw [List.map_singleton, ofUnits, charOf_toNat]; rfl
    | cons d s =>
      have hvalid : c.toNat < 0xD800 ∨ 0xDFFF < c.toNat ∧ c.toNat < 0x110000 := c.valid
      rw [List.map_cons] at ih
      rw [List.map_cons, List.map_cons, ofUnits, if_neg (by omega), charOf_toNat]
      simp [ih]

theorem string_quote (s rest : Text) :
    string (s.flatMap escape ++ '"' :: rest) = some (s, rest) := by
  rw [string, units_quote]
  simp [ofUnits_toNat]

/-! ### Texts that are broken off -/

theorem units_append (h : units σ p = some (us, rest)) (q : Text) :
    units σ (p ++ q) = some (us, rest ++ q) := by
  have hmap : ∀ {τ : Scan} {cs rest : Text} {us : List ℕ} {n : ℕ},
      (∀ {us rest}, units τ cs = some (us, rest) → units τ (cs ++ q) = some (us, rest ++ q)) →
      (units τ cs).map (Prod.map (n :: ·) id) = some (us, rest) →
      (units τ (cs ++ q)).map (Prod.map (n :: ·) id) = some (us, rest ++ q) := by
    intro τ cs rest us n ih h
    rcases Option.map_eq_some_iff.mp h with ⟨⟨us', rest'⟩, hread, heq⟩
    cases heq
    rw [ih hread]
    rfl
  induction p generalizing σ us rest with
  | nil => cases σ <;> cases h
  | cons c p ih =>
    cases σ with
    | plain =>
      rw [List.cons_append]
      unfold units at h ⊢
      split_ifs at h ⊢ with hquote hescape hcontrol
      · cases h
        rfl
      · exact ih h
      · exact hmap ih h
    | escape =>
      rw [List.cons_append]
      unfold units at h ⊢
      split_ifs at h ⊢ with hu
      · exact ih h
      · split at h
        · cases h
        · exact hmap ih h
    | hex left value =>
      rw [List.cons_append]
      unfold units at h ⊢
      split at h
      · cases h
      · exact hmap ih h
      · exact ih h

theorem string_of_append (hp : p ++ q = s.flatMap escape ++ '"' :: rest)
    (h : string p = some (s', rest')) : s' = s ∧ rest' ++ q = rest := by
  have hstring : string (p ++ q) = some (s', rest' ++ q) := by
    unfold string at h ⊢
    cases hunits : units .plain p with
    | none =>
      rw [hunits] at h
      cases h
    | some found =>
      rcases found with ⟨us, rest''⟩
      rw [hunits] at h
      rcases Option.map_eq_some_iff.mp h with ⟨text, htext, heq⟩
      cases heq
      rw [units_append hunits]
      simp [htext]
  rw [hp, string_quote] at hstring
  cases hstring
  exact ⟨rfl, rfl⟩

/-! ### Objects that were written -/

theorem skip_cons (hc : isBlank c = false) (cs : Text) : skip (c :: cs) = c :: cs := by
  rw [skip, List.dropWhile_cons_of_neg (by simp [hc])]

theorem skip_space (cs : Text) : skip (' ' :: cs) = skip cs :=
  List.dropWhile_cons_of_pos (by decide)

theorem quote_append (s rest : Text) :
    quote s ++ rest = '"' :: (s.flatMap escape ++ '"' :: rest) := by
  simp [quote]

theorem skip_quote (s rest : Text) : skip (quote s ++ rest) = quote s ++ rest := by
  rw [quote_append, skip_cons (by decide)]

theorem value_quote (n : ℕ) (s rest : Text) :
    value (n + 1) (quote s ++ rest) = some (.text s, rest) := by
  rw [quote_append, value, if_pos rfl, string_quote]
  rfl

theorem members_member (n : ℕ) (key v rest : Text) :
    members (n + 2) (quote key ++ ':' :: ' ' :: (quote v ++ rest)) =
      if (skip rest).head? = some '}' then some ([(key, .text v)], (skip rest).drop 1)
      else if (skip rest).head? = some ',' then
        (members (n + 1) (skip ((skip rest).drop 1))).map (Prod.map ((key, .text v) :: ·) id)
      else none := by
  have hcolon := skip_cons (c := ':') (by decide) (' ' :: (quote v ++ rest))
  rw [quote_append, members, if_pos List.head?_cons]
  simp only [List.drop_succ_cons, List.drop_zero, string_quote, hcolon, List.head?_cons, if_true,
    skip_space, skip_quote, value_quote]

theorem skip_membersText (hms : ms ≠ []) (rest : Text) :
    skip (membersText ms ++ rest) = membersText ms ++ rest := by
  match ms, hms with
  | [member], _ => simp only [membersText, List.append_assoc, skip_quote]
  | member :: member' :: ms, _ => simp only [membersText, List.append_assoc, skip_quote]

theorem members_membersText (hms : ms ≠ []) (hn : ms.length < n) (rest : Text) :
    members n (membersText ms ++ rest) = some (ms.map (Prod.map id .text), rest) := by
  induction ms generalizing n with
  | nil => exact absurd rfl hms
  | cons member ms ih =>
    obtain ⟨n, rfl⟩ : ∃ m, n = m + 2 := ⟨n - 2, by simp at hn; omega⟩
    cases ms with
    | nil =>
      have hend := skip_cons (c := '}') (by decide) rest
      simp only [membersText, List.append_assoc, List.cons_append, List.nil_append, members_member,
        hend, List.head?_cons, if_true]
      rfl
    | cons member' ms =>
      have hcomma := skip_cons (c := ',') (by decide) (' ' :: (membersText (member' :: ms) ++ rest))
      have hrest := ih (List.cons_ne_nil _ _) (n := n + 1) (by simp at hn ⊢; omega)
      simp only [membersText, List.append_assoc, List.cons_append, members_member, hcomma,
        List.head?_cons, List.drop_succ_cons, List.drop_zero, skip_space,
        skip_membersText (List.cons_ne_nil _ _), hrest]
      rfl

theorem length_lt_membersText (ms : List (Text × Text)) : ms.length < (membersText ms).length := by
  induction ms with
  | nil => simp [membersText]
  | cons member ms ih =>
    cases ms with
    | nil =>
      simp only [membersText, List.length_append, List.length_cons, List.length_nil]
      omega
    | cons member' ms =>
      rw [membersText]
      simp only [List.length_append, List.length_cons] at ih ⊢
      omega

theorem loads_dumps (hms : ms ≠ []) :
    loads (dumps ms) = some (.object (ms.map (Prod.map id .text))) := by
  have hopen : (membersText ms).head? ≠ some '}' := by
    match ms, hms with
    | [member], _ => simp [membersText, quote]
    | member :: member' :: ms, _ => simp [membersText, quote]
  have hskip := skip_membersText hms []
  have hread := members_membersText hms (n := (dumps ms).length)
    (Nat.lt_succ_of_lt (length_lt_membersText ms)) []
  rw [List.append_nil] at hskip hread
  rw [loads, dumps, skip_cons (by decide), value, if_neg (by decide), if_pos rfl, hskip,
    if_neg hopen, ← dumps, hread]
  rfl

/-! ### Objects that are broken off -/

theorem value_nil (n : ℕ) : value n [] = none := by cases n <;> rfl

theorem members_nil (n : ℕ) : members n [] = none := by cases n <;> rfl

theorem cons_of_append {d : Char} (h : p ++ q = d :: cs) (hp : p ≠ []) :
    ∃ p', p = d :: p' ∧ p' ++ q = cs := by
  cases p with
  | nil => exact absurd rfl hp
  | cons c p =>
    rw [List.cons_append, List.cons.injEq] at h
    exact ⟨p, by rw [h.1], h.2⟩

theorem members_of_append {key v tail : Text} {found : List (Text × Json) × Text}
    (hp : p ++ q = quote key ++ ':' :: ' ' :: (quote v ++ tail))
    (h : members (n + 1) p = some found) :
    ∃ r, r ++ q = tail ∧ ((skip r).head? = some '}' ∨
      (skip r).head? = some ',' ∧ ∃ found', members n (skip ((skip r).drop 1)) = some found') := by
  have hne : p ≠ [] := by
    rintro rfl
    cases h
  rw [quote_append] at hp
  rcases cons_of_append hp hne with ⟨p₁, rfl, hp₁⟩
  rw [members, if_pos List.head?_cons, List.drop_one, List.tail_cons] at h
  -- the key is read as it was written, then the colon and the value in turn
  cases hkey : string p₁ with
  | none =>
    rw [hkey] at h
    cases h
  | some first =>
    rcases first with ⟨key', r₁⟩
    have hr₁ := (string_of_append hp₁ hkey).2
    rw [hkey] at h
    dsimp only at h
    split_ifs at h with hcolon
    have hne₁ : r₁ ≠ [] := by
      rintro rfl
      cases hcolon
    rcases cons_of_append hr₁ hne₁ with ⟨r₂, rfl, hr₂⟩
    rw [skip_cons (by decide), List.drop_one, List.tail_cons] at h
    have hne₂ : r₂ ≠ [] := by
      rintro rfl
      rw [skip, List.dropWhile_nil, value_nil] at h
      cases h
    rcases cons_of_append hr₂ hne₂ with ⟨r₃, rfl, hr₃⟩
    rw [skip_space] at h
    have hne₃ : r₃ ≠ [] := by
      rintro rfl
      rw [skip, List.dropWhile_nil, value_nil] at h
      cases h
    rw [quote_append] at hr₃
    rcases cons_of_append hr₃ hne₃ with ⟨r₄, rfl, hr₄⟩
    rw [skip_cons (by decide)] at h
    cases n with
    | zero => cases h
    | succ n =>
      rw [value, if_pos rfl] at h
      cases hvalue : string r₄ with
      | none =>
        rw [hvalue] at h
        cases h
      | some second =>
        rcases second with ⟨v', r⟩
        rw [hvalue] at h
        refine ⟨r, (string_of_append hr₄ hvalue).2, ?_⟩
        simp only [Option.map_some, Prod.map_apply, id_eq] at h
        split_ifs at h with hend hcomma
        · exact .inl hend
        · rcases Option.map_eq_some_iff.mp h with ⟨found', hfound, _⟩
          exact .inr ⟨hcomma, found', hfound⟩

theorem skip_of_append (hms : ms ≠ []) (hp : p ++ q = membersText ms) : skip p = p := by
  by_cases hne : p = []
  · rw [hne]
    rfl
  · have hquote : ∃ tail, membersText ms = '"' :: tail := by
      match ms, hms with
      | [member], _ => exact ⟨_, by rw [membersText, quote_append]⟩
      | member :: member' :: ms, _ => exact ⟨_, by rw [membersText, quote_append]⟩
    rcases hquote with ⟨tail, htail⟩
    rcases cons_of_append (hp.trans htail) hne with ⟨p', rfl, _⟩
    exact skip_cons (by decide) p'

theorem members_broken (hms : ms ≠ []) (hq : q ≠ []) (hp : p ++ q = membersText ms) :
    members n p = none := by
  induction ms generalizing n p with
  | nil => exact absurd rfl hms
  | cons member ms ih =>
    cases n with
    | zero => rfl
    | succ n =>
      rw [Option.eq_none_iff_forall_ne_some]
      intro found hfound
      cases ms with
      | nil =>
        rw [membersText] at hp
        rcases members_of_append hp hfound with ⟨r, hr, hnext⟩
        have hnil : r = [] := by
          cases r with
          | nil => rfl
          | cons c r => simp [hq] at hr
        subst hnil
        simp [skip] at hnext
      | cons member' ms =>
        rw [membersText] at hp
        rcases members_of_append hp hfound with ⟨r, hr, hnext⟩
        have hne : r ≠ [] := by
          rintro rfl
          simp [skip] at hnext
        rcases cons_of_append hr hne with ⟨r₁, rfl, hr₁⟩
        rw [skip_cons (by decide)] at hnext
        -- after a member the text ends the object or goes on with the next
        rcases hnext with hend | ⟨_, found', hfound'⟩
        · simp at hend
        rw [List.drop_one, List.tail_cons] at hfound'
        have hne₁ : r₁ ≠ [] := by
          rintro rfl
          rw [skip, List.dropWhile_nil, members_nil] at hfound'
          cases hfound'
        rcases cons_of_append hr₁ hne₁ with ⟨r₂, rfl, hr₂⟩
        rw [skip_space, skip_of_append (List.cons_ne_nil _ _) hr₂,
          ih (List.cons_ne_nil _ _) hr₂] at hfound'
        cases hfound'

theorem loads_broken (hms : ms ≠ []) (hq : q ≠ []) (hp : p ++ q = dumps ms) : loads p = none := by
  by_cases hne : p = []
  · subst hne
    rfl
  · rcases cons_of_append hp hne with ⟨p', rfl, hp'⟩
    have hopen : p'.head? ≠ some '}' := by
      intro hhead
      have hfull : (membersText ms).head? = some '}' := by
        rw [← hp', List.head?_append, hhead]
        rfl
      match ms, hms with
      | [member], _ => simp [membersText, quote] at hfull
      | member :: member' :: ms, _ => simp [membersText, quote] at hfull
    rw [loads, skip_cons (by decide), value, if_neg (by decide), if_pos rfl,
      skip_of_append hms hp', if_neg hopen, members_broken hms hq hp']
    rfl

/-! ### The characters of an object -/

theorem hexDigit_printable : ∀ d < 16, 0x20 ≤ (hexDigit d).toNat := by decide

theorem escape_printable (c : Char) : ∀ d ∈ escape c, 0x20 ≤ d.toNat := by
  have hshort : ∀ e : Char, 0x20 ≤ e.toNat → ∀ d ∈ ['\\', e], 0x20 ≤ d.toNat := by
    intro e he
    simp [he]
  unfold escape
  split_ifs with hquote hescape hline hreturn htab hback hfeed hcontrol
  · exact hshort '"' (by decide)
  · exact hshort '\\' (by decide)
  · exact hshort 'n' (by decide)
  · exact hshort 'r' (by decide)
  · exact hshort 't' (by decide)
  · exact hshort 'b' (by decide)
  · exact hshort 'f' (by decide)
  · have hhigh := hexDigit_printable (c.toNat / 16) (by omega)
    have hlow := hexDigit_printable (c.toNat % 16) (by omega)
    simp [hhigh, hlow]
  · simpa using hcontrol

theorem quote_printable (s : Text) : ∀ d ∈ quote s, 0x20 ≤ d.toNat := by
  intro d hd
  simp only [quote, List.mem_cons, List.mem_append, List.mem_flatMap, List.not_mem_nil,
    or_false] at hd
  rcases hd with rfl | ⟨c, _, hc⟩ | rfl
  · decide
  · exact escape_printable c d hc
  · decide

theorem membersText_printable (ms : List (Text × Text)) : ∀ d ∈ membersText ms, 0x20 ≤ d.toNat := by
  induction ms with
  | nil => simp [membersText]
  | cons member ms ih =>
    intro d hd
    cases ms with
    | nil =>
      simp only [membersText, List.mem_append, List.mem_cons, List.not_mem_nil, or_false] at hd
      rcases hd with hd | rfl | rfl | hd | rfl
      · exact quote_printable _ d hd
      · decide
      · decide
      · exact quote_printable _ d hd
      · decide
    | cons member' ms =>
      simp only [membersText, List.mem_append, List.mem_cons] at hd ih
      rcases hd with hd | rfl | rfl | hd | rfl | rfl | hd
      · exact quote_printable _ d hd
      · decide
      · decide
      · exact quote_printable _ d hd
      · decide
      · decide
      · exact ih d hd

theorem dumps_printable (ms : List (Text × Text)) : ∀ d ∈ dumps ms, 0x20 ≤ d.toNat :=
  List.forall_mem_cons.mpr ⟨by decide, membersText_printable ms⟩

theorem membersText_concat (ms : List (Text × Text)) : ∃ body, membersText ms = body ++ ['}'] := by
  induction ms with
  | nil => exact ⟨[], rfl⟩
  | cons member ms ih =>
    cases ms with
    | nil =>
      exact ⟨quote member.1 ++ ':' :: ' ' :: quote member.2, by simp [membersText]⟩
    | cons member' ms =>
      rcases ih with ⟨body, hbody⟩
      refine ⟨quote member.1 ++ ':' :: ' ' :: (quote member.2 ++ ',' :: ' ' :: body), ?_⟩
      simp [membersText, hbody]

end

end JsonText
