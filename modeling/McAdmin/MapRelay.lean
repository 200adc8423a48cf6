import McAdmin.Pattern
import McAdmin.Urllib

/-!
# The relay of the web map

The map is served under the address the owner configures, and a request names a path below it.
`_resolve` normalises the path, joins it to the address and refuses what does not start with it.
Percent-escapes are not looked into: what the map's server decodes may climb out again.
-/

namespace MapRelay

open Backtracking (CharTable Pattern)
open Urllib
open Urls (Text Url Below Within byteMarks directory percentDecode place readUrl endsPath)

/-! ### The address of the map -/

variable (u : CharTable)

def cleanMapUrl (mapUrl : Text) : Text := ((u.strip mapUrl).takeWhile (· ≠ '#')).rdropWhile (· = '/')

def mapUrlRe : Pattern :=
  .str "http" ++ .opt (.str "s") ++ .str "://" ++ .many true (!u.isSpace ·) 1 (some 200) ++ .stop

def MapUrl : Type :=
  { url : Text // (∃ mapUrl, cleanMapUrl u mapUrl = url) ∧ (mapUrlRe u).atStart url ≠ none }

/-! ### The path of a request -/

/-- `posixpath.splitroot`: the slashes in front, and the rest. -/
def splitroot (path : Text) : Text × Text :=
  if path.head? ≠ some '/' then ([], path)
  else if (path.drop 1).head? ≠ some '/' ∨ (path.drop 2).head? = some '/' then
    (['/'], path.drop 1)
  else ("//".toList, path.drop 2)

/-- One round of the loop of `posixpath.normpath`. -/
def addComp (initialSlashes : Text) (newComps : List Text) (comp : Text) : List Text :=
  if comp = [] ∨ comp = ".".toList then newComps
  else if comp ≠ "..".toList ∨ (initialSlashes = [] ∧ newComps = []) ∨
      newComps.getLast? = some "..".toList then
    newComps ++ [comp]
  else newComps.dropLast

def normpath (path : Text) : Text :=
  if path = [] then ".".toList
  else
    let (initialSlashes, rest) := splitroot path
    let comps := (rest.splitOn '/').foldl (addComp initialSlashes) []
    let path := initialSlashes ++ ['/'].intercalate comps
    if path = [] then ".".toList else path

def requested (path : Text) : Text :=
  let clean := (normpath ('/' :: path)).dropWhile (· = '/')
  if clean = ".".toList then [] else clean

inductive Raised where
  | valueError (e : ValueError)
  /-- `MapUnreachable`, whose message quotes the path. -/
  | mapUnreachable (path : Text)
deriving DecidableEq

variable (checks : Checks)

def resolve (baseUrl path query : Text) : Except Raised Text := do
  let base := baseUrl.rdropWhile (· = '/') ++ ['/']
  let clean := requested path
  let target ← (urljoin checks base clean).mapError .valueError
  if ¬ base <+: target ∧ target ≠ base.rdropWhile (· = '/') then throw (.mapUnreachable path)
  return if query ≠ [] then target ++ '?' :: query else target

/-! ### What it promises -/

def Confined (baseUrl url : Text) : Prop :=
  ∃ base found, readUrl baseUrl = some base ∧ readUrl url = some found ∧ Within found base

/-- The request, read as a reference of the map's own scheme, asks for this place. -/
def AsksFor (baseUrl path found : Text) : Prop :=
  ∃ b r, urlparse checks (baseUrl ++ ['/']) [] = .ok b ∧
    urlparse checks (requested path) b.scheme = .ok r ∧ r.scheme = b.scheme ∧
    asked b r = some found

/-- What the request asks for below the address does not climb out of it for good when its escapes
are decoded.  Of an address with a query, nothing but the query can change. -/
def Stays (baseUrl path : Text) : Prop :=
  '?' ∈ baseUrl ∨ requested path = [] ∨
    ∀ rest, AsksFor checks baseUrl path (place baseUrl ++ '/' :: rest) →
      byteMarks.ComesBack (directory ((place baseUrl).dropWhile (· ≠ '/')))
        ((percentDecode (PlainText.encode rest)).splitOn 47)

/-! ### The parts of the address -/

structure MapScheme (scheme : Text) : Prop where
  plain : PlainScheme scheme
  relative : scheme ∈ usesRelative
  netloc : scheme ∈ usesNetloc
  ne_nil : scheme ≠ []

theorem mapScheme_http : MapScheme "http".toList where
  plain := ⟨by decide, by decide, by decide⟩
  relative := by decide
  netloc := by decide
  ne_nil := by decide

theorem mapScheme_https : MapScheme "https".toList where
  plain := ⟨by decide, by decide, by decide⟩
  relative := by decide
  netloc := by decide
  ne_nil := by decide

section

variable {u} {checks} {baseUrl scheme found rest tail path query url : Text}

structure Parts (baseUrl scheme found tail : Text) : Prop where
  eq : baseUrl = scheme ++ "://".toList ++ (found ++ tail)
  scheme : MapScheme scheme
  found : ∀ c ∈ found, endsPath c = false
  tail : tail = [] ∨ ∃ query, tail = '?' :: query

theorem matches_scheme (h : (mapUrlRe u).atStart baseUrl ≠ none) :
    ∃ scheme rest, MapScheme scheme ∧ baseUrl = scheme ++ "://".toList ++ rest := by
  obtain ⟨hit, hhit⟩ := Backtracking.atStart_ne_none.mp h
  unfold mapUrlRe at hhit
  obtain ⟨_, hhit, -⟩ := Backtracking.mem_hits_append.mp hhit
  obtain ⟨_, hhit, -⟩ := Backtracking.mem_hits_append.mp hhit
  obtain ⟨both, hboth, slashes, hslashes, -⟩ := Backtracking.mem_hits_append.mp hhit
  obtain ⟨http, hhttp, s, hs, rfl⟩ := Backtracking.mem_hits_append.mp hboth
  obtain ⟨-, -, hrest⟩ := Backtracking.mem_hits_lit.mp hhttp
  obtain ⟨-, -, hlast⟩ := Backtracking.mem_hits_lit.mp hslashes
  rcases Backtracking.mem_hits_opt.mp hs with hs | rfl
  · obtain ⟨-, -, hmiddle⟩ := Backtracking.mem_hits_lit.mp hs
    refine ⟨"https".toList, slashes.rest, mapScheme_https, ?_⟩
    rw [hrest, hmiddle, hlast]
    rfl
  · refine ⟨"http".toList, slashes.rest, mapScheme_http, ?_⟩
    rw [hrest, hlast, List.append_assoc]

theorem MapUrl.parts (base : MapUrl u) : ∃ scheme found tail, Parts base.val scheme found tail := by
  obtain ⟨⟨mapUrl, hclean⟩, hmatch⟩ := base.property
  obtain ⟨scheme, rest, hscheme, heq⟩ := matches_scheme hmatch
  refine ⟨scheme, rest.takeWhile (!endsPath ·), rest.dropWhile (!endsPath ·), ?_, hscheme, ?_, ?_⟩
  · rw [List.takeWhile_append_dropWhile]
    exact heq
  · intro c hc
    simpa using List.mem_takeWhile_imp hc
  · cases htail : rest.dropWhile (!endsPath ·) with
    | nil => exact .inl rfl
    | cons c query =>
      refine .inr ⟨query, ?_⟩
      have hends : endsPath c = true := by
        have hhead := List.head?_dropWhile_not (!endsPath ·) rest
        rw [htail] at hhead
        simpa using hhead
      have hmem : c ∈ base.val := by
        rw [heq]
        refine List.mem_append_right _ ((List.dropWhile_sublist (!endsPath ·)).subset ?_)
        rw [htail]
        exact List.mem_cons_self
      have hhash : c ≠ '#' := by
        rw [← hclean] at hmem
        have hkept := List.mem_takeWhile_imp ((List.rdropWhile_prefix _ _).subset hmem)
        simpa using hkept
      simp only [endsPath, Bool.or_eq_true, beq_iff_eq] at hends
      rw [hends.resolve_right hhash]

theorem MapUrl.rstrip (base : MapUrl u) : base.val.rdropWhile (· = '/') = base.val := by
  obtain ⟨⟨mapUrl, hclean⟩, -⟩ := base.property
  rw [← hclean, cleanMapUrl, List.rdropWhile_idempotent]

theorem Parts.ends (h : Parts baseUrl scheme found tail) : ∀ c ∈ tail.head?, endsPath c = true := by
  rcases h.tail with rfl | ⟨query, rfl⟩
  · exact fun c hc => by cases hc
  · intro c hc
    rw [← Option.some.inj hc]
    rfl

theorem Parts.place (h : Parts baseUrl scheme found tail) : place baseUrl = found := by
  rw [h.eq]
  exact Urls.place_append h.scheme.plain.not_mem h.found h.ends

theorem dropWhile_slash (found rest : Text) :
    (found ++ '/' :: rest).dropWhile (· ≠ '/') = found.dropWhile (· ≠ '/') ++ '/' :: rest := by
  induction found with
  | nil => rfl
  | cons c found ih =>
    by_cases hc : c = '/'
    · rw [hc]
      rfl
    · rw [List.cons_append, List.dropWhile_cons_of_pos (by simpa using hc),
        List.dropWhile_cons_of_pos (by simpa using hc), ih]

theorem takeWhile_slash (found rest : Text) :
    (found ++ '/' :: rest).takeWhile (· ≠ '/') = found.takeWhile (· ≠ '/') := by
  induction found with
  | nil => rfl
  | cons c found ih =>
    by_cases hc : c = '/'
    · rw [hc]
      rfl
    · rw [List.cons_append, List.takeWhile_cons_of_pos (by simpa using hc),
        List.takeWhile_cons_of_pos (by simpa using hc), ih]

theorem Parts.readUrl (h : Parts baseUrl scheme found tail) : readUrl baseUrl =
    some ⟨scheme, found.takeWhile (· ≠ '/'), found.dropWhile (· ≠ '/')⟩ := by
  rw [h.eq]
  exact Urls.readUrl_append h.scheme.plain.not_mem h.found h.ends

theorem Parts.confined_self (h : Parts baseUrl scheme found tail)
    (hrest : ∀ c ∈ rest.head?, endsPath c = true) :
    Confined baseUrl (scheme ++ "://".toList ++ (found ++ rest)) :=
  ⟨_, _, h.readUrl, Urls.readUrl_append h.scheme.plain.not_mem h.found hrest, rfl, rfl,
    Urls.below_self _⟩

theorem Parts.confined_iff (h : Parts baseUrl scheme found tail) {more : Text}
    (hrest : ∀ c ∈ rest, endsPath c = false) (hmore : ∀ c ∈ more.head?, endsPath c = true) :
    Confined baseUrl (scheme ++ "://".toList ++ (found ++ '/' :: rest ++ more)) ↔
      byteMarks.ComesBack (directory (found.dropWhile (· ≠ '/')))
        ((percentDecode (PlainText.encode rest)).splitOn 47) := by
  have hfound : ∀ c ∈ found ++ '/' :: rest, endsPath c = false := by
    intro c hc
    rcases List.mem_append.mp hc with hc | hc
    · exact h.found c hc
    · rcases List.mem_cons.mp hc with rfl | hc
      · rfl
      · exact hrest c hc
  have hurl := Urls.readUrl_append h.scheme.plain.not_mem hfound hmore
  rw [takeWhile_slash, dropWhile_slash] at hurl
  rw [← Urls.below_slash]
  constructor
  · rintro ⟨base, url, hb, hu, hwithin⟩
    rw [h.readUrl] at hb
    rw [hurl] at hu
    rw [← Option.some.inj hb, ← Option.some.inj hu] at hwithin
    exact hwithin.path
  · intro hbelow
    exact ⟨_, _, h.readUrl, hurl, rfl, rfl, hbelow⟩

/-! ### What is joined -/

theorem addComp_mem {slashes : Text} {comps : List Text} {comp text : Text}
    (h : text ∈ addComp slashes comps comp) : text ∈ comps ∨ (text = comp ∧ text ≠ []) := by
  unfold addComp at h
  split_ifs at h with hskip
  · exact .inl h
  · refine (List.mem_append.mp h).imp_right fun h => ?_
    obtain rfl := List.mem_singleton.mp h
    exact ⟨rfl, fun hnil => hskip (.inl hnil)⟩
  · exact .inl (List.mem_of_mem_dropLast h)

theorem foldl_addComp_mem {slashes : Text} {comps found : List Text} {text : Text}
    (h : text ∈ comps.foldl (addComp slashes) found) :
    text ∈ found ∨ (text ∈ comps ∧ text ≠ []) := by
  induction comps generalizing found with
  | nil => exact .inl h
  | cons comp comps ih =>
    rcases ih h with h | ⟨h, hne⟩
    · refine (addComp_mem h).imp_right fun h => ?_
      exact ⟨h.1 ▸ List.mem_cons_self, h.2⟩
    · exact .inr ⟨List.mem_cons_of_mem _ h, hne⟩

theorem not_mem_splitOn {text : Text} (h : text ∈ path.splitOn '/') : '/' ∉ text := by
  induction path generalizing text with
  | nil =>
    rw [List.splitOn_nil, List.mem_singleton] at h
    rw [h]
    exact List.not_mem_nil
  | cons c path ih =>
    rw [List.splitOn_cons_eq_if_modifyHead] at h
    by_cases hc : (c == '/') = true
    · rw [if_pos hc] at h
      rcases List.mem_cons.mp h with rfl | h
      · exact List.not_mem_nil
      · exact ih h
    · rw [if_neg hc] at h
      cases hsplit : path.splitOn '/' with
      | nil => exact absurd hsplit (List.splitOn_ne_nil _ _)
      | cons first rest =>
        rw [hsplit] at h ih
        rcases List.mem_cons.mp h with rfl | h
        · intro hmem
          rcases List.mem_cons.mp hmem with heq | hmem
          · exact hc (beq_iff_eq.mpr heq.symm)
          · exact ih List.mem_cons_self hmem
        · exact ih (List.mem_cons_of_mem _ h)

theorem intercalate_no_slashes {comps : List Text} (hne : ∀ comp ∈ comps, comp ≠ [])
    (hslash : ∀ comp ∈ comps, '/' ∉ comp) : ¬ "//".toList <:+: ['/'].intercalate comps := by
  rintro ⟨before, after, heq⟩
  by_cases hcomps : comps = []
  · rw [hcomps] at heq
    simp at heq
  · have hsplit := List.splitOn_intercalate '/' hslash hcomps
    have hcut : before ++ "//".toList ++ after = before ++ '/' :: ([] ++ '/' :: after) := by
      rw [List.append_assoc]
      rfl
    rw [← heq, hcut, List.splitOn_append_cons_self, List.splitOn_append_cons_self] at hsplit
    refine hne [] ?_ rfl
    rw [← hsplit]
    exact List.mem_append_right _ List.mem_cons_self

theorem splitroot_slashes (path : Text) : ∀ c ∈ (splitroot path).1, c = '/' := by
  unfold splitroot
  split_ifs <;> simp

theorem requested_no_slashes (path : Text) : ¬ "//".toList <:+: requested path := by
  have hone : ¬ "//".toList <:+: ".".toList := by decide
  have hnone : ¬ "//".toList <:+: ([] : Text) := by decide
  have hnorm : ¬ "//".toList <:+: (normpath ('/' :: path)).dropWhile (· = '/') := by
    have hcomps : ¬ "//".toList <:+: ['/'].intercalate
        (((splitroot ('/' :: path)).2.splitOn '/').foldl (addComp (splitroot ('/' :: path)).1) []) := by
      have hmem : ∀ comp ∈ ((splitroot ('/' :: path)).2.splitOn '/').foldl
          (addComp (splitroot ('/' :: path)).1) [], '/' ∉ comp ∧ comp ≠ [] := by
        intro comp hcomp
        rcases foldl_addComp_mem hcomp with h | ⟨h, hne⟩
        · cases h
        · exact ⟨not_mem_splitOn h, hne⟩
      exact intercalate_no_slashes (fun comp hcomp => (hmem comp hcomp).2)
        fun comp hcomp => (hmem comp hcomp).1
    rw [normpath, if_neg (List.cons_ne_nil _ _)]
    dsimp only
    split_ifs
    · exact hone
    · rw [List.dropWhile_append_of_pos (by simpa using splitroot_slashes ('/' :: path))]
      exact fun h => hcomps (h.trans (List.dropWhile_suffix _).isInfix)
  rw [requested]
  split_ifs
  · exact hnone
  · exact hnorm

theorem Parts.urlparse_scheme (h : Parts baseUrl scheme found tail) {b : ParseResult}
    (hb : urlparse checks (baseUrl ++ ['/']) [] = .ok b) : b.scheme = scheme := by
  rw [h.eq, List.append_assoc] at hb
  exact Urllib.urlparse_scheme h.scheme.plain hb

theorem Parts.starts (h : Parts baseUrl scheme found tail) {target : Text}
    (hkept : baseUrl ++ ['/'] <+: target ∨ target = baseUrl) :
    scheme ++ "://".toList <+: target := by
  have hbase : scheme ++ "://".toList <+: baseUrl := by
    conv => rhs; rw [h.eq]
    exact List.prefix_append _ _
  rcases hkept with hkept | rfl
  · exact (hbase.trans (List.prefix_append _ _)).trans hkept
  · exact hbase

theorem Parts.asksFor (h : Parts baseUrl scheme found tail) {target : Text}
    (hne : requested path ≠ [])
    (hjoin : urljoin checks (baseUrl ++ ['/']) (requested path) = .ok target)
    (hkept : baseUrl ++ ['/'] <+: target ∨ target = baseUrl) :
    ∃ place more, AsksFor checks baseUrl path place ∧ (∀ c ∈ more.head?, endsPath c = true) ∧
      target = scheme ++ "://".toList ++ (place ++ more) := by
  have hbase : baseUrl ++ ['/'] ≠ [] := by simp
  cases hb : urlparse checks (baseUrl ++ ['/']) [] with
  | error e =>
    rw [urljoin, if_neg hbase, if_neg hne, hb] at hjoin
    cases hjoin
  | ok b =>
    have hscheme := h.urlparse_scheme hb
    cases hr : urlparse checks (requested path) b.scheme with
    | error e =>
      rw [urljoin, if_neg hbase, if_neg hne, hb] at hjoin
      simp only [bind, Except.bind, hr] at hjoin
      cases hjoin
    | ok r =>
      have hslashes : "//".toList <:+: target := by
        refine List.IsInfix.trans ?_ (h.starts hkept).isInfix
        exact ⟨scheme ++ [':'], [], by simp⟩
      -- a path with a scheme of its own is returned unjoined, without any `//`
      by_cases hown : r.scheme = b.scheme
      · obtain ⟨more, hmore, heq⟩ := urljoin_eq hbase hne hb hr hown (hscheme ▸ h.scheme.ne_nil)
          (hscheme ▸ h.scheme.relative) (hscheme ▸ h.scheme.netloc)
        rw [hjoin, hscheme] at heq
        cases hasked : asked b r with
        | some place =>
          refine ⟨place, more, ⟨b, r, hb, hr, hown, hasked⟩, hmore, ?_⟩
          rw [Except.ok.inj heq, hierPart_of_rooted h.scheme.ne_nil h.scheme.netloc hasked]
          simp
        | none =>
          -- without a rooted path the address would not begin like the base
          obtain ⟨-, hpath, hhead⟩ := not_rooted hasked
          obtain ⟨after, hafter⟩ := h.starts hkept
          rw [Except.ok.inj heq, hierPart_of_not_rooted hasked, List.append_assoc] at hafter
          have hrest := (List.cons.inj (List.append_cancel_left hafter)).2
          cases hpath' : askedPath b r with
          | nil => exact absurd hpath' hpath
          | cons c rest =>
            rw [hpath'] at hrest hhead
            exact absurd (congrArg some (List.cons.inj hrest).1.symm) hhead
      · rw [urljoin_other hbase hne hb hr hown] at hjoin
        rw [← Except.ok.inj hjoin] at hslashes
        exact absurd hslashes (requested_no_slashes path)

theorem Parts.urljoin_asked (h : Parts baseUrl scheme found tail) {place : Text}
    (hne : requested path ≠ []) (hasks : AsksFor checks baseUrl path place) :
    (∀ c ∈ place, endsPath c = false) ∧ ∃ more, (∀ c ∈ more.head?, endsPath c = true) ∧
      urljoin checks (baseUrl ++ ['/']) (requested path) =
        .ok (scheme ++ "://".toList ++ (place ++ more)) := by
  obtain ⟨b, r, hb, hr, hown, hasked⟩ := hasks
  have hscheme := h.urlparse_scheme hb
  obtain ⟨more, hmore, heq⟩ := urljoin_eq (by simp) hne hb hr hown (hscheme ▸ h.scheme.ne_nil)
    (hscheme ▸ h.scheme.relative) (hscheme ▸ h.scheme.netloc)
  refine ⟨asked_subset hb hr hasked, more, hmore, ?_⟩
  rw [heq, hscheme, hierPart_of_rooted h.scheme.ne_nil h.scheme.netloc hasked]
  simp

/-! ### The relay -/

theorem resolve_ok (hstrip : baseUrl.rdropWhile (· = '/') = baseUrl) :
    resolve checks baseUrl path query = .ok url ↔
      ∃ target, urljoin checks (baseUrl ++ ['/']) (requested path) = .ok target ∧
        (baseUrl ++ ['/'] <+: target ∨ target = baseUrl) ∧
        url = if query ≠ [] then target ++ '?' :: query else target := by
  have hbase : (baseUrl ++ ['/']).rdropWhile (· = '/') = baseUrl := by
    rw [List.rdropWhile_concat_pos _ _ _ (by simp), hstrip]
  unfold resolve
  rw [hstrip]
  cases hjoin : urljoin checks (baseUrl ++ ['/']) (requested path) with
  | error e => simp [hjoin, bind, Except.bind, Except.mapError]
  | ok target =>
    simp only [hjoin, bind, Except.bind, Except.mapError, hbase, Except.ok.injEq, exists_eq_left']
    by_cases hkept : ¬ baseUrl ++ ['/'] <+: target ∧ target ≠ baseUrl
    · rw [if_pos hkept]
      constructor
      · exact fun h => by cases h
      · rintro ⟨hok, -⟩
        exact absurd hok (not_or.mpr hkept)
    · rw [if_neg hkept]
      have hok : baseUrl ++ ['/'] <+: target ∨ target = baseUrl := by
        rw [not_and_or, not_not, not_not] at hkept
        exact hkept
      constructor
      · exact fun h => ⟨hok, (Except.ok.inj h).symm⟩
      · exact fun h => congrArg Except.ok h.2.symm

theorem query_ends (target query : Text) : ∃ extra : Text,
    (if query ≠ [] then target ++ '?' :: query else target) = target ++ extra ∧
      ∀ c ∈ extra.head?, endsPath c = true := by
  by_cases hquery : query = []
  · exact ⟨[], by rw [if_neg (not_not.mpr hquery), List.append_nil], by simp⟩
  · refine ⟨'?' :: query, by rw [if_pos hquery], fun c hc => ?_⟩
    rw [← Option.some.inj hc]
    rfl

theorem ends_append {more extra : Text} (hmore : ∀ c ∈ more.head?, endsPath c = true)
    (hextra : ∀ c ∈ extra.head?, endsPath c = true) :
    ∀ c ∈ (more ++ extra).head?, endsPath c = true := by
  cases more with
  | nil => exact hextra
  | cons c more => exact hmore

theorem Parts.confined_query {asked : Text} (h : Parts baseUrl scheme found ('?' :: asked))
    {target : Text} (hkept : baseUrl <+: target) : Confined baseUrl target := by
  obtain ⟨after, rfl⟩ := hkept
  have heq : baseUrl ++ after = scheme ++ "://".toList ++ (found ++ ('?' :: (asked ++ after))) := by
    conv => lhs; rw [h.eq]
    simp
  rw [heq]
  refine h.confined_self fun c hc => ?_
  rw [← Option.some.inj hc]
  rfl

theorem Parts.place_eq (h : Parts baseUrl scheme found []) {place more target : Text}
    (hplace : ∀ c ∈ place, endsPath c = false) (hmore : ∀ c ∈ more.head?, endsPath c = true)
    (htarget : target = scheme ++ "://".toList ++ (place ++ more))
    (hkept : baseUrl ++ ['/'] <+: target) : ∃ rest, place = found ++ '/' :: rest := by
  obtain ⟨after, hafter⟩ := hkept
  rw [htarget] at hafter
  conv at hafter => lhs; rw [h.eq]
  simp only [List.append_assoc, List.append_nil] at hafter
  have hboth := List.append_cancel_left (List.append_cancel_left hafter)
  refine ⟨after.takeWhile (!endsPath ·), ?_⟩
  rw [← Urls.takeWhile_ends hplace hmore, ← hboth,
    List.takeWhile_append_of_pos (by simpa using h.found)]
  rfl

theorem comesBack_nil (base : List Urls.Bytes) :
    byteMarks.ComesBack base ((percentDecode (PlainText.encode [])).splitOn 47) := by
  have hdrop : base.drop (base.length - 0) = [] := by
    rw [Nat.sub_zero, List.drop_length]
  change base.drop (base.length - 0) <+: _
  rw [hdrop]
  exact List.nil_prefix

theorem Parts.comesBack (h : Parts baseUrl scheme found [])
    (hstrip : baseUrl.rdropWhile (· = '/') = baseUrl) (hne : requested path ≠ [])
    (hasks : AsksFor checks baseUrl path (found ++ '/' :: rest))
    (hall : ∀ url, resolve checks baseUrl path query = .ok url → Confined baseUrl url) :
    byteMarks.ComesBack (directory (found.dropWhile (· ≠ '/')))
      ((percentDecode (PlainText.encode rest)).splitOn 47) := by
  obtain ⟨hplace, more, hmore, hjoin⟩ := h.urljoin_asked hne hasks
  have hkept : baseUrl ++ ['/'] <+: scheme ++ "://".toList ++ (found ++ '/' :: rest ++ more) := by
    refine ⟨rest ++ more, ?_⟩
    conv => lhs; rw [h.eq]
    simp
  have hconfined := hall _ ((resolve_ok hstrip).mpr ⟨_, hjoin, .inl hkept, rfl⟩)
  obtain ⟨extra, hextra, hends⟩ :=
    query_ends (scheme ++ "://".toList ++ (found ++ '/' :: rest ++ more)) query
  rw [hextra, List.append_assoc (scheme ++ "://".toList), List.append_assoc _ more] at hconfined
  refine (h.confined_iff (fun c hc => ?_) (ends_append hmore hends)).mp hconfined
  exact hplace c (List.mem_append_right _ (List.mem_cons_of_mem _ hc))

theorem Parts.confined (h : Parts baseUrl scheme found [])
    (hstrip : baseUrl.rdropWhile (· = '/') = baseUrl)
    (hstays : requested path = [] ∨ ∀ rest, AsksFor checks baseUrl path (found ++ '/' :: rest) →
      byteMarks.ComesBack (directory (found.dropWhile (· ≠ '/')))
        ((percentDecode (PlainText.encode rest)).splitOn 47))
    (hurl : resolve checks baseUrl path query = .ok url) : Confined baseUrl url := by
  obtain ⟨target, hjoin, hkept, rfl⟩ := (resolve_ok hstrip).mp hurl
  obtain ⟨extra, hextra, hends⟩ := query_ends target query
  rw [hextra]
  by_cases hne : requested path = []
  · -- Nothing is asked for but the map itself.
    rw [urljoin, if_neg (by simp), if_pos hne] at hjoin
    have heq : target ++ extra = scheme ++ "://".toList ++ (found ++ '/' :: [] ++ extra) := by
      rw [← Except.ok.inj hjoin]
      conv => lhs; rw [h.eq]
      simp
    rw [heq]
    exact (h.confined_iff (by simp) hends).mpr (comesBack_nil _)
  · by_cases hprefix : baseUrl ++ ['/'] <+: target
    · obtain ⟨place, more, hasks, hmore, htarget⟩ := h.asksFor hne hjoin hkept
      obtain ⟨hplace, -⟩ := h.urljoin_asked hne hasks
      obtain ⟨rest, rfl⟩ := h.place_eq hplace hmore htarget hprefix
      rw [htarget, List.append_assoc (scheme ++ "://".toList), List.append_assoc _ more]
      refine (h.confined_iff (fun c hc => ?_) (ends_append hmore hends)).mpr
        (hstays.resolve_left hne rest hasks)
      exact hplace c (List.mem_append_right _ (List.mem_cons_of_mem _ hc))
    · have heq : target ++ extra = scheme ++ "://".toList ++ (found ++ extra) := by
        rw [hkept.resolve_left hprefix]
        conv => lhs; rw [h.eq]
        simp
      rw [heq]
      exact h.confined_self hends

theorem Parts.not_mem_query (h : Parts baseUrl scheme found []) : '?' ∉ baseUrl := by
  have hscheme : '?' ∉ scheme := by
    intro hmem
    exact absurd (List.all_eq_true.mp h.scheme.plain.chars '?' hmem) (by decide)
  have hfound : '?' ∉ found := by
    intro hmem
    exact absurd (h.found '?' hmem) (by decide)
  rw [h.eq, List.append_nil]
  simp [hscheme, hfound]

end

/-- What the relay asks the map's server for is the map or lies below it, exactly when the request
stays below it once its escapes are decoded. -/
theorem relayed_confined_iff (base : MapUrl u) (path query : Text) :
    (∀ url, resolve checks base.val path query = .ok url → Confined base.val url) ↔
      Stays checks base.val path := by
  obtain ⟨scheme, found, tail, hparts⟩ := base.parts
  unfold Stays
  rw [hparts.place]
  rcases hparts.tail with rfl | ⟨asked, rfl⟩
  · constructor
    · intro hall
      by_cases hne : requested path = []
      · exact .inr (.inl hne)
      · exact .inr (.inr fun rest hasks => hparts.comesBack base.rstrip hne hasks hall)
    · intro hstays url hurl
      exact hparts.confined base.rstrip (hstays.resolve_left hparts.not_mem_query) hurl
  · have hquery : '?' ∈ base.val := by
      rw [hparts.eq]
      simp
    refine iff_of_true (fun url hurl => ?_) (.inl hquery)
    obtain ⟨target, -, hkept, rfl⟩ := (resolve_ok base.rstrip).mp hurl
    obtain ⟨extra, hextra, -⟩ := query_ends target query
    rw [hextra]
    refine hparts.confined_query (List.IsPrefix.trans ?_ (List.prefix_append _ _))
    rcases hkept with hkept | rfl
    · exact (List.prefix_append _ _).trans hkept
    · exact List.prefix_rfl

def noChecks : Checks where
  bracketed _ := true
  nfkc text := text

def folderMap : MapUrl CharTable.ascii :=
  ⟨"http://h/map".toList, ⟨"http://h/map".toList, by decide⟩, by decide⟩

/-- An escaped `..` is relayed, and leads out of the folder. -/
theorem escaped_not_confined :
    ¬ ∀ (u : CharTable) (checks : Checks) (base : MapUrl u) (path query url : Text),
      resolve checks base.val path query = .ok url → Confined base.val url := by
  intro hall
  obtain ⟨base, found, hbase, hfound, hwithin⟩ := hall CharTable.ascii noChecks folderMap
    "%2e%2e/x".toList [] "http://h/map/%2e%2e/x".toList rfl
  have hpath := hwithin.path
  rw [← Option.some.inj hbase, ← Option.some.inj hfound] at hpath
  exact absurd hpath (by decide)

end MapRelay
