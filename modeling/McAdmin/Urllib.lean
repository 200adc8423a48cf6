import Mathlib.Data.List.DropRight
import Mathlib.Tactic.SplitIfs
import McAdmin.Urls

/-!
# Addresses as the standard library joins them

`urllib.parse` over texts: an address is cut into its parts, a reference is resolved against a
base, and the parts are put together again.
-/

namespace Urllib

open Urls (Text Marks endsPath)

scoped instance lawfulBEq_text : LawfulBEq Text := inferInstance

/-! ### Cutting an address up -/

structure SplitResult where
  scheme : Text
  netloc : Text
  path : Text
  query : Text
  fragment : Text
deriving DecidableEq

structure ParseResult extends SplitResult where
  params : Text
deriving DecidableEq

inductive ValueError where
  | invalidIPv6
  | invalidHost
  | invalidNetloc (netloc : Text)
deriving DecidableEq

/-- What the module leaves to `ipaddress` and to the tables of `unicodedata`. -/
structure Checks where
  /-- Whether an authority with brackets passes `_check_bracketed_netloc`. -/
  bracketed : Text → Bool
  /-- `unicodedata.normalize("NFKC", text)` -/
  nfkc : Text → Text

def usesRelative : List Text :=
  ["", "ftp", "http", "gopher", "nntp", "imap", "wais", "file", "https", "shttp", "mms", "prospero",
    "rtsp", "rtsps", "rtspu", "sftp", "svn", "svn+ssh", "ws", "wss"].map String.toList

def usesNetloc : List Text :=
  ["", "ftp", "http", "gopher", "nntp", "telnet", "imap", "wais", "file", "mms", "https", "shttp",
    "snews", "prospero", "rtsp", "rtsps", "rtspu", "rsync", "svn", "svn+ssh", "sftp", "nfs", "git",
    "git+ssh", "ws", "wss", "itms-services"].map String.toList

def usesParams : List Text :=
  ["", "ftp", "hdl", "prospero", "http", "imap", "https", "shttp", "rtsp", "rtsps", "rtspu", "sip",
    "sips", "mms", "sftp", "tel"].map String.toList

/-- `_WHATWG_C0_CONTROL_OR_SPACE` -/
def isC0OrSpace (c : Char) : Bool := c.toNat ≤ 32

/-- `_UNSAFE_URL_BYTES_TO_REMOVE` -/
def isUnsafe (c : Char) : Bool := c == '\t' || c == '\r' || c == '\n'

/-- `scheme_chars` -/
def isSchemeChar (c : Char) : Bool := c.isAlphanum || c == '+' || c == '-' || c == '.'

/-- `text.split(c, 1)`, with nothing after a text that does not have `c`. -/
def cut (c : Char) (text : Text) : Text × Text :=
  (text.takeWhile (· ≠ c), (text.dropWhile (· ≠ c)).drop 1)

def splitScheme (scheme url : Text) : Text × Text :=
  let name := url.takeWhile (· ≠ ':')
  if ':' ∈ url ∧ name.head?.any Char.isAlpha = true ∧ name.all isSchemeChar = true then
    (name.map Char.toLower, (url.dropWhile (· ≠ ':')).drop 1)
  else (scheme, url)

def endsNetloc (c : Char) : Bool := c == '/' || c == '?' || c == '#'

/-- `_splitnetloc(url, 2)`, of an address that starts with `//`. -/
def splitNetloc (url : Text) : Text × Text :=
  if url.take 2 = "//".toList then
    ((url.drop 2).takeWhile (!endsNetloc ·), (url.drop 2).dropWhile (!endsNetloc ·))
  else ([], url)

variable (checks : Checks)

def checkBrackets (netloc : Text) : Except ValueError Unit :=
  if ('[' ∈ netloc ∧ ']' ∉ netloc) ∨ (']' ∈ netloc ∧ '[' ∉ netloc) then .error .invalidIPv6
  else if '[' ∈ netloc ∧ ']' ∈ netloc ∧ checks.bracketed netloc = false then .error .invalidHost
  else .ok ()

def checkNetloc (netloc : Text) : Except ValueError Unit :=
  if netloc = [] ∨ netloc.all (·.toNat < 128) = true then .ok ()
  else
    let n := netloc.filter fun c => !("@:#?".toList.contains c)
    let netloc2 := checks.nfkc n
    if n = netloc2 then .ok ()
    else if netloc2.any ("/?#@:".toList.contains ·) = true then .error (.invalidNetloc netloc)
    else .ok ()

def urlsplit (url scheme : Text) : Except ValueError SplitResult := do
  let url := (url.dropWhile isC0OrSpace).filter (!isUnsafe ·)
  let scheme := ((scheme.dropWhile isC0OrSpace).rdropWhile isC0OrSpace).filter (!isUnsafe ·)
  let (scheme, url) := splitScheme scheme url
  let (netloc, url) := splitNetloc url
  checkBrackets checks netloc
  let (url, fragment) := cut '#' url
  let (url, query) := cut '?' url
  checkNetloc checks netloc
  return { scheme, netloc, path := url, query, fragment }

/-- `_splitparams`: what follows a `;` in the last segment. -/
def splitParams (url : Text) : Text × Text :=
  let last := url.rtakeWhile (· ≠ '/')
  if ';' ∈ last then
    (url.rdropWhile (· ≠ '/') ++ last.takeWhile (· ≠ ';'), (last.dropWhile (· ≠ ';')).drop 1)
  else (url, [])

def urlparse (url scheme : Text) : Except ValueError ParseResult := do
  let found ← urlsplit checks url scheme
  let (path, params) :=
    if found.scheme ∈ usesParams ∧ ';' ∈ found.path then splitParams found.path
    else (found.path, [])
  return { found with path, params }

/-! ### Putting it together -/

/-- The authority and the path, as `urlunsplit` writes them after the scheme. -/
def hierPart (scheme netloc url : Text) : Text :=
  if netloc ≠ [] then
    "//".toList ++ netloc ++ if url ≠ [] ∧ url.head? ≠ some '/' then '/' :: url else url
  else if url.take 2 = "//".toList then "//".toList ++ url
  else if scheme ≠ [] ∧ scheme ∈ usesNetloc ∧ (url = [] ∨ url.head? = some '/') then
    "//".toList ++ url
  else url

def urlunsplit (r : SplitResult) : Text :=
  let url := hierPart r.scheme r.netloc r.path
  let url := if r.scheme ≠ [] then r.scheme ++ ':' :: url else url
  let url := if r.query ≠ [] then url ++ '?' :: r.query else url
  if r.fragment ≠ [] then url ++ '#' :: r.fragment else url

def withParams (path params : Text) : Text := if params ≠ [] then path ++ ';' :: params else path

def urlunparse (r : ParseResult) : Text :=
  urlunsplit { r.toSplitResult with path := withParams r.path r.params }

/-! ### Joining -/

def textMarks : Marks Text := ⟨".".toList, "..".toList, []⟩

/-- The directories of the base, without the name after its last slash. -/
def baseParts (path : Text) : List Text :=
  let parts := path.splitOn '/'
  if parts.getLast? = some [] then parts else parts.dropLast

/-- `segments[1:-1] = filter(None, segments[1:-1])` -/
def withoutEmpty : List Text → List Text
  | [] => []
  | first :: rest => first :: (rest.dropLast.filter (· ≠ []) ++ rest.getLast?.toList)

/-- The path of a reference, resolved against the path of the base. -/
def joinPath (basePath path : Text) : Text :=
  let segments :=
    if path.head? = some '/' then path.splitOn '/'
    else withoutEmpty (baseParts basePath ++ path.splitOn '/')
  let resolved := ['/'].intercalate (textMarks.removeDots segments)
  if resolved = [] then ['/'] else resolved

def urljoin (base url : Text) : Except ValueError Text :=
  if base = [] then .ok url
  else if url = [] then .ok base
  else do
    let b ← urlparse checks base []
    let r ← urlparse checks url b.scheme
    if r.scheme ≠ b.scheme ∨ r.scheme ∉ usesRelative then return url
    if r.scheme ∈ usesNetloc ∧ r.netloc ≠ [] then return urlunparse r
    let netloc := if r.scheme ∈ usesNetloc then b.netloc else r.netloc
    if r.path = [] ∧ r.params = [] then
      return urlunparse { r with
        netloc
        path := b.path
        params := b.params
        query := if r.query = [] then b.query else r.query }
    return urlunparse { r with netloc, path := joinPath b.path r.path }

/-! ### What the parts are made of -/

section

variable {checks} {c : Char} {url scheme text path params basePath : Text} {found : SplitResult}
  {r : ParseResult}

theorem not_mem_cut (c : Char) (text : Text) : c ∉ (cut c text).1 := by
  intro h
  have hne := List.mem_takeWhile_imp h
  simp at hne

theorem splitParams_subset :
    (∀ c ∈ (splitParams text).1, c ∈ text) ∧ ∀ c ∈ (splitParams text).2, c ∈ text := by
  have hlast : ∀ c ∈ text.rtakeWhile (· ≠ '/'), c ∈ text := fun c hc =>
    (List.rtakeWhile_suffix _ _).subset hc
  have hfirst : ∀ c ∈ text.rdropWhile (· ≠ '/'), c ∈ text := fun c hc =>
    (List.rdropWhile_prefix _ _).subset hc
  by_cases hparams : ';' ∈ text.rtakeWhile (· ≠ '/')
  · rw [splitParams, if_pos hparams]
    refine ⟨fun c hc => ?_, fun c hc => ?_⟩
    · rcases List.mem_append.mp hc with hc | hc
      · exact hfirst c hc
      · exact hlast c (List.takeWhile_subset _ hc)
    · exact hlast c ((List.dropWhile_sublist _).subset (List.mem_of_mem_drop hc))
  · rw [splitParams, if_neg hparams]
    exact ⟨fun c hc => hc, fun c hc => absurd hc List.not_mem_nil⟩

theorem not_mem_splitNetloc : ∀ c ∈ (splitNetloc text).1, endsNetloc c = false := by
  intro c hc
  unfold splitNetloc at hc
  split at hc
  · have hne := List.mem_takeWhile_imp hc
    simpa using hne
  · cases hc

theorem urlsplit_ok (h : urlsplit checks url scheme = .ok found) :
    found.scheme = (splitScheme
      (((scheme.dropWhile isC0OrSpace).rdropWhile isC0OrSpace).filter (!isUnsafe ·))
      ((url.dropWhile isC0OrSpace).filter (!isUnsafe ·))).1 ∧
      (∀ c ∈ found.netloc, endsNetloc c = false) ∧ ∀ c ∈ found.path, endsPath c = false := by
  simp only [urlsplit, bind, Except.bind] at h
  split at h
  · cases h
  split at h
  · cases h
  obtain rfl := Except.ok.inj h
  refine ⟨rfl, not_mem_splitNetloc, fun c hc => ?_⟩
  have hquestion : c ≠ '?' := fun heq => not_mem_cut '?' _ (heq ▸ hc)
  have hhash : c ≠ '#' := fun heq => not_mem_cut '#' _ (heq ▸ List.takeWhile_subset _ hc)
  simp [endsPath, hquestion, hhash]

theorem urlparse_ok (h : urlparse checks url scheme = .ok r) :
    r.scheme = (splitScheme
      (((scheme.dropWhile isC0OrSpace).rdropWhile isC0OrSpace).filter (!isUnsafe ·))
      ((url.dropWhile isC0OrSpace).filter (!isUnsafe ·))).1 ∧
      (∀ c ∈ r.netloc, endsNetloc c = false) ∧ (∀ c ∈ r.path, endsPath c = false) ∧
      ∀ c ∈ r.params, endsPath c = false := by
  cases hsplit : urlsplit checks url scheme with
  | error e =>
    rw [urlparse, hsplit] at h
    cases h
  | ok found =>
    obtain ⟨hscheme, hnetloc, hpath⟩ := urlsplit_ok hsplit
    rw [urlparse, hsplit] at h
    by_cases hparams : found.scheme ∈ usesParams ∧ ';' ∈ found.path
    · simp only [bind, Except.bind, if_pos hparams] at h
      obtain rfl := Except.ok.inj h
      exact ⟨hscheme, hnetloc, fun c hc => hpath c (splitParams_subset.1 c hc),
        fun c hc => hpath c (splitParams_subset.2 c hc)⟩
    · simp only [bind, Except.bind, if_neg hparams] at h
      obtain rfl := Except.ok.inj h
      exact ⟨hscheme, hnetloc, hpath, fun c hc => absurd hc List.not_mem_nil⟩

theorem mem_withParams (h : c ∈ withParams path params) : c ∈ path ∨ c = ';' ∨ c ∈ params := by
  unfold withParams at h
  split at h
  · exact (List.mem_append.mp h).imp_right List.mem_cons.mp
  · exact .inl h

theorem mem_baseParts (h : text ∈ baseParts path) : text ∈ path.splitOn '/' := by
  by_cases hlast : (path.splitOn '/').getLast? = some []
  · rw [baseParts, if_pos hlast] at h
    exact h
  · rw [baseParts, if_neg hlast] at h
    exact List.mem_of_mem_dropLast h

theorem mem_withoutEmpty {texts : List Text} (h : text ∈ withoutEmpty texts) : text ∈ texts := by
  cases texts with
  | nil => cases h
  | cons first rest =>
    rcases List.mem_cons.mp h with rfl | h
    · exact List.mem_cons_self
    · refine List.mem_cons_of_mem _ ?_
      rcases List.mem_append.mp h with h | h
      · exact List.mem_of_mem_dropLast (List.mem_of_mem_filter h)
      · exact List.mem_of_getLast? (Option.mem_toList.mp h)

theorem mem_intercalate {separator : Char} {texts : List Text} :
    c ∈ [separator].intercalate texts →
      c = separator ∨ ∃ text ∈ texts, c ∈ text := by
  induction texts with
  | nil => exact fun h => absurd h List.not_mem_nil
  | cons first rest ih =>
    intro h
    by_cases hrest : rest = []
    · rw [hrest, List.intercalate_singleton] at h
      exact .inr ⟨first, List.mem_cons_self, h⟩
    · rw [List.intercalate_cons_of_ne_nil hrest] at h
      simp only [List.mem_append, List.mem_singleton] at h
      rcases h with (h | h) | h
      · exact .inr ⟨first, List.mem_cons_self, h⟩
      · exact .inl h
      · refine (ih h).imp_right fun hfound => ?_
        obtain ⟨text, htext, hc⟩ := hfound
        exact ⟨text, List.mem_cons_of_mem _ htext, hc⟩

theorem mem_intercalate_of_mem {separator : Char} {texts : List Text} (htext : text ∈ texts)
    (hc : c ∈ text) : c ∈ [separator].intercalate texts := by
  induction texts with
  | nil => cases htext
  | cons first rest ih =>
    by_cases hrest : rest = []
    · rw [hrest, List.mem_singleton] at htext
      rw [hrest, List.intercalate_singleton, ← htext]
      exact hc
    · rw [List.intercalate_cons_of_ne_nil hrest]
      rcases List.mem_cons.mp htext with rfl | htext
      · exact List.mem_append_left _ (List.mem_append_left _ hc)
      · exact List.mem_append_right _ (ih htext)

theorem mem_of_mem_splitOn {separator : Char} (htext : text ∈ path.splitOn separator)
    (hc : c ∈ text) : c ∈ path := by
  have hmem : c ∈ [separator].intercalate (path.splitOn separator) :=
    mem_intercalate_of_mem htext hc
  rw [List.intercalate_splitOn] at hmem
  exact hmem

theorem mem_joinPath (h : c ∈ joinPath basePath path) : c = '/' ∨ c ∈ basePath ∨ c ∈ path := by
  have hresolved : ∀ segments : List Text,
      (∀ text ∈ segments, text ∈ basePath.splitOn '/' ∨ text ∈ path.splitOn '/') →
      c ∈ ['/'].intercalate (textMarks.removeDots segments) →
      c = '/' ∨ c ∈ basePath ∨ c ∈ path := by
    intro segments hsegments hc
    rcases mem_intercalate hc with hc | ⟨text, htext, hc⟩
    · exact .inl hc
    · rcases Marks.mem_removeDots htext with htext | rfl
      · rcases hsegments text htext with htext | htext
        · exact .inr (.inl (mem_of_mem_splitOn htext hc))
        · exact .inr (.inr (mem_of_mem_splitOn htext hc))
      · cases hc
  unfold joinPath at h
  dsimp only at h
  split_ifs at h with hroot hnone hnone
  · exact .inl (List.mem_singleton.mp h)
  · exact hresolved _ (fun text htext => .inr htext) h
  · exact .inl (List.mem_singleton.mp h)
  · refine hresolved _ (fun text htext => ?_) h
    exact (List.mem_append.mp (mem_withoutEmpty htext)).imp_left mem_baseParts

end

/-! ### What a reference asks for -/

def askedNetloc (b r : ParseResult) : Text := if r.netloc ≠ [] then r.netloc else b.netloc

/-- The path a reference asks for: its own where it names a host, that of the base where it has none,
else the one its segments lead to. -/
def askedPath (b r : ParseResult) : Text :=
  if r.netloc ≠ [] then withParams r.path r.params
  else if r.path = [] ∧ r.params = [] then withParams b.path b.params
  else withParams (joinPath b.path r.path) r.params

/-- An authority and a path as one text, where they can stand one after the other. -/
def rooted (netloc path : Text) : Option Text :=
  if path = [] ∨ path.head? = some '/' then some (netloc ++ path)
  else if netloc ≠ [] then some (netloc ++ '/' :: path)
  else none

/-- The place that a reference asks for, from a base whose scheme it has. -/
def asked (b r : ParseResult) : Option Text := rooted (askedNetloc b r) (askedPath b r)

section

variable {checks} {base url scheme netloc path found : Text} {b r : ParseResult}

theorem take_slashes (h : path.take 2 = "//".toList) : path.head? = some '/' := by
  cases path with
  | nil => cases h
  | cons c path => exact congrArg some (List.cons.inj h).1

theorem hierPart_of_rooted (hscheme : scheme ≠ []) (huses : scheme ∈ usesNetloc)
    (h : rooted netloc path = some found) : hierPart scheme netloc path = "//".toList ++ found := by
  unfold rooted at h
  unfold hierPart
  by_cases hroot : path = [] ∨ path.head? = some '/'
  · rw [if_pos hroot] at h
    obtain rfl := Option.some.inj h
    have hkept : ¬ (path ≠ [] ∧ path.head? ≠ some '/') := by
      rintro ⟨hne, hhead⟩
      exact hroot.elim hne hhead
    rw [if_neg hkept, List.append_assoc]
    split_ifs with hnetloc htwo hrest
    · rfl
    · rw [not_not.mp hnetloc, List.nil_append]
    · rw [not_not.mp hnetloc, List.nil_append]
    · exact absurd ⟨hscheme, huses, hroot⟩ hrest
  · rw [if_neg hroot] at h
    obtain ⟨hne, hhead⟩ := not_or.mp hroot
    split_ifs at h with hnetloc
    obtain rfl := Option.some.inj h
    rw [if_pos hnetloc, if_pos ⟨hne, hhead⟩, List.append_assoc]

theorem not_rooted (h : rooted netloc path = none) :
    netloc = [] ∧ path ≠ [] ∧ path.head? ≠ some '/' := by
  unfold rooted at h
  split_ifs at h with hroot hnetloc
  exact ⟨not_not.mp hnetloc, not_or.mp hroot⟩

theorem hierPart_of_not_rooted (h : rooted netloc path = none) :
    hierPart scheme netloc path = path := by
  obtain ⟨hnetloc, hne, hhead⟩ := not_rooted h
  rw [hierPart, if_neg (not_not.mpr hnetloc), if_neg fun htwo => hhead (take_slashes htwo),
    if_neg fun hall => hall.2.2.elim hne hhead]

theorem urlunparse_eq (hscheme : r.scheme ≠ []) :
    ∃ tail : Text, (∀ c ∈ tail.head?, endsPath c = true) ∧ urlunparse r =
      r.scheme ++ ':' :: (hierPart r.scheme r.netloc (withParams r.path r.params) ++ tail) := by
  unfold urlunparse urlunsplit
  dsimp only
  rw [if_pos hscheme]
  by_cases hquery : r.query = []
  · rw [if_neg (not_not.mpr hquery)]
    by_cases hfragment : r.fragment = []
    · rw [if_neg (not_not.mpr hfragment)]
      exact ⟨[], by simp, by rw [List.append_nil]⟩
    · rw [if_pos hfragment]
      refine ⟨'#' :: r.fragment, fun c hc => ?_, by simp⟩
      rw [← Option.some.inj hc]
      rfl
  · rw [if_pos hquery]
    refine ⟨'?' :: r.query ++ if r.fragment ≠ [] then '#' :: r.fragment else [], fun c hc => ?_, ?_⟩
    · rw [← Option.some.inj hc]
      rfl
    · split_ifs <;> simp

theorem urljoin_eq (hbase : base ≠ []) (hurl : url ≠ []) (hb : urlparse checks base [] = .ok b)
    (hr : urlparse checks url b.scheme = .ok r) (hscheme : r.scheme = b.scheme)
    (hne : b.scheme ≠ []) (hrelative : b.scheme ∈ usesRelative) (huses : b.scheme ∈ usesNetloc) :
    ∃ tail : Text, (∀ c ∈ tail.head?, endsPath c = true) ∧ urljoin checks base url =
      .ok (b.scheme ++ ':' :: (hierPart b.scheme (askedNetloc b r) (askedPath b r) ++ tail)) := by
  have hown : ¬ (r.scheme ≠ b.scheme ∨ r.scheme ∉ usesRelative) := by
    rw [hscheme]
    exact not_or.mpr ⟨not_not.mpr rfl, not_not.mpr hrelative⟩
  rw [urljoin, if_neg hbase, if_neg hurl, hb]
  simp only [bind, Except.bind, hr]
  rw [if_neg hown, hscheme]
  by_cases hnetloc : r.netloc = []
  · rw [askedNetloc, askedPath, if_neg (not_not.mpr hnetloc), if_neg (not_not.mpr hnetloc),
      if_neg fun h => h.2 hnetloc, if_pos huses]
    by_cases hnone : r.path = [] ∧ r.params = []
    · rw [if_pos hnone, if_pos hnone]
      obtain ⟨tail, htail, heq⟩ := urlunparse_eq (r := { r with
        scheme := b.scheme
        netloc := b.netloc
        path := b.path
        params := b.params
        query := if r.query = [] then b.query else r.query }) hne
      exact ⟨tail, htail, congrArg Except.ok heq⟩
    · rw [if_neg hnone, if_neg hnone]
      obtain ⟨tail, htail, heq⟩ := urlunparse_eq (r := { r with
        scheme := b.scheme
        netloc := b.netloc
        path := joinPath b.path r.path }) hne
      exact ⟨tail, htail, congrArg Except.ok heq⟩
  · rw [askedNetloc, askedPath, if_pos hnetloc, if_pos hnetloc, if_pos ⟨huses, hnetloc⟩]
    obtain ⟨tail, htail, heq⟩ := urlunparse_eq (r := r) (hscheme ▸ hne)
    rw [hscheme] at heq
    exact ⟨tail, htail, congrArg Except.ok heq⟩

theorem urljoin_other (hbase : base ≠ []) (hurl : url ≠ []) (hb : urlparse checks base [] = .ok b)
    (hr : urlparse checks url b.scheme = .ok r) (hscheme : r.scheme ≠ b.scheme) :
    urljoin checks base url = .ok url := by
  rw [urljoin, if_neg hbase, if_neg hurl, hb]
  simp only [bind, Except.bind, hr]
  rw [if_pos (.inl hscheme)]
  rfl

theorem asked_subset {default : Text} (hb : urlparse checks base scheme = .ok b)
    (hr : urlparse checks url default = .ok r) (h : asked b r = some found) :
    ∀ c ∈ found, endsPath c = false := by
  obtain ⟨-, hbnetloc, hbpath, hbparams⟩ := urlparse_ok hb
  obtain ⟨-, hrnetloc, hrpath, hrparams⟩ := urlparse_ok hr
  have hends : ∀ c, endsNetloc c = false → endsPath c = false := by
    intro c hc
    simp only [endsNetloc, Bool.or_eq_false_iff] at hc
    simp [endsPath, hc]
  -- no part of a parsed address holds a character that ends the path
  have hwith : ∀ path params : Text, (∀ c ∈ path, endsPath c = false) →
      (∀ c ∈ params, endsPath c = false) → ∀ c ∈ withParams path params, endsPath c = false := by
    intro path params hpath hparams c hc
    rcases mem_withParams hc with hc | rfl | hc
    · exact hpath c hc
    · rfl
    · exact hparams c hc
  have hnetloc : ∀ c ∈ askedNetloc b r, endsPath c = false := by
    intro c hc
    unfold askedNetloc at hc
    split_ifs at hc
    · exact hends c (hrnetloc c hc)
    · exact hends c (hbnetloc c hc)
  have hpath : ∀ c ∈ askedPath b r, endsPath c = false := by
    unfold askedPath
    split_ifs
    · exact hwith _ _ hrpath hrparams
    · exact hwith _ _ hbpath hbparams
    · refine hwith _ _ (fun c hc => ?_) hrparams
      rcases mem_joinPath hc with rfl | hc | hc
      · rfl
      · exact hbpath c hc
      · exact hrpath c hc
  unfold asked rooted at h
  intro c hc
  split_ifs at h
  · rw [← Option.some.inj h] at hc
    exact (List.mem_append.mp hc).elim (hnetloc c) (hpath c)
  · rw [← Option.some.inj h] at hc
    rcases List.mem_append.mp hc with hc | hc
    · exact hnetloc c hc
    · rcases List.mem_cons.mp hc with rfl | hc
      · rfl
      · exact hpath c hc

structure PlainScheme (scheme : Text) : Prop where
  starts : scheme.head?.any (fun c => c.isAlpha && !isC0OrSpace c) = true
  chars : scheme.all (fun c => isSchemeChar c && !isUnsafe c && c != ':') = true
  lower : scheme.map Char.toLower = scheme

theorem PlainScheme.not_mem (h : PlainScheme scheme) : ':' ∉ scheme := by
  intro hmem
  have hc := List.all_eq_true.mp h.chars ':' hmem
  simp at hc

theorem urlparse_scheme {rest : Text} (hscheme : PlainScheme scheme)
    (h : urlparse checks (scheme ++ "://".toList ++ rest) [] = .ok b) : b.scheme = scheme := by
  have hchars : ∀ c ∈ scheme, isSchemeChar c = true ∧ isUnsafe c = false := by
    intro c hc
    have hall := List.all_eq_true.mp hscheme.chars c hc
    simp only [Bool.and_eq_true, Bool.not_eq_true'] at hall
    exact hall.1
  -- neither the strip nor the unsafe characters touch a plain scheme
  have hdrop : (scheme ++ "://".toList ++ rest).dropWhile isC0OrSpace =
      scheme ++ "://".toList ++ rest := by
    have hstarts := hscheme.starts
    cases scheme with
    | nil => cases hstarts
    | cons c scheme =>
      simp only [List.head?_cons, Option.any_some, Bool.and_eq_true, Bool.not_eq_true'] at hstarts
      rw [List.cons_append, List.cons_append, List.dropWhile_cons_of_neg (by simp [hstarts.2])]
  have hfilter : (scheme ++ "://".toList ++ rest).filter (!isUnsafe ·) =
      scheme ++ ':' :: ("//".toList ++ rest.filter (!isUnsafe ·)) := by
    have hself : scheme.filter (!isUnsafe ·) = scheme := by
      rw [List.filter_eq_self]
      intro c hc
      simp [hchars c hc]
    rw [List.filter_append, List.filter_append, hself, List.append_assoc]
    rfl
  have hname : (scheme ++ ':' :: ("//".toList ++ rest.filter (!isUnsafe ·))).takeWhile (· ≠ ':') =
      scheme := by
    rw [List.takeWhile_append_of_pos, List.takeWhile_cons_of_neg (by simp), List.append_nil]
    intro c hc
    exact decide_eq_true fun heq => hscheme.not_mem (heq ▸ hc)
  have halpha : scheme.head?.any Char.isAlpha = true := by
    have hstarts := hscheme.starts
    cases scheme with
    | nil => cases hstarts
    | cons c scheme =>
      simp only [List.head?_cons, Option.any_some, Bool.and_eq_true] at hstarts
      exact hstarts.1
  rw [(urlparse_ok h).1, hdrop, hfilter, splitScheme, hname, if_pos]
  · exact hscheme.lower
  · exact ⟨List.mem_append_right _ List.mem_cons_self, halpha,
      List.all_eq_true.mpr fun c hc => (hchars c hc).1⟩

end

end Urllib
