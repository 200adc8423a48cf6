import McAdmin.PlainText
import McAdmin.RestoreWorker

/-!
# Inspection of an archive

`inspect_archive` reads the members of an archive from the first to the last and says
whether a world can be restored from it.  `Restorable` says it of the members at once.
-/

namespace ArchiveInspection

open FileTree
open RestoreWorker (Member MemberKind Refusals Content Inspection safeArchiveMemberName)

/-! ### The code -/

inductive TarKind where
  | directory
  /-- What `extractfile` reads of it, if it gives a file. -/
  | regular (data : Option (List UInt8))
  | link
  | special
  | other
deriving DecidableEq

structure TarMember where
  name : String
  kind : TarKind
  refusals : Refusals := {}
deriving DecidableEq

def TarMember.member (m : TarMember) : Member where
  name := m.name
  kind := match m.kind with
    | .directory => .directory
    | .regular data => .regular (data.map .bytes)
    | .link => .link
    | .special => .special
    | .other => .other
  refusals := m.refusals

def maxServerPropertiesBytes : ℕ := 1024 * 1024

/-- The local variables of the inspection; a name is the path it stands for. -/
structure Reading where
  seenEntries : List Path := []
  regularSizes : List (Path × ℕ) := []
  serverProperties : Option (List UInt8) := none
  regularCount : ℕ := 0

def refuse {α : Type} (text name : String) : Except Exn α := .error (.message (text ++ name))

def serverPropertiesPath : Path := ["server.properties"]

/-- The content of a regular file is read, and kept if it is `server.properties`. -/
def readRegular (m : TarMember) (name : Path) (data : Option (List UInt8)) (r : Reading) :
    Except Exn Reading :=
  if name ∈ r.seenEntries then refuse "entrée dupliquée dans l'archive : " m.name
  else match data with
    | none => refuse "fichier illisible dans l'archive : " m.name
    | some data =>
      let r := { r with
        seenEntries := name :: r.seenEntries
        regularSizes := (name, data.length) :: r.regularSizes
        regularCount := r.regularCount + 1 }
      if name ≠ serverPropertiesPath then .ok r
      else if data.length > maxServerPropertiesBytes then
        .error (.message "server.properties est anormalement volumineux")
      else if r.serverProperties.isSome then
        .error (.message "server.properties est présent plusieurs fois")
      else .ok { r with serverProperties := some data }

def readMember (r : Reading) (m : TarMember) : Except Exn Reading := do
  let name ← safeArchiveMemberName m.name
  match m.kind with
  | .link => refuse "lien interdit dans l'archive : " m.name
  | .special => refuse "fichier spécial interdit dans l'archive : " m.name
  | .other => refuse "type de fichier non pris en charge : " m.name
  | .directory => .ok r
  | .regular data => readRegular m name data r

def property (rawLine : List Char) : Option (List Char × List Char) :=
  let line := PlainText.strip rawLine
  if line = [] ∨ line.head? = some '#' ∨ line.head? = some '!' ∨ '=' ∉ line then none
  else some (line.takeWhile (· ≠ '='), (line.dropWhile (· ≠ '=')).tail)

/-- The first `level-name` of `server.properties`, or nothing. -/
def levelName (serverProperties : List UInt8) : List Char :=
  let lines := PlainText.splitlines (PlainText.decodeReplace serverProperties)
  match (lines.filterMap property).find? (PlainText.strip ·.1 = "level-name".toList) with
  | none => []
  | some (_, value) => PlainText.strip value

def joined (name : Path) : String := if name = [] then "." else String.intercalate "/" name

/-- `f"{safe_world_name}/level.dat"`, which is no normalised name when the world is `"."`. -/
def levelDat (world : Path) : Option Path :=
  if world = [] then none else some (world ++ ["level.dat"])

def sizeOf (r : Reading) (path : Option Path) : ℕ :=
  (path.bind fun path => r.regularSizes.lookup path).getD 0

def verdict (r : Reading) : Inspection :=
  if r.regularCount = 0 then ⟨false, false, "l'archive ne contient aucun fichier", ""⟩
  else match r.serverProperties with
    | none => ⟨true, false, "archive intègre, mais server.properties est absent à la racine", ""⟩
    | some data =>
      if levelName data = [] then
        ⟨true, false, "archive intègre, mais level-name est absent de server.properties", ""⟩
      else match safeArchiveMemberName (String.ofList (levelName data)) with
        | .error e => ⟨true, false, RestoreWorker.Exn.text e, ""⟩
        | .ok world =>
          if sizeOf r (levelDat world) = 0 then
            ⟨true, false, "archive intègre, mais " ++ joined world ++
              "/level.dat est absent ou vide", joined world⟩
          else ⟨true, true, "", joined world⟩

def inspectArchive (members : List TarMember) : Inspection :=
  match members.foldlM readMember {} with
  | .error e => ⟨false, false, RestoreWorker.Exn.text e, ""⟩
  | .ok r => verdict r

/-! ### What it says of the members -/

structure Placed where
  path : Path
  content : Option (List UInt8)
deriving DecidableEq

def TarMember.placed (m : TarMember) : Option Placed :=
  match safeArchiveMemberName m.name with
  | .error _ => none
  | .ok path => match m.kind with
    | .directory => some ⟨path, none⟩
    | .regular (some data) => some ⟨path, some data⟩
    | _ => none

abbrev Regular := Path × List UInt8

def Placed.regular (placed : Placed) : Option Regular := placed.content.map (placed.path, ·)

def TarMember.regular (m : TarMember) : Option Regular := m.placed.bind Placed.regular

def regulars (members : List TarMember) : List Regular := members.filterMap TarMember.regular

/-- No regular file comes twice, and `server.properties` is not too large. -/
structure Readable (files : List Regular) : Prop where
  distinct : files.Pairwise (·.1 ≠ ·.1)
  small : ∀ data, (serverPropertiesPath, data) ∈ files → data.length ≤ maxServerPropertiesBytes

structure Restorable (members : List TarMember) (world : Path) : Prop where
  accepted : ∀ m ∈ members, m.placed ≠ none
  readable : Readable (regulars members)
  named : ∃ data, (serverPropertiesPath, data) ∈ regulars members ∧
    safeArchiveMemberName (String.ofList (levelName data)) = .ok world
  root : world ≠ []
  level : ∃ data ≠ [], (world ++ ["level.dat"], data) ∈ regulars members

section

variable {m : TarMember} {members : List TarMember} {files : List Regular} {r : Reading}
  {name world : Path} {data : List UInt8}

def readingOf (files : List Regular) : Reading where
  seenEntries := files.map (·.1)
  regularSizes := files.map fun file => (file.1, file.2.length)
  serverProperties := files.lookup serverPropertiesPath
  regularCount := files.length

theorem readable_cons : Readable ((name, data) :: files) ↔
    name ∉ files.map (·.1) ∧ (name = serverPropertiesPath → data.length ≤ maxServerPropertiesBytes) ∧
      Readable files := by
  constructor
  · intro h
    rcases List.pairwise_cons.mp h.distinct with ⟨hnew, hdistinct⟩
    refine ⟨?_, ?_, hdistinct, fun data hmem => h.small data (List.mem_cons_of_mem _ hmem)⟩
    · intro hmem
      rcases List.mem_map.mp hmem with ⟨file, hfile, hname⟩
      exact hnew file hfile hname.symm
    · rintro rfl
      exact h.small data List.mem_cons_self
  · rintro ⟨hnew, hsmall, h⟩
    refine ⟨List.pairwise_cons.mpr ⟨?_, h.distinct⟩, ?_⟩
    · rintro file hfile rfl
      exact hnew (List.mem_map_of_mem hfile)
    · intro other hmem
      rcases List.mem_cons.mp hmem with heq | hmem
      · cases heq
        exact hsmall rfl
      · exact h.small other hmem

theorem Readable.of_append {files' : List Regular} (h : Readable (files' ++ files)) :
    Readable files :=
  ⟨(List.pairwise_append.mp h.distinct).2.1,
    fun data hmem => h.small data (List.mem_append_right _ hmem)⟩

theorem readRegular_ok (h : Readable files) (data : Option (List UInt8)) :
    readRegular m name data (readingOf files) = .ok r ↔
      ∃ content, data = some content ∧ Readable ((name, content) :: files) ∧
        r = readingOf ((name, content) :: files) := by
  simp only [readRegular, readingOf, readable_cons, h, and_true]
  by_cases hseen : name ∈ files.map (·.1)
  · simp [refuse, hseen]
  cases data with
  | none => simp [refuse, hseen]
  | some content =>
    by_cases hname : name = serverPropertiesPath
    · subst hname
      have habsent : files.lookup serverPropertiesPath = none := by
        rw [List.lookup_eq_none_iff]
        intro file hfile
        have hne : serverPropertiesPath ≠ file.1 := fun heq =>
          hseen (heq ▸ List.mem_map_of_mem hfile)
        simpa using hne
      by_cases hlarge : content.length > maxServerPropertiesBytes
      · simp [hseen, hlarge]
      · simp [hseen, hlarge, not_lt.mp hlarge, habsent, eq_comm]
    · have hother : (serverPropertiesPath == name) = false := by simpa using Ne.symm hname
      simp [hseen, hname, List.lookup_cons, hother, eq_comm]

theorem readMember_ok (h : Readable files) :
    readMember (readingOf files) m = .ok r ↔
      m.placed ≠ none ∧ Readable (m.regular.toList ++ files) ∧
        r = readingOf (m.regular.toList ++ files) := by
  simp only [readMember, TarMember.regular, TarMember.placed]
  cases hname : safeArchiveMemberName m.name with
  | error e => simp [bind, Except.bind]
  | ok name =>
    simp only [bind, Except.bind]
    cases m.kind with
    | directory => simp [Placed.regular, h, eq_comm]
    | regular data =>
      simp only
      rw [readRegular_ok h]
      cases data with
      | none => simp
      | some content => simp [Placed.regular]
    | link => simp [refuse]
    | special => simp [refuse]
    | other => simp [refuse]

theorem foldlM_readMember (h : Readable files) :
    members.foldlM readMember (readingOf files) = .ok r ↔
      (∀ m ∈ members, m.placed ≠ none) ∧ Readable ((regulars members).reverse ++ files) ∧
        r = readingOf ((regulars members).reverse ++ files) := by
  induction members generalizing files with
  | nil => simp [regulars, h, pure, Except.pure, eq_comm]
  | cons m members ih =>
    have hregulars : (regulars (m :: members)).reverse ++ files =
        (regulars members).reverse ++ (m.regular.toList ++ files) := by
      simp only [regulars, List.filterMap_cons]
      cases m.regular <;> simp
    rw [hregulars, List.forall_mem_cons, List.foldlM_cons]
    cases hread : readMember (readingOf files) m with
    | error e =>
      have hnot : ¬ (m.placed ≠ none ∧ Readable (m.regular.toList ++ files)) := by
        rintro ⟨hplaced, hreadable⟩
        have hok := (readMember_ok h).mpr ⟨hplaced, hreadable, rfl⟩
        rw [hread] at hok
        cases hok
      simp only [bind, Except.bind, reduceCtorEq, false_iff]
      rintro ⟨⟨hplaced, _⟩, hreadable, _⟩
      exact hnot ⟨hplaced, hreadable.of_append⟩
    | ok r₁ =>
      rcases (readMember_ok h).mp hread with ⟨hplaced, hreadable, rfl⟩
      simp only [bind, Except.bind]
      rw [ih hreadable]
      simp [hplaced]

theorem Readable.reverse (h : Readable files) : Readable files.reverse :=
  ⟨List.pairwise_reverse.mpr (h.distinct.imp Ne.symm),
    fun data hmem => h.small data (List.mem_reverse.mp hmem)⟩

theorem Readable.lookup_eq_some (h : Readable files) :
    files.lookup name = some data ↔ (name, data) ∈ files := by
  induction files with
  | nil => simp
  | cons file files ih =>
    rcases readable_cons.mp h with ⟨hnew, _, hrest⟩
    rw [List.lookup_cons, List.mem_cons, ← ih hrest]
    by_cases heq : name = file.1
    · subst heq
      have hnone : files.lookup file.1 ≠ some data := by
        intro hsome
        exact hnew (List.mem_map_of_mem (a := (file.1, data)) ((ih hrest).mp hsome))
      simp [hnone, Prod.ext_iff, eq_comm]
    · have hbeq : (name == file.1) = false := by simpa using heq
      simp [hbeq, heq, Prod.ext_iff]

theorem sizeOf_readingOf (h : Readable files) (path : Path) :
    sizeOf (readingOf files) (some path) ≠ 0 ↔ ∃ data ≠ [], (path, data) ∈ files := by
  have hsizes : ∀ files : List Regular,
      (files.map fun file => (file.1, file.2.length)).lookup path =
        (files.lookup path).map List.length := by
    intro files
    induction files with
    | nil => rfl
    | cons file files ih =>
      rw [List.map_cons, List.lookup_cons, List.lookup_cons, ih]
      cases path == file.1 <;> rfl
  simp only [sizeOf, Option.bind_some, readingOf, hsizes]
  constructor
  · intro hsize
    cases hlookup : files.lookup path with
    | none => simp [hlookup] at hsize
    | some data =>
      refine ⟨data, ?_, h.lookup_eq_some.mp hlookup⟩
      rintro rfl
      simp [hlookup] at hsize
  · rintro ⟨data, hdata, hmem⟩
    rw [h.lookup_eq_some.mpr hmem]
    simpa using hdata

theorem verdict_restorable (h : Readable files) (w : String) :
    verdict (readingOf files) = ⟨true, true, "", w⟩ ↔
      ∃ world, (∃ data, (serverPropertiesPath, data) ∈ files ∧
          safeArchiveMemberName (String.ofList (levelName data)) = .ok world) ∧
        world ≠ [] ∧ (∃ data ≠ [], (world ++ ["level.dat"], data) ∈ files) ∧ joined world = w := by
  have hempty : safeArchiveMemberName (String.ofList []) =
    .error (.message "chemin d'archive invalide") := rfl
  have hproperties : ∀ data, (readingOf files).serverProperties = some data ↔
      (serverPropertiesPath, data) ∈ files := fun data => h.lookup_eq_some
  simp only [verdict]
  constructor
  · intro hverdict
    split at hverdict
    · cases hverdict
    cases hread : (readingOf files).serverProperties with
    | none => simp [hread] at hverdict
    | some data =>
      simp only [hread] at hverdict
      split at hverdict
      · cases hverdict
      cases hsafe : safeArchiveMemberName (String.ofList (levelName data)) with
      | error e => simp [hsafe] at hverdict
      | ok world =>
        simp only [hsafe] at hverdict
        split at hverdict
        · cases hverdict
        rename_i hsize
        -- the empty name has no `level.dat`, so that it is refused as one that is missing
        have hroot : world ≠ [] := by
          rintro rfl
          exact hsize rfl
        rw [levelDat, if_neg hroot] at hsize
        refine ⟨world, ⟨data, (hproperties data).mp hread, hsafe⟩, hroot,
          (sizeOf_readingOf h _).mp hsize, ?_⟩
        exact congrArg Inspection.worldName hverdict
  · rintro ⟨world, ⟨data, hmem, hsafe⟩, hroot, hlevel, rfl⟩
    have hcount : (readingOf files).regularCount ≠ 0 := by
      simp only [readingOf, ne_eq, List.length_eq_zero_iff]
      rintro rfl
      cases hmem
    have hnamed : levelName data ≠ [] := by
      intro hnil
      rw [hnil, hempty] at hsafe
      cases hsafe
    have hsize : sizeOf (readingOf files) (levelDat world) ≠ 0 := by
      rw [levelDat, if_neg hroot]
      exact (sizeOf_readingOf h _).mpr hlevel
    rw [if_neg hcount, (hproperties data).mpr hmem]
    simp only
    rw [if_neg hnamed, hsafe]
    simp only
    rw [if_neg hsize]

theorem inspectArchive_restorable (w : String) :
    inspectArchive members = ⟨true, true, "", w⟩ ↔
      ∃ world, Restorable members world ∧ joined world = w := by
  have hstart : Readable ([] : List Regular) := ⟨List.Pairwise.nil, by simp⟩
  have hread : ∀ r, members.foldlM readMember {} = .ok r ↔
      (∀ m ∈ members, m.placed ≠ none) ∧ Readable (regulars members) ∧
        r = readingOf (regulars members).reverse := by
    intro r
    have hiff : _ ↔ (∀ m ∈ members, m.placed ≠ none) ∧ _ ∧ r = _ := foldlM_readMember hstart
    rw [List.append_nil] at hiff
    refine hiff.trans (and_congr_right fun _ => and_congr_left fun _ => ?_)
    exact ⟨fun h => by simpa using h.reverse, Readable.reverse⟩
  simp only [inspectArchive]
  cases hresult : members.foldlM readMember {} with
  | error e =>
    constructor
    · intro h
      cases h
    · rintro ⟨world, hrestorable, _⟩
      have hok := (hread _).mpr ⟨hrestorable.accepted, hrestorable.readable, rfl⟩
      rw [hresult] at hok
      cases hok
  | ok r =>
    rcases (hread r).mp hresult with ⟨haccepted, hreadable, rfl⟩
    simp only [verdict_restorable hreadable.reverse, List.mem_reverse]
    constructor
    · rintro ⟨world, hnamed, hroot, hlevel, hjoined⟩
      exact ⟨world, ⟨haccepted, hreadable, hnamed, hroot, hlevel⟩, hjoined⟩
    · rintro ⟨world, hrestorable, hjoined⟩
      exact ⟨world, hrestorable.named, hrestorable.root, hrestorable.level, hjoined⟩

theorem inspectArchive_accepted (hok : (inspectArchive members).ok = true)
    (hrestorable : (inspectArchive members).restorable = true) :
    inspectArchive members = ⟨true, true, "", (inspectArchive members).worldName⟩ := by
  revert hok hrestorable
  simp only [inspectArchive]
  split
  · nofun
  · simp only [verdict]
    split
    · nofun
    split
    · nofun
    split
    · nofun
    split
    · nofun
    split
    · nofun
    · exact fun _ _ => rfl

end

end ArchiveInspection
