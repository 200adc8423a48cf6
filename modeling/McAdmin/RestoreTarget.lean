import McAdmin.PathWalk
import McAdmin.PlainText

/-!
# The archive that is handed over

`archive_path` resolves the name of an archive in the backups directory;
`DockerRestoreTrigger` writes the name to the target file; the worker reads the file and
resolves what it finds there.
-/

namespace RestoreTarget

open FileTree PathWalk
open PlainText (isSpace strip)
open RestoreWorker (Content pathParts)

/-! ### The name is resolved -/

def endsTarGz (name : String) : Prop := ".tar.gz".toList <:+ name.toList

instance (name : String) : Decidable (endsTarGz name) := inferInstanceAs (Decidable (_ <:+ _))

/-- `any(part in ("", ".", "..") for part in parts)` -/
def badParts (parts : Path) : Bool := parts.any fun part => part = "" ∨ part = "." ∨ part = ".."

/-- `Path.is_file()` of a resolved path -/
def isFile (fs : Slot Content) (path : Path) : Bool :=
  match fs.view path with
  | some (.file _) => true
  | _ => false

section

variable (fs : Slot Content) (links : Nat)

/-- `Path.resolve(strict=True)`; any finite number of links is followed. -/
def resolve (path : Path) : Except Exn Path := walk fs links [] path

def resolveUnder (directory : Path) (parts : Path) : Except Exn (Path × Path) := do
  let resolvedDir ← resolve fs links directory
  let resolvedPath ← resolve fs links (directory ++ parts)
  return (resolvedDir, resolvedPath)

/-- `FileBackupArchives(directory).archive_path(filename)` -/
def archivePath (directory : Path) (filename : String) : Except Exn (Option Path) :=
  if filename = "" ∨ isAbsolute filename = true ∨ ¬ endsTarGz filename then .ok none
  else if badParts (pathParts filename) then .ok none
  else match resolveUnder fs links directory (pathParts filename) with
    | .error (.os .notFound) => .ok none
    | .error e => .error e
    | .ok (resolvedDir, resolvedPath) =>
      if ¬ resolvedDir <+: resolvedPath then .ok none
      else if isFile fs resolvedPath then .ok (some resolvedPath)
      else .ok none

end

/-! ### The target file -/

/-- `open(target_file, "w", encoding="utf-8").write(archive_relpath)` -/
def writeTarget (archiveRelpath : String) : ByteArray := archiveRelpath.toUTF8

def universalNewlines : List Char → List Char
  | [] => []
  | '\r' :: '\n' :: text => '\n' :: universalNewlines text
  | c :: text => (if c = '\r' then '\n' else c) :: universalNewlines text

/-- `read_text(encoding="utf-8")` -/
def readText (bytes : ByteArray) : Option (List Char) :=
  (String.fromUTF8? bytes).map fun text => universalNewlines text.toList

/-- `_resolve_target_archive(target_file, backups_root)` -/
def resolveTargetArchive (fs : Slot Content) (links : Nat) (backupsRoot : Path)
    (targetFile : ByteArray) : Except Exn (String × Path) :=
  if 4096 < targetFile.size then
    .error (.message "fichier de consigne anormalement volumineux")
  else match readText targetFile with
    | none => .error (.message "UnicodeDecodeError")
    | some rawTarget =>
      if '\n' ∈ rawTarget ∨ '\r' ∈ rawTarget then
        .error (.message "la consigne de restauration doit tenir sur une ligne")
      else
        let target := String.ofList (strip rawTarget)
        if target = "" ∨ isAbsolute target = true ∨ badParts (pathParts target) = true ∨
            ¬ endsTarGz target then
          .error (.message "chemin d'archive cible invalide")
        else do
          let root ← resolve fs links backupsRoot
          let archive ← resolve fs links (root ++ pathParts target)
          if ¬ root <+: archive then
            .error (.message "l'archive cible sort du dossier des sauvegardes")
          else if ¬ isFile fs archive then .error (.message "archive cible introuvable")
          else return (target, archive)

/-! ### What the two resolve -/

section

variable {fs : Slot Content} {links links' : Nat} {directory path other : Path}
  {filename target : String}

structure Leads (fs : Slot Content) (links : Nat) (directory : Path) (name : String)
    (path : Path) : Prop where
  named : name ≠ ""
  relative : isAbsolute name = false
  archive : endsTarGz name
  parts : badParts (pathParts name) = false
  resolved : resolve fs links (directory ++ pathParts name) = .ok path
  inside : ∃ root, resolve fs links directory = .ok root ∧ root <+: path
  file : isFile fs path = true

theorem resolveUnder_ok {parts root found : Path}
    (h : resolveUnder fs links directory parts = .ok (root, found)) :
    resolve fs links directory = .ok root ∧ resolve fs links (directory ++ parts) = .ok found := by
  simp only [resolveUnder] at h
  cases hroot : resolve fs links directory with
  | error e =>
    rw [hroot] at h
    cases h
  | ok root' =>
    rw [hroot] at h
    cases hfound : resolve fs links (directory ++ parts) with
    | error e =>
      rw [hfound] at h
      cases h
    | ok found' =>
      rw [hfound] at h
      cases h
      exact ⟨rfl, rfl⟩

theorem archivePath_iff :
    archivePath fs links directory filename = .ok (some path) ↔
      Leads fs links directory filename path := by
  constructor
  · intro h
    simp only [archivePath] at h
    split at h
    -- the guards of the source, each a field of the right side
    · cases h
    rename_i hname
    simp only [not_or, not_not, Bool.not_eq_true] at hname
    split at h
    · cases h
    rename_i hparts
    cases hresolve : resolveUnder fs links directory (pathParts filename) with
    | error e =>
      rw [hresolve] at h
      cases e with
      | os error => cases error <;> cases h
      | message text => cases h
    | ok resolved =>
      rcases resolved with ⟨root, found⟩
      rw [hresolve] at h
      by_cases hinside : root <+: found
      · by_cases hfile : isFile fs found = true
        · simp only [hinside, not_true, if_false, hfile, if_true, Except.ok.injEq,
            Option.some.injEq] at h
          subst h
          rcases resolveUnder_ok hresolve with ⟨hroot, hfound⟩
          exact ⟨hname.1, hname.2.1, hname.2.2, Bool.not_eq_true _ ▸ hparts, hfound,
            ⟨root, hroot, hinside⟩, hfile⟩
        · simp [hinside, hfile] at h
      · simp [hinside] at h
  · intro h
    rcases h.inside with ⟨root, hroot, hinside⟩
    have hunder : resolveUnder fs links directory (pathParts filename) = .ok (root, path) := by
      simp only [resolveUnder, hroot, h.resolved]
      rfl
    simp only [archivePath]
    rw [if_neg (by simp [h.named, h.relative, h.archive]), if_neg (by simp [h.parts]), hunder]
    simp [hinside, h.file]

theorem fromUTF8_writeTarget : String.fromUTF8? (writeTarget filename) = some filename := by
  have hvalid : filename.toUTF8.IsValidUTF8 := filename.isValidUTF8
  rw [writeTarget, String.fromUTF8?, dif_pos hvalid]
  rfl

theorem universalNewlines_eq {text : List Char} (h : '\r' ∉ text) :
    universalNewlines text = text := by
  induction text with
  | nil => rfl
  | cons c text ih =>
    have hc : c ≠ '\r' := fun heq => h (heq ▸ List.mem_cons_self)
    rw [universalNewlines, if_neg hc, ih fun hmem => h (List.mem_cons_of_mem _ hmem)]
    exact fun _ hreturn => absurd hreturn hc

theorem mem_universalNewlines {text : List Char} :
    '\n' ∈ universalNewlines text ∨ '\r' ∈ universalNewlines text ↔
      '\n' ∈ text ∨ '\r' ∈ text := by
  fun_induction universalNewlines text with
  | case1 => simp
  | case2 text ih => simp
  | case3 c text _ ih =>
    by_cases hc : c = '\r'
    · simp [hc]
    · simp only [if_neg hc, List.mem_cons]
      rw [or_or_or_comm, ih, or_or_or_comm]

theorem resolveTargetArchive_iff {archive : Path} :
    resolveTargetArchive fs links directory (writeTarget filename) = .ok (target, archive) ↔
      filename.utf8ByteSize ≤ 4096 ∧ ('\n' ∉ filename.toList ∧ '\r' ∉ filename.toList) ∧
        target = String.ofList (strip filename.toList) ∧
        ((target ≠ "" ∧ isAbsolute target = false) ∧
          badParts (pathParts target) = false ∧ endsTarGz target) ∧
        ∃ root, resolve fs links directory = .ok root ∧
          resolve fs links (root ++ pathParts target) = .ok archive ∧
          root <+: archive ∧ isFile fs archive = true := by
  have hsize : (writeTarget filename).size = filename.utf8ByteSize := rfl
  have hread : readText (writeTarget filename) = some (universalNewlines filename.toList) := by
    rw [readText, fromUTF8_writeTarget]
    rfl
  simp only [resolveTargetArchive]
  rw [hsize, hread]
  -- the guards in the order of the source: each refuses, and is a clause of the right side
  by_cases hlarge : 4096 < filename.utf8ByteSize
  · simp [hlarge, Nat.not_le.mpr hlarge]
  simp only [if_neg hlarge, mem_universalNewlines]
  by_cases hlines : '\n' ∈ filename.toList ∨ '\r' ∈ filename.toList
  · rw [if_pos hlines]
    refine ⟨nofun, ?_⟩
    rintro ⟨_, ⟨hn, hr⟩, _⟩
    exact absurd hlines (not_or.mpr ⟨hn, hr⟩)
  rw [if_neg hlines, universalNewlines_eq (not_or.mp hlines).2]
  simp only [Nat.not_lt.mp hlarge, not_or.mp hlines, true_and, not_false_iff]
  generalize String.ofList (strip filename.toList) = stripped
  by_cases hbad : stripped = "" ∨ isAbsolute stripped = true ∨
      badParts (pathParts stripped) = true ∨ ¬ endsTarGz stripped
  · rw [if_pos hbad]
    refine ⟨nofun, ?_⟩
    rintro ⟨rfl, ⟨⟨hempty, habsolute⟩, hparts, hends⟩, _⟩
    simp [hempty, habsolute, hparts, hends] at hbad
  rw [if_neg hbad]
  simp only [not_or, not_not, Bool.not_eq_true] at hbad
  have hgood : (stripped ≠ "" ∧ isAbsolute stripped = false) ∧
      badParts (pathParts stripped) = false ∧ endsTarGz stripped :=
    ⟨⟨hbad.1, hbad.2.1⟩, hbad.2.2⟩
  -- what is left depends on the files: the two resolutions, and what they lead to
  cases hroot : resolve fs links directory with
  | error e => exact ⟨nofun, by rintro ⟨_, _, _, h, _⟩; cases h⟩
  | ok root =>
    cases hfound : resolve fs links (root ++ pathParts stripped) with
    | error e =>
      refine ⟨fun h => ?_, ?_⟩
      · simp only [bind, Except.bind, hfound, reduceCtorEq] at h
      · rintro ⟨rfl, _, _, h, hfound', _⟩
        cases h
        rw [hfound] at hfound'
        cases hfound'
    | ok found =>
      simp only [bind, Except.bind, hfound]
      by_cases hinside : root <+: found
      · by_cases hfile : isFile fs found = true
        · rw [if_neg (not_not.mpr hinside), if_neg (not_not.mpr hfile)]
          constructor
          · intro h
            cases h
            exact ⟨rfl, hgood, root, rfl, hfound, hinside, hfile⟩
          · rintro ⟨rfl, _, _, h, hfound', _⟩
            cases h
            rw [hfound] at hfound'
            cases hfound'
            rfl
        · rw [if_neg (not_not.mpr hinside), if_pos hfile]
          refine ⟨nofun, ?_⟩
          rintro ⟨rfl, _, _, h, hfound', _, hfile'⟩
          cases h
          rw [hfound] at hfound'
          cases hfound'
          exact absurd hfile' hfile
      · rw [if_pos hinside]
        refine ⟨nofun, ?_⟩
        rintro ⟨rfl, _, _, h, hfound', hinside', _⟩
        cases h
        rw [hfound] at hfound'
        cases hfound'
        exact absurd hinside' hinside

theorem Leads.from_root (h : Leads fs links directory filename path) :
    ∃ root, resolve fs links directory = .ok root ∧
      resolve fs links (root ++ pathParts filename) = .ok path ∧
      root <+: path ∧ isFile fs path = true := by
  rcases h.inside with ⟨root, hroot, hinside⟩
  rcases walk_append h.resolved with ⟨d, hd, hpath⟩
  have hsame : root = d := walk_unique hroot hd
  subst hsame
  have hcanonical := walk_canonical Canonical.nil hd
  refine ⟨root, hroot, ?_, hinside, h.file⟩
  rw [resolve, hcanonical.walk_append]
  exact hpath

theorem resolve_from_root {root parts : Path} (hroot : resolve fs links directory = .ok root)
    (hpath : resolve fs links (root ++ parts) = .ok path) :
    resolve fs (links + links) (directory ++ parts) = .ok path := by
  have hcanonical := walk_canonical Canonical.nil hroot
  rw [resolve, hcanonical.walk_append] at hpath
  exact walk_concat hroot hpath

theorem strip_eq {text : List Char} (hends : ".tar.gz".toList <:+ text)
    (hhead : ¬ ∃ c, text.head? = some c ∧ isSpace c = true) : strip text = text := by
  have hfirst : text.dropWhile isSpace = text := by
    cases text with
    | nil => rfl
    | cons c text => exact List.dropWhile_cons_of_neg fun hspace => hhead ⟨c, rfl, hspace⟩
  rw [strip, hfirst]
  rcases hends with ⟨stem, rfl⟩
  have hlast : stem ++ ".tar.gz".toList = stem ++ ".tar.g".toList ++ ['z'] := by simp
  rw [hlast]
  exact List.rdropWhile_concat_neg _ _ _ (by decide)

/-- Whatever the worker resolves is the file that was asked for. -/
def HandedOver (fs : Slot Content) (directory : Path) (filename : String) (path : Path) : Prop :=
  ∀ links target archive,
    resolveTargetArchive fs links directory (writeTarget filename) = .ok (target, archive) →
      archive = path

/-- The name does not begin with a blank, or cannot be read back, or is the name of no other
archive without its blanks. -/
def Unmistaken (fs : Slot Content) (directory : Path) (filename : String) (path : Path) : Prop :=
  (∃ c, filename.toList.head? = some c ∧ isSpace c = true) → '\n' ∉ filename.toList →
    '\r' ∉ filename.toList → filename.utf8ByteSize ≤ 4096 → ∀ links other,
      archivePath fs links directory (String.ofList (strip filename.toList)) = .ok (some other) →
        other = path

/-- The worker restores the archive that was asked for or none, exactly when the name is not
mistaken for another. -/
theorem handed_over_iff (fs : Slot Content) (directory : Path) (filename : String) (path : Path)
    (h : ∃ links, archivePath fs links directory filename = .ok (some path)) :
    HandedOver fs directory filename path ↔ Unmistaken fs directory filename path := by
  rcases h with ⟨links₀, h⟩
  rw [archivePath_iff] at h
  constructor
  · intro hall _ hn hr hsize links other hother
    rw [archivePath_iff] at hother
    have hname := And.intro (And.intro hother.named hother.relative)
      (And.intro hother.parts hother.archive)
    exact hall links _ other
      (resolveTargetArchive_iff.mpr ⟨hsize, ⟨hn, hr⟩, rfl, hname, hother.from_root⟩)
  · intro hclear links target archive hok
    rcases resolveTargetArchive_iff.mp hok with ⟨hsize, ⟨hn, hr⟩, rfl,
      ⟨⟨hnamed, hrelative⟩, hparts, hends⟩, root, hroot, hfound, hinside, hfile⟩
    have hleads : Leads fs (links + links) directory (String.ofList (strip filename.toList))
        archive :=
      ⟨hnamed, hrelative, hends, hparts, resolve_from_root hroot hfound,
        ⟨root, walk_mono (Nat.le_add_left _ _) hroot, hinside⟩, hfile⟩
    by_cases hblank : ∃ c, filename.toList.head? = some c ∧ isSpace c = true
    · exact hclear hblank hn hr hsize _ archive (archivePath_iff.mpr hleads)
    · rw [strip_eq h.archive hblank, String.ofList_toList] at hleads
      exact walk_unique hleads.resolved h.resolved

end

def twoArchives : Slot Content :=
  some (Entry.folder (Folder.empty.set "backups" (some (Entry.folder
    ((Folder.empty.set "a.tar.gz" (some (Entry.file (.bytes [1])))).set " a.tar.gz"
      (some (Entry.file (.bytes [1]))))))))

theorem handed_over_plain :
    HandedOver twoArchives ["backups"] "a.tar.gz" ["backups", "a.tar.gz"] :=
  (handed_over_iff twoArchives ["backups"] "a.tar.gz" ["backups", "a.tar.gz"]
    ⟨0, by decide +kernel⟩).mpr (by rintro ⟨c, hc, hspace⟩; cases hc; cases hspace)

/-- The worker restores the archive without the blank. -/
theorem blank_restores_another : ¬ ∀ (fs : Slot Content) (directory : Path) (filename : String)
    (path : Path), (∃ links, archivePath fs links directory filename = .ok (some path)) →
      HandedOver fs directory filename path := by
  intro hall
  have hother : resolveTargetArchive twoArchives 0 ["backups"] (writeTarget " a.tar.gz") =
      .ok ("a.tar.gz", ["backups", "a.tar.gz"]) := by decide +kernel
  have hsame := hall twoArchives ["backups"] " a.tar.gz" ["backups", " a.tar.gz"]
    ⟨0, by decide +kernel⟩ 0 _ _ hother
  exact absurd hsame (by decide)

end RestoreTarget
