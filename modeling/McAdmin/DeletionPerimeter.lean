import McAdmin.BackupRetention
import McAdmin.ExtractedTree
import McAdmin.RestoreTarget

/-!
# What a deletion removes

`delete_archive` looks at the name it is given and removes the file that the name leads to.
The files are a tree with links; the two retentions list the archives of the tree, plan, and
delete by name.
-/

namespace DeletionPerimeter

open FileTree PathWalk
open RestoreWorker (Content lookup pathParts segments stepAt)
open RestoreGate (BackupArchive)
open RestoreTarget (archivePath resolve isFile Leads)
open BackupRetention (BackupProfile BackupRetentionItem Policy backupRetentionPlan deletable)

/-- The directory of the backups, how many links `resolve` and the system follow at most, what
`stat` says of a file, and the files that the system lets nobody unlink. -/
structure FileBackupArchives where
  directory : Path
  links : ℕ
  systemLinks : ℕ := 40
  size : Path → ℕ := fun _ => 0
  modified : Path → ℤ := fun _ => 0
  resists : Path → Bool := fun _ => false

abbrev Files := Slot Content

/-! ### The listing -/

mutual

/-- Everything below a directory; the links in it are listed, and not followed. -/
def pathsBelow {C : Type} (above : Path) : Node C → List Path
  | .file _ => []
  | .link _ => []
  | .dir d => (d.names.map fun name => above ++ [name]) ++ entriesBelow above d

def entriesBelow {C : Type} (above : Path) : Dir C → List Path
  | .nil => []
  | .cons name node rest => pathsBelow (above ++ [name]) node ++ entriesBelow above rest

end

/-- `fnmatch` of the last name with `*.tar.gz` -/
def isTarGz (path : Path) : Bool :=
  path.getLast?.any fun name => decide (RestoreTarget.endsTarGz name)

/-- `directory.rglob("*.tar.gz")` -/
def rglob (fs : Files) (root : Path) : List Path :=
  match lookup root fs with
  | none => []
  | some entry => (pathsBelow [] entry.node).filter isTarGz

namespace FileBackupArchives

variable (k : FileBackupArchives) (fs : Files)

/-- What the loop of `list_archives` makes of one path. -/
def archiveAt (path : Path) : Except Exn (Option BackupArchive) :=
  match resolve fs k.systemLinks (k.directory ++ path) with
  | .error (.os .notFound) => .ok none
  | .error e => .error e
  | .ok found =>
    if isFile fs found then
      .ok (some ⟨"/".intercalate path, k.size found, k.modified found⟩)
    else .ok none

def listArchives : Except Exn (List BackupArchive) :=
  match resolve fs k.systemLinks k.directory with
  | .error _ => .ok []
  | .ok root => do
    let archives ← (rglob fs root).filterMapM (k.archiveAt fs)
    return archives.insertionSort fun a b => b.createdAt ≤ a.createdAt

/-! ### The deletion -/

/-- `Path.unlink()` -/
def unlinkAt (path : Path) : Except Exn Files :=
  if k.resists path then .error (.os .inputOutput) else stepAt (unlink false) path fs

def deleteArchive (filename : String) : Files × Except Exn Bool :=
  if deletable filename = false then (fs, .ok false)
  else match archivePath fs k.links k.directory filename with
    | .error e => (fs, .error e)
    | .ok none => (fs, .ok false)
    | .ok (some path) =>
      match k.unlinkAt fs path with
      | .error _ => (fs, .ok false)
      | .ok fs' => (fs', .ok true)

end FileBackupArchives

/-! ### The retentions -/

structure Report where
  deleted : ℕ := 0
  freed : ℕ := 0
  failed : List String := []

def Report.add (report : Report) (archive : BackupArchive) : Bool → Report
  | true => { report with
      deleted := report.deleted + 1
      freed := report.freed + archive.sizeBytes }
  | false => { report with failed := report.failed ++ [archive.filename] }

variable (k : FileBackupArchives)

def deletePlanned : List BackupRetentionItem → Report → Files → Files × Except Exn Report
  | [], report, fs => (fs, .ok report)
  | item :: items, report, fs =>
    match k.deleteArchive fs item.archive.filename with
    | (fs', .error e) => (fs', .error e)
    | (fs', .ok gone) => deletePlanned items (report.add item.archive gone) fs'

/-- What a policy plans to delete of the files as they are. -/
def planned (q : Policy) (fs : Files) : Except Exn (List BackupRetentionItem) :=
  (k.listArchives fs).map fun archives => (backupRetentionPlan q archives).delete

def applyBackupRetention (q : Policy) (fs : Files) : Files × Except Exn Report :=
  match planned k q fs with
  | .error e => (fs, .error e)
  | .ok items => deletePlanned k items {} fs

/-- The policy that a backup of this kind applies once it has succeeded. -/
def autoPolicy (profiles : List BackupProfile) (kind : String) (now : ℤ) : Option Policy :=
  match profiles.find? (·.id = kind) with
  | none => none
  | some profile =>
    if profile.retentionDailyDays = 0 then none
    else if !(profile.dest.startsWith "profiles/" || profile.dest == "scheduled") then none
    else some (profile.policy now)

/-- The files afterwards, and how many deletions are journaled. -/
def autoRetention (profiles : List BackupProfile) (kind : String) (now : ℤ) (fs : Files) :
    Files × Option ℕ :=
  match autoPolicy profiles kind now with
  | none => (fs, none)
  | some q =>
    match applyBackupRetention k q fs with
    | (fs', .error _) => (fs', none)
    | (fs', .ok report) => (fs', if report.deleted = 0 then none else some report.deleted)

/-! ### The perimeter -/

/-- Below `scheduled/` or `profiles/` of the directory, once its links are followed. -/
def InPerimeter (fs : Files) (path : Path) : Prop :=
  ∃ root, resolve fs k.links k.directory = .ok root ∧
    ∃ folder name rest, (folder = "scheduled" ∨ folder = "profiles") ∧
      path = root ++ folder :: name :: rest

def Removed (fs fs' : Files) (path : Path) : Prop := fs.view path ≠ none ∧ fs'.view path = none

def AtMostOne (fs fs' : Files) : Prop :=
  ∀ path path', Removed fs fs' path → Removed fs fs' path' → path = path'

/-- Files are removed, all of them in `P`, and nothing else changes. -/
def Spares (P : Path → Prop) (fs fs' : Files) : Prop :=
  ∀ path, fs'.view path = fs.view path ∨
    fs'.view path = none ∧ (∃ c, fs.view path = some (.file c)) ∧ P path

/-- An accepted name leads to a file elsewhere, which can be unlinked. -/
def Strays (fs : Files) (filename : String) : Prop :=
  deletable filename = true ∧ ∃ path, Leads fs k.links k.directory filename path ∧
    k.resists path = false ∧ ¬ InPerimeter k fs path

/-- The names that are deleted, each with the files at its turn. -/
def turns : List BackupRetentionItem → Files → List (Files × String)
  | [], _ => []
  | item :: items, fs =>
    (fs, item.archive.filename) ::
      match k.deleteArchive fs item.archive.filename with
      | (_, .error _) => []
      | (fs', .ok _) => turns items fs'

def retentionTurns (q : Policy) (fs : Files) : List (Files × String) :=
  match planned k q fs with
  | .error _ => []
  | .ok items => turns k items fs

def autoTurns (profiles : List BackupProfile) (kind : String) (now : ℤ) (fs : Files) :
    List (Files × String) :=
  match autoPolicy profiles kind now with
  | none => []
  | some q => retentionTurns k q fs

section

variable {k} {fs fs₀ fs' fs'' : Files} {filename : String} {path : Path} {P : Path → Prop}

/-! ### One deletion -/

def Less (fs fs' : Files) : Prop :=
  ∀ path kind, fs'.view path = some kind → fs.view path = some kind

theorem Less.trans (h : Less fs fs') (h' : Less fs' fs'') : Less fs fs'' :=
  fun path kind hkind => h path kind (h' path kind hkind)

theorem Less.none (h : Less fs fs') (hnone : fs.view path = none) : fs'.view path = none := by
  cases hview : fs'.view path with
  | none => rfl
  | some kind =>
    have hkind := h path kind hview
    rw [hnone] at hkind
    cases hkind

theorem view_of_isFile (h : isFile fs path = true) : ∃ c, fs.view path = some (.file c) := by
  unfold isFile at h
  cases hview : fs.view path with
  | none =>
    rw [hview] at h
    cases h
  | some kind =>
    rw [hview] at h
    cases kind with
    | file c => exact ⟨c, rfl⟩
    | link target => cases h
    | dir => cases h

theorem stepAt_unlink {c : Content} (h : fs.view path = some (.file c)) :
    ∃ fs', stepAt (unlink false) path fs = .ok fs' ∧
      fs'.view path = none ∧ ∀ other, other ≠ path → fs'.view other = fs.view other := by
  have habove : ∀ up name, up ++ [name] <+: path → fs.view up = some .dir := by
    rintro up name ⟨rest, rfl⟩
    apply RestoreWorker.view_above (n := name) (q := rest)
    have hpath : up ++ name :: rest = up ++ [name] ++ rest := by simp
    rw [hpath, h]
    nofun
  have hunlink : unlink false (lookup path fs) = .ok none := by
    have hview := RestoreWorker.view_lookup path fs []
    rw [List.append_nil, h] at hview
    match lookup path fs, hview with
    | some ⟨.file _, _⟩, _ => rfl
  rcases RestoreWorker.stepAt_of_dirs habove hunlink with ⟨fs', hstep⟩
  rcases RestoreWorker.stepAt_ok hstep with ⟨_, slot, hslot, hlookup, hframe⟩
  have hnone : lookup path fs' = none := by
    rw [hunlink] at hslot
    cases hslot
    exact hlookup
  have hbelow : ∀ rest, fs'.view (path ++ rest) = none := by
    intro rest
    rw [← RestoreWorker.view_lookup, hnone]
    rfl
  refine ⟨fs', hstep, ?_, ?_⟩
  · simpa using hbelow []
  · intro other hother
    by_cases hstarts : path <+: other
    · rcases hstarts with ⟨rest, rfl⟩
      rw [hbelow]
      cases rest with
      | nil => exact absurd (List.append_nil path) hother
      | cons name rest =>
        -- nothing stands below a file
        by_contra hne
        have hdir : fs.view path = some .dir := RestoreWorker.view_above (Ne.symm hne)
        rw [h] at hdir
        cases hdir
    · exact hframe other hstarts

theorem deleteArchive_cases (k : FileBackupArchives) (fs : Files) (filename : String) :
    (k.deleteArchive fs filename).1 = fs ∧
        (deletable filename = true → ∀ path, Leads fs k.links k.directory filename path →
          k.resists path = true) ∨
      ∃ path c fs', k.deleteArchive fs filename = (fs', .ok true) ∧
        deletable filename = true ∧ Leads fs k.links k.directory filename path ∧
        k.resists path = false ∧ fs.view path = some (.file c) ∧ fs'.view path = none ∧
        ∀ other, other ≠ path → fs'.view other = fs.view other := by
  unfold FileBackupArchives.deleteArchive
  by_cases hname : deletable filename = false
  · rw [if_pos hname]
    refine .inl ⟨rfl, fun hdeletable => ?_⟩
    rw [hname] at hdeletable
    cases hdeletable
  rw [if_neg hname]
  have hdeletable : deletable filename = true := by simpa using hname
  have hleads : ∀ path, Leads fs k.links k.directory filename path →
      archivePath fs k.links k.directory filename = .ok (some path) :=
    fun _ h => RestoreTarget.archivePath_iff.mpr h
  cases harchive : archivePath fs k.links k.directory filename with
  | error e =>
    refine .inl ⟨rfl, fun _ path h => ?_⟩
    have hfound := (hleads path h).symm.trans harchive
    cases hfound
  | ok found =>
    cases found with
    | none =>
      refine .inl ⟨rfl, fun _ path h => ?_⟩
      have hfound := (hleads path h).symm.trans harchive
      cases hfound
    | some path =>
      have hpath : Leads fs k.links k.directory filename path :=
        RestoreTarget.archivePath_iff.mp harchive
      simp only [FileBackupArchives.unlinkAt]
      cases hresists : k.resists path with
      | true =>
        refine .inl ⟨rfl, fun _ other hother => ?_⟩
        -- a name leads to one path at most
        have hsame : path = other := walk_unique hpath.resolved hother.resolved
        rw [← hsame]
        exact hresists
      | false =>
        rcases view_of_isFile hpath.file with ⟨c, hview⟩
        rcases stepAt_unlink hview with ⟨fs', hstep, hgone, hrest⟩
        refine .inr ⟨path, c, fs', ?_, hdeletable, hpath, hresists, hview, hgone, hrest⟩
        rw [if_neg Bool.false_ne_true, hstep]

theorem less_of_unlinked (hgone : fs'.view path = none)
    (hrest : ∀ other, other ≠ path → fs'.view other = fs.view other) : Less fs fs' := by
  intro other kind hkind
  by_cases hother : other = path
  · rw [hother, hgone] at hkind
    cases hkind
  · rw [← hrest other hother]
    exact hkind

theorem deleteArchive_less (k : FileBackupArchives) (fs : Files) (filename : String) :
    Less fs (k.deleteArchive fs filename).1 := by
  rcases deleteArchive_cases k fs filename with ⟨hsame, _⟩ |
    ⟨path, _, fs', hdelete, _, _, _, _, hgone, hrest⟩
  · rw [hsame]
    exact fun _ _ h => h
  · rw [hdelete]
    exact less_of_unlinked hgone hrest

theorem deleteArchive_single (k : FileBackupArchives) (fs : Files) (filename : String) :
    AtMostOne fs (k.deleteArchive fs filename).1 := by
  intro p p' hp hp'
  rcases deleteArchive_cases k fs filename with ⟨hsame, _⟩ |
    ⟨path, _, fs', hdelete, _, _, _, _, _, hrest⟩
  · rw [hsame] at hp
    exact absurd hp.2 hp.1
  · rw [hdelete] at hp hp'
    have hpath : ∀ other, Removed fs fs' other → other = path := by
      intro other hother
      by_contra hne
      exact hother.1 ((hrest other hne).symm.trans hother.2)
    rw [hpath p hp, hpath p' hp']

theorem inPerimeter_of_less (hless : Less fs₀ fs) {root : Path}
    (hroot : resolve fs k.links k.directory = .ok root) :
    InPerimeter k fs path ↔ InPerimeter k fs₀ path := by
  have hroot₀ : resolve fs₀ k.links k.directory = .ok root := walk_of_less hless hroot
  unfold InPerimeter
  rw [hroot, hroot₀]

theorem spares_deleteArchive_iff (hless : Less fs₀ fs) :
    Spares (InPerimeter k fs₀) fs (k.deleteArchive fs filename).1 ↔ ¬ Strays k fs filename := by
  rcases deleteArchive_cases k fs filename with ⟨hsame, hresists⟩ |
    ⟨path, c, fs', hdelete, hdeletable, hleads, hresists, hview, hgone, hrest⟩
  · rw [hsame]
    refine ⟨fun _ => ?_, fun _ _ => .inl rfl⟩
    rintro ⟨hdeletable, path, hleads, hfalse, _⟩
    rw [hresists hdeletable path hleads] at hfalse
    cases hfalse
  · rw [hdelete]
    rcases hleads.inside with ⟨root, hroot, _⟩
    have hperimeter : InPerimeter k fs path ↔ InPerimeter k fs₀ path :=
      inPerimeter_of_less hless hroot
    constructor
    · rintro hspares ⟨_, other, hother, _, houtside⟩
      have hsame : path = other := walk_unique hleads.resolved hother.resolved
      rw [← hsame, hperimeter] at houtside
      rcases hspares path with hkept | ⟨_, _, hinside⟩
      · rw [hgone, hview] at hkept
        cases hkept
      · exact houtside hinside
    · intro hstrays other
      by_cases hother : other = path
      · rw [hother]
        refine .inr ⟨hgone, ⟨c, hview⟩, hperimeter.mp ?_⟩
        by_contra houtside
        exact hstrays ⟨hdeletable, path, hleads, hresists, houtside⟩
      · exact .inl (hrest other hother)

/-! ### One after the other -/

theorem Spares.refl (P : Path → Prop) (fs : Files) : Spares P fs fs := fun _ => .inl rfl

theorem Spares.trans (h : Spares P fs fs') (h' : Spares P fs' fs'') : Spares P fs fs'' := by
  intro path
  rcases h' path with hsame | ⟨hgone, ⟨c, hfile⟩, hinside⟩
  · rw [hsame]
    exact h path
  · rcases h path with hsame | ⟨hnone, _⟩
    · exact .inr ⟨hgone, ⟨c, hsame.symm.trans hfile⟩, hinside⟩
    · rw [hnone] at hfile
      cases hfile

theorem Spares.first (hless : Less fs fs') (hless' : Less fs' fs'') (h : Spares P fs fs'') :
    Spares P fs fs' := by
  intro path
  cases hview : fs'.view path with
  | some kind => exact .inl (hless path kind hview).symm
  | none =>
    rcases h path with hsame | ⟨_, hfile, hinside⟩
    · exact .inl ((hless'.none hview).symm.trans hsame)
    · exact .inr ⟨rfl, hfile, hinside⟩

theorem Spares.rest (hless : Less fs fs') (hless' : Less fs' fs'') (h : Spares P fs fs'') :
    Spares P fs' fs'' := by
  intro path
  cases hview : fs'.view path with
  | none => exact .inl (hless'.none hview)
  | some kind =>
    have hkind : fs.view path = some kind := hless path kind hview
    rcases h path with hsame | ⟨hgone, ⟨c, hfile⟩, hinside⟩
    · exact .inl (hsame.trans hkind)
    · exact .inr ⟨hgone, ⟨c, hkind.symm.trans hfile⟩, hinside⟩

theorem deletePlanned_less (items : List BackupRetentionItem) (report : Report) (fs : Files) :
    Less fs (deletePlanned k items report fs).1 := by
  induction items generalizing report fs with
  | nil => exact fun _ _ h => h
  | cons item items ih =>
    have hless := deleteArchive_less k fs item.archive.filename
    unfold deletePlanned
    cases hdelete : k.deleteArchive fs item.archive.filename with
    | mk fs' result =>
      rw [hdelete] at hless
      cases result with
      | error e => exact hless
      | ok gone => exact hless.trans (ih _ fs')

theorem spares_deletePlanned_iff (items : List BackupRetentionItem) (report : Report)
    (hless : Less fs₀ fs) :
    Spares (InPerimeter k fs₀) fs (deletePlanned k items report fs).1 ↔
      ∀ turn ∈ turns k items fs, ¬ Strays k turn.1 turn.2 := by
  induction items generalizing report fs with
  | nil => exact ⟨fun _ _ hturn => absurd hturn List.not_mem_nil, fun _ => .refl _ fs⟩
  | cons item items ih =>
    have hfirst : Spares (InPerimeter k fs₀) fs (k.deleteArchive fs item.archive.filename).1 ↔
        ¬ Strays k fs item.archive.filename := spares_deleteArchive_iff hless
    have hshrunk := deleteArchive_less k fs item.archive.filename
    unfold deletePlanned turns
    cases hdelete : k.deleteArchive fs item.archive.filename with
    | mk fs' result =>
      rw [hdelete] at hfirst hshrunk
      rw [List.forall_mem_cons]
      cases result with
      | error e =>
        refine hfirst.trans ⟨fun h => ⟨h, ?_⟩, fun h => h.1⟩
        exact fun _ hturn => absurd hturn List.not_mem_nil
      | ok gone =>
        have hrest := deletePlanned_less (k := k) items (report.add item.archive gone) fs'
        rw [← ih (report.add item.archive gone) (hless.trans hshrunk), ← hfirst]
        constructor
        · exact fun h => ⟨h.first hshrunk hrest, h.rest hshrunk hrest⟩
        · exact fun h => h.1.trans h.2

theorem spares_applyBackupRetention_iff (q : Policy) (fs : Files) :
    Spares (InPerimeter k fs) fs (applyBackupRetention k q fs).1 ↔
      ∀ turn ∈ retentionTurns k q fs, ¬ Strays k turn.1 turn.2 := by
  unfold applyBackupRetention retentionTurns
  cases planned k q fs with
  | error e => exact ⟨fun _ _ hturn => absurd hturn List.not_mem_nil, fun _ => .refl _ fs⟩
  | ok items => exact spares_deletePlanned_iff items {} fun _ _ h => h

theorem autoRetention_files {profiles : List BackupProfile} {kind : String} {now : ℤ} {q : Policy}
    (h : autoPolicy profiles kind now = some q) :
    (autoRetention k profiles kind now fs).1 = (applyBackupRetention k q fs).1 := by
  unfold autoRetention
  rw [h]
  cases happly : applyBackupRetention k q fs with
  | mk fs' result => cases result <;> simp only [happly]

theorem spares_autoRetention_iff (profiles : List BackupProfile) (kind : String) (now : ℤ)
    (fs : Files) :
    Spares (InPerimeter k fs) fs (autoRetention k profiles kind now fs).1 ↔
      ∀ turn ∈ autoTurns k profiles kind now fs, ¬ Strays k turn.1 turn.2 := by
  cases hpolicy : autoPolicy profiles kind now with
  | none =>
    unfold autoRetention autoTurns
    rw [hpolicy]
    exact ⟨fun _ _ hturn => absurd hturn List.not_mem_nil, fun _ => .refl _ fs⟩
  | some q =>
    rw [autoRetention_files hpolicy, autoTurns, hpolicy]
    exact spares_applyBackupRetention_iff q fs

end

/-- Deletions stay in the perimeter exactly when no name leads out of it. -/
theorem deletion_perimeter (k : FileBackupArchives) (fs : Files) :
    (∀ filename, (AtMostOne fs (k.deleteArchive fs filename).1 ∧
        Spares (InPerimeter k fs) fs (k.deleteArchive fs filename).1) ↔ ¬ Strays k fs filename) ∧
    (∀ q, Spares (InPerimeter k fs) fs (applyBackupRetention k q fs).1 ↔
      ∀ turn ∈ retentionTurns k q fs, ¬ Strays k turn.1 turn.2) ∧
    (∀ profiles kind now, Spares (InPerimeter k fs) fs (autoRetention k profiles kind now fs).1 ↔
      ∀ turn ∈ autoTurns k profiles kind now fs, ¬ Strays k turn.1 turn.2) := by
  refine ⟨?_, fun q => spares_applyBackupRetention_iff q fs,
    fun profiles kind now => spares_autoRetention_iff profiles kind now fs⟩
  intro filename
  rw [spares_deleteArchive_iff fun _ _ h => h]
  exact and_iff_right (deleteArchive_single k fs filename)

/-! ### A tree without links -/

section

variable {k : FileBackupArchives} {fs : Files} {filename : String} {root : Path}

end

/-! ### A link out of the perimeter -/

/-- `/backups`, where `scheduled/x.tar.gz` is a link to `manual/y.tar.gz`. -/
def linkedOut : Files :=
  let scheduled : Folder Content := Folder.empty.set "x.tar.gz"
    (some (Entry.link "../manual/y.tar.gz"))
  let manual : Folder Content := Folder.empty.set "y.tar.gz" (some (Entry.file (.bytes [1])))
  let backups : Folder Content := (Folder.empty.set "scheduled"
    (some (Entry.folder scheduled))).set "manual" (some (Entry.folder manual))
  some (Entry.folder (Folder.empty.set "backups" (some (Entry.folder backups))))

def backups : FileBackupArchives where
  directory := ["backups"]
  links := 40

/-- The link is listed as an archive of `scheduled/`. -/
example : (backups.listArchives linkedOut).toOption.map (·.map BackupArchive.filename) =
    some ["scheduled/x.tar.gz", "manual/y.tar.gz"] := by decide +kernel

theorem manual_archive_deleted : ¬ ∀ (k : FileBackupArchives) (fs : Files) (filename : String),
    AtMostOne fs (k.deleteArchive fs filename).1 ∧
      Spares (InPerimeter k fs) fs (k.deleteArchive fs filename).1 := by
  intro hall
  have hgone : (backups.deleteArchive linkedOut "scheduled/x.tar.gz").1.view
      ["backups", "manual", "y.tar.gz"] = none := by decide +kernel
  have hfile : linkedOut.view ["backups", "manual", "y.tar.gz"] = some (.file (.bytes [1])) := by
    decide +kernel
  have hroot : resolve linkedOut 40 ["backups"] = .ok ["backups"] := by decide +kernel
  rcases (hall backups linkedOut "scheduled/x.tar.gz").2 ["backups", "manual", "y.tar.gz"] with
    hsame | ⟨_, _, root, hresolved, folder, name, rest, hfolder, hpath⟩
  · rw [hgone, hfile] at hsame
    cases hsame
  · have hbackups : root = ["backups"] := Except.ok.inj (hresolved.symm.trans hroot)
    rw [hbackups] at hpath
    have hmanual : "manual" = folder := (List.cons.inj (List.cons.inj hpath).2).1
    rw [← hmanual] at hfolder
    rcases hfolder with hfolder | hfolder <;> exact absurd hfolder (by decide)

end DeletionPerimeter
