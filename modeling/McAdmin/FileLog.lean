import Mathlib.Algebra.GroupWithZero.Nat
import McAdmin.Dict
import McAdmin.LastItems
import McAdmin.NewestFirst

/-!
# The view of the server's log

The last lines of `latest.log`, filled up from the archives, the newest first.  Of an archive
only so many lines are remembered: what is shown is without a gap when the request reaches past
no archive that has more.
-/

namespace FileLog

open NewestFirst (newestFirst)

abbrev Text := List Char

/-! ### What is read -/

/-- A line, and where it stands: in an archive, known by its date, or in `latest.log`.  Only its
text is looked at. -/
structure Line where
  file : Option ℤ
  number : ℕ
  text : Text
deriving DecidableEq

/-- What `gzip.open` makes of an archive. -/
inductive Reading where
  | lines (texts : List Text)
  /-- an `OSError`: no such format, no right to read it, a directory -/
  | refused
  /-- an `EOFError` or a `zlib.error`: it breaks off, or is damaged further on -/
  | broken

structure Archive where
  path : String
  mtime : ℤ
deriving DecidableEq

structure Directory where
  /-- `none` where there is no such file -/
  latest : Option (List Text)
  /-- `none` where the date of one of them cannot be read -/
  archives : Option (List Archive)

def numbered (file : Option ℤ) (texts : List Text) : List Line :=
  texts.mapIdx fun number text => ⟨file, number, text⟩

/-- `line.rstrip("\n")` -/
def Line.rstrip (line : Line) : Line := { line with text := line.text.rdropWhile (· = '\n') }

def maxArchives : ℕ := 7

def cacheLinesPerArchive : ℕ := 500

/-! ### The log -/

/-- `_archive_cache` -/
abbrev Cache := Dict String (ℤ × List Line)

end FileLog

/-- The patterns of a `FileLog`, as searches. -/
structure FileLog where
  exclude : Option (FileLog.Text → Bool)
  boot : Option (FileLog.Text → Bool)

namespace FileLog

open LastItems
open NewestFirst (newestFirst)

section

variable (log : FileLog)

def keep (line : Line) : Bool := log.exclude.all fun search => !search line.text

def boots (line : Line) : Bool := log.boot.any fun search => search line.text

def lastBootIndex : List Line → Option ℕ
  | [] => none
  | line :: rest =>
    match lastBootIndex rest with
    | some i => some (i + 1)
    | none => if log.boots line then some 0 else none

def readLatest (dir : Directory) (lines : ℕ) : List Line :=
  match dir.latest with
  | none => []
  | some texts => (((numbered none texts).filter log.keep).rtake lines).map Line.rstrip

-- What is in an archive of one path and one date does not change.
variable (reading : String → ℤ → Reading)

def readArchive (cache : Cache) (archive : Archive) : Cache × Option (List Line) :=
  match reading archive.path archive.mtime with
  | .broken => (cache, none)
  | .refused => (cache, some [])
  | .lines texts =>
    let result := (((numbered (some archive.mtime) texts).filter log.keep).map Line.rstrip).rtake
      cacheLinesPerArchive
    (cache.set archive.path (archive.mtime, result), some result)

/-- `none` where it raises. -/
def archiveLines (cache : Cache) (archive : Archive) : Cache × Option (List Line) :=
  match cache.lookup archive.path with
  | some cached =>
    if cached.1 = archive.mtime then (cache, some cached.2)
    else log.readArchive reading cache archive
  | none => log.readArchive reading cache archive

/-- The loop of `_backfill_from_archives`. -/
def backfill : Cache → List Archive → ℕ → List Line → Cache × Option (List Line)
  | cache, [], _, shown => (cache, some shown)
  | cache, archive :: older, missing, shown =>
    if missing = 0 then (cache, some shown)
    else
      match log.archiveLines reading cache archive with
      | (cache, none) => (cache, none)
      | (cache, some archived) =>
        match log.lastBootIndex archived with
        | some cut => (cache, some ((archived.drop cut).rtake missing ++ shown))
        | none =>
          backfill cache older (missing - (archived.rtake missing).length)
            (archived.rtake missing ++ shown)

def archivesNewestFirst (dir : Directory) : List Archive :=
  match dir.archives with
  | none => []
  | some archives => (newestFirst (·.mtime) archives).take maxArchives

def recent (cache : Cache) (dir : Directory) (lines : ℤ) : Cache × Option (List Line) :=
  if lines ≤ 0 then (cache, some [])
  else
    let current := log.readLatest dir lines.toNat
    match log.lastBootIndex current with
    | some cut => (cache, some (current.drop cut))
    | none =>
      if lines.toNat ≤ current.length then (cache, some current)
      else
        match log.backfill reading cache (archivesNewestFirst dir)
          (lines.toNat - current.length) [] with
        | (cache, shown) => (cache, shown.map (· ++ current))

/-- The requests to one `FileLog`, each with the directory as it is then. -/
def cacheAfter (requests : List (Directory × ℤ)) : Cache :=
  requests.foldl (fun cache request => (log.recent reading cache request.1 request.2).1) ∅

/-! ### What should be seen -/

def Archive.kept (archive : Archive) : List Line :=
  match reading archive.path archive.mtime with
  | .lines texts => ((numbered (some archive.mtime) texts).filter log.keep).map Line.rstrip
  | .refused | .broken => []

/-- The filtered lines of archives that are given newest first, from the oldest on. -/
def history (archives : List Archive) : List Line :=
  archives.reverse.flatMap (Archive.kept log reading)

def latestKept (dir : Directory) : List Line :=
  ((numbered none (dir.latest.getD [])).filter log.keep).map Line.rstrip

/-- Of all archives and `latest.log`. -/
def wholeHistory (dir : Directory) : List Line :=
  log.history reading (newestFirst (·.mtime) (dir.archives.getD [])) ++ log.latestKept dir

/-- The end of a history, which no boot marker stands in except at its start. -/
structure Tail (lines : ℤ) (whole shown : List Line) : Prop where
  suffix : shown <:+ whole
  length : (shown.length : ℤ) ≤ lines
  boot : ∀ line ∈ shown.tail, log.boots line = false

def ShowsTail (cache : Cache) (dir : Directory) (lines : ℤ) : Prop :=
  ∃ shown, (log.recent reading cache dir lines).2 = some shown ∧
    log.Tail lines (log.wholeHistory reading dir) shown

/-- It also begins at the last boot marker wherever this is among the last lines of all. -/
def ShowsFromBoot (cache : Cache) (dir : Directory) (lines : ℤ) : Prop :=
  ∃ shown, (log.recent reading cache dir lines).2 = some shown ∧
    log.Tail lines (log.wholeHistory reading dir) shown ∧
    ((∃ line ∈ (log.wholeHistory reading dir).rtake lines.toNat, log.boots line = true) →
      ∃ line ∈ shown.head?, log.boots line = true)

def Archive.remembered (archive : Archive) : List Line :=
  (archive.kept log reading).rtake cacheLinesPerArchive

def Passes (missing : ℕ) (newer : List Archive) : Prop :=
  (∀ archive ∈ newer, ∀ line ∈ archive.remembered log reading, log.boots line = false) ∧
    (newer.map fun archive => (archive.remembered log reading).length).sum < missing

/-- Each archive that a request gets to can be read, and if it has lines, those before it are
remembered as a whole. -/
def Gapless (missing : ℕ) (archives : List Archive) : Prop :=
  ∀ newer archive older, archives = newer ++ archive :: older → log.Passes reading missing newer →
    reading archive.path archive.mtime ≠ .broken ∧
    (archive.kept log reading ≠ [] →
      ∀ passed ∈ newer, (passed.kept log reading).length ≤ cacheLinesPerArchive)

/-- So of a request that `latest.log` does not settle. -/
def NoGap (dir : Directory) (lines : ℤ) : Prop :=
  (∀ line ∈ log.readLatest dir lines.toNat, log.boots line = false) →
    log.Gapless reading (lines.toNat - (log.readLatest dir lines.toNat).length)
      (archivesNewestFirst dir)

/-- A boot marker among the last lines of all is in a part that is read. -/
def BootSeen (dir : Directory) (lines : ℤ) : Prop :=
  (∃ line ∈ (log.wholeHistory reading dir).rtake lines.toNat, log.boots line = true) →
    (∃ line ∈ log.readLatest dir lines.toNat, log.boots line = true) ∨
    ∃ archive ∈ archivesNewestFirst dir, ∃ line ∈ archive.remembered log reading,
      log.boots line = true

/-! ### The boot marker -/

section

variable {log} {l l' shown whole : List Line} {lines : ℤ} {missing : ℕ}

theorem lastBootIndex_eq_none :
    log.lastBootIndex l = none ↔ ∀ line ∈ l, log.boots line = false := by
  induction l with
  | nil => simp [lastBootIndex]
  | cons line rest ih =>
    rw [lastBootIndex]
    cases hrest : log.lastBootIndex rest with
    | some i =>
      have hnot : ¬ ∀ line ∈ rest, log.boots line = false := by
        intro hall
        simp [ih.mpr hall] at hrest
      simp only [List.forall_mem_cons, reduceCtorEq, false_iff]
      exact fun hall => hnot hall.2
    | none =>
      rw [List.forall_mem_cons, and_iff_left (ih.mp hrest)]
      cases log.boots line <;> simp

theorem drop_lastBootIndex {cut : ℕ} (h : log.lastBootIndex l = some cut) :
    ∃ line rest, l.drop cut = line :: rest ∧ log.boots line = true ∧
      ∀ line ∈ rest, log.boots line = false := by
  induction l generalizing cut with
  | nil => simp [lastBootIndex] at h
  | cons line rest ih =>
    rw [lastBootIndex] at h
    cases hrest : log.lastBootIndex rest with
    | some i =>
      simp only [hrest, Option.some.injEq] at h
      rw [← h, List.drop_succ_cons]
      exact ih hrest
    | none =>
      cases hboots : log.boots line with
      | false => simp [hrest, hboots] at h
      | true =>
        simp only [hrest, hboots, if_true, Option.some.injEq] at h
        rw [← h]
        exact ⟨line, rest, rfl, hboots, lastBootIndex_eq_none.mp hrest⟩

theorem tail_suffix_tail (h : l <:+ l') : l.tail <:+ l'.tail := by
  rcases h with ⟨front, rfl⟩
  cases front with
  | nil => exact List.suffix_rfl
  | cons first front => exact (List.tail_suffix l).trans (List.suffix_append front l)

theorem tail_append (h : ∀ line ∈ l.tail, log.boots line = false)
    (h' : ∀ line ∈ l', log.boots line = false) :
    ∀ line ∈ (l ++ l').tail, log.boots line = false := by
  intro line hline
  cases l with
  | nil => exact h' line (List.mem_of_mem_tail hline)
  | cons first l =>
    rcases List.mem_append.mp hline with hline | hline
    · exact h line hline
    · exact h' line hline

theorem readLatest_eq (log : FileLog) (dir : Directory) (lines : ℕ) :
    log.readLatest dir lines = (log.latestKept dir).rtake lines := by
  unfold readLatest latestKept
  cases dir.latest with
  | none => simp [numbered]
  | some texts => exact map_rtake _ _ _

/-! ### What is remembered -/

section

variable {reading : String → ℤ → Reading} {cache : Cache} {dir : Directory}

/-- What reading an archive again would give, `none` where that raises. -/
def Archive.read (log : FileLog) (reading : String → ℤ → Reading) (archive : Archive) :
    Option (List Line) :=
  match reading archive.path archive.mtime with
  | .broken => none
  | .lines _ | .refused => some (archive.remembered log reading)

theorem read_of_broken {archive : Archive}
    (h : reading archive.path archive.mtime = .broken) : archive.read log reading = none := by
  rw [Archive.read, h]

theorem read_of_not_broken {archive : Archive}
    (h : reading archive.path archive.mtime ≠ .broken) :
    archive.read log reading = some (archive.remembered log reading) := by
  unfold Archive.read
  split
  case h_1 hread => exact absurd hread h
  all_goals rfl

def Coherent (log : FileLog) (reading : String → ℤ → Reading) (cache : Cache) : Prop :=
  ∀ archive : Archive, ∀ lines, cache.lookup archive.path = some (archive.mtime, lines) →
    archive.read log reading = some lines

theorem coherent_empty (log : FileLog) (reading : String → ℤ → Reading) :
    log.Coherent reading ∅ := by
  intro archive lines h
  simp at h

theorem readArchive_spec (h : log.Coherent reading cache) (archive : Archive) :
    log.Coherent reading (log.readArchive reading cache archive).1 ∧
      (log.readArchive reading cache archive).2 = archive.read log reading := by
  unfold readArchive
  split
  case h_1 hread => exact ⟨h, (read_of_broken hread).symm⟩
  case h_2 hread =>
    refine ⟨h, ?_⟩
    rw [read_of_not_broken (by rw [hread]; exact Reading.noConfusion), Archive.remembered,
      Archive.kept, hread, List.rtake_nil]
  case h_3 texts hread =>
    have hresult : archive.read log reading = some ((((numbered (some archive.mtime)
        texts).filter log.keep).map Line.rstrip).rtake cacheLinesPerArchive) := by
      rw [read_of_not_broken (by rw [hread]; exact Reading.noConfusion), Archive.remembered,
        Archive.kept, hread]
    refine ⟨?_, hresult.symm⟩
    intro other lines hlookup
    rw [Dict.lookup_set] at hlookup
    split at hlookup
    case isTrue hpath =>
      rw [Option.some.injEq, Prod.mk.injEq] at hlookup
      have hsame : other = archive := by
        cases other
        cases archive
        simp_all
      rw [hsame, hresult, hlookup.2]
    case isFalse => exact h other lines hlookup

theorem archiveLines_spec (h : log.Coherent reading cache) (archive : Archive) :
    log.Coherent reading (log.archiveLines reading cache archive).1 ∧
      (log.archiveLines reading cache archive).2 = archive.read log reading := by
  unfold archiveLines
  split
  case h_1 cached hlookup =>
    split
    case isTrue hdate =>
      refine ⟨h, (h archive cached.2 ?_).symm⟩
      rw [hlookup, ← hdate]
    case isFalse => exact readArchive_spec h archive
  case h_2 => exact readArchive_spec h archive

/-! ### What is added from the archives -/

def collect (log : FileLog) (reading : String → ℤ → Reading) : List Archive → ℕ →
    Option (List Line)
  | [], _ => some []
  | archive :: older, missing =>
    if missing = 0 then some []
    else
      match archive.read log reading with
      | none => none
      | some archived =>
        match log.lastBootIndex archived with
        | some cut => some ((archived.drop cut).rtake missing)
        | none => (collect log reading older (missing - archived.length)).map
          (· ++ archived.rtake missing)

theorem backfill_spec (h : log.Coherent reading cache) (archives : List Archive)
    (missing : ℕ) (shown : List Line) :
    log.Coherent reading (log.backfill reading cache archives missing shown).1 ∧
      (log.backfill reading cache archives missing shown).2 =
        (log.collect reading archives missing).map (· ++ shown) := by
  induction archives generalizing cache missing shown with
  | nil => exact ⟨h, rfl⟩
  | cons archive older ih =>
    rcases archiveLines_spec h archive with ⟨hcache, hread⟩
    rw [backfill, collect]
    by_cases hmissing : missing = 0
    · simp only [hmissing, if_true]
      exact ⟨h, rfl⟩
    · rw [if_neg hmissing, if_neg hmissing]
      rcases hlines : log.archiveLines reading cache archive with ⟨cache', archived⟩
      rw [hlines] at hcache hread
      cases archived with
      | none =>
        rw [← hread]
        exact ⟨hcache, rfl⟩
      | some archived =>
        simp only [← hread]
        cases hcut : log.lastBootIndex archived with
        | some cut => exact ⟨hcache, rfl⟩
        | none =>
          have hnext := ih hcache (missing - (archived.rtake missing).length)
            (archived.rtake missing ++ shown)
          have hleft : missing - (archived.rtake missing).length = missing - archived.length := by
            rw [length_rtake]
            omega
          refine ⟨hnext.1, hnext.2.trans ?_⟩
          rw [hleft, Option.map_map]
          congr 1
          funext found
          exact (List.append_assoc _ _ _).symm

theorem collect_of_boot {archive : Archive} {older : List Archive} {cut : ℕ}
    (hmissing : 0 < missing) (hread : reading archive.path archive.mtime ≠ .broken)
    (hcut : log.lastBootIndex (archive.remembered log reading) = some cut) :
    log.collect reading (archive :: older) missing =
      some (((archive.remembered log reading).drop cut).rtake missing) := by
  rw [collect, if_neg (by omega), read_of_not_broken hread]
  simp only [hcut]

theorem collect_of_no_boot {archive : Archive} (hmissing : 0 < missing)
    (hread : reading archive.path archive.mtime ≠ .broken)
    (hcut : log.lastBootIndex (archive.remembered log reading) = none) (older : List Archive) :
    log.collect reading (archive :: older) missing =
      (log.collect reading older
        (missing - (archive.remembered log reading).length)).map
        (· ++ (archive.remembered log reading).rtake missing) := by
  rw [collect, if_neg (by omega), read_of_not_broken hread]
  simp only [hcut]

theorem collect_zero (archives : List Archive) : log.collect reading archives 0 = some [] := by
  cases archives <;> simp [collect]

theorem recent_of_boot {cut : ℕ} (cache : Cache) (dir : Directory) (hlines : 0 < lines)
    (hcut : log.lastBootIndex (log.readLatest dir lines.toNat) = some cut) :
    log.recent reading cache dir lines =
      (cache, some ((log.readLatest dir lines.toNat).drop cut)) := by
  unfold recent
  rw [if_neg (not_le.mpr hlines)]
  simp only [hcut]

theorem recent_of_no_boot (h : log.Coherent reading cache) (dir : Directory) (hlines : 0 < lines)
    (hcut : log.lastBootIndex (log.readLatest dir lines.toNat) = none) :
    log.Coherent reading (log.recent reading cache dir lines).1 ∧
      (log.recent reading cache dir lines).2 =
        (log.collect reading (archivesNewestFirst dir)
          (lines.toNat - (log.readLatest dir lines.toNat).length)).map
          (· ++ log.readLatest dir lines.toNat) := by
  unfold recent
  rw [if_neg (not_le.mpr hlines)]
  simp only [hcut]
  split
  case isTrue hfull =>
    rw [Nat.sub_eq_zero_of_le hfull, collect_zero]
    exact ⟨h, rfl⟩
  case isFalse =>
    have hspec := backfill_spec h (archivesNewestFirst dir)
      (lines.toNat - (log.readLatest dir lines.toNat).length) []
    refine ⟨hspec.1, ?_⟩
    simp only [hspec.2, List.append_nil, Option.map_id']

theorem recent_coherent (h : log.Coherent reading cache) (dir : Directory) (lines : ℤ) :
    log.Coherent reading (log.recent reading cache dir lines).1 := by
  by_cases hlines : 0 < lines
  · cases hcut : log.lastBootIndex (log.readLatest dir lines.toNat) with
    | some cut =>
      rw [recent_of_boot cache dir hlines hcut]
      exact h
    | none => exact (recent_of_no_boot h dir hlines hcut).1
  · unfold recent
    rw [if_pos (not_lt.mp hlines)]
    exact h

theorem cacheAfter_coherent (log : FileLog) (reading : String → ℤ → Reading)
    (requests : List (Directory × ℤ)) : log.Coherent reading (log.cacheAfter reading requests) := by
  unfold cacheAfter
  have hrun : ∀ cache, log.Coherent reading cache → log.Coherent reading (requests.foldl
      (fun cache request => (log.recent reading cache request.1 request.2).1) cache) := by
    induction requests with
    | nil => exact fun cache h => h
    | cons request requests ih =>
      intro cache h
      exact ih _ (recent_coherent h request.1 request.2)
  exact hrun ∅ (coherent_empty log reading)

/-! ### Gaps -/

/-- `Gapless` of the archives that are left; the flag tells that all passed so far are remembered
as a whole. -/
def GaplessFrom (log : FileLog) (reading : String → ℤ → Reading) (complete : Prop)
    (missing : ℕ) (archives : List Archive) : Prop :=
  ∀ newer archive older, archives = newer ++ archive :: older → log.Passes reading missing newer →
    reading archive.path archive.mtime ≠ .broken ∧
    (archive.kept log reading ≠ [] → complete ∧
      ∀ passed ∈ newer, (passed.kept log reading).length ≤ cacheLinesPerArchive)

variable {archive : Archive} {newer older archives : List Archive} {complete : Prop}

theorem gapless_iff : log.Gapless reading missing archives ↔
    log.GaplessFrom reading True missing archives := by
  simp only [Gapless, GaplessFrom, true_and]

theorem GaplessFrom.imp {complete' : Prop} (h : log.GaplessFrom reading complete missing archives)
    (himp : complete → complete') : log.GaplessFrom reading complete' missing archives := by
  intro newer archive older hsplit hpasses
  rcases h newer archive older hsplit hpasses with ⟨hread, hcomplete⟩
  exact ⟨hread, fun hkept => ⟨himp (hcomplete hkept).1, (hcomplete hkept).2⟩⟩

theorem gaplessFrom_zero : log.GaplessFrom reading complete 0 archives := by
  intro newer archive older _ hpasses
  exact absurd hpasses.2 (Nat.not_lt_zero _)

theorem passes_cons : log.Passes reading missing (archive :: newer) ↔
    (∀ line ∈ archive.remembered log reading, log.boots line = false) ∧
      log.Passes reading (missing - (archive.remembered log reading).length) newer := by
  unfold Passes
  rw [List.forall_mem_cons, List.map_cons, List.sum_cons, and_assoc, Nat.lt_sub_iff_add_lt,
    Nat.add_comm]

theorem gaplessFrom_cons : log.GaplessFrom reading complete missing (archive :: older) ↔
    (0 < missing → reading archive.path archive.mtime ≠ .broken ∧
      (archive.kept log reading ≠ [] → complete)) ∧
    ((∀ line ∈ archive.remembered log reading, log.boots line = false) →
      log.GaplessFrom reading
        (complete ∧ (archive.kept log reading).length ≤ cacheLinesPerArchive)
        (missing - (archive.remembered log reading).length) older) := by
  constructor
  · intro h
    constructor
    · intro hmissing
      rcases h [] archive older rfl ⟨by simp, hmissing⟩ with ⟨hread, hcomplete⟩
      exact ⟨hread, fun hkept => (hcomplete hkept).1⟩
    · intro hboots newer next rest hsplit hpasses
      rcases h (archive :: newer) next rest (by rw [hsplit, List.cons_append])
        (passes_cons.mpr ⟨hboots, hpasses⟩) with ⟨hread, hcomplete⟩
      refine ⟨hread, fun hkept => ?_⟩
      rcases List.forall_mem_cons.mp (hcomplete hkept).2 with ⟨hfirst, hrest⟩
      exact ⟨⟨(hcomplete hkept).1, hfirst⟩, hrest⟩
  · rintro ⟨hhead, hrest⟩ newer next rest hsplit hpasses
    cases newer with
    | nil =>
      rw [List.nil_append, List.cons.injEq] at hsplit
      rw [← hsplit.1]
      rcases hhead hpasses.2 with ⟨hread, hcomplete⟩
      exact ⟨hread, fun hkept => ⟨hcomplete hkept, by simp⟩⟩
    | cons first newer =>
      rw [List.cons_append, List.cons.injEq] at hsplit
      rw [← hsplit.1] at hpasses ⊢
      rcases passes_cons.mp hpasses with ⟨hboots, hpasses⟩
      rcases hrest hboots newer next rest hsplit.2 hpasses with ⟨hread, hcomplete⟩
      refine ⟨hread, fun hkept => ?_⟩
      rcases hcomplete hkept with ⟨⟨hcomplete, hfirst⟩, hnewer⟩
      exact ⟨hcomplete, List.forall_mem_cons.mpr ⟨hfirst, hnewer⟩⟩

/-! ### Pieces of the history -/

theorem history_cons (log : FileLog) (reading : String → ℤ → Reading) (archive : Archive)
    (older : List Archive) :
    log.history reading (archive :: older) =
      log.history reading older ++ archive.kept log reading := by
  rw [history, history, List.reverse_cons, List.flatMap_append, List.flatMap_singleton]

theorem remembered_suffix (log : FileLog) (reading : String → ℤ → Reading) (archive : Archive) :
    archive.remembered log reading <:+ archive.kept log reading := rtake_suffix _ _

theorem remembered_of_short
    (h : (archive.kept log reading).length ≤ cacheLinesPerArchive) :
    archive.remembered log reading = archive.kept log reading := rtake_of_length_le h

theorem kept_eq_nil_of_remembered (h : archive.remembered log reading = []) :
    archive.kept log reading = [] := by
  have hlength := congrArg List.length h
  rw [Archive.remembered, length_rtake, List.length_nil] at hlength
  refine List.eq_nil_of_length_eq_zero ?_
  have : 0 < cacheLinesPerArchive := by decide
  omega

theorem file_of_mem_kept {line : Line} (h : line ∈ archive.kept log reading) :
    line.file = some archive.mtime := by
  unfold Archive.kept at h
  split at h
  case h_1 texts _ =>
    rcases List.mem_map.mp h with ⟨raw, hraw, rfl⟩
    rcases List.mem_mapIdx.mp (List.mem_filter.mp hraw).1 with ⟨i, hi, rfl⟩
    rfl
  all_goals cases h

theorem collect_cons (hmissing : 0 < missing)
    (h : log.collect reading (archive :: older) missing = some shown) :
    reading archive.path archive.mtime ≠ .broken ∧
      ((∃ cut, log.lastBootIndex (archive.remembered log reading) = some cut ∧
        shown = ((archive.remembered log reading).drop cut).rtake missing) ∨
        (∀ line ∈ archive.remembered log reading, log.boots line = false) ∧
          ∃ found, log.collect reading older
            (missing - (archive.remembered log reading).length) = some found ∧
            shown = found ++ (archive.remembered log reading).rtake missing) := by
  have hread : reading archive.path archive.mtime ≠ .broken := by
    intro hbroken
    rw [collect, if_neg (by omega), read_of_broken hbroken] at h
    cases h
  refine ⟨hread, ?_⟩
  cases hcut : log.lastBootIndex (archive.remembered log reading) with
  | some cut =>
    rw [collect_of_boot hmissing hread hcut, Option.some.injEq] at h
    exact .inl ⟨cut, rfl, h.symm⟩
  | none =>
    rw [collect_of_no_boot hmissing hread hcut, Option.map_eq_some_iff] at h
    rcases h with ⟨found, hfound, hshown⟩
    exact .inr ⟨lastBootIndex_eq_none.mp hcut, found, hfound, hshown.symm⟩

theorem mem_collect {line : Line} (h : log.collect reading archives missing = some shown)
    (hline : line ∈ shown) : ∃ archive ∈ archives, line ∈ archive.remembered log reading := by
  induction archives generalizing missing shown with
  | nil =>
    cases h
    cases hline
  | cons archive older ih =>
    rcases Nat.eq_zero_or_pos missing with rfl | hmissing
    · rw [collect_zero, Option.some.injEq] at h
      rw [← h] at hline
      cases hline
    rcases collect_cons hmissing h with ⟨_, ⟨cut, hcut, hshown⟩ | ⟨_, found, hfound, hshown⟩⟩
    · rw [hshown] at hline
      have hdrop := List.mem_of_mem_drop ((rtake_suffix _ _).subset hline)
      exact ⟨archive, List.mem_cons_self, hdrop⟩
    · rw [hshown] at hline
      rcases List.mem_append.mp hline with hline | hline
      · rcases ih hfound hline with ⟨other, hother, hmem⟩
        exact ⟨other, List.mem_cons_of_mem _ hother, hmem⟩
      · exact ⟨archive, List.mem_cons_self, (rtake_suffix _ _).subset hline⟩

theorem gapless_of_nothing (h : log.collect reading archives missing = some []) :
    log.GaplessFrom reading complete missing archives := by
  induction archives generalizing missing complete with
  | nil =>
    intro newer archive older hsplit
    simp at hsplit
  | cons archive older ih =>
    rcases Nat.eq_zero_or_pos missing with rfl | hmissing
    · exact gaplessFrom_zero
    rcases collect_cons hmissing h with ⟨hread, ⟨cut, hcut, hshown⟩ | ⟨_, found, hfound, hshown⟩⟩
    · rcases drop_lastBootIndex hcut with ⟨line, rest, hdrop, _, _⟩
      have hlength := congrArg List.length hshown
      rw [length_rtake, hdrop, List.length_cons, List.length_nil] at hlength
      omega
    · rcases List.append_eq_nil_iff.mp hshown.symm with ⟨rfl, hlast⟩
      have hremembered : archive.remembered log reading = [] := by
        have hlength := congrArg List.length hlast
        rw [length_rtake, List.length_nil] at hlength
        refine List.eq_nil_of_length_eq_zero ?_
        omega
      have hkept := kept_eq_nil_of_remembered hremembered
      exact gaplessFrom_cons.mpr ⟨fun _ => ⟨hread, fun hlines => absurd hkept hlines⟩,
        fun _ => ih hfound⟩

theorem length_collect_le (h : log.collect reading archives missing = some shown) :
    shown.length ≤ (log.history reading archives).length := by
  induction archives generalizing missing shown with
  | nil =>
    cases h
    exact Nat.zero_le _
  | cons archive older ih =>
    have hpart := (remembered_suffix log reading archive).length_le
    rw [history_cons, List.length_append]
    rcases Nat.eq_zero_or_pos missing with rfl | hmissing
    · rw [collect_zero, Option.some.injEq] at h
      rw [← h]
      exact Nat.zero_le _
    rcases collect_cons hmissing h with ⟨_, ⟨cut, _, rfl⟩ | ⟨_, found, hfound, rfl⟩⟩
    · rw [length_rtake, List.length_drop]
      omega
    · have hnext := ih hfound
      rw [List.length_append, length_rtake]
      omega

theorem nothing_after_part {found : List Line}
    (hdates : ((archive :: older).map (·.mtime)).Nodup)
    (hlong : cacheLinesPerArchive < (archive.kept log reading).length)
    (hfound : log.collect reading older missing = some found)
    (hsuffix : found ++ archive.remembered log reading <:+
      log.history reading (archive :: older)) : found = [] := by
  rcases remembered_suffix log reading archive with ⟨front, hfront⟩
  have hfront_ne : front ≠ [] := by
    rintro rfl
    have hlength := congrArg List.length hfront
    rw [List.nil_append, Archive.remembered, length_rtake] at hlength
    omega
  rw [history_cons, ← hfront, ← List.append_assoc, List.suffix_append_self_iff] at hsuffix
  rcases List.eq_nil_or_concat found with hnil | ⟨start, line, rfl⟩
  · exact hnil
  exfalso
  rcases List.eq_nil_or_concat front with hnil | ⟨start', line', rfl⟩
  · exact hfront_ne hnil
  rw [List.concat_eq_append, List.concat_eq_append, ← List.append_assoc] at hsuffix
  have hsame : line = line' := by
    have hlast := (List.suffix_append start [line]).trans hsuffix
    exact List.singleton_suffix_append_singleton_iff.mp hlast
  have hlast : line ∈ start.concat line := by simp
  rcases mem_collect hfound hlast with ⟨other, hother, hmem⟩
  have hmem' : line ∈ archive.kept log reading := by
    rw [← hfront, hsame]
    simp
  have hdate : other.mtime = archive.mtime := by
    have hkept := (remembered_suffix log reading other).subset hmem
    have hfile := (file_of_mem_kept hkept).symm.trans (file_of_mem_kept hmem')
    exact Option.some.inj hfile
  rw [List.map_cons, List.nodup_cons] at hdates
  exact hdates.1 (hdate ▸ List.mem_map_of_mem hother)

theorem gapless_of_collect (hdates : (archives.map (·.mtime)).Nodup)
    (h : log.collect reading archives missing = some shown)
    (hsuffix : shown <:+ log.history reading archives) :
    log.GaplessFrom reading True missing archives := by
  induction archives generalizing missing shown with
  | nil => exact gapless_of_nothing rfl
  | cons archive older ih =>
    rcases Nat.eq_zero_or_pos missing with rfl | hmissing
    · exact gaplessFrom_zero
    rcases collect_cons hmissing h with ⟨hread, hhere⟩
    refine gaplessFrom_cons.mpr ⟨fun _ => ⟨hread, fun _ => trivial⟩, fun hboots => ?_⟩
    rcases hhere with ⟨cut, hcut, _⟩ | ⟨_, found, hfound, rfl⟩
    · rw [lastBootIndex_eq_none.mpr hboots] at hcut
      cases hcut
    by_cases hall : missing ≤ (archive.remembered log reading).length
    · rw [Nat.sub_eq_zero_of_le hall]
      exact gaplessFrom_zero
    rw [rtake_of_length_le (Nat.le_of_lt (not_le.mp hall))] at hsuffix
    by_cases hshort : (archive.kept log reading).length ≤ cacheLinesPerArchive
    · rw [remembered_of_short hshort, history_cons, List.suffix_append_self_iff] at hsuffix
      rw [List.map_cons, List.nodup_cons] at hdates
      exact (ih hdates.2 hfound hsuffix).imp fun _ => ⟨trivial, hshort⟩
    · have hnil := nothing_after_part hdates (not_le.mp hshort) hfound hsuffix
      exact gapless_of_nothing (hnil ▸ hfound)

theorem collect_of_gapless (h : log.GaplessFrom reading complete missing archives) :
    ∃ shown, log.collect reading archives missing = some shown ∧
      shown <:+ log.history reading archives ∧ shown.length ≤ missing ∧
      (∀ line ∈ shown.tail, log.boots line = false) ∧ (¬ complete → shown = []) := by
  induction archives generalizing missing complete with
  | nil => exact ⟨[], rfl, List.nil_suffix, Nat.zero_le _, by simp, fun _ => rfl⟩
  | cons archive older ih =>
    rcases Nat.eq_zero_or_pos missing with rfl | hmissing
    · exact ⟨[], collect_zero _, List.nil_suffix, Nat.zero_le _, by simp, fun _ => rfl⟩
    rcases gaplessFrom_cons.mp h with ⟨hhead, hrest⟩
    rcases hhead hmissing with ⟨hread, hcomplete⟩
    have hpart := remembered_suffix log reading archive
    have hempty : ¬ complete → archive.remembered log reading = [] := by
      intro hpartial
      have hkept : archive.kept log reading = [] := by
        by_contra hlines
        exact hpartial (hcomplete hlines)
      rw [hkept] at hpart
      exact List.suffix_nil.mp hpart
    rw [history_cons]
    -- a boot marker in what is remembered of the archive ends the search there
    cases hcut : log.lastBootIndex (archive.remembered log reading) with
    | some cut =>
      rcases drop_lastBootIndex hcut with ⟨line, rest, hdrop, hboots, hlast⟩
      have hshown := rtake_suffix ((archive.remembered log reading).drop cut) missing
      refine ⟨_, collect_of_boot hmissing hread hcut, ?_, ?_, ?_, ?_⟩
      · exact List.suffix_append_of_suffix
          ((hshown.trans (List.drop_suffix _ _)).trans hpart)
      · rw [length_rtake]
        exact Nat.min_le_left _ _
      · intro line hline
        have htail := (tail_suffix_tail hshown).subset hline
        rw [hdrop] at htail
        exact hlast line htail
      · intro hpartial
        rw [hempty hpartial] at hcut
        simp [lastBootIndex] at hcut
    | none =>
      have hboots := lastBootIndex_eq_none.mp hcut
      rcases ih (hrest hboots) with ⟨found, hfound, hsuffix, hlength, htail, hnothing⟩
      have hcollect := collect_of_no_boot hmissing hread hcut older
      rw [hfound, Option.map_some] at hcollect
      refine ⟨_, hcollect, ?_, ?_, ?_, ?_⟩
      · by_cases hwhole : (archive.remembered log reading).rtake missing =
          archive.kept log reading
        · rw [hwhole, List.suffix_append_self_iff]
          exact hsuffix
        -- the archive is cut short, so that nothing of an older one may be shown
        · have hnil : found = [] := by
            by_contra hfound_ne
            have hlong : missing < (archive.remembered log reading).length ∨
                ¬ (archive.kept log reading).length ≤ cacheLinesPerArchive := by
              by_contra! hshort
              exact hwhole ((rtake_of_length_le hshort.1).trans (remembered_of_short hshort.2))
            rcases hlong with hlong | hlong
            · exact hfound_ne (List.eq_nil_of_length_eq_zero (by omega))
            · exact hfound_ne (hnothing fun hboth => hlong hboth.2)
          rw [hnil, List.nil_append]
          exact List.suffix_append_of_suffix ((rtake_suffix _ _).trans hpart)
      · rw [List.length_append, length_rtake]
        omega
      · exact tail_append htail fun line hline => hboots line ((rtake_suffix _ _).subset hline)
      · intro hpartial
        rw [hnothing fun hboth => hpartial hboth.1, hempty hpartial, List.rtake_nil]
        rfl

/-! ### The boot marker among the last lines -/

theorem collect_finds (h : log.collect reading archives missing = some shown)
    (hseen : ∃ archive ∈ archives, ∃ line ∈ archive.remembered log reading,
      log.boots line = true) :
    shown.length = missing ∨ ∃ line ∈ shown.head?, log.boots line = true := by
  induction archives generalizing missing shown with
  | nil => simp at hseen
  | cons archive older ih =>
    rcases Nat.eq_zero_or_pos missing with rfl | hmissing
    · rw [collect_zero, Option.some.injEq] at h
      exact .inl (h ▸ rfl)
    rcases collect_cons hmissing h with ⟨_, ⟨cut, hcut, rfl⟩ | ⟨hboots, found, hfound, rfl⟩⟩
    · rcases drop_lastBootIndex hcut with ⟨line, rest, hdrop, hboot, _⟩
      by_cases hshort : ((archive.remembered log reading).drop cut).length ≤ missing
      · rw [rtake_of_length_le hshort, hdrop]
        exact .inr ⟨line, rfl, hboot⟩
      · rw [length_rtake]
        omega
    · rcases hseen with ⟨other, hother, line, hline, hboot⟩
      rcases List.mem_cons.mp hother with rfl | hother
      · rw [hboots line hline] at hboot
        cases hboot
      rcases ih hfound ⟨other, hother, line, hline, hboot⟩ with hlength | ⟨first, hfirst, hboot⟩
      · rw [List.length_append, length_rtake]
        omega
      · refine .inr ⟨first, ?_, hboot⟩
        rw [Option.mem_def] at hfirst ⊢
        rw [List.head?_append, hfirst]
        rfl

/-! ### The view -/

theorem archivesNewestFirst_eq (dir : Directory) :
    archivesNewestFirst dir =
      (newestFirst (·.mtime) (dir.archives.getD [])).take maxArchives := by
  unfold archivesNewestFirst
  cases dir.archives with
  | none => simp [newestFirst]
  | some archives => rfl

theorem history_append (log : FileLog) (reading : String → ℤ → Reading)
    (newer older : List Archive) :
    log.history reading (newer ++ older) =
      log.history reading older ++ log.history reading newer := by
  rw [history, history, history, List.reverse_append, List.flatMap_append]

theorem wholeHistory_eq (log : FileLog) (reading : String → ℤ → Reading) (dir : Directory) :
    ∃ before, log.wholeHistory reading dir =
      before ++ (log.history reading (archivesNewestFirst dir) ++ log.latestKept dir) := by
  refine ⟨log.history reading ((newestFirst (·.mtime) (dir.archives.getD [])).drop maxArchives), ?_⟩
  rw [wholeHistory, ← List.append_assoc, archivesNewestFirst_eq, ← history_append,
    List.take_append_drop]

theorem latest_suffix (log : FileLog) (reading : String → ℤ → Reading) (dir : Directory)
    (lines : ℕ) : log.readLatest dir lines <:+ log.wholeHistory reading dir := by
  rcases wholeHistory_eq log reading dir with ⟨before, hwhole⟩
  rw [hwhole, readLatest_eq]
  exact List.suffix_append_of_suffix (List.suffix_append_of_suffix (rtake_suffix _ _))

theorem nodup_dates (hdates : ((dir.archives.getD []).map (·.mtime)).Nodup) :
    ((archivesNewestFirst dir).map (·.mtime)).Nodup := by
  rw [archivesNewestFirst_eq, List.map_take]
  refine List.Nodup.sublist (List.take_sublist _ _) ?_
  exact ((NewestFirst.newestFirst_perm _ _).map _).nodup_iff.mpr hdates

theorem latest_settled {cut : ℕ}
    (hcut : log.lastBootIndex (log.readLatest dir lines.toNat) = some cut) :
    log.NoGap reading dir lines := by
  intro hboots
  rw [lastBootIndex_eq_none.mpr hboots] at hcut
  cases hcut

theorem suffix_iff (h : log.collect reading (archivesNewestFirst dir)
      (lines.toNat - (log.readLatest dir lines.toNat).length) = some shown)
    (hshort : (log.readLatest dir lines.toNat).length < lines.toNat) :
    shown ++ log.readLatest dir lines.toNat <:+ log.wholeHistory reading dir ↔
      shown <:+ log.history reading (archivesNewestFirst dir) := by
  rcases wholeHistory_eq log reading dir with ⟨before, hwhole⟩
  have hlatest : log.readLatest dir lines.toNat = log.latestKept dir := by
    rw [readLatest_eq, length_rtake] at hshort
    rw [readLatest_eq, rtake_of_length_le (by omega)]
  rw [hwhole, hlatest, ← List.append_assoc, List.suffix_append_self_iff]
  constructor
  · intro hsuffix
    exact List.suffix_of_suffix_length_le hsuffix (List.suffix_append _ _) (length_collect_le h)
  · intro hsuffix
    exact List.suffix_append_of_suffix hsuffix

theorem tail_of_latest {cut : ℕ} (hlines : 0 < lines)
    (hcut : log.lastBootIndex (log.readLatest dir lines.toNat) = some cut) :
    log.Tail lines (log.wholeHistory reading dir) ((log.readLatest dir lines.toNat).drop cut) := by
  rcases drop_lastBootIndex hcut with ⟨line, rest, hdrop, _, hrest⟩
  constructor
  · exact (List.drop_suffix _ _).trans (latest_suffix log reading dir _)
  · rw [List.length_drop, readLatest_eq, length_rtake]
    omega
  · rw [hdrop]
    exact hrest

theorem showsTail_iff (h : log.Coherent reading cache)
    (hdates : ((dir.archives.getD []).map (·.mtime)).Nodup) (hlines : 0 < lines) :
    log.ShowsTail reading cache dir lines ↔ log.NoGap reading dir lines := by
  cases hcut : log.lastBootIndex (log.readLatest dir lines.toNat) with
  | some cut =>
    refine iff_of_true ⟨_, ?_, tail_of_latest hlines hcut⟩ (latest_settled hcut)
    rw [recent_of_boot cache dir hlines hcut]
  | none =>
    have hboots := lastBootIndex_eq_none.mp hcut
    have hlatest : (log.readLatest dir lines.toNat).length ≤ lines.toNat := by
      rw [readLatest_eq, length_rtake]
      exact Nat.min_le_left _ _
    have hrecent := (recent_of_no_boot h dir hlines hcut).2
    unfold ShowsTail NoGap
    rw [hrecent, gapless_iff, forall_prop_of_true hboots]
    constructor
    · rintro ⟨shown, hshown, htail⟩
      rcases Option.map_eq_some_iff.mp hshown with ⟨found, hfound, rfl⟩
      rcases hlatest.eq_or_lt with hfull | hshort
      · rw [hfull, Nat.sub_self]
        exact gaplessFrom_zero
      · exact gapless_of_collect (nodup_dates hdates) hfound
          ((suffix_iff hfound hshort).mp htail.suffix)
    · intro hgapless
      rcases collect_of_gapless hgapless with ⟨found, hfound, hsuffix, hlength, htail, _⟩
      refine ⟨found ++ log.readLatest dir lines.toNat, by rw [hfound]; rfl, ?_, ?_, ?_⟩
      · rcases hlatest.eq_or_lt with hfull | hshort
        · rw [hfull, Nat.sub_self] at hlength
          rw [List.eq_nil_of_length_eq_zero (Nat.le_zero.mp hlength), List.nil_append]
          exact latest_suffix log reading dir _
        · exact (suffix_iff hfound hshort).mpr hsuffix
      · rw [List.length_append]
        omega
      · exact tail_append htail hboots

theorem showsFromBoot_iff (h : log.Coherent reading cache)
    (hdates : ((dir.archives.getD []).map (·.mtime)).Nodup) (hlines : 0 < lines) :
    log.ShowsFromBoot reading cache dir lines ↔
      log.NoGap reading dir lines ∧ log.BootSeen reading dir lines := by
  constructor
  · rintro ⟨shown, hshown, htail, hboot⟩
    refine ⟨(showsTail_iff h hdates hlines).mp ⟨shown, hshown, htail⟩, fun hlast => ?_⟩
    rcases hboot hlast with ⟨first, hfirst, hboots⟩
    have hmem : first ∈ shown := List.mem_of_head? hfirst
    cases hcut : log.lastBootIndex (log.readLatest dir lines.toNat) with
    | some cut =>
      rcases drop_lastBootIndex hcut with ⟨line, rest, hdrop, hline, _⟩
      exact .inl ⟨line, List.mem_of_mem_drop (hdrop ▸ List.mem_cons_self), hline⟩
    | none =>
      rw [(recent_of_no_boot h dir hlines hcut).2] at hshown
      rcases Option.map_eq_some_iff.mp hshown with ⟨found, hfound, rfl⟩
      rcases List.mem_append.mp hmem with hmem | hmem
      · rcases mem_collect hfound hmem with ⟨archive, harchive, hremembered⟩
        exact .inr ⟨archive, harchive, first, hremembered, hboots⟩
      · exact .inl ⟨first, hmem, hboots⟩
  · rintro ⟨hnogap, hseen⟩
    rcases (showsTail_iff h hdates hlines).mpr hnogap with ⟨shown, hshown, htail⟩
    refine ⟨shown, hshown, htail, fun hlast => ?_⟩
    -- what has the full length begins at the marker of the last lines
    have hfull : shown.length = lines.toNat → ∃ line ∈ shown.head?, log.boots line = true := by
      intro hlength
      rcases hlast with ⟨line, hline, hboots⟩
      rw [← eq_rtake_of_suffix htail.suffix hlength] at hline
      cases shown with
      | nil => cases hline
      | cons first rest =>
        rcases List.mem_cons.mp hline with rfl | hline
        · exact ⟨line, rfl, hboots⟩
        · rw [htail.boot line hline] at hboots
          cases hboots
    cases hcut : log.lastBootIndex (log.readLatest dir lines.toNat) with
    | some cut =>
      rw [recent_of_boot cache dir hlines hcut, Option.some.injEq] at hshown
      rcases drop_lastBootIndex hcut with ⟨line, rest, hdrop, hboots, _⟩
      rw [← hshown, hdrop]
      exact ⟨line, rfl, hboots⟩
    | none =>
      have hnone := lastBootIndex_eq_none.mp hcut
      rw [(recent_of_no_boot h dir hlines hcut).2] at hshown
      rcases Option.map_eq_some_iff.mp hshown with ⟨found, hfound, rfl⟩
      rcases hseen hlast with ⟨line, hline, hboots⟩ | harchive
      · rw [hnone line hline] at hboots
        cases hboots
      · rcases collect_finds hfound harchive with hlength | ⟨first, hfirst, hboots⟩
        · refine hfull ?_
          have hlatest : (log.readLatest dir lines.toNat).length ≤ lines.toNat := by
            rw [readLatest_eq, length_rtake]
            exact Nat.min_le_left _ _
          rw [List.length_append]
          omega
        · refine ⟨first, ?_, hboots⟩
          rw [Option.mem_def] at hfirst ⊢
          rw [List.head?_append, hfirst]
          rfl

end

end

end

/-- After any requests, what is shown is an end of the log without a gap exactly when the request
gets past no archive that is remembered in part; and it begins at the last boot marker among the
last lines exactly when this is also in a part that is read. -/
theorem recent_iff_noGap (log : FileLog) (reading : String → ℤ → Reading)
    (requests : List (Directory × ℤ)) (dir : Directory) (lines : ℤ)
    (hdates : ((dir.archives.getD []).map (·.mtime)).Nodup) (hlines : 0 < lines) :
    (log.ShowsTail reading (log.cacheAfter reading requests) dir lines ↔
      log.NoGap reading dir lines) ∧
    (log.ShowsFromBoot reading (log.cacheAfter reading requests) dir lines ↔
      log.NoGap reading dir lines ∧ log.BootSeen reading dir lines) :=
  have hcache := cacheAfter_coherent log reading requests
  ⟨showsTail_iff hcache hdates hlines, showsFromBoot_iff hcache hdates hlines⟩

def unfiltered : FileLog := ⟨none, none⟩

def yesterday : Archive := ⟨"2026-07-05-1.log.gz", 2000⟩

def dayBefore : Archive := ⟨"2026-07-04-1.log.gz", 1000⟩

/-- Two archives and a new `latest.log`. -/
def afterRotation : Directory := ⟨some [], some [yesterday, dayBefore]⟩

/-- A line of the day before, and so many of yesterday. -/
def twoDays (count : ℕ) (_ : String) (mtime : ℤ) : Reading :=
  if mtime = 2000 then .lines (List.replicate count "[b] hier\n".toList)
  else .lines ["[a] avant-hier\n".toList]

theorem recent_iff_noGap_short :
    (unfiltered.ShowsTail (twoDays 2) (unfiltered.cacheAfter (twoDays 2) [(afterRotation, 1)])
      afterRotation 600 ↔ unfiltered.NoGap (twoDays 2) afterRotation 600) ∧
    (unfiltered.ShowsFromBoot (twoDays 2) (unfiltered.cacheAfter (twoDays 2) [(afterRotation, 1)])
      afterRotation 600 ↔ unfiltered.NoGap (twoDays 2) afterRotation 600 ∧
        unfiltered.BootSeen (twoDays 2) afterRotation 600) :=
  recent_iff_noGap unfiltered (twoDays 2) [(afterRotation, 1)] afterRotation 600 (by decide)
    (by decide)

theorem length_kept_unfiltered {reading : String → ℤ → Reading} {archive : Archive}
    (texts : List Text) (h : reading archive.path archive.mtime = .lines texts) :
    (archive.kept unfiltered reading).length = texts.length := by
  have hall : (numbered (some archive.mtime) texts).filter unfiltered.keep =
      numbered (some archive.mtime) texts := List.filter_eq_self.mpr fun _ _ => rfl
  rw [Archive.kept, h]
  simp only [List.length_map]
  rw [hall, numbered, List.length_mapIdx]

/-- The line of the day before is shown without the first line of yesterday. -/
theorem first_line_missing : ¬ unfiltered.ShowsTail (twoDays 501)
    (unfiltered.cacheAfter (twoDays 501) []) afterRotation 600 := by
  have hyesterday : (yesterday.kept unfiltered (twoDays 501)).length = 501 := by
    rw [length_kept_unfiltered (List.replicate 501 "[b] hier\n".toList) rfl,
      List.length_replicate]
  have hbefore : (dayBefore.kept unfiltered (twoDays 501)).length = 1 :=
    length_kept_unfiltered ["[a] avant-hier\n".toList] rfl
  rw [showsTail_iff (cacheAfter_coherent _ _ _) (by decide) (by decide)]
  intro hnogap
  have hgapless := hnogap (fun _ _ => rfl) [yesterday] dayBefore [] (by decide) ?_
  · have hkept : dayBefore.kept unfiltered (twoDays 501) ≠ [] := by
      rintro hnil
      rw [hnil] at hbefore
      cases hbefore
    have hshort := hgapless.2 hkept yesterday List.mem_cons_self
    rw [hyesterday] at hshort
    exact absurd hshort (by decide)
  · refine ⟨fun _ _ _ _ => rfl, ?_⟩
    rw [List.map_singleton, List.sum_singleton, Archive.remembered, length_rtake, hyesterday]
    decide

end FileLog
