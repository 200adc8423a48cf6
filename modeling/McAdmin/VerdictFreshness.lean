import McAdmin.ArchiveVerifier
import McAdmin.Runs

/-!
# Verdicts and the files they are about

The size and the date of a file tell whether a verdict is about it, as long as no file comes
to a size and a date that were had under its name before.
-/

namespace ArchiveVerifier

open Runs (run Along)

variable {γ : Type}

/-! ### Sizes and dates -/

def ArchiveFile.stat (file : ArchiveFile γ) : ℕ × ℤ := (file.sizeBytes, file.createdAt)

def statOf (archive : BackupArchive) : ℕ × ℤ := (archive.sizeBytes, archive.createdAt)

def ArchiveCheck.stat (check : ArchiveCheck) : Option (ℕ × ℤ) :=
  check.archiveCreatedAt.map (check.sizeBytes, ·)

/-- A file that is written has another size or date than the one it replaces. -/
def Changes (s : World γ) : Event γ → Prop
  | .write filename _ sizeBytes createdAt _ =>
    ∀ file, s.disk filename = some file → file.stat ≠ (sizeBytes, createdAt)
  | _ => True

/-- A file that is written comes to a size and date that are new to its name. -/
def Fresh (s : World γ) : Event γ → Prop
  | .write filename _ sizeBytes createdAt _ => (sizeBytes, createdAt) ∉ s.had filename
  | _ => True

/-- The verdict is one on the content of the file, from a reading that began when the file had
its size and date. -/
structure Vouched (inspect : γ → Inspection) (s : World γ) (filename : PyText)
    (file : ArchiveFile γ) : Prop where
  read : file.since ≤ s.readAt filename
  ok : (inspect file.content).ok = true
  restorable : (inspect file.content).restorable = true

/-! ### What the verifier keeps -/

structure ArchiveCheck.Tells (check : ArchiveCheck) (inspection : Inspection) : Prop where
  ok : check.ok = inspection.ok
  restorable : check.restorable = some inspection.restorable

/-- The file that has the size and date of the verdict is the one that was read. -/
structure Sound (inspect : γ → Inspection) (disk : PyText → Option (ArchiveFile γ))
    (had : PyText → List (ℕ × ℤ)) (filename : PyText) (check : ArchiveCheck) (start : ℕ) :
    Prop where
  had : ∀ stat, check.stat = some stat → stat ∈ had filename
  read : ∀ file, disk filename = some file → check.stat = some file.stat →
    file.since ≤ start ∧ check.Tells (inspect file.content)

def Stage.archives : Stage γ → List BackupArchive
  | .idle => []
  | .listing seen => seen
  | .purging archives => archives
  | .looking archives => archives
  | .scanning _ _ archives => archives
  | .marking _ archive => [archive]
  | .opening _ archive => [archive]
  | .verifying _ archive _ _ => [archive]
  | .recording _ _ => []

def StageSound (inspect : γ → Inspection) (disk : PyText → Option (ArchiveFile γ))
    (had : PyText → List (ℕ × ℤ)) : Stage γ → Prop
  | .verifying _ archive start opened => ∀ file, disk archive.filename = some file →
      file.stat = statOf archive → opened = some file ∧ file.since ≤ start
  | .recording check start => Sound inspect disk had check.filename check start
  | _ => True

structure Inv (inspect : γ → Inspection) (s : World γ) : Prop where
  dated : ∀ filename file, s.disk filename = some file →
    file.stat ∈ s.had filename ∧ file.since ≤ s.time
  listed : ∀ archive ∈ s.stage.archives, statOf archive ∈ s.had archive.filename
  stage : StageSound inspect s.disk s.had s.stage
  checks : ∀ filename check, s.checks.statuses.lookup filename = some check →
    Sound inspect s.disk s.had filename check (s.readAt filename)

section

variable {inspect : γ → Inspection} {minAge : ℤ} {s : World γ} {filename : PyText}
  {disk : PyText → Option (ArchiveFile γ)} {had : PyText → List (ℕ × ℤ)}
  {file : ArchiveFile γ} {check : ArchiveCheck} {begun : ℕ}

theorem Inv.start : Inv inspect ({} : World γ) :=
  ⟨nofun, nofun, trivial, fun _ _ h => by cases h⟩

theorem Inv.later (h : Inv inspect s) : Inv inspect { s with time := s.time + 1 } where
  dated := fun filename file hfile =>
    ⟨(h.dated filename file hfile).1, Nat.le_succ_of_le (h.dated filename file hfile).2⟩
  listed := h.listed
  stage := h.stage
  checks := h.checks

/-! ### Changes of the files -/

theorem mem_had_write {other : PyText} {stat new : ℕ × ℤ} (h : stat ∈ had other) :
    stat ∈ Function.update had filename (new :: had filename) other := by
  by_cases heq : other = filename
  · subst heq
    simp [h]
  · simp [heq, h]

theorem disk_write {other : PyText} {file' : ArchiveFile γ}
    (h : Function.update disk filename (some file) other = some file') :
    (other = filename ∧ file' = file) ∨ disk other = some file' := by
  by_cases heq : other = filename
  · subst heq
    exact .inl ⟨rfl, by simpa using h.symm⟩
  · exact .inr (by simpa [heq] using h)

theorem Sound.write (hnew : file.stat ∉ had filename) {other : PyText}
    (h : Sound inspect disk had other check begun) :
    Sound inspect (Function.update disk filename (some file))
      (Function.update had filename (file.stat :: had filename)) other check begun := by
  refine ⟨fun stat hstat => mem_had_write (h.had stat hstat), fun file' hfile' hstat => ?_⟩
  rcases disk_write hfile' with ⟨rfl, rfl⟩ | hold
  · exact absurd (h.had _ hstat) hnew
  · exact h.read file' hold hstat

theorem StageSound.write {stage : Stage γ} (hnew : file.stat ∉ had filename)
    (hlisted : ∀ archive ∈ stage.archives, statOf archive ∈ had archive.filename)
    (h : StageSound inspect disk had stage) :
    StageSound inspect (Function.update disk filename (some file))
      (Function.update had filename (file.stat :: had filename)) stage := by
  cases stage with
  | verifying now archive start opened =>
    intro file' hfile' hstat
    rcases disk_write hfile' with ⟨hname, rfl⟩ | hold
    · exact absurd (hname ▸ hstat ▸ hlisted archive List.mem_cons_self) hnew
    · exact h file' hold hstat
  | recording check start => exact Sound.write hnew h
  | _ => trivial

theorem Inv.write (h : Inv inspect s) (hnew : file.stat ∉ s.had filename)
    (htime : file.since ≤ s.time) : Inv inspect (s.write filename file) where
  dated := fun other file' hfile' => by
    rcases disk_write hfile' with ⟨rfl, rfl⟩ | hold
    · exact ⟨by simp [World.write, ArchiveFile.stat], htime⟩
    · exact ⟨mem_had_write (h.dated other file' hold).1, (h.dated other file' hold).2⟩
  listed := fun archive harchive => mem_had_write (h.listed archive harchive)
  stage := h.stage.write hnew h.listed
  checks := fun other check hcheck => (h.checks other check hcheck).write hnew

theorem disk_delete {other : PyText}
    (h : Function.update disk filename none other = some file) : disk other = some file := by
  by_cases heq : other = filename
  · subst heq
    simp at h
  · simpa [heq] using h

theorem Sound.delete {other : PyText} (h : Sound inspect disk had other check begun) :
    Sound inspect (Function.update disk filename none) had other check begun :=
  ⟨h.had, fun file hfile => h.read file (disk_delete hfile)⟩

theorem Inv.delete (h : Inv inspect s) :
    Inv inspect { s with disk := Function.update s.disk filename none } where
  dated := fun other file hfile => h.dated other file (disk_delete hfile)
  listed := h.listed
  stage := by
    have hstage := h.stage
    change StageSound inspect (Function.update s.disk filename none) s.had s.stage
    cases hat : s.stage with
    | verifying now archive start opened =>
      rw [hat] at hstage
      exact fun file hfile => hstage file (disk_delete hfile)
    | recording check start =>
      rw [hat] at hstage
      exact Sound.delete hstage
    | _ => trivial
  checks := fun other check hcheck => (h.checks other check hcheck).delete

/-! ### A tick -/

theorem Inv.stat (h : Inv inspect s) : Inv inspect (s.stat filename) := by
  unfold World.stat
  split
  · rename_i seen file hstage hfile
    refine ⟨h.dated, ?_, trivial, h.checks⟩
    have hlisted := h.listed
    rw [hstage] at hlisted
    refine List.forall_mem_append.mpr ⟨hlisted, fun archive harchive => ?_⟩
    rw [List.mem_singleton.mp harchive]
    exact (h.dated filename file hfile).1
  · exact h

theorem sound_checkOf {archive : BackupArchive} {opened : Option (ArchiveFile γ)}
    (hhad : statOf archive ∈ s.had archive.filename)
    (h : ∀ file, s.disk archive.filename = some file → file.stat = statOf archive →
      opened = some file ∧ file.since ≤ begun) (now : ℤ) (answer : Inspection) :
    Sound inspect s.disk s.had archive.filename
      (checkOf now archive (s.verify inspect archive.filename opened answer)) begun := by
  have hstat : ∀ result, (checkOf now archive result).stat = some (statOf archive) := fun _ => rfl
  refine ⟨fun stat h => ?_, fun file hfile hcheck => ?_⟩
  · rw [hstat] at h
    exact Option.some.inj h ▸ hhad
  · rw [hstat] at hcheck
    rcases h file hfile (Option.some.inj hcheck).symm with ⟨rfl, hsince⟩
    refine ⟨hsince, ?_⟩
    have hread : s.verify inspect archive.filename (some file) answer = inspect file.content := by
      simp [World.verify, hfile]
    rw [hread]
    exact ⟨rfl, rfl⟩

theorem lookup_recorded (data : JsonArchiveChecks) (name : PyText) :
    (data.recorded check).statuses.lookup name =
      if name = check.filename then some check else data.statuses.lookup name :=
  Dict.lookup_set data.statuses check.filename name check

theorem lookup_kept (existing : List PyText) (data : JsonArchiveChecks) (name : PyText) :
    (data.kept existing).statuses.lookup name =
      if name ∈ existing then data.statuses.lookup name else none := by
  rw [JsonArchiveChecks.kept, Dict.lookup_filter]
  by_cases h : name ∈ existing
  · cases data.statuses.lookup name <;> simp [h]
  · cases data.statuses.lookup name <;> simp [h]

/-! ### The file of the verdicts -/

section

variable {data data' : JsonArchiveChecks} {filename' : Option PyText} {existing : List PyText}

theorem write_eq_ok : data.write = .ok data' ↔ data.encodes = true ∧ data = data' := by
  unfold JsonArchiveChecks.write
  split
  · rename_i hencodes
    rw [Except.ok.injEq]
    exact (and_iff_right hencodes).symm
  · rename_i hraises
    exact ⟨nofun, fun h => absurd h.1 hraises⟩

theorem marked_of_ok (h : data.markChecking filename' = .ok data') :
    data' = data.marked filename' := by
  unfold JsonArchiveChecks.markChecking at h
  split at h
  · rename_i hnone
    obtain ⟨rfl, hmarker⟩ := hnone
    rw [← Except.ok.inj h, JsonArchiveChecks.marked, ← hmarker]
  · exact (write_eq_ok.mp h).2.symm

theorem recorded_of_ok (h : data.record check = .ok data') : data' = data.recorded check :=
  (write_eq_ok.mp h).2.symm

theorem kept_of_length
    (h : (data.kept existing).statuses.keys.length = data.statuses.keys.length) :
    data.kept existing = data := by
  have hentries : (data.kept existing).statuses.entries = data.statuses.entries := by
    refine (List.filter_sublist (l := data.statuses.entries)).eq_of_length ?_
    have hkeys : ∀ d : Dict PyText ArchiveCheck, d.keys.length = d.entries.length :=
      fun d => List.length_map ..
    rw [hkeys, hkeys] at h
    exact h
  have hstatuses : (data.kept existing).statuses = data.statuses := AList.ext hentries
  calc data.kept existing
      = ⟨(data.kept existing).statuses, data.checking⟩ := rfl
    _ = data := by rw [hstatuses]

theorem kept_of_ok (h : data.forgetMissing existing = .ok data') : data' = data.kept existing := by
  unfold JsonArchiveChecks.forgetMissing at h
  split at h
  · rename_i hlength
    rw [kept_of_length hlength]
    exact (Except.ok.inj h).symm
  · exact (write_eq_ok.mp h).2.symm

theorem encodes_iff : data.encodes = true ↔
    (∀ name check, data.statuses.lookup name = some check →
      encodes name = true ∧ check.encodes = true) ∧
    ∀ name ∈ data.checking, encodes name = true := by
  rw [JsonArchiveChecks.encodes, Bool.and_eq_true, List.all_eq_true, Option.all_eq_true]
  refine and_congr_left fun _ => ⟨fun h name check hcheck => ?_, fun h entry hentry => ?_⟩
  · have hentry := AList.mem_lookup_iff.mp (Option.mem_def.mpr hcheck)
    simpa using h ⟨name, check⟩ hentry
  · have hcheck := Option.mem_def.mp (AList.mem_lookup_iff.mpr hentry)
    simpa using h entry.1 entry.2 hcheck

theorem encodes_marked (h : data.encodes = true)
    (hname : ∀ name ∈ filename', encodes name = true) : (data.marked filename').encodes = true := by
  rw [encodes_iff] at h ⊢
  exact ⟨h.1, hname⟩

theorem encodes_kept (h : data.encodes = true) : (data.kept existing).encodes = true := by
  rw [encodes_iff] at h ⊢
  refine ⟨fun name check hcheck => ?_, h.2⟩
  rw [lookup_kept] at hcheck
  split at hcheck
  · exact h.1 name check hcheck
  · cases hcheck

theorem encodes_recorded (h : data.encodes = true) (hcheck : check.encodes = true) :
    (data.recorded check).encodes = true := by
  rw [encodes_iff] at h ⊢
  refine ⟨fun name check' hlookup => ?_, nofun⟩
  rw [lookup_recorded] at hlookup
  split at hlookup
  · rename_i hname
    cases hlookup
    have hfilename : encodes check.filename = true := by
      simp only [ArchiveCheck.encodes, Bool.and_eq_true] at hcheck
      exact hcheck.1.1
    exact ⟨hname ▸ hfilename, hcheck⟩
  · exact h.1 name check' hlookup

theorem markChecking_ok (h : data.encodes = true)
    (hname : ∀ name ∈ filename', encodes name = true) :
    data.markChecking filename' = .ok (data.marked filename') := by
  unfold JsonArchiveChecks.markChecking
  split
  · rename_i hnone
    rw [JsonArchiveChecks.marked, hnone.1, ← hnone.2]
  · exact write_eq_ok.mpr ⟨encodes_marked h hname, rfl⟩

theorem record_ok (h : data.encodes = true) (hcheck : check.encodes = true) :
    data.record check = .ok (data.recorded check) :=
  write_eq_ok.mpr ⟨encodes_recorded h hcheck, rfl⟩

theorem forgetMissing_ok (h : data.encodes = true) :
    data.forgetMissing existing = .ok (data.kept existing) := by
  unfold JsonArchiveChecks.forgetMissing
  split
  · rename_i hlength
    rw [kept_of_length hlength]
  · exact write_eq_ok.mpr ⟨encodes_kept h, rfl⟩

end

theorem Inv.writes (h : Inv inspect s) (hraised : Inv inspect { s with stage := .idle })
    {written : Except Exn JsonArchiveChecks} {stage : Stage γ}
    (hwritten : ∀ checks, written = .ok checks →
      (∀ archive ∈ stage.archives, statOf archive ∈ s.had archive.filename) ∧
        StageSound inspect s.disk s.had stage ∧
          ∀ filename check, checks.statuses.lookup filename = some check →
            s.checks.statuses.lookup filename = some check) :
    Inv inspect (s.writes written stage) := by
  cases written with
  | error exc => exact hraised
  | ok checks =>
    rcases hwritten checks rfl with ⟨hlisted, hstage, hchecks⟩
    exact ⟨h.dated, hlisted, hstage, fun filename check hcheck =>
      h.checks filename check (hchecks filename check hcheck)⟩

theorem mem_newestFirst {archives : List BackupArchive} {archive : BackupArchive} :
    archive ∈ newestFirst archives ↔ archive ∈ archives :=
  List.mem_mergeSort

theorem Inv.next (h : Inv inspect s) (now : ℤ) (answer : Inspection) :
    Inv inspect (s.next inspect minAge now answer) := by
  have hlisted := h.listed
  have hstage := h.stage
  have hraised : Inv inspect { s with stage := .idle } := ⟨h.dated, nofun, trivial, h.checks⟩
  unfold World.next
  split <;> rename_i hat <;> rw [hat] at hlisted hstage
  case h_1 => exact ⟨h.dated, nofun, trivial, h.checks⟩
  case h_2 =>
    exact ⟨h.dated, fun archive harchive => hlisted archive (mem_newestFirst.mp harchive), trivial,
      h.checks⟩
  case h_3 =>
    refine h.writes hraised fun checks hchecks => ?_
    rw [kept_of_ok hchecks]
    refine ⟨hlisted, trivial, fun filename check hcheck => ?_⟩
    rw [lookup_kept] at hcheck
    split at hcheck
    · exact hcheck
    · cases hcheck
  case h_4 => exact ⟨h.dated, hlisted, trivial, h.checks⟩
  case h_5 archive archives =>
    rcases List.forall_mem_cons.mp hlisted with ⟨hhead, htail⟩
    split
    · exact ⟨h.dated, htail, trivial, h.checks⟩
    · split
      · exact ⟨h.dated, htail, trivial, h.checks⟩
      · split
        · exact ⟨h.dated, by simpa [Stage.archives] using hhead, trivial, h.checks⟩
        · exact ⟨h.dated, htail, trivial, h.checks⟩
  case h_6 =>
    refine h.writes hraised fun checks hchecks => ?_
    rw [marked_of_ok hchecks]
    exact ⟨nofun, trivial, fun _ _ hcheck => hcheck⟩
  case h_7 =>
    refine h.writes hraised fun checks hchecks => ?_
    rw [marked_of_ok hchecks]
    exact ⟨hlisted, trivial, fun _ _ hcheck => hcheck⟩
  -- the file is opened: what is read from now on is what it holds now
  case h_8 =>
    exact ⟨h.dated, hlisted, fun file hfile _ => ⟨hfile, (h.dated _ file hfile).2⟩, h.checks⟩
  case h_9 archive start opened =>
    exact ⟨h.dated, nofun,
      sound_checkOf (hlisted archive List.mem_cons_self) hstage _ answer, h.checks⟩
  case h_10 check start =>
    split
    · rename_i checks hchecks
      rw [recorded_of_ok hchecks]
      refine ⟨h.dated, nofun, trivial, fun filename check' hcheck' => ?_⟩
      rw [lookup_recorded] at hcheck'
      -- the new verdict is sound by the stage, every other one as before
      by_cases heq : filename = check.filename
      · rw [if_pos heq] at hcheck'
        cases hcheck'
        have hsound : Sound inspect s.disk s.had check.filename check start := hstage
        simpa [heq] using hsound
      · rw [if_neg heq] at hcheck'
        simpa [heq] using h.checks filename check' hcheck'
    · exact hraised

theorem Inv.step (h : Inv inspect s) {e : Event γ} (hfresh : Fresh s e) :
    Inv inspect (step inspect minAge s e) := by
  cases e with
  | write filename content sizeBytes createdAt resolves =>
    exact h.later.write hfresh (Nat.le_refl _)
  | delete filename => exact h.later.delete
  | stat filename => exact h.later.stat
  | next now answer => exact h.later.next now answer
  | abort => exact ⟨h.later.dated, nofun, trivial, h.later.checks⟩

theorem encodes_step (h : s.checks.encodes = true) (e : Event γ) :
    (step inspect minAge s e).checks.encodes = true := by
  -- what is written can be encoded, and a failed write changes nothing
  have hmarked : ∀ {filename checks}, s.checks.markChecking filename = .ok checks →
      checks.encodes = true := by
    intro filename checks hchecks
    unfold JsonArchiveChecks.markChecking at hchecks
    split at hchecks
    · rwa [← Except.ok.inj hchecks]
    · obtain ⟨hencodes, rfl⟩ := write_eq_ok.mp hchecks
      exact hencodes
  have hwrites : ∀ (w : World γ) (written : Except Exn JsonArchiveChecks) (stage : Stage γ),
      w.checks.encodes = true → (∀ checks, written = .ok checks → checks.encodes = true) →
      (w.writes written stage).checks.encodes = true := by
    intro w written stage hw hwritten
    cases written with
    | error exc => exact hw
    | ok checks => exact hwritten checks rfl
  cases e with
  | write filename content sizeBytes createdAt resolves => exact h
  | delete filename => exact h
  | abort => exact h
  | stat filename =>
    simp only [ArchiveVerifier.step, World.stat]
    split <;> exact h
  | next now answer =>
    simp only [ArchiveVerifier.step, World.next]
    split
    case h_3 =>
      refine hwrites _ _ _ h fun checks hchecks => ?_
      rw [kept_of_ok hchecks]
      exact encodes_kept h
    case h_5 => split_ifs <;> exact h
    case h_6 => exact hwrites _ _ _ h fun _ => hmarked
    case h_7 => exact hwrites _ _ _ h fun _ => hmarked
    case h_10 =>
      split
      · rename_i hchecks
        obtain ⟨hencodes, rfl⟩ := write_eq_ok.mp hchecks
        exact hencodes
      · exact h
    all_goals exact h

theorem restoreArchiveIssues_eq_nil {found : Except PyText (List BackupArchive × Bool)}
    {checks : JsonArchiveChecks}
    (h : restoreArchiveIssues found (some (.ok checks)) filename = []) :
    ∃ archives archive check, found = .ok (archives, true) ∧
      findArchive archives filename = some archive ∧
      checks.statuses.lookup filename = some check ∧ check.stat = some (statOf archive) ∧
      check.ok = true ∧ check.restorable = some true := by
  unfold restoreArchiveIssues at h
  split at h
  · cases h
  · rename_i archives pathFound
    split at h
    · rename_i archive hfound
      simp only at h
      split at h
      · split at h <;> cases h
      · rename_i check hcheck
        split at h
        · split at h <;> cases h
        · rename_i hstat
          simp only [not_or, not_not] at hstat
          split at h
          · cases h
          · rename_i hok
            split at h
            · cases h
            · cases h
            · refine ⟨archives, archive, check, rfl, hfound, hcheck, ?_, ?_, ‹_›⟩
              · simp [ArchiveCheck.stat, statOf, hstat.1, hstat.2]
              · simpa using hok
    · cases h

theorem Inv.vouched (h : Inv inspect s) {found : Except PyText (List BackupArchive × Bool)}
    {archives : List BackupArchive} {pathFound : Bool}
    (hclear : restoreArchiveIssues found (some (.ok s.checks)) filename = [])
    (hfound : found = .ok (archives, pathFound))
    (hlisted : findArchive archives filename = some (file.listed filename))
    (hfile : s.disk filename = some file) : Vouched inspect s filename file := by
  rcases restoreArchiveIssues_eq_nil hclear with
    ⟨archives', archive, check, hfound', hlisted', hcheck, hstat, hok, hrestorable⟩
  rw [hfound] at hfound'
  cases hfound'
  rw [hlisted] at hlisted'
  cases hlisted'
  rcases (h.checks filename check hcheck).read file hfile hstat with ⟨hsince, htells⟩
  refine ⟨hsince, htells.ok.symm.trans hok, ?_⟩
  exact Option.some.inj (htells.restorable.symm.trans hrestorable)

end

end ArchiveVerifier
