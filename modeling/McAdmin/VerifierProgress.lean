import McAdmin.VerdictFreshness

/-!
# Progress of the verifier

Ticks among which nothing changes verify what there is to verify, one archive a tick, the
newest first.
-/

namespace ArchiveVerifier

open Runs (run Along)

/-! ### Ticks in succession -/

/-- When a tick looks, and what it lists, in whatever order. -/
structure Pass where
  now : ℤ
  listed : List BackupArchive

def ticks (minAge : ℤ) (archivePath : PyText → Bool) (verify : PyText → Inspection) :
    JsonArchiveChecks → List Pass → List (Except Exn (Option PyText))
  | _, [] => []
  | checks, pass :: passes =>
    let after := tick minAge pass.now pass.listed archivePath verify checks
    after.2 :: ticks minAge archivePath verify after.1 passes

/-- The archive is unverified or changed, old enough and found. -/
def due (minAge now : ℤ) (archivePath : PyText → Bool) (known : Dict PyText ArchiveCheck)
    (archive : BackupArchive) : Bool :=
  !verified known archive && !decide (now - archive.createdAt < minAge) &&
    archivePath archive.filename

def Recordable (verify : PyText → Inspection) (archive : BackupArchive) : Prop :=
  encodes archive.filename = true ∧ encodes (verify archive.filename).detail = true ∧
    encodes (verify archive.filename).worldName = true

section

variable {minAge now : ℤ} {archivePath : PyText → Bool} {verify : PyText → Inspection}
  {known : Dict PyText ArchiveCheck} {checks : JsonArchiveChecks}
  {archives listed : List BackupArchive} {archive : BackupArchive}

theorem nextArchive_eq_find (minAge now : ℤ) (known : Dict PyText ArchiveCheck)
    (archivePath : PyText → Bool) (archives : List BackupArchive) :
    nextArchive minAge now known archivePath archives =
      archives.find? (due minAge now archivePath known) := by
  induction archives with
  | nil => rfl
  | cons archive archives ih =>
    rw [nextArchive, List.find?_cons, ih, due]
    cases verified known archive <;> cases archivePath archive.filename <;>
      by_cases hyoung : now - archive.createdAt < minAge <;> simp [hyoung]

theorem verified_kept (h : archive ∈ archives) :
    verified (checks.kept (archives.map (·.filename))).statuses archive =
      verified checks.statuses archive := by
  rw [verified, verified, lookup_kept, if_pos (List.mem_map_of_mem h)]

theorem tick_eq (hencodes : checks.encodes = true) (listed : List BackupArchive)
    (hrecordable : ∀ archive ∈ listed, due minAge now archivePath checks.statuses archive = true →
      Recordable verify archive) :
    tick minAge now listed archivePath verify checks =
      match (newestFirst listed).find? (due minAge now archivePath checks.statuses) with
      | some archive =>
        (((checks.kept ((newestFirst listed).map (·.filename))).marked
          (some archive.filename)).recorded (checkOf now archive (verify archive.filename)),
          .ok (some archive.filename))
      | none =>
        ((checks.kept ((newestFirst listed).map (·.filename))).marked none, .ok none) := by
  have hfind : (newestFirst listed).find? (due minAge now archivePath
      (checks.kept ((newestFirst listed).map (·.filename))).statuses) =
      (newestFirst listed).find? (due minAge now archivePath checks.statuses) := by
    rw [← List.head?_filter, ← List.head?_filter]
    refine congrArg List.head? (List.filter_congr fun archive harchive => ?_)
    rw [due, due, verified_kept harchive]
  have hkept : (checks.kept ((newestFirst listed).map (·.filename))).encodes = true :=
    encodes_kept hencodes
  cases hnext : (newestFirst listed).find? (due minAge now archivePath checks.statuses) with
  | none =>
    have hnone : ∀ name ∈ (none : Option PyText), encodes name = true := nofun
    simp only [tick, forgetMissing_ok hencodes, nextArchive_eq_find, hfind, hnext,
      markChecking_ok hkept hnone]
  | some archive =>
    rcases hrecordable archive (mem_newestFirst.mp (List.mem_of_find?_eq_some hnext))
      (List.find?_some hnext) with ⟨hname, hdetail, hworld⟩
    have hmark : ∀ name ∈ some archive.filename, encodes name = true := by
      rintro name ⟨⟩
      exact hname
    have hcheck : (checkOf now archive (verify archive.filename)).encodes = true := by
      simp only [ArchiveCheck.encodes, checkOf, hname, hdetail, hworld, Bool.and_self]
    simp only [tick, forgetMissing_ok hencodes, nextArchive_eq_find, hfind, hnext,
      markChecking_ok hkept hmark, record_ok (encodes_marked hkept hmark) hcheck]

theorem pairwise_newestFirst (listed : List BackupArchive) :
    (newestFirst listed).Pairwise fun a b => b.createdAt ≤ a.createdAt := by
  have h : (newestFirst listed).Pairwise fun a b => decide (b.createdAt ≤ a.createdAt) :=
    List.pairwise_mergeSort
      (by simp only [decide_eq_true_eq]; exact fun a b c hab hbc => hbc.trans hab)
      (by simp only [Bool.or_eq_true, decide_eq_true_eq]; exact fun a b => le_total _ _) listed
  exact h.imp of_decide_eq_true

theorem newest_of_find {p : BackupArchive → Bool} (h : (newestFirst listed).find? p = some archive)
    {other : BackupArchive} (hother : other ∈ listed) (hp : p other = true) :
    other.createdAt ≤ archive.createdAt := by
  rcases List.find?_eq_some_iff_append.mp h with ⟨_, before, after, heq, hbefore⟩
  have hmem : other ∈ before ++ archive :: after := heq ▸ mem_newestFirst.mpr hother
  have hpairwise := heq ▸ pairwise_newestFirst listed
  rcases List.mem_append.mp hmem with hmem | hmem
  · simpa [hp] using hbefore other hmem
  · rcases List.mem_cons.mp hmem with rfl | hmem
    · exact Int.le_refl _
    · exact (List.pairwise_cons.mp (List.pairwise_append.mp hpairwise).2.1).1 other hmem

theorem due_recorded {checkedAt : ℤ} {existing : List PyText} {marker : Option PyText}
    {result : Inspection}
    (hnodup : (archives.map (·.filename)).Nodup) (hmem : archive ∈ archives)
    {other : BackupArchive} (hother : other ∈ archives) (hexisting : other.filename ∈ existing) :
    due minAge now archivePath
        (((checks.kept existing).marked marker).recorded
          (checkOf checkedAt archive result)).statuses other =
      (due minAge now archivePath checks.statuses other && decide (other ≠ archive)) := by
  have hverified : verified (((checks.kept existing).marked marker).recorded
      (checkOf checkedAt archive result)).statuses other =
      (verified checks.statuses other || decide (other = archive)) := by
    rw [verified, lookup_recorded]
    by_cases heq : other = archive
    · subst heq
      simp [checkOf, upToDate]
    · have hne : other.filename ≠ archive.filename := fun h =>
        heq (List.inj_on_of_nodup_map hnodup hother hmem h)
      have hstatuses : (JsonArchiveChecks.marked marker
          (checks.kept existing)).statuses.lookup other.filename =
          checks.statuses.lookup other.filename := by
        change (checks.kept existing).statuses.lookup other.filename = _
        rw [lookup_kept, if_pos hexisting]
      rw [if_neg (show other.filename ≠ (checkOf checkedAt archive result).filename from hne),
        hstatuses]
      simp [verified, heq]
  rw [due, due, hverified]
  by_cases heq : other = archive <;> simp [heq]

theorem due_congr {now' : ℤ}
    (h : now' - archive.createdAt < minAge ↔ now - archive.createdAt < minAge) :
    due minAge now' archivePath known archive = due minAge now archivePath known archive := by
  rw [due, due, decide_eq_decide.mpr h]

theorem tick_verifies (hencodes : checks.encodes = true)
    (hrecordable : ∀ archive ∈ listed, due minAge now archivePath checks.statuses archive = true →
      Recordable verify archive)
    (hnodup : (archives.map (·.filename)).Nodup) (hperm : listed.Perm archives)
    (hfind : (newestFirst listed).find? (due minAge now archivePath checks.statuses) =
      some archive) :
    ∃ checks', tick minAge now listed archivePath verify checks =
        (checks', .ok (some archive.filename)) ∧ checks'.encodes = true ∧
      ∀ (later : ℤ), ∀ other ∈ archives, due minAge later archivePath checks'.statuses other =
        (due minAge later archivePath checks.statuses other && decide (other ≠ archive)) := by
  have hlisted := mem_newestFirst.mp (List.mem_of_find?_eq_some hfind)
  rcases hrecordable archive hlisted (List.find?_some hfind) with ⟨hname, hdetail, hworld⟩
  refine ⟨_, by rw [tick_eq hencodes listed hrecordable, hfind], ?_, fun later other hother => ?_⟩
  · refine encodes_recorded (encodes_marked (encodes_kept hencodes) ?_) ?_
    · rintro name ⟨⟩
      exact hname
    · simp only [ArchiveCheck.encodes, checkOf, hname, hdetail, hworld, Bool.and_self]
  · have hexisting : other.filename ∈ (newestFirst listed).map (·.filename) :=
      List.mem_map_of_mem (mem_newestFirst.mpr (hperm.mem_iff.mpr hother))
    exact due_recorded hnodup (hperm.mem_iff.mp hlisted) hother hexisting

theorem ticks_eq {passes : List Pass} (hencodes : checks.encodes = true)
    (hrecordable : ∀ archive ∈ archives,
      due minAge now archivePath checks.statuses archive = true → Recordable verify archive)
    (hnodup : (archives.map (·.filename)).Nodup)
    (hlisted : ∀ pass ∈ passes, pass.listed.Perm archives)
    (hage : ∀ pass ∈ passes, ∀ archive ∈ archives,
      (pass.now - archive.createdAt < minAge ↔ now - archive.createdAt < minAge))
    (hlength : passes.length =
      (archives.filter (due minAge now archivePath checks.statuses)).length + 1) :
    ∃ order : List BackupArchive,
      order.Perm (archives.filter (due minAge now archivePath checks.statuses)) ∧
      order.Pairwise (fun a b => b.createdAt ≤ a.createdAt) ∧
      ticks minAge archivePath verify checks passes =
        order.map (fun archive => .ok (some archive.filename)) ++ [.ok none] := by
  induction passes generalizing checks with
  | nil => cases hlength
  | cons pass passes ih =>
    rcases List.forall_mem_cons.mp hlisted with ⟨hperm, hlisted⟩
    rcases List.forall_mem_cons.mp hage with ⟨hnow, hage⟩
    have hpass : ∀ archive ∈ archives, due minAge pass.now archivePath checks.statuses archive =
        due minAge now archivePath checks.statuses archive :=
      fun archive harchive => due_congr (hnow archive harchive)
    have hmem : ∀ archive, archive ∈ newestFirst pass.listed ↔ archive ∈ archives :=
      fun archive => mem_newestFirst.trans hperm.mem_iff
    have hdues : ∀ archive ∈ pass.listed,
        due minAge pass.now archivePath checks.statuses archive = true →
          Recordable verify archive := by
      intro archive harchive hdue
      have hmem := hperm.mem_iff.mp harchive
      exact hrecordable archive hmem ((hpass archive hmem).symm.trans hdue)
    rw [ticks]
    cases hfind : (newestFirst pass.listed).find?
        (due minAge pass.now archivePath checks.statuses) with
    -- nothing is due, so that this is the last pass
    | none =>
      have hnone : archives.filter (due minAge now archivePath checks.statuses) = [] := by
        refine List.filter_eq_nil_iff.mpr fun archive harchive => ?_
        have h := List.find?_eq_none.mp hfind archive ((hmem archive).mpr harchive)
        rwa [hpass archive harchive] at h
      rw [hnone] at hlength ⊢
      have hpasses : passes = [] := by simpa using hlength
      subst hpasses
      rw [tick_eq hencodes pass.listed hdues, hfind]
      exact ⟨[], List.Perm.refl _, List.Pairwise.nil, rfl⟩
    | some archive =>
      have harchive : archive ∈ archives := (hmem archive).mp (List.mem_of_find?_eq_some hfind)
      have hdue : due minAge now archivePath checks.statuses archive = true :=
        (hpass archive harchive).symm.trans (List.find?_some hfind)
      -- verifying the newest that is due takes it, and nothing else, out of what is due
      have hnodup' : archives.Nodup := List.Nodup.of_map _ hnodup
      obtain ⟨checks', htick, hencodes', hdues'⟩ :=
        tick_verifies hencodes hdues hnodup hperm hfind
      have hrest : archives.filter (due minAge now archivePath checks'.statuses) =
          (archives.filter (due minAge now archivePath checks.statuses)).erase archive := by
        rw [(hnodup'.filter _).erase_eq_filter, List.filter_filter]
        refine List.filter_congr fun other hother => ?_
        rw [hdues' now other hother, Bool.and_comm]
        by_cases heq : other = archive <;> simp [heq]
      have hmemdue : archive ∈ archives.filter (due minAge now archivePath checks.statuses) :=
        List.mem_filter.mpr ⟨harchive, hdue⟩
      have hlength' : passes.length =
          (archives.filter (due minAge now archivePath checks'.statuses)).length + 1 := by
        rw [hrest, List.length_erase_of_mem hmemdue]
        have hpos := List.length_pos_of_mem hmemdue
        rw [List.length_cons] at hlength
        omega
      have hrecordable' : ∀ other ∈ archives,
          due minAge now archivePath checks'.statuses other = true → Recordable verify other := by
        intro other hother hdue'
        have hmem := List.mem_filter.mpr ⟨hother, hdue'⟩
        rw [hrest] at hmem
        exact hrecordable other hother (List.mem_filter.mp (List.mem_of_mem_erase hmem)).2
      rcases ih hencodes' hrecordable' hlisted hage hlength' with
        ⟨order, horder, hpairwise, hticks⟩
      rw [hrest] at horder
      refine ⟨archive :: order, ?_, ?_, ?_⟩
      · exact (horder.cons archive).trans (List.perm_cons_erase hmemdue).symm
      · refine List.pairwise_cons.mpr ⟨fun other hother => ?_, hpairwise⟩
        have hfilter := List.mem_of_mem_erase (horder.mem_iff.mp hother)
        rcases List.mem_filter.mp hfilter with ⟨hother, hdue⟩
        exact newest_of_find hfind (hperm.mem_iff.mpr hother) ((hpass other hother).trans hdue)
      · rw [htick]
        simpa using hticks

end

/-! ### A tick of the verifier among others is the tick -/

variable {γ : Type}

def GoesOn (inspect : γ → Inspection) (minAge now : ℤ) (answer : Inspection)
    (s s' : World γ) : Prop :=
  ∃ count, run (step inspect minAge) s (List.replicate count (.next now answer)) = s'

section

variable {inspect : γ → Inspection} {minAge now : ℤ} {answer : Inspection} {s s' s'' : World γ}

theorem GoesOn.trans (h : GoesOn inspect minAge now answer s s')
    (h' : GoesOn inspect minAge now answer s' s'') : GoesOn inspect minAge now answer s s'' := by
  rcases h with ⟨count, rfl⟩
  rcases h' with ⟨count', rfl⟩
  exact ⟨count + count', by rw [List.replicate_add, Runs.run_append]⟩

theorem GoesOn.cons (h : GoesOn inspect minAge now answer
    (step inspect minAge s (.next now answer)) s') : GoesOn inspect minAge now answer s s' := by
  rcases h with ⟨count, rfl⟩
  exact ⟨count + 1, rfl⟩

theorem GoesOn.refl (s : World γ) : GoesOn inspect minAge now answer s s := ⟨0, rfl⟩

variable (inspect minAge answer) in
theorem goesOn_scanning {known : Dict PyText ArchiveCheck} {archives : List BackupArchive}
    (hstage : s.stage = .scanning now known archives) :
    ∃ time, GoesOn inspect minAge now answer s
      { s with
        time := time
        stage := match nextArchive minAge now known s.archivePath archives with
          | some archive => .marking now archive
          | none => .scanning now known [] } := by
  induction archives generalizing s with
  | nil => exact ⟨s.time, by simpa [nextArchive, ← hstage] using GoesOn.refl s⟩
  | cons archive archives ih =>
    -- an archive that is passed over costs one step of the search
    have hskip : nextArchive minAge now known s.archivePath (archive :: archives) =
          nextArchive minAge now known s.archivePath archives →
        step inspect minAge s (.next now answer) =
          { s with time := s.time + 1, stage := .scanning now known archives } →
        ∃ time, GoesOn inspect minAge now answer s
          { s with
            time := time
            stage := match nextArchive minAge now known s.archivePath (archive :: archives) with
              | some archive => .marking now archive
              | none => .scanning now known [] } := by
      intro hnext hstep
      rcases ih (s := { s with time := s.time + 1, stage := .scanning now known archives }) rfl with
        ⟨time, hgoes⟩
      refine ⟨time, GoesOn.cons ?_⟩
      rw [hnext, hstep]
      exact hgoes
    -- the three tests of the source, in its order
    by_cases hverified : verified known archive = true
    · refine hskip ?_ ?_
      · rw [nextArchive, if_pos hverified]
      · simp [step, World.next, hstage, hverified]
    by_cases hyoung : now - archive.createdAt < minAge
    · refine hskip ?_ ?_
      · rw [nextArchive, if_neg hverified, if_pos hyoung]
      · simp [step, World.next, hstage, hverified, hyoung]
    by_cases hpath : s.archivePath archive.filename = true
    · rw [nextArchive, if_neg hverified, if_neg hyoung, if_pos hpath]
      refine ⟨s.time + 1, GoesOn.cons ?_⟩
      have hstep : step inspect minAge s (.next now answer) =
          { s with time := s.time + 1, stage := .marking now archive } := by
        simp only [step, World.next, hstage, if_neg hverified, if_neg hyoung]
        exact if_pos hpath
      rw [hstep]
      exact GoesOn.refl _
    · refine hskip ?_ ?_
      · rw [nextArchive, if_neg hverified, if_neg hyoung, if_neg hpath]
      · simp only [step, World.next, hstage, if_neg hverified, if_neg hyoung]
        exact if_neg hpath

theorem run_stat {names : List PyText} {seen : List BackupArchive}
    (hstage : s.stage = .listing seen) :
    run (step inspect minAge) s (names.map .stat) =
      { s with
        time := s.time + names.length
        stage := .listing (seen ++ names.filterMap fun filename =>
          (s.disk filename).map (·.listed filename)) } := by
  induction names generalizing s seen with
  | nil => simp [← hstage]
  | cons filename names ih =>
    rw [List.map_cons, Runs.run_cons]
    cases hfile : s.disk filename with
    | none =>
      have hstep : step inspect minAge s (.stat filename) = { s with time := s.time + 1 } := by
        simp [step, World.stat, hstage, hfile]
      rw [hstep, ih (s := { s with time := s.time + 1 }) hstage]
      simp [hfile, Nat.add_assoc, Nat.add_comm 1]
    | some file =>
      have hstep : step inspect minAge s (.stat filename) =
          { s with time := s.time + 1, stage := .listing (seen ++ [file.listed filename]) } := by
        simp [step, World.stat, hstage, hfile]
      rw [hstep, ih rfl]
      simp [hfile, Nat.add_assoc, Nat.add_comm 1]

def afterVerifying (now : ℤ) (archive : BackupArchive) (result : Inspection)
    (checks : JsonArchiveChecks) : JsonArchiveChecks :=
  match checks.markChecking (some archive.filename) with
  | .error _ => checks
  | .ok marked =>
    match marked.record (checkOf now archive result) with
    | .error _ => marked
    | .ok recorded => recorded

def afterNothing (checks : JsonArchiveChecks) : JsonArchiveChecks :=
  match checks.markChecking none with
  | .error _ => checks
  | .ok marked => marked

theorem tick_checks (minAge now : ℤ) (listed : List BackupArchive) (archivePath : PyText → Bool)
    (verify : PyText → Inspection) (checks : JsonArchiveChecks) :
    (tick minAge now listed archivePath verify checks).1 =
      match checks.forgetMissing ((newestFirst listed).map (·.filename)) with
      | .error _ => checks
      | .ok checks =>
        match nextArchive minAge now checks.statuses archivePath (newestFirst listed) with
        | some archive => afterVerifying now archive (verify archive.filename) checks
        | none => afterNothing checks := by
  unfold tick
  dsimp only
  cases checks.forgetMissing ((newestFirst listed).map (·.filename)) with
  | error exc => rfl
  | ok checks =>
    dsimp only
    cases nextArchive minAge now checks.statuses archivePath (newestFirst listed) with
    | none =>
      unfold afterNothing
      dsimp only
      cases checks.markChecking none <;> rfl
    | some archive =>
      unfold afterVerifying
      dsimp only
      cases checks.markChecking (some archive.filename) with
      | error exc => rfl
      | ok marked =>
        dsimp only
        cases marked.record (checkOf now archive (verify archive.filename)) <;> rfl

variable (inspect minAge answer) in
theorem goesOn_marking {archive : BackupArchive} (hstage : s.stage = .marking now archive) :
    ∃ time readAt, GoesOn inspect minAge now answer s
      { s with
        time := time
        readAt := readAt
        checks := afterVerifying now archive
          (s.verify inspect archive.filename (s.disk archive.filename) answer) s.checks
        stage := .idle } := by
  unfold afterVerifying
  cases hmarked : s.checks.markChecking (some archive.filename) with
  | error exc =>
    refine ⟨s.time + 1, s.readAt, 1, ?_⟩
    simp [List.replicate, run, step, World.next, World.writes, hstage, hmarked]
  | ok marked =>
    dsimp only
    have hread : run (step inspect minAge) s (List.replicate 3 (.next now answer)) =
        { s with
          time := s.time + 3
          checks := marked
          stage := .recording (checkOf now archive
            (s.verify inspect archive.filename (s.disk archive.filename) answer)) (s.time + 2) } := by
      simp [List.replicate, run, step, World.next, World.writes, hstage, hmarked, World.verify]
    cases hrecorded : marked.record (checkOf now archive
        (s.verify inspect archive.filename (s.disk archive.filename) answer)) with
    | error exc =>
      refine ⟨s.time + 4, s.readAt, GoesOn.trans ⟨3, hread⟩ ⟨1, ?_⟩⟩
      simp [List.replicate, run, step, World.next, hrecorded]
    | ok recorded =>
      refine ⟨s.time + 4, Function.update s.readAt archive.filename (s.time + 2),
        GoesOn.trans ⟨3, hread⟩ ⟨1, ?_⟩⟩
      simp only [List.replicate, run, List.foldl_cons, List.foldl_nil, step, World.next, hrecorded]
      rfl

variable (inspect minAge now answer) in
theorem goesOn_nothing {known : Dict PyText ArchiveCheck}
    (hstage : s.stage = .scanning now known []) :
    ∃ time, GoesOn inspect minAge now answer s
      { s with time := time, checks := afterNothing s.checks, stage := .idle } := by
  refine ⟨s.time + 1, 1, ?_⟩
  unfold afterNothing
  cases hmarked : s.checks.markChecking none <;>
    simp [List.replicate, run, step, World.next, World.writes, hstage, hmarked]

variable (inspect minAge now answer) in
theorem goesOn_listed {listed : List BackupArchive} (hstage : s.stage = .listing listed) :
    ∃ time readAt, GoesOn inspect minAge now answer s
      { s with
        time := time
        readAt := readAt
        checks := (tick minAge now listed s.archivePath
          (fun filename => s.verify inspect filename (s.disk filename) answer) s.checks).1
        stage := .idle } := by
  rw [tick_checks]
  -- the purge may raise, which ends the tick before its search
  cases hforgotten : s.checks.forgetMissing ((newestFirst listed).map (·.filename)) with
  | error exc =>
    have hraised : run (step inspect minAge) s (List.replicate 2 (.next now answer)) =
        { s with time := s.time + 2, stage := .idle } := by
      simp [List.replicate, run, step, World.next, World.writes, hstage, hforgotten]
    exact ⟨_, _, 2, hraised⟩
  | ok forgotten =>
    have hscanning : run (step inspect minAge) s (List.replicate 3 (.next now answer)) =
        { s with
          time := s.time + 3
          checks := forgotten
          stage := .scanning now forgotten.statuses (newestFirst listed) } := by
      simp [List.replicate, run, step, World.next, World.writes, hstage, hforgotten]
    rcases goesOn_scanning inspect minAge answer
      (s := { s with
        time := s.time + 3
        checks := forgotten
        stage := .scanning now forgotten.statuses (newestFirst listed) }) rfl with ⟨time, hscan⟩
    have hgoes := GoesOn.trans ⟨3, hscanning⟩ hscan
    have harchivePath : World.archivePath { s with
        time := s.time + 3
        checks := forgotten
        stage := .scanning now forgotten.statuses (newestFirst listed) } = s.archivePath := rfl
    rw [harchivePath] at hgoes
    dsimp only
    cases hnext : nextArchive minAge now forgotten.statuses s.archivePath (newestFirst listed) with
    | some archive =>
      rw [hnext] at hgoes
      rcases goesOn_marking inspect minAge answer (s := { s with
        time := time
        checks := forgotten
        stage := .marking now archive }) rfl with ⟨time', readAt, hmarking⟩
      exact ⟨time', readAt, hgoes.trans hmarking⟩
    | none =>
      rw [hnext] at hgoes
      rcases goesOn_nothing inspect minAge now answer (s := { s with
        time := time
        checks := forgotten
        stage := .scanning now forgotten.statuses [] }) rfl with ⟨time', hnothing⟩
      exact ⟨time', s.readAt, hgoes.trans hnothing⟩

theorem run_tick (hidle : s.stage = .idle) (names : List PyText) :
    ∃ time readAt, GoesOn inspect minAge now answer
      (run (step inspect minAge) s (.next now answer :: names.map .stat))
      { s with
        time := time
        readAt := readAt
        checks := (tick minAge now
          (names.filterMap fun filename => (s.disk filename).map (·.listed filename))
          s.archivePath
          (fun filename => s.verify inspect filename (s.disk filename) answer) s.checks).1 } := by
  have hstart : step inspect minAge s (.next now answer) =
      { s with time := s.time + 1, stage := .listing [] } := by
    simp [step, World.next, hidle]
  rw [Runs.run_cons, hstart, run_stat rfl, List.nil_append]
  rcases goesOn_listed inspect minAge now answer
    (s := { s with
      time := s.time + 1 + names.length
      stage := .listing (names.filterMap fun filename =>
        (s.disk filename).map (·.listed filename)) }) rfl with ⟨time, readAt, hgoes⟩
  exact ⟨time, readAt, hidle ▸ hgoes⟩

end

/-! ### Both -/

/-- A preflight that accepts a file as it is relies on a verdict on it. -/
def Follows (inspect : γ → Inspection) (s : World γ) : Prop :=
  ∀ filename file archives pathFound, s.disk filename = some file →
    findArchive archives filename = some (file.listed filename) →
    restoreArchiveIssues (.ok (archives, pathFound)) (some (.ok s.checks)) filename = [] →
    Vouched inspect s filename file

/-- No verdict outlives its file, where no file comes to a size and date that its name had
before; and ticks verify what is due, one archive a tick, the newest first. -/
theorem verdicts_follow_archives (inspect : γ → Inspection) (minAge : ℤ) :
    (∀ events, Along (step inspect minAge) Fresh {} events →
      Follows inspect (run (step inspect minAge) {} events)) ∧
    (∀ events, (run (step inspect minAge) {} events).checks.encodes = true) ∧
    ∀ (archives : List BackupArchive) (now : ℤ) (archivePath : PyText → Bool)
      (verify : PyText → Inspection) (checks : JsonArchiveChecks) (passes : List Pass),
      checks.encodes = true →
      (∀ archive ∈ archives, due minAge now archivePath checks.statuses archive = true →
        Recordable verify archive) →
      (archives.map (·.filename)).Nodup → (∀ pass ∈ passes, pass.listed.Perm archives) →
      (∀ pass ∈ passes, ∀ archive ∈ archives,
        (pass.now - archive.createdAt < minAge ↔ now - archive.createdAt < minAge)) →
      passes.length =
        (archives.filter (due minAge now archivePath checks.statuses)).length + 1 →
      ∃ order : List BackupArchive,
        order.Perm (archives.filter (due minAge now archivePath checks.statuses)) ∧
        order.Pairwise (fun a b => b.createdAt ≤ a.createdAt) ∧
        ticks minAge archivePath verify checks passes =
          order.map (fun archive => .ok (some archive.filename)) ++ [.ok none] := by
  refine ⟨?_, ?_, ?_⟩
  · intro events h filename file archives pathFound hfile hlisted hclear
    have hinv : Inv inspect (run (step inspect minAge) {} events) :=
      Runs.run_induction (fun _ _ h hfresh => h.step hfresh) Inv.start h
    exact hinv.vouched hclear rfl hlisted hfile
  · intro events
    have hall : Along (step inspect minAge) (fun _ _ => True) {} events :=
      Runs.Along.of_forall (fun _ _ => trivial) _ _
    exact Runs.run_induction (P := fun s => s.checks.encodes = true)
      (fun _ event h _ => encodes_step h event) rfl hall
  · intro archives now archivePath verify checks passes
    exact ticks_eq

def plainly (good : Bool) : Inspection := ⟨good, good, [], []⟩

def goodArchive : ArchiveFile Bool := ⟨true, 10, 0, true, 1⟩

def goodListed : World Bool where
  time := 4
  disk := Function.update (fun _ => none) (text "a.tar.gz") (some goodArchive)
  had := Function.update (fun _ => []) (text "a.tar.gz") [(10, 0)]
  stage := .purging [⟨text "a.tar.gz", 10, 0⟩]

theorem run_goodListed :
    run (step plainly 0) {} [.write (text "a.tar.gz") true 10 0 true, .next 0 (plainly true),
      .stat (text "a.tar.gz"), .next 0 (plainly true)] = goodListed := by
  have hsorted : newestFirst [⟨text "a.tar.gz", 10, 0⟩] = [⟨text "a.tar.gz", 10, 0⟩] :=
    List.mergeSort_singleton _
  rw [goodListed, ← hsorted]
  rfl

/-- It is verified, then replaced, and again by one that has the size and the date of the
first. -/
def returning : List (Event Bool) :=
  List.replicate 7 (.next 0 (plainly true)) ++
    [.write (text "a.tar.gz") false 11 1 true, .write (text "a.tar.gz") false 10 0 true]

theorem verdict_outlives :
    ¬ ∀ events, Along (step plainly 0) Changes {} events →
      Follows plainly (run (step plainly 0) {} events) := by
  intro h
  have hfollows := h ([.write (text "a.tar.gz") true 10 0 true, .next 0 (plainly true),
      .stat (text "a.tar.gz"), .next 0 (plainly true)] ++ returning) (by
    rw [Runs.along_append, run_goodListed]
    refine ⟨⟨nofun, trivial, trivial, trivial, trivial⟩, trivial, trivial, trivial, trivial,
      trivial, trivial, trivial, fun file hfile => ?_, fun file hfile => ?_, trivial⟩
    · rw [← Option.some.inj hfile]
      decide
    · rw [← Option.some.inj hfile]
      decide)
  rw [Runs.run_append, run_goodListed] at hfollows
  have hvouched := hfollows (text "a.tar.gz") ⟨false, 10, 0, true, 13⟩ [⟨text "a.tar.gz", 10, 0⟩] true
    rfl rfl (by decide)
  exact absurd hvouched.ok (by decide)

/-- The good archive is accepted; of two ticks one verifies it, the other nothing. -/
theorem verdicts_follow_good :
    Vouched plainly (run (step plainly 0) {} ([.write (text "a.tar.gz") true 10 0 true,
      .next 0 (plainly true), .stat (text "a.tar.gz"), .next 0 (plainly true)] ++
        List.replicate 7 (.next 0 (plainly true)))) (text "a.tar.gz") goodArchive ∧
    ∃ order : List BackupArchive,
      order.Perm ([⟨text "a.tar.gz", 10, 0⟩].filter (due 0 0 (fun _ => true) ∅)) ∧
      order.Pairwise (fun a b => b.createdAt ≤ a.createdAt) ∧
      ticks 0 (fun _ => true) (fun _ => plainly true) {}
          [⟨0, [⟨text "a.tar.gz", 10, 0⟩]⟩, ⟨0, [⟨text "a.tar.gz", 10, 0⟩]⟩] =
        order.map (fun archive => .ok (some archive.filename)) ++ [.ok none] := by
  constructor
  · refine (verdicts_follow_archives plainly 0).1 _ ?_ (text "a.tar.gz") goodArchive
      [⟨text "a.tar.gz", 10, 0⟩] true ?_ rfl ?_
    · rw [Runs.along_append, run_goodListed]
      exact ⟨⟨nofun, trivial, trivial, trivial, trivial⟩, trivial, trivial, trivial, trivial,
        trivial, trivial, trivial, trivial⟩
    · rw [Runs.run_append, run_goodListed]
      rfl
    · rw [Runs.run_append, run_goodListed]
      decide
  · refine (verdicts_follow_archives plainly 0).2.2 [⟨text "a.tar.gz", 10, 0⟩] 0 (fun _ => true)
      (fun _ => plainly true) {} _ rfl ?_ (by simp) ?_ ?_ rfl
    · intro archive harchive _
      rw [List.mem_singleton.mp harchive]
      exact ⟨by decide, rfl, rfl⟩
    · simp
    · simp

end ArchiveVerifier
