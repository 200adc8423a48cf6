import McAdmin.ProfileSchedule

/-!
# One profile and the others

A tick goes through the profiles it has listed.  What triggering one of them raises is caught;
what evaluating or marking it raises ends the tick, and the profiles after it are not looked at.
All have one container, and while it runs none of them is started.
-/

namespace ProfileTick

open BackupProfiles (Due Moment Time refused)
open IntText (DigitTable)
open ProfileSchedule

/-! ### The file -/

/-- An entry of the file, which is a profile or one that a reading skips. -/
inductive Entry where
  | profile (profile : Profile)
  | bad

abbrev File := List Entry

/-- `_to_profile` of an entry that is valid. -/
def Entry.toProfile : Entry → Option Profile
  | .profile p => some p
  | .bad => none

def listProfiles (file : File) : List Profile := file.filterMap Entry.toProfile

/-- What `_load(strict=True)` accepts: no bad entry and no id twice. -/
def strict (file : File) : Bool :=
  file.all (·.toProfile.isSome) && decide ((listProfiles file).map (·.id)).Nodup

def setLastRun (id : String) (now : Time) : File → File
  | [] => []
  | .profile profile :: rest =>
    if profile.id = id then .profile (profile.mark now) :: rest
    else .profile profile :: setLastRun id now rest
  | .bad :: rest => .bad :: setLastRun id now rest

/-! ### A tick -/

/-- What a trigger comes to, where the container does not run: it is started, the trigger raises
before the start, or after it. -/
inductive Fate where
  | done
  | failed
  | failedAfter
deriving DecidableEq

/-- What befalls the visit of one profile: its mark cannot be written, and the container has ended
before the trigger looks at it. -/
structure Faults where
  write : Bool := false
  ended : Bool := false
  trigger : Fate := .done

/-- `mark_run`, `none` where it raises. -/
def markRun (faults : Faults) (id : String) (now : Time) (file : File) : Option File :=
  if strict file && !faults.write then some (setLastRun id now file) else none

/-- What a tick does, with the place of the profile in the list. -/
inductive Act where
  | evaluates (n : ℕ)
  /-- The container is started for the profile. -/
  | starts (n : ℕ)
  /-- The container runs: the trigger answers `started=False`. -/
  | refuses (n : ℕ)
  /-- The trigger raises. -/
  | fails (n : ℕ)
deriving DecidableEq

structure Status where
  file : File
  running : Bool

/-- What the visit of a profile leaves, and whether the tick goes on. -/
structure Visit where
  left : Status
  acts : List Act
  goesOn : Bool

/-- `_trigger_profile_backup_locked`, down to the container, with what it leaves of that. -/
def trigger (n : ℕ) (running : Bool) : Fate → Act × Bool
  | .done => if running then (.refuses n, true) else (.starts n, true)
  | .failed => (.fails n, running)
  | .failedAfter => (.fails n, true)

section

variable (u : DigitTable) (zone : LocalTime) (now : Time)

def visitProfile (faults : Faults) (n : ℕ) (profile : Profile) (s : Status) : Visit :=
  let running := s.running && !faults.ended
  if profile.enabled = false then ⟨⟨s.file, running⟩, [], true⟩
  else
    match profileDue u zone profile now with
    | .no => ⟨⟨s.file, running⟩, [.evaluates n], true⟩
    | .raises => ⟨⟨s.file, running⟩, [.evaluates n], false⟩
    | .starts =>
      match markRun faults profile.id now s.file with
      | none => ⟨⟨s.file, running⟩, [.evaluates n], false⟩
      | some file => ⟨⟨file, running⟩, [.evaluates n], true⟩
    | .yes =>
      match markRun faults profile.id now s.file with
      | none => ⟨⟨s.file, running⟩, [.evaluates n], false⟩
      | some file =>
        let result := trigger n running faults.trigger
        ⟨⟨file, result.2⟩, [.evaluates n, result.1], true⟩

def loop (faults : ℕ → Faults) : ℕ → List Profile → Status → List Act
  | _, [], _ => []
  | n, profile :: rest, s =>
    let visit := visitProfile u zone now (faults n) n profile s
    if visit.goesOn then visit.acts ++ loop faults (n + 1) rest visit.left else visit.acts

/-- `_tick_backup_profiles_locked`; `running` is whether the container runs when it begins. -/
def tick (m : Moment) (faults : ℕ → Faults) (file : File) (running : Bool) : List Act :=
  if refused m then [] else loop u zone now faults 0 (listProfiles file) ⟨file, running⟩

/-! ### What is promised -/

def Willing (faults : Faults) (file : File) (profile : Profile) : Prop :=
  profile.enabled = true ∧ profileDue u zone profile now = .yes ∧ strict file = true ∧
    faults.write = false ∧ faults.trigger = .done

/-- Every enabled profile is evaluated, and started if it is due and nothing of its own fails. -/
def Isolated (m : Moment) (faults : ℕ → Faults) (file : File) (running : Bool) : Prop :=
  ∀ n profile, (listProfiles file)[n]? = some profile → profile.enabled = true →
    .evaluates n ∈ tick u zone now m faults file running ∧
      (Willing u zone now (faults n) file profile →
        .starts n ∈ tick u zone now m faults file running)

def TimeOfDay (dailyAt : Backtracking.Text) : Prop :=
  ∃ hour minute, readDailyAt u dailyAt = some (hour, minute) ∧
    0 ≤ hour ∧ hour < 24 ∧ 0 ≤ minute ∧ minute < 60

/-- A daily profile whose last run has no date, or that has not run on the date and whose text
is not a time of day; or an interval profile whose last run is without a zone. -/
def Unreadable (profile : Profile) : Prop :=
  (∃ dailyAt ∈ given profile.dailyAt,
    (∃ lastRun ∈ profile.lastRun, zone.dateOf lastRun = none) ∨
    (∀ lastRun ∈ profile.lastRun, zone.dateOf lastRun ≠ some (Ticks.date (localNow zone now))) ∧
      ¬ TimeOfDay u dailyAt) ∨
  given profile.dailyAt = none ∧ profile.hours.positive = true ∧
    ∃ lastRun ∈ profile.lastRun, lastRun.aware = false

def Stops (faults : Faults) (file : File) (profile : Profile) : Prop :=
  profile.enabled = true ∧
    (Unreadable u zone now profile ∨
      (profileDue u zone profile now = .yes ∨ profileDue u zone profile now = .starts) ∧
        (strict file = false ∨ faults.write = true))

/-- The trigger of the profile gets as far as the container, which runs then. -/
def Occupies (faults : Faults) (file : File) (profile : Profile) : Prop :=
  profile.enabled = true ∧ profileDue u zone profile now = .yes ∧ strict file = true ∧
    faults.write = false ∧ faults.trigger ≠ .failed

/-- When a profile of the list has its turn the container runs, from before the tick or for one
of the profiles before, and has not ended since. -/
def Busy (faults : ℕ → Faults) (file : File) (running : Bool) (profiles : List Profile) (j : ℕ) :
    Prop :=
  (running = true ∧ ∀ k ≤ j, (faults k).ended = false) ∨
    ∃ i profile, i < j ∧ profiles[i]? = some profile ∧ Occupies u zone now (faults i) file profile ∧
      ∀ k, i < k → k ≤ j → (faults k).ended = false

/-- The tick ends with none that another enabled profile comes after, and none of which nothing
fails finds the container at work. -/
structure Harmless (faults : ℕ → Faults) (file : File) (running : Bool) : Prop where
  passes : ∀ i j profile other, i < j → (listProfiles file)[i]? = some profile →
    (listProfiles file)[j]? = some other → other.enabled = true →
    ¬ Stops u zone now (faults i) file profile
  free : ∀ j profile, (listProfiles file)[j]? = some profile →
    Willing u zone now (faults j) file profile →
    ¬ Busy u zone now faults file running (listProfiles file) j

end

/-! ### What evaluating raises -/

section

variable {u : DigitTable} {zone : LocalTime} {now : Time} {profile : Profile} {file : File}

theorem timeReached_raises {dailyAt : Backtracking.Text} :
    timeReached u zone dailyAt now = .raises ↔ ¬ TimeOfDay u dailyAt := by
  unfold timeReached TimeOfDay
  cases hread : readDailyAt u dailyAt with
  | none => simp
  | some read =>
    rcases read with ⟨hour, minute⟩
    by_cases hrange : 0 ≤ hour ∧ hour < 24 ∧ 0 ≤ minute ∧ minute < 60
    · simp only [if_pos hrange]
      refine iff_of_false ?_ fun h => h ⟨hour, minute, rfl, hrange⟩
      split
      all_goals
        intro heq
        cases heq
    · simp only [if_neg hrange, true_iff]
      rintro ⟨hour', minute', heq, hrange'⟩
      cases heq
      exact hrange hrange'

theorem profileDue_raises : profileDue u zone profile now = .raises ↔
    Unreadable u zone now profile := by
  unfold profileDue Unreadable
  cases hgiven : given profile.dailyAt with
  | none =>
    simp only [Option.not_mem_none, false_and, exists_false, false_or, true_and]
    unfold intervalDue
    cases hpositive : profile.hours.positive with
    | false => simp
    | true =>
      cases profile.lastRun with
      | none => simp
      | some lastRun =>
        cases haware : lastRun.aware with
        | false => simp [haware]
        | true =>
          simp only [haware, if_true, Option.mem_def, Option.some.injEq, true_and]
          refine iff_of_false ?_ ?_
          · split
            all_goals
              intro heq
              cases heq
          · rintro ⟨_, rfl, hnaive⟩
            rw [haware] at hnaive
            cases hnaive
  | some dailyAt =>
    simp only [reduceCtorEq, false_and, or_false, Option.mem_def, Option.some.injEq,
      exists_eq_left']
    unfold dailyDue
    cases profile.lastRun with
    | none => simp [timeReached_raises]
    | some lastRun =>
      cases hdate : zone.dateOf lastRun with
      | none => simp [hdate]
      | some date =>
        by_cases htoday : date = Ticks.date (localNow zone now)
        · simp [hdate, htoday]
        · simp [hdate, htoday, timeReached_raises]

/-! ### The visit of one profile -/

theorem setLastRun_keeps (id : String) (now : Time) (file : File) :
    (setLastRun id now file).all (·.toProfile.isSome) = file.all (·.toProfile.isSome) ∧
      (listProfiles (setLastRun id now file)).map (·.id) = (listProfiles file).map (·.id) := by
  induction file with
  | nil => exact ⟨rfl, rfl⟩
  | cons entry rest ih =>
    cases entry with
    | profile profile =>
      rw [setLastRun]
      split
      case isTrue => exact ⟨rfl, rfl⟩
      case isFalse =>
        refine ⟨?_, ?_⟩
        · rw [List.all_cons, List.all_cons, ih.1]
        · exact congrArg (profile.id :: ·) ih.2
    | bad => exact ⟨rfl, ih.2⟩

theorem strict_markRun {faults : Faults} {id : String} {file' : File}
    (h : markRun faults id now file = some file') : strict file' = strict file := by
  unfold markRun at h
  split at h
  · cases h
    rcases setLastRun_keeps id now file with ⟨hall, hids⟩
    rw [strict, strict, hall, hids]
  · cases h

theorem markRun_eq_none {faults : Faults} {id : String} :
    markRun faults id now file = none ↔ strict file = false ∨ faults.write = true := by
  unfold markRun
  cases strict file <;> cases faults.write <;> simp

theorem not_of_markRun {faults : Faults} {id : String} {file' : File}
    (h : markRun faults id now file = some file') :
    ¬ (strict file = false ∨ faults.write = true) := by
  intro hfails
  rw [markRun_eq_none.mpr hfails] at h
  cases h

theorem readable_of_due {due : Due} (h : profileDue u zone profile now = due)
    (hne : due ≠ .raises) : ¬ Unreadable u zone now profile := by
  intro hunreadable
  rw [profileDue_raises.mpr hunreadable] at h
  exact hne h.symm

def Act.place : Act → ℕ
  | .evaluates n | .starts n | .refuses n | .fails n => n

structure VisitSpec (u : DigitTable) (zone : LocalTime) (now : Time) (faults : Faults) (n : ℕ)
    (profile : Profile) (s : Status) (visit : Visit) : Prop where
  goesOn : visit.goesOn = false ↔ Stops u zone now faults s.file profile
  kept : strict visit.left.file = strict s.file
  running : visit.left.running = true ↔
    Occupies u zone now faults s.file profile ∨ s.running = true ∧ faults.ended = false
  place : ∀ act ∈ visit.acts, act.place = n
  evaluates : profile.enabled = true → .evaluates n ∈ visit.acts
  starts : Willing u zone now faults s.file profile →
    (.starts n ∈ visit.acts ↔ ¬ (s.running = true ∧ faults.ended = false))

theorem strict_of_markRun {faults : Faults} {id : String} {file' : File}
    (h : markRun faults id now file = some file') :
    strict file = true ∧ faults.write = false := by
  have hmarks := not_of_markRun h
  simpa using hmarks

theorem visitProfile_due {faults : Faults} {n : ℕ} {s : Status} {file' : File}
    (henabled : profile.enabled = true) (hdue : profileDue u zone profile now = .yes)
    (hmark : markRun faults profile.id now s.file = some file') :
    VisitSpec u zone now faults n profile s
      ⟨⟨file', (trigger n (s.running && !faults.ended) faults.trigger).2⟩,
        [.evaluates n, (trigger n (s.running && !faults.ended) faults.trigger).1], true⟩ := by
  have hreadable := readable_of_due hdue Due.noConfusion
  have hmarks := not_of_markRun hmark
  rcases strict_of_markRun hmark with ⟨hstrict, hwrite⟩
  have hbusy : (s.running && !faults.ended) = true ↔ s.running = true ∧ faults.ended = false := by
    simp
  refine ⟨by simp [Stops, hdue, hreadable, hmarks], strict_markRun hmark, ?_, ?_, by simp, ?_⟩
  · simp only [Occupies, henabled, hdue, hstrict, hwrite, true_and]
    cases hfate : faults.trigger with
    | done =>
      simp only [trigger, ne_eq, reduceCtorEq, not_false_eq_true, true_or, iff_true]
      split <;> rfl
    | failed =>
      simp only [trigger, ne_eq, not_true_eq_false, false_or]
      exact hbusy
    | failedAfter => simp [trigger]
  · cases faults.trigger with
    | done =>
      simp only [trigger]
      split <;> simp [Act.place]
    | failed => simp [trigger, Act.place]
    | failedAfter => simp [trigger, Act.place]
  · rintro ⟨-, -, -, -, hfate⟩
    rw [hfate, ← hbusy]
    simp only [trigger]
    split <;> simp_all

theorem visitProfile_idle {faults : Faults} {n : ℕ} {s : Status} {left : File} {acts : List Act}
    {goesOn : Bool} (hidle : ¬ Occupies u zone now faults s.file profile)
    (hwilling : ¬ Willing u zone now faults s.file profile)
    (hgoesOn : goesOn = false ↔ Stops u zone now faults s.file profile)
    (hkept : strict left = strict s.file) (hplace : ∀ act ∈ acts, act.place = n)
    (hevaluates : profile.enabled = true → .evaluates n ∈ acts) :
    VisitSpec u zone now faults n profile s
      ⟨⟨left, s.running && !faults.ended⟩, acts, goesOn⟩ := by
  refine ⟨hgoesOn, hkept, ?_, hplace, hevaluates, fun h => absurd h hwilling⟩
  simp [hidle]

theorem visitProfile_spec (u : DigitTable) (zone : LocalTime) (now : Time) (faults : Faults)
    (n : ℕ) (profile : Profile) (s : Status) :
    VisitSpec u zone now faults n profile s
      (visitProfile u zone now faults n profile s) := by
  unfold visitProfile
  cases henabled : profile.enabled with
  | false =>
    rw [if_pos rfl]
    exact visitProfile_idle (by simp [Occupies, henabled]) (by simp [Willing, henabled])
      (by simp [Stops, henabled]) rfl (by simp) (by simp [henabled])
  | true =>
    rw [if_neg Bool.noConfusion]
    cases hdue : profileDue u zone profile now with
    | no =>
      have hreadable := readable_of_due hdue Due.noConfusion
      exact visitProfile_idle (by simp [Occupies, hdue]) (by simp [Willing, hdue])
        (by simp [Stops, hdue, hreadable]) rfl (by simp [Act.place]) (by simp)
    | raises =>
      exact visitProfile_idle (by simp [Occupies, hdue]) (by simp [Willing, hdue])
        (by simp [Stops, henabled, profileDue_raises.mp hdue]) rfl (by simp [Act.place]) (by simp)
    | starts =>
      have hreadable := readable_of_due hdue Due.noConfusion
      cases hmark : markRun faults profile.id now s.file with
      | none =>
        have hfails := markRun_eq_none.mp hmark
        exact visitProfile_idle (by simp [Occupies, hdue]) (by simp [Willing, hdue])
          (by simp [Stops, henabled, hdue, hfails]) rfl (by simp [Act.place]) (by simp)
      | some file' =>
        have hmarks := not_of_markRun hmark
        exact visitProfile_idle (by simp [Occupies, hdue]) (by simp [Willing, hdue])
          (by simp [Stops, hdue, hreadable, hmarks]) (strict_markRun hmark) (by simp [Act.place])
          (by simp)
    | yes =>
      cases hmark : markRun faults profile.id now s.file with
      | none =>
        have hfails := markRun_eq_none.mp hmark
        have hunmarked : ¬ (strict s.file = true ∧ faults.write = false) := by
          rintro ⟨hstrict, hwrite⟩
          simp [hstrict, hwrite] at hfails
        exact visitProfile_idle (fun h => hunmarked ⟨h.2.2.1, h.2.2.2.1⟩)
          (fun h => hunmarked ⟨h.2.2.1, h.2.2.2.1⟩) (by simp [Stops, henabled, hdue, hfails]) rfl
          (by simp [Act.place]) (by simp)
      | some file' => exact visitProfile_due henabled hdue hmark

/-! ### The profiles after it -/

variable {profiles : List Profile} {fault : ℕ → Faults} {file' : File} {s : Status}

theorem stops_of_strict (h : strict file' = strict file) {faults : Faults} :
    Stops u zone now faults file' profile ↔ Stops u zone now faults file profile := by
  rw [Stops, Stops, h]

theorem willing_of_strict (h : strict file' = strict file) {faults : Faults} :
    Willing u zone now faults file' profile ↔ Willing u zone now faults file profile := by
  rw [Willing, Willing, h]

theorem occupies_of_strict (h : strict file' = strict file) {faults : Faults} :
    Occupies u zone now faults file' profile ↔ Occupies u zone now faults file profile := by
  rw [Occupies, Occupies, h]

theorem loop_cons (u : DigitTable) (zone : LocalTime) (now : Time) (fault : ℕ → Faults) (n : ℕ)
    (profile : Profile) (rest : List Profile) (s : Status) :
    loop u zone now fault n (profile :: rest) s =
      if (visitProfile u zone now (fault n) n profile s).goesOn then
        (visitProfile u zone now (fault n) n profile s).acts ++
          loop u zone now fault (n + 1) rest (visitProfile u zone now (fault n) n profile s).left
      else (visitProfile u zone now (fault n) n profile s).acts := rfl

theorem place_le_of_stops {i : ℕ} (hprofile : profiles[i]? = some profile)
    (hstops : Stops u zone now (fault (n + i)) s.file profile) :
    ∀ act ∈ loop u zone now fault n profiles s, act.place ≤ n + i := by
  induction profiles generalizing n i s with
  | nil => cases hprofile
  | cons first rest ih =>
    have hspec := visitProfile_spec u zone now (fault n) n first s
    rw [loop_cons]
    cases i with
    | zero =>
      cases hprofile
      rw [if_neg (by rw [hspec.goesOn.mpr hstops]; exact Bool.false_ne_true)]
      intro act hact
      exact (hspec.place act hact).le
    | succ i =>
      have hrest : ∀ act ∈ loop u zone now fault (n + 1) rest
          (visitProfile u zone now (fault n) n first s).left, act.place ≤ n + (i + 1) := by
        have hnext : n + 1 + i = n + (i + 1) := by omega
        rw [← hnext] at hstops ⊢
        exact ih hprofile ((stops_of_strict hspec.kept).mpr hstops)
      intro act hact
      split at hact
      · rcases List.mem_append.mp hact with hact | hact
        · have hplace := hspec.place act hact
          omega
        · exact hrest act hact
      · have hplace := hspec.place act hact
        omega

theorem busy_succ (fault : ℕ → Faults) {first : Profile} {rest : List Profile}
    {running left : Bool} {j : ℕ}
    (hleft : left = true ↔ Occupies u zone now (fault 0) file first ∨
      running = true ∧ (fault 0).ended = false) :
    Busy u zone now fault file running (first :: rest) (j + 1) ↔
      Busy u zone now (fun i => fault (i + 1)) file left rest j := by
  constructor
  · rintro (⟨hrunning, hends⟩ | ⟨i, profile, hij, hprofile, hoccupies, hends⟩)
    · refine .inl ⟨hleft.mpr (.inr ⟨hrunning, hends 0 (Nat.zero_le _)⟩), fun k hk => ?_⟩
      exact hends (k + 1) (Nat.succ_le_succ hk)
    · cases i with
      | zero =>
        cases hprofile
        refine .inl ⟨hleft.mpr (.inl hoccupies), fun k hk => ?_⟩
        exact hends (k + 1) (Nat.succ_pos k) (Nat.succ_le_succ hk)
      | succ i =>
        refine .inr ⟨i, profile, Nat.lt_of_succ_lt_succ hij, hprofile, hoccupies, ?_⟩
        intro k hik hkj
        exact hends (k + 1) (Nat.succ_lt_succ hik) (Nat.succ_le_succ hkj)
  · rintro (⟨hrunning, hends⟩ | ⟨i, profile, hij, hprofile, hoccupies, hends⟩)
    · rcases hleft.mp hrunning with hoccupies | ⟨hrunning, hended⟩
      · refine .inr ⟨0, first, Nat.succ_pos j, rfl, hoccupies, fun k hk hkj => ?_⟩
        obtain ⟨k, rfl⟩ := Nat.exists_eq_succ_of_ne_zero (Nat.ne_of_gt hk)
        exact hends k (Nat.le_of_succ_le_succ hkj)
      · refine .inl ⟨hrunning, fun k hkj => ?_⟩
        cases k with
        | zero => exact hended
        | succ k => exact hends k (Nat.le_of_succ_le_succ hkj)
    · refine .inr ⟨i + 1, profile, Nat.succ_lt_succ hij, hprofile, hoccupies, ?_⟩
      intro k hik hkj
      obtain ⟨k, rfl⟩ := Nat.exists_eq_succ_of_ne_zero (Nat.ne_of_gt (Nat.zero_lt_of_lt hik))
      exact hends k (Nat.lt_of_succ_lt_succ hik) (Nat.le_of_succ_le_succ hkj)

theorem busy_zero (fault : ℕ → Faults) {running : Bool} :
    Busy u zone now fault file running profiles 0 ↔ running = true ∧ (fault 0).ended = false := by
  constructor
  · rintro (⟨hrunning, hends⟩ | ⟨i, -, hi, -⟩)
    · exact ⟨hrunning, hends 0 (Nat.le_refl 0)⟩
    · exact absurd hi (Nat.not_lt_zero i)
  · rintro ⟨hrunning, hended⟩
    refine .inl ⟨hrunning, fun k hk => ?_⟩
    rw [Nat.le_zero.mp hk]
    exact hended

theorem busy_of_strict (h : strict file' = strict file) {running : Bool} {j : ℕ} :
    Busy u zone now fault file' running profiles j ↔
      Busy u zone now fault file running profiles j := by
  simp only [Busy, occupies_of_strict h]

theorem le_place (u : DigitTable) (zone : LocalTime) (now : Time) (fault : ℕ → Faults) (n : ℕ)
    (profiles : List Profile) (s : Status) :
    ∀ act ∈ loop u zone now fault n profiles s, n ≤ act.place := by
  induction profiles generalizing n s with
  | nil =>
    intro act hact
    cases hact
  | cons first rest ih =>
    have hspec := visitProfile_spec u zone now (fault n) n first s
    rw [loop_cons]
    intro act hact
    split at hact
    · rcases List.mem_append.mp hact with hact | hact
      · exact (hspec.place act hact).ge
      · exact Nat.le_of_succ_le (ih (n + 1) _ act hact)
    · exact (hspec.place act hact).ge

theorem visited_of_passes {k : ℕ} (hprofile : profiles[k]? = some profile)
    (hbefore : ∀ i other, i < k → profiles[i]? = some other →
      ¬ Stops u zone now (fault (n + i)) s.file other) :
    ∃ s', strict s'.file = strict s.file ∧
      (s'.running = true ∧ (fault (n + k)).ended = false ↔
        Busy u zone now (fun i => fault (n + i)) s.file s.running profiles k) ∧
      ∀ act, act.place = n + k → (act ∈ loop u zone now fault n profiles s ↔
        act ∈ (visitProfile u zone now (fault (n + k)) (n + k) profile s').acts) := by
  induction profiles generalizing n k s with
  | nil => cases hprofile
  | cons first rest ih =>
    have hspec := visitProfile_spec u zone now (fault n) n first s
    rw [loop_cons]
    cases k with
    | zero =>
      cases hprofile
      refine ⟨s, rfl, (busy_zero fun i => fault (n + i)).symm, fun act hplace => ?_⟩
      -- what comes after its turn is about the places after it
      have hafter : act ∉ loop u zone now fault (n + 1) rest
          (visitProfile u zone now (fault n) n profile s).left := by
        intro hact
        have hplace' := le_place u zone now fault (n + 1) rest _ act hact
        omega
      split
      · rw [List.mem_append, or_iff_left hafter]
        rfl
      · rfl
    | succ k =>
      have hgoes : (visitProfile u zone now (fault n) n first s).goesOn = true := by
        rw [← Bool.not_eq_false, hspec.goesOn]
        exact hbefore 0 first (Nat.succ_pos k) rfl
      have hnext : ∀ i, n + 1 + i = n + (i + 1) := fun i => by omega
      have hrest : ∀ i other, i < k → rest[i]? = some other →
          ¬ Stops u zone now (fault (n + 1 + i))
            (visitProfile u zone now (fault n) n first s).left.file other := by
        intro i other hi hother
        rw [stops_of_strict hspec.kept, hnext]
        exact hbefore (i + 1) other (Nat.succ_lt_succ hi) hother
      rcases ih hprofile hrest with ⟨s', hstrict, hbusy, hacts⟩
      simp only [hnext] at hbusy hacts
      refine ⟨s', hstrict.trans hspec.kept, ?_, fun act hplace => ?_⟩
      · rw [hbusy, busy_of_strict hspec.kept]
        exact (busy_succ (fun i => fault (n + i)) hspec.running).symm
      · have hbefore' : act ∉ (visitProfile u zone now (fault n) n first s).acts := by
          intro hact
          have hplace' := hspec.place act hact
          omega
        rw [if_pos hgoes, List.mem_append, or_iff_right hbefore']
        exact hacts act hplace

end

/-- A tick looks after every profile exactly when none that another one follows ends it and none
of which nothing fails comes while the container runs. -/
theorem isolated_iff_harmless (u : DigitTable) (zone : LocalTime) (now : Time) (m : Moment)
    (fault : ℕ → Faults) (file : File) (running : Bool) (hopen : refused m = false) :
    Isolated u zone now m fault file running ↔ Harmless u zone now fault file running := by
  have htick : tick u zone now m fault file running =
      loop u zone now fault 0 (listProfiles file) ⟨file, running⟩ := by
    rw [tick, hopen]
    rfl
  -- a profile that has its turn is evaluated, and started where the container is free
  have hturn : ∀ n profile, (listProfiles file)[n]? = some profile →
      (∀ i other, i < n → (listProfiles file)[i]? = some other →
        ¬ Stops u zone now (fault i) file other) → profile.enabled = true →
      .evaluates n ∈ loop u zone now fault 0 (listProfiles file) ⟨file, running⟩ ∧
        (Willing u zone now (fault n) file profile →
          (.starts n ∈ loop u zone now fault 0 (listProfiles file) ⟨file, running⟩ ↔
            ¬ Busy u zone now fault file running (listProfiles file) n)) := by
    intro n profile hprofile hbefore henabled
    have hbefore' : ∀ i other, i < n → (listProfiles file)[i]? = some other →
        ¬ Stops u zone now (fault (0 + i)) (Status.mk file running).file other := by
      simpa only [Nat.zero_add] using hbefore
    rcases visited_of_passes hprofile hbefore' with ⟨s', hstrict, hbusy, hacts⟩
    simp only [Nat.zero_add] at hbusy hacts
    have hspec := visitProfile_spec u zone now (fault n) n profile s'
    refine ⟨(hacts (.evaluates n) rfl).mpr (hspec.evaluates henabled), fun hwilling => ?_⟩
    rw [hacts (.starts n) rfl, hspec.starts ((willing_of_strict hstrict).mpr hwilling), hbusy]
  unfold Isolated
  rw [htick]
  constructor
  · intro hisolated
    have hpasses : ∀ i j profile other, i < j → (listProfiles file)[i]? = some profile →
        (listProfiles file)[j]? = some other → other.enabled = true →
        ¬ Stops u zone now (fault i) file profile := by
      intro i j profile other hij hprofile hother henabled hstops
      have hevaluated := (hisolated j other hother henabled).1
      rw [← Nat.zero_add i] at hstops
      have hplace := place_le_of_stops (s := ⟨file, running⟩) hprofile hstops _ hevaluated
      rw [Act.place] at hplace
      omega
    refine ⟨hpasses, fun j profile hprofile hwilling => ?_⟩
    have hbefore : ∀ i other, i < j → (listProfiles file)[i]? = some other →
        ¬ Stops u zone now (fault i) file other := fun i other hi hother =>
      hpasses i j other profile hi hother hprofile hwilling.1
    exact ((hturn j profile hprofile hbefore hwilling.1).2 hwilling).mp
      ((hisolated j profile hprofile hwilling.1).2 hwilling)
  · intro hharmless n profile hprofile henabled
    have hbefore : ∀ i other, i < n → (listProfiles file)[i]? = some other →
        ¬ Stops u zone now (fault i) file other := fun i other hi hother =>
      hharmless.passes i n other profile hi hother hprofile henabled
    rcases hturn n profile hprofile hbefore henabled with ⟨hevaluates, hstarts⟩
    refine ⟨hevaluates, fun hwilling => ?_⟩
    exact (hstarts hwilling).mpr (hharmless.free n profile hprofile hwilling)

/-! ### A text that is no time -/

def unreadableProfile : Profile where
  id := "monde"
  dailyAt := some "abc".toList

def readableProfile : Profile where
  id := "mods"
  dailyAt := some "04:00".toList

def editedFile : File := [.profile unreadableProfile, .profile readableProfile]

def morning : Time := 16200000000

/-- With the first profile disabled the tick starts the second. -/
def mendedFile : File :=
  [.profile { unreadableProfile with enabled := false }, .profile readableProfile]

theorem isolated_iff_harmless_morning :
    Isolated superscriptTable (.fixed 0) morning {} (fun _ => {}) mendedFile false ↔
      Harmless superscriptTable (.fixed 0) morning (fun _ => {}) mendedFile false :=
  isolated_iff_harmless superscriptTable (.fixed 0) morning {} (fun _ => {}) mendedFile false rfl

/-- The second profile, due since four, is not looked at. -/
theorem second_not_evaluated :
    ¬ Isolated superscriptTable (.fixed 0) morning {} (fun _ => {}) editedFile false := by
  intro hisolated
  have hevaluated := (hisolated 1 readableProfile rfl rfl).1
  revert hevaluated
  decide

end ProfileTick
