import McAdmin.BackupProfiles
import McAdmin.RestoreGate

/-!
# The outcomes of the profiles' backups

A trigger starts the shared container for a profile and then notes it, and a scan that finds
the container stopped takes the note and records the outcome.  The page and the coordinator
scan side by side; each look of a scan is one step, as is the taking of a note with what
follows.  A deletion looks at the container before it removes the profile.
-/

namespace BackupOutcomes

open Runs
open BackupProfiles (Answer BackupProfile Consigne Site Moment Time Fate RunsFor Reaches
  backupName consigneOf getProfile triggerProfile triggerProfileBackup recordStart refused
  dueVisit)
open RestoreGate (BackupArchive latest)

/-! ### The state -/

structure BackupOutcome where
  kind : String
  ok : Bool
  archive : Option String
  label : String
deriving DecidableEq

/-- An entry of what a scan watches, of the safety backup or of a profile. -/
structure Watched where
  kind : String
  dest : String
  safety : Bool
  label : String
deriving DecidableEq

def Watched.folder (w : Watched) : String := w.dest ++ "/"

/-- How far a scan has come, with the entries it has still to look at. -/
inductive Scan where
  | idle
  | scanning (rest : List Watched)
  | noted (w : Watched) (rest : List Watched)
  | ended (w : Watched) (rest : List Watched)
deriving DecidableEq

structure State where
  base : BackupProfiles.State
  /-- The outcomes in the journal. -/
  outcomes : List BackupOutcome := []
  scans : ℕ → Scan := fun _ => .idle
  /-- The profile of a trigger that has yet to note the container's answer. -/
  noting : Option (String × Bool) := none
  /-- The profiles whose deletion was not refused and is still to come. -/
  deleting : List String := []

structure Look where
  readable : Bool := true
  safetyRunning : Bool := false
  listed : Option (List BackupArchive) := some []
  journals : Bool := true

def safetyWatched : Watched := ⟨"safety", "restore-safety", true, ""⟩

def watchedOf (p : BackupProfile) : Watched := ⟨p.id, p.dest, false, p.name⟩

def watched (s : State) : List Watched := safetyWatched :: s.base.profiles.map watchedOf

/-! ### The scans -/

def State.setScan (s : State) (j : ℕ) (scan : Scan) : State :=
  { s with scans := Function.update s.scans j scan }

def pop (kind : String) (b : BackupProfiles.State) : BackupProfiles.State :=
  { b with startedAt := b.startedAt.erase kind, operationIds := b.operationIds.erase kind }

def produced (w : Watched) (startedAt : Time) (archives : List BackupArchive) :
    List BackupArchive :=
  archives.filter fun archive =>
    archive.filename.startsWith w.folder && decide (startedAt ≤ archive.createdAt)

def outcomeOf (w : Watched) (newest : Option BackupArchive) : BackupOutcome :=
  ⟨w.kind, newest.isSome, newest.map (·.filename), w.label⟩

/-- The note of an ended backup is taken; the safety backup's gets no outcome of its own,
and a listing or a journal that fails ends the scan without one. -/
def conclude (j : ℕ) (l : Look) (w : Watched) (rest : List Watched) (s : State) : State :=
  match s.base.startedAt.lookup w.kind with
  | none => s.setScan j (.scanning rest)
  | some startedAt =>
    let s := { s with base := pop w.kind s.base }
    if w.kind = "safety" then s.setScan j (.scanning rest)
    else match l.listed, l.journals with
    | some archives, true =>
      { s.setScan j (.scanning rest) with
        outcomes := s.outcomes ++ [outcomeOf w (latest (produced w startedAt archives))] }
    | _, _ => s.setScan j .idle

/-- The next step of `_scan_backup_outcomes`. -/
def scanStep (j : ℕ) (l : Look) (s : State) : State :=
  match s.scans j with
  | .idle => s.setScan j (.scanning (watched s))
  | .scanning [] => s.setScan j .idle
  | .scanning (w :: rest) =>
    s.setScan j (if (s.base.startedAt.lookup w.kind).isSome then .noted w rest
      else .scanning rest)
  | .noted w rest =>
    let running := if w.safety then l.safetyRunning else s.base.running.isSome
    s.setScan j (if l.readable && !running then .ended w rest else .scanning rest)
  | .ended w rest => conclude j l w rest s

/-! ### The triggers -/

def startProfile (site : Site) (m : Moment) (id : String) (b : BackupProfiles.State) :
    BackupProfiles.State × Answer :=
  if refused m then (b, none)
  else match getProfile b.profiles id with
  | none => (b, none)
  | some p => if m.workerIssues then (b, none) else triggerProfile m (consigneOf site p) b

theorem triggerProfileBackup_eq (site : Site) (m : Moment) (id : String)
    (b : BackupProfiles.State) :
    triggerProfileBackup site m id b =
      match startProfile site m id b with
      | (b, none) => (b, none)
      | (b, some started) => (recordStart m id started b, some started) := by
  unfold triggerProfileBackup startProfile
  by_cases hrefused : refused m = true
  · rw [if_pos hrefused, if_pos hrefused]
  · rw [if_neg hrefused, if_neg hrefused]
    cases getProfile b.profiles id with
    | none => rfl
    | some p =>
      simp only
      split_ifs
      · rfl
      · rfl

def trigger (site : Site) (m : Moment) (id : String) (s : State) : State :=
  { s with
    base := (startProfile site m id s.base).1
    noting := (startProfile site m id s.base).2.map fun started => (id, started) }

def note (now : Time) (s : State) : State :=
  match s.noting with
  | none => s
  | some (id, started) =>
    { s with base := recordStart { now } id started s.base, noting := none }

def nextProfile (site : Site) (m : Moment) (s : State) : State :=
  match dueVisit site s.base with
  | none => { s with base := BackupProfiles.nextProfile site m s.base }
  | some (now, p) =>
    match BackupProfiles.markRun m p.id now s.base.advanced with
    | (b, true) => trigger site m p.id { s with base := b }
    | (b, false) => { s with base := { b with tick := none } }

/-- Only the profile that is at work, or an unknown one, is kept from deletion. -/
def deleteRefused (id : String) (readable : Bool) (s : State) : Bool :=
  readable && s.base.running.isSome &&
    (s.base.activeProfileId == none || s.base.activeProfileId == some id)

inductive Event where
  | trigger (id : String) (m : Moment)
  /-- The trigger under way notes the answer of the container. -/
  | note (now : Time)
  | beginTick (m : Moment)
  | nextProfile (m : Moment)
  | ended
  /-- A restore is accepted and starts the safety backup. -/
  | restore (now : Time)
  | scan (j : ℕ) (l : Look)
  | askDelete (id : String) (readable : Bool)
  | delete (id : String)

def State.withBase (s : State) (site : Site) (event : BackupProfiles.Event) : State :=
  { s with base := BackupProfiles.step site s.base event }

/-- A trigger holds its lock until the answer is noted. -/
def step (site : Site) (s : State) : Event → State
  | .trigger id m => if s.base.tick.isSome || s.noting.isSome then s else trigger site m id s
  | .note now => note now s
  | .beginTick m => if s.noting.isSome then s else s.withBase site (.beginTick m)
  | .nextProfile m => if s.noting.isSome then s else nextProfile site m s
  | .ended => s.withBase site .ended
  | .restore now =>
    if s.base.tick.isSome || s.base.running.isSome || s.noting.isSome then s
    else { s with base :=
      { s.base with startedAt := Dict.set s.base.startedAt "safety" now } }
  | .scan j l => scanStep j l s
  | .askDelete id readable =>
    if deleteRefused id readable s then s else { s with deleting := id :: s.deleting }
  | .delete id =>
    if id ∈ s.deleting then
      { s with
        base := { s.base with profiles := s.base.profiles.filter (·.id ≠ id) }
        deleting := s.deleting.erase id }
    else s

def initial (profiles : List BackupProfile) : State := { base := { profiles } }

/-! ### What is promised -/

def runsOf (id : String) (s : State) : ℕ :=
  s.base.runs.countP fun c => c.name = backupName id

def outcomesOf (id : String) (s : State) : ℕ := s.outcomes.countP fun o => o.kind = id

def pendingOf (id : String) (s : State) : ℕ :=
  if id ≠ "safety" ∧ ((s.base.startedAt.lookup id).isSome ∨ s.noting = some (id, true)) then 1
  else 0

/-- Whenever the container is stopped, a scan that meets no failure concludes all. -/
def Settles (site : Site) (s : State) : Prop :=
  ∀ j l, s.base.running = none → s.noting = none → s.scans j = .idle → l.readable = true →
    l.listed.isSome = true → l.journals = true →
    ∃ n, let s' := run (step site) s (List.replicate n (.scan j l))
      s'.scans j = .idle ∧ ∀ id, runsOf id s' = outcomesOf id s'

/-- Each run of a profile has one outcome of its own or is still to be concluded, while it
goes on it is the active one as soon as its trigger has noted it, and all that has ended is
concluded by the next scan. -/
structure Attributed (site : Site) (s : State) : Prop where
  counted : ∀ id, runsOf id s = outcomesOf id s + pendingOf id s
  running : ∀ id, RunsFor id s.base → pendingOf id s = 1
  active : ∀ id, RunsFor id s.base → s.noting ≠ some (id, true) →
    s.base.activeProfileId = some id
  settles : Settles site s

/-- A step leaves all attributed, and refuses to delete the profile at work. -/
structure Attributes (site : Site) (s : State) (event : Event) : Prop where
  after : Attributed site (step site s event)
  refused : ∀ id readable, event = .askDelete id readable → RunsFor id s.base →
    deleteRefused id readable s = true

/-- A trigger that finds the container stopped starts it without an error, for a profile of
another name than the safety backup's, and not before the profile's last run was concluded. -/
def CleanTrigger (site : Site) (m : Moment) (id : String) (b : BackupProfiles.State) : Prop :=
  Reaches site m id b → b.running = none →
    m.start = .failed ∨ m.start = .done ∧ id ≠ "safety" ∧ b.startedAt.lookup id = none

/-- Who has found the container at work finds the profile noted. -/
def CleanNote (s : State) : Prop :=
  ∀ entry ∈ s.noting, entry.2 = false → (s.base.startedAt.lookup entry.1).isSome = true

/-- The container can be read, and the trigger that has just started it for the profile has
noted it, or no other profile is noted as the active one. -/
def CleanAsk (id : String) (readable : Bool) (s : State) : Prop :=
  RunsFor id s.base → readable = true ∧ (s.noting = some (id, true) →
    s.base.activeProfileId = none ∨ s.base.activeProfileId = some id)

/-- No run of the profile is under way or still to be concluded. -/
def CleanDelete (id : String) (s : State) : Prop :=
  id ∈ s.deleting → s.base.startedAt.lookup id = none ∧ ∀ entry ∈ s.noting, entry.1 ≠ id

/-- A scan concludes the backup of a profile when the container is not at work for it, and
can list the archives and write to the journal. -/
def CleanScan (l : Look) (s : State) : Scan → Prop
  | .ended w _ => w.kind ≠ "safety" → (s.base.startedAt.lookup w.kind).isSome = true →
      ¬ RunsFor w.kind s.base ∧ l.listed.isSome = true ∧ l.journals = true
  | _ => True

def Clean (site : Site) (s : State) : Event → Prop
  | .trigger id m => s.base.tick = none → s.noting = none → CleanTrigger site m id s.base
  | .note _ => CleanNote s
  | .nextProfile m => s.noting = none → ∀ entry ∈ dueVisit site s.base, s.base.strict →
      m.mark = .done → CleanTrigger site m entry.2.id s.base
  | .scan j l => CleanScan l s (s.scans j)
  | .askDelete id readable => CleanAsk id readable s
  | .delete id => CleanDelete id s
  | _ => True

instance (site : Site) (m : Moment) (id : String) (b : BackupProfiles.State) :
    Decidable (Reaches site m id b) :=
  inferInstanceAs (Decidable (_ ∧ _ ∧ _ ∧ _ ∧
    ∃ p ∈ getProfile b.profiles id, (consigneOf site p).valid = true))

instance (site : Site) (m : Moment) (id : String) (b : BackupProfiles.State) :
    Decidable (CleanTrigger site m id b) :=
  inferInstanceAs (Decidable (Reaches site m id b → b.running = none →
    m.start = .failed ∨ m.start = .done ∧ id ≠ "safety" ∧ b.startedAt.lookup id = none))

instance (l : Look) (s : State) (scan : Scan) : Decidable (CleanScan l s scan) :=
  match scan with
  | .ended w _ => inferInstanceAs (Decidable (w.kind ≠ "safety" →
      (s.base.startedAt.lookup w.kind).isSome = true →
      ¬ RunsFor w.kind s.base ∧ l.listed.isSome = true ∧ l.journals = true))
  | .idle => isTrue trivial
  | .scanning _ => isTrue trivial
  | .noted _ _ => isTrue trivial

instance (site : Site) (s : State) (event : Event) : Decidable (Clean site s event) :=
  match event with
  | .trigger id m => inferInstanceAs
      (Decidable (s.base.tick = none → s.noting = none → CleanTrigger site m id s.base))
  | .note _ => inferInstanceAs (Decidable (∀ entry ∈ s.noting, entry.2 = false →
      (s.base.startedAt.lookup entry.1).isSome = true))
  | .nextProfile m => inferInstanceAs (Decidable (s.noting = none →
      ∀ entry ∈ dueVisit site s.base, s.base.strict → m.mark = .done →
        CleanTrigger site m entry.2.id s.base))
  | .scan j l => inferInstanceAs (Decidable (CleanScan l s (s.scans j)))
  | .askDelete id readable => inferInstanceAs (Decidable (RunsFor id s.base → readable = true ∧
      (s.noting = some (id, true) →
        s.base.activeProfileId = none ∨ s.base.activeProfileId = some id)))
  | .delete id => inferInstanceAs (Decidable (id ∈ s.deleting →
      s.base.startedAt.lookup id = none ∧ ∀ entry ∈ s.noting, entry.1 ≠ id))
  | .beginTick _ => isTrue trivial
  | .ended => isTrue trivial
  | .restore _ => isTrue trivial

/-! ### What a step of the profiles does -/

/-- The fields that the promises read are as they were, up to the marks of the profiles. -/
structure SameBooks (b b' : BackupProfiles.State) : Prop where
  running : b'.running = b.running
  runs : b'.runs = b.runs
  active : b'.activeProfileId = b.activeProfileId
  startedAt : b'.startedAt = b.startedAt
  ids : b'.profiles.map (·.id) = b.profiles.map (·.id)

theorem SameBooks.refl (b : BackupProfiles.State) : SameBooks b b := ⟨rfl, rfl, rfl, rfl, rfl⟩

def Started (id : String) (b b' : BackupProfiles.State) : Prop :=
  ∃ c, c.name = backupName id ∧
    b' = { b with consigne := some c, running := some c, runs := b.runs ++ [c] }

theorem startProfile_cases (site : Site) (m : Moment) (id : String) (b : BackupProfiles.State) :
    SameBooks b (startProfile site m id b).1 ∧ (startProfile site m id b).2 = none ∨
    Reaches site m id b ∧ id ∈ b.profiles.map (·.id) ∧
      (SameBooks b (startProfile site m id b).1 ∧ (startProfile site m id b).2 = some false ∨
        b.running = none ∧ Started id b (startProfile site m id b).1 ∧
          (m.start = .done ∧ (startProfile site m id b).2 = some true ∨
            m.start = .failedAfter ∧ (startProfile site m id b).2 = none)) := by
  unfold startProfile
  by_cases hrefused : refused m = true
  · rw [if_pos hrefused]
    exact .inl ⟨SameBooks.refl b, rfl⟩
  rw [if_neg hrefused]
  cases hp : getProfile b.profiles id with
  | none => exact .inl ⟨SameBooks.refl b, rfl⟩
  | some p =>
    simp only
    by_cases hissues : m.workerIssues = true
    · rw [if_pos hissues]
      exact .inl ⟨SameBooks.refl b, rfl⟩
    rw [if_neg hissues]
    unfold triggerProfile
    by_cases hwrites : (consigneOf site p).valid = false ∨ m.writes = false
    · rw [if_pos hwrites]
      exact .inl ⟨SameBooks.refl b, rfl⟩
    rw [if_neg hwrites]
    unfold BackupProfiles.trigger
    by_cases hinspects : m.inspects = false
    · rw [if_pos hinspects]
      exact .inl ⟨⟨rfl, rfl, rfl, rfl, rfl⟩, rfl⟩
    rw [if_neg hinspects]
    simp only [not_or, Bool.not_eq_false] at hwrites
    -- from here on only the container decides
    have hreaches : Reaches site m id b :=
      ⟨by simpa using hrefused, by simpa using hissues, hwrites.2, by simpa using hinspects,
        p, hp, hwrites.1⟩
    have hmem : id ∈ b.profiles.map (·.id) :=
      List.mem_map.mpr ⟨p, List.mem_of_find?_eq_some hp, BackupProfiles.getProfile_id hp⟩
    have hname : (consigneOf site p).name = backupName id :=
      congrArg backupName (BackupProfiles.getProfile_id hp)
    by_cases hrunning : b.running.isSome = true
    · rw [if_pos hrunning]
      exact .inr ⟨hreaches, hmem, .inl ⟨⟨rfl, rfl, rfl, rfl, rfl⟩, rfl⟩⟩
    rw [if_neg hrunning]
    have hidle : b.running = none := by simpa using hrunning
    cases hstart : m.start with
    | done => exact .inr ⟨hreaches, hmem, .inr ⟨hidle, ⟨_, hname, rfl⟩, .inl ⟨rfl, rfl⟩⟩⟩
    | failed => exact .inl ⟨⟨rfl, rfl, rfl, rfl, rfl⟩, rfl⟩
    | failedAfter => exact .inr ⟨hreaches, hmem, .inr ⟨hidle, ⟨_, hname, rfl⟩, .inr ⟨rfl, rfl⟩⟩⟩

theorem setLastRun_ids (id : String) (t : Time) (profiles : List BackupProfile) :
    (BackupProfiles.setLastRun id t profiles).map (·.id) = profiles.map (·.id) := by
  induction profiles with
  | nil => rfl
  | cons p profiles ih =>
    simp only [BackupProfiles.setLastRun]
    split
    · rfl
    · rw [List.map_cons, List.map_cons, ih]

theorem sameBooks_markRun (m : Moment) (id : String) (t : Time) (b : BackupProfiles.State) :
    SameBooks b (BackupProfiles.markRun m id t b).1 := by
  simp only [BackupProfiles.markRun]
  split
  · cases m.mark with
    | done => exact ⟨rfl, rfl, rfl, rfl, setLastRun_ids id t b.profiles⟩
    | failed => exact SameBooks.refl b
    | failedAfter => exact ⟨rfl, rfl, rfl, rfl, setLastRun_ids id t b.profiles⟩
  · exact SameBooks.refl b

theorem sameBooks_advanced (b : BackupProfiles.State) : SameBooks b b.advanced :=
  ⟨rfl, rfl, rfl, rfl, rfl⟩

theorem SameBooks.trans {b b' b'' : BackupProfiles.State} (h : SameBooks b b')
    (h' : SameBooks b' b'') : SameBooks b b'' :=
  ⟨h'.running.trans h.running, h'.runs.trans h.runs, h'.active.trans h.active,
    h'.startedAt.trans h.startedAt, h'.ids.trans h.ids⟩

theorem SameBooks.setTick {b b' : BackupProfiles.State} (h : SameBooks b b')
    (tick : Option (Time × List BackupProfile)) : SameBooks b { b' with tick } :=
  ⟨h.running, h.runs, h.active, h.startedAt, h.ids⟩

theorem sameBooks_nextProfile (site : Site) (m : Moment) {b : BackupProfiles.State}
    (hdue : dueVisit site b = none) : SameBooks b (BackupProfiles.nextProfile site m b) := by
  simp only [BackupProfiles.nextProfile]
  split
  · exact SameBooks.refl b
  · exact (SameBooks.refl b).setTick none
  rename_i now p rest htick
  have hadvanced := sameBooks_advanced b
  have hmarked := hadvanced.trans (sameBooks_markRun m p.id now b.advanced)
  simp only [BackupProfiles.visit]
  split
  · exact hadvanced
  rename_i henabled
  split
  · exact hadvanced
  · exact hadvanced.setTick none
  · split
    · rename_i b' hmark
      rw [hmark] at hmarked
      exact hmarked
    · rename_i b' hmark
      rw [hmark] at hmarked
      exact hmarked.setTick none
  · rename_i hyes
    simp [dueVisit, htick, hyes, Bool.eq_true_of_not_eq_false henabled] at hdue

/-! ### The invariant -/

structure Invariant (s : State) : Prop where
  counted : ∀ id, runsOf id s = outcomesOf id s + pendingOf id s
  /-- What is at work is noted and active, or about to be noted. -/
  working : ∀ id, RunsFor id s.base → id ≠ "safety" ∧
    ((s.base.startedAt.lookup id).isSome = true ∧ s.base.activeProfileId = some id ∧
        (∀ other, s.noting ≠ some (other, true)) ∨
      s.noting = some (id, true))
  /-- A note is the safety backup's or that of a profile. -/
  known : ∀ id, (s.base.startedAt.lookup id).isSome = true →
    id = "safety" ∨ id ∈ s.base.profiles.map (·.id)
  noting : ∀ id started, s.noting = some (id, started) → id ∈ s.base.profiles.map (·.id) ∧
    (started = true → id ≠ "safety" ∧ s.base.startedAt.lookup id = none)

theorem initial_invariant (profiles : List BackupProfile) : Invariant (initial profiles) := by
  constructor
  · intro id
    simp [initial, runsOf, outcomesOf, pendingOf]
  · rintro id ⟨c, hc, _⟩
    cases hc
  · intro id hnoted
    simp [initial] at hnoted
  · intro id started hnoting
    cases hnoting

section

variable {s : State} {site : Site}

theorem runsFor_of_sameBooks {b b' : BackupProfiles.State} (h : SameBooks b b') {id : String} :
    RunsFor id b' ↔ RunsFor id b := by
  simp only [RunsFor]
  rw [h.running]

theorem Invariant.sameBooks (h : Invariant s) {b : BackupProfiles.State}
    (hsame : SameBooks s.base b) : Invariant { s with base := b } := by
  constructor
  · intro id
    have hcounted := h.counted id
    simp only [runsOf, outcomesOf, pendingOf] at hcounted ⊢
    rw [hsame.runs, hsame.startedAt]
    exact hcounted
  · intro id hruns
    rw [hsame.startedAt, hsame.active]
    exact h.working id ((runsFor_of_sameBooks hsame).mp hruns)
  · intro id
    rw [hsame.startedAt, hsame.ids]
    exact h.known id
  · intro id started
    rw [hsame.startedAt, hsame.ids]
    exact h.noting id started

theorem backupName_inj {id id' : String} (h : backupName id = backupName id') : id = id' := by
  simp only [backupName] at h
  exact String.append_right_inj _ |>.mp h

theorem runsOf_started {b : BackupProfiles.State} {c : Consigne} {id : String}
    (hname : c.name = backupName id) (other : String) :
    (b.runs ++ [c]).countP (fun c => c.name = backupName other) =
      b.runs.countP (fun c => c.name = backupName other) + if other = id then 1 else 0 := by
  rw [List.countP_append]
  by_cases hother : other = id
  · subst hother
    simp [hname]
  · have hne : c.name ≠ backupName other := by
      rw [hname]
      exact fun heq => hother (backupName_inj heq).symm
    simp [hne, hother]

theorem Invariant.started (h : Invariant s) {id : String} {b : BackupProfiles.State}
    (hfree : s.noting = none) (hname : id ≠ "safety")
    (hfresh : s.base.startedAt.lookup id = none) (hmem : id ∈ s.base.profiles.map (·.id))
    (hstarted : Started id s.base b) :
    Invariant { s with base := b, noting := some (id, true) } := by
  rcases hstarted with ⟨c, hc, rfl⟩
  constructor
  · intro other
    have hcounted := h.counted other
    simp only [runsOf, outcomesOf, pendingOf, hfree] at hcounted ⊢
    rw [runsOf_started hc, hcounted]
    by_cases hother : other = id
    · subst hother
      simp [hname, hfresh]
    · simp [hother, Ne.symm hother]
  · rintro other ⟨c', hc', hother⟩
    cases hc'
    have heq : other = id := backupName_inj (hother.symm.trans hc)
    subst heq
    exact ⟨hname, .inr rfl⟩
  · exact h.known
  · rintro other started ⟨⟩
    exact ⟨hmem, fun _ => ⟨hname, hfresh⟩⟩

theorem Invariant.answered (h : Invariant s) {noting : Option (String × Bool)}
    (hfree : s.noting = none)
    (hknown : ∀ entry ∈ noting, entry.2 = false ∧ entry.1 ∈ s.base.profiles.map (·.id)) :
    Invariant { s with noting } := by
  have hnot : ∀ id, noting ≠ some (id, true) := by
    intro id heq
    cases (hknown (id, true) heq).1
  constructor
  · intro id
    have hcounted := h.counted id
    simpa [runsOf, outcomesOf, pendingOf, hfree, hnot] using hcounted
  · intro id hruns
    rcases h.working id hruns with ⟨hname, hnoted | hnoting⟩
    · exact ⟨hname, .inl ⟨hnoted.1, hnoted.2.1, hnot⟩⟩
    · rw [hfree] at hnoting
      cases hnoting
  · exact h.known
  · intro id started hnoting
    rcases hknown (id, started) hnoting with ⟨rfl, hmem⟩
    exact ⟨hmem, fun hstarted => by cases hstarted⟩

theorem Invariant.trigger (h : Invariant s) {m : Moment} {id : String} (hfree : s.noting = none)
    (hclean : CleanTrigger site m id s.base) : Invariant (trigger site m id s) := by
  unfold BackupOutcomes.trigger
  rcases startProfile_cases site m id s.base with
    ⟨hsame, hnone⟩ | ⟨hreaches, hmem, ⟨hsame, hfalse⟩ | ⟨hidle, hstarted, hanswer⟩⟩
  · rw [hnone]
    exact (h.sameBooks hsame).answered hfree nofun
  · rw [hfalse]
    refine (h.sameBooks hsame).answered hfree ?_
    rintro entry ⟨⟩
    exact ⟨rfl, hsame.ids ▸ hmem⟩
  · rcases hclean hreaches hidle with hfailed | ⟨hdone, hname, hfresh⟩
    · rcases hanswer with ⟨hdone, -⟩ | ⟨hlate, -⟩
      · cases hfailed.symm.trans hdone
      · cases hfailed.symm.trans hlate
    · rcases hanswer with ⟨-, htrue⟩ | ⟨hlate, -⟩
      · rw [htrue]
        exact h.started hfree hname hfresh hmem hstarted
      · cases hdone.symm.trans hlate

theorem Invariant.note (h : Invariant s) {now : Time} (hclean : CleanNote s) :
    Invariant (note now s) := by
  unfold BackupOutcomes.note
  cases hnoting : s.noting with
  | none => exact h
  | some entry =>
    rcases entry with ⟨id, started⟩
    rcases h.noting id started hnoting with ⟨hmem, hfresh⟩
    cases started with
    | false =>
      have hnoted := hclean (id, false) hnoting rfl
      -- the container was at work: its profile is noted already, and stays so
      have hkept : ¬ (false = true ∨ s.base.startedAt.lookup id = none) := by
        rw [Option.isSome_iff_ne_none] at hnoted
        simpa using hnoted
      simp only [recordStart, if_neg hkept]
      have hother : ∀ other, s.noting ≠ some (other, true) := by
        intro other heq
        cases hnoting.symm.trans heq
      refine ⟨fun other => ?_, fun other hruns => ?_, h.known, fun _ _ hnone => by cases hnone⟩
      · have hcounted := h.counted other
        simpa [runsOf, outcomesOf, pendingOf, hother] using hcounted
      · rcases h.working other hruns with ⟨hname, hnoted | hstarting⟩
        · exact ⟨hname, .inl ⟨hnoted.1, hnoted.2.1, fun _ hnone => by cases hnone⟩⟩
        · exact absurd hstarting (hother other)
    | true =>
      -- the run of the answer leaves the hands of the trigger and is noted
      rcases hfresh rfl with ⟨hname, hfresh⟩
      simp only [recordStart, true_or, if_true]
      refine ⟨fun other => ?_, fun other hruns => ?_, fun other hnoted => ?_,
        fun _ _ hnone => by cases hnone⟩
      · have hcounted := h.counted other
        simp only [runsOf, outcomesOf, pendingOf, hnoting] at hcounted ⊢
        rw [hcounted, Dict.lookup_set]
        by_cases hother : other = id
        · subst hother
          simp [hfresh]
        · simp [hother, Ne.symm hother]
      · rcases h.working other hruns with ⟨hname', hnoted | hstarting⟩
        · exact absurd hnoting (hnoted.2.2 id)
        · cases hnoting.symm.trans hstarting
          refine ⟨hname, .inl ⟨?_, rfl, fun _ hnone => by cases hnone⟩⟩
          rw [Dict.lookup_set, if_pos rfl]
          rfl
      · rw [Dict.lookup_set] at hnoted
        by_cases hother : other = id
        · subst hother
          exact .inr hmem
        · rw [if_neg hother] at hnoted
          exact h.known other hnoted

theorem sameBooks_marked (b : BackupProfiles.State) (id : String) (now : Time) :
    SameBooks b (b.marked id now) :=
  ⟨rfl, rfl, rfl, rfl, setLastRun_ids id now b.profiles⟩

theorem cleanTrigger_marked {m : Moment} {id : String} {b : BackupProfiles.State} (now : Time)
    (h : CleanTrigger site m id b) : CleanTrigger site m id (b.marked id now) :=
  fun hreaches => h ((BackupProfiles.reaches_marked now).mp hreaches)

theorem Invariant.nextProfile (h : Invariant s) {m : Moment} (hfree : s.noting = none)
    (hclean : Clean site s (.nextProfile m)) : Invariant (nextProfile site m s) := by
  unfold BackupOutcomes.nextProfile
  cases hdue : dueVisit site s.base with
  | none => exact h.sameBooks (sameBooks_nextProfile site m hdue)
  | some entry =>
    rcases entry with ⟨now, p⟩
    simp only
    rcases hmark : BackupProfiles.markRun m p.id now s.base.advanced with ⟨b, returned⟩
    cases returned with
    | false =>
      have hmarked := sameBooks_markRun m p.id now s.base.advanced
      rw [hmark] at hmarked
      exact h.sameBooks (((sameBooks_advanced s.base).trans hmarked).setTick none)
    | true =>
      rcases BackupProfiles.markRun_true hmark with ⟨hstrict, hdone, rfl⟩
      have hmarked := h.sameBooks (sameBooks_marked s.base p.id now)
      exact hmarked.trigger hfree
        (cleanTrigger_marked now (hclean hfree (now, p) hdue hstrict hdone))

theorem Invariant.ended (h : Invariant s) :
    Invariant { s with base := { s.base with running := none } } := by
  refine ⟨h.counted, ?_, h.known, h.noting⟩
  rintro id ⟨c, hc, _⟩
  cases hc

theorem Invariant.noteSafety (h : Invariant s) (now : Time) :
    Invariant { s with base :=
      { s.base with startedAt := Dict.set s.base.startedAt "safety" now } } := by
  constructor
  · intro id
    have hcounted := h.counted id
    simp only [runsOf, outcomesOf, pendingOf, Dict.lookup_set] at hcounted ⊢
    rw [hcounted]
    by_cases hid : id = "safety"
    · simp [hid]
    · simp [hid]
  · intro id hruns
    rcases h.working id hruns with ⟨hname, hworking⟩
    refine ⟨hname, ?_⟩
    rw [Dict.lookup_set, if_neg hname]
    exact hworking
  · intro id hnoted
    rw [Dict.lookup_set] at hnoted
    by_cases hid : id = "safety"
    · exact .inl hid
    · rw [if_neg hid] at hnoted
      exact h.known id hnoted
  · intro id started hnoting
    rcases h.noting id started hnoting with ⟨hmem, hfresh⟩
    refine ⟨hmem, fun hstarted => ?_⟩
    rcases hfresh hstarted with ⟨hname, hfresh⟩
    refine ⟨hname, ?_⟩
    rw [Dict.lookup_set, if_neg hname]
    exact hfresh

theorem Invariant.setScan (h : Invariant s) (j : ℕ) (scan : Scan) : Invariant (s.setScan j scan) :=
  ⟨h.counted, h.working, h.known, h.noting⟩

theorem lookup_pop (kind id : String) (b : BackupProfiles.State) :
    (pop kind b).startedAt.lookup id = if id = kind then none else b.startedAt.lookup id := by
  by_cases hid : id = kind
  · subst hid
    simp [pop]
  · simp [pop, hid, AList.lookup_erase_ne hid]

theorem Invariant.pop (h : Invariant s) {kind : String} (outcomes : List BackupOutcome)
    (hnoted : (s.base.startedAt.lookup kind).isSome = true) (hruns : ¬ RunsFor kind s.base)
    (houtcomes : ∀ id, outcomes.countP (fun o => o.kind = id) =
      outcomesOf id s + if id = kind ∧ kind ≠ "safety" then 1 else 0) :
    Invariant { s with base := BackupOutcomes.pop kind s.base, outcomes } := by
  -- the note taken is not one that a trigger is about to make
  have hnot : s.noting ≠ some (kind, true) := by
    intro heq
    rw [((h.noting kind true heq).2 rfl).2] at hnoted
    cases hnoted
  constructor
  · intro id
    have hcounted := h.counted id
    have hout := houtcomes id
    simp only [runsOf, outcomesOf, pendingOf] at hcounted hout ⊢
    rw [lookup_pop, hout]
    simp only [BackupOutcomes.pop]
    rw [hcounted]
    by_cases hid : id = kind
    · subst hid
      by_cases hname : id = "safety"
      · simp [hname]
      · simp [hname, hnoted, hnot]
    · simp [hid]
  · intro id hruns'
    have hruns'' : RunsFor id s.base := hruns'
    rcases h.working id hruns'' with ⟨hname, hworking⟩
    have hne : id ≠ kind := fun heq => hruns (heq ▸ hruns'')
    refine ⟨hname, ?_⟩
    rw [lookup_pop, if_neg hne]
    exact hworking
  · intro id hnoted'
    simp only at hnoted' ⊢
    rw [lookup_pop] at hnoted'
    split at hnoted'
    · cases hnoted'
    · exact h.known id hnoted'
  · intro id started hnoting
    rcases h.noting id started hnoting with ⟨hmem, hfresh⟩
    refine ⟨hmem, fun hstarted => ⟨(hfresh hstarted).1, ?_⟩⟩
    rw [lookup_pop, (hfresh hstarted).2, ite_self]

theorem Invariant.delete (h : Invariant s) {id : String}
    (hnone : s.base.startedAt.lookup id = none) (hother : ∀ entry ∈ s.noting, entry.1 ≠ id)
    (deleting : List String) : Invariant { s with
      base := { s.base with profiles := s.base.profiles.filter (·.id ≠ id) }, deleting } := by
  have hkept : ∀ other, other ≠ id → other ∈ s.base.profiles.map (·.id) →
      other ∈ (s.base.profiles.filter (·.id ≠ id)).map (·.id) := by
    intro other hne hmem
    rcases List.mem_map.mp hmem with ⟨p, hp, rfl⟩
    exact List.mem_map_of_mem (List.mem_filter.mpr ⟨hp, by simpa using hne⟩)
  refine ⟨h.counted, h.working, fun other hnoted => ?_, fun other started hnoting => ?_⟩
  · refine (h.known other hnoted).imp_right (hkept other ?_)
    rintro rfl
    rw [hnone] at hnoted
    cases hnoted
  · rcases h.noting other started hnoting with ⟨hmem, hfresh⟩
    exact ⟨hkept other (hother (other, started) hnoting) hmem, hfresh⟩

theorem Invariant.not_runsFor_safety (h : Invariant s) : ¬ RunsFor "safety" s.base :=
  fun hruns => (h.working "safety" hruns).1 rfl

theorem Invariant.conclude (h : Invariant s) (j : ℕ) {l : Look} {w : Watched}
    {rest : List Watched} (hclean : CleanScan l s (.ended w rest)) :
    Invariant (conclude j l w rest s) := by
  simp only [BackupOutcomes.conclude]
  cases hnote : s.base.startedAt.lookup w.kind with
  | none => exact h.setScan j _
  | some startedAt =>
    have hnoted : (s.base.startedAt.lookup w.kind).isSome = true := by rw [hnote]; rfl
    simp only
    by_cases hname : w.kind = "safety"
    · rw [if_pos hname]
      have hidle : ¬ RunsFor w.kind s.base := by
        rw [hname]
        exact h.not_runsFor_safety
      have hcounts : ∀ id, s.outcomes.countP (fun o => o.kind = id) =
          outcomesOf id s + if id = w.kind ∧ w.kind ≠ "safety" then 1 else 0 := by
        simp [hname, outcomesOf]
      exact (h.pop s.outcomes hnoted hidle hcounts).setScan j _
    · rw [if_neg hname]
      rcases hclean hname hnoted with ⟨hruns, hlisted, hjournals⟩
      rcases Option.isSome_iff_exists.mp hlisted with ⟨archives, harchives⟩
      rw [harchives, hjournals]
      have hcounts : ∀ id,
          (s.outcomes ++ [outcomeOf w (latest (produced w startedAt archives))]).countP
              (fun o => o.kind = id) =
            outcomesOf id s + if id = w.kind ∧ w.kind ≠ "safety" then 1 else 0 := by
        intro id
        rw [List.countP_append]
        by_cases hid : id = w.kind
        · subst hid
          simp [outcomesOf, outcomeOf, hname]
        · simp [outcomesOf, outcomeOf, hid, Ne.symm hid]
      exact (h.pop _ hnoted hruns hcounts).setScan j _

theorem Invariant.scanStep (h : Invariant s) (j : ℕ) {l : Look}
    (hclean : CleanScan l s (s.scans j)) : Invariant (scanStep j l s) := by
  simp only [BackupOutcomes.scanStep]
  cases hscan : s.scans j with
  | idle => exact h.setScan j _
  | scanning rest =>
    cases rest with
    | nil => exact h.setScan j _
    | cons w rest => exact h.setScan j _
  | noted w rest => exact h.setScan j _
  | ended w rest =>
    rw [hscan] at hclean
    exact h.conclude j hclean

theorem Invariant.step (h : Invariant s) {event : Event} (hclean : Clean site s event) :
    Invariant (step site s event) := by
  cases event with
  | trigger id m =>
    simp only [BackupOutcomes.step]
    split_ifs with hlocked
    · exact h
    · simp only [Bool.or_eq_true, not_or, Bool.not_eq_true, Option.isSome_eq_false_iff,
        Option.isNone_iff_eq_none] at hlocked
      exact h.trigger hlocked.2 (hclean hlocked.1 hlocked.2)
  | note now => exact h.note hclean
  | beginTick m =>
    simp only [BackupOutcomes.step, State.withBase, BackupProfiles.step, BackupProfiles.beginTick]
    split_ifs
    · exact h
    · exact h
    · exact h
    · exact h.sameBooks ((SameBooks.refl s.base).setTick _)
  | nextProfile m =>
    simp only [BackupOutcomes.step]
    split_ifs with hlocked
    · exact h
    · exact h.nextProfile (by simpa using hlocked) hclean
  | ended => exact h.ended
  | restore now =>
    simp only [BackupOutcomes.step]
    split_ifs
    · exact h
    · exact h.noteSafety now
  | scan j l => exact h.scanStep j hclean
  | askDelete id readable =>
    simp only [BackupOutcomes.step]
    split_ifs
    · exact h
    · exact ⟨h.counted, h.working, h.known, h.noting⟩
  | delete id =>
    simp only [BackupOutcomes.step]
    split_ifs with hasked
    · exact h.delete (hclean hasked).1 (hclean hasked).2 _
    · exact h

/-! ### A scan of the stopped container -/

def Look.clear (l : Look) : Prop :=
  l.readable = true ∧ l.listed.isSome = true ∧ l.journals = true

structure Scanned (s s' : State) : Prop where
  running : s'.base.running = none
  noting : s'.noting = s.noting
  profiles : s'.base.profiles = s.base.profiles
  gone : ∀ id, s.base.startedAt.lookup id = none → s'.base.startedAt.lookup id = none

theorem Scanned.trans {s' s'' : State} (h : Scanned s s') (h' : Scanned s' s'') : Scanned s s'' :=
  ⟨h'.running, h'.noting.trans h.noting, h'.profiles.trans h.profiles,
    fun id hid => h'.gone id (h.gone id hid)⟩

theorem setScan_scans (j : ℕ) (scan : Scan) : (s.setScan j scan).scans j = scan :=
  Function.update_self ..

theorem runsFor_idle (hidle : s.base.running = none) (id : String) : ¬ RunsFor id s.base := by
  rintro ⟨c, hc, _⟩
  rw [hidle] at hc
  cases hc

theorem cleanScan_idle (hidle : s.base.running = none) {l : Look} (hclear : l.clear)
    (scan : Scan) : CleanScan l s scan := by
  cases scan with
  | ended w rest => exact fun _ _ => ⟨runsFor_idle hidle w.kind, hclear.2⟩
  | _ => exact trivial

theorem scanned_conclude (j : ℕ) {l : Look} (hclear : l.clear) (hidle : s.base.running = none)
    (w : Watched) (rest : List Watched) :
    let s' := conclude j l w rest s
    s'.scans j = .scanning rest ∧ Scanned s s' ∧ s'.base.startedAt.lookup w.kind = none := by
  simp only [BackupOutcomes.conclude]
  cases hnote : s.base.startedAt.lookup w.kind with
  | none => exact ⟨setScan_scans j _, ⟨hidle, rfl, rfl, fun _ h => h⟩, hnote⟩
  | some startedAt =>
    have hpopped : Scanned s { s with base := BackupOutcomes.pop w.kind s.base } := by
      refine ⟨hidle, rfl, rfl, fun id hid => ?_⟩
      rw [lookup_pop]
      split
      · rfl
      · exact hid
    have hgone : (BackupOutcomes.pop w.kind s.base).startedAt.lookup w.kind = none := by
      rw [lookup_pop, if_pos rfl]
    rcases hclear with ⟨-, hlisted, hjournals⟩
    rcases Option.isSome_iff_exists.mp hlisted with ⟨archives, harchives⟩
    simp only [harchives, hjournals]
    split
    · exact ⟨setScan_scans j _,
        ⟨hpopped.running, hpopped.noting, hpopped.profiles, hpopped.gone⟩, hgone⟩
    · exact ⟨setScan_scans j _,
        ⟨hpopped.running, hpopped.noting, hpopped.profiles, hpopped.gone⟩, hgone⟩

def Steps (site : Site) (j : ℕ) (l : Look) (s s' : State) : Prop :=
  ∃ n, run (step site) s (List.replicate n (.scan j l)) = s'

theorem Steps.refl (site : Site) (j : ℕ) (l : Look) (s : State) : Steps site j l s s := ⟨0, rfl⟩

theorem Steps.head {j : ℕ} {l : Look} {s' : State} (h : Steps site j l (scanStep j l s) s') :
    Steps site j l s s' := by
  rcases h with ⟨n, hn⟩
  exact ⟨n + 1, hn⟩

theorem Steps.trans {j : ℕ} {l : Look} {s' s'' : State} (h : Steps site j l s s')
    (h' : Steps site j l s' s'') : Steps site j l s s'' := by
  rcases h with ⟨n, rfl⟩
  rcases h' with ⟨n', rfl⟩
  refine ⟨n + n', ?_⟩
  rw [List.replicate_add, run_append]

theorem scan_entry (site : Site) (j : ℕ) {l : Look} (hclear : l.clear)
    (hidle : s.base.running = none) {w : Watched} {rest : List Watched}
    (hscan : s.scans j = .scanning (w :: rest)) :
    ∃ s', Steps site j l s s' ∧ s'.scans j = .scanning rest ∧ Scanned s s' ∧
      (w.safety = true ∨ s'.base.startedAt.lookup w.kind = none) := by
  have hfirst : scanStep j l s = s.setScan j
      (if (s.base.startedAt.lookup w.kind).isSome then .noted w rest else .scanning rest) := by
    simp only [scanStep, hscan]
  by_cases hnoted : (s.base.startedAt.lookup w.kind).isSome = true
  · rw [if_pos hnoted] at hfirst
    have hsecond : scanStep j l (s.setScan j (.noted w rest)) =
        (s.setScan j (.noted w rest)).setScan j
          (if l.readable && !(if w.safety then l.safetyRunning else s.base.running.isSome)
            then .ended w rest else .scanning rest) := by
      simp only [scanStep, setScan_scans]
      rfl
    by_cases hended : (l.readable &&
        !(if w.safety then l.safetyRunning else s.base.running.isSome)) = true
    · rw [if_pos hended] at hsecond
      have hthird : scanStep j l ((s.setScan j (.noted w rest)).setScan j (.ended w rest)) =
          conclude j l w rest ((s.setScan j (.noted w rest)).setScan j (.ended w rest)) := by
        simp only [scanStep, setScan_scans]
      obtain ⟨hscans, hscanned, hgone⟩ :=
        scanned_conclude (s := (s.setScan j (.noted w rest)).setScan j (.ended w rest)) j hclear
          hidle w rest
      refine ⟨_, ?_, hscans,
        ⟨hscanned.running, hscanned.noting, hscanned.profiles, hscanned.gone⟩, .inr hgone⟩
      apply Steps.head
      rw [hfirst]
      apply Steps.head
      rw [hsecond]
      apply Steps.head
      rw [hthird]
      exact Steps.refl site j l _
    · rw [if_neg hended] at hsecond
      -- the container has stopped, so that only the safety backup may still run
      have hsafety : w.safety = true := by
        by_contra hnot
        rw [if_neg hnot, hidle, hclear.1] at hended
        exact hended rfl
      refine ⟨(s.setScan j (.noted w rest)).setScan j (.scanning rest), ?_, setScan_scans j _,
        ⟨hidle, rfl, rfl, fun _ h => h⟩, .inl hsafety⟩
      apply Steps.head
      rw [hfirst]
      apply Steps.head
      rw [hsecond]
      exact Steps.refl site j l _
  · rw [if_neg hnoted] at hfirst
    have hgone : s.base.startedAt.lookup w.kind = none := by simpa using hnoted
    refine ⟨_, ?_, setScan_scans j _, ⟨hidle, rfl, rfl, fun _ h => h⟩, .inr hgone⟩
    apply Steps.head
    rw [hfirst]
    exact Steps.refl site j l _

theorem scan_entries (site : Site) (j : ℕ) {l : Look} (hclear : l.clear) (entries : List Watched)
    (hidle : s.base.running = none) (hscan : s.scans j = .scanning entries) :
    ∃ s', Steps site j l s s' ∧ s'.scans j = .idle ∧ Scanned s s' ∧
      ∀ w ∈ entries, w.safety = true ∨ s'.base.startedAt.lookup w.kind = none := by
  induction entries generalizing s with
  | nil =>
    have hlast : scanStep j l s = s.setScan j .idle := by simp only [scanStep, hscan]
    refine ⟨s.setScan j .idle, ?_, setScan_scans j _, ⟨hidle, rfl, rfl, fun _ h => h⟩, ?_⟩
    · apply Steps.head
      rw [hlast]
      exact Steps.refl site j l _
    · intro w hw
      cases hw
  | cons w rest ih =>
    rcases scan_entry site j hclear hidle hscan with ⟨s₁, hsteps, hscan₁, hscanned, hgone⟩
    rcases ih hscanned.running hscan₁ with ⟨s₂, hsteps', hidle', hscanned', hrest⟩
    refine ⟨s₂, hsteps.trans hsteps', hidle', hscanned.trans hscanned', ?_⟩
    intro other hother
    rcases List.mem_cons.mp hother with rfl | hother
    · exact hgone.imp_right fun hnone => hscanned'.gone _ hnone
    · exact hrest other hother

theorem conclude_running (j : ℕ) (l : Look) (w : Watched) (rest : List Watched) (s : State) :
    (conclude j l w rest s).base.running = s.base.running := by
  unfold BackupOutcomes.conclude
  split
  · rfl
  · simp only
    split
    · rfl
    · split
      · rfl
      · rfl

theorem scanStep_running (j : ℕ) (l : Look) (s : State) :
    (scanStep j l s).base.running = s.base.running := by
  simp only [BackupOutcomes.scanStep]
  split
  · rfl
  · rfl
  · rfl
  · rfl
  · exact conclude_running j l _ _ s

theorem invariant_of_steps {j : ℕ} {l : Look} {s' : State} (hclear : l.clear)
    (hidle : s.base.running = none) (h : Invariant s) (hsteps : Steps site j l s s') :
    Invariant s' := by
  rcases hsteps with ⟨n, rfl⟩
  induction n generalizing s with
  | zero => exact h
  | succ n ih =>
    have hnext : Invariant (scanStep j l s) := h.scanStep j (cleanScan_idle hidle hclear _)
    exact ih ((scanStep_running j l s).trans hidle) hnext

theorem Invariant.settles (h : Invariant s) : Settles site s := by
  intro j l hidle hfree hscan hreadable hlisted hjournals
  have hclear : l.clear := ⟨hreadable, hlisted, hjournals⟩
  have hfirst : BackupOutcomes.scanStep j l s = s.setScan j (.scanning (watched s)) := by
    simp only [BackupOutcomes.scanStep, hscan]
  obtain ⟨s', hsteps, hend, hscanned, hgone⟩ :=
    scan_entries (s := s.setScan j (.scanning (watched s))) site j hclear (watched s) hidle
      (setScan_scans j _)
  have hall : Steps site j l s s' := Steps.head (hfirst ▸ hsteps)
  have hinvariant := invariant_of_steps hclear hidle h hall
  rcases hall with ⟨n, hn⟩
  refine ⟨n, ?_⟩
  simp only [hn]
  refine ⟨hend, fun id => ?_⟩
  have hpending : pendingOf id s' = 0 := by
    simp only [pendingOf]
    rw [if_neg]
    rintro ⟨hname, hnoted | hnoting⟩
    swap
    · cases (hscanned.noting.trans hfree).symm.trans hnoting
    rcases hinvariant.known id hnoted with hsafety | hmem
    · exact hname hsafety
    · rw [hscanned.profiles] at hmem
      rcases List.mem_map.mp hmem with ⟨p, hp, rfl⟩
      rcases hgone (watchedOf p) (List.mem_cons_of_mem _ (List.mem_map_of_mem hp)) with
        hsafety | hnone
      · cases hsafety
      · simp only [watchedOf] at hnone
        rw [hnone] at hnoted
        cases hnoted
  have hcounted := hinvariant.counted id
  rw [hpending] at hcounted
  exact hcounted

theorem Invariant.attributed (h : Invariant s) : Attributed site s := by
  refine ⟨h.counted, ?_, ?_, h.settles⟩
  · intro id hruns
    rcases h.working id hruns with ⟨hname, hworking⟩
    exact if_pos ⟨hname, hworking.imp_left fun hnoted => hnoted.1⟩
  · intro id hruns hnoted
    rcases h.working id hruns with ⟨-, hactive | hnoting⟩
    · exact hactive.2.1
    · exact absurd hnoting hnoted

theorem Invariant.attributes (h : Invariant s) {event : Event} (hclean : Clean site s event) :
    Attributes site s event := by
  refine ⟨(h.step hclean).attributed, ?_⟩
  rintro id readable rfl hruns
  rcases hclean hruns with ⟨hreadable, hgap⟩
  have hactive : s.base.activeProfileId = none ∨ s.base.activeProfileId = some id := by
    rcases h.working id hruns with ⟨-, hnoted | hnoting⟩
    · exact .inr hnoted.2.1
    · exact hgap hnoting
  rcases hruns with ⟨c, hc, -⟩
  have hrunning : s.base.running = some c := hc
  rcases hactive with hactive | hactive
  · simp [deleteRefused, hreadable, hrunning, hactive]
  · simp [deleteRefused, hreadable, hrunning, hactive]

end

/-- In every run of clean steps, each run of a profile gets its one outcome, the profile at
work is the active one once it is noted, and is not deleted. -/
theorem outcomes_attributed (site : Site) (profiles : List BackupProfile) (events : List Event)
    (hclean : Along (step site) (Clean site) (initial profiles) events) :
    Along (step site) (Attributes site) (initial profiles) events :=
  hclean.of_invariant (fun _ _ hs hevent => hs.step hevent)
    (fun _ _ hs hevent => hs.attributes hevent) (initial_invariant profiles)

def worldAndMods : List BackupProfile := [BackupProfiles.worldProfile, BackupProfiles.modsProfile]

/-- One backup after the other, each with its scan; the first is asked to be deleted meanwhile,
and is deleted in the end. -/
def backupsInTurn : List Event :=
  [.trigger "monde" {}, .note 0, .trigger "monde" { now := 5 }, .note 5, .askDelete "monde" true,
      .ended] ++
    List.replicate 8 (.scan 0 { listed := some [⟨"profiles/monde/a.tar.gz", 1, 3⟩] }) ++
    [.trigger "mods" { now := 10 }, .note 10, .ended] ++ List.replicate 8 (.scan 1 {}) ++
    [.askDelete "monde" true, .delete "monde"]

example : (run (step BackupProfiles.utc) (initial worldAndMods) backupsInTurn).outcomes =
    [⟨"monde", true, some "profiles/monde/a.tar.gz", "Monde"⟩, ⟨"mods", false, none, "Mods"⟩] := by
  decide +kernel

theorem outcomes_attributed_sample :
    Along (step BackupProfiles.utc) (Attributes BackupProfiles.utc) (initial worldAndMods)
      backupsInTurn :=
  outcomes_attributed BackupProfiles.utc worldAndMods backupsInTurn (by decide +kernel)

def triggerDuringBackup : List Event :=
  [.trigger "monde" {}, .note 0, .trigger "mods" { now := 5 }, .note 5, .ended] ++
    List.replicate 9 (.scan 0 {})

/-- It gets an outcome without a run. -/
theorem outcome_without_run :
    ¬ ∀ (site : Site) (profiles : List BackupProfile) (events : List Event),
      Attributed site (run (step site) (initial profiles) events) := by
  intro h
  have hcounted := (h BackupProfiles.utc worldAndMods triggerDuringBackup).counted "mods"
  have hruns : runsOf "mods" (run (step BackupProfiles.utc) (initial worldAndMods)
      triggerDuringBackup) = 0 := by decide +kernel
  have houtcomes : outcomesOf "mods" (run (step BackupProfiles.utc) (initial worldAndMods)
      triggerDuringBackup) = 1 := by decide +kernel
  rw [hruns, houtcomes] at hcounted
  omega

end BackupOutcomes
