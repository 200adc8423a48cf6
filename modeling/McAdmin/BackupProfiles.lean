import Mathlib.Data.Rat.Defs
import Mathlib.Algebra.Order.Ring.Rat
import Mathlib.Tactic.NormNum
import McAdmin.Dict
import McAdmin.Runs

/-!
# The scheduled backups

A tick of the scheduler lists the profiles, marks each one that is due as run, and
then triggers it in the container all profiles share.  The visit of one profile
is one step, so that the container may end and the profiles may be edited in the
middle of a tick.
-/

namespace BackupProfiles

open Runs

/-! ### The profiles -/

abbrev Time := Int

/-- `daily_at`, as far as `hour, minute = ...` can read it. -/
inductive DailyAt where
  | at (hour minute : Nat)
  | unreadable
deriving DecidableEq

structure BackupProfile where
  id : String
  name : String
  included : List String
  dest : String
  hours : Rat := 0
  dailyAt : Option DailyAt := none
  enabled : Bool := true
  lastRun : Option Time := none
deriving DecidableEq

def defaultExcludes : String := "cache,logs"

def adminFiles : List String :=
  ["ops.json", "whitelist.json", "banned-players.json", "banned-ips.json", "usercache.json"]

def includesFor (categories : List String) (worldDir : String) : String × String :=
  let parts :=
    (if "world" ∈ categories then [worldDir] else []) ++
    (if "mods" ∈ categories ∨ "mods_jars" ∈ categories then ["mods"] else []) ++
    (if "config" ∈ categories then ["config", "server.properties"] else []) ++
    (if "admin" ∈ categories then adminFiles else [])
  let joined := ",".intercalate parts
  (if "all" ∈ categories ∨ joined = "" then "." else joined, defaultExcludes)

/-! ### The state -/

structure Consigne where
  dest : String
  name : String
  includes : String
  excludes : String
deriving DecidableEq

def Consigne.valid (c : Consigne) : Bool :=
  [c.dest, c.name, c.includes, c.excludes].all fun value =>
    !(value.toList.contains '\n' || value.toList.contains '\'')

structure State where
  /-- What a reading of the file that skips its bad entries finds. -/
  profiles : List BackupProfile
  /-- The file holds an entry that only the strict reading refuses. -/
  damaged : Bool := false
  consigne : Option Consigne := none
  /-- The consigne the container runs with, while it runs. -/
  running : Option Consigne := none
  /-- The consignes the container was started with so far. -/
  runs : List Consigne := []
  activeProfileId : Option String := none
  startedAt : Dict String Time := ∅
  operationIds : Dict String Time := ∅
  /-- The time of the tick under way and the profiles it has still to visit. -/
  tick : Option (Time × List BackupProfile) := none

/-- How a call that changes something ended: a call that raises may have changed it. -/
inductive Fate where
  | done
  | failed
  | failedAfter
deriving DecidableEq

/-- What a trigger meets: the guards, the clock, the disk and Docker. -/
structure Moment where
  /-- A restore is in progress, or its state cannot be read. -/
  restoring : Bool := false
  /-- The safety backup runs, `none` when that cannot be read. -/
  safety : Option Bool := some false
  workerIssues : Bool := false
  now : Time := 0
  writes : Bool := true
  inspects : Bool := true
  start : Fate := .done
  mark : Fate := .done

structure Site where
  worldDir : String
  /-- The offset of the local time. -/
  zone : Time → Int

def getProfile (profiles : List BackupProfile) (id : String) : Option BackupProfile :=
  profiles.find? (·.id = id)

def setLastRun (id : String) (at' : Time) : List BackupProfile → List BackupProfile
  | [] => []
  | p :: profiles =>
    if p.id = id then { p with lastRun := some at' } :: profiles
    else p :: setLastRun id at' profiles

/-- The file can be read strictly: no bad entry and no id twice. -/
def State.strict (s : State) : Prop := s.damaged = false ∧ (s.profiles.map (·.id)).Nodup

instance (s : State) : Decidable s.strict :=
  inferInstanceAs (Decidable (s.damaged = false ∧ (s.profiles.map (·.id)).Nodup))

/-- `mark_run`, and whether it returned. -/
def markRun (m : Moment) (id : String) (at' : Time) (s : State) : State × Bool :=
  if s.strict then
    match m.mark with
    | .done => ({ s with profiles := setLastRun id at' s.profiles }, true)
    | .failed => (s, false)
    | .failedAfter => ({ s with profiles := setLastRun id at' s.profiles }, false)
  else (s, false)

/-! ### Triggering the container -/

def startContainer (s : State) : State :=
  match s.consigne with
  | none => s
  | some c => { s with running := some c, runs := s.runs ++ [c] }

/-- `some started`, or `none` when the call raises. -/
abbrev Answer := Option Bool

def trigger (m : Moment) (s : State) : State × Answer :=
  if m.inspects = false then (s, none)
  else if s.running.isSome then (s, some false)
  else match m.start with
    | .done => (startContainer s, some true)
    | .failed => (s, none)
    | .failedAfter => (startContainer s, none)

def triggerProfile (m : Moment) (c : Consigne) (s : State) : State × Answer :=
  if c.valid = false ∨ m.writes = false then (s, none)
  else trigger m { s with consigne := some c }

/-- The service's own bookkeeping of a trigger that returned. -/
def recordStart (m : Moment) (id : String) (started : Bool) (s : State) : State :=
  if started ∨ s.startedAt.lookup id = none then
    { s with
      activeProfileId := some id
      startedAt := Dict.set s.startedAt id m.now
      operationIds := Dict.set s.operationIds id m.now }
  else s

def backupName (id : String) : String := "mc-" ++ id

def consigneOf (site : Site) (p : BackupProfile) : Consigne :=
  let (includes, excludes) := includesFor p.included site.worldDir
  ⟨p.dest, backupName p.id, includes, excludes⟩

def refused (m : Moment) : Bool := m.restoring || m.safety != some false

def triggerProfileBackup (site : Site) (m : Moment) (id : String) (s : State) :
    State × Answer :=
  if refused m then (s, none)
  else match getProfile s.profiles id with
  | none => (s, none)
  | some p =>
    if m.workerIssues then (s, none)
    else match triggerProfile m (consigneOf site p) s with
    | (s, none) => (s, none)
    | (s, some started) => (recordStart m id started s, some started)

/-! ### The tick -/

def day : Int := 24 * 3600 * 1000000

def Site.localTime (site : Site) (t : Time) : Int := t + site.zone t

def Site.date (site : Site) (t : Time) : Int := site.localTime t / day

inductive Due where
  | no
  | yes
  /-- An interval profile that never ran: its count starts now. -/
  | starts
  | raises
deriving DecidableEq

def profileDue (site : Site) (p : BackupProfile) (now : Time) : Due :=
  match p.dailyAt with
  | some dailyAt =>
    if p.lastRun.map site.date = some (site.date now) then .no
    else match dailyAt with
    | .unreadable => .raises
    | .at hour minute =>
      if hour < 24 ∧ minute < 60 then
        if (hour * 60 + minute) * 60000000 ≤ site.localTime now % day then .yes else .no
      else .raises
  | none =>
    if p.hours ≤ 0 then .no
    else match p.lastRun with
    | none => .starts
    | some lastRun => if p.hours * 3600 * 1000000 ≤ ((now - lastRun : Int) : Rat) then .yes else .no

def beginTick (m : Moment) (s : State) : State :=
  if refused m then s else { s with tick := some (m.now, s.profiles) }

def visit (site : Site) (m : Moment) (now : Time) (p : BackupProfile) (s : State) : State :=
  if p.enabled = false then s
  else match profileDue site p now with
  | .no => s
  | .raises => { s with tick := none }
  | .starts =>
    match markRun m p.id now s with
    | (s, true) => s
    | (s, false) => { s with tick := none }
  | .yes =>
    match markRun m p.id now s with
    | (s, true) => (triggerProfileBackup site m p.id s).1
    | (s, false) => { s with tick := none }

/-- The tick goes on to the profile after the next one. -/
def State.advanced (s : State) : State :=
  { s with tick := s.tick.map fun (now, profiles) => (now, profiles.tail) }

def nextProfile (site : Site) (m : Moment) (s : State) : State :=
  match s.tick with
  | none => s
  | some (_, []) => { s with tick := none }
  | some (now, p :: _) => visit site m now p s.advanced

/-- `_scan_backup_outcomes`: the cycles whose container has ended are concluded. -/
def scanOutcomes (s : State) : State :=
  if s.running.isSome then s
  else s.profiles.foldl (fun s p =>
    { s with startedAt := s.startedAt.erase p.id, operationIds := s.operationIds.erase p.id }) s

inductive Event where
  | beginTick (m : Moment)
  | nextProfile (m : Moment)
  /-- The button of the page. -/
  | trigger (id : String) (m : Moment)
  | ended
  | scanOutcomes
  /-- Profiles are created, changed, suspended or deleted. -/
  | edit (profiles : List BackupProfile) (damaged : Bool)

/-- A tick holds the lock of the triggers from its start to its end. -/
def step (site : Site) (s : State) : Event → State
  | .beginTick m => if s.tick.isSome then s else beginTick m s
  | .nextProfile m => nextProfile site m s
  | .trigger id m => if s.tick.isSome then s else (triggerProfileBackup site m id s).1
  | .ended => { s with running := none }
  | .scanOutcomes => scanOutcomes s
  | .edit profiles damaged => { s with profiles := profiles, damaged := damaged }

/-! ### What a visit owes the profile -/

def dueVisit (site : Site) (s : State) : Option (Time × BackupProfile) :=
  match s.tick with
  | some (now, p :: _) =>
    if p.enabled ∧ profileDue site p now = .yes then some (now, p) else none
  | _ => none

def visitAnswer (site : Site) (m : Moment) (now : Time) (p : BackupProfile) (s : State) :
    Answer :=
  match markRun m p.id now s.advanced with
  | (s, true) => (triggerProfileBackup site m p.id s).2
  | (_, false) => none

def OwnRun (id : String) (s s' : State) : Prop :=
  ∃ c, c.name = backupName id ∧ s'.runs = s.runs ++ [c]

def StillDue (site : Site) (id : String) (now : Time) (s : State) : Prop :=
  ∃ p ∈ getProfile s.profiles id, profileDue site p now = .yes

instance (site : Site) (id : String) (now : Time) (s : State) :
    Decidable (StillDue site id now s) :=
  inferInstanceAs (Decidable (∃ p ∈ getProfile s.profiles id, profileDue site p now = .yes))

def RunsFor (id : String) (s : State) : Prop := ∃ c ∈ s.running, c.name = backupName id

instance (id : String) (s : State) : Decidable (RunsFor id s) :=
  inferInstanceAs (Decidable (∃ c ∈ s.running, c.name = backupName id))

def RunsForAnother (id : String) (s : State) : Prop :=
  ∃ c ∈ s.running, c.name ≠ backupName id

/-- The trigger gets as far as the status of the container. -/
def Reaches (site : Site) (m : Moment) (id : String) (s : State) : Prop :=
  refused m = false ∧ m.workerIssues = false ∧ m.writes = true ∧ m.inspects = true ∧
    ∃ p ∈ getProfile s.profiles id, (consigneOf site p).valid = true

/-- The trigger of a profile gets as far as writing its instructions. -/
def Writes (site : Site) (m : Moment) (id : String) (s : State) (c : Consigne) : Prop :=
  refused m = false ∧ m.workerIssues = false ∧ m.writes = true ∧ c.valid = true ∧
    ∃ p ∈ getProfile s.profiles id, consigneOf site p = c

/-- A due profile is marked and then triggered while the container runs for another one. -/
def Collides (site : Site) (s : State) : Event → Prop
  | .nextProfile m => ∃ now p, dueVisit site s = some (now, p) ∧ s.strict ∧ m.mark = .done ∧
      Reaches site m p.id s ∧ RunsForAnother p.id s
  | _ => False

/-- A due profile whose trigger answers, the container not being at work for it already,
gets a run of its own, or it is still due and a later step starts it. -/
def Kept (site : Site) (states : ℕ → State) (events : ℕ → Event) (n : ℕ) : Prop :=
  ∀ m now p, events n = .nextProfile m → dueVisit site (states n) = some (now, p) →
    visitAnswer site m now p (states n) ≠ none → ¬ RunsFor p.id (states n) →
    OwnRun p.id (states n) (states (n + 1)) ∨
      StillDue site p.id now (states (n + 1)) ∧
        ∃ k > n, OwnRun p.id (states k) (states (k + 1))

/-! ### Marking a profile -/

theorem getProfile_setLastRun (profiles : List BackupProfile) (id : String) (t : Time) :
    getProfile (setLastRun id t profiles) id =
      (getProfile profiles id).map fun p => { p with lastRun := some t } := by
  simp only [getProfile]
  induction profiles with
  | nil => rfl
  | cons p profiles ih =>
    simp only [setLastRun]
    by_cases hid : p.id = id
    · rw [if_pos hid, List.find?_cons_of_pos (by simp [hid]),
        List.find?_cons_of_pos (by simp [hid])]
      rfl
    · rw [if_neg hid, List.find?_cons_of_neg (by simp [hid]),
        List.find?_cons_of_neg (by simp [hid])]
      exact ih

theorem getProfile_id {profiles : List BackupProfile} {id : String} {p : BackupProfile}
    (h : getProfile profiles id = some p) : p.id = id := by
  simpa using List.find?_some h

theorem profileDue_marked (site : Site) (p : BackupProfile) (now : Time) :
    profileDue site { p with lastRun := some now } now ≠ .yes := by
  simp only [profileDue]
  split
  · rw [if_pos (by rfl)]
    nofun
  · simp only [sub_self, Int.cast_zero]
    split
    · nofun
    · rename_i hhours
      have hpos : 0 < p.hours * 3600 * 1000000 :=
        mul_pos (mul_pos (not_le.mp hhours) (by norm_num)) (by norm_num)
      rw [if_neg (not_le.mpr hpos)]
      nofun

theorem markRun_true {m : Moment} {id : String} {now : Time} {s s' : State}
    (h : markRun m id now s = (s', true)) :
    s.strict ∧ m.mark = .done ∧ s' = { s with profiles := setLastRun id now s.profiles } := by
  simp only [markRun] at h
  split at h
  · rename_i hstrict
    cases hmark : m.mark with
    | done =>
      rw [hmark] at h
      exact ⟨hstrict, rfl, (Prod.mk.inj h).1.symm⟩
    | failed =>
      rw [hmark] at h
      cases h
    | failedAfter =>
      rw [hmark] at h
      cases h
  · cases h

theorem markRun_done {m : Moment} {s : State} (hstrict : s.strict) (hmark : m.mark = .done)
    (id : String) (now : Time) :
    markRun m id now s = ({ s with profiles := setLastRun id now s.profiles }, true) := by
  simp only [markRun]
  rw [if_pos hstrict, hmark]

/-! ### Triggering a profile -/

@[simp] theorem recordStart_runs (m : Moment) (id : String) (started : Bool) (s : State) :
    (recordStart m id started s).runs = s.runs := by
  simp only [recordStart]
  split <;> rfl

@[simp] theorem recordStart_profiles (m : Moment) (id : String) (started : Bool) (s : State) :
    (recordStart m id started s).profiles = s.profiles := by
  simp only [recordStart]
  split <;> rfl

theorem consigneOf_name (site : Site) (p : BackupProfile) :
    (consigneOf site p).name = backupName p.id := rfl

theorem Writes.eq {site : Site} {m : Moment} {id : String} {s : State} {c c' : Consigne}
    (h : Writes site m id s c) (h' : Writes site m id s c') : c = c' := by
  rcases h with ⟨-, -, -, -, p, hp, rfl⟩
  rcases h' with ⟨-, -, -, -, p', hp', rfl⟩
  obtain rfl : p = p' := Option.some.inj (hp.symm.trans hp')
  rfl

theorem Writes.name {site : Site} {m : Moment} {id : String} {s : State} {c : Consigne}
    (h : Writes site m id s c) : c.name = backupName id := by
  rcases h with ⟨-, -, -, -, p, hp, rfl⟩
  rw [consigneOf_name, getProfile_id hp]

theorem reaches_iff {site : Site} {m : Moment} {id : String} {s : State} :
    Reaches site m id s ↔ m.inspects = true ∧ ∃ c, Writes site m id s c := by
  constructor
  · rintro ⟨hrefused, hissues, hwrites, hinspects, p, hp, hvalid⟩
    exact ⟨hinspects, consigneOf site p, hrefused, hissues, hwrites, hvalid, p, hp, rfl⟩
  · rintro ⟨hinspects, _, hrefused, hissues, hwrites, hvalid, p, hp, rfl⟩
    exact ⟨hrefused, hissues, hwrites, hinspects, p, hp, hvalid⟩

theorem trigger_cases (m : Moment) (s : State) :
    ((m.inspects = false ∨ s.running = none ∧ m.start = .failed) ∧ trigger m s = (s, none)) ∨
    (m.inspects = true ∧ s.running.isSome = true ∧ trigger m s = (s, some false)) ∨
    (m.inspects = true ∧ s.running = none ∧
      ((m.start = .done ∧ trigger m s = (startContainer s, some true)) ∨
        (m.start = .failedAfter ∧ trigger m s = (startContainer s, none)))) := by
  simp only [trigger]
  by_cases hinspects : m.inspects = false
  · rw [if_pos hinspects]
    exact .inl ⟨.inl hinspects, rfl⟩
  rw [if_neg hinspects]
  have hinspects : m.inspects = true := by simpa using hinspects
  by_cases hrunning : s.running.isSome = true
  · rw [if_pos hrunning]
    exact .inr (.inl ⟨hinspects, hrunning, rfl⟩)
  rw [if_neg hrunning]
  have hidle : s.running = none := by simpa using hrunning
  cases m.start with
  | done => exact .inr (.inr ⟨hinspects, hidle, .inl ⟨rfl, rfl⟩⟩)
  | failed => exact .inl ⟨.inr ⟨hidle, rfl⟩, rfl⟩
  | failedAfter => exact .inr (.inr ⟨hinspects, hidle, .inr ⟨rfl, rfl⟩⟩)

theorem triggerProfileBackup_of_not_writes {site : Site} {m : Moment} {id : String} {s : State}
    (h : ¬ ∃ c, Writes site m id s c) : triggerProfileBackup site m id s = (s, none) := by
  simp only [triggerProfileBackup]
  by_cases hrefused : refused m = true
  · rw [if_pos hrefused]
  rw [if_neg hrefused]
  cases hp : getProfile s.profiles id with
  | none => rfl
  | some p =>
    simp only
    by_cases hissues : m.workerIssues = true
    · rw [if_pos hissues]
    rw [if_neg hissues]
    simp only [triggerProfile]
    by_cases hfile : (consigneOf site p).valid = false ∨ m.writes = false
    · rw [if_pos hfile]
    · rw [not_or] at hfile
      refine absurd ⟨consigneOf site p, ?_⟩ h
      exact ⟨by simpa using hrefused, by simpa using hissues, by simpa using hfile.2,
        by simpa using hfile.1, p, hp, rfl⟩

theorem triggerProfileBackup_of_writes {site : Site} {m : Moment} {id : String} {s : State}
    {c : Consigne} (h : Writes site m id s c) :
    triggerProfileBackup site m id s =
      match trigger m { s with consigne := some c } with
      | (s, none) => (s, none)
      | (s, some started) => (recordStart m id started s, some started) := by
  rcases h with ⟨hrefused, hissues, hwrites, hvalid, p, hp, rfl⟩
  have hp : getProfile s.profiles id = some p := hp
  simp [triggerProfileBackup, triggerProfile, hrefused, hp, hissues, hvalid, hwrites]

theorem triggerProfileBackup_cases (site : Site) (m : Moment) (id : String) (s : State) :
    ((¬ ∃ c, Writes site m id s c) ∧ triggerProfileBackup site m id s = (s, none)) ∨
    ∃ c, Writes site m id s c ∧
      (((m.inspects = false ∨ s.running = none ∧ m.start = .failed) ∧
          triggerProfileBackup site m id s = ({ s with consigne := some c }, none)) ∨
        (m.inspects = true ∧ s.running.isSome = true ∧
          triggerProfileBackup site m id s =
            (recordStart m id false { s with consigne := some c }, some false)) ∨
        (m.inspects = true ∧ s.running = none ∧
          ((m.start = .done ∧ triggerProfileBackup site m id s =
              (recordStart m id true (startContainer { s with consigne := some c }), some true)) ∨
            (m.start = .failedAfter ∧ triggerProfileBackup site m id s =
              (startContainer { s with consigne := some c }, none))))) := by
  by_cases h : ∃ c, Writes site m id s c
  · rcases h with ⟨c, hwrites⟩
    refine .inr ⟨c, hwrites, ?_⟩
    rw [triggerProfileBackup_of_writes hwrites]
    rcases trigger_cases m { s with consigne := some c } with
      ⟨hfails, htrigger⟩ | ⟨hinspects, hrunning, htrigger⟩ |
        ⟨hinspects, hidle, ⟨hstart, htrigger⟩ | ⟨hstart, htrigger⟩⟩
    · rw [htrigger]
      exact .inl ⟨hfails, rfl⟩
    · rw [htrigger]
      exact .inr (.inl ⟨hinspects, hrunning, rfl⟩)
    · rw [htrigger]
      exact .inr (.inr ⟨hinspects, hidle, .inl ⟨hstart, rfl⟩⟩)
    · rw [htrigger]
      exact .inr (.inr ⟨hinspects, hidle, .inr ⟨hstart, rfl⟩⟩)
  · exact .inl ⟨h, triggerProfileBackup_of_not_writes h⟩

theorem reaches_of_answer {site : Site} {m : Moment} {id : String} {s : State}
    (h : (triggerProfileBackup site m id s).2 ≠ none) : Reaches site m id s := by
  rw [reaches_iff]
  rcases triggerProfileBackup_cases site m id s with
    ⟨-, hstep⟩ | ⟨c, hwrites, ⟨-, hstep⟩ | ⟨hinspects, -⟩ | ⟨hinspects, -⟩⟩
  · rw [hstep] at h
    exact absurd rfl h
  · rw [hstep] at h
    exact absurd rfl h
  · exact ⟨hinspects, c, hwrites⟩
  · exact ⟨hinspects, c, hwrites⟩

theorem trigger_busy {site : Site} {m : Moment} {id : String} {s : State}
    (h : Reaches site m id s) (hrunning : s.running.isSome) :
    (triggerProfileBackup site m id s).2 = some false ∧
      (triggerProfileBackup site m id s).1.runs = s.runs ∧
      (triggerProfileBackup site m id s).1.profiles = s.profiles := by
  rcases reaches_iff.mp h with ⟨hinspects, c, hwrites⟩
  rw [triggerProfileBackup_of_writes hwrites]
  simp [trigger, hinspects, hrunning]

theorem trigger_idle {site : Site} {m : Moment} {id : String} {s : State}
    (h : (triggerProfileBackup site m id s).2 ≠ none) (hrunning : s.running = none) :
    OwnRun id s (triggerProfileBackup site m id s).1 := by
  rcases triggerProfileBackup_cases site m id s with
    ⟨-, hstep⟩ | ⟨c, hwrites, ⟨-, hstep⟩ | ⟨-, hbusy, -⟩ | ⟨-, -, ⟨-, hstep⟩ | ⟨-, hstep⟩⟩⟩
  · rw [hstep] at h
    exact absurd rfl h
  · rw [hstep] at h
    exact absurd rfl h
  · rw [hrunning] at hbusy
    cases hbusy
  · rw [hstep]
    exact ⟨c, hwrites.name, recordStart_runs m id true _⟩
  · rw [hstep] at h
    exact absurd rfl h

/-! ### The visit of a due profile -/

theorem dueVisit_eq_some {site : Site} {s : State} {now : Time} {p : BackupProfile}
    (h : dueVisit site s = some (now, p)) :
    ∃ rest, s.tick = some (now, p :: rest) ∧ p.enabled = true ∧ profileDue site p now = .yes := by
  simp only [dueVisit] at h
  split at h
  · rename_i now' p' rest htick
    split at h
    · rename_i hdue
      cases h
      exact ⟨rest, htick, hdue⟩
    · cases h
  · cases h

def State.marked (s : State) (id : String) (now : Time) : State :=
  { s.advanced with profiles := setLastRun id now s.profiles }

theorem reaches_marked {site : Site} {m : Moment} {id : String} {s : State} (now : Time) :
    Reaches site m id (s.marked id now) ↔ Reaches site m id s := by
  unfold Reaches State.marked
  simp only [getProfile_setLastRun, Option.mem_def, Option.map_eq_some_iff]
  constructor
  · rintro ⟨hrefused, hissues, hwrites, hinspects, _, ⟨p, hp, rfl⟩, hvalid⟩
    exact ⟨hrefused, hissues, hwrites, hinspects, p, hp, hvalid⟩
  · rintro ⟨hrefused, hissues, hwrites, hinspects, p, hp, hvalid⟩
    exact ⟨hrefused, hissues, hwrites, hinspects, _, ⟨p, hp, rfl⟩, hvalid⟩

theorem markRun_advanced {m : Moment} {s : State} (hstrict : s.strict) (hmark : m.mark = .done)
    (id : String) (now : Time) : markRun m id now s.advanced = (s.marked id now, true) :=
  markRun_done (s := s.advanced) hstrict hmark id now

theorem visitAnswer_ne_none {site : Site} {m : Moment} {now : Time} {p : BackupProfile}
    {s : State} (h : visitAnswer site m now p s ≠ none) : s.strict ∧ m.mark = .done := by
  simp only [visitAnswer] at h
  split at h
  · rename_i s' hmark
    rcases markRun_true hmark with ⟨hstrict, hdone, -⟩
    exact ⟨hstrict, hdone⟩
  · exact absurd rfl h

theorem visitAnswer_eq {site : Site} {m : Moment} {s : State} (now : Time) (p : BackupProfile)
    (hstrict : s.strict) (hmark : m.mark = .done) :
    visitAnswer site m now p s = (triggerProfileBackup site m p.id (s.marked p.id now)).2 := by
  simp only [visitAnswer]
  rw [markRun_advanced hstrict hmark]

theorem step_dueVisit {site : Site} {m : Moment} {s : State} {now : Time} {p : BackupProfile}
    (hdue : dueVisit site s = some (now, p)) (hstrict : s.strict) (hmark : m.mark = .done) :
    step site s (.nextProfile m) = (triggerProfileBackup site m p.id (s.marked p.id now)).1 := by
  rcases dueVisit_eq_some hdue with ⟨rest, htick, henabled, hyes⟩
  simp [step, nextProfile, htick, visit, henabled, hyes, markRun_advanced hstrict hmark]

theorem ownRun_of_idle {site : Site} {m : Moment} {s : State} {now : Time} {p : BackupProfile}
    (hdue : dueVisit site s = some (now, p)) (hanswer : visitAnswer site m now p s ≠ none)
    (hidle : s.running = none) : OwnRun p.id s (step site s (.nextProfile m)) := by
  rcases visitAnswer_ne_none hanswer with ⟨hstrict, hmark⟩
  rw [visitAnswer_eq now p hstrict hmark] at hanswer
  rw [step_dueVisit hdue hstrict hmark]
  exact trigger_idle hanswer hidle

theorem consumed_of_collides {site : Site} {m : Moment} {s : State}
    (h : Collides site s (.nextProfile m)) :
    ∃ now p, dueVisit site s = some (now, p) ∧ visitAnswer site m now p s ≠ none ∧
      ¬ RunsFor p.id s ∧ ¬ OwnRun p.id s (step site s (.nextProfile m)) ∧
      ¬ StillDue site p.id now (step site s (.nextProfile m)) := by
  rcases h with ⟨now, p, hdue, hstrict, hmark, hreaches, c, hc, hother⟩
  have hrunning : s.running = some c := hc
  obtain ⟨hanswer, hruns, hprofiles⟩ :=
    trigger_busy ((reaches_marked now).mpr hreaches) (s := s.marked p.id now)
      (Option.isSome_iff_exists.mpr ⟨c, hrunning⟩)
  refine ⟨now, p, hdue, ?_, ?_, ?_, ?_⟩
  · rw [visitAnswer_eq now p hstrict hmark, hanswer]
    nofun
  · rintro ⟨c', hc', hname⟩
    rw [hrunning] at hc'
    obtain rfl := Option.some.inj hc'
    exact hother hname
  · rintro ⟨c', -, hruns'⟩
    rw [step_dueVisit hdue hstrict hmark, hruns] at hruns'
    exact absurd hruns' (by simp [State.marked, State.advanced])
  · rintro ⟨q, hq, hyes⟩
    rw [step_dueVisit hdue hstrict hmark, hprofiles] at hq
    have hq' : getProfile (setLastRun p.id now s.profiles) p.id = some q := hq
    rw [getProfile_setLastRun, Option.map_eq_some_iff] at hq'
    rcases hq' with ⟨q', -, rfl⟩
    exact profileDue_marked site q' now hyes

/-! ### Whole runs -/

/-- No scheduled backup is consumed without running, exactly when no due profile meets
the container at work for another one. -/
theorem scheduled_backups_kept_iff (site : Site) (s : State) (events : ℕ → Event) :
    (∀ n, Kept site (trace (step site) s events) events n) ↔
      ∀ n, ¬ Collides site (trace (step site) s events n) (events n) := by
  constructor
  · intro hkept n hcollides
    cases hevent : events n with
    | nextProfile m =>
      rw [hevent] at hcollides
      rcases consumed_of_collides hcollides with ⟨now, p, hdue, hanswer, hother, hown, hdue'⟩
      have hnext : trace (step site) s events (n + 1) =
          step site (trace (step site) s events n) (.nextProfile m) := by
        rw [trace, hevent]
      rcases hkept n m now p hevent hdue hanswer hother with h | ⟨h, -⟩
      · rw [hnext] at h
        exact hown h
      · rw [hnext] at h
        exact hdue' h
    | _ =>
      rw [hevent] at hcollides
      exact hcollides
  · intro hfree n m now p hevent hdue hanswer hother
    left
    have hnext : trace (step site) s events (n + 1) =
        step site (trace (step site) s events n) (.nextProfile m) := by
      rw [trace, hevent]
    rw [hnext]
    apply ownRun_of_idle hdue hanswer
    -- the container is at work neither for the profile nor for another one
    cases hrunning : (trace (step site) s events n).running with
    | none => rfl
    | some c =>
      exfalso
      rcases visitAnswer_ne_none hanswer with ⟨hstrict, hmark⟩
      have hreaches := hanswer
      rw [visitAnswer_eq now p hstrict hmark] at hreaches
      apply hfree n
      rw [hevent]
      refine ⟨now, p, hdue, hstrict, hmark, (reaches_marked now).mp (reaches_of_answer hreaches),
        c, hrunning, fun hname => hother ⟨c, hrunning, hname⟩⟩

def worldProfile : BackupProfile where
  id := "monde"
  name := "Monde"
  included := ["world"]
  dest := "profiles/monde"
  dailyAt := some (.at 4 0)

def modsProfile : BackupProfile where
  id := "mods"
  name := "Mods"
  included := ["mods"]
  dest := "profiles/mods"
  dailyAt := some (.at 4 0)

def utc : Site where
  worldDir := "world"
  zone _ := 0

def tickAtHalfPastFour : ℕ → Event
  | 0 => .beginTick { now := 16200000000 }
  | 1 => .nextProfile {}
  | 2 => .nextProfile {}
  | _ => .ended

/-- Of two profiles due at the same tick the second is marked and never started. -/
theorem second_profile_skipped :
    ¬ ∀ (site : Site) (s : State) (events : ℕ → Event) (n : ℕ),
      Kept site (trace (step site) s events) events n := by
  intro h
  have hkept := h utc { profiles := [worldProfile, modsProfile] } tickAtHalfPastFour 2 {}
    16200000000 modsProfile rfl (by decide +kernel) (by decide +kernel) (by decide +kernel)
  rcases hkept with ⟨c, -, hruns⟩ | ⟨hdue, -⟩
  · have hlength := congrArg List.length hruns
    rw [List.length_append, List.length_singleton] at hlength
    exact absurd hlength (by decide +kernel)
  · exact absurd hdue (by decide +kernel)

end BackupProfiles
