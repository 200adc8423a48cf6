import McAdmin.Doorman
import McAdmin.RestoreGate

/-!
# What cannot be read refuses

`restore_backup` and `apply_app_update` ask the adapters which containers run before
they start anything.  An adapter answers, or raises, and the service takes an exception
for a reason to refuse; whether an error of Docker becomes an exception is up to the
adapter.
-/

namespace FailClosed

open Doorman (Status Reading Lookup Error DockerDoorman.isRunning)
open RestoreGate (Phase BackupArchive ArchiveCheck Listing archiveClear)

/-! ### The adapters -/

/-- A port of the service: not given, standing for nothing that runs, or bound to a
container. -/
inductive Port where
  | absent
  | notConfigured
  | docker (lookup : Lookup)

/-- Which answer a read of the container's status gets when it gets one: `DockerRestoreTrigger`
and `DockerBackupTrigger` raise when there is none. -/
def Port.isRunning : Port → Except Error Bool
  | .absent => .error .failure
  | .notConfigured => .ok false
  | .docker l => l.container.map (· = .running)

/-- The port of the doorman, where errors of Docker count as "not running". -/
def Port.doormanRunning : Port → Except Error Bool
  | .absent => .error .failure
  | .notConfigured => .ok false
  | .docker l => DockerDoorman.isRunning l

/-- The read gets no answer about the container: it is not even said not to exist. -/
def Port.fails : Port → Bool
  | .docker l => !l.container.isOk && l.reading ≠ .notFound
  | _ => false

def Port.idle : Port → Bool
  | .absent => false
  | .notConfigured => true
  | .docker l =>
    match l.container with
    | .ok status => status ≠ .running
    | .error _ => false

def Port.unanswered : Port → Bool
  | .docker l => l.reading = .failed
  | _ => false

def Port.isAbsent : Port → Bool
  | .absent => true
  | _ => false

/-! ### The restore -/

inductive Issue where
  | restoreInProgress
  | noCoordinator
  | restorePending
  | noRestoreContainer
  | restoreRunning
  | noValidator
  | maintenance
  | maintenanceUnreadable
  | maintenanceAnnounced
  | archive
  | safetyBackupRunning
  | profileBackupRunning
  | worker (issue : String)
deriving DecidableEq

/-- What `restore_backup` meets. -/
structure Request where
  filename : String
  pathFound : Bool := true
  operation : Option Phase := none
  /-- Whether a restore is pending, when there is a coordinator. -/
  pending : Option Bool := some false
  restore : Port
  validator : Bool := true
  doorman : Port
  /-- A closure is announced. -/
  announced : Bool := false
  listed : Listing
  checks : Option (Dict String ArchiveCheck)
  safety : Port
  profile : Port
  /-- What the check of the workers finds, `none` when it raises. -/
  workers : Option (List String) := some []
  /-- The journal takes the request. -/
  journals : Bool := true
  listedBefore : Listing := some []
  /-- The safety backup starts. -/
  starts : Bool := true

def when (condition : Bool) (issue : Issue) : List Issue := if condition then [issue] else []

def active (operation : Option Phase) : Bool := operation.any (!·.isFinal)

/-- The issues about the worker's container; its read may raise. -/
def restoreIssues (restore : Port) : Except Error (List Issue) :=
  match restore with
  | .absent => .ok [.noRestoreContainer]
  | _ => restore.isRunning.map (when · .restoreRunning)

def doormanIssues (doorman : Port) : List Issue :=
  match doorman with
  | .absent => []
  | _ =>
    match doorman.doormanRunning with
    | .ok running => when running .maintenance
    | .error _ => [.maintenanceUnreadable]

def pendingIssues : Option Bool → List Issue
  | none => [.noCoordinator]
  | some pending => when pending .restorePending

def profileIssues (profile : Port) : Except Error (List Issue) :=
  match profile with
  | .absent => .ok []
  | _ => profile.isRunning.map (when · .profileBackupRunning)

def workerIssues : Option (List String) → Except Error (List Issue)
  | none => .error .failure
  | some issues => .ok (issues.map .worker)

def restorePreflightIssues (r : Request) : Except Error (List Issue) := do
  let restore ← restoreIssues r.restore
  let safety ← r.safety.isRunning
  let profile ← profileIssues r.profile
  let workers ← workerIssues r.workers
  return when (active r.operation) .restoreInProgress ++ pendingIssues r.pending ++ restore ++
    when (!r.validator) .noValidator ++ doormanIssues r.doorman ++
    when r.announced .maintenanceAnnounced ++
    when (!archiveClear r.listed r.pathFound r.checks r.filename) .archive ++
    when safety .safetyBackupRunning ++ profile ++ workers

inductive Refusal where
  | archiveNotFound
  | unreadable (error : Error)
  | preflight (issues : List Issue)
  | failed
deriving DecidableEq

/-- A call of `restore_backup`: whether the safety backup is triggered, and the refusal. -/
structure Attempt where
  triggered : Bool := false
  refusal : Option Refusal := none
deriving DecidableEq

def restoreBackup (r : Request) : Attempt :=
  if r.pathFound = false then { refusal := some .archiveNotFound }
  else match restorePreflightIssues r with
    | .error e => { refusal := some (.unreadable e) }
    | .ok (issue :: issues) => { refusal := some (.preflight (issue :: issues)) }
    | .ok [] =>
      if r.journals = false ∨ r.listedBefore.isNone then { refusal := some .failed }
      else { triggered := true, refusal := if r.starts then none else some .failed }

/-! ### The update of the application -/

/-- What `apply_app_update` meets. -/
structure Update where
  /-- The caller may update, a newer version is known, and the installation can take it. -/
  applicable : Bool := true
  pending : Option Bool := some false
  operation : Option Phase := none
  restore : Port
  doorman : Port
  profile : Port
  /-- The updater's container starts. -/
  starts : Bool := true

/-- `_restore_in_progress`: what cannot be read is in progress. -/
def restoreInProgress (u : Update) : Bool :=
  if u.pending = some true then true
  else if active u.operation then true
  else match u.restore with
    | .absent => false
    | _ =>
      match u.restore.isRunning with
      | .ok running => running
      | .error _ => true

def doormanEngagedOrUnknown (doorman : Port) : Bool :=
  match doorman.doormanRunning with
  | .ok running => running
  | .error _ => true

def profileBusy (profile : Port) : Bool :=
  match profile with
  | .absent => false
  | _ =>
    match profile.isRunning with
    | .ok running => running
    | .error _ => true

def busy (u : Update) : Bool :=
  if restoreInProgress u then true
  else match u.doorman with
    | .absent => profileBusy u.profile
    | _ => doormanEngagedOrUnknown u.doorman || profileBusy u.profile

/-- Whether the updater is called, and whether it starts. -/
def applyAppUpdate (u : Update) : Attempt :=
  if u.applicable = false then { refusal := some .failed }
  else if busy u then { refusal := some .failed }
  else { triggered := true, refusal := if u.starts then none else some .failed }

/-! ### Closed on failure -/

/-- A read that fails refuses the restore before its safety backup. -/
def RestoreFailsClosed (r : Request) : Prop :=
  (r.doorman.fails || r.restore.fails || r.safety.fails || r.profile.fails) = true →
    (restoreBackup r).triggered = false ∧ (restoreBackup r).refusal ≠ none

/-- A read that fails refuses the update before its updater. -/
def UpdateFailsClosed (u : Update) : Prop :=
  (u.restore.fails || u.doorman.fails || u.profile.fails) = true →
    (applyAppUpdate u).triggered = false ∧ (applyAppUpdate u).refusal ≠ none

/-- Every check of the preflight but that of the doorman passes. -/
structure RestorePasses (r : Request) : Prop where
  pathFound : r.pathFound = true
  operation : active r.operation = false
  pending : r.pending = some false
  restore : r.restore.idle = true
  validator : r.validator = true
  announced : r.announced = false
  archive : archiveClear r.listed r.pathFound r.checks r.filename = true
  safety : r.safety.idle = true
  profile : (r.profile.isAbsent || r.profile.idle) = true
  workers : r.workers = some []
  journals : r.journals = true
  listedBefore : r.listedBefore.isSome = true

structure UpdatePasses (u : Update) : Prop where
  applicable : u.applicable = true
  pending : u.pending ≠ some true
  operation : active u.operation = false
  restore : (u.restore.isAbsent || u.restore.idle) = true
  profile : (u.profile.isAbsent || u.profile.idle) = true

theorem when_eq_nil {condition : Bool} {issue : Issue} :
    when condition issue = [] ↔ condition = false := by
  cases condition <;> simp [when]

theorem isRunning_eq_false {port : Port} : port.isRunning = .ok false ↔ port.idle = true := by
  cases port with
  | absent => simp [Port.isRunning, Port.idle]
  | notConfigured => simp [Port.isRunning, Port.idle]
  | docker l =>
    simp only [Port.isRunning, Port.idle]
    cases l.container <;> simp [Except.map]

theorem restoreIssues_eq_nil {port : Port} :
    restoreIssues port = .ok [] ↔ port.idle = true := by
  rw [← isRunning_eq_false]
  cases port with
  | absent => simp [restoreIssues, Port.isRunning]
  | notConfigured => simp [restoreIssues, Port.isRunning, Except.map, when]
  | docker l =>
    simp only [restoreIssues, Port.isRunning]
    cases l.container <;> simp [Except.map, when_eq_nil]

theorem profileIssues_eq_nil {port : Port} :
    profileIssues port = .ok [] ↔ (port.isAbsent || port.idle) = true := by
  cases port with
  | absent => simp [profileIssues, Port.isAbsent]
  | notConfigured => simp [profileIssues, Port.isRunning, Except.map, when, Port.isAbsent, Port.idle]
  | docker l =>
    simp only [profileIssues, Port.isRunning, Port.isAbsent, Port.idle]
    cases l.container <;> simp [Except.map, when_eq_nil]

theorem pendingIssues_eq_nil {pending : Option Bool} :
    pendingIssues pending = [] ↔ pending = some false := by
  cases pending with
  | none => simp [pendingIssues]
  | some pending => simp [pendingIssues, when_eq_nil]

theorem workerIssues_eq_nil {workers : Option (List String)} :
    workerIssues workers = .ok [] ↔ workers = some [] := by
  cases workers <;> simp [workerIssues]

theorem restorePreflightIssues_eq_nil {r : Request} :
    restorePreflightIssues r = .ok [] ↔
      restoreIssues r.restore = .ok [] ∧ r.safety.isRunning = .ok false ∧
        profileIssues r.profile = .ok [] ∧ workerIssues r.workers = .ok [] ∧
        active r.operation = false ∧ pendingIssues r.pending = [] ∧ r.validator = true ∧
        doormanIssues r.doorman = [] ∧ r.announced = false ∧
        archiveClear r.listed r.pathFound r.checks r.filename = true := by
  simp only [restorePreflightIssues]
  cases restoreIssues r.restore with
  | error e => simp [bind, Except.bind]
  | ok restore =>
    cases r.safety.isRunning with
    | error e => simp [bind, Except.bind]
    | ok safety =>
      cases profileIssues r.profile with
      | error e => simp [bind, Except.bind]
      | ok profile =>
        cases workerIssues r.workers with
        | error e => simp [bind, Except.bind]
        | ok workers =>
          simp only [bind, Except.bind, pure, Except.pure, Except.ok.injEq,
            List.append_eq_nil_iff, when_eq_nil, Bool.not_eq_false']
          tauto

theorem Port.doormanRunning_of_fails {port : Port} (h : port.fails = true) :
    port.doormanRunning = if port.unanswered then .ok false else .error .unauthorized := by
  cases port with
  | absent => cases h
  | notConfigured => cases h
  | docker l =>
    rcases l with ⟨reading, named⟩
    cases reading with
    | notFound => simp [Port.fails] at h
    | failed => rfl
    | status status =>
      cases named with
      | true => simp [Port.fails] at h
      | false => rfl

theorem doormanIssues_eq_nil {port : Port} (h : port.fails = true) :
    doormanIssues port = [] ↔ port.unanswered = true := by
  have hrunning := Port.doormanRunning_of_fails h
  cases port with
  | absent => cases h
  | notConfigured => cases h
  | docker l =>
    simp only [doormanIssues, hrunning]
    cases (Port.docker l).unanswered <;> simp [when]

theorem doormanEngagedOrUnknown_eq_false {port : Port} (h : port.fails = true) :
    doormanEngagedOrUnknown port = false ↔ port.unanswered = true := by
  simp only [doormanEngagedOrUnknown, Port.doormanRunning_of_fails h]
  cases port.unanswered <;> simp

theorem Port.fails_of_unanswered {port : Port} (h : port.unanswered = true) :
    port.fails = true := by
  cases port with
  | absent => cases h
  | notConfigured => cases h
  | docker l =>
    have hfailed : l.reading = .failed := of_decide_eq_true h
    simp [fails, Lookup.container, hfailed]

theorem Port.not_fails_of_idle {port : Port} (h : (port.isAbsent || port.idle) = true) :
    port.fails = false := by
  cases port with
  | absent => rfl
  | notConfigured => rfl
  | docker l =>
    simp only [isAbsent, idle, fails, Bool.false_or] at h ⊢
    cases hcontainer : l.container with
    | ok status => simp
    | error e => simp [hcontainer] at h

/-! ### A restore on states that cannot be read -/

theorem restoreBackup_refused {r : Request} (h : (restoreBackup r).triggered = false) :
    (restoreBackup r).refusal ≠ none := by
  simp only [restoreBackup] at h ⊢
  split at h
  · rename_i hpath
    rw [if_pos hpath]
    nofun
  · rename_i hpath
    rw [if_neg hpath]
    split <;> rename_i hissues
    · nofun
    · nofun
    · simp only [hissues] at h
      split at h
      · rename_i hlost
        rw [if_pos hlost]
        nofun
      · cases h

theorem restoreBackup_triggered_iff {r : Request} :
    (restoreBackup r).triggered = true ↔
      RestorePasses r ∧ doormanIssues r.doorman = [] := by
  have hnil := @restorePreflightIssues_eq_nil r
  rw [restoreIssues_eq_nil, isRunning_eq_false, profileIssues_eq_nil, workerIssues_eq_nil,
    pendingIssues_eq_nil] at hnil
  constructor
  · intro h
    simp only [restoreBackup] at h
    split at h
    · cases h
    · rename_i hpath
      split at h
      · cases h
      · cases h
      · rename_i hissues
        split at h
        · cases h
        · rename_i hlost
          rcases hnil.mp hissues with
            ⟨hrestore, hsafety, hprofile, hworkers, hoperation, hpending, hvalidator, hdoorman,
              hannounced, harchive⟩
          simp only [not_or, Bool.not_eq_false, Option.isNone_iff_eq_none] at hlost hpath
          exact ⟨⟨hpath, hoperation, hpending, hrestore, hvalidator, hannounced, harchive, hsafety,
            hprofile, hworkers, hlost.1, Option.isSome_iff_ne_none.mpr hlost.2⟩, hdoorman⟩
  · rintro ⟨h, hdoorman⟩
    have hissues := hnil.mpr ⟨h.restore, h.safety, h.profile, h.workers, h.operation, h.pending,
      h.validator, hdoorman, h.announced, h.archive⟩
    have hlisted : r.listedBefore.isNone = false := by
      rw [← Option.not_isSome, h.listedBefore]
      rfl
    simp [restoreBackup, h.pathFound, hissues, h.journals, hlisted]

theorem restoreFailsClosed_iff (r : Request) :
    RestoreFailsClosed r ↔ ¬ (r.doorman.unanswered = true ∧ RestorePasses r) := by
  constructor
  · rintro h ⟨hunanswered, hpasses⟩
    have hfails := Port.fails_of_unanswered hunanswered
    have hclosed := (h (by simp [hfails])).1
    have htriggered := restoreBackup_triggered_iff.mpr
      ⟨hpasses, (doormanIssues_eq_nil hfails).mpr hunanswered⟩
    rw [hclosed] at htriggered
    cases htriggered
  · intro h hfails
    have hclosed : (restoreBackup r).triggered = false := by
      rw [Bool.eq_false_iff]
      intro htriggered
      rcases restoreBackup_triggered_iff.mp htriggered with ⟨hpasses, hdoorman⟩
      have hrestore : r.restore.fails = false :=
        Port.not_fails_of_idle (by simp [hpasses.restore])
      have hsafety : r.safety.fails = false := Port.not_fails_of_idle (by simp [hpasses.safety])
      have hprofile := Port.not_fails_of_idle hpasses.profile
      have hfailing : r.doorman.fails = true := by
        simpa [hrestore, hsafety, hprofile] using hfails
      exact h ⟨(doormanIssues_eq_nil hfailing).mp hdoorman, hpasses⟩
    exact ⟨hclosed, restoreBackup_refused hclosed⟩

/-! ### An update on states that cannot be read -/

theorem applyAppUpdate_refused {u : Update} (h : (applyAppUpdate u).triggered = false) :
    (applyAppUpdate u).refusal ≠ none := by
  simp only [applyAppUpdate] at h ⊢
  split at h
  · rename_i hinapplicable
    rw [if_pos hinapplicable]
    nofun
  · rename_i happlicable
    rw [if_neg happlicable]
    split at h
    · rename_i hbusy
      rw [if_pos hbusy]
      nofun
    · cases h

theorem restoreInProgress_eq_false {u : Update} :
    restoreInProgress u = false ↔ u.pending ≠ some true ∧ active u.operation = false ∧
      (u.restore.isAbsent || u.restore.idle) = true := by
  simp only [restoreInProgress]
  by_cases hpending : u.pending = some true
  · simp [hpending]
  · rw [if_neg hpending]
    by_cases hactive : active u.operation = true
    · simp [hactive]
    · rw [if_neg hactive]
      have hidle := @isRunning_eq_false u.restore
      cases hrestore : u.restore with
      | absent => simpa [hpending, Port.isAbsent] using hactive
      | notConfigured => simpa [hpending, Port.isRunning, Port.idle] using hactive
      | docker l =>
        rw [hrestore] at hidle
        simp only [Port.isAbsent, Bool.false_or, ← hidle]
        cases (Port.docker l).isRunning with
        | error e => simp
        | ok running => simpa [hpending] using fun _ => Bool.eq_false_iff.mpr hactive

theorem profileBusy_eq_false {port : Port} :
    profileBusy port = false ↔ (port.isAbsent || port.idle) = true := by
  have hidle := @isRunning_eq_false port
  cases port with
  | absent => simp [profileBusy, Port.isAbsent]
  | notConfigured => simp [profileBusy, Port.isRunning, Port.isAbsent, Port.idle]
  | docker l =>
    simp only [profileBusy, Port.isAbsent, Bool.false_or, ← hidle]
    cases (Port.docker l).isRunning <;> simp

theorem applyAppUpdate_triggered_iff {u : Update} :
    (applyAppUpdate u).triggered = true ↔ UpdatePasses u ∧
      (u.doorman.isAbsent = true ∨ doormanEngagedOrUnknown u.doorman = false) := by
  have hbusy : busy u = false ↔ restoreInProgress u = false ∧ profileBusy u.profile = false ∧
      (u.doorman.isAbsent = true ∨ doormanEngagedOrUnknown u.doorman = false) := by
    simp only [busy]
    cases restoreInProgress u with
    | true => simp
    | false =>
      cases u.doorman with
      | absent => simp [Port.isAbsent]
      | notConfigured => simp [Port.isAbsent, and_comm]
      | docker l => simp [Port.isAbsent, and_comm]
  rw [restoreInProgress_eq_false, profileBusy_eq_false] at hbusy
  constructor
  · intro h
    simp only [applyAppUpdate] at h
    split at h
    · cases h
    · rename_i happlicable
      split at h
      · cases h
      · rename_i hfree
        rcases hbusy.mp (Bool.eq_false_iff.mpr hfree) with
          ⟨⟨hpending, hoperation, hrestore⟩, hprofile, hdoorman⟩
        exact ⟨⟨by simpa using happlicable, hpending, hoperation, hrestore, hprofile⟩, hdoorman⟩
  · rintro ⟨h, hdoorman⟩
    have hfree := hbusy.mpr ⟨⟨h.pending, h.operation, h.restore⟩, h.profile, hdoorman⟩
    simp [applyAppUpdate, h.applicable, hfree]

theorem updateFailsClosed_iff (u : Update) :
    UpdateFailsClosed u ↔ ¬ (u.doorman.unanswered = true ∧ UpdatePasses u) := by
  constructor
  · rintro h ⟨hunanswered, hpasses⟩
    have hfails := Port.fails_of_unanswered hunanswered
    have hclosed := (h (by simp [hfails])).1
    have htriggered := applyAppUpdate_triggered_iff.mpr
      ⟨hpasses, .inr ((doormanEngagedOrUnknown_eq_false hfails).mpr hunanswered)⟩
    rw [hclosed] at htriggered
    cases htriggered
  · intro h hfails
    have hclosed : (applyAppUpdate u).triggered = false := by
      rw [Bool.eq_false_iff]
      intro htriggered
      rcases applyAppUpdate_triggered_iff.mp htriggered with ⟨hpasses, hdoorman⟩
      have hrestore := Port.not_fails_of_idle hpasses.restore
      have hprofile := Port.not_fails_of_idle hpasses.profile
      have hfailing : u.doorman.fails = true := by
        simpa [hrestore, hprofile] using hfails
      rcases hdoorman with habsent | hfree
      · rw [Port.not_fails_of_idle (by simp [habsent])] at hfailing
        cases hfailing
      · exact h ⟨(doormanEngagedOrUnknown_eq_false hfailing).mp hfree, hpasses⟩
    exact ⟨hclosed, applyAppUpdate_refused hclosed⟩

/-- Both calls are closed on failure except where Docker does not answer about the doorman
and everything else passes. -/
theorem failsClosed_iff (r : Request) (u : Update) :
    (RestoreFailsClosed r ∧ UpdateFailsClosed u) ↔
      ¬ (r.doorman.unanswered = true ∧ RestorePasses r) ∧
      ¬ (u.doorman.unanswered = true ∧ UpdatePasses u) := by
  rw [restoreFailsClosed_iff, updateFailsClosed_iff]

def silent : Port := .docker ⟨.failed, true⟩

def stopped : Port := .docker ⟨.status .exited, true⟩

def world : BackupArchive := ⟨"world.tar.gz", 10, 0⟩

/-- Everything answers but the doorman: the restore is accepted. -/
theorem restore_accepted_on_silence :
    ¬ ∀ (r : Request) (u : Update), RestoreFailsClosed r ∧ UpdateFailsClosed u := by
  intro h
  have hclosed := (h
    { filename := "world.tar.gz", restore := stopped, doorman := silent, listed := some [world],
      checks := some (AList.singleton "world.tar.gz" ⟨"world.tar.gz", 10, 0, true, some true⟩),
      safety := stopped, profile := stopped }
    { restore := stopped, doorman := stopped, profile := stopped }).1
  exact absurd (hclosed (by decide)).1 (by decide +kernel)

end FailClosed
