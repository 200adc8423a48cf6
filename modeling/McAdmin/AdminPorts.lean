import Mathlib.Data.Rat.Floor
import McAdmin.BackupProfiles
import McAdmin.Dict
import McAdmin.ProfileSchedule
import McAdmin.ServiceCore

/-!
# The ports of the service

What the operations on the server call: the clock and the journal, the ports, and the attributes
that the requests and the background threads share.  Every access to an attribute is a call of its
own; a section under `_op_levels_lock` is one.  `_backup_restore_lock` is left out, which only adds
runs.
-/

namespace AdminService

open Backtracking (Text)
open Calls IntText McAdmin ServiceCore

/-! ### Errors -/

inductive ErrorClass where
  | serverUnavailable | updateBlocked | updateUnavailable | backupUnavailable
  | backupArchiveNotFound | restoreUnavailable | maintenanceUnavailable | opLevelsUnavailable
  | invalidDuration | invalidGameValue
  /-- `ValueError`, `OverflowError` and all that is not of the domain. -/
  | other
deriving DecidableEq, Repr

/-- An exception, with its `str`. -/
structure Failure where
  errorClass : ErrorClass
  message : String
deriving DecidableEq, Repr

abbrev Error := Raised Failure Failure

def Error.str : Error → String
  | .fault f => f.message
  | .refused f => f.message
  | .permissionDenied username permission =>
    s!"user '{username}' n'a pas la permission {permission}"

def Error.isA (c : ErrorClass) : Error → Bool
  | .fault f => f.errorClass == c
  | .refused f => f.errorClass == c
  | .permissionDenied .. => false

/-! ### Data -/

abbrev Instant := ℚ

structure ScheduledRestart where
  restartAt : Instant
  scheduledBy : String
  deferIfPlayers : Bool
deriving DecidableEq, Repr

structure RecurringRestart where
  timeHhmm : String
  leadSeconds : ℤ
  deferIfPlayers : Bool
deriving DecidableEq, Repr

structure PendingMaintenance where
  engageAt : Instant
  requestedBy : String
  motd : String
  kick : String
  operationId : String
  deferIfPlayers : Bool
deriving DecidableEq, Repr

structure ScheduledMaintenance where
  id : String
  kind : String
  timeHhmm : String
  date : String
  weekdays : List ℤ
  leadSeconds : ℤ
  message : String
  until_ : String
  deferIfPlayers : Bool
deriving DecidableEq, Repr

structure PendingRestore where
  filename : String
  requestedBy : String
  deadline : Instant
  operationId : String
  safetyArchivesBefore : List String
deriving DecidableEq, Repr

structure RestoreOperation where
  filename : String
  requestedBy : String
  phase : String
  startedAt : Instant
  deadline : Instant
  message : String
  completedAt : Option Instant := none
  operationId : String
deriving DecidableEq, Repr

structure BackupProfile where
  id : String
  name : String
  include_ : List String
  dest : String
  hours : ProfileSchedule.Hours
  dailyAt : Option String
  retentionDailyDays : ℤ
  retentionMonthlyMonths : ℤ
  enabled : Bool
  lastRun : Option Instant
deriving DecidableEq

structure BackupArchive where
  filename : String
  sizeBytes : ℕ
  createdAt : Instant
deriving DecidableEq, Repr

structure ArchiveCheck where
  filename : String
  ok : Bool
  sizeBytes : ℕ
  detail : String
  archiveCreatedAt : Instant
  restorable : Option Bool
deriving DecidableEq, Repr

structure BackupResult where
  started : Bool
  detail : String
deriving DecidableEq, Repr

structure BackupOutcome where
  kind : String
  ok : Bool
  finishedAt : Instant
  archive : Option String
  label : String
deriving DecidableEq, Repr

structure UpdateStatus where
  currentVersion : Option String
  latestVersion : Option String
  updateAvailable : Bool
  changelogUrl : Option String
deriving DecidableEq, Repr

structure ContainerState where
  running : Bool
  health : Option String
deriving DecidableEq, Repr

structure OpLevel where
  player : String
  level : ℤ
deriving DecidableEq, Repr

/-- `(user, permission, operation_id, requested_by)`, of a restart or of a start -/
structure OpLevelsOperation where
  user : User
  permission : Permission
  operationId : String
  requestedBy : String
  launches : permission = .restart ∨ permission = .start
deriving DecidableEq, Repr

/-- `(operation_id, version_before)` -/
structure UpdateOperation where
  operationId : String
  versionBefore : Option String
deriving DecidableEq, Repr

structure Notification where
  title : String
  message : String
  level : String
  event : Option String
deriving DecidableEq, Repr

/-! ### The calls -/

inductive Outside where
  | listPlayers
  | say (message : String)
  | saveAll
  | restartContainer
  | stopContainer (timeout : ℤ)
  | startContainer
  | containerStatus
  | listPendingLevels
  | opLevelsRunning
  | opLevelsExitCode
  | scheduleRestart (restartAt : Instant) (scheduledBy : String) (totalSeconds : ℚ)
    (deferIfPlayers : Bool)
  | cancelRestart
  | restartStatus
  | dueRestartWarning (now : Instant)
  | recurringRestart
  | setRecurringRestart (config : RecurringRestart)
  | clearRecurringRestart
  | recurringLastFired
  | markRecurringFired (today : String)
  | doormanRunning
  | engage (motd kick : String)
  | release
  | prime (motd kick : String)
  | scheduleMaintenance (engageAt : Instant) (requestedBy motd kick : String) (totalSeconds : ℚ)
    (deferIfPlayers : Bool)
  | cancelMaintenance
  | maintenancePending
  | dueMaintenanceWarning (now : Instant)
  | listScheduledMaintenance
  | addScheduledMaintenance (entry : ScheduledMaintenance)
  | removeScheduledMaintenance (id : String)
  | maintenanceLastFired (id : String)
  | markMaintenanceFired (id today : String)
  | integrityIssues (operation : String) (includeUnknown : Bool)
  | notify (notification : Notification)
  | checkUpdate
  | startUpdater
  | updaterRunning
  | updaterExitCode
  /-- The version of the release the checker knows. -/
  | knownRelease
  | snoozeUpdate (version : String) (until_ : Instant)
  | startAppUpdater
  | ownImage
  | safetyRunning
  | triggerSafety
  | safetyExitCode
  | profileBackupRunning
  | triggerProfile (dest name includes excludes : String)
  | listProfiles
  | getProfile (id : String)
  | markRun (id : String) (now : Instant)
  | listArchives
  | archivePath (filename : String)
  | deleteArchive (filename : String)
  | archiveStatuses
  | archiveChecking
  | validateArchive (filename : String)
  | restoreRunning
  | startRestore (filename : String)
  | restoreExitCode
  | getPendingRestore
  | setPendingRestore (pending : PendingRestore)
  | clearPendingRestore
deriving DecidableEq, Repr

abbrev OutsideAnswer : Outside → Type
  | .listPlayers => List String
  | .containerStatus => ContainerState
  | .listPendingLevels => List OpLevel
  | .opLevelsExitCode | .updaterExitCode | .safetyExitCode | .restoreExitCode => Option ℤ
  | .opLevelsRunning | .doormanRunning | .updaterRunning | .safetyRunning | .profileBackupRunning
  | .restoreRunning => Bool
  | .restartStatus => Option ScheduledRestart
  | .dueRestartWarning _ | .dueMaintenanceWarning _ => Option ℤ
  | .recurringRestart => Option RecurringRestart
  | .recurringLastFired | .maintenanceLastFired _ => Option String
  | .maintenancePending => Option PendingMaintenance
  | .listScheduledMaintenance => List ScheduledMaintenance
  | .addScheduledMaintenance _ | .ownImage => String
  | .cancelRestart | .cancelMaintenance | .removeScheduledMaintenance _ | .deleteArchive _ => Bool
  | .integrityIssues .. => List String
  | .checkUpdate => UpdateStatus
  | .knownRelease => Option String
  | .triggerSafety | .triggerProfile .. => BackupResult
  | .listProfiles => List BackupProfile
  | .getProfile _ => Option BackupProfile
  | .listArchives => List BackupArchive
  | .archivePath _ | .archiveChecking => Option String
  | .archiveStatuses => Dict String ArchiveCheck
  | .validateArchive _ => ArchiveCheck
  | .getPendingRestore => Option PendingRestore
  | _ => Unit

inductive Memory where
  | opLevelsOperation
  /-- `apply()` and the attribute, unless an application is under way. -/
  | beginOpLevels (operation : OpLevelsOperation)
  /-- The attribute is cleared, unless it holds another operation by now. -/
  | concludeOpLevels (operation : OpLevelsOperation)
  /-- `operation_id in self._deferred_ops_announced` -/
  | announced (operationId : String)
  | announce (operationId : String)
  | unannounce (operationId : String)
  | updateOperation
  | setUpdateOperation (operation : Option UpdateOperation)
  | restoreOperation
  | setRestoreOperation (operation : Option RestoreOperation)
  | startedAt (kind : String)
  | setStartedAt (kind : String) (now : Instant)
  | popStartedAt (kind : String)
  | progressMax (kind : String)
  | setProgressMax (kind : String) (progress : ℤ)
  | popProgressMax (kind : String)
  | backupResult
  | setBackupResult (outcome : Option BackupOutcome)
  | operationId (kind : String)
  | setOperationId (kind operationId : String)
  | popOperationId (kind : String)
  | setActiveProfile (id : String)
  | setSafetyValidation (filename : Option String)
deriving DecidableEq, Repr

abbrev MemoryAnswer : Memory → Type
  | .opLevelsOperation => Option OpLevelsOperation
  | .beginOpLevels _ | .concludeOpLevels _ | .announced _ => Bool
  | .updateOperation => Option UpdateOperation
  | .restoreOperation => Option RestoreOperation
  | .startedAt _ | .popStartedAt _ => Option Instant
  | .progressMax _ => Option ℤ
  | .backupResult => Option BackupOutcome
  | .operationId _ | .popOperationId _ => Option String
  | _ => Unit

inductive Port where
  | outside (p : Outside)
  | memory (m : Memory)
deriving DecidableEq, Repr

abbrev PortAnswer : Port → Type
  | .outside p => OutsideAnswer p
  | .memory m => MemoryAnswer m

abbrev MadeCall := Made (Call Port) (Answer PortAnswer) Failure

abbrev Program (α : Type) := ServiceCore.Program PortAnswer Failure Failure α

def outside (p : Outside) : Program (OutsideAnswer p) := ServiceCore.call (.port (Port.outside p))

def memory (m : Memory) : Program (MemoryAnswer m) := ServiceCore.call (.port (Port.memory m))

def now : Program Instant := ServiceCore.call .now

/-! ### What the service is built with -/

/-- The optional ports that are there, and what is built in. -/
structure Config where
  containerName : String
  hasOpLevelsApply : Bool
  hasPendingOpLevels : Bool
  hasDoorman : Bool
  hasPendingMaintenance : Bool
  hasRecurringRestart : Bool
  hasScheduledMaintenance : Bool
  hasPendingRestore : Bool
  hasRestore : Bool
  hasArchiveChecks : Bool
  hasArchiveValidator : Bool
  hasWorkerIntegrity : Bool
  hasBackupProfiles : Bool
  hasProfileBackup : Bool
  hasAppUpdateState : Bool
  hasAppUpdateSnooze : Bool
  hasAppUpdater : Bool
  hasSelfImage : Bool
  worldDir : String
  digits : DigitTable
  /-- `instant.isoformat()` -/
  isoformat : Instant → String
  /-- `date.isoformat()` -/
  dateText : ℤ → String
  /-- `datetime.strptime(text, "%Y-%m-%d").date()`, `none` where it raises. -/
  strptime : String → Option ℤ
  /-- What the local clock is ahead, in seconds. -/
  utcOffset : Instant → ℚ
  /-- `repr(text)` -/
  repr : String → String
  /-- `str(number)`, of a float -/
  floatText : ProfileSchedule.Hours → String

variable (cfg : Config)

/-- `now.astimezone()`, on a clock without a zone. -/
def Config.localTime (t : Instant) : ℚ := t + cfg.utcOffset t

/-- `now.astimezone().date()` -/
def Config.localDay (t : Instant) : ℤ := ⌊cfg.localTime t / 86400⌋

/-- `local_now.replace(hour=hour, minute=minute, second=0, microsecond=0)`, as an instant: the zone
of `local_now` keeps its offset.  `none` where it raises. -/
def Config.todayAt (t : Instant) (hour minute : ℤ) : Option Instant :=
  if (0 ≤ hour ∧ hour < 24) ∧ 0 ≤ minute ∧ minute < 60 then
    some (cfg.localDay t * 86400 + hour * 3600 + minute * 60 - cfg.utcOffset t)
  else none

/-! ### What the operations share -/

variable {α : Type}

/-- `try: … except Exception: …`, with no result. -/
def attempt (p : Program α) : Program (Option α) := tryCatch (some <$> p) fun _ => return none

/-- `try: … except Exception: pass` -/
def bestEffort (p : Program Unit) : Program Unit := tryCatch p fun _ => return ()

def refuse (errorClass : ErrorClass) (message : String) : Program α :=
  throw (.refused ⟨errorClass, message⟩)

def refuseIf (condition : Prop) [Decidable condition] (errorClass : ErrorClass)
    (message : String) : Program Unit :=
  if condition then refuse errorClass message else return ()

def record (user : User) (permission : Permission) (outcome detail : String) : Program Unit :=
  ServiceCore.record cfg.containerName user permission outcome detail

def authorize (user : User) (permission : Permission) : Program Unit :=
  ServiceCore.authorize cfg.containerName user permission

def notify (title message level : String) (event : Option String := none) : Program Unit :=
  outside (.notify ⟨title, message, level, event⟩)

def say (message : String) : Program Unit := bestEffort (outside (.say message))

def deny (user : User) (permission : Permission) (detail : String) (errorClass : ErrorClass)
    (message : String) : Program α := do
  record cfg user permission "denied" detail
  refuse errorClass message

/-- `int(number)`, of a float that is finite -/
def truncated (q : ℚ) : ℤ := q.num.tdiv q.den

def formatSeconds (seconds : ℤ) : String :=
  if 60 ≤ seconds then s!"{seconds / 60} minute(s)" else s!"{seconds} seconde(s)"

/-- `" ".join(text.split())[:most]` -/
def squeezed (most : ℕ) (text : String) : String :=
  let words := (text.toList.splitOnP cfg.digits.isSpace).filter (· ≠ [])
  .ofList ((List.intercalate [' '] words).take most)

def sanitizeReason (reason : String) : String := squeezed cfg 200 reason

/-- `text.strip()` -/
def stripped (text : String) : String := .ofList (cfg.digits.strip text.toList)

/-- `re.match(r"^([01]\d|2[0-3]):[0-5]\d$", text)`: the end may have a line break after it. -/
def isTimeOfDay (text : String) : Bool :=
  let digit := cfg.digits.isDecimal
  let time : Text → Bool
    | [h, h', colon, m, m'] =>
      ((h == '0' || h == '1') && digit h' || h == '2' && '0' ≤ h' && h' ≤ '3') &&
        colon == ':' && ('0' ≤ m && m ≤ '5') && digit m'
    | _ => false
  time text.toList || text.toList.getLast? == some '\n' && time text.toList.dropLast

/-- `hour, minute = (int(part) for part in text.split(":"))`, `none` where it raises. -/
def hourAndMinute (text : String) : Option (ℤ × ℤ) :=
  ProfileSchedule.readDailyAt cfg.digits text.toList

/-- The time of today that a text names, `none` where a step raises. -/
def todayAtText (t : Instant) (text : String) : Option Instant := do
  let (hour, minute) ← hourAndMinute cfg text
  cfg.todayAt t hour minute

/-- `_refuse_if_maintenance`: a doorman that cannot be read does not stop anything. -/
def refuseIfMaintenance (user : User) (permission : Permission) (hint : String) : Program Unit :=
  if ¬cfg.hasDoorman then return ()
  else do
    match ← attempt (outside .doormanRunning) with
    | some true =>
      deny cfg user permission "bloqué : serveur en maintenance" .maintenanceUnavailable
        s!"Le serveur est en maintenance : {hint} (le portier occupe son adresse réseau)."
    | _ => return ()

def pendingRestore : Program (Option PendingRestore) :=
  if cfg.hasPendingRestore then outside .getPendingRestore else return none

/-- `_restore_in_progress`: a worker that cannot be read counts as running. -/
def restoreInProgress : Program Bool := do
  let pending ← pendingRestore cfg
  if pending.isSome then return true
  else do
    let operation ← memory .restoreOperation
    if operation.any fun op => op.phase ≠ "success" ∧ op.phase ≠ "failed" then return true
    else if ¬cfg.hasRestore then return false
    else return (← attempt (outside .restoreRunning)).getD true

def serverConfirmedEmpty : Program Bool := do
  match ← attempt (outside .listPlayers) with
  | some players => return players.isEmpty
  | none => return false

end AdminService
