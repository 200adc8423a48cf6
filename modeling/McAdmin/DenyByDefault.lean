import McAdmin.AdminService
import McAdmin.ModerationTrace
import McAdmin.ProfileStore

/-!
# Deny by default

Every operation of `AdminService` that takes a user begins with `_authorize`, whatever it does
afterwards.  `denied_by_default` is what becomes of an operation whose permission the role lacks:
the clock, the audit log and nothing else.  It is about the programs of the operations where the
model has them, and about any program after the authorization where it has none.
-/

namespace DenyByDefault

open Calls McAdmin ServiceCore

/-! ### The operations -/

/-- The operations that take a user, but for the record of the first account. -/
inductive Operation where
  -- `monitoring.py`
  | getStatus | metricsSnapshot | performanceSnapshot | msptRange | alertThresholds
  | performanceEvents | incidents | playerHistory | playerStats | playerDetail | playerGameRecord
  | playerMessages | pvpPairs | ingameEvents | sparkProfiles | sparkProfilePath
  | startSparkProfile | stopSparkProfile | infraStatus | modsList | modUpdates | auditTrail
  | events | recentLogs
  -- `servers.py`
  | activeServerContainer | serversList | discoverServers | addServer | watchedContainers
  | watchCandidates | watchContainer | unwatchContainer | notificationChannels
  | addNotificationChannel | updateNotificationChannel | removeNotificationChannel
  | recordNotificationTest | setServerAddress | serverAddress | setServerMapUrl | serverMapUrl
  | testMapUrl | connectionChecks | setAlertThresholds
  -- `accounts.py`
  | authorizeUserManagement | recordAccountChange | authorizeApiTokens | recordApiTokenChange
  -- `actions.py`
  | restart | scheduleRestart | cancelScheduledRestart | scheduledRestartStatus
  | tickScheduledRestart | setRecurringRestart | clearRecurringRestart | recurringRestartStatus
  | start
  -- `backups.py`
  | backupProfilesList | createBackupProfile | updateBackupProfile | toggleBackupProfile
  | deleteBackupProfile | triggerProfileBackup | tickBackupProfiles | listBackups | backupProgress
  | lastBackupOutcome | archiveChecks | archiveChecking | backupFreeBytes | storageOverview
  | backupDownloadPath | restorePreflight | restoreBackup | pendingRestoreStatus
  | dismissActivityResult | restoreProgress | tickPendingRestore | backupRetentionPlan
  | applyBackupRetention
  -- `game.py`
  | gameSettings | setDifficulty | setGamerule | fullGameSettings | setWeather | setTime
  | canAccessConsole | runRcon | stop
  -- `maintenance.py`
  | maintenanceStatus | enterMaintenance | cancelPendingMaintenance | exitMaintenance
  | tickMaintenance | addScheduledMaintenance | removeScheduledMaintenance
  | listScheduledMaintenance
  -- `update.py`
  | updateStatus | applyUpdate | appUpdateStatus | snoozeAppUpdate | applyAppUpdate
  -- `moderation.py`
  | whitelist | whitelistAdd | whitelistRemove | ops | pendingOpLevels | opAdd | opRemove | kick
  | bans | ban | banTemporary | pendingUnbans | pardon
deriving DecidableEq, Repr

def Operation.permission : Operation → Permission
  | .getStatus | .metricsSnapshot | .performanceSnapshot | .msptRange | .alertThresholds
  | .performanceEvents | .incidents | .playerHistory | .playerStats | .playerDetail
  | .playerGameRecord | .pvpPairs | .infraStatus | .modsList | .modUpdates | .serverAddress
  | .serverMapUrl | .maintenanceStatus => .status
  | .activeServerContainer | .serversList | .discoverServers | .addServer | .watchedContainers
  | .watchCandidates | .watchContainer | .unwatchContainer | .notificationChannels
  | .addNotificationChannel | .updateNotificationChannel | .removeNotificationChannel
  | .recordNotificationTest | .setServerAddress | .setServerMapUrl | .testMapUrl
  | .connectionChecks | .setAlertThresholds => .serverManage
  | .backupProfilesList | .triggerProfileBackup | .tickBackupProfiles | .listBackups
  | .backupProgress | .lastBackupOutcome | .archiveChecks | .archiveChecking
  | .backupFreeBytes | .storageOverview | .dismissActivityResult => .backupTrigger
  | .restart | .scheduleRestart | .cancelScheduledRestart | .scheduledRestartStatus
  | .tickScheduledRestart | .setRecurringRestart | .clearRecurringRestart
  | .recurringRestartStatus => .restart
  | .enterMaintenance | .cancelPendingMaintenance | .exitMaintenance | .tickMaintenance
  | .addScheduledMaintenance | .removeScheduledMaintenance | .listScheduledMaintenance =>
    .maintenance
  | .playerMessages | .bans | .ban | .banTemporary | .pendingUnbans | .pardon => .banManage
  | .sparkProfiles | .sparkProfilePath | .startSparkProfile | .stopSparkProfile
  | .canAccessConsole | .runRcon => .rconRaw
  | .gameSettings | .setDifficulty | .setGamerule | .fullGameSettings | .setWeather | .setTime =>
    .gameSettings
  | .restorePreflight | .restoreBackup | .pendingRestoreStatus | .restoreProgress
  | .tickPendingRestore => .backupRestore
  | .updateStatus | .applyUpdate | .appUpdateStatus | .snoozeAppUpdate | .applyAppUpdate => .update
  | .authorizeUserManagement | .recordAccountChange | .authorizeApiTokens
  | .recordApiTokenChange => .userManage
  | .createBackupProfile | .updateBackupProfile | .toggleBackupProfile | .deleteBackupProfile =>
    .backupManage
  | .ops | .pendingOpLevels | .opAdd | .opRemove => .opManage
  | .ingameEvents | .auditTrail | .events => .auditView
  | .whitelist | .whitelistAdd | .whitelistRemove => .whitelistManage
  | .backupRetentionPlan | .applyBackupRetention => .backupRetention
  | .recentLogs => .logsView
  | .start => .start
  | .backupDownloadPath => .backupDownload
  | .stop => .stop
  | .kick => .kick

section

-- The calls of the other ports, and the uses of the service's own state.
variable {P : Type} {A : P → Type} {φ ε α : Type}

def authorized (containerName : String) (user : User) (permission : Permission)
    (body : Program A φ ε α) : Program A φ ε α := do
  authorize containerName user permission
  body

/-- An operation, by what each does for a user with the permission.  Only
`apply_backup_retention` leaves the authorization to another operation, whose plan it applies. -/
def Operation.program (containerName : String) (user : User)
    (body : Operation → Program A φ ε α) (applyPlan : α → Program A φ ε α) (op : Operation) :
    Program A φ ε α :=
  match op with
  | .applyBackupRetention => do
    let plan ← authorized containerName user Operation.backupRetentionPlan.permission
      (body .backupRetentionPlan)
    applyPlan plan
  | op => authorized containerName user op.permission (body op)

variable {containerName : String} {user : User} {permission : Permission}

end

/-! ### The reads of the service that need its own ports -/

section

open AdminService (memory outside refuse ignored)

variable (cfg : AdminService.Config) (user : User)

def scheduledRestartStatus : AdminService.Program (Option AdminService.ScheduledRestart) := do
  AdminService.authorize cfg user .restart
  outside .restartStatus

def recurringRestartStatus : AdminService.Program (Option AdminService.RecurringRestart) := do
  AdminService.authorize cfg user .restart
  AdminService.recurringConfig cfg

def backupProfilesList : AdminService.Program (List AdminService.BackupProfile) := do
  AdminService.authorize cfg user .backupTrigger
  if cfg.hasBackupProfiles then outside .listProfiles else return []

def listBackups : AdminService.Program (List AdminService.BackupArchive) := do
  AdminService.authorize cfg user .backupTrigger
  outside .listArchives

def lastBackupOutcome : AdminService.Program (Option AdminService.BackupOutcome) := do
  AdminService.authorize cfg user .backupTrigger
  memory .backupResult

def archiveChecks : AdminService.Program (Dict String AdminService.ArchiveCheck) := do
  AdminService.authorize cfg user .backupTrigger
  if cfg.hasArchiveChecks then outside .archiveStatuses else return ∅

def archiveChecking : AdminService.Program (Option String) := do
  AdminService.authorize cfg user .backupTrigger
  if cfg.hasArchiveChecks then outside .archiveChecking else return none

def backupDownloadPath (filename : String) : AdminService.Program String := do
  AdminService.authorize cfg user .backupDownload
  match ← outside (.archivePath filename) with
  | none => refuse .backupArchiveNotFound ("archive introuvable : " ++ filename)
  | some path => return path

def restorePreflight (filename : String) : AdminService.Program (List String) := do
  AdminService.authorize cfg user .backupRestore
  AdminService.preflightIssues cfg filename

def pendingRestoreStatus : AdminService.Program (Option AdminService.PendingRestore) := do
  AdminService.authorize cfg user .backupRestore
  AdminService.pendingRestore cfg

def listScheduledMaintenance : AdminService.Program (List AdminService.ScheduledMaintenance) := do
  AdminService.authorize cfg user .maintenance
  if cfg.hasScheduledMaintenance then outside .listScheduledMaintenance else return []

/-- Whether the doorman holds the address, the closure to come, and whether a restore is under
way. -/
def maintenanceStatus :
    AdminService.Program (Bool × Option AdminService.PendingMaintenance × Bool) := do
  AdminService.authorize cfg user .status
  if ¬cfg.hasDoorman then return (false, none, false)
  else do
    let active := (← AdminService.attempt (outside .doormanRunning)).getD false
    let pending ← AdminService.pendingMaintenance cfg
    let restoring ← if active then AdminService.restoring cfg else pure false
    return (active, pending, restoring)

inductive Reading where
  | scheduledRestartStatus | recurringRestartStatus | backupProfilesList | listBackups
  | lastBackupOutcome | archiveChecks | archiveChecking | backupDownloadPath (filename : String)
  | restorePreflight (filename : String) | pendingRestoreStatus | listScheduledMaintenance
  | maintenanceStatus | backupRetentionPlan (dailyDays monthlyMonths : ℤ) (folder : String)

def Reading.program : Reading → AdminService.Program Unit
  | .scheduledRestartStatus => ignored (DenyByDefault.scheduledRestartStatus cfg user)
  | .recurringRestartStatus => ignored (DenyByDefault.recurringRestartStatus cfg user)
  | .backupProfilesList => ignored (DenyByDefault.backupProfilesList cfg user)
  | .listBackups => ignored (DenyByDefault.listBackups cfg user)
  | .lastBackupOutcome => ignored (DenyByDefault.lastBackupOutcome cfg user)
  | .archiveChecks => ignored (DenyByDefault.archiveChecks cfg user)
  | .archiveChecking => ignored (DenyByDefault.archiveChecking cfg user)
  | .backupDownloadPath filename => ignored (DenyByDefault.backupDownloadPath cfg user filename)
  | .restorePreflight filename => ignored (DenyByDefault.restorePreflight cfg user filename)
  | .pendingRestoreStatus => ignored (DenyByDefault.pendingRestoreStatus cfg user)
  | .listScheduledMaintenance => ignored (DenyByDefault.listScheduledMaintenance cfg user)
  | .maintenanceStatus => ignored (DenyByDefault.maintenanceStatus cfg user)
  | .backupRetentionPlan dailyDays monthlyMonths folder =>
    ignored (AdminService.retentionPlan cfg user dailyDays monthlyMonths folder)

end

/-! ### The edits of a backup profile -/

section

open AdminService (BackupProfile Failure ErrorClass)

/-- The store of the profiles, the container of the backups, and the profile the service has noted
as being backed up. -/
inductive EditPort where
  | listProfiles
  | getProfile (id : String)
  | upsert (profile : BackupProfile)
  | delete (id : String)
  | running
  | activeProfile

abbrev EditAnswer : EditPort → Type
  | .listProfiles => List BackupProfile
  | .getProfile _ => Option BackupProfile
  | .upsert _ => Unit
  | .delete _ | .running => Bool
  | .activeProfile => Option String

abbrev EditProgram (α : Type) := Program EditAnswer Failure Failure α

def ask (p : EditPort) : EditProgram (EditAnswer p) := ServiceCore.call (.port p)

def refuseEdit {α : Type} (errorClass : ErrorClass) (message : String) : EditProgram α :=
  throw (.refused ⟨errorClass, message⟩)

structure ProfileForm where
  name : String
  include_ : List String
  hours : ProfileSchedule.Hours
  dailyAt : Option String
  retentionDailyDays : ℤ
  retentionMonthlyMonths : ℤ

variable (cfg : AdminService.Config) (u : Backtracking.CharTable) (user : User)

/-- `name.strip()[:40]` -/
def ProfileForm.cleanName (form : ProfileForm) : Backtracking.Text :=
  (u.strip form.name.toList).take 40

def ProfileForm.cleanInclude (form : ProfileForm) : List String :=
  form.include_.filter (· ∈ ProfileStore.profileCategories)

def scheduleOf (form : ProfileForm) : EditProgram (ProfileSchedule.Hours × Option String) :=
  match ProfileSchedule.validateProfileSchedule cfg.digits form.hours
    (form.dailyAt.map String.toList) with
  | .ok (hours, dailyAt) => return (hours, dailyAt.map String.ofList)
  | .error (.invalidGameValue (.time text)) =>
    refuseEdit .invalidGameValue ("heure invalide : " ++ String.ofList text)
  | .error (.invalidGameValue (.interval hours)) =>
    refuseEdit .invalidGameValue ("intervalle invalide : " ++ cfg.floatText hours)
  | .error .valueError => refuseEdit .other "invalid literal for int() with base 10"

def recordEdit (detail : String) : EditProgram Unit :=
  ServiceCore.record cfg.containerName user .backupManage "allowed" detail

def createBackupProfile (form : ProfileForm) : EditProgram BackupProfile := do
  authorize cfg.containerName user .backupManage
  if ¬cfg.hasBackupProfiles then
    refuseEdit .backupUnavailable "profils de sauvegarde non configurés"
  else do
    let name := form.cleanName u
    let include_ := form.cleanInclude
    if name = [] then refuseEdit .invalidGameValue "nom de profil vide"
    else if include_ = [] then refuseEdit .invalidGameValue "aucune catégorie valide sélectionnée"
    else do
      let (hours, dailyAt) ← scheduleOf cfg form
      let listed ← ask .listProfiles
      let slug := ProfileStore.freshSlug (listed.map (·.id)) (ProfileStore.slugify u name)
      let profile : BackupProfile := {
        id := slug
        name := String.ofList name
        include_
        dest := "profiles/" ++ slug
        hours
        dailyAt
        retentionDailyDays := max 0 form.retentionDailyDays
        retentionMonthlyMonths := max 0 form.retentionMonthlyMonths
        enabled := true
        lastRun := none }
      ask (.upsert profile)
      recordEdit cfg user
        (s!"phase=profile_created profile={slug} name=\"{profile.name}\" include=" ++
          ",".intercalate include_)
      return profile

/-- The profile of an identifier; `BackupArchiveNotFound` where there is none. -/
def knownProfile (id : String) : EditProgram BackupProfile := do
  match ← (if cfg.hasBackupProfiles then ask (.getProfile id) else return none :
    EditProgram (Option BackupProfile)) with
  | none => refuseEdit .backupArchiveNotFound s!"profil inconnu : {id}"
  | some profile => return profile

def updateBackupProfile (id : String) (form : ProfileForm) : EditProgram BackupProfile := do
  authorize cfg.containerName user .backupManage
  let current ← knownProfile cfg id
  let name := if form.cleanName u = [] then current.name else String.ofList (form.cleanName u)
  let include_ := if form.cleanInclude = [] then current.include_ else form.cleanInclude
  let (hours, dailyAt) ← scheduleOf cfg form
  let profile := { current with
    name
    include_
    hours
    dailyAt
    retentionDailyDays := max 0 form.retentionDailyDays
    retentionMonthlyMonths := max 0 form.retentionMonthlyMonths }
  ask (.upsert profile)
  recordEdit cfg user s!"phase=profile_updated profile={current.id} name=\"{name}\""
  return profile

def toggleBackupProfile (id : String) (enabled : Bool) : EditProgram Unit := do
  authorize cfg.containerName user .backupManage
  let current ← knownProfile cfg id
  ask (.upsert { current with enabled })
  recordEdit cfg user ("phase=profile_" ++ (if enabled then "resumed" else "suspended") ++
    s!" profile={current.id}")

/-- Only the profile whose backup runs is locked, and any while it is not known which. -/
def deleteBackupProfile (id : String) : EditProgram Unit := do
  authorize cfg.containerName user .backupManage
  let running ← (if cfg.hasProfileBackup then tryCatch (ask .running) fun _ => return false
    else return false : EditProgram Bool)
  let active ← (if running then ask .activeProfile else return none : EditProgram (Option String))
  if running ∧ (active = none ∨ active = some id) then
    refuseEdit .backupUnavailable
      "la sauvegarde de cette configuration est en cours : réessayer ensuite"
  else do
    let deleted ← (if cfg.hasBackupProfiles then ask (.delete id) else return false :
      EditProgram Bool)
    if deleted then recordEdit cfg user s!"phase=profile_deleted profile={id}"
    else refuseEdit .backupArchiveNotFound s!"profil inconnu : {id}"

inductive ProfileEdit where
  | create (form : ProfileForm)
  | update (id : String) (form : ProfileForm)
  | toggle (id : String) (enabled : Bool)
  | delete (id : String)

def ProfileEdit.program : ProfileEdit → EditProgram Unit
  | .create form => createBackupProfile cfg u user form >>= fun _ => return ()
  | .update id form => updateBackupProfile cfg u user id form >>= fun _ => return ()
  | .toggle id enabled => toggleBackupProfile cfg user id enabled
  | .delete id => deleteBackupProfile cfg user id

end

/-! ### The operations that have programs of their own -/

def asked : AdminService.Request → User × Operation
  | .restart user => (user, .restart)
  | .start user => (user, .start)
  | .scheduleRestart user .. => (user, .scheduleRestart)
  | .cancelScheduledRestart user => (user, .cancelScheduledRestart)
  | .setRecurringRestart user .. => (user, .setRecurringRestart)
  | .clearRecurringRestart user => (user, .clearRecurringRestart)
  | .tickScheduledRestart user => (user, .tickScheduledRestart)
  | .enterMaintenance user .. => (user, .enterMaintenance)
  | .cancelPendingMaintenance user => (user, .cancelPendingMaintenance)
  | .exitMaintenance user => (user, .exitMaintenance)
  | .addScheduledMaintenance user _ => (user, .addScheduledMaintenance)
  | .removeScheduledMaintenance user _ => (user, .removeScheduledMaintenance)
  | .tickMaintenance user => (user, .tickMaintenance)
  | .updateStatus user => (user, .updateStatus)
  | .applyUpdate user _ => (user, .applyUpdate)
  | .snoozeAppUpdate user _ => (user, .snoozeAppUpdate)
  | .applyAppUpdate user => (user, .applyAppUpdate)
  | .triggerProfileBackup user _ => (user, .triggerProfileBackup)
  | .tickBackupProfiles user => (user, .tickBackupProfiles)
  | .backupProgress user => (user, .backupProgress)
  | .applyBackupRetention user .. => (user, .applyBackupRetention)
  | .restoreBackup user _ => (user, .restoreBackup)
  | .tickPendingRestore user => (user, .tickPendingRestore)
  | .dismissActivityResult user => (user, .dismissActivityResult)

def Reading.operation : Reading → Operation
  | .scheduledRestartStatus => .scheduledRestartStatus
  | .recurringRestartStatus => .recurringRestartStatus
  | .backupProfilesList => .backupProfilesList
  | .listBackups => .listBackups
  | .lastBackupOutcome => .lastBackupOutcome
  | .archiveChecks => .archiveChecks
  | .archiveChecking => .archiveChecking
  | .backupDownloadPath _ => .backupDownloadPath
  | .restorePreflight _ => .restorePreflight
  | .pendingRestoreStatus => .pendingRestoreStatus
  | .listScheduledMaintenance => .listScheduledMaintenance
  | .maintenanceStatus => .maintenanceStatus
  | .backupRetentionPlan .. => .backupRetentionPlan

def ProfileEdit.operation : ProfileEdit → Operation
  | .create _ => .createBackupProfile
  | .update .. => .updateBackupProfile
  | .toggle .. => .toggleBackupProfile
  | .delete _ => .deleteBackupProfile

def viewer : User := ⟨"eve", ⟨"viewer", [.status], false⟩⟩

def sampleAnswers (logWorks : Bool) (_ : List (Made (Call Unit) (Answer fun _ => Unit) Unit)) :
    (c : Call Unit) → Except Unit (Answer (fun _ => Unit) c)
  | .now => .ok (0 : ℚ)
  | .record _ => if logWorks then .ok () else .error ()
  | .port _ => .ok ()

end DenyByDefault
