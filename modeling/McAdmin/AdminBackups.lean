import Mathlib.Data.List.MinMax
import McAdmin.AdminUpdate
import McAdmin.BackupRetention

/-!
# Backups

A profile is backed up on demand or at its time by a container that goes on by itself; a scan finds
out what it has produced, and applies the retention of the profile.
-/

namespace AdminService

open BackupProfiles (includesFor)
open McAdmin ServiceCore

variable (cfg : Config)

/-! ### Starting a backup -/

def refuseDuringRestore : Program Unit := do
  let restoring ← restoreInProgress cfg
  refuseIf (restoring = true) .backupUnavailable "sauvegarde indisponible pendant une restauration"

/-- A safety backup that cannot be read is refused as one that runs. -/
def refuseDuringSafety : Program Unit := do
  let running ← tryCatch (outside .safetyRunning) fun e =>
    if Error.isA .backupUnavailable e then throw e
    else refuse .backupUnavailable
      s!"état de la sauvegarde de sécurité illisible : {Error.str e}"
  refuseIf (running = true) .backupUnavailable
    "sauvegarde indisponible pendant la sauvegarde de sécurité"

def getProfile (id : String) : Program (Option BackupProfile) :=
  if cfg.hasBackupProfiles then outside (.getProfile id) else return none

def refuseUnfitBackup : Program Unit :=
  if ¬cfg.hasWorkerIntegrity then return ()
  else do
    let issues ← outside (.integrityIssues "backup" false)
    refuseIf (issues ≠ []) .backupUnavailable ("; ".intercalate issues)

def startProfileBackup (user : User) (profile : BackupProfile) : Program BackupResult :=
  let (includes, excludes) := includesFor profile.include_ cfg.worldDir
  tryCatch (outside (.triggerProfile profile.dest s!"mc-{profile.id}" includes excludes)) fun e => do
    record cfg user .backupTrigger "error" (Error.str e)
    notify "Sauvegarde échouée" (Error.str e) "error"
    throw e

/-- `result.started or profile.id not in self._backup_started_at` -/
def isNewCycle (result : BackupResult) (id : String) : Program Bool :=
  if result.started then return true else return (← memory (.startedAt id)).isNone

def rememberCycle (id : String) : Program Unit := do
  let t ← now
  memory (.setActiveProfile id)
  memory (.setStartedAt id t)
  let _ ← memory (.popProgressMax id)
  memory (.setBackupResult none)
  memory (.setOperationId id s!"backup::{id}::{cfg.isoformat t}")

/-- The container is started for a profile that may be backed up. -/
def backUp (user : User) (profile : BackupProfile) : Program BackupResult := do
  let result ← startProfileBackup cfg user profile
  let fresh ← isNewCycle result profile.id
  (if fresh then rememberCycle cfg profile.id else return () : Program Unit)
  let operationId ← memory (.operationId profile.id)
  record cfg user .backupTrigger "allowed"
    (s!"phase=backup_started kind={profile.id} profile=\"{profile.name}\" " ++
      s!"requested_by={user.username} operation_id=" ++ operationId.getD "")
  return result

/-- `_trigger_profile_backup_locked` -/
def triggerLocked (user : User) (id : String) : Program BackupResult := do
  refuseDuringRestore cfg
  refuseDuringSafety
  match (← getProfile cfg id).filter fun _ => cfg.hasProfileBackup with
  | none => refuse .backupUnavailable s!"profil inconnu ou non configuré : {id}"
  | some profile => do
    refuseUnfitBackup cfg
    backUp cfg user profile

def triggerProfileBackup (user : User) (id : String) : Program BackupResult := do
  authorize cfg user .backupTrigger
  triggerLocked cfg user id

/-! ### The schedule -/

/-- `(now - last_run).total_seconds() >= hours * 3600` -/
def intervalPassed (elapsed : ℚ) : ProfileSchedule.Hours → Bool
  | .finite hours => hours * 3600 ≤ elapsed
  | .infinite negative => negative
  | .notANumber => false

/-- `_profile_due`; the first tick of an interval starts its counter. -/
def profileDue (profile : BackupProfile) (t : Instant) : Program Bool :=
  match profile.dailyAt.filter (· ≠ "") with
  | some dailyAt =>
    if (profile.lastRun.map cfg.localDay) = some (cfg.localDay t) then return false
    else match todayAtText cfg t dailyAt with
      | none => refuse .other "invalid literal for int() with base 10"
      | some target => return target ≤ t
  | none =>
    if ¬profile.hours.positive then return false
    else match profile.lastRun with
      | none => do
        outside (.markRun profile.id t)
        return false
      | some lastRun => return intervalPassed (t - lastRun) profile.hours

/-- A profile that is due is marked before it is started, and its failure passes over the others. -/
def visitProfile (user : User) (t : Instant) (profile : BackupProfile) : Program Unit :=
  if ¬profile.enabled then return ()
  else do
    let due ← profileDue cfg profile t
    if ¬due then return ()
    else do
      outside (.markRun profile.id t)
      let _ ← attempt (triggerLocked cfg user profile.id)
      return ()

def visitProfiles (user : User) (t : Instant) : List BackupProfile → Program Unit
  | [] => return ()
  | profile :: profiles => do
    visitProfile cfg user t profile
    visitProfiles user t profiles

/-- `_tick_backup_profiles_locked` -/
def tickProfilesLocked (user : User) : Program Unit :=
  if ¬cfg.hasBackupProfiles ∨ ¬cfg.hasProfileBackup then return ()
  else do
    let restoring ← restoreInProgress cfg
    if restoring then return ()
    else do
      match ← attempt (outside .safetyRunning) with
      | some false => do
        let t ← now
        let profiles ← outside .listProfiles
        visitProfiles cfg user t profiles
      | _ => return ()

def tickBackupProfiles (user : User) : Program Unit := do
  authorize cfg user .backupTrigger
  tickProfilesLocked cfg user

/-! ### The retention -/

def backupWatchUser : User where
  username := "backup-watch"
  role := { name := "automation", permissions := [.backupTrigger, .backupRetention] }

/-- An instant in microseconds, which is what it is a whole number of. -/
def microseconds (t : Instant) : ℤ := ⌊t * 1000000⌋

/-- The archives `backup_retention_plan` would delete. -/
def retentionPlan (user : User) (dailyDays monthlyMonths : ℤ) (folder : String) :
    Program (List RestoreGate.BackupArchive) := do
  authorize cfg user .backupRetention
  let t ← now
  let archives ← outside .listArchives
  let plan := BackupRetention.backupRetentionPlan ⟨microseconds t, dailyDays, monthlyMonths, folder⟩
    (archives.map fun a => ⟨a.filename, a.sizeBytes, microseconds a.createdAt⟩)
  return plan.delete.map (·.archive)

/-- The archives that were deleted, and those that were not. -/
def deleteAll : List RestoreGate.BackupArchive →
    Program (List RestoreGate.BackupArchive × List RestoreGate.BackupArchive)
  | [] => return ([], [])
  | archive :: archives => do
    let gone ← outside (.deleteArchive archive.filename)
    let (deleted, failed) ← deleteAll archives
    return if gone then (archive :: deleted, failed) else (deleted, archive :: failed)

def applyBackupRetention (user : User) (dailyDays monthlyMonths : ℤ) (folder : String) :
    Program ℕ := do
  let plan ← retentionPlan cfg user dailyDays monthlyMonths folder
  let (deleted, failed) ← deleteAll plan
  let freed := (deleted.map (·.sizeBytes)).sum
  let detail := s!"rétention appliquée ({dailyDays} j / {monthlyMonths} mois) : " ++
    s!"{deleted.length} supprimée(s), {freed / 1048576} Mio libérés"
  record cfg user .backupRetention (if failed = [] then "allowed" else "error")
    (detail ++ if failed = [] then ""
      else " — échecs : " ++ ", ".intercalate (failed.map (·.filename)))
  return deleted.length

def retain (profile : BackupProfile) (kind operationId : String) : Program Unit := do
  let plan ← retentionPlan cfg backupWatchUser profile.retentionDailyDays
    profile.retentionMonthlyMonths s!"{profile.dest}/"
  let (deleted, _) ← deleteAll plan
  if deleted = [] then return ()
  else do
    record cfg backupWatchUser .backupTrigger "allowed"
      (s!"phase=retention_applied kind={kind} deleted={deleted.length} " ++
        s!"operation_id={operationId}")

def autoRetention (kind operationId : String) : Program Unit := do
  match ← getProfile cfg kind with
  | none => return ()
  | some profile =>
    if profile.retentionDailyDays ≤ 0 then return ()
    else if ¬("profiles/".toList.isPrefixOf profile.dest.toList ∨ profile.dest = "scheduled") then
      return ()
    else bestEffort (retain cfg profile kind operationId)

/-! ### The outcomes -/

/-- `max(archives, key=lambda a: a.created_at, default=None)` -/
def newest (archives : List BackupArchive) : Option BackupArchive :=
  archives.argmax (·.createdAt)

def produced (folder : String) (startedAt : Instant) (archives : List BackupArchive) :
    List BackupArchive :=
  archives.filter fun a => folder.toList.isPrefixOf a.filename.toList && startedAt ≤ a.createdAt

def reportBackup (kind label operationId : String) (archive : Option BackupArchive) :
    Program Unit :=
  match archive with
  | some archive => do
    let size := archive.sizeBytes / 1048576
    record cfg backupWatchUser .backupTrigger "allowed"
      (s!"phase=backup_done kind={kind} archive={archive.filename} size_mio={size} " ++
        s!"operation_id={operationId}")
    let shown := if label = "" then kind else label
    notify "Sauvegarde terminée" s!"« {shown} » — {size} Mio." "info" (some "backup")
    autoRetention cfg kind operationId
  | none => do
    record cfg backupWatchUser .backupTrigger "error"
      s!"phase=backup_failed kind={kind} operation_id={operationId}"
    notify "Sauvegarde échouée" s!"La sauvegarde {kind} n'a produit aucune archive." "error"

def finalizeBackup (kind folder label : String) : Program Unit := do
  match ← memory (.popStartedAt kind) with
  | none => return ()
  | some startedAt => do
    let _ ← memory (.popProgressMax kind)
    let archives ← outside .listArchives
    let archive := newest (produced folder startedAt archives)
    let operationId ← memory (.popOperationId kind)
    let t ← now
    memory (.setBackupResult
      (some ⟨kind, archive.isSome, t, archive.map (·.filename), label⟩))
    reportBackup cfg kind label (operationId.getD "") archive

structure Watched where
  kind : String
  folder : String
  label : String
  safety : Bool

def forgetSafety : Program Unit := do
  let _ ← memory (.popStartedAt "safety")
  let _ ← memory (.popOperationId "safety")
  let _ ← memory (.popProgressMax "safety")
  return ()

def scanOne (watched : Watched) : Program Unit := do
  let startedAt ← memory (.startedAt watched.kind)
  if startedAt.isNone then return ()
  else do
    match ← attempt (if watched.safety then outside .safetyRunning
      else outside .profileBackupRunning) with
    | some false =>
      if watched.kind = "safety" then forgetSafety
      else finalizeBackup cfg watched.kind watched.folder watched.label
    | _ => return ()

def scanAll : List Watched → Program Unit
  | [] => return ()
  | watched :: rest => do
    scanOne cfg watched
    scanAll rest

/-- The profiles, when they are configured with their container. -/
def profiles : Program (List BackupProfile) :=
  if cfg.hasBackupProfiles ∧ cfg.hasProfileBackup then outside .listProfiles else return []

def scanBackupOutcomes : Program Unit := do
  let profiles ← profiles cfg
  scanAll cfg (⟨"safety", "restore-safety/", "", true⟩ ::
    profiles.map fun p => ⟨p.id, s!"{p.dest}/", p.name, false⟩)

/-! ### The progress -/

structure BackupProgress where
  kind : String
  running : Bool
  progressPercent : Option ℤ
  archive : Option BackupArchive
  label : String

/-- The percentage of the archive before, between 1 and 95, and never less than it was. -/
def estimate (kind : String) (current baseline : BackupArchive) : Program ℤ := do
  let estimated := max 1 (min 95 (truncated (current.sizeBytes / baseline.sizeBytes * 100 : ℚ)))
  let most ← memory (.progressMax kind)
  let progress := max estimated (most.getD 0)
  memory (.setProgressMax kind progress)
  return progress

def backupProgressFor (kind folder label : String) (running : Program Bool) :
    Program (Option BackupProgress) := do
  match ← attempt running with
  | some true => do
    let startedAt ← memory (.startedAt kind)
    let archives ← outside .listArchives
    let archives := (archives.filter fun a => folder.toList.isPrefixOf a.filename.toList)
      |>.insertionSort fun a b => b.createdAt ≤ a.createdAt
    let current := archives.find? fun a => startedAt.any fun startedAt => startedAt ≤ a.createdAt
    let baseline := archives.find? fun a => startedAt.all fun startedAt => a.createdAt < startedAt
    match current, baseline.filter fun a => 0 < a.sizeBytes with
    | some current, some baseline => do
      let progress ← estimate kind current baseline
      return some ⟨kind, true, some progress, some current, label⟩
    | _, _ => return some ⟨kind, true, none, current, label⟩
  | _ => return none

def progressOf : List BackupProfile → Program (Option BackupProgress)
  | [] => return none
  | profile :: profiles => do
    let startedAt ← memory (.startedAt profile.id)
    if startedAt.isNone then progressOf profiles
    else do
      match ← backupProgressFor profile.id s!"{profile.dest}/" profile.name
        (outside .profileBackupRunning) with
      | some progress => return some progress
      | none => progressOf profiles

def backupProgress (user : User) : Program (Option BackupProgress) := do
  authorize cfg user .backupTrigger
  let profiles ← profiles cfg
  let ofProfile ← progressOf profiles
  let running ← match ofProfile with
    | some progress => pure (some progress)
    | none => backupProgressFor "safety" "restore-safety/" "" (outside .safetyRunning)
  scanBackupOutcomes cfg
  return running

end AdminService
