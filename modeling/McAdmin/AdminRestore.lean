import McAdmin.AdminActions
import McAdmin.AdminBackups
import McAdmin.AuditDetails

/-!
# Restores

A restore is accepted, waits for a backup of the world as it is, and is then handed to a worker
whose end, and the server's return, the coordinator's tick looks for.
-/

namespace AdminService

open AuditDetails (withApostrophes withoutBreaks)
open McAdmin ServiceCore

variable (cfg : Config)

/-! ### The journal of a restore -/

/-- How `_restore_event` shows a value. -/
def shownField (value : String) : String :=
  let text := cfg.digits.strip (withoutBreaks value.toList)
  .ofList (if ' ' ∈ text then '"' :: (withApostrophes text ++ ['"']) else text)

def restoreDetail (phase : String) (fields : List (String × String)) : String :=
  fields.foldl (fun text field => text ++ s!" {field.1}={shownField cfg field.2}")
    s!"phase={phase}"

def restoreEvent (user : User) (phase outcome : String) (fields : List (String × String)) :
    Program Unit :=
  record cfg user .backupRestore outcome (restoreDetail cfg phase fields)

def notifyRestore (title message level : String) : Program Unit :=
  notify title message level (some "restore")

/-! ### The checks -/

def portRunning (running : Program Bool) (label : String) : Program Bool :=
  tryCatch running fun e =>
    refuse .restoreUnavailable s!"état {label} illisible : {Error.str e}"

def issueIf (condition : Prop) [Decidable condition] (issue : String) : List String :=
  if condition then [issue] else []

def RestoreOperation.over (op : RestoreOperation) : Bool :=
  op.phase == "success" || op.phase == "failed"

def operationIssues : Program (List String) := do
  let operation ← memory .restoreOperation
  return issueIf (operation.any fun op => !op.over) "une restauration est déjà en cours"

def pendingIssues : Program (List String) :=
  if ¬cfg.hasPendingRestore then return ["coordinateur de restauration non configuré"]
  else do
    let pending ← outside .getPendingRestore
    return issueIf pending.isSome "une restauration attend déjà sa sauvegarde de sécurité"

def workerIssues : Program (List String) :=
  if ¬cfg.hasRestore then return ["conteneur de restauration non configuré"]
  else do
    let running ← portRunning (outside .restoreRunning) "restauration"
    return issueIf (running = true) "le conteneur de restauration est déjà en cours"

def doormanIssues : Program (List String) :=
  if ¬cfg.hasDoorman then return []
  else do
    match ← attempt (outside .doormanRunning) with
    | some true => return ["le serveur est en maintenance : le rouvrir avant de restaurer"]
    | some false => return []
    | none => return ["état du mode maintenance illisible"]

def closureIssues : Program (List String) :=
  if ¬cfg.hasPendingMaintenance then return []
  else do
    let pending ← outside .maintenancePending
    return issueIf pending.isSome ("une fermeture pour maintenance est annoncée : l'annuler ou " ++
      "attendre qu'elle soit terminée")

/-- `check.detail.strip() or other` -/
def checkDetail (check : ArchiveCheck) (other : String) : String :=
  let detail := stripped cfg check.detail
  if detail = "" then other else detail

def verdictIssues (filename : String) (archive : BackupArchive) (checking : Option String) :
    Option ArchiveCheck → List String
  | none =>
    if checking = some filename then ["vérification complète de l'archive en cours"]
    else ["archive pas encore vérifiée ; attendre le badge « vérifiée »"]
  | some check =>
    if check.sizeBytes ≠ archive.sizeBytes ∨ check.archiveCreatedAt ≠ archive.createdAt then
      if checking = some filename then ["archive modifiée ; nouvelle vérification en cours"]
      else ["archive modifiée depuis son dernier contrôle ; nouvelle vérification requise"]
    else if ¬check.ok then
      ["archive illisible ou dangereuse : " ++ checkDetail cfg check "erreur de lecture"]
    else match check.restorable with
      | none => ["ancien verdict incomplet ; nouvelle vérification requise"]
      | some true => []
      | some false =>
        ["archive non restaurable : " ++ checkDetail cfg check "monde Minecraft complet absent"]

def attemptOr {α : Type} (p : Program α) : Program (Except String α) :=
  tryCatch (.ok <$> p) fun e => return .error (Error.str e)

def findArchive (filename : String) (archives : List BackupArchive) : Option BackupArchive :=
  archives.find? (·.filename = filename)

/-- `_restore_archive_issues` -/
def archiveIssues (filename : String) : Program (List String) := do
  let found ← attemptOr do
    let archives ← outside .listArchives
    let path ← outside (.archivePath filename)
    return (findArchive filename archives).filter fun _ => path.isSome
  match found with
  | .error e => return [s!"accès aux sauvegardes impossible : {e}"]
  | .ok none => return [s!"archive introuvable : {filename}"]
  | .ok (some archive) =>
    if ¬cfg.hasArchiveChecks then
      return ["vérification d'intégrité des archives non configurée"]
    else do
      let verdict ← attemptOr do
        let statuses ← outside .archiveStatuses
        let checking ← outside .archiveChecking
        return (statuses.lookup filename, checking)
      match verdict with
      | .error e => return [s!"verdict d'intégrité illisible : {e}"]
      | .ok (check, checking) => return verdictIssues cfg filename archive checking check

def safetyIssues : Program (List String) := do
  let running ← portRunning (outside .safetyRunning) "sauvegarde de sécurité"
  return issueIf (running = true) "sauvegarde de sécurité déjà en cours"

def profileIssues : Program (List String) :=
  if ¬cfg.hasProfileBackup then return []
  else do
    let running ← portRunning (outside .profileBackupRunning) "sauvegarde de profil"
    return issueIf (running = true) "sauvegarde de profil déjà en cours"

def integrityIssues : Program (List String) :=
  if cfg.hasWorkerIntegrity then outside (.integrityIssues "restore" true) else return []

def allIssues : List (Program (List String)) → Program (List String)
  | [] => return []
  | check :: checks => do
    let issues ← check
    let others ← allIssues checks
    return issues ++ others

/-- `_restore_preflight_issues` -/
def preflightIssues (filename : String) : Program (List String) :=
  allIssues [operationIssues, pendingIssues cfg, workerIssues cfg,
    return issueIf (cfg.hasArchiveValidator = false)
      "validation immédiate des archives non configurée",
    doormanIssues cfg, closureIssues cfg, archiveIssues cfg filename, safetyIssues,
    profileIssues cfg, integrityIssues cfg]

/-! ### Accepting a restore -/

def restoreWaitMax : ℚ := 15 * 60

def restoreExecutionMax : ℚ := 30 * 60

def restoreHealthMax : ℚ := 5 * 60

def forgetOutcome : Program Unit := do
  let operation ← memory .restoreOperation
  if operation.any (·.over) then memory (.setRestoreOperation none) else return ()

def newRestoreId (filename : String) : Program String := do
  return s!"{cfg.isoformat (← now)}::{filename}"

def isSafety (filename : String) : Bool := "restore-safety/".toList.isPrefixOf filename.toList

/-- The safety backup is started, or the restore is given up. -/
def startSafety (user : User) (filename operationId : String) : Program Unit :=
  tryCatch
    (do
      let result ← outside .triggerSafety
      refuseIf (result.started = false) .backupUnavailable
        (if result.detail = "" then "le conteneur n'a pas démarré" else result.detail)
      memory (.setStartedAt "safety" (← now))
      let _ ← memory (.popProgressMax "safety")
      restoreEvent cfg user "security_backup_started" "allowed"
        [("archive", filename), ("operation_id", operationId), ("detail", result.detail)])
    fun e => do
      restoreEvent cfg user "security_backup_failed" "error"
        [("archive", filename), ("operation_id", operationId), ("error", Error.str e)]
      notifyRestore "Restauration annulée"
        (s!"{filename} : la sauvegarde de sécurité n'a pas pu démarrer. " ++
          "Le monde n'a pas été modifié.") "error"
      refuse .restoreUnavailable
        s!"sauvegarde de sécurité impossible : {Error.str e}; restauration annulée"

def acceptRestore (user : User) (filename : String) : Program Unit := do
  let operationId ← newRestoreId cfg filename
  restoreEvent cfg user "restore_requested" "allowed"
    [("archive", filename), ("requested_by", user.username), ("operation_id", operationId)]
  let archives ← outside .listArchives
  let before := (archives.map (·.filename)).filter isSafety
  startSafety cfg user filename operationId
  let deadline := (← now) + restoreWaitMax
  outside (.setPendingRestore ⟨filename, user.username, deadline, operationId, before⟩)
  restoreEvent cfg user "restore_pending" "allowed"
    [("archive", filename), ("requested_by", user.username), ("operation_id", operationId),
      ("deadline", cfg.isoformat deadline)]
  notifyRestore "Restauration programmée"
    s!"{filename} — démarrera dès la fin de la sauvegarde de sécurité." "info"

/-- `_restore_backup_locked` -/
def restoreLocked (user : User) (filename : String) : Program Unit := do
  forgetOutcome
  let path ← outside (.archivePath filename)
  if path.isNone then do
    restoreEvent cfg user "restore_rejected" "error"
      [("archive", filename), ("reason", "archive_not_found")]
    refuse .backupArchiveNotFound s!"archive introuvable : {filename}"
  else do
    let issues ← preflightIssues cfg filename
    if issues = [] then acceptRestore cfg user filename
    else do
      let detail := "; ".intercalate issues
      restoreEvent cfg user "restore_rejected" "error"
        [("archive", filename), ("reason", "preflight_failed"), ("detail", detail)]
      refuse .restoreUnavailable s!"préflight échoué : {detail}"

def restoreBackup (user : User) (filename : String) : Program String := do
  authorize cfg user .backupRestore
  restoreLocked cfg user filename
  return "pending"

def dismissActivityResult (user : User) : Program Bool := do
  authorize cfg user .backupTrigger
  let result ← memory .backupResult
  memory (.setBackupResult none)
  if ¬user.can .backupRestore then return result.isSome
  else do
    let operation ← memory .restoreOperation
    if operation.any (·.over) then do
      memory (.setRestoreOperation none)
      return true
    else return result.isSome

/-! ### The restore under way -/

/-- `_restore_operation_id` -/
def operationIdOf (op : RestoreOperation) : String :=
  if op.operationId = "" then s!"{cfg.isoformat op.startedAt}::{op.filename}" else op.operationId

/-- `_finish_restore_operation`: the attribute is read again. -/
def finishRestore (phase message : String) : Program (Option String) := do
  match ← memory .restoreOperation with
  | none => return some phase
  | some op => do
    let t ← now
    memory (.setRestoreOperation (some { op with phase, message, completedAt := some t }))
    return some phase

/-- The consigne of the doorman, which must not stop a restore. -/
def primeDoorman : Program Unit :=
  if cfg.hasDoorman then
    bestEffort (outside (.prime
      "§e⚙ Restauration en cours\n§fLe serveur revient dans quelques minutes."
      "Une sauvegarde est en cours de restauration. Reviens dans quelques minutes."))
  else return ()

/-- `operation_id or self._new_restore_operation_id(filename)` -/
def restoreIdOr (operationId filename : String) : Program String :=
  if operationId = "" then newRestoreId cfg filename else return operationId

def startRestoreAfterBackup (user : User) (pending : PendingRestore) : Program Unit := do
  primeDoorman cfg
  outside (.startRestore pending.filename)
  let t ← now
  let operationId ← restoreIdOr cfg pending.operationId pending.filename
  memory (.setRestoreOperation (some {
    filename := pending.filename
    requestedBy := pending.requestedBy
    phase := "restore_running"
    startedAt := t
    deadline := t + restoreExecutionMax
    message := "Étape 2/3 — remplacement du monde par l'archive."
    operationId }))
  restoreEvent cfg user "restore_started" "allowed"
    [("archive", pending.filename), ("requested_by", pending.requestedBy),
      ("operation_id", operationId)]

def failedRestore (user : User) (op : RestoreOperation) (fields : List (String × String)) :
    Program Unit :=
  restoreEvent cfg user "restore_failed" "error"
    ([("archive", op.filename), ("operation_id", operationIdOf cfg op)] ++ fields)

def restoreTimeout (user : User) (op : RestoreOperation) : Program (Option String) :=
  if op.phase = "restore_running" then do
    restoreEvent cfg user "restore_failed" "error"
      [("archive", op.filename), ("requested_by", op.requestedBy),
        ("operation_id", operationIdOf cfg op), ("reason", "execution_timeout")]
    finishRestore "failed" "Le conteneur de restauration n'a pas terminé dans les temps."
  else do
    restoreEvent cfg user "minecraft_unhealthy_timeout" "error"
      [("archive", op.filename), ("requested_by", op.requestedBy),
        ("operation_id", operationIdOf cfg op)]
    failedRestore cfg user op [("reason", "health_timeout")]
    finishRestore "failed" ("Le monde a été restauré, mais le serveur n'est pas revenu en ligne " ++
      "dans les temps.")

/-- The server is back once it runs, is not unhealthy and answers. -/
def serverBack : Program (Option ContainerState) := do
  match ← attempt (outside .containerStatus) with
  | none => return none
  | some state =>
    if ¬state.running ∨ state.health.any fun health => health ≠ "healthy" then return none
    else do
      let answers ← attempt (outside .listPlayers)
      return if answers.isSome then some state else none

def awaitMinecraft (user : User) (op : RestoreOperation) : Program (Option String) := do
  match ← serverBack with
  | none => return none
  | some state => do
    restoreEvent cfg user "minecraft_healthy" "allowed"
      [("archive", op.filename), ("operation_id", operationIdOf cfg op),
        ("health", orElse state.health "rcon_ok")]
    restoreEvent cfg user "restore_completed" "allowed"
      [("archive", op.filename), ("requested_by", op.requestedBy),
        ("operation_id", operationIdOf cfg op)]
    finishRestore "success" "Le monde a été restauré, le serveur est de nouveau en ligne."

def exitText : Option ℤ → String
  | some code => s!"code de sortie {code}"
  | none => "code de sortie inconnu"

def restoreDone (user : User) (op : RestoreOperation) (t : Instant) : Program (Option String) := do
  restoreEvent cfg user "restore_done" "allowed"
    [("archive", op.filename), ("operation_id", operationIdOf cfg op)]
  restoreEvent cfg user "minecraft_restarting" "allowed"
    [("archive", op.filename), ("operation_id", operationIdOf cfg op)]
  let op : RestoreOperation := { op with
    phase := "waiting_minecraft"
    deadline := t + restoreHealthMax
    message := "Étape 3/3 — redémarrage du serveur."
    completedAt := none }
  memory (.setRestoreOperation (some op))
  awaitMinecraft cfg user op

/-- `self._restore is not None and self._restore.is_running()`, or what it raised -/
def restoreRunning : Program (Except String Bool) :=
  attemptOr (if cfg.hasRestore then outside .restoreRunning else return false)

def restoreExit : Program (Except String (Option ℤ)) :=
  attemptOr (if cfg.hasRestore then outside .restoreExitCode else return none)

def watchWorker (user : User) (op : RestoreOperation) (t : Instant) :
    Program (Option String) := do
  match ← restoreRunning cfg with
  | .ok true => return none
  | .error e => do
    failedRestore cfg user op [("error", e)]
    finishRestore "failed" "État de mc-restore illisible."
  | .ok false => do
    match ← restoreExit cfg with
    | .error e => do
      failedRestore cfg user op [("error", e)]
      notifyRestore "Restauration échouée" e "error"
      finishRestore "failed" "Le résultat du conteneur de restauration est illisible."
    | .ok exitCode =>
      if exitCode = some 0 then restoreDone cfg user op t
      else do
        failedRestore cfg user op [("reason", "container_exit"), ("detail", exitText exitCode)]
        let message := s!"Le conteneur de restauration a échoué ({exitText exitCode})."
        notifyRestore "Restauration échouée" message "error"
        finishRestore "failed" message

def tickRestoreOperation (user : User) : Program (Option String) := do
  match ← memory .restoreOperation with
  | none => return none
  | some op => do
    let t ← now
    if op.over then return some op.phase
    else if op.deadline ≤ t then restoreTimeout cfg user op
    else if op.phase = "restore_running" then watchWorker cfg user op t
    else if op.phase = "waiting_minecraft" then awaitMinecraft cfg user op
    else return none

/-! ### The pending restore -/

/-- `_remember_pending_restore_failure` -/
def rememberFailure (pending : PendingRestore) (message : String) : Program Unit := do
  let t ← now
  memory (.setRestoreOperation (some {
    filename := pending.filename
    requestedBy := pending.requestedBy
    phase := "failed"
    startedAt := pending.deadline - restoreWaitMax
    deadline := t
    message
    completedAt := some t
    operationId := pending.operationId }))

def abandon (user : User) (pending : PendingRestore) (phase title message : String)
    (fields : List (String × String)) : Program (Option String) := do
  outside .clearPendingRestore
  restoreEvent cfg user phase "error"
    ([("archive", pending.filename), ("requested_by", pending.requestedBy),
      ("operation_id", pending.operationId)] ++ fields)
  rememberFailure pending message
  notifyRestore title message "error"
  return some "abandoned"

def newSafetyArchive (pending : PendingRestore) : Program (Option BackupArchive) := do
  let archives ← outside .listArchives
  return newest (archives.filter fun a =>
    isSafety a.filename && !pending.safetyArchivesBefore.contains a.filename)

/-- The verdict on an archive; the attribute that tells of it is cleared in the end. -/
def validate (filename : String) : Program ArchiveCheck := do
  memory (.setSafetyValidation (some filename))
  let check ← tryCatch (outside (.validateArchive filename)) fun e => do
    memory (.setSafetyValidation none)
    throw e
  memory (.setSafetyValidation none)
  return check

def refuseVerdict (check : ArchiveCheck) (current : BackupArchive) : Program BackupArchive := do
  refuseIf (check.filename ≠ current.filename ∨ check.sizeBytes ≠ current.sizeBytes ∨
      check.archiveCreatedAt ≠ current.createdAt) .restoreUnavailable
    "la sauvegarde de sécurité a changé pendant sa vérification"
  refuseIf (check.ok = false) .restoreUnavailable
    ("sauvegarde de sécurité illisible : " ++ checkDetail cfg check "erreur de lecture")
  refuseIf (check.restorable ≠ some true) .restoreUnavailable
    ("sauvegarde de sécurité non restaurable : " ++
      checkDetail cfg check "monde Minecraft complet absent")
  return current

def validateNewSafetyArchive (pending : PendingRestore) : Program BackupArchive := do
  match ← newSafetyArchive pending with
  | none =>
    refuse .restoreUnavailable
      "le conteneur s'est terminé sans produire de nouvelle archive de sécurité"
  | some archive => do
    refuseIf (cfg.hasArchiveValidator = false) .restoreUnavailable
      "validation immédiate des archives non configurée"
    let check ← validate archive.filename
    let archives ← outside .listArchives
    match findArchive archive.filename archives with
    | none =>
      refuse .restoreUnavailable "la sauvegarde de sécurité a disparu pendant sa vérification"
    | some current => refuseVerdict cfg check current

def launchRestore (user : User) (pending : PendingRestore) (safety : BackupArchive) :
    Program (Option String) := do
  tryCatch
    (do
      restoreEvent cfg user "security_backup_done" "allowed"
        [("archive", pending.filename), ("security_archive", safety.filename),
          ("requested_by", pending.requestedBy), ("operation_id", pending.operationId)]
      startRestoreAfterBackup cfg user pending
      outside .clearPendingRestore)
    fun e => do
      outside .clearPendingRestore
      restoreEvent cfg user "restore_failed" "error"
        [("archive", pending.filename), ("operation_id", pending.operationId),
          ("error", Error.str e)]
      notifyRestore "Restauration échouée" (Error.str e) "error"
      throw e
  notifyRestore "Restauration lancée" s!"{pending.filename} — le serveur va redémarrer." "info"
  return some "restored"

/-- The safety backup has succeeded: its archive and that of the restore are looked at. -/
def afterSafety (user : User) (pending : PendingRestore) : Program (Option String) := do
  match ← attemptOr (validateNewSafetyArchive cfg pending) with
  | .error e =>
    abandon cfg user pending "security_backup_failed" "Restauration annulée"
      (s!"{pending.filename} : {e}. " ++
        "La restauration est annulée et le monde n'a pas été modifié.")
      [("reason", "archive_validation"), ("detail", e)]
  | .ok safety => do
    let issues ← archiveIssues cfg pending.filename
    if issues = [] then launchRestore cfg user pending safety
    else
      let detail := "; ".intercalate issues
      abandon cfg user pending "restore_failed" "Restauration annulée"
        (s!"{pending.filename} n'est plus utilisable : {detail}. " ++
          "La restauration est annulée et le monde n'a pas été modifié.")
        [("reason", "target_revalidation"), ("detail", detail)]

/-- The exit code of a safety backup that has ended, if that can be read. -/
def safetyExit : Program (Option (Option ℤ)) := do
  match ← attempt (outside .safetyRunning) with
  | some false => attempt (outside .safetyExitCode)
  | _ => return none

def tickAccepted (user : User) (pending : PendingRestore) : Program (Option String) := do
  let t ← now
  if pending.deadline ≤ t then
    abandon cfg user pending "security_backup_timeout" "Restauration abandonnée"
      (s!"{pending.filename} : la sauvegarde de sécurité n'a pas terminé dans les temps. " ++
        "Le monde n'a pas été modifié.") []
  else do
    match ← safetyExit with
    | none => return none
    | some exitCode =>
      if exitCode = some 0 then afterSafety cfg user pending
      else do
        abandon cfg user pending "security_backup_failed" "Restauration annulée"
          (s!"{pending.filename} : la sauvegarde de sécurité a échoué ({exitText exitCode}). " ++
            "Le monde n'a pas été modifié.")
          [("reason", "container_exit"), ("detail", exitText exitCode)]

def tickPendingRestore (user : User) : Program (Option String) := do
  authorize cfg user .backupRestore
  scanBackupOutcomes cfg
  match ← pendingRestore cfg with
  | none => tickRestoreOperation cfg user
  | some pending => tickAccepted cfg user pending

end AdminService
