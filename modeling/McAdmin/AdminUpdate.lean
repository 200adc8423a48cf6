import McAdmin.AdminPorts

/-!
# Updates

The update of the server, by a container that goes on by itself once it is started, and the update
of the application.
-/

namespace AdminService

open McAdmin ServiceCore

variable (cfg : Config) {α : Type}

/-- `try: … except` of one class. -/
def catching (errorClass : ErrorClass) (p : Program α) : Program (Option α) :=
  tryCatch (some <$> p) fun e => if Error.isA errorClass e then return none else throw e

/-! ### The update of the server -/

def updateWatchUser : User where
  username := "update-watch"
  role := { name := "automation", permissions := [.update] }

def versionAfterText : Option String → String
  | some version => if version = "" then "?" else version
  | none => "?"

/-- `f"Le serveur …"`, by the versions before and after. -/
def updateMessage (before after : Option String) : String :=
  match after.filter (· ≠ ""), before.filter (· ≠ "") with
  | some after, some before =>
    if after ≠ before then s!"Le serveur est passé de la version {before} à {after}."
    else s!"Le serveur tourne en version {after}."
  | some after, none => s!"Le serveur tourne en version {after}."
  | none, _ => "Le serveur a été mis à jour."

def currentVersion : Program (Option String) := do
  let status ← attempt (outside .checkUpdate)
  return status.bind (·.currentVersion)

def concludeUpdate (operation : UpdateOperation) : Program Unit := do
  memory (.setUpdateOperation none)
  let code ← attempt (outside .updaterExitCode)
  match code.join.filter (· ≠ 0) with
  | some code => do
    record cfg updateWatchUser .update "error"
      s!"phase=update_failed exit_code={code} operation_id={operation.operationId}"
    notify "Mise à jour du serveur échouée"
      (s!"Le conteneur de mise à jour s'est arrêté en erreur (code {code}). " ++
        "Le serveur n'a peut-être pas redémarré — vérifier son état.") "error" (some "update")
  | none => do
    let versionAfter ← currentVersion
    record cfg updateWatchUser .update "allowed"
      (s!"phase=update_done version={versionAfterText versionAfter} " ++
        s!"operation_id={operation.operationId}")
    notify "Serveur mis à jour" (updateMessage operation.versionBefore versionAfter) "info"
      (some "update")

/-- `_scan_update_outcome`: the attribute is looked at, and read again. -/
def scanUpdateOutcome : Program Unit := do
  let seen ← memory .updateOperation
  if seen.isNone then return ()
  else do
    match ← attempt (outside .updaterRunning) with
    | some false => do
      match ← memory .updateOperation with
      | none => refuse .other "cannot unpack non-iterable NoneType object"
      | some operation => concludeUpdate cfg operation
    | _ => return ()

def updateStatus (user : User) : Program UpdateStatus := do
  authorize cfg user .update
  scanUpdateOutcome cfg
  outside .checkUpdate

/-- The players, or nothing when the server cannot be reached. -/
def refuseWithPlayers (user : User) (force : Bool) : Program Unit := do
  let players ← catching .serverUnavailable (outside .listPlayers)
  if (players.any fun players => players.isEmpty) ∨ force then return ()
  else
    let detail := players.elim "nombre de joueurs inconnu (RCON indisponible)"
      fun players => s!"{players.length} joueur(s) connecté(s)"
    deny cfg user .update s!"bloqué : {detail}, confirmation requise" .updateBlocked
      s!"{detail} — cocher la confirmation pour forcer"

def warnBeforeUpdate : Program (List String) := do
  let skipped := "say/save-all sautés (RCON indisponible)"
  match ← catching .serverUnavailable (outside (.say
    "⚠ Mise à jour du serveur imminente — coupure temporaire dans quelques instants.")) with
  | none => return [skipped]
  | some () => do
    match ← catching .serverUnavailable (outside .saveAll) with
    | none => return ["say", skipped]
    | some () => return ["say", "save-all"]

/-- The container of the update, and an entry when it does not start. -/
def startUpdater (user : User) (steps : List String) : Program Unit :=
  tryCatch (outside .startUpdater) fun e => do
    record cfg user .update "error" ("; ".intercalate (steps ++ [Error.str e]))
    notify "Mise à jour échouée" (Error.str e) "error"
    throw e

/-- `self._doorman is not None and self._doorman.is_running()` -/
def doormanRunning : Program Bool :=
  if cfg.hasDoorman then outside .doormanRunning else return false

def refuseUpdateInMaintenance (user : User) : Program Unit := do
  let closed ← doormanRunning cfg
  if closed then
    deny cfg user .update "bloqué : serveur en maintenance (le portier occupe son adresse)"
      .updateUnavailable ("Le serveur est en maintenance : le rouvrir avant de lancer la " ++
        "mise à jour (le portier occupe son adresse réseau).")
  else return ()

def applyUpdate (user : User) (force : Bool) : Program Unit := do
  authorize cfg user .update
  refuseUpdateInMaintenance cfg user
  refuseWithPlayers cfg user force
  let steps ← warnBeforeUpdate
  let versionBefore ← currentVersion
  startUpdater cfg user steps
  let steps := "; ".intercalate (steps ++ ["mc-updater démarré"])
  let operationId := s!"update::{cfg.isoformat (← now)}"
  memory (.setUpdateOperation (some ⟨operationId, versionBefore⟩))
  record cfg user .update "allowed"
    (s!"phase=update_started requested_by={user.username} operation_id={operationId} " ++ steps)
  notify "Mise à jour du serveur lancée" steps "info" (some "update")

/-! ### The update of the application -/

def knownRelease : Program (Option String) :=
  if cfg.hasAppUpdateState then outside .knownRelease else return none

/-- `self._self_image.image() if self._self_image else ""` -/
def ownImage : Program String := if cfg.hasSelfImage then outside .ownImage else return ""

/-- `_app_update_applicable`: the reason it is not, if any. -/
def appUpdateInapplicable : Program (Option String) :=
  if ¬cfg.hasAppUpdater then
    return some "mise à jour en un clic non configurée sur cette installation"
  else do
    let image ← ownImage cfg
    if image = "" then
      return some "mode d'installation indéterminable — mise à jour manuelle"
    else if '/' ∉ image.toList then
      return some ("installation construite depuis le dépôt git — " ++
        "mise à jour via git pull + redéploiement, pas par l'image")
    else return none

/-- A number of hours from an instant on, `none` where it is no date. -/
def hoursAfter (t : Instant) : ProfileSchedule.Hours → Option Instant
  | .finite hours =>
    if -62135596800 ≤ t + hours * 3600 ∧ t + hours * 3600 < 253402300800 then
      some (t + hours * 3600)
    else none
  | _ => none

def snoozeAppUpdate (user : User) (hours : ProfileSchedule.Hours) : Program Unit := do
  authorize cfg user .update
  match ← knownRelease cfg with
  | none => refuse .updateBlocked "aucune mise à jour connue — rien à repousser"
  | some version =>
    if ¬cfg.hasAppUpdateSnooze then
      refuse .updateUnavailable "report du rappel non configuré côté serveur"
    else do
      match hoursAfter (← now) hours with
      | none => refuse .other "date value out of range"
      | some until_ => do
        outside (.snoozeUpdate version until_)
        record cfg user .update "allowed"
          s!"phase=app_update_snoozed version={version} until={cfg.isoformat until_}"

/-- `doorman is not None and self._doorman_engaged_or_unknown(doorman)` -/
def doormanEngagedOrUnknown : Program Bool := do
  let running ← attempt (doormanRunning cfg)
  return running.getD true

/-- What keeps the application busy, for the journal and for the user. -/
def appBusy : Program (Option (String × String)) := do
  let restoring ← restoreInProgress cfg
  if restoring then
    return some ("restauration-en-cours",
      "une restauration est en cours — réessayer une fois terminée")
  else do
    let closed ← doormanEngagedOrUnknown cfg
    if closed then
      return some ("maintenance-en-cours", "le serveur est en maintenance — le rouvrir avant de " ++
        "mettre à jour l'application")
    else if ¬cfg.hasProfileBackup then return none
    else do
      match ← attempt (outside .profileBackupRunning) with
      | some true => return some ("sauvegarde-en-cours",
          "une sauvegarde est en cours — réessayer une fois terminée")
      | some false => return none
      | none => return some ("etat-sauvegarde-illisible",
          "l'état des sauvegardes est illisible — réessayer dans un instant")

/-- The container, and an entry when the update is not to be had. -/
def startAppUpdater (user : User) (version : String) : Program Unit :=
  tryCatch (outside .startAppUpdater) fun e =>
    if Error.isA .updateUnavailable e then do
      record cfg user .update "error" s!"phase=app_update_failed version={version} {Error.str e}"
      notify "Mise à jour de mc-admin échouée" (Error.str e) "error"
      throw e
    else throw e

def applyAppUpdate (user : User) : Program Unit := do
  authorize cfg user .update
  match ← knownRelease cfg with
  | none =>
    deny cfg user .update "phase=app_update_blocked raison=aucune-version-connue" .updateBlocked
      "aucune mise à jour connue — la vérification n'a pas encore eu lieu"
  | some version => do
    match ← appUpdateInapplicable cfg with
    | some reason =>
      deny cfg user .update s!"phase=app_update_blocked raison={cfg.repr reason}" .updateBlocked
        reason
    | none => do
      match ← appBusy cfg with
      | some (busy, message) =>
        deny cfg user .update s!"phase=app_update_blocked raison={busy}" .updateBlocked message
      | none => do
        startAppUpdater cfg user version
        record cfg user .update "allowed" s!"phase=app_update_applied version={version}"
        notify "Mise à jour de mc-admin lancée"
          s!"vers la version {version} — l'application redémarre" "info" (some "app_update")

end AdminService
