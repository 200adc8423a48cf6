import McAdmin.AdminActions
import McAdmin.ScheduledMaintenance

/-!
# Maintenance

The server is stopped and the doorman takes its address, at once or at a planned time that a tick
looks at; reopening relieves the doorman first.
-/

namespace AdminService

open McAdmin ServiceCore

variable (cfg : Config)

/-! ### What the players read -/

def defaultMotdTitle : String := "§e⚙ Maintenance en cours"

def defaultMessage : String := "Le serveur est fermé pour maintenance."

/-- `build_maintenance_messages`: the text of the list of servers, and that of a refusal. -/
def buildMaintenanceMessages (message until_ : String) : String × String :=
  let body := squeezed cfg 120 message
  let horizon := squeezed cfg 40 until_
  let secondLine :=
    if body ≠ "" ∧ horizon ≠ "" then s!"{body} §7(retour prévu : {horizon})"
    else if body ≠ "" then body
    else if horizon ≠ "" then s!"§7retour prévu : {horizon}"
    else ""
  let colour := if "§".toList.isPrefixOf secondLine.toList then "" else "§f"
  let motd := if secondLine = "" then defaultMotdTitle
    else s!"{defaultMotdTitle}\n{colour}{secondLine}"
  let kickBody := if body = "" then defaultMessage else body
  (motd, if horizon = "" then kickBody else s!"{kickBody}\n\nRetour prévu : {horizon}")

def unfitMessage (issues : List String) : String :=
  "le portier de maintenance ne peut pas prendre le relais, le serveur reste ouvert — " ++
    " ; ".intercalate issues

/-! ### Closing -/

/-- `_restoring`: what cannot be read counts as a restore. -/
def restoring : Program Bool := do
  let inProgress ← attempt (restoreInProgress cfg)
  return inProgress.getD true

def doormanUnfitIssues : Program (List String) :=
  if ¬cfg.hasWorkerIntegrity then return []
  else do
    let issues ← attempt (outside (.integrityIssues "maintenance" false))
    return issues.getD []

/-- A call that changes the server, an entry and a notification when it raises. -/
def orReport (p : Program Unit) (user : User) (detail title : String)
    (message : ServiceCore.Raised Failure Failure → String) (event : Option String) : Program Unit :=
  tryCatch p fun e => do
    record cfg user .maintenance "error" detail
    notify title (message e) "error" event
    throw e

def maintenanceStopTimeoutSeconds : ℤ := 120

/-- `operation_id or f"maintenance::…"` -/
def maintenanceIdOr (operationId : String) : Program String := do
  if operationId ≠ "" then return operationId
  else return s!"maintenance::{cfg.isoformat (← now)}"

def engageMaintenance (user : User) (motd kick requestedBy : String) (operationId : String := "") :
    Program Unit := do
  let opId ← maintenanceIdOr cfg operationId
  let common := s!"requested_by={requestedBy} operation_id={opId}"
  bestEffort do
    outside (.say "⚠ Fermeture du serveur pour maintenance.")
    outside .saveAll
  orReport cfg (outside (.stopContainer maintenanceStopTimeoutSeconds)) user
    s!"phase=maintenance_stop_failed {common}" "Mise en maintenance échouée" Error.str none
  orReport cfg (outside (.engage motd kick)) user s!"phase=maintenance_doorman_failed {common}"
    "Portier de maintenance absent"
    (fun e => "Le serveur est bien arrêté, mais le portier n'a pas pris " ++
      s!"son poste ({Error.str e}). Les joueurs ne verront aucun message. " ++
      "Utilisez « Rouvrir le serveur » pour revenir en ligne.") (some "restart")
  record cfg user .maintenance "allowed" s!"phase=maintenance_engaged {common}"
  notify "Serveur en maintenance"
    s!"Fermé par {requestedBy}. Le portier répond aux joueurs à sa place." "info" (some "restart")

/-- What `enter_maintenance` checks before it closes anything. -/
def refuseToClose (user : User) (grace : ProfileSchedule.Hours) (negative : Bool) :
    Program Unit := do
  refuseIf (cfg.hasDoorman = false) .maintenanceUnavailable
    "mode maintenance indisponible : aucun portier configuré"
  refuseIf (negative = true) .invalidDuration
    s!"délai invalide : {cfg.floatText grace}min (doit être >= 0)"
  let restoring ← restoring cfg
  (if restoring then
    deny cfg user .maintenance ("phase=maintenance_blocked raison=restauration-en-cours " ++
      s!"requested_by={user.username}") .maintenanceUnavailable
      "une restauration est en cours : réessayer une fois terminée"
    else return () : Program Unit)
  let closed ← outside .doormanRunning
  refuseIf (closed = true) .maintenanceUnavailable "le serveur est déjà en maintenance"
  let unfit ← doormanUnfitIssues cfg
  if unfit = [] then return ()
  else deny cfg user .maintenance ("phase=maintenance_blocked raison=portier-inapte " ++
    s!"requested_by={user.username}") .maintenanceUnavailable (unfitMessage unfit)

/-- `minutes < 0` -/
def negative : ProfileSchedule.Hours → Bool
  | .finite minutes => minutes < 0
  | .infinite negative => negative
  | .notANumber => false

def announceMaintenance (user : User) (motd kick : String) (grace : ProfileSchedule.Hours)
    (deferIfPlayers : Bool) : Program Unit := do
  refuseIf (cfg.hasPendingMaintenance = false) .maintenanceUnavailable
    "délai de grâce indisponible : aucun suivi d'annonce configuré"
  match minutesAfter (← now) grace with
  | none => refuse .other "date value out of range"
  | some (engageAt, seconds) => do
    outside (.scheduleMaintenance engageAt user.username motd kick seconds deferIfPlayers)
    let delay := formatSeconds (truncated seconds)
    say s!"⚠ Fermeture du serveur pour maintenance dans {delay}."
    record cfg user .maintenance "allowed"
      (s!"phase=maintenance_scheduled delay=\"{delay}\" requested_by={user.username} " ++
        s!"operation_id=maintenance::{cfg.isoformat engageAt}")

def enterMaintenance (user : User) (message until_ : String) (grace : ProfileSchedule.Hours)
    (deferIfPlayers : Bool) : Program Unit := do
  authorize cfg user .maintenance
  refuseToClose cfg user grace (negative grace)
  let (motd, kick) := buildMaintenanceMessages cfg (sanitizeReason cfg message)
    (sanitizeReason cfg until_)
  if grace.positive then announceMaintenance cfg user motd kick grace deferIfPlayers
  else engageMaintenance cfg user motd kick user.username

def pendingMaintenance : Program (Option PendingMaintenance) :=
  if cfg.hasPendingMaintenance then outside .maintenancePending else return none

def cancelMaintenance : Program Bool :=
  if cfg.hasPendingMaintenance then outside .cancelMaintenance else return false

def cancelPendingMaintenance (user : User) : Program Unit := do
  authorize cfg user .maintenance
  let pending ← pendingMaintenance cfg
  let had ← cancelMaintenance cfg
  match pending.filter fun _ => had with
  | some pending => do
    say "✅ Maintenance annulée : le serveur reste ouvert."
    record cfg user .maintenance "allowed"
      (s!"phase=maintenance_cancelled requested_by={user.username} " ++
        s!"operation_id={pending.operationId}")
  | none => record cfg user .maintenance "allowed" "rien à annuler"

/-! ### Reopening -/

def exitMaintenance (user : User) : Program Unit := do
  authorize cfg user .maintenance
  refuseIf (cfg.hasDoorman = false) .maintenanceUnavailable
    "mode maintenance indisponible : aucun portier configuré"
  let restoring ← restoring cfg
  (if restoring then
    deny cfg user .maintenance ("phase=maintenance_release_blocked raison=restauration-en-cours " ++
      s!"requested_by={user.username}") .maintenanceUnavailable
      ("le serveur est fermé pour une restauration en cours : il rouvrira de lui-même une fois " ++
        "celle-ci terminée")
    else return () : Program Unit)
  let _ ← cancelMaintenance cfg
  orReport cfg (outside .release) user
    s!"phase=maintenance_release_failed requested_by={user.username}" "Réouverture impossible"
    Error.str none
  orReport cfg (outside .startContainer) user
    s!"phase=maintenance_restart_failed requested_by={user.username}" "Réouverture échouée"
    Error.str none
  record cfg user .maintenance "allowed" s!"phase=maintenance_ended requested_by={user.username}"
  notify "Serveur rouvert"
    s!"La maintenance est terminée ({user.username}). Le serveur redémarre." "info"
    (some "restart")

/-! ### The listed closures -/

def isKind (kind : String) : Bool := kind == "once" || kind == "weekly"

/-- `tuple(sorted({int(w) for w in weekdays if 0 <= int(w) <= 6}))` -/
def cleanWeekdays (weekdays : List ℤ) : List ℤ :=
  (List.range 7).filterMap fun day => if (day : ℤ) ∈ weekdays then some (day : ℤ) else none

/-- The date of a single closure, and the days of a repeated one. -/
def cleanWhen (kind date : String) (weekdays : List ℤ) : Program (String × List ℤ) :=
  if kind = "once" then
    match cfg.strptime date with
    | none => refuse .invalidDuration s!"date invalide : {cfg.repr date} (attendu AAAA-MM-JJ)"
    | some day => do
      let t ← now
      if day < cfg.localDay t then refuse .invalidDuration "date déjà passée"
      else return (cfg.dateText day, [])
  else if cleanWeekdays weekdays = [] then
    refuse .invalidDuration "aucun jour de semaine sélectionné"
  else return ("", cleanWeekdays weekdays)

def addScheduledMaintenance (user : User) (form : ScheduledMaintenance) : Program String := do
  authorize cfg user .maintenance
  refuseIf (cfg.hasScheduledMaintenance = false) .serverUnavailable
    "maintenances programmées non configurées côté serveur"
  refuseIf (isKind form.kind = false) .invalidDuration
    s!"type de programmation invalide : {cfg.repr form.kind}"
  refuseIf (isTimeOfDay cfg form.timeHhmm = false) .invalidDuration
    s!"heure invalide : {cfg.repr form.timeHhmm} (attendu HH:MM)"
  refuseIf (form.leadSeconds ≤ 0) .invalidDuration
    s!"préavis invalide : {form.leadSeconds}s (doit être > 0)"
  let (date, weekdays) ← cleanWhen cfg form.kind form.date form.weekdays
  let id ← outside (.addScheduledMaintenance { form with
    id := ""
    date
    weekdays
    message := sanitizeReason cfg form.message
    until_ := sanitizeReason cfg form.until_ })
  let days := if form.kind = "once" then date else "jours=" ++ ",".intercalate (weekdays.map toString)
  record cfg user .maintenance "allowed"
    s!"maintenance programmée ajoutée (id={id} {form.kind} {days} {form.timeHhmm})"
  return id

def removeListed (id : String) : Program Bool :=
  if cfg.hasScheduledMaintenance then outside (.removeScheduledMaintenance id) else return false

def removeScheduledMaintenance (user : User) (id : String) : Program Unit := do
  authorize cfg user .maintenance
  let had ← removeListed cfg id
  record cfg user .maintenance "allowed"
    (if had then s!"maintenance programmée retirée (id={id})" else "rien à retirer")

def appliesToday (entry : ScheduledMaintenance) (t : Instant) : Bool :=
  if entry.kind = "once" then entry.date == cfg.dateText (cfg.localDay t)
  else if entry.kind = "weekly" then
    entry.weekdays.contains (ScheduledMaintenance.weekday (cfg.localDay t))
  else false

/-- `_scheduled_target_today`: no time, where the text is none or the entry is not of today; and an
hour that is no hour raises. -/
def scheduledTargetToday (entry : ScheduledMaintenance) (t : Instant) :
    Program (Option Instant) :=
  match hourAndMinute cfg entry.timeHhmm with
  | none => return none
  | some (hour, minute) =>
    if ¬appliesToday cfg entry t then return none
    else match cfg.todayAt t hour minute with
      | none => refuse .other "hour must be in 0..23"
      | some target => return some target

/-- An entry whose lead has begun is announced, unless the doorman is unfit. -/
def armScheduledMaintenance (user : User) (entry : ScheduledMaintenance) (target : Instant)
    (remaining : ℚ) (today : String) : Program Unit := do
  let unfit ← doormanUnfitIssues cfg
  if unfit ≠ [] then do
    outside (.markMaintenanceFired entry.id today)
    record cfg user .maintenance "denied"
      s!"phase=maintenance_blocked raison=portier-inapte programmee={entry.timeHhmm}"
    notify "Maintenance programmée non engagée" (unfitMessage unfit) "error" (some "restart")
  else do
    let (motd, kick) := buildMaintenanceMessages cfg entry.message entry.until_
    outside (.scheduleMaintenance target user.username motd kick remaining entry.deferIfPlayers)
    say ("⚠ Fermeture programmée pour maintenance dans " ++
      s!"{formatSeconds (truncated remaining)}.")
    record cfg user .maintenance "allowed" s!"maintenance programmée armée (à {entry.timeHhmm})"
    outside (.markMaintenanceFired entry.id today)

def removeIfOnce (entry : ScheduledMaintenance) : Program Unit :=
  if entry.kind = "once" then do
    let _ ← outside (.removeScheduledMaintenance entry.id)
    return ()
  else return ()

/-- What is done about an entry; the loop goes on after `true`. -/
def visitEntry (user : User) (t : Instant) (today : String) (entry : ScheduledMaintenance) :
    Program Bool :=
  if entry.kind = "once" ∧ entry.date ≠ "" ∧ entry.date < today then do
    let _ ← outside (.removeScheduledMaintenance entry.id)
    return true
  else do
    match ← scheduledTargetToday cfg entry t with
    | none => return true
    | some target => do
      let fired ← outside (.maintenanceLastFired entry.id)
      if fired = some today then return true
      else if target ≤ t then do
        outside (.markMaintenanceFired entry.id today)
        removeIfOnce entry
        return true
      else if entry.leadSeconds < target - t then return true
      else do
        armScheduledMaintenance cfg user entry target (target - t) today
        return false

def visitEntries (user : User) (t : Instant) (today : String) :
    List ScheduledMaintenance → Program Unit
  | [] => return ()
  | entry :: entries => do
    let goesOn ← visitEntry cfg user t today entry
    if goesOn then visitEntries user t today entries else return ()

/-- An announced closure, a doorman in place or a restore keeps the list waiting. -/
def closureInTheWay : Program Bool := do
  let pending ← outside .maintenancePending
  if pending.isSome then return true
  else do
    let running ← attempt (outside .doormanRunning)
    if running = some true then return true else restoring cfg

def tickScheduledMaintenance (user : User) : Program Unit :=
  if ¬cfg.hasScheduledMaintenance ∨ ¬cfg.hasPendingMaintenance ∨ ¬cfg.hasDoorman then return ()
  else do
    let entries ← outside .listScheduledMaintenance
    if entries = [] then return ()
    else do
      let inTheWay ← closureInTheWay cfg
      if inTheWay then return ()
      else do
        let t ← now
        visitEntries cfg user t (cfg.dateText (cfg.localDay t)) entries

/-! ### The announced closure -/

/-- A restore keeps the closure waiting, which is told once. -/
def deferForRestore (user : User) (pending : PendingMaintenance) : Program Unit := do
  let hold := s!"{pending.operationId}::restauration"
  let announced ← memory (.announced hold)
  if announced then return ()
  else do
    memory (.announce hold)
    record cfg user .maintenance "allowed" ("phase=maintenance_deferred " ++
      s!"raison=restauration-en-cours operation_id={pending.operationId}")
    notify "Maintenance reportée"
      "Une restauration est en cours : la fermeture aura lieu dès qu'elle sera terminée." "info"
      (some "restart")

/-- The closure takes place, unless the doorman has become unfit. -/
def performMaintenance (user : User) (pending : PendingMaintenance) : Program Unit := do
  memory (.unannounce pending.operationId)
  memory (.unannounce s!"{pending.operationId}::restauration")
  let _ ← outside .cancelMaintenance
  let unfit ← doormanUnfitIssues cfg
  if unfit ≠ [] then do
    say "✅ Maintenance annulée : le serveur reste ouvert."
    record cfg user .maintenance "denied"
      (s!"phase=maintenance_blocked raison=portier-inapte requested_by={pending.requestedBy} " ++
        s!"operation_id={pending.operationId}")
    notify "Maintenance annulée" (unfitMessage unfit) "error" (some "restart")
  else engageMaintenance cfg user pending.motd pending.kick pending.requestedBy pending.operationId

def dueMaintenance (user : User) (pending : PendingMaintenance) : Program Unit := do
  let restoring ← restoring cfg
  if restoring then deferForRestore cfg user pending
  else do
    let held ← heldByPlayers pending.deferIfPlayers
    if held then noteDeferredOnce cfg user .maintenance pending.operationId "Maintenance"
    else performMaintenance cfg user pending

def warnOfMaintenance (t : Instant) : Program Unit := do
  match ← outside (.dueMaintenanceWarning t) with
  | none => return ()
  | some threshold => say s!"⚠ Fermeture pour maintenance dans {formatSeconds threshold}"

def tickMaintenance (user : User) : Program Unit := do
  authorize cfg user .maintenance
  tickScheduledMaintenance cfg user
  match ← pendingMaintenance cfg with
  | none => return ()
  | some pending => do
    let t ← now
    if pending.engageAt ≤ t then dueMaintenance cfg user pending else warnOfMaintenance t

end AdminService
