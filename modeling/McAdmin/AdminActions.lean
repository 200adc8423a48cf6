import McAdmin.AdminUpdate

/-!
# Restarts

A restart applies the levels of the operators that wait, by a worker that stops and starts the
server itself, or else restarts the container.  It is asked for, or comes at a planned time, which
a tick looks at; a daily appointment plans it anew each day.
-/

namespace AdminService

open McAdmin ServiceCore

variable (cfg : Config)

/-! ### The levels of the operators -/

def beginOpLevelsApply (operation : OpLevelsOperation) : Program Unit :=
  if ¬cfg.hasOpLevelsApply then
    refuse .opLevelsUnavailable
      "niveaux OP en attente, mais leur outil d'application n'est pas configuré"
  else do
    let begun ← memory (.beginOpLevels operation)
    refuseIf (begun = false) .opLevelsUnavailable
      "une application des niveaux OP est déjà en cours"

/-- The exit code of the worker, once it has ended with one. -/
def opLevelsExit : Program (Option ℤ) := do
  let ended ← attempt do
    let running ← outside .opLevelsRunning
    if running then return none else outside .opLevelsExitCode
  return ended.join

def reportOpLevels (operation : OpLevelsOperation) (exitCode : ℤ) : Program Unit :=
  let common := s!"requested_by={operation.requestedBy} operation_id={operation.operationId}"
  if exitCode = 0 then do
    record cfg operation.user operation.permission "allowed" s!"phase=op_levels_applied {common}"
    notify "Niveaux OP appliqués" "Minecraft est de nouveau en ligne avec les niveaux demandés."
      "info" (some "restart")
  else do
    record cfg operation.user operation.permission "error"
      s!"phase=op_levels_failed exit_code={exitCode} {common}"
    notify "Niveaux OP non appliqués" (s!"L'opération a échoué (code {exitCode}). " ++
      "Le retour à la configuration précédente a été tenté.") "error" (some "restart")

def concludeOpLevels (operation : OpLevelsOperation) : Program Unit := do
  match ← opLevelsExit with
  | none => return ()
  | some exitCode => do
    let concluded ← memory (.concludeOpLevels operation)
    if concluded then reportOpLevels cfg operation exitCode else return ()

def tickOpLevelsOperation : Program Unit := do
  match ← memory .opLevelsOperation with
  | none => return ()
  | some operation => if cfg.hasOpLevelsApply then concludeOpLevels cfg operation else return ()

/-! ### Restarting and starting -/

/-- `requested_by or user.username` -/
def orElse (text : Option String) (other : String) : String := (text.filter (· ≠ "")).getD other

def pendingLevels : Program (List OpLevel) :=
  if cfg.hasPendingOpLevels then outside .listPendingLevels else return []

/-- What `restart` and `start` try, by what they ask of the container and the title of a failure:
the levels that wait are applied instead. -/
def bringUp (operation : OpLevelsOperation) (container : Program Unit) (failed : String) :
    Program (List OpLevel) :=
  tryCatch
    (do
      let pending ← pendingLevels cfg
      (if pending = [] then container else beginOpLevelsApply cfg operation : Program Unit)
      return pending)
    fun e => do
      record cfg operation.user operation.permission "error" (Error.str e)
      notify failed (Error.str e) "error"
      throw e

/-- What the entry of `restart` and of `start` says. -/
def launchDetail (pending : List OpLevel) (operation : OpLevelsOperation) : String :=
  if pending = [] then ""
  else s!"phase=op_levels_started count={pending.length} " ++
    s!"requested_by={operation.requestedBy} operation_id={operation.operationId}"

/-- An id of its own for a restart or a start that has none. -/
def launchId (requester : String) : Program String := do
  return s!"op-levels::{cfg.isoformat (← now)}::{requester}"

/-- `operation_id or f"op-levels::…"` -/
def launchIdOr (operationId : Option String) (requester : String) : Program String :=
  match operationId.filter (· ≠ "") with
  | some id => return id
  | none => launchId cfg requester

def restart (user : User) (operationId requestedBy : Option String := none) : Program Bool := do
  authorize cfg user .restart
  refuseIfMaintenance cfg user .restart "utilise « Rouvrir le serveur »"
  let requester := orElse requestedBy user.username
  let opId ← launchIdOr cfg operationId requester
  let operation : OpLevelsOperation := ⟨user, .restart, opId, requester, .inl rfl⟩
  let pending ← bringUp cfg operation (outside .restartContainer) "Redémarrage échoué"
  record cfg user .restart "allowed" (launchDetail pending operation)
  notify (if pending = [] then "Serveur redémarré" else "Redémarrage lancé")
    (s!"Demandé par {requester}." ++
      if pending = [] then "" else " Les niveaux OP en attente vont être appliqués.")
    "info" (some "restart")
  return pending ≠ []

def start (user : User) : Program Unit := do
  authorize cfg user .start
  refuseIfMaintenance cfg user .start "utilise « Rouvrir le serveur »"
  let opId ← launchId cfg user.username
  let operation : OpLevelsOperation := ⟨user, .start, opId, user.username, .inr rfl⟩
  let pending ← bringUp cfg operation (outside .startContainer) "Démarrage échoué"
  record cfg user .start "allowed" (launchDetail pending operation)

/-! ### A planned restart -/

def noteDeferredOnce (user : User) (permission : Permission) (operationId label : String) :
    Program Unit := do
  let announced ← memory (.announced operationId)
  if announced then return ()
  else do
    memory (.announce operationId)
    say s!"⏸ {label} reporté : il aura lieu dès que le serveur sera vide."
    notify s!"{label} reporté" ("Des joueurs sont connectés : l'opération programmée attend que " ++
      "le serveur soit vide avant de s'exécuter.") "info" (some "restart")
    record cfg user permission "allowed"
      s!"phase=deferred_players_online operation_id={operationId}"

/-- `self._clock.now() + timedelta(minutes=minutes)` and `minutes * 60`, `none` where it raises. -/
def minutesAfter (t : Instant) : ProfileSchedule.Hours → Option (Instant × ℚ)
  | .finite minutes =>
    if t + minutes * 60 < 253402300800 then some (t + minutes * 60, minutes * 60) else none
  | _ => none

def restartId (restartAt : Instant) : String := s!"restart::{cfg.isoformat restartAt}"

def scheduleRestart (user : User) (minutes : ProfileSchedule.Hours) (deferIfPlayers : Bool) :
    Program Unit := do
  authorize cfg user .restart
  refuseIf (minutes.positive = false) .invalidDuration
    s!"délai invalide : {cfg.floatText minutes}min (doit être > 0)"
  match minutesAfter (← now) minutes with
  | none => refuse .other "date value out of range"
  | some (restartAt, seconds) => do
    outside (.scheduleRestart restartAt user.username seconds deferIfPlayers)
    let delay := formatSeconds (truncated seconds)
    say s!"⚠ Redémarrage du serveur programmé dans {delay}."
    record cfg user .restart "allowed"
      (s!"phase=restart_scheduled delay=\"{delay}\" requested_by={user.username} " ++
        s!"operation_id={restartId cfg restartAt}")

def cancelScheduledRestart (user : User) : Program Unit := do
  authorize cfg user .restart
  let pending ← outside .restartStatus
  let had ← outside .cancelRestart
  match pending.filter fun _ => had with
  | some pending => do
    memory (.unannounce (restartId cfg pending.restartAt))
    record cfg user .restart "allowed"
      (s!"phase=restart_cancelled requested_by={user.username} " ++
        s!"operation_id={restartId cfg pending.restartAt}")
  | none => record cfg user .restart "allowed" "rien à annuler"

/-- The operation whose levels are being applied goes first; so does what cannot be read. -/
def opLevelsInTheWay : Program Bool := do
  let operation ← memory .opLevelsOperation
  if operation.isSome then return true
  else if ¬cfg.hasOpLevelsApply then return false
  else return (← attempt (outside .opLevelsRunning)).getD true

/-- `pending.defer_if_players and not self._server_confirmed_empty()` -/
def heldByPlayers (deferIfPlayers : Bool) : Program Bool :=
  if deferIfPlayers then do return !(← serverConfirmedEmpty) else return false

/-- A planned restart whose time has come, once nothing keeps it back. -/
def performRestart (user : User) (pending : ScheduledRestart) : Program Unit := do
  let operationId := restartId cfg pending.restartAt
  bestEffort do
    outside (.say "⚠ Redémarrage du serveur en cours...")
    outside .saveAll
  let _ ← outside .cancelRestart
  let appliesOpLevels ← restart cfg user (some operationId) (some pending.scheduledBy)
  if appliesOpLevels then return ()
  else record cfg user .restart "allowed" s!"phase=restart_done operation_id={operationId}"

def dueRestart (user : User) (pending : ScheduledRestart) : Program Unit := do
  let operationId := restartId cfg pending.restartAt
  let held ← heldByPlayers pending.deferIfPlayers
  if held then noteDeferredOnce cfg user .restart operationId "Redémarrage"
  else do
    memory (.unannounce operationId)
    let inTheWay ← opLevelsInTheWay cfg
    if inTheWay then return () else performRestart cfg user pending

def warnOfRestart (t : Instant) : Program Unit := do
  match ← outside (.dueRestartWarning t) with
  | none => return ()
  | some threshold => say s!"⚠ Redémarrage du serveur programmé dans {formatSeconds threshold}"

/-! ### The daily restart -/

def setRecurringRestart (user : User) (timeHhmm : String) (leadSeconds : ℤ)
    (deferIfPlayers : Bool) : Program Unit := do
  authorize cfg user .restart
  refuseIf (isTimeOfDay cfg timeHhmm = false) .invalidDuration
    s!"heure invalide : {cfg.repr timeHhmm} (attendu HH:MM)"
  refuseIf (leadSeconds ≤ 0) .invalidDuration
    s!"préavis invalide : {leadSeconds}s (doit être > 0)"
  refuseIf (cfg.hasRecurringRestart = false) .serverUnavailable
    "redémarrage récurrent non configuré côté serveur"
  outside (.setRecurringRestart ⟨timeHhmm, leadSeconds, deferIfPlayers⟩)
  record cfg user .restart "allowed"
    (s!"redémarrage récurrent activé : tous les jours à {timeHhmm} " ++
      s!"(préavis {formatSeconds leadSeconds})" ++
      if deferIfPlayers then " · attend le serveur vide" else "")

def clearRecurringRestart (user : User) : Program Unit := do
  authorize cfg user .restart
  (if cfg.hasRecurringRestart then outside .clearRecurringRestart else return () : Program Unit)
  record cfg user .restart "allowed" "redémarrage récurrent désactivé"

def armRecurringRestart (user : User) (config : RecurringRestart) (target remaining : ℚ) :
    Program Unit := do
  let pending ← outside .restartStatus
  if pending.isSome then return ()
  else do
    outside (.scheduleRestart target user.username remaining config.deferIfPlayers)
    say s!"⚠ Redémarrage quotidien programmé dans {formatSeconds (truncated remaining)}."
    record cfg user .restart "allowed" s!"redémarrage récurrent armé pour {config.timeHhmm}"

def visitRecurringRestart (user : User) (config : RecurringRestart) (t : Instant)
    (today : String) : Program Unit :=
  match todayAtText cfg t config.timeHhmm with
  | none => refuse .other "hour must be in 0..23"
  | some target =>
    -- the window has passed: nothing is caught up on
    if target ≤ t then outside (.markRecurringFired today)
    else if config.leadSeconds < target - t then return ()
    else do
      armRecurringRestart cfg user config target (target - t)
      outside (.markRecurringFired today)

def recurringConfig : Program (Option RecurringRestart) :=
  if cfg.hasRecurringRestart then outside .recurringRestart else return none

def tickRecurringRestart (user : User) : Program Unit := do
  match ← recurringConfig cfg with
  | none => return ()
  | some config => do
    let t ← now
    let today := cfg.dateText (cfg.localDay t)
    let fired ← outside .recurringLastFired
    if fired = some today then return () else visitRecurringRestart cfg user config t today

def tickPlannedRestart (user : User) : Program Unit := do
  match ← outside .restartStatus with
  | none => return ()
  | some pending => do
    let t ← now
    if pending.restartAt ≤ t then dueRestart cfg user pending else warnOfRestart t

def tickScheduledRestart (user : User) : Program Unit := do
  authorize cfg user .restart
  tickOpLevelsOperation cfg
  scanUpdateOutcome cfg
  tickRecurringRestart cfg user
  tickPlannedRestart cfg user

end AdminService
