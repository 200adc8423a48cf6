import McAdmin.Pattern
import McAdmin.ServiceCore
import McAdmin.TempBans

/-!
# The operations of moderation

Each operation gives the game a command and then brings the stores in line with it: the timers of
the temporary bans, or the pending levels of the operators.  The audit log comes last.
-/

namespace Moderation

open Backtracking Calls McAdmin ServiceCore TempBans

/-! ### The ports -/

inductive Hours where
  | finite (value : ℚ)
  | infinity
  | negativeInfinity
  | notANumber
deriving DecidableEq, Repr

/-- `hours <= 0` -/
def Hours.nonPositive : Hours → Bool
  | .finite value => value ≤ 0
  | .negativeInfinity => true
  | .infinity | .notANumber => false

def endOfDates : ℚ := 253402300800

/-- `now + timedelta(hours=hours)`, unless it raises. -/
def Hours.after (now : ℚ) : Hours → Option ℚ
  | .finite value =>
    if now + value * 3600 < endOfDates then some (now + value * 3600) else none
  | _ => none

structure OpEntry where
  name : String
  level : ℤ
deriving DecidableEq, Repr

inductive Command where
  | whitelistAdd (player : String)
  | whitelistRemove (player : String)
  | op (player : String)
  | deop (player : String)
  | kick (player reason : String)
  | ban (player reason : String)
  | pardon (player : String)
deriving DecidableEq, Repr

inductive Port where
  | game (command : Command)
  | listOps
  | opLevelsRunning
  | pendingRemove (player : String)
  | pendingSetLevel (player : String) (level : ℤ)
  | cancel (player : String)
  | schedule (player : String) (unbanAt : ℚ)
  | notify (message : String)
deriving DecidableEq, Repr

abbrev PortAnswer : Port → Type
  | .game _ => String
  | .listOps => List OpEntry
  | .opLevelsRunning => Bool
  | .pendingRemove _ | .pendingSetLevel .. | .cancel _ | .schedule .. | .notify _ => Unit

/-- An exception of a call, which may come before the effect of the call or after it. -/
structure Fault where
  late : Bool
deriving DecidableEq, Repr

inductive Refusal where
  | invalidPlayerName (name : String)
  | invalidOpLevel (level : ℤ)
  | invalidDuration (hours : Hours)
  | opLevelsUnavailable (message : String)
  /-- The end of a temporary ban is no date. -/
  | dateOutOfRange
deriving DecidableEq, Repr

abbrev MadeCall := Made (Call Port) (Answer PortAnswer) Fault

abbrev Program (α : Type) := ServiceCore.Program PortAnswer Fault Refusal α

def port (p : Port) : Program (PortAnswer p) := ServiceCore.call (.port p)

structure Config where
  containerName : String
  chars : CharTable
  /-- `self._op_levels_operation is not None` -/
  opLevelsUnderWay : Bool
  /-- `self._op_levels_apply is not None` -/
  opLevelsApply : Bool
  /-- `self._pending_op_levels is not None` -/
  pendingOpLevels : Bool
  /-- `f"{hours:g}"` -/
  showHours : Hours → String

variable (cfg : Config)

/-! ### What the operations share -/

def refuseUnless (condition : Prop) [Decidable condition] (e : Refusal) : Program Unit :=
  if condition then return () else throw (.refused e)

def validatePlayerName (player : String) : Program Unit :=
  refuseUnless (validPlayerName player) (.invalidPlayerName player)

/-- `" ".join(reason.split())[:200]` -/
def sanitizeReason (reason : String) : String :=
  let words := (reason.toList.splitOnP cfg.chars.isSpace).filter (· ≠ [])
  .ofList ((List.intercalate [' '] words).take 200)

def withReason (text reason : String) : String :=
  text ++ if reason = "" then "" else s!" ({reason})"

def command (user : User) (permission : Permission) (detail : String) (c : Command) :
    Program String :=
  tryCatch (port (.game c)) fun e => do
    record cfg.containerName user permission "error" detail
    throw e

/-- What `_ensure_op_levels_idle` raises, if anything. -/
def opLevelsBusy : Program (Option String) :=
  let underWay := "les niveaux OP sont en cours d'application ; réessayez " ++
    "lorsque Minecraft sera de nouveau en ligne"
  if cfg.opLevelsUnderWay then return some underWay
  else if ¬cfg.opLevelsApply then return none
  else do
    let running ← tryCatch (do return some (← port .opLevelsRunning)) fun _ => return none
    match running with
    | none => return some "impossible de vérifier l'état de l'application des niveaux OP"
    | some true => return some underWay
    | some false => return none

def ensureOpLevelsIdle (user : User) (detail : String) : Program Unit := do
  match ← opLevelsBusy cfg with
  | none => return ()
  | some message => do
    record cfg.containerName user .opManage "error" s!"{detail} refusé : {message}"
    throw (.refused (.opLevelsUnavailable message))

/-! ### The whitelist -/

/-- `whitelist_add` and `whitelist_remove`, by the word of the log and the command. -/
def changeWhitelist (word : String) (c : String → Command) (user : User) (player : String) :
    Program String := do
  authorize cfg.containerName user .whitelistManage
  validatePlayerName player
  let result ← command cfg user .whitelistManage s!"{word} {player}" (c player)
  record cfg.containerName user .whitelistManage "allowed" s!"{word} {player}"
  return result

def whitelistAdd (user : User) (player : String) : Program String :=
  changeWhitelist cfg "add" .whitelistAdd user player

def whitelistRemove (user : User) (player : String) : Program String :=
  changeWhitelist cfg "remove" .whitelistRemove user player

/-! ### The operators -/

def currentLevel (player : String) : Program (Option (Option ℤ)) :=
  tryCatch
    (do
      let ops ← port .listOps
      let entry := ops.find? fun entry =>
        cfg.chars.lower entry.name.toList = cfg.chars.lower player.toList
      return some (entry.map (·.level)))
    fun _ => return none

def defaultOpLevel : ℤ := 4

def immediate (current : Option (Option ℤ)) (level : ℤ) : Bool :=
  match current with
  | none => false
  | some none => level = defaultOpLevel
  | some (some current) => current = level

def keepLevel (player : String) (level : ℤ) (immediate : Bool) : Program Unit :=
  if ¬cfg.pendingOpLevels then
    if immediate then return ()
    else throw (.refused (.opLevelsUnavailable "persistance des niveaux OP non configurée"))
  else if immediate then port (.pendingRemove player)
  else port (.pendingSetLevel player level)

/-- A store that fails once the command succeeded, which the log is told. -/
def orUnavailable (body : Program Unit) (user : User) (detail message : String) : Program Unit :=
  tryCatch body fun _ => do
    record cfg.containerName user .opManage "error" detail
    throw (.refused (.opLevelsUnavailable message))

def opAdd (user : User) (player : String) (level : ℤ) : Program String := do
  authorize cfg.containerName user .opManage
  validatePlayerName player
  refuseUnless (level ∈ [1, 2, 3, 4]) (.invalidOpLevel level)
  ensureOpLevelsIdle cfg user s!"op {player}"
  let current ← currentLevel cfg player
  let result ← command cfg user .opManage s!"op {player}" (.op player)
  orUnavailable cfg (keepLevel cfg player level (immediate current level)) user
    s!"op {player} réussi, mais niveau {level} non enregistré"
    s!"{player} est opérateur, mais le niveau {level} n'a pas pu être enregistré"
  record cfg.containerName user .opManage "allowed" (s!"op {player} niveau {level}" ++
    if immediate current level then " (effectif immédiatement)"
    else " (op immédiat, niveau au prochain redémarrage)")
  port (.notify (if immediate current level then
      s!"{user.username} a promu {player} opérateur (niveau {level})."
    else s!"{user.username} a promu {player} opérateur. " ++
      s!"Niveau {level} prévu au prochain redémarrage."))
  return result

def opRemove (user : User) (player : String) : Program String := do
  authorize cfg.containerName user .opManage
  validatePlayerName player
  ensureOpLevelsIdle cfg user s!"deop {player}"
  let result ← command cfg user .opManage s!"deop {player}" (.deop player)
  orUnavailable cfg (if cfg.pendingOpLevels then port (.pendingRemove player) else return ()) user
    s!"deop {player} réussi, annulation du niveau en attente impossible"
    s!"{player} n'est plus opérateur, mais son niveau en attente n'a pas pu être supprimé"
  record cfg.containerName user .opManage "allowed" s!"deop {player}"
  return result

/-! ### Kicks and bans -/

def kick (user : User) (player reason : String) : Program String := do
  authorize cfg.containerName user .kick
  validatePlayerName player
  let reason := sanitizeReason cfg reason
  let detail := withReason s!"kick {player}" reason
  let result ← command cfg user .kick detail (.kick player reason)
  record cfg.containerName user .kick "allowed" detail
  port (.notify (withReason s!"{user.username} a exclu {player}" reason ++ "."))
  return result

def ban (user : User) (player reason : String) : Program String := do
  authorize cfg.containerName user .banManage
  validatePlayerName player
  let reason := sanitizeReason cfg reason
  let detail := withReason s!"ban {player}" reason
  let result ← command cfg user .banManage detail (.ban player reason)
  port (.cancel player)
  record cfg.containerName user .banManage "allowed" detail
  port (.notify (withReason s!"{user.username} a banni {player}" reason ++ "."))
  return result

/-- `now + timedelta(hours=hours)` -/
def deadline (hours : Hours) : Program ℚ := do
  let now ← ServiceCore.call (A := PortAnswer) .now
  match hours.after now with
  | some unbanAt => return unbanAt
  | none => throw (.refused .dateOutOfRange)

def banTemporary (user : User) (player : String) (hours : Hours) (reason : String) :
    Program String := do
  authorize cfg.containerName user .banManage
  validatePlayerName player
  refuseUnless (¬hours.nonPositive) (.invalidDuration hours)
  let reason := sanitizeReason cfg reason
  let detail := withReason s!"ban {player} pendant {cfg.showHours hours}h" reason
  let result ← command cfg user .banManage detail (.ban player reason)
  let unbanAt ← deadline hours
  port (.cancel player)
  port (.schedule player unbanAt)
  record cfg.containerName user .banManage "allowed" detail
  return result

def pardon (user : User) (player : String) : Program String := do
  authorize cfg.containerName user .banManage
  validatePlayerName player
  let result ← command cfg user .banManage s!"pardon {player}" (.pardon player)
  port (.cancel player)
  record cfg.containerName user .banManage "allowed" s!"pardon {player}"
  port (.notify s!"{user.username} a débanni {player}.")
  return result

end Moderation
