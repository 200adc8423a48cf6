import Mathlib.Algebra.GroupWithZero.Nat
import Mathlib.Data.Rat.Defs
import McAdmin.PendingOpLevels

/-!
# The op-levels worker

`op_levels_worker.py`, function by function.  The worker stops Minecraft, writes
the claimed levels into `ops.json`, starts it again, and keeps a copy of the file
and a journal to undo an application that was cut short.

A JSON file is its decoded value: nothing here depends on its formatting.  A
replacement and the synchronisation of its directory are two steps, each of which
may raise or be the last one.  Reading is not a step, except that of the journal,
whose failure the worker takes for an answer.
-/

namespace OpLevelsWorker

open CrashLogic PendingOpLevels

/-! ### JSON values -/

/-- A decoded JSON value; a float is the rational it stands for, if it stands for one. -/
inductive Json where
  | null
  | bool (b : Bool)
  | int (n : Int)
  | float (value : Option Rat)
  | str (s : String)
  | arr (items : List Json)
  | obj (fields : List (String × Json))

abbrev Entry := List (String × Json)

def Entry.get (entry : Entry) (field : String) : Option Json := entry.lookup field

/-- `entry[field] = value`. -/
def Entry.set (field : String) (value : Json) : Entry → Entry
  | [] => [(field, value)]
  | (field', value') :: entry =>
    if field = field' then (field', value) :: entry else (field', value') :: set field value entry

/-- `==` between a decoded value and an integer. -/
def Json.equalsInt : Json → Int → Bool
  | .int n, level => n = level
  | .bool b, level => (if b then 1 else 0) = level
  | .float (some value), level => value = level
  | _, _ => false

def Json.fields? : Json → Option Entry
  | .obj fields => some fields
  | _ => none

def Entry.hasLevel (entry : Entry) (level : Int) : Bool :=
  match entry.get "level" with
  | some value => value.equalsInt level
  | none => false

/-- The entries of a decoded `ops.json`. -/
def entriesOf : Option Json → List Entry
  | some (.arr items) => items.filterMap Json.fields?
  | _ => []

/-! ### Files -/

abbrev Failure := String

inductive Phase where
  | claimed
  | stopped
  | rollbackReady
  | applied
  | committed
deriving DecidableEq, Repr

structure Journal where
  phase : Phase
  requested : List PendingOpLevel
  unresolved : List PendingOpLevel
deriving DecidableEq

/-- The three files of the data directory.  A file that is absent is `none`, as is
an `ops.json` that cannot be decoded. -/
structure Files where
  ops : Option Json
  rollback : Option Json := none
  journal : Option Journal := none

/-- The files and the server, the two local flags of `apply_pending_levels`, and
whether the journal is being read. -/
structure Site extends Files where
  dataRootValid : Bool := true
  running : Bool := true
  serverMayBeStopped : Bool := false
  rollbackReady : Bool := false
  readingState : Bool := false

variable (lower : String → String)

abbrev World := Store lower Site

abbrev Worker (α : Type) := OnStore lower Site Failure α

def readOps : Option Json → Except Failure (List Entry)
  | none => .error "ops.json est illisible"
  | some (.arr items) =>
    if items.all fun item => item.fields?.isSome then .ok (items.filterMap Json.fields?)
    else .error "ops.json contient une entrée invalide"
  | some _ => .error "ops.json n'est pas une liste"

def encodeOps (entries : List Entry) : Json := .arr (entries.map .obj)

/-! ### Levels -/

variable {lower}

def entryKey (lower : String → String) (entry : Entry) : Option String :=
  match entry.get "name" with
  | some (.str name) => some (lower name)
  | _ => none

def matching (byName : Queue lower) (entry : Entry) : Option PendingOpLevel :=
  (entryKey lower entry).bind byName.levels.lookup

/-- The body of the loop: the entry, and whether it was changed. -/
def applyLevel (byName : Queue lower) (entry : Entry) : Entry × Nat :=
  match matching byName entry with
  | none => (entry, 0)
  | some item =>
    if entry.hasLevel item.level then (entry, 0)
    else (Entry.set "level" (.int item.level) entry, 1)

structure Application where
  entries : List Entry
  changed : Nat
  unresolved : List PendingOpLevel

def applyRequestedLevels (lower : String → String) (entries : List Entry)
    (requested : List PendingOpLevel) : Application :=
  let byName : Queue lower := requested.foldl Queue.put .empty
  let matched := (entries.filter fun entry => (matching byName entry).isSome).map (entryKey lower)
  { entries := entries.map fun entry => (applyLevel byName entry).1
    changed := (entries.map fun entry => (applyLevel byName entry).2).sum
    unresolved := (Dict.values byName.levels).filter fun item => some (lower item.name) ∉ matched }

/-! ### Steps -/

section Steps

/-- `os.replace`, then the synchronisation of the directory. -/
def replaceFile (f : Site → Site) : Worker lower Unit := do
  onSite f
  .performShared .ok

def writeState (phase : Phase) (requested unresolved : List PendingOpLevel) :
    Worker lower Unit :=
  replaceFile fun x => { x with journal := some ⟨phase, requested, unresolved⟩ }

/-- `stop` stops the server and may still raise. -/
def controllerStop : Worker lower Unit := do
  onSite fun x => { x with running := false }
  .performShared .ok

def controllerStart : Worker lower Unit := do
  onSite fun x => { x with running := true }
  .performShared .ok

def setLocal (f : Site → Site) : Worker lower Unit := .assign fun s => { s with site := f s.site }

/-- The journal as the recovery takes it: an unreadable one has no phase. -/
def readState (journal : Option Journal) :
    Worker lower (Option Phase × List PendingOpLevel × List PendingOpLevel) :=
  match journal with
  | none => return (none, [], [])
  | some journal =>
    tryCatch
      (do
        setLocal fun x => { x with readingState := true }
        .performShared .ok
        setLocal fun x => { x with readingState := false }
        return (some journal.phase, journal.requested, journal.unresolved))
      fun _ => do
        setLocal fun x => { x with readingState := false }
        return (none, [], [])

def cleanup : Worker lower Unit := do
  onSite fun x => { x with rollback := none }
  onSite fun x => { x with journal := none }
  .performShared .ok

def restoreRollback : Worker lower Unit := do
  match ← Prog.read fun s => s.site.rollback with
  | none => throw "No such file or directory"
  | some data => replaceFile fun x => { x with ops := some data }

/-- A copy that is there replaces `ops.json`, the server being stopped. -/
def restoreKept : Worker lower Unit := do
  if ← Prog.read fun s => s.site.rollback.isSome then
    controllerStop
    restoreRollback
  else pure ()

def undoInterrupted (requested : List PendingOpLevel) : Worker lower Unit := do
  restoreKept
  controllerStart
  restoreClaim requested
  cleanup

def recoverFrom (phase : Option Phase) (requested unresolved : List PendingOpLevel) :
    Worker lower Unit :=
  if phase = some .committed then do
    completeClaim unresolved
    cleanup
  else do
    tryCatch (undoInterrupted requested) fun _ =>
      throw "transaction OP interrompue et récupération impossible"
    throw "transaction OP interrompue annulée ; niveaux remis en attente"

def recoverInterrupted : Worker lower Unit := do
  let site ← Prog.read Store.site
  if site.rollback.isNone ∧ site.journal.isNone then return ()
  else
    let state ← readState site.journal
    recoverFrom state.1 state.2.1 state.2.2

/-- The write that follows `_apply_requested_levels`. -/
def writeOps (application : Application) : Worker lower Unit :=
  if application.changed = 0 then pure ()
  else replaceFile fun x => { x with ops := some (encodeOps application.entries) }

/-- The `try` of `apply_pending_levels`, once the copy is there. -/
def applyCopied (requested : List PendingOpLevel) (entries : List Entry) :
    Worker lower (Nat × Nat) := do
  setLocal fun x => { x with rollbackReady := true }
  writeState .rollbackReady requested []
  let application := applyRequestedLevels lower entries requested
  writeOps application
  writeState .applied requested []
  controllerStart
  setLocal fun x => { x with serverMayBeStopped := false }
  writeState .committed requested application.unresolved
  completeClaim application.unresolved
  return (application.changed, application.unresolved.length)

/-- The body of the `try` of `apply_pending_levels`. -/
def applyRequests (requested : List PendingOpLevel) : Worker lower (Nat × Nat) := do
  writeState .claimed requested []
  setLocal fun x => { x with serverMayBeStopped := true }
  controllerStop
  writeState .stopped requested []
  let original ← Prog.read fun s => s.site.ops
  match readOps original with
  | .error e => throw e
  | .ok entries => do
    replaceFile fun x => { x with rollback := original }
    applyCopied requested entries

def undoApplied (requested : List PendingOpLevel) : Worker lower Unit := do
  controllerStop
  restoreRollback
  controllerStart
  setLocal fun x => { x with serverMayBeStopped := false }
  restoreClaim requested
  cleanup

def startAgain : Worker lower Unit := do
  if ← Prog.read fun s => s.site.serverMayBeStopped then
    tryCatch
      (do
        controllerStart
        setLocal fun x => { x with serverMayBeStopped := false })
      fun _ => throw "échec avant écriture et redémarrage Minecraft impossible"
  else pure ()

/-- The `except` of `apply_pending_levels`. -/
def undoRequests (requested : List PendingOpLevel) (exc : Failure) : Worker lower (Nat × Nat) := do
  if ← Prog.read fun s => s.site.rollbackReady then
    tryCatch (undoApplied requested) fun _ =>
      throw "application et rollback des niveaux OP en échec"
    throw ("niveaux OP annulés, original restauré : " ++ exc)
  else
    startAgain
    restoreClaim requested
    cleanup
    throw ("niveaux OP annulés avant écriture : " ++ exc)

def applyPendingLevels : Worker lower (Nat × Nat) := do
  if ← Prog.read fun s => s.site.dataRootValid then
    recoverInterrupted
    let requested ← claim
    setLocal fun x => { x with serverMayBeStopped := false, rollbackReady := false }
    let result ← tryCatch (applyRequests requested) (undoRequests requested)
    tryCatch cleanup fun _ => pure ()
    return result
  else throw "dossier de données Minecraft invalide"

end Steps

/-! ### Runs -/

/-- What can happen to the queue: another process asks, or the worker runs as a
plan decides. -/
inductive Event where
  | request (request : Request)
  | run (plan : Plan Failure Request)

/-- One run of the worker, with the flags of a new process. -/
def run (plan : Plan Failure Request) (s : World lower) :
    Result (World lower) Failure Request (Nat × Nat) :=
  exec meddle applyPendingLevels plan { s with site := { s.site with readingState := false } }

def after (s : World lower) : Event → World lower
  | .request request => meddle request s
  | .run plan => (run plan s).state

def history (events : List Event) (s : World lower) : World lower := events.foldl after s

def moments : List Event → World lower → List (Moment (World lower))
  | [], _ => []
  | .request request :: events, s => moments events (meddle request s)
  | .run plan :: events, s => (run plan s).moments ++ moments events (run plan s).state

end OpLevelsWorker
