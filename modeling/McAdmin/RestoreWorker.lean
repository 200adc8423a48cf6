import McAdmin.FileTree

/-!
# The transactional restore worker

`restore_worker.py`, function by function.  The worker runs on the data
directory of Minecraft while nobody else writes it: every elementary step of the
file system, and every answer of the container controller, is a step of the
program, which may be made to raise or be the last one before the process is
killed.  Reading is not a step: a read that raises leaves the state as the next
step raising would.

Owners, modes and dates are not part of the tree; the calls that set them are
kept as steps that may raise, and those of the extraction raise where the system
refuses what a member asks for.
-/

namespace RestoreWorker

open CrashLogic FileTree

/-! ### The data directory -/

inductive Phase where
  | staged
  | stopping
  | stopped
  | rollbackReady
  | applying
  | applied
  | starting
  | started
  | rollingBack
  | rollbackFailed
deriving DecidableEq, Repr

/-- What a file holds: bytes, or the JSON text of a transaction marker. -/
inductive Content where
  | bytes (data : List UInt8)
  | document (phase : Phase) (target : String)
deriving DecidableEq, Repr

/-- Bytes reach a file from the first to the last, cut anywhere. -/
instance : Contents Content where
  blank := .bytes []
  torn
    | .bytes data => (List.range data.length).map fun k => .bytes (data.take k)
    | .document _ _ => [.bytes []]

abbrev Stage := Slot Content

def stageName : Name := ".mc-restore-stage"
def rollbackName : Name := ".mc-restore-rollback"
def stateName : Name := ".mc-restore-transaction.json"
def stateTmpName : Name := ".mc-restore-transaction.json.tmp"

/-- `RESTORE_TRANSACTION_NAMES`. -/
def protectedRootNames : List Name := [stageName, rollbackName, stateName, stateTmpName]

inductive Call where
  | stop
  | start
deriving DecidableEq, Repr

/-- The data directory, the server, and what one run of the worker keeps: its
local variables `stopped` and `rollback_ready`, the calls it made to the
controller, whether it is in the handler of a failed transaction, and what the
rollback directory held when its removal began. -/
structure World where
  root : Folder Content
  running : Bool
  calls : List Call := []
  stopped : Bool := false
  rollbackReady : Bool := false
  handling : Bool := false
  cleaning : Option (Slot Content) := none
deriving DecidableEq

def World.slot (w : World) (n : Name) : Slot Content := w.root.get n

def World.fresh (w : World) : World := { root := w.root, running := w.running }

def rootOf : Focus World (Folder Content) where
  get w := w.root
  set w f := { w with root := f }
  frame w w' := w' = { w with root := w'.root }
  get_set _ _ := rfl
  frame_refl _ := rfl
  frame_set f h := by rw [h]

def at_ (n : Name) : Focus World (Slot Content) := rootOf.comp (slotOf n)

abbrev OnSlot (α : Type) := Prog (Slot Content) Exn α

/-! ### Single paths -/

/-- `shutil.rmtree` for a directory, `unlink` for the rest, nothing for nothing. -/
def removePath : OnSlot Unit := do
  match ← Prog.read id with
  | none => pure ()
  | some ⟨.dir d, _⟩ => removeNode (.dir d)
  | some _ => .perform (unlink true)

def setOwnership : OnSlot Unit := .perform touch

def copyMetadata : OnSlot Unit := do
  setOwnership
  .perform touch

def copyFile (content : Content) : OnSlot Unit := do
  (Contents.torn content).forM fun c => .perform (hold c)
  .perform (hold content)

def fsync : OnSlot Unit := .perform touch

/-! ### Extraction -/

inductive MemberKind where
  | directory
  /-- The content `extractfile` gives, if it gives one. -/
  | regular (content : Option Content)
  | link
  | special
  | other
deriving DecidableEq, Repr

/-- What the system does not take of a member, with what is then raised: its owner, its date, and a
path of more than so many parts. -/
structure Refusals where
  owner : Option Exn := none
  date : Option Exn := none
  long : Option (Nat × Exn) := none
deriving DecidableEq, Repr

structure Member where
  name : String
  kind : MemberKind
  refusals : Refusals := {}
deriving DecidableEq, Repr

def Member.tooLong (member : Member) (path : Path) : Option Exn :=
  match member.refusals.long with
  | some (parts, e) => if parts < path.length then some e else none
  | none => none

/-- The verdict of `inspect_archive`. -/
structure Inspection where
  ok : Bool
  restorable : Bool
  detail : String := ""
  worldName : String := ""
deriving DecidableEq, Repr

structure Archive where
  members : List Member
  /-- What the reading of the archive raises after these members. -/
  broken : Option Exn := none
  inspection : Inspection
  /-- The fingerprint taken after the extraction differs from the one before. -/
  changed : Bool := false
deriving DecidableEq, Repr

def segments : List Char → List (List Char)
  | [] => [[]]
  | c :: cs =>
    if c = '/' then [] :: segments cs
    else match segments cs with
      | [] => [[c]]
      | s :: rest => (c :: s) :: rest

/-- `PurePosixPath(name).parts` without the root of an absolute path. -/
def pathParts (name : String) : Path :=
  ((segments name.toList).filter fun s => s ≠ [] ∧ s ≠ ['.']).map String.ofList

/-- The parts of the normalised name; `[]` is the name `"."`. -/
def safeArchiveMemberName (name : String) : Except Exn Path :=
  let parts := pathParts name
  if name = "" ∨ name.toList.any (fun c => c = '\x00' ∨ c = '\n' ∨ c = '\r' ∨ c = '\\') then
    .error (.message "chemin d'archive invalide")
  else if name.toList.head? = some '/' ∨ ".." ∈ parts then
    .error (.message ("chemin dangereux dans l'archive : " ++ name))
  else if parts.headD "" ∈ protectedRootNames then
    .error (.message ("nom réservé dans l'archive : " ++ parts.headD ""))
  else .ok parts

def lookup : Path → Slot Content → Slot Content
  | [], t => t
  | n :: p, t => lookup p (t.folder.get n)

def stepAt (f : Slot Content → Except Exn (Slot Content)) :
    Path → Slot Content → Except Exn (Slot Content)
  | [], t => f t
  | n :: p, t =>
    match t with
    | none => .error (.os .notFound)
    | some ⟨.dir d, h⟩ =>
      (stepAt f p (Folder.get ⟨d, h⟩ n)).map fun t' => some (Entry.folder (Folder.set ⟨d, h⟩ n t'))
    | some _ => .error (.os .notADirectory)

/-- `mkdir(exist_ok=True)`. -/
def mkdirExistOk (t : Slot Content) : Except Exn (Slot Content) :=
  if t.isDir then .ok t else mkdir t

/-- The directories missing above a path, the deepest first; the path is reversed. -/
def missingParents (stage : Stage) : Path → List Path
  | [] => []
  | n :: up =>
    if (lookup (n :: up).reverse stage).isSome then []
    else (n :: up).reverse :: missingParents stage up

def raiseAny : Option Exn → OnSlot Unit
  | some e => throw e
  | none => pure ()

def refusing (refusal : Option Exn) (f : Slot Content → Except Exn (Slot Content))
    (t : Slot Content) : Except Exn (Slot Content) :=
  match refusal with
  | some e => .error e
  | none => f t

/-- `exists()` raises for a path that is too long. -/
def ensureArchiveParents (member : Member) (parent : Path) : OnSlot Unit := do
  raiseAny (member.tooLong parent)
  let stage ← Prog.read id
  (missingParents stage parent.reverse).reverse.forM fun directory => do
    .perform (stepAt mkdir directory)
    .perform (refusing member.refusals.owner (stepAt touch directory))
    .perform (stepAt touch directory)

/-- `_set_ownership`, `chmod` and `utime` on an extracted entry. -/
def setArchiveMetadata (entry : Path × Member) : OnSlot Unit := do
  .perform (refusing entry.2.refusals.owner (stepAt touch entry.1))
  .perform (stepAt touch entry.1)
  .perform (refusing entry.2.refusals.date (stepAt touch entry.1))

/-- The answer is what the member adds to `directory_metadata`. -/
def extractDirectory (member : Member) (destination : Path) : OnSlot (List (Path × Member)) := do
  raiseAny (member.tooLong destination)
  let there ← Prog.read (lookup destination)
  if there.isSome ∧ ¬ there.isDir then
    throw (.message ("collision de chemin : " ++ member.name))
  ensureArchiveParents member destination.dropLast
  .perform (stepAt mkdirExistOk destination)
  return [(destination, member)]

def extractFile (member : Member) (destination : Path) (content : Option Content) :
    OnSlot (List (Path × Member)) := do
  ensureArchiveParents member destination.dropLast
  raiseAny (member.tooLong destination)
  let there ← Prog.read (lookup destination)
  if there.isSome then throw (.message ("entrée dupliquée : " ++ member.name))
  match content with
  | none => throw (.message ("fichier illisible : " ++ member.name))
  | some content => do
    .perform (stepAt openNew destination)
    (Contents.torn content).forM fun c => .perform (stepAt (hold c) destination)
    .perform (stepAt (hold content) destination)
    .perform (stepAt touch destination)
    setArchiveMetadata (destination, member)
    return []

def extractMember (member : Member) : OnSlot (List (Path × Member)) :=
  match safeArchiveMemberName member.name with
  | .error e => throw e
  | .ok destination =>
    match member.kind with
    | .link => throw (.message ("lien interdit : " ++ member.name))
    | .special => throw (.message ("fichier spécial interdit : " ++ member.name))
    | .other => throw (.message ("type de fichier interdit : " ++ member.name))
    | .directory => if destination = [] then pure [] else extractDirectory member destination
    | .regular content =>
      if destination = [] then pure [] else extractFile member destination content

def extractMembers : List Member → OnSlot (List (Path × Member))
  | [] => pure []
  | member :: rest => do
    .perform .ok
    let directory ← extractMember member
    let directories ← extractMembers rest
    return directory ++ directories

/-- What `_extract_verified_archive` does between the opening of the archive and
its end. -/
def unpack (archive : Archive) : OnSlot Unit := do
  .perform .ok
  let directoryMetadata ← extractMembers archive.members
  raiseAny archive.broken
  directoryMetadata.reverse.forM setArchiveMetadata

def checkInspection (inspection : Inspection) : Except Exn Unit :=
  if !inspection.ok then
    .error (.message ("archive illisible ou dangereuse : " ++ inspection.detail))
  else if !inspection.restorable then
    .error (.message ("archive non restaurable : " ++ inspection.detail))
  else .ok ()

/-- `_extract_verified_archive` once the inspection is accepted. -/
def extractInspectedArchive (archive : Archive) : OnSlot String := do
  removePath
  .perform mkdir
  tryCatch (unpack archive) fun e => do
    removePath
    throw e
  if archive.changed then
    removePath
    throw (.message "l'archive a changé pendant son extraction")
  return archive.inspection.worldName

def extractVerifiedArchive (archive : Archive) : OnSlot String := do
  .perform .ok
  match checkInspection archive.inspection with
  | .error e => throw e
  | .ok () => extractInspectedArchive archive

/-! ### Cloning -/

/-- The `FICLONE` request, or the copy that replaces it where there are no reflinks. -/
def shareContent (reflink : Bool) (content : Content) : OnSlot Unit :=
  if reflink then .perform (hold content) else copyFile content

def reflinkOrCopy (reflink : Bool) (content : Content) : OnSlot Unit :=
  tryCatch
    (do
      .perform openNew
      shareContent reflink content
      fsync
      copyMetadata)
    fun e => do
      .perform (unlink true)
      throw e

mutual

def cloneEntry (reflink : Bool) : Node Content → OnSlot Unit
  | .link target => do
    .perform (symlink target)
    copyMetadata
  | .dir d => do
    .perform mkdir
    (cloneEntries reflink d).zoom inside
    copyMetadata
  | .file content => reflinkOrCopy reflink content

def cloneEntries (reflink : Bool) : Dir Content → Prog (Folder Content) Exn Unit
  | .nil => pure ()
  | .cons n x rest => do
    (cloneEntry reflink x).zoom (slotOf n)
    cloneEntries reflink rest

end

def liveEntries : Dir Content → Dir Content
  | .nil => .nil
  | .cons n x rest =>
    if n ∈ protectedRootNames then liveEntries rest else .cons n x (liveEntries rest)

def cloneLiveTree (reflink : Bool) (dataRoot : Folder Content) : OnSlot Unit := do
  removePath
  .perform mkdir
  tryCatch
    (do
      (cloneEntries reflink (liveEntries dataRoot.dir)).zoom inside
      copyMetadata)
    fun e => do
      removePath
      throw e

/-! ### Synchronising in place -/

def copyFileInPlace (content : Content) : OnSlot Unit := do
  .perform openTruncated
  copyFile content
  fsync
  copyMetadata

/-- The part of `_sync_tree` that removes what the source does not have. -/
def removeAbsentEntries (sourceNames protectedNames : List Name) :
    List Name → Prog (Folder Content) Exn Unit
  | [] => pure ()
  | n :: rest => do
    if n ∉ protectedNames ∧ n ∉ sourceNames then removePath.zoom (slotOf n)
    removeAbsentEntries sourceNames protectedNames rest

/-- What `_sync_entry` does first for a directory: something else that stands at
the destination goes, and a directory is there. -/
def prepareDirectory : OnSlot Unit := do
  let destination ← Prog.read id
  if destination.isSome ∧ ¬ destination.isDir then removePath
  let destination ← Prog.read id
  if destination.isNone then .perform mkdir

mutual

def syncEntry : Node Content → OnSlot Unit
  | .link target => do
    let destination ← Prog.read id
    if destination = some (Entry.link target) then copyMetadata
    else do
      removePath
      .perform (symlink target)
      copyMetadata
  | .dir d => do
    prepareDirectory
    Prog.zoom inside do
      let names ← Prog.read Folder.children
      removeAbsentEntries d.names [] names
      syncEntries d
    copyMetadata
  | .file content => do
    let destination ← Prog.read id
    if destination.isFile then copyFileInPlace content
    else do
      removePath
      .perform openTruncated
      copyFile content
      .perform touch
      copyMetadata

def syncEntries : Dir Content → Prog (Folder Content) Exn Unit
  | .nil => pure ()
  | .cons n x rest => do
    (syncEntry x).zoom (slotOf n)
    syncEntries rest

end

/-- `_sync_tree` at the root; below it nothing is protected and everything absent
is removed, which is how `syncEntry` calls it. -/
def syncTree (source : Folder Content) (protectedNames : List Name) (removeAbsent : Bool) :
    Prog (Folder Content) Exn Unit := do
  let reserved := source.children.filter (· ∈ protectedNames)
  if reserved ≠ [] then
    throw (.message ("noms transactionnels présents dans la source : "
      ++ String.intercalate ", " (reserved.mergeSort (· ≤ ·))))
  if removeAbsent then
    let names ← Prog.read Folder.children
    removeAbsentEntries source.children protectedNames names
  syncEntries source.dir

/-! ### The marker -/

/-- `os.replace` of a file. -/
def replace (source destination : Name) (f : Folder Content) :
    Except Exn (Folder Content) :=
  match f.get source with
  | none => .error (.os .notFound)
  | some e =>
    if (f.get destination).isDir then .error (.os .isADirectory)
    else .ok ((f.set source none).set destination (some e))

def writeState (phase : Phase) (target : String) : Prog World Exn Unit := do
  Prog.zoom (at_ stateTmpName) do
    .perform openTruncated
    copyFile (.document phase target)
    fsync
  (Prog.perform (replace stateTmpName stateName)).zoom rootOf

def readState : Slot Content → Except Exn (Option (Phase × String))
  | none => .ok none
  | some ⟨.file (.document phase target), _⟩ => .ok (some (phase, target))
  | some _ => .error (.message "marqueur de transaction illisible")

/-! ### The controller -/

/-- `stop` asks, stops the container, and may still raise. -/
def controllerStop : Prog World Exn Unit := do
  .assign fun w => { w with calls := w.calls ++ [.stop] }
  .perform fun w => .ok { w with running := false }
  .perform .ok

/-- `start` asks, starts the container, and may still raise while it waits for
the server to be ready. -/
def controllerStart : Prog World Exn Unit := do
  .assign fun w => { w with calls := w.calls ++ [.start] }
  .perform fun w => .ok { w with running := true }
  .perform .ok

/-! ### Transactions -/

def cleanupTransaction : Prog World Exn Unit := do
  removePath.zoom (at_ stageName)
  .assign fun w => { w with cleaning := some (w.slot rollbackName) }
  removePath.zoom (at_ rollbackName)
  .assign fun w => { w with cleaning := none }
  (Prog.perform (unlink true)).zoom (at_ stateName)
  (Prog.perform (unlink true)).zoom (at_ stateTmpName)

/-- `_sync_tree(rollback, data_root, _PROTECTED_ROOT_NAMES)`. -/
def syncFrom (name : Name) (removeAbsent : Bool) : Prog World Exn Unit := do
  let source ← Prog.read (World.slot · name)
  if !source.isDir then throw (.os .notADirectory)
  (syncTree source.folder protectedRootNames removeAbsent).zoom rootOf

def rollbackPhases : List Phase :=
  [.rollbackReady, .applying, .applied, .starting, .rollingBack, .rollbackFailed]

def cancelledMessage : String :=
  "une transaction interrompue a été annulée ; l'ancien monde est redémarré"

def earlyMessage : String := "une transaction interrompue avant application a été annulée"

def noRollbackMessage : String :=
  "le monde restauré a été redémarré, mais le rollback local était absent"

def refusalMessage : String :=
  "transaction interrompue sans rollback utilisable ; intervention manuelle requise"

/-- `_recover_interrupted_transaction` once a marker or a rollback was found; an
unreadable marker counts as none when there is a rollback. -/
def recoverState (rollback : Slot Content) (state : Option (Phase × String)) :
    Prog World Exn (Option String) :=
  let phase := state.map Prod.fst
  let target := (state.map Prod.snd).getD "archive inconnue"
  if phase = some .started then do
    cleanupTransaction
    return some target
  else if rollback.isSome ∧ (state.isNone ∨ phase ∈ rollbackPhases.map some) then do
    controllerStop
    syncFrom rollbackName true
    controllerStart
    cleanupTransaction
    throw (.message cancelledMessage)
  else if phase ∈ [.staged, .stopping, .stopped, .rollbackReady].map some then do
    controllerStart
    cleanupTransaction
    throw (.message earlyMessage)
  else if phase ∈ [.applied, .starting].map some then do
    controllerStart
    cleanupTransaction
    throw (.message noRollbackMessage)
  else throw (.message refusalMessage)

def recoverInterruptedTransaction : Prog World Exn (Option String) := do
  let marker ← Prog.read (World.slot · stateName)
  let rollback ← Prog.read (World.slot · rollbackName)
  if marker.isNone ∧ rollback.isNone then
    removePath.zoom (at_ stageName)
    (Prog.perform (unlink true)).zoom (at_ stateTmpName)
    return none
  else
    match readState marker with
    | .ok state => recoverState rollback state
    | .error e => if rollback.isNone then throw e else recoverState rollback none

/-- What the run is asked for: the outcome of `_resolve_target_archive`, and
whether the file system can share contents. -/
structure Request where
  resolved : Except Exn (String × Archive)
  reflink : Bool := false

/-- The body of the `try` of `restore_transaction`. -/
def applyTransaction (request : Request) (target : String) : Prog World Exn Unit := do
  writeState .stopping target
  .assign fun w => { w with stopped := true }
  controllerStop
  writeState .stopped target
  let dataRoot ← Prog.read World.root
  (cloneLiveTree request.reflink dataRoot).zoom (at_ rollbackName)
  .assign fun w => { w with rollbackReady := true }
  writeState .rollbackReady target
  writeState .applying target
  syncFrom stageName false
  writeState .applied target
  writeState .starting target
  controllerStart
  .assign fun w => { w with stopped := false }
  writeState .started target

def Exn.text : Exn → String
  | .os .notFound => "No such file or directory"
  | .os .fileExists => "File exists"
  | .os .isADirectory => "Is a directory"
  | .os .notADirectory => "Not a directory"
  | .os .directoryNotEmpty => "Directory not empty"
  | .os .inputOutput => "Input/output error"
  | .message text => text

/-- The `except` of `restore_transaction`. -/
def undoTransaction (target : String) (exc : Exn) : Prog World Exn Unit := do
  .assign fun w => { w with handling := true }
  if ← Prog.read World.rollbackReady then
    tryCatch
      (do
        writeState .rollingBack target
        controllerStop
        syncFrom rollbackName true
        controllerStart
        .assign fun w => { w with stopped := false }
        cleanupTransaction)
      fun _ => do
        tryCatch (writeState .rollbackFailed target) fun _ => pure ()
        throw (.message "restauration et rollback en échec ; intervention manuelle requise")
    throw (.message ("restauration annulée, rollback appliqué : " ++ Exn.text exc))
  else
    if ← Prog.read World.stopped then
      tryCatch
        (do
          controllerStart
          .assign fun w => { w with stopped := false })
        fun _ => throw (.message "échec avant application et redémarrage impossible")
    cleanupTransaction
    throw (.message ("restauration annulée avant application : " ++ Exn.text exc))

/-- `restore_transaction` once there is nothing to recover. -/
def newTransaction (request : Request) : Prog World Exn String := do
  .perform .ok
  match request.resolved with
  | .error e => throw e
  | .ok (target, archive) => do
    let _worldName ← (extractVerifiedArchive archive).zoom (at_ stageName)
    writeState .staged target
    tryCatch (applyTransaction request target) (undoTransaction target)
    tryCatch cleanupTransaction fun _ => pure ()
    return target

def restoreTransaction (request : Request) : Prog World Exn String := do
  match ← recoverInterruptedTransaction with
  | some target => return target
  | none => newTransaction request

/-! ### Runs -/

/-- One run of the worker, as a plan of the faults that hit it decides. -/
def run (request : Request) (plan : Plan Exn Empty) (w : World) : Result World Exn Empty String :=
  exec alone (restoreTransaction request) plan w.fresh

def runs (request : Request) (plans : List (Plan Exn Empty)) (w : World) : World :=
  plans.foldl (fun w plan => (run request plan w).state) w

def moments (request : Request) : List (Plan Exn Empty) → World → List (Moment World)
  | [], _ => []
  | plan :: plans, w =>
    (run request plan w).moments ++ moments request plans (run request plan w).state

end RestoreWorker
