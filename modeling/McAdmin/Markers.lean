import McAdmin.AdminService
import McAdmin.CallRules

/-!
# The markers of the graphs

The graphs of the performance page mark backups, restarts and updates, and the history of incidents
lists what was done about each.  Both know it from the journal: an entry counts by its permission
and by what its text contains.
-/

namespace Markers

open AdminService Calls McAdmin ServiceCore

/-! ### The readers -/

/-- `part in text` -/
def contains (text part : String) : Bool := text.toList.tails.any part.toList.isPrefixOf

def correctiveKind (action detail : String) : Option String :=
  if action = Permission.restart.value then some "restart"
  else if action = Permission.backupRestore.value then some "restore"
  else if action = Permission.maintenance.value then some "maintenance"
  else if action = Permission.update.value ∧ contains detail "phase=app_update_applied" = false then
    some "update"
  else if action = Permission.backupTrigger.value ∧ contains detail "phase=backup_done" then
    some "backup"
  else none

/-- The marker of an entry in the loop of `performance_events`. -/
def marker (action detail : String) : Option String :=
  if action = Permission.backupTrigger.value then
    if contains detail "phase=backup_done" then some "backup" else none
  else if action = Permission.restart.value then some "restart"
  else if action = Permission.update.value then
    if contains detail "phase=app_update_applied" then none else some "update"
  else none

def perfEventScanLimit : ℕ := 2000

def recent (limit : ℕ) (journal : List AuditEntry) : List AuditEntry :=
  journal.drop (journal.length - limit)

def marks (since : Instant) (entries : List AuditEntry) : List (Instant × String) :=
  entries.filterMap fun entry =>
    if entry.timestamp < since ∨ entry.outcome ≠ "allowed" then none
    else (marker entry.action entry.detail).map fun kind => (entry.timestamp, kind)

/-- `performance_events`, `none` for a user who may not read the status. -/
def performanceEvents (user : User) (since : Instant) (journal : List AuditEntry) :
    Option (List (Instant × String)) :=
  if user.can .status then some (marks since (recent perfEventScanLimit journal)) else none

/-- A `datetime`, with a zone or without. -/
structure Stamp where
  time : Instant
  aware : Bool
deriving DecidableEq, Repr

/-- `a <= b`, `none` where it raises. -/
def Stamp.le (a b : Stamp) : Option Bool :=
  if a.aware = b.aware then some (decide (a.time ≤ b.time)) else none

structure Incident where
  id : String
  subject : String
  kind : String
  label : String
  startedAt : Stamp
  endedAt : Option Stamp
deriving DecidableEq, Repr

/-- `incident.started_at <= timestamp <= end`, `none` where it raises. -/
def inWindow (incident : Incident) (ended : Stamp) (timestamp : Instant) : Option Bool := do
  let started ← incident.startedAt.le ⟨timestamp, true⟩
  if started then Stamp.le ⟨timestamp, true⟩ ended else return false

/-- What was done about an incident that lasts until `ended`, from the earliest on. -/
def correctiveActions (incident : Incident) (ended : Stamp) (audit : List AuditEntry) :
    List (Instant × String) :=
  let actions := audit.filterMap fun entry =>
    if entry.outcome ≠ "allowed" then none
    else match correctiveKind entry.action entry.detail with
      | none => none
      | some kind =>
        if inWindow incident ended entry.timestamp = some true then some (entry.timestamp, kind)
        else none
  actions.insertionSort fun a b => a.1 ≤ b.1

/-- The end of the window: an incident that goes on is looked at as of a reading of the clock. -/
def Incident.until (incident : Incident) (clock : Incident → Instant) : Stamp :=
  incident.endedAt.getD ⟨clock incident, true⟩

/-- `incidents`, `none` for a user who may not read the status. -/
def incidents (user : User) (found : List Incident) (clock : Incident → Instant)
    (journal : List AuditEntry) : Option (List (Incident × List (Instant × String))) :=
  if user.can .status then
    some (found.map fun incident =>
      (incident, correctiveActions incident (incident.until clock)
        (recent perfEventScanLimit journal)))
  else none

/-! ### What was really done -/

abbrev Written := Record State (Call Port) (Answer PortAnswer) Failure Request Choice

abbrev Process := Calls.Process State (Call Port) (Answer PortAnswer) Failure Error Unit Request
  Choice

abbrev Pool := Calls.Pool State (Call Port) (Answer PortAnswer) Failure Error Unit Request Choice

abbrev answered (p : Outside) (a : OutsideAnswer p) : MadeCall := ⟨.port (.outside p), .ok a⟩

abbrev accessed (m : Memory) (a : MemoryAnswer m) : MadeCall := ⟨.port (.memory m), .ok a⟩

/-- A restart was launched by the operation that has made some calls, or it concludes one that was
launched before. -/
inductive RestartLaunched (before : List Written) (past : List MadeCall) : Prop where
  | container : answered .restartContainer () ∈ past → RestartLaunched before past
  | levels (op : OpLevelsOperation) : op.permission = .restart →
      accessed (.beginOpLevels op) true ∈ past → RestartLaunched before past
  | concluded (op : OpLevelsOperation) : op.permission = .restart →
      accessed (.concludeOpLevels op) true ∈ past →
      (∃ r ∈ before, r.toMade = accessed (.beginOpLevels op) true) → RestartLaunched before past

/-- The restore was launched by the operation, or it follows one that was launched before. -/
inductive RestoreLaunched (before : List Written) (past : List MadeCall) : Prop where
  | launched (filename : String) : answered (.startRestore filename) () ∈ past →
      RestoreLaunched before past
  | followed (op : RestoreOperation) : accessed .restoreOperation (some op) ∈ past →
      op.over = false → (∃ r ∈ before, r.toMade = answered (.startRestore op.filename) ()) →
      RestoreLaunched before past

/-- The doorman took its place, or was relieved and the server started. -/
inductive Maintained (past : List MadeCall) : Prop where
  | engaged (motd kick : String) : answered (.engage motd kick) () ∈ past → Maintained past
  | reopened : answered .release () ∈ past → answered .startContainer () ∈ past → Maintained past

def UpdateLaunched (past : List MadeCall) : Prop := answered .startUpdater () ∈ past

/-- A backup of a profile was under way, and an archive of it is there. -/
def BackedUp (past : List MadeCall) : Prop :=
  ∃ profiles, answered .listProfiles profiles ∈ past ∧ ∃ profile ∈ profiles,
    ∃ startedAt, accessed (.popStartedAt profile.id) (some startedAt) ∈ past ∧
      ∃ archives, answered .listArchives archives ∈ past ∧
        ∃ archive, archive ∈ produced s!"{profile.dest}/" startedAt archives

inductive CarriedOut (before : List Written) (past : List MadeCall) : String → Prop where
  | restart : RestartLaunched before past → CarriedOut before past "restart"
  | restore : RestoreLaunched before past → CarriedOut before past "restore"
  | maintenance : Maintained past → CarriedOut before past "maintenance"
  | update : UpdateLaunched past → CarriedOut before past "update"
  | backup : BackedUp past → CarriedOut before past "backup"

def Wrote (r : Written) (entry : AuditEntry) : Prop := r.toMade = ⟨.record entry, .ok ()⟩

/-- The entry of an intervention of some kind that was carried out. -/
def Real (trace : List Written) (entry : AuditEntry) (kind : String) : Prop :=
  ∃ before r after, trace = before ++ r :: after ∧ Wrote r entry ∧
    CarriedOut before (made r.past) kind

/-! ### Updates, one by one -/

def isLaunch : MadeCall → Bool
  | ⟨.port (.outside .startUpdater), .ok _⟩ => true
  | _ => false

def isUpdateMarker : MadeCall → Bool
  | ⟨.record entry, .ok _⟩ =>
    entry.outcome == "allowed" && marker entry.action entry.detail == some "update"
  | _ => false

def launches (trace : List Written) : ℕ := trace.countP fun r => isLaunch r.toMade

/-- A process has launched an update that the journal does not know of. -/
def owes (q : Process) : Bool :=
  (made q.past).any isLaunch && !(made q.past).any isUpdateMarker

def failsToWrite : MadeCall → Bool
  | ⟨.now, .error _⟩ | ⟨.record _, .error _⟩ => true
  | _ => false

/-! ### The claim of the two pages -/

/-- A marker of a restart or of an update is the entry of one that was launched; there are as many
markers of updates as updates, but for those not yet entered and those whose entry failed; and what
an incident lists was carried out. -/
structure Truthful (p : Pool) : Prop where
  restarts : ∀ user since events,
    performanceEvents user since p.world.state.journal = some events →
    ∀ t, (t, "restart") ∈ events →
      ∃ entry, entry.timestamp = t ∧ Real p.world.trace entry "restart"
  updates : ∀ user since events,
    performanceEvents user since p.world.state.journal = some events →
    ∀ t, (t, "update") ∈ events →
      ∃ entry, entry.timestamp = t ∧ Real p.world.trace entry "update"
  updates_le : ∀ user since events,
    performanceEvents user since p.world.state.journal = some events →
    events.countP (·.2 == "update") ≤ launches p.world.trace
  updates_eq : ∀ user since events,
    performanceEvents user since p.world.state.journal = some events →
    p.world.state.journal.length ≤ perfEventScanLimit →
    (∀ entry ∈ p.world.state.journal, since ≤ entry.timestamp) →
    events.countP (·.2 == "update") + p.processes.countP owes = launches p.world.trace
  entered : ∀ q ∈ p.processes, q.rest = none → owes q = true →
    (made q.past).any failsToWrite = true
  incidents : ∀ user found clock listed,
    incidents user found clock p.world.state.journal = some listed →
    ∀ row ∈ listed, ∀ action ∈ row.2,
      ∃ entry, entry.timestamp = action.1 ∧
        inWindow row.1 (row.1.until clock) action.1 = some true ∧
        Real p.world.trace entry action.2

/-! ### The entries that mislead -/

def startsWith (text start : String) : Bool := start.toList.isPrefixOf text.toList

/-- What announces an operation, puts it off or takes it back, or only asks for it. -/
def announcements : List (Permission × String) :=
  [(.restart, "phase=restart_scheduled "), (.restart, "phase=restart_cancelled "),
    (.restart, "rien à annuler"), (.restart, "phase=deferred_players_online "),
    (.restart, "redémarrage récurrent "),
    (.maintenance, "phase=maintenance_scheduled "),
    (.maintenance, "phase=maintenance_cancelled "), (.maintenance, "rien à annuler"),
    (.maintenance, "phase=deferred_players_online "),
    (.maintenance, "phase=maintenance_deferred "), (.maintenance, "maintenance programmée "),
    (.maintenance, "rien à retirer"),
    (.backupRestore, "phase=restore_requested"), (.backupRestore, "phase=security_backup_started"),
    (.backupRestore, "phase=restore_pending"), (.backupRestore, "phase=security_backup_done")]

def announces (action detail : String) : Bool :=
  announcements.any fun row => row.1.value == action && startsWith detail row.2

/-- The end of an update of the server is a second marker, the postponement of that of the
application is one without an update, and the launch is none if its text quotes the phase that is
left out. -/
def misleadsUpdate (detail : String) : Bool :=
  if startsWith detail "phase=update_started " then contains detail "phase=app_update_applied"
  else (startsWith detail "phase=update_done " || startsWith detail "phase=app_update_snoozed ") &&
    !contains detail "phase=app_update_applied"

def misleadsBackup (detail : String) : Bool :=
  contains detail "phase=backup_done" && !startsWith detail "phase=backup_done "

def misleads (entry : AuditEntry) : Bool :=
  entry.outcome == "allowed" &&
    (announces entry.action entry.detail ||
      entry.action == Permission.update.value && misleadsUpdate entry.detail ||
      entry.action == Permission.backupTrigger.value && misleadsBackup entry.detail)

def plain : Call Port → Bool
  | .record entry => !misleads entry
  | _ => true

abbrev Plain : Condition State (Call Port) (Answer PortAnswer) Failure Request Choice :=
  fun _ _ _ c => plain c = true

end Markers
