import McAdmin.AdminMaintenance
import McAdmin.AdminRestore

/-!
# The service among its threads

Requests and background ticks run side by side on the attributes of the service and on one journal;
what the ports answer is up to the surroundings.
-/

namespace AdminService

open Calls McAdmin ServiceCore

/-! ### The state -/

structure State where
  journal : List AuditEntry := []
  opLevelsOperation : Option OpLevelsOperation := none
  announced : List String := []
  updateOperation : Option UpdateOperation := none
  restoreOperation : Option RestoreOperation := none
  startedAt : Dict String Instant := ∅
  progressMax : Dict String ℤ := ∅
  backupResult : Option BackupOutcome := none
  operationIds : Dict String String := ∅
  activeProfile : Option String := none
  safetyValidation : Option String := none

/-- An access, and how a start of the op levels' worker goes that is asked for with it. -/
def access (applied : Except Failure Unit) (s : State) :
    (m : Memory) → Except Failure (MemoryAnswer m) × State
  | .opLevelsOperation => (.ok s.opLevelsOperation, s)
  | .beginOpLevels operation =>
    if s.opLevelsOperation.isSome then (.ok false, s)
    else match applied with
    | .ok () => (.ok true, { s with opLevelsOperation := some operation })
    | .error f => (.error f, s)
  | .concludeOpLevels operation =>
    if s.opLevelsOperation = some operation then
      (.ok true, { s with opLevelsOperation := none })
    else (.ok false, s)
  | .announced id => (.ok (s.announced.contains id), s)
  | .announce id => (.ok (), { s with announced := id :: s.announced })
  | .unannounce id => (.ok (), { s with announced := s.announced.filter (· ≠ id) })
  | .updateOperation => (.ok s.updateOperation, s)
  | .setUpdateOperation operation => (.ok (), { s with updateOperation := operation })
  | .restoreOperation => (.ok s.restoreOperation, s)
  | .setRestoreOperation operation => (.ok (), { s with restoreOperation := operation })
  | .startedAt kind => (.ok (s.startedAt.lookup kind), s)
  | .setStartedAt kind t => (.ok (), { s with startedAt := Dict.set s.startedAt kind t })
  | .popStartedAt kind =>
    (.ok (s.startedAt.lookup kind), { s with startedAt := s.startedAt.erase kind })
  | .progressMax kind => (.ok (s.progressMax.lookup kind), s)
  | .setProgressMax kind progress =>
    (.ok (), { s with progressMax := Dict.set s.progressMax kind progress })
  | .popProgressMax kind => (.ok (), { s with progressMax := s.progressMax.erase kind })
  | .backupResult => (.ok s.backupResult, s)
  | .setBackupResult outcome => (.ok (), { s with backupResult := outcome })
  | .operationId kind => (.ok (s.operationIds.lookup kind), s)
  | .setOperationId kind id => (.ok (), { s with operationIds := Dict.set s.operationIds kind id })
  | .popOperationId kind =>
    (.ok (s.operationIds.lookup kind), { s with operationIds := s.operationIds.erase kind })
  | .setActiveProfile id => (.ok (), { s with activeProfile := some id })
  | .setSafetyValidation filename => (.ok (), { s with safetyValidation := filename })

abbrev Choice := (c : Call Port) → Except Failure (Answer PortAnswer c)

def Choice.applied (choice : Choice) (m : Memory) : Except Failure Unit :=
  (choice (.port (.memory m))).map fun _ => ()

def respond (choice : Choice) (c : Call Port) (s : State) :
    Except Failure (Answer PortAnswer c) × State :=
  match c with
  | .now => (choice .now, s)
  | .record entry =>
    match choice (.record entry) with
    | .ok () => (.ok (), { s with journal := s.journal ++ [entry] })
    | .error f => (.error f, s)
  | .port (.outside p) => (choice (.port (.outside p)), s)
  | .port (.memory m) => access (Choice.applied choice m) s m

/-! ### The requests -/

inductive Request where
  | restart (user : User)
  | start (user : User)
  | scheduleRestart (user : User) (minutes : ProfileSchedule.Hours) (deferIfPlayers : Bool)
  | cancelScheduledRestart (user : User)
  | setRecurringRestart (user : User) (timeHhmm : String) (leadSeconds : ℤ) (deferIfPlayers : Bool)
  | clearRecurringRestart (user : User)
  | tickScheduledRestart (user : User)
  | enterMaintenance (user : User) (message until_ : String) (grace : ProfileSchedule.Hours)
    (deferIfPlayers : Bool)
  | cancelPendingMaintenance (user : User)
  | exitMaintenance (user : User)
  | addScheduledMaintenance (user : User) (form : ScheduledMaintenance)
  | removeScheduledMaintenance (user : User) (id : String)
  | tickMaintenance (user : User)
  | updateStatus (user : User)
  | applyUpdate (user : User) (force : Bool)
  | snoozeAppUpdate (user : User) (hours : ProfileSchedule.Hours)
  | applyAppUpdate (user : User)
  | triggerProfileBackup (user : User) (id : String)
  | tickBackupProfiles (user : User)
  | backupProgress (user : User)
  | applyBackupRetention (user : User) (dailyDays monthlyMonths : ℤ) (folder : String)
  | restoreBackup (user : User) (filename : String)
  | tickPendingRestore (user : User)
  | dismissActivityResult (user : User)
deriving DecidableEq

variable (cfg : Config)

def ignored {α : Type} (p : Program α) : Program Unit := p >>= fun _ => return ()

def Request.program : Request → Program Unit
  | .restart user => ignored (AdminService.restart cfg user)
  | .start user => AdminService.start cfg user
  | .scheduleRestart user minutes deferIfPlayers =>
    AdminService.scheduleRestart cfg user minutes deferIfPlayers
  | .cancelScheduledRestart user => AdminService.cancelScheduledRestart cfg user
  | .setRecurringRestart user timeHhmm leadSeconds deferIfPlayers =>
    AdminService.setRecurringRestart cfg user timeHhmm leadSeconds deferIfPlayers
  | .clearRecurringRestart user => AdminService.clearRecurringRestart cfg user
  | .tickScheduledRestart user => AdminService.tickScheduledRestart cfg user
  | .enterMaintenance user message until_ grace deferIfPlayers =>
    AdminService.enterMaintenance cfg user message until_ grace deferIfPlayers
  | .cancelPendingMaintenance user => AdminService.cancelPendingMaintenance cfg user
  | .exitMaintenance user => AdminService.exitMaintenance cfg user
  | .addScheduledMaintenance user form =>
    ignored (AdminService.addScheduledMaintenance cfg user form)
  | .removeScheduledMaintenance user id => AdminService.removeScheduledMaintenance cfg user id
  | .tickMaintenance user => AdminService.tickMaintenance cfg user
  | .updateStatus user => ignored (AdminService.updateStatus cfg user)
  | .applyUpdate user force => AdminService.applyUpdate cfg user force
  | .snoozeAppUpdate user hours => AdminService.snoozeAppUpdate cfg user hours
  | .applyAppUpdate user => AdminService.applyAppUpdate cfg user
  | .triggerProfileBackup user id => ignored (AdminService.triggerProfileBackup cfg user id)
  | .tickBackupProfiles user => AdminService.tickBackupProfiles cfg user
  | .backupProgress user => ignored (AdminService.backupProgress cfg user)
  | .applyBackupRetention user dailyDays monthlyMonths folder =>
    ignored (AdminService.applyBackupRetention cfg user dailyDays monthlyMonths folder)
  | .restoreBackup user filename => ignored (AdminService.restoreBackup cfg user filename)
  | .tickPendingRestore user => ignored (AdminService.tickPendingRestore cfg user)
  | .dismissActivityResult user => ignored (AdminService.dismissActivityResult cfg user)

/-- The service, to which any request may come at any time. -/
def server : Server State (Call Port) (Answer PortAnswer) Failure Error Unit Request Choice where
  handler := Request.program cfg
  admits _ _ := true
  allows _ _ _ := true
  respond := respond
  deliver _ _ s := s

end AdminService
