import McAdmin.RestoreGate

/-!
# Refused restores

A restore that waits for its safety backup may be refused, or fail before the worker is
started.  It is then no longer pending, an event of the audit journal tells why, and the
failure is kept for display: three calls of the tick, any of which a failing call before it
may leave out.
-/

namespace RefusedRestores

open Runs
open RestoreGate (Phase restoreWaitMax restoreExecutionMax restoreHealthMax)

/-! ### The data -/

structure OperationId where
  requestedAt : ℤ
  filename : String
deriving DecidableEq

structure PendingRestore where
  filename : String
  deadline : ℤ
  operationId : OperationId
  safetyArchivesBefore : List String
deriving DecidableEq

structure RestoreOperation where
  filename : String
  operationId : OperationId
  phase : Phase
  deadline : ℤ
deriving DecidableEq

/-- The phases `_restore_event` writes. -/
inductive EventPhase where
  | restoreRejected
  | restoreRequested
  | securityBackupStarted
  | securityBackupFailed
  | restorePending
  | securityBackupTimeout
  | securityBackupDone
  | restoreStarted
  | restoreFailed
  | restoreDone
  | minecraftRestarting
  | minecraftHealthy
  | restoreCompleted
  | minecraftUnhealthyTimeout
deriving DecidableEq

def EventPhase.isTerminalFailure : EventPhase → Bool
  | .securityBackupFailed => true
  | .securityBackupTimeout => true
  | .restoreFailed => true
  | _ => false

structure AuditEvent where
  phase : EventPhase
  operationId : Option OperationId
deriving DecidableEq

structure State where
  pending : Option PendingRestore := none
  operation : Option RestoreOperation := none
  safetyRunning : Bool := false
  safetyExit : Option ℤ := none
  workerRunning : Bool := false
  workerExit : Option ℤ := none
  journal : List AuditEvent := []
  /-- The requests the worker was started for. -/
  starts : List OperationId := []

inductive Fate where
  | done
  | failed
  | failedAfter
deriving DecidableEq

structure Request extends RestoreGate.Request where
  /-- The clock when the request gets its identifier. -/
  requestedAt : ℤ
  /-- No container of the preflight is unreadable. -/
  preflightReadable : Bool := true
  records : EventPhase → Fate := fun _ => .done

/-- `records` answers for every event of the tick, and `journals` is not read. -/
structure Tick extends RestoreGate.Tick where
  records : EventPhase → Fate := fun _ => .done
  notifies : Bool := true

/-! ### The calls

A call returns or raises, and leaves a state in both cases. -/

abbrev Call := Except State State

def Call.left : Call → State
  | .ok s => s
  | .error s => s

def restoreEvent (records : EventPhase → Fate) (phase : EventPhase)
    (operationId : Option OperationId) (s : State) : Call :=
  let written := { s with journal := s.journal ++ [⟨phase, operationId⟩] }
  match records phase with
  | .done => .ok written
  | .failed => .error s
  | .failedAfter => .error written

/-! ### The requests -/

def State.dismissed (s : State) : State :=
  match s.operation with
  | none => s
  | some op => if op.phase.isFinal then { s with operation := none } else s

def preflightClear (filename : String) (r : Request) (s : State) : Bool :=
  s.operation.all (·.phase.isFinal) && s.pending.isNone && !s.workerRunning &&
    !s.safetyRunning && !r.blocked &&
    RestoreGate.archiveClear r.listed r.pathFound r.checks filename

def reject (r : Request) (s : State) : Call := do
  let s ← restoreEvent r.records .restoreRejected none s
  throw s

def trigger (r : Request) (s : State) : Call :=
  match r.trigger with
  | .started => .ok { s with safetyRunning := true }
  | .refused => .error s
  | .failed => .error s
  | .failedAfter => .error { s with safetyRunning := true }

def startSafetyBackup (r : Request) (operationId : OperationId) (s : State) : Call :=
  tryCatch
    (do
      let s ← trigger r s
      restoreEvent r.records .securityBackupStarted (some operationId) s)
    fun s => do
      let s ← restoreEvent r.records .securityBackupFailed (some operationId) s
      throw s

def restoreBackup (filename : String) (r : Request) (s : State) : Call :=
  let s := s.dismissed
  if r.pathFound = false then reject r s
  else if r.preflightReadable = false then .error s
  else if preflightClear filename r s = false then reject r s
  else do
    let operationId := ⟨r.requestedAt, filename⟩
    let s ← restoreEvent r.records .restoreRequested (some operationId) s
    match r.listedBefore with
    | none => throw s
    | some archives =>
      let s ← startSafetyBackup r operationId s
      let pending := ⟨filename, r.now + restoreWaitMax, operationId,
        RestoreGate.safetyArchives archives⟩
      restoreEvent r.records .restorePending (some operationId) { s with pending := some pending }

/-! ### The ticks -/

def finish (op : RestoreOperation) (phase : Phase) (s : State) : State :=
  { s with operation := some { op with phase } }

def notifyRestore (m : Tick) (s : State) : Call := if m.notifies then .ok s else .error s

def tickWaiting (m : Tick) (op : RestoreOperation) (s : State) : Call :=
  if m.healthy then do
    let s ← restoreEvent m.records .minecraftHealthy (some op.operationId) s
    let s ← restoreEvent m.records .restoreCompleted (some op.operationId) s
    return finish op .success s
  else .ok s

def tickRunning (m : Tick) (op : RestoreOperation) (s : State) : Call :=
  let id := some op.operationId
  if m.workerReadable = false then do
    let s ← restoreEvent m.records .restoreFailed id s
    return finish op .failed s
  else if s.workerRunning then .ok s
  else if m.workerExitReadable = false ∨ s.workerExit ≠ some 0 then do
    let s ← restoreEvent m.records .restoreFailed id s
    let s ← notifyRestore m s
    return finish op .failed s
  else do
    let s ← restoreEvent m.records .restoreDone id s
    let s ← restoreEvent m.records .minecraftRestarting id s
    let op := { op with phase := .waitingMinecraft, deadline := m.now + restoreHealthMax }
    tickWaiting m op { s with operation := some op }

def tickRestoreOperation (m : Tick) (s : State) : Call :=
  match s.operation with
  | none => .ok s
  | some op =>
    let id := some op.operationId
    if op.phase.isFinal then .ok s
    else if op.deadline ≤ m.now then
      if op.phase = .restoreRunning then do
        let s ← restoreEvent m.records .restoreFailed id s
        return finish op .failed s
      else do
        let s ← restoreEvent m.records .minecraftUnhealthyTimeout id s
        let s ← restoreEvent m.records .restoreFailed id s
        return finish op .failed s
    else if op.phase = .restoreRunning then tickRunning m op s
    else tickWaiting m op s

def rememberPendingRestoreFailure (m : Tick) (p : PendingRestore) (s : State) : State :=
  { s with operation := some ⟨p.filename, p.operationId, .failed, m.now⟩ }

/-- The restore is given up; what the notification does changes nothing here. -/
def abandon (m : Tick) (p : PendingRestore) (phase : EventPhase) (s : State) : Call := do
  let s := { s with pending := none }
  let s ← restoreEvent m.records phase (some p.operationId) s
  return rememberPendingRestoreFailure m p s

def startWorker (p : PendingRestore) (s : State) : State :=
  { s with workerRunning := true, starts := s.starts ++ [p.operationId] }

def startRestoreAfterBackup (m : Tick) (p : PendingRestore) (s : State) : Call :=
  match m.restore with
  | .started =>
    let op := ⟨p.filename, p.operationId, .restoreRunning, m.now + restoreExecutionMax⟩
    restoreEvent m.records .restoreStarted (some p.operationId)
      { startWorker p s with operation := some op }
  | .refused => .error s
  | .failed => .error s
  | .failedAfter => .error (startWorker p s)

/-- The last `try` of the tick. -/
def launch (m : Tick) (p : PendingRestore) (s : State) : Call :=
  tryCatch
    (do
      let s ← restoreEvent m.records .securityBackupDone (some p.operationId) s
      let s ← startRestoreAfterBackup m p s
      return { s with pending := none })
    fun s => do
      let s := { s with pending := none }
      let s ← restoreEvent m.records .restoreFailed (some p.operationId) s
      throw s

inductive Verdict where
  | waits
  | refuses (phase : EventPhase)
  | passes

/-- The gate reads only the archives of the safety backup. -/
def PendingRestore.gate (p : PendingRestore) : RestoreGate.PendingRestore where
  filename := p.filename
  deadline := p.deadline
  operationId := 0
  safetyArchivesBefore := p.safetyArchivesBefore

def verdict (m : Tick) (p : PendingRestore) (s : State) : Verdict :=
  if p.deadline ≤ m.now then .refuses .securityBackupTimeout
  else if m.safetyReadable = false ∨ s.safetyRunning then .waits
  else if m.exitReadable = false then .waits
  else if s.safetyExit ≠ some 0 then .refuses .securityBackupFailed
  else match RestoreGate.validateNewSafetyArchive m.toTick p.gate with
  | none => .refuses .securityBackupFailed
  | some _ =>
    if RestoreGate.archiveClear m.targetListed m.pathFound m.checks p.filename then .passes
    else .refuses .restoreFailed

def tickPendingRestore (m : Tick) (s : State) : Call :=
  if m.scans = false then .error s
  else match s.pending with
  | none => tickRestoreOperation m s
  | some p =>
    match verdict m p s with
    | .waits => .ok s
    | .refuses phase => abandon m p phase s
    | .passes => launch m p s

inductive Event where
  | restoreBackup (filename : String) (r : Request)
  | tick (m : Tick)
  | safetyEnded (exitCode : ℤ)
  | workerEnded (exitCode : ℤ)
  /-- The result on display is closed. -/
  | dismiss
  /-- The service starts again: what it kept in memory is gone. -/
  | serviceRestarted

def step (s : State) : Event → State
  | .restoreBackup filename r => (restoreBackup filename r s).left
  | .tick m => (tickPendingRestore m s).left
  | .safetyEnded exitCode =>
    if s.safetyRunning then { s with safetyRunning := false, safetyExit := some exitCode } else s
  | .workerEnded exitCode =>
    if s.workerRunning then { s with workerRunning := false, workerExit := some exitCode } else s
  | .dismiss => s.dismissed
  | .serviceRestarted => { s with pending := none, operation := none }

/-! ### What is shown -/

inductive Progress where
  | idle
  | backupRunning
  | restorePending
  | operation (phase : Phase)
deriving DecidableEq

structure RestoreProgress where
  phase : Progress
  operationId : Option OperationId
deriving DecidableEq

/-- `restore_progress` between two ticks. -/
def restoreProgress (safetyReadable : Bool) (s : State) : RestoreProgress :=
  match s.pending with
  | none =>
    match s.operation with
    | none => ⟨.idle, none⟩
    | some op => ⟨.operation op.phase, some op.operationId⟩
  | some p =>
    if safetyReadable && s.safetyRunning then ⟨.backupRunning, some p.operationId⟩
    else ⟨.restorePending, some p.operationId⟩

def isFailureOf (id : OperationId) (event : AuditEvent) : Bool :=
  event.phase.isTerminalFailure && event.operationId = some id

def failures (id : OperationId) (s : State) : ℕ := s.journal.countP (isFailureOf id)

/-- The result is dismissed, or another restore is requested. -/
def Event.closes : Event → Bool
  | .dismiss => true
  | .restoreBackup _ _ => true
  | _ => false

/-- A restore that is cleared without a start of the worker has one failure event from then
on, and is shown as failed until the result is closed. -/
def RefusalsVisible (s : State) (events : List Event) : Prop :=
  ∀ before event after p, events = before ++ event :: after →
    (run step s before).pending = some p →
    (run step s (before ++ [event])).pending ≠ some p →
    p.operationId ∉ (run step s (before ++ [event])).starts →
    failures p.operationId (run step s events) = 1 ∧
      ((∀ event ∈ after, event.closes = false) → ∀ safetyReadable,
        restoreProgress safetyReadable (run step s events) =
          ⟨.operation .failed, some p.operationId⟩)

def startsWorker : RestoreGate.Fate → Bool
  | .started => true
  | .failedAfter => true
  | _ => false

/-- The tick can say what became of the pending restore. -/
def Reported (m : Tick) (p : PendingRestore) (s : State) : Prop :=
  match verdict m p s with
  | .waits => True
  | .refuses phase => m.records phase = .done
  | .passes => m.records .securityBackupDone = .done ∧ startsWorker m.restore = true

instance (m : Tick) (p : PendingRestore) (s : State) : Decidable (Reported m p s) := by
  unfold Reported
  split
  · exact instDecidableTrue
  · infer_instance
  · infer_instance

/-- A request's identifier is new, a tick can report, and the service does not forget a
restore that waits or its failure. -/
def Regular (s : State) : Event → Prop
  | .restoreBackup filename r =>
    ∀ event ∈ s.journal, event.operationId ≠ some ⟨r.requestedAt, filename⟩
  | .tick m => m.scans = true → ∀ p ∈ s.pending, Reported m p s
  | .serviceRestarted => s.pending = none ∧ ∀ op ∈ s.operation, op.phase ≠ .failed
  | _ => True

instance (s : State) : ∀ event, Decidable (Regular s event)
  | .restoreBackup filename r => inferInstanceAs (Decidable
      (∀ event ∈ s.journal, event.operationId ≠ some ⟨r.requestedAt, filename⟩))
  | .tick m => inferInstanceAs (Decidable (m.scans = true → ∀ p ∈ s.pending, Reported m p s))
  | .serviceRestarted => inferInstanceAs (Decidable
      (s.pending = none ∧ ∀ op ∈ s.operation, op.phase ≠ .failed))
  | .safetyEnded _ => instDecidableTrue
  | .workerEnded _ => instDecidableTrue
  | .dismiss => instDecidableTrue

/-! ### Calls -/

section

variable {P Q E : State → Prop} {s : State} {id : OperationId}

/-- What holds of the state a call leaves, when it returns and when it raises. -/
def Ends (P E : State → Prop) : Call → Prop
  | .ok s => P s
  | .error s => E s

theorem Ends.left {c : Call} (h : Ends P P c) : P c.left := by
  cases c with
  | ok s => exact h
  | error s => exact h

theorem Ends.bind {c : Call} {f : State → Call} (h : Ends P E c)
    (hf : ∀ s, P s → Ends Q E (f s)) : Ends Q E (c >>= f) := by
  cases c with
  | ok s => exact hf s h
  | error s => exact h

theorem Ends.tryCatch {c : Call} {f : State → Call} (h : Ends P Q c)
    (hf : ∀ s, Q s → Ends P E (f s)) : Ends P E (tryCatch c f) := by
  cases c with
  | ok s => exact h
  | error s => exact hf s h

theorem Ends.mono {P' E' : State → Prop} {c : Call} (h : Ends P E c) (hP : ∀ s, P s → P' s)
    (hE : ∀ s, E s → E' s) : Ends P' E' c := by
  cases c with
  | ok s => exact hP s h
  | error s => exact hE s h

theorem ends_notifyRestore (m : Tick) (hs : P s) : Ends P P (notifyRestore m s) := by
  simp only [notifyRestore]
  split
  · exact hs
  · exact hs

theorem restoreEvent_of_done {records : EventPhase → Fate} {phase : EventPhase}
    (h : records phase = .done) (operationId : Option OperationId) (s : State) :
    restoreEvent records phase operationId s =
      .ok { s with journal := s.journal ++ [⟨phase, operationId⟩] } := by
  simp only [restoreEvent, h]

/-- A predicate that what the ticks do for the restores of `N` keeps. -/
structure Keeps (N : OperationId → Prop) (P : State → Prop) : Prop where
  write : ∀ s phase id, P s → (∀ i ∈ id, N i) →
    P { s with journal := s.journal ++ [⟨phase, id⟩] }
  operation : ∀ s op, P s → N op.operationId → P { s with operation := some op }
  clear : ∀ s, P s → P { s with pending := none }
  start : ∀ s p, P s → N p.operationId → P (startWorker p s)

section

variable {N : OperationId → Prop} (hP : Keeps N P)
include hP

theorem Keeps.restoreEvent (records : EventPhase → Fate) (phase : EventPhase)
    {id : Option OperationId} (hid : ∀ i ∈ id, N i) (hs : P s) :
    Ends P P (restoreEvent records phase id s) := by
  simp only [RefusedRestores.restoreEvent]
  cases records phase with
  | done => exact hP.write s phase id hs hid
  | failed => exact hs
  | failedAfter => exact hP.write s phase id hs hid

theorem Keeps.event {records : EventPhase → Fate} {phase : EventPhase} {i : OperationId}
    {f : State → Call} (hi : N i) (hs : P s) (hf : ∀ s, P s → Ends P P (f s)) :
    Ends P P (RefusedRestores.restoreEvent records phase (some i) s >>= f) := by
  apply (hP.restoreEvent records phase _ hs).bind hf
  rintro _ ⟨⟩
  exact hi

theorem Keeps.finish {op : RestoreOperation} (hop : N op.operationId) (phase : Phase) (hs : P s) :
    P (finish op phase s) := hP.operation s _ hs hop

theorem Keeps.tickWaiting (m : Tick) {op : RestoreOperation} (hop : N op.operationId)
    (hs : P s) : Ends P P (tickWaiting m op s) := by
  simp only [RefusedRestores.tickWaiting]
  split
  · apply hP.event hop hs
    intro s₁ hs₁
    apply hP.event hop hs₁
    intro s₂ hs₂
    exact hP.finish hop .success hs₂
  · exact hs

theorem Keeps.tickRunning (m : Tick) {op : RestoreOperation} (hop : N op.operationId)
    (hs : P s) : Ends P P (tickRunning m op s) := by
  simp only [RefusedRestores.tickRunning]
  split
  · apply hP.event hop hs
    intro s₁ hs₁
    exact hP.finish hop .failed hs₁
  split
  · exact hs
  split
  · apply hP.event hop hs
    intro s₁ hs₁
    apply (ends_notifyRestore m hs₁).bind
    intro s₂ hs₂
    exact hP.finish hop .failed hs₂
  · apply hP.event hop hs
    intro s₁ hs₁
    apply hP.event hop hs₁
    intro s₂ hs₂
    apply hP.tickWaiting m
    · exact hop
    · exact hP.operation s₂ _ hs₂ hop

theorem Keeps.tickRestoreOperation (m : Tick)
    (hop : ∀ op, s.operation = some op → op.phase.isFinal = false → N op.operationId)
    (hs : P s) : Ends P P (tickRestoreOperation m s) := by
  simp only [RefusedRestores.tickRestoreOperation]
  split
  · exact hs
  rename_i op hoperation
  split
  · exact hs
  rename_i hfinal
  have hN := hop op hoperation (Bool.eq_false_iff.mpr hfinal)
  split
  · split
    · apply hP.event hN hs
      intro s₁ hs₁
      exact hP.finish hN .failed hs₁
    · apply hP.event hN hs
      intro s₁ hs₁
      apply hP.event hN hs₁
      intro s₂ hs₂
      exact hP.finish hN .failed hs₂
  split
  · exact hP.tickRunning m hN hs
  · exact hP.tickWaiting m hN hs

theorem Keeps.abandon (m : Tick) {p : PendingRestore} (hp : N p.operationId) (phase : EventPhase)
    (hs : P s) : Ends P P (abandon m p phase s) := by
  simp only [RefusedRestores.abandon]
  apply hP.event hp (hP.clear s hs)
  intro s₁ hs₁
  exact hP.operation s₁ _ hs₁ hp

theorem Keeps.startRestoreAfterBackup (m : Tick) {p : PendingRestore} (hp : N p.operationId)
    (hs : P s) : Ends P P (startRestoreAfterBackup m p s) := by
  simp only [RefusedRestores.startRestoreAfterBackup]
  cases m.restore with
  | started =>
    apply hP.restoreEvent
    · rintro _ ⟨⟩
      exact hp
    · exact hP.operation _ _ (hP.start s p hs hp) hp
  | refused => exact hs
  | failed => exact hs
  | failedAfter => exact hP.start s p hs hp

theorem Keeps.launch (m : Tick) {p : PendingRestore} (hp : N p.operationId) (hs : P s) :
    Ends P P (launch m p s) := by
  simp only [RefusedRestores.launch]
  apply Ends.tryCatch (Q := P)
  · apply hP.event hp hs
    intro s₁ hs₁
    apply (hP.startRestoreAfterBackup m hp hs₁).bind
    intro s₂ hs₂
    exact hP.clear s₂ hs₂
  · intro s₁ hs₁
    apply hP.event hp (hP.clear s₁ hs₁)
    intro s₂ hs₂
    exact hs₂

theorem Keeps.tickPendingRestore (m : Tick)
    (hpending : ∀ p, s.pending = some p → N p.operationId)
    (hop : ∀ op, s.operation = some op → op.phase.isFinal = false → N op.operationId)
    (hs : P s) : Ends P P (tickPendingRestore m s) := by
  simp only [RefusedRestores.tickPendingRestore]
  split
  · exact hs
  split
  · exact hP.tickRestoreOperation m hop hs
  · rename_i p hp
    split
    · exact hs
    · exact hP.abandon m (hpending p hp) _ hs
    · exact hP.launch m (hpending p hp) hs

end

/-! ### The failure events of a restore -/

theorem failures_write (id : OperationId) (s : State) (event : AuditEvent) :
    failures id { s with journal := s.journal ++ [event] } =
      failures id s + (if isFailureOf id event then 1 else 0) := by
  simp only [failures, List.countP_append, List.countP_singleton]

theorem isFailureOf_of_ne {event : AuditEvent} (h : event.operationId ≠ some id) :
    isFailureOf id event = false := by
  simp [isFailureOf, h]

theorem failures_eq_zero (h : ∀ event ∈ s.journal, event.operationId ≠ some id) :
    failures id s = 0 := by
  simp only [failures, List.countP_eq_zero]
  intro event hevent
  rw [isFailureOf_of_ne (h event hevent)]
  exact Bool.false_ne_true

theorem event_of_failures (h : failures id s ≠ 0) :
    ∃ event ∈ s.journal, event.operationId = some id := by
  by_contra hnone
  push Not at hnone
  exact h (failures_eq_zero hnone)

def Unreported (s : State) : Prop := ∀ p, s.pending = some p → failures p.operationId s = 0

structure Settled (id : OperationId) (s : State) : Prop where
  failures : failures id s = 1
  pending : ∀ p, s.pending = some p → p.operationId ≠ id
  operation : ∀ op, s.operation = some op → op.operationId = id → op.phase.isFinal = true

structure Shown (id : OperationId) (s : State) : Prop where
  pending : s.pending = none
  operation : ∃ op, s.operation = some op ∧ op.operationId = id ∧ op.phase = .failed

theorem Shown.restoreProgress (h : Shown id s) (safetyReadable : Bool) :
    restoreProgress safetyReadable s = ⟨.operation .failed, some id⟩ := by
  rcases h.operation with ⟨op, hop, hid, hphase⟩
  simp only [RefusedRestores.restoreProgress, h.pending, hop, hid, hphase]

theorem keeps_settled (id : OperationId) : Keeps (· ≠ id) (Settled id) where
  write s phase other hs hother := by
    refine ⟨?_, hs.pending, hs.operation⟩
    have hne : other ≠ some id := fun heq => hother id heq rfl
    rw [failures_write, isFailureOf_of_ne hne, hs.failures]
    rfl
  operation s op hs hop := by
    refine ⟨hs.failures, hs.pending, ?_⟩
    intro op' hop' hid
    obtain rfl := Option.some.inj hop'
    exact absurd hid hop
  clear s hs := ⟨hs.failures, nofun, hs.operation⟩
  start s p hs _ := ⟨hs.failures, hs.pending, hs.operation⟩

theorem keeps_idle : Keeps (fun _ => True) fun s => s.pending = none where
  write _ _ _ hs _ := hs
  operation _ _ hs _ := hs
  clear _ _ := rfl
  start _ _ hs _ := hs

/-! ### What a tick does to what is pending -/

theorem isTerminalFailure_of_refuses {m : Tick} {p : PendingRestore} {phase : EventPhase}
    (h : verdict m p s = .refuses phase) : phase.isTerminalFailure = true := by
  simp only [verdict] at h
  split at h
  · cases h
    rfl
  split at h
  · cases h
  split at h
  · cases h
  split at h
  · cases h
    rfl
  split at h
  · cases h
    rfl
  split at h
  · cases h
  · cases h
    rfl

theorem started_of_launch {m : Tick} {p : PendingRestore}
    (hrecords : m.records .securityBackupDone = .done) (hrestore : startsWorker m.restore = true) :
    Ends (fun s => p.operationId ∈ s.starts) (fun s => p.operationId ∈ s.starts)
      (launch m p s) := by
  have hkeeps : Keeps (fun _ => True) fun s => p.operationId ∈ s.starts :=
    ⟨fun _ _ _ hs _ => hs, fun _ _ hs _ => hs, fun _ hs => hs,
      fun _ _ hs _ => List.mem_append_left _ hs⟩
  have hstart : ∀ s : State, p.operationId ∈ (startWorker p s).starts :=
    fun s => List.mem_append_right _ List.mem_cons_self
  simp only [launch]
  apply Ends.tryCatch (Q := fun s => p.operationId ∈ s.starts)
  · rw [restoreEvent_of_done hrecords]
    change Ends _ _ (startRestoreAfterBackup m p _ >>= _)
    apply Ends.bind (P := fun s => p.operationId ∈ s.starts)
    · simp only [startRestoreAfterBackup]
      cases hfate : m.restore with
      | started =>
        apply hkeeps.restoreEvent
        · exact fun _ _ => trivial
        · exact hstart _
      | refused =>
        rw [hfate] at hrestore
        cases hrestore
      | failed =>
        rw [hfate] at hrestore
        cases hrestore
      | failedAfter => exact hstart _
    · exact fun s hs => hs
  · intro s₁ hs₁
    apply hkeeps.event trivial (hkeeps.clear s₁ hs₁)
    exact fun s hs => hs

theorem cleared_of_tick {m : Tick} {p : PendingRestore} (hpending : s.pending = some p)
    (hreported : m.scans = true → Reported m p s) (hunreported : failures p.operationId s = 0)
    (hcleared : (tickPendingRestore m s).left.pending ≠ some p)
    (hstarts : p.operationId ∉ (tickPendingRestore m s).left.starts) :
    Settled p.operationId (tickPendingRestore m s).left ∧
      Shown p.operationId (tickPendingRestore m s).left := by
  by_cases hscans : m.scans = true
  · have hreport := hreported hscans
    simp only [tickPendingRestore, hscans, hpending] at hcleared hstarts ⊢
    simp only [Reported] at hreport
    cases hverdict : verdict m p s with
    | waits =>
      rw [hverdict] at hcleared
      exact absurd hpending hcleared
    | refuses phase =>
      rw [hverdict] at hreport
      have hfailure := isTerminalFailure_of_refuses hverdict
      simp only [abandon, restoreEvent_of_done hreport]
      refine ⟨⟨?_, nofun, ?_⟩, rfl, _, rfl, rfl, rfl⟩
      · change failures p.operationId { s with journal := s.journal ++ [_] } = 1
        rw [failures_write, hunreported]
        simp [isFailureOf, hfailure]
      · intro op hop _
        obtain rfl := Option.some.inj hop
        rfl
    | passes =>
      rw [hverdict] at hreport hstarts
      exact absurd (started_of_launch hreport.1 hreport.2).left hstarts
  · rw [Bool.not_eq_true] at hscans
    simp only [tickPendingRestore, hscans] at hcleared
    exact absurd hpending hcleared

/-! ### Steps -/

theorem ends_abandon (m : Tick) (p : PendingRestore) (phase : EventPhase) (s : State) :
    Ends (fun s => s.pending = none) (fun s => s.pending = none) (abandon m p phase s) := by
  simp only [abandon]
  apply keeps_idle.event trivial rfl
  exact fun _ hs => hs

theorem ends_launch (m : Tick) (p : PendingRestore) (s : State) :
    Ends (fun s => s.pending = none) (fun s => s.pending = none) (launch m p s) := by
  have htrue : Keeps (fun _ => True) fun _ : State => True :=
    ⟨fun _ _ _ _ _ => trivial, fun _ _ _ _ => trivial, fun _ _ => trivial,
      fun _ _ _ _ => trivial⟩
  simp only [launch]
  apply Ends.tryCatch (Q := fun _ => True)
  · apply Ends.bind (P := fun _ => True)
    · exact (htrue.restoreEvent _ _ (fun _ _ => trivial) trivial)
    · intro s₁ _
      apply (htrue.startRestoreAfterBackup m trivial trivial).bind
      exact fun _ _ => rfl
  · intro s₁ _
    apply keeps_idle.event trivial rfl
    exact fun _ hs => hs

theorem tick_pending (m : Tick) (s : State) :
    (tickPendingRestore m s).left = s ∨ (tickPendingRestore m s).left.pending = none := by
  simp only [tickPendingRestore]
  split
  · exact .inl rfl
  split
  · rename_i hpending
    exact .inr (keeps_idle.tickRestoreOperation m (fun _ _ _ => trivial) hpending).left
  · rename_i p hpending
    split
    · exact .inl rfl
    · exact .inr (ends_abandon m p _ s).left
    · exact .inr (ends_launch m p s).left

theorem dismissed_eq (s : State) : s.dismissed = s ∨
    s.dismissed = { s with operation := none } := by
  simp only [State.dismissed]
  split
  · exact .inl rfl
  split
  · exact .inr rfl
  · exact .inl rfl

@[simp] theorem dismissed_pending (s : State) : s.dismissed.pending = s.pending := by
  rcases dismissed_eq s with heq | heq <;> rw [heq]

@[simp] theorem dismissed_journal (s : State) : s.dismissed.journal = s.journal := by
  rcases dismissed_eq s with heq | heq <;> rw [heq]

theorem Settled.dismissed (h : Settled id s) : Settled id s.dismissed := by
  rcases dismissed_eq s with heq | heq
  · rw [heq]
    exact h
  · rw [heq]
    exact ⟨h.failures, h.pending, nofun⟩

theorem Settled.reject (h : Settled id s) (r : Request) :
    Ends (Settled id) (Settled id) (reject r s) := by
  simp only [RefusedRestores.reject]
  have hnobody : ∀ i ∈ (none : Option OperationId), i ≠ id := nofun
  apply ((keeps_settled id).restoreEvent _ _ hnobody h).bind
  exact fun _ hs => hs

theorem Settled.trigger (h : Settled id s) (r : Request) :
    Ends (Settled id) (Settled id) (trigger r s) := by
  have hrunning : Settled id { s with safetyRunning := true } :=
    ⟨h.failures, h.pending, h.operation⟩
  simp only [RefusedRestores.trigger]
  cases r.trigger with
  | started => exact hrunning
  | refused => exact h
  | failed => exact h
  | failedAfter => exact hrunning

theorem Settled.startSafetyBackup (h : Settled id s) (r : Request) {other : OperationId}
    (hother : other ≠ id) : Ends (Settled id) (Settled id) (startSafetyBackup r other s) := by
  simp only [RefusedRestores.startSafetyBackup]
  apply Ends.tryCatch (Q := Settled id)
  · apply (h.trigger r).bind
    intro s₁ hs₁
    refine (keeps_settled id).restoreEvent _ _ ?_ hs₁
    rintro _ ⟨⟩
    exact hother
  · intro s₁ hs₁
    apply (keeps_settled id).event hother hs₁
    exact fun _ hs => hs

theorem Settled.restoreBackup (h : Settled id s) {filename : String} {r : Request}
    (hother : (⟨r.requestedAt, filename⟩ : OperationId) ≠ id) :
    Ends (Settled id) (Settled id) (restoreBackup filename r s) := by
  have hdismissed := h.dismissed
  simp only [RefusedRestores.restoreBackup]
  split
  · exact hdismissed.reject r
  split
  · exact hdismissed
  split
  · exact hdismissed.reject r
  · apply (keeps_settled id).event hother hdismissed
    intro s₁ hs₁
    cases r.listedBefore with
    | none => exact hs₁
    | some archives =>
      apply (hs₁.startSafetyBackup r hother).bind
      intro s₂ hs₂
      apply (keeps_settled id).restoreEvent
      · rintro _ ⟨⟩
        exact hother
      · refine ⟨hs₂.failures, ?_, hs₂.operation⟩
        intro p hp
        obtain rfl := Option.some.inj hp
        exact hother

theorem Settled.step (h : Settled id s) {event : Event} (hregular : Regular s event) :
    Settled id (step s event) := by
  cases event with
  | restoreBackup filename r =>
    apply (h.restoreBackup ?_).left
    rintro rfl
    have hfailures : RefusedRestores.failures ⟨r.requestedAt, filename⟩ s ≠ 0 := by
      rw [h.failures]
      exact Nat.one_ne_zero
    rcases event_of_failures hfailures with ⟨event, hevent, hid⟩
    exact hregular event hevent hid
  | tick m =>
    apply ((keeps_settled id).tickPendingRestore m h.pending _ h).left
    intro op hop hfinal hid
    rw [h.operation op hop hid] at hfinal
    cases hfinal
  | safetyEnded exitCode | workerEnded exitCode =>
    simp only [RefusedRestores.step]
    split
    · exact ⟨h.failures, h.pending, h.operation⟩
    · exact h
  | dismiss => exact h.dismissed
  | serviceRestarted => exact ⟨h.failures, nofun, nofun⟩

theorem Shown.step (h : Shown id s) {event : Event} (hcloses : event.closes = false)
    (hregular : Regular s event) : Shown id (step s event) := by
  rcases h.operation with ⟨op, hop, hid, hphase⟩
  cases event with
  | restoreBackup filename r => cases hcloses
  | tick m =>
    simp only [RefusedRestores.step, tickPendingRestore, h.pending, tickRestoreOperation, hop,
      hphase]
    split
    · exact h
    · exact h
  | safetyEnded exitCode | workerEnded exitCode =>
    simp only [RefusedRestores.step]
    split
    · exact ⟨h.pending, op, hop, hid, hphase⟩
    · exact h
  | dismiss => cases hcloses
  | serviceRestarted => exact absurd hphase (hregular.2 op hop)

def Asked (id : OperationId) (s : State) : Prop := s.pending = none ∧ failures id s = 0

theorem Asked.restoreEvent (h : Asked id s) (records : EventPhase → Fate) {phase : EventPhase}
    (hphase : isFailureOf id ⟨phase, some id⟩ = false) :
    Ends (Asked id) (fun s => s.pending = none) (restoreEvent records phase (some id) s) := by
  simp only [RefusedRestores.restoreEvent]
  cases records phase with
  | done => exact ⟨h.1, by rw [failures_write, h.2, hphase]; rfl⟩
  | failed => exact h.1
  | failedAfter => exact h.1

theorem ends_startSafetyBackup (h : Asked id s) (r : Request) :
    Ends (Asked id) (fun s => s.pending = none) (startSafetyBackup r id s) := by
  have hrunning : Asked id { s with safetyRunning := true } := h
  have htrigger : Ends (Asked id) (Asked id) (trigger r s) := by
    simp only [trigger]
    cases r.trigger with
    | started => exact hrunning
    | refused => exact h
    | failed => exact h
    | failedAfter => exact hrunning
  have hidle : ∀ s, Asked id s → s.pending = none := fun _ hs => hs.1
  simp only [startSafetyBackup]
  apply Ends.tryCatch (Q := fun s => s.pending = none)
  · apply (htrigger.mono (fun _ hs => hs) hidle).bind
    exact fun s₁ hs₁ => hs₁.restoreEvent _ rfl
  · intro s₁ hs₁
    apply (keeps_idle.restoreEvent _ _ (fun _ _ => trivial) hs₁).bind
    exact fun _ hs => hs

theorem Unreported.of_pending_none (h : s.pending = none) : Unreported s := by
  intro p hp
  rw [h] at hp
  cases hp

theorem Unreported.reject (h : Unreported s) (r : Request) : Unreported (reject r s).left := by
  simp only [RefusedRestores.reject, restoreEvent]
  have hwritten : Unreported { s with journal := s.journal ++ [⟨.restoreRejected, none⟩] } := by
    intro p hp
    rw [failures_write, h p hp]
    rfl
  cases r.records .restoreRejected with
  | done => exact hwritten
  | failed => exact h
  | failedAfter => exact hwritten

theorem Unreported.dismissed (h : Unreported s) : Unreported s.dismissed := by
  rcases dismissed_eq s with heq | heq
  · rw [heq]
    exact h
  · rw [heq]
    exact h

theorem Asked.accepted (h : Asked id s) (records : EventPhase → Fate) {p : PendingRestore}
    (hid : p.operationId = id) :
    Ends Unreported Unreported
      (RefusedRestores.restoreEvent records .restorePending (some id) { s with pending := some p }) := by
  have hpendingOf : ∀ journal, failures id { s with journal } = 0 →
      Unreported { s with journal, pending := some p } := by
    intro journal hjournal p' hp'
    obtain rfl := Option.some.inj hp'
    rw [hid]
    exact hjournal
  have hwritten : failures id { s with journal := s.journal ++ [⟨.restorePending, some id⟩] } = 0 := by
    rw [failures_write, h.2]
    rfl
  simp only [RefusedRestores.restoreEvent]
  cases records .restorePending with
  | done => exact hpendingOf _ hwritten
  | failed => exact hpendingOf _ h.2
  | failedAfter => exact hpendingOf _ hwritten

theorem Unreported.restoreBackup (h : Unreported s) {filename : String} {r : Request}
    (hnew : ∀ event ∈ s.journal, event.operationId ≠ some ⟨r.requestedAt, filename⟩) :
    Unreported (restoreBackup filename r s).left := by
  simp only [RefusedRestores.restoreBackup]
  split
  · exact h.dismissed.reject r
  split
  · exact h.dismissed
  split
  · exact h.dismissed.reject r
  rename_i hclear
  have hasked : Asked ⟨r.requestedAt, filename⟩ s.dismissed := by
    simp only [preflightClear, Bool.and_eq_true, Option.isNone_iff_eq_none,
      Bool.not_eq_false] at hclear
    refine ⟨hclear.1.1.1.1.2, failures_eq_zero ?_⟩
    rw [dismissed_journal]
    exact hnew
  have hidle : ∀ s : State, s.pending = none → Unreported s := fun _ => .of_pending_none
  apply Ends.left
  apply ((hasked.restoreEvent _ rfl).mono (fun _ hs => hs) hidle).bind
  intro s₁ hs₁
  cases r.listedBefore with
  | none => exact .of_pending_none hs₁.1
  | some archives =>
    apply ((ends_startSafetyBackup hs₁ r).mono (fun _ hs => hs) hidle).bind
    exact fun s₂ hs₂ => hs₂.accepted _ rfl

theorem Unreported.step (h : Unreported s) {event : Event} (hregular : Regular s event) :
    Unreported (step s event) := by
  cases event with
  | restoreBackup filename r => exact h.restoreBackup hregular
  | tick m =>
    rcases tick_pending m s with heq | hnone
    · simp only [RefusedRestores.step, heq]
      exact h
    · exact .of_pending_none hnone
  | safetyEnded exitCode | workerEnded exitCode =>
    simp only [RefusedRestores.step]
    split
    · exact h
    · exact h
  | dismiss => exact h.dismissed
  | serviceRestarted => exact .of_pending_none rfl

theorem restoreBackup_pending {p : PendingRestore} (hpending : s.pending = some p)
    (filename : String) (r : Request) :
    (restoreBackup filename r s).left.pending = some p := by
  have hdismissed : s.dismissed.pending = some p := (dismissed_pending s).trans hpending
  have hreject : (reject r s.dismissed).left.pending = some p := by
    simp only [reject, restoreEvent]
    cases r.records .restoreRejected with
    | done => exact hdismissed
    | failed => exact hdismissed
    | failedAfter => exact hdismissed
  simp only [restoreBackup]
  split
  · exact hreject
  split
  · exact hdismissed
  split
  · exact hreject
  · rename_i hclear
    simp [preflightClear, hpending] at hclear

theorem cleared_of_step {event : Event} {p : PendingRestore} (hpending : s.pending = some p)
    (hregular : Regular s event) (hunreported : Unreported s)
    (hcleared : (step s event).pending ≠ some p) (hstarts : p.operationId ∉ (step s event).starts) :
    Settled p.operationId (step s event) ∧ Shown p.operationId (step s event) := by
  cases event with
  | restoreBackup filename r => exact absurd (restoreBackup_pending hpending filename r) hcleared
  | tick m =>
    exact cleared_of_tick hpending (fun hscans => hregular hscans p hpending)
      (hunreported p hpending) hcleared hstarts
  | safetyEnded exitCode | workerEnded exitCode =>
    simp only [step] at hcleared
    split at hcleared
    · exact absurd hpending hcleared
    · exact absurd hpending hcleared
  | dismiss =>
    simp only [step, dismissed_pending] at hcleared
    exact absurd hpending hcleared
  | serviceRestarted =>
    rw [hregular.1] at hpending
    cases hpending

/-- In every run of requests, ticks, dismissals and restarts, from any state in which no
restore waits, whose requests have new identifiers, whose ticks can report, and whose
restarts forget no waiting or failed restore: a refused restore is visible. -/
theorem refusals_visible (s : State) (events : List Event) (hpending : s.pending = none)
    (hregular : Along step Regular s events) : RefusalsVisible s events := by
  intro before event after p hevents hbefore hcleared hstarts
  subst hevents
  rcases along_append.mp hregular with ⟨hregularBefore, hregularEvent, hregularAfter⟩
  rw [run_snoc] at hcleared hstarts
  have hunreported : Unreported (run step s before) :=
    run_induction (fun _ _ h hregular => h.step hregular) (.of_pending_none hpending)
      hregularBefore
  rcases cleared_of_step hbefore hregularEvent hunreported hcleared hstarts with ⟨hsettled, hshown⟩
  rw [run_append, run_cons]
  constructor
  · have hend : Settled p.operationId (run step (step (run step s before) event) after) :=
      run_induction (fun _ _ h hregular => h.step hregular) hsettled hregularAfter
    exact hend.failures
  · intro hcloses safetyReadable
    have hend : Shown p.operationId (run step (step (run step s before) event) after) :=
      run_induction (fun _ _ h hregular => h.step hregular.1 hregular.2) hshown
        (hregularAfter.and_of_mem hcloses)
    exact hend.restoreProgress safetyReadable

end

/-! ### Small runs -/

def sampleVerdicts : Dict String RestoreGate.ArchiveCheck :=
  AList.singleton "manual/a" ⟨"manual/a", 1, 0, true, some true⟩

def sampleRequest (requestedAt : ℤ) : Event :=
  .restoreBackup "manual/a" {
    requestedAt, now := requestedAt, listed := some [⟨"manual/a", 1, 0⟩]
    checks := some sampleVerdicts, listedBefore := some [⟨"manual/a", 1, 0⟩] }

/-- A tick that finds a good safety archive and a good target. -/
def samplePassing (now : ℤ) (restore : RestoreGate.Fate) : Event :=
  .tick {
    now, restore
    listed := some [⟨"restore-safety/b", 2, 3⟩]
    validate := fun _ => some ⟨"restore-safety/b", 2, 3, true, some true⟩
    listedAfter := some [⟨"restore-safety/b", 2, 3⟩]
    targetListed := some [⟨"manual/a", 1, 0⟩], checks := some sampleVerdicts }

/-- The safety backup fails; the next restore goes through and its worker fails. -/
def sampleEvents : List Event := [
  sampleRequest 0, .safetyEnded 1, .tick { now := 5 }, .tick { now := 6 },
  sampleRequest 7, .safetyEnded 0, samplePassing 8 .started, .workerEnded 1, .tick { now := 9 },
  .dismiss, .serviceRestarted]

theorem refusals_visible_sample : RefusalsVisible {} sampleEvents :=
  refusals_visible {} sampleEvents rfl (by decide +kernel)

/-- The start of the worker raises: the restore is cleared and told, and nothing is shown. -/
theorem refused_start_invisible :
    ¬ ∀ (s : State) (events : List Event), s.pending = none → RefusalsVisible s events := by
  intro h
  let pending : PendingRestore := ⟨"manual/a", restoreWaitMax, ⟨0, "manual/a"⟩, []⟩
  have hvisible := h {} [sampleRequest 0, .safetyEnded 0, samplePassing 5 .failed] rfl
    [sampleRequest 0, .safetyEnded 0] (samplePassing 5 .failed) [] pending rfl
    (by decide +kernel) (by decide +kernel) (by decide +kernel)
  have hshown : restoreProgress true
      (run step {} [sampleRequest 0, .safetyEnded 0, samplePassing 5 .failed]) = ⟨.idle, none⟩ := by
    decide +kernel
  have hfailed := hvisible.2 (fun _ hevent => absurd hevent List.not_mem_nil) true
  rw [hshown] at hfailed
  exact absurd (congrArg RestoreProgress.phase hfailed) (by decide)

end RefusedRestores
