import Mathlib.Data.Int.Notation
import Mathlib.Data.List.Induction
import McAdmin.Dict
import McAdmin.Runs

/-!
# The gate of a restore

A request that is accepted starts the safety backup and waits.  Each tick of the
coordinator looks at the backup's container, at the archives and at their verdicts,
and either waits on, gives the restore up, or starts the worker.  What a call reads
from a port is an answer that may differ from one reading to the next.
-/

namespace RestoreGate

open Runs

/-! ### The data -/

structure BackupArchive where
  filename : String
  sizeBytes : ℕ
  createdAt : ℤ
deriving DecidableEq

structure ArchiveCheck where
  filename : String
  sizeBytes : ℕ
  archiveCreatedAt : ℤ
  ok : Bool
  restorable : Option Bool
deriving DecidableEq

structure PendingRestore where
  filename : String
  deadline : ℤ
  /-- The accepted requests are numbered. -/
  operationId : ℕ
  safetyArchivesBefore : List String
deriving DecidableEq

inductive Phase where
  | restoreRunning
  | waitingMinecraft
  | success
  | failed
deriving DecidableEq

def Phase.isFinal : Phase → Bool
  | .success => true
  | .failed => true
  | _ => false

structure RestoreOperation where
  filename : String
  operationId : ℕ
  phase : Phase
  deadline : ℤ
deriving DecidableEq

structure SafetyBackup where
  running : Bool := false
  exitCode : Option ℤ := none
  /-- The request its last run was started for. -/
  operationId : Option ℕ := none
deriving DecidableEq

structure State where
  pending : Option PendingRestore := none
  operation : Option RestoreOperation := none
  safety : SafetyBackup := {}
  workerRunning : Bool := false
  workerExit : Option ℤ := none
  nextOperation : ℕ := 0
  /-- The requests the worker was started for, with their archives. -/
  starts : List (ℕ × String) := []

abbrev Listing := Option (List BackupArchive)

/-- How a call that starts a container ended: a call that raises may have started it. -/
inductive Fate where
  | started
  | refused
  | failed
  | failedAfter
deriving DecidableEq

/-- What `restore_backup` meets. -/
structure Request where
  now : ℤ
  pathFound : Bool := true
  /-- Another check of the preflight fails or cannot be made. -/
  blocked : Bool := false
  listed : Listing
  checks : Option (Dict String ArchiveCheck)
  /-- The listing before the safety backup is triggered. -/
  listedBefore : Listing
  trigger : Fate := .started

structure Tick where
  now : ℤ
  /-- The look at the backups that have ended returns. -/
  scans : Bool := true
  safetyReadable : Bool := true
  exitReadable : Bool := true
  listed : Listing := none
  /-- The verdict of the immediate validation, `none` when it raises. -/
  validate : String → Option ArchiveCheck := fun _ => none
  /-- The listing after the validation. -/
  listedAfter : Listing := none
  /-- The listing, the path and the verdicts for the target. -/
  targetListed : Listing := none
  pathFound : Bool := true
  checks : Option (Dict String ArchiveCheck) := none
  /-- The journal takes the event before the start. -/
  journals : Bool := true
  restore : Fate := .started
  workerReadable : Bool := true
  workerExitReadable : Bool := true
  /-- Minecraft is up and answers. -/
  healthy : Bool := false

/-! ### The checks of an archive -/

/-- The verdict is about this archive and lets it be restored. -/
def Verified (archive : BackupArchive) (check : ArchiveCheck) : Prop :=
  check.sizeBytes = archive.sizeBytes ∧ check.archiveCreatedAt = archive.createdAt ∧
    check.ok = true ∧ check.restorable = some true

instance (archive : BackupArchive) (check : ArchiveCheck) : Decidable (Verified archive check) :=
  inferInstanceAs (Decidable (_ ∧ _ ∧ _ ∧ _))

def findArchive (archives : List BackupArchive) (filename : String) : Option BackupArchive :=
  archives.find? fun archive => archive.filename = filename

/-- `_restore_archive_issues` finds nothing. -/
def archiveClear (listed : Listing) (pathFound : Bool)
    (checks : Option (Dict String ArchiveCheck)) (filename : String) : Bool :=
  match listed, checks with
  | some archives, some checks =>
    match findArchive archives filename, checks.lookup filename with
    | some archive, some check => pathFound && decide (Verified archive check)
    | _, _ => false
  | _, _ => false

def isSafetyArchive (archive : BackupArchive) : Bool :=
  archive.filename.startsWith "restore-safety/"

/-- `max(archives, key=created_at)`, the first of several. -/
def latest : List BackupArchive → Option BackupArchive
  | [] => none
  | archive :: archives =>
    match latest archives with
    | none => some archive
    | some other => if archive.createdAt < other.createdAt then some other else some archive

def newSafetyArchive (p : PendingRestore) (archives : List BackupArchive) :
    Option BackupArchive :=
  latest (archives.filter fun archive =>
    isSafetyArchive archive && !p.safetyArchivesBefore.contains archive.filename)

/-- The verdict is about the archive as the listing still shows it, and is good. -/
def Confirms (check : ArchiveCheck) (current : BackupArchive) : Prop :=
  check.filename = current.filename ∧ Verified current check

instance (check : ArchiveCheck) (current : BackupArchive) : Decidable (Confirms check current) :=
  inferInstanceAs (Decidable (_ ∧ _))

/-- `none` when the validation raises. -/
def validateNewSafetyArchive (m : Tick) (p : PendingRestore) : Option BackupArchive := do
  let archives ← m.listed
  let archive ← newSafetyArchive p archives
  let check ← m.validate archive.filename
  let shown ← m.listedAfter
  let current ← findArchive shown archive.filename
  if Confirms check current then some current else none

/-! ### The requests -/

def restoreWaitMax : ℤ := 15 * 60 * 1000000

def restoreExecutionMax : ℤ := 30 * 60 * 1000000

def restoreHealthMax : ℤ := 5 * 60 * 1000000

def State.dismissed (s : State) : State :=
  match s.operation with
  | none => s
  | some op => if op.phase.isFinal then { s with operation := none } else s

def preflightClear (filename : String) (r : Request) (s : State) : Bool :=
  s.operation.all (·.phase.isFinal) && s.pending.isNone && !s.workerRunning &&
    !s.safety.running && !r.blocked && archiveClear r.listed r.pathFound r.checks filename

def safetyArchives (archives : List BackupArchive) : List String :=
  (archives.filter isSafetyArchive).map (·.filename)

def accept (filename : String) (r : Request) (archives : List BackupArchive) (s : State) :
    State :=
  { s with
    safety := { s.safety with running := true, operationId := some s.nextOperation }
    pending := some ⟨filename, r.now + restoreWaitMax, s.nextOperation, safetyArchives archives⟩
    nextOperation := s.nextOperation + 1 }

def restoreBackup (filename : String) (r : Request) (s : State) : State :=
  let s := s.dismissed
  if r.pathFound = false then s
  else if preflightClear filename r s = false then s
  else match r.listedBefore with
  | none => s
  | some archives =>
    match r.trigger with
    | .started => accept filename r archives s
    | .refused => s
    | .failed => s
    | .failedAfter => { s with safety := { s.safety with running := true, operationId := none } }

/-! ### The ticks -/

def finish (op : RestoreOperation) (phase : Phase) (s : State) : State :=
  { s with operation := some { op with phase } }

def tickWaiting (m : Tick) (op : RestoreOperation) (s : State) : State :=
  if m.healthy then finish op .success s else s

def tickRestoreOperation (m : Tick) (s : State) : State :=
  match s.operation with
  | none => s
  | some op =>
    if op.phase.isFinal then s
    else if op.deadline ≤ m.now then finish op .failed s
    else if op.phase = .restoreRunning then
      if m.workerReadable = false then finish op .failed s
      else if s.workerRunning then s
      else if m.workerExitReadable = false ∨ s.workerExit ≠ some 0 then finish op .failed s
      else
        let op := { op with phase := .waitingMinecraft, deadline := m.now + restoreHealthMax }
        tickWaiting m op { s with operation := some op }
    else tickWaiting m op s

/-- The restore is given up and its failure kept for display. -/
def abandon (m : Tick) (p : PendingRestore) (s : State) : State :=
  { s with pending := none, operation := some ⟨p.filename, p.operationId, .failed, m.now⟩ }

def startWorker (p : PendingRestore) (s : State) : State :=
  { s with workerRunning := true, starts := s.starts ++ [(p.operationId, p.filename)] }

/-- `_start_restore_after_backup`, after which the request is no longer pending. -/
def startRestoreAfterBackup (m : Tick) (p : PendingRestore) (s : State) : State :=
  let s' := { s with pending := none }
  if m.journals = false then s'
  else match m.restore with
  | .started => startWorker p { s' with
      operation := some ⟨p.filename, p.operationId, .restoreRunning, m.now + restoreExecutionMax⟩ }
  | .refused => s'
  | .failed => s'
  | .failedAfter => startWorker p s'

def tickPendingRestore (m : Tick) (s : State) : State :=
  if m.scans = false then s
  else match s.pending with
  | none => tickRestoreOperation m s
  | some p =>
    if p.deadline ≤ m.now then abandon m p s
    else if m.safetyReadable = false ∨ s.safety.running then s
    else if m.exitReadable = false then s
    else if s.safety.exitCode ≠ some 0 then abandon m p s
    else match validateNewSafetyArchive m p with
    | none => abandon m p s
    | some _ =>
      if archiveClear m.targetListed m.pathFound m.checks p.filename then
        startRestoreAfterBackup m p s
      else abandon m p s

inductive Event where
  | restoreBackup (filename : String) (r : Request)
  | tick (m : Tick)
  /-- The safety backup ends. -/
  | safetyEnded (exitCode : ℤ)
  | workerEnded (exitCode : ℤ)
  /-- The result on display is closed. -/
  | dismiss
  /-- The service starts again: what it kept in memory is gone. -/
  | serviceRestarted

def Event.isTick : Event → Bool
  | .tick _ => true
  | _ => false

def step (s : State) : Event → State
  | .restoreBackup filename r => restoreBackup filename r s
  | .tick m => tickPendingRestore m s
  | .safetyEnded exitCode =>
    if s.safety.running then
      { s with safety := { s.safety with running := false, exitCode := some exitCode } }
    else s
  | .workerEnded exitCode =>
    if s.workerRunning then { s with workerRunning := false, workerExit := some exitCode } else s
  | .dismiss => s.dismissed
  | .serviceRestarted => { s with pending := none, operation := none }

/-! ### The gate -/

/-- An archive of the safety backup that was not there before it, with a verdict about
the archive as the listing still shows it. -/
def SafetyArchiveValidated (m : Tick) (p : PendingRestore) : Prop :=
  ∃ archives shown archive check current, m.listed = some archives ∧ archive ∈ archives ∧
    isSafetyArchive archive = true ∧ archive.filename ∉ p.safetyArchivesBefore ∧
    m.validate archive.filename = some check ∧ m.listedAfter = some shown ∧
    findArchive shown archive.filename = some current ∧ Confirms check current

/-- The target is still listed, and its verdict is about what the listing shows. -/
def TargetVerified (m : Tick) (filename : String) : Prop :=
  ∃ archives checks archive check, m.targetListed = some archives ∧ m.checks = some checks ∧
    findArchive archives filename = some archive ∧ checks.lookup filename = some check ∧
    Verified archive check

/-- The safety backup of the request numbered `id` ran and ended with the exit code. -/
def SafetyEnded (before between : List Event) (id : ℕ) (exitCode : ℤ) : Prop :=
  ∃ b₁ b₂, between = b₁ ++ .safetyEnded exitCode :: b₂ ∧
    (run step {} (before ++ b₁)).safety.running = true ∧
    (run step {} (before ++ b₁)).safety.operationId = some id

/-- The request that was accepted as what is pending, with the archives it recorded. -/
def Accepted (before : List Event) (r : Request) (p : PendingRestore) : Prop :=
  (run step {} before).pending = none ∧
    (run step {} (before ++ [.restoreBackup p.filename r])).pending = some p ∧
    p.deadline = r.now + restoreWaitMax ∧
    ∃ archives, r.listedBefore = some archives ∧
      p.safetyArchivesBefore = safetyArchives archives

def ThroughGates (earlier : List Event) (m : Tick) (id : ℕ) (filename : String) : Prop :=
  ∃ p before r between, (run step {} earlier).pending = some p ∧ p.operationId = id ∧
    p.filename = filename ∧ earlier = before ++ .restoreBackup filename r :: between ∧
    Accepted before r p ∧
    SafetyEnded (before ++ [.restoreBackup filename r]) between id 0 ∧ m.now < p.deadline ∧
    SafetyArchiveValidated m p ∧ TargetVerified m filename

/-- Whatever starts the worker is a tick that has passed every gate. -/
def StartsGated (earlier : List Event) (event : Event) : Prop :=
  ∀ id filename, (id, filename) ∈ (run step {} (earlier ++ [event])).starts →
    (id, filename) ∉ (run step {} earlier).starts →
    ∃ m, event = .tick m ∧ ThroughGates earlier m id filename

/-! ### What the checks say -/

theorem mem_of_latest {archives : List BackupArchive} {archive : BackupArchive}
    (h : latest archives = some archive) : archive ∈ archives := by
  induction archives generalizing archive with
  | nil => cases h
  | cons first rest ih =>
    simp only [latest] at h
    cases hrest : latest rest with
    | none =>
      rw [hrest] at h
      cases h
      exact List.mem_cons_self
    | some other =>
      rw [hrest] at h
      simp only at h
      split at h
      · cases h
        exact List.mem_cons_of_mem _ (ih hrest)
      · cases h
        exact List.mem_cons_self

theorem mem_of_newSafetyArchive {p : PendingRestore} {archives : List BackupArchive}
    {archive : BackupArchive} (h : newSafetyArchive p archives = some archive) :
    archive ∈ archives ∧ isSafetyArchive archive = true ∧
      archive.filename ∉ p.safetyArchivesBefore := by
  have hmem := mem_of_latest h
  simpa [List.mem_filter] using hmem

theorem safetyArchiveValidated_of_eq_some {m : Tick} {p : PendingRestore}
    {current : BackupArchive} (h : validateNewSafetyArchive m p = some current) :
    SafetyArchiveValidated m p := by
  simp only [validateNewSafetyArchive, Option.bind_eq_bind, Option.bind_eq_some_iff] at h
  rcases h with ⟨archives, hlisted, archive, hnew, check, hcheck, shown, hshown, found, hfound, hif⟩
  rcases mem_of_newSafetyArchive hnew with ⟨hmem, hsafety, hbefore⟩
  split at hif
  · rename_i hconfirms
    exact ⟨archives, shown, archive, check, found, hlisted, hmem, hsafety, hbefore, hcheck,
      hshown, hfound, hconfirms⟩
  · cases hif

theorem targetVerified_of_archiveClear {m : Tick} {filename : String}
    (h : archiveClear m.targetListed m.pathFound m.checks filename = true) :
    TargetVerified m filename := by
  simp only [archiveClear] at h
  split at h
  · rename_i archives checks hlisted hchecks
    split at h
    · rename_i archive check harchive hcheck
      simp only [Bool.and_eq_true, decide_eq_true_eq] at h
      exact ⟨archives, checks, archive, check, hlisted, hchecks, harchive, hcheck, h.2⟩
    · cases h
  · cases h

/-! ### What a step does -/

section

variable {s : State}

theorem dismissed_eq (s : State) : ∃ o, s.dismissed = { s with operation := o } := by
  simp only [State.dismissed]
  split
  · exact ⟨s.operation, rfl⟩
  · split
    · exact ⟨none, rfl⟩
    · exact ⟨s.operation, rfl⟩

theorem tickWaiting_eq (m : Tick) (op : RestoreOperation) (s : State) :
    ∃ o, tickWaiting m op s = { s with operation := o } := by
  simp only [tickWaiting]
  split
  · exact ⟨_, rfl⟩
  · exact ⟨s.operation, rfl⟩

theorem tickRestoreOperation_eq (m : Tick) (s : State) :
    ∃ o, tickRestoreOperation m s = { s with operation := o } := by
  simp only [tickRestoreOperation]
  cases hop : s.operation with
  | none => exact ⟨s.operation, rfl⟩
  | some op =>
    simp only
    split
    · exact ⟨s.operation, rfl⟩
    split
    · exact ⟨_, rfl⟩
    split
    · split
      · exact ⟨_, rfl⟩
      split
      · exact ⟨s.operation, rfl⟩
      split
      · exact ⟨_, rfl⟩
      · exact tickWaiting_eq m _ _
    · exact tickWaiting_eq m op s

theorem restoreBackup_cases (filename : String) (r : Request) (s : State) :
    (∃ o, restoreBackup filename r s = { s with operation := o }) ∨
    (s.pending = none ∧ ∃ o b, restoreBackup filename r s =
      { s with operation := o, safety := b }) ∨
    (s.pending = none ∧ ∃ o archives, r.listedBefore = some archives ∧
      restoreBackup filename r s = accept filename r archives { s with operation := o }) := by
  rcases dismissed_eq s with ⟨o, ho⟩
  simp only [restoreBackup]
  simp only [ho]
  split
  · exact .inl ⟨o, rfl⟩
  split
  · exact .inl ⟨o, rfl⟩
  rename_i hclear
  have hpending : s.pending = none := by
    simp only [preflightClear, Bool.and_eq_true, Option.isNone_iff_eq_none,
      Bool.not_eq_false] at hclear
    exact hclear.1.1.1.1.2
  cases hlisted : r.listedBefore with
  | none => exact .inl ⟨o, rfl⟩
  | some archives =>
    cases r.trigger with
    | started => exact .inr (.inr ⟨hpending, o, archives, rfl, rfl⟩)
    | refused => exact .inl ⟨o, rfl⟩
    | failed => exact .inl ⟨o, rfl⟩
    | failedAfter => exact .inr (.inl ⟨hpending, o, _, rfl⟩)

structure Passed (m : Tick) (p : PendingRestore) (s : State) : Prop where
  inTime : m.now < p.deadline
  ended : s.safety.running = false
  exitCode : s.safety.exitCode = some 0
  safetyArchive : SafetyArchiveValidated m p
  target : TargetVerified m p.filename

theorem startRestoreAfterBackup_cases (m : Tick) (p : PendingRestore) (s : State) :
    (∃ o, startRestoreAfterBackup m p s = { s with pending := none, operation := o }) ∨
    (∃ o, startRestoreAfterBackup m p s =
      startWorker p { s with pending := none, operation := o }) := by
  unfold startRestoreAfterBackup
  simp only
  split
  · exact .inl ⟨s.operation, rfl⟩
  cases m.restore with
  | started => exact .inr ⟨_, rfl⟩
  | refused => exact .inl ⟨s.operation, rfl⟩
  | failed => exact .inl ⟨s.operation, rfl⟩
  | failedAfter => exact .inr ⟨s.operation, rfl⟩

theorem tickPendingRestore_cases (m : Tick) (s : State) :
    (∃ o, tickPendingRestore m s = { s with operation := o }) ∨
    (∃ o, tickPendingRestore m s = { s with pending := none, operation := o }) ∨
    (∃ p o, s.pending = some p ∧ Passed m p s ∧
      tickPendingRestore m s = startWorker p { s with pending := none, operation := o }) := by
  simp only [tickPendingRestore]
  split
  · exact .inl ⟨s.operation, rfl⟩
  split
  · exact .inl (tickRestoreOperation_eq m s)
  rename_i p hpending
  split
  · exact .inr (.inl ⟨_, rfl⟩)
  rename_i hdeadline
  split
  · exact .inl ⟨s.operation, rfl⟩
  rename_i hrunning
  split
  · exact .inl ⟨s.operation, rfl⟩
  split
  · exact .inr (.inl ⟨_, rfl⟩)
  rename_i hexit
  split
  · exact .inr (.inl ⟨_, rfl⟩)
  rename_i current hvalid
  split
  · rename_i hclear
    have hpassed : Passed m p s :=
      { inTime := Int.not_le.mp hdeadline
        ended := by simpa using (not_or.mp hrunning).2
        exitCode := not_not.mp hexit
        safetyArchive := safetyArchiveValidated_of_eq_some hvalid
        target := targetVerified_of_archiveClear hclear }
    rcases startRestoreAfterBackup_cases m p s with hgone | ⟨o, hstart⟩
    · exact .inr (.inl hgone)
    · exact .inr (.inr ⟨p, o, hpending, hpassed, hstart⟩)
  · exact .inr (.inl ⟨_, rfl⟩)

theorem step_starts (s : State) (event : Event) :
    (step s event).starts = s.starts ∨
    ∃ m p, event = .tick m ∧ s.pending = some p ∧ Passed m p s ∧ (step s event).pending = none ∧
      (step s event).nextOperation = s.nextOperation ∧
      (step s event).starts = s.starts ++ [(p.operationId, p.filename)] := by
  cases event with
  | restoreBackup filename r =>
    simp only [step]
    rcases restoreBackup_cases filename r s with ⟨o, h⟩ | ⟨_, o, b, h⟩ | ⟨_, o, archives, _, h⟩
    · exact .inl (by rw [h])
    · exact .inl (by rw [h])
    · exact .inl (by rw [h]; rfl)
  | tick m =>
    simp only [step]
    rcases tickPendingRestore_cases m s with ⟨o, h⟩ | ⟨o, h⟩ | ⟨p, o, hpending, hpassed, h⟩
    · exact .inl (by rw [h])
    · exact .inl (by rw [h])
    · exact .inr ⟨m, p, rfl, hpending, hpassed, by rw [h]; rfl, by rw [h]; rfl, by rw [h]; rfl⟩
  | safetyEnded exitCode | workerEnded exitCode =>
    simp only [step]
    split
    · exact .inl rfl
    · exact .inl rfl
  | dismiss =>
    rcases dismissed_eq s with ⟨o, h⟩
    exact .inl (by simp only [step, h])
  | serviceRestarted => exact .inl rfl

theorem step_pending {event : Event} {p : PendingRestore}
    (h : (step s event).pending = some p) :
    (∃ r archives, event = .restoreBackup p.filename r ∧ s.pending = none ∧
      r.listedBefore = some archives ∧
      p = ⟨p.filename, r.now + restoreWaitMax, s.nextOperation, safetyArchives archives⟩ ∧
      (step s event).safety.running = true ∧
      (step s event).safety.operationId = some s.nextOperation ∧
      (step s event).nextOperation = s.nextOperation + 1) ∨
    (s.pending = some p ∧ (step s event).nextOperation = s.nextOperation ∧
      ((step s event).safety = s.safety ∨ ∃ exitCode, event = .safetyEnded exitCode ∧
        s.safety.running = true ∧
        (step s event).safety = ⟨false, some exitCode, s.safety.operationId⟩)) := by
  cases event with
  | restoreBackup filename r =>
    simp only [step] at h ⊢
    rcases restoreBackup_cases filename r s with
      ⟨o, heq⟩ | ⟨hnone, o, b, heq⟩ | ⟨hnone, o, archives, hlisted, heq⟩
    · rw [heq] at h ⊢
      exact .inr ⟨h, rfl, .inl rfl⟩
    · rw [heq] at h
      rw [hnone] at h
      cases h
    · rw [heq] at h ⊢
      cases h
      -- accepted: the pending restore is the one of this request
      exact .inl ⟨r, archives, rfl, hnone, hlisted, rfl, rfl, rfl, rfl⟩
  | tick m =>
    simp only [step] at h ⊢
    rcases tickPendingRestore_cases m s with ⟨o, heq⟩ | ⟨o, heq⟩ | ⟨p, o, _, _, heq⟩
    · rw [heq] at h ⊢
      exact .inr ⟨h, rfl, .inl rfl⟩
    · rw [heq] at h
      cases h
    · rw [heq] at h
      cases h
  | safetyEnded exitCode =>
    simp only [step] at h ⊢
    by_cases hrunning : s.safety.running = true
    · rw [if_pos hrunning] at h ⊢
      exact .inr ⟨h, rfl, .inr ⟨exitCode, rfl, hrunning, rfl⟩⟩
    · rw [if_neg hrunning] at h ⊢
      exact .inr ⟨h, rfl, .inl rfl⟩
  | workerEnded exitCode =>
    simp only [step] at h ⊢
    by_cases hrunning : s.workerRunning = true
    · rw [if_pos hrunning] at h ⊢
      exact .inr ⟨h, rfl, .inl rfl⟩
    · rw [if_neg hrunning] at h ⊢
      exact .inr ⟨h, rfl, .inl rfl⟩
  | dismiss =>
    rcases dismissed_eq s with ⟨o, heq⟩
    simp only [step] at h ⊢
    rw [heq] at h ⊢
    exact .inr ⟨h, rfl, .inl rfl⟩
  | serviceRestarted => cases h

theorem restoreBackup_nextOperation (filename : String) (r : Request) (s : State) :
    s.nextOperation ≤ (restoreBackup filename r s).nextOperation := by
  rcases restoreBackup_cases filename r s with ⟨o, h⟩ | ⟨_, o, b, h⟩ | ⟨_, o, archives, _, h⟩
  · rw [h]
  · rw [h]
  · rw [h]
    exact Nat.le_succ _

theorem step_nextOperation (s : State) (event : Event) :
    s.nextOperation ≤ (step s event).nextOperation := by
  cases event with
  | restoreBackup filename r => exact restoreBackup_nextOperation filename r s
  | tick m =>
    simp only [step]
    rcases tickPendingRestore_cases m s with ⟨o, h⟩ | ⟨o, h⟩ | ⟨p, o, _, _, h⟩
    · rw [h]
    · rw [h]
    · rw [h]
      exact le_refl s.nextOperation
  | safetyEnded exitCode | workerEnded exitCode =>
    simp only [step]
    split
    · exact le_refl s.nextOperation
    · exact le_refl s.nextOperation
  | dismiss =>
    rcases dismissed_eq s with ⟨o, h⟩
    simp only [step, h]
    exact le_refl s.nextOperation
  | serviceRestarted => exact le_refl s.nextOperation

end

/-! ### Runs -/

def SafetyBackupOf (before between : List Event) (id : ℕ) (b : SafetyBackup) : Prop :=
  b.operationId = some id ∧
    (b.running = true ∨ ∃ exitCode, b.exitCode = some exitCode ∧
      SafetyEnded before between id exitCode)

theorem SafetyEnded.snoc {before between : List Event} {id : ℕ} {exitCode : ℤ}
    (h : SafetyEnded before between id exitCode) (event : Event) :
    SafetyEnded before (between ++ [event]) id exitCode := by
  rcases h with ⟨b₁, b₂, hbetween, hrunning⟩
  refine ⟨b₁, b₂ ++ [event], ?_, hrunning⟩
  rw [hbetween]
  simp

theorem accepted_of_pending (events : List Event) {p : PendingRestore}
    (h : (run step {} events).pending = some p) :
    ∃ before r between, events = before ++ .restoreBackup p.filename r :: between ∧
      Accepted before r p ∧
      SafetyBackupOf (before ++ [.restoreBackup p.filename r]) between p.operationId
        (run step {} events).safety := by
  induction events using List.reverseRecOn with
  | nil => cases h
  | append_singleton events event ih =>
    have hrun := run_snoc step {} events event
    rw [hrun] at h ⊢
    rcases step_pending h with
      ⟨r, archives, hevent, hnone, hlisted, hp, hrunning, hid, _⟩ | ⟨hpending, _, hsafety⟩
    · subst hevent
      have haccepted : Accepted events r p :=
        ⟨hnone, by rw [hrun, h], by rw [hp], archives, hlisted, by rw [hp]⟩
      exact ⟨events, r, [], rfl, haccepted, by rw [hid, hp], .inl hrunning⟩
    · rcases ih hpending with ⟨before, r, between, hevents, haccepted, hid, hbackup⟩
      refine ⟨before, r, between ++ [event], by rw [hevents]; simp, haccepted, ?_⟩
      rcases hsafety with hsame | ⟨exitCode, hevent, hrunning, hended⟩
      · rw [hsame]
        rcases hbackup with hrunning | ⟨exitCode, hexit, hended⟩
        · exact ⟨hid, .inl hrunning⟩
        · exact ⟨hid, .inr ⟨exitCode, hexit, hended.snoc event⟩⟩
      · rw [hended]
        have hhistory : (before ++ [.restoreBackup p.filename r]) ++ between = events := by
          rw [hevents]
          simp
        refine ⟨hid, .inr ⟨exitCode, rfl, between, [], by rw [hevent], ?_⟩⟩
        rw [hhistory]
        exact ⟨hrunning, hid⟩

theorem throughGates_of_passed {earlier : List Event} {m : Tick} {p : PendingRestore}
    (hpending : (run step {} earlier).pending = some p)
    (hpassed : Passed m p (run step {} earlier)) :
    ThroughGates earlier m p.operationId p.filename := by
  obtain ⟨before, r, between, hearlier, haccepted, _, hbackup⟩ :=
    accepted_of_pending earlier hpending
  have hended : SafetyEnded (before ++ [.restoreBackup p.filename r]) between p.operationId 0 := by
    rcases hbackup with hrunning | ⟨exitCode, hexit, hended⟩
    · rw [hpassed.ended] at hrunning
      cases hrunning
    · rw [hpassed.exitCode] at hexit
      cases hexit
      exact hended
  exact ⟨p, before, r, between, hpending, rfl, rfl, hearlier, haccepted, hended,
    hpassed.inTime, hpassed.safetyArchive, hpassed.target⟩

theorem starts_gated (earlier : List Event) (event : Event) : StartsGated earlier event := by
  intro id filename hafter hbefore
  rw [run_snoc] at hafter
  rcases step_starts (run step {} earlier) event with
    hsame | ⟨m, p, hevent, hpending, hpassed, _, _, hstarts⟩
  · rw [hsame] at hafter
    exact absurd hafter hbefore
  · rw [hstarts, List.mem_append, List.mem_singleton] at hafter
    rcases hafter with hafter | hafter
    · exact absurd hafter hbefore
    · cases hafter
      exact ⟨m, hevent, throughGates_of_passed hpending hpassed⟩

/-- The starts are of requests accepted before, each once, and not of what is pending. -/
structure Invariant (s : State) : Prop where
  nodup : (s.starts.map Prod.fst).Nodup
  starts_lt : ∀ id ∈ s.starts.map Prod.fst, id < s.nextOperation
  pending_lt : ∀ p, s.pending = some p → p.operationId < s.nextOperation
  pending_notMem : ∀ p, s.pending = some p → p.operationId ∉ s.starts.map Prod.fst

theorem Invariant.idle {s : State} {event : Event} (h : Invariant s)
    (hstarts : (step s event).starts = s.starts) : Invariant (step s event) := by
  have hnext := step_nextOperation s event
  constructor
  · rw [hstarts]
    exact h.nodup
  · rw [hstarts]
    intro id hid
    exact Nat.lt_of_lt_of_le (h.starts_lt id hid) hnext
  · intro p hp
    rcases step_pending hp with ⟨r, archives, _, _, _, heq, _, _, hnew⟩ | ⟨hold, hsame, _⟩
    · rw [heq, hnew]
      exact Nat.lt_succ_self _
    · rw [hsame]
      exact h.pending_lt p hold
  · rw [hstarts]
    intro p hp
    rcases step_pending hp with ⟨r, archives, _, _, _, heq, _⟩ | ⟨hold, _⟩
    · rw [heq]
      exact fun hmem => Nat.lt_irrefl _ (h.starts_lt _ hmem)
    · exact h.pending_notMem p hold

theorem Invariant.start {s s' : State} {p : PendingRestore} (h : Invariant s)
    (hpending : s.pending = some p) (hnone : s'.pending = none)
    (hnext : s'.nextOperation = s.nextOperation)
    (hstarts : s'.starts = s.starts ++ [(p.operationId, p.filename)]) : Invariant s' := by
  have hids : s'.starts.map Prod.fst = s.starts.map Prod.fst ++ [p.operationId] := by
    rw [hstarts, List.map_append]
    rfl
  constructor
  · rw [hids, List.nodup_append]
    refine ⟨h.nodup, List.nodup_singleton _, ?_⟩
    intro id hid other hother
    rw [List.mem_singleton.mp hother]
    rintro rfl
    exact h.pending_notMem p hpending hid
  · rw [hids, hnext]
    intro id hid
    rcases List.mem_append.mp hid with hid | hid
    · exact h.starts_lt id hid
    · rw [List.mem_singleton.mp hid]
      exact h.pending_lt p hpending
  · intro q hq
    rw [hnone] at hq
    cases hq
  · intro q hq
    rw [hnone] at hq
    cases hq

theorem Invariant.step {s : State} (h : Invariant s) (event : Event) :
    Invariant (step s event) := by
  rcases step_starts s event with hstarts | ⟨m, p, _, hpending, _, hnone, hnext, hstarts⟩
  · exact h.idle hstarts
  · exact h.start hpending hnone hnext hstarts

theorem invariant_of_run (events : List Event) : Invariant (run step {} events) := by
  induction events using List.reverseRecOn with
  | nil => exact ⟨List.nodup_nil, nofun, nofun, nofun⟩
  | append_singleton events event ih =>
    rw [run_snoc]
    exact ih.step event

/-- In every run, the worker is started by a tick that has passed the gates and for the
archive of the request that was accepted, and for each request at most once. -/
theorem restore_worker_gated (events : List Event) :
    (∀ event, StartsGated events event) ∧ ((run step {} events).starts.map Prod.fst).Nodup :=
  ⟨starts_gated events, (invariant_of_run events).nodup⟩

/-- A restore that goes through: the safety backup ends, its archive is validated, and the
target's verdict is still good. -/
example :
    let verdicts := AList.singleton "manual/a" ⟨"manual/a", 1, 0, true, some true⟩
    (run step {} [
      .restoreBackup "manual/a" {
        now := 0, listed := some [⟨"manual/a", 1, 0⟩], checks := some verdicts
        listedBefore := some [⟨"manual/a", 1, 0⟩] },
      .safetyEnded 0,
      .tick {
        now := 5, listed := some [⟨"restore-safety/b", 2, 3⟩]
        validate := fun _ => some ⟨"restore-safety/b", 2, 3, true, some true⟩
        listedAfter := some [⟨"restore-safety/b", 2, 3⟩]
        targetListed := some [⟨"manual/a", 1, 0⟩], checks := some verdicts }]).starts =
      [(0, "manual/a")] := by
  decide +kernel

end RestoreGate
