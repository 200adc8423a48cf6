import Mathlib.Data.List.Sort
import McAdmin.RestoreGate
import McAdmin.Ticks

/-!
# Retention beside a restore

A retention lists the archives, plans what to delete, and deletes it file by file.  It is
applied after a backup that has succeeded, when its outcome is seen by the page or by the tick
of the restore's coordinator, and on request; it does not look at the restore.  Between two
accesses of one thread the others go on.
-/

namespace BackupRetention

open Runs
open RestoreGate (ArchiveCheck BackupArchive Fate PendingRestore Request Tick findArchive)

/-! ### The plan -/

/-- The year and the month of a day counted from 1970-01-01. -/
def monthOf (days : ℤ) : ℤ × ℤ :=
  let z := days + 719468
  let era := z / 146097
  let dayOfEra := z % 146097
  let yearOfEra := (dayOfEra - dayOfEra / 1460 + dayOfEra / 36524 - dayOfEra / 146096) / 365
  let dayOfYear := dayOfEra - (365 * yearOfEra + yearOfEra / 4 - yearOfEra / 100)
  -- the year begins in March, its leap day at the end
  let mp := (5 * dayOfYear + 2) / 153
  let month := if mp < 10 then mp + 3 else mp - 9
  (yearOfEra + era * 400 + if month ≤ 2 then 1 else 0, month)

example : [0, 59, 11016, 11017, 19782, 20513].map monthOf =
    [(1970, 1), (1970, 3), (2000, 2), (2000, 3), (2024, 2), (2026, 3)] := by decide

def monthKey (archive : BackupArchive) : ℤ × ℤ := monthOf (archive.createdAt / Ticks.day)

structure BackupRetentionItem where
  archive : BackupArchive
  reason : String
deriving DecidableEq

structure BackupRetentionPlan where
  keep : List BackupRetentionItem := []
  delete : List BackupRetentionItem := []

structure Policy where
  now : ℤ
  dailyDays : ℤ := 30
  monthlyMonths : ℤ := 12
  folder : String := "scheduled/"

def Policy.daily (q : Policy) : ℤ := max 1 q.dailyDays

def Policy.monthly (q : Policy) : ℤ := max 0 q.monthlyMonths

def Policy.monthlyUntil (q : Policy) : ℤ := max q.daily (q.monthly * 31)

def Policy.scope (q : Policy) : String :=
  if q.folder.endsWith "/" then q.folder else q.folder ++ "/"

def Policy.age (q : Policy) (archive : BackupArchive) : ℤ := q.now - archive.createdAt

def BackupRetentionPlan.keeping (plan : BackupRetentionPlan) (archive : BackupArchive)
    (reason : String) : BackupRetentionPlan :=
  { plan with keep := ⟨archive, reason⟩ :: plan.keep }

def BackupRetentionPlan.deleting (plan : BackupRetentionPlan) (archive : BackupArchive)
    (reason : String) : BackupRetentionPlan :=
  { plan with delete := ⟨archive, reason⟩ :: plan.delete }

/-- The archives from the newest on, with the months of which one is kept. -/
def planFrom (q : Policy) : List (ℤ × ℤ) → List BackupArchive → BackupRetentionPlan
  | _, [] => {}
  | monthlyKept, archive :: archives =>
    if archive.filename.startsWith q.scope = false then planFrom q monthlyKept archives
    else if q.age archive ≤ q.daily * Ticks.day then
      (planFrom q (monthKey archive :: monthlyKept) archives).keeping archive
        s!"journalier (< {q.daily} jours)"
    else if q.age archive ≤ q.monthlyUntil * Ticks.day then
      if monthKey archive ∈ monthlyKept then
        (planFrom q monthlyKept archives).deleting archive "doublon mensuel"
      else
        (planFrom q (monthKey archive :: monthlyKept) archives).keeping archive
          s!"mensuel conservé ({q.monthly} mois)"
    else (planFrom q monthlyKept archives).deleting archive s!"> {q.monthly} mois"

def backupRetentionPlan (q : Policy) (archives : List BackupArchive) : BackupRetentionPlan :=
  planFrom q [] (archives.insertionSort fun a b => b.createdAt ≤ a.createdAt)

/-! ### The state -/

structure BackupProfile where
  id : String
  dest : String
  retentionDailyDays : ℕ := 0
  retentionMonthlyMonths : ℕ := 0

inductive Party where
  | coordinator
  | request (n : ℕ)
deriving DecidableEq

structure CleanUp where
  /-- The kinds of backup that a look at the outcomes still has to visit, with their folders. -/
  entries : List (String × String) := []
  /-- The profile whose backup has succeeded, and whose retention comes next. -/
  due : Option String := none
  /-- What is still to be deleted of what was planned. -/
  items : List BackupRetentionItem := []

def CleanUp.over (c : CleanUp) : Bool := c.entries.isEmpty && c.due.isNone && c.items.isEmpty

inductive Stage where
  | scanning
  | listing (p : PendingRestore)
  | validating (p : PendingRestore) (archive : BackupArchive)
  | showing (p : PendingRestore) (archive : BackupArchive) (check : ArchiveCheck)
  /-- It looks at the target again. -/
  | looking (p : PendingRestore)
  | starting (p : PendingRestore)

structure State where
  gate : RestoreGate.State := {}
  archives : List BackupArchive := []
  profiles : List BackupProfile := []
  /-- The container that all profiles share runs. -/
  backupRunning : Bool := false
  startedAt : Dict String ℤ := ∅
  cleanUps : Party → Option CleanUp := fun _ => none
  stage : Option Stage := none

/-- The only places `delete_archive` deletes from. -/
def deletable (filename : String) : Bool :=
  filename.startsWith "scheduled/" || filename.startsWith "profiles/"

def deleteArchive (unlinks : String → Bool) (archives : List BackupArchive) (filename : String) :
    List BackupArchive :=
  if deletable filename && unlinks filename then archives.filter (·.filename ≠ filename)
  else archives

def deletePlanned (unlinks : String → Bool) (items : List BackupRetentionItem)
    (archives : List BackupArchive) : List BackupArchive :=
  items.foldl (fun archives item => deleteArchive unlinks archives item.archive.filename) archives

/-! ### The clean-ups -/

structure Access where
  now : ℤ
  readable : Bool := true
  listed : Bool := true
  journals : Bool := true
  unlinks : Bool := true
  /-- The deletion does not raise. -/
  returns : Bool := true

def BackupProfile.policy (profile : BackupProfile) (now : ℤ) : Policy :=
  ⟨now, profile.retentionDailyDays, profile.retentionMonthlyMonths, profile.dest ++ "/"⟩

/-- `_auto_retention` up to its plan. -/
def autoPolicy (kind : String) (now : ℤ) (s : State) : Option Policy :=
  match s.profiles.find? (·.id = kind) with
  | none => none
  | some profile =>
    if profile.retentionDailyDays = 0 then none
    else if !(profile.dest.startsWith "profiles/" || profile.dest == "scheduled") then none
    else some (profile.policy now)

/-- `_finalize_backup` up to the retention, `none` where it raises. -/
def finalizeBackup (a : Access) (entries : List (String × String)) (kind folder : String)
    (startedAt : ℤ) (s : State) : Option CleanUp :=
  if a.listed = false ∨ a.journals = false then none
  else if s.archives.any fun archive =>
      archive.filename.startsWith folder && startedAt ≤ archive.createdAt then
    some { entries, due := some kind }
  else some { entries }

def scanKind (a : Access) (entries : List (String × String)) (kind folder : String) (s : State) :
    State × Option CleanUp :=
  let running := if kind = "safety" then s.gate.safety.running else s.backupRunning
  match s.startedAt.lookup kind with
  | none => (s, some { entries })
  | some startedAt =>
    if a.readable = false ∨ running then (s, some { entries })
    else
      let s' := { s with startedAt := s.startedAt.erase kind }
      if kind = "safety" then (s', some { entries })
      else (s', finalizeBackup a entries kind folder startedAt s')

def watched (s : State) : List (String × String) :=
  ("safety", "restore-safety/") ::
    s.profiles.map fun profile => (profile.id, profile.dest ++ "/")

/-- The next step of a clean-up, which is gone where it raises. -/
def CleanUp.next (a : Access) (s : State) : CleanUp → State × Option CleanUp
  | ⟨entries, due, item :: items⟩ =>
    if a.returns = false then (s, some ⟨entries, due, []⟩)
    else ({ s with
        archives := deleteArchive (fun _ => a.unlinks) s.archives item.archive.filename },
      some ⟨entries, due, items⟩)
  | ⟨entries, some kind, []⟩ =>
    match autoPolicy kind a.now s with
    | none => (s, some { entries })
    | some q =>
      if a.listed = false then (s, some { entries })
      else (s, some { entries, items := (backupRetentionPlan q s.archives).delete })
  | ⟨(kind, folder) :: entries, none, []⟩ => scanKind a entries kind folder s
  | ⟨[], none, []⟩ => (s, some {})

def State.withCleanUp (s : State) (party : Party) (c : Option CleanUp) : State :=
  { s with cleanUps := Function.update s.cleanUps party c }

/-- What raises in the look at the outcomes raises in the tick. -/
def cleans (party : Party) (a : Access) (s : State) : State :=
  match s.cleanUps party with
  | none => s
  | some c =>
    match c.next a s with
    | (s, some c) => s.withCleanUp party (some c)
    | (s, none) =>
      let s := s.withCleanUp party none
      if party = .coordinator then { s with stage := none } else s

def free (s : State) (party : Party) : Bool := (s.cleanUps party).all CleanUp.over

/-! ### The restore -/

def restoreInProgress (gate : RestoreGate.State) : Bool :=
  gate.pending.isSome || gate.operation.any (!·.phase.isFinal) || gate.workerRunning

def recordStart (id : String) (now : ℤ) (started : Bool) (s : State) : State :=
  if started ∨ s.startedAt.lookup id = none then
    { s with startedAt := Dict.set s.startedAt id now }
  else s

def triggerProfileBackup (id : String) (now : ℤ) (fate : Fate) (s : State) : State :=
  if restoreInProgress s.gate || s.gate.safety.running then s
  else if s.profiles.all (·.id ≠ id) then s
  else match fate with
    | .started =>
      if s.backupRunning then recordStart id now false s
      else recordStart id now true { s with backupRunning := true }
    | .refused => recordStart id now false s
    | .failed => s
    | .failedAfter => { s with backupRunning := true }

/-- What a request reads of the archives are answers of its own. -/
def restoreBackup (filename : String) (r : Request) (s : State) : State :=
  let gate := RestoreGate.restoreBackup filename r s.gate
  { s with
    gate
    startedAt :=
      if gate.pending.isSome && s.gate.pending.isNone then Dict.set s.startedAt "safety" r.now
      else s.startedAt }

def State.ends (s : State) (gate : RestoreGate.State) : State := { s with gate, stage := none }

/-- The next step of a tick that has looked at the outcomes. -/
def tickNext (m : Tick) (s : State) : Stage → State
  | .scanning =>
    match s.gate.pending with
    | none => s.ends (RestoreGate.tickRestoreOperation m s.gate)
    | some p =>
      if p.deadline ≤ m.now then s.ends (RestoreGate.abandon m p s.gate)
      else if m.safetyReadable = false ∨ s.gate.safety.running then s.ends s.gate
      else if m.exitReadable = false then s.ends s.gate
      else if s.gate.safety.exitCode ≠ some 0 then s.ends (RestoreGate.abandon m p s.gate)
      else { s with stage := some (.listing p) }
  | .listing p =>
    match m.listed.bind fun _ => RestoreGate.newSafetyArchive p s.archives with
    | none => s.ends (RestoreGate.abandon m p s.gate)
    | some archive => { s with stage := some (.validating p archive) }
  | .validating p archive =>
    match m.validate archive.filename with
    | none => s.ends (RestoreGate.abandon m p s.gate)
    | some check => { s with stage := some (.showing p archive check) }
  | .showing p archive check =>
    match m.listedAfter.bind fun _ => findArchive s.archives archive.filename with
    | none => s.ends (RestoreGate.abandon m p s.gate)
    | some current =>
      if RestoreGate.Confirms check current then { s with stage := some (.looking p) }
      else s.ends (RestoreGate.abandon m p s.gate)
  | .looking p =>
    if RestoreGate.archiveClear (m.targetListed.map fun _ => s.archives) m.pathFound m.checks
        p.filename then
      { s with stage := some (.starting p) }
    else s.ends (RestoreGate.abandon m p s.gate)
  | .starting p => s.ends (RestoreGate.startRestoreAfterBackup m p s.gate)

def tickPendingRestore (m : Tick) (s : State) : State :=
  match s.stage with
  | none => s
  | some stage => if free s .coordinator then tickNext m s stage else s

/-! ### The events -/

inductive Event where
  | trigger (id : String) (now : ℤ) (fate : Fate)
  | backupEnded
  /-- A backup writes its archive. -/
  | archived (archive : BackupArchive)
  | edit (profiles : List BackupProfile)
  /-- A request applies a retention, or looks at the outcomes. -/
  | requested (n : ℕ) (q : Policy)
  | polled (n : ℕ)
  | cleans (party : Party) (a : Access)
  | restoreBackup (filename : String) (r : Request)
  | tickBegins
  | tick (m : Tick)
  | safetyEnded (exitCode : ℤ)
  | workerEnded (exitCode : ℤ)
  | dismiss
  | serviceRestarted

def Event.isTick : Event → Bool
  | .tick _ => true
  | _ => false

def State.withGate (s : State) (event : RestoreGate.Event) : State :=
  { s with gate := RestoreGate.step s.gate event }

def step (s : State) : Event → State
  | .trigger id now fate => triggerProfileBackup id now fate s
  | .backupEnded => { s with backupRunning := false }
  | .archived archive =>
    { s with archives := archive :: s.archives.filter (·.filename ≠ archive.filename) }
  | .edit profiles => { s with profiles }
  | .requested n q =>
    if free s (.request n) then
      s.withCleanUp (.request n) (some { items := (backupRetentionPlan q s.archives).delete })
    else s
  | .polled n =>
    if free s (.request n) then s.withCleanUp (.request n) (some { entries := watched s }) else s
  | .cleans party a => cleans party a s
  | .restoreBackup filename r => restoreBackup filename r s
  | .tickBegins =>
    if s.stage.isNone then
      { s.withCleanUp .coordinator (some { entries := watched s }) with stage := some .scanning }
    else s
  | .tick m => tickPendingRestore m s
  | .safetyEnded exitCode => s.withGate (.safetyEnded exitCode)
  | .workerEnded exitCode => s.withGate (.workerEnded exitCode)
  | .dismiss => s.withGate .dismiss
  | .serviceRestarted =>
    { s.withGate .serviceRestarted with
      startedAt := ∅
      cleanUps := fun _ => none
      stage := none }

/-! ### What a retention may take -/

def Listed (archives : List BackupArchive) (filename : String) : Prop :=
  ∃ archive ∈ archives, archive.filename = filename

instance (archives : List BackupArchive) (filename : String) :
    Decidable (Listed archives filename) :=
  inferInstanceAs (Decidable (∃ archive ∈ archives, archive.filename = filename))

/-- From the acceptance of a restore of the archive until its end. -/
def InRestore (gate : RestoreGate.State) (filename : String) : Prop :=
  (∃ p ∈ gate.pending, p.filename = filename) ∨
    ∃ op ∈ gate.operation, op.phase.isFinal = false ∧ op.filename = filename

def Spares (s : State) (event : Event) : Prop :=
  ∀ filename, InRestore s.gate filename → Listed s.archives filename →
    Listed (step s event).archives filename

/-- A run beside what its threads have read: of each party the policy and the archives of its
last plan, and the archives that the last look at a target listed. -/
structure History where
  state : State
  plans : Party → Option (Policy × List BackupArchive) := fun _ => none
  looked : List BackupArchive := []

def planning (s : State) : Event → Option (Party × Policy)
  | .requested n q => if free s (.request n) then some (.request n, q) else none
  | .cleans party a =>
    match s.cleanUps party with
    | some ⟨_, some kind, []⟩ => (autoPolicy kind a.now s).map (party, ·)
    | _ => none
  | _ => none

def looks (s : State) : Event → Bool
  | .tick _ =>
    match s.stage with
    | some (.looking _) => true
    | _ => false
  | _ => false

def History.step (h : History) (event : Event) : History where
  state := BackupRetention.step h.state event
  plans :=
    match planning h.state event with
    | none => h.plans
    | some (party, q) => Function.update h.plans party (some (q, h.state.archives))
  looked := if looks h.state event then h.state.archives else h.looked

/-- The plan deletes it: it is in the policy's folder, past its daily window, and past its
monthly window or with another archive of the month kept. -/
structure Expired (q : Policy) (archives : List BackupArchive) (archive : BackupArchive) :
    Prop where
  listed : archive ∈ archives
  planned : ∃ item ∈ (backupRetentionPlan q archives).delete, item.archive = archive
  inScope : archive.filename.startsWith q.scope = true
  beyond : q.daily * Ticks.day < q.age archive
  late : q.monthlyUntil * Ticks.day < q.age archive ∨
    ∃ item ∈ (backupRetentionPlan q archives).keep,
      monthKey item.archive = monthKey archive ∧ item.archive.filename ≠ archive.filename

/-- What a retention takes, and what becomes of a restore whose archive it takes. -/
structure Respects (h : History) (event : Event) : Prop where
  lost : ∀ filename, Listed h.state.archives filename →
    ¬ Listed (step h.state event).archives filename →
    deletable filename = true ∧ ∃ party a q listed archive, event = .cleans party a ∧
      h.plans party = some (q, listed) ∧ archive.filename = filename ∧ Expired q listed archive
  started : ∀ start ∈ (step h.state event).gate.starts, start ∉ h.state.gate.starts →
    Listed h.looked start.2
  givenUp : ∀ m p, event = .tick m → h.state.stage = some (.looking p) →
    free h.state .coordinator = true → ¬ Listed h.state.archives p.filename →
    (step h.state event).gate.pending = none ∧
      (step h.state event).gate.operation = some ⟨p.filename, p.operationId, .failed, m.now⟩

/-! ### What the plan deletes -/

section

variable {q : Policy} {s s' : State} {filename : String}

@[simp] theorem keeping_delete (plan : BackupRetentionPlan) (archive : BackupArchive)
    (reason : String) : (plan.keeping archive reason).delete = plan.delete := rfl

@[simp] theorem mem_keeping_keep {plan : BackupRetentionPlan} {archive : BackupArchive}
    {reason : String} {item : BackupRetentionItem} :
    item ∈ (plan.keeping archive reason).keep ↔ item = ⟨archive, reason⟩ ∨ item ∈ plan.keep := by
  simp [BackupRetentionPlan.keeping]

@[simp] theorem deleting_keep (plan : BackupRetentionPlan) (archive : BackupArchive)
    (reason : String) : (plan.deleting archive reason).keep = plan.keep := rfl

@[simp] theorem mem_deleting_delete {plan : BackupRetentionPlan} {archive : BackupArchive}
    {reason : String} {item : BackupRetentionItem} :
    item ∈ (plan.deleting archive reason).delete ↔
      item = ⟨archive, reason⟩ ∨ item ∈ plan.delete := by
  simp [BackupRetentionPlan.deleting]

/-- Another archive of the month is kept: one seen before, or one still to come. -/
def MonthKept (monthlyKept : List (ℤ × ℤ)) (plan : BackupRetentionPlan)
    (archive : BackupArchive) : Prop :=
  monthKey archive ∈ monthlyKept ∨ ∃ item ∈ plan.keep,
    monthKey item.archive = monthKey archive ∧ item.archive.filename ≠ archive.filename

theorem MonthKept.keeping {monthlyKept : List (ℤ × ℤ)} {plan : BackupRetentionPlan}
    {archive first : BackupArchive} (h : MonthKept (monthKey first :: monthlyKept) plan archive)
    (hne : first.filename ≠ archive.filename) (reason : String) :
    MonthKept monthlyKept (plan.keeping first reason) archive := by
  rcases h with hseen | ⟨item, hitem, hmonth⟩
  · rcases List.mem_cons.mp hseen with hfirst | hseen
    · exact .inr ⟨⟨first, reason⟩, by simp, hfirst.symm, hne⟩
    · exact .inl hseen
  · exact .inr ⟨item, by simp [hitem], hmonth⟩

theorem mem_of_planFrom_delete {item : BackupRetentionItem} {monthlyKept : List (ℤ × ℤ)}
    {archives : List BackupArchive} (h : item ∈ (planFrom q monthlyKept archives).delete) :
    item.archive ∈ archives := by
  induction archives generalizing monthlyKept with
  | nil => simp [planFrom] at h
  | cons first archives ih =>
    have hdeleting : ∀ {monthlyKept reason},
        item ∈ ((planFrom q monthlyKept archives).deleting first reason).delete →
        item.archive ∈ first :: archives := by
      intro monthlyKept reason hitem
      rcases mem_deleting_delete.mp hitem with rfl | hitem
      · exact List.mem_cons_self
      · exact List.mem_cons_of_mem _ (ih hitem)
    simp only [planFrom] at h
    split_ifs at h
    · exact List.mem_cons_of_mem _ (ih h)
    · exact List.mem_cons_of_mem _ (ih h)
    · exact hdeleting h
    · exact List.mem_cons_of_mem _ (ih h)
    · exact hdeleting h

theorem planFrom_delete {item : BackupRetentionItem} {monthlyKept : List (ℤ × ℤ)}
    {archives : List BackupArchive} (hnames : (archives.map (·.filename)).Nodup)
    (h : item ∈ (planFrom q monthlyKept archives).delete) :
    item.archive.filename.startsWith q.scope = true ∧
      q.daily * Ticks.day < q.age item.archive ∧
      (q.monthlyUntil * Ticks.day < q.age item.archive ∨
        MonthKept monthlyKept (planFrom q monthlyKept archives) item.archive) := by
  induction archives generalizing monthlyKept with
  | nil => simp [planFrom] at h
  | cons first archives ih =>
    rw [List.map_cons, List.nodup_cons] at hnames
    -- names are distinct, so that the archive kept is another one
    have hother : ∀ {monthlyKept}, item ∈ (planFrom q monthlyKept archives).delete →
        first.filename ≠ item.archive.filename := by
      intro monthlyKept hitem heq
      exact hnames.1 (heq ▸ List.mem_map_of_mem (mem_of_planFrom_delete hitem))
    simp only [planFrom] at h ⊢
    by_cases hscope : first.filename.startsWith q.scope = false
    · rw [if_pos hscope] at h ⊢
      exact ih hnames.2 h
    rw [if_neg hscope] at h ⊢
    by_cases hdaily : q.age first ≤ q.daily * Ticks.day
    · rw [if_pos hdaily] at h ⊢
      rw [keeping_delete] at h
      rcases ih hnames.2 h with ⟨hin, hold, hmonth⟩
      exact ⟨hin, hold, hmonth.imp_right fun hm => hm.keeping (hother h) _⟩
    rw [if_neg hdaily] at h ⊢
    by_cases hmonthly : q.age first ≤ q.monthlyUntil * Ticks.day
    · rw [if_pos hmonthly] at h ⊢
      by_cases hseen : monthKey first ∈ monthlyKept
      · rw [if_pos hseen] at h ⊢
        rcases mem_deleting_delete.mp h with rfl | h
        · exact ⟨by simpa using hscope, not_le.mp hdaily, .inr (.inl hseen)⟩
        · exact ih hnames.2 h
      · rw [if_neg hseen] at h ⊢
        rw [keeping_delete] at h
        rcases ih hnames.2 h with ⟨hin, hold, hmonth⟩
        exact ⟨hin, hold, hmonth.imp_right fun hm => hm.keeping (hother h) _⟩
    · rw [if_neg hmonthly] at h ⊢
      rcases mem_deleting_delete.mp h with rfl | h
      · exact ⟨by simpa using hscope, not_le.mp hdaily, .inl (not_le.mp hmonthly)⟩
      · exact ih hnames.2 h

theorem mem_of_delete {archives : List BackupArchive} {item : BackupRetentionItem}
    (h : item ∈ (backupRetentionPlan q archives).delete) : item.archive ∈ archives := by
  have hmem := mem_of_planFrom_delete h
  rwa [List.mem_insertionSort] at hmem

theorem expired_of_delete {archives : List BackupArchive} {item : BackupRetentionItem}
    (hnames : (archives.map (·.filename)).Nodup)
    (h : item ∈ (backupRetentionPlan q archives).delete) : Expired q archives item.archive := by
  have hsorted := ((List.perm_insertionSort (fun a b : BackupArchive =>
    b.createdAt ≤ a.createdAt) archives).map (·.filename)).nodup_iff.mpr hnames
  rcases planFrom_delete hsorted h with ⟨hin, hold, hlate⟩
  refine ⟨mem_of_delete h, ⟨item, h, rfl⟩, hin, hold, hlate.imp_right ?_⟩
  rintro (hseen | hkept)
  · cases hseen
  · exact hkept

/-! ### What a deletion takes -/

theorem deleteArchive_sublist (unlinks : String → Bool) (archives : List BackupArchive)
    (filename : String) : (deleteArchive unlinks archives filename).Sublist archives := by
  unfold deleteArchive
  split
  · exact List.filter_sublist
  · exact List.Sublist.refl _

theorem lost_of_deleteArchive {unlinks : String → Bool} {archives : List BackupArchive}
    {deleted : String} (hbefore : Listed archives filename)
    (hafter : ¬ Listed (deleteArchive unlinks archives deleted) filename) :
    deletable filename = true ∧ deleted = filename := by
  simp only [deleteArchive] at hafter
  by_cases h : (deletable deleted && unlinks deleted) = true
  · rw [if_pos h] at hafter
    rcases hbefore with ⟨archive, hmem, hname⟩
    have heq : archive.filename = deleted := by
      by_contra hne
      exact hafter ⟨archive, List.mem_filter.mpr ⟨hmem, by simpa using hne⟩, hname⟩
    rw [← heq, hname] at h ⊢
    exact ⟨(Bool.and_eq_true_iff.mp h).1, rfl⟩
  · rw [if_neg h] at hafter
    exact absurd hbefore hafter

/-! ### What a step of a clean-up does -/

structure SameBut (s s' : State) : Prop where
  gate : s'.gate = s.gate
  cleanUps : s'.cleanUps = s.cleanUps
  stage : s'.stage = s.stage

structure Cleaned (a : Access) (s : State) (c : CleanUp) (s' : State) (c' : Option CleanUp) :
    Prop where
  same : SameBut s s'
  archives : s'.archives = s.archives ∨ ∃ item ∈ c.items,
    s'.archives = deleteArchive (fun _ => a.unlinks) s.archives item.archive.filename
  items : ∀ rest ∈ c', ∀ item ∈ rest.items, item ∈ c.items ∨
    ∃ kind q, c.due = some kind ∧ c.items = [] ∧ autoPolicy kind a.now s = some q ∧
      item ∈ (backupRetentionPlan q s.archives).delete

theorem cleaned_of_idle {a : Access} {c : CleanUp} {c' : Option CleanUp} (hsame : SameBut s s')
    (harchives : s'.archives = s.archives) (hitems : ∀ rest ∈ c', rest.items = []) :
    Cleaned a s c s' c' := by
  refine ⟨hsame, .inl harchives, fun rest hrest item hitem => ?_⟩
  rw [hitems rest hrest] at hitem
  cases hitem

theorem finalizeBackup_items {a : Access} {entries : List (String × String)}
    {kind folder : String} {startedAt : ℤ} :
    ∀ rest ∈ finalizeBackup a entries kind folder startedAt s, rest.items = [] := by
  intro rest hrest
  unfold finalizeBackup at hrest
  split_ifs at hrest
  · cases hrest
  · cases hrest
    rfl
  · cases hrest
    rfl

theorem cleaned_scanKind (a : Access) (c : CleanUp) (entries : List (String × String))
    (kind folder : String) (s : State) :
    Cleaned a s c (scanKind a entries kind folder s).1 (scanKind a entries kind folder s).2 := by
  have hrest : ∀ rest ∈ some { entries }, CleanUp.items rest = [] := by
    rintro rest ⟨⟩
    rfl
  unfold scanKind
  simp only
  split
  · exact cleaned_of_idle ⟨rfl, rfl, rfl⟩ rfl hrest
  · split_ifs
    · exact cleaned_of_idle ⟨rfl, rfl, rfl⟩ rfl hrest
    · exact cleaned_of_idle ⟨rfl, rfl, rfl⟩ rfl hrest
    · exact cleaned_of_idle ⟨rfl, rfl, rfl⟩ rfl hrest
    · exact cleaned_of_idle ⟨rfl, rfl, rfl⟩ rfl finalizeBackup_items

theorem cleaned_next (a : Access) (s : State) (c : CleanUp) :
    Cleaned a s c (c.next a s).1 (c.next a s).2 := by
  rcases c with ⟨entries, due, items⟩
  cases items with
  | cons item items =>
    simp only [CleanUp.next]
    split
    · exact cleaned_of_idle ⟨rfl, rfl, rfl⟩ rfl (by rintro rest ⟨⟩; rfl)
    · refine ⟨⟨rfl, rfl, rfl⟩, .inr ⟨item, List.mem_cons_self, rfl⟩, ?_⟩
      rintro rest ⟨⟩ other hother
      exact .inl (List.mem_cons_of_mem _ hother)
  | nil =>
    cases due with
    | none =>
      cases entries with
      | nil => exact cleaned_of_idle ⟨rfl, rfl, rfl⟩ rfl (by rintro rest ⟨⟩; rfl)
      | cons entry entries => exact cleaned_scanKind a _ entries entry.1 entry.2 s
    | some kind =>
      simp only [CleanUp.next]
      cases hpolicy : autoPolicy kind a.now s with
      | none => exact cleaned_of_idle ⟨rfl, rfl, rfl⟩ rfl (by rintro rest ⟨⟩; rfl)
      | some q =>
        simp only
        split
        · exact cleaned_of_idle ⟨rfl, rfl, rfl⟩ rfl (by rintro rest ⟨⟩; rfl)
        · refine ⟨⟨rfl, rfl, rfl⟩, .inl rfl, ?_⟩
          rintro rest ⟨⟩ item hitem
          exact .inr ⟨kind, q, rfl, rfl, hpolicy, hitem⟩

/-! ### The steps -/

structure Invariant (h : History) : Prop where
  names : (h.state.archives.map (·.filename)).Nodup
  planned : ∀ party c, h.state.cleanUps party = some c → ∀ item ∈ c.items,
    ∃ q listed, h.plans party = some (q, listed) ∧ Expired q listed item.archive
  looked : ∀ p, h.state.stage = some (.starting p) → Listed h.looked p.filename

structure Quiet (s s' : State) : Prop where
  names : (s.archives.map (·.filename)).Nodup → (s'.archives.map (·.filename)).Nodup
  kept : ∀ filename, Listed s.archives filename → Listed s'.archives filename
  starts : s'.gate.starts = s.gate.starts
  cleanUps : ∀ party c, s'.cleanUps party = some c → s.cleanUps party = some c ∨ c.items = []
  stage : ∀ p, s'.stage = some (.starting p) → s.stage = some (.starting p)

theorem Quiet.of_eq (harchives : s'.archives = s.archives)
    (hstarts : s'.gate.starts = s.gate.starts) (hcleanUps : s'.cleanUps = s.cleanUps)
    (hstage : s'.stage = s.stage) : Quiet s s' := by
  refine ⟨fun h => harchives ▸ h, fun _ h => harchives ▸ h, hstarts, ?_, ?_⟩
  · intro party c hc
    exact .inl (hcleanUps ▸ hc)
  · intro p hp
    exact hstage ▸ hp

theorem Quiet.of_same (h : s' = s) : Quiet s s' := by
  subst h
  exact Quiet.of_eq rfl rfl rfl rfl

theorem starts_withGate (event : RestoreGate.Event) (s : State)
    (htick : event.isTick = false) : (s.withGate event).gate.starts = s.gate.starts := by
  rcases RestoreGate.step_starts s.gate event with hsame | ⟨m, _, hevent, _⟩
  · exact hsame
  · rw [hevent] at htick
    cases htick

theorem quiet_withGate {event : RestoreGate.Event} (htick : event.isTick = false) :
    Quiet s (s.withGate event) :=
  Quiet.of_eq rfl (starts_withGate event s htick) rfl rfl

theorem quiet_archived (archive : BackupArchive) : Quiet s (step s (.archived archive)) := by
  refine ⟨fun hnames => ?_, fun filename h => ?_, rfl, fun _ _ hc => .inl hc, fun _ hp => hp⟩
  · refine List.nodup_cons.mpr ⟨fun hmem => ?_, ?_⟩
    · rcases List.mem_map.mp hmem with ⟨other, hother, heq⟩
      simpa [heq] using (List.mem_filter.mp hother).2
    · exact hnames.sublist (List.filter_sublist.map _)
  · rcases h with ⟨other, hmem, hname⟩
    by_cases heq : archive.filename = filename
    · exact ⟨archive, List.mem_cons_self, heq⟩
    · refine ⟨other, List.mem_cons_of_mem _ (List.mem_filter.mpr ⟨hmem, ?_⟩), hname⟩
      rw [← hname] at heq
      simpa using Ne.symm heq

theorem quiet_recordStart (id : String) (now : ℤ) (started : Bool) (s : State) :
    Quiet s (recordStart id now started s) := by
  unfold recordStart
  split
  · exact Quiet.of_eq rfl rfl rfl rfl
  · exact Quiet.of_eq rfl rfl rfl rfl

theorem quiet_trigger (id : String) (now : ℤ) (fate : Fate) (s : State) :
    Quiet s (triggerProfileBackup id now fate s) := by
  have hsame : Quiet s s := Quiet.of_same rfl
  simp only [triggerProfileBackup]
  split
  · exact hsame
  split
  · exact hsame
  cases fate with
  | started =>
    simp only
    split
    · exact quiet_recordStart id now false s
    · unfold recordStart
      split
      · exact Quiet.of_eq rfl rfl rfl rfl
      · exact Quiet.of_eq rfl rfl rfl rfl
  | refused => exact quiet_recordStart id now false s
  | failed => exact hsame
  | failedAfter => exact Quiet.of_eq rfl rfl rfl rfl

theorem quiet_restoreBackup (name : String) (r : Request) (s : State) :
    Quiet s (restoreBackup name r s) := by
  have hstarts : (RestoreGate.restoreBackup name r s.gate).starts = s.gate.starts := by
    rcases RestoreGate.step_starts s.gate (.restoreBackup name r) with hsame | ⟨_, _, hevent, _⟩
    · exact hsame
    · cases hevent
  exact Quiet.of_eq rfl hstarts rfl rfl

theorem quiet_withCleanUp {party : Party} {c : CleanUp} (hc : c.items = []) :
    Quiet s (s.withCleanUp party (some c)) := by
  refine ⟨fun h => h, fun _ h => h, rfl, fun party' c' hc' => ?_, fun _ hp => hp⟩
  by_cases heq : party' = party
  · subst heq
    simp only [State.withCleanUp, Function.update_self, Option.some.injEq] at hc'
    exact .inr (hc' ▸ hc)
  · simp only [State.withCleanUp, Function.update_of_ne heq] at hc'
    exact .inl hc'

theorem Invariant.quiet {h : History} {event : Event} (hinv : Invariant h)
    (hquiet : Quiet h.state (step h.state event)) (hplanning : planning h.state event = none)
    (hlooks : looks h.state event = false) : Invariant (h.step event) := by
  refine ⟨hquiet.names hinv.names, fun party c hc item hitem => ?_, fun p hp => ?_⟩
  · simp only [History.step, hplanning]
    rcases hquiet.cleanUps party c hc with hold | hnone
    · exact hinv.planned party c hold item hitem
    · rw [hnone] at hitem
      cases hitem
  · simp only [History.step, hlooks, Bool.false_eq_true, if_false]
    exact hinv.looked p (hquiet.stage p hp)

theorem Respects.of_quiet {h : History} {event : Event}
    (hquiet : Quiet h.state (step h.state event)) (htick : event.isTick = false) :
    Respects h event := by
  refine ⟨fun filename hbefore hafter => ?_, fun start hafter hbefore => ?_, ?_⟩
  · exact absurd (hquiet.kept filename hbefore) hafter
  · rw [hquiet.starts] at hafter
    exact absurd hafter hbefore
  · rintro m p rfl
    cases htick

theorem good_of_quiet {h : History} {event : Event} (hinv : Invariant h)
    (hquiet : Quiet h.state (step h.state event)) (hplanning : planning h.state event = none)
    (htick : event.isTick = false) : Invariant (h.step event) ∧ Respects h event := by
  have hlooks : looks h.state event = false := by
    cases event with
    | tick m => cases htick
    | _ => rfl
  exact ⟨hinv.quiet hquiet hplanning hlooks, Respects.of_quiet hquiet htick⟩

/-! ### A step of a clean-up -/

theorem cleans_of_none {party : Party} {a : Access} (hnone : s.cleanUps party = none) :
    cleans party a s = s := by
  unfold cleans
  rw [hnone]

theorem cleans_spec {party : Party} {a : Access} {c : CleanUp}
    (hc : s.cleanUps party = some c) :
    (cleans party a s).archives = (c.next a s).1.archives ∧ (cleans party a s).gate = s.gate ∧
      (cleans party a s).cleanUps = Function.update s.cleanUps party (c.next a s).2 ∧
      ((cleans party a s).stage = s.stage ∨ (cleans party a s).stage = none) := by
  have hcleaned := cleaned_next a s c
  unfold cleans
  rw [hc]
  simp only
  rcases hnext : c.next a s with ⟨s', c'⟩
  rw [hnext] at hcleaned
  have hgate := hcleaned.same.gate
  have hcleanUps := hcleaned.same.cleanUps
  have hstage := hcleaned.same.stage
  simp only at hgate hcleanUps hstage
  cases c' with
  | some c' => simp [State.withCleanUp, hgate, hcleanUps, hstage]
  | none =>
    simp only [State.withCleanUp]
    split
    · simp [hgate, hcleanUps]
    · simp [hgate, hcleanUps, hstage]

theorem planning_cleans {party : Party} {a : Access} {c : CleanUp} {kind : String}
    (hc : s.cleanUps party = some c) (hdue : c.due = some kind) (hitems : c.items = [])
    (hpolicy : autoPolicy kind a.now s = some q) :
    planning s (.cleans party a) = some (party, q) := by
  rcases c with ⟨entries, due, items⟩
  cases hdue
  cases hitems
  simp [planning, hc, hpolicy]

theorem planning_party {party party' : Party} {a : Access}
    (h : planning s (.cleans party a) = some (party', q)) :
    party' = party ∧ ∃ c, s.cleanUps party = some c ∧ c.items = [] := by
  simp only [planning] at h
  split at h
  · rename_i entries kind hc
    rcases Option.map_eq_some_iff.mp h with ⟨q', -, heq⟩
    cases heq
    exact ⟨rfl, _, hc, rfl⟩
  · cases h

theorem good_cleans {h : History} (hinv : Invariant h) (party : Party) (a : Access) :
    Invariant (h.step (.cleans party a)) ∧ Respects h (.cleans party a) := by
  cases hc : h.state.cleanUps party with
  | none =>
    have hplanning : planning h.state (.cleans party a) = none := by
      simp only [planning, hc]
    have hstep : step h.state (.cleans party a) = h.state := cleans_of_none hc
    exact good_of_quiet hinv (Quiet.of_same hstep) hplanning rfl
  | some c =>
    have hcleaned := cleaned_next a h.state c
    obtain ⟨harchives, hgate, hcleanUps, hstage⟩ := cleans_spec (a := a) hc
    refine ⟨⟨?_, ?_, ?_⟩, ⟨?_, ?_, ?_⟩⟩
    · show ((cleans party a h.state).archives.map (·.filename)).Nodup
      rw [harchives]
      rcases hcleaned.archives with hsame | ⟨item, -, hdeleted⟩
      · rw [hsame]
        exact hinv.names
      · rw [hdeleted]
        exact hinv.names.sublist ((deleteArchive_sublist _ _ _).map _)
    · intro party' c' hc' item hitem
      replace hc' : Function.update h.state.cleanUps party (c.next a h.state).2 party' =
          some c' := by
        rw [← hcleanUps]
        exact hc'
      by_cases heq : party' = party
      · subst heq
        rw [Function.update_self] at hc'
        rcases hcleaned.items c' hc' item hitem with hold | ⟨kind, q, hdue, hnone, hpolicy, hmem⟩
        -- an item that was planned before, by the plan that is still noted
        · rcases hinv.planned party' c hc item hold with ⟨q, listed, hplans, hexpired⟩
          refine ⟨q, listed, ?_, hexpired⟩
          simp only [History.step]
          -- a step that plans has nothing left to delete
          cases hplanning : planning h.state (.cleans party' a) with
          | none => exact hplans
          | some made =>
            rcases planning_party hplanning with ⟨-, c'', hc'', hnone⟩
            cases hc.symm.trans hc''
            rw [hnone] at hold
            cases hold
        · refine ⟨q, h.state.archives, ?_, expired_of_delete hinv.names hmem⟩
          simp only [History.step, planning_cleans hc hdue hnone hpolicy, Function.update_self]
      · rw [Function.update_of_ne heq] at hc'
        rcases hinv.planned party' c' hc' item hitem with ⟨q, listed, hplans, hexpired⟩
        refine ⟨q, listed, ?_, hexpired⟩
        simp only [History.step]
        cases hplanning : planning h.state (.cleans party a) with
        | none => exact hplans
        | some made =>
          rw [← hplans]
          exact Function.update_of_ne ((planning_party hplanning).1 ▸ heq) _ _
    · intro p hp
      show Listed h.looked p.filename
      replace hp : (cleans party a h.state).stage = some (.starting p) := hp
      rcases hstage with hsame | hnone
      · exact hinv.looked p (hsame ▸ hp)
      · rw [hnone] at hp
        cases hp
    · intro filename hbefore hafter
      replace hafter : ¬ Listed (cleans party a h.state).archives filename := hafter
      rw [harchives] at hafter
      rcases hcleaned.archives with hsame | ⟨item, hitem, hdeleted⟩
      · rw [hsame] at hafter
        exact absurd hbefore hafter
      · rw [hdeleted] at hafter
        rcases lost_of_deleteArchive hbefore hafter with ⟨hdeletable, hname⟩
        rcases hinv.planned party c hc item hitem with ⟨q, listed, hplans, hexpired⟩
        exact ⟨hdeletable, party, a, q, listed, item.archive, rfl, hplans, hname, hexpired⟩
    · intro start hafter hbefore
      replace hafter : start ∈ (cleans party a h.state).gate.starts := hafter
      rw [hgate] at hafter
      exact absurd hafter hbefore
    · intro m p hevent
      cases hevent

theorem good_requested {h : History} (hinv : Invariant h) (n : ℕ) (q : Policy) :
    Invariant (h.step (.requested n q)) ∧ Respects h (.requested n q) := by
  by_cases hfree : free h.state (.request n) = true
  · have hstep : step h.state (.requested n q) = h.state.withCleanUp (.request n)
        (some { items := (backupRetentionPlan q h.state.archives).delete }) := if_pos hfree
    have hplanning : planning h.state (.requested n q) = some (.request n, q) := if_pos hfree
    refine ⟨⟨?_, ?_, ?_⟩, ⟨?_, ?_, ?_⟩⟩
    · simp only [History.step, hstep]
      exact hinv.names
    · intro party c hc item hitem
      simp only [History.step, hstep, hplanning] at hc ⊢
      by_cases heq : party = .request n
      · subst heq
        simp only [State.withCleanUp, Function.update_self, Option.some.injEq] at hc ⊢
        subst hc
        exact ⟨q, _, rfl, expired_of_delete hinv.names hitem⟩
      · simp only [State.withCleanUp, Function.update_of_ne heq] at hc ⊢
        exact hinv.planned party c hc item hitem
    · intro p hp
      simp only [History.step, hstep] at hp
      exact hinv.looked p hp
    · intro filename hbefore hafter
      rw [hstep] at hafter
      exact absurd hbefore hafter
    · intro start hafter hbefore
      rw [hstep] at hafter
      exact absurd hafter hbefore
    · intro m p hevent
      cases hevent
  · have hstep : step h.state (.requested n q) = h.state := if_neg hfree
    have hplanning : planning h.state (.requested n q) = none := if_neg hfree
    exact good_of_quiet hinv (Quiet.of_same hstep) hplanning rfl

/-! ### A step of a tick -/

theorem listed_of_archiveClear {m : Tick} {archives : List BackupArchive}
    (h : RestoreGate.archiveClear (m.targetListed.map fun _ => archives) m.pathFound m.checks
      filename = true) : Listed archives filename := by
  have htarget := RestoreGate.targetVerified_of_archiveClear
    (m := { m with targetListed := m.targetListed.map fun _ => archives }) h
  rcases htarget with ⟨listed, checks, archive, check, hlisted, -, hfind, -⟩
  rcases Option.map_eq_some_iff.mp hlisted with ⟨-, -, rfl⟩
  exact ⟨archive, List.mem_of_find?_eq_some hfind, by simpa using List.find?_some hfind⟩

structure Ticked (s : State) (stage : Stage) (s' : State) : Prop where
  archives : s'.archives = s.archives
  cleanUps : s'.cleanUps = s.cleanUps
  starts : s'.gate.starts = s.gate.starts ∨ ∃ p, stage = .starting p ∧
    s'.gate.starts = s.gate.starts ++ [(p.operationId, p.filename)]
  next : ∀ p, s'.stage = some (.starting p) → stage = .looking p ∧ Listed s.archives p.filename

theorem ticked_ends {stage : Stage} {gate : RestoreGate.State}
    (hstarts : gate.starts = s.gate.starts) : Ticked s stage (s.ends gate) :=
  ⟨rfl, rfl, .inl hstarts, nofun⟩

theorem ticked_next {stage stage' : Stage}
    (hnext : ∀ p, stage' = .starting p → stage = .looking p ∧ Listed s.archives p.filename) :
    Ticked s stage { s with stage := some stage' } :=
  ⟨rfl, rfl, .inl rfl, fun p hp => hnext p (Option.some.inj hp)⟩

theorem ticked_tickNext (m : Tick) (s : State) (stage : Stage) :
    Ticked s stage (tickNext m s stage) := by
  cases stage with
  | scanning =>
    simp only [tickNext]
    split
    · rcases RestoreGate.tickRestoreOperation_eq m s.gate with ⟨o, hoperation⟩
      rw [hoperation]
      exact ticked_ends rfl
    · split_ifs
      · exact ticked_ends rfl
      · exact ticked_ends rfl
      · exact ticked_ends rfl
      · exact ticked_ends rfl
      · exact ticked_next nofun
  | listing p | validating p archive =>
    simp only [tickNext]
    split
    · exact ticked_ends rfl
    · exact ticked_next nofun
  | showing p archive check =>
    simp only [tickNext]
    split
    · exact ticked_ends rfl
    · split_ifs
      · exact ticked_next nofun
      · exact ticked_ends rfl
  | looking p =>
    simp only [tickNext]
    split_ifs with hclear
    · refine ticked_next ?_
      rintro _ ⟨⟩
      exact ⟨rfl, listed_of_archiveClear hclear⟩
    · exact ticked_ends rfl
  | starting p =>
    simp only [tickNext]
    rcases RestoreGate.startRestoreAfterBackup_cases m p s.gate with ⟨o, hgone⟩ | ⟨o, hstart⟩
    · rw [hgone]
      exact ticked_ends rfl
    · rw [hstart]
      exact ⟨rfl, rfl, .inr ⟨p, rfl, rfl⟩, nofun⟩

theorem good_tick {h : History} (hinv : Invariant h) (m : Tick) :
    Invariant (h.step (.tick m)) ∧ Respects h (.tick m) := by
  have hplanning : planning h.state (.tick m) = none := rfl
  -- a tick that stands still keeps everything, unless it was about to look
  have hidle : step h.state (.tick m) = h.state →
      (∀ p, h.state.stage = some (.looking p) → free h.state .coordinator = false) →
      Invariant (h.step (.tick m)) ∧ Respects h (.tick m) := by
    intro hstep hbusy
    refine ⟨⟨?_, ?_, ?_⟩, ⟨?_, ?_, ?_⟩⟩
    · simpa only [History.step, hstep] using hinv.names
    · simpa only [History.step, hstep, hplanning] using hinv.planned
    · intro p hp
      simp only [History.step, hstep] at hp
      have hlooks : looks h.state (.tick m) = false := by simp [looks, hp]
      simpa [History.step, hlooks] using hinv.looked p hp
    · intro filename hbefore hafter
      rw [hstep] at hafter
      exact absurd hbefore hafter
    · intro start hafter hbefore
      rw [hstep] at hafter
      exact absurd hafter hbefore
    · intro m' p _ hstage hfree
      rw [hbusy p hstage] at hfree
      cases hfree
  cases hstage : h.state.stage with
  | none =>
    refine hidle ?_ ?_
    · simp only [step, tickPendingRestore, hstage]
    · intro p hp
      rw [hstage] at hp
      cases hp
  | some stage =>
    cases hfree : free h.state .coordinator with
    | false =>
      refine hidle ?_ fun _ _ => hfree
      simp [step, tickPendingRestore, hstage, hfree]
    | true =>
      have hstep : step h.state (.tick m) = tickNext m h.state stage := by
        simp [step, tickPendingRestore, hstage, hfree]
      have hticked := ticked_tickNext m h.state stage
      refine ⟨⟨?_, ?_, ?_⟩, ⟨?_, ?_, ?_⟩⟩
      · simpa only [History.step, hstep, hticked.archives] using hinv.names
      · simpa only [History.step, hstep, hplanning, hticked.cleanUps] using hinv.planned
      · intro p hp
        simp only [History.step, hstep] at hp
        rcases hticked.next p hp with ⟨rfl, hlisted⟩
        simpa [History.step, looks, hstage] using hlisted
      · intro filename hbefore hafter
        rw [hstep, hticked.archives] at hafter
        exact absurd hbefore hafter
      · intro start hafter hbefore
        rw [hstep] at hafter
        rcases hticked.starts with hsame | ⟨p, rfl, hstarts⟩
        · rw [hsame] at hafter
          exact absurd hafter hbefore
        · rw [hstarts] at hafter
          rcases List.mem_append.mp hafter with hafter | hafter
          · exact absurd hafter hbefore
          · rw [List.mem_singleton.mp hafter]
            exact hinv.looked p hstage
      -- the target is gone at the second look, so that this look gives the restore up
      · rintro _ p ⟨⟩ hlooking _ hlost
        cases hstage.symm.trans hlooking
        have hclear : ¬ RestoreGate.archiveClear (m.targetListed.map fun _ => h.state.archives)
            m.pathFound m.checks p.filename = true := fun hclear =>
          hlost (listed_of_archiveClear hclear)
        rw [hstep, tickNext, if_neg hclear]
        exact ⟨rfl, rfl⟩

theorem good {h : History} (hinv : Invariant h) (event : Event) :
    Invariant (h.step event) ∧ Respects h event := by
  cases event with
  | trigger id now fate => exact good_of_quiet hinv (quiet_trigger id now fate _) rfl rfl
  | backupEnded => exact good_of_quiet hinv (Quiet.of_eq rfl rfl rfl rfl) rfl rfl
  | archived archive => exact good_of_quiet hinv (quiet_archived archive) rfl rfl
  | edit profiles => exact good_of_quiet hinv (Quiet.of_eq rfl rfl rfl rfl) rfl rfl
  | requested n q => exact good_requested hinv n q
  | polled n =>
    refine good_of_quiet hinv ?_ rfl rfl
    simp only [step]
    split
    · exact quiet_withCleanUp rfl
    · exact Quiet.of_eq rfl rfl rfl rfl
  | cleans party a => exact good_cleans hinv party a
  | restoreBackup name r => exact good_of_quiet hinv (quiet_restoreBackup name r _) rfl rfl
  | tickBegins =>
    refine good_of_quiet hinv ?_ rfl rfl
    simp only [step]
    split
    · have hquiet : Quiet h.state
          (h.state.withCleanUp .coordinator (some { entries := watched h.state })) :=
        quiet_withCleanUp rfl
      exact ⟨hquiet.names, hquiet.kept, rfl, hquiet.cleanUps, fun p hp => nomatch hp⟩
    · exact Quiet.of_eq rfl rfl rfl rfl
  | tick m => exact good_tick hinv m
  | safetyEnded exitCode => exact good_of_quiet hinv (quiet_withGate rfl) rfl rfl
  | workerEnded exitCode => exact good_of_quiet hinv (quiet_withGate rfl) rfl rfl
  | dismiss => exact good_of_quiet hinv (quiet_withGate rfl) rfl rfl
  | serviceRestarted =>
    refine good_of_quiet hinv ?_ rfl rfl
    exact ⟨fun hnames => hnames, fun _ hlisted => hlisted, rfl, nofun, nofun⟩

/-! ### Without the others -/

theorem run_cleans {party : Party} {a : Access} {entries : List (String × String)}
    {due : Option String} {items : List BackupRetentionItem}
    (hc : s.cleanUps party = some ⟨entries, due, items⟩) (hreturns : a.returns = true) :
    (run step s (List.replicate items.length (.cleans party a))).archives =
      deletePlanned (fun _ => a.unlinks) items s.archives := by
  induction items generalizing s with
  | nil => rfl
  | cons item items ih =>
    rw [List.length_cons, List.replicate_succ, run_cons]
    have hstep : step s (.cleans party a) = { s with
        archives := deleteArchive (fun _ => a.unlinks) s.archives item.archive.filename
        cleanUps := Function.update s.cleanUps party (some ⟨entries, due, items⟩) } := by
      simp [step, cleans, hc, CleanUp.next, hreturns, State.withCleanUp]
    rw [hstep, ih (Function.update_self ..)]
    rfl

theorem run_ended (m : Tick) (hstage : s.stage = none) (n : ℕ) :
    run step s (List.replicate n (.tick m)) = s := by
  have hstep : step s (.tick m) = s := by simp only [step, tickPendingRestore, hstage]
  induction n with
  | zero => rfl
  | succ n ih => rw [List.replicate_succ, run_cons, hstep, ih]

theorem run_tick (m : Tick) (hstage : s.stage = some .scanning)
    (hfree : free s .coordinator = true) (hscans : m.scans = true) :
    run step s (List.replicate 6 (.tick m)) =
      s.ends (RestoreGate.tickPendingRestore
        { m with
          listed := m.listed.map fun _ => s.archives
          listedAfter := m.listedAfter.map fun _ => s.archives
          targetListed := m.targetListed.map fun _ => s.archives } s.gate) := by
  -- each stage takes one of the six steps, and what ends the tick leaves the others idle
  have hnext : ∀ (s' : State) {stage : Stage} (n : ℕ), s'.stage = some stage →
      s'.cleanUps = s.cleanUps → run step s' (List.replicate (n + 1) (.tick m)) =
        run step (tickNext m s' stage) (List.replicate n (.tick m)) := by
    intro s' stage n hstage' hcleanUps
    have hfree' : free s' .coordinator = true := by rw [free, hcleanUps, ← free, hfree]
    rw [List.replicate_succ, run_cons]
    simp only [step, tickPendingRestore, hstage', hfree', if_true]
  rw [hnext s 5 hstage rfl, RestoreGate.tickPendingRestore, if_neg (by simp [hscans])]
  simp only [tickNext, RestoreGate.validateNewSafetyArchive]
  cases s.gate.pending with
  | none => exact run_ended m rfl 5
  | some p =>
    simp only
    by_cases hdeadline : p.deadline ≤ m.now
    · simp only [hdeadline, if_true]
      exact run_ended m rfl 5
    by_cases hsafety : m.safetyReadable = false ∨ s.gate.safety.running = true
    · simp only [hdeadline, hsafety, if_true, if_false]
      exact run_ended m rfl 5
    by_cases hexit : m.exitReadable = false
    · simp only [hdeadline, hsafety, hexit, if_true, if_false]
      exact run_ended m rfl 5
    by_cases hcode : s.gate.safety.exitCode ≠ some 0
    · simp only [hdeadline, hsafety, hexit, if_pos hcode, if_false, Bool.true_eq_false]
      exact run_ended m rfl 5
    simp only [hdeadline, hsafety, hexit, if_neg hcode, if_false, Bool.true_eq_false]
    refine (hnext { s with stage := some (.listing p) } 4 rfl rfl).trans ?_
    simp only [tickNext]
    cases m.listed with
    | none => exact run_ended m rfl 4
    | some listed =>
      simp only [Option.bind_some, Option.map_some, Option.bind_eq_bind]
      cases RestoreGate.newSafetyArchive p s.archives with
      | none => exact run_ended m rfl 4
      | some archive =>
        refine (hnext { s with stage := some (.validating p archive) } 3 rfl rfl).trans ?_
        simp only [tickNext, Option.bind_some]
        cases m.validate archive.filename with
        | none => exact run_ended m rfl 3
        | some check =>
          refine (hnext { s with stage := some (.showing p archive check) } 2 rfl rfl).trans ?_
          simp only [tickNext, Option.bind_some]
          cases m.listedAfter with
          | none => exact run_ended m rfl 2
          | some shown =>
            simp only [Option.bind_some, Option.map_some]
            cases findArchive s.archives archive.filename with
            | none => exact run_ended m rfl 2
            | some current =>
              simp only [Option.bind_some]
              by_cases hconfirms : RestoreGate.Confirms check current
              · simp only [if_pos hconfirms]
                refine (hnext { s with stage := some (.looking p) } 1 rfl rfl).trans ?_
                simp only [tickNext]
                split_ifs
                · exact hnext { s with stage := some (.starting p) } 0 rfl rfl
                · exact run_ended m rfl 1
              · simp only [if_neg hconfirms]
                exact run_ended m rfl 2

end

end BackupRetention
