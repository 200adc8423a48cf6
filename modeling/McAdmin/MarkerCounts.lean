import McAdmin.LegacyFolder
import McAdmin.MarkerTruth

/-!
# As many markers as updates

What is counted along the trace is counted along the processes, and each of them has launched one
update at most, and entered it once at most.
-/

namespace Markers

open AdminService Calls McAdmin ServiceCore

variable {cfg : Config}

/-! ### The markers of updates -/

def isUpdateEntry (entry : AuditEntry) : Bool :=
  entry.outcome == "allowed" && marker entry.action entry.detail == some "update"

theorem countP_marks (since : Instant) (entries : List AuditEntry) :
    (marks since entries).countP (·.2 == "update") =
      entries.countP fun entry => decide (since ≤ entry.timestamp) && isUpdateEntry entry := by
  unfold marks
  rw [List.countP_filterMap]
  apply List.countP_congr
  intro entry _
  by_cases hout : entry.timestamp < since ∨ entry.outcome ≠ "allowed"
  · rw [if_pos hout]
    rcases hout with hbefore | houtcome
    · simp [hbefore]
    · simp [isUpdateEntry, houtcome]
  · rw [if_neg hout]
    rw [not_or, not_lt, not_not] at hout
    cases hmarker : marker entry.action entry.detail with
    | none => simp [isUpdateEntry, hmarker]
    | some kind => simp [isUpdateEntry, hmarker, hout.1, hout.2]

theorem countP_marks_le (since : Instant) (limit : ℕ) (journal : List AuditEntry) :
    (marks since (recent limit journal)).countP (·.2 == "update") ≤
      journal.countP isUpdateEntry := by
  rw [countP_marks]
  calc (recent limit journal).countP
        (fun entry => decide (since ≤ entry.timestamp) && isUpdateEntry entry)
      ≤ (recent limit journal).countP isUpdateEntry :=
        List.countP_mono_left fun entry _ h => (Bool.and_eq_true_iff.mp h).2
    _ ≤ journal.countP isUpdateEntry := (List.drop_sublist _ _).countP_le

theorem countP_marks_eq {since : Instant} {limit : ℕ} {journal : List AuditEntry}
    (hlength : journal.length ≤ limit) (hsince : ∀ entry ∈ journal, since ≤ entry.timestamp) :
    (marks since (recent limit journal)).countP (·.2 == "update") =
      journal.countP isUpdateEntry := by
  rw [countP_marks, recent, Nat.sub_eq_zero_of_le hlength, List.drop_zero]
  apply List.countP_congr
  intro entry hentry
  simp [hsince entry hentry]

theorem entryOf_isUpdate (m : MadeCall) :
    ((entryOf m).map isUpdateEntry).getD false = isUpdateMarker m := by
  obtain ⟨c, answer⟩ := m
  match c, answer with
  | .now, _ => rfl
  | .port _, _ => rfl
  | .record _, .error _ => rfl
  | .record _, .ok _ => rfl

theorem Inv.countP_journal {w : World} (h : Inv w) :
    w.state.journal.countP isUpdateEntry = w.trace.countP fun r => isUpdateMarker r.toMade := by
  rw [h.journal, List.countP_filterMap]
  apply List.countP_congr
  intro r _
  rw [entryOf_isUpdate]

/-! ### The processes -/

theorem countP_trace {f : MadeCall → Bool} {p : Pool}
    (h : Balanced (fun s : Step State (Call Port) (Answer PortAnswer) Failure Choice =>
      f s.toMade) p) :
    p.world.trace.countP (fun r => f r.toMade) =
      (p.processes.map fun q => (made q.past).countP f).sum := by
  have hsteps : p.world.trace.countP (fun r => f r.toMade) =
      p.world.steps.countP fun s => f s.toMade := by
    rw [World.steps, List.countP_map]
    rfl
  have hpast : (p.processes.map fun q => (made q.past).countP f) =
      p.processes.map fun q => q.past.countP fun s => f s.toMade :=
    List.map_congr_left fun q _ => List.countP_map
  rw [hsteps, hpast]
  exact h

structure Accounted (q : Process) : Prop where
  tally : (made q.past).countP isUpdateMarker ≤ (made q.past).countP isLaunch
  once : (made q.past).countP isLaunch ≤ 1
  settled : q.rest = none → (made q.past).countP isLaunch ≤ (made q.past).countP isUpdateMarker ∨
    (made q.past).any failsToWrite = true

theorem excuse_cases {m : MadeCall} (h : isExcuse m = true) :
    failsToWrite m = true ∨ plain m.call = false ∨ ∃ operation f,
      m = ⟨.port (.memory (.setUpdateOperation operation)), .error f⟩ := by
  unfold isExcuse at h
  split at h
  · exact .inl rfl
  · exact .inl rfl
  · exact .inr (.inr ⟨_, _, rfl⟩)
  · exact .inr (.inl (by simp [plain, h]))
  · exact absurd h (by simp)

theorem respond_set {choice : Choice} {s : State} {c : Call Port}
    {operation : Option UpdateOperation} {f : Failure} :
    (⟨c, (respond choice c s).1⟩ : MadeCall) ≠
      ⟨.port (.memory (.setUpdateOperation operation)), .error f⟩ := by
  intro h
  obtain ⟨rfl, hanswer⟩ := Made.mk.inj h
  exact absurd (eq_of_heq hanswer) (by simp [respond, access])

theorem failsToWrite_of_isExcuse {w : World} {k : Caller State Request}
    {past : List (Step State (Call Port) (Answer PortAnswer) Failure Choice)}
    (hcredible : Credible (server cfg) Any Growth.none w k past)
    (hplain : ∀ s ∈ past, plain s.call = true) (h : (made past).any isExcuse = true) :
    (made past).any failsToWrite = true := by
  rw [List.any_eq_true] at h ⊢
  obtain ⟨m, hm, hexcuse⟩ := h
  obtain ⟨s, hs, rfl⟩ := List.mem_map.mp hm
  rcases excuse_cases hexcuse with hfails | hmisleads | ⟨operation, f, hset⟩
  · exact ⟨s.toMade, hm, hfails⟩
  · exact absurd (hplain s hs) (by simp [hmisleads])
  · have hanswer := congrArg Step.toMade (hcredible.answered s hs).2
    exact absurd (hanswer.symm.trans hset) respond_set

theorem isEntered_made {past : List (Step State (Call Port) (Answer PortAnswer) Failure Choice)}
    (hplain : ∀ s ∈ past, plain s.call = true) :
    (made past).countP isEntered = (made past).countP isUpdateMarker := by
  apply List.countP_congr
  intro m hm
  obtain ⟨s, hs, rfl⟩ := List.mem_map.mp hm
  rw [isEntered, hplain s hs, Bool.and_true]

theorem Accounted.of_sound {p : Pool} (h : p.Sound (server cfg) duty Any Growth.none)
    (hconcluded : Concluded duty p) (hordered : Ordered Justified p.world.trace) {q : Process}
    (hq : q ∈ p.processes) : Accounted q := by
  have hcredible := (h.processes q hq).credible
  have hplain : ∀ s ∈ q.past, plain s.call = true := by
    intro s hs
    obtain ⟨r, hr, rfl, -⟩ := hcredible.recorded s hs
    obtain ⟨before, after, -, hjustified⟩ := justified_of_mem hordered hr
    exact hjustified.plain
  have htally : Tally (made q.past) := by
    cases hrest : q.rest with
    | none =>
      obtain ⟨result, hresult⟩ := hconcluded q hq hrest
      exact hresult.1
    | some rest =>
      have hobeys := (h.processes q hq).rest rest hrest
      match rest with
      | .pure a => exact hobeys.1
      | .throw e => exact hobeys.1
      | .call c next => exact hobeys.1.2
  have hmarkers := isEntered_made hplain
  refine ⟨hmarkers ▸ htally.entered, htally.once, fun hover => ?_⟩
  obtain ⟨result, hresult⟩ := hconcluded q hq hover
  exact hresult.2.imp (fun h => hmarkers ▸ h) (failsToWrite_of_isExcuse hcredible hplain)

theorem any_iff_countP {f : MadeCall → Bool} {past : List MadeCall} :
    past.any f = true ↔ 0 < past.countP f := by
  rw [List.any_eq_true, List.countP_pos_iff]

theorem Accounted.owes_eq {q : Process} (h : Accounted q) :
    (made q.past).countP isUpdateMarker + (if owes q = true then 1 else 0) =
      (made q.past).countP isLaunch := by
  have howes : owes q = true ↔ 0 < (made q.past).countP isLaunch ∧
      ¬0 < (made q.past).countP isUpdateMarker := by
    rw [← any_iff_countP, ← any_iff_countP]
    simp [owes]
  have htally := h.tally
  have honce := h.once
  by_cases how : owes q = true
  · rw [if_pos how]
    have hcounts := howes.mp how
    omega
  · rw [if_neg how]
    have hcounts := mt howes.mpr how
    omega

theorem sum_add_countP {α : Type} {f g : α → ℕ} {b : α → Bool} {l : List α}
    (h : ∀ a ∈ l, f a + (if b a = true then 1 else 0) = g a) :
    (l.map f).sum + l.countP b = (l.map g).sum := by
  induction l with
  | nil => rfl
  | cons a l ih =>
    have hrest := ih fun a' ha' => h a' (List.mem_cons_of_mem _ ha')
    have hfirst := h a List.mem_cons_self
    simp only [List.map_cons, List.sum_cons, List.countP_cons]
    omega

/-! ### Every run -/

/-- What the two pages tell of a run is true while no entry misleads. -/
theorem truthful_run (cfg : Config) {events : List (Event Request Choice)}
    (h : Runs.Along (server cfg).step (Meets (fun _ => True) Plain) (Pool.start {}) events) :
    Truthful (Runs.run (server cfg).step (Pool.start {}) events) := by
  obtain ⟨hsound, hinv⟩ := run_invariant service_does grows_none Inv
    (fun w w' _ hinv hmove => hinv.move hmove) inv_start h
  have hconcluded := concluded_run service_does grows_none h
  have hmarkers := countP_trace (balanced_run (m := server cfg)
    (fun s => isUpdateMarker s.toMade) {} events)
  have hlaunches := countP_trace (balanced_run (m := server cfg)
    (fun s => isLaunch s.toMade) {} events)
  set p := Runs.run (server cfg).step (Pool.start {}) events
  have haccounted (q : Process) (hq : q ∈ p.processes) : Accounted q :=
    .of_sound hsound hconcluded hinv.ordered hq
  -- each launch has its entry or a request that still owes it
  have htotal : p.world.state.journal.countP isUpdateEntry + p.processes.countP owes =
      launches p.world.trace := by
    rw [hinv.countP_journal, hmarkers, launches, hlaunches]
    exact sum_add_countP fun q hq => (haccounted q hq).owes_eq
  refine ⟨?_, ?_, ?_, ?_, ?_, ?_⟩
  · intro user since events hevents t hmem
    exact hinv.mark (by decide) hevents hmem
  · intro user since events hevents t hmem
    exact hinv.mark (by decide) hevents hmem
  · intro user since events hevents
    rw [performanceEvents_some hevents]
    have hle := countP_marks_le since perfEventScanLimit p.world.state.journal
    omega
  · intro user since events hevents hlength hsince
    rw [performanceEvents_some hevents, countP_marks_eq hlength hsince]
    exact htotal
  · intro q hq hover howes
    have haccount := haccounted q hq
    have heq := haccount.owes_eq
    rw [if_pos howes] at heq
    exact (haccount.settled hover).resolve_left (by omega)
  · intro user found clock listed hlisted row hrow action haction
    exact hinv.corrective hlisted hrow haction

/-! ### Two runs -/

/-- A service with no more than it needs, in the first minutes of the epoch. -/
def smallConfig : Config where
  containerName := "minecraft"
  hasOpLevelsApply := false
  hasPendingOpLevels := false
  hasDoorman := false
  hasPendingMaintenance := false
  hasRecurringRestart := false
  hasScheduledMaintenance := false
  hasPendingRestore := false
  hasRestore := false
  hasArchiveChecks := false
  hasArchiveValidator := false
  hasWorkerIntegrity := false
  hasBackupProfiles := false
  hasProfileBackup := false
  hasAppUpdateState := false
  hasAppUpdateSnooze := false
  hasAppUpdater := false
  hasSelfImage := false
  worldDir := "/world"
  digits := LegacyImport.asciiDigits
  isoformat t :=
    if t = 0 then "1970-01-01T00:00:00+00:00" else "1970-01-01T00:05:00+00:00"
  dateText _ := "1970-01-01"
  strptime _ := none
  utcOffset _ := 0
  repr text := text
  floatText _ := "5.0"

def owner : User := ⟨"alice", "owner", [], true⟩

/-- The clock stands still, the journal can be written, and the server is out of reach. -/
def outOfReach : Choice
  | .now => .ok 0
  | .record _ => .ok ()
  | .port (.outside .restartContainer) => .ok ()
  | .port (.outside .startUpdater) => .ok ()
  | .port (.outside (.notify _)) => .ok ()
  | .port (.outside (.scheduleRestart ..)) => .ok ()
  | _ => .error ⟨.serverUnavailable, "RCON indisponible"⟩

def turns (order : List ℕ) : List (Event Request Choice) :=
  order.map fun i => .proceed i outOfReach

def twoLaunches : List (Event Request Choice) :=
  [.arrive (.restart owner), .arrive (.applyUpdate owner true)] ++
    turns [0, 1, 0, 1, 0, 1, 0, 1, 0, 1, 0, 1, 1, 1, 1, 1, 1]

theorem truthful_twoLaunches :
    performanceEvents owner 0
        (Runs.run (server smallConfig).step (Pool.start {}) twoLaunches).world.state.journal =
      some [(0, "restart"), (0, "update")] ∧
    Truthful (Runs.run (server smallConfig).step (Pool.start {}) twoLaunches) :=
  ⟨by decide +kernel, truthful_run smallConfig (by decide +kernel)⟩

def restarts : Call Port → Bool
  | .port (.outside .restartContainer) | .port (.memory (.beginOpLevels _)) => true
  | .port (.memory (.concludeOpLevels _)) => true
  | _ => false

theorem exists_restarts {before : List Written} {past : List (Step State (Call Port)
      (Answer PortAnswer) Failure Choice)} (h : RestartLaunched before (made past)) :
    ∃ s ∈ past, restarts s.call = true := by
  have hcall {m : MadeCall} (hm : m ∈ made past) (hrestarts : restarts m.call = true) :
      ∃ s ∈ past, restarts s.call = true := by
    obtain ⟨s, hs, rfl⟩ := List.mem_map.mp hm
    exact ⟨s, hs, hrestarts⟩
  cases h with
  | container hmem => exact hcall hmem rfl
  | levels op _ hmem => exact hcall hmem rfl
  | concluded op _ hmem _ => exact hcall hmem rfl

/-- A restart is planned for five minutes later, and nothing else is done. -/
def planned : List (Event Request Choice) :=
  .arrive (.scheduleRestart owner (.finite 5) false) :: turns [0, 0, 0, 0, 0, 0]

/-- A restart that is only planned has a marker on the graphs. -/
theorem not_truthful_planned :
    ¬Truthful (Runs.run (server smallConfig).step (Pool.start {}) planned) := by
  intro h
  have hmarker : performanceEvents owner 0
      (Runs.run (server smallConfig).step (Pool.start {}) planned).world.state.journal =
        some [(0, "restart")] := by decide +kernel
  have hnone : ∀ r ∈ (Runs.run (server smallConfig).step (Pool.start {}) planned).world.trace,
      ∀ s ∈ r.past, restarts s.call = false := by decide +kernel
  obtain ⟨entry, -, before, r, after, htrace, -, hcarried⟩ :=
    h.restarts owner 0 _ hmarker 0 (List.mem_singleton_self _)
  have hlaunched : RestartLaunched before (made r.past) := by
    generalize hkind : "restart" = kind at hcarried
    cases hcarried with
    | restart hlaunched => exact hlaunched
    | _ => exact absurd hkind (by decide)
  obtain ⟨s, hs, hrestarts⟩ := exists_restarts hlaunched
  have hr : r ∈ (Runs.run (server smallConfig).step (Pool.start {}) planned).world.trace := by
    rw [htrace]
    exact List.mem_append_right _ List.mem_cons_self
  exact absurd hrestarts (by simp [hnone r hr s hs])

end Markers
