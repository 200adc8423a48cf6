import McAdmin.AdminService
import McAdmin.CallRules

/-!
# The operations on the server

The operations run among the threads of the service, each call of a port one step, over the
containers they start and stop: the server and the three workers that start and stop it too.  The
workers go on by themselves between any two calls.  The service may end at any time and begin
again: what it keeps in memory is lost, and the containers go on.
-/

namespace ServiceOperations

open AdminService Calls McAdmin ServiceCore

/-! ### The state -/

/-- The worker of the op levels has stopped the server, or not yet or no longer. -/
inductive OpLevelsWorker where
  | serving
  | stopped
deriving DecidableEq

structure State where
  service : AdminService.State := {}
  pendingRestore : Option PendingRestore := none
  minecraft : Bool := true
  restoreWorker : Bool := false
  opLevels : Option OpLevelsWorker := none
  updater : Bool := false
  /-- `ops.json` was written while the server was up. -/
  writtenRunning : Bool := false
  /-- The restores accepted so far, and those no longer pending. -/
  accepted : ℕ := 0
  cleared : ℕ := 0
  /-- The launches of each worker so far. -/
  restoresLaunched : ℕ := 0
  levelsLaunched : ℕ := 0
  updatesLaunched : ℕ := 0

inductive Effect where
  | restart
  | start
  | stop
  | engage
  | release
  | launchLevels
  | launchUpdater
  | accept (pending : PendingRestore)
  | clear
  | launchRestore
deriving DecidableEq

/-- What a call does when it gets through; a worker that runs is not launched again. -/
def effect (cfg : Config) (s : State) : Call Port → Option Effect
  | .port (.outside .restartContainer) => some .restart
  | .port (.outside .startContainer) => some .start
  | .port (.outside (.stopContainer _)) => some .stop
  | .port (.outside (.engage _ _)) => some .engage
  | .port (.outside .release) => some .release
  | .port (.memory (.beginOpLevels _)) =>
    if cfg.hasOpLevelsApply && s.service.opLevelsOperation.isNone && s.opLevels.isNone then
      some .launchLevels
    else none
  | .port (.outside .startUpdater) => if s.updater then none else some .launchUpdater
  | .port (.outside (.setPendingRestore pending)) =>
    if cfg.hasPendingRestore then some (.accept pending) else none
  | .port (.outside .clearPendingRestore) => some .clear
  | .port (.outside (.startRestore _)) =>
    if cfg.hasRestore && !s.restoreWorker then some .launchRestore else none
  | _ => none

/-- The calls and what they do. -/
inductive Causes (cfg : Config) (s : State) : Call Port → Effect → Prop where
  | restart : Causes cfg s (.port (.outside .restartContainer)) .restart
  | start : Causes cfg s (.port (.outside .startContainer)) .start
  | stop (timeout : ℤ) : Causes cfg s (.port (.outside (.stopContainer timeout))) .stop
  | engage (motd kick : String) : Causes cfg s (.port (.outside (.engage motd kick))) .engage
  | release : Causes cfg s (.port (.outside .release)) .release
  | launchLevels (operation : OpLevelsOperation) : cfg.hasOpLevelsApply = true →
    Causes cfg s (.port (.memory (.beginOpLevels operation))) .launchLevels
  | launchUpdater : Causes cfg s (.port (.outside .startUpdater)) .launchUpdater
  | accept (pending : PendingRestore) : cfg.hasPendingRestore = true →
    Causes cfg s (.port (.outside (.setPendingRestore pending))) (.accept pending)
  | clear : Causes cfg s (.port (.outside .clearPendingRestore)) .clear
  | launchRestore (filename : String) : cfg.hasRestore = true →
    Causes cfg s (.port (.outside (.startRestore filename))) .launchRestore

theorem causes_of_effect {cfg : Config} {s : State} {c : Call Port} {e : Effect}
    (h : effect cfg s c = some e) : Causes cfg s c e := by
  unfold effect at h
  split at h
  case h_6 operation =>
    split_ifs at h with hlaunches
    obtain rfl := Option.some.inj h
    simp only [Bool.and_eq_true] at hlaunches
    exact .launchLevels operation hlaunches.1.1
  case h_7 =>
    split_ifs at h
    obtain rfl := Option.some.inj h
    exact .launchUpdater
  case h_8 pending =>
    split_ifs at h with hhas
    obtain rfl := Option.some.inj h
    exact .accept pending hhas
  case h_10 filename =>
    split_ifs at h with hlaunches
    obtain rfl := Option.some.inj h
    rw [Bool.and_eq_true] at hlaunches
    exact .launchRestore filename hlaunches.1
  case h_11 => cases h
  all_goals
    obtain rfl := Option.some.inj h
    constructor

/-- Where the doorman stands is up to the surroundings, as what it answers is. -/
def Effect.apply (s : State) : Effect → State
  | .restart => { s with minecraft := true }
  | .start => { s with minecraft := true }
  | .stop => { s with minecraft := false }
  | .engage => s
  | .release => s
  | .launchLevels =>
    { s with opLevels := some .serving, levelsLaunched := s.levelsLaunched + 1 }
  | .launchUpdater => { s with updater := true, updatesLaunched := s.updatesLaunched + 1 }
  | .accept pending => { s with pendingRestore := some pending, accepted := s.accepted + 1 }
  | .clear => { s with pendingRestore := none, cleared := s.cleared + 1 }
  | .launchRestore =>
    { s with restoreWorker := true, restoresLaunched := s.restoresLaunched + 1 }

/-! ### The surroundings -/

/-- What the workers do by themselves, and an end of the server. -/
inductive Happening where
  | opLevelsStops
  | opLevelsWrites
  | opLevelsStarts
  | opLevelsEnds
  | updaterRecreates
  | updaterEnds
  | restoreStops
  | restoreStarts
  | restoreEnds
  | minecraftStops

def happen (s : State) : Happening → State
  | .opLevelsStops =>
    if s.opLevels.isSome then { s with opLevels := some .stopped, minecraft := false } else s
  | .opLevelsWrites =>
    if s.opLevels = some .stopped then
      { s with writtenRunning := s.writtenRunning || s.minecraft }
    else s
  | .opLevelsStarts =>
    if s.opLevels = some .stopped then { s with opLevels := some .serving, minecraft := true }
    else s
  | .opLevelsEnds => { s with opLevels := none }
  | .updaterRecreates => if s.updater then { s with minecraft := true } else s
  | .updaterEnds => { s with updater := false }
  | .restoreStops => if s.restoreWorker then { s with minecraft := false } else s
  | .restoreStarts => if s.restoreWorker then { s with minecraft := true } else s
  | .restoreEnds => { s with restoreWorker := false }
  | .minecraftStops => { s with minecraft := false }

/-- What is answered to a call, whether a call that raises has done what it should have, and what
happens before the next one. -/
structure Surroundings where
  answers : Choice
  late : Bool := false
  happens : List Happening := []

/-- A state of the containers is what it is if it can be read, and a worker that runs is not
started. -/
def answers (choice : Choice) (s : State) : Choice
  | .port (.outside .getPendingRestore) =>
    (choice (.port (.outside .getPendingRestore))).map fun _ => s.pendingRestore
  | .port (.outside .restoreRunning) =>
    (choice (.port (.outside .restoreRunning))).map fun _ => s.restoreWorker
  | .port (.outside .opLevelsRunning) =>
    (choice (.port (.outside .opLevelsRunning))).map fun _ => s.opLevels.isSome
  | .port (.memory (.beginOpLevels operation)) =>
    if s.opLevels.isSome then
      .error ⟨.opLevelsUnavailable, "l'application des niveaux OP est déjà en cours"⟩
    else choice (.port (.memory (.beginOpLevels operation)))
  | .port (.outside .startUpdater) =>
    if s.updater then .error ⟨.updateUnavailable, "une mise à jour est déjà en cours"⟩
    else choice (.port (.outside .startUpdater))
  | .port (.outside (.startRestore filename)) =>
    if s.restoreWorker then .error ⟨.restoreUnavailable, "une restauration est déjà en cours"⟩
    else choice (.port (.outside (.startRestore filename)))
  | c => choice c

variable (cfg : Config)

def respond (χ : Surroundings) (c : Call Port) (s : State) :
    Except Failure (Answer PortAnswer c) × State :=
  let (answer, service) := AdminService.respond (answers χ.answers s) c s.service
  let called := { s with service }
  let done := if χ.late || answer.isOk then (effect cfg s c).elim called (·.apply called) else called
  (answer, χ.happens.foldl happen done)

def server :
    Server State (Call Port) (Answer PortAnswer) Failure Error Unit Request Surroundings where
  handler := Request.program cfg
  admits _ _ := true
  allows _ _ _ := true
  respond := respond cfg
  deliver _ _ s := s

/-! ### The lives of the service -/

abbrev World := Calls.World State (Call Port) (Answer PortAnswer) Failure Request Surroundings

abbrev Pool :=
  Calls.Pool State (Call Port) (Answer PortAnswer) Failure Error Unit Request Surroundings

abbrev Step := Calls.Step State (Call Port) (Answer PortAnswer) Failure Surroundings

abbrev Record := Calls.Record State (Call Port) (Answer PortAnswer) Failure Request Surroundings

abbrev Caller := Calls.Caller State Request

/-- What one process of the service is asked, and its threads' turns. -/
abbrev Life := List (Event Request Surroundings)

def reborn (s : State) : State :=
  { s with service := { journal := s.service.journal }, pendingRestore := none }

def live (s : State) (life : Life) : Pool :=
  Runs.run (server cfg).step (Calls.Pool.start (reborn s)) life

/-- What one process leaves to the next. -/
def leaves (s : State) (life : Life) : State := (live cfg s life).world.state

/-- Each call of a life meets the condition. -/
def Meeting (K : Condition State (Call Port) (Answer PortAnswer) Failure Request Surroundings)
    (s : State) (life : Life) : Prop :=
  Runs.Along (server cfg).step (Meets (fun _ => True) K) (Calls.Pool.start (reborn s)) life

instance (K : Condition State (Call Port) (Answer PortAnswer) Failure Request Surroundings)
    [∀ w k past c, Decidable (K w k past c)] (s : State) (life : Life) :
    Decidable (Meeting cfg K s life) := by
  unfold Meeting
  infer_instance

/-! ### What goes on while a count stands still -/

structure Kept (count : State → ℕ) (holds : State → Prop) (s s' : State) : Prop where
  le : count s ≤ count s'
  holds : count s = count s' → holds s → holds s'

section

variable {count : State → ℕ} {holds : State → Prop} {s s' s'' : State}

theorem Kept.refl (s : State) : Kept count holds s s := ⟨le_refl _, fun _ h => h⟩

theorem Kept.trans (h : Kept count holds s s') (h' : Kept count holds s' s'') :
    Kept count holds s s'' := by
  refine ⟨h.le.trans h'.le, fun heq hholds => ?_⟩
  have hfirst : count s = count s' := le_antisymm h.le (heq ▸ h'.le)
  exact h'.holds (hfirst.symm.trans heq) (h.holds hfirst hholds)

/-- What has not begun begins only by being counted. -/
structure Later (s s' : State) : Prop where
  accepted : Kept (·.accepted) (·.pendingRestore = none) s s'
  cleared : Kept (·.cleared) (·.pendingRestore.isSome = true) s s'
  restores : Kept (·.restoresLaunched) (·.restoreWorker = false) s s'
  levels : Kept (·.levelsLaunched) (·.opLevels = none) s s'
  updates : Kept (·.updatesLaunched) (·.updater = false) s s'

theorem Later.refl (s : State) : Later s s :=
  ⟨.refl s, .refl s, .refl s, .refl s, .refl s⟩

theorem Later.trans (h : Later s s') (h' : Later s' s'') : Later s s'' :=
  ⟨h.accepted.trans h'.accepted, h.cleared.trans h'.cleared, h.restores.trans h'.restores,
    h.levels.trans h'.levels, h.updates.trans h'.updates⟩

def growth : Growth State := ⟨Later, Later.refl, Later.trans⟩

/-- Nothing more is counted, and what is off stays off. -/
structure Off (s s' : State) : Prop where
  accepted : s.accepted = s'.accepted
  cleared : s.cleared = s'.cleared
  restoresLaunched : s.restoresLaunched = s'.restoresLaunched
  levelsLaunched : s.levelsLaunched = s'.levelsLaunched
  updatesLaunched : s.updatesLaunched = s'.updatesLaunched
  pendingRestore : s'.pendingRestore = s.pendingRestore
  restoreWorker : s.restoreWorker = false → s'.restoreWorker = false
  opLevels : s.opLevels = none → s'.opLevels = none
  updater : s.updater = false → s'.updater = false

theorem Off.refl (s : State) : Off s s := ⟨rfl, rfl, rfl, rfl, rfl, rfl, id, id, id⟩

theorem Off.later (h : Off s s') : Later s s' where
  accepted := ⟨h.accepted.le, fun _ hs => h.pendingRestore.trans hs⟩
  cleared := ⟨h.cleared.le, fun _ hs => h.pendingRestore.symm ▸ hs⟩
  restores := ⟨h.restoresLaunched.le, fun _ => h.restoreWorker⟩
  levels := ⟨h.levelsLaunched.le, fun _ => h.opLevels⟩
  updates := ⟨h.updatesLaunched.le, fun _ => h.updater⟩

theorem off_service (s : State) (service : AdminService.State) : Off s { s with service } :=
  ⟨rfl, rfl, rfl, rfl, rfl, rfl, id, id, id⟩

theorem off_happen (s : State) (h : Happening) : Off s (happen s h) := by
  cases h <;> simp only [happen]
  case opLevelsStops | opLevelsStarts =>
    split
    · rename_i hworker
      refine ⟨rfl, rfl, rfl, rfl, rfl, rfl, id, fun hnone => ?_, id⟩
      rw [hnone] at hworker
      cases hworker
    · exact Off.refl s
  case opLevelsWrites | updaterRecreates | restoreStops | restoreStarts =>
    split
    · exact ⟨rfl, rfl, rfl, rfl, rfl, rfl, id, id, id⟩
    · exact Off.refl s
  case opLevelsEnds => exact ⟨rfl, rfl, rfl, rfl, rfl, rfl, id, fun _ => rfl, id⟩
  case updaterEnds => exact ⟨rfl, rfl, rfl, rfl, rfl, rfl, id, id, fun _ => rfl⟩
  case restoreEnds => exact ⟨rfl, rfl, rfl, rfl, rfl, rfl, fun _ => rfl, id, id⟩
  case minecraftStops => exact ⟨rfl, rfl, rfl, rfl, rfl, rfl, id, id, id⟩

theorem off_apply {e : Effect} (s : State)
    (he : e = .restart ∨ e = .start ∨ e = .stop ∨ e = .engage ∨ e = .release) :
    Off s (e.apply s) := by
  rcases he with rfl | rfl | rfl | rfl | rfl
  all_goals exact ⟨rfl, rfl, rfl, rfl, rfl, rfl, id, id, id⟩

theorem kept_succ (h : count s' = count s + 1) : Kept count holds s s' :=
  ⟨by omega, fun heq => by omega⟩

theorem kept_same (hcount : count s = count s') (hholds : holds s → holds s') :
    Kept count holds s s' := ⟨hcount.le, fun _ => hholds⟩

theorem later_apply (s : State) (e : Effect) : Later s (e.apply s) := by
  cases e with
  | restart | start | stop | engage | release => exact (off_apply s (by simp)).later
  | launchLevels =>
    exact ⟨kept_same rfl id, kept_same rfl id, kept_same rfl id, kept_succ rfl, kept_same rfl id⟩
  | launchUpdater =>
    exact ⟨kept_same rfl id, kept_same rfl id, kept_same rfl id, kept_same rfl id, kept_succ rfl⟩
  | accept pending =>
    exact ⟨kept_succ rfl, kept_same rfl fun _ => rfl, kept_same rfl id, kept_same rfl id,
      kept_same rfl id⟩
  | clear =>
    exact ⟨kept_same rfl fun _ => rfl, kept_succ rfl, kept_same rfl id, kept_same rfl id,
      kept_same rfl id⟩
  | launchRestore =>
    exact ⟨kept_same rfl id, kept_same rfl id, kept_succ rfl, kept_same rfl id, kept_same rfl id⟩

end

/-! ### The calls -/

section

variable {cfg} {s : State} {χ : Surroundings} {c : Call Port}

theorem respond_keeps {I : State → Prop} (hservice : ∀ service, I { s with service })
    (heffect : ∀ e service, effect cfg s c = some e → I (e.apply { s with service }))
    (hhappen : ∀ s h, I s → I (happen s h)) : I (respond cfg χ c s).2 := by
  have hfold : ∀ (happens : List Happening) s, I s → I (happens.foldl happen s) := by
    intro happens
    induction happens with
    | nil => exact fun _ h => h
    | cons h happens ih => exact fun s hs => ih _ (hhappen s h hs)
  simp only [respond]
  apply hfold
  split
  · cases he : effect cfg s c with
    | none => exact hservice _
    | some e => exact heffect e _ he
  · exact hservice _

theorem later_respond : Later s (respond cfg χ c s).2 := by
  apply respond_keeps fun service => (off_service s service).later
  · intro e service _
    exact (off_service s service).later.trans (later_apply _ e)
  · intro s' h hs'
    exact hs'.trans (off_happen s' h).later

variable {D : Duty (Call Port) (Answer PortAnswer) Failure Error Unit Request} {R : Request → Prop}
  {K : Condition State (Call Port) (Answer PortAnswer) Failure Request Surroundings}
  {w : World} {k : Caller} {past : List Step}

theorem grows : Grows (server cfg) D R growth K := by
  intro w w' _ hmove
  cases hmove with
  | stay => exact Later.refl _
  | call k past c choice => exact later_respond
  | result k past result => exact Later.refl _

theorem later_of_mem (hw : w.Sound (server cfg) D R growth)
    (hk : Credible (server cfg) R growth w k past) {step : Step} (hstep : step ∈ past) :
    Later step.before w.state := by
  obtain ⟨record, hrecord, rfl, -⟩ := hk.recorded step hstep
  exact (hw.trace record hrecord).before

theorem answer_of_mem (hk : Credible (server cfg) R growth w k past) {p : Outside}
    {a : OutsideAnswer p} (h : (⟨.port (.outside p), .ok a⟩ : MadeCall) ∈ made past) :
    ∃ step ∈ past, step.call = .port (.outside p) ∧
      answers step.choice.answers step.before (.port (.outside p)) = .ok a := by
  obtain ⟨⟨⟨c, answer⟩, before, choice⟩, hstep, hmade⟩ := List.mem_map.mp h
  cases hmade
  have hanswered := congrArg Calls.Step.toMade (hk.answered _ hstep).2
  exact ⟨_, hstep, rfl, (eq_of_heq (Made.mk.inj hanswered).2).symm⟩

theorem eq_of_map {γ δ : Type} {answer : Except Failure δ} {a b : γ}
    (h : answer.map (fun _ => a) = .ok b) : a = b := by
  cases answer with
  | error f => cases h
  | ok _ => exact Except.ok.inj h

end

end ServiceOperations
