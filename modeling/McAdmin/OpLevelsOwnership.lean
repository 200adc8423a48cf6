import McAdmin.MarkerCounts
import McAdmin.ServiceLooks

/-!
# Who owns the server while op levels are applied

From its launch to its end the worker of the op levels must be alone with the server, whichever
process of the service launched it.  Then `ops.json` is only ever written while the server is down.
-/

namespace OpLevelsOwnership

open AdminService hiding State server respond
open Calls hiding World Pool Step Record Caller
open Markers hiding World duty
open McAdmin Runs ServiceCore ServiceOperations

/-! ### The promise -/

/-- The server is moved, the doorman engaged, or the updater launched. -/
def disturbs : Effect → Bool
  | .restart | .start | .stop | .engage | .launchUpdater => true
  | _ => false

/-- While the worker runs no call disturbs the server. -/
def Undisturbed (cfg : Config) (r : Record) : Prop :=
  ∀ e ∈ effect cfg r.before r.call, disturbs e = true → r.before.opLevels = none

/-! ### The condition -/

/-- Neither of the workers runs that start the server by themselves. -/
def Alone (s : State) : Prop := s.updater = false ∧ s.restoreWorker = false

instance (s : State) : Decidable (Alone s) := inferInstanceAs (Decidable (_ ∧ _))

/-- There was no worker when the request came, and none was launched since. -/
def Free (k : Caller) (s : State) : Prop :=
  k.arrival.opLevels = none ∧ k.arrival.levelsLaunched = s.levelsLaunched

instance (k : Caller) (s : State) : Decidable (Free k s) := inferInstanceAs (Decidable (_ ∧ _))

/-- The request looks for the worker before it touches the server. -/
def looks : Request → Bool
  | .tickScheduledRestart _ => true
  | _ => false

def isLevelsLook : Call Port → Bool
  | .port (.outside .opLevelsRunning) => true
  | _ => false

/-- What is asked of a call by what it does: the tick of the restarts, that no worker was launched
since it looked for one; another request that disturbs, that there was none when it came and none
was launched since; and the workers, that they are not launched beside each other. -/
def Fair (k : Caller) (past : List Step) (s : State) : Effect → Prop
  | .restart | .start | .stop | .engage | .launchUpdater =>
    if looks k.request = true then
      ∀ step ∈ past, isLevelsLook step.call = true → step.before.levelsLaunched = s.levelsLaunched
    else Free k s
  | .launchLevels => Alone k.arrival ∧ k.arrival.updatesLaunched = s.updatesLaunched ∧
      k.arrival.restoresLaunched = s.restoresLaunched
  | .launchRestore => Free k s
  | _ => True

instance (k : Caller) (past : List Step) (s : State) : DecidablePred (Fair k past s) := by
  intro e
  cases e <;> unfold Fair <;> infer_instance

def Harmless (cfg : Config) (w : World) (k : Caller) (past : List Step) (c : Call Port) : Prop :=
  ∀ e ∈ effect cfg w.state c, Fair k past w.state e

instance (cfg : Config) (w : World) (k : Caller) (past : List Step) (c : Call Port) :
    Decidable (Harmless cfg w k past c) := by
  unfold Harmless
  infer_instance

/-! ### The invariant -/

/-- The worker runs alone, has the server down while it has it stopped, and wrote only then. -/
structure Invariant (cfg : Config) (s : State) : Prop where
  configured : s.opLevels ≠ none → cfg.hasOpLevelsApply = true
  alone : s.opLevels ≠ none → Alone s
  down : s.opLevels = some .stopped → s.minecraft = false
  unwritten : s.writtenRunning = false

section

variable {cfg : Config} {s s' : State} {w : World} {k : Caller} {past : List Step} {c : Call Port}
  {e : Effect}

theorem Invariant.of_none (h : s.opLevels = none) (hunwritten : s.writtenRunning = false) :
    Invariant cfg s := by
  refine ⟨fun hsome => absurd h hsome, fun hsome => absurd h hsome, fun hstopped => ?_, hunwritten⟩
  rw [h] at hstopped
  cases hstopped

theorem Invariant.started (h : Invariant cfg s) (hworker : s.updater = true ∨ s.restoreWorker = true) :
    s.opLevels = none := by
  by_contra hsome
  obtain ⟨hupdater, hrestore⟩ := h.alone hsome
  rcases hworker with hworker | hworker
  · rw [hupdater] at hworker
    cases hworker
  · rw [hrestore] at hworker
    cases hworker

theorem Invariant.happen (h : Invariant cfg s) (happening : Happening) :
    Invariant cfg (happen s happening) := by
  cases happening <;> simp only [ServiceOperations.happen]
  case opLevelsStops =>
    split_ifs with hworker
    · have hsome : s.opLevels ≠ none := Option.isSome_iff_ne_none.mp hworker
      exact ⟨fun _ => h.configured hsome, fun _ => h.alone hsome, fun _ => rfl, h.unwritten⟩
    · exact h
  case opLevelsWrites =>
    split_ifs with hworker
    · refine ⟨h.configured, h.alone, h.down, ?_⟩
      -- what the worker has stopped is down while it writes
      show (s.writtenRunning || s.minecraft) = false
      rw [h.unwritten, h.down hworker]
      rfl
    · exact h
  case opLevelsStarts =>
    split_ifs with hworker
    · have hsome : s.opLevels ≠ none := by simp [hworker]
      refine ⟨fun _ => h.configured hsome, fun _ => h.alone hsome, fun hserving => ?_, h.unwritten⟩
      cases hserving
    · exact h
  case opLevelsEnds => exact .of_none rfl h.unwritten
  case updaterRecreates =>
    split_ifs with hworker
    · exact .of_none (h.started (.inl hworker)) h.unwritten
    · exact h
  case restoreStarts =>
    split_ifs with hworker
    · exact .of_none (h.started (.inr hworker)) h.unwritten
    · exact h
  case restoreStops =>
    split_ifs
    · exact ⟨h.configured, h.alone, fun _ => rfl, h.unwritten⟩
    · exact h
  case updaterEnds => exact ⟨h.configured, fun hsome => ⟨rfl, (h.alone hsome).2⟩, h.down, h.unwritten⟩
  case restoreEnds => exact ⟨h.configured, fun hsome => ⟨(h.alone hsome).1, rfl⟩, h.down, h.unwritten⟩
  case minecraftStops => exact ⟨h.configured, h.alone, fun _ => rfl, h.unwritten⟩

theorem Invariant.apply (h : Invariant cfg s) (hcauses : Causes cfg s' c e)
    (hdisturbs : disturbs e = true ∨ e = .launchRestore → s.opLevels = none)
    (hlaunches : e = .launchLevels → Alone s) : Invariant cfg (e.apply s) := by
  cases hcauses with
  | restart | start | stop | engage | launchUpdater =>
    exact .of_none (hdisturbs (.inl rfl)) h.unwritten
  | launchRestore filename _ => exact .of_none (hdisturbs (.inr rfl)) h.unwritten
  | launchLevels operation hhas =>
    refine ⟨fun _ => hhas, fun _ => hlaunches rfl, fun hserving => ?_, h.unwritten⟩
    cases hserving
  | release | accept | clear => exact ⟨h.configured, h.alone, h.down, h.unwritten⟩

/-! ### The calls -/

theorem none_of_free (hallowed : Allowed cfg (Harmless cfg) w k past c) (h : Free k w.state) :
    w.state.opLevels = none :=
  hallowed.credible.arrived.levels.holds h.2 h.1

theorem none_of_looked (h : Invariant cfg w.state)
    (hallowed : Allowed cfg (Harmless cfg) w k past c) (hlooked : Unlevelled cfg (made past))
    (hsince : ∀ step ∈ past, isLevelsLook step.call = true →
      step.before.levelsLaunched = w.state.levelsLaunched) :
    w.state.opLevels = none := by
  by_contra hsome
  obtain ⟨step, hstep, hcall, hanswer⟩ :=
    answer_of_mem hallowed.credible (hlooked (h.configured hsome))
  have hlater := later_of_mem hallowed.sound hallowed.credible hstep
  have hnone : step.before.opLevels = none := Option.not_isSome_iff_eq_none.mp
    (Bool.eq_false_iff.mp (eq_of_map hanswer))
  exact hsome (hlater.levels.holds (hsince step hstep (by rw [hcall]; rfl)) hnone)

theorem looked_of_looks {r : Request} (h : looks r = true) : Looked cfg r = Unlevelled cfg := by
  cases r with
  | tickScheduledRestart => rfl
  | _ => cases h

theorem none_of_disturbs (h : Invariant cfg w.state)
    (hallowed : Allowed cfg (Harmless cfg) w k past c) (he : effect cfg w.state c = some e)
    (hdisturbs : disturbs e = true) : w.state.opLevels = none := by
  have hfair : if looks k.request = true then
      ∀ step ∈ past, isLevelsLook step.call = true →
        step.before.levelsLaunched = w.state.levelsLaunched
    else Free k w.state := by
    have hfair := hallowed.condition e he
    cases e with
    | restart | start | stop | engage | launchUpdater => exact hfair
    | _ => cases hdisturbs
  split_ifs at hfair with hlooks
  · have htouches := (touches_of_causes (causes_of_effect he)).resolve_right fun hother => by
      rcases hother with rfl | ⟨pending, rfl⟩ <;> cases hdisturbs
    have hlooked := hallowed.duty.2 htouches
    rw [looked_of_looks hlooks] at hlooked
    exact none_of_looked h hallowed hlooked hfair
  · exact none_of_free hallowed hfair

theorem undisturbed_call (w : World) (k : Caller) (past : List Step) (c : Call Port)
    (χ : Surroundings) (hallowed : Allowed cfg (Harmless cfg) w k past c)
    (h : Invariant cfg w.state) :
    Invariant cfg (ServiceOperations.respond cfg χ c w.state).2 ∧
      Undisturbed cfg ⟨(ServiceOperations.server cfg).stepOf χ c w.state, k, past⟩ := by
  have hservice (service : AdminService.State) : Invariant cfg { w.state with service } :=
    ⟨h.configured, h.alone, h.down, h.unwritten⟩
  refine ⟨respond_keeps hservice ?_ fun s happening hs => hs.happen happening, fun e he =>
    none_of_disturbs h hallowed he⟩
  intro e service he
  have hfair := hallowed.condition e he
  apply (hservice service).apply (causes_of_effect he)
  · rintro (hdisturbs | rfl)
    · exact none_of_disturbs h hallowed he hdisturbs
    · exact none_of_free hallowed hfair
  · rintro rfl
    have harrived := hallowed.credible.arrived
    exact ⟨harrived.updates.holds hfair.2.1 hfair.1.1, harrived.restores.holds hfair.2.2 hfair.1.2⟩

end

/-- Over all the lives of the service the worker is not disturbed, and what it wrote it wrote while
the server was down. -/
theorem op_levels_own_server (cfg : Config) (lives : List Life)
    (h : Along (leaves cfg) (Meeting cfg (Harmless cfg)) {} lives) :
    Along (leaves cfg) (fun s life => (leaves cfg s life).writtenRunning = false ∧
      ∀ r ∈ (live cfg s life).world.trace, Undisturbed cfg r) {} lives := by
  have hall := along_lives (I := Invariant cfg) (P := Undisturbed cfg)
    (fun s h => ⟨h.configured, h.alone, h.down, h.unwritten⟩) undisturbed_call (.of_none rfl rfl) h
  exact Along.of_invariant (P := fun _ => True) (fun _ _ _ _ => trivial)
    (fun _ _ _ hlife => ⟨hlife.1.unwritten, hlife.2⟩) trivial hall

/-! ### Runs -/

/-- A service with op levels and a doorman. -/
def levelsConfig : Config :=
  { smallConfig with hasOpLevelsApply := true, hasPendingOpLevels := true, hasDoorman := true }

/-- Op levels wait, a restart is due, the doorman is away, and every call gets through. -/
def atHand (happens : List Happening) : Surroundings where
  answers
    | .now => .ok 0
    | .record _ => .ok ()
    | .port (.memory (.beginOpLevels _)) => .ok true
    | .port (.memory _) => .error ⟨.other, ""⟩
    | .port (.outside p) => match p with
      | .listPendingLevels => .ok [⟨"bob", 4⟩]
      | .opLevelsRunning | .doormanRunning => .ok false
      | .restartStatus => .ok (some ⟨0, "alice", false⟩)
      | .stopContainer _ | .engage _ _ | .notify _ => .ok ()
      | _ => .error ⟨.serverUnavailable, "RCON indisponible"⟩
  happens

/-- A request, and its turns one after the other, with what happens at the first. -/
def served (i : ℕ) (request : Request) (happens : List Happening) : Life :=
  [.arrive request, .proceed i (atHand happens)] ++ List.replicate 14 (.proceed i (atHand []))

/-- A restart launches the worker, which outlives the service; the restart that is due waits, and
once the worker has ended the server is closed. -/
def applicationAmongRequests : List Life :=
  [served 0 (.restart owner) [],
    served 0 (.tickScheduledRestart owner) [.opLevelsStops] ++
      served 1 (.tickScheduledRestart owner) [.opLevelsWrites, .opLevelsStarts] ++
      served 2 (.cancelScheduledRestart owner) [.opLevelsEnds] ++
      served 3 (.enterMaintenance owner "" "" (.finite 0) false) []]

theorem op_levels_own_server_sample :
    Along (leaves levelsConfig) (fun s life => (leaves levelsConfig s life).writtenRunning = false ∧
      ∀ r ∈ (live levelsConfig s life).world.trace, Undisturbed levelsConfig r) {}
      applicationAmongRequests :=
  op_levels_own_server levelsConfig applicationAmongRequests (by decide +kernel)

/-- The server is closed while the worker applies op levels. -/
theorem closed_while_levels_apply :
    ¬∀ (cfg : Config) (lives : List Life), Along (leaves cfg) (fun s life =>
      (leaves cfg s life).writtenRunning = false ∧
        ∀ r ∈ (live cfg s life).world.trace, Undisturbed cfg r) {} lives := by
  intro h
  let life := served 0 (.restart owner) [] ++
    served 1 (.enterMaintenance owner "" "" (.finite 0) false) []
  have hundisturbed := (h levelsConfig [life]).1.2
  have hclosed : ∃ r ∈ (live levelsConfig {} life).world.trace,
      effect levelsConfig r.before r.call = some .stop ∧ r.before.opLevels.isSome = true := by
    decide +kernel
  obtain ⟨r, hr, heffect, hworker⟩ := hclosed
  rw [hundisturbed r hr .stop heffect rfl] at hworker
  cases hworker

end OpLevelsOwnership
