import McAdmin.ServiceOperations
import McAdmin.UpdateTally

/-!
# What is looked at first

Before they touch the server, the operations of the maintenance have looked for a restore, and the
tick of the restarts for the worker of the op levels; a restore is launched that was found waiting.
What every call keeps then holds over the lives of the service.
-/

namespace ServiceOperations

open AdminService Calls Markers McAdmin ServiceCore

/-! ### The looks -/

/-- No restore was found. -/
def Unrestored (cfg : Config) (past : List MadeCall) : Prop :=
  (cfg.hasPendingRestore = true → answered .getPendingRestore none ∈ past) ∧
    (cfg.hasRestore = true → answered .restoreRunning false ∈ past)

/-- No worker of the op levels was found. -/
def Unlevelled (cfg : Config) (past : List MadeCall) : Prop :=
  cfg.hasOpLevelsApply = true → answered .opLevelsRunning false ∈ past

/-- What a request has looked at before it touches the server. -/
def Looked (cfg : Config) : Request → List MadeCall → Prop
  | .enterMaintenance .. => Unrestored cfg
  | .exitMaintenance _ => Unrestored cfg
  | .tickMaintenance _ => Unrestored cfg
  | .tickScheduledRestart _ => Unlevelled cfg
  | _ => fun _ => True

theorem lasting_imp {H : List MadeCall → Prop} {condition : Prop} (hH : Lasting H) :
    Lasting fun past => condition → H past := by
  intro past past' h hsubset hcondition
  exact hH past past' (h hcondition) hsubset

theorem lasting_unrestored {cfg : Config} : Lasting (Unrestored cfg) :=
  (lasting_imp (Lasting.mem _)).and (lasting_imp (Lasting.mem _))

theorem lasting_unlevelled {cfg : Config} : Lasting (Unlevelled cfg) :=
  lasting_imp (Lasting.mem _)

/-! ### Programs that look first -/

/-- The server is touched only after what `H` says. -/
def After (H : List MadeCall → Prop) (past : List MadeCall) (c : Call Port) : Prop :=
  touches c = true → H past

section

variable {cfg : Config} {user : User} {H K : List MadeCall → Prop} {α β : Type}

theorem after_of_ordinary {p : Program α} {J : α → List MadeCall → Prop}
    (h : Triple Ordinary K p J) : Triple (After H) K p J := by
  refine h.mono fun past c hc htouches => ?_
  rw [hc.2] at htouches
  cases htouches

theorem after_any (hH : Lasting H) (p : Program α) : Triple (After H) H p fun _ _ => True := by
  intro past hpast
  induction p generalizing past with
  | pure a => exact fun _ _ => trivial
  | throw e => exact fun _ _ => trivial
  | call c next ih =>
    exact ⟨fun _ => hpast, fun answer =>
      ih answer _ (hH _ _ hpast (List.subset_append_left _ _))⟩

theorem after_bind {p : Program α} {f : α → Program β} (hp : Safe Ordinary p)
    (hf : ∀ a, Safe (After H) (f a)) : Safe (After H) (p >>= f) :=
  Triple.bind (after_of_ordinary hp) hf

theorem after_look {p : Program α} {f : α → Program β} (hH : Lasting H)
    (hp : Triple Ordinary (fun _ => True) p fun _ past => H past) : Safe (After H) (p >>= f) :=
  Triple.bind (after_of_ordinary hp) fun a => after_any hH (f a)

theorem deny_triple {permission : Permission} {detail message : String} {c : ErrorClass}
    {J : α → List MadeCall → Prop} :
    Triple Ordinary (fun _ => True) (deny cfg user permission detail c message : Program α) J :=
  Triple.bind (record_other (by decide)) fun _ => Triple.throw

theorem attempt_triple {p : Program α} {J : α → List MadeCall → Prop}
    (h : Triple Ordinary (fun _ => True) p J) :
    Triple Ordinary (fun _ => True) (attempt p) fun result past => ∀ a ∈ result, J a past := by
  apply Triple.tryCatch Lasting.true
  · refine h.bind fun a => Triple.pure fun past hpast a' ha' => ?_
    obtain rfl := Option.some.inj ha'
    exact hpast
  · intro e
    exact Triple.pure fun _ _ a ha => by cases ha

/-! ### Restores -/

theorem restoreInProgress_triple :
    Triple Ordinary (fun _ => True) (restoreInProgress cfg) fun inProgress past =>
      inProgress = false → Unrestored cfg past := by
  refine Triple.bind pendingRestore_triple fun pending => ?_
  have hpending : Lasting fun past =>
      (cfg.hasPendingRestore = true → answered .getPendingRestore pending ∈ past) :=
    lasting_imp (Lasting.mem _)
  apply Triple.ite
  · intro _
    exact Triple.pure fun _ _ h => by cases h
  · intro hnone
    rw [Option.not_isSome_iff_eq_none] at hnone
    subst hnone
    apply Triple.pre (H := fun past =>
      (cfg.hasPendingRestore = true → answered .getPendingRestore none ∈ past))
    · refine Safe.then (memory_safe rfl) hpending fun operation => ?_
      apply Triple.ite
      · intro _
        exact Triple.pure fun _ _ h => by cases h
      · intro _
        apply Triple.ite
        · intro hno
          exact Triple.pure fun _ hpast _ => ⟨hpast, fun h => absurd h hno⟩
        · intro _
          have hrunning := attempt_triple (outside_answered (p := .restoreRunning) rfl)
          refine Triple.then (hrunning.pre fun _ _ => trivial) hpending fun running => ?_
          refine Triple.pure fun past hpast hfree => ⟨hpast.1, fun _ => ?_⟩
          cases running with
          | none => cases hfree
          | some b =>
            obtain rfl : b = false := hfree
            exact hpast.2 false rfl
    · exact fun _ h hhas => h (.inl hhas)

theorem restoring_triple :
    Triple Ordinary (fun _ => True) (restoring cfg) fun inProgress past =>
      inProgress = false → Unrestored cfg past := by
  refine Triple.bind (attempt_triple restoreInProgress_triple) fun inProgress => ?_
  refine Triple.pure fun past hpast hfree => ?_
  cases inProgress with
  | none => cases hfree
  | some b => exact hpast b rfl hfree

theorem deny_restoring {restoring : Bool} {permission : Permission} {detail message : String}
    {c : ErrorClass} :
    Triple Ordinary (fun past => restoring = false → Unrestored cfg past)
      (if restoring then deny cfg user permission detail c message else return () : Program Unit)
      fun _ past => Unrestored cfg past := by
  apply Triple.ite
  · intro _
    exact deny_triple.pre fun _ _ => trivial
  · intro hno
    exact Triple.pure fun _ hpast => hpast (Bool.eq_false_iff.mpr hno)

/-! ### The operations that look -/

theorem enterMaintenance_after {message until_ : String} {grace : ProfileSchedule.Hours}
    {deferIfPlayers : Bool} :
    Safe (After (Unrestored cfg))
      (enterMaintenance cfg user message until_ grace deferIfPlayers) := by
  refine after_bind authorize_safe fun _ => after_look lasting_unrestored ?_
  refine Triple.bind refuseIf_safe fun _ => Triple.bind refuseIf_safe fun _ => ?_
  refine Triple.bind restoring_triple fun restoring => Triple.bind deny_restoring fun _ => ?_
  refine Safe.then (outside_safe rfl) lasting_unrestored fun closed => ?_
  refine Safe.then refuseIf_safe lasting_unrestored fun _ => ?_
  refine Safe.then doormanUnfitIssues_safe lasting_unrestored fun unfit => ?_
  apply Triple.ite
  · intro _
    exact Triple.pure fun _ h => h
  · intro _
    exact deny_triple.pre fun _ _ => trivial

theorem exitMaintenance_after :
    Safe (After (Unrestored cfg)) (exitMaintenance cfg user) := by
  refine after_bind authorize_safe fun _ => after_bind refuseIf_safe fun _ => ?_
  refine Triple.bind (after_of_ordinary restoring_triple) fun restoring => ?_
  exact Triple.bind (after_of_ordinary deny_restoring) fun _ => after_any lasting_unrestored _

theorem tickMaintenance_after :
    Safe (After (Unrestored cfg)) (tickMaintenance cfg user) := by
  refine after_bind authorize_safe fun _ => after_bind tickScheduledMaintenance_safe fun _ =>
    after_bind pendingMaintenance_safe fun pending => ?_
  split
  · exact Safe.pure
  · refine after_bind now_safe fun t => Safe.ite (fun _ => ?_) fun _ =>
      after_of_ordinary warnOfMaintenance_safe
    refine Triple.bind (after_of_ordinary restoring_triple) fun restoring => ?_
    apply Triple.ite
    · intro _
      exact after_of_ordinary (deferForRestore_safe.pre fun _ _ => trivial)
    · intro hno
      exact (after_any lasting_unrestored _).pre fun _ h => h (Bool.eq_false_iff.mpr hno)

theorem opLevelsInTheWay_triple :
    Triple Ordinary (fun _ => True) (opLevelsInTheWay cfg) fun inTheWay past =>
      inTheWay = false → Unlevelled cfg past := by
  refine Safe.then (memory_safe rfl) Lasting.true fun operation => ?_
  apply Triple.ite
  · intro _
    exact Triple.pure fun _ _ h => by cases h
  · intro _
    apply Triple.ite
    · intro hno
      exact Triple.pure fun _ _ _ h => absurd h hno
    · intro _
      have hrunning := attempt_triple (outside_answered (p := .opLevelsRunning) rfl)
      refine Triple.bind hrunning fun running => Triple.pure fun past hpast hfree _ => ?_
      cases running with
      | none => cases hfree
      | some b =>
        obtain rfl : b = false := hfree
        exact hpast false rfl

theorem tickScheduledRestart_after :
    Safe (After (Unlevelled cfg)) (tickScheduledRestart cfg user) := by
  refine after_bind authorize_safe fun _ => after_bind tickOpLevelsOperation_safe fun _ =>
    after_bind scanUpdateOutcome_safe fun _ => after_bind tickRecurringRestart_safe fun _ =>
      after_bind (outside_safe rfl) fun pending => ?_
  split
  · exact Safe.pure
  · refine after_bind now_safe fun t => Safe.ite (fun _ => ?_) fun _ =>
      after_of_ordinary warnOfRestart_safe
    refine after_bind heldByPlayers_safe fun held => Safe.ite (fun _ =>
      after_of_ordinary (noteDeferredOnce_safe (by decide))) fun _ => ?_
    refine after_bind (memory_safe rfl) fun _ => ?_
    refine Triple.bind (after_of_ordinary opLevelsInTheWay_triple) fun inTheWay => ?_
    apply Triple.ite
    · intro _
      exact Triple.pure fun _ _ => trivial
    · intro hno
      exact (after_any lasting_unlevelled _).pre fun _ h => h (Bool.eq_false_iff.mpr hno)

/-- A call has its ground, and its request has looked first. -/
def duty (cfg : Config) : Duty (Call Port) (Answer PortAnswer) Failure Error Unit Request where
  call r past c := Warranted past c ∧ After (Looked cfg r) past c
  result _ _ _ := True

theorem looks_first (r : Request) : Safe (After (Looked cfg r)) (Request.program cfg r) := by
  cases r with
  | enterMaintenance => exact enterMaintenance_after
  | exitMaintenance => exact exitMaintenance_after
  | tickMaintenance => exact tickMaintenance_after
  | tickScheduledRestart => exact tickScheduledRestart_after
  | _ => exact after_any Lasting.true _

theorem does_duty : (server cfg).Does (duty cfg) := by
  intro r
  have hwarranted : Obeys Warranted (fun _ _ => True) [] (Request.program cfg r) :=
    (service_does r).mono (fun _ _ h => h.1) fun _ _ _ => trivial
  exact (hwarranted.and ((looks_first r).obeys [])).mono (fun _ _ h => h) fun _ _ _ => trivial

end

theorem touches_of_causes {cfg : Config} {s : State} {c : Call Port} {e : Effect}
    (h : Causes cfg s c e) : touches c = true ∨ e = .clear ∨ ∃ pending, e = .accept pending := by
  cases h with
  | accept pending _ => exact .inr (.inr ⟨pending, rfl⟩)
  | clear => exact .inr (.inl rfl)
  | _ => exact .inl rfl

/-! ### Over the lives of the service -/

section

variable {cfg : Config} {I : State → Prop} {P : Record → Prop}
  {K : Condition State (Call Port) (Answer PortAnswer) Failure Request Surroundings}

/-- A call that may be made, in a world that got there. -/
structure Allowed (cfg : Config)
    (K : Condition State (Call Port) (Answer PortAnswer) Failure Request Surroundings) (w : World)
    (k : Caller) (past : List Step) (c : Call Port) : Prop where
  sound : w.Sound (server cfg) (duty cfg) (fun _ => True) growth
  credible : Credible (server cfg) (fun _ => True) growth w k past
  duty : (duty cfg).call k.request (made past) c
  condition : K w k past c

theorem along_lives (hreborn : ∀ s, I s → I (reborn s))
    (hcall : ∀ w k past c χ, Allowed cfg K w k past c → I w.state →
      I (respond cfg χ c w.state).2 ∧ P ⟨(server cfg).stepOf χ c w.state, k, past⟩)
    {s : State} {lives : List Life} (hs : I s)
    (h : Runs.Along (leaves cfg) (Meeting cfg K) s lives) :
    Runs.Along (leaves cfg) (fun s life => I (leaves cfg s life) ∧
      ∀ r ∈ (live cfg s life).world.trace, P r) s lives := by
  have hlife : ∀ s life, I s → Meeting cfg K s life →
      I (leaves cfg s life) ∧ ∀ r ∈ (live cfg s life).world.trace, P r := by
    intro s life hs hmeeting
    refine (run_invariant does_duty grows (fun w => I w.state ∧ ∀ r ∈ w.trace, P r) ?_
      ⟨hreborn s hs, fun r hr => absurd hr List.not_mem_nil⟩ hmeeting).2
    rintro w w' hsound ⟨hI, htrace⟩ hmove
    cases hmove with
    | stay => exact ⟨hI, htrace⟩
    | result k past result => exact ⟨hI, htrace⟩
    | call k past c χ hk hduty hK _ =>
      obtain ⟨hI', hP⟩ := hcall w k past c χ ⟨hsound, hk, hduty, hK⟩ hI
      refine ⟨hI', fun r hr => ?_⟩
      rcases List.mem_append.mp hr with hr | hr
      · exact htrace r hr
      · obtain rfl := List.mem_singleton.mp hr
        exact hP
  exact Runs.Along.of_invariant (fun s life hs hmeeting => (hlife s life hs hmeeting).1) hlife hs h

end

end ServiceOperations
