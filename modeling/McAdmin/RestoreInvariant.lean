import McAdmin.RestoreSteps

/-!
# What holds of the data directory whenever the worker is cut

`Held` is about the world: some complete tree is always in place, either at the
root or, while the marker sends the next run to it, in the rollback.
`Recoverable` is about the next run: it finds a branch of the recovery to take.
Each is kept only when the worker is not cut in certain states, so `Invariant`
promises each of them under a condition of its own.
-/

namespace RestoreWorker

open CrashLogic FileTree

/-! ### States the worker should not be cut in -/

/-- No entry of the rollback is removed yet, or all are, or the marker does not
send a recovery to it. -/
def RollbackWhole (w : World) : Prop :=
  w.cleaning = none ∨ w.cleaning = some (w.slot rollbackName) ∨ w.slot rollbackName = none ∨
    w.phase ∉ rollbackPhases.map some

/-- The phases for which the recovery has no branch without a rollback. -/
def stuckPhases : List Phase := [.applying, .rollingBack, .rollbackFailed]

/-- The marker names a phase the recovery can go on from. -/
def MarkerUsable (w : World) : Prop :=
  w.slot rollbackName = none → w.phase ∉ stuckPhases.map some

/-- The rollback is applied, its marker is removed, and the handler would write a
new marker if the next step raised. -/
def Unmarked (w : World) : Prop :=
  w.handling = true ∧ w.rollbackReady = true ∧ w.slot stateName = none

instance (w : World) : Decidable (RollbackWhole w) := inferInstanceAs (Decidable (_ ∨ _))

instance (w : World) : Decidable (MarkerUsable w) := inferInstanceAs (Decidable (_ → _))

instance (w : World) : Decidable (Unmarked w) := inferInstanceAs (Decidable (_ ∧ _))

/-! ### The invariant -/

/-- `G` holds of the tree at the root, or of the one in the rollback while the
marker sends the next run to it. -/
structure Held (G : Folder Content → Prop) (w : World) : Prop where
  live : w.slot rollbackName = none ∨ w.phase ∉ rollbackPhases.map some → G w.root
  kept : w.slot rollbackName ≠ none → w.phase ∈ rollbackPhases.map some →
    G (w.slot rollbackName).folder

/-- The next run can end the transaction; `up` says that the server is up when no
transaction is open. -/
structure Recoverable (up : Prop) (w : World) : Prop where
  usable : MarkerUsable w
  started : w.phase = some .started → w.running = true
  idle : w.slot stateName = none → up → w.running = true

/-- `A` asks for the world to be held, `B` for the next run to be able to recover. -/
structure Invariant (A B : Prop) (G : Folder Content → Prop) (up : Prop) (w : World) : Prop where
  shape : Shape w
  held : A → Held G w
  recoverable : B → Recoverable up w

/-- What `A` and `B` ask of the surroundings of the worker, and of `G`. -/
structure Setting (T : Terms World Empty) (A B : Prop) (G : Folder Content → Prop) : Prop where
  free : T.Free
  whole : A → ∀ k w, T.struck k w → RollbackWhole w
  usable : B → ∀ k w, T.struck k w → MarkerUsable w ∧ ¬ (k = .fail ∧ Unmarked w)
  closed : ∀ f g, SameLive f g → G f → G g

section

variable {T : Terms World Empty} {A B : Prop} {G : Folder Content → Prop} {up : Prop}
  {w w' : World}

theorem Invariant.congr (hS : Setting T A B G) (h : Invariant A B G up w)
    (hstate : w'.slot stateName = w.slot stateName)
    (hrollback : w'.slot rollbackName = w.slot rollbackName)
    (htmp : w'.slot stateTmpName = none ∨ (w'.slot stateTmpName).isFile = true)
    (hlive : w.slot rollbackName = none ∨ w.phase ∉ rollbackPhases.map some →
      SameLive w.root w'.root)
    (hrun : w.slot stateName = none ∨ w.phase = some .started → w'.running = w.running) :
    Invariant A B G up w' := by
  have hphase := World.phase_congr hstate
  refine ⟨h.shape.congr hstate hrollback htmp, fun hA => ⟨?_, ?_⟩, fun hB => ⟨?_, ?_, ?_⟩⟩
  · rw [hrollback, hphase]
    exact fun hcond => hS.closed _ _ (hlive hcond) ((h.held hA).live hcond)
  · rw [hrollback, hphase]
    exact (h.held hA).kept
  · intro hnone
    rw [hphase]
    exact (h.recoverable hB).usable (hrollback ▸ hnone)
  · rw [hphase]
    intro hstarted
    rw [hrun (Or.inr hstarted)]
    exact (h.recoverable hB).started hstarted
  · rw [hstate]
    intro hnone hup
    rw [hrun (Or.inl hnone)]
    exact (h.recoverable hB).idle hnone hup

theorem Invariant.marking (hS : Setting T A B G) (h : Invariant A B G up w)
    (hw' : Marking w w') : Invariant A B G up w' :=
  h.congr hS (hw'.same.2 _ (by decide)) (hw'.same.2 _ (by decide)) hw'.tmp
    (fun _ => hw'.same.sameLive (by decide)) fun _ => by rw [hw'.same.1]

def AllGone (w : World) : Prop := ∀ n ∈ protectedRootNames, w.slot n = none

theorem Invariant.of_gone (hgone : AllGone w) (hG : A → G w.root)
    (hup : B → up → w.running = true) : Invariant A B G up w := by
  have hrollback := hgone _ rollback_mem
  have hphase := World.phase_none (hgone _ state_mem)
  refine ⟨⟨Or.inl (hgone _ stateTmp_mem), Or.inl (hgone _ state_mem), Or.inl hrollback,
    fun _ => hrollback⟩, fun hA => ⟨fun _ => hG hA, fun h => absurd hrollback h⟩,
    fun hB => ⟨fun _ => ?_, ?_, fun _ => hup hB⟩⟩
  · rw [hphase]
    decide
  · rw [hphase]
    exact nofun

theorem Cleaning.sameLive (h : Cleaning w w') : SameLive w.root w'.root := by
  intro n hn
  have hslot : w'.root.get n = w.root.get n := h.live n hn
  rw [hslot]

theorem CleanedUp.sameLive (h : CleanedUp w w') : SameLive w.root w'.root := by
  intro n hn
  have hslot : w'.root.get n = w.root.get n := h.live n hn
  rw [hslot]

theorem Cleaning.whole (h : Cleaning w w') (hwhole : RollbackWhole w')
    (hthere : w'.slot rollbackName ≠ none) (hphase : w'.phase ∈ rollbackPhases.map some) :
    w'.slot stateName = w.slot stateName ∧ w'.slot rollbackName = w.slot rollbackName := by
  rcases h.order with ⟨hstate, hrollback | hrollback | hcleaning⟩ | ⟨_, hrollback⟩
  · exact ⟨hstate, hrollback⟩
  · exact absurd hrollback hthere
  · refine ⟨hstate, ?_⟩
    rcases hwhole with hnone | hsame | hgone | hout
    · rw [hcleaning] at hnone
      cases hnone
    · rw [hcleaning, Option.some.injEq] at hsame
      exact hsame.symm
    · exact absurd hgone hthere
    · exact absurd hphase hout
  · exact absurd hrollback hthere

theorem Cleaning.invariant (hS : Setting T A B G) (h : Cleaning w w')
    (hinv : Invariant A B G up w) (hG : A → G w.root) (hup : B → up → w.running = true)
    {k : Strike} (hk : T.struck k w') : Invariant A B G up w' := by
  have hrunning : w'.running = w.running := by rw [h.fields]
  refine ⟨h.shape, fun hA => ⟨fun _ => hS.closed _ _ h.sameLive (hG hA), fun hthere hphase => ?_⟩,
    fun hB => ⟨(hS.usable hB k w' hk).1, fun hstarted => ?_, fun _ hup' => ?_⟩⟩
  · obtain ⟨hstate, hrollback⟩ := h.whole (hS.whole hA k w' hk) hthere hphase
    rw [World.phase_congr hstate] at hphase
    rw [hrollback] at hthere ⊢
    exact (hinv.held hA).kept hthere hphase
  · rcases h.order with ⟨hstate, _⟩ | ⟨hstate, _⟩
    · rw [World.phase_congr hstate] at hstarted
      rw [hrunning]
      exact (hinv.recoverable hB).started hstarted
    · rw [World.phase_none hstate] at hstarted
      cases hstarted
  · rw [hrunning]
    exact hup hB hup'

end

end RestoreWorker
