import McAdmin.RestoreRecovery

/-!
# A transaction, its handler and its cleanup

From a data directory without a transaction, `newTransaction` keeps the invariant
at every step.  What its handler starts from is the same after every step that
may raise: either no complete rollback was made, and the tree is untouched
(`Preparing`), or the rollback is a copy of the tree before the call
(`Prepared`).
-/

namespace RestoreWorker

open CrashLogic FileTree

section

variable {T : Terms World Empty} {A B : Prop} {G : Folder Content → Prop} {up : Prop}
  {f₀ : Folder Content} {w w' : World}

/-! ### What the handler starts from -/

/-- No rollback is ready: the tree is still the one before the call, and the server
was left alone unless `stopped` is set. -/
structure Preparing (B up : Prop) (f₀ : Folder Content) (w : World) : Prop where
  shape : Shape w
  live : SameLive f₀ w.root
  early : w.phase ∈ [Phase.staged, .stopping, .stopped].map some
  notReady : w.rollbackReady = false
  asked : w.stopped = false →
    (Call.stop ∈ w.calls → w.running = true) ∧ (B → up → w.running = true)

/-- The rollback is a copy of the tree before the call; unless the marker says so,
that tree is also still in place. -/
structure Prepared (f₀ : Folder Content) (w : World) : Prop where
  shape : Shape w
  ready : w.rollbackReady = true
  isDir : (w.slot rollbackName).isDir = true
  copy : SameLive f₀ (w.slot rollbackName).folder
  phase : w.phase = some .stopped ∧ SameLive f₀ w.root ∨ w.phase ∈ rollbackPhases.map some

def Interrupted (B up : Prop) (f₀ : Folder Content) (w : World) : Prop :=
  Preparing B up f₀ w ∨ Prepared f₀ w

theorem phase_ne_none (h : w.phase ≠ none) : w.slot stateName ≠ none :=
  fun hnone => h (World.phase_none hnone)

theorem Preparing.invariant (hS : Setting T A B G) (h : Preparing B up f₀ w) (hG : A → G f₀) :
    Invariant A B G up w := by
  have hearly := h.early
  have hout : w.phase ∉ rollbackPhases.map some := by
    intro hin
    revert hearly hin
    generalize w.phase = p
    rcases p with - | p
    · decide
    · cases p <;> decide
  have hmarker : w.slot stateName ≠ none := by
    refine phase_ne_none fun hnone => ?_
    rw [hnone] at hearly
    revert hearly
    decide
  refine ⟨h.shape, fun hA => ⟨fun _ => hS.closed _ _ h.live (hG hA), fun _ hin => absurd hin hout⟩,
    fun _ => ⟨fun _ hstuck => ?_, fun hstarted => ?_, fun hnone => absurd hnone hmarker⟩⟩
  · revert hearly hstuck
    generalize w.phase = p
    rcases p with - | p
    · decide
    · cases p <;> decide
  · rw [hstarted] at hearly
    exact absurd hearly (by decide)

theorem Prepared.rollback_ne (h : Prepared f₀ w) : w.slot rollbackName ≠ none := by
  intro hnone
  have hdir := h.isDir
  rw [hnone] at hdir
  cases hdir

theorem Prepared.phase_ne (h : Prepared f₀ w) : w.phase ≠ none ∧ w.phase ≠ some .started := by
  rcases h.phase with ⟨hphase, _⟩ | hphase
  · rw [hphase]
    decide
  · constructor <;>
    · intro heq
      rw [heq] at hphase
      revert hphase
      decide

theorem Prepared.invariant (hS : Setting T A B G) (h : Prepared f₀ w) (hG : A → G f₀) :
    Invariant A B G up w := by
  refine ⟨h.shape, fun hA => ⟨fun hcond => ?_, fun _ _ => hS.closed _ _ h.copy (hG hA)⟩,
    fun _ => ⟨fun hnone => absurd hnone h.rollback_ne, fun hstarted => absurd hstarted h.phase_ne.2,
      fun hnone => absurd hnone (phase_ne_none h.phase_ne.1)⟩⟩
  rcases h.phase with ⟨_, hlive⟩ | hin
  · exact hS.closed _ _ hlive (hG hA)
  · exact absurd hin (hcond.resolve_left h.rollback_ne)

theorem Interrupted.invariant (hS : Setting T A B G) (h : Interrupted B up f₀ w)
    (hG : A → G f₀) : Invariant A B G up w :=
  h.elim (·.invariant hS hG) (·.invariant hS hG)

theorem Marking.shape (h : Marking w w') (hw : Shape w) : Shape w' :=
  hw.congr (h.same.2 _ (by decide)) (h.same.2 _ (by decide)) h.tmp

theorem Marked.shape {phase : Phase} {target : String} (h : Marked phase target w w')
    (hw : Shape w) : Shape w' := by
  refine ⟨Or.inl h.tmp, Or.inr ⟨phase, target, h.marker⟩, ?_, fun hnone => ?_⟩
  · rw [h.same.2 _ (by decide)]
    exact hw.rollback
  · rw [h.marker] at hnone
    cases hnone

theorem Preparing.marking (h : Preparing B up f₀ w) (hw' : Marking w w') :
    Preparing B up f₀ w' where
  shape := hw'.shape h.shape
  live := h.live.trans (hw'.same.sameLive (by decide))
  early := by
    rw [World.phase_congr (hw'.same.2 _ (by decide))]
    exact h.early
  notReady := by
    rw [hw'.same.1]
    exact h.notReady
  asked := by
    rw [hw'.same.1]
    exact h.asked

theorem Preparing.marked {phase : Phase} {target : String} (h : Preparing B up f₀ w)
    (hw' : Marked phase target w w') (hphase : phase ∈ [Phase.staged, .stopping, .stopped]) :
    Preparing B up f₀ w' where
  shape := hw'.shape h.shape
  live := h.live.trans (hw'.same.sameLive (by decide))
  early := by
    rw [World.phase_eq hw'.marker]
    exact List.mem_map_of_mem hphase
  notReady := by
    rw [hw'.same.1]
    exact h.notReady
  asked := by
    rw [hw'.same.1]
    exact h.asked

theorem Prepared.marking (h : Prepared f₀ w) (hw' : Marking w w') : Prepared f₀ w' where
  shape := hw'.shape h.shape
  ready := by
    rw [hw'.same.1]
    exact h.ready
  isDir := by
    rw [hw'.same.2 _ (by decide)]
    exact h.isDir
  copy := by
    rw [hw'.same.2 _ (by decide)]
    exact h.copy
  phase := by
    rw [World.phase_congr (hw'.same.2 _ (by decide))]
    exact h.phase.imp (fun hp => ⟨hp.1, hp.2.trans (hw'.same.sameLive (by decide))⟩) id

theorem Prepared.marked {phase : Phase} {target : String} (h : Prepared f₀ w)
    (hw' : Marked phase target w w') (hphase : phase ∈ rollbackPhases) : Prepared f₀ w' where
  shape := hw'.shape h.shape
  ready := by
    rw [hw'.same.1]
    exact h.ready
  isDir := by
    rw [hw'.same.2 _ (by decide)]
    exact h.isDir
  copy := by
    rw [hw'.same.2 _ (by decide)]
    exact h.copy
  phase := by
    rw [World.phase_eq hw'.marker]
    exact Or.inr (List.mem_map_of_mem hphase)

theorem Prepared.sameNames (h : Prepared f₀ w) (hphase : w.phase ∈ rollbackPhases.map some)
    (hw' : SameNames w w') : Prepared f₀ w' where
  shape := h.shape.congr (hw'.2 _ state_mem) (hw'.2 _ rollback_mem) (by
    rw [hw'.2 _ stateTmp_mem]
    exact h.shape.tmp)
  ready := by
    rw [hw'.1]
    exact h.ready
  isDir := by
    rw [hw'.2 _ rollback_mem]
    exact h.isDir
  copy := by
    rw [hw'.2 _ rollback_mem]
    exact h.copy
  phase := by
    rw [World.phase_congr (hw'.2 _ state_mem)]
    exact Or.inr hphase

theorem Prepared.server (h : Prepared f₀ w) (running : Bool) (calls : List Call)
    (stopped handling : Bool) :
    Prepared f₀ { w with running := running, calls := calls, stopped := stopped,
                         handling := handling } :=
  ⟨h.shape.congr rfl rfl h.shape.tmp, h.ready, h.isDir, h.copy, h.phase⟩

/-! ### The body of the transaction -/

/-- `f'` is `f` with the roots of the stage put in place of its own. -/
def Restored (stage f f' : Folder Content) : Prop :=
  ∀ n, n ∉ protectedRootNames →
    (f'.get n).view = if stage.get n = none then (f.get n).view else (stage.get n).view

theorem Synced.restored {stage f f' : Folder Content}
    (h : Synced stage protectedRootNames false f f') : Restored stage f f' := by
  intro n hn
  by_cases hnone : stage.get n = none
  · rw [if_pos hnone, h.absent n hn hnone]
    rfl
  · rw [if_neg hnone]
    exact h.copied n hnone

structure Applied (stage f₀ : Folder Content) (w : World) : Prop where
  shape : Shape w
  phase : w.phase = some .started
  live : Restored stage f₀ w.root
  running : w.running = true

theorem wp_mark (hT : T.Free) (hw : Shape w) (phase : Phase) (target : String)
    {I : World → Prop} (hI : ∀ w', Marking w w' → I w') :
    wp T (writeState phase target) (.orFail (fun _ => Marked phase target w) I True) w :=
  wp_mono (wp_writeState hT phase target hw.tmp hw.marker)
    (Post.orCut_le_orFail (fun _ _ h => h) hI)

theorem Restored.of_sameLive {stage f f₁ f' : Folder Content} (h : Restored stage f₁ f')
    (hf : SameLive f f₁) : Restored stage f f' := by
  intro n hn
  rw [h n hn, hf n hn]

theorem wp_startRestored (hT : T.Free) (target : String) {stage : Folder Content}
    (h : Prepared f₀ w) (hrestored : Restored stage f₀ w.root) :
    wp T
      (do
        writeState .applied target
        writeState .starting target
        controllerStart
        .assign fun w => { w with stopped := false }
        writeState .started target)
      (.orFail (fun _ => Applied stage f₀) (Prepared f₀) True) w := by
  refine wp_seq_orFail (wp_mark hT h.shape .applied target fun _ h' => h.marking h')
    (fun _ w₁ h₁ => ?_) fun _ h' => h'
  have hprep₁ := h.marked h₁ (by decide)
  refine wp_seq_orFail (wp_mark hT hprep₁.shape .starting target fun _ h' => hprep₁.marking h')
    (fun _ w₂ h₂ => ?_) fun _ h' => h'
  have hprep₂ := hprep₁.marked h₂ (by decide)
  have hrestored₂ : Restored stage f₀ w₂.root := by
    intro n hn
    rw [← h₂.same.sameLive (by decide) n hn, ← h₁.same.sameLive (by decide) n hn]
    exact hrestored n hn
  refine wp_seq_orFail (wp_mono (wp_controllerStart hT)
    (Post.orCut_le_orFail (R := Prepared f₀) (fun _ _ h' => h') ?_)) ?_ fun _ h' => h'
  · rintro w₃ ⟨running, rfl⟩
    exact hprep₂.server _ _ _ _
  · rintro _ w₃ rfl
    have hprep₃ := hprep₂.server true (w₂.calls ++ [Call.start]) false w₂.handling
    rw [wp_bind, wp_assign, Post.next_ok]
    refine wp_mono (wp_mark hT hprep₃.shape .started target fun _ h' => hprep₃.marking h')
      (Post.orFail_le (fun _ w₄ h₄ => ?_) (fun _ h' => h') id)
    refine ⟨h₄.shape hprep₃.shape, World.phase_eq h₄.marker, fun n hn => ?_, ?_⟩
    · rw [← h₄.same.sameLive (by decide) n hn]
      exact hrestored₂ n hn
    · rw [h₄.same.1]

theorem wp_applyPrepared (hT : T.Free) (target : String) (h : Prepared f₀ w)
    (hlive : SameLive f₀ w.root) :
    wp T
      (do
        writeState .rollbackReady target
        writeState .applying target
        syncFrom stageName false
        writeState .applied target
        writeState .starting target
        controllerStart
        .assign fun w => { w with stopped := false }
        writeState .started target)
      (.orFail (fun _ => Applied (w.slot stageName).folder f₀) (Prepared f₀) True) w := by
  refine wp_seq_orFail (wp_mark hT h.shape .rollbackReady target fun _ h' => h.marking h')
    (fun _ w₁ h₁ => ?_) fun _ h' => h'
  have hprep₁ := h.marked h₁ (by decide)
  refine wp_seq_orFail (wp_mark hT hprep₁.shape .applying target fun _ h' => hprep₁.marking h')
    (fun _ w₂ h₂ => ?_) fun _ h' => h'
  have hprep₂ := hprep₁.marked h₂ (by decide)
  have hphase₂ : w₂.phase ∈ rollbackPhases.map some := by
    rw [World.phase_eq h₂.marker]
    decide
  have hstage₂ : w₂.slot stageName = w.slot stageName := by
    rw [h₂.same.2 _ (by decide), h₁.same.2 _ (by decide)]
  have hlive₂ : SameLive f₀ w₂.root :=
    (hlive.trans (h₁.same.sameLive (by decide))).trans (h₂.same.sameLive (by decide))
  -- only here does the live tree change
  have hsync : wp T (syncFrom stageName false)
      (.orFail (fun _ w₃ => SameNames w₂ w₃ ∧
        Restored (w.slot stageName).folder f₀ w₃.root) (Prepared f₀) True) w₂ := by
    refine wp_mono (wp_syncFrom hT stageName false) ⟨fun _ w₃ h₃ => ⟨h₃.1, ?_⟩,
      fun _ w₃ h₃ => ⟨?_, trivial⟩, fun _ w₃ h₃ => hprep₂.sameNames hphase₂ h₃,
      fun w₃ h₃ => hprep₂.sameNames hphase₂ h₃⟩
    · rw [← hstage₂]
      exact h₃.2.2.restored.of_sameLive hlive₂
    · rw [h₃.1]
      exact hprep₂
  refine wp_seq_orFail hsync (fun _ w₃ h₃ => ?_) fun _ h' => h'
  exact wp_startRestored hT target (hprep₂.sameNames hphase₂ h₃.1) h₃.2

theorem Preparing.server (h : Preparing B up f₀ w) (running : Bool) (calls : List Call)
    (stopped handling : Bool) (hstopped : stopped = false → running = true) :
    Preparing B up f₀ { w with running := running, calls := calls, stopped := stopped,
                               handling := handling } :=
  ⟨h.shape.congr rfl rfl h.shape.tmp, h.live, h.early, h.notReady,
    fun hs => ⟨fun _ => hstopped hs, fun _ _ => hstopped hs⟩⟩

theorem Preparing.cloning (h : Preparing B up f₀ w) (hsame : SameBut [rollbackName] w w')
    (hshape : RollbackShape (w'.slot rollbackName)) : Preparing B up f₀ w' where
  shape := by
    have hstate := hsame.2 stateName (by decide)
    have hphase : w.slot stateName ≠ none := by
      refine phase_ne_none fun hnone => ?_
      have hearly := h.early
      rw [hnone] at hearly
      exact absurd hearly (by decide)
    refine ⟨?_, ?_, hshape, fun hnone => absurd (hstate.symm.trans hnone) hphase⟩
    · rw [hsame.2 _ (by decide)]
      exact h.shape.tmp
    · rw [hstate]
      exact h.shape.marker
  live := h.live.trans (hsame.sameLive (by decide))
  early := by
    rw [World.phase_congr (hsame.2 _ (by decide))]
    exact h.early
  notReady := by
    rw [hsame.1]
    exact h.notReady
  asked := by
    rw [hsame.1]
    exact h.asked

theorem Preparing.prepared (h : Preparing B up f₀ w) (hphase : w.phase = some .stopped)
    (hsame : SameBut [rollbackName] w w') (hdir : (w'.slot rollbackName).isDir = true)
    (hcopy : ∀ n, ((w'.slot rollbackName).folder.get n).view = ((liveFolder w.root).get n).view) :
    Prepared f₀ { w' with rollbackReady := true } := by
  have hcopy' : ∀ n ∉ protectedRootNames,
      ((w'.slot rollbackName).folder.get n).view = (w.root.get n).view := by
    intro n hn
    rw [hcopy n, get_liveFolder, if_neg hn]
  have hshape : RollbackShape (w'.slot rollbackName) := by
    refine Or.inr ⟨hdir, fun n hn => Slot.view_eq_none.mp ?_⟩
    rw [hcopy n, get_liveFolder, if_pos hn]
  have hclone := h.cloning hsame hshape
  refine ⟨hclone.shape.congr rfl rfl hclone.shape.tmp, rfl, hdir, fun n hn => ?_,
    Or.inl ⟨?_, hclone.live⟩⟩
  · exact (h.live n hn).trans (hcopy' n hn).symm
  · exact (World.phase_congr (v := { w' with rollbackReady := true })
      (hsame.2 stateName (by decide))).trans hphase

theorem wp_applyTransaction (hT : T.Free) (request : Request) (target : String)
    (h : Preparing B up f₀ w) (hrollback : w.slot rollbackName = none) :
    wp T (applyTransaction request target)
      (.orFail (fun _ => Applied (w.slot stageName).folder f₀) (Interrupted B up f₀) True) w := by
  simp only [applyTransaction]
  refine wp_seq_orFail (wp_mark hT h.shape .stopping target fun _ h' => Or.inl (h.marking h'))
    (fun _ w₁ h₁ => ?_) fun _ h' => h'
  -- up to the clone the live tree stands, wherever the run is cut
  have hprep₁ := h.marked h₁ (by decide)
  rw [wp_bind, wp_assign, Post.next_ok]
  refine wp_seq_orFail (wp_mono (wp_controllerStop hT)
    (Post.orCut_le_orFail (R := Interrupted B up f₀) (fun _ _ h' => h') ?_)) ?_ fun _ h' => h'
  · rintro w₂ ⟨running, rfl⟩
    exact Or.inl (hprep₁.server _ _ true _ nofun)
  rintro _ w₂ rfl
  have hprep₂ := hprep₁.server false (w₁.calls ++ [Call.stop]) true w₁.handling nofun
  refine wp_seq_orFail (wp_mark hT hprep₂.shape .stopped target
    fun _ h' => Or.inl (hprep₂.marking h')) (fun _ w₃ h₃ => ?_) fun _ h' => h'
  have hprep₃ := hprep₂.marked h₃ (by decide)
  have hrollback₃ : w₃.slot rollbackName = none := by
    rw [h₃.same.2 _ (by decide)]
    exact (h₁.same.2 _ (by decide)).trans hrollback
  have hstage₃ : w₃.slot stageName = w.slot stageName := by
    rw [h₃.same.2 _ (by decide)]
    exact h₁.same.2 _ (by decide)
  rw [wp_bind, wp_read, Post.next_ok]
  have hclone := wp_cloneLiveTree (T := T.through (at_ rollbackName) w₃) (hT.through _ _)
    request.reflink w₃.root
  rw [← hrollback₃] at hclone
  refine wp_seq_orFail (wp_mono (wp_zoom_orFail (at_ rollbackName) T hclone)
    (Post.orFail_le (fun _ _ h' => h')
      (fun w₄ h₄ => Or.inl (hprep₃.cloning (.of_frame h₄.1) h₄.2)) fun _ => trivial))
    (fun _ w₄ h₄ => ?_) fun _ h' => h'
  have hsame₄ : SameBut [rollbackName] w₃ w₄ := .of_frame h₄.1
  have hprep₄ := hprep₃.prepared (World.phase_eq h₃.marker) hsame₄ h₄.2.1 h₄.2.2
  -- the rollback is whole, so that the live tree may change
  have hlive₄ : SameLive f₀ w₄.root := hprep₃.live.trans (hsame₄.sameLive (by decide))
  rw [wp_bind, wp_assign, Post.next_ok]
  refine wp_mono (wp_applyPrepared hT target hprep₄ hlive₄)
    (Post.orFail_le (fun _ w₅ h₅ => ?_) (fun _ h' => Or.inr h') id)
  rw [← hstage₃, ← hsame₄.2 stageName (by decide)]
  exact h₅

/-! ### The handler -/

/-- Steps may be made to raise outside the handler, and nothing else happens. -/
def Quiet (T : Terms World Empty) : Prop := ∀ k w, T.struck k w → k = .fail ∧ w.handling = false

def Still (T : Terms World Empty) : Prop := ∀ k w, ¬ T.struck k w

theorem Still.quiet (h : Still T) : Quiet T := fun k w hk => absurd hk (h k w)

structure Ended (T : Terms World Empty) (A B : Prop) (G : Folder Content → Prop) (up : Prop)
    (f₀ : Folder Content) (w : World) : Prop where
  inv : Invariant A B G up w
  quiet : Quiet T → SameLive f₀ w.root ∧ w.slot rollbackName = none ∧ w.slot stateName = none ∧
    (Call.stop ∈ w.calls → w.running = true)
  still : Still T → AllGone w

/-- The marker `rollback_failed` may be written. -/
structure Markable (A B : Prop) (G : Folder Content → Prop) (up : Prop) (w : World) : Prop where
  inv : Invariant A B G up w
  kept : A → w.slot rollbackName ≠ none → G (w.slot rollbackName).folder
  live : A → w.slot rollbackName = none → G w.root
  there : B → w.slot rollbackName ≠ none

theorem Prepared.markable (hS : Setting T A B G) (h : Prepared f₀ w) (hG : A → G f₀) :
    Markable A B G up w where
  inv := h.invariant hS hG
  kept hA _ := hS.closed _ _ h.copy (hG hA)
  live _ hnone := absurd hnone h.rollback_ne
  there _ := h.rollback_ne

theorem Markable.marked (hS : Setting T A B G) (h : Markable A B G up w) {target : String}
    (hw' : Marked .rollbackFailed target w w') : Invariant A B G up w' := by
  have hphase := World.phase_eq hw'.marker
  have hrollback := hw'.same.2 rollbackName (by decide)
  refine ⟨hw'.shape h.inv.shape, fun hA => ⟨fun hcond => ?_, fun hthere _ => ?_⟩,
    fun hB => ⟨fun hnone => absurd (hrollback.symm.trans hnone) (h.there hB), ?_, fun hnone => ?_⟩⟩
  · refine hS.closed _ _ (hw'.same.sameLive (by decide)) (h.live hA ?_)
    refine hrollback.symm.trans (hcond.resolve_right fun hout => hout ?_)
    rw [hphase]
    decide
  · rw [hrollback] at hthere ⊢
    exact h.kept hA hthere
  · rw [hphase]
    exact nofun
  · rw [hw'.marker] at hnone
    cases hnone

theorem wp_markFailed (hS : Setting T A B G) (h : Markable A B G up w) (hquiet : ¬ Quiet T)
    (target : String) (e : Exn) {Q : Unit → World → Prop} :
    wp T
      (do
        tryCatch (writeState .rollbackFailed target) fun _ => pure ()
        throw e)
      ⟨Q, fun _ => Ended T A B G up f₀, fun _ => Ended T A B G up f₀, Invariant A B G up⟩ w := by
  have hended : ∀ w', Invariant A B G up w' → Ended T A B G up f₀ w' := fun w' h' =>
    ⟨h', fun hq => absurd hq hquiet, fun hs => absurd hs.quiet hquiet⟩
  rw [wp_bind, wp_tryCatch]
  exact wp_mono (wp_writeState hS.free .rollbackFailed target h.inv.shape.tmp h.inv.shape.marker)
    (Post.orCut_imp (fun _ w' h' => hended w' (h.marked hS h'))
      (fun _ w' h' => hended w' (h.inv.marking hS h')) fun w' h' => h.inv.marking hS h')

theorem Cleaning.markable (hS : Setting T A B G) (h : Cleaning w w') (hinv : Invariant A B G up w)
    (hG : A → G w.root) (hkept : A → G (w.slot rollbackName).folder) (hrunning : w.running = true)
    (hphase : w.phase = some .rollingBack) (hhandling : w.handling = true)
    (hready : w.rollbackReady = true) (hstruck : T.struck .fail w') : Markable A B G up w' where
  inv := h.invariant hS hinv hG (fun _ _ => hrunning) hstruck
  kept hA hthere := by
    have hin : w'.phase ∈ rollbackPhases.map some := by
      rcases h.order with ⟨hstate, _⟩ | ⟨_, hnone⟩
      · rw [World.phase_congr hstate, hphase]
        decide
      · exact absurd hnone hthere
    rw [(h.whole (hS.whole hA _ _ hstruck) hthere hin).2]
    exact hkept hA
  live hA _ := hS.closed _ _ h.sameLive (hG hA)
  there hB hnone := by
    obtain ⟨husable, hmarked⟩ := hS.usable hB _ _ hstruck
    rcases h.order with ⟨hstate, _⟩ | ⟨hstate, _⟩
    · refine husable hnone ?_
      rw [World.phase_congr hstate, hphase]
      decide
    · refine hmarked ⟨rfl, ?_, ?_, hstate⟩
      · rw [h.fields]
        exact hhandling
      · rw [h.fields]
        exact hready

/-- The tree before the call is back and the server runs; the cleanup is left. -/
structure Reverted (f₀ : Folder Content) (w : World) : Prop where
  prepared : Prepared f₀ w
  phase : w.phase = some .rollingBack
  live : SameLive f₀ w.root
  running : w.running = true
  handling : w.handling = true

def Reverting (f₀ : Folder Content) (w : World) : Prop :=
  Prepared f₀ w ∧ w.handling = true ∨ ∃ w₀, Reverted f₀ w₀ ∧ Cleaning w₀ w

theorem wp_finishRollback (hT : T.Free) (h : Prepared f₀ w) (hhandling : w.handling = true)
    (hphase : w.phase = some .rollingBack) (hlive : SameLive f₀ w.root) :
    wp T
      (do
        controllerStart
        .assign fun w => { w with stopped := false }
        cleanupTransaction)
      (.orCut (fun _ w' => AllGone w' ∧ SameLive f₀ w'.root ∧ w'.running = true)
        (Reverting f₀)) w := by
  refine wp_seq (wp_controllerStart hT) ?_ ?_
  · rintro _ w₁ rfl
    have hprep₁ := h.server true (w.calls ++ [Call.start]) false w.handling
    rw [wp_bind, wp_assign, Post.next_ok]
    refine wp_mono (wp_cleanupTransaction hT hprep₁.shape)
      (Post.orCut_le (fun _ w₂ h₂ => ⟨h₂.gone, hlive.trans h₂.sameLive, ?_⟩)
        fun w₂ h₂ => Or.inr ⟨_, ⟨hprep₁, hphase, hlive, rfl, hhandling⟩, h₂⟩)
    rw [h₂.fields]
  · rintro w₁ ⟨running, rfl⟩
    exact Or.inl ⟨h.server _ _ _ _, hhandling⟩

theorem wp_applyRollback (hT : T.Free) (h : Prepared f₀ w) (hhandling : w.handling = true)
    (target : String) :
    wp T
      (do
        writeState .rollingBack target
        controllerStop
        syncFrom rollbackName true
        controllerStart
        .assign fun w => { w with stopped := false }
        cleanupTransaction)
      (.orCut (fun _ w' => AllGone w' ∧ SameLive f₀ w'.root ∧ w'.running = true)
        (Reverting f₀)) w := by
  refine wp_seq (wp_writeState hT .rollingBack target h.shape.tmp h.shape.marker)
    (fun _ w₁ h₁ => ?_) fun w₁ h₁ => Or.inl ⟨h.marking h₁, ?_⟩
  · have hprep₁ := h.marked h₁ (by decide)
    have hhandling₁ : w₁.handling = true := by
      rw [h₁.same.1]
      exact hhandling
    have hphase₁ : w₁.phase = some .rollingBack := World.phase_eq h₁.marker
    have hin₁ : w₁.phase ∈ rollbackPhases.map some := by
      rw [hphase₁]
      decide
    refine wp_seq (wp_controllerStop hT) ?_ ?_
    · rintro _ w₂ rfl
      have hprep₂ := hprep₁.server false (w₁.calls ++ [Call.stop]) w₁.stopped w₁.handling
      generalize hw₂ : { w₁ with calls := w₁.calls ++ [Call.stop], running := false } = w₂
        at hprep₂ ⊢
      have hslot₂ : ∀ n, w₂.slot n = w₁.slot n := fun n => by rw [← hw₂]; rfl
      have hphase₂ : w₂.phase = w₁.phase := World.phase_congr (hslot₂ _)
      have hhandling₂ : w₂.handling = true := by
        rw [← hw₂]
        exact hhandling₁
      -- wherever the copy is cut, the rollback is whole and the next run starts over
      have hcut : ∀ w₃, SameNames w₂ w₃ → Prepared f₀ w₃ ∧ w₃.handling = true := by
        intro w₃ h₃
        refine ⟨hprep₂.sameNames (hphase₂ ▸ hin₁) h₃, ?_⟩
        rw [h₃.1]
        exact hhandling₂
      rw [wp_bind]
      refine wp_mono (wp_syncFrom hT rollbackName true) ⟨fun _ w₃ h₃ => ?_, fun _ w₃ h₃ => ?_,
        fun _ w₃ h₃ => Or.inl (hcut w₃ h₃), fun w₃ h₃ => Or.inl (hcut w₃ h₃)⟩
      · obtain ⟨hprep₃, hhandling₃⟩ := hcut w₃ h₃.1
        have hlive₃ : SameLive f₀ w₃.root := hprep₂.copy.trans h₃.2.2.sameLive
        have hphase₃ : w₃.phase = some .rollingBack := by
          rw [World.phase_congr (h₃.1.2 _ state_mem), hphase₂, hphase₁]
        exact wp_finishRollback hT hprep₃ hhandling₃ hphase₃ hlive₃
      · -- the rollback is a directory without transaction names
        obtain ⟨n, hn, hreserved⟩ := h₃.2 hprep₂.isDir
        have hfree := (hprep₂.shape.rollback.resolve_left hprep₂.rollback_ne).2
        exact hreserved (hfree n hn)
    · rintro w₂ ⟨running, rfl⟩
      exact Or.inl ⟨hprep₁.server _ _ _ _, hhandling₁⟩
  · rw [h₁.same.1]
    exact hhandling

theorem Reverting.markable (hS : Setting T A B G) (h : Reverting f₀ w) (hG : A → G f₀)
    (hstruck : T.struck .fail w) : Markable A B G up w ∧ ¬ Quiet T := by
  rcases h with ⟨hprep, hhandling⟩ | ⟨w₀, h₀, hclean⟩
  · refine ⟨hprep.markable hS hG, fun hq => ?_⟩
    rw [(hq _ _ hstruck).2] at hhandling
    cases hhandling
  · refine ⟨hclean.markable hS (h₀.prepared.invariant hS hG) (fun hA => hS.closed _ _ h₀.live (hG hA))
      (fun hA => hS.closed _ _ h₀.prepared.copy (hG hA)) h₀.running h₀.phase h₀.handling
      h₀.prepared.ready hstruck, fun hq => ?_⟩
    have hhandling := (hq _ _ hstruck).2
    rw [hclean.fields, h₀.handling] at hhandling
    cases hhandling

theorem Reverting.invariant (hS : Setting T A B G) (h : Reverting f₀ w) (hG : A → G f₀)
    (hstruck : T.struck .kill w) : Invariant A B G up w := by
  rcases h with ⟨hprep, _⟩ | ⟨w₀, h₀, hclean⟩
  · exact hprep.invariant hS hG
  · exact hclean.invariant hS (h₀.prepared.invariant hS hG)
      (fun hA => hS.closed _ _ h₀.live (hG hA)) (fun _ _ => h₀.running) hstruck

theorem Ended.of_gone (hS : Setting T A B G) (hG : A → G f₀) (hgone : AllGone w)
    (hlive : SameLive f₀ w.root) (hup : B → up → w.running = true)
    (hasked : Call.stop ∈ w.calls → w.running = true) : Ended T A B G up f₀ w where
  inv := .of_gone hgone (fun hA => hS.closed _ _ hlive (hG hA)) hup
  quiet _ := ⟨hlive, hgone _ rollback_mem, hgone _ state_mem, hasked⟩
  still _ := hgone

theorem wp_undoPreparing (hS : Setting T A B G) (h : Preparing B up f₀ w) (hG : A → G f₀)
    (hstopped : w.stopped = false) (hhandling : w.handling = true) (e : Exn) {Q : Unit → World → Prop} :
    wp T (cleanupTransaction >>= fun _ => throw e)
      ⟨Q, fun _ => Ended T A B G up f₀, fun _ => Ended T A B G up f₀, Invariant A B G up⟩ w := by
  obtain ⟨hasked, hup⟩ := h.asked hstopped
  have hinv : Invariant A B G up w := h.invariant hS hG
  have hG' : A → G w.root := fun hA => hS.closed _ _ h.live (hG hA)
  rw [wp_bind]
  refine wp_mono (wp_marked (wp_cleanupTransaction hS.free h.shape)) ⟨fun _ w' h' => ?_,
    fun _ _ h => h.elim, fun _ w' h' => ?_, fun w' h' => h'.1.invariant hS hinv hG' hup h'.2⟩
  · refine .of_gone hS hG h'.gone (h.live.trans h'.sameLive) ?_ ?_
    · rw [h'.fields]
      exact hup
    · rw [h'.fields]
      exact hasked
  · have hquiet : ¬ Quiet T := by
      intro hq
      have hfalse := (hq _ _ h'.2).2
      rw [h'.1.fields, hhandling] at hfalse
      cases hfalse
    exact ⟨h'.1.invariant hS hinv hG' hup h'.2, fun hq => absurd hq hquiet,
      fun hs => absurd hs.quiet hquiet⟩

theorem wp_undoTransaction (hS : Setting T A B G) (h : Interrupted B up f₀ w) (hG : A → G f₀)
    (target : String) (exc : Exn) {Q : Unit → World → Prop} :
    wp T (undoTransaction target exc)
      ⟨Q, fun _ => Ended T A B G up f₀, fun _ => Ended T A B G up f₀,
        Invariant A B G up⟩ w := by
  simp only [undoTransaction]
  rw [wp_bind, wp_assign, Post.next_ok, wp_bind, wp_read, Post.next_ok]
  have h₁ : Interrupted B up f₀ { w with handling := true } := h.imp
    (fun h => ⟨h.shape.congr rfl rfl h.shape.tmp, h.live, h.early, h.notReady, h.asked⟩)
    fun h => h.server w.running w.calls w.stopped true
  have hhandling : { w with handling := true }.handling = true := rfl
  generalize { w with handling := true } = w₁ at h₁ hhandling ⊢
  -- before the rollback is ready nothing was changed; afterwards it is copied back
  rcases h₁ with hprep | hprep
  · rw [hprep.notReady]
    simp only [Bool.false_eq_true, if_false]
    rw [wp_bind, wp_read, Post.next_ok]
    by_cases hstopped : w₁.stopped = true
    · rw [if_pos hstopped, wp_bind, wp_tryCatch, wp_bind]
      have hended : ∀ w₂, Preparing B up f₀ w₂ → w₂.handling = true →
          T.struck .fail w₂ → Ended T A B G up f₀ w₂ := by
        intro w₂ h₂ hhandling₂ hstruck
        have hquiet : ¬ Quiet T := by
          intro hq
          rw [(hq _ _ hstruck).2] at hhandling₂
          cases hhandling₂
        exact ⟨h₂.invariant hS hG, fun hq => absurd hq hquiet, fun hs => absurd hs.quiet hquiet⟩
      have hcut : ∀ running, Preparing B up f₀
          { w₁ with calls := w₁.calls ++ [Call.start], running := running } := fun running =>
        hprep.server running _ w₁.stopped w₁.handling fun h => by
          rw [hstopped] at h
          cases h
      refine wp_mono (wp_marked (wp_controllerStart hS.free)) ⟨?_, fun _ _ h => h.elim, ?_, ?_⟩
      · rintro _ w₂ rfl
        rw [Post.next_ok, wp_assign]
        exact wp_undoPreparing hS (hprep.server true _ false _ fun _ => rfl) hG rfl hhandling _
      · rintro e w₂ ⟨⟨running, rfl⟩, hstruck⟩
        exact hended _ (hcut running) hhandling hstruck
      · rintro w₂ ⟨⟨running, rfl⟩, _⟩
        exact (hcut running).invariant hS hG
    · rw [if_neg hstopped]
      exact wp_undoPreparing hS hprep hG (Bool.eq_false_iff.mpr hstopped) hhandling _
  · rw [if_pos hprep.ready, wp_bind, wp_tryCatch]
    refine wp_mono (wp_marked (wp_applyRollback hS.free hprep hhandling target))
      ⟨fun _ w' h' => ?_, fun _ _ h => h.elim, fun _ w' h' => ?_,
        fun w' h' => h'.1.invariant hS hG h'.2⟩
    · exact .of_gone hS hG h'.1 h'.2.1 (fun _ _ => h'.2.2) fun _ => h'.2.2
    · have hmarkable : Markable A B G up w' ∧ ¬ Quiet T := h'.1.markable hS hG h'.2
      exact wp_markFailed hS hmarkable.1 hmarkable.2 target _

/-! ### The whole transaction -/

theorem Applied.invariant {stage : Folder Content} (h : Applied stage f₀ w)
    (hG : A → G w.root) : Invariant A B G up w where
  shape := h.shape
  held hA := by
    refine ⟨fun _ => hG hA, fun _ hin => ?_⟩
    rw [h.phase] at hin
    exact absurd hin (by decide)
  recoverable _ := by
    refine ⟨fun _ => ?_, fun _ => h.running, fun hnone => ?_⟩
    · rw [h.phase]
      decide
    · have hphase := h.phase
      rw [World.phase_none hnone] at hphase
      cases hphase

def Fulfilled (request : Request) (f f' : Folder Content) : Prop :=
  ∃ target archive, request.resolved = .ok (target, archive) ∧
    Restored (extractedTree archive).folder f f'

structure Finished (T : Terms World Empty) (A B : Prop) (G : Folder Content → Prop) (up : Prop)
    (request : Request) (f₀ : Folder Content) (w : World) : Prop where
  inv : Invariant A B G up w
  live : Fulfilled request f₀ w.root
  running : w.running = true
  still : Still T → AllGone w

theorem Restored.trans_sameLive {stage f f' f'' : Folder Content} (h : Restored stage f f')
    (h' : SameLive f' f'') : Restored stage f f'' := fun n hn => by
  rw [← h' n hn, h n hn]

theorem wp_finish (hS : Setting T A B G) {request : Request} {target : String} {archive : Archive}
    (hrequest : request.resolved = .ok (target, archive))
    (h : Applied (extractedTree archive).folder f₀ w)
    (hG : ∀ f', Fulfilled request f₀ f' → A → G f') :
    wp T
      (do
        tryCatch cleanupTransaction fun _ => pure ()
        return target)
      ⟨fun _ => Finished T A B G up request f₀, fun _ _ => False, fun _ _ => False,
        Invariant A B G up⟩ w := by
  have hG' : A → G w.root := hG _ ⟨target, archive, hrequest, h.live⟩
  have hinv : Invariant A B G up w := h.invariant hG'
  rw [wp_bind, wp_tryCatch]
  refine wp_mono (wp_marked (wp_cleanupTransaction hS.free h.shape)) ⟨fun _ w' h' => ?_,
    fun _ _ h' => h'.elim, fun _ w' h' => ?_,
    fun w' h' => h'.1.invariant hS hinv hG' (fun _ _ => h.running) h'.2⟩
  · have hlive := h.live.trans_sameLive h'.sameLive
    have hrunning : w'.running = true := by
      rw [h'.fields]
      exact h.running
    exact ⟨.of_gone h'.gone (hG _ ⟨target, archive, hrequest, hlive⟩) fun _ _ => hrunning,
      ⟨target, archive, hrequest, hlive⟩, hrunning, fun _ => h'.gone⟩
  · refine ⟨h'.1.invariant hS hinv hG' (fun _ _ => h.running) h'.2,
      ⟨target, archive, hrequest, h.live.trans_sameLive h'.1.sameLive⟩, ?_,
      fun hs => absurd h'.2 (hs _ _)⟩
    rw [h'.1.fields]
    exact h.running

theorem wp_markedTransaction (hS : Setting T A B G) {request : Request} {target : String}
    {archive : Archive} (hrequest : request.resolved = .ok (target, archive))
    (h : Preparing B up f₀ w) (hrollback : w.slot rollbackName = none)
    (hstage : w.slot stageName = extractedTree archive) (hG₀ : A → G f₀)
    (hG : ∀ f', Fulfilled request f₀ f' → A → G f') :
    wp T
      (do
        tryCatch (applyTransaction request target) (undoTransaction target)
        tryCatch cleanupTransaction fun _ => pure ()
        return target)
      ⟨fun _ => Finished T A B G up request f₀, fun _ => Ended T A B G up f₀,
        fun _ => Ended T A B G up f₀, Invariant A B G up⟩ w := by
  rw [wp_bind, wp_tryCatch]
  refine wp_mono (wp_applyTransaction hS.free request target h hrollback)
    ⟨fun _ w₁ h₁ => ?_, fun e w₁ h₁ => wp_undoTransaction hS h₁.1 hG₀ target e,
      fun e w₁ h₁ => wp_undoTransaction hS h₁ hG₀ target e, fun w₁ h₁ => h₁.invariant hS hG₀⟩
  rw [hstage] at h₁
  exact wp_mono (wp_finish hS hrequest h₁ hG)
    ⟨fun _ _ h => h, fun _ _ h => h.elim, fun _ _ h => h.elim, fun _ h => h⟩

/-- Nothing is left of an earlier transaction, and this one has not acted yet. -/
structure Fresh (A B : Prop) (G : Folder Content → Prop) (up : Prop) (w : World) : Prop where
  gone : AllGone w
  notReady : w.rollbackReady = false
  idle : w.calls = []
  kept : A → G w.root
  running : B → up → w.running = true

theorem Fresh.asked (h : Fresh A B G up w) : Call.stop ∈ w.calls → w.running = true := by
  rw [h.idle]
  exact nofun

theorem Fresh.ended (hS : Setting T A B G) (h : Fresh A B G up w) : Ended T A B G up w.root w :=
  .of_gone hS h.kept h.gone (.refl _) h.running h.asked

theorem Fresh.noTmp (h : Fresh A B G up w) (hsame : SameBut [stageName] w w') :
    w'.slot stateTmpName = none := by
  rw [hsame.eq_of_ne (by decide)]
  exact h.gone _ stateTmp_mem

theorem Fresh.invariant (hS : Setting T A B G) (h : Fresh A B G up w)
    (hsame : SameBut [stageName, stateTmpName] w w')
    (htmp : w'.slot stateTmpName = none ∨ (w'.slot stateTmpName).isFile = true) :
    Invariant A B G up w' := by
  have hinv : Invariant A B G up w := .of_gone h.gone h.kept h.running
  exact hinv.congr hS (hsame.2 _ (by decide)) (hsame.2 _ (by decide)) htmp
    (fun _ => hsame.sameLive (by decide)) fun _ => by rw [hsame.1]

theorem Fresh.failed (hS : Setting T A B G) (h : Fresh A B G up w)
    (hsame : SameBut [stageName, stateTmpName] w w')
    (htmp : w'.slot stateTmpName = none ∨ (w'.slot stateTmpName).isFile = true)
    (hstruck : T.struck .fail w') : Ended T A B G up w.root w' := by
  refine ⟨h.invariant hS hsame htmp, fun _ => ⟨hsame.sameLive (by decide), ?_, ?_, ?_⟩,
    fun hs => absurd hstruck (hs _ _)⟩
  · rw [hsame.2 _ (by decide)]
    exact h.gone _ rollback_mem
  · rw [hsame.2 _ (by decide)]
    exact h.gone _ state_mem
  · rw [hsame.1]
    exact h.asked

theorem Fresh.refused (hS : Setting T A B G) (h : Fresh A B G up w)
    (hsame : SameBut [stageName] w w') (hstage : w'.slot stageName = none) :
    Ended T A B G up w.root w' := by
  have hgone : AllGone w' := by
    intro n hn
    by_cases heq : n = stageName
    · rw [heq, hstage]
    · rw [hsame.eq_of_ne heq]
      exact h.gone n hn
  refine .of_gone hS h.kept hgone (hsame.sameLive (by decide)) ?_ ?_
  · rw [hsame.1]
    exact h.running
  · rw [hsame.1]
    exact h.asked

theorem Fresh.preparing {w'' : World} (h : Fresh A B G up w) (hsame : SameBut [stageName] w w')
    (hshape : Shape w') {target : String} (hmarked : Marked .staged target w' w'') :
    Preparing B up w.root w'' := by
  have hsame' : SameBut protectedRootNames w w'' :=
    (hsame.mono (by decide)).trans (hmarked.same.mono (by decide))
  refine ⟨hmarked.shape hshape, hsame'.sameLive fun _ h => h, ?_, ?_, ?_⟩
  · rw [World.phase_eq hmarked.marker]
    decide
  · rw [hsame'.1]
    exact h.notReady
  · rw [hsame'.1]
    exact fun _ => ⟨h.asked, h.running⟩

theorem wp_stagedTransaction (hS : Setting T A B G) {request : Request} {target : String}
    {archive : Archive} (hrequest : request.resolved = .ok (target, archive))
    (h : Fresh A B G up w) (hG : ∀ f', Fulfilled request w.root f' → A → G f')
    (hsame : SameBut [stageName] w w') (hstage : w'.slot stageName = extractedTree archive) :
    wp T
      (do
        writeState .staged target
        tryCatch (applyTransaction request target) (undoTransaction target)
        tryCatch cleanupTransaction fun _ => pure ()
        return target)
      ⟨fun _ => Finished T A B G up request w.root, fun _ => Ended T A B G up w.root,
        fun _ => Ended T A B G up w.root, Invariant A B G up⟩ w' := by
  have hwidened : SameBut [stageName, stateTmpName] w w' := hsame.mono (by decide)
  have hshape : Shape w' := (h.invariant hS hwidened (Or.inl (h.noTmp hsame))).shape
  rw [wp_bind]
  refine wp_mono (wp_marked (wp_writeState hS.free .staged target hshape.tmp hshape.marker))
    ⟨fun _ w₂ h₂ => ?_, fun _ _ h => h.elim, fun _ w₂ h₂ => ?_, fun w₂ h₂ => ?_⟩
  · have hrollback : w₂.slot rollbackName = none := by
      rw [h₂.same.2 _ (by decide), hsame.2 _ (by decide)]
      exact h.gone _ rollback_mem
    have hstage₂ : w₂.slot stageName = extractedTree archive := by
      rw [h₂.same.2 _ (by decide)]
      exact hstage
    exact wp_markedTransaction hS hrequest (h.preparing hsame hshape h₂) hrollback hstage₂ h.kept hG
  · exact h.failed hS (hwidened.trans (h₂.1.same.mono (by decide))) h₂.1.tmp h₂.2
  · exact h.invariant hS (hwidened.trans (h₂.1.same.mono (by decide))) h₂.1.tmp

theorem wp_newTransaction (hS : Setting T A B G) (request : Request) (hgone : AllGone w)
    (hready : w.rollbackReady = false) (hcalls : w.calls = [])
    (hG₀ : A → G w.root) (hup : B → up → w.running = true)
    (hG : ∀ f', Fulfilled request w.root f' → A → G f') :
    wp T (newTransaction request)
      ⟨fun _ => Finished T A B G up request w.root, fun _ => Ended T A B G up w.root,
        fun _ => Ended T A B G up w.root, Invariant A B G up⟩ w := by
  have hfresh : Fresh A B G up w := ⟨hgone, hready, hcalls, hG₀, hup⟩
  have hended : Ended T A B G up w.root w := hfresh.ended hS
  rw [newTransaction, wp_bind, wp_perform]
  refine ⟨⟨hS.free _ _, ?_⟩, fun _ _ => hended, fun _ => hended.inv⟩
  rw [Post.next_ok]
  cases hrequest : request.resolved with
  | error e => exact hended
  | ok found =>
    obtain ⟨target, archive⟩ := found
    simp only
    rw [wp_bind]
    have hextract := wp_marked (wp_zoom (at_ stageName) T _ ((at_ stageName).frame_refl w)
      (wp_extractVerifiedArchive (hS.free.through (at_ stageName) w) archive _))
    refine wp_mono hextract ⟨fun _ w₁ h₁ => ?_, fun e w₁ h₁ => ?_, fun e w₁ h₁ => ?_,
      fun w₁ h₁ => ?_⟩
    · exact wp_stagedTransaction hS hrequest hfresh hG (.of_frame h₁.1) h₁.2
    · have hstage₁ : w₁.slot stageName = none :=
        h₁.2.elim id fun h => h.trans (hgone _ stage_mem)
      exact hfresh.refused hS (.of_frame h₁.1) hstage₁
    · have hsame₁ := SameBut.of_frame h₁.1.1
      exact hfresh.failed hS (hsame₁.mono (by decide)) (Or.inl (hfresh.noTmp hsame₁)) h₁.2
    · have hsame₁ := SameBut.of_frame h₁.1.1
      exact hfresh.invariant hS (hsame₁.mono (by decide)) (Or.inl (hfresh.noTmp hsame₁))

end

end RestoreWorker
