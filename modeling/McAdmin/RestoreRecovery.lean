import McAdmin.RestoreInvariant

/-!
# The recovery of an interrupted transaction

From any state the invariant allows, the recovery keeps it at every step, and
when it ends it leaves no transaction behind, or refuses because the rollback is
missing, which the invariant excludes where it promises that a run can recover.
-/

namespace RestoreWorker

open CrashLogic FileTree

section

variable {T : Terms World Empty} {A B : Prop} {G : Folder Content → Prop} {up : Prop}
  {w w' : World}

theorem wp_cleanup (hS : Setting T A B G) (hinv : Invariant A B G up w) (hG : A → G w.root)
    (hup : B → up → w.running = true) :
    wp T cleanupTransaction
      (.orCut (fun _ w' => CleanedUp w w' ∧ Invariant A B G up w') (Invariant A B G up)) w := by
  refine wp_mono (wp_marked (wp_cleanupTransaction hS.free hinv.shape)) ⟨fun _ w' h => ?_,
    fun _ _ h => h, fun _ w' h => h.1.invariant hS hinv hG hup h.2,
    fun w' h => h.1.invariant hS hinv hG hup h.2⟩
  refine ⟨h, .of_gone h.gone (fun hA => hS.closed _ _ h.sameLive (hG hA)) fun hB hup' => ?_⟩
  rw [h.fields]
  exact hup hB hup'

theorem Synced.sameLive {source f f' : Folder Content}
    (h : Synced source protectedRootNames true f f') : SameLive source f' := by
  intro n hn
  by_cases hnone : source.get n = none
  · rw [hnone, h.absent n hn hnone, if_pos rfl]
  · exact (h.copied n hnone).symm

/-- How a recovery ends.  It raises with the transaction closed, except when it
refuses to go on. -/
def recovered (A B : Prop) (G : Folder Content → Prop) (up : Prop) (w : World) :
    Post World Exn (Option String) where
  ok r w' := AllGone w' ∧ SameLive w.root w'.root ∧ Invariant A B G up w' ∧
    (r = none → w.slot stateName = none ∧ w' = { w with root := w'.root }) ∧
    (r ≠ none → B → w'.running = true)
  raised e w' := Invariant A B G up w' ∧ w'.slot rollbackName = none ∧
    (B → e ≠ .message refusalMessage ∧ AllGone w' ∧ w'.running = true)
  failed _ := Invariant A B G up
  killed := Invariant A B G up

theorem Invariant.running (hS : Setting T A B G) (hinv : Invariant A B G up w)
    (hmarker : w.slot stateName ≠ none) (hphase : w.phase ≠ some .started)
    (calls : List Call) (running : Bool) :
    Invariant A B G up { w with calls := calls, running := running } :=
  hinv.congr hS rfl rfl hinv.shape.tmp (fun _ => .refl _)
    fun h => (h.elim (absurd · hmarker) (absurd · hphase))

theorem wp_restart (hS : Setting T A B G) (hinv : Invariant A B G up w) (hG : A → G w.root)
    (hmarker : w.slot stateName ≠ none) (hphase : w.phase ≠ some .started) {text : String}
    (htext : text ≠ refusalMessage) (w₀ : World) :
    wp T (do
        controllerStart
        cleanupTransaction
        throw (.message text))
      (recovered A B G up w₀) w := by
  rw [wp_bind]
  refine wp_mono (wp_controllerStart hS.free) (Post.orCut_imp ?_ ?_ ?_)
  · rintro _ w₁ rfl
    have hinv₁ := hinv.running hS hmarker hphase (w.calls ++ [.start]) true
    rw [Post.next_ok, wp_bind]
    refine wp_mono (wp_cleanup hS hinv₁ hG fun _ _ => rfl)
      (Post.orCut_imp ?_ (fun _ _ h => h) fun _ h => h)
    rintro _ w₂ ⟨hclean, hinv₂⟩
    refine ⟨hinv₂, hclean.gone _ rollback_mem, fun _ => ⟨fun h => ?_, hclean.gone, ?_⟩⟩
    · exact htext (Exn.message.inj h)
    · rw [hclean.fields]
  · rintro _ w₁ ⟨running, rfl⟩
    exact hinv.running hS hmarker hphase _ running
  · rintro w₁ ⟨running, rfl⟩
    exact hinv.running hS hmarker hphase _ running

theorem wp_cancel (hS : Setting T A B G) (hinv : Invariant A B G up w)
    (hthere : w.slot rollbackName ≠ none) (hphase : w.phase ∈ rollbackPhases.map some)
    (hmarker : w.slot stateName ≠ none) (hstarted : w.phase ≠ some .started) (w₀ : World) :
    wp T (do
        controllerStop
        syncFrom rollbackName true
        controllerStart
        cleanupTransaction
        throw (.message cancelledMessage))
      (recovered A B G up w₀) w := by
  obtain ⟨hdir, hfree⟩ := hinv.shape.rollback.resolve_left hthere
  have hcond : ¬ (w.slot rollbackName = none ∨ w.phase ∉ rollbackPhases.map some) :=
    fun h => h.elim hthere fun hout => hout hphase
  rw [wp_bind]
  refine wp_mono (wp_controllerStop hS.free) (Post.orCut_imp ?_ ?_ ?_)
  · rintro _ w₁ rfl
    have hinv₁ := hinv.running hS hmarker hstarted (w.calls ++ [Call.stop]) false
    generalize hw₁ : { w with calls := w.calls ++ [Call.stop], running := false } = w₁ at hinv₁ ⊢
    have hslot₁ : ∀ n, w₁.slot n = w.slot n := fun n => by rw [← hw₁]; rfl
    have hphase₁ : w₁.phase = w.phase := World.phase_congr (hslot₁ _)
    -- only the live tree changes, and the rollback is what the next run would use
    have hsame : ∀ w₂, SameNames w₁ w₂ → Invariant A B G up w₂ := by
      intro w₂ h₂
      refine hinv₁.congr hS (h₂.2 _ state_mem) (h₂.2 _ rollback_mem) ?_ ?_ fun _ => ?_
      · rw [h₂.2 _ stateTmp_mem]
        exact hinv₁.shape.tmp
      · rw [hslot₁, hphase₁]
        exact fun h => absurd h hcond
      · rw [h₂.1]
    rw [Post.next_ok, wp_bind]
    refine wp_mono (wp_syncFrom hS.free rollbackName true) ⟨fun _ w₂ h₂ => ?_, fun _ w₂ h₂ => ?_,
      fun _ w₂ h₂ => hsame w₂ h₂, fun w₂ h₂ => hsame w₂ h₂⟩
    · obtain ⟨hnames, _, hsync⟩ := h₂
      rw [hslot₁] at hsync
      refine wp_restart hS (hsame w₂ hnames) (fun hA => ?_) ?_ ?_ (by decide) w₀
      · exact hS.closed _ _ hsync.sameLive ((hinv.held hA).kept hthere hphase)
      · rw [hnames.2 _ state_mem, hslot₁]
        exact hmarker
      · rw [World.phase_congr (hnames.2 _ state_mem), hphase₁]
        exact hstarted
    · -- the rollback is a directory without transaction names
      obtain ⟨n, hn, hreserved⟩ := h₂.2 (by rw [hslot₁]; exact hdir)
      rw [hslot₁] at hreserved
      exact absurd (hfree n hn) hreserved
  · rintro _ w₁ ⟨running, rfl⟩
    exact hinv.running hS hmarker hstarted _ running
  · rintro w₁ ⟨running, rfl⟩
    exact hinv.running hS hmarker hstarted _ running

theorem wp_recoverState (hS : Setting T A B G) (hinv : Invariant A B G up w) {phase : Phase}
    {target : String}
    (hmarker : w.slot stateName = some (Entry.file (.document phase target))) :
    wp T (recoverState (w.slot rollbackName) (some (phase, target))) (recovered A B G up w) w := by
  have hphase : w.phase = some phase := World.phase_eq hmarker
  have hsome : w.slot stateName ≠ none := by
    rw [hmarker]
    exact nofun
  simp only [recoverState, Option.map_some, Option.isNone_some, Bool.false_eq_true, false_or,
    ← hphase]
  by_cases hstarted : w.phase = some .started
  · -- the restored server has started: only the cleanup is left
    rw [if_pos hstarted, wp_bind]
    have hout : w.phase ∉ rollbackPhases.map some := by
      rw [hstarted]
      decide
    refine wp_mono (wp_cleanup hS hinv (fun hA => (hinv.held hA).live (Or.inr hout))
      fun hB _ => (hinv.recoverable hB).started hstarted)
      (Post.orCut_imp ?_ (fun _ _ h => h) fun _ h => h)
    rintro _ w₁ ⟨hclean, hinv₁⟩
    refine ⟨hclean.gone, hclean.sameLive, hinv₁, nofun, fun _ hB => ?_⟩
    rw [hclean.fields]
    exact (hinv.recoverable hB).started hstarted
  rw [if_neg hstarted]
  by_cases hrollback : (w.slot rollbackName).isSome = true ∧ w.phase ∈ rollbackPhases.map some
  · -- the rollback is copied back
    rw [if_pos hrollback]
    have hthere : w.slot rollbackName ≠ none := Option.isSome_iff_ne_none.mp hrollback.1
    exact wp_cancel hS hinv hthere hrollback.2 hsome hstarted w
  rw [if_neg hrollback]
  -- the branches below do without the rollback
  have hcond : w.slot rollbackName = none ∨ w.phase ∉ rollbackPhases.map some := by
    by_cases hnone : w.slot rollbackName = none
    · exact Or.inl hnone
    · exact Or.inr fun h => hrollback ⟨Option.isSome_iff_ne_none.mpr hnone, h⟩
  have hlive : A → G w.root := fun hA => (hinv.held hA).live hcond
  by_cases hearly : w.phase ∈ [.staged, .stopping, .stopped, .rollbackReady].map some
  · rw [if_pos hearly]
    exact wp_restart hS hinv hlive hsome hstarted (by decide) w
  rw [if_neg hearly]
  by_cases hlate : w.phase ∈ [.applied, .starting].map some
  · rw [if_pos hlate]
    exact wp_restart hS hinv hlive hsome hstarted (by decide) w
  rw [if_neg hlate]
  have hstuck : w.phase ∈ stuckPhases.map some := by
    rw [hphase] at hstarted hearly hlate ⊢
    cases phase <;> revert hstarted hearly hlate <;> decide
  have hnone : w.slot rollbackName = none := by
    refine hcond.resolve_right fun h => h ?_
    rw [hphase] at hstuck ⊢
    cases phase <;> revert hstuck <;> decide
  exact ⟨hinv, hnone, fun hB => absurd hstuck ((hinv.recoverable hB).usable hnone)⟩

theorem wp_recoverNothing (hT : T.Free) (hmarker : w.slot stateName = none)
    (hrollback : w.slot rollbackName = none)
    (htmp : w.slot stateTmpName = none ∨ (w.slot stateTmpName).isFile = true) :
    wp T recoverInterruptedTransaction
      (.orCut (fun r w' => r = none ∧ AllGone w' ∧ SameBut [stageName, stateTmpName] w w')
        fun w' => SameBut [stageName] w w') w := by
  simp only [recoverInterruptedTransaction, wp_bind, wp_read, Post.next_ok]
  simp only [hmarker, hrollback, Option.isNone_none, and_self, if_true]
  refine wp_seq (wp_removeAt hT stageName) (fun _ w₁ h₁ => ?_) fun _ h₁ => h₁.1
  have htmp₁ : w₁.slot stateTmpName = none ∨ (w₁.slot stateTmpName).isFile = true := by
    rw [h₁.1.2 _ (by decide)]
    exact htmp
  refine wp_seq (wp_unlinkAt hT htmp₁) (fun _ w₂ h₂ => ?_) fun w₂ h₂ => h₂ ▸ h₁.1
  have hsame : SameBut [stageName, stateTmpName] w w₂ :=
    (h₁.1.mono (by decide)).trans (h₂.1.mono (by decide))
  refine ⟨rfl, ?_, hsame⟩
  simp only [AllGone, protectedRootNames, List.forall_mem_cons, List.not_mem_nil, false_imp_iff,
    implies_true, and_true]
  refine ⟨?_, ?_, ?_, h₂.2⟩
  · rw [h₂.1.2 _ (by decide), h₁.2]
  · rw [hsame.2 _ (by decide), hrollback]
  · rw [hsame.2 _ (by decide), hmarker]

theorem wp_recoverInterruptedTransaction (hS : Setting T A B G) (hinv : Invariant A B G up w) :
    wp T recoverInterruptedTransaction (recovered A B G up w) w := by
  rcases hinv.shape.marker with hnone | ⟨phase, target, hmarker⟩
  · have hrollback := hinv.shape.paired hnone
    have hstage : ∀ w₁, SameBut [stageName] w w₁ → Invariant A B G up w₁ := by
      intro w₁ h₁
      refine hinv.congr hS (h₁.2 _ (by decide)) (h₁.2 _ (by decide)) ?_
        (fun _ => h₁.sameLive (by decide)) fun _ => by rw [h₁.1]
      rw [h₁.2 _ (by decide)]
      exact hinv.shape.tmp
    refine wp_mono (wp_recoverNothing hS.free hnone hrollback hinv.shape.tmp)
      (Post.orCut_imp ?_ (fun _ => hstage) hstage)
    rintro _ w₁ ⟨rfl, hgone, hsame⟩
    refine ⟨hgone, hsame.sameLive (by decide), ?_, fun _ => ⟨hnone, hsame.1⟩,
      fun h => absurd rfl h⟩
    refine .of_gone hgone (fun hA => hS.closed _ _ (hsame.sameLive (by decide))
      ((hinv.held hA).live (Or.inl hrollback))) fun hB hup => ?_
    rw [hsame.1]
    exact (hinv.recoverable hB).idle hnone hup
  · have hread : readState (w.slot stateName) = .ok (some (phase, target)) := by
      rw [hmarker]
      rfl
    have hsome : (w.slot stateName).isNone = false := by
      rw [hmarker]
      rfl
    simp only [recoverInterruptedTransaction, wp_bind, wp_read, Post.next_ok]
    simp only [hsome, Bool.false_eq_true, false_and, if_false, hread]
    exact wp_recoverState hS hinv hmarker

end

end RestoreWorker
