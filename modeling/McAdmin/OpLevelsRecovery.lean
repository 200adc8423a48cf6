import McAdmin.OpLevelsInvariant

/-!
# Undoing an application of op levels

The specifications of the steps, of the handler and of the recovery.
-/

namespace OpLevelsWorker

open CrashLogic PendingOpLevels

variable {lower : String → String} {T : Terms (World lower) Request} {s : World lower}
  {R S : Queue lower → Site → String → Int → Prop} {G H : Queue lower → Site → Prop}
  {requested : List PendingOpLevel} {E : Site → Prop}

/-! ### Steps -/

theorem wp_replaceFile (hT : Surroundings T) {f : Site → Site}
    (hstep : ∀ q x, G q x → H q (f x) ∧ ∀ key level, R q x key level → S q (f x) key level)
    {P : World lower → Prop} (hP : ∀ s, Tracked R G s → P s) (hP' : ∀ s, Tracked S H s → P s)
    (hs : Tracked R G s) :
    wp T (replaceFile f) (.orCut (fun _ => Tracked S H) P) s := by
  unfold replaceFile
  refine wp_seq (wp_onSite hT hstep hs) ?_ hP
  intro _ s₁ hs₁
  exact wp_mono (wp_wait hT hs₁) (Post.orCut_le (fun _ _ h => h) hP')

theorem wp_controller (hT : Surroundings T) {up : Bool}
    (hG : ∀ q x, G q x → G q { x with running := up })
    (hR : ∀ q x key level, R q x key level → R q { x with running := up } key level)
    (hs : Tracked R G s) :
    wp T (do
        onSite fun x => { x with running := up }
        .performShared .ok : Worker lower Unit)
      (.orCut (fun _ => Tracked R G) (Tracked R G)) s := by
  refine wp_seq (wp_onSite hT (fun q x h => ⟨hG q x h, hR q x⟩) hs) ?_ fun _ h => h
  intro _ s₁ hs₁
  exact wp_wait hT hs₁

theorem Undo.weaken {F : Site → Prop} (h : Undo E requested s) (hE : ∀ x, E x → F x) :
    Undo F requested s := ⟨h.1, h.2.1, hE _ h.2.2⟩

theorem wp_stop_undo (hT : Surroundings T) (hE : ∀ x, E x → E { x with running := false })
    (hs : Undo E requested s) :
    wp T controllerStop (.orCut (fun _ => Undo E requested) (Undo E requested)) s :=
  wp_controller hT (fun _ x h => ⟨h.1, hE x h.2⟩) (fun _ _ _ _ h => h) hs

theorem wp_start_undo (hT : Surroundings T) (hE : ∀ x, E x → E { x with running := true })
    (hs : Undo E requested s) :
    wp T controllerStart (.orCut (fun _ => Undo E requested) (Undo E requested)) s :=
  wp_controller hT (fun _ x h => ⟨h.1, hE x h.2⟩) (fun _ _ _ _ h => h) hs

theorem wp_cleanup (hT : Surroundings T) (hs : Settled s) :
    wp T (cleanup : Worker lower Unit) (.orCut (fun _ => Clean) Settled) s := by
  unfold cleanup
  let gone : Queue lower → Site → Prop := fun _ x => x.rollback = none
  let done : Queue lower → Site → Prop := fun _ x => x.journal = none ∧ x.rollback = none
  have hgone : ∀ s, Tracked (onFiles SettledRow) gone s → Settled s :=
    fun _ h => ⟨h.1, fun _ => h.2⟩
  have hdone : ∀ s, Tracked (onFiles SettledRow) done s → Settled s :=
    fun _ h => ⟨h.1, fun _ => h.2.2⟩
  refine wp_seq (Q := fun _ => Tracked (onFiles SettledRow) gone) (wp_onSite hT ?_ hs) ?_
    fun _ h => h
  · exact fun _ _ _ => ⟨rfl, fun _ _ h => h.unlink_rollback⟩
  · intro _ s₁ hs₁
    refine wp_seq (Q := fun _ => Tracked (onFiles SettledRow) done) (wp_onSite hT ?_ hs₁) ?_ hgone
    · exact fun _ _ h => ⟨⟨rfl, h⟩, fun _ _ h => h.unlink_journal⟩
    · intro _ s₂ hs₂
      refine wp_mono (wp_wait hT hs₂) (Post.orCut_le ?_ hdone)
      intro _ s₃ hs₃
      exact ⟨hs₃.1.mono fun _ _ h => h.safe.kept, hs₃.2⟩

def Undoing (claimed : List PendingOpLevel) (s : World lower) : Prop :=
  Undo (fun _ => True) claimed s ∨ Settled s

theorem Undoing.safe (h : Undoing requested s) (hcut : ¬ Torn s) : Safe s := by
  rcases h with h | h
  · exact h.safe hcut
  · exact h.safe

theorem Undo.undoing (h : Undo E requested s) : Undoing requested s :=
  Or.inl (h.weaken fun _ _ => trivial)

theorem wp_restoreClaim_undo (hT : Surroundings T) (hs : Undo E requested s) :
    wp T (restoreClaim requested : Worker lower Unit)
      (.orCut (fun _ => Settled) (Undoing requested)) s := by
  refine wp_mono (wp_restoreClaim hT (S := onFiles SettledRow) ?_ ?_ ?_ hs) (Post.orCut_le ?_ ?_)
  · exact fun _ _ _ _ _ hrow _ hl => hrow.1.given hl
  · exact fun _ _ _ _ _ hrow hclaimed hqueue => hrow.settled hclaimed hqueue
  · exact fun _ _ _ _ hrow => hrow.clear
  · rintro _ s₁ ⟨_, x, hx, hrow, _, rfl⟩
    exact ⟨hrow, hx.1⟩
  · rintro s₁ (h | ⟨_, x, hx, hrow, rfl⟩)
    · exact Undo.undoing h
    · exact Or.inr ⟨hrow, hx.1⟩

theorem wp_restoreRollback (hT : Surroundings T)
    (hs : Undo (fun x => x.rollback ≠ none) requested s) :
    wp T (restoreRollback : Worker lower Unit)
      (.orCut (fun _ => Undo (fun _ => True) requested) (Undoing requested)) s := by
  unfold restoreRollback
  rw [wp_read_bind]
  obtain ⟨data, hdata⟩ := Option.ne_none_iff_exists'.mp hs.2.2
  simp only [hdata]
  let kept : Queue lower → Site → Prop := fun _ x => Paired x.toFiles ∧ x.rollback = some data
  have hs' : Tracked (onFiles (UndoRow requested)) kept s := ⟨hs.1, hs.2.1, hdata⟩
  change wp T _ (.orCut (fun _ => Tracked (onFiles (UndoRow requested))
    fun _ x => Paired x.toFiles ∧ True) (Undoing requested)) s
  refine wp_replaceFile hT ?_ ?_ ?_ hs'
  · exact fun _ x h => ⟨⟨h.1, trivial⟩, fun _ _ hrow => hrow.restored h.1 h.2⟩
  · exact fun s₁ h => Undo.undoing (E := fun x => x.rollback = some data) h
  · exact fun s₁ h => Undo.undoing (E := fun _ => True) h

/-! ### The recovery -/

theorem wp_startRestoreCleanup (hT : Surroundings T) (hs : Undo E requested s)
    (hE : ∀ x, E x → E { x with running := true }) :
    wp T (do
        controllerStart
        restoreClaim requested
        cleanup : Worker lower Unit)
      (.orCut (fun _ => Clean) (Undoing requested)) s := by
  refine wp_seq (wp_start_undo hT hE hs) ?_ fun _ h => h.undoing
  intro _ s₁ hs₁
  refine wp_seq (wp_restoreClaim_undo hT hs₁) ?_ fun _ h => h
  intro _ s₂ hs₂
  exact wp_mono (wp_cleanup hT hs₂) (Post.orCut_le (fun _ _ h => h) fun _ h => Or.inr h)

theorem wp_restoreKept (hT : Surroundings T) (hs : Undo (fun _ => True) requested s) :
    wp T (restoreKept : Worker lower Unit)
      (.orCut (fun _ => Undo (fun _ => True) requested) (Undoing requested)) s := by
  unfold restoreKept
  rw [wp_read_bind]
  split
  · rename_i hrollback
    have hs' : Undo (fun x => x.rollback ≠ none) requested s :=
      ⟨hs.1, hs.2.1, Option.isSome_iff_ne_none.mp hrollback⟩
    refine wp_seq (wp_stop_undo hT (fun _ h => h) hs') ?_ fun _ h => h.undoing
    intro _ s₁ hs₁
    exact wp_restoreRollback hT hs₁
  · exact hs

theorem wp_undoInterrupted (hT : Surroundings T) (hs : Undo (fun _ => True) requested s) :
    wp T (undoInterrupted requested : Worker lower Unit)
      (.orCut (fun _ => Clean) (Undoing requested)) s := by
  unfold undoInterrupted
  refine wp_seq (wp_restoreKept hT hs) ?_ fun _ h => h
  intro _ s₁ hs₁
  exact wp_startRestoreCleanup hT hs₁ fun _ h => h

structure Guarded (T : Terms (World lower) Request) : Prop extends Surroundings T where
  spared : ∀ k s, T.struck k s → Spared k s

theorem wp_undone (hT : Guarded T) {p : Worker lower Unit}
    (h : wp T p (.orCut (fun _ => Clean) (Undoing requested)) s) {α : Type}
    (text text' : Failure) :
    wp T (do
        tryCatch p fun _ => throw text
        throw text' : Worker lower α)
      ⟨fun _ _ => False, fun _ => Safe, fun _ => Safe, Safe⟩ s := by
  rw [wp_bind, wp_tryCatch]
  refine wp_mono (wp_marked h) ⟨?_, ?_, ?_, ?_⟩
  · exact fun _ _ hclean => hclean.safe
  · exact fun _ _ hfalse => hfalse.elim
  · exact fun _ s₁ h₁ => h₁.1.safe (hT.spared _ _ h₁.2).1
  · exact fun s₁ h₁ => h₁.1.safe (hT.spared _ _ h₁.2).1

theorem wp_readState (hT : Guarded T) {j : Journal} (hs : Safe s)
    (hj : s.site.journal = some j) :
    wp T (readState (some j) : Worker lower _)
      (.orCut (fun r s' => (r = (some j.phase, j.requested, j.unresolved) ∧ Safe s' ∧
          s'.site.journal = some j) ∨ (r = (none, [], []) ∧ Undo (fun _ => True) [] s')) Safe) s := by
  unfold readState
  simp only [wp_tryCatch]
  let G : Queue lower → Site → Prop :=
    fun _ x => Paired x.toFiles ∧ x.journal = some j ∧ x.readingState = true
  have hread : Tracked (onFiles SafeRow) G
      { s with site := { s.site with readingState := true } } :=
    ⟨hs.1, hs.2, hj, rfl⟩
  unfold setLocal
  rw [wp_assign_bind, wp_bind]
  refine wp_mono (wp_marked (wp_wait hT.toSurroundings hread)) ⟨?_, ?_, ?_, ?_⟩
  · intro _ s₁ hs₁
    exact Or.inl ⟨rfl, ⟨hs₁.1, hs₁.2.1⟩, hs₁.2.2.1⟩
  · exact fun _ _ hfalse => hfalse.elim
  · rintro _ s₁ ⟨hs₁, hstruck⟩
    have hfading : ¬ Fading s₁ := fun h => (hT.spared _ _ hstruck).2 ⟨rfl, h⟩
    have hsafe : Safe s₁ := ⟨hs₁.1, hs₁.2.1⟩
    exact Or.inr ⟨rfl, (hsafe.undo_of_unreadable hs₁.2.2.2 hfading hs₁.2.2.1).1,
      hs₁.2.1, trivial⟩
  · rintro s₁ ⟨hs₁, _⟩
    exact ⟨hs₁.1, hs₁.2.1⟩

theorem wp_completeInterrupted (hT : Surroundings T) {j : Journal} (hs : Safe s)
    (hj : s.site.journal = some j) (hphase : j.phase = .committed) :
    wp T (do
        completeClaim j.unresolved
        cleanup : Worker lower Unit)
      (.orCut (fun _ => Clean) Safe) s := by
  have hs' : Tracked (onFiles SafeRow)
      (fun _ x => Paired x.toFiles ∧ x.journal = some j) s := ⟨hs.1, hs.2, hj⟩
  refine wp_seq (Q := fun _ => Settled) (P := Safe) ?_ ?_ fun _ h => h
  · refine wp_mono (wp_completeClaim hT (S := onFiles SettledRow) ?_ ?_ ?_ hs')
      (Post.orCut_le ?_ ?_)
    · intro q x key level hG hrow l hl
      exact ((hrow.1.2 j hG.2).unresolved l hl).1
    · intro q x key level hG hrow hunresolved
      refine ⟨hrow.2 j hG.2 hphase hunresolved, (hrow.1.2 j hG.2).applying, fun j' hj' => ?_⟩
      obtain rfl : j = j' := Option.some.inj (hG.2.symm.trans hj')
      exact ⟨hrow.1.2 j hG.2, hunresolved, fun hnot => absurd hphase hnot⟩
    · exact fun _ _ _ _ hrow => hrow.clear
    · rintro _ s₁ ⟨_, x, hx, hrow, _, rfl⟩
      exact ⟨hrow, hx.1⟩
    · rintro s₁ (h | ⟨_, x, hx, hrow, rfl⟩)
      · exact ⟨h.1, h.2.1⟩
      · exact Settled.safe ⟨hrow, hx.1⟩
  · intro _ s₁ hs₁
    exact wp_mono (wp_cleanup hT hs₁) (Post.orCut_le (fun _ _ h => h) fun _ h => h.safe)

theorem wp_recoverFrom (hT : Guarded T) {phase : Option Phase}
    (hphase : phase ≠ some .committed) (unresolved : List PendingOpLevel)
    (hs : Undo (fun _ => True) requested s) :
    wp T (recoverFrom phase requested unresolved : Worker lower Unit)
      ⟨fun _ => Clean, fun _ => Safe, fun _ => Safe, Safe⟩ s := by
  unfold recoverFrom
  rw [if_neg hphase]
  exact wp_mono (wp_undone hT (wp_undoInterrupted hT.toSurroundings hs) _ _)
    ⟨fun _ _ h => h.elim, fun _ _ h => h, fun _ _ h => h, fun _ h => h⟩

theorem wp_recoverInterrupted (hT : Guarded T) (hs : Safe s) :
    wp T (recoverInterrupted : Worker lower Unit)
      ⟨fun _ => Clean, fun _ => Safe, fun _ => Safe, Safe⟩ s := by
  unfold recoverInterrupted
  rw [wp_read_bind]
  split
  · rename_i hnothing
    exact hs.clean (Option.isNone_iff_eq_none.mp hnothing.2)
  · rename_i hsomething
    have hjournal : s.site.journal ≠ none := by
      intro hnone
      apply hsomething
      rw [hs.2 hnone, hnone]
      exact ⟨rfl, rfl⟩
    obtain ⟨j, hj⟩ := Option.ne_none_iff_exists'.mp hjournal
    rw [hj, wp_bind]
    refine wp_mono (wp_readState hT hs hj) (Post.orCut_imp ?_ (fun _ _ h => h) fun _ h => h)
    rintro r s₁ (⟨rfl, hs₁, hj₁⟩ | ⟨rfl, hs₁⟩)
    · by_cases hphase : j.phase = .committed
      · simp only [Post.next_ok, recoverFrom, hphase, if_true]
        exact wp_mono (wp_completeInterrupted hT.toSurroundings hs₁ hj₁ hphase)
          (Post.orCut_imp (fun _ _ h => h) (fun _ _ h => h) fun _ h => h)
      · have hphase' : some j.phase ≠ some Phase.committed := fun h => hphase (Option.some.inj h)
        exact wp_recoverFrom hT hphase' _ ((hs₁.undo hj₁).weaken fun _ _ => trivial)
    · have hphase : (none : Option Phase) ≠ some .committed := nofun
      exact wp_recoverFrom hT hphase _ hs₁

end OpLevelsWorker
