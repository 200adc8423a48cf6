import McAdmin.OpLevelsRecovery

/-!
# No op-level request is lost

The specification of an application, and what it says of any order of requests
and of runs of the worker that are killed or made to raise.
-/

namespace OpLevelsWorker

open CrashLogic PendingOpLevels

variable {lower : String → String} {T : Terms (World lower) Request} {s : World lower}
  {requested : List PendingOpLevel} {E F : Site → Prop}

/-! ### The application -/

/-- From the claim to the end of the `try`: the `applying` file holds what was
claimed, and a journal, once written, says so. -/
structure Working (requested : List PendingOpLevel) (q : Queue lower) (x : Site) : Prop where
  queue : ∀ key, q.level key = levelIn lower requested key
  paired : Paired x.toFiles
  journal : ∀ j, x.journal = some j → j.requested = requested ∧
    ∀ key l, firstLevelIn lower j.unresolved key = some l → levelIn lower requested key = some l
  ready : x.rollbackReady = true → x.rollback ≠ none

/-- A claimed request is held until it is given back; `E` is where the `try` stands. -/
def Applying (E : Site → Prop) (requested : List PendingOpLevel) (s : World lower) : Prop :=
  Tracked (onFiles (HeldRow requested)) (fun q x => Working requested q x ∧ E x) s

def Ready (x : Site) : Prop := x.rollbackReady = true → x.rollback ≠ none

theorem Applying.undo (h : Applying E requested s) : Undo Ready requested s := by
  obtain ⟨hrows, hworking, _⟩ := h
  refine ⟨hrows.mono fun key level hrow => ⟨hrow, fun hj => ?_, fun j hj => ?_⟩,
    hworking.paired, hworking.ready⟩
  · rcases hrow with hrow | ⟨_, hrow | hrow⟩
    · exact Or.inl ((hworking.queue key).trans hrow)
    · exact Or.inl hrow
    · exact Or.inr ⟨hrow.1, hrow.2.1⟩
  · obtain ⟨hrequested, hunresolved⟩ := hworking.journal j hj
    exact hrow.fits hworking.queue hrequested hunresolved

theorem wp_replaceFile_applying (hT : Surroundings T) {f : Site → Site}
    (hE : ∀ (q : Queue lower) x, Working requested q x → E x → Working requested q (f x) ∧ F (f x))
    (hrow : ∀ (q : Queue lower) x key level, Working requested q x → E x →
      HeldRow requested q x.toFiles key level → HeldRow requested q (f x).toFiles key level)
    (hs : Applying E requested s) :
    wp T (replaceFile f)
      (.orCut (fun _ => Applying F requested) (Undo Ready requested)) s := by
  refine wp_replaceFile hT ?_ (fun _ h => Applying.undo (E := E) h)
    (fun _ h => Applying.undo (E := F) h) hs
  exact fun q x h => ⟨hE q x h.1 h.2, fun key level => hrow q x key level h.1 h.2⟩

theorem wp_writeState (hT : Surroundings T) (phase : Phase) {unresolved : List PendingOpLevel}
    (hunresolved : ∀ key l, firstLevelIn lower unresolved key = some l →
      levelIn lower requested key = some l)
    (hE : ∀ x, E x → F { x with journal := some ⟨phase, requested, unresolved⟩ })
    (hs : Applying E requested s) :
    wp T (writeState phase requested unresolved : Worker lower Unit)
      (.orCut (fun _ => Applying F requested) (Undo Ready requested)) s := by
  refine wp_replaceFile_applying hT ?_ (fun _ _ _ _ _ _ h => h) hs
  intro q x hx hEx
  refine ⟨⟨hx.queue, (fun h => nomatch h), ?_, hx.ready⟩, hE x hEx⟩
  intro j hj
  obtain rfl := Option.some.inj hj
  exact ⟨rfl, hunresolved⟩

theorem wp_controller_applying (hT : Surroundings T) {up : Bool}
    (hE : ∀ x, E x → E { x with running := up }) (hs : Applying E requested s) :
    wp T (do
        onSite fun x => { x with running := up }
        .performShared .ok : Worker lower Unit)
      (.orCut (fun _ => Applying E requested) (Undo Ready requested)) s := by
  refine wp_mono (wp_controller hT ?_ (fun _ _ _ _ h => h) hs)
    (Post.orCut_le (fun _ _ h => h) fun _ h => Applying.undo (E := E) h)
  exact fun q x h => ⟨⟨h.1.queue, h.1.paired, h.1.journal, h.1.ready⟩, hE x h.2⟩

theorem wp_writeOps (hT : Surroundings T) {entries : List Entry}
    (hs : Applying (fun x => x.journal ≠ none ∧ entriesOf x.ops = entries) requested s) :
    wp T (writeOps (applyRequestedLevels lower entries requested) : Worker lower Unit)
      (.orCut (fun _ => Applying (fun x => x.journal ≠ none ∧
          entriesOf x.ops = (applyRequestedLevels lower entries requested).entries) requested)
        (Undo Ready requested)) s := by
  unfold writeOps
  split
  · rename_i hchanged
    rw [applied_of_unchanged hchanged]
    exact hs
  · refine wp_replaceFile_applying hT ?_ ?_ hs
    · intro q x hx hEx
      exact ⟨⟨hx.queue, hx.paired, hx.journal, hx.ready⟩, hEx.1, entriesOf_encodeOps _⟩
    · intro q x key level hx hEx hrow
      rcases hrow with hrow | ⟨hasked, hrow | ⟨hqueue, hsteady⟩⟩
      · exact Or.inl hrow
      · exact Or.inr ⟨hasked, Or.inl hrow⟩
      · refine Or.inr ⟨hasked, Or.inr ⟨hqueue, ?_, hsteady.2⟩⟩
        exact inForce_applied_of_unasked hEx.2 hasked hsteady.1

theorem wp_completeApplied (hT : Surroundings T) {entries : List Entry}
    (hs : Applying (fun x =>
        x.journal = some ⟨.committed, requested,
          (applyRequestedLevels lower entries requested).unresolved⟩ ∧
        entriesOf x.ops = (applyRequestedLevels lower entries requested).entries) requested s) :
    wp T (completeClaim (applyRequestedLevels lower entries requested).unresolved :
        Worker lower Unit)
      (.orCut (fun _ => Settled) (Undo Ready requested)) s := by
  let next : Queue lower → Site → String → Int → Prop := fun q x key level =>
    SettledRow q x.toFiles key level ∧ HeldRow requested q x.toFiles key level ∧
      ∃ j, x.journal = some j ∧ j.requested = requested
  refine wp_mono (wp_completeClaim hT (S := next) ?_ ?_ ?_ hs) (Post.orCut_le ?_ ?_)
  · intro q x key level ⟨hx, _⟩ hrow l hl
    rcases hrow with hrow | ⟨hasked, _⟩
    · exact Option.some.inj ((levelIn_of_unresolved hl).symm.trans hrow)
    · rw [levelIn_of_unresolved hl] at hasked
      exact absurd hasked nofun
  -- a resolved request is in force, so that no queue has to hold it
  · rintro q x key level ⟨hx, hjournal, hops⟩ hrow hunresolved
    have hinForce : InForce lower x.ops key level := by
      rcases hrow with hrow | ⟨hasked, hrow | hrow⟩
      · exact (InForce.congr (hops.trans (entriesOf_encodeOps _).symm)).mpr
          (inForce_applied hrow hunresolved)
      · rw [hx.queue, hasked] at hrow
        exact absurd hrow nofun
      · exact hrow.2.1
    obtain ⟨_, hfrom⟩ := hx.journal _ hjournal
    have hfits := HeldRow.fits hrow hx.queue (j := ⟨.committed, requested,
      (applyRequestedLevels lower entries requested).unresolved⟩) rfl hfrom
    refine ⟨⟨hinForce, hfits.applying, fun j hj => ?_⟩, hrow, _, hjournal, rfl⟩
    obtain rfl := Option.some.inj (hjournal.symm.trans hj)
    exact ⟨hfits, hunresolved, fun hnot => absurd rfl hnot⟩
  -- the claim leaves the queue, in which nothing was owed any more
  · rintro q x key level ⟨hsettled, hheld, j, hj, hrequested⟩
    refine ⟨hsettled.clear, ?_, j, hj, hrequested⟩
    rcases hheld with hheld | ⟨hasked, _⟩
    · exact Or.inl hheld
    · rw [← hrequested] at hasked
      have hsteady := ((hsettled.journal j hj).1.unasked hasked).2
      rw [hrequested] at hasked
      exact Or.inr ⟨hasked, Or.inr ⟨rfl, hsteady⟩⟩
  · rintro _ s₁ ⟨_, x, hx, hrow, _, rfl⟩
    exact ⟨hrow.mono fun _ _ h => h.1, hx.1.paired⟩
  · rintro s₁ (h | ⟨_, x, hx, hrow, rfl⟩)
    · exact Applying.undo (E := fun _ => True) ⟨h.1, h.2.1, trivial⟩
    · exact ⟨hrow.mono fun _ _ h => ⟨h.2.1, h.1.safe.1⟩, hx.1.paired, hx.1.ready⟩

theorem wp_applying_seq {α β : Type} {p : Worker lower α} {g : α → Worker lower β}
    {Q : α → World lower → Prop} {Q' : β → World lower → Prop}
    (hp : wp T p (.orCut Q (Undo Ready requested)) s)
    (hg : ∀ a s', Q a s' → wp T (g a) (.orFail Q' (Undo Ready requested) True) s') :
    wp T (p >>= g) (.orFail Q' (Undo Ready requested) True) s :=
  wp_seq_orFail (wp_mono hp (Post.orCut_le_orFail (fun _ _ h => h) fun _ h => h)) hg fun _ h => h

theorem firstLevelIn_nil (key : String) (l : Int) (h : firstLevelIn lower [] key = some l) :
    levelIn lower requested key = some l := nomatch h

theorem wp_applyCopied (hT : Surroundings T) {entries : List Entry}
    (hs : Applying (fun x => (x.journal ≠ none ∧ entriesOf x.ops = entries) ∧ x.rollback ≠ none)
      requested s) :
    wp T (applyCopied requested entries : Worker lower _)
      (.orFail (fun _ => Settled) (Undo Ready requested) True) s := by
  unfold applyCopied setLocal
  rw [wp_assign_bind]
  have hs' : Applying (fun x => x.journal ≠ none ∧ entriesOf x.ops = entries) requested
      { s with site := { s.site with rollbackReady := true } } :=
    ⟨hs.1, ⟨hs.2.1.queue, hs.2.1.paired, hs.2.1.journal, fun _ => hs.2.2.2⟩, hs.2.2.1⟩
  refine wp_applying_seq (wp_writeState hT .rollbackReady
    (F := fun x => x.journal ≠ none ∧ entriesOf x.ops = entries) firstLevelIn_nil ?_ hs') ?_
  · exact fun _ h => ⟨nofun, h.2⟩
  intro _ s₁ hs₁
  refine wp_applying_seq (wp_writeOps hT hs₁) ?_
  intro _ s₂ hs₂
  refine wp_applying_seq (wp_writeState hT .applied (F := fun x =>
    entriesOf x.ops = (applyRequestedLevels lower entries requested).entries) firstLevelIn_nil
    ?_ hs₂) ?_
  · exact fun _ h => h.2
  intro _ s₃ hs₃
  refine wp_applying_seq (wp_controller_applying hT (fun _ h => h) hs₃) ?_
  intro _ s₄ hs₄
  rw [wp_assign_bind]
  have hs₄' : Applying (fun x =>
      entriesOf x.ops = (applyRequestedLevels lower entries requested).entries) requested
      { s₄ with site := { s₄.site with serverMayBeStopped := false } } :=
    ⟨hs₄.1, ⟨hs₄.2.1.queue, hs₄.2.1.paired, hs₄.2.1.journal, hs₄.2.1.ready⟩, hs₄.2.2⟩
  refine wp_applying_seq (wp_writeState hT .committed
    (F := fun x => x.journal = some ⟨.committed, requested,
        (applyRequestedLevels lower entries requested).unresolved⟩ ∧
      entriesOf x.ops = (applyRequestedLevels lower entries requested).entries)
    (fun _ _ => levelIn_of_unresolved) ?_ hs₄') ?_
  · exact fun _ h => ⟨rfl, h⟩
  intro _ s₅ hs₅
  refine wp_applying_seq (wp_completeApplied hT hs₅) ?_
  exact fun _ _ h => h

theorem wp_applyRequests (hT : Surroundings T) (hs : Applying (fun _ => True) requested s) :
    wp T (applyRequests requested : Worker lower _)
      (.orFail (fun _ => Settled) (Undo Ready requested) True) s := by
  unfold applyRequests setLocal
  refine wp_applying_seq (wp_writeState hT .claimed (F := fun x => x.journal ≠ none)
    firstLevelIn_nil (fun _ _ => nofun) hs) ?_
  intro _ s₁ hs₁
  rw [wp_assign_bind]
  have hs₁' : Applying (fun x => x.journal ≠ none) requested
      { s₁ with site := { s₁.site with serverMayBeStopped := true } } :=
    ⟨hs₁.1, ⟨hs₁.2.1.queue, hs₁.2.1.paired, hs₁.2.1.journal, hs₁.2.1.ready⟩, hs₁.2.2⟩
  refine wp_applying_seq (wp_controller_applying hT (fun _ h => h) hs₁') ?_
  intro _ s₂ hs₂
  refine wp_applying_seq (wp_writeState hT .stopped (F := fun x => x.journal ≠ none)
    firstLevelIn_nil (fun _ _ => nofun) hs₂) ?_
  intro _ s₃ hs₃
  rw [wp_read_bind]
  cases hops : readOps s₃.site.ops with
  | error e => exact ⟨hs₃.undo, trivial⟩
  | ok entries =>
    have hsome : s₃.site.ops ≠ none := by
      intro hnone
      rw [hnone] at hops
      exact absurd hops nofun
    have hs₃' : Applying (fun x => x.journal ≠ none ∧ x.ops = s₃.site.ops) requested s₃ :=
      ⟨hs₃.1, hs₃.2.1, hs₃.2.2, rfl⟩
    refine wp_applying_seq (wp_replaceFile_applying hT (F := fun x =>
      (x.journal ≠ none ∧ entriesOf x.ops = entries) ∧ x.rollback ≠ none) ?_ ?_ hs₃') ?_
    · intro q x hx hEx
      refine ⟨⟨hx.queue, fun hj => absurd hj hEx.1, hx.journal, fun _ => hsome⟩, ⟨hEx.1, ?_⟩,
        hsome⟩
      change entriesOf x.ops = entries
      rw [hEx.2]
      exact entriesOf_of_readOps hops
    · intro q x key level _ hEx hrow
      rcases hrow with hrow | ⟨hasked, hrow | ⟨hqueue, hsteady⟩⟩
      · exact Or.inl hrow
      · exact Or.inr ⟨hasked, Or.inl hrow⟩
      · refine Or.inr ⟨hasked, Or.inr ⟨hqueue, hsteady.1, fun data hdata => ?_⟩⟩
        -- the copy is of the file as it was read
        have hsame : x.ops = some data := hEx.2.trans hdata
        rw [← hsame]
        exact hsteady.1
    · intro _ s₄ hs₄
      exact wp_applyCopied hT hs₄

/-! ### The handler -/

theorem wp_undoApplied (hT : Surroundings T)
    (hs : Undo (fun x => x.rollback ≠ none) requested s) :
    wp T (undoApplied requested : Worker lower Unit)
      (.orCut (fun _ => Clean) (Undoing requested)) s := by
  unfold undoApplied setLocal
  refine wp_seq (wp_stop_undo hT (fun _ h => h) hs) ?_ fun _ h => h.undoing
  intro _ s₁ hs₁
  refine wp_seq (wp_restoreRollback hT hs₁) ?_ fun _ h => h
  intro _ s₂ hs₂
  refine wp_seq (wp_start_undo hT (fun _ h => h) hs₂) ?_ fun _ h => h.undoing
  intro _ s₃ hs₃
  rw [wp_assign_bind]
  have hs₃' : Undo (fun _ => True) requested
      { s₃ with site := { s₃.site with serverMayBeStopped := false } } := ⟨hs₃.1, hs₃.2⟩
  refine wp_seq (wp_restoreClaim_undo hT hs₃') ?_ fun _ h => h
  intro _ s₄ hs₄
  exact wp_mono (wp_cleanup hT hs₄) (Post.orCut_le (fun _ _ h => h) fun _ h => Or.inr h)

theorem wp_startAgain (hT : Guarded T) (hs : Undo (fun _ => True) requested s) :
    wp T (startAgain : Worker lower Unit)
      ⟨fun _ => Undo (fun _ => True) requested, fun _ => Safe, fun _ => Safe, Safe⟩ s := by
  unfold startAgain setLocal
  rw [wp_read_bind]
  split
  · rw [wp_tryCatch, wp_bind]
    refine wp_mono (wp_marked (wp_start_undo hT.toSurroundings (fun _ h => h) hs))
      ⟨?_, ?_, ?_, ?_⟩
    · exact fun _ s₁ hs₁ => ⟨hs₁.1, hs₁.2⟩
    · exact fun _ _ hfalse => hfalse.elim
    · exact fun _ s₁ h => Undo.safe (E := fun _ => True) h.1 (hT.spared _ _ h.2).1
    · exact fun s₁ h => Undo.safe (E := fun _ => True) h.1 (hT.spared _ _ h.2).1
  · exact hs

theorem wp_undoRequests (hT : Guarded T) (exc : Failure) (hs : Undo Ready requested s) :
    wp T (undoRequests requested exc : Worker lower (Nat × Nat))
      ⟨fun _ _ => False, fun _ => Safe, fun _ => Safe, Safe⟩ s := by
  unfold undoRequests
  rw [wp_read_bind]
  split
  · rename_i hready
    exact wp_undone hT (wp_undoApplied hT.toSurroundings ⟨hs.1, hs.2.1, hs.2.2 hready⟩) _ _
  · rw [wp_bind]
    refine wp_mono (wp_startAgain hT (hs.weaken fun _ _ => trivial))
      ⟨?_, fun _ _ h => h, fun _ _ h => h, fun _ h => h⟩
    intro _ s₁ (hs₁ : Undo (fun _ => True) requested s₁)
    have hrest : wp T (do
        restoreClaim requested
        cleanup : Worker lower Unit) (.orCut (fun _ => Clean) (Undoing requested)) s₁ := by
      refine wp_seq (wp_restoreClaim_undo hT.toSurroundings hs₁) ?_ fun _ h => h
      intro _ s₂ hs₂
      exact wp_mono (wp_cleanup hT.toSurroundings hs₂)
        (Post.orCut_le (fun _ _ h => h) fun _ h => Or.inr h)
    have hmarked := wp_marked hrest
    rw [wp_bind] at hmarked
    rw [Post.next_ok, wp_bind]
    refine wp_mono hmarked ⟨?_, ?_, ?_, ?_⟩
    · intro _ s₂ h₂
      rw [Post.next_ok, wp_bind]
      refine wp_mono h₂ ⟨?_, ?_, ?_, ?_⟩
      · exact fun _ _ h => h.safe
      · exact fun _ _ hfalse => hfalse.elim
      · exact fun _ _ h => h.1.safe (hT.spared _ _ h.2).1
      · exact fun _ h => h.1.safe (hT.spared _ _ h.2).1
    · exact fun _ _ hfalse => hfalse.elim
    · exact fun _ _ h => h.1.safe (hT.spared _ _ h.2).1
    · exact fun _ h => h.1.safe (hT.spared _ _ h.2).1

/-! ### The whole run -/

theorem Clean.applying (h : Clean s)
    (hqueue : ∀ key, s.applying.level key = levelIn lower requested key) :
    Applying (fun _ => True) requested
      { s with site := { s.site with serverMayBeStopped := false, rollbackReady := false } } := by
  obtain ⟨hrows, hjournal, hrollback⟩ := h
  have hheld : Each (onFiles (HeldRow requested)) s := by
    apply hrows.mono
    intro key level hrow
    rcases hrow with hrow | ⟨hnone, hrow⟩
    · exact Or.inl ((hqueue key).symm.trans hrow)
    · refine Or.inr ⟨(hqueue key).symm.trans hnone, Or.inr ⟨hnone, hrow, ?_⟩⟩
      intro data hdata
      exact absurd (hrollback.symm.trans hdata) nofun
  refine ⟨hheld, ⟨hqueue, fun _ => hrollback, ?_, nofun⟩, trivial⟩
  intro j hj
  exact absurd (hjournal.symm.trans hj) nofun

theorem wp_applyPendingLevels (hT : Guarded T) (hs : Safe s) :
    wp T (applyPendingLevels : Worker lower (Nat × Nat))
      ⟨fun _ => Safe, fun _ => Safe, fun _ => Safe, Safe⟩ s := by
  unfold applyPendingLevels setLocal
  rw [wp_read_bind]
  split
  · rw [wp_bind]
    refine wp_mono (wp_recoverInterrupted hT hs)
      ⟨?_, fun _ _ h => h, fun _ _ h => h, fun _ h => h⟩
    intro _ s₁ (hs₁ : Clean s₁)
    rw [Post.next_ok, wp_bind]
    have hclean : ∀ s' : World lower, (Each (Kept fun x key level => InForce lower x.ops key level) s' ∧
        s'.site = s₁.site) → Clean s' := by
      intro s' h
      exact ⟨h.1, by rw [h.2]; exact hs₁.2⟩
    refine wp_mono (wp_claim hT.toSurroundings hs₁.1 rfl) (Post.orCut_imp ?_ ?_ ?_)
    · rintro requested s₂ ⟨hs₂, hqueue⟩
      rw [Post.next_ok, wp_assign_bind, wp_bind]
      have hclaimed := hclean s₂ hs₂
      have happlying := hclaimed.applying hqueue
      rw [wp_tryCatch]
      have hfailed : ∀ e s₃, Undo Ready requested s₃ →
          wp T (undoRequests requested e : Worker lower (Nat × Nat))
            ⟨fun _ _ => False, fun _ => Safe, fun _ => Safe, Safe⟩ s₃ :=
        fun e s₃ h => wp_undoRequests hT e h
      refine wp_mono (wp_marked (wp_applyRequests hT.toSurroundings happlying)) ⟨?_, ?_, ?_, ?_⟩
      · intro r s₃ hs₃
        rw [Post.next_ok, wp_bind, wp_tryCatch]
        exact wp_mono (wp_cleanup hT.toSurroundings hs₃) ⟨fun _ _ h => h.safe, fun _ _ h => h.elim,
          fun _ _ h => Settled.safe h, fun _ h => Settled.safe h⟩
      · exact fun e s₃ h => wp_mono (hfailed e s₃ h.1)
          ⟨fun _ _ h => h.elim, fun _ _ h => h, fun _ _ h => h, fun _ h => h⟩
      · exact fun e s₃ h => wp_mono (hfailed e s₃ h.1)
          ⟨fun _ _ h => h.elim, fun _ _ h => h, fun _ _ h => h, fun _ h => h⟩
      · exact fun s₃ h => Undo.safe h.1 (hT.spared _ _ h.2).1
    · exact fun _ s₂ h => (hclean s₂ h).safe
    · exact fun s₂ h => (hclean s₂ h).safe
  · exact hs

/-! ### Histories -/

/-- What each player was last asked for is in force or still queued. -/
def Accounted (s : World lower) : Prop :=
  ∀ key level, s.newest key = some level →
    InForce lower s.site.ops key level ∨
      ∃ item ∈ listPending s, lower item.name = key ∧ item.level = level

theorem Safe.accounted (h : Safe s) : Accounted s := by
  intro key level hnewest
  obtain ⟨hfresh, hrow⟩ := h.1 key level hnewest
  rw [mem_listPending]
  cases hpending : s.pending.level key with
  | some l =>
    right
    rw [Option.some_or, hfresh l hpending]
  | none =>
    rcases (hrow hpending).kept with hqueue | ⟨_, hinForce⟩
    · exact Or.inr hqueue
    · exact Or.inl hinForce

/-- No recovery is due, and what the queue reports is what is owed. -/
structure Queued (s : World lower) : Prop where
  rollback : s.site.rollback = none
  journal : s.site.journal = none
  newest : ∀ key, s.newest key = (s.pending.level key).or (s.applying.level key)

theorem Queued.safe (h : Queued s) : Safe s := by
  refine Clean.safe ⟨?_, h.journal, h.rollback⟩
  intro key level hnewest
  rw [h.newest] at hnewest
  constructor
  · intro l hl
    rw [hl, Option.some_or] at hnewest
    exact Option.some.inj hnewest
  · intro hnone
    rw [hnone, Option.none_or] at hnewest
    exact Or.inl hnewest

def surroundings : Terms (World lower) Request := ⟨meddle, Spared, fun _ _ => True⟩

theorem surroundings_guarded : Guarded (surroundings : Terms (World lower) Request) :=
  ⟨⟨rfl, fun _ _ => trivial⟩, fun _ _ h => h⟩

def SparedMoment : Moment (World lower) → Prop
  | .done _ _ => True
  | .struck k s => Spared k s

instance : ∀ m : Moment (World lower), Decidable (SparedMoment m)
  | .done _ _ => isTrue trivial
  | .struck k s => inferInstanceAs (Decidable (Spared k s))

theorem run_safe (plan : Plan Failure Request) (hs : Safe s)
    (hcuts : ∀ m ∈ (run plan s).moments, SparedMoment m) : Safe (run plan s).state := by
  have hs' : Safe { s with site := { s.site with readingState := false } } := ⟨hs.1, hs.2⟩
  have hholds := (exec_sound surroundings applyPendingLevels
    (wp_applyPendingLevels surroundings_guarded hs') plan fun m hm => by
      have hm' := hcuts m hm
      cases m <;> exact hm').1
  change Post.Holds _ (run plan s).outcome (run plan s).state at hholds
  cases houtcome : (run plan s).outcome with
  | ok r =>
    rw [houtcome] at hholds
    exact hholds
  | raised e =>
    rw [houtcome] at hholds
    exact hholds.elim id id
  | killed =>
    rw [houtcome] at hholds
    exact hholds

theorem history_safe (events : List Event) (hs : Safe s)
    (hcuts : ∀ m ∈ moments events s, SparedMoment m) : Safe (history events s) := by
  induction events generalizing s with
  | nil => exact hs
  | cons event events ih =>
    cases event with
    | request request => exact ih (Tracked.meddle hs request) hcuts
    | run plan =>
      rw [moments] at hcuts
      have hrun := run_safe plan hs fun m hm => hcuts m (List.mem_append_left _ hm)
      exact ih hrun fun m hm => hcuts m (List.mem_append_right _ hm)

/-- Any order of requests and of runs, killed or made to raise anywhere except while
the journal says that requests are applied that `ops.json` does not hold, or by a
failed reading of that journal once they have left the queue: no request is lost. -/
theorem op_levels_accounted (lower : String → String) (s : World lower) (events : List Event)
    (hs : Queued s) (hcuts : ∀ m ∈ moments events s, SparedMoment m) :
    Accounted (history events s) :=
  (history_safe events hs.safe hcuts).accounted

/-! ### Small histories -/

/-- Alice is an operator of level 1, and level 4 is asked for her. -/
def sampleWorld : World String.toLower where
  pending := Queue.empty.put
    { name := "Alice", level := 4, named := by decide, inRange := by decide }
  applying := .empty
  newest key := if key = "alice" then some 4 else none
  site :=
    { ops := some (.arr [.obj [("name", .str "Alice"), ("level", .int 1)]]) }

theorem sampleWorld_queued : Queued sampleWorld := by
  have hlower : "Alice".toLower = "alice" := by decide +kernel
  refine ⟨rfl, rfl, fun key => ?_⟩
  simp [sampleWorld, hlower]

/-- `steps` steps succeed, then one raises. -/
def failAfter (steps : Nat) : Plan Failure Request :=
  List.replicate steps ({} : Decision Failure Request) ++
    [{ verdict := .fail "Input/output error" }]

def killAfter (steps : Nat) : Plan Failure Request :=
  List.replicate steps ({} : Decision Failure Request) ++ [{ verdict := .kill }]

/-- The write of the committed journal raises and the application is undone, another
request comes, then a run is killed once `ops.json` is written. -/
def sampleHistory : List Event :=
  [.run (failAfter 22), .request (.setLevel "Bob" 2), .run (killAfter 17)]

theorem op_levels_accounted_sample : Accounted (history sampleHistory sampleWorld) :=
  op_levels_accounted String.toLower sampleWorld sampleHistory sampleWorld_queued
    (by decide +kernel)

/-- The write of the committed journal raises after the journal is replaced, and the
worker is killed once it has put `ops.json` back; the next run completes the claim. -/
theorem op_levels_request_lost :
    ¬ ∀ (lower : String → String) (s : World lower) (events : List Event), Queued s →
      Accounted (history events s) := by
  intro h
  let events : List Event := [.run (failAfter 22 ++ killAfter 3), .run []]
  have hinForce : ¬ InForce String.toLower (history events sampleWorld).site.ops "alice" 4 := by
    decide +kernel
  have hqueued : listPending (history events sampleWorld) = [] := by
    decide +kernel
  have hnewest : (history events sampleWorld).newest "alice" = some 4 := by
    decide +kernel
  rcases h String.toLower sampleWorld events sampleWorld_queued "alice" 4 hnewest with
    hin | ⟨item, hitem, _⟩
  · exact hinForce hin
  · rw [hqueued] at hitem
    exact absurd hitem List.not_mem_nil

end OpLevelsWorker
