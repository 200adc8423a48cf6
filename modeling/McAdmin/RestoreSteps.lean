import McAdmin.RestoreSync

/-!
# The steps of a transaction on the data directory

The file operations of the restore worker, now at their names in the data
directory: what each does to the directory, to the four transaction names and to
the server, when it returns and when it is cut short.
-/

namespace RestoreWorker

open CrashLogic FileTree

/-! ### What changes and what stays -/

/-- Only entries named in `ns` differ. -/
def SameBut (ns : List Name) (w w' : World) : Prop :=
  w' = { w with root := w'.root } ∧ ∀ m, m ∉ ns → w'.slot m = w.slot m

theorem SameBut.trans {ns : List Name} {w w' w'' : World} (h : SameBut ns w w')
    (h' : SameBut ns w' w'') : SameBut ns w w'' := by
  refine ⟨?_, fun m hm => (h'.2 m hm).trans (h.2 m hm)⟩
  rw [h'.1, h.1]

theorem SameBut.mono {ns ns' : List Name} {w w' : World} (h : SameBut ns w w')
    (hns : ∀ n ∈ ns, n ∈ ns') : SameBut ns' w w' :=
  ⟨h.1, fun m hm => h.2 m fun hmem => hm (hns m hmem)⟩

/-- Two data directories that look the same outside the transaction names. -/
def SameLive (f g : Folder Content) : Prop :=
  ∀ n, n ∉ protectedRootNames → (f.get n).view = (g.get n).view

theorem SameLive.refl (f : Folder Content) : SameLive f f := fun _ _ => rfl

theorem SameLive.trans {f g k : Folder Content} (h : SameLive f g) (h' : SameLive g k) :
    SameLive f k := fun n hn => (h n hn).trans (h' n hn)

theorem SameBut.sameLive {ns : List Name} {w w' : World} (h : SameBut ns w w')
    (hns : ∀ n ∈ ns, n ∈ protectedRootNames) : SameLive w.root w'.root := by
  intro n hn
  have hslot : w'.root.get n = w.root.get n := h.2 n fun hmem => hn (hns n hmem)
  rw [hslot]

theorem stage_mem : stageName ∈ protectedRootNames := by decide

theorem rollback_mem : rollbackName ∈ protectedRootNames := by decide

theorem state_mem : stateName ∈ protectedRootNames := by decide

theorem stateTmp_mem : stateTmpName ∈ protectedRootNames := by decide

/-! ### Lifting to the data directory -/

section

variable {T : Terms World Empty} {w : World}

theorem SameBut.of_frame {n : Name} {w' : World} (h : (at_ n).frame w w') : SameBut [n] w w' :=
  ⟨h.1, fun m hm => h.2 m (List.mem_singleton.not.mp hm)⟩

theorem wp_at {α : Type} {n : Name} {p : OnSlot α} {Q : α → Slot Content → Prop}
    {P : Slot Content → Prop}
    (h : wp (T.through (at_ n) w) p (.orCut Q P) (w.slot n)) :
    wp T (p.zoom (at_ n)) (.orCut (fun a w' => SameBut [n] w w' ∧ Q a (w'.slot n))
      fun w' => SameBut [n] w w' ∧ P (w'.slot n)) w :=
  wp_mono (wp_zoom_orCut (at_ n) T h)
    (Post.orCut_le (fun _ _ h => ⟨.of_frame h.1, h.2⟩) fun _ h => ⟨.of_frame h.1, h.2⟩)

theorem wp_removeAt (hT : T.Free) (n : Name) :
    wp T (removePath.zoom (at_ n)) (.orCut (fun _ w' => SameBut [n] w w' ∧ w'.slot n = none)
      fun w' => SameBut [n] w w' ∧ (w.slot n).Shrunk (w'.slot n)) w :=
  wp_at (wp_removePath (hT.through _ _) _)

theorem wp_unlinkAt (hT : T.Free) {n : Name} (h : w.slot n = none ∨ (w.slot n).isFile = true) :
    wp T ((Prog.perform (unlink true)).zoom (at_ n))
      (.orCut (fun _ w' => SameBut [n] w w' ∧ w'.slot n = none) fun w' => w' = w) w := by
  have hunlink : unlink true (w.slot n) = .ok none := by
    match w.slot n, h with
    | none, _ => rfl
    | some ⟨.file _, _⟩, _ => rfl
  have hstep : wp T (.perform fun w => (unlink true (w.slot n)).map ((at_ n).set w))
      (.orCut (fun _ w' => SameBut [n] w w' ∧ w'.slot n = none) fun w' => w' = w) w := by
    refine wp_perform_orCut (t := (at_ n).set w none) (by rw [hunlink]; rfl) (hT _ _) ?_ rfl
    exact ⟨.of_frame ((at_ n).frame_set none ((at_ n).frame_refl w)), (at_ n).get_set w none⟩
  exact hstep

/-! ### The marker -/

/-- The phase the marker names, if there is a marker that can be read. -/
def World.phase (w : World) : Option Phase :=
  match readState (w.slot stateName) with
  | .ok (some (phase, _)) => some phase
  | _ => none

def IsMarker (t : Slot Content) : Prop :=
  ∃ phase target, t = some (Entry.file (.document phase target))

theorem World.phase_eq {phase : Phase} {target : String}
    (h : w.slot stateName = some (Entry.file (.document phase target))) :
    w.phase = some phase := by
  rw [World.phase, h]
  rfl

theorem World.phase_congr {v : World} (h : v.slot stateName = w.slot stateName) :
    v.phase = w.phase := by
  rw [World.phase, World.phase, h]

theorem World.phase_none (h : w.slot stateName = none) : w.phase = none := by
  rw [World.phase, h]
  rfl

/-- `w'` is `w` with the marker `phase`, and no temporary file. -/
structure Marked (phase : Phase) (target : String) (w w' : World) : Prop where
  same : SameBut [stateTmpName, stateName] w w'
  marker : w'.slot stateName = some (Entry.file (.document phase target))
  tmp : w'.slot stateTmpName = none

structure Marking (w w' : World) : Prop where
  same : SameBut [stateTmpName] w w'
  tmp : w'.slot stateTmpName = none ∨ (w'.slot stateTmpName).isFile = true

theorem wp_writeTmp (hT : T.Free) (content : Content)
    (htmp : w.slot stateTmpName = none ∨ (w.slot stateTmpName).isFile = true) :
    wp T (Prog.zoom (at_ stateTmpName) do
        .perform openTruncated
        copyFile content
        fsync)
      (.orCut (fun _ w' => SameBut [stateTmpName] w w' ∧
        w'.slot stateTmpName = some (Entry.file content)) (Marking w)) w := by
  have hopen : openTruncated (w.slot stateTmpName) = .ok (some (Entry.file Contents.blank)) := by
    match w.slot stateTmpName, htmp with
    | none, _ => rfl
    | some ⟨.file _, _⟩, _ => rfl
  refine wp_mono (wp_at (Q := fun _ t => t = some (Entry.file content))
    (P := fun t => t = none ∨ t.isFile = true) ?_)
    (Post.orCut_le (fun _ _ h => h) fun _ h => ⟨h.1, h.2⟩)
  refine wp_seq (Q := fun _ t => t.isFile = true)
    (P := fun t : Slot Content => t = none ∨ t.isFile = true)
    (wp_perform_orCut (Q := fun t : Slot Content => t.isFile = true) hopen (hT.through _ _ _ _)
      rfl htmp) (fun _ t ht => ?_) fun _ h => h
  refine wp_seq (wp_copyFile (hT.through _ _) content ht) ?_ fun _ h => Or.inr h
  rintro _ t' rfl
  exact wp_touch (hT.through _ _) rfl (Or.inr rfl)

theorem replace_ok {f : Folder Content} {source destination : Name} {e : Entry Content}
    (hsource : f.get source = some e) (hdestination : (f.get destination).isDir = false) :
    replace source destination f = .ok ((f.set source none).set destination (some e)) := by
  simp [replace, hsource, hdestination]

theorem wp_writeState (hT : T.Free) (phase : Phase) (target : String)
    (htmp : w.slot stateTmpName = none ∨ (w.slot stateTmpName).isFile = true)
    (hmarker : w.slot stateName = none ∨ IsMarker (w.slot stateName)) :
    wp T (writeState phase target) (.orCut (fun _ => Marked phase target w) (Marking w)) w := by
  refine wp_seq (wp_writeTmp hT _ htmp) (fun _ w₁ hw₁ => ?_) fun _ h => h
  obtain ⟨hsame, hdocument⟩ := hw₁
  have hstate : (w₁.slot stateName).isDir = false := by
    rw [hsame.2 stateName (by decide)]
    rcases hmarker with h | ⟨phase', target', h⟩ <;> rw [h] <;> rfl
  have hreplace := replace_ok (f := w₁.root) hdocument hstate
  have hne : stateName ≠ stateTmpName := by decide
  have hstep : wp T
      (.perform fun w => (replace stateTmpName stateName w.root).map (rootOf.set w)) _ w₁ :=
    wp_perform_to (P := Marking w) (by rw [hreplace]; rfl) (hT _ _) ⟨hsame, Or.inr (by
      rw [hdocument]
      rfl)⟩
  refine wp_mono hstep (Post.orCut_le ?_ fun _ h => h)
  rintro _ w₂ rfl
  refine ⟨⟨?_, fun m hm => ?_⟩, ?_, ?_⟩
  · rw [hsame.1]
    rfl
  · simp only [List.mem_cons, List.not_mem_nil, or_false, not_or] at hm
    change ((w₁.root.set stateTmpName none).set stateName _).get m = _
    rw [Folder.get_set_ne _ (Ne.symm hm.2), Folder.get_set_ne _ (Ne.symm hm.1)]
    exact hsame.2 m (List.mem_singleton.not.mpr hm.1)
  · exact Folder.get_set_self _ _ _
  · change ((w₁.root.set stateTmpName none).set stateName _).get stateTmpName = _
    rw [Folder.get_set_ne _ hne, Folder.get_set_self]

/-! ### The controller -/

theorem wp_controllerStop (hT : T.Free) :
    wp T controllerStop
      (.orCut (fun _ w' => w' = { w with calls := w.calls ++ [.stop], running := false })
        fun w' => ∃ running, w' = { w with calls := w.calls ++ [.stop], running := running }) w := by
  rw [controllerStop, wp_bind, wp_assign, Post.next_ok]
  refine wp_seq (wp_perform_to rfl (hT _ _) ⟨w.running, rfl⟩) ?_ fun _ h => h
  rintro _ w' rfl
  exact wp_perform_to rfl (hT _ _) ⟨false, rfl⟩

theorem wp_controllerStart (hT : T.Free) :
    wp T controllerStart
      (.orCut (fun _ w' => w' = { w with calls := w.calls ++ [.start], running := true })
        fun w' => ∃ running, w' = { w with calls := w.calls ++ [.start], running := running }) w := by
  rw [controllerStart, wp_bind, wp_assign, Post.next_ok]
  refine wp_seq (wp_perform_to rfl (hT _ _) ⟨w.running, rfl⟩) ?_ fun _ h => h
  rintro _ w' rfl
  exact wp_perform_to rfl (hT _ _) ⟨true, rfl⟩

/-! ### Synchronising -/

def SameNames (w w' : World) : Prop :=
  w' = { w with root := w'.root } ∧ ∀ n ∈ protectedRootNames, w'.slot n = w.slot n

theorem wp_syncFrom (hT : T.Free) (name : Name) (removeAbsent : Bool) :
    wp T (syncFrom name removeAbsent)
      { ok := fun _ w' => SameNames w w' ∧ (w.slot name).isDir = true ∧
          Synced (w.slot name).folder protectedRootNames removeAbsent w.root w'.root
        raised := fun _ w' => w' = w ∧ ((w.slot name).isDir = true →
          ∃ n ∈ protectedRootNames, (w.slot name).folder.get n ≠ none)
        failed := fun _ => SameNames w
        killed := SameNames w } w := by
  simp only [syncFrom, wp_bind, wp_read, Post.next_ok]
  cases hdir : (w.slot name).isDir with
  | false =>
    simp only [Bool.not_false, if_true]
    rw [wp_bind, wp_throw]
    refine ⟨rfl, ?_⟩
    intro h
    cases h
  | true =>
    simp only [Bool.not_true, Bool.false_eq_true, if_false]
    have hsync := wp_syncTree (hT.through rootOf w) (w.slot name).folder protectedRootNames
      removeAbsent w.root
    refine wp_mono (wp_zoom rootOf T _ (rootOf.frame_refl w) hsync) ⟨?_, ?_, ?_, ?_⟩
    · exact fun _ w' h => ⟨⟨h.1, h.2.2.kept⟩, trivial, h.2.2⟩
    · intro _ w' h
      refine ⟨?_, fun _ => h.2.2⟩
      rw [show w' = { w with root := w'.root } from h.1, show w'.root = w.root from h.2.1]
    · exact fun _ w' h => ⟨h.1, h.2⟩
    · exact fun w' h => ⟨h.1, h.2⟩

/-! ### Cleaning up -/

structure Shape (w : World) : Prop where
  tmp : w.slot stateTmpName = none ∨ (w.slot stateTmpName).isFile = true
  marker : w.slot stateName = none ∨ IsMarker (w.slot stateName)
  rollback : RollbackShape (w.slot rollbackName)
  /-- The rollback is made after the marker and removed before it. -/
  paired : w.slot stateName = none → w.slot rollbackName = none

/-- A cleanup begun in `w` has come to `w'`. -/
structure Cleaning (w w' : World) : Prop where
  fields : w' = { w with root := w'.root, cleaning := w'.cleaning }
  live : ∀ n, n ∉ protectedRootNames → w'.slot n = w.slot n
  shape : Shape w'
  /-- The marker goes last; while it is there, the rollback is whole, gone, or being
  removed. -/
  order : (w'.slot stateName = w.slot stateName ∧
      (w'.slot rollbackName = w.slot rollbackName ∨ w'.slot rollbackName = none ∨
        w'.cleaning = some (w.slot rollbackName))) ∨
    w'.slot stateName = none ∧ w'.slot rollbackName = none

structure CleanedUp (w w' : World) : Prop where
  fields : w' = { w with root := w'.root, cleaning := none }
  live : ∀ n, n ∉ protectedRootNames → w'.slot n = w.slot n
  gone : ∀ n ∈ protectedRootNames, w'.slot n = none

theorem isFile_of_isMarker {t : Slot Content} (h : t = none ∨ IsMarker t) :
    t = none ∨ t.isFile = true := by
  rcases h with h | ⟨phase, target, rfl⟩
  · exact Or.inl h
  · exact Or.inr rfl

theorem Shape.congr {w' : World} (hw : Shape w)
    (hstate : w'.slot stateName = w.slot stateName)
    (hrollback : w'.slot rollbackName = w.slot rollbackName)
    (htmp : w'.slot stateTmpName = none ∨ (w'.slot stateTmpName).isFile = true) : Shape w' := by
  refine ⟨htmp, ?_, ?_, ?_⟩
  · rw [hstate]
    exact hw.marker
  · rw [hrollback]
    exact hw.rollback
  · rw [hstate, hrollback]
    exact hw.paired

/-! What has become of the four names, from one removal to the next. -/

theorem SameBut.eq_of_ne {n m : Name} {w w' : World} (h : SameBut [n] w w') (hm : m ≠ n) :
    w'.slot m = w.slot m :=
  h.2 m (List.mem_singleton.not.mpr hm)

theorem ne_of_not_protected {n m : Name} (hn : n ∉ protectedRootNames)
    (hm : m ∈ protectedRootNames) : n ≠ m := by
  rintro rfl
  exact hn hm

theorem Cleaning.of_stage {w' : World} (hw : Shape w) (h : SameBut [stageName] w w') :
    Cleaning w w' := by
  have hstate : w'.slot stateName = w.slot stateName := h.eq_of_ne (by decide)
  have hrollback : w'.slot rollbackName = w.slot rollbackName := h.eq_of_ne (by decide)
  refine ⟨?_, ?_, hw.congr hstate hrollback ?_, Or.inl ⟨hstate, Or.inl hrollback⟩⟩
  · rw [h.1]
  · intro n hn
    exact h.eq_of_ne (ne_of_not_protected hn stage_mem)
  · rw [h.eq_of_ne (by decide)]
    exact hw.tmp

structure Removing (w v : World) : Prop where
  fields : v = { w with root := v.root, cleaning := some (w.slot rollbackName) }
  others : ∀ n, n ≠ stageName → n ≠ rollbackName → v.slot n = w.slot n
  stage : v.slot stageName = none

theorem Removing.of_stage {w' : World} (h : SameBut [stageName] w w')
    (hstage : w'.slot stageName = none) :
    Removing w { w' with cleaning := some (w'.slot rollbackName) } := by
  refine ⟨?_, fun n hn _ => h.eq_of_ne hn, hstage⟩
  rw [h.eq_of_ne (by decide), h.1]

theorem Removing.same {v v' : World} (h : Removing w v) (hsame : SameBut [rollbackName] v v') :
    Removing w v' := by
  refine ⟨?_, fun n hstage hrollback => ?_, ?_⟩
  · rw [hsame.1, h.fields]
  · rw [hsame.eq_of_ne hrollback]
    exact h.others n hstage hrollback
  · rw [hsame.eq_of_ne (by decide)]
    exact h.stage

theorem Removing.cleaning {v : World} (h : Removing w v) (hw : Shape w)
    (hthere : w.slot rollbackName ≠ none) (hrollback : RollbackShape (v.slot rollbackName)) :
    Cleaning w v := by
  have hstate : v.slot stateName = w.slot stateName := h.others _ (by decide) (by decide)
  have hcleaning : v.cleaning = some (w.slot rollbackName) := by rw [h.fields]
  refine ⟨?_, ?_, ⟨?_, ?_, hrollback, ?_⟩, Or.inl ⟨hstate, Or.inr (Or.inr hcleaning)⟩⟩
  · rw [h.fields]
  · intro n hn
    exact h.others n (ne_of_not_protected hn stage_mem) (ne_of_not_protected hn rollback_mem)
  · rw [h.others _ (by decide) (by decide)]
    exact hw.tmp
  · rw [hstate]
    exact hw.marker
  · intro hnone
    rw [hstate] at hnone
    exact absurd (hw.paired hnone) hthere

structure CopiesGone (w v : World) : Prop where
  fields : v = { w with root := v.root, cleaning := none }
  others : ∀ n, n ≠ stageName → n ≠ rollbackName → v.slot n = w.slot n
  stage : v.slot stageName = none
  rollback : v.slot rollbackName = none

theorem Removing.copiesGone {v : World} (h : Removing w v) (hrollback : v.slot rollbackName = none) :
    CopiesGone w { v with cleaning := none } :=
  ⟨by rw [h.fields], h.others, h.stage, hrollback⟩

theorem CopiesGone.live {v : World} (h : CopiesGone w v) (n : Name)
    (hn : n ∉ protectedRootNames) : v.slot n = w.slot n :=
  h.others n (ne_of_not_protected hn stage_mem) (ne_of_not_protected hn rollback_mem)

theorem CopiesGone.shape {v : World} (h : CopiesGone w v) (hw : Shape w) : Shape v := by
  refine ⟨?_, ?_, Or.inl h.rollback, fun _ => h.rollback⟩
  · rw [h.others _ (by decide) (by decide)]
    exact hw.tmp
  · rw [h.others _ (by decide) (by decide)]
    exact hw.marker

theorem CopiesGone.cleaning {v : World} (h : CopiesGone w v) (hw : Shape w) : Cleaning w v := by
  refine ⟨?_, h.live, h.shape hw, Or.inl ⟨?_, Or.inr (Or.inl h.rollback)⟩⟩
  · rw [h.fields]
  · exact h.others _ (by decide) (by decide)

structure MarkerGone (w v : World) : Prop where
  fields : v = { w with root := v.root, cleaning := none }
  live : ∀ n, n ∉ protectedRootNames → v.slot n = w.slot n
  stage : v.slot stageName = none
  rollback : v.slot rollbackName = none
  state : v.slot stateName = none
  tmp : v.slot stateTmpName = none ∨ (v.slot stateTmpName).isFile = true

theorem CopiesGone.markerGone {v v' : World} (h : CopiesGone w v) (hw : Shape w)
    (hsame : SameBut [stateName] v v') (hstate : v'.slot stateName = none) : MarkerGone w v' := by
  refine ⟨?_, fun n hn => ?_, ?_, ?_, hstate, ?_⟩
  · rw [hsame.1, h.fields]
  · rw [hsame.eq_of_ne (ne_of_not_protected hn state_mem), h.live n hn]
  · rw [hsame.eq_of_ne (by decide), h.stage]
  · rw [hsame.eq_of_ne (by decide), h.rollback]
  · rw [hsame.eq_of_ne (by decide)]
    exact (h.shape hw).tmp

theorem MarkerGone.cleaning {v : World} (h : MarkerGone w v) : Cleaning w v := by
  have hshape : Shape v := ⟨h.tmp, Or.inl h.state, Or.inl h.rollback, fun _ => h.rollback⟩
  refine ⟨?_, h.live, hshape, Or.inr ⟨h.state, h.rollback⟩⟩
  rw [h.fields]

theorem MarkerGone.cleanedUp {v v' : World} (h : MarkerGone w v)
    (hsame : SameBut [stateTmpName] v v') (htmp : v'.slot stateTmpName = none) :
    CleanedUp w v' := by
  refine ⟨?_, fun n hn => ?_, ?_⟩
  · rw [hsame.1, h.fields]
  · rw [hsame.eq_of_ne (ne_of_not_protected hn stateTmp_mem), h.live n hn]
  · simp only [protectedRootNames, List.forall_mem_cons, List.not_mem_nil, false_imp_iff,
      implies_true, and_true]
    refine ⟨?_, ?_, ?_, htmp⟩
    · rw [hsame.eq_of_ne (by decide), h.stage]
    · rw [hsame.eq_of_ne (by decide), h.rollback]
    · rw [hsame.eq_of_ne (by decide), h.state]

theorem wp_unlinkMarker (hT : T.Free) (hw : Shape w) {v : World} (h : CopiesGone w v) :
    wp T (do
        (Prog.perform (unlink true)).zoom (at_ stateName)
        (Prog.perform (unlink true)).zoom (at_ stateTmpName))
      (.orCut (fun _ => CleanedUp w) (Cleaning w)) v := by
  have hfile := isFile_of_isMarker (h.shape hw).marker
  refine wp_seq (wp_unlinkAt hT hfile) (fun _ v₁ h₁ => ?_) fun v₁ h₁ => ?_
  · have hgone : MarkerGone w v₁ := h.markerGone hw h₁.1 h₁.2
    refine wp_mono (wp_unlinkAt hT hgone.tmp) (Post.orCut_le (fun _ v₂ h₂ => ?_) fun v₂ h₂ => ?_)
    · exact hgone.cleanedUp h₂.1 h₂.2
    · subst h₂
      exact hgone.cleaning
  · subst h₁
    exact h.cleaning hw

theorem wp_cleanupTransaction (hT : T.Free) (hw : Shape w) :
    wp T cleanupTransaction (.orCut (fun _ => CleanedUp w) (Cleaning w)) w := by
  simp only [cleanupTransaction]
  refine wp_seq (wp_removeAt hT stageName) (fun _ w₁ h₁ => ?_) fun w' h => ?_
  · have hremoving : Removing w { w₁ with cleaning := some (w₁.slot rollbackName) } :=
      Removing.of_stage h₁.1 h₁.2
    have hrollback : w₁.slot rollbackName = w.slot rollbackName := h₁.1.eq_of_ne (by decide)
    rw [wp_bind, wp_assign, Post.next_ok]
    generalize hw₂ : { w₁ with cleaning := some (w₁.slot rollbackName) } = w₂ at hremoving
    have hrollback₂ : w₂.slot rollbackName = w.slot rollbackName := by
      rw [← hw₂]
      exact hrollback
    have hremove := wp_at (w := w₂) (n := rollbackName) (wp_removeRollback (T := T.through _ w₂)
      (hT.through _ _) (t := w₂.slot rollbackName) (by rw [hrollback₂]; exact hw.rollback))
    refine wp_seq hremove (fun _ w₃ h₃ => ?_) fun w₃ h₃ => ?_
    · rw [wp_bind, wp_assign, Post.next_ok]
      exact wp_unlinkMarker hT hw ((hremoving.same h₃.1).copiesGone h₃.2)
    · obtain ⟨hsame₃, hthere₃, hshape₃⟩ := h₃
      rw [hrollback₂] at hthere₃
      exact (hremoving.same hsame₃).cleaning hw hthere₃ hshape₃
  · exact Cleaning.of_stage hw h.1

end

end RestoreWorker
