import McAdmin.RestoreSteps

/-!
# A clone of the live tree and its return

What `_clone_live_tree` and `_sync_tree` come to when they are left alone: together they
undo whatever happens to the live tree between them.
-/

namespace RestoreWorker

open CrashLogic FileTree

/-! ### Undisturbed runs -/

def calm {σ : Type} : Terms σ Empty := ⟨alone, fun _ _ => False, fun _ _ => True⟩

theorem calm_free {σ : Type} : (calm : Terms σ Empty).Free := fun _ _ => trivial

theorem exec_calm {σ ε α : Type} {p : Prog σ ε α} {Φ : Post σ ε α} {s : σ} (h : wp calm p Φ s) :
    (∃ a, (exec alone p [] s).outcome = .ok a ∧ Φ.ok a (exec alone p [] s).state) ∨
      ∃ e, (exec alone p [] s).outcome = .raised e ∧ Φ.raised e (exec alone p [] s).state := by
  have hcalm : ∀ m ∈ (exec alone p [] s).moments, (calm : Terms σ Empty).Allows m := by
    intro m hm
    cases m with
    | done _ _ => trivial
    | struck strike s' => exact (exec_nil _ _ _).2 strike s' hm
  have hholds := (exec_sound calm p (wp_marked h) [] hcalm).1
  change (Φ.marked calm).Holds (exec alone p [] s).outcome (exec alone p [] s).state at hholds
  cases houtcome : (exec alone p [] s).outcome with
  | ok a =>
    rw [houtcome] at hholds
    exact .inl ⟨a, rfl, hholds⟩
  | raised e =>
    rw [houtcome] at hholds
    exact .inr ⟨e, rfl, hholds.resolve_right fun hfailed => hfailed.2⟩
  | killed =>
    rw [houtcome] at hholds
    exact hholds.2.elim

/-! ### The clone -/

/-- `_clone_live_tree(data_root, rollback)`, left alone. -/
def cloned (reflink : Bool) (w : World) : Result World Exn Empty Unit :=
  exec alone ((cloneLiveTree reflink w.root).zoom (at_ rollbackName)) [] w

theorem wp_cloneLiveTree_calm (reflink : Bool) (root : Folder Content) (t : Slot Content)
    {T : Terms (Slot Content) Empty} (hT : T.Free) (hcalm : ¬ T.CanFail) :
    wp T (cloneLiveTree reflink root)
      (.orCut (fun _ t' => t'.isDir = true ∧
          ∀ n, (t'.folder.get n).view = ((liveFolder root).get n).view)
        fun _ => True) t := by
  have hclone : wp T (cloneLiveTree reflink root)
      (.orCut (fun _ t' => t'.isDir = true ∧
          ∀ n, (t'.folder.get n).view = ((liveFolder root).get n).view)
        fun _ => True) none :=
    wp_mono (wp_cloneLiveTree hT reflink root) ⟨fun _ _ h => h, fun _ _ h => hcalm h.2,
      fun _ _ _ => trivial, fun _ _ => trivial⟩
  simp only [cloneLiveTree, wp_bind] at hclone ⊢
  have hnone : ∀ Ψ : Post (Slot Content) Exn Unit, wp T removePath Ψ none → Ψ.ok () none :=
    fun _ h => h
  refine wp_mono (wp_removePath hT t) (Post.orCut_imp ?_ (fun _ _ _ => trivial) fun _ _ => trivial)
  rintro _ t' rfl
  exact hnone _ hclone

theorem cloned_holds (reflink : Bool) (w : World) :
    (cloned reflink w).outcome = .ok () ∧
      SameBut [rollbackName] w (cloned reflink w).state ∧
      ((cloned reflink w).state.slot rollbackName).isDir = true ∧
      ∀ n, (((cloned reflink w).state.slot rollbackName).folder.get n).view =
        ((liveFolder w.root).get n).view := by
  have hcalm : ¬ ((calm : Terms World Empty).through (at_ rollbackName) w).CanFail :=
    fun h => h.of_through.elim fun _ hfail => hfail
  have hclone := wp_zoom_orCut (at_ rollbackName) calm (wp_cloneLiveTree_calm reflink w.root
    ((at_ rollbackName).get w) (calm_free.through _ _) hcalm)
  rcases exec_calm hclone with ⟨_, hreturned, hframe, hdir, hview⟩ | ⟨_, _, hraised⟩
  · exact ⟨hreturned, .of_frame hframe, hdir, hview⟩
  · exact hraised.elim

/-! ### The return -/

/-- `_sync_tree(rollback, data_root, _PROTECTED_ROOT_NAMES)`, left alone. -/
def undone (w : World) : Result World Exn Empty Unit :=
  exec alone (syncFrom rollbackName true) [] w

/-- `_sync_tree(source, destination, protected, remove_absent=False)`, left alone. -/
def overlaid (source : Folder Content) (protectedNames : List Name) (f : Folder Content) :
    Result (Folder Content) Exn Empty Unit :=
  exec alone (syncTree source protectedNames false) [] f

theorem undone_holds {w : World} (hdir : (w.slot rollbackName).isDir = true)
    (hfree : ∀ n ∈ protectedRootNames, (w.slot rollbackName).folder.get n = none) :
    (undone w).outcome = .ok () ∧ SameNames w (undone w).state ∧
      ∀ n ∉ protectedRootNames,
        ((undone w).state.slot n).view = ((w.slot rollbackName).folder.get n).view := by
  rcases exec_calm (wp_syncFrom calm_free rollbackName true) with
    ⟨_, hreturned, hsame, _, hsynced⟩ | ⟨_, _, _, hraised⟩
  · refine ⟨hreturned, hsame, ?_⟩
    intro n hn
    by_cases habsent : (w.slot rollbackName).folder.get n = none
    · have hgone := hsynced.absent n hn habsent
      simp only [if_true] at hgone
      rw [habsent]
      exact congrArg Slot.view hgone
    · exact hsynced.copied n habsent
  · rcases hraised hdir with ⟨n, hn, hpresent⟩
    exact absurd (hfree n hn) hpresent

/-- What the source has is the source's afterwards, and the rest stays; a source with a
transaction name is refused before anything changes. -/
def Overlays (source : Folder Content) (protectedNames : List Name) (f : Folder Content)
    (r : Result (Folder Content) Exn Empty Unit) : Prop :=
  ((∀ n ∈ protectedNames, source.get n = none) → r.outcome = .ok () ∧
      ∀ n, (source.get n ≠ none → (r.state.get n).view = (source.get n).view) ∧
        (source.get n = none → r.state.get n = f.get n)) ∧
    ((∃ n ∈ protectedNames, source.get n ≠ none) → (∃ e, r.outcome = .raised e) ∧ r.state = f)

theorem overlaid_holds (source : Folder Content) (protectedNames : List Name)
    (f : Folder Content) : Overlays source protectedNames f (overlaid source protectedNames f) := by
  rcases exec_calm (wp_syncTree calm_free source protectedNames false f) with
    ⟨_, hreturned, hfree, hsynced⟩ | ⟨e, hraised, hsame, hreserved⟩
  · refine ⟨fun _ => ⟨hreturned, fun n => ⟨hsynced.copied n, fun habsent => ?_⟩⟩, ?_⟩
    · by_cases hn : n ∈ protectedNames
      · exact hsynced.kept n hn
      · exact hsynced.absent n hn habsent
    · rintro ⟨n, hn, hpresent⟩
      exact absurd (hfree n hn) hpresent
  · refine ⟨fun hfree => ?_, fun _ => ⟨⟨e, hraised⟩, hsame⟩⟩
    rcases hreserved with ⟨n, hn, hpresent⟩
    exact absurd (hfree n hn) hpresent

/-- A clone leaves the rest of the tree alone; whatever becomes of the tree, the return
brings back what stood at each name when it was cloned. -/
theorem clone_undone (reflink : Bool) (w w' : World)
    (hrollback : w'.slot rollbackName = (cloned reflink w).state.slot rollbackName) :
    (cloned reflink w).outcome = .ok () ∧
      (∀ n, n ≠ rollbackName → (cloned reflink w).state.slot n = w.slot n) ∧
      (undone w').outcome = .ok () ∧
      (∀ n ∉ protectedRootNames, ((undone w').state.slot n).view = (w.slot n).view) ∧
      (∀ n ∈ protectedRootNames, (undone w').state.slot n = w'.slot n) ∧
      ∀ (source : Folder Content) (protectedNames : List Name) (f : Folder Content),
        Overlays source protectedNames f (overlaid source protectedNames f) := by
  rcases cloned_holds reflink w with ⟨hcloned, hsame, hdir, hview⟩
  rw [← hrollback] at hdir hview
  have hfree : ∀ n ∈ protectedRootNames, (w'.slot rollbackName).folder.get n = none := by
    intro n hn
    apply Slot.view_eq_none.mp
    rw [hview n, get_liveFolder, if_pos hn]
  rcases undone_holds hdir hfree with ⟨hundone, hnames, hback⟩
  refine ⟨hcloned, ?_, hundone, ?_, hnames.2, overlaid_holds⟩
  · intro n hn
    exact hsame.2 n (by simpa using hn)
  · intro n hn
    rw [hback n hn, hview n, get_liveFolder, if_neg hn]
    rfl

def oneWorld : World where
  root := ⟨.cons "world" (.dir (.cons "level.dat" (.file (.bytes [1])) .nil)) .nil, by decide⟩
  running := true

/-- It has been cloned, and a link stands where the directory stood. -/
def linkedWorld : World :=
  { (cloned true oneWorld).state with
    root := (cloned true oneWorld).state.root.set "world" (some (Entry.link "/elsewhere")) }

theorem clone_undone_linked :
    linkedWorld.slot "world" ≠ oneWorld.slot "world" ∧
      ((undone linkedWorld).state.slot "world").view = (oneWorld.slot "world").view := by
  refine ⟨by decide +kernel, ?_⟩
  have hrollback : linkedWorld.slot rollbackName =
      (cloned true oneWorld).state.slot rollbackName :=
    Folder.get_set_ne _ (by decide) _
  exact (clone_undone true oneWorld linkedWorld hrollback).2.2.2.1 "world" (by decide)

end RestoreWorker
