import McAdmin.RestoreWorker

/-!
# What copying, cloning and synchronising leave behind

One specification for each file operation of the restore worker, on its own part
of the tree.  Each says what the tree is when the operation returns, what of it
is still untouched when the operation is cut short, and that the operation raises
nothing that was not struck.
-/

namespace RestoreWorker

open CrashLogic FileTree

section Slots

variable {T : Terms (Slot Content) Empty}

/-! ### Single paths -/

theorem wp_removePath (hT : T.Free) (t : Slot Content) :
    wp T removePath (.orCut (fun _ t' => t' = none) (Slot.Shrunk t)) t := by
  simp only [removePath, wp_bind, wp_read]
  rcases t with _ | ⟨_ | _ | d, h⟩
  · exact rfl
  · exact wp_perform_orCut rfl (hT _ _) rfl (.refl _)
  · exact wp_perform_orCut rfl (hT _ _) rfl (.refl _)
  · exact wp_removeNode hT (.dir d) h

theorem wp_touch (hT : T.Free) {t : Slot Content} {P : Slot Content → Prop}
    (hsome : t.isSome = true) (hP : P t) :
    wp T (.perform touch) (.orCut (fun _ t' => t' = t) P) t := by
  obtain ⟨e, rfl⟩ := Option.isSome_iff_exists.mp hsome
  exact wp_perform_orCut rfl (hT _ _) rfl hP

theorem wp_copyMetadata (hT : T.Free) {t : Slot Content} {P : Slot Content → Prop}
    (hsome : t.isSome = true) (hP : P t) :
    wp T copyMetadata (.orCut (fun _ t' => t' = t) P) t := by
  refine wp_seq (wp_touch hT hsome hP) ?_ fun _ h => h
  rintro _ t' rfl
  exact wp_touch hT hsome hP

theorem hold_ok {t : Slot Content} (h : t.isFile = true) (c : Content) :
    hold c t = .ok (some (Entry.file c)) := by
  match t, h with
  | some ⟨.file _, _⟩, _ => rfl

theorem wp_copyFile (hT : T.Free) (c : Content) {t : Slot Content} (ht : t.isFile = true) :
    wp T (copyFile c)
      (.orCut (fun _ t' => t' = some (Entry.file c)) fun t' => t'.isFile = true) t := by
  have hwrites := wp_forM (T := T) (I := fun t' => t'.isFile = true)
    (P := fun t' => t'.isFile = true) (f := fun c => .perform (hold c)) (Contents.torn c)
    (fun c _ t' ht' => wp_perform_orCut (hold_ok ht' c) (hT _ _) rfl ht') ht
  exact wp_seq hwrites (fun _ _ ht' => wp_perform_orCut (hold_ok ht' c) (hT _ _) rfl ht')
    fun _ h => h

theorem wp_openNew (hT : T.Free) {P : Slot Content → Prop} (hP : P none) :
    wp T (.perform openNew) (.orCut (fun _ t' => t'.isFile = true) P) (none : Slot Content) :=
  wp_perform_orCut (f := openNew) (t := some (Entry.file Contents.blank)) rfl (hT _ _) rfl hP

/-! ### Synchronising -/

/-- `f'` is `f` with the entries of `source` put over it. -/
def Overlaid (source f f' : Folder Content) : Prop :=
  ∀ n, (source.get n ≠ none → (f'.get n).view = (source.get n).view) ∧
    (source.get n = none → f'.get n = f.get n)

theorem Overlaid.view_eq {source f f' : Folder Content} (h : Overlaid source f f')
    (habsent : ∀ n, source.get n = none → f.get n = none) (n : Name) :
    (f'.get n).view = (source.get n).view := by
  by_cases hn : source.get n = none
  · rw [(h n).2 hn, habsent n hn, hn]
  · exact (h n).1 hn

theorem Overlaid.cons {n : Name} {x : Node Content} {rest : Dir Content}
    (hd : (Dir.cons n x rest).wf = true) {f f₁ f₂ : Folder Content}
    (hframe : ∀ m, m ≠ n → f₁.get m = f.get m)
    (hview : (f₁.get n).view = Slot.view (some ⟨x, (Dir.wf_cons.mp hd).2.1⟩))
    (hrest : Overlaid ⟨rest, (Dir.wf_cons.mp hd).2.2⟩ f₁ f₂) :
    Overlaid ⟨.cons n x rest, hd⟩ f f₂ := by
  intro m
  rw [Folder.get_cons]
  by_cases hmn : n = m
  · subst hmn
    rw [(hrest n).2 (Folder.get_eq_none_iff.mpr (Dir.wf_cons.mp hd).1), if_pos rfl]
    exact ⟨fun _ => hview, fun h => nomatch h⟩
  · rw [if_neg hmn]
    exact ⟨(hrest m).1, fun hm => ((hrest m).2 hm).trans (hframe m (Ne.symm hmn))⟩

theorem wp_copyFileInPlace (hT : T.Free) (c : Content) {t : Slot Content}
    (ht : t.isFile = true) :
    wp T (copyFileInPlace c)
      (.orCut (fun _ t' => t' = some (Entry.file c)) fun _ => True) t := by
  have hopen : openTruncated t = .ok (some (Entry.file Contents.blank)) := by
    match t, ht with
    | some ⟨.file _, _⟩, _ => rfl
  refine wp_seq (Q := fun _ t' => t'.isFile = true) (P := fun _ => True)
    (wp_perform_orCut hopen (hT _ _) rfl trivial) (fun _ t' ht' => ?_) fun _ h => h
  refine wp_seq (wp_copyFile hT c ht') ?_ fun _ _ => trivial
  rintro _ t'' rfl
  refine wp_seq (wp_touch hT rfl trivial) ?_ fun _ h => h
  rintro _ t'' rfl
  exact wp_copyMetadata hT rfl trivial

theorem wp_removeAbsentEntries {T : Terms (Folder Content) Empty} (hT : T.Free)
    (sourceNames protectedNames : List Name) :
    ∀ (names : List Name) (f : Folder Content),
      wp T (removeAbsentEntries sourceNames protectedNames names)
        (.orCut
          (fun _ f' => ∀ n, f'.get n =
            if n ∈ names ∧ n ∉ protectedNames ∧ n ∉ sourceNames then none else f.get n)
          fun f' => ∀ n ∈ protectedNames, f'.get n = f.get n) f
  | [], f => by
    simp only [removeAbsentEntries, wp_pure, Post.orCut]
    simp
  | n :: rest, f => by
    have hrest := wp_removeAbsentEntries hT sourceNames protectedNames rest
    by_cases hn : n ∉ protectedNames ∧ n ∉ sourceNames
    · simp only [removeAbsentEntries, if_pos hn]
      refine wp_seq (wp_zoom_orCut (slotOf n) T (wp_removePath (hT.through _ _) _))
        (fun _ f' hf' => wp_mono (hrest f') (Post.orCut_le ?_ ?_)) ?_
      · intro _ f'' hf'' m
        rw [hf'']
        by_cases hm : m = n
        · subst hm
          simp [hn, show f'.get m = none from hf'.2]
        · simp [hm, hf'.1 m hm]
      · intro f'' hf'' m hm
        have hmn : m ≠ n := fun h => hn.1 (h ▸ hm)
        rw [hf'' m hm, hf'.1 m hmn]
      · intro f' hf' m hm
        exact hf'.1 m fun h => hn.1 (h ▸ hm)
    · simp only [removeAbsentEntries, if_neg hn]
      refine wp_mono (hrest f) (Post.orCut_le ?_ fun _ h => h)
      intro _ f' hf' m
      rw [hf']
      by_cases hm : m = n
      · subst hm
        simp [hn]
      · simp [hm]

theorem wp_prepareDirectory (hT : T.Free) (t : Slot Content) :
    wp T prepareDirectory (.orCut (fun _ t' => t'.isDir = true) fun _ => True) t := by
  have hmkdir : wp T (.perform mkdir)
      (.orCut (fun _ t' => t'.isDir = true) fun _ => True) (none : Slot Content) :=
    wp_perform_orCut (f := mkdir) (t := some (Entry.folder .empty)) rfl (hT _ _) rfl trivial
  have hreplace : wp T (removePath >>= fun _ => Prog.read id >>= fun destination =>
      if destination.isNone = true then .perform mkdir else pure ())
      (.orCut (fun _ t' => t'.isDir = true) fun _ => True) t := by
    refine wp_seq (wp_removePath hT t) ?_ fun _ _ => trivial
    rintro _ t' rfl
    exact hmkdir
  match t with
  | none => exact hmkdir
  | some ⟨.dir d, h⟩ => exact rfl
  | some ⟨.file _, _⟩ => exact hreplace
  | some ⟨.link _, _⟩ => exact hreplace

theorem wp_syncLink (hT : T.Free) (target : String) (hx : (Node.link target).wf = true)
    (t : Slot Content) :
    wp T (syncEntry (.link target))
      (.orCut (fun _ t' => t'.view = Slot.view (some ⟨.link target, hx⟩)) fun _ => True) t := by
  simp only [syncEntry, wp_bind, wp_read]
  by_cases ht : t = some (Entry.link target)
  · simp only [Post.next_ok, ht, if_true, id]
    refine wp_mono (wp_copyMetadata hT rfl trivial) (Post.orCut_le ?_ fun _ h => h)
    rintro _ t' rfl
    rfl
  · simp only [Post.next_ok, id, ht, if_false]
    refine wp_seq (wp_removePath hT t) ?_ fun _ _ => trivial
    rintro _ t' rfl
    refine wp_seq (Q := fun _ t' => t' = some (Entry.link target)) (P := fun _ => True)
      (wp_perform_orCut rfl (hT _ _) rfl trivial) ?_ fun _ h => h
    rintro _ t' rfl
    refine wp_mono (wp_copyMetadata hT rfl trivial) (Post.orCut_le ?_ fun _ h => h)
    rintro _ t' rfl
    rfl

theorem wp_syncFile (hT : T.Free) (content : Content) (hx : (Node.file content).wf = true)
    (t : Slot Content) :
    wp T (syncEntry (.file content))
      (.orCut (fun _ t' => t'.view = Slot.view (some ⟨.file content, hx⟩)) fun _ => True) t := by
  simp only [syncEntry, wp_bind, wp_read]
  by_cases ht : t.isFile = true
  · simp only [Post.next_ok, ht, if_true, id]
    refine wp_mono (wp_copyFileInPlace hT content ht) (Post.orCut_le ?_ fun _ h => h)
    rintro _ t' rfl
    rfl
  · simp only [Post.next_ok, id, ht]
    refine wp_seq (wp_removePath hT t) ?_ fun _ _ => trivial
    rintro _ t' rfl
    refine wp_seq (Q := fun _ t' => t'.isFile = true) (P := fun _ => True)
      (wp_perform_orCut (Q := fun t' => t'.isFile = true) (f := openTruncated)
        (t := some (Entry.file Contents.blank)) rfl (hT _ _) rfl trivial) (fun _ t' ht' => ?_)
      fun _ h => h
    refine wp_seq (wp_copyFile hT content ht') ?_ fun _ _ => trivial
    rintro _ t'' rfl
    refine wp_seq (wp_touch hT rfl trivial) ?_ fun _ h => h
    rintro _ t'' rfl
    refine wp_mono (wp_copyMetadata hT rfl trivial) (Post.orCut_le ?_ fun _ h => h)
    rintro _ t'' rfl
    rfl

mutual

theorem wp_syncEntry {T : Terms (Slot Content) Empty} (hT : T.Free) :
    ∀ (x : Node Content) (hx : x.wf = true) (t : Slot Content),
      wp T (syncEntry x)
        (.orCut (fun _ t' => t'.view = Slot.view (some ⟨x, hx⟩)) fun _ => True) t
  | .link target, hx, t => wp_syncLink hT target hx t
  | .file content, hx, t => wp_syncFile hT content hx t
  | .dir d, hx, t => by
    simp only [syncEntry]
    refine wp_seq (wp_prepareDirectory hT t) (fun _ t₁ ht₁ => ?_) fun _ _ => trivial
    have hinside : ∀ f : Folder Content, wp (T.through inside t₁)
        (do
          let names ← Prog.read Folder.children
          removeAbsentEntries d.names [] names
          syncEntries d)
        (.orCut (fun _ f' => ∀ n, (f'.get n).view = (Folder.get ⟨d, hx⟩ n).view)
          fun _ => True) f := by
      intro f
      rw [wp_bind, wp_read]
      refine wp_seq (wp_removeAbsentEntries (hT.through _ _) d.names [] f.children f)
        (fun _ f₁ hf₁ => ?_) fun _ _ => trivial
      refine wp_mono (wp_syncEntries (hT.through _ _) d hx f₁)
        (Post.orCut_le (fun _ f₂ hf₂ => ?_) fun _ _ => trivial)
      -- what the source does not have was there and is removed, or was not there
      have hremoved : ∀ n, Folder.get ⟨d, hx⟩ n = none → f₁.get n = none := by
        intro n hn
        have hd : n ∉ d.names := Folder.get_eq_none_iff.mp hn
        rw [hf₁ n]
        by_cases hf : n ∈ f.children
        · simp [hf, hd]
        · simp [hf, Folder.get_eq_none_iff.mpr hf]
      exact hf₂.view_eq hremoved
    refine wp_seq (wp_zoom_orCut inside T (hinside _)) (fun _ t₂ ht₂ => ?_) fun _ _ => trivial
    have hdir := Slot.eq_folder (ht₂.1 ht₁)
    refine wp_mono (wp_copyMetadata hT (by rw [hdir]; rfl) trivial)
      (Post.orCut_le ?_ fun _ h => h)
    rintro _ t₃ rfl
    rw [hdir]
    exact Slot.view_folder_ext.mpr ht₂.2

theorem wp_syncEntries {T : Terms (Folder Content) Empty} (hT : T.Free) :
    ∀ (d : Dir Content) (hd : d.wf = true) (f : Folder Content),
      wp T (syncEntries d)
        (.orCut (fun _ f' => Overlaid ⟨d, hd⟩ f f')
          fun f' => ∀ n, Folder.get ⟨d, hd⟩ n = none → f'.get n = f.get n) f
  | .nil, _, f => fun _ => ⟨fun h => absurd rfl h, fun _ => rfl⟩
  | .cons n x rest, hd, f => by
    obtain ⟨hn, hx, hrest⟩ := Dir.wf_cons.mp hd
    refine wp_seq (wp_zoom_orCut (slotOf n) T (wp_syncEntry (hT.through _ _) x hx _))
      (fun _ f₁ hf₁ => ?_) fun f₁ hf₁ m hm => hf₁.1 m (Folder.cons_absent hd hm).1
    refine wp_mono (wp_syncEntries hT rest hrest f₁)
      (Post.orCut_le (fun _ f₂ hf₂ => Overlaid.cons hd hf₁.1 hf₁.2 hf₂) ?_)
    intro f₂ hf₂ m hm
    rw [hf₂ m (Folder.cons_absent hd hm).2, hf₁.1 m (Folder.cons_absent hd hm).1]

end

/-- What `_sync_tree` makes of `f`: protected names stay, the entries of the source
are there, and the rest is removed or left. -/
structure Synced (source : Folder Content) (protectedNames : List Name) (removeAbsent : Bool)
    (f f' : Folder Content) : Prop where
  kept : ∀ n ∈ protectedNames, f'.get n = f.get n
  copied : ∀ n, source.get n ≠ none → (f'.get n).view = (source.get n).view
  absent : ∀ n ∉ protectedNames, source.get n = none →
    f'.get n = if removeAbsent then none else f.get n

theorem wp_syncTree {T : Terms (Folder Content) Empty} (hT : T.Free) (source : Folder Content)
    (protectedNames : List Name) (removeAbsent : Bool) (f : Folder Content) :
    wp T (syncTree source protectedNames removeAbsent)
      { ok := fun _ f' => (∀ n ∈ protectedNames, source.get n = none) ∧
          Synced source protectedNames removeAbsent f f'
        raised := fun _ f' => f' = f ∧ ∃ n ∈ protectedNames, source.get n ≠ none
        failed := fun _ f' => ∀ n ∈ protectedNames, f'.get n = f.get n
        killed := fun f' => ∀ n ∈ protectedNames, f'.get n = f.get n } f := by
  simp only [syncTree]
  by_cases hreserved : source.children.filter (· ∈ protectedNames) = []
  · have hfree : ∀ n ∈ protectedNames, source.get n = none := by
      intro n hn
      rw [Folder.get_eq_none_iff]
      intro hmem
      have := List.filter_eq_nil_iff.mp hreserved n hmem
      simp [hn] at this
    -- the entries are copied after the absent ones went, and neither touches a protected name
    have hentries : ∀ f₁ : Folder Content, (∀ n ∈ protectedNames, f₁.get n = f.get n) →
        (∀ n ∉ protectedNames, source.get n = none →
          f₁.get n = if removeAbsent then none else f.get n) →
        wp T (syncEntries source.dir)
          (.orCut
            (fun _ f' => (∀ n ∈ protectedNames, source.get n = none) ∧
              Synced source protectedNames removeAbsent f f')
            fun f' => ∀ n ∈ protectedNames, f'.get n = f.get n) f₁ := by
      intro f₁ hkept habsent
      refine wp_mono (wp_syncEntries hT source.dir source.wf f₁) (Post.orCut_le ?_ ?_)
      · intro _ f' hf'
        refine ⟨hfree, fun n hn => ?_, fun n hn => (hf' n).1 hn, fun n hn hnone => ?_⟩
        · rw [(hf' n).2 (hfree n hn), hkept n hn]
        · rw [(hf' n).2 hnone, habsent n hn hnone]
      · intro f' hf' n hn
        rw [hf' n (hfree n hn), hkept n hn]
    simp only [hreserved, ne_eq, not_true, if_false]
    cases removeAbsent with
    | false =>
      exact wp_mono (hentries f (fun _ _ => rfl) fun _ _ _ => rfl)
        (Post.orCut_imp (fun _ _ h => h) (fun _ _ h => h) fun _ h => h)
    | true =>
      simp only [if_true, wp_bind, wp_read, Post.next_ok]
      have habsent := wp_removeAbsentEntries hT source.children protectedNames f.children f
      refine wp_mono habsent (Post.orCut_imp (fun _ f₁ hf₁ => wp_mono (hentries f₁ ?_ ?_)
        (Post.orCut_imp (fun _ _ h => h) (fun _ _ h => h) fun _ h => h)) (fun _ _ h => h)
        fun _ h => h)
      · intro n hn
        simp [hf₁ n, hn]
      · intro n hn hnone
        by_cases hf : n ∈ f.children
        · simp [hf₁ n, hn, hf, Folder.get_eq_none_iff.mp hnone]
        · simp [hf₁ n, hf, Folder.get_eq_none_iff.mpr hf]
  · simp only [hreserved, ne_eq, not_false_eq_true, if_true]
    rw [wp_bind, wp_throw]
    obtain ⟨n, hn⟩ := List.exists_mem_of_ne_nil _ hreserved
    rw [List.mem_filter, decide_eq_true_eq] at hn
    exact ⟨rfl, n, hn.2, fun h => Folder.get_eq_none_iff.mp h hn.1⟩

/-! ### Cloning -/

theorem wp_reflinkOrCopy (hT : T.Free) (reflink : Bool) (content : Content) :
    wp T (reflinkOrCopy reflink content)
      (.orFail (fun _ t => t = some (Entry.file content)) (fun _ => True) T.CanFail) none := by
  have hcopy : ∀ t : Slot Content, t.isFile = true →
      wp T (shareContent reflink content)
        (.orCut (fun _ t' => t' = some (Entry.file content))
          fun t' => t' = none ∨ t'.isFile = true) t := by
    intro t ht
    cases reflink with
    | true => exact wp_perform_orCut (hold_ok ht content) (hT _ _) rfl (Or.inr ht)
    | false => exact wp_mono (wp_copyFile hT content ht) (Post.orCut_le (fun _ _ h => h)
        fun _ h => Or.inr h)
  have hbody : wp T
      (do
        .perform openNew
        shareContent reflink content
        fsync
        copyMetadata)
      (.orCut (fun _ t => t = some (Entry.file content)) fun t => t = none ∨ t.isFile = true)
      (none : Slot Content) := by
    refine wp_seq (wp_openNew hT (P := fun t => t = none ∨ t.isFile = true) (Or.inl rfl))
      (fun _ t ht => ?_) fun _ h => h
    refine wp_seq (hcopy t ht) ?_ fun _ h => h
    rintro _ t' rfl
    refine wp_seq (wp_touch hT rfl (Or.inr rfl)) ?_ fun _ h => h
    rintro _ t' rfl
    exact wp_copyMetadata hT rfl (Or.inr rfl)
  -- what the body left of the file is removed, so that the name is free again
  have hhandler : ∀ e (t : Slot Content), (t = none ∨ t.isFile = true) → T.CanFail →
      wp T (do
        .perform (unlink true)
        throw e : OnSlot Unit)
        (.orFail (fun _ t => t = some (Entry.file content)) (fun _ => True) T.CanFail) t := by
    intro e t ht hfail
    have hunlink : unlink true t = .ok none := by
      match t, ht with
      | none, _ => rfl
      | some ⟨.file _, _⟩, _ => rfl
    rw [wp_bind, wp_perform, hunlink]
    exact ⟨⟨hT _ _, trivial, hfail⟩, fun _ _ => trivial, fun _ => trivial⟩
  rw [reflinkOrCopy, wp_tryCatch]
  exact wp_mono (wp_marked hbody) ⟨fun _ _ h => h, fun _ _ h => h.elim,
    fun e t h => hhandler e t h.1 ⟨t, h.2⟩, fun _ _ => trivial⟩

mutual

theorem wp_cloneEntry {T : Terms (Slot Content) Empty} (hT : T.Free) (reflink : Bool) :
    ∀ (x : Node Content) (hx : x.wf = true),
      wp T (cloneEntry reflink x)
        (.orFail (fun _ t' => t'.view = Slot.view (some ⟨x, hx⟩)) (fun _ => True) T.CanFail) none
  | .link target, hx => by
    simp only [cloneEntry]
    refine wp_mono (wp_seq (P := fun _ => True) (R := fun _ => True)
      (Q := fun _ t => t = some (Entry.link target)) ?_ ?_ fun _ h => h)
      (Post.orCut_le_orFail (Q := fun _ t => t = some (Entry.link target)) ?_ fun _ h => h)
    · exact wp_perform_orCut rfl (hT _ _) rfl trivial
    · rintro _ t rfl
      exact wp_copyMetadata hT rfl trivial
    · rintro _ t rfl
      rfl
  | .file content, hx => by
    refine wp_mono (wp_reflinkOrCopy hT reflink content) (Post.orFail_le ?_ (fun _ h => h) id)
    rintro _ t rfl
    rfl
  | .dir d, hx => by
    simp only [cloneEntry]
    have hempty : ∀ n, Folder.get ⟨d, hx⟩ n ≠ none → (Folder.empty : Folder Content).get n = none :=
      fun n _ => Folder.get_empty n
    have hmkdir : wp T (.perform mkdir) (.orFail (fun _ t => t = some (Entry.folder .empty))
        (fun _ => True) T.CanFail) (none : Slot Content) :=
      wp_mono (wp_perform_orCut (P := fun _ => True) rfl (hT _ _) rfl trivial)
        (Post.orCut_le_orFail (fun _ _ h => h.symm) fun _ h => h)
    refine wp_seq_orFail hmkdir ?_ fun _ h => h
    rintro _ t rfl
    refine wp_seq_orFail (wp_zoom_orFail inside T
      (wp_cloneEntries (hT.through _ _) reflink d hx .empty hempty)) (fun _ t ht => ?_)
      fun _ _ => trivial
    have hdir := Slot.eq_folder (ht.1 rfl)
    refine wp_mono (wp_copyMetadata hT (P := fun _ => True) (by rw [hdir]; rfl) trivial)
      (Post.orCut_le_orFail ?_ fun _ h => h)
    rintro _ t' rfl
    rw [hdir]
    refine (Slot.view_folder_ext (g := ⟨d, hx⟩)).mpr fun n => ?_
    by_cases hn : Folder.get ⟨d, hx⟩ n = none
    · rw [hn, show t'.folder.get n = none from (ht.2 n).2 hn]
    · exact (ht.2 n).1 hn

theorem wp_cloneEntries {T : Terms (Folder Content) Empty} (hT : T.Free) (reflink : Bool) :
    ∀ (d : Dir Content) (hd : d.wf = true) (f : Folder Content),
      (∀ n, Folder.get ⟨d, hd⟩ n ≠ none → f.get n = none) →
      wp T (cloneEntries reflink d)
        (.orFail (fun _ f' => Overlaid ⟨d, hd⟩ f f')
          (fun f' => ∀ n, Folder.get ⟨d, hd⟩ n = none → f'.get n = f.get n) T.CanFail) f
  | .nil, _, f, _ => fun _ => ⟨fun h => absurd rfl h, fun _ => rfl⟩
  | .cons n x rest, hd, f, hf => by
    obtain ⟨hn, hx, hrest⟩ := Dir.wf_cons.mp hd
    have hfree : f.get n = none := hf n (by simp [Folder.get_cons])
    have hentry := wp_cloneEntry (T := T.through (slotOf n) f) (hT.through _ _) reflink x hx
    rw [← hfree] at hentry
    refine wp_seq_orFail (wp_zoom_orFail (slotOf n) T hentry) (fun _ f₁ hf₁ => ?_)
      fun f₁ hf₁ m hm => hf₁.1 m (Folder.cons_absent hd hm).1
    refine wp_mono (wp_cloneEntries hT reflink rest hrest f₁ fun m hm => ?_)
      (Post.orFail_le (fun _ f₂ hf₂ => Overlaid.cons hd hf₁.1 hf₁.2 hf₂) ?_ id)
    · have hmn : m ≠ n := by
        rintro rfl
        exact hm (Folder.get_eq_none_iff.mpr hn)
      rw [hf₁.1 m hmn]
      exact hf m (by simpa [Folder.get_cons, Ne.symm hmn] using hm)
    · intro f₂ hf₂ m hm
      rw [hf₂ m (Folder.cons_absent hd hm).2, hf₁.1 m (Folder.cons_absent hd hm).1]

end

/-! ### The rollback and the stage -/

theorem get_liveEntries (d : Dir Content) (n : Name) :
    (liveEntries d).find n = if n ∈ protectedRootNames then none else d.find n := by
  induction d with
  | nil => simp [liveEntries, Dir.find]
  | cons k x rest ih =>
    by_cases hk : k ∈ protectedRootNames
    · by_cases hkn : k = n
      · subst hkn
        simp [liveEntries, hk, ih]
      · simp [liveEntries, hk, ih, Dir.find, hkn]
    · by_cases hkn : k = n
      · subst hkn
        simp [liveEntries, hk, Dir.find]
      · simp [liveEntries, hk, Dir.find, hkn, ih]

theorem names_liveEntries (d : Dir Content) : ∀ n ∈ (liveEntries d).names, n ∈ d.names := by
  intro n hn
  by_contra hd
  have hfind := get_liveEntries d n
  rw [(Dir.find_eq_none_iff n d).mpr hd, ite_self, Dir.find_eq_none_iff] at hfind
  exact hfind hn

theorem wf_liveEntries {d : Dir Content} (hd : d.wf = true) : (liveEntries d).wf = true := by
  induction d with
  | nil => rfl
  | cons k x rest ih =>
    obtain ⟨hk, hx, hrest⟩ := Dir.wf_cons.mp hd
    by_cases hprot : k ∈ protectedRootNames
    · simpa [liveEntries, hprot] using ih hrest
    · simp only [liveEntries, hprot, if_false]
      exact Dir.wf_cons.mpr ⟨fun h => hk (names_liveEntries rest k h), hx, ih hrest⟩

def liveFolder (f : Folder Content) : Folder Content := ⟨liveEntries f.dir, wf_liveEntries f.wf⟩

theorem get_liveFolder (f : Folder Content) (n : Name) :
    (liveFolder f).get n = if n ∈ protectedRootNames then none else f.get n := by
  refine Option.ext fun e => ?_
  rw [Folder.get_eq_some, liveFolder, get_liveEntries]
  by_cases hn : n ∈ protectedRootNames
  · simp [hn]
  · simp [hn, Folder.get_eq_some]

def RollbackShape (t : Slot Content) : Prop :=
  t = none ∨ t.isDir = true ∧ ∀ n ∈ protectedRootNames, t.folder.get n = none

theorem RollbackShape.shrunk {t t' : Slot Content} (h : RollbackShape t) (ht : t ≠ none)
    (hs : t.Shrunk t') : RollbackShape t' := by
  rcases h with rfl | ⟨hdir, hfree⟩
  · exact absurd rfl ht
  · exact Or.inr ⟨hs.1 hdir, fun n hn => hs.2 n (hfree n hn)⟩

theorem wp_removeRollback (hT : T.Free) {t : Slot Content} (ht : RollbackShape t) :
    wp T removePath (.orCut (fun _ t' => t' = none) fun t' => t ≠ none ∧ RollbackShape t') t := by
  by_cases hnone : t = none
  · subst hnone
    exact rfl
  · exact wp_mono (wp_removePath hT t)
      (Post.orCut_le (fun _ _ h => h) fun _ h => ⟨hnone, ht.shrunk hnone h⟩)

theorem wp_cloneLiveTree (hT : T.Free) (reflink : Bool) (root : Folder Content) :
    wp T (cloneLiveTree reflink root)
      (.orFail
        (fun _ t => t.isDir = true ∧
          ∀ n, (t.folder.get n).view = ((liveFolder root).get n).view)
        RollbackShape T.CanFail) none := by
  have hempty : ∀ n, (liveFolder root).get n ≠ none → (Folder.empty : Folder Content).get n = none :=
    fun n _ => Folder.get_empty n
  have hclone : wp T
      (do
        (cloneEntries reflink (liveEntries root.dir)).zoom inside
        copyMetadata)
      (.orFail
        (fun _ t => t.isDir = true ∧ ∀ n, (t.folder.get n).view = ((liveFolder root).get n).view)
        RollbackShape T.CanFail) (some (Entry.folder .empty)) := by
    refine wp_seq_orFail (wp_zoom_orFail inside T
      (wp_cloneEntries (hT.through _ _) reflink _ (wf_liveEntries root.wf) .empty hempty))
      (fun _ t ht => ?_) fun t ht => Or.inr ⟨ht.1 rfl, fun n hn => ?_⟩
    · have hall : ∀ n, (t.folder.get n).view = ((liveFolder root).get n).view := by
        intro n
        by_cases hn : (liveFolder root).get n = none
        · rw [hn, show t.folder.get n = none from (ht.2 n).2 hn]
        · exact (ht.2 n).1 hn
      have hdir : t.isDir = true := ht.1 rfl
      refine wp_mono (wp_copyMetadata hT (P := RollbackShape) ?_ (Or.inr ⟨hdir, fun n hn => ?_⟩))
        (Post.orCut_le_orFail ?_ fun _ h => h)
      · rw [Slot.eq_folder hdir]
        rfl
      · refine Slot.view_eq_none.mp ?_
        rw [hall n, get_liveFolder, if_pos hn]
      · rintro _ t' rfl
        exact ⟨hdir, hall⟩
    · refine ht.2 n ?_
      change (liveFolder root).get n = none
      rw [get_liveFolder, if_pos hn]
  -- whatever the clone raises at, what there is of it is removed
  have hhandler : ∀ e t, RollbackShape t → T.CanFail →
      wp T (do
        removePath
        throw e)
      (.orFail
        (fun _ t => t.isDir = true ∧ ∀ n, (t.folder.get n).view = ((liveFolder root).get n).view)
        RollbackShape T.CanFail : Post _ _ Unit) t := by
    intro e t ht hfail
    rw [wp_bind]
    exact wp_mono (wp_removeRollback hT ht)
      (Post.orCut_imp (fun _ t' ht' => ⟨Or.inl ht', hfail⟩) (fun _ _ h => h.2) fun _ h => h.2)
  have hnone : RollbackShape (none : Slot Content) := Or.inl rfl
  simp only [cloneLiveTree]
  refine wp_seq_orFail (wp_mono (wp_removeRollback hT hnone)
    (Post.orCut_le_orFail (fun _ _ h => h) fun _ h => h.2)) ?_ fun _ h => h
  rintro _ t rfl
  refine wp_seq_orFail (Q := fun _ t => t = some (Entry.folder .empty))
    (wp_mono (wp_perform_orCut rfl (hT _ _) rfl hnone)
      (Post.orCut_le_orFail (fun _ _ h => h.symm) fun _ h => h)) ?_ fun _ h => h
  rintro _ t rfl
  rw [wp_tryCatch]
  exact wp_mono (wp_marked hclone) ⟨fun _ _ h => h, fun e t h => hhandler e t h.1 h.2,
    fun e t h => hhandler e t h.1 ⟨t, h.2⟩, fun _ h => h.1⟩

theorem plain_raiseAny (refusal : Option Exn) : (raiseAny refusal).Plain := by
  cases refusal <;> trivial

theorem plain_ensureArchiveParents (member : Member) (parent : Path) :
    (ensureArchiveParents member parent).Plain := by
  refine (plain_raiseAny _).bind fun _ => ?_
  intro stage
  refine Prog.Plain.forM ?_ _
  exact fun directory => trivial

theorem plain_extractDirectory (member : Member) (destination : Path) :
    (extractDirectory member destination).Plain := by
  simp only [extractDirectory]
  refine (plain_raiseAny _).bind fun _ => (Prog.plain_read _).bind fun there => ?_
  by_cases hthere : there.isSome = true ∧ ¬ there.isDir = true
  · rw [if_pos hthere]
    trivial
  · rw [if_neg hthere]
    refine (plain_ensureArchiveParents member _).bind fun _ => ?_
    trivial

theorem plain_extractFile (member : Member) (destination : Path) (content : Option Content) :
    (extractFile member destination content).Plain := by
  simp only [extractFile]
  refine (plain_ensureArchiveParents member _).bind fun _ => (plain_raiseAny _).bind fun _ =>
    (Prog.plain_read _).bind fun there => ?_
  by_cases hthere : there.isSome = true
  · rw [if_pos hthere]
    trivial
  · rw [if_neg hthere]
    cases content with
    | none => trivial
    | some content =>
      have hwrites : ((Contents.torn content).forM fun c =>
          (.perform (stepAt (hold c) destination) : OnSlot PUnit)).Plain := by
        refine Prog.Plain.forM ?_ _
        exact fun c => trivial
      refine hwrites.bind fun _ => ?_
      trivial

theorem plain_extractMember (member : Member) : (extractMember member).Plain := by
  simp only [extractMember]
  split
  · trivial
  · split
    · trivial
    · trivial
    · trivial
    · split
      · trivial
      · exact plain_extractDirectory member _
    · split
      · trivial
      · exact plain_extractFile member _ _

theorem plain_extractMembers (members : List Member) : (extractMembers members).Plain := by
  induction members with
  | nil => trivial
  | cons member rest ih =>
    refine (plain_extractMember member).bind fun directory => ih.bind fun directories => ?_
    trivial

theorem plain_unpack (archive : Archive) : (unpack archive).Plain := by
  refine (plain_extractMembers archive.members).bind fun directories =>
    (plain_raiseAny _).bind fun _ => Prog.Plain.forM ?_ _
  exact fun directory => trivial

def extractedTree (archive : Archive) : Slot Content :=
  (exec alone (unpack archive) [] (some (Entry.folder .empty))).state

theorem wp_extractInspectedArchive (hT : T.Free) (archive : Archive) (t : Slot Content) :
    wp T (extractInspectedArchive archive)
      ⟨fun _ t' => t' = extractedTree archive, fun _ t' => t' = none, fun _ _ => True,
        fun _ => True⟩ t := by
  have hremove : ∀ (e : Exn) (t₁ : Slot Content) (β : Type) (Q : β → Slot Content → Prop),
      wp T (removePath >>= fun _ => throw e)
        ⟨Q, fun _ t' => t' = none, fun _ _ => True, fun _ => True⟩ t₁ := by
    intro e t₁ β Q
    rw [wp_bind]
    exact wp_mono (wp_removePath hT t₁)
      (Post.orCut_imp (fun _ _ h => h) (fun _ _ _ => trivial) fun _ _ => trivial)
  simp only [extractInspectedArchive]
  rw [wp_bind]
  refine wp_mono (wp_removePath hT t) (Post.orCut_imp ?_ (fun _ _ _ => trivial) fun _ _ => trivial)
  rintro _ t₁ rfl
  rw [Post.next_ok, wp_bind, wp_perform]
  refine ⟨⟨hT _ _, ?_⟩, fun _ _ => trivial, fun _ => trivial⟩
  rw [Post.next_ok, wp_bind, wp_tryCatch]
  refine wp_mono (wp_plain T hT (plain_unpack archive) _)
    ⟨fun _ t₂ h₂ => ?_, fun e t₂ _ => hremove e t₂ _ _, fun e t₂ _ => hremove e t₂ _ _,
      fun _ _ => trivial⟩
  have hstage : t₂ = extractedTree archive := h₂.2.symm
  simp only [Post.next_ok]
  cases archive.changed with
  | true => exact hremove _ t₂ _ _
  | false => exact hstage

theorem wp_extractVerifiedArchive (hT : T.Free) (archive : Archive) (t : Slot Content) :
    wp T (extractVerifiedArchive archive)
      ⟨fun _ t' => t' = extractedTree archive, fun _ t' => t' = none ∨ t' = t, fun _ _ => True,
        fun _ => True⟩ t := by
  simp only [extractVerifiedArchive]
  rw [wp_bind, wp_perform]
  refine ⟨⟨hT _ _, ?_⟩, fun _ _ => trivial, fun _ => trivial⟩
  rw [Post.next_ok]
  cases checkInspection archive.inspection with
  | error e => exact Or.inr rfl
  | ok _ =>
    exact wp_mono (wp_extractInspectedArchive hT archive t)
      ⟨fun _ _ h => h, fun _ _ h => Or.inl h, fun _ _ h => h, fun _ h => h⟩

end Slots

end RestoreWorker
