import McAdmin.RestoreUndo

/-!
# What the extraction makes of the stage

The steps of `_extract_verified_archive` as they change what is seen at each path of the
stage, and when they are refused.
-/

namespace RestoreWorker

open CrashLogic FileTree

/-! ### Single paths -/

section

variable {t t' : Stage} {p q : Path} {n : Name} {e : Entry Content}

theorem view_lookup (p : Path) (t : Stage) (q : Path) : (lookup p t).view q = t.view (p ++ q) := by
  induction p generalizing t with
  | nil => rfl
  | cons n p ih =>
    rw [lookup, ih]
    match t with
    | none => rfl
    | some ⟨.file _, _⟩ => rfl
    | some ⟨.link _, _⟩ => rfl
    | some ⟨.dir d, h⟩ => exact (Slot.view_folder ⟨d, h⟩ n (p ++ q)).symm

theorem isSome_lookup (p : Path) (t : Stage) : (lookup p t).isSome = true ↔ t.view p ≠ none := by
  have hview := view_lookup p t []
  rw [List.append_nil] at hview
  rw [← hview]
  cases lookup p t with
  | none => simp
  | some e => simp [Slot.view, Node.view]

theorem view_root : t.view [] = some .dir ↔ t.isDir = true := by
  match t with
  | none => simp [Slot.isDir]
  | some ⟨.file _, _⟩ => simp [Slot.view, Node.view, Node.kind, Slot.isDir]
  | some ⟨.link _, _⟩ => simp [Slot.view, Node.view, Node.kind, Slot.isDir]
  | some ⟨.dir _, _⟩ => simp [Slot.view, Node.view, Node.kind, Slot.isDir]

theorem isDir_lookup (p : Path) (t : Stage) :
    (lookup p t).isDir = true ↔ t.view p = some .dir := by
  rw [← view_root, view_lookup, List.append_nil]

theorem view_above (h : t.view (p ++ n :: q) ≠ none) : t.view p = some .dir := by
  rw [← view_lookup] at h
  rw [← isDir_lookup]
  match lookup p t, h with
  | some ⟨.dir _, _⟩, _ => rfl
  | some ⟨.file _, _⟩, h => exact absurd rfl h
  | some ⟨.link _, _⟩, h => exact absurd rfl h
  | none, h => exact absurd rfl h

theorem stepAt_ok {f : Stage → Except Exn Stage} (h : stepAt f p t = .ok t') :
    (∀ q m, q ++ [m] <+: p → t.view q = some .dir) ∧
      ∃ s, f (lookup p t) = .ok s ∧ lookup p t' = s ∧
        ∀ q, ¬ p <+: q → t'.view q = t.view q := by
  induction p generalizing t t' with
  | nil => exact ⟨by simp, t', h, rfl, by simp⟩
  | cons n p ih =>
    match t with
    | none => cases h
    | some ⟨.file _, _⟩ => cases h
    | some ⟨.link _, _⟩ => cases h
    | some ⟨.dir d, hd⟩ =>
      simp only [stepAt] at h
      cases hstep : stepAt f p (Folder.get ⟨d, hd⟩ n) with
      | error e =>
        rw [hstep] at h
        cases h
      | ok s₁ =>
        rw [hstep] at h
        cases h
        rcases ih hstep with ⟨habove, s, hs, hlookup, hframe⟩
        refine ⟨?_, s, hs, ?_, ?_⟩
        · intro q m hq
          cases q with
          | nil => rfl
          | cons k q =>
            rcases List.cons_prefix_cons.mp hq with ⟨rfl, hrest⟩
            exact (Slot.view_folder ⟨d, hd⟩ k q).trans (habove q m hrest)
        · change lookup p (Folder.get (Folder.set ⟨d, hd⟩ n s₁) n) = s
          rw [Folder.get_set_self]
          exact hlookup
        -- another path leaves this one at some name, and below it nothing changes
        · intro q hq
          cases q with
          | nil => rfl
          | cons k q =>
            rw [Slot.view_folder]
            refine Eq.trans ?_ (Slot.view_folder ⟨d, hd⟩ k q).symm
            by_cases hk : n = k
            · subst hk
              rw [Folder.get_set_self]
              exact hframe q fun hpq => hq (List.cons_prefix_cons.mpr ⟨rfl, hpq⟩)
            · rw [Folder.get_set_ne _ hk]

theorem stepAt_of_dirs {f : Stage → Except Exn Stage} {s : Stage}
    (habove : ∀ q m, q ++ [m] <+: p → t.view q = some .dir) (h : f (lookup p t) = .ok s) :
    ∃ t', stepAt f p t = .ok t' := by
  induction p generalizing t with
  | nil => exact ⟨s, h⟩
  | cons n p ih =>
    have hroot : t.isDir = true := view_root.mp (habove [] n (by simp))
    match t, hroot with
    | some ⟨.dir d, hd⟩, _ =>
      have habove' : ∀ q m, q ++ [m] <+: p → (Folder.get ⟨d, hd⟩ n).view q = some .dir := by
        intro q m hq
        rw [← Slot.view_folder]
        exact habove (n :: q) m (List.cons_prefix_cons.mpr ⟨rfl, hq⟩)
      rcases ih habove' h with ⟨t₁, ht₁⟩
      refine ⟨some (Entry.folder (Folder.set ⟨d, hd⟩ n t₁)), ?_⟩
      simp only [stepAt, ht₁]
      rfl

theorem stepAt_keep {f : Stage → Except Exn Stage} (h : t.view p ≠ none)
    (hkeep : f (lookup p t) = .ok (lookup p t)) :
    ∃ t', stepAt f p t = .ok t' ∧ t'.view = t.view := by
  have habove : ∀ q m, q ++ [m] <+: p → t.view q = some .dir := by
    rintro q m ⟨r, rfl⟩
    rw [List.append_assoc] at h
    exact view_above h
  rcases stepAt_of_dirs habove hkeep with ⟨t', ht'⟩
  refine ⟨t', ht', ?_⟩
  rcases stepAt_ok ht' with ⟨_, s, hs, hlookup, hframe⟩
  rw [hkeep] at hs
  cases hs
  funext q
  by_cases hq : p <+: q
  · rcases hq with ⟨r, rfl⟩
    rw [← view_lookup, ← view_lookup, hlookup]
  · exact hframe q hq

end

/-! ### Steps -/

def orRaise {α : Type} (Q : α → Stage → Prop) (R : Prop) : Post Stage Exn α :=
  ⟨Q, fun _ _ => R, fun _ _ => True, fun _ => True⟩

section

variable {T : Terms Stage Empty} {α β : Type} {Q : α → Stage → Prop} {S : β → Stage → Prop}
  {R : Prop} {t t' : Stage} {p q : Path}

theorem orRaise_le {Q' : α → Stage → Prop} {R' : Prop} (hQ : ∀ a t, Q a t → Q' a t) (hR : R → R') :
    (orRaise Q R).Le (orRaise Q' R') :=
  ⟨hQ, fun _ _ => hR, fun _ _ h => h, fun _ h => h⟩

theorem wp_seq_orRaise {p : OnSlot α} {g : α → OnSlot β} (hp : wp T p (orRaise Q R) t)
    (hg : ∀ a t', Q a t' → wp T (g a) (orRaise S R) t') : wp T (p >>= g) (orRaise S R) t := by
  rw [wp_bind]
  exact wp_mono hp ⟨hg, fun _ _ h => h, fun _ _ _ => trivial, fun _ _ => trivial⟩

theorem wp_forM_append {f : β → OnSlot PUnit} (l l' : List β) (Φ : Post Stage Exn PUnit) :
    wp T ((l ++ l').forM f) Φ t ↔ wp T (l.forM f) (Φ.next fun _ t' => wp T (l'.forM f) Φ t') t := by
  induction l generalizing t with
  | nil => exact Iff.rfl
  | cons b l ih =>
    change wp T (f b >>= fun _ => (l ++ l').forM f) Φ t ↔ wp T (f b >>= fun _ => l.forM f) _ t
    simp only [wp_bind, ih]
    exact Iff.rfl

theorem wp_perform_orRaise (hT : T.Free) {f : Stage → Except Exn Stage} {Q : Unit → Stage → Prop}
    (hok : ∀ t', f t = .ok t' → Q () t') (herror : ∀ e, f t = .error e → R) :
    wp T (.perform f) (orRaise Q R) t := by
  rw [wp_perform]
  refine ⟨?_, fun _ _ => trivial, fun _ => trivial⟩
  cases hf : f t with
  | ok t' => exact ⟨hT _ _, hok t' hf⟩
  | error e => exact herror e hf

theorem wp_keepAt (hT : T.Free) {f : Stage → Except Exn Stage} (h : t.view p ≠ none)
    (hkeep : f (lookup p t) = .ok (lookup p t)) :
    wp T (.perform (stepAt f p)) (orRaise (fun _ t' => t'.view = t.view) R) t := by
  rcases stepAt_keep h hkeep with ⟨t₁, ht₁, hview⟩
  apply wp_perform_orRaise hT
  · intro t' ht'
    rw [ht₁] at ht'
    cases ht'
    exact hview
  · intro e he
    rw [ht₁] at he
    cases he

theorem wp_touchAt (hT : T.Free) (h : t.view p ≠ none) :
    wp T (.perform (stepAt touch p)) (orRaise (fun _ t' => t'.view = t.view) R) t := by
  apply wp_keepAt hT h
  rw [← isSome_lookup] at h
  match lookup p t, h with
  | some _, _ => rfl

theorem wp_raiseAny {refusal : Option Exn} (h : refusal ≠ none → R) :
    wp T (raiseAny refusal) (orRaise (fun _ t' => refusal = none ∧ t = t') R) t := by
  cases refusal with
  | none => exact ⟨rfl, rfl⟩
  | some e => exact h (Option.some_ne_none e)

theorem wp_refusing (hT : T.Free) {f : Stage → Except Exn Stage} {Q : Unit → Stage → Prop}
    {refusal : Option Exn} (hf : wp T (.perform f) (orRaise Q R) t) (h : refusal ≠ none → R) :
    wp T (.perform (refusing refusal f)) (orRaise (fun a t' => refusal = none ∧ Q a t') R) t := by
  cases refusal with
  | none => exact wp_mono hf (orRaise_le (fun _ _ h => ⟨rfl, h⟩) id)
  | some e =>
    exact wp_perform_orRaise hT (fun _ hok => by cases hok) fun _ _ => h (Option.some_ne_none e)

def Settable (member : Member) : Prop :=
  member.refusals.owner = none ∧ member.refusals.date = none

instance (member : Member) : Decidable (Settable member) := inferInstanceAs (Decidable (_ ∧ _))

theorem wp_setArchiveMetadata (hT : T.Free) (member : Member) (h : t.view p ≠ none) :
    wp T (setArchiveMetadata (p, member))
      (orRaise (fun _ t' => Settable member ∧ t'.view = t.view) (¬ Settable member)) t := by
  refine wp_seq_orRaise (wp_refusing hT (wp_touchAt hT h) fun howner hset => howner hset.1) ?_
  rintro _ t₁ ⟨howner, h₁⟩
  refine wp_seq_orRaise (wp_touchAt hT (h₁ ▸ h)) fun _ t₂ h₂ => ?_
  have htouch := wp_touchAt (R := ¬ Settable member) hT (h₂ ▸ h₁ ▸ h)
  refine wp_mono (wp_refusing hT htouch fun hdate hset => hdate hset.2) (orRaise_le ?_ id)
  rintro _ t₃ ⟨hdate, h₃⟩
  exact ⟨⟨howner, hdate⟩, by rw [h₃, h₂, h₁]⟩

/-! ### Members -/

def Granted (member : Member) (p : Path) : Prop := Settable member ∧ member.tooLong p = none

instance (member : Member) (p : Path) : Decidable (Granted member p) :=
  inferInstanceAs (Decidable (_ ∧ _))

theorem tooLong_above {member : Member} (h : member.tooLong p = none) (hq : q <+: p) :
    member.tooLong q = none := by
  unfold Member.tooLong at h ⊢
  cases hlong : member.refusals.long with
  | none => rfl
  | some limit =>
    obtain ⟨parts, e⟩ := limit
    rw [hlong] at h
    dsimp only at h ⊢
    have hlength := hq.length_le
    by_cases hp : parts < p.length
    · rw [if_pos hp] at h
      cases h
    · rw [if_neg (by omega)]

structure Solid (t : Stage) : Prop where
  root : t.view [] = some .dir
  plain : ∀ p target, t.view p ≠ some (.link target)

def Open (t : Stage) (p : Path) : Prop := ∀ q, q <+: p → ∀ c, t.view q ≠ some (.file c)

def grown (t : Stage) (p q : Path) : Option (Kind Content) :=
  if q <+: p ∧ t.view q = none then some .dir else t.view q

theorem Open.view (h : Open t p) (hsolid : Solid t) (hq : q <+: p) :
    t.view q = some .dir ∨ t.view q = none := by
  cases hview : t.view q with
  | none => exact .inr rfl
  | some kind =>
    cases kind with
    | dir => exact .inl rfl
    | file c => exact absurd hview (h q hq c)
    | link target => exact absurd hview (hsolid.plain q target)

theorem grown_of_present (h : t.view p ≠ none) : grown t p = t.view := by
  funext q
  rw [grown, if_neg]
  rintro ⟨⟨r, rfl⟩, hnone⟩
  cases r with
  | nil => exact h (by simpa using hnone)
  | cons n r =>
    rw [view_above h] at hnone
    cases hnone

theorem Open.mono (h : Open t p) (hq : q <+: p) : Open t q :=
  fun _ hr => h _ (hr.trans hq)

theorem grown_above (hsolid : Solid t) (hopen : Open t p) (hview : t'.view = grown t p)
    (hq : q <+: p) : t'.view q = some .dir := by
  rw [hview, grown]
  rcases hopen.view hsolid hq with hdir | hnone
  · rw [if_neg (by simp [hdir]), hdir]
  · rw [if_pos ⟨hq, hnone⟩]

theorem view_below (hnone : t.view p = none) (r : Path) : t.view (p ++ r) = none := by
  by_contra hpresent
  cases r with
  | nil => exact hpresent (by simpa using hnone)
  | cons m r =>
    rw [view_above hpresent] at hnone
    cases hnone

theorem not_concat_prefix (p : Path) (n : Name) : ¬ p ++ [n] <+: p := by
  intro h
  have hlength := h.length_le
  rw [List.length_append, List.length_singleton] at hlength
  omega

theorem grown_concat {n : Name} (hnone : t.view (p ++ [n]) = none) :
    grown t (p ++ [n]) = Function.update (grown t p) (p ++ [n]) (some .dir) := by
  funext q
  by_cases hq : q = p ++ [n]
  · subst hq
    simp [grown, hnone]
  · have hiff : q <+: p ++ [n] ↔ q <+: p := by
      rw [List.prefix_concat_iff, or_iff_right hq]
    rw [Function.update_of_ne hq]
    simp only [grown, hiff]

theorem wp_makeAt (hT : T.Free) {n : Name} {f : Stage → Except Exn Stage} {e : Entry Content}
    (hmake : f none = .ok (some e)) (hleaf : ∀ m r, Slot.view (some e) (m :: r) = none)
    (hsolid : Solid t) (hview : t'.view = grown t p) (hnone : t.view (p ++ [n]) = none) :
    wp T (.perform (stepAt f (p ++ [n])))
      (orRaise (fun _ t'' => Open t p ∧
          t''.view = Function.update (grown t p) (p ++ [n]) (some e.node.kind))
        (¬ Open t p)) t' := by
  have hlookup : lookup (p ++ [n]) t' = none := by
    rw [← Option.not_isSome_iff_eq_none, isSome_lookup, hview, grown, if_neg]
    · simp [hnone]
    · exact fun h => not_concat_prefix p n h.1
  apply wp_perform_orRaise hT
  · intro t'' hstep
    rcases stepAt_ok hstep with ⟨habove, s, hs, hlook, hframe⟩
    rw [hlookup, hmake] at hs
    cases hs
    refine ⟨?_, ?_⟩
    · intro q hq c hfile
      have hdir : t'.view q = some .dir := by
        rcases hq with ⟨r, rfl⟩
        cases r with
        | nil => exact habove q n (by simp)
        | cons m r => exact habove q m ⟨r ++ [n], by simp⟩
      rw [hview, grown, hfile] at hdir
      simp at hdir
    · funext q
      by_cases hq : p ++ [n] <+: q
      · rcases hq with ⟨r, rfl⟩
        rw [← view_lookup, hlook]
        cases r with
        | nil => simp [Slot.view, Node.view]
        | cons m r =>
          have hgrown : ¬ p ++ [n] ++ m :: r <+: p := fun h =>
            not_concat_prefix p n ((List.prefix_append _ _).trans h)
          rw [hleaf, Function.update_of_ne (by simp), grown, if_neg fun h => hgrown h.1,
            view_below hnone]
      · rw [hframe q hq, hview, Function.update_of_ne]
        rintro rfl
        exact hq (List.prefix_refl _)
  · intro e' herror hopen
    -- with directories above, the step cannot have raised
    have habove : ∀ q m, q ++ [m] <+: p ++ [n] → t'.view q = some .dir := by
      intro q m hq
      apply grown_above hsolid hopen hview
      rcases List.prefix_concat_iff.mp hq with heq | hq
      · exact (List.append_inj' heq rfl).1 ▸ List.prefix_refl _
      · exact (List.prefix_append q [m]).trans hq
    rw [← hlookup] at hmake
    rcases stepAt_of_dirs habove hmake with ⟨t'', hok⟩
    rw [hok] at herror
    cases herror

theorem wp_mkdirAt (hT : T.Free) {n : Name} {f : Stage → Except Exn Stage}
    (hmake : f none = .ok (some (Entry.folder .empty))) (hsolid : Solid t)
    (hview : t'.view = grown t p) (hnone : t.view (p ++ [n]) = none) :
    wp T (.perform (stepAt f (p ++ [n])))
      (orRaise (fun _ t'' => Open t p ∧ t''.view = grown t (p ++ [n])) (¬ Open t p)) t' := by
  rw [grown_concat hnone]
  exact wp_makeAt hT hmake (fun _ _ => rfl) hsolid hview hnone

theorem wp_missingParents (hT : T.Free) (hsolid : Solid t) (member : Member) (up : Path) :
    wp T ((missingParents t up).reverse.forM fun directory => do
        .perform (stepAt mkdir directory)
        .perform (refusing member.refusals.owner (stepAt touch directory))
        .perform (stepAt touch directory))
      (orRaise (fun _ t' => t'.view = grown t up.reverse)
        (¬ (Open t up.reverse ∧ member.refusals.owner = none))) t := by
  induction up with
  | nil =>
    have hroot : grown t [] = t.view := grown_of_present (by simp [hsolid.root])
    exact hroot.symm
  | cons n up ih =>
    rw [missingParents]
    -- the first parent that is there ends the way up
    by_cases hpresent : (lookup (n :: up).reverse t).isSome = true
    · rw [if_pos hpresent]
      exact (grown_of_present ((isSome_lookup _ _).mp hpresent)).symm
    · rw [if_neg hpresent, List.reverse_cons, wp_forM_append]
      rw [isSome_lookup, not_not, List.reverse_cons] at hpresent
      rw [List.reverse_cons]
      have hopen : ¬ Open t up.reverse →
          ¬ (Open t (up.reverse ++ [n]) ∧ member.refusals.owner = none) :=
        fun h hall => h (hall.1.mono (List.prefix_append _ _))
      refine wp_mono ih ⟨fun _ t₁ h₁ => ?_, fun _ _ h hall => ?_, fun _ _ _ => trivial,
        fun _ _ => trivial⟩
      rotate_left
      · exact h ⟨hall.1.mono (List.prefix_append _ _), hall.2⟩
      change wp T ((do
          .perform (stepAt mkdir (up.reverse ++ [n]))
          .perform (refusing member.refusals.owner (stepAt touch (up.reverse ++ [n])))
          .perform (stepAt touch (up.reverse ++ [n]))) >>= fun _ => pure PUnit.unit) _ t₁
      have hmkdir := wp_mono (wp_mkdirAt (f := mkdir) hT rfl hsolid h₁ hpresent)
        (orRaise_le (fun _ _ h => h.2) hopen)
      have hmade : grown t (up.reverse ++ [n]) (up.reverse ++ [n]) ≠ none := by
        simp [grown, hpresent]
      have htouch : ∀ {t₂ : Stage}, t₂.view = grown t (up.reverse ++ [n]) →
          t₂.view (up.reverse ++ [n]) ≠ none := fun h => h ▸ hmade
      refine wp_seq_orRaise ?_ fun _ _ h => h
      refine wp_seq_orRaise hmkdir fun _ t₂ h₂ => ?_
      refine wp_seq_orRaise (wp_refusing hT (wp_touchAt hT (htouch h₂)) ?_) ?_
      · exact fun howner hall => howner hall.2
      rintro _ t₃ ⟨_, h₃⟩
      have hview := h₃.trans h₂
      exact wp_mono (wp_touchAt hT (htouch hview)) (orRaise_le (fun _ _ h₄ => h₄.trans hview) id)

theorem wp_ensureArchiveParents (hT : T.Free) (hsolid : Solid t) (member : Member)
    {parent p : Path} (hp : parent <+: p) :
    wp T (ensureArchiveParents member parent)
      (orRaise (fun _ t' => t'.view = grown t parent) (¬ (Open t parent ∧ Granted member p))) t := by
  have hmissing := wp_missingParents hT hsolid member parent.reverse
  rw [List.reverse_reverse] at hmissing
  refine wp_seq_orRaise (wp_raiseAny fun hlong hall => ?_) ?_
  · exact hlong (tooLong_above hall.2.2 hp)
  rintro _ _ ⟨_, rfl⟩
  exact wp_mono hmissing (orRaise_le (fun _ _ h => h) fun h hall => h ⟨hall.1, hall.2.1.1⟩)

theorem wp_extractDirectory (hT : T.Free) (hsolid : Solid t) (member : Member) {p : Path}
    (hp : p ≠ []) :
    wp T (extractDirectory member p)
      (orRaise (fun answer t' => answer = [(p, member)] ∧ member.tooLong p = none ∧ Open t p ∧
          t'.view = grown t p)
        (¬ (Open t p ∧ Granted member p))) t := by
  obtain ⟨parent, n, rfl⟩ : ∃ parent n, p = parent ++ [n] := by
    rcases List.eq_nil_or_concat p with rfl | ⟨parent, n, rfl⟩
    · exact absurd rfl hp
    · exact ⟨parent, n, by simp⟩
  have hparent : ¬ Open t parent → ¬ (Open t (parent ++ [n]) ∧ Granted member (parent ++ [n])) :=
    fun h hall => h (hall.1.mono (List.prefix_append _ _))
  simp only [extractDirectory, List.dropLast_concat]
  refine wp_seq_orRaise (wp_raiseAny fun hlong hall => hlong hall.2.2) ?_
  rintro _ _ ⟨hlong, rfl⟩
  rw [wp_read_bind]
  -- a file at the path is refused
  by_cases hfile : (lookup (parent ++ [n]) t).isSome = true ∧
      ¬ (lookup (parent ++ [n]) t).isDir = true
  · rw [if_pos hfile, wp_bind, wp_throw]
    rintro ⟨hopen, _⟩
    rw [isSome_lookup, isDir_lookup] at hfile
    exact (hopen.view hsolid (List.prefix_refl _)).elim hfile.2 hfile.1
  rw [if_neg hfile]
  -- the parents come first, and the directory may be there already
  have hensure := wp_ensureArchiveParents hT hsolid member (List.prefix_append parent [n])
  refine wp_seq_orRaise (wp_mono hensure (orRaise_le (fun _ _ h => h) ?_)) fun _ t₁ h₁ => ?_
  · exact fun h hall => h ⟨hall.1.mono (List.prefix_append _ _), hall.2⟩
  refine wp_seq_orRaise (Q := fun _ t' => Open t (parent ++ [n]) ∧
    t'.view = grown t (parent ++ [n])) ?_ fun _ _ h => ⟨rfl, hlong, h⟩
  by_cases hnone : t.view (parent ++ [n]) = none
  · have hmake := wp_mkdirAt (f := mkdirExistOk) hT rfl hsolid h₁ hnone
    refine wp_mono hmake (orRaise_le (fun _ t₂ h₂ => ⟨?_, h₂.2⟩) hparent)
    intro q hq c hview
    rcases List.prefix_concat_iff.mp hq with rfl | hq
    · rw [hnone] at hview
      cases hview
    · exact h₂.1 q hq c hview
  · have hdir : t.view (parent ++ [n]) = some .dir := by
      by_contra hother
      exact hfile ⟨(isSome_lookup _ _).mpr hnone, fun h => hother ((isDir_lookup _ _).mp h)⟩
    have hopen : Open t (parent ++ [n]) := by
      intro q hq c hview
      rcases hq with ⟨r, hr⟩
      rw [← hr] at hdir
      cases r with
      | nil =>
        rw [List.append_nil, hview] at hdir
        cases hdir
      | cons m r =>
        rw [view_above (by rw [hdir]; simp)] at hview
        cases hview
    have hthere : t.view parent ≠ none := by
      rw [view_above (n := n) (q := []) hnone]
      intro hmissing
      cases hmissing
    have hsame₁ : t₁.view = t.view := h₁.trans (grown_of_present hthere)
    rw [← hsame₁] at hnone hdir
    have hkeep : mkdirExistOk (lookup (parent ++ [n]) t₁) = .ok (lookup (parent ++ [n]) t₁) := by
      rw [mkdirExistOk, if_pos ((isDir_lookup _ _).mpr hdir)]
    refine wp_mono (wp_keepAt hT hnone hkeep) (orRaise_le (fun _ t₂ h₂ => ⟨hopen, ?_⟩) id)
    rw [h₂, hsame₁, grown_of_present (hsame₁ ▸ hnone)]

theorem wp_holdAt (hT : T.Free) {c : Content} (c' : Content) (h : t.view p = some (.file c)) :
    wp T (.perform (stepAt (hold c') p))
      (orRaise (fun _ t' => t'.view = Function.update t.view p (some (.file c'))) R) t := by
  have hfile : hold c' (lookup p t) = .ok (some (Entry.file c')) := by
    have hview := view_lookup p t []
    rw [List.append_nil, h] at hview
    match lookup p t, hview with
    | some ⟨.file _, _⟩, _ => rfl
  have habove : ∀ q m, q ++ [m] <+: p → t.view q = some .dir := by
    rintro q m ⟨r, rfl⟩
    rw [List.append_assoc] at h
    exact view_above (n := m) (q := r) (by rw [List.singleton_append] at h; rw [h]; nofun)
  apply wp_perform_orRaise hT
  · intro t' hstep
    rcases stepAt_ok hstep with ⟨_, s, hs, hlook, hframe⟩
    rw [hfile] at hs
    cases hs
    funext q
    by_cases hq : p <+: q
    · rcases hq with ⟨r, rfl⟩
      rw [← view_lookup, hlook]
      cases r with
      | nil => simp [Slot.view, Entry.file, Node.view, Node.kind]
      | cons m r =>
        rw [Function.update_of_ne (by simp)]
        by_contra hbelow
        have hdir := view_above (t := t) (n := m) (q := r) (Ne.symm hbelow)
        rw [h] at hdir
        cases hdir
    · rw [hframe q hq, Function.update_of_ne]
      rintro rfl
      exact hq (List.prefix_refl _)
  · intro e herror
    rcases stepAt_of_dirs habove hfile with ⟨t', hok⟩
    rw [hok] at herror
    cases herror

def Written (v : Path → Option (Kind Content)) (p : Path) (t : Stage) : Prop :=
  ∃ c, t.view = Function.update v p (some (.file c))

theorem wp_writeAt (hT : T.Free) {v : Path → Option (Kind Content)} (content : Content)
    (h : Written v p t) :
    wp T (.perform (stepAt (hold content) p))
      (orRaise (fun _ t' => t'.view = Function.update v p (some (.file content))) R) t := by
  rcases h with ⟨c, hc⟩
  have hfile : t.view p = some (.file c) := by simp [hc]
  refine wp_mono (wp_holdAt hT content hfile) (orRaise_le (fun _ t' h' => ?_) id)
  rw [h', hc, Function.update_idem]

theorem wp_writePieces (hT : T.Free) {v : Path → Option (Kind Content)} (pieces : List Content)
    (h : Written v p t) :
    wp T (pieces.forM fun c => .perform (stepAt (hold c) p))
      (orRaise (fun _ t' => Written v p t') R) t := by
  induction pieces generalizing t with
  | nil => exact h
  | cons piece pieces ih =>
    change wp T (.perform (stepAt (hold piece) p) >>= fun _ =>
      pieces.forM fun c => .perform (stepAt (hold c) p)) _ t
    exact wp_seq_orRaise (wp_writeAt hT piece h) fun _ t' h' => ih ⟨piece, h'⟩

theorem wp_extractFile (hT : T.Free) (hsolid : Solid t) (member : Member) {p : Path}
    (hp : p ≠ []) (content : Option Content) :
    wp T (extractFile member p content)
      (orRaise (fun answer t' => answer = [] ∧ Granted member p ∧ ∃ c, content = some c ∧
          (Open t p.dropLast ∧ t.view p = none) ∧
          t'.view = Function.update (grown t p.dropLast) p (some (.file c)))
        (¬ (Granted member p ∧ content ≠ none ∧ Open t p.dropLast ∧ t.view p = none))) t := by
  obtain ⟨parent, n, rfl⟩ : ∃ parent n, p = parent ++ [n] := by
    rcases List.eq_nil_or_concat p with rfl | ⟨parent, n, rfl⟩
    · exact absurd rfl hp
    · exact ⟨parent, n, by simp⟩
  simp only [extractFile, List.dropLast_concat]
  have hensure := wp_ensureArchiveParents hT hsolid member (List.prefix_append parent [n])
  refine wp_seq_orRaise (wp_mono hensure (orRaise_le (fun _ _ h => h) ?_)) fun _ t₁ h₁ => ?_
  · exact fun h hall => h ⟨hall.2.2.1, hall.1⟩
  refine wp_seq_orRaise (wp_raiseAny fun hlong hall => hlong hall.1.2) ?_
  rintro _ _ ⟨hlong, rfl⟩
  rw [wp_read_bind]
  -- the parents were made, but nothing at the path itself
  have hthere : (lookup (parent ++ [n]) t₁).isSome = true ↔ t.view (parent ++ [n]) ≠ none := by
    rw [isSome_lookup, h₁, grown, if_neg fun h => not_concat_prefix parent n h.1]
  by_cases hnone : t.view (parent ++ [n]) = none
  · rw [if_neg fun h => hthere.mp h hnone]
    cases content with
    | none => exact fun h => h.2.1 rfl
    | some content =>
      simp only
      have hopen := wp_makeAt (f := openNew) hT rfl (fun _ _ => rfl) hsolid h₁ hnone
      have hraise : ¬ Open t parent → ¬ (Granted member (parent ++ [n]) ∧ some content ≠ none ∧
          Open t parent ∧ t.view (parent ++ [n]) = none) := fun h hall => h hall.2.2.1
      refine wp_seq_orRaise (wp_mono hopen (orRaise_le (fun _ _ h => h) hraise)) ?_
      rintro _ t₂ ⟨hparent, h₂⟩
      refine wp_seq_orRaise (wp_writePieces hT _ ⟨_, h₂⟩) fun _ t₃ h₃ => ?_
      refine wp_seq_orRaise (wp_writeAt hT content h₃) fun _ t₄ h₄ => ?_
      have hpresent : ∀ {t' : Stage}, t'.view =
          Function.update (grown t parent) (parent ++ [n]) (some (.file content)) →
          t'.view (parent ++ [n]) ≠ none := by
        intro t' h'
        simp [h']
      refine wp_seq_orRaise (wp_touchAt hT (hpresent h₄)) fun _ t₅ h₅ => ?_
      have hview := h₅.trans h₄
      refine wp_seq_orRaise (wp_mono (wp_setArchiveMetadata hT member (hpresent hview))
        (orRaise_le (fun _ _ h => h) fun h hall => h hall.1.1)) ?_
      rintro _ t₆ ⟨hset, h₆⟩
      exact ⟨rfl, ⟨hset, hlong⟩, content, rfl, ⟨hparent, hnone⟩, h₆.trans hview⟩
  · rw [if_pos (hthere.mpr hnone), wp_bind, wp_throw]
    exact fun h => hnone h.2.2.2

end

end RestoreWorker
