import McAdmin.Confinement

/-!
# The confinement of the extraction

On the whole file system `_extract_verified_archive` does what it does in the stage alone,
and every step of it stays there.  When it raises it has removed the stage, unless what
raises is the fingerprint taken at the end.
-/

namespace RestoreWorker

open CrashLogic FileTree PathWalk
open ArchiveInspection (TarMember Restorable inspectArchive)

/-! ### Member names -/

theorem safe_of_name {name : String} {p : Path} (h : safeArchiveMemberName name = .ok p) :
    Safe p := by
  simp only [safeArchiveMemberName] at h
  split at h
  · cases h
  rename_i hchars
  split at h
  · cases h
  rename_i hdots
  split at h
  · cases h
  rename_i hfree
  cases h
  have hpart : ∀ part ∈ pathParts name, ∃ s ∈ segments name.toList,
      (s ≠ [] ∧ s ≠ ['.']) ∧ part = String.ofList s := by
    intro part hmem
    rcases List.mem_map.mp hmem with ⟨s, hs, rfl⟩
    rcases List.mem_filter.mp hs with ⟨hs, hkept⟩
    exact ⟨s, hs, of_decide_eq_true hkept, rfl⟩
  refine ⟨?_, ?_, hfree⟩
  · intro part hmem
    rcases hpart part hmem with ⟨s, hs, ⟨hempty, hdot⟩, rfl⟩
    refine ⟨fun heq => hempty ?_, fun heq => hdot ?_, fun heq => hdots (.inr (heq ▸ hmem)), ?_⟩
    · simpa using congrArg String.toList heq
    · simpa using congrArg String.toList heq
    · rw [String.toList_ofList]
      exact fun hnul => hchars (.inr (List.any_eq_true.mpr ⟨_, (segments_mem hs hnul).1, by simp⟩))
  · intro part hmem
    rcases hpart part hmem with ⟨s, hs, _, rfl⟩
    rw [String.toList_ofList]
    exact fun hslash => (segments_mem hs hslash).2 rfl

theorem Safe.above {p q : Path} (h : Safe p) (hq : q <+: p) : Safe q := by
  refine ⟨fun name hname => h.plain name (hq.subset hname),
    fun name hname => h.whole name (hq.subset hname), ?_⟩
  cases q with
  | nil => decide
  | cons n q =>
    rcases hq with ⟨r, rfl⟩
    exact h.free

/-! ### The extraction below the stage -/

/-- On the file system the one does what the other does in the stage, and stays there. -/
def Mirrors (k : Site) {α : Type} (p p' : OnSlot α) : Prop :=
  Prog.Like (Settled k.stage) (Confined k.stage) p (p'.zoom (placeAt k.stage))

section

variable {k : Site} {α β γ δ : Type} {p p' : OnSlot α} {path : Path} {f : Stage → Except Exn Stage}

theorem Mirrors.pure (a : α) : Mirrors k (Pure.pure a) (Pure.pure a) := Prog.Like.pure a

theorem Mirrors.throw (e : Exn) :
    Mirrors k (MonadExcept.throw e : OnSlot α) (MonadExcept.throw e) := Prog.Like.throw e

theorem Mirrors.bind {g g' : α → OnSlot β} (hp : Mirrors k p p')
    (hg : ∀ a, Mirrors k (g a) (g' a)) : Mirrors k (p >>= g) (p' >>= g') := by
  rw [Mirrors, Prog.zoom_bind]
  exact Prog.Like.bind hp hg

theorem Mirrors.forM {f f' : β → OnSlot PUnit} (l : List β)
    (h : ∀ b ∈ l, Mirrors k (f b) (f' b)) : Mirrors k (l.forM f) (l.forM f') := by
  rw [Mirrors, Prog.zoom_forM]
  exact Prog.Like.forM l h

theorem Mirrors.read {f : Slot Content → β} {u : Stage → γ} {g : β → OnSlot α} {g' : γ → OnSlot α}
    (R : β → γ → Prop) (h : ∀ fs, Settled k.stage fs → R (f fs) (u ((placeAt k.stage).get fs)))
    (hg : ∀ b c, R b c → Mirrors k (g b) (g' c)) :
    Mirrors k (Prog.read f >>= g) (Prog.read u >>= g') :=
  .silent R (fun fs hfs => ⟨h fs hfs, (placeAt_get k.stage fs ▸ placeAt_set_get hfs.reached).symm,
    hfs⟩) hg

theorem Mirrors.create (hf : Makes f) (hsafe : Safe path) (hpath : path ≠ []) :
    Mirrors k (.perform (k.create f (k.join path))) (.perform (stepAt f path)) := by
  refine Prog.Like.perform fun fs hfs => ?_
  rcases List.eq_nil_or_concat path with rfl | ⟨q, n, rfl⟩
  · exact absurd rfl hpath
  rw [List.concat_eq_append] at hsafe hpath ⊢
  have hnames := List.forall_mem_append.mp hsafe.plain
  rw [hfs.create hnames.1 (hnames.2 n (List.mem_singleton_self n)), hfs.step]
  refine ⟨rfl, fun fs' hok => hfs.confined hf hsafe ?_ hpath⟩
  rw [hfs.step, hok]

theorem Mirrors.use (hf : Makes f) (hnone : f none = .error (.os .notFound)) (hsafe : Safe path)
    (hpath : path ≠ []) :
    Mirrors k (.perform (k.use f (k.join path))) (.perform (stepAt f path)) := by
  refine Prog.Like.perform fun fs hfs => ?_
  rw [hfs.use hsafe.plain hnone, hfs.step]
  refine ⟨rfl, fun fs' hok => hfs.confined hf hsafe ?_ hpath⟩
  rw [hfs.step, hok]

theorem Mirrors.touch (hsafe : Safe path) (hpath : path ≠ []) :
    Mirrors k (.perform (k.use touch (k.join path))) (.perform (stepAt touch path)) :=
  .use makes_touch rfl hsafe hpath

theorem mirrors_raiseAny (refusal : Option Exn) : Mirrors k (raiseAny refusal) (raiseAny refusal) := by
  cases refusal with
  | none => exact .pure _
  | some e => exact .throw e

theorem Mirrors.refusing {f g : Stage → Except Exn Stage}
    (h : Mirrors k (.perform f) (.perform g)) (refusal : Option Exn) :
    Mirrors k (.perform (refusing refusal f)) (.perform (refusing refusal g)) := by
  cases refusal with
  | none => exact h
  | some e => exact Prog.Like.perform fun fs hfs => ⟨rfl, fun fs' hok => by cases hok⟩

theorem missingParentsAt_eq {fs : Slot Content} (hfs : Settled k.stage fs) {up : Path}
    (hup : ∀ name ∈ up, Plain name) :
    missingParentsAt k fs up = missingParents ((placeAt k.stage).get fs) up := by
  induction up with
  | nil => rfl
  | cons n up ih =>
    have hnames : ∀ name ∈ (n :: up).reverse, Plain name :=
      fun name hname => hup name (List.mem_reverse.mp hname)
    rw [missingParentsAt, missingParents, hfs.stat hnames, lookup_join,
      ih fun name hname => hup name (List.mem_cons_of_mem _ hname)]

theorem missingParents_mem {stage : Stage} {up q : Path} (h : q ∈ missingParents stage up) :
    q <+: up.reverse ∧ q ≠ [] := by
  induction up with
  | nil => cases h
  | cons n up ih =>
    simp only [missingParents] at h
    split at h
    · cases h
    · rcases List.mem_cons.mp h with rfl | h
      · exact ⟨List.prefix_refl _, by simp⟩
      · rw [List.reverse_cons]
        exact (ih h).imp_left fun hup => hup.trans (List.prefix_append _ _)

theorem mirrors_ensureArchiveParents (member : Member) (hsafe : Safe path) :
    Mirrors k (ensureArchiveParentsAt k member path) (ensureArchiveParents member path) := by
  refine .bind (mirrors_raiseAny _) fun _ => ?_
  refine .read (fun fs stage => missingParentsAt k fs path.reverse =
    missingParents stage path.reverse) (fun fs hfs => ?_) fun fs stage heq => ?_
  · exact missingParentsAt_eq hfs fun name hname => hsafe.plain name (List.mem_reverse.mp hname)
  · rw [heq]
    refine .forM _ fun directory hmem => ?_
    have hmissing := missingParents_mem (List.mem_reverse.mp hmem)
    rw [List.reverse_reverse] at hmissing
    have hdirectory := hsafe.above hmissing.1
    exact .bind (.create makes_mkdir hdirectory hmissing.2) fun _ =>
      .bind (.refusing (.touch hdirectory hmissing.2) _) fun _ => .touch hdirectory hmissing.2

theorem mirrors_setArchiveMetadata (member : Member) (hsafe : Safe path) (hpath : path ≠ []) :
    Mirrors k (setArchiveMetadataAt k (path, member)) (setArchiveMetadata (path, member)) :=
  .bind (.refusing (.touch hsafe hpath) _) fun _ => .bind (.touch hsafe hpath) fun _ =>
    .refusing (.touch hsafe hpath) _

theorem mirrors_extractDirectory (member : Member) (hsafe : Safe path) (hpath : path ≠ []) :
    Mirrors k (extractDirectoryAt k member path) (extractDirectory member path) := by
  refine .bind (mirrors_raiseAny _) fun _ => ?_
  refine .read Eq (fun fs hfs => ?_) ?_
  · rw [hfs.stat hsafe.plain, lookup_join]
  rintro there _ rfl
  by_cases hthere : there.isSome = true ∧ ¬ there.isDir = true
  · rw [if_pos hthere, if_pos hthere]
    exact .bind (.throw _) fun _ => .bind (mirrors_ensureArchiveParents member
      (hsafe.above (List.dropLast_prefix path))) fun _ =>
        .bind (.create makes_mkdirExistOk hsafe hpath) fun _ => .pure _
  · rw [if_neg hthere, if_neg hthere]
    exact .bind (mirrors_ensureArchiveParents member (hsafe.above (List.dropLast_prefix path)))
      fun _ => .bind (.create makes_mkdirExistOk hsafe hpath) fun _ => .pure _

theorem mirrors_extractFile (member : Member) (content : Option Content) (hsafe : Safe path)
    (hpath : path ≠ []) :
    Mirrors k (extractFileAt k member path content) (extractFile member path content) := by
  refine .bind (mirrors_ensureArchiveParents member (hsafe.above (List.dropLast_prefix path)))
    fun _ => .bind (mirrors_raiseAny _) fun _ => ?_
  refine .read (fun (b : Bool) (there : Stage) => b = there.isSome) (fun fs hfs => ?_) ?_
  · rcases List.eq_nil_or_concat path with rfl | ⟨q, n, rfl⟩
    · exact absurd rfl hpath
    rw [List.concat_eq_append] at hsafe ⊢
    have hnames := List.forall_mem_append.mp hsafe.plain
    rw [hfs.stat hsafe.plain, hfs.lstat hnames.1, Bool.or_false, lookup_join]
  rintro _ there rfl
  by_cases hthere : there.isSome = true
  · rw [if_pos hthere, if_pos hthere]
    exact .throw _
  · rw [if_neg hthere, if_neg hthere]
    cases content with
    | none => exact .throw _
    | some content =>
      refine .bind (.create makes_openNew hsafe hpath) fun _ => .bind (.forM _ fun c _ => ?_)
        fun _ => .bind (.create (makes_hold content) hsafe hpath) fun _ =>
          .bind (.create makes_touch hsafe hpath) fun _ =>
            .bind (mirrors_setArchiveMetadata member hsafe hpath) fun _ => .pure _
      exact .create (makes_hold c) hsafe hpath

theorem Mirrors.idle : Mirrors k (.perform .ok) (.perform .ok) := by
  refine Prog.Like.perform fun fs hfs => ⟨?_, ?_⟩
  · change Except.ok fs = .ok ((placeAt k.stage).set fs ((placeAt k.stage).get fs))
    rw [placeAt_get, placeAt_set_get hfs.reached]
  · rintro _ ⟨⟩
    exact ⟨.refl _ _, hfs⟩

theorem mirrors_extractMember (member : Member) :
    Mirrors k (extractMemberAt k member) (extractMember member) := by
  rw [extractMemberAt, extractMember]
  cases hname : safeArchiveMemberName member.name with
  | error e => exact .throw e
  | ok path =>
    have hsafe := safe_of_name hname
    cases member.kind with
    | link => exact .throw _
    | special => exact .throw _
    | other => exact .throw _
    | directory =>
      simp only
      by_cases hpath : path = []
      · rw [if_pos hpath, if_pos hpath]
        exact .pure _
      · rw [if_neg hpath, if_neg hpath]
        exact mirrors_extractDirectory member hsafe hpath
    | regular content =>
      simp only
      by_cases hpath : path = []
      · rw [if_pos hpath, if_pos hpath]
        exact .pure _
      · rw [if_neg hpath, if_neg hpath]
        exact mirrors_extractFile member content hsafe hpath

def Destinations (directories : List (Path × Member)) : Prop :=
  ∀ entry ∈ directories, Safe entry.1 ∧ entry.1 ≠ []

theorem destinations_extractMember (member : Member) :
    (extractMemberAt k member).Only Destinations := by
  rw [extractMemberAt]
  cases hname : safeArchiveMemberName member.name with
  | error e => trivial
  | ok path =>
    have hnone : Destinations [] := fun p hp => absurd hp List.not_mem_nil
    have hpath : path ≠ [] → Destinations [(path, member)] := by
      intro hpath p hp
      rw [List.mem_singleton.mp hp]
      exact ⟨safe_of_name hname, hpath⟩
    cases member.kind with
    | link => trivial
    | special => trivial
    | other => trivial
    | directory =>
      simp only
      split
      · exact hnone
      · rename_i hne
        refine .after _ fun _ => .after _ fun there => ?_
        split
        · exact .after _ fun _ => .after _ fun _ => .after _ fun _ => hpath hne
        · exact .after _ fun _ => .after _ fun _ => hpath hne
    | regular content =>
      simp only
      split
      · exact hnone
      · refine .after _ fun _ => .after _ fun _ => .after _ fun there => ?_
        by_cases hthere : there = true
        · rw [if_pos hthere]
          cases content <;> trivial
        · rw [if_neg hthere]
          cases content with
          | none => trivial
          | some content =>
            exact .after _ fun _ => .after _ fun _ => .after _ fun _ => .after _ fun _ =>
              .after _ fun _ => hnone

theorem mirrors_extractMembers (members : List Member) :
    Mirrors k (extractMembersAt k members) (extractMembers members) := by
  induction members with
  | nil => exact .pure _
  | cons member rest ih =>
    exact .bind .idle fun _ => .bind (mirrors_extractMember member) fun _ => .bind ih fun _ =>
      .pure _

theorem destinations_extractMembers (members : List Member) :
    (extractMembersAt k members).Only Destinations := by
  induction members with
  | nil => exact fun p hp => absurd hp List.not_mem_nil
  | cons member rest ih =>
    refine .after _ fun _ => (destinations_extractMember member).bind fun directory hdirectory =>
      ih.bind fun directories hdirectories => ?_
    exact List.forall_mem_append.mpr ⟨hdirectory, hdirectories⟩

theorem mirrors_unpack (archive : Archive) : Mirrors k (unpackAt k archive) (unpack archive) := by
  refine .bind .idle fun _ => ?_
  rw [Mirrors, Prog.zoom_bind]
  refine Prog.Like.bind_only (mirrors_extractMembers _) (destinations_extractMembers _) ?_
  intro directories hdirectories
  refine Mirrors.bind (mirrors_raiseAny _) fun _ => Mirrors.forM _ fun entry hentry => ?_
  rcases hdirectories entry (List.mem_reverse.mp hentry) with ⟨hsafe, hpath⟩
  exact mirrors_setArchiveMetadata entry.2 hsafe hpath

end

/-! ### Removals -/

def Removes (t t' : Stage) : Prop := ∀ q kind, t'.view q = some kind → t.view q = some kind

def Lessens (t t' : Stage) : Prop := t ≠ none ∧ Removes t t'

def FolderLessens (f f' : Folder Content) : Prop :=
  (∃ n, f.get n ≠ none) ∧ Removes (some (Entry.folder f)) (some (Entry.folder f'))

theorem removes_none (t : Stage) : Removes t none := nofun

theorem like_perform_removal {f : Stage → Except Exn Stage}
    (hf : ∀ t t', f t = .ok t' → t ≠ none ∧ t' = none) :
    Prog.Like (fun _ => True) Lessens (.perform f) (.perform f) := by
  refine .perform fun t _ => ⟨rfl, fun t' hok => ⟨⟨(hf t t' hok).1, ?_⟩, trivial⟩⟩
  rw [(hf t t' hok).2]
  exact removes_none t

theorem like_unlink : Prog.Like (fun _ => True) Lessens
    (.perform (unlink false)) (.perform (unlink false) : OnSlot Unit) := by
  refine like_perform_removal fun t t' hok => ⟨?_, unlink_ok hok⟩
  rintro rfl
  cases hok

theorem like_rmdir : Prog.Like (fun _ => True) Lessens
    (.perform rmdir) (.perform rmdir : OnSlot Unit) := by
  refine like_perform_removal fun t t' hok => ?_
  match t, hok with
  | some ⟨.dir .nil, _⟩, hok =>
    cases hok
    exact ⟨nofun, rfl⟩

theorem lessens_inside {t : Stage} {f : Folder Content} (h : FolderLessens t.folder f) :
    Lessens t (inside.set t f) := by
  rcases h with ⟨⟨n, hn⟩, hremoves⟩
  match t, hn, hremoves with
  | some ⟨.dir d, hd⟩, _, hremoves => exact ⟨nofun, hremoves⟩

theorem lessens_slotOf {f : Folder Content} {n : Name} {t : Stage} (h : Lessens (f.get n) t) :
    FolderLessens f ((slotOf n).set f t) := by
  refine ⟨⟨n, h.1⟩, fun q kind hview => ?_⟩
  cases q with
  | nil => exact hview
  | cons m q =>
    rw [Slot.view_folder] at hview ⊢
    by_cases hm : m = n
    · subst hm
      rw [show ((slotOf m).set f t).get m = t from (slotOf m).get_set f t] at hview
      exact h.2 q kind hview
    · rw [show ((slotOf n).set f t).get m = f.get m from Folder.get_set_ne f (Ne.symm hm) t]
        at hview
      exact hview

mutual

theorem like_removeNode : ∀ x : Node Content,
    Prog.Like (fun _ => True) Lessens (removeNode x) (removeNode x)
  | .file _ => like_unlink
  | .link _ => like_unlink
  | .dir d => by
    rw [removeNode]
    refine .bind ((like_removeEntries d).zoom (fun _ _ => trivial) (fun _ _ _ _ => trivial)
      fun t f _ h => lessens_inside h) fun _ => like_rmdir

theorem like_removeEntries : ∀ d : Dir Content,
    Prog.Like (fun _ => True) FolderLessens (removeEntries d) (removeEntries d)
  | .nil => .pure ()
  | .cons n x rest => by
    rw [removeEntries]
    refine .bind ((like_removeNode x).zoom (fun _ _ => trivial) (fun _ _ _ _ => trivial)
      fun f t _ h => lessens_slotOf h) fun _ => like_removeEntries rest

end

theorem like_removePath : Prog.Like (fun _ => True) Removes removePath removePath := by
  rw [removePath]
  refine .silent Eq (fun t _ => ⟨rfl, rfl, trivial⟩) ?_
  rintro t _ rfl
  have hunlink : Prog.Like (fun _ => True) Removes
      (.perform (unlink true)) (.perform (unlink true) : OnSlot Unit) := by
    refine .perform fun t _ => ⟨rfl, fun t' hok => ⟨?_, trivial⟩⟩
    rw [unlink_ok hok]
    exact removes_none t
  rcases t with _ | ⟨_ | _ | d, _⟩
  · exact .pure ()
  · exact hunlink
  · exact hunlink
  · exact (like_removeNode _).mono fun _ _ h => h.2

/-! ### The whole function -/

/-- The file system, and whether the stage is being removed. -/
structure Host where
  files : Slot Content
  removing : Bool := false

def filesOf : Focus Host (Slot Content) where
  get h := h.files
  set h fs := { h with files := fs }
  frame h h' := h'.removing = h.removing
  get_set _ _ := rfl
  frame_refl _ := rfl
  frame_set _ h := h

section

variable (k : Site)

/-- `_remove_path(stage)` -/
def removeStage : Prog Host Exn Unit := do
  Prog.assign fun h => { h with removing := true }
  (removePath.zoom (placeAt k.stage)).zoom filesOf
  Prog.assign fun h => { h with removing := false }

/-- `again` is whether the second fingerprint differs from the first, if it can be taken. -/
def extractInspectedArchiveAt (archive : Archive) (again : Except Exn Bool) :
    Prog Host Exn String := do
  removeStage k
  (Prog.perform (k.create mkdir k.stage)).zoom filesOf
  tryCatch ((unpackAt k archive).zoom filesOf) fun e => do
    removeStage k
    throw e
  match again with
  | .error e => throw e
  | .ok changed => do
    if changed then
      removeStage k
      throw (.message "l'archive a changé pendant son extraction")
    return archive.inspection.worldName

/-- `_extract_verified_archive` -/
def extractVerifiedArchiveAt (archive : Archive) (again : Except Exn Bool) :
    Prog Host Exn String := do
  .perform .ok
  match checkInspection archive.inspection with
  | .error e => throw e
  | .ok () => extractInspectedArchiveAt k archive again

end

section

variable {k : Site} {T : Terms Host Empty} {h : Host}

def Spares (T : Terms Host Empty) : Prop := ∀ h, T.struck .fail h → h.removing = false

def Permits (k : Site) (T : Terms Host Empty) : Prop :=
  ∀ h h', Confined k.stage h.files h'.files → T.moves h h'

theorem Permits.through (hmoves : Permits k T) (fs fs' : Slot Content)
    (hconfined : Confined k.stage fs fs') : (T.through filesOf h).moves fs fs' := by
  rintro host _ rfl
  exact hmoves host _ hconfined

theorem removes_confined {fs : Slot Content} {t : Stage} (hreached : Reached fs k.stage)
    (hremoves : Removes ((placeAt k.stage).get fs) t) :
    Confined k.stage fs ((placeAt k.stage).set fs t) := by
  rcases placeAt_set hreached t with ⟨hlook, hframe⟩
  refine ⟨hframe, fun q kind hview hnew => ?_⟩
  by_cases hq : k.stage <+: q
  · rcases hq with ⟨r, rfl⟩
    rw [← view_lookup, hlook] at hview
    have hold := hremoves r kind hview
    rw [placeAt_get, view_lookup] at hold
    exact absurd hold hnew
  · rw [hframe q hq] at hview
    exact absurd hview hnew

theorem wp_removeStage (hT : Spares T) (hmoves : Permits k T) (hreached : Reached h.files k.stage) :
    wp T (removeStage k) ⟨fun _ h' => Reached h'.files k.stage ∧ lookup k.stage h'.files = none,
      fun _ _ => False, fun _ _ => False, fun _ => True⟩ h := by
  simp only [removeStage]
  rw [wp_assign_bind, wp_bind]
  generalize hremoving : ({ h with removing := true } : Host) = h₁
  have hreached₁ : Reached h₁.files k.stage := by
    rw [← hremoving]
    exact hreached
  have hflag : h₁.removing = true := by rw [← hremoving]
  have hremove := wp_zoom_orCut (placeAt k.stage) (T.through filesOf h₁).eased (s := h₁.files)
    (wp_removePath ((Terms.eased_free _).through _ _) _)
  have hlike : Prog.Like (fun fs => Reached fs k.stage) (Confined k.stage)
      (removePath.zoom (placeAt k.stage)) (removePath.zoom (placeAt k.stage)) := by
    refine like_removePath.zoom (fun _ _ => trivial) (fun fs t hfs _ => ?_) fun fs t hfs =>
      removes_confined hfs
    exact hfs.of_frame (placeAt_set hfs t).2
  have hdone := wp_zoom filesOf T _ (filesOf.frame_refl h₁)
    (wp_marked (hlike.wp hmoves.through hreached₁ hremove))
  refine wp_mono hdone ⟨?_, ?_, ?_, fun _ _ => trivial⟩
  · rintro _ h₂ ⟨_, ⟨_, hnone⟩, hreached₂⟩
    rw [placeAt_get] at hnone
    exact ⟨hreached₂, hnone⟩
  · rintro e h₂ ⟨_, hraised, _⟩
    exact hraised
  · rintro e h₂ ⟨_, _, host, hframe, _, hstruck⟩
    have hspared := hT host hstruck
    rw [show host.removing = h₁.removing from hframe, hflag] at hspared
    cases hspared

theorem create_stage {fs : Slot Content} (hnamed : k.stage ≠ [])
    (hplain : ∀ name ∈ k.stage, Plain name) (hreached : Reached fs k.stage)
    (hnone : lookup k.stage fs = none) :
    k.create mkdir k.stage fs =
      .ok ((placeAt k.stage).set fs (some (Entry.folder .empty))) := by
  rcases List.eq_nil_or_concat k.stage with hnil | ⟨up, n, hstage⟩
  · exact absurd hnil hnamed
  rw [List.concat_eq_append] at hstage
  have hnames := List.forall_mem_append.mp (hstage ▸ hplain)
  have hn := hnames.2 n (List.mem_singleton_self n)
  have hdir : ∀ r, r <+: up → fs.view r = some .dir := by
    rintro r ⟨rest, rfl⟩
    cases rest with
    | nil => exact hreached r n (by simp [hstage])
    | cons m rest => exact hreached r m ⟨rest ++ [n], by simp [hstage]⟩
  have hwalk : walk fs k.links [] up = .ok up := by
    rcases walk_plain k.links [] hnames.1
      (fun r hr target _ => by rw [List.nil_append, hdir r hr]; nofun) with
      hok | ⟨before, name, rest, hup, hmissing, _⟩
    · simpa using hok
    · have hview := hdir (before ++ [name]) ⟨rest, by simp [hup]⟩
      rw [List.nil_append] at hmissing
      rw [hmissing] at hview
      cases hview
  have hname : ¬ (n = "" ∨ n = "." ∨ n = "..") := by
    rintro (rfl | rfl | rfl)
    · exact hn.1 rfl
    · exact hn.2.1 rfl
    · exact hn.2.2.1 rfl
  have hstep : k.create mkdir k.stage fs = stepAt mkdir k.stage fs := by
    simp only [Site.create, hstage, List.getLast?_concat, List.dropLast_concat, hwalk, if_neg hname,
      bind, Except.bind]
  rw [hstep, stepAt_reached hreached, hnone]
  rfl

theorem view_empty (q : Path) (kind : Kind Content)
    (h : Slot.view (some (Entry.folder (.empty : Folder Content))) q = some kind) :
    q = [] ∧ kind = .dir := by
  cases q with
  | nil =>
    cases h
    exact ⟨rfl, rfl⟩
  | cons n q => cases h

theorem made_stage {fs : Slot Content} (hnamed : k.stage ≠ [])
    (hplain : ∀ name ∈ k.stage, Plain name) (hreached : Reached fs k.stage) :
    Confined k.stage fs ((placeAt k.stage).set fs (some (Entry.folder .empty))) ∧
      Settled k.stage ((placeAt k.stage).set fs (some (Entry.folder .empty))) := by
  rcases placeAt_set hreached (some (Entry.folder .empty)) with ⟨hlook, hframe⟩
  have hbelow : ∀ r kind, ((placeAt k.stage).set fs (some (Entry.folder .empty))).view
      (k.stage ++ r) = some kind → r = [] ∧ kind = .dir := by
    intro r kind hview
    rw [← view_lookup, hlook] at hview
    exact view_empty r kind hview
  refine ⟨⟨hframe, fun q kind hview hnew => ?_⟩, hnamed, hplain, hreached.of_frame hframe, ?_⟩
  · by_cases hq : k.stage <+: q
    · rcases hq with ⟨r, rfl⟩
      rcases hbelow r kind hview with ⟨rfl, hkind⟩
      exact .inl ⟨List.append_nil _, hkind⟩
    · rw [hframe q hq] at hview
      exact absurd hview hnew
  · intro r target hview
    cases (hbelow r _ hview).2

/-- How the extraction ends: when it raises the stage is gone, unless the second fingerprint
could not be taken. -/
def ends (k : Site) (T : Terms Host Empty) (members : List TarMember) (again : Except Exn Bool) :
    Post Host Exn String where
  ok _ _ := again = .ok false
  raised e h := lookup k.stage h.files = none ∧
      (¬ Extractable members ∨ again = .ok true ∨ T.CanFail) ∨
    Extractable members ∧ again = .error e ∧ lookup k.stage h.files ≠ none
  failed _ h := lookup k.stage h.files = none
  killed _ := True

section

variable {archive : Archive} {members : List TarMember} {again : Except Exn Bool}

theorem wp_removeAndThrow (hT : Spares T) (hmoves : Permits k T)
    (hreached : Reached h.files k.stage)
    (hwhy : ¬ Extractable members ∨ again = .ok true ∨ T.CanFail) {α : Type}
    (Q : α → Host → Prop) (e : Exn) :
    wp T (removeStage k >>= fun _ => throw e) ((ends k T members again).next Q) h := by
  rw [wp_bind]
  refine wp_mono (wp_removeStage hT hmoves hreached) ⟨?_, fun _ _ => False.elim,
    fun _ _ => False.elim, fun _ _ => trivial⟩
  rintro _ h₁ ⟨_, hnone⟩
  exact .inl ⟨hnone, hwhy⟩

theorem wp_makeStage (hmoves : Permits k T) (hnamed : k.stage ≠ [])
    (hplain : ∀ name ∈ k.stage, Plain name) (hreached : Reached h.files k.stage)
    (hnone : lookup k.stage h.files = none) :
    wp T ((Prog.perform (k.create mkdir k.stage)).zoom filesOf)
      ⟨fun _ h' => Settled k.stage h'.files ∧
          (placeAt k.stage).get h'.files = some (Entry.folder .empty),
        fun _ _ => False, fun _ h' => lookup k.stage h'.files = none, fun _ => True⟩ h := by
  rcases made_stage hnamed hplain hreached with ⟨hconfined, hsettled⟩
  have hmkdir : wp (T.through filesOf h) (.perform (k.create mkdir k.stage))
      ⟨fun _ fs => fs = (placeAt k.stage).set h.files (some (Entry.folder .empty)),
        fun _ _ => False, fun _ fs => fs = h.files, fun _ => True⟩ h.files := by
    rw [wp_perform, create_stage hnamed hplain hreached hnone]
    exact ⟨⟨hmoves.through _ _ hconfined, rfl⟩, fun _ _ => rfl, fun _ => trivial⟩
  refine wp_mono (wp_zoom filesOf T _ (filesOf.frame_refl h) hmkdir) ⟨?_, ?_, ?_,
    fun _ _ => trivial⟩
  · rintro _ ⟨fs, _⟩ ⟨_, hmade⟩
    cases hmade
    exact ⟨hsettled, (placeAt k.stage).get_set _ _⟩
  · rintro e h₁ ⟨_, hraised⟩
    exact hraised
  · rintro e ⟨fs, _⟩ ⟨_, hsame⟩
    cases hsame
    exact hnone

theorem wp_unpackAt (hmoves : Permits k T)
    (harchive : archive.members = members.map TarMember.member) (hwhole : archive.broken = none)
    (hsettled : Settled k.stage h.files)
    (hempty : (placeAt k.stage).get h.files = some (Entry.folder .empty)) :
    wp T ((unpackAt k archive).zoom filesOf)
      ⟨fun _ h' => Settled k.stage h'.files ∧ Extractable members ∧
          lookup k.stage h'.files ≠ none,
        fun _ h' => Settled k.stage h'.files ∧ ¬ Extractable members,
        fun _ h' => Settled k.stage h'.files ∧ T.CanFail, fun _ => True⟩ h := by
  have hunpack := wp_unpack (T := (T.through filesOf h).eased.through (placeAt k.stage) h.files)
    ((Terms.eased_free _).through _ _) harchive
  rw [← hempty] at hunpack
  have hstage := wp_zoom (placeAt k.stage) (T.through filesOf h).eased _
    ((placeAt k.stage).frame_refl h.files) hunpack
  have hfiles := wp_marked ((mirrors_unpack archive).wp hmoves.through hsettled hstage)
  refine wp_mono (wp_zoom filesOf T _ (filesOf.frame_refl h) hfiles) ⟨?_, ?_, ?_,
    fun _ _ => trivial⟩
  · rintro _ h₁ ⟨_, ⟨_, ⟨hextractable, _⟩, hshows⟩, hsettled₁⟩
    refine ⟨hsettled₁, hextractable, fun hnone => ?_⟩
    have hroot := hshows.solid.root
    rw [placeAt_get, show lookup k.stage (filesOf.get h₁) = none from hnone] at hroot
    cases hroot
  · rintro e h₁ ⟨_, ⟨_, hnot⟩, hsettled₁⟩
    exact ⟨hsettled₁, fun hextractable => hnot ⟨hextractable, hwhole⟩⟩
  · rintro e h₁ ⟨_, ⟨_, hsettled₁⟩, hstruck⟩
    exact ⟨hsettled₁, Terms.CanFail.of_through ⟨_, hstruck⟩⟩

theorem wp_extractInspectedArchiveAt (hT : Spares T) (hmoves : Permits k T) (hnamed : k.stage ≠ [])
    (hplain : ∀ name ∈ k.stage, Plain name)
    (harchive : archive.members = members.map TarMember.member) (hwhole : archive.broken = none)
    (again : Except Exn Bool)
    (hreached : Reached h.files k.stage) :
    wp T (extractInspectedArchiveAt k archive again) (ends k T members again) h := by
  unfold extractInspectedArchiveAt
  rw [wp_bind]
  refine wp_mono (wp_removeStage hT hmoves hreached) ⟨?_, fun _ _ => False.elim,
    fun _ _ => False.elim, fun _ _ => trivial⟩
  rintro _ h₁ ⟨hreached₁, hnone₁⟩
  rw [Post.next_ok, wp_bind]
  refine wp_mono (wp_makeStage hmoves hnamed hplain hreached₁ hnone₁) ⟨?_, fun _ _ => False.elim,
    fun _ _ h => h, fun _ _ => trivial⟩
  rintro _ h₂ ⟨hsettled₂, hempty₂⟩
  rw [Post.next_ok, wp_bind, wp_tryCatch]
  refine wp_mono (wp_unpackAt hmoves harchive hwhole hsettled₂ hempty₂) ⟨?_, ?_, ?_, fun _ _ => trivial⟩
  · rintro _ h₃ ⟨hsettled₃, hextractable, hpresent⟩
    cases hagain : again with
    | error e => exact .inr ⟨hextractable, rfl, hpresent⟩
    | ok changed =>
      cases changed with
      | false => rfl
      | true =>
        exact wp_removeAndThrow hT hmoves hsettled₃.reached (.inr (.inl rfl)) _ _
  · rintro e h₃ ⟨hsettled₃, hnot⟩
    exact wp_removeAndThrow hT hmoves hsettled₃.reached (.inl hnot) _ e
  · rintro e h₃ ⟨hsettled₃, hfail⟩
    exact wp_removeAndThrow hT hmoves hsettled₃.reached (.inr (.inr hfail)) _ e

end

end

/-! ### Confinement -/

section

variable {k : Site} {inspected members : List TarMember} {again : Except Exn Bool}
  {fs : Slot Content}

/-- An archive that shows some members when it is inspected and some when it is extracted. -/
def archiveBetween (inspected members : List TarMember) : Archive where
  members := members.map TarMember.member
  inspection := inspectArchive inspected

/-- `_extract_verified_archive` of such an archive. -/
def extractedAt (k : Site) (inspected members : List TarMember) (again : Except Exn Bool)
    (plan : Plan Exn Empty) (fs : Slot Content) : Result Host Exn Empty String :=
  exec alone (extractVerifiedArchiveAt k (archiveBetween inspected members) again) plan
    { files := fs }

theorem archiveBetween_members (inspected members : List TarMember) :
    (archiveBetween inspected members).members = members.map TarMember.member := rfl

def Created (r : Result Host Exn Empty String) (q : Path) : Prop :=
  ∃ h h', .done h h' ∈ r.moments ∧ h.files.view q = none ∧ h'.files.view q ≠ none

def Spared (r : Result Host Exn Empty String) : Prop :=
  ∀ h, .struck .fail h ∈ r.moments → h.removing = false

/-- Every step stays in the stage, and nothing that was created remains when the run raises. -/
structure Confines (stage : Path) (r : Result Host Exn Empty String) : Prop where
  confined : ∀ h h', .done h h' ∈ r.moments → Confined stage h.files h'.files
  undone : ∀ e, r.outcome = .raised e → ∀ q, Created r q → r.state.files.view q = none

def sparing (k : Site) : Terms Host Empty where
  meddle := alone
  struck strike h := strike = .fail → h.removing = false
  moves h h' := Confined k.stage h.files h'.files

theorem sparing_spares (k : Site) : Spares (sparing k) := fun _ hstruck => hstruck rfl

theorem sparing_permits (k : Site) : Permits k (sparing k) := fun _ _ h => h

theorem extractedAt_run {plan : Plan Exn Empty} (hgo : plan.next.1.verdict = .go) :
    extractedAt k inspected members again plan fs =
      ((match checkInspection (inspectArchive inspected) with
        | .error e => ⟨.raised e, { files := fs }, plan.next.2, []⟩
        | .ok _ => exec alone (extractInspectedArchiveAt k (archiveBetween inspected members) again)
            plan.next.2 { files := fs }) : Result Host Exn Empty String).after
          [.done { files := fs } { files := fs }] := by
  have hfirst : exec alone (.perform .ok) plan ({ files := fs } : Host) =
      ⟨.ok (), { files := fs }, plan.next.2, [.done { files := fs } { files := fs }]⟩ := by
    simp [Prog.perform, exec, hgo, Result.after]
  simp only [extractedAt, extractVerifiedArchiveAt]
  rw [exec_bind, hfirst]
  simp only [Result.andThen]
  rw [show (archiveBetween inspected members).inspection = inspectArchive inspected from rfl]
  cases checkInspection (inspectArchive inspected) <;> rfl

theorem extractedAt_idle {plan : Plan Exn Empty}
    (hnot : ¬ (plan.next.1.verdict = .go ∧ ∃ world, Restorable inspected world)) {h h' : Host}
    (hm : .done h h' ∈ (extractedAt k inspected members again plan fs).moments) : h = h' := by
  cases hverdict : plan.next.1.verdict with
  | fail e | kill =>
    simp only [extractedAt, extractVerifiedArchiveAt] at hm
    rw [exec_bind] at hm
    simp [Prog.perform, exec, hverdict, Result.andThen] at hm
  | go =>
    rw [extractedAt_run hverdict] at hm
    cases hcheck : checkInspection (inspectArchive inspected) with
    | error e =>
      rw [hcheck] at hm
      cases List.mem_singleton.mp hm
      rfl
    | ok _ => exact absurd ⟨hverdict, accepted_iff.mp (checkInspection_ok.mp hcheck)⟩ hnot

theorem ends_confines {r : Result Host Exn Empty String}
    (hmoments : ∀ h h', .done h h' ∈ r.moments → Confined k.stage h.files h'.files)
    (hgone : ∀ e, r.outcome = .raised e → lookup k.stage r.state.files = none) :
    Confines k.stage r := by
  refine ⟨hmoments, fun e hraised q hcreated => ?_⟩
  rcases hcreated with ⟨h, h', hm, hbefore, hafter⟩
  rcases Option.ne_none_iff_exists'.mp hafter with ⟨kind, hkind⟩
  have hbelow : ∀ r', r.state.files.view (k.stage ++ r') = none := by
    intro r'
    rw [← view_lookup, hgone e hraised]
    rfl
  rcases (hmoments h h' hm).made q kind hkind (by rw [hbefore]; nofun) with
    ⟨rfl, _⟩ | ⟨r', _, rfl, _⟩
  · simpa using hbelow []
  · exact hbelow r'

theorem created_stage (hnamed : k.stage ≠ []) (hplain : ∀ name ∈ k.stage, Plain name)
    (hreached : Reached fs k.stage) (archive : Archive) (again : Except Exn Bool) :
    ∃ h h', .done h h' ∈
        (exec alone (extractInspectedArchiveAt k archive again) [] { files := fs }).moments ∧
      h.files.view k.stage = none ∧ h'.files.view k.stage ≠ none := by
  have hcalm : Spares calm ∧ Permits k calm := ⟨fun _ hstruck => hstruck.elim, fun _ _ _ => trivial⟩
  unfold extractInspectedArchiveAt
  rw [exec_bind]
  rcases exec_calm (wp_removeStage hcalm.1 hcalm.2 (h := { files := fs }) hreached) with
    ⟨_, hreturned, hreached₁, hnone₁⟩ | ⟨_, _, hfalse⟩
  · have hcreate := create_stage hnamed hplain hreached₁ hnone₁
    generalize hr : exec alone (removeStage k) [] ({ files := fs } : Host) = r at *
    have hplan : r.plan = [] := hr ▸ (exec_nil alone (removeStage k) { files := fs }).1
    generalize hmade : (placeAt k.stage).set r.state.files (some (Entry.folder .empty)) = made at *
    have hviews : r.state.files.view k.stage = none ∧ made.view k.stage ≠ none := by
      have hbefore := view_lookup k.stage r.state.files []
      have hafter := view_lookup k.stage made []
      rw [List.append_nil] at hbefore hafter
      rw [← hbefore, ← hafter, hnone₁, ← hmade, (placeAt_set hreached₁ _).1]
      exact ⟨rfl, nofun⟩
    refine ⟨r.state, { r.state with files := made }, mem_andThen_next hreturned ?_, hviews⟩
    rw [exec_bind, hplan]
    refine mem_andThen ?_
    have hstep : (k.create mkdir k.stage (filesOf.get r.state)).map (filesOf.set r.state) =
        .ok { r.state with files := made } := by
      rw [show k.create mkdir k.stage (filesOf.get r.state) = .ok made from hcreate]
      rfl
    simp [Prog.perform, Prog.zoom, exec, Plan.next, hstep, Result.after]
  · exact hfalse.elim

theorem stage_remains (hnamed : k.stage ≠ []) (hplain : ∀ name ∈ k.stage, Plain name)
    (hreached : Reached fs k.stage) (hrestorable : ∃ world, Restorable inspected world)
    (hextractable : Extractable members) (e : Exn) :
    ¬ Confines k.stage (extractedAt k inspected members (.error e) [] fs) := by
  intro hconfines
  have hcheck := checkInspection_ok.mpr (accepted_iff.mpr hrestorable)
  rw [extractedAt_run (by rfl), hcheck] at hconfines
  have hcalm : Spares calm ∧ Permits k calm :=
    ⟨fun _ hstruck => hstruck.elim, fun _ _ _ => trivial⟩
  rcases created_stage hnamed hplain hreached (archiveBetween inspected members) (.error e) with
    ⟨h, h', hm, hbefore, hafter⟩
  have hwp := wp_extractInspectedArchiveAt hcalm.1 hcalm.2 hnamed hplain
    (archiveBetween_members inspected members) rfl (.error e) (h := { files := fs }) hreached
  rcases exec_calm hwp with
    ⟨_, _, hok⟩ | ⟨e', hraised, ⟨_, hwhy⟩ | ⟨_, _, hpresent⟩⟩
  · cases hok
  · rcases hwhy with hnot | hchanged | ⟨_, hfail⟩
    · exact hnot hextractable
    · cases hchanged
    · exact hfail
  · have hgone := hconfines.undone e' hraised k.stage
      ⟨h, h', List.mem_append_right _ hm, hbefore, hafter⟩
    exact (isSome_lookup _ _).mp (Option.isSome_iff_ne_none.mpr hpresent) hgone

/-- The extraction is confined exactly when the second fingerprint can be taken, or is not
asked for. -/
theorem confines_iff (k : Site) (hnamed : k.stage ≠ []) (hplain : ∀ name ∈ k.stage, Plain name)
    (inspected members : List TarMember) (again : Except Exn Bool) (fs : Slot Content)
    (hreached : Reached fs k.stage) :
    (∀ plan, Spared (extractedAt k inspected members again plan fs) →
        Confines k.stage (extractedAt k inspected members again plan fs)) ↔
      ((∃ e, again = .error e) →
        ¬ ((∃ world, Restorable inspected world) ∧ Extractable members)) := by
  constructor
  · rintro hall ⟨e, rfl⟩ ⟨hrestorable, hextractable⟩
    exact stage_remains hnamed hplain hreached hrestorable hextractable e
      (hall [] fun h hstruck => absurd hstruck ((exec_nil _ _ _).2 _ _))
  · intro hclear plan hspared
    by_cases hrun : plan.next.1.verdict = .go ∧ ∃ world, Restorable inspected world
    · rcases hrun with ⟨hgo, hrestorable⟩
      have hcheck := checkInspection_ok.mpr (accepted_iff.mpr hrestorable)
      -- the plan spares the removal of the stage, and may strike anywhere else
      have hallowed : ∀ m ∈ (extractedAt k inspected members again plan fs).moments,
          (sparing k).Allows m := by
        intro m hm
        cases m with
        | done _ _ => trivial
        | struck strike h =>
          rintro rfl
          exact hspared h hm
      rw [extractedAt_run hgo, hcheck] at hallowed ⊢
      have hwp := wp_extractInspectedArchiveAt (sparing_spares k) (sparing_permits k) hnamed hplain
        (archiveBetween_members inspected members) rfl again (h := { files := fs }) hreached
      have hends := exec_sound (sparing k) _ hwp plan.next.2 fun m hm =>
        hallowed m (List.mem_append_right _ hm)
      refine ends_confines (fun h h' hm => ?_) fun e hraised => ?_
      · rcases List.mem_append.mp hm with hm | hm
        · cases List.mem_singleton.mp hm
          exact .refl _ _
        · exact hends.2 _ hm
      · have hholds := hends.1
        rw [show (exec (sparing k).meddle _ _ _).outcome = .raised e from hraised] at hholds
        rcases hholds with (⟨hnone, _⟩ | ⟨hextractable, hagain, _⟩) | hnone
        · exact hnone
        -- only the second fingerprint raises after the stage is complete
        · exact absurd ⟨hrestorable, hextractable⟩ (hclear ⟨e, hagain⟩)
        · exact hnone
    · refine ⟨fun h h' hm => ?_, fun e _ q hcreated => ?_⟩
      · rw [extractedAt_idle hrun hm]
        exact .refl _ _
      · rcases hcreated with ⟨h, h', hm, hbefore, hafter⟩
        rw [extractedAt_idle hrun hm] at hbefore
        exact absurd hbefore hafter

end

def dataSite : Site := ⟨["data", stageName], 40⟩

def dataFiles : Slot Content :=
  some (Entry.folder (Folder.empty.set "data" (some (Entry.folder .empty))))

theorem dataSite_plain : ∀ name ∈ dataSite.stage, Plain name := by decide

theorem dataFiles_reached : Reached dataFiles dataSite.stage :=
  reached_concat (p := ["data"]) (by decide)

/-- An archive that can be fingerprinted again is extracted within the stage. -/
theorem confines_clashing :
    Confines dataSite.stage (extractedAt dataSite clashing clashing (.ok false) [] dataFiles) :=
  (confines_iff dataSite (by decide) dataSite_plain clashing clashing (.ok false) dataFiles
    dataFiles_reached).mpr (by rintro ⟨e, he⟩; cases he) []
      fun h hstruck => absurd hstruck ((exec_nil _ _ _).2 _ _)

def smallWorld : List TarMember :=
  [regularMember "server.properties" "level-name=w\n".toUTF8.toList,
    regularMember "w/level.dat" [1]]

/-- The archive is deleted while it is extracted: the stage stays. -/
theorem vanished_archive_remains : ¬ ∀ (k : Site) (members : List TarMember)
    (again : Except Exn Bool) (fs : Slot Content) (plan : Plan Exn Empty), k.stage ≠ [] →
      (∀ name ∈ k.stage, Plain name) → Reached fs k.stage →
      Spared (extractedAt k members members again plan fs) →
      Confines k.stage (extractedAt k members members again plan fs) := by
  intro hall
  have haccepted : (inspectArchive smallWorld).ok = true ∧
      (inspectArchive smallWorld).restorable = true := by decide +kernel
  have htaken : ∀ m ∈ smallWorld, Taken m := by decide +kernel
  have hcompatible : (entries smallWorld).Pairwise Compatible := by decide +kernel
  have hunrefused : ∀ m ∈ smallWorld, Unrefused m := by decide +kernel
  refine stage_remains (k := dataSite) (by decide) dataSite_plain dataFiles_reached
    (accepted_iff.mp haccepted) ⟨⟨htaken, hcompatible⟩, hunrefused⟩ (.os .notFound)
    ?_
  exact hall dataSite smallWorld _ dataFiles [] (by decide) dataSite_plain dataFiles_reached
    fun h hstruck => absurd hstruck ((exec_nil _ _ _).2 _ _)

end RestoreWorker
