import McAdmin.ExtractionAgreement
import McAdmin.PathWalk
import McAdmin.ProgramLikeness

/-!
# Extraction on the whole file system

`_extract_verified_archive` gives the system paths: the stage and, below it, the names of
the members.  The system follows them from the root, through `..` and links if there are
any.  It comes to the same as if the extraction had only the stage.
-/

namespace RestoreWorker

open CrashLogic FileTree PathWalk
open ArchiveInspection (TarMember)

/-! ### A place in the tree -/

def placeAt : Path → Focus (Slot Content) (Slot Content)
  | [] =>
    { get t := t
      set _ t := t
      frame _ _ := True
      get_set _ _ := rfl
      frame_refl _ := trivial
      frame_set _ _ := trivial }
  | n :: p => (inside.comp (slotOf n)).comp (placeAt p)

section

variable {t t' s : Slot Content} {p q : Path} {f : Stage → Except Exn Stage}

def Reached (t : Slot Content) (p : Path) : Prop := ∀ q n, q ++ [n] <+: p → t.view q = some .dir

theorem placeAt_get (p : Path) (t : Slot Content) : (placeAt p).get t = lookup p t := by
  induction p generalizing t with
  | nil => rfl
  | cons n p ih => exact ih _

theorem Reached.of_frame (h : Reached t p) (hframe : ∀ q, ¬ p <+: q → t'.view q = t.view q) :
    Reached t' p := by
  intro q n hq
  rw [hframe q fun hp => ?_]
  · exact h q n hq
  · have hlength := hq.length_le
    have hlength' := hp.length_le
    simp only [List.length_append, List.length_singleton] at hlength hlength'
    omega

theorem Reached.below {d : Dir Content} {hd : (Node.dir d).wf = true} {n : Name}
    (h : Reached (some ⟨.dir d, hd⟩) (n :: p)) : Reached (Folder.get ⟨d, hd⟩ n) p := by
  intro q m hq
  rw [← Slot.view_folder]
  exact h (n :: q) m (List.cons_prefix_cons.mpr ⟨rfl, hq⟩)

theorem placeAt_set_get (h : Reached t p) : (placeAt p).set t (lookup p t) = t := by
  induction p generalizing t with
  | nil => rfl
  | cons n p ih =>
    have hroot : t.isDir = true := view_root.mp (h [] n (by simp))
    match t, hroot with
    | some ⟨.dir d, hd⟩, _ =>
      change some (Entry.folder (Folder.set ⟨d, hd⟩ n
        ((placeAt p).set (Folder.get ⟨d, hd⟩ n) (lookup p (Folder.get ⟨d, hd⟩ n))))) = _
      rw [ih h.below, Folder.set_get]
      rfl

theorem stepAt_reached (h : Reached t p) :
    stepAt f p t = (f (lookup p t)).map ((placeAt p).set t) := by
  induction p generalizing t with
  | nil =>
    change f t = (f t).map id
    cases f t <;> rfl
  | cons n p ih =>
    have hroot : t.isDir = true := view_root.mp (h [] n (by simp))
    match t, hroot with
    | some ⟨.dir d, hd⟩, _ =>
      simp only [stepAt]
      rw [ih h.below]
      change _ = (f (lookup p (Folder.get ⟨d, hd⟩ n))).map _
      cases f (lookup p (Folder.get ⟨d, hd⟩ n)) <;> rfl

theorem placeAt_set (h : Reached t p) (s : Slot Content) :
    lookup p ((placeAt p).set t s) = s ∧ ∀ q, ¬ p <+: q → ((placeAt p).set t s).view q = t.view q := by
  have hstep : stepAt (fun _ => .ok s) p t = .ok ((placeAt p).set t s) := stepAt_reached h
  rcases stepAt_ok hstep with ⟨_, s', hs', hlook, hframe⟩
  cases hs'
  exact ⟨hlook, hframe⟩

theorem stepAt_append (p q : Path) (t : Slot Content) :
    stepAt f (p ++ q) t = stepAt (stepAt f q) p t := by
  induction p generalizing t with
  | nil => rfl
  | cons n p ih =>
    match t with
    | none => rfl
    | some ⟨.file _, _⟩ => rfl
    | some ⟨.link _, _⟩ => rfl
    | some ⟨.dir d, hd⟩ => simp only [List.cons_append, stepAt, ih]

theorem lookup_append (p q : Path) (t : Slot Content) :
    lookup (p ++ q) t = lookup q (lookup p t) := by
  induction p generalizing t with
  | nil => rfl
  | cons n p ih => exact ih _

end

/-! ### Calls -/

/-- The stage, and how many links the system follows at most. -/
structure Site where
  stage : Path
  links : Nat

section

variable (k : Site)

/-- `stage.joinpath(*parts)` -/
def Site.join (parts : Path) : Path := k.stage ++ parts

/-- A call that makes its last name: links are followed up to it. -/
def Site.create (f : Stage → Except Exn Stage) (path : Path) (fs : Slot Content) :
    Except Exn (Slot Content) :=
  match path.getLast? with
  | none => .error (.os .fileExists)
  | some name => do
    let parent ← walk fs k.links [] path.dropLast
    if name = "" ∨ name = "." ∨ name = ".." then .error (.os .fileExists)
    else stepAt f (parent ++ [name]) fs

def Site.use (f : Stage → Except Exn Stage) (path : Path) (fs : Slot Content) :
    Except Exn (Slot Content) := do
  let found ← walk fs k.links [] path
  stepAt f found fs

def Site.stat (path : Path) (fs : Slot Content) : Slot Content :=
  match walk fs k.links [] path with
  | .error _ => none
  | .ok found => lookup found fs

def Site.lstat (path : Path) (fs : Slot Content) : Slot Content :=
  match path.getLast?, walk fs k.links [] path.dropLast with
  | some name, .ok parent => lookup (parent ++ [name]) fs
  | _, _ => none

/-! ### The extraction through calls -/

def missingParentsAt (fs : Slot Content) : Path → List Path
  | [] => []
  | n :: up =>
    if (k.stat (k.join (n :: up).reverse) fs).isSome then []
    else (n :: up).reverse :: missingParentsAt fs up

def ensureArchiveParentsAt (member : Member) (parent : Path) : OnSlot Unit := do
  raiseAny (member.tooLong parent)
  let fs ← Prog.read id
  (missingParentsAt k fs parent.reverse).reverse.forM fun directory => do
    .perform (k.create mkdir (k.join directory))
    .perform (refusing member.refusals.owner (k.use touch (k.join directory)))
    .perform (k.use touch (k.join directory))

def setArchiveMetadataAt (entry : Path × Member) : OnSlot Unit := do
  .perform (refusing entry.2.refusals.owner (k.use touch (k.join entry.1)))
  .perform (k.use touch (k.join entry.1))
  .perform (refusing entry.2.refusals.date (k.use touch (k.join entry.1)))

def extractDirectoryAt (member : Member) (destination : Path) :
    OnSlot (List (Path × Member)) := do
  raiseAny (member.tooLong destination)
  let there ← Prog.read (k.stat (k.join destination))
  if there.isSome ∧ ¬ there.isDir then
    throw (.message ("collision de chemin : " ++ member.name))
  ensureArchiveParentsAt k member destination.dropLast
  .perform (k.create mkdirExistOk (k.join destination))
  return [(destination, member)]

def extractFileAt (member : Member) (destination : Path) (content : Option Content) :
    OnSlot (List (Path × Member)) := do
  ensureArchiveParentsAt k member destination.dropLast
  raiseAny (member.tooLong destination)
  let there ← Prog.read fun fs => (k.stat (k.join destination) fs).isSome ||
    (k.lstat (k.join destination) fs).isLink
  if there then throw (.message ("entrée dupliquée : " ++ member.name))
  match content with
  | none => throw (.message ("fichier illisible : " ++ member.name))
  | some content => do
    .perform (k.create openNew (k.join destination))
    (Contents.torn content).forM fun c => .perform (k.create (hold c) (k.join destination))
    .perform (k.create (hold content) (k.join destination))
    .perform (k.create touch (k.join destination))
    setArchiveMetadataAt k (destination, member)
    return []

def extractMemberAt (member : Member) : OnSlot (List (Path × Member)) :=
  match safeArchiveMemberName member.name with
  | .error e => throw e
  | .ok destination =>
    match member.kind with
    | .link => throw (.message ("lien interdit : " ++ member.name))
    | .special => throw (.message ("fichier spécial interdit : " ++ member.name))
    | .other => throw (.message ("type de fichier interdit : " ++ member.name))
    | .directory => if destination = [] then pure [] else extractDirectoryAt k member destination
    | .regular content =>
      if destination = [] then pure [] else extractFileAt k member destination content

def extractMembersAt : List Member → OnSlot (List (Path × Member))
  | [] => pure []
  | member :: rest => do
    .perform .ok
    let directory ← extractMemberAt k member
    let directories ← extractMembersAt rest
    return directory ++ directories

def unpackAt (archive : Archive) : OnSlot Unit := do
  .perform .ok
  let directoryMetadata ← extractMembersAt k archive.members
  raiseAny archive.broken
  directoryMetadata.reverse.forM (setArchiveMetadataAt k)

end

/-! ### The same in the stage alone -/

/-- The names of a member below the stage: each an entry of its directory, the first none of
the transaction names. -/
structure Safe (p : Path) : Prop where
  plain : ∀ name ∈ p, Plain name
  whole : ∀ name ∈ p, '/' ∉ name.toList
  free : p.headD "" ∉ protectedRootNames

section

variable {k : Site} {fs fs' : Slot Content} {p q : Path} {f : Stage → Except Exn Stage}

structure Settled (stage : Path) (fs : Slot Content) : Prop where
  named : stage ≠ []
  plain : ∀ name ∈ stage, Plain name
  reached : Reached fs stage
  linkless : ∀ q target, fs.view (stage ++ q) ≠ some (.link target)

/-- Nothing changes outside the stage.  What is made is the stage, or strictly below it a
directory or a regular file, under safe names. -/
structure Confined (stage : Path) (fs fs' : Slot Content) : Prop where
  outside : ∀ q, ¬ stage <+: q → fs'.view q = fs.view q
  made : ∀ q kind, fs'.view q = some kind → fs.view q ≠ some kind →
    q = stage ∧ kind = .dir ∨
      ∃ r ≠ [], q = stage ++ r ∧ Safe r ∧ (kind = .dir ∨ ∃ c, kind = .file c)

theorem Confined.refl (stage : Path) (fs : Slot Content) : Confined stage fs fs :=
  ⟨fun _ _ => rfl, fun _ _ hview hnew => absurd hview hnew⟩

theorem Settled.root (h : Settled k.stage fs) : fs.view [] = some .dir := by
  rcases List.exists_cons_of_ne_nil h.named with ⟨n, p, hstage⟩
  exact h.reached [] n (by simp [hstage])

theorem reached_of_view (h : fs.view p ≠ none) : Reached fs p := by
  rintro q n ⟨r, rfl⟩
  rw [List.append_assoc] at h
  exact view_above h

theorem reached_concat {n : Name} (h : fs.view p = some .dir) : Reached fs (p ++ [n]) := by
  intro q m hq
  have habove : q <+: p := by
    rcases List.prefix_concat_iff.mp hq with heq | hq
    · exact (List.append_inj' heq rfl).1 ▸ List.prefix_refl _
    · exact (List.prefix_append _ _).trans hq
  rcases habove with ⟨r, rfl⟩
  cases r with
  | nil => rwa [List.append_nil] at h
  | cons a r => exact view_above (by rw [h]; nofun)

theorem Settled.no_link (h : Settled k.stage fs) (hq : q <+: k.stage ++ p) (target : String) :
    fs.view q ≠ some (.link target) := by
  rcases List.prefix_or_prefix_of_prefix hq (List.prefix_append _ _) with hq | ⟨r, rfl⟩
  · rcases hq with ⟨r, hr⟩
    cases r with
    | nil =>
      rw [List.append_nil] at hr
      have hlinkless := h.linkless [] target
      rwa [List.append_nil, ← hr] at hlinkless
    | cons n r =>
      rw [h.reached q n ⟨r, by simp [← hr]⟩]
      nofun
  · exact h.linkless r target

theorem stepAt_missing {up rest : Path} {name : Name} (hroot : fs.view [] = some .dir)
    (hup : up ≠ [] → fs.view up ≠ none) (hmissing : fs.view (up ++ [name]) = none)
    (hend : rest ≠ [] ∨ f none = .error (.os .notFound)) :
    stepAt f (up ++ name :: rest) fs = .error (.os (absence fs up)) := by
  have hview : fs.view up ≠ none := by
    by_cases hnil : up = []
    · rw [hnil, hroot]
      nofun
    · exact hup hnil
  rw [stepAt_append, stepAt_reached (reached_of_view hview)]
  have hlookup := view_lookup up fs []
  have hchild := view_lookup up fs [name]
  rw [List.append_nil] at hlookup
  rw [hmissing] at hchild
  simp only [absence]
  rw [← hlookup] at hview ⊢
  match lookup up fs, hview, hchild with
  | some ⟨.file _, _⟩, _, _ => rfl
  | some ⟨.link _, _⟩, _, _ => rfl
  | some ⟨.dir d, hd⟩, _, hchild =>
    have hnone : Folder.get ⟨d, hd⟩ name = none := by
      have hslot := Slot.view_folder ⟨d, hd⟩ name []
      rw [show Slot.view (some (Entry.folder ⟨d, hd⟩)) [name] = none from hchild] at hslot
      cases hget : Folder.get ⟨d, hd⟩ name with
      | none => rfl
      | some e => simp [hget, Slot.view, Node.view] at hslot
    simp only [stepAt, hnone]
    cases rest with
    | nil =>
      rw [show stepAt f [] none = f none from rfl, hend.resolve_left (by simp)]
      rfl
    | cons m rest => rfl

theorem Settled.walk (h : Settled k.stage fs) (hp : ∀ name ∈ p, Plain name) :
    walk fs k.links [] (k.join p) = .ok (k.join p) ∨
      ∃ up name rest, k.join p = up ++ name :: rest ∧ fs.view (up ++ [name]) = none ∧
        (up ≠ [] → fs.view up ≠ none) ∧
        walk fs k.links [] (k.join p) = .error (.os (absence fs up)) := by
  have hplain : ∀ name ∈ k.join p, Plain name := by
    intro name hname
    rcases List.mem_append.mp hname with hname | hname
    · exact h.plain name hname
    · exact hp name hname
  have hwalk := walk_plain k.links [] hplain
    fun r hr target _ => h.no_link hr target
  simpa using hwalk

theorem join_concat (p : Path) (n : Name) :
    (k.join (p ++ [n])).getLast? = some n ∧ (k.join (p ++ [n])).dropLast = k.join p := by
  simp only [Site.join, ← List.append_assoc]
  simp

theorem Settled.create (h : Settled k.stage fs) (hp : ∀ name ∈ p, Plain name) {n : Name}
    (hn : Plain n) :
    k.create f (k.join (p ++ [n])) fs = stepAt f (k.join (p ++ [n])) fs := by
  rcases join_concat (k := k) p n with ⟨hlast, hparent⟩
  have hname : ¬ (n = "" ∨ n = "." ∨ n = "..") := by
    rintro (rfl | rfl | rfl)
    · exact hn.1 rfl
    · exact hn.2.1 rfl
    · exact hn.2.2.1 rfl
  have hjoin : k.join (p ++ [n]) = k.join p ++ [n] := by simp [Site.join]
  simp only [Site.create, hlast, hparent]
  rcases h.walk hp with hok | ⟨up, name, rest, hpath, hmissing, hup, herror⟩
  · rw [hok, hjoin]
    simp only [bind, Except.bind, if_neg hname]
  · rw [herror, hjoin, hpath, List.append_assoc, List.cons_append]
    rw [stepAt_missing h.root hup hmissing (.inl (by simp))]
    rfl

theorem Settled.use (h : Settled k.stage fs) (hp : ∀ name ∈ p, Plain name)
    (hf : f none = .error (.os .notFound)) : k.use f (k.join p) fs = stepAt f (k.join p) fs := by
  simp only [Site.use]
  rcases h.walk hp with hok | ⟨up, name, rest, hpath, hmissing, hup, herror⟩
  · rw [hok]
    rfl
  · rw [herror, hpath, stepAt_missing h.root hup hmissing (.inr hf)]
    rfl

theorem Settled.stat (h : Settled k.stage fs) (hp : ∀ name ∈ p, Plain name) :
    k.stat (k.join p) fs = lookup (k.join p) fs := by
  simp only [Site.stat]
  rcases h.walk hp with hok | ⟨up, name, rest, hpath, hmissing, hup, herror⟩
  · rw [hok]
  · have hnone : fs.view (k.join p) = none := by
      have hbelow := view_below hmissing rest
      rwa [List.append_assoc, List.singleton_append, ← hpath] at hbelow
    rw [herror]
    exact (Option.not_isSome_iff_eq_none.mp fun hsome => (isSome_lookup _ _).mp hsome hnone).symm

theorem Settled.lstat (h : Settled k.stage fs) (hp : ∀ name ∈ p, Plain name) {n : Name} :
    (k.lstat (k.join (p ++ [n])) fs).isLink = false := by
  rcases join_concat (k := k) p n with ⟨hlast, hparent⟩
  simp only [Site.lstat, hlast, hparent]
  rcases h.walk hp with hok | ⟨up, name, rest, hpath, hmissing, hup, herror⟩
  · rw [hok]
    have hview := view_lookup (k.join p ++ [n]) fs []
    rw [List.append_nil] at hview
    simp only
    match hlookup : lookup (k.join p ++ [n]) fs with
    | none => rfl
    | some ⟨.file _, _⟩ => rfl
    | some ⟨.dir _, _⟩ => rfl
    | some ⟨.link target, _⟩ =>
      rw [hlookup] at hview
      have hjoin : k.join p ++ [n] = k.stage ++ (p ++ [n]) := by simp [Site.join]
      rw [hjoin] at hview
      exact absurd hview.symm (h.linkless _ target)
  · rw [herror]
    rfl

theorem lookup_join (p : Path) (fs : Slot Content) :
    lookup (k.join p) fs = lookup p ((placeAt k.stage).get fs) := by
  rw [Site.join, lookup_append, placeAt_get]

theorem Settled.step (h : Settled k.stage fs) (p : Path) :
    stepAt f (k.join p) fs =
      (stepAt f p ((placeAt k.stage).get fs)).map ((placeAt k.stage).set fs) := by
  rw [Site.join, stepAt_append, stepAt_reached h.reached, placeAt_get]

/-! ### What the steps make -/

def Makes (f : Stage → Except Exn Stage) : Prop :=
  ∀ s s', f s = .ok s' → ∀ q kind, s'.view q = some kind →
    s.view q = some kind ∨ q = [] ∧ (kind = .dir ∨ ∃ c, kind = .file c)

theorem makes_mkdir : Makes mkdir := by
  intro s s' h q kind hview
  cases s with
  | some e => cases h
  | none =>
    cases h
    cases q with
    | nil =>
      cases hview
      exact .inr ⟨rfl, .inl rfl⟩
    | cons n q => cases hview

theorem makes_mkdirExistOk : Makes mkdirExistOk := by
  intro s s' h q kind hview
  simp only [mkdirExistOk] at h
  split at h
  · cases h
    exact .inl hview
  · exact makes_mkdir s s' h q kind hview

theorem makes_touch : Makes touch := by
  intro s s' h q kind hview
  cases s with
  | none => cases h
  | some e =>
    cases h
    exact .inl hview

theorem makes_file {s' : Stage} {c : Content} {q : Path} {kind : Kind Content}
    (h : s' = some (Entry.file c)) (hview : s'.view q = some kind) :
    q = [] ∧ (kind = .dir ∨ ∃ c, kind = .file c) := by
  subst h
  cases q with
  | nil =>
    cases hview
    exact ⟨rfl, .inr ⟨c, rfl⟩⟩
  | cons n q => cases hview

theorem makes_openNew : Makes openNew := by
  intro s s' h q kind hview
  cases s with
  | some e => cases h
  | none => exact .inr (makes_file (by cases h; rfl) hview)

theorem makes_hold (c : Content) : Makes (hold c) := by
  intro s s' h q kind hview
  match s, h with
  | some ⟨.file _, _⟩, h => exact .inr (makes_file (by cases h; rfl) hview)

theorem Settled.confined (h : Settled k.stage fs) (hf : Makes f) (hsafe : Safe p)
    (hstep : stepAt f (k.join p) fs = .ok fs') (hp : p ≠ []) :
    Confined k.stage fs fs' ∧ Settled k.stage fs' := by
  rcases stepAt_ok hstep with ⟨_, s, hs, hlook, hframe⟩
  have hviews : ∀ q kind, fs'.view q = some kind → fs.view q = some kind ∨
      q = k.join p ∧ (kind = .dir ∨ ∃ c, kind = .file c) := by
    intro q kind hview
    by_cases hq : k.join p <+: q
    · rcases hq with ⟨r, rfl⟩
      rw [← view_lookup, hlook] at hview
      rcases hf _ s hs r kind hview with hold | ⟨rfl, hkind⟩
      · rw [view_lookup] at hold
        exact .inl hold
      · exact .inr ⟨by simp, hkind⟩
    · rw [hframe q hq] at hview
      exact .inl hview
  refine ⟨⟨?_, ?_⟩, h.named, h.plain, ?_, ?_⟩
  · exact fun q hq => hframe q fun hjoin => hq ((List.prefix_append _ _).trans hjoin)
  · intro q kind hview hnew
    rcases hviews q kind hview with hold | ⟨rfl, hkind⟩
    · exact absurd hold hnew
    · exact .inr ⟨p, hp, rfl, hsafe, hkind⟩
  · exact h.reached.of_frame fun q hq => hframe q fun hjoin =>
      hq ((List.prefix_append _ _).trans hjoin)
  · intro q target hview
    rcases hviews _ _ hview with hold | ⟨_, hkind⟩
    · exact h.linkless q target hold
    · simp at hkind

end

end RestoreWorker
