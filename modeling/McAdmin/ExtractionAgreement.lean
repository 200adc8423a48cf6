import McAdmin.ArchiveInspection
import McAdmin.ExtractedTree

/-!
# Inspection and extraction of the same archive

An archive is inspected, and then read again and extracted.  The inspection compares the names of
the regular files; the extraction meets every path that a member occupies, and what the system
refuses of it.
-/

namespace RestoreWorker

open CrashLogic FileTree
open ArchiveInspection (TarMember Placed Restorable inspectArchive regulars joined)

/-! ### Members together -/

def entries (members : List TarMember) : List Placed :=
  (members.filterMap TarMember.placed).filter (·.path ≠ [])

/-- Neither of the two is a file at the other's path or above it. -/
def Compatible (a b : Placed) : Prop :=
  (a.content ≠ none → ¬ a.path <+: b.path) ∧ (b.content ≠ none → ¬ b.path <+: a.path)

instance (a b : Placed) : Decidable (Compatible a b) :=
  inferInstanceAs (Decidable ((_ → _) ∧ (_ → _)))

structure Shows (files : List Placed) (t : Stage) : Prop where
  file : ∀ p c, t.view p = some (.file c) ↔
    ∃ x ∈ files, x.path = p ∧ x.content.map Content.bytes = some c
  present : ∀ p, t.view p ≠ none ↔ p = [] ∨ ∃ x ∈ files, p <+: x.path
  plain : ∀ p target, t.view p ≠ some (.link target)
  named : ∀ x ∈ files, x.path ≠ []

section

variable {T : Terms Stage Empty} {files : List Placed} {t t' : Stage} {x : Placed} {p : Path}
  {R : Prop}

theorem Shows.solid (h : Shows files t) : Solid t := by
  refine ⟨?_, h.plain⟩
  have hpresent := (h.present []).mpr (.inl rfl)
  cases hview : t.view [] with
  | none => exact absurd hview hpresent
  | some kind =>
    cases kind with
    | dir => rfl
    | link target => exact absurd hview (h.plain [] target)
    | file c =>
      rcases (h.file [] c).mp hview with ⟨x, hx, hroot, _⟩
      exact absurd hroot (h.named x hx)

theorem shows_nil : Shows [] (some (Entry.folder .empty)) := by
  have hview : ∀ p, Slot.view (some (Entry.folder (.empty : Folder Content))) p =
      if p = [] then some .dir else none := by
    intro p
    cases p <;> rfl
  constructor
  · intro p c
    rw [hview]
    split <;> simp
  · intro p
    rw [hview]
    split <;> simp_all
  · intro p target
    rw [hview]
    split <;> simp
  · simp

theorem Shows.open_iff (h : Shows files t) (p : Path) :
    Open t p ↔ ∀ y ∈ files, y.content ≠ none → ¬ y.path <+: p := by
  constructor
  · intro hopen y hy hcontent hinit
    rcases Option.ne_none_iff_exists'.mp hcontent with ⟨data, hdata⟩
    exact hopen y.path hinit (.bytes data) ((h.file _ _).mpr ⟨y, hy, rfl, by simp [hdata]⟩)
  · intro hfree q hq c hview
    rcases (h.file q c).mp hview with ⟨y, hy, rfl, hcontent⟩
    apply hfree y hy _ hq
    intro hnone
    simp [hnone] at hcontent

theorem Shows.none_iff (h : Shows files t) (hp : p ≠ []) :
    t.view p = none ↔ ∀ y ∈ files, ¬ p <+: y.path := by
  rw [← not_iff_not, ← ne_eq, h.present, or_iff_right hp]
  simp

theorem grown_file {q : Path} {c : Content} :
    grown t p q = some (.file c) ↔ t.view q = some (.file c) := by
  simp only [grown]
  split
  · rename_i hnone
    simp [hnone.2]
  · exact Iff.rfl

theorem grown_present {q : Path} : grown t p q ≠ none ↔ q <+: p ∨ t.view q ≠ none := by
  simp only [grown]
  split
  · rename_i hnone
    simp [hnone.1]
  · rename_i hnone
    tauto

theorem Shows.directory (h : Shows files t) (hp : p ≠ []) (hview : t'.view = grown t p) :
    Shows (files ++ [⟨p, none⟩]) t' := by
  constructor
  · intro q c
    rw [hview, grown_file, h.file]
    simp [or_and_right, exists_or]
  · intro q
    rw [hview, grown_present, h.present]
    simp only [List.mem_append, List.mem_singleton, or_and_right, exists_or, exists_eq_left]
    rw [or_left_comm, or_comm (a := q <+: p)]
  · intro q target
    rw [hview, grown]
    split
    · intro hlink
      cases hlink
    · exact h.plain q target
  · intro x hx
    rcases List.mem_append.mp hx with hx | hx
    · exact h.named x hx
    · rw [List.mem_singleton.mp hx]
      exact hp

theorem Shows.regular (h : Shows files t) (hp : p ≠ []) {data : List UInt8}
    (hnone : t.view p = none)
    (hview : t'.view = Function.update (grown t p.dropLast) p (some (.file (.bytes data)))) :
    Shows (files ++ [⟨p, some data⟩]) t' := by
  -- the file is new: no other member stands at its path or below
  have hother : ∀ x ∈ files, x.path ≠ p := fun x hx heq =>
    (h.none_iff hp).mp hnone x hx (heq ▸ List.prefix_refl _)
  constructor
  · intro q c
    rw [hview]
    by_cases hq : q = p
    · subst hq
      rw [Function.update_self]
      constructor
      · rintro ⟨⟩
        exact ⟨⟨q, some data⟩, by simp, rfl, rfl⟩
      · rintro ⟨x, hx, hpath, hcontent⟩
        rcases List.mem_append.mp hx with hx | hx
        · exact absurd hpath (hother x hx)
        · rw [List.mem_singleton.mp hx] at hcontent
          cases hcontent
          rfl
    · rw [Function.update_of_ne hq, grown_file, h.file]
      simp [or_and_right, exists_or, Ne.symm hq]
  · intro q
    rw [hview]
    simp only [List.mem_append, List.mem_singleton, or_and_right, exists_or, exists_eq_left]
    by_cases hq : q = p
    · subst hq
      simp
    · have hinit : q <+: p ↔ q <+: p.dropLast := by
        conv_lhs => rw [← List.dropLast_append_getLast hp]
        rw [List.prefix_concat_iff, List.dropLast_append_getLast, or_iff_right hq]
      rw [Function.update_of_ne hq, grown_present, h.present, hinit, or_left_comm,
        or_comm (a := q <+: p.dropLast)]
  · intro q target
    rw [hview]
    by_cases hq : q = p
    · subst hq
      simp
    · rw [Function.update_of_ne hq, grown]
      split
      · intro hlink
        cases hlink
      · exact h.plain q target
  · intro x hx
    rcases List.mem_append.mp hx with hx | hx
    · exact h.named x hx
    · rw [List.mem_singleton.mp hx]
      exact hp

theorem Shows.open_directory (h : Shows files t) (hx : x.content = none) :
    Open t x.path ↔ ∀ y ∈ files, Compatible y x := by
  rw [h.open_iff]
  exact forall₂_congr fun y _ => ⟨fun hfree => ⟨hfree, fun hsome => absurd hx hsome⟩, And.left⟩

theorem Shows.open_regular (h : Shows files t) (hp : x.path ≠ []) (hx : x.content ≠ none) :
    (Open t x.path.dropLast ∧ t.view x.path = none) ↔ ∀ y ∈ files, Compatible y x := by
  rw [h.open_iff, h.none_iff hp]
  have hinit : ∀ y : Placed, y.path <+: x.path ↔
      y.path = x.path ∨ y.path <+: x.path.dropLast := by
    intro y
    conv_lhs => rw [← List.dropLast_append_getLast hp]
    rw [List.prefix_concat_iff, List.dropLast_append_getLast]
  constructor
  · rintro ⟨habove, hbelow⟩ y hy
    refine ⟨fun hfile hincluded => ?_, fun _ => hbelow y hy⟩
    rcases (hinit y).mp hincluded with heq | hproper
    · exact hbelow y hy (heq ▸ List.prefix_refl _)
    · exact habove y hy hfile hproper
  · intro hall
    exact ⟨fun y hy hfile hproper => (hall y hy).1 hfile ((hinit y).mpr (.inr hproper)),
      fun y hy => (hall y hy).2 hx⟩

/-! ### Extraction -/

def entryOf (m : TarMember) : List Placed :=
  (m.placed.toList).filter (·.path ≠ [])

theorem entries_cons (m : TarMember) (members : List TarMember) :
    entries (m :: members) = entryOf m ++ entries members := by
  simp only [entries, entryOf, List.filterMap_cons]
  cases m.placed with
  | none => rfl
  | some x => exact List.filter_append (p := (·.path ≠ [])) [x] _

/-- The extraction takes the member: it is read unless it stands for the stage. -/
def Taken (m : TarMember) : Prop :=
  m.placed ≠ none ∨ safeArchiveMemberName m.name = .ok [] ∧ m.kind = .regular none

instance (m : TarMember) : Decidable (Taken m) := inferInstanceAs (Decidable (_ ∨ _))

/-- The system refuses nothing of the member, if it is extracted. -/
def Unrefused (m : TarMember) : Prop := ∀ x ∈ entryOf m, Granted m.member x.path

instance (m : TarMember) : Decidable (Unrefused m) :=
  inferInstanceAs (Decidable (∀ x ∈ entryOf m, _))

def Goes (files : List Placed) (m : TarMember) : Prop :=
  Taken m ∧ ∀ x ∈ entryOf m, ∀ y ∈ files, Compatible y x

theorem wp_extractMember (hT : T.Free) (h : Shows files t) (m : TarMember) :
    wp T (extractMember m.member)
      (orRaise (fun answer t' => Goes files m ∧
          (Unrefused m ↔ ∀ entry ∈ answer, Settable entry.2) ∧
          Shows (files ++ entryOf m) t' ∧ ∀ entry ∈ answer, t'.view entry.1 ≠ none)
        (¬ (Goes files m ∧ Unrefused m))) t := by
  have hname : m.member.name = m.name := rfl
  simp only [extractMember, Goes, Unrefused, entryOf, Taken, TarMember.placed, hname]
  cases safeArchiveMemberName m.name with
  | error e => simp [orRaise]
  | ok path =>
    simp only [TarMember.member]
    cases m.kind with
    | directory =>
      simp only
      by_cases hp : path = []
      · subst hp
        simpa [orRaise] using h
      · rw [if_neg hp]
        have hopen := h.open_directory (x := ⟨path, none⟩) rfl
        refine wp_mono (wp_extractDirectory hT h.solid _ hp) (orRaise_le ?_ ?_)
        · rintro _ t' ⟨rfl, hlong, hfree, hview⟩
          refine ⟨by simpa [hp] using hopen.mp hfree, by simp [hp, Granted, hlong],
            by simpa [hp] using h.directory hp hview, ?_⟩
          intro entry hmem
          rw [List.mem_singleton.mp hmem, hview, grown_present]
          exact .inl (List.prefix_refl _)
        · intro hclosed
          simpa [hp, ← hopen] using hclosed
    | regular data =>
      simp only
      by_cases hp : path = []
      · subst hp
        cases data <;> simpa [orRaise] using h
      · rw [if_neg hp]
        cases data with
        | none =>
          refine wp_mono (wp_extractFile hT h.solid _ hp _) (orRaise_le ?_ ?_)
          · rintro _ t' ⟨_, _, c, hc, _⟩
            cases hc
          · simp [hp]
        | some data =>
          have hopen := h.open_regular (x := ⟨path, some data⟩) hp (by simp)
          refine wp_mono (wp_extractFile hT h.solid _ hp _) (orRaise_le ?_ ?_)
          · rintro _ t' ⟨rfl, hgranted, c, hc, hfree, hview⟩
            cases hc
            exact ⟨by simpa [hp] using hopen.mp hfree, by simpa [hp] using hgranted,
              by simpa [hp] using h.regular hp hfree.2 hview, by simp⟩
          · intro hclosed
            simpa [hp, ← hopen, and_comm] using hclosed
    | link => simp [orRaise]
    | special => simp [orRaise]
    | other => simp [orRaise]

theorem Shows.mono (h : Shows files t) {more : List Placed} (h' : Shows (files ++ more) t')
    (hp : t.view p ≠ none) : t'.view p ≠ none := by
  rw [h.present] at hp
  rw [h'.present]
  exact hp.imp_right fun ⟨x, hx, hinit⟩ => ⟨x, List.mem_append_left _ hx, hinit⟩

/-- Every member is taken, and they do not get in each other's way. -/
structure Fitting (files : List Placed) (members : List TarMember) : Prop where
  taken : ∀ m ∈ members, Taken m
  compatible : (files ++ entries members).Pairwise Compatible

theorem compatible_snoc {m : TarMember} (hcompatible : files.Pairwise Compatible) :
    (∀ x ∈ entryOf m, ∀ y ∈ files, Compatible y x) ↔
      (files ++ entryOf m).Pairwise Compatible := by
  have hone : (entryOf m).Pairwise Compatible := by
    rw [entryOf]
    cases m.placed with
    | none => exact List.Pairwise.nil
    | some x => exact (List.pairwise_singleton _ x).filter _
  rw [List.pairwise_append]
  exact ⟨fun hall => ⟨hcompatible, hone, fun y hy x hx => hall x hx y hy⟩,
    fun hall x hx y hy => hall.2.2 y hy x hx⟩

theorem fitting_cons {m : TarMember} {members : List TarMember}
    (hcompatible : files.Pairwise Compatible) :
    Fitting files (m :: members) ↔ Goes files m ∧ Fitting (files ++ entryOf m) members := by
  have hsame : files ++ entries (m :: members) = files ++ entryOf m ++ entries members := by
    rw [entries_cons, List.append_assoc]
  constructor
  · rintro ⟨htaken, hall⟩
    rw [hsame] at hall
    obtain ⟨hm, hmembers⟩ := List.forall_mem_cons.mp htaken
    have hfirst := (compatible_snoc hcompatible).mpr (List.pairwise_append.mp hall).1
    exact ⟨⟨hm, hfirst⟩, hmembers, hall⟩
  · rintro ⟨⟨hm, _⟩, hmembers, hall⟩
    exact ⟨List.forall_mem_cons.mpr ⟨hm, hmembers⟩, hsame ▸ hall⟩

theorem wp_extractMembers (hT : T.Free) {members : List TarMember} (h : Shows files t)
    (hcompatible : files.Pairwise Compatible) :
    wp T (extractMembers (members.map TarMember.member))
      (orRaise (fun answer t' => Fitting files members ∧
          ((∀ m ∈ members, Unrefused m) ↔ ∀ entry ∈ answer, Settable entry.2) ∧
          Shows (files ++ entries members) t' ∧ ∀ entry ∈ answer, t'.view entry.1 ≠ none)
        (¬ (Fitting files members ∧ ∀ m ∈ members, Unrefused m))) t := by
  induction members generalizing files t with
  | nil => simpa [extractMembers, entries, orRaise] using ⟨⟨by simp, by simpa [entries]⟩, h⟩
  | cons m members ih =>
    rw [entries_cons, ← List.append_assoc, List.map_cons, extractMembers, fitting_cons hcompatible]
    refine wp_seq_orRaise (Q := fun _ t' => t = t') ?_ ?_
    · exact wp_perform_orRaise hT (fun _ hok => by cases hok; rfl) nofun
    rintro _ _ rfl
    refine wp_seq_orRaise (wp_mono (wp_extractMember hT h m) (orRaise_le (fun _ _ h => h) ?_)) ?_
    · exact fun hnot hall => hnot ⟨hall.1.1, hall.2 m List.mem_cons_self⟩
    rintro first t₁ ⟨hgoes, hset₁, h₁, hpresent₁⟩
    have hcompatible₁ := (compatible_snoc hcompatible).mp hgoes.2
    refine wp_seq_orRaise (wp_mono (ih h₁ hcompatible₁) (orRaise_le (fun _ _ h => h) ?_)) ?_
    · exact fun hnot hall => hnot ⟨hall.1.2, fun m hm => hall.2 m (List.mem_cons_of_mem _ hm)⟩
    rintro others t₂ ⟨hfitting, hset₂, h₂, hpresent₂⟩
    refine ⟨⟨hgoes, hfitting⟩, ?_, h₂, ?_⟩
    · rw [List.forall_mem_cons, List.forall_mem_append, hset₁, hset₂]
    · intro entry hentry
      rcases List.mem_append.mp hentry with hentry | hentry
      · exact h₁.mono h₂ (hpresent₁ entry hentry)
      · exact hpresent₂ entry hentry

theorem wp_setMetadatas (hT : T.Free) (directories : List (Path × Member))
    (h : ∀ entry ∈ directories, t.view entry.1 ≠ none) :
    wp T (directories.forM setArchiveMetadata)
      (orRaise (fun _ t' => (∀ entry ∈ directories, Settable entry.2) ∧ t'.view = t.view)
        (¬ ∀ entry ∈ directories, Settable entry.2)) t := by
  induction directories generalizing t with
  | nil => exact ⟨by simp, rfl⟩
  | cons entry directories ih =>
    obtain ⟨p, member⟩ := entry
    change wp T (setArchiveMetadata (p, member) >>= fun _ => directories.forM setArchiveMetadata) _ t
    have hfirst := wp_setArchiveMetadata hT member (h _ List.mem_cons_self)
    refine wp_seq_orRaise (wp_mono hfirst (orRaise_le (fun _ _ h => h) ?_)) ?_
    · exact fun hnot hall => hnot (hall _ List.mem_cons_self)
    rintro _ t₁ ⟨hset, h₁⟩
    have hpresent : ∀ entry ∈ directories, t₁.view entry.1 ≠ none := by
      intro entry hentry
      rw [h₁]
      exact h entry (List.mem_cons_of_mem _ hentry)
    refine wp_mono (ih hpresent) (orRaise_le ?_ ?_)
    · rintro _ t₂ ⟨hall, h₂⟩
      exact ⟨List.forall_mem_cons.mpr ⟨hset, hall⟩, h₂.trans h₁⟩
    · exact fun hnot hall => hnot (List.forall_mem_cons.mp hall).2

theorem Shows.of_view (h : Shows files t) (hview : t'.view = t.view) : Shows files t' :=
  ⟨fun p c => by rw [hview]; exact h.file p c, fun p => by rw [hview]; exact h.present p,
    fun p target => by rw [hview]; exact h.plain p target, h.named⟩

/-- Every member is taken, they do not get in each other's way, and the system refuses nothing. -/
structure Extractable (members : List TarMember) : Prop where
  fitting : Fitting [] members
  unrefused : ∀ m ∈ members, Unrefused m

theorem wp_unpack (hT : T.Free) {members : List TarMember} {archive : Archive}
    (harchive : archive.members = members.map TarMember.member) :
    wp T (unpack archive)
      (orRaise (fun _ t' => (Extractable members ∧ archive.broken = none) ∧
          Shows (entries members) t')
        (¬ (Extractable members ∧ archive.broken = none))) (some (Entry.folder .empty)) := by
  rw [unpack]
  refine wp_seq_orRaise (Q := fun _ t' => t' = some (Entry.folder .empty)) ?_ ?_
  · exact wp_perform_orRaise hT (fun _ hok => by cases hok; rfl) nofun
  rintro _ t₀ rfl
  rw [harchive]
  refine wp_seq_orRaise (wp_mono (wp_extractMembers hT shows_nil List.Pairwise.nil)
    (orRaise_le (fun _ _ h => h) fun hnot hall => hnot ⟨hall.1.fitting, hall.1.unrefused⟩)) ?_
  rintro directories t₁ ⟨hfitting, hset, h₁, hpresent⟩
  refine wp_seq_orRaise (wp_raiseAny fun hbroken hall => hbroken hall.2) ?_
  rintro _ _ ⟨hbroken, rfl⟩
  have hreverse : ∀ entry ∈ directories.reverse, t₁.view entry.1 ≠ none :=
    fun entry hentry => hpresent entry (List.mem_reverse.mp hentry)
  refine wp_mono (wp_setMetadatas hT _ hreverse) (orRaise_le ?_ ?_)
  · rintro _ t₂ ⟨hall, h₂⟩
    refine ⟨⟨⟨hfitting, hset.mpr fun entry hentry => ?_⟩, hbroken⟩, h₁.of_view h₂⟩
    exact hall entry (List.mem_reverse.mpr hentry)
  · intro hnot hall
    refine hnot fun entry hentry => hset.mp hall.1.unrefused entry (List.mem_reverse.mp hentry)

/-- An archive that does not change, read twice: as a stream, which ends with the first part of a
compressed file and checks no sum, and as a file, up to an error if there is one. -/
structure Readings where
  inspected : List TarMember
  extracted : List TarMember
  broken : Option Exn := none

def Readings.archive (r : Readings) : Archive where
  members := r.extracted.map TarMember.member
  broken := r.broken
  inspection := inspectArchive r.inspected

/-- `_extract_verified_archive`, left alone. -/
def extracted (r : Readings) (t : Stage) : Result Stage Exn Empty String :=
  exec alone (extractVerifiedArchive r.archive) [] t

theorem wp_extractArchive {r : Readings}
    (haccepted : checkInspection (inspectArchive r.inspected) = .ok ()) :
    wp calm (extractVerifiedArchive r.archive)
      (orRaise (fun world t' => world = (inspectArchive r.inspected).worldName ∧
          (Extractable r.extracted ∧ r.broken = none) ∧ Shows (entries r.extracted) t')
        (¬ (Extractable r.extracted ∧ r.broken = none))) t := by
  have hT : (calm : Terms Stage Empty).Free := calm_free
  rw [extractVerifiedArchive]
  refine wp_seq_orRaise (Q := fun _ t' => t' = t) ?_ ?_
  · exact wp_perform_orRaise hT (fun _ hok => by cases hok; rfl) fun _ hraised => by cases hraised
  rintro _ t₀ rfl
  have hcheck : checkInspection r.archive.inspection = .ok () := haccepted
  rw [hcheck]
  simp only [extractInspectedArchive]
  refine wp_seq_orRaise (Q := fun _ t' => t' = none) ?_ ?_
  · exact wp_mono (wp_removePath hT t₀) (Post.orCut_imp (fun _ _ h => h)
      (fun _ _ _ => trivial) fun _ _ => trivial)
  rintro _ t₁ rfl
  refine wp_seq_orRaise (Q := fun _ t' => t' = some (Entry.folder .empty)) ?_ ?_
  · exact wp_perform_orRaise hT (fun _ hok => by cases hok; rfl) fun _ hraised => by cases hraised
  rintro _ t₂ rfl
  refine wp_seq_orRaise (Q := fun _ t' => (Extractable r.extracted ∧ r.broken = none) ∧
    Shows (entries r.extracted) t') ?_ ?_
  · rw [wp_tryCatch]
    refine wp_mono (wp_marked (wp_unpack hT rfl)) ⟨fun _ _ h => h, fun e t₃ hnot => ?_,
      fun e t₃ hstruck => hstruck.2.elim, fun _ _ => trivial⟩
    change wp calm (removePath >>= fun _ => throw e) (orRaise _ _) t₃
    rw [wp_bind]
    exact wp_mono (wp_removePath hT t₃) (Post.orCut_imp (fun _ _ _ => hnot)
      (fun _ _ _ => trivial) fun _ _ => trivial)
  · rintro _ t₃ ⟨hextractable, h₃⟩
    exact ⟨rfl, hextractable, h₃⟩

theorem checkInspection_ok {inspection : Inspection} :
    checkInspection inspection = .ok () ↔
      inspection.ok = true ∧ inspection.restorable = true := by
  cases hok : inspection.ok <;> cases hrestorable : inspection.restorable <;>
    simp [checkInspection, hok, hrestorable]

theorem extracted_cases (r : Readings) (t : Stage) :
    (∃ world, Restorable r.inspected world ∧ (Extractable r.extracted ∧ r.broken = none) ∧
        (extracted r t).outcome = .ok (joined world) ∧
        (inspectArchive r.inspected).worldName = joined world ∧
        Shows (entries r.extracted) (extracted r t).state) ∨
      ((∃ e, (extracted r t).outcome = .raised e) ∧
        ¬ ((∃ world, Restorable r.inspected world) ∧
          Extractable r.extracted ∧ r.broken = none)) := by
  cases hcheck : checkInspection (inspectArchive r.inspected) with
  | error e =>
    refine .inr ⟨?_, ?_⟩
    · have hraised : wp calm (extractVerifiedArchive r.archive)
          (orRaise (fun _ _ => False) True) t := by
        rw [extractVerifiedArchive]
        refine wp_seq_orRaise (Q := fun _ _ => True) ?_ ?_
        · exact wp_perform_orRaise calm_free (fun _ _ => trivial) fun _ _ => trivial
        · intro _ t' _
          rw [show checkInspection r.archive.inspection = .error e from hcheck]
          trivial
      rcases exec_calm hraised with ⟨_, _, hfalse⟩ | ⟨e, he, _⟩
      · exact hfalse.elim
      · exact ⟨e, he⟩
    · rintro ⟨⟨world, hrestorable⟩, _⟩
      have haccepted := (ArchiveInspection.inspectArchive_restorable (joined world)).mpr
        ⟨world, hrestorable, rfl⟩
      rw [haccepted] at hcheck
      cases hcheck
  | ok _ =>
    rcases checkInspection_ok.mp hcheck with ⟨hok, hrestorable⟩
    have haccepted := ArchiveInspection.inspectArchive_accepted hok hrestorable
    rcases (ArchiveInspection.inspectArchive_restorable _).mp haccepted with
      ⟨world, hworld, hjoined⟩
    rcases exec_calm (wp_extractArchive (t := t) hcheck) with
      ⟨_, hreturned, rfl, hextractable, hshows⟩ | ⟨e, he, hnot⟩
    · exact .inl ⟨world, hworld, hextractable, hjoined ▸ hreturned, hjoined.symm, hshows⟩
    · exact .inr ⟨⟨e, he⟩, fun h => hnot h.2⟩

/-! ### Agreement -/

/-- The archive is accepted exactly when it can be extracted, and then the stage has the regular
files of both readings and a world in the directory the inspection names. -/
structure Agrees (r : Readings) (t : Stage) : Prop where
  accepted : ((inspectArchive r.inspected).ok = true ∧
      (inspectArchive r.inspected).restorable = true) ↔
    ∃ world, (extracted r t).outcome = .ok world
  named : ∀ world, (extracted r t).outcome = .ok world →
    world = (inspectArchive r.inspected).worldName
  files : (∃ world, (extracted r t).outcome = .ok world) →
    ∀ file ∈ regulars r.inspected ++ regulars r.extracted,
      (extracted r t).state.view file.1 = some (.file (.bytes file.2))
  properties : (∃ world, (extracted r t).outcome = .ok world) → ∃ data,
    (extracted r t).state.view ["server.properties"] = some (.file (.bytes data))
  level : ∀ name, (extracted r t).outcome = .ok name → ∃ world, joined world = name ∧
    ∃ data ≠ [], (extracted r t).state.view (world ++ ["level.dat"]) =
      some (.file (.bytes data))

/-- The second reading ends with no error, finds only what can be extracted, no regular file at the
stage itself, and all the regular files of the first. -/
structure Unambiguous (r : Readings) : Prop where
  extractable : Extractable r.extracted
  whole : r.broken = none
  below : ∀ file ∈ regulars r.extracted, file.1 ≠ []
  same : ∀ file ∈ regulars r.inspected, file ∈ regulars r.extracted

theorem regular_iff {members : List TarMember} {path : Path} {data : List UInt8} :
    (path, data) ∈ regulars members ↔
      ∃ m ∈ members, m.placed = some ⟨path, some data⟩ := by
  simp only [regulars, List.mem_filterMap, TarMember.regular]
  refine exists_congr fun m => and_congr_right fun _ => ?_
  cases m.placed with
  | none => simp
  | some x =>
    obtain ⟨path', content⟩ := x
    cases content <;> simp [ArchiveInspection.Placed.regular]

theorem Shows.view_regular {members : List TarMember} (h : Shows (entries members) t) {path : Path}
    {data : List UInt8} : t.view path = some (.file (.bytes data)) ↔
      path ≠ [] ∧ (path, data) ∈ regulars members := by
  rw [h.file, regular_iff]
  constructor
  · rintro ⟨⟨path', content⟩, hx, rfl, hcontent⟩
    obtain ⟨hx, hnamed⟩ := List.mem_filter.mp hx
    obtain ⟨m, hm, hplaced⟩ := List.mem_filterMap.mp hx
    obtain ⟨data', rfl, hdata⟩ := Option.map_eq_some_iff.mp hcontent
    obtain rfl := Content.bytes.inj hdata
    exact ⟨by simpa using hnamed, m, hm, hplaced⟩
  · rintro ⟨hnamed, m, hm, hplaced⟩
    refine ⟨⟨path, some data⟩, List.mem_filter.mpr ⟨?_, by simpa using hnamed⟩, rfl, rfl⟩
    exact List.mem_filterMap.mpr ⟨m, hm, hplaced⟩

theorem accepted_iff {members : List TarMember} :
    ((inspectArchive members).ok = true ∧ (inspectArchive members).restorable = true) ↔
      ∃ world, Restorable members world := by
  constructor
  · rintro ⟨hok, hrestorable⟩
    have haccepted := ArchiveInspection.inspectArchive_accepted hok hrestorable
    rcases (ArchiveInspection.inspectArchive_restorable _).mp haccepted with ⟨world, hworld, _⟩
    exact ⟨world, hworld⟩
  · rintro ⟨world, hworld⟩
    rw [(ArchiveInspection.inspectArchive_restorable _).mpr ⟨world, hworld, rfl⟩]
    exact ⟨rfl, rfl⟩

end

/-- The inspection and the extraction agree on the archives that cannot be restored, and on
those whose second reading can be extracted and has the files of the first. -/
theorem agrees_iff (r : Readings) (t : Stage) :
    Agrees r t ↔ ((∃ world, Restorable r.inspected world) → Unambiguous r) := by
  rcases extracted_cases r t with
    ⟨world, hworld, hextractable, hreturned, hname, hshows⟩ | ⟨⟨e, hraised⟩, hnot⟩
  · constructor
    · intro hagrees _
      have hfile : ∀ file ∈ regulars r.inspected ++ regulars r.extracted,
          file.1 ≠ [] ∧ file ∈ regulars r.extracted :=
        fun file hfile => hshows.view_regular.mp (hagrees.files ⟨_, hreturned⟩ file hfile)
      exact ⟨hextractable.1, hextractable.2,
        fun file hmem => (hfile file (List.mem_append_right _ hmem)).1,
        fun file hmem => (hfile file (List.mem_append_left _ hmem)).2⟩
    · intro hclear
      obtain ⟨-, -, hbelow, hsame⟩ := hclear ⟨world, hworld⟩
      have hviews : ∀ file ∈ regulars r.inspected ++ regulars r.extracted,
          (extracted r t).state.view file.1 = some (.file (.bytes file.2)) := by
        intro file hfile
        have hmem : file ∈ regulars r.extracted :=
          (List.mem_append.mp hfile).elim (hsame file) id
        exact hshows.view_regular.mpr ⟨hbelow file hmem, hmem⟩
      have hjoined : ∀ name, (extracted r t).outcome = .ok name → joined world = name := by
        intro name hname
        rw [hreturned] at hname
        cases hname
        rfl
      constructor
      · exact ⟨fun _ => ⟨_, hreturned⟩, fun _ => accepted_iff.mpr ⟨world, hworld⟩⟩
      · intro name hok
        rw [hname, hjoined name hok]
      · exact fun _ => hviews
      · rcases hworld.named with ⟨data, hdata, _⟩
        exact fun _ => ⟨data, hviews _ (List.mem_append_left _ hdata)⟩
      · rcases hworld.level with ⟨data, hdata, hlevel⟩
        exact fun name hok =>
          ⟨world, hjoined name hok, data, hdata, hviews _ (List.mem_append_left _ hlevel)⟩
  -- the extraction raises, so that an accepted archive already disagrees
  · have hfails : ∀ name, (extracted r t).outcome ≠ .ok name := by
      intro name hok
      rw [hraised] at hok
      cases hok
    constructor
    · intro hagrees hrestorable
      rcases hagrees.accepted.mp (accepted_iff.mpr hrestorable) with ⟨name, hok⟩
      exact absurd hok (hfails name)
    · intro hclear
      constructor
      · constructor
        · intro haccepted
          have hrestorable := accepted_iff.mp haccepted
          have hunambiguous := hclear hrestorable
          exact absurd ⟨hrestorable, hunambiguous.extractable, hunambiguous.whole⟩ hnot
        · rintro ⟨name, hok⟩
          exact absurd hok (hfails name)
      · exact fun name hok => absurd hok (hfails name)
      · exact fun ⟨name, hok⟩ => absurd hok (hfails name)
      · exact fun ⟨name, hok⟩ => absurd hok (hfails name)
      · exact fun name hok => absurd hok (hfails name)

def regularMember (name : String) (data : List UInt8) : TarMember :=
  { name := name, kind := .regular (some data) }

def clashing : List TarMember :=
  [regularMember "server.properties" "level-name=w\n".toUTF8.toList,
    regularMember "w/level.dat" [1], regularMember "a" [], regularMember "a/b" []]

/-- The archive is verified, and cannot be extracted. -/
theorem clashing_disagrees : ¬ ∀ (members : List TarMember) (t : Stage),
    Agrees ⟨members, members, none⟩ t := by
  intro h
  have hagrees := (h clashing none).accepted
  have haccepted : (inspectArchive clashing).ok = true ∧
      (inspectArchive clashing).restorable = true := by decide +kernel
  have hclash : ¬ (entries clashing).Pairwise Compatible := by decide +kernel
  rcases hagrees.mp haccepted with ⟨name, hok⟩
  rcases extracted_cases ⟨clashing, clashing, none⟩ none with
    ⟨_, _, hextractable, _⟩ | ⟨⟨e, hraised⟩, _⟩
  · exact hclash hextractable.1.fitting.compatible
  · rw [hraised] at hok
    cases hok

end RestoreWorker
