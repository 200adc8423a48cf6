import McAdmin.CrashLogic

/-!
# File trees changed one elementary step at a time

A directory is a list of named nodes without repetition.  `Folder` and `Entry`
carry that fact, so every tree a program can hold is a tree a file system can
hold.  A `Slot` is what stands at one name: nothing, or an entry.

The elementary steps are those of a file system (`unlink`, `rmdir`, `mkdir`,
`symlink`, opening and writing a file); each is a function that fails with an
`OsError`.  Two foci take a program of a slot into the directory around it and a
program of a directory into the slot that holds it, so that a recursive program
is written, and proved, on its own part of the tree.

Two trees are the same when they have the same `view`: the kind, the file
content and the link target found at every path.
-/

namespace FileTree

open CrashLogic

abbrev Name := String

abbrev Path := List Name

mutual

/-- A file, a symbolic link or a directory. -/
inductive Node (C : Type) where
  | file (content : C)
  | link (target : String)
  | dir (entries : Dir C)

inductive Dir (C : Type) where
  | nil
  | cons (name : Name) (node : Node C) (rest : Dir C)

end

deriving instance DecidableEq, Repr for Node, Dir

section

variable {C : Type}

/-! ### Directories -/

namespace Dir

/-- Induction along a directory, not into its entries. -/
@[elab_as_elim, induction_eliminator]
theorem induct {motive : Dir C → Prop} (nil : motive .nil)
    (cons : ∀ n x rest, motive rest → motive (.cons n x rest)) : ∀ d, motive d
  | .nil => nil
  | .cons n x rest => cons n x rest (induct nil cons rest)

def names : Dir C → List Name
  | .nil => []
  | .cons n _ rest => n :: rest.names

def find (m : Name) : Dir C → Option (Node C)
  | .nil => none
  | .cons n x rest => if n = m then some x else rest.find m

/-- The entry `m` becomes `y`, in place, or is added at the end. -/
def put (m : Name) (y : Node C) : Dir C → Dir C
  | .nil => .cons m y .nil
  | .cons n x rest => if n = m then .cons n y rest else .cons n x (rest.put m y)

def erase (m : Name) : Dir C → Dir C
  | .nil => .nil
  | .cons n x rest => if n = m then rest else .cons n x (rest.erase m)

theorem find_put (m n : Name) (y : Node C) (d : Dir C) :
    (d.put m y).find n = if m = n then some y else d.find n := by
  induction d with
  | nil => simp [put, find]
  | cons k x rest ih =>
    by_cases hk : k = m
    · subst hk
      by_cases hn : k = n <;> simp [put, find, hn]
    · by_cases hn : k = n
      · subst hn
        simp [put, find, hk, Ne.symm hk]
      · simp [put, find, hk, hn, ih]

theorem put_find {d : Dir C} {n : Name} {x : Node C} (h : d.find n = some x) :
    d.put n x = d := by
  induction d with
  | nil => cases h
  | cons m y rest ih =>
    simp only [find] at h
    simp only [put]
    by_cases hm : m = n
    · rw [if_pos hm] at h ⊢
      cases h
      rfl
    · rw [if_neg hm] at h ⊢
      rw [ih h]

theorem erase_absent {d : Dir C} {n : Name} (h : d.find n = none) : d.erase n = d := by
  induction d with
  | nil => rfl
  | cons m y rest ih =>
    simp only [find] at h
    simp only [erase]
    by_cases hm : m = n
    · rw [if_pos hm] at h
      cases h
    · rw [if_neg hm] at h ⊢
      rw [ih h]

theorem names_put (m : Name) (y : Node C) (d : Dir C) :
    ∀ n, n ∈ (d.put m y).names ↔ n = m ∨ n ∈ d.names := by
  induction d with
  | nil => simp [put, names]
  | cons k x rest ih =>
    intro n
    by_cases hk : k = m
    · subst hk
      simp [put, names]
    · simp only [put, hk, if_false, names, List.mem_cons, ih, or_left_comm]

theorem names_erase (m : Name) (d : Dir C) : ∀ n ∈ (d.erase m).names, n ∈ d.names := by
  induction d with
  | nil => simp [erase]
  | cons k x rest ih =>
    intro n hn
    by_cases hk : k = m
    · simp only [erase, hk, if_true] at hn
      exact List.mem_cons_of_mem _ hn
    · simp only [erase, hk, if_false, names, List.mem_cons] at hn ⊢
      exact hn.imp id (ih n)

theorem find_eq_none_iff (m : Name) (d : Dir C) : d.find m = none ↔ m ∉ d.names := by
  induction d with
  | nil => simp [find, names]
  | cons k x rest ih =>
    by_cases hk : k = m
    · simp [find, names, hk]
    · simp [find, names, hk, ih, Ne.symm hk]

end Dir

/-! ### Well-formed trees -/

mutual

/-- No directory of the tree has two entries of one name. -/
def Node.wf : Node C → Bool
  | .file _ => true
  | .link _ => true
  | .dir d => d.wf

def Dir.wf : Dir C → Bool
  | .nil => true
  | .cons n x rest => !rest.names.contains n && x.wf && rest.wf

end

namespace Dir

theorem wf_cons {n : Name} {x : Node C} {rest : Dir C} :
    (Dir.cons n x rest).wf = true ↔ n ∉ rest.names ∧ x.wf = true ∧ rest.wf = true := by
  simp [wf, and_assoc]

theorem wf_find {d : Dir C} (hd : d.wf = true) {m : Name} {x : Node C} (hx : d.find m = some x) :
    x.wf = true := by
  induction d with
  | nil => simp [find] at hx
  | cons k y rest ih =>
    obtain ⟨_, hy, hrest⟩ := wf_cons.mp hd
    by_cases hk : k = m
    · simp only [find, hk, if_true, Option.some.injEq] at hx
      exact hx ▸ hy
    · simp only [find, hk, if_false] at hx
      exact ih hrest hx

theorem wf_put {d : Dir C} (hd : d.wf = true) (m : Name) {y : Node C} (hy : y.wf = true) :
    (d.put m y).wf = true := by
  induction d with
  | nil => simp [put, wf, names, hy]
  | cons k x rest ih =>
    obtain ⟨hk, hx, hrest⟩ := wf_cons.mp hd
    by_cases hkm : k = m
    · simp only [put, hkm, if_true]
      exact wf_cons.mpr ⟨hkm ▸ hk, hy, hrest⟩
    · simp only [put, hkm, if_false]
      refine wf_cons.mpr ⟨?_, hx, ih hrest⟩
      rw [names_put]
      exact fun h => h.elim hkm hk

theorem wf_erase {d : Dir C} (hd : d.wf = true) (m : Name) : (d.erase m).wf = true := by
  induction d with
  | nil => rfl
  | cons k x rest ih =>
    obtain ⟨hk, hx, hrest⟩ := wf_cons.mp hd
    by_cases hkm : k = m
    · simpa only [erase, hkm, if_true] using hrest
    · simp only [erase, hkm, if_false]
      exact wf_cons.mpr ⟨fun h => hk (names_erase m rest k h), hx, ih hrest⟩

theorem find_erase {d : Dir C} (hd : d.wf = true) (m n : Name) :
    (d.erase m).find n = if m = n then none else d.find n := by
  induction d with
  | nil => simp [erase, find]
  | cons k x rest ih =>
    obtain ⟨hk, _, hrest⟩ := wf_cons.mp hd
    by_cases hkm : k = m
    · subst hkm
      by_cases hn : k = n
      · subst hn
        simpa [erase, find_eq_none_iff] using hk
      · simp [erase, find, hn]
    · by_cases hn : k = n
      · subst hn
        simp [erase, find, hkm, Ne.symm hkm]
      · simp [erase, find, hkm, hn, ih hrest]

end Dir

end

/-- An entry of a well-formed tree. -/
structure Entry (C : Type) where
  node : Node C
  wf : node.wf = true
deriving DecidableEq

/-- A well-formed directory. -/
structure Folder (C : Type) where
  dir : Dir C
  wf : dir.wf = true
deriving DecidableEq

/-- What stands at one name of a directory. -/
abbrev Slot (C : Type) := Option (Entry C)

section

variable {C : Type}

namespace Folder

def empty : Folder C := ⟨.nil, rfl⟩

def get (f : Folder C) (n : Name) : Slot C :=
  (f.dir.find n).pmap Entry.mk fun _ hx => Dir.wf_find f.wf hx

def set (f : Folder C) (n : Name) : Slot C → Folder C
  | none => ⟨f.dir.erase n, Dir.wf_erase f.wf n⟩
  | some e => ⟨f.dir.put n e.node, Dir.wf_put f.wf n e.wf⟩

theorem get_eq_some {f : Folder C} {n : Name} {e : Entry C} :
    f.get n = some e ↔ f.dir.find n = some e.node := by
  obtain ⟨x, hx⟩ := e
  simp only [get, Option.pmap_eq_some_iff, Entry.mk.injEq]
  exact ⟨fun ⟨_, _, hfind, hx'⟩ => hx' ▸ hfind, fun hfind => ⟨x, hx, hfind, rfl⟩⟩

theorem get_eq_none {f : Folder C} {n : Name} : f.get n = none ↔ f.dir.find n = none := by
  simp [get]

theorem set_get (f : Folder C) (n : Name) : f.set n (f.get n) = f := by
  cases hget : f.get n with
  | none =>
    have herase := Dir.erase_absent (get_eq_none.mp hget)
    simp only [set, herase]
  | some e =>
    have hput := Dir.put_find (get_eq_some.mp hget)
    simp only [set, hput]

theorem get_set (f : Folder C) (m n : Name) (t : Slot C) :
    (f.set m t).get n = if m = n then t else f.get n := by
  refine Option.ext fun e => ?_
  cases t with
  | none =>
    rw [get_eq_some]
    simp only [set, Dir.find_erase f.wf]
    by_cases hmn : m = n
    · simp [hmn]
    · simp [hmn, get_eq_some]
  | some y =>
    rw [get_eq_some]
    simp only [set, Dir.find_put]
    by_cases hmn : m = n
    · obtain ⟨x, hx⟩ := e
      obtain ⟨y, hy⟩ := y
      simp [hmn]
    · simp [hmn, get_eq_some]

@[simp] theorem get_set_self (f : Folder C) (n : Name) (t : Slot C) : (f.set n t).get n = t := by
  simp [get_set]

theorem get_set_ne (f : Folder C) {m n : Name} (h : m ≠ n) (t : Slot C) :
    (f.set m t).get n = f.get n := by
  simp [get_set, h]

@[simp] theorem get_empty (n : Name) : (empty : Folder C).get n = none := rfl

theorem get_cons {n : Name} {x : Node C} {rest : Dir C} (h : (Dir.cons n x rest).wf = true)
    (m : Name) :
    get ⟨.cons n x rest, h⟩ m =
      if n = m then some ⟨x, (Dir.wf_cons.mp h).2.1⟩ else get ⟨rest, (Dir.wf_cons.mp h).2.2⟩ m := by
  refine Option.ext fun e => ?_
  rw [get_eq_some, Dir.find]
  by_cases hm : n = m
  · obtain ⟨y, hy⟩ := e
    simp [hm]
  · simp [hm, get_eq_some]

theorem cons_absent {n m : Name} {x : Node C} {rest : Dir C}
    (h : (Dir.cons n x rest).wf = true) (hm : get ⟨.cons n x rest, h⟩ m = none) :
    m ≠ n ∧ get ⟨rest, (Dir.wf_cons.mp h).2.2⟩ m = none := by
  rw [get_cons] at hm
  by_cases hmn : n = m
  · simp [hmn] at hm
  · exact ⟨Ne.symm hmn, by simpa [hmn] using hm⟩

theorem dir_eq_nil {f : Folder C} (h : ∀ m, f.get m = none) : f.dir = .nil := by
  obtain ⟨d, hd⟩ := f
  cases d with
  | nil => rfl
  | cons n x rest =>
    have hn := h n
    rw [get_cons, if_pos rfl] at hn
    cases hn

/-- What `iterdir` lists. -/
def children (f : Folder C) : List Name := f.dir.names

theorem get_eq_none_iff {f : Folder C} {n : Name} : f.get n = none ↔ n ∉ f.children := by
  rw [get_eq_none, Dir.find_eq_none_iff, children]

end Folder

def Entry.folder (f : Folder C) : Entry C := ⟨.dir f.dir, f.wf⟩

namespace Slot

def isFile : Slot C → Bool
  | some ⟨.file _, _⟩ => true
  | _ => false

def isLink : Slot C → Bool
  | some ⟨.link _, _⟩ => true
  | _ => false

def isDir : Slot C → Bool
  | some ⟨.dir _, _⟩ => true
  | _ => false

/-- The directory that stands here, or an empty one. -/
def folder : Slot C → Folder C
  | some ⟨.dir d, h⟩ => ⟨d, h⟩
  | _ => .empty

@[simp] theorem folder_some (f : Folder C) : Slot.folder (some (Entry.folder f)) = f := rfl

@[simp] theorem isDir_some (f : Folder C) : Slot.isDir (some (Entry.folder f)) = true := rfl

theorem eq_folder {t : Slot C} (h : t.isDir = true) : t = some (Entry.folder t.folder) := by
  match t, h with
  | some ⟨.dir d, _⟩, _ => rfl

end Slot

/-! ### Views -/

inductive Kind (C : Type) where
  | file (content : C)
  | link (target : String)
  | dir
deriving DecidableEq, Repr

def Node.kind : Node C → Kind C
  | .file c => .file c
  | .link target => .link target
  | .dir _ => .dir

def Node.view : Path → Node C → Option (Kind C)
  | [], x => some x.kind
  | n :: p, .dir d => (d.find n).bind (view p)
  | _ :: _, _ => none

/-- What is found at every path below a name. -/
def Slot.view (t : Slot C) (p : Path) : Option (Kind C) := t.bind fun e => e.node.view p

@[simp] theorem Slot.view_none : Slot.view (none : Slot C) = fun _ => none := rfl

theorem Slot.view_eq_none {t : Slot C} : t.view = Slot.view none ↔ t = none := by
  constructor
  · intro h
    cases t with
    | none => rfl
    | some e => simpa [Slot.view, Node.view] using congrFun h []
  · rintro rfl
    rfl

theorem Slot.view_folder (f : Folder C) (n : Name) (p : Path) :
    Slot.view (some (Entry.folder f)) (n :: p) = (f.get n).view p := by
  simp only [Slot.view, Entry.folder, Option.bind_some, Node.view]
  cases hf : f.get n with
  | none => simp [Folder.get_eq_none.mp hf]
  | some e => simp [Folder.get_eq_some.mp hf]

/-- Two directories look the same exactly when their entries do. -/
theorem Slot.view_folder_ext {f g : Folder C} :
    Slot.view (some (Entry.folder f)) = Slot.view (some (Entry.folder g)) ↔
      ∀ n, (f.get n).view = (g.get n).view := by
  constructor
  · intro h n
    funext p
    rw [← view_folder, ← view_folder, h]
  · intro h
    funext p
    cases p with
    | nil => rfl
    | cons n p => rw [view_folder, view_folder, h n]

/-! ### Elementary steps -/

inductive OsError where
  | notFound
  | fileExists
  | isADirectory
  | notADirectory
  | directoryNotEmpty
  | inputOutput
deriving DecidableEq, Repr

/-- What a program raises: an error of the system, or its own with a message. -/
inductive Exn where
  | os (error : OsError)
  | message (text : String)
deriving DecidableEq, Repr

/-- What files hold.  A new or truncated file is `blank`; while `c` is being
written to it, it holds each of `torn c` in turn. -/
class Contents (C : Type) where
  blank : C
  torn : C → List C

def Entry.file (c : C) : Entry C := ⟨.file c, rfl⟩

def Entry.link (target : String) : Entry C := ⟨.link target, rfl⟩

def unlink (missingOk : Bool) : Slot C → Except Exn (Slot C)
  | none => if missingOk then .ok none else .error (.os .notFound)
  | some ⟨.dir _, _⟩ => .error (.os .isADirectory)
  | some _ => .ok none

theorem unlink_ok {missingOk : Bool} {t t' : Slot C} (h : unlink missingOk t = .ok t') :
    t' = none := by
  match t, h with
  | none, h =>
    cases missingOk <;> cases h
    rfl
  | some ⟨.file _, _⟩, h =>
    cases h
    rfl
  | some ⟨.link _, _⟩, h =>
    cases h
    rfl

def rmdir : Slot C → Except Exn (Slot C)
  | none => .error (.os .notFound)
  | some ⟨.dir .nil, _⟩ => .ok none
  | some ⟨.dir (.cons ..), _⟩ => .error (.os .directoryNotEmpty)
  | some _ => .error (.os .notADirectory)

def mkdir : Slot C → Except Exn (Slot C)
  | none => .ok (some (Entry.folder .empty))
  | some _ => .error (.os .fileExists)

def symlink (target : String) : Slot C → Except Exn (Slot C)
  | none => .ok (some (Entry.link target))
  | some _ => .error (.os .fileExists)

/-- `open(.., "xb")`. -/
def openNew [Contents C] : Slot C → Except Exn (Slot C)
  | none => .ok (some (Entry.file Contents.blank))
  | some _ => .error (.os .fileExists)

/-- `open(.., "wb")`; no program here opens a link. -/
def openTruncated [Contents C] : Slot C → Except Exn (Slot C)
  | none => .ok (some (Entry.file Contents.blank))
  | some ⟨.file _, _⟩ => .ok (some (Entry.file Contents.blank))
  | some ⟨.dir _, _⟩ => .error (.os .isADirectory)
  | some ⟨.link _, _⟩ => .error (.os .notFound)

/-- The open file now holds `c`. -/
def hold (c : C) : Slot C → Except Exn (Slot C)
  | some ⟨.file _, _⟩ => .ok (some (Entry.file c))
  | _ => .error (.os .notFound)

/-- A step that leaves the names and contents alone: `fsync`, `chown`, `copystat`. -/
def touch : Slot C → Except Exn (Slot C)
  | none => .error (.os .notFound)
  | some e => .ok (some e)

/-! ### Parts of a tree -/

/-- The slot of the name `n` in a directory. -/
def slotOf (n : Name) : Focus (Folder C) (Slot C) where
  get f := f.get n
  set f t := f.set n t
  frame f f' := ∀ m, m ≠ n → f'.get m = f.get m
  get_set f t := f.get_set_self n t
  frame_refl _ _ _ := rfl
  frame_set t h m hm := by rw [Folder.get_set_ne _ (Ne.symm hm), h m hm]

/-- The directory that stands in a slot.  Programs enter it after they have made
it or have seen that it is one. -/
def inside : Focus (Slot C) (Folder C) where
  get t := t.folder
  set _ f := some (Entry.folder f)
  frame t t' := t.isDir = true → t'.isDir = true
  get_set _ f := Slot.folder_some f
  frame_refl _ h := h
  frame_set f _ _ := Slot.isDir_some f

/-! ### Removing a tree -/

mutual

/-- `os.unlink`, or the recursion of `shutil.rmtree` on what it has listed. -/
def removeNode : Node C → Prog (Slot C) Exn Unit
  | .file _ => .perform (unlink false)
  | .link _ => .perform (unlink false)
  | .dir d => do
    (removeEntries d).zoom inside
    .perform rmdir

def removeEntries : Dir C → Prog (Folder C) Exn Unit
  | .nil => pure ()
  | .cons n x rest => do
    (removeNode x).zoom (slotOf n)
    removeEntries rest

end

/-- What a removal that is cut short leaves: a directory stays one, and nothing
stands in it where nothing stood. -/
def Slot.Shrunk (t t' : Slot C) : Prop :=
  (t.isDir = true → t'.isDir = true) ∧ ∀ m, t.folder.get m = none → t'.folder.get m = none

theorem Slot.Shrunk.refl (t : Slot C) : t.Shrunk t := ⟨id, fun _ h => h⟩

mutual

theorem wp_removeNode {T : Terms (Slot C) Empty} (hT : T.Free) :
    ∀ (x : Node C) (hx : x.wf = true),
      wp T (removeNode x) (.orCut (fun _ t => t = none) (Slot.Shrunk (some ⟨x, hx⟩)))
        (some ⟨x, hx⟩)
  | .file _, _ => wp_perform_orCut rfl (hT _ _) rfl (.refl _)
  | .link _, _ => wp_perform_orCut rfl (hT _ _) rfl (.refl _)
  | .dir d, hx => by
    refine wp_seq
      (wp_zoom_orCut inside T (wp_removeEntries (hT.through _ _) d hx ⟨d, hx⟩ fun _ => rfl))
      (fun _ t ht => ?_) fun t ht => ⟨ht.1, ht.2⟩
    -- the directory is still there, and empty
    have hrmdir : rmdir t = .ok none := by
      rw [Slot.eq_folder (ht.1 rfl)]
      simp [Entry.folder, rmdir, Folder.dir_eq_nil (f := t.folder) ht.2]
    exact wp_perform_orCut hrmdir (hT _ _) rfl ⟨ht.1, fun m _ => ht.2 m⟩

/-- The directory may list its entries in another order than the one they are
removed in. -/
theorem wp_removeEntries {T : Terms (Folder C) Empty} (hT : T.Free) :
    ∀ (d : Dir C) (hd : d.wf = true) (f : Folder C), (∀ m, f.get m = Folder.get ⟨d, hd⟩ m) →
      wp T (removeEntries d) (.orCut (fun _ f' => ∀ m, f'.get m = none)
        fun f' => ∀ m, f.get m = none → f'.get m = none) f
  | .nil, _, _, hf => hf
  | .cons n x rest, hd, f, hf => by
    have hget : f.get n = some ⟨x, (Dir.wf_cons.mp hd).2.1⟩ := by
      rw [hf, Folder.get_cons, if_pos rfl]
    have hnode := wp_removeNode (T := T.through (slotOf n) f) (hT.through _ _) x
      (Dir.wf_cons.mp hd).2.1
    rw [← hget] at hnode
    have hne : ∀ m, f.get m = none → m ≠ n := by
      rintro m hm rfl
      rw [hget] at hm
      cases hm
    refine wp_seq (wp_zoom_orCut (slotOf n) T hnode) (fun _ f' hf' => ?_)
      fun f' hf' m hm => (hf'.1 m (hne m hm)).trans hm
    refine wp_mono (wp_removeEntries hT rest (Dir.wf_cons.mp hd).2.2 f' fun m => ?_)
      (Post.orCut_le (fun _ _ h => h) fun f'' hf'' m hm => hf'' m ?_)
    · by_cases hm : m = n
      · subst hm
        rw [show f'.get m = none from hf'.2, eq_comm, Folder.get_eq_none, Dir.find_eq_none_iff]
        exact (Dir.wf_cons.mp hd).1
      · rw [hf'.1 m hm, hf, Folder.get_cons, if_neg (Ne.symm hm)]
    · exact (hf'.1 m (hne m hm)).trans hm

end

end

end FileTree
