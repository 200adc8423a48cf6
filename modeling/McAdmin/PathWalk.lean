import Mathlib.Data.List.Induction
import McAdmin.RestoreWorker

/-!
# Paths as the system follows them

A path is a text of names between slashes.  It is followed from a directory, one name
after the other: `.` stays, `..` goes back up, a link goes on at its target.
-/

namespace PathWalk

open FileTree
open RestoreWorker (segments)

variable {C : Type}

/-! ### Segments -/

theorem segments_mem {cs s : List Char} (hs : s ∈ segments cs) {c : Char} (hc : c ∈ s) :
    c ∈ cs ∧ c ≠ '/' := by
  induction cs generalizing s with
  | nil =>
    rw [segments, List.mem_singleton] at hs
    subst hs
    cases hc
  | cons d cs ih =>
    simp only [segments] at hs
    by_cases hd : d = '/'
    · rw [if_pos hd] at hs
      rcases List.mem_cons.mp hs with rfl | hs
      · cases hc
      · exact (ih hs hc).imp_left (List.mem_cons_of_mem _)
    · rw [if_neg hd] at hs
      cases hsegments : segments cs with
      | nil =>
        rw [hsegments, List.mem_singleton] at hs
        subst hs
        rw [List.mem_singleton.mp hc]
        exact ⟨List.mem_cons_self, hd⟩
      | cons first rest =>
        rw [hsegments] at hs ih
        rcases List.mem_cons.mp hs with rfl | hs
        · rcases List.mem_cons.mp hc with rfl | hc
          · exact ⟨List.mem_cons_self, hd⟩
          · exact (ih List.mem_cons_self hc).imp_left (List.mem_cons_of_mem _)
        · exact (ih (List.mem_cons_of_mem _ hs) hc).imp_left (List.mem_cons_of_mem _)

/-! ### Following -/

def components (path : String) : List Name := (segments path.toList).map String.ofList

def isAbsolute (path : String) : Bool := path.toList.head? = some '/'

/-- Why a name is not found under what has been reached. -/
def absence (fs : Slot C) (reached : Path) : OsError :=
  match fs.view reached with
  | some .dir => .notFound
  | _ => .notADirectory

/-- Follow the names from a directory that has been reached; `follow` goes on after a link. -/
def walkFrom (fs : Slot C) (follow : Path → List Name → Except Exn Path) :
    Path → List Name → Except Exn Path
  | reached, [] => .ok reached
  | reached, name :: rest =>
    if name = "" ∨ name = "." then walkFrom fs follow reached rest
    else if name = ".." then walkFrom fs follow reached.dropLast rest
    else if '\x00' ∈ name.toList then .error (.message "embedded null byte")
    else match fs.view (reached ++ [name]) with
      | some (.link target) =>
        follow (if isAbsolute target then [] else reached) (components target ++ rest)
      | some _ => walkFrom fs follow (reached ++ [name]) rest
      | none => .error (.os (absence fs reached))

/-- Follow the names through so many links at most. -/
def walk (fs : Slot C) : Nat → Path → List Name → Except Exn Path
  | 0 => walkFrom fs fun _ _ => .error (.message "Too many levels of symbolic links")
  | links + 1 => walkFrom fs (walk fs links)

/-- What one name does on the way: it leads on, or to the names of a link, or nowhere. -/
inductive Turn where
  | step (next : Path)
  | link (next : Path) (names : List Name)
  | stuck (e : Exn)

def turn (fs : Slot C) (reached : Path) (name : Name) : Turn :=
  if name = "" ∨ name = "." then .step reached
  else if name = ".." then .step reached.dropLast
  else if '\x00' ∈ name.toList then .stuck (.message "embedded null byte")
  else match fs.view (reached ++ [name]) with
    | some (.link target) =>
      .link (if isAbsolute target then [] else reached) (components target)
    | some _ => .step (reached ++ [name])
    | none => .stuck (.os (absence fs reached))

def Turn.go (fs : Slot C) (follow : Path → List Name → Except Exn Path) (rest : List Name) :
    Turn → Except Exn Path
  | .step next => walkFrom fs follow next rest
  | .link next names => follow next (names ++ rest)
  | .stuck e => .error e

theorem walkFrom_cons (fs : Slot C) (follow : Path → List Name → Except Exn Path)
    (reached : Path) (name : Name) (rest : List Name) :
    walkFrom fs follow reached (name :: rest) = (turn fs reached name).go fs follow rest := by
  unfold walkFrom turn
  split
  · rfl
  split
  · rfl
  split
  · rfl
  cases fs.view (reached ++ [name]) with
  | none => rfl
  | some kind => cases kind <;> rfl

/-- A name that stands for an entry of its directory. -/
def Plain (name : Name) : Prop :=
  name ≠ "" ∧ name ≠ "." ∧ name ≠ ".." ∧ '\x00' ∉ name.toList

instance (name : Name) : Decidable (Plain name) := inferInstanceAs (Decidable (_ ∧ _ ∧ _ ∧ _))

section

variable {fs : Slot C} {links : Nat} {reached names : Path}

theorem walk_nil : walk fs links reached [] = .ok reached := by
  cases links <;> rfl

/-- One plain name, where no link stands. -/
theorem walk_cons {name : Name} (hplain : Plain name)
    (hlink : ∀ target, fs.view (reached ++ [name]) ≠ some (.link target)) :
    walk fs links reached (name :: names) =
      if fs.view (reached ++ [name]) = none then
        .error (.os (absence fs reached))
      else walk fs links (reached ++ [name]) names := by
  have hfrom : ∀ follow, walkFrom fs follow reached (name :: names) =
      if fs.view (reached ++ [name]) = none then
        .error (.os (absence fs reached))
      else walkFrom fs follow (reached ++ [name]) names := by
    intro follow
    rw [walkFrom, if_neg (not_or.mpr ⟨hplain.1, hplain.2.1⟩), if_neg hplain.2.2.1,
      if_neg hplain.2.2.2]
    cases hview : fs.view (reached ++ [name]) with
    | none => rfl
    | some kind =>
      cases kind with
      | link target => exact absurd hview (hlink target)
      | file c => rfl
      | dir => rfl
  cases links with
  | zero => exact hfrom _
  | succ links => exact hfrom _

/-- Plain names that meet no link lead where they say, or to the first one that is missing. -/
theorem walk_plain (links : Nat) (reached : Path) (hplain : ∀ name ∈ names, Plain name)
    (hlink : ∀ r, r <+: names → ∀ target, r ≠ [] → fs.view (reached ++ r) ≠ some (.link target)) :
    walk fs links reached names = .ok (reached ++ names) ∨
      ∃ up name rest, names = up ++ name :: rest ∧ fs.view (reached ++ up ++ [name]) = none ∧
        (up ≠ [] → fs.view (reached ++ up) ≠ none) ∧
        walk fs links reached names = .error (.os (absence fs (reached ++ up))) := by
  induction names generalizing reached with
  | nil => exact .inl (by rw [walk_nil, List.append_nil])
  | cons name names ih =>
    have hfirst : ∀ target, fs.view (reached ++ [name]) ≠ some (.link target) :=
      fun target => hlink [name] (by simp) target (by simp)
    rw [walk_cons (hplain name List.mem_cons_self) hfirst]
    by_cases hnone : fs.view (reached ++ [name]) = none
    · rw [if_pos hnone]
      exact .inr ⟨[], name, names, rfl, by simpa using hnone, fun h => absurd rfl h, by simp⟩
    · rw [if_neg hnone]
      have hrest := ih (reached ++ [name])
        (fun name hname => hplain name (List.mem_cons_of_mem _ hname))
        (fun r hr target _ => by
          have hnext := hlink (name :: r) (List.cons_prefix_cons.mpr ⟨rfl, hr⟩) target (by simp)
          simpa using hnext)
      rcases hrest with hok | ⟨up, missing, rest, rfl, hmissing, hup, herror⟩
      · exact .inl (by simpa using hok)
      · refine .inr ⟨name :: up, missing, rest, rfl, by simpa using hmissing, fun _ => ?_,
          by simpa using herror⟩
        cases up with
        | nil => simpa using hnone
        | cons m up => simpa using hup (by simp)

/-! ### What a path leads to -/

/-- More links to follow do not change where a path leads. -/
theorem walkFrom_mono {follow follow' : Path → List Name → Except Exn Path} {p : Path}
    (hfollow : ∀ r ns, follow r ns = .ok p → follow' r ns = .ok p)
    (h : walkFrom fs follow reached names = .ok p) : walkFrom fs follow' reached names = .ok p := by
  induction names generalizing reached with
  | nil => exact h
  | cons name rest ih =>
    rw [walkFrom_cons] at h ⊢
    cases hturn : turn fs reached name with
    | step next =>
      rw [hturn] at h
      exact ih h
    | link next names =>
      rw [hturn] at h
      exact hfollow _ _ h
    | stuck e =>
      rw [hturn] at h
      cases h

theorem walk_succ {p : Path} (h : walk fs links reached names = .ok p) :
    walk fs (links + 1) reached names = .ok p := by
  induction links generalizing reached names with
  | zero => exact walkFrom_mono (fun _ _ h => by cases h) h
  | succ links ih => exact walkFrom_mono (fun _ _ h => ih h) h

theorem walk_mono {links' : Nat} {p : Path} (hle : links ≤ links')
    (h : walk fs links reached names = .ok p) : walk fs links' reached names = .ok p := by
  induction hle with
  | refl => exact h
  | step _ ih => exact walk_succ ih

theorem walk_unique {links' : Nat} {p q : Path} (h : walk fs links reached names = .ok p)
    (h' : walk fs links' reached names = .ok q) : p = q := by
  have hp := walk_mono (Nat.le_max_left links links') h
  have hq := walk_mono (Nat.le_max_right links links') h'
  rw [hp] at hq
  exact Except.ok.inj hq

/-- A path that has been followed: its names are entries, and none of them is a link. -/
structure Canonical (fs : Slot C) (p : Path) : Prop where
  plain : ∀ name ∈ p, Plain name
  present : ∀ q, q <+: p → q ≠ [] → fs.view q ≠ none
  linkless : ∀ q, q <+: p → q ≠ [] → ∀ target, fs.view q ≠ some (.link target)

theorem Canonical.nil : Canonical fs [] :=
  ⟨by simp, fun _ hq hne => absurd (List.prefix_nil.mp hq) hne,
    fun _ hq hne => absurd (List.prefix_nil.mp hq) hne⟩

theorem Canonical.above {p q : Path} (h : Canonical fs p) (hq : q <+: p) : Canonical fs q :=
  ⟨fun name hname => h.plain name (hq.subset hname), fun r hr => h.present r (hr.trans hq),
    fun r hr => h.linkless r (hr.trans hq)⟩

theorem Canonical.concat {name : Name} (h : Canonical fs reached) (hplain : Plain name)
    (hpresent : fs.view (reached ++ [name]) ≠ none)
    (hlinkless : ∀ target, fs.view (reached ++ [name]) ≠ some (.link target)) :
    Canonical fs (reached ++ [name]) := by
  refine ⟨List.forall_mem_append.mpr ⟨h.plain, by simpa using hplain⟩, fun q hq hne => ?_,
    fun q hq hne => ?_⟩
  · rcases List.prefix_concat_iff.mp hq with rfl | hq
    · exact hpresent
    · exact h.present q hq hne
  · rcases List.prefix_concat_iff.mp hq with rfl | hq
    · exact hlinkless
    · exact h.linkless q hq hne

/-- A name leads from a followed path to a followed path. -/
theorem Canonical.turn {name : Name} (h : Canonical fs reached) {next : Path}
    (hturn : turn fs reached name = .step next ∨
      ∃ names, turn fs reached name = .link next names) : Canonical fs next := by
  unfold PathWalk.turn at hturn
  split at hturn
  · rcases hturn with hturn | ⟨_, hturn⟩ <;> cases hturn
    exact h
  rename_i hstay
  split at hturn
  · rcases hturn with hturn | ⟨_, hturn⟩ <;> cases hturn
    exact h.above (List.dropLast_prefix _)
  rename_i hup
  split at hturn
  · rcases hturn with hturn | ⟨_, hturn⟩ <;> cases hturn
  rename_i hwhole
  have hplain : Plain name :=
    ⟨fun heq => hstay (.inl heq), fun heq => hstay (.inr heq), hup, hwhole⟩
  cases hview : fs.view (reached ++ [name]) with
  | none =>
    rw [hview] at hturn
    rcases hturn with hturn | ⟨_, hturn⟩ <;> cases hturn
  | some kind =>
    rw [hview] at hturn
    cases kind with
    | link target =>
      rcases hturn with hturn | ⟨_, hturn⟩ <;> cases hturn
      split
      · exact .nil
      · exact h
    | file c | dir =>
      rcases hturn with hturn | ⟨_, hturn⟩ <;> cases hturn
      exact h.concat hplain (by rw [hview]; nofun) (by rw [hview]; nofun)

theorem walkFrom_canonical {follow : Path → List Name → Except Exn Path} {p : Path}
    (hfollow : ∀ r ns, Canonical fs r → follow r ns = .ok p → Canonical fs p)
    (hreached : Canonical fs reached) (h : walkFrom fs follow reached names = .ok p) :
    Canonical fs p := by
  induction names generalizing reached with
  | nil =>
    cases h
    exact hreached
  | cons name rest ih =>
    rw [walkFrom_cons] at h
    cases hturn : turn fs reached name with
    | step next =>
      rw [hturn] at h
      exact ih (hreached.turn (.inl hturn)) h
    | link next names =>
      rw [hturn] at h
      exact hfollow _ _ (hreached.turn (.inr ⟨names, hturn⟩)) h
    | stuck e =>
      rw [hturn] at h
      cases h

theorem walk_canonical {p : Path} (hreached : Canonical fs reached)
    (h : walk fs links reached names = .ok p) : Canonical fs p := by
  induction links generalizing reached names with
  | zero => exact walkFrom_canonical (fun _ _ _ h => by cases h) hreached h
  | succ links ih => exact walkFrom_canonical (fun _ _ hr h => ih hr h) hreached h

/-- A canonical path leads where it says. -/
theorem Canonical.walk_append {p : Path} (h : Canonical fs p) (links : Nat) (names : List Name) :
    walk fs links [] (p ++ names) = walk fs links p names := by
  induction p using List.reverseRecOn generalizing names with
  | nil => rfl
  | append_singleton p name ih =>
    have hself := List.prefix_refl (p ++ [name])
    rw [List.append_assoc, ih (h.above (List.prefix_append _ _)), List.singleton_append,
      walk_cons (h.plain name (by simp)) (h.linkless _ hself (by simp)),
      if_neg (h.present _ hself (by simp))]

theorem walkFrom_append {follow : Path → List Name → Except Exn Path} {K : Path → Prop}
    {a b : List Name} {p : Path}
    (hfollow : ∀ r ns, follow r (ns ++ b) = .ok p → ∃ d, follow r ns = .ok d ∧ K d)
    (hend : ∀ d, walkFrom fs follow d b = .ok p → K d)
    (h : walkFrom fs follow reached (a ++ b) = .ok p) :
    ∃ d, walkFrom fs follow reached a = .ok d ∧ K d := by
  induction a generalizing reached with
  | nil => exact ⟨reached, rfl, hend reached h⟩
  | cons name rest ih =>
    rw [List.cons_append, walkFrom_cons] at h
    rw [walkFrom_cons]
    cases hturn : turn fs reached name with
    | step next =>
      rw [hturn] at h
      exact ih h
    | link next names =>
      rw [hturn] at h
      rw [Turn.go, ← List.append_assoc] at h
      exact hfollow _ _ h
    | stuck e =>
      rw [hturn] at h
      cases h

/-- A path is followed through each of its parts. -/
theorem walk_append {a b : List Name} {p : Path}
    (h : walk fs links reached (a ++ b) = .ok p) :
    ∃ d, walk fs links reached a = .ok d ∧ walk fs links d b = .ok p := by
  induction links generalizing reached a with
  | zero => exact walkFrom_append (fun _ _ h => by cases h) (fun _ h => h) h
  | succ links ih =>
    refine walkFrom_append (fun r ns h => ?_) (fun _ h => h) h
    rcases ih h with ⟨d, hd, hp⟩
    exact ⟨d, hd, walk_succ hp⟩

theorem walkFrom_concat {follow follow' : Path → List Name → Except Exn Path}
    {a b : List Name} {d p : Path}
    (hfollow : ∀ r ns, follow r ns = .ok d → follow' r (ns ++ b) = .ok p)
    (hend : walkFrom fs follow' d b = .ok p) (h : walkFrom fs follow reached a = .ok d) :
    walkFrom fs follow' reached (a ++ b) = .ok p := by
  induction a generalizing reached with
  | nil =>
    cases h
    exact hend
  | cons name rest ih =>
    rw [walkFrom_cons] at h
    rw [List.cons_append, walkFrom_cons]
    cases hturn : turn fs reached name with
    | step next =>
      rw [hturn] at h
      exact ih h
    | link next names =>
      rw [hturn] at h
      rw [Turn.go, ← List.append_assoc]
      exact hfollow _ _ h
    | stuck e =>
      rw [hturn] at h
      cases h

theorem walk_concat {links' : Nat} {a b : List Name} {d p : Path}
    (h : walk fs links reached a = .ok d) (h' : walk fs links' d b = .ok p) :
    walk fs (links + links') reached (a ++ b) = .ok p := by
  induction links generalizing reached a with
  | zero =>
    rw [Nat.zero_add]
    cases links' with
    | zero => exact walkFrom_concat (fun _ _ h => by cases h) h' h
    | succ links' => exact walkFrom_concat (fun _ _ h => by cases h) h' h
  | succ links ih =>
    have hlast : walk fs (links + links' + 1) d b = .ok p := walk_mono (by omega) h'
    rw [Nat.add_right_comm]
    exact walkFrom_concat (fun r ns h => ih h) hlast h

/-! ### A tree of which less is left -/

theorem turn_of_less {fs' : Slot C} {name : Name}
    (hless : ∀ q kind, fs'.view q = some kind → fs.view q = some kind)
    (hturn : ∀ e, turn fs' reached name ≠ .stuck e) :
    turn fs reached name = turn fs' reached name := by
  unfold turn at hturn ⊢
  split
  · rfl
  rename_i hstay
  split
  · rfl
  rename_i hup
  split
  · rfl
  rename_i hwhole
  rw [if_neg hstay, if_neg hup, if_neg hwhole] at hturn
  cases hview : fs'.view (reached ++ [name]) with
  | none =>
    rw [hview] at hturn
    exact absurd rfl (hturn _)
  | some kind =>
    rw [hless _ kind hview]
    cases kind <;> rfl

theorem walkFrom_of_less {fs' : Slot C} {follow follow' : Path → List Name → Except Exn Path}
    {p : Path} (hless : ∀ q kind, fs'.view q = some kind → fs.view q = some kind)
    (hfollow : ∀ r ns, follow' r ns = .ok p → follow r ns = .ok p)
    (h : walkFrom fs' follow' reached names = .ok p) :
    walkFrom fs follow reached names = .ok p := by
  induction names generalizing reached with
  | nil => exact h
  | cons name rest ih =>
    rw [walkFrom_cons] at h ⊢
    cases hturn : turn fs' reached name with
    | step next =>
      rw [hturn] at h
      rw [turn_of_less hless (by rw [hturn]; nofun), hturn]
      exact ih h
    | link next names =>
      rw [hturn] at h
      rw [turn_of_less hless (by rw [hturn]; nofun), hturn]
      exact hfollow _ _ h
    | stuck e =>
      rw [hturn] at h
      cases h

/-- What a path leads to in a part of the tree, it leads to in the whole. -/
theorem walk_of_less {fs' : Slot C} {p : Path}
    (hless : ∀ q kind, fs'.view q = some kind → fs.view q = some kind)
    (h : walk fs' links reached names = .ok p) : walk fs links reached names = .ok p := by
  induction links generalizing reached names with
  | zero => exact walkFrom_of_less hless (fun _ _ h => by cases h) h
  | succ links ih => exact walkFrom_of_less hless (fun _ _ h => ih h) h

end

end PathWalk
