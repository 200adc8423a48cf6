import Mathlib.Data.List.Nodup
import Mathlib.Data.List.Perm.Subperm
import McAdmin.BackupProfiles
import McAdmin.Pattern

/-!
# The store of backup profiles

The calls of `JsonBackupProfiles`, and what the service writes with them.  Each call is made
under the lock of the file, so it is one step; the strict reading behind every write refuses
a file that has an id twice.
-/

namespace ProfileStore

open Backtracking
open BackupProfiles (Time DailyAt Site profileDue)

structure Profile extends BackupProfiles.BackupProfile where
  retentionDailyDays : ℕ := 0
  retentionMonthlyMonths : ℕ := 0
deriving DecidableEq

abbrev Store := List Profile

def ids (store : Store) : List String := store.map (·.id)

/-! ### The port -/

def getProfile (store : Store) (id : String) : Option Profile := store.find? (·.id = id)

def upsert (profile : Profile) : Store → Store
  | [] => [profile]
  | p :: store => if p.id = profile.id then profile :: store else p :: upsert profile store

/-- `none` when the profile is not there. -/
def delete (id : String) (store : Store) : Option Store :=
  let kept := store.filter (·.id ≠ id)
  if kept.length = store.length then none else some kept

def stamped (at' : Time) (p : Profile) : Profile := { p with lastRun := some at' }

def markRun (id : String) (at' : Time) : Store → Store
  | [] => []
  | p :: store => if p.id = id then stamped at' p :: store else p :: markRun id at' store

/-! ### The identifier of a new profile -/

def isSlugChar (c : Char) : Bool :=
  ('a' ≤ c && c ≤ 'z') || ('0' ≤ c && c ≤ '9') || c == '-'

/-- `_SLUG_RE.sub("-", ...)`, inside or outside of a run. -/
def slugSub : Bool → Text → Text
  | _, [] => []
  | inRun, c :: t =>
    if isSlugChar c then c :: slugSub false t
    else if inRun then slugSub true t
    else '-' :: slugSub true t

def slugify (u : CharTable) (name : Text) : String :=
  let slug := slugSub false (u.strip (u.lower name))
  let slug := (slug.dropWhile (· = '-')).rdropWhile (· = '-')
  let slug := slug.take 32
  if slug = [] then "profil" else String.ofList slug

def candidate (base : String) : ℕ → String
  | 0 => base
  | n + 1 => base ++ "-" ++ toString (n + 2)

/-- The `while` of the search, for at most so many slugs. -/
def search (existing : List String) (base : String) : ℕ → ℕ → String
  | 0, n => candidate base n
  | most + 1, n =>
    if candidate base n ∈ existing then search existing base most (n + 1) else candidate base n

def freshSlug (existing : List String) (base : String) : String :=
  search existing base (existing.length + 1) 0

/-! ### The edits of the service -/

structure Form where
  name : Text
  included : List String
  hours : Rat := 0
  /-- The time of day as `_validate_profile_schedule` parses it, `some none` when it refuses. -/
  dailyAt : Option (Option DailyAt) := none
  retentionDailyDays : ℤ := 0
  retentionMonthlyMonths : ℤ := 0
deriving DecidableEq

def profileHoursAllowed : List Rat := [0, 6, 12, 24, 48]

def profileCategories : List String := ["world", "mods", "mods_jars", "config", "admin", "all"]

def validateProfileSchedule (form : Form) : Option (Rat × Option DailyAt) :=
  match form.dailyAt with
  | some none => none
  | some (some dailyAt) => some (0, some dailyAt)
  | none => if form.hours ∈ profileHoursAllowed then some (form.hours, none) else none

/-- `name.strip()[:40]` -/
def cleanName (u : CharTable) (form : Form) : Text := (u.strip form.name).take 40

def cleanIncluded (form : Form) : List String := form.included.filter (· ∈ profileCategories)

def Form.apply (form : Form) (name : String) (included : List String)
    (schedule : Rat × Option DailyAt) (base : Profile) : Profile :=
  { base with
    name := name
    included := included
    hours := schedule.1
    dailyAt := schedule.2
    retentionDailyDays := form.retentionDailyDays.toNat
    retentionMonthlyMonths := form.retentionMonthlyMonths.toNat }

inductive Edit where
  | create (form : Form)
  | update (id : String) (form : Form)
  | toggle (id : String) (enabled : Bool)
deriving DecidableEq

def blank (slug : String) : Profile where
  id := slug
  name := ""
  included := []
  dest := "profiles/" ++ slug

/-- What an edit reads and builds upon: a new identifier, or the profile as it is. -/
def Edit.look (u : CharTable) : Edit → Store → Option Profile
  | .create form, store =>
    let slug := slugify u (cleanName u form)
    some (blank (freshSlug (ids store) slug))
  | .update id _, store => getProfile store id
  | .toggle id _, store => getProfile store id

/-- What it writes, `none` when the form is refused. -/
def Edit.build (u : CharTable) : Edit → Profile → Option Profile
  | .create form, base =>
    let name := cleanName u form
    let included := cleanIncluded form
    if name = [] ∨ included = [] then none
    else (validateProfileSchedule form).map fun schedule =>
      form.apply (String.ofList name) included schedule base
  | .update _ form, base =>
    let name := cleanName u form
    let included := cleanIncluded form
    (validateProfileSchedule form).map fun schedule =>
      form.apply (if name = [] then base.name else String.ofList name)
        (if included = [] then base.included else included) schedule base
  | .toggle _ enabled, base => some { base with enabled := enabled }

/-! ### The tick -/

/-- The profiles a tick marks as run; a time of day it cannot read ends it. -/
def dueIds (site : Site) (now : Time) : List Profile → List String
  | [] => []
  | p :: rest =>
    if p.enabled = false then dueIds site now rest
    else match profileDue site p.toBackupProfile now with
    | .no => dueIds site now rest
    | .raises => []
    | .yes => p.id :: dueIds site now rest
    | .starts => p.id :: dueIds site now rest

def markAll (now : Time) (due : List String) (store : Store) : Store :=
  due.foldl (fun store id => markRun id now store) store

/-! ### The operations, one at a time -/

inductive Operation where
  | edit (edit : Edit)
  | delete (id : String)
  | tick (now : Time)
deriving DecidableEq

/-- `none` when the operation is refused. -/
def Operation.apply (u : CharTable) (site : Site) : Operation → Store → Option Store
  | .edit e, store => do
    let base ← e.look u store
    let profile ← e.build u base
    return upsert profile store
  | .delete id, store => ProfileStore.delete id store
  | .tick now, store => some (markAll now (dueIds site now store) store)

def sequential (u : CharTable) (site : Site) (order : List Operation) (store : Store) :
    Option Store :=
  order.foldlM (fun store operation => operation.apply u site store) store

/-! ### Orders -/

theorem sequential_snoc {u : CharTable} {site : Site} {order : List Operation}
    {store store' : Store} (h : sequential u site order store = some store')
    (operation : Operation) :
    sequential u site (order ++ [operation]) store = operation.apply u site store' := by
  simp only [sequential, List.foldlM_append, List.foldlM_cons, List.foldlM_nil] at h ⊢
  rw [h]
  simp

/-! ### A new identifier is new -/

theorem candidate_injective (base : String) : Function.Injective (candidate base) := by
  intro m n h
  cases m with
  | zero =>
    cases n with
    | zero => rfl
    | succ n =>
      have hlength := congrArg String.length h
      simp only [candidate, String.length_append] at hlength
      have hdash : "-".length = 1 := rfl
      omega
  | succ m =>
    cases n with
    | zero =>
      have hlength := congrArg String.length h
      simp only [candidate, String.length_append] at hlength
      have hdash : "-".length = 1 := rfl
      omega
    | succ n =>
      simp only [candidate, String.append_right_inj] at h
      have hdigits : (m + 2).repr = (n + 2).repr := h
      have hnumber := congrArg (fun digits => Nat.ofDigitChars 10 digits.toList 0) hdigits
      simp only [Nat.toList_repr, Nat.ofDigitChars_ten_toDigits] at hnumber
      omega

theorem search_notMem {existing : List String} {base : String} {most n : ℕ}
    (h : ∃ k < most, candidate base (n + k) ∉ existing) :
    search existing base most n ∉ existing := by
  induction most generalizing n with
  | zero =>
    rcases h with ⟨k, hk, _⟩
    exact absurd hk (Nat.not_lt_zero k)
  | succ most ih =>
    simp only [search]
    split
    · rename_i htaken
      apply ih
      rcases h with ⟨k, hk, hfree⟩
      cases k with
      | zero => exact absurd htaken hfree
      | succ k => exact ⟨k, Nat.lt_of_succ_lt_succ hk, by rwa [Nat.add_right_comm, Nat.add_assoc]⟩
    · assumption

theorem freshSlug_notMem (existing : List String) (base : String) :
    freshSlug existing base ∉ existing := by
  apply search_notMem
  by_contra hnone
  push Not at hnone
  let tried := (List.range (existing.length + 1)).map (candidate base)
  have hnodup : tried.Nodup := List.nodup_range.map (candidate_injective base)
  have hsubset : tried ⊆ existing := by
    intro slug hslug
    rcases List.mem_map.mp hslug with ⟨k, hk, rfl⟩
    have hmem := hnone k (List.mem_range.mp hk)
    rwa [Nat.zero_add] at hmem
  have hlength := (hnodup.subperm hsubset).length_le
  simp only [tried, List.length_map, List.length_range] at hlength
  omega

/-! ### Calls of the store -/

section

variable {store : Store} {p : Profile} {id id' : String} {now : Time}

theorem getProfile_id (h : getProfile store id = some p) : p.id = id := by
  have hfound := List.find?_some h
  exact of_decide_eq_true hfound

theorem mem_of_getProfile (h : getProfile store id = some p) : p ∈ store := List.mem_of_find?_eq_some h

theorem getProfile_eq_none : getProfile store id = none ↔ id ∉ ids store := by
  simp [getProfile, ids]

theorem getProfile_isSome : (getProfile store id).isSome = true ↔ id ∈ ids store := by
  rw [← not_iff_not, Bool.not_eq_true, Option.isSome_eq_false_iff, Option.isNone_iff_eq_none,
    getProfile_eq_none]

theorem getProfile_upsert (profile : Profile) (store : Store) (id : String) :
    getProfile (upsert profile store) id =
      if profile.id = id then some profile else getProfile store id := by
  induction store with
  | nil => simp [upsert, getProfile]
  | cons p store ih =>
    simp only [upsert]
    split
    · rename_i hp
      simp only [getProfile, List.find?_cons, hp]
      by_cases hid : profile.id = id
      · simp [hid]
      · simp [hid]
    · rename_i hp
      simp only [getProfile, List.find?_cons] at ih ⊢
      by_cases hid : p.id = id
      · have hne : profile.id ≠ id := fun heq => hp (hid.trans heq.symm)
        simp [hid, hne]
      · simp only [hid, decide_false]
        exact ih

theorem ids_cons (p : Profile) (store : Store) : ids (p :: store) = p.id :: ids store := rfl

theorem ids_upsert (profile : Profile) (store : Store) :
    ids (upsert profile store) =
      if profile.id ∈ ids store then ids store else ids store ++ [profile.id] := by
  induction store with
  | nil => rfl
  | cons p store ih =>
    simp only [upsert]
    by_cases hp : p.id = profile.id
    · simp [ids_cons, hp]
    · have hne : profile.id ≠ p.id := fun heq => hp heq.symm
      rw [if_neg hp, ids_cons, ids_cons, ih]
      by_cases hmem : profile.id ∈ ids store
      · rw [if_pos hmem, if_pos (List.mem_cons_of_mem _ hmem)]
      · rw [if_neg hmem, if_neg (List.not_mem_cons_of_ne_of_not_mem hne hmem), List.cons_append]

theorem nodup_upsert (profile : Profile) (h : (ids store).Nodup) :
    (ids (upsert profile store)).Nodup := by
  rw [ids_upsert]
  split
  · exact h
  · rename_i hnew
    rw [List.nodup_append]
    refine ⟨h, List.nodup_singleton _, ?_⟩
    intro id hid other hother
    rw [List.mem_singleton.mp hother]
    exact fun heq => hnew (heq ▸ hid)

theorem delete_eq_some {store' : Store} (h : delete id store = some store') :
    store' = store.filter (·.id ≠ id) := by
  simp only [delete] at h
  split at h
  · cases h
  · exact (Option.some.inj h).symm

theorem nodup_delete {store' : Store} (hdelete : delete id store = some store')
    (h : (ids store).Nodup) : (ids store').Nodup := by
  rw [delete_eq_some hdelete]
  exact h.sublist (List.filter_sublist.map _)

theorem getProfile_delete {store' : Store} (h : delete id store = some store') (id' : String) :
    getProfile store' id' = if id' = id then none else getProfile store id' := by
  rw [delete_eq_some h]
  split
  · rename_i heq
    subst heq
    simp [getProfile_eq_none, ids]
  · rename_i hne
    simp only [getProfile, List.find?_filter]
    congr 1
    funext p
    by_cases hp : p.id = id'
    · simp [hp, hne]
    · simp [hp]

/-! ### Marks that are still to come -/

def stamp (now : Time) (due : List String) (p : Profile) : Profile :=
  if p.id ∈ due then stamped now p else p

@[simp] theorem stamp_id (now : Time) (due : List String) (p : Profile) :
    (stamp now due p).id = p.id := by
  simp only [stamp]
  split
  · rfl
  · rfl

theorem map_stamp_nil (now : Time) (store : Store) : store.map (stamp now []) = store := by
  have hsame : ∀ p ∈ store, stamp now [] p = p := fun p _ => if_neg List.not_mem_nil
  rw [List.map_congr_left hsame, List.map_id']

theorem stamp_stamp_singleton (now : Time) (id : String) (due : List String) (p : Profile) :
    stamp now due (stamp now [id] p) = stamp now (id :: due) p := by
  by_cases hid : p.id = id
  · by_cases hdue : id ∈ due
    · simp [stamp, stamped, hid, hdue]
    · simp [stamp, stamped, hid, hdue]
  · simp [stamp, hid]

@[simp] theorem ids_map_stamp (now : Time) (due : List String) (store : Store) :
    ids (store.map (stamp now due)) = ids store := by
  simp [ids]

theorem markRun_eq_map (id : String) (now : Time) (h : (ids store).Nodup) :
    markRun id now store = store.map (stamp now [id]) := by
  induction store with
  | nil => rfl
  | cons p store ih =>
    rw [ids, List.map_cons, List.nodup_cons] at h
    simp only [markRun, List.map_cons]
    split
    · rename_i hp
      have hother : ∀ q ∈ store, stamp now [id] q = q := by
        intro q hq
        refine if_neg fun hmem => h.1 ?_
        rw [hp, ← List.mem_singleton.mp hmem]
        exact List.mem_map_of_mem hq
      rw [List.map_congr_left hother, List.map_id']
      simp [stamp, hp]
    · rename_i hp
      rw [ih h.2]
      simp [stamp, hp]

theorem markAll_eq_map (now : Time) (due : List String) (h : (ids store).Nodup) :
    markAll now due store = store.map (stamp now due) := by
  induction due generalizing store with
  | nil => exact (map_stamp_nil now store).symm
  | cons id due ih =>
    have hmarked : (ids (markRun id now store)).Nodup := by
      rw [markRun_eq_map id now h, ids_map_stamp]
      exact h
    change markAll now due (markRun id now store) = _
    rw [ih hmarked, markRun_eq_map id now h, List.map_map]
    congr 1
    funext p
    exact stamp_stamp_singleton now id due p

theorem getProfile_map_stamp (now : Time) (due : List String) (store : Store) (id : String) :
    getProfile (store.map (stamp now due)) id = (getProfile store id).map (stamp now due) := by
  have hid : (fun p : Profile => decide (p.id = id)) ∘ stamp now due =
      fun p => decide (p.id = id) := by
    funext p
    rw [Function.comp_apply, stamp_id]
  rw [getProfile, List.find?_map, hid]
  rfl

theorem upsert_map_stamp (now : Time) (due : List String) (profile : Profile) (store : Store) :
    (upsert profile store).map (stamp now due) =
      upsert (stamp now due profile) (store.map (stamp now due)) := by
  induction store with
  | nil => rfl
  | cons p store ih =>
    simp only [upsert, List.map_cons, stamp_id]
    split
    · rfl
    · rw [List.map_cons, ih]

theorem delete_map_stamp (now : Time) (due : List String) (id : String) (store : Store) :
    delete id (store.map (stamp now due)) = (delete id store).map (List.map (stamp now due)) := by
  simp only [delete, List.filter_map, Function.comp_def, stamp_id, List.length_map]
  split
  · rfl
  · rfl

/-! ### What an edit keeps -/

theorem build_keeps {u : CharTable} {edit : Edit} {base profile : Profile}
    (h : edit.build u base = some profile) :
    profile.id = base.id ∧ profile.lastRun = base.lastRun := by
  cases edit with
  | create form =>
    simp only [Edit.build] at h
    split at h
    · cases h
    · rcases Option.map_eq_some_iff.mp h with ⟨schedule, _, rfl⟩
      exact ⟨rfl, rfl⟩
  | update id form =>
    rcases Option.map_eq_some_iff.mp h with ⟨schedule, _, rfl⟩
    exact ⟨rfl, rfl⟩
  | toggle id enabled =>
    obtain rfl := Option.some.inj h
    exact ⟨rfl, rfl⟩

theorem build_stamped (u : CharTable) (edit : Edit) (base : Profile) (now : Time) :
    edit.build u (stamped now base) = (edit.build u base).map (stamped now) := by
  cases edit with
  | create form =>
    simp only [Edit.build]
    split
    · rfl
    · rw [Option.map_map]
      rfl
  | update id form =>
    simp only [Edit.build, Option.map_map]
    rfl
  | toggle id enabled => rfl

theorem build_stamp (u : CharTable) (edit : Edit) (base : Profile) (now : Time)
    (due : List String) :
    edit.build u (stamp now due base) = (edit.build u base).map (stamp now due) := by
  by_cases hdue : base.id ∈ due
  · have hstamp : ∀ profile, edit.build u base = some profile →
        stamp now due profile = stamped now profile := by
      intro profile hprofile
      rw [stamp, if_pos ((build_keeps hprofile).1 ▸ hdue)]
    rw [stamp, if_pos hdue, build_stamped]
    cases hbuild : edit.build u base with
    | none => rfl
    | some profile => rw [Option.map_some, Option.map_some, hstamp profile hbuild]
  · have hstamp : ∀ profile, edit.build u base = some profile → stamp now due profile = profile := by
      intro profile hprofile
      rw [stamp, if_neg ((build_keeps hprofile).1 ▸ hdue)]
    rw [stamp, if_neg hdue]
    cases hbuild : edit.build u base with
    | none => rfl
    | some profile => rw [Option.map_some, hstamp profile hbuild]

end

end ProfileStore
