import Mathlib.Data.List.Induction
import McAdmin.OpLevelsInvariant

/-!
# The requested levels

`_apply_requested_levels` joins the entries of `ops.json` with the requests, by their lowered
names.  What it makes of a list of entries is said entry by entry, without the dictionary.
-/

namespace OpLevelsWorker

open PendingOpLevels

variable {lower : String → String} {entries : List Entry} {entry entry' : Entry}
  {requested : List PendingOpLevel} {item : PendingOpLevel}

/-! ### Requests and entries -/

def Names (lower : String → String) (item : PendingOpLevel) (entry : Entry) : Prop :=
  entryKey lower entry = some (lower item.name)

instance (item : PendingOpLevel) (entry : Entry) : Decidable (Names lower item entry) :=
  inferInstanceAs (Decidable (_ = _))

def Differs (lower : String → String) (item : PendingOpLevel) (entry : Entry) : Prop :=
  Names lower item entry ∧ entry.hasLevel item.level = false

instance (item : PendingOpLevel) (entry : Entry) : Decidable (Differs lower item entry) :=
  inferInstanceAs (Decidable (_ ∧ _))

/-- The fields of an entry other than its level, in their order. -/
def Entry.others (entry : Entry) : Entry := entry.filter fun field => field.1 ≠ "level"

structure Served (lower : String → String) (requested : List PendingOpLevel)
    (entry entry' : Entry) : Prop where
  level : ∀ item ∈ requested, Names lower item entry → entry'.hasLevel item.level = true
  written : ∀ item ∈ requested, Differs lower item entry →
    entry'.get "level" = some (.int item.level)
  others : entry'.others = entry.others
  kept : (∀ item ∈ requested, ¬ Differs lower item entry) → entry' = entry

theorem others_set_level (value : Json) (entry : Entry) :
    (Entry.set "level" value entry).others = entry.others := by
  unfold Entry.others
  induction entry with
  | nil => rfl
  | cons field entry ih =>
    rw [Entry.set]
    by_cases h : "level" = field.1
    · rw [if_pos h, List.filter_cons_of_neg (by simp [h]), List.filter_cons_of_neg (by simp [h])]
    · rw [if_neg h, List.filter_cons_of_pos (by simpa using Ne.symm h),
        List.filter_cons_of_pos (by simpa using Ne.symm h), ih]

/-! ### The dictionary of the requests -/

/-- `{item.name.lower(): item for item in requested}` -/
abbrev byName (lower : String → String) (requested : List PendingOpLevel) : Queue lower :=
  requested.foldl Queue.put .empty

theorem entries_byName (distinct : (requested.map fun item => lower item.name).Nodup) :
    (byName lower requested).levels.entries =
      requested.map fun item => ⟨lower item.name, item⟩ := by
  induction requested using List.reverseRecOn with
  | nil => rfl
  | append_singleton requested item ih =>
    rw [List.map_append, List.nodup_append] at distinct
    have hentries := ih distinct.1
    have hfresh : (byName lower requested).levels.lookup (lower item.name) = none := by
      apply List.dlookup_eq_none.mpr
      rw [hentries, List.keys, List.map_map]
      intro hmem
      exact distinct.2.2 _ hmem _ (List.mem_singleton_self _) rfl
    have hput : byName lower (requested ++ [item]) = (byName lower requested).put item := by
      rw [byName, List.foldl_append, List.foldl_cons, List.foldl_nil]
    rw [hput, Queue.put, Dict.entries_set_of_none hfresh, hentries, List.map_append]
    rfl

section

variable (distinct : (requested.map fun item => lower item.name).Nodup)
include distinct

theorem matching_eq_some :
    matching (byName lower requested) entry = some item ↔
      item ∈ requested ∧ Names lower item entry := by
  have hlookup (key : String) : (byName lower requested).levels.lookup key = some item ↔
      item ∈ requested ∧ key = lower item.name := by
    rw [← Option.mem_def, AList.mem_lookup_iff, entries_byName distinct, List.mem_map]
    constructor
    · rintro ⟨item', hmem, heq⟩
      cases heq
      exact ⟨hmem, rfl⟩
    · rintro ⟨hmem, rfl⟩
      exact ⟨item, hmem, rfl⟩
  rw [matching, Option.bind_eq_some_iff, Names]
  constructor
  · rintro ⟨key, hkey, hitem⟩
    obtain ⟨hmem, rfl⟩ := (hlookup key).mp hitem
    exact ⟨hmem, hkey⟩
  · rintro ⟨hmem, hkey⟩
    exact ⟨_, hkey, (hlookup _).mpr ⟨hmem, rfl⟩⟩

theorem matching_eq_none :
    matching (byName lower requested) entry = none ↔
      ∀ item ∈ requested, ¬ Names lower item entry := by
  rw [Option.eq_none_iff_forall_ne_some]
  constructor
  · intro h item hmem hnames
    exact h item ((matching_eq_some distinct).mpr ⟨hmem, hnames⟩)
  · intro h item hitem
    obtain ⟨hmem, hnames⟩ := (matching_eq_some distinct).mp hitem
    exact h item hmem hnames

theorem names_unique {item' : PendingOpLevel}
    (h : matching (byName lower requested) entry = some item) (hmem : item' ∈ requested)
    (hnames : Names lower item' entry) : item' = item := by
  have hitem' := (matching_eq_some distinct).mpr ⟨hmem, hnames⟩
  exact Option.some.inj (hitem'.symm.trans h)

/-! ### One entry -/

theorem served_applyLevel (entry : Entry) :
    Served lower requested entry (applyLevel (byName lower requested) entry).1 := by
  rw [applyLevel]
  cases hmatching : matching (byName lower requested) entry with
  | none =>
    have hnone := (matching_eq_none distinct).mp hmatching
    exact ⟨fun item hmem hnames => absurd hnames (hnone item hmem),
      fun item hmem hdiffers => absurd hdiffers.1 (hnone item hmem), rfl, fun _ => rfl⟩
  | some item =>
    obtain ⟨hmem, hnames⟩ := (matching_eq_some distinct).mp hmatching
    by_cases hlevel : entry.hasLevel item.level = true
    · simp only [if_pos hlevel]
      refine ⟨?_, ?_, rfl, fun _ => rfl⟩
      · intro item' hmem' hnames'
        rw [names_unique distinct hmatching hmem' hnames']
        exact hlevel
      · rintro item' hmem' ⟨hnames', hdiffers⟩
        rw [names_unique distinct hmatching hmem' hnames', hlevel] at hdiffers
        exact absurd hdiffers Bool.true_eq_false.mp
    · simp only [if_neg hlevel]
      refine ⟨?_, ?_, others_set_level _ _, ?_⟩
      · intro item' hmem' hnames'
        rw [names_unique distinct hmatching hmem' hnames']
        exact hasLevel_set_level _ _
      · rintro item' hmem' ⟨hnames', -⟩
        rw [names_unique distinct hmatching hmem' hnames', Entry.get_set, if_pos rfl]
      · intro hnone
        exact absurd ⟨hnames, Bool.eq_false_iff.mpr hlevel⟩ (hnone item hmem)

theorem changed_applyLevel (entry : Entry) :
    (applyLevel (byName lower requested) entry).2 =
      if ∃ item ∈ requested, Differs lower item entry then 1 else 0 := by
  rw [applyLevel]
  cases hmatching : matching (byName lower requested) entry with
  | none =>
    have hnone := (matching_eq_none distinct).mp hmatching
    rw [if_neg]
    rintro ⟨item, hmem, hdiffers⟩
    exact hnone item hmem hdiffers.1
  | some item =>
    obtain ⟨hmem, hnames⟩ := (matching_eq_some distinct).mp hmatching
    by_cases hlevel : entry.hasLevel item.level = true
    · simp only [if_pos hlevel]
      rw [if_neg]
      rintro ⟨item', hmem', hnames', hdiffers⟩
      rw [names_unique distinct hmatching hmem' hnames', hlevel] at hdiffers
      exact absurd hdiffers Bool.true_eq_false.mp
    · simp only [if_neg hlevel]
      rw [if_pos ⟨item, hmem, hnames, Bool.eq_false_iff.mpr hlevel⟩]

/-! ### All entries -/

theorem changed_eq_countP : (applyRequestedLevels lower entries requested).changed =
    entries.countP fun entry => ∃ item ∈ requested, Differs lower item entry := by
  change (entries.map fun entry => (applyLevel (byName lower requested) entry).2).sum = _
  induction entries with
  | nil => rfl
  | cons entry entries ih =>
    rw [List.map_cons, List.sum_cons, ih, changed_applyLevel distinct, List.countP_cons, add_comm]
    simp only [decide_eq_true_eq]

theorem unresolved_eq_filter : (applyRequestedLevels lower entries requested).unresolved =
    requested.filter fun item => ∀ entry ∈ entries, ¬ Names lower item entry := by
  have hvalues : Dict.values (byName lower requested).levels = requested := by
    rw [Dict.values, entries_byName distinct, List.map_map]
    exact List.map_id _
  rw [applyRequestedLevels, hvalues]
  refine List.filter_congr fun item hmem => ?_
  rw [decide_eq_decide, List.mem_map, not_exists]
  constructor
  · intro h entry hentry hnames
    refine h entry ⟨List.mem_filter.mpr ⟨hentry, ?_⟩, hnames⟩
    rw [(matching_eq_some distinct).mpr ⟨hmem, hnames⟩]
    rfl
  · rintro h entry ⟨hentry, hnames⟩
    exact h entry (List.mem_of_mem_filter hentry) hnames

theorem forall₂_served : List.Forall₂ (Served lower requested) entries
    (applyRequestedLevels lower entries requested).entries := by
  rw [applyRequestedLevels, List.forall₂_map_right_iff]
  exact List.forall₂_same.mpr fun entry _ => served_applyLevel distinct entry

end

/-! ### A second application -/

theorem applyLevel_applyLevel (byName : Queue lower) (entry : Entry) :
    applyLevel byName (applyLevel byName entry).1 = ((applyLevel byName entry).1, 0) := by
  have hkept : matching byName (applyLevel byName entry).1 = matching byName entry := by
    rw [matching, matching, entryKey_applyLevel]
  cases hmatching : matching byName entry with
  | none =>
    simp only [applyLevel, hmatching]
  | some item =>
    have hlevel : (applyLevel byName entry).1.hasLevel item.level = true := by
      simp only [applyLevel, hmatching]
      split
      · assumption
      · exact hasLevel_set_level _ _
    rw [hmatching] at hkept
    generalize (applyLevel byName entry).1 = entry' at hkept hlevel
    simp only [applyLevel, hkept, if_pos hlevel]

theorem applyRequestedLevels_twice (entries : List Entry) (requested : List PendingOpLevel) :
    applyRequestedLevels lower (applyRequestedLevels lower entries requested).entries requested =
      { applyRequestedLevels lower entries requested with changed := 0 } := by
  have hmatched (entry : Entry) :
      matching (byName lower requested) (applyLevel (byName lower requested) entry).1 =
        matching (byName lower requested) entry := by
    rw [matching, matching, entryKey_applyLevel]
  simp only [applyRequestedLevels, List.map_map, List.filter_map, Application.mk.injEq]
  refine ⟨?_, ?_, ?_⟩
  · refine List.map_congr_left fun entry _ => ?_
    rw [Function.comp_apply, applyLevel_applyLevel]
  · induction entries with
    | nil => rfl
    | cons entry entries ih =>
      rw [List.map_cons, List.sum_cons, ih, Function.comp_apply, applyLevel_applyLevel]
  · simp only [Function.comp_def, hmatched, entryKey_applyLevel]

/-- Whatever the entries are, the requests give their level to the entries of their players and
change nothing else; they count the entries whose level differed, and those that are for no entry
are left.  A second application changes nothing. -/
theorem requested_levels_applied (lower : String → String) (entries : List Entry)
    (requested : List PendingOpLevel)
    (distinct : (requested.map fun item => lower item.name).Nodup) :
    List.Forall₂ (Served lower requested) entries
        (applyRequestedLevels lower entries requested).entries ∧
      (applyRequestedLevels lower entries requested).changed =
        entries.countP (fun entry => ∃ item ∈ requested, Differs lower item entry) ∧
      (applyRequestedLevels lower entries requested).unresolved =
        requested.filter (fun item => ∀ entry ∈ entries, ¬ Names lower item entry) ∧
      applyRequestedLevels lower (applyRequestedLevels lower entries requested).entries requested =
        { applyRequestedLevels lower entries requested with changed := 0 } :=
  ⟨forall₂_served distinct, changed_eq_countP distinct, unresolved_eq_filter distinct,
    applyRequestedLevels_twice entries requested⟩

/-! ### An application -/

def sampleEntries : List Entry :=
  [[("name", .str "Steve"), ("level", .int 4), ("uuid", .null)], [("name", .str "STEVE")],
    [("name", .int 7), ("level", .int 1)], [("level", .int 1)]]

theorem steve_named : "steve" ≠ "" := by decide

theorem alex_named : "Alex" ≠ "" := by decide

theorem two_inRange : (2 : ℤ) ∈ [1, 2, 3, 4] := by decide

theorem three_inRange : (3 : ℤ) ∈ [1, 2, 3, 4] := by decide

def sampleRequests : List PendingOpLevel :=
  [⟨"steve", 2, false, steve_named, two_inRange⟩, ⟨"Alex", 3, false, alex_named, three_inRange⟩]

theorem sample_levels_applied :
    (sampleRequests.map fun item => String.toLower item.name).Nodup ∧
      (applyRequestedLevels String.toLower sampleEntries sampleRequests).changed =
        sampleEntries.countP
          (fun entry => ∃ item ∈ sampleRequests, Differs String.toLower item entry) :=
  have hdistinct : (sampleRequests.map fun item => String.toLower item.name).Nodup := by
    decide +kernel
  ⟨hdistinct, (requested_levels_applied String.toLower sampleEntries sampleRequests hdistinct).2.1⟩

end OpLevelsWorker
