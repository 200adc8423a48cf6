import Mathlib.Data.List.AList
import Mathlib.Data.List.Sort

/-!
# Dictionaries in insertion order

A dictionary is an association list without repeated keys.  Setting a key keeps
its place and adds a new key at the end; the lookup after each operation is all
that proofs use.
-/

/-- A dictionary from `κ` to `α`, in insertion order. -/
abbrev Dict (κ α : Type) := AList fun _ : κ => α

namespace Dict

variable {κ α β : Type} [DecidableEq κ]

/-- `d[k] = v`. -/
def set (d : Dict κ α) (k : κ) (v : α) : Dict κ α := d.replace k v ∪ AList.singleton k v

/-- `d.setdefault(k, v)`. -/
def setDefault (d : Dict κ α) (k : κ) (v : α) : Dict κ α := d ∪ AList.singleton k v

/-- `d.update(other)`. -/
def update (d other : Dict κ α) : Dict κ α :=
  other.entries.foldl (fun d entry => set d entry.1 entry.2) d

/-- `list(d.values())`. -/
def values (d : Dict κ α) : List α := d.entries.map Sigma.snd

/-- `{k: f(v) for k, v in d.items()}`. -/
def mapValues (f : α → β) (d : Dict κ α) : Dict κ β :=
  ⟨d.entries.map (.map id fun _ => f), d.nodupKeys.map₂ _ _⟩

/-- `{k: v for k, v in d.items() if p(k, v)}`. -/
def filter (p : κ → α → Bool) (d : Dict κ α) : Dict κ α :=
  ⟨d.entries.filter fun entry => p entry.1 entry.2, d.nodupKeys.sublist List.filter_sublist⟩

theorem lookup_singleton (k k' : κ) (v : α) :
    (AList.singleton k v : Dict κ α).lookup k' = if k' = k then some v else none := by
  by_cases h : k' = k
  · subst h
    simp [AList.lookup]
  · rw [if_neg h, AList.lookup_eq_none]
    simpa [AList.mem_keys] using h

/-- The lookup in a union is the first of the two that finds something. -/
theorem lookup_union (d other : Dict κ α) (k : κ) :
    (d ∪ other).lookup k = (d.lookup k).or (other.lookup k) := by
  by_cases h : k ∈ d
  · rw [AList.lookup_union_left h]
    obtain ⟨v, hv⟩ := Option.isSome_iff_exists.mp (AList.lookup_isSome.mpr h)
    rw [hv]
    rfl
  · rw [AList.lookup_union_right h, AList.lookup_eq_none.mpr h]
    rfl

theorem kreplace_cons_self (k : κ) (v v₁ : α) (l : List (Sigma fun _ : κ => α)) :
    (⟨k, v₁⟩ :: l : List (Sigma fun _ : κ => α)).kreplace k v = ⟨k, v⟩ :: l :=
  List.lookmap_cons_some _ _ (by simp)

theorem kreplace_cons_ne {k k₁ : κ} (h : k ≠ k₁) (v v₁ : α) (l : List (Sigma fun _ : κ => α)) :
    (⟨k₁, v₁⟩ :: l : List (Sigma fun _ : κ => α)).kreplace k v = ⟨k₁, v₁⟩ :: l.kreplace k v :=
  List.lookmap_cons_none _ _ (by simp [h])

theorem dlookup_kreplace (k k' : κ) (v : α) (l : List (Sigma fun _ : κ => α)) :
    (l.kreplace k v).dlookup k' =
      if k' = k ∧ k ∈ l.keys then some v else l.dlookup k' := by
  induction l with
  | nil => simp [List.kreplace]
  | cons entry l ih =>
    obtain ⟨k₁, v₁⟩ := entry
    by_cases hk : k = k₁
    · subst hk
      rw [kreplace_cons_self]
      by_cases hk' : k' = k
      · subst hk'
        simp
      · have hne := List.dlookup_cons_ne (β := fun _ => α) l ⟨k, v⟩ hk'
        have hne' := List.dlookup_cons_ne (β := fun _ => α) l ⟨k, v₁⟩ hk'
        simp [hne, hne', hk']
    · rw [kreplace_cons_ne hk]
      by_cases hk' : k' = k₁
      · subst hk'
        simp [Ne.symm hk]
      · have hne := List.dlookup_cons_ne (β := fun _ => α) (l.kreplace k v) ⟨k₁, v₁⟩ hk'
        have hne' := List.dlookup_cons_ne (β := fun _ => α) l ⟨k₁, v₁⟩ hk'
        rw [hne, hne', ih]
        simp [hk]

@[simp] theorem lookup_set (d : Dict κ α) (k k' : κ) (v : α) :
    (set d k v).lookup k' = if k' = k then some v else d.lookup k' := by
  unfold set
  have hreplace : (d.replace k v).lookup k' = if k' = k ∧ k ∈ d then some v else d.lookup k' := by
    refine (dlookup_kreplace k k' v d.entries).trans ?_
    congr
  rw [lookup_union, lookup_singleton, hreplace]
  by_cases h : k' = k
  · subst h
    by_cases hmem : k' ∈ d
    · simp [hmem]
    · simp [hmem, AList.lookup_eq_none.mpr hmem]
  · simp [h]

@[simp] theorem lookup_setDefault (d : Dict κ α) (k k' : κ) (v : α) :
    (setDefault d k v).lookup k' = (d.lookup k').or (if k' = k then some v else none) := by
  unfold setDefault
  rw [lookup_union, lookup_singleton]

@[simp] theorem lookup_update (d other : Dict κ α) (k : κ) :
    (update d other).lookup k = (other.lookup k).or (d.lookup k) := by
  obtain ⟨entries, hnodup⟩ := other
  unfold update
  change (entries.foldl (fun d entry => set d entry.1 entry.2) d).lookup k =
    (entries.dlookup k).or (d.lookup k)
  induction entries generalizing d with
  | nil => rfl
  | cons entry entries ih =>
    rw [List.foldl_cons, ih (set d entry.1 entry.2) hnodup.of_cons, lookup_set]
    by_cases h : k = entry.1
    · subst h
      rw [if_pos rfl, List.dlookup_cons_eq]
      have hnone : entries.dlookup entry.1 = none :=
        List.dlookup_eq_none.mpr (List.nodupKeys_cons.mp hnodup).1
      rw [hnone]
      rfl
    · rw [if_neg h, List.dlookup_cons_ne _ _ h]

/-- An entry and the dictionary without it. -/
theorem perm_erase {d : Dict κ α} {k : κ} {v : α} (h : d.lookup k = some v) :
    d.entries.Perm (⟨k, v⟩ :: (d.erase k).entries) := by
  have hmem : (⟨k, v⟩ : Sigma fun _ : κ => α) ∈ d.entries := AList.mem_lookup_iff.mp h
  obtain ⟨v', l₁, l₂, -, hentries, herase⟩ :=
    List.exists_of_kerase (List.mem_keys_of_mem hmem)
  have hlookup : d.lookup k = some v' := by
    apply AList.mem_lookup_iff.mpr
    rw [hentries]
    simp
  obtain rfl : v' = v := by simpa [hlookup] using h
  have hkerase : (d.erase k).entries = l₁ ++ l₂ := herase
  rw [hentries, hkerase]
  exact List.perm_middle

/-- Setting a key puts its entry in the place of the old one. -/
theorem perm_set (d : Dict κ α) (k : κ) (v : α) :
    (set d k v).entries.Perm (⟨k, v⟩ :: (d.erase k).entries) := by
  have hlookup : (set d k v).lookup k = some v := by simp
  refine (perm_erase hlookup).trans (List.Perm.cons _ ?_)
  apply List.lookup_ext (AList.nodupKeys _) (AList.nodupKeys _)
  intro k' v'
  change v' ∈ ((set d k v).erase k).lookup k' ↔ v' ∈ (d.erase k).lookup k'
  by_cases hk : k' = k
  · subst hk
    simp
  · rw [AList.lookup_erase_ne hk, AList.lookup_erase_ne hk, lookup_set, if_neg hk]

theorem erase_of_lookup_eq_none {d : Dict κ α} {k : κ} (h : d.lookup k = none) :
    (d.erase k).entries = d.entries :=
  List.kerase_of_notMem_keys (List.dlookup_eq_none.mp h)

theorem size_erase {d : Dict κ α} {k : κ} {v : α} (h : d.lookup k = some v) :
    d.entries.length = (d.erase k).entries.length + 1 :=
  (perm_erase h).length_eq

theorem size_set_of_some {d : Dict κ α} {k : κ} {v : α} (h : d.lookup k = some v) (v' : α) :
    (set d k v').entries.length = d.entries.length := by
  rw [(perm_set d k v').length_eq, List.length_cons, size_erase h]

theorem size_set_of_none {d : Dict κ α} {k : κ} (h : d.lookup k = none) (v : α) :
    (set d k v).entries.length = d.entries.length + 1 := by
  rw [(perm_set d k v).length_eq, List.length_cons, erase_of_lookup_eq_none h]

theorem entries_set_ne_nil (d : Dict κ α) (k : κ) (v : α) : (set d k v).entries ≠ [] := by
  intro hnil
  have hsize := (perm_set d k v).length_eq
  rw [hnil] at hsize
  simp at hsize

/-- A new key goes to the end. -/
theorem entries_set_of_none {d : Dict κ α} {k : κ} (h : d.lookup k = none) (v : α) :
    (set d k v).entries = d.entries ++ [⟨k, v⟩] := by
  have hkey : k ∉ d.entries.keys := List.dlookup_eq_none.mp h
  have hreplace : d.entries.kreplace k v = d.entries :=
    List.lookmap_of_forall_not _ fun entry hentry => by
      have hne : entry.1 ≠ k := fun he => hkey (he ▸ List.mem_keys_of_mem hentry)
      simp [Ne.symm hne]
  have hunion : ∀ l : List (Sigma fun _ : κ => α), k ∉ l.keys →
      l.kunion [⟨k, v⟩] = l ++ [⟨k, v⟩] := by
    intro l
    induction l with
    | nil => exact fun _ => rfl
    | cons entry l ih =>
      intro hk
      have hne : entry.1 ≠ k := fun he => hk (by simp [he])
      have hrest : k ∉ l.keys := fun hmem => hk (by simp [hmem])
      rw [List.kunion_cons, List.kerase_cons_ne hne, List.kerase_nil, ih hrest, List.cons_append]
  change (d.entries.kreplace k v).kunion [⟨k, v⟩] = d.entries ++ [⟨k, v⟩]
  rw [hreplace, hunion _ hkey]

/-- The value of a known key changes in its place. -/
theorem entries_set_of_some {d : Dict κ α} {k : κ} {v : α} (h : d.lookup k = some v) (v' : α) :
    (set d k v').entries = d.entries.map fun entry => if entry.1 = k then ⟨k, v'⟩ else entry := by
  obtain ⟨entries, hnodup⟩ := d
  have hkey : k ∈ entries.keys := List.dlookup_isSome.mp (Option.isSome_of_eq_some h)
  -- the key is there, so that the union adds nothing
  have hunion : ∀ l : List (Sigma fun _ : κ => α), k ∈ l.keys → l.kunion [⟨k, v'⟩] = l := by
    intro l
    induction l with
    | nil => exact fun hk => absurd hk (by simp)
    | cons entry l ih =>
      intro hk
      by_cases he : k = entry.1
      · subst he
        have hgone : [(⟨entry.1, v'⟩ : Sigma fun _ : κ => α)].kerase entry.1 = [] :=
          List.kerase_cons_eq rfl
        rw [List.kunion_cons, hgone, List.kunion_nil]
      · have hrest : k ∈ l.keys := by simpa [he] using hk
        rw [List.kunion_cons, List.kerase_cons_ne (Ne.symm he), List.kerase_nil, ih hrest]
  have hreplace : entries.kreplace k v' =
      entries.map fun entry => if entry.1 = k then ⟨k, v'⟩ else entry := by
    clear h hkey
    induction entries with
    | nil => rfl
    | cons entry l ih =>
      obtain ⟨k₁, v₁⟩ := entry
      by_cases he : k = k₁
      · subst he
        have hrest : ∀ entry ∈ l, entry.1 ≠ k := by
          intro entry hmem he
          have hkey : entry.1 ∈ l.keys := List.mem_keys_of_mem hmem
          rw [he] at hkey
          exact (List.nodupKeys_cons.mp hnodup).1 hkey
        have hid : (l.map fun entry => if entry.1 = k then ⟨k, v'⟩ else entry) = l :=
          (List.map_congr_left fun entry hmem => if_neg (hrest entry hmem)).trans (List.map_id' l)
        rw [kreplace_cons_self, List.map_cons, if_pos rfl, hid]
      · rw [kreplace_cons_ne he, List.map_cons, if_neg (Ne.symm he), ih hnodup.of_cons]
  have hkeys : k ∈ (entries.kreplace k v').keys := by
    rw [List.keys_kreplace]
    exact hkey
  change (entries.kreplace k v').kunion [⟨k, v'⟩] = _
  rw [hunion _ hkeys, hreplace]

theorem keys_set_of_none {d : Dict κ α} {k : κ} (h : d.lookup k = none) (v : α) :
    (set d k v).keys = d.keys ++ [k] := by
  rw [AList.keys, entries_set_of_none h v, List.keys, List.map_append]
  rfl

theorem keys_set_of_some {d : Dict κ α} {k : κ} {v : α} (h : d.lookup k = some v) (v' : α) :
    (set d k v').keys = d.keys := by
  rw [AList.keys, entries_set_of_some h v', List.keys, List.map_map]
  refine List.map_congr_left fun entry _ => ?_
  rw [Function.comp_apply]
  split_ifs with hk
  · exact hk.symm
  · rfl

theorem entries_erase (d : Dict κ α) (k : κ) :
    (d.erase k).entries = d.entries.filter fun entry => entry.1 ≠ k := by
  obtain ⟨entries, hnodup⟩ := d
  change entries.kerase k = _
  induction entries with
  | nil => rfl
  | cons entry l ih =>
    by_cases hk : k = entry.1
    · subst hk
      have hrest : ∀ entry' ∈ l, entry'.1 ≠ entry.1 := fun entry' hmem he =>
        (List.nodupKeys_cons.mp hnodup).1 (he ▸ List.mem_keys_of_mem hmem)
      rw [List.kerase_cons_eq rfl, List.filter_cons_of_neg (by simp)]
      exact (List.filter_eq_self.mpr fun entry' hmem => by simpa using hrest entry' hmem).symm
    · rw [List.kerase_cons_ne hk, List.filter_cons_of_pos (by simpa using Ne.symm hk),
        ih hnodup.of_cons]

/-- The keys of a list are erased one after the other. -/
theorem entries_foldl_erase (l : List (Sigma fun _ : κ => α)) (d : Dict κ α) :
    (l.foldl (fun d entry => d.erase entry.1) d).entries =
      d.entries.filter fun entry => entry.1 ∉ l.map (·.1) := by
  induction l generalizing d with
  | nil => simp
  | cons entry l ih =>
    rw [List.foldl_cons, ih, entries_erase, List.filter_filter]
    refine List.filter_congr fun entry' _ => ?_
    rw [Bool.eq_iff_iff]
    simp only [Bool.and_eq_true, decide_eq_true_eq, List.map_cons, List.mem_cons, not_or]
    exact and_comm

/-- How many values satisfy `p`. -/
def count (p : α → Bool) (d : Dict κ α) : ℕ := d.entries.countP fun entry => p entry.2

theorem count_erase (p : α → Bool) {d : Dict κ α} {k : κ} {v : α} (h : d.lookup k = some v) :
    count p d = count p (d.erase k) + if p v then 1 else 0 := by
  unfold count
  rw [(perm_erase h).countP_eq, List.countP_cons]

theorem count_set_of_none (p : α → Bool) {d : Dict κ α} {k : κ} (h : d.lookup k = none) (v : α) :
    count p (set d k v) = count p d + if p v then 1 else 0 := by
  unfold count
  rw [(perm_set d k v).countP_eq, List.countP_cons, erase_of_lookup_eq_none h]

theorem mem_values {d : Dict κ α} {v : α} : v ∈ values d ↔ ∃ k, d.lookup k = some v := by
  unfold values
  rw [List.mem_map]
  constructor
  · rintro ⟨⟨k, v'⟩, hmem, rfl⟩
    exact ⟨k, AList.mem_lookup_iff.mpr hmem⟩
  · rintro ⟨k, hk⟩
    exact ⟨⟨k, v⟩, AList.mem_lookup_iff.mp hk, rfl⟩

@[simp] theorem lookup_mapValues (f : α → β) (d : Dict κ α) (k : κ) :
    (mapValues f d).lookup k = (d.lookup k).map f := by
  exact List.dlookup_map₂ (l := d.entries) (f := fun _ => f) k

@[simp] theorem lookup_filter (p : κ → α → Bool) (d : Dict κ α) (k : κ) :
    (filter p d).lookup k = (d.lookup k).filter (p k) := by
  refine Option.ext fun v => ?_
  rw [← Option.mem_def, AList.mem_lookup_iff, filter, List.mem_filter, ← AList.mem_lookup_iff,
    Option.mem_def, Option.filter_eq_some_iff]

end Dict
