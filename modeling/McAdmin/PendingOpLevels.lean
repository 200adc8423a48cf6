import McAdmin.CrashLogic
import McAdmin.Dict

/-!
# The queue of op levels

`adapters/pending_op_levels.py`.  A main file takes the new requests; the worker
moves them into an `applying` file before it works on them.  Every access holds
the file lock, so what other processes ask for falls between two accesses, never
inside one; each file is replaced atomically, then its directory is synchronised,
and the process may be cut after either.

`str.lower` is a parameter.  `newest` keeps, for the statements only, the level
last asked for each player.
-/

namespace PendingOpLevels

open CrashLogic

/-! ### Requests and queues -/

structure PendingOpLevel where
  name : String
  level : Int
  applying : Bool := false
  named : name ≠ ""
  inRange : level ∈ [1, 2, 3, 4]
deriving DecidableEq

/-- A file of the store: requests under their lowered names. -/
structure Queue (lower : String → String) where
  levels : Dict String PendingOpLevel
  keyed : ∀ {key : String} {item : PendingOpLevel},
    levels.lookup key = some item → lower item.name = key

namespace Queue

variable {lower : String → String}

def empty : Queue lower := ⟨∅, by simp⟩

def level (q : Queue lower) (key : String) : Option Int :=
  (q.levels.lookup key).map PendingOpLevel.level

/-- `levels[item.name.lower()] = item`. -/
def put (q : Queue lower) (item : PendingOpLevel) : Queue lower where
  levels := q.levels.set (lower item.name) item
  keyed := by
    intro key item' h
    rw [Dict.lookup_set] at h
    by_cases hkey : key = lower item.name
    · rw [if_pos hkey] at h
      obtain rfl := Option.some.inj h
      exact hkey.symm
    · rw [if_neg hkey] at h
      exact q.keyed h

/-- `levels.setdefault(item.name.lower(), item)`. -/
def putDefault (q : Queue lower) (item : PendingOpLevel) : Queue lower where
  levels := q.levels.setDefault (lower item.name) item
  keyed := by
    intro key item' h
    rw [Dict.lookup_setDefault, Option.or_eq_some_iff] at h
    rcases h with h | ⟨_, h⟩
    · exact q.keyed h
    · by_cases hkey : key = lower item.name
      · rw [if_pos hkey] at h
        obtain rfl := Option.some.inj h
        exact hkey.symm
      · rw [if_neg hkey] at h
        exact absurd h nofun

def update (q other : Queue lower) : Queue lower where
  levels := Dict.update q.levels other.levels
  keyed := by
    intro key item h
    rw [Dict.lookup_update, Option.or_eq_some_iff] at h
    rcases h with h | ⟨_, h⟩
    · exact other.keyed h
    · exact q.keyed h

/-- `levels.pop(key, None)`. -/
def pop (q : Queue lower) (key : String) : Queue lower where
  levels := q.levels.erase key
  keyed := by
    intro key' item h
    by_cases hkey : key' = key
    · rw [hkey, AList.lookup_erase] at h
      exact absurd h nofun
    · rw [AList.lookup_erase_ne hkey] at h
      exact q.keyed h

/-- `sorted(levels.values(), key=lambda item: item.name.lower())`. -/
def sorted (q : Queue lower) : List PendingOpLevel :=
  (Dict.values q.levels).insertionSort fun a b => lower a.name ≤ lower b.name

@[simp] theorem level_empty (key : String) : (empty : Queue lower).level key = none := rfl

@[simp] theorem level_put (q : Queue lower) (item : PendingOpLevel) (key : String) :
    (q.put item).level key = if key = lower item.name then some item.level else q.level key := by
  unfold level put
  rw [Dict.lookup_set]
  split <;> rfl

@[simp] theorem level_putDefault (q : Queue lower) (item : PendingOpLevel) (key : String) :
    (q.putDefault item).level key =
      (q.level key).or (if key = lower item.name then some item.level else none) := by
  unfold level putDefault
  rw [Dict.lookup_setDefault, Option.map_or]
  split <;> rfl

@[simp] theorem level_update (q other : Queue lower) (key : String) :
    (q.update other).level key = (other.level key).or (q.level key) := by
  unfold level update
  rw [Dict.lookup_update, Option.map_or]

theorem level_pop (q : Queue lower) (key key' : String) :
    (q.pop key).level key' = if key' = key then none else q.level key' := by
  unfold level pop
  by_cases h : key' = key
  · rw [if_pos h, h, AList.lookup_erase]
    rfl
  · rw [if_neg h, AList.lookup_erase_ne h]

theorem mem_sorted {q : Queue lower} {item : PendingOpLevel} :
    item ∈ q.sorted ↔ q.levels.lookup (lower item.name) = some item := by
  unfold sorted
  rw [List.mem_insertionSort, Dict.mem_values]
  constructor
  · rintro ⟨key, hkey⟩
    rw [q.keyed hkey]
    exact hkey
  · intro h
    exact ⟨_, h⟩

end Queue

section Lists

variable (lower : String → String)

/-- The level a list of requests gives a player: a later request replaces an
earlier one. -/
def levelIn (items : List PendingOpLevel) (key : String) : Option Int :=
  (items.foldl Queue.put (Queue.empty : Queue lower)).level key

/-- The level a list of requests gives a player whose first request counts. -/
def firstLevelIn (items : List PendingOpLevel) (key : String) : Option Int :=
  (items.find? fun item => lower item.name = key).map PendingOpLevel.level

variable {lower}

theorem level_foldl_put (items : List PendingOpLevel) (q : Queue lower) (key : String) :
    (items.foldl Queue.put q).level key = (levelIn lower items key).or (q.level key) := by
  unfold levelIn
  induction items generalizing q with
  | nil => rfl
  | cons item items ih =>
    rw [List.foldl_cons, List.foldl_cons, ih (q.put item), ih (Queue.put _ item),
      Queue.level_put, Queue.level_put]
    by_cases h : key = lower item.name
    · rw [if_pos h, if_pos h, Option.or_assoc, Option.some_or]
    · rw [if_neg h, if_neg h, Queue.level_empty, Option.or_none]

theorem level_foldl_putDefault (items : List PendingOpLevel) (q : Queue lower) (key : String) :
    (items.foldl Queue.putDefault q).level key =
      (q.level key).or (firstLevelIn lower items key) := by
  unfold firstLevelIn
  induction items generalizing q with
  | nil => simp
  | cons item items ih =>
    rw [List.foldl_cons, ih, Queue.level_putDefault, Option.or_assoc]
    by_cases h : key = lower item.name
    · subst h
      simp
    · simp [h, Ne.symm h]

theorem levelIn_cons (item : PendingOpLevel) (items : List PendingOpLevel) (key : String) :
    levelIn lower (item :: items) key =
      (levelIn lower items key).or (if key = lower item.name then some item.level else none) := by
  rw [levelIn, List.foldl_cons, level_foldl_put, Queue.level_put, Queue.level_empty]

theorem exists_of_levelIn {items : List PendingOpLevel} {key : String} {level : Int}
    (h : levelIn lower items key = some level) :
    ∃ item ∈ items, lower item.name = key ∧ item.level = level := by
  induction items with
  | nil => exact absurd h nofun
  | cons item items ih =>
    rw [levelIn_cons, Option.or_eq_some_iff] at h
    rcases h with h | ⟨_, h⟩
    · obtain ⟨item', hmem, hitem'⟩ := ih h
      exact ⟨item', List.mem_cons_of_mem _ hmem, hitem'⟩
    · by_cases hkey : key = lower item.name
      · rw [if_pos hkey] at h
        exact ⟨item, List.mem_cons_self, hkey.symm, Option.some.inj h⟩
      · rw [if_neg hkey] at h
        exact absurd h nofun

theorem levelIn_ne_none {items : List PendingOpLevel} {item : PendingOpLevel}
    (h : item ∈ items) : levelIn lower items (lower item.name) ≠ none := by
  induction items with
  | nil => exact absurd h List.not_mem_nil
  | cons item' items ih =>
    rw [levelIn_cons]
    rcases List.mem_cons.mp h with rfl | h
    · simp
    · intro hnone
      exact ih h (Option.or_eq_none_iff.mp hnone).1

theorem levelIn_sorted (q : Queue lower) (key : String) :
    levelIn lower q.sorted key = q.level key := by
  have hfrom : ∀ {level}, levelIn lower q.sorted key = some level → q.level key = some level := by
    intro level h
    obtain ⟨item, hmem, rfl, rfl⟩ := exists_of_levelIn h
    rw [Queue.level, Queue.mem_sorted.mp hmem]
    rfl
  cases hlevel : levelIn lower q.sorted key with
  | some level => exact (hfrom hlevel).symm
  | none =>
    cases hlookup : q.levels.lookup key with
    | none => rw [Queue.level, hlookup]; rfl
    | some item =>
      obtain rfl := q.keyed hlookup
      exact absurd hlevel (levelIn_ne_none (Queue.mem_sorted.mpr hlookup))

end Lists

/-! ### The store -/

/-- The two files, what else the process works on, and the level last asked for
each player. -/
structure Store (lower : String → String) (δ : Type) where
  pending : Queue lower
  applying : Queue lower
  newest : String → Option Int
  site : δ

inductive Request where
  | setLevel (playerName : String) (level : Int)
  | remove (playerName : String)
deriving DecidableEq, Repr

variable {lower : String → String} {δ ε : Type}

/-- The applying requests under the newer ones, sorted. -/
def listPending (s : Store lower δ) : List PendingOpLevel :=
  let merged := Dict.update
    (Dict.mapValues (fun item => { item with applying := true }) s.applying.levels) s.pending.levels
  (Dict.values merged).insertionSort fun a b => lower a.name ≤ lower b.name

def setLevel (playerName : String) (level : Int) (s : Store lower δ) :
    Except String (Store lower δ) :=
  if h : playerName ≠ "" ∧ level ∈ [1, 2, 3, 4] then
    .ok { s with
      pending := s.pending.put { name := playerName, level := level, named := h.1, inRange := h.2 }
      newest := Function.update s.newest (lower playerName) (some level) }
  else .error "niveau OP en attente invalide"

/-- Nothing is asked any more for a player whose request is taken back. -/
def remove (playerName : String) (s : Store lower δ) : Store lower δ :=
  if s.pending.level (lower playerName) = none then s
  else { s with
    pending := s.pending.pop (lower playerName)
    newest := Function.update s.newest (lower playerName) none }

def meddle : Request → Store lower δ → Store lower δ
  | .setLevel playerName level, s => (setLevel playerName level s).toOption.getD s
  | .remove playerName, s => remove playerName s

abbrev OnStore (lower : String → String) (δ ε α : Type) := Prog (Store lower δ) ε α

/-- `_locked`: from here to the end of the access the files are this process's. -/
def acquire : OnStore lower δ ε Unit := .performShared .ok

/-- `_write`: the replacement of a file, then the synchronisation of its directory. -/
def write (f : Store lower δ → Store lower δ) : OnStore lower δ ε Unit := do
  .perform fun s => .ok (f s)
  .perform .ok

def writePending (q : Queue lower) : OnStore lower δ ε Unit := write fun s => { s with pending := q }

def writeApplying (q : Queue lower) : OnStore lower δ ε Unit :=
  write fun s => { s with applying := q }

def claim : OnStore lower δ ε (List PendingOpLevel) := do
  acquire
  let applying ← Prog.read Store.applying
  let pending ← Prog.read Store.pending
  let claimed := applying.update pending
  writeApplying claimed
  writePending .empty
  return claimed.sorted

def completeClaim (unresolved : List PendingOpLevel) : OnStore lower δ ε Unit := do
  acquire
  let pending ← Prog.read Store.pending
  writePending (unresolved.foldl Queue.putDefault pending)
  writeApplying .empty

def restoreClaim (claimed : List PendingOpLevel) : OnStore lower δ ε Unit := do
  acquire
  let applying ← Prog.read Store.applying
  let pending ← Prog.read Store.pending
  writePending ((claimed.foldl Queue.put applying).update pending)
  writeApplying .empty

theorem mem_listPending {s : Store lower δ} {key : String} {level : Int} :
    (∃ item ∈ listPending s, lower item.name = key ∧ item.level = level) ↔
      (s.pending.level key).or (s.applying.level key) = some level := by
  have hlookup : ∀ k, (Dict.update
      (Dict.mapValues (fun item : PendingOpLevel => { item with applying := true })
        s.applying.levels) s.pending.levels).lookup k =
      (s.pending.levels.lookup k).or
        ((s.applying.levels.lookup k).map fun item => { item with applying := true }) := by
    intro k
    rw [Dict.lookup_update, Dict.lookup_mapValues]
  have hname : ∀ {k item}, (s.pending.levels.lookup k).or
      ((s.applying.levels.lookup k).map fun item => { item with applying := true }) = some item →
      lower item.name = k := by
    intro k item h
    rcases Option.or_eq_some_iff.mp h with h | ⟨_, h⟩
    · exact s.pending.keyed h
    · obtain ⟨item', hitem', rfl⟩ := Option.map_eq_some_iff.mp h
      have hkeyed : lower item'.name = k := s.applying.keyed hitem'
      exact hkeyed
  have hlevel : ((s.pending.levels.lookup key).or ((s.applying.levels.lookup key).map fun item =>
      { item with applying := true })).map PendingOpLevel.level =
      (s.pending.level key).or (s.applying.level key) := by
    rw [Option.map_or, Option.map_map]
    rfl
  unfold listPending
  simp only [List.mem_insertionSort, Dict.mem_values, hlookup]
  rw [← hlevel, Option.map_eq_some_iff]
  constructor
  · rintro ⟨item, ⟨k, hk⟩, rfl, rfl⟩
    obtain rfl := hname hk
    exact ⟨item, hk, rfl⟩
  · rintro ⟨item, hitem, rfl⟩
    exact ⟨item, ⟨key, hitem⟩, hname hitem, rfl⟩

/-! ### Assertions that survive other processes -/

/-- For each level still owed to a player: a newer file names it, or `R` says, of
what only the worker writes, where it is. -/
def Each (R : Queue lower → δ → String → Int → Prop) (s : Store lower δ) : Prop :=
  ∀ key level, s.newest key = some level →
    (∀ l, s.pending.level key = some l → l = level) ∧
      (s.pending.level key = none → R s.applying s.site key level)

variable {R S : Queue lower → δ → String → Int → Prop} {G H : Queue lower → δ → Prop}
  {s : Store lower δ}

theorem meddle_cases (i : Request) (s : Store lower δ) :
    meddle i s = s ∨
      (∃ item, meddle i s = { s with
        pending := s.pending.put item
        newest := Function.update s.newest (lower item.name) (some item.level) }) ∨
      ∃ key, meddle i s = { s with
        pending := s.pending.pop key
        newest := Function.update s.newest key none } := by
  cases i with
  | setLevel playerName level =>
    by_cases h : playerName ≠ "" ∧ level ∈ [1, 2, 3, 4]
    · right
      left
      exact ⟨⟨playerName, level, false, h.1, h.2⟩, by simp only [meddle, setLevel, dif_pos h]; rfl⟩
    · left
      simp only [meddle, setLevel, dif_neg h]
      rfl
  | remove playerName =>
    by_cases h : s.pending.level (lower playerName) = none
    · left
      simp only [meddle, remove, if_pos h]
    · right
      right
      exact ⟨lower playerName, by simp only [meddle, remove, if_neg h]⟩

theorem meddle_frame (i : Request) (s : Store lower δ) :
    (meddle i s).applying = s.applying ∧ (meddle i s).site = s.site := by
  rcases meddle_cases i s with h | ⟨item, h⟩ | ⟨key, h⟩ <;> rw [h] <;> exact ⟨rfl, rfl⟩

theorem Each.meddle (h : Each R s) (i : Request) : Each R (meddle i s) := by
  intro key level
  rcases meddle_cases i s with hs | ⟨item, hs⟩ | ⟨key', hs⟩
  · rw [hs]
    exact h key level
  · rw [hs]
    intro hnewest
    simp only [Function.update_apply, Queue.level_put] at hnewest ⊢
    by_cases hkey : key = lower item.name
    · rw [if_pos hkey] at hnewest ⊢
      constructor
      · intro l hl
        exact (Option.some.inj hl).symm.trans (Option.some.inj hnewest)
      · exact nofun
    · rw [if_neg hkey] at hnewest ⊢
      exact h key level hnewest
  · rw [hs]
    intro hnewest
    simp only [Function.update_apply, Queue.level_pop] at hnewest ⊢
    by_cases hkey : key = key'
    · rw [if_pos hkey] at hnewest
      exact absurd hnewest nofun
    · rw [if_neg hkey] at hnewest ⊢
      exact h key level hnewest

theorem Each.mono (h : Each R s) (hle : ∀ key level, R s.applying s.site key level →
    S s.applying s.site key level) : Each S s := by
  intro key level hnewest
  obtain ⟨hfresh, hrow⟩ := h key level hnewest
  exact ⟨hfresh, fun hnone => hle key level (hrow hnone)⟩

/-- `R` of what is owed, `G` of what only the worker writes. -/
def Tracked (R : Queue lower → δ → String → Int → Prop) (G : Queue lower → δ → Prop)
    (s : Store lower δ) : Prop :=
  Each R s ∧ G s.applying s.site

theorem Tracked.meddle (h : Tracked R G s) (i : Request) : Tracked R G (meddle i s) := by
  constructor
  · exact h.1.meddle i
  · rw [(meddle_frame i s).1, (meddle_frame i s).2]
    exact h.2

/-! ### The accesses -/

/-- Other processes queue and take back requests, and nothing is asked of the
completed steps. -/
structure Surroundings (T : Terms (Store lower δ) Request) : Prop where
  meddle : T.meddle = PendingOpLevels.meddle
  free : T.Free

/-- A step on what only the worker writes, outside the lock. -/
def onSite (f : δ → δ) : OnStore lower δ ε Unit :=
  .performShared fun s => .ok { s with site := f s.site }

section Accesses

variable {T : Terms (Store lower δ) Request}

theorem wp_onSite (hT : Surroundings T) {f : δ → δ}
    (hstep : ∀ q x, G q x → H q (f x) ∧ ∀ key level, R q x key level → S q (f x) key level)
    (hs : Tracked R G s) :
    wp T (onSite f : OnStore lower δ ε Unit) (.orCut (fun _ => Tracked S H) (Tracked R G)) s := by
  apply wp_performShared_orCut (P := Tracked R G)
  · intro i s' hs'
    rw [hT.meddle]
    exact hs'.meddle i
  · intro s' hs'
    refine ⟨_, rfl, hT.free _ _, ?_⟩
    obtain ⟨hG, hR⟩ := hstep _ _ hs'.2
    constructor
    · intro key level hnewest
      obtain ⟨hfresh, hrow⟩ := hs'.1 key level hnewest
      exact ⟨hfresh, fun hnone => hR key level (hrow hnone)⟩
    · exact hG
  · exact fun _ h => h
  · exact hs

theorem wp_wait (hT : Surroundings T) (hs : Tracked R G s) :
    wp T (.performShared .ok : OnStore lower δ ε Unit)
      (.orCut (fun _ => Tracked R G) (Tracked R G)) s := by
  apply wp_performShared_orCut (P := Tracked R G)
  · intro i s' hs'
    rw [hT.meddle]
    exact hs'.meddle i
  · exact fun s' hs' => ⟨s', rfl, hT.free _ _, hs'⟩
  · exact fun _ h => h
  · exact hs

theorem wp_write (hT : Surroundings T) (f : Store lower δ → Store lower δ) (s : Store lower δ) :
    wp T (write f : OnStore lower δ ε Unit)
      (.orCut (fun _ s' => s' = f s) fun s' => s' = s ∨ s' = f s) s := by
  unfold write
  refine wp_seq (Q := fun _ s' => s' = f s) (P := fun s' => s' = s ∨ s' = f s) ?_ ?_ fun _ h => h
  · exact wp_perform_to rfl (hT.free _ _) (Or.inl rfl)
  · rintro _ s' rfl
    exact wp_perform_to rfl (hT.free _ _) (Or.inr rfl)

/-- Queued by the worker or applied, as `D` says. -/
def Kept (D : δ → String → Int → Prop) (applying : Queue lower) (site : δ) (key : String)
    (level : Int) : Prop :=
  applying.level key = some level ∨ applying.level key = none ∧ D site key level

theorem wp_claim (hT : Surroundings T) {D : δ → String → Int → Prop} {site : δ}
    (hs : Each (Kept D) s) (hsite : s.site = site) :
    wp T (claim : OnStore lower δ ε _)
      (.orCut (fun requested s' => (Each (Kept D) s' ∧ s'.site = site) ∧
          ∀ key, s'.applying.level key = levelIn lower requested key)
        fun s' => Each (Kept D) s' ∧ s'.site = site) s := by
  unfold claim
  have hlocked := wp_wait (ε := ε) hT (G := fun _ x => x = site) ⟨hs, hsite⟩
  apply wp_seq hlocked
  · intro _ s₁ hs₁
    simp only [wp_read_bind]
    -- both writes are of the files as they were when the lock was taken
    have hmoved : Each (Kept D) { s₁ with applying := s₁.applying.update s₁.pending } := by
      intro key level hnewest
      obtain ⟨hfresh, hrow⟩ := hs₁.1 key level hnewest
      refine ⟨hfresh, fun hnone => ?_⟩
      have hnone' : s₁.pending.level key = none := hnone
      unfold Kept
      rw [Queue.level_update, hnone', Option.none_or]
      exact hrow hnone
    have hemptied : Each (Kept D)
        { s₁ with applying := s₁.applying.update s₁.pending, pending := Queue.empty } := by
      intro key level hnewest
      obtain ⟨hfresh, hrow⟩ := hs₁.1 key level hnewest
      refine ⟨nofun, fun _ => ?_⟩
      unfold Kept
      rw [Queue.level_update]
      cases hpending : s₁.pending.level key with
      | some l =>
        left
        rw [Option.some_or, hfresh l hpending]
      | none =>
        rw [Option.none_or]
        exact hrow hpending
    refine wp_seq (wp_write hT _ s₁) ?_ ?_
    · rintro _ s₂ rfl
      refine wp_seq (wp_write hT _ _) ?_ ?_
      · rintro _ s₃ rfl
        refine ⟨⟨hemptied, hs₁.2⟩, fun key => ?_⟩
        rw [levelIn_sorted]
      · rintro s₃ (rfl | rfl)
        · exact ⟨hmoved, hs₁.2⟩
        · exact ⟨hemptied, hs₁.2⟩
    · rintro s₂ (rfl | rfl)
      · exact hs₁
      · exact ⟨hmoved, hs₁.2⟩
  · exact fun _ h => h

theorem wp_giveBack (hT : Surroundings T) {next : Queue lower} {back : String → Option Int}
    (hs : Each R s) (hnext : ∀ key, next.level key = (s.pending.level key).or (back key))
    (hgiven : ∀ key level, R s.applying s.site key level → ∀ l, back key = some l → l = level)
    (hrest : ∀ key level, R s.applying s.site key level → back key = none →
      S s.applying s.site key level)
    (hclear : ∀ key level, S s.applying s.site key level → S Queue.empty s.site key level) :
    wp T (do
        writePending next
        writeApplying Queue.empty : OnStore lower δ ε Unit)
      (.orCut (fun _ => Tracked S fun q x => q = Queue.empty ∧ x = s.site)
        fun s' => s' = s ∨ Tracked S (fun _ x => x = s.site) s') s := by
  -- first the main file takes everything back, then the other one is emptied
  have hgave : Each S { s with pending := next } := by
    intro key level hnewest
    obtain ⟨hfresh, hrow⟩ := hs key level hnewest
    simp only [hnext]
    constructor
    · intro l hl
      rcases Option.or_eq_some_iff.mp hl with hl | ⟨hnone, hl⟩
      · exact hfresh l hl
      · exact hgiven key level (hrow hnone) l hl
    · intro hnone
      obtain ⟨hpending, hback⟩ := Option.or_eq_none_iff.mp hnone
      exact hrest key level (hrow hpending) hback
  have hcleared : Each S { s with pending := next, applying := Queue.empty } := by
    intro key level hnewest
    obtain ⟨hfresh, hrow⟩ := hgave key level hnewest
    exact ⟨hfresh, fun hnone => hclear key level (hrow hnone)⟩
  refine wp_seq (wp_write hT _ s) ?_ ?_
  · rintro _ s₁ rfl
    refine wp_mono (wp_write hT _ _) (Post.orCut_le ?_ ?_)
    · rintro _ s₂ rfl
      exact ⟨hcleared, rfl, rfl⟩
    · rintro s₂ (rfl | rfl)
      · exact Or.inr ⟨hgave, rfl⟩
      · exact Or.inr ⟨hcleared, rfl⟩
  · rintro s₁ (rfl | rfl)
    · exact Or.inl rfl
    · exact Or.inr ⟨hgave, rfl⟩

theorem wp_completeClaim (hT : Surroundings T) {unresolved : List PendingOpLevel}
    (hgiven : ∀ q x key level, G q x → R q x key level →
      ∀ l, firstLevelIn lower unresolved key = some l → l = level)
    (hrest : ∀ q x key level, G q x → R q x key level →
      firstLevelIn lower unresolved key = none → S q x key level)
    (hclear : ∀ q x key level, S q x key level → S Queue.empty x key level)
    (hs : Tracked R G s) :
    wp T (completeClaim unresolved : OnStore lower δ ε Unit)
      (.orCut (fun _ s' => ∃ q x, G q x ∧ Tracked S (fun q' x' => q' = Queue.empty ∧ x' = x) s')
        fun s' => Tracked R G s' ∨ ∃ q x, G q x ∧ Tracked S (fun _ x' => x' = x) s') s := by
  unfold completeClaim
  refine wp_seq (wp_wait hT hs) ?_ fun _ h => Or.inl h
  intro _ s₁ hs₁
  simp only [wp_read_bind]
  refine wp_mono (wp_giveBack hT hs₁.1 (level_foldl_putDefault unresolved s₁.pending)
    (fun key level => hgiven _ _ key level hs₁.2) (fun key level => hrest _ _ key level hs₁.2)
    fun key level => hclear _ _ key level) (Post.orCut_le ?_ ?_)
  · intro _ s₂ hs₂
    exact ⟨_, _, hs₁.2, hs₂⟩
  · rintro s₂ (rfl | hs₂)
    · exact Or.inl hs₁
    · exact Or.inr ⟨_, _, hs₁.2, hs₂⟩

theorem wp_restoreClaim (hT : Surroundings T) {claimed : List PendingOpLevel}
    (hgiven : ∀ q x key level, G q x → R q x key level →
      ∀ l, (levelIn lower claimed key).or (q.level key) = some l → l = level)
    (hrest : ∀ q x key level, G q x → R q x key level →
      levelIn lower claimed key = none → q.level key = none → S q x key level)
    (hclear : ∀ q x key level, S q x key level → S Queue.empty x key level)
    (hs : Tracked R G s) :
    wp T (restoreClaim claimed : OnStore lower δ ε Unit)
      (.orCut (fun _ s' => ∃ q x, G q x ∧ Tracked S (fun q' x' => q' = Queue.empty ∧ x' = x) s')
        fun s' => Tracked R G s' ∨ ∃ q x, G q x ∧ Tracked S (fun _ x' => x' = x) s') s := by
  unfold restoreClaim
  refine wp_seq (wp_wait hT hs) ?_ fun _ h => Or.inl h
  intro _ s₁ hs₁
  simp only [wp_read_bind]
  have hnext : ∀ key, ((claimed.foldl Queue.put s₁.applying).update s₁.pending).level key =
      (s₁.pending.level key).or
        ((levelIn lower claimed key).or (s₁.applying.level key)) := by
    intro key
    rw [Queue.level_update, level_foldl_put]
  refine wp_mono (wp_giveBack hT hs₁.1 hnext (fun key level => hgiven _ _ key level hs₁.2)
    (fun key level hrow hback => ?_) fun key level => hclear _ _ key level) (Post.orCut_le ?_ ?_)
  · obtain ⟨hclaimed, happlying⟩ := Option.or_eq_none_iff.mp hback
    exact hrest _ _ key level hs₁.2 hrow hclaimed happlying
  · intro _ s₂ hs₂
    exact ⟨_, _, hs₁.2, hs₂⟩
  · rintro s₂ (rfl | hs₂)
    · exact Or.inl hs₁
    · exact Or.inr ⟨_, _, hs₁.2, hs₂⟩

end Accesses

end PendingOpLevels
