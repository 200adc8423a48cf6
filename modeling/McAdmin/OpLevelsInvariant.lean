import McAdmin.OpLevelsWorker

/-!
# What an application of op levels keeps

`InForce` says that `ops.json` gives a player a level.  The invariant of a run is
a row for each level still owed: what the `applying` file, the journal, the copy
and `ops.json` say of one player when the main file does not name that player.
-/

namespace OpLevelsWorker

open CrashLogic PendingOpLevels

variable {lower : String → String}

/-! ### Levels in force -/

/-- `ops.json` has the player, and every entry of that name has the level. -/
def InForce (lower : String → String) (ops : Option Json) (key : String) (level : Int) : Prop :=
  (∃ entry ∈ entriesOf ops, entryKey lower entry = some key) ∧
    ∀ entry ∈ entriesOf ops, entryKey lower entry = some key → entry.hasLevel level = true

instance (ops : Option Json) (key : String) (level : Int) : Decidable (InForce lower ops key level) :=
  inferInstanceAs (Decidable (_ ∧ _))

theorem Entry.get_set (field field' : String) (value : Json) (entry : Entry) :
    (Entry.set field value entry).get field' =
      if field' = field then some value else entry.get field' := by
  unfold Entry.get
  induction entry with
  | nil =>
    by_cases h : field' = field <;> simp [Entry.set, List.lookup_cons, h, beq_eq_false_iff_ne.mpr]
  | cons pair entry ih =>
    obtain ⟨field₁, value₁⟩ := pair
    unfold Entry.set
    by_cases h₁ : field = field₁
    · subst h₁
      by_cases h : field' = field <;> simp [List.lookup_cons, h, beq_eq_false_iff_ne.mpr]
    · rw [if_neg h₁]
      by_cases h : field' = field₁
      · subst h
        simp [Ne.symm h₁]
      · simp only [List.lookup_cons, beq_eq_false_iff_ne.mpr h]
        exact ih

theorem entryKey_set_level (value : Json) (entry : Entry) :
    entryKey lower (Entry.set "level" value entry) = entryKey lower entry := by
  unfold entryKey
  rw [Entry.get_set, if_neg (by decide)]

theorem hasLevel_set_level (level : Int) (entry : Entry) :
    (Entry.set "level" (.int level) entry).hasLevel level = true := by
  unfold Entry.hasLevel
  rw [Entry.get_set, if_pos rfl]
  simp [Json.equalsInt]

theorem entryKey_applyLevel (byName : Queue lower) (entry : Entry) :
    entryKey lower (applyLevel byName entry).1 = entryKey lower entry := by
  unfold applyLevel
  split
  · rfl
  · split
    · rfl
    · exact entryKey_set_level _ _

theorem applyLevel_of_unmatched {byName : Queue lower} {entry : Entry} {key : String}
    (hkey : entryKey lower entry = some key) (hlevel : byName.level key = none) :
    (applyLevel byName entry).1 = entry := by
  have hnone : matching byName entry = none := by
    rw [matching, hkey]
    exact Option.map_eq_none_iff.mp hlevel
  rw [applyLevel, hnone]

theorem hasLevel_applyLevel {byName : Queue lower} {entry : Entry} {key : String} {level : Int}
    (hkey : entryKey lower entry = some key) (hlevel : byName.level key = some level) :
    (applyLevel byName entry).1.hasLevel level = true := by
  obtain ⟨item, hitem, rfl⟩ := Option.map_eq_some_iff.mp hlevel
  have hmatching : matching byName entry = some item := by
    rw [matching, hkey]
    exact hitem
  simp only [applyLevel, hmatching]
  split
  · assumption
  · exact hasLevel_set_level _ _

theorem applyLevel_of_unchanged {byName : Queue lower} {entry : Entry}
    (h : (applyLevel byName entry).2 = 0) : (applyLevel byName entry).1 = entry := by
  unfold applyLevel at h ⊢
  split
  · rfl
  · split
    · rfl
    · simp_all

theorem entriesOf_encodeOps (entries : List Entry) : entriesOf (some (encodeOps entries)) = entries := by
  induction entries with
  | nil => rfl
  | cons entry entries ih =>
    simp only [entriesOf, encodeOps, List.map_cons, List.filterMap_cons, Json.fields?] at ih ⊢
    rw [ih]

theorem entriesOf_of_readOps {ops : Option Json} {entries : List Entry}
    (h : readOps ops = .ok entries) : entriesOf ops = entries := by
  unfold readOps at h
  split at h
  · exact absurd h nofun
  · split at h
    · exact Except.ok.inj h
    · exact absurd h nofun
  · exact absurd h nofun

theorem InForce.congr {ops ops' : Option Json} (h : entriesOf ops = entriesOf ops') {key : String}
    {level : Int} : InForce lower ops key level ↔ InForce lower ops' key level := by
  rw [InForce, InForce, h]

section Application

variable {entries : List Entry} {requested : List PendingOpLevel} {key : String} {level : Int}

theorem inForce_applied_of_unasked {ops : Option Json} (hops : entriesOf ops = entries)
    (hasked : levelIn lower requested key = none) (h : InForce lower ops key level) :
    InForce lower (some (encodeOps (applyRequestedLevels lower entries requested).entries))
      key level := by
  subst hops
  unfold InForce
  rw [entriesOf_encodeOps]
  constructor
  · obtain ⟨entry, hmem, hkey⟩ := h.1
    exact ⟨_, List.mem_map_of_mem hmem, (entryKey_applyLevel _ _).trans hkey⟩
  · intro entry' hmem' hkey'
    obtain ⟨entry, hmem, rfl⟩ := List.mem_map.mp hmem'
    have hkey : entryKey lower entry = some key := (entryKey_applyLevel _ _).symm.trans hkey'
    rw [applyLevel_of_unmatched hkey hasked]
    exact h.2 entry hmem hkey

theorem inForce_applied (hasked : levelIn lower requested key = some level)
    (hresolved : firstLevelIn lower
      (applyRequestedLevels lower entries requested).unresolved key = none) :
    InForce lower (some (encodeOps (applyRequestedLevels lower entries requested).entries))
      key level := by
  unfold InForce
  rw [entriesOf_encodeOps]
  have hmatched : ∃ entry ∈ entries, entryKey lower entry = some key := by
    obtain ⟨item, hitem, _⟩ := Option.map_eq_some_iff.mp hasked
    have hname : lower item.name = key := Queue.keyed _ hitem
    by_contra hnot
    have hmem : item ∈ (applyRequestedLevels lower entries requested).unresolved := by
      refine List.mem_filter.mpr ⟨Dict.mem_values.mpr ⟨key, hitem⟩, decide_eq_true ?_⟩
      intro hmatched
      obtain ⟨entry, hentry, hkey⟩ := List.mem_map.mp hmatched
      rw [hname] at hkey
      exact hnot ⟨entry, List.mem_of_mem_filter hentry, hkey⟩
    have hnone := List.find?_eq_none.mp (Option.map_eq_none_iff.mp hresolved) item hmem
    exact hnone (decide_eq_true hname)
  constructor
  · obtain ⟨entry, hmem, hkey⟩ := hmatched
    exact ⟨_, List.mem_map_of_mem hmem, (entryKey_applyLevel _ _).trans hkey⟩
  · intro entry' hmem' hkey'
    obtain ⟨entry, _, rfl⟩ := List.mem_map.mp hmem'
    exact hasLevel_applyLevel ((entryKey_applyLevel _ _).symm.trans hkey') hasked

theorem levelIn_of_unresolved (h : firstLevelIn lower
    (applyRequestedLevels lower entries requested).unresolved key = some level) :
    levelIn lower requested key = some level := by
  obtain ⟨item, hfind, rfl⟩ := Option.map_eq_some_iff.mp h
  have hname : lower item.name = key := by
    simpa using List.find?_some hfind
  obtain ⟨key', hkey'⟩ :=
    Dict.mem_values.mp (List.mem_of_mem_filter (List.mem_of_find?_eq_some hfind))
  obtain rfl : key' = key := (Queue.keyed _ hkey').symm.trans hname
  rw [levelIn, Queue.level, hkey']
  rfl

theorem applied_of_unchanged (h : (applyRequestedLevels lower entries requested).changed = 0) :
    (applyRequestedLevels lower entries requested).entries = entries := by
  have hzero := List.sum_eq_zero_iff_forall_eq_nat.mp h
  change entries.map _ = entries
  conv_rhs => rw [← List.map_id entries]
  apply List.map_congr_left
  intro entry hmem
  exact applyLevel_of_unchanged (hzero _ (List.mem_map_of_mem hmem))

end Application

/-! ### Rows -/

/-- In force in `ops.json` and in the copy that may replace it. -/
def Steady (lower : String → String) (x : Files) (key : String) (level : Int) : Prop :=
  InForce lower x.ops key level ∧ ∀ data, x.rollback = some data → InForce lower (some data) key level

structure Fits (j : Journal) (q : Queue lower) (x : Files) (key : String) (level : Int) : Prop where
  requested : ∀ l, levelIn lower j.requested key = some l → l = level
  unasked : levelIn lower j.requested key = none →
    q.level key = none ∧ Steady lower x key level
  queued : j.phase ≠ .committed → q.level key = levelIn lower j.requested key
  unresolved : ∀ l, firstLevelIn lower j.unresolved key = some l →
    l = level ∧ q.level key = some level
  applying : ∀ l, q.level key = some l → l = level

/-- Without a journal the request is queued or in force; a journal tells the rest. -/
def JournalRow (q : Queue lower) (x : Files) (key : String) (level : Int) : Prop :=
  (x.journal = none → Kept (fun x => InForce lower x.ops) q x key level) ∧
    ∀ j, x.journal = some j → Fits j q x key level

def CommittedRow (lower : String → String) (x : Files) (key : String) (level : Int) : Prop :=
  ∀ j, x.journal = some j → j.phase = .committed →
    firstLevelIn lower j.unresolved key = none → InForce lower x.ops key level

def SafeRow (q : Queue lower) (x : Files) (key : String) (level : Int) : Prop :=
  JournalRow q x key level ∧ CommittedRow lower x key level

/-- The worker still holds the request, or has it in the queue, or needs neither. -/
def HeldRow (claimed : List PendingOpLevel) (q : Queue lower) (x : Files) (key : String)
    (level : Int) : Prop :=
  levelIn lower claimed key = some level ∨
    levelIn lower claimed key = none ∧
      (q.level key = some level ∨ q.level key = none ∧ Steady lower x key level)

def UndoRow (claimed : List PendingOpLevel) (q : Queue lower) (x : Files) (key : String)
    (level : Int) : Prop :=
  HeldRow claimed q x key level ∧ JournalRow q x key level

structure SettledRow (q : Queue lower) (x : Files) (key : String) (level : Int) : Prop where
  inForce : InForce lower x.ops key level
  applying : ∀ l, q.level key = some l → l = level
  journal : ∀ j, x.journal = some j → Fits j q x key level ∧
    firstLevelIn lower j.unresolved key = none ∧ (j.phase ≠ .committed → q.level key = none)

def Paired (x : Files) : Prop := x.journal = none → x.rollback = none

def onFiles (R : Queue lower → Files → String → Int → Prop) :
    Queue lower → Site → String → Int → Prop :=
  fun q x => R q x.toFiles

def Safe (s : World lower) : Prop := Tracked (onFiles SafeRow) (fun _ x => Paired x.toFiles) s

def Undo (E : Site → Prop) (claimed : List PendingOpLevel) (s : World lower) : Prop :=
  Tracked (onFiles (UndoRow claimed)) (fun _ x => Paired x.toFiles ∧ E x) s

def Settled (s : World lower) : Prop :=
  Tracked (onFiles SettledRow) (fun _ x => Paired x.toFiles) s

def Clean (s : World lower) : Prop :=
  Tracked (Kept fun x key level => InForce lower x.ops key level)
    (fun _ x => x.journal = none ∧ x.rollback = none) s

section Rows

variable {q : Queue lower} {x : Files} {key : String} {level : Int}
  {requested : List PendingOpLevel}

theorem SafeRow.kept (h : SafeRow q x key level) :
    Kept (fun x => InForce lower x.ops) q x key level := by
  obtain ⟨⟨hnone, hsome⟩, hcommitted⟩ := h
  cases hj : x.journal with
  | none => exact hnone hj
  | some j =>
    have hfits := hsome j hj
    cases happlying : q.level key with
    | some l =>
      left
      rw [happlying, hfits.applying l happlying]
    | none =>
      refine Or.inr ⟨happlying, ?_⟩
      cases hlevel : levelIn lower j.requested key with
      | none => exact (hfits.unasked hlevel).2.1
      | some l =>
        -- nothing in the queue: the journal is committed and the request resolved
        have hphase : j.phase = .committed := by
          by_contra hphase
          rw [hfits.queued hphase, hlevel] at happlying
          exact absurd happlying nofun
        refine hcommitted j hj hphase ?_
        cases hunresolved : firstLevelIn lower j.unresolved key with
        | none => rfl
        | some l' =>
          rw [(hfits.unresolved l' hunresolved).2] at happlying
          exact absurd happlying nofun

theorem SettledRow.safe (h : SettledRow q x key level) : SafeRow q x key level := by
  refine ⟨⟨fun _ => ?_, fun j hj => (h.journal j hj).1⟩, fun _ _ _ _ => h.inForce⟩
  cases happlying : q.level key with
  | some l =>
    left
    rw [happlying, h.applying l happlying]
  | none => exact Or.inr ⟨happlying, h.inForce⟩

theorem SettledRow.clear (h : SettledRow q x key level) :
    SettledRow (Queue.empty : Queue lower) x key level := by
  refine ⟨h.inForce, (fun _ h => nomatch h), fun j hj => ?_⟩
  obtain ⟨hfits, hunresolved, hempty⟩ := h.journal j hj
  refine ⟨⟨hfits.requested, fun hasked => ⟨rfl, (hfits.unasked hasked).2⟩, fun hphase => ?_,
    fun l hl => ?_, (fun _ h => nomatch h)⟩, hunresolved, fun _ => rfl⟩
  · rw [← hfits.queued hphase, hempty hphase]
    rfl
  · rw [hunresolved] at hl
    exact absurd hl nofun

theorem SettledRow.unlink_rollback (h : SettledRow q x key level) :
    SettledRow q { x with rollback := none } key level := by
  refine ⟨h.inForce, h.applying, fun j hj => ?_⟩
  obtain ⟨hfits, hrest⟩ := h.journal j hj
  exact ⟨⟨hfits.requested, fun hasked =>
    ⟨(hfits.unasked hasked).1, (hfits.unasked hasked).2.1, (fun _ h => nomatch h)⟩, hfits.queued,
    hfits.unresolved, hfits.applying⟩, hrest⟩

theorem SettledRow.unlink_journal (h : SettledRow q x key level) :
    SettledRow q { x with journal := none } key level :=
  ⟨h.inForce, h.applying, fun _ h => nomatch h⟩

theorem HeldRow.fits (h : HeldRow requested q x key level)
    (hqueue : ∀ key, q.level key = levelIn lower requested key) {j : Journal}
    (hrequested : j.requested = requested)
    (hunresolved : ∀ key l, firstLevelIn lower j.unresolved key = some l →
      levelIn lower requested key = some l) : Fits j q x key level := by
  have hlevel : ∀ l, levelIn lower requested key = some l → l = level := by
    intro l hl
    rcases h with h | ⟨h, _⟩
    · exact Option.some.inj (hl.symm.trans h)
    · rw [h] at hl
      exact absurd hl nofun
  refine ⟨?_, ?_, ?_, ?_, ?_⟩
  · rw [hrequested]
    exact hlevel
  · rw [hrequested]
    intro hasked
    rcases h with h | ⟨_, h | h⟩
    · rw [hasked] at h
      exact absurd h nofun
    · rw [hqueue, hasked] at h
      exact absurd h nofun
    · exact h
  · intro _
    rw [hrequested, hqueue]
  · intro l hl
    have hl' := hunresolved key l hl
    obtain rfl := hlevel l hl'
    exact ⟨rfl, (hqueue key).trans hl'⟩
  · intro l hl
    exact hlevel l ((hqueue key).symm.trans hl)

theorem UndoRow.settled (h : UndoRow requested q x key level)
    (hclaimed : levelIn lower requested key = none) (hqueue : q.level key = none) :
    SettledRow q x key level := by
  have hsteady : Steady lower x key level := by
    rcases h.1 with h' | ⟨_, h' | h'⟩
    · rw [hclaimed] at h'
      exact absurd h' nofun
    · rw [hqueue] at h'
      exact absurd h' nofun
    · exact h'.2
  refine ⟨hsteady.1, fun l hl => ?_, fun j hj => ⟨h.2.2 j hj, ?_, fun _ => hqueue⟩⟩
  · rw [hqueue] at hl
    exact absurd hl nofun
  · cases hunresolved : firstLevelIn lower j.unresolved key with
    | none => rfl
    | some l =>
      have hq := ((h.2.2 j hj).unresolved l hunresolved).2
      rw [hqueue] at hq
      exact absurd hq nofun

theorem HeldRow.given (h : HeldRow requested q x key level) {l : Int}
    (hl : (levelIn lower requested key).or (q.level key) = some l) : l = level := by
  rcases h with h | ⟨hnone, h | ⟨h, _⟩⟩
  · rw [h, Option.some_or] at hl
    exact (Option.some.inj hl).symm
  · rw [hnone, Option.none_or, h] at hl
    exact (Option.some.inj hl).symm
  · rw [hnone, Option.none_or, h] at hl
    exact absurd hl nofun

theorem UndoRow.restored (h : UndoRow requested q x key level) (hpaired : Paired x) {data : Json}
    (hdata : x.rollback = some data) :
    UndoRow requested q { x with ops := some data } key level := by
  have hsteady : Steady lower x key level →
      Steady lower { x with ops := some data } key level := fun hs =>
    ⟨hs.2 data hdata, hs.2⟩
  constructor
  · rcases h.1 with h' | ⟨hnone, h' | h'⟩
    · exact Or.inl h'
    · exact Or.inr ⟨hnone, Or.inl h'⟩
    · exact Or.inr ⟨hnone, Or.inr ⟨h'.1, hsteady h'.2⟩⟩
  · refine ⟨fun hj => ?_, fun j hj => ?_⟩
    · rw [hpaired hj] at hdata
      exact absurd hdata nofun
    · have hfits := h.2.2 j hj
      exact ⟨hfits.requested, fun hasked =>
        ⟨(hfits.unasked hasked).1, hsteady (hfits.unasked hasked).2⟩, hfits.queued,
        hfits.unresolved, hfits.applying⟩

theorem SafeRow.undo {j : Journal} (h : SafeRow q x key level) (hj : x.journal = some j) :
    UndoRow j.requested q x key level := by
  refine ⟨?_, h.1⟩
  have hfits := h.1.2 j hj
  cases hlevel : levelIn lower j.requested key with
  | some l =>
    left
    rw [hlevel, hfits.requested l hlevel]
  | none => exact Or.inr ⟨hlevel, Or.inr (hfits.unasked hlevel)⟩

end Rows

/-! ### Where a request may be lost -/

/-- The journal says that requests are applied, while `ops.json` does not hold one
of them and no newer request is queued. -/
def Torn (s : World lower) : Prop :=
  match s.site.journal with
  | none => False
  | some j => j.phase = .committed ∧ ∃ item ∈ j.requested,
      firstLevelIn lower j.unresolved (lower item.name) = none ∧
        s.pending.level (lower item.name) = none ∧
          ¬ InForce lower s.site.ops (lower item.name) item.level

/-- The journal is being read: it says that requests are applied, one of them is in
neither file of the queue, and the copy still has another level. -/
def Fading (s : World lower) : Prop :=
  s.site.readingState = true ∧
    match s.site.journal, s.site.rollback with
    | some j, some data => j.phase = .committed ∧ ∃ item ∈ j.requested,
        firstLevelIn lower j.unresolved (lower item.name) = none ∧
          s.pending.level (lower item.name) = none ∧
            s.applying.level (lower item.name) = none ∧
              ¬ InForce lower (some data) (lower item.name) item.level
    | _, _ => False

instance (s : World lower) : Decidable (Torn s) := by
  unfold Torn
  cases s.site.journal <;> infer_instance

instance (s : World lower) : Decidable (Fading s) := by
  unfold Fading
  cases s.site.journal <;> cases s.site.rollback <;> infer_instance

def Spared (k : Strike) (s : World lower) : Prop := ¬ Torn s ∧ ¬ (k = .fail ∧ Fading s)

instance (k : Strike) (s : World lower) : Decidable (Spared k s) :=
  inferInstanceAs (Decidable (_ ∧ _))

section Cuts

theorem Settled.safe {s : World lower} (h : Settled s) : Safe s :=
  ⟨h.1.mono fun _ _ => SettledRow.safe, h.2⟩

theorem Clean.safe {s : World lower} (h : Clean s) : Safe s := by
  refine ⟨h.1.mono fun key level hrow => ?_, fun _ => h.2.2⟩
  have hnone : ∀ j, s.site.journal ≠ some j := by
    intro j
    rw [h.2.1]
    exact nofun
  exact ⟨⟨fun _ => hrow, fun j hj => absurd hj (hnone j)⟩, fun j hj => absurd hj (hnone j)⟩

theorem Safe.clean {s : World lower} (h : Safe s) (hjournal : s.site.journal = none) : Clean s :=
  ⟨h.1.mono fun _ _ hrow => hrow.kept, hjournal, h.2 hjournal⟩

theorem Safe.undo {s : World lower} (h : Safe s) {j : Journal} (hj : s.site.journal = some j) :
    Undo (fun x => x.journal = some j) j.requested s :=
  ⟨h.1.mono fun _ _ hrow => hrow.undo hj, h.2, hj⟩

variable {s : World lower} {requested : List PendingOpLevel}

theorem Undo.safe {E : Site → Prop} (h : Undo E requested s) (hcut : ¬ Torn s) : Safe s := by
  refine ⟨fun key level hnewest => ?_, h.2.1⟩
  obtain ⟨hfresh, hrow⟩ := h.1 key level hnewest
  refine ⟨hfresh, fun hnone => ⟨(hrow hnone).2, fun j hj hcommitted hunresolved => ?_⟩⟩
  have hfits := (hrow hnone).2.2 j hj
  cases hlevel : levelIn lower j.requested key with
  | none => exact (hfits.unasked hlevel).2.1
  | some l =>
    obtain rfl := hfits.requested l hlevel
    by_contra hnot
    obtain ⟨item, hmem, rfl, rfl⟩ := exists_of_levelIn hlevel
    apply hcut
    unfold Torn
    rw [hj]
    exact ⟨hcommitted, item, hmem, hunresolved, hnone, hnot⟩

theorem Safe.undo_of_unreadable (h : Safe s) (hread : s.site.readingState = true)
    (hcut : ¬ Fading s) {j : Journal} (hj : s.site.journal = some j) :
    Undo (fun x => x.journal = some j) [] s := by
  refine ⟨fun key level hnewest => ?_, h.2, hj⟩
  obtain ⟨hfresh, hrow⟩ := h.1 key level hnewest
  refine ⟨hfresh, fun hnone => ⟨Or.inr ⟨rfl, ?_⟩, (hrow hnone).1⟩⟩
  have hsafe := hrow hnone
  have hfits := hsafe.1.2 j hj
  rcases hsafe.kept with hqueue | ⟨hqueue, hinForce⟩
  · exact Or.inl hqueue
  · refine Or.inr ⟨hqueue, hinForce, fun data hdata => ?_⟩
    cases hlevel : levelIn lower j.requested key with
    | none => exact (hfits.unasked hlevel).2.2 data hdata
    | some l =>
      have hphase : j.phase = .committed := by
        by_contra hphase
        rw [hfits.queued hphase, hlevel] at hqueue
        exact absurd hqueue nofun
      have hunresolved : firstLevelIn lower j.unresolved key = none := by
        cases hunresolved : firstLevelIn lower j.unresolved key with
        | none => rfl
        | some l' =>
          rw [(hfits.unresolved l' hunresolved).2] at hqueue
          exact absurd hqueue nofun
      obtain rfl := hfits.requested l hlevel
      by_contra hnot
      obtain ⟨item, hmem, rfl, rfl⟩ := exists_of_levelIn hlevel
      apply hcut
      unfold Fading
      rw [hj, hdata]
      exact ⟨hread, hphase, item, hmem, hunresolved, hnone, hqueue, hnot⟩

end Cuts

end OpLevelsWorker
