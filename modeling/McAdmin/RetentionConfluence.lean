import Mathlib.Data.Int.ConditionallyCompleteOrder
import McAdmin.BackupRetention
import McAdmin.Pruning

/-!
# Retention applied again and again

The settings stay, time passes, archives arrive: the retentions applied on the way delete
only what the last one would delete.
-/

namespace BackupRetention

open Runs Pruning
open RestoreGate (BackupArchive)

/-! ### The changes -/

def Policy.at (q : Policy) (now : ℤ) : Policy := { q with now }

inductive Change where
  | archived (archive : BackupArchive)
  | applied (now : ℤ) (unlinks : String → Bool)

def change (q : Policy) (archives : List BackupArchive) : Change → List BackupArchive
  | .archived archive => archive :: archives.filter (·.filename ≠ archive.filename)
  | .applied now unlinks =>
    deletePlanned unlinks (backupRetentionPlan (q.at now) archives).delete archives

def Change.isArchived : Change → Bool
  | .archived _ => true
  | .applied _ _ => false

def Change.archive : Change → Option BackupArchive
  | .archived archive => some archive
  | .applied _ _ => none

def arrivals (changes : List Change) : List BackupArchive := changes.filterMap Change.archive

def Change.Until (later : ℤ) : Change → Prop
  | .archived _ => True
  | .applied now _ => now ≤ later

def Distinct (a b : BackupArchive) : Prop := a.filename ≠ b.filename ∧ a.createdAt ≠ b.createdAt

instance : Std.Symm Distinct := ⟨fun _ _ h => ⟨h.1.symm, h.2.symm⟩⟩

instance (a b : BackupArchive) : Decidable (Distinct a b) :=
  inferInstanceAs (Decidable (a.filename ≠ b.filename ∧ a.createdAt ≠ b.createdAt))

/-- The archives that are left when the retention is applied, and all files are deleted
that it plans to. -/
def leftAt (q : Policy) (later : ℤ) (archives : List BackupArchive) : List BackupArchive :=
  change q archives (.applied later fun _ => true)

section

variable {q : Policy} {archives : List BackupArchive} {archive : BackupArchive} {now later : ℤ}

/-! ### What one retention deletes -/

def Supersedes (q : Policy) (newer archive : BackupArchive) : Prop :=
  newer.filename.startsWith q.scope = true ∧ archive.createdAt < newer.createdAt ∧
    monthKey newer = monthKey archive

theorem startsWith_at (q : Policy) (now : ℤ) (filename : String) :
    filename.startsWith (q.at now).scope = filename.startsWith q.scope := rfl

theorem at_daily (q : Policy) (now : ℤ) : (q.at now).daily = q.daily := rfl

theorem at_monthlyUntil (q : Policy) (now : ℤ) : (q.at now).monthlyUntil = q.monthlyUntil := rfl

theorem supersedes_at (q : Policy) (now : ℤ) : Supersedes (q.at now) = Supersedes q := rfl

/-- Past the first window, and past the second or with a newer archive of the month. -/
def Dated (q : Policy) (monthlyKept : List (ℤ × ℤ)) (archives : List BackupArchive)
    (archive : BackupArchive) : Prop :=
  archive.filename.startsWith q.scope = true ∧ q.daily * Ticks.day < q.age archive ∧
    (q.monthlyUntil * Ticks.day < q.age archive ∨ monthKey archive ∈ monthlyKept ∨
      ∃ newer ∈ archives, Supersedes q newer archive)

theorem dated_cons {monthlyKept : List (ℤ × ℤ)} {first : BackupArchive}
    (hin : first.filename.startsWith q.scope = true)
    (hfirst : archive.createdAt < first.createdAt) :
    Dated q monthlyKept (first :: archives) archive ↔
      Dated q (monthKey first :: monthlyKept) archives archive := by
  have hsupersedes : Supersedes q first archive ↔ monthKey archive = monthKey first :=
    ⟨fun h => h.2.2.symm, fun h => ⟨hin, hfirst, h.symm⟩⟩
  rw [Dated, List.exists_mem_cons_iff, hsupersedes, Dated, List.mem_cons]
  tauto

theorem dated_skip {monthlyKept : List (ℤ × ℤ)} {first : BackupArchive}
    (hskip : Supersedes q first archive → q.monthlyUntil * Ticks.day < q.age archive ∨
      monthKey archive ∈ monthlyKept) :
    Dated q monthlyKept (first :: archives) archive ↔ Dated q monthlyKept archives archive := by
  rw [Dated, List.exists_mem_cons_iff, Dated]
  tauto

theorem dated_keeping {monthlyKept : List (ℤ × ℤ)} {first : BackupArchive}
    (hin : first.filename.startsWith q.scope = true)
    (hfirst : ∀ a ∈ archives, a.createdAt < first.createdAt)
    (hkept : ¬ Dated q monthlyKept (first :: archives) first) :
    archive ∈ first :: archives ∧ Dated q monthlyKept (first :: archives) archive ↔
      archive ∈ archives ∧ Dated q (monthKey first :: monthlyKept) archives archive := by
  constructor
  · rintro ⟨hmem, hdated⟩
    rcases List.mem_cons.mp hmem with rfl | hmem
    · exact absurd hdated hkept
    · exact ⟨hmem, (dated_cons hin (hfirst _ hmem)).mp hdated⟩
  · rintro ⟨hmem, hdated⟩
    exact ⟨List.mem_cons_of_mem _ hmem, (dated_cons hin (hfirst _ hmem)).mpr hdated⟩

theorem dated_passing {monthlyKept : List (ℤ × ℤ)} {first : BackupArchive}
    (hskip : ∀ a ∈ archives, Supersedes q first a →
      q.monthlyUntil * Ticks.day < q.age a ∨ monthKey a ∈ monthlyKept) :
    archive ∈ first :: archives ∧ Dated q monthlyKept (first :: archives) archive ↔
      archive = first ∧ Dated q monthlyKept (first :: archives) first ∨
        archive ∈ archives ∧ Dated q monthlyKept archives archive := by
  constructor
  · rintro ⟨hmem, hdated⟩
    rcases List.mem_cons.mp hmem with rfl | hmem
    · exact .inl ⟨rfl, hdated⟩
    · exact .inr ⟨hmem, (dated_skip (hskip _ hmem)).mp hdated⟩
  · rintro (⟨rfl, hdated⟩ | ⟨hmem, hdated⟩)
    · exact ⟨List.mem_cons_self, hdated⟩
    · exact ⟨List.mem_cons_of_mem _ hmem, (dated_skip (hskip _ hmem)).mpr hdated⟩

theorem mem_planFrom_delete {monthlyKept : List (ℤ × ℤ)}
    (hsorted : archives.Pairwise fun a b => b.createdAt < a.createdAt) :
    (∃ item ∈ (planFrom q monthlyKept archives).delete, item.archive = archive) ↔
      archive ∈ archives ∧ Dated q monthlyKept archives archive := by
  induction archives generalizing monthlyKept with
  | nil => simp [planFrom]
  | cons first archives ih =>
    rcases List.pairwise_cons.mp hsorted with ⟨hfirst, hrest⟩
    simp only [planFrom]
    -- the newest archive first, as the source goes: out of scope, or in one of its windows
    by_cases hscope : first.filename.startsWith q.scope = false
    · have hout : ¬ first.filename.startsWith q.scope = true := by simp [hscope]
      rw [if_pos hscope, ih hrest, dated_passing fun a _ h => absurd h.1 hout]
      exact ⟨.inr, fun h => h.resolve_left fun hself => hout hself.2.1⟩
    have hin : first.filename.startsWith q.scope = true := by simpa using hscope
    rw [if_neg hscope]
    by_cases hdaily : q.age first ≤ q.daily * Ticks.day
    · have hkept : ¬ Dated q monthlyKept (first :: archives) first :=
        fun hdated => not_lt.mpr hdaily hdated.2.1
      rw [if_pos hdaily, keeping_delete, ih hrest, dated_keeping hin hfirst hkept]
    have hpast : q.daily * Ticks.day < q.age first := not_le.mp hdaily
    rw [if_neg hdaily]
    by_cases hmonthly : q.age first ≤ q.monthlyUntil * Ticks.day
    · rw [if_pos hmonthly]
      by_cases hseen : monthKey first ∈ monthlyKept
      · rw [if_pos hseen, dated_passing fun a _ h => .inr (h.2.2 ▸ hseen), ← ih hrest]
        have hdated : Dated q monthlyKept (first :: archives) first :=
          ⟨hin, hpast, .inr (.inl hseen)⟩
        simp [hdated, eq_comm]
      · have hkept : ¬ Dated q monthlyKept (first :: archives) first := by
          rintro ⟨_, _, hexpired | hmonth | ⟨newer, hmem, _, hnewer, _⟩⟩
          · exact not_lt.mpr hmonthly hexpired
          · exact hseen hmonth
          · rcases List.mem_cons.mp hmem with rfl | hmem
            · exact lt_irrefl _ hnewer
            · exact lt_asymm hnewer (hfirst newer hmem)
        rw [if_neg hseen, keeping_delete, ih hrest, dated_keeping hin hfirst hkept]
    -- once one is past the monthly window, the older ones are
    · have hexpired : ∀ a ∈ archives, q.monthlyUntil * Ticks.day < q.age a := by
        intro a hmem
        have hnewer := hfirst a hmem
        simp only [Policy.age] at hmonthly ⊢
        omega
      rw [if_neg hmonthly, dated_passing fun a hmem _ => .inl (hexpired a hmem), ← ih hrest]
      have hdated : Dated q monthlyKept (first :: archives) first :=
        ⟨hin, hpast, .inl (not_le.mp hmonthly)⟩
      simp [hdated, eq_comm]

theorem mem_backupRetentionPlan_delete
    (hdates : archives.Pairwise fun a b => a.createdAt ≠ b.createdAt) :
    (∃ item ∈ (backupRetentionPlan q archives).delete, item.archive = archive) ↔
      archive ∈ archives ∧ Dated q [] archives archive := by
  have hsort := List.perm_insertionSort (fun a b : BackupArchive => b.createdAt ≤ a.createdAt)
    archives
  have hsorted : (archives.insertionSort fun a b => b.createdAt ≤ a.createdAt).Pairwise
      fun a b => b.createdAt < a.createdAt := by
    have : IsTrans BackupArchive fun a b => b.createdAt ≤ a.createdAt :=
      ⟨fun _ _ _ hab hbc => le_trans hbc hab⟩
    have : Std.Total fun a b : BackupArchive => b.createdAt ≤ a.createdAt :=
      ⟨fun a b => le_total b.createdAt a.createdAt⟩
    have hle := List.pairwise_insertionSort
      (fun a b : BackupArchive => b.createdAt ≤ a.createdAt) archives
    have hne := (hsort.pairwise_iff fun h => Ne.symm h).mpr hdates
    exact hle.imp₂ (fun _ _ hle hne => lt_of_le_of_ne hle hne.symm) hne
  rw [backupRetentionPlan, mem_planFrom_delete hsorted, Dated, Dated, hsort.mem_iff]
  simp only [hsort.mem_iff]

theorem deletePlanned_sublist (unlinks : String → Bool) (items : List BackupRetentionItem)
    (archives : List BackupArchive) : (deletePlanned unlinks items archives).Sublist archives := by
  induction items generalizing archives with
  | nil => exact List.Sublist.refl _
  | cons item items ih =>
    apply (ih _).trans
    simp only [deleteArchive]
    split
    · exact List.filter_sublist
    · exact List.Sublist.refl _

theorem mem_deletePlanned {unlinks : String → Bool} {items : List BackupRetentionItem} :
    archive ∈ deletePlanned unlinks items archives ↔
      archive ∈ archives ∧ ¬ ((deletable archive.filename && unlinks archive.filename) = true ∧
        ∃ item ∈ items, item.archive.filename = archive.filename) := by
  induction items generalizing archives with
  | nil => simp [deletePlanned]
  | cons item items ih =>
    have hfirst : archive ∈ deleteArchive unlinks archives item.archive.filename ↔
        archive ∈ archives ∧ ¬ ((deletable archive.filename && unlinks archive.filename) = true ∧
          item.archive.filename = archive.filename) := by
      simp only [deleteArchive]
      by_cases heq : item.archive.filename = archive.filename
      · rw [heq]
        split
        · simp_all
        · simp_all
      · split
        · simp [heq, Ne.symm heq]
        · simp [heq]
    rw [deletePlanned, List.foldl_cons, ← deletePlanned, ih, hfirst, List.exists_mem_cons_iff,
      and_or_left, not_or, and_assoc]

/-! ### The rule it prunes by -/

def Policy.rule (q : Policy) : Rule ℤ BackupArchive where
  dominates := Supersedes q
  irrefl _ h := lt_irrefl _ h.2.1
  trans hab hbc := ⟨hab.1, hbc.2.1.trans hab.2.1, hab.2.2.trans hbc.2.2⟩
  due now archive := deletable archive.filename = true ∧
    archive.filename.startsWith q.scope = true ∧ q.daily * Ticks.day < (q.at now).age archive
  due_mono htime h := ⟨h.1, h.2.1, h.2.2.trans_le (Int.sub_le_sub_right htime _)⟩
  expired now archive := q.monthlyUntil * Ticks.day < (q.at now).age archive
  expired_mono htime h := h.trans_le (Int.sub_le_sub_right htime _)
  expired_dominated hnewer h := h.trans (Int.sub_lt_sub_left hnewer.2.1 _)

theorem rule_due (q : Policy) (now : ℤ) (archive : BackupArchive) :
    q.rule.due now archive ↔ deletable archive.filename = true ∧
      archive.filename.startsWith q.scope = true ∧
        q.daily * Ticks.day < (q.at now).age archive := Iff.rfl

theorem rule_expired (q : Policy) (now : ℤ) (archive : BackupArchive) :
    q.rule.expired now archive ↔ q.monthlyUntil * Ticks.day < (q.at now).age archive := Iff.rfl

theorem rule_dominates (q : Policy) (newer archive : BackupArchive) :
    q.rule.dominates newer archive ↔ Supersedes q newer archive := Iff.rfl

theorem mem_change_applied {unlinks : String → Bool} (hdistinct : archives.Pairwise Distinct) :
    archive ∈ change q archives (.applied now unlinks) ↔
      archive ∈ archives ∧ ¬ (unlinks archive.filename = true ∧
        q.rule.Condemned now {a | a ∈ archives} archive) := by
  have hplan : (∃ item ∈ (backupRetentionPlan (q.at now) archives).delete, item.archive = archive) ↔
      archive ∈ archives ∧ Dated (q.at now) [] archives archive :=
    mem_backupRetentionPlan_delete (hdistinct.imp fun h => h.2)
  simp only [change, mem_deletePlanned]
  apply and_congr_right
  intro hmem
  have hnamed : (∃ item ∈ (backupRetentionPlan (q.at now) archives).delete,
      item.archive.filename = archive.filename) ↔ Dated (q.at now) [] archives archive := by
    constructor
    · rintro ⟨item, hitem, hname⟩
      have hlisted := mem_of_delete hitem
      have heq : item.archive = archive := by
        by_contra hne
        exact (hdistinct.forall hlisted hmem hne).1 hname
      exact (hplan.mp ⟨item, hitem, heq⟩).2
    · intro hdated
      rcases hplan.mpr ⟨hmem, hdated⟩ with ⟨item, hitem, heq⟩
      exact ⟨item, hitem, heq ▸ rfl⟩
  rw [hnamed, Bool.and_eq_true, Rule.Condemned, and_comm (b := unlinks archive.filename = true)]
  simp only [Dated, List.not_mem_nil, false_or, startsWith_at, at_daily, at_monthlyUntil,
    supersedes_at, rule_due, rule_expired, rule_dominates, Set.mem_ofPred_eq, and_assoc]

/-! ### Runs -/

def alone (changes : List Change) : List Change := changes.filter Change.isArchived

/-- Of all the archives that have come, the ones missing are condemned later. -/
structure Ahead (q : Policy) (later : ℤ) (all archives : List BackupArchive) : Prop where
  arrived : all.Pairwise Distinct
  current : archives.Pairwise Distinct
  pruned : q.rule.Pruned later {a | a ∈ all} {a | a ∈ archives}

theorem change_archived (hnew : ∀ a ∈ archives, Distinct archive a) :
    change q archives (.archived archive) = archive :: archives := by
  have hother : ∀ a ∈ archives, a.filename ≠ archive.filename := fun a ha => (hnew a ha).1.symm
  simpa [change] using hother

theorem arrival_distinct {changes : List Change}
    (hdistinct : (archives ++ arrivals (.archived archive :: changes)).Pairwise Distinct) :
    (∀ a ∈ archives, Distinct archive a) ∧
      (change q archives (.archived archive) ++ arrivals changes).Pairwise Distinct := by
  have hnew : ∀ a ∈ archives, Distinct archive a := by
    intro a ha
    exact symm ((List.pairwise_append.mp hdistinct).2.2 a ha archive List.mem_cons_self)
  refine ⟨hnew, ?_⟩
  rw [change_archived hnew]
  exact (List.perm_middle.pairwise_iff symm).mp hdistinct

theorem Ahead.archived {all : List BackupArchive} (h : Ahead q later all archives)
    (hnew : ∀ a ∈ all, Distinct archive a) :
    Ahead q later (change q all (.archived archive)) (change q archives (.archived archive)) := by
  have hnew' : ∀ a ∈ archives, Distinct archive a := fun a ha => hnew a (h.pruned.subset ha)
  rw [change_archived hnew, change_archived hnew']
  refine ⟨List.pairwise_cons.mpr ⟨hnew, h.arrived⟩, List.pairwise_cons.mpr ⟨hnew', h.current⟩, ?_⟩
  have hinsert := h.pruned.insert archive
  simpa [Set.insert_def] using hinsert

theorem Ahead.applied {all : List BackupArchive} (h : Ahead q later all archives)
    (hearlier : now ≤ later) (unlinks : String → Bool) :
    Ahead q later all (change q archives (.applied now unlinks)) := by
  refine ⟨h.arrived, h.current.sublist (deletePlanned_sublist _ _ _), h.pruned.trans hearlier ?_⟩
  refine ⟨fun a ha => ((mem_change_applied h.current).mp ha).1, ?_⟩
  intro a ha hmissing
  by_contra hspared
  exact hmissing ((mem_change_applied h.current).mpr ⟨ha, fun hgone => hspared hgone.2⟩)

theorem Ahead.runs {all : List BackupArchive} {changes : List Change}
    (h : Ahead q later all archives) (hdistinct : (all ++ arrivals changes).Pairwise Distinct)
    (hearlier : ∀ c ∈ changes, c.Until later) :
    Ahead q later (run (change q) all (alone changes)) (run (change q) archives changes) := by
  induction changes generalizing all archives with
  | nil => exact h
  | cons c changes ih =>
    have hearlier' : ∀ c ∈ changes, c.Until later :=
      fun c hc => hearlier c (List.mem_cons_of_mem _ hc)
    cases c with
    | archived archive =>
      rcases arrival_distinct (q := q) hdistinct with ⟨hnew, hnext⟩
      exact ih (h.archived hnew) hnext hearlier'
    | applied now unlinks =>
      exact ih (h.applied (hearlier _ List.mem_cons_self) unlinks) hdistinct hearlier'

theorem subset_alone {all : List BackupArchive} {changes : List Change}
    (hdistinct : (all ++ arrivals changes).Pairwise Distinct) :
    all ⊆ run (change q) all (alone changes) := by
  induction changes generalizing all with
  | nil => exact List.Subset.refl _
  | cons c changes ih =>
    cases c with
    | archived archive =>
      rcases arrival_distinct (q := q) hdistinct with ⟨hnew, hnext⟩
      apply List.Subset.trans _ (ih hnext)
      rw [change_archived hnew]
      exact List.subset_cons_self archive all
    | applied now unlinks => exact ih hdistinct

theorem Ahead.along {all : List BackupArchive} {changes : List Change}
    (h : Ahead q later all archives) (hdistinct : (all ++ arrivals changes).Pairwise Distinct)
    (hearlier : ∀ c ∈ changes, c.Until later) :
    Along (change q) (fun archives c => ∀ a ∈ archives,
      a ∈ leftAt q later (run (change q) all (alone changes)) → a ∈ change q archives c)
      archives changes := by
  induction changes generalizing all archives with
  | nil => trivial
  | cons c changes ih =>
    have hends := h.runs hdistinct hearlier
    have hgrown := subset_alone (q := q) hdistinct
    have hearlier' : ∀ c ∈ changes, c.Until later :=
      fun c hc => hearlier c (List.mem_cons_of_mem _ hc)
    cases c with
    | archived archive =>
      rcases arrival_distinct (q := q) hdistinct with ⟨hnew, hnext⟩
      refine ⟨?_, ih (h.archived hnew) hnext hearlier'⟩
      intro a ha _
      rw [change_archived fun a ha => hnew a (h.pruned.subset ha)]
      exact List.mem_cons_of_mem _ ha
    | applied now unlinks =>
      have htime : now ≤ later := hearlier _ List.mem_cons_self
      refine ⟨?_, ih (h.applied htime unlinks) hdistinct hearlier'⟩
      intro a ha hleft
      apply (mem_change_applied h.current).mpr
      refine ⟨ha, ?_⟩
      rintro ⟨_, hcondemned⟩
      apply ((mem_change_applied hends.arrived).mp hleft).2
      exact ⟨rfl, hcondemned.mono htime fun b hb => hgrown (h.pruned.subset hb)⟩

end

/-- With the same settings, the retentions applied before take nothing that the last one
would have left, whichever files they fail to delete. -/
theorem retention_confluent (q : Policy) (archives : List BackupArchive) (changes : List Change)
    (later : ℤ) (hdistinct : (archives ++ arrivals changes).Pairwise Distinct)
    (hearlier : ∀ c ∈ changes, c.Until later) :
    (∀ a, a ∈ leftAt q later (run (change q) archives changes) ↔
      a ∈ leftAt q later (run (change q) archives (alone changes))) ∧
    Along (change q) (fun current c => ∀ a ∈ current,
      a ∈ leftAt q later (run (change q) archives (alone changes)) → a ∈ change q current c)
      archives changes := by
  have hstart : Ahead q later archives archives :=
    ⟨(List.pairwise_append.mp hdistinct).1, (List.pairwise_append.mp hdistinct).1,
      Rule.Pruned.refl _ _ _⟩
  refine ⟨?_, hstart.along hdistinct hearlier⟩
  have hends := hstart.runs hdistinct hearlier
  have hleft := hends.pruned.left_eq (List.finite_toSet _)
  intro a
  have hmem : ∀ {archives : List BackupArchive}, archives.Pairwise Distinct →
      (a ∈ leftAt q later archives ↔ a ∈ q.rule.left later {a | a ∈ archives}) := by
    intro archives hdistinct
    simp [leftAt, mem_change_applied hdistinct, Rule.left]
  rw [hmem hends.current, hmem hends.arrived, hleft]

def january (d : ℤ) : BackupArchive := ⟨s!"scheduled/{d}.tar.gz", 1, d * Ticks.day⟩

/-- A retention, an arrival, and one that cannot delete. -/
def januaryChanges : List Change :=
  [.applied (50 * Ticks.day) fun _ => true, .archived (january 60),
    .applied (70 * Ticks.day) fun _ => false]

/-- Of two archives of a month, the first is deleted by the first retention. -/
theorem retention_confluent_january :
    run (change { now := 0 }) [january 10, january 12] januaryChanges =
      [january 60, january 12] ∧
    ∀ a, a ∈ leftAt { now := 0 } (100 * Ticks.day)
        (run (change { now := 0 }) [january 10, january 12] januaryChanges) ↔
      a ∈ leftAt { now := 0 } (100 * Ticks.day)
        (run (change { now := 0 }) [january 10, january 12] (alone januaryChanges)) := by
  refine ⟨by decide +kernel, ?_⟩
  apply (retention_confluent { now := 0 } [january 10, january 12] januaryChanges
    (100 * Ticks.day) ?_ ?_).1
  · decide +kernel
  · simp [januaryChanges, Change.Until, Ticks.day]

end BackupRetention
