import McAdmin.RetentionConfluence

/-!
# What a retention keeps

The plan goes through the archives once, from the newest on, with the months of which one is
kept.  What comes out is a rule on the archives alone: the recent ones stay, and of the others
the newest of its month.
-/

namespace BackupRetention

open RestoreGate (BackupArchive)

/-! ### The rule -/

def Policy.InScope (q : Policy) (archive : BackupArchive) : Prop :=
  archive.filename.startsWith q.scope = true

/-- Past the days of which everything is kept; there is at least one. -/
def Policy.Beyond (q : Policy) (archive : BackupArchive) : Prop :=
  q.daily * Ticks.day < q.age archive

def Policy.Newest (q : Policy) (archives : List BackupArchive) (archive : BackupArchive) : Prop :=
  q.InScope archive ∧ ∀ other ∈ archives, q.InScope other → monthKey other = monthKey archive →
    other.createdAt ≤ archive.createdAt

def BackupRetentionPlan.kept (plan : BackupRetentionPlan) : List BackupArchive :=
  plan.keep.map (·.archive)

def BackupRetentionPlan.deleted (plan : BackupRetentionPlan) : List BackupArchive :=
  plan.delete.map (·.archive)

structure Follows (q : Policy) (archives : List BackupArchive) (plan : BackupRetentionPlan) :
    Prop where
  partition : (plan.kept ++ plan.deleted).Perm
    (archives.filter fun archive => archive.filename.startsWith q.scope)
  disjoint : plan.kept.Disjoint plan.deleted
  recent : ∀ archive ∈ archives, q.InScope archive →
    q.age archive ≤ q.dailyDays * Ticks.day → archive ∈ plan.kept
  newest : ∀ archive ∈ archives, q.Newest archives archive →
    q.age archive ≤ q.monthlyUntil * Ticks.day → archive ∈ plan.kept
  monthly : ∀ archive ∈ plan.kept, ∀ other ∈ plan.kept, q.Beyond archive → q.Beyond other →
    monthKey archive = monthKey other → archive = other
  window : ∀ archive ∈ plan.kept, q.Beyond archive →
    q.age archive ≤ q.monthly * 31 * Ticks.day

section

variable {q : Policy} {archives : List BackupArchive} {archive : BackupArchive}

/-! ### The two halves of a plan -/

theorem kept_keeping (plan : BackupRetentionPlan) (archive : BackupArchive) (reason : String) :
    (plan.keeping archive reason).kept = archive :: plan.kept := rfl

theorem deleted_keeping (plan : BackupRetentionPlan) (archive : BackupArchive) (reason : String) :
    (plan.keeping archive reason).deleted = plan.deleted := rfl

theorem kept_deleting (plan : BackupRetentionPlan) (archive : BackupArchive) (reason : String) :
    (plan.deleting archive reason).kept = plan.kept := rfl

theorem deleted_deleting (plan : BackupRetentionPlan) (archive : BackupArchive)
    (reason : String) : (plan.deleting archive reason).deleted = archive :: plan.deleted := rfl

theorem planFrom_perm (q : Policy) (monthlyKept : List (ℤ × ℤ)) (archives : List BackupArchive) :
    ((planFrom q monthlyKept archives).kept ++ (planFrom q monthlyKept archives).deleted).Perm
      (archives.filter fun archive => archive.filename.startsWith q.scope) := by
  induction archives generalizing monthlyKept with
  | nil => exact List.Perm.refl _
  | cons first archives ih =>
    simp only [planFrom]
    by_cases hscope : first.filename.startsWith q.scope = false
    · rw [if_pos hscope, List.filter_cons_of_neg (by simp [hscope])]
      exact ih monthlyKept
    have hin : first.filename.startsWith q.scope = true := by simpa using hscope
    have hkeeping : ∀ monthlyKept reason,
        (((planFrom q monthlyKept archives).keeping first reason).kept ++
          ((planFrom q monthlyKept archives).keeping first reason).deleted).Perm
          (first :: archives.filter fun archive => archive.filename.startsWith q.scope) := by
      intro monthlyKept reason
      rw [kept_keeping, deleted_keeping, List.cons_append]
      exact (ih monthlyKept).cons first
    have hdeleting : ∀ monthlyKept reason,
        (((planFrom q monthlyKept archives).deleting first reason).kept ++
          ((planFrom q monthlyKept archives).deleting first reason).deleted).Perm
          (first :: archives.filter fun archive => archive.filename.startsWith q.scope) := by
      intro monthlyKept reason
      rw [kept_deleting, deleted_deleting]
      exact List.perm_middle.trans ((ih monthlyKept).cons first)
    have hfilter : ((first :: archives).filter fun archive =>
        archive.filename.startsWith q.scope) =
        first :: archives.filter fun archive => archive.filename.startsWith q.scope :=
      List.filter_cons_of_pos hin
    rw [if_neg hscope, hfilter]
    split_ifs
    · exact hkeeping _ _
    · exact hdeleting _ _
    · exact hkeeping _ _
    · exact hdeleting _ _

theorem backupRetentionPlan_perm (q : Policy) (archives : List BackupArchive) :
    ((backupRetentionPlan q archives).kept ++ (backupRetentionPlan q archives).deleted).Perm
      (archives.filter fun archive => archive.filename.startsWith q.scope) :=
  (planFrom_perm q [] _).trans ((List.perm_insertionSort _ archives).filter _)

theorem planned_nodup (hdates : archives.Pairwise fun a b => a.createdAt ≠ b.createdAt) :
    ((backupRetentionPlan q archives).kept ++ (backupRetentionPlan q archives).deleted).Nodup := by
  have hnodup : archives.Nodup := hdates.imp fun hne heq => hne (congrArg _ heq)
  exact (backupRetentionPlan_perm q archives).nodup_iff.mpr (hnodup.filter _)

theorem mem_deleted (hdates : archives.Pairwise fun a b => a.createdAt ≠ b.createdAt) :
    archive ∈ (backupRetentionPlan q archives).deleted ↔
      archive ∈ archives ∧ Dated q [] archives archive := by
  rw [← mem_backupRetentionPlan_delete hdates, BackupRetentionPlan.deleted, List.mem_map]

theorem mem_kept (hdates : archives.Pairwise fun a b => a.createdAt ≠ b.createdAt) :
    archive ∈ (backupRetentionPlan q archives).kept ↔
      archive ∈ archives ∧ q.InScope archive ∧ ¬ Dated q [] archives archive := by
  have hplanned : archive ∈ (backupRetentionPlan q archives).kept ∨
      archive ∈ (backupRetentionPlan q archives).deleted ↔
        archive ∈ archives ∧ q.InScope archive := by
    rw [← List.mem_append, (backupRetentionPlan_perm q archives).mem_iff, List.mem_filter,
      Policy.InScope]
  have hdisjoint := (List.nodup_append'.mp (planned_nodup (q := q) hdates)).2.2
  constructor
  · intro hkept
    rcases hplanned.mp (.inl hkept) with ⟨hmem, hscope⟩
    exact ⟨hmem, hscope, fun hdated => hdisjoint hkept ((mem_deleted hdates).mpr ⟨hmem, hdated⟩)⟩
  · rintro ⟨hmem, hscope, hspared⟩
    rcases hplanned.mpr ⟨hmem, hscope⟩ with hkept | hdeleted
    · exact hkept
    · exact absurd ((mem_deleted hdates).mp hdeleted).2 hspared

/-! ### What is kept -/

theorem not_dated_of_beyond (hscope : q.InScope archive) (hbeyond : q.Beyond archive)
    (hspared : ¬ Dated q [] archives archive) :
    q.Newest archives archive ∧ q.age archive ≤ q.monthlyUntil * Ticks.day := by
  refine ⟨⟨hscope, ?_⟩, ?_⟩
  · intro other hmem hother hmonth
    by_contra hnewer
    exact hspared ⟨hscope, hbeyond, .inr (.inr ⟨other, hmem, hother, not_le.mp hnewer, hmonth⟩)⟩
  · by_contra hexpired
    exact hspared ⟨hscope, hbeyond, .inl (not_le.mp hexpired)⟩

theorem not_dated_of_newest (hnewest : q.Newest archives archive)
    (hwindow : q.age archive ≤ q.monthlyUntil * Ticks.day) : ¬ Dated q [] archives archive := by
  rintro ⟨_, _, hexpired | hmonth | ⟨newer, hmem, hnewer, hdate, hmonth⟩⟩
  · exact not_lt.mpr hwindow hexpired
  · cases hmonth
  · exact not_lt.mpr (hnewest.2 newer hmem hnewer hmonth) hdate

theorem dated_of_wider {dailyDays monthlyMonths : ℤ} (hdaily : q.dailyDays ≤ dailyDays)
    (hmonthly : q.monthlyMonths ≤ monthlyMonths)
    (h : Dated { q with dailyDays, monthlyMonths } [] archives archive) :
    Dated q [] archives archive := by
  rcases h with ⟨hscope, hbeyond, hlost⟩
  simp only [Policy.monthlyUntil, Policy.daily, Policy.monthly, Policy.age] at hbeyond hlost
  refine ⟨hscope, ?_, hlost.imp_left fun hexpired => ?_⟩
  · simp only [Policy.daily, Policy.age, Ticks.day] at hbeyond ⊢
    omega
  · simp only [Policy.monthlyUntil, Policy.daily, Policy.monthly, Policy.age, Ticks.day]
      at hexpired ⊢
    omega

end

/-- Whatever the archives, the plan follows the rule, and longer settings keep what was kept. -/
theorem backupRetentionPlan_follows (q : Policy) (archives : List BackupArchive)
    (hdates : archives.Pairwise fun a b => a.createdAt ≠ b.createdAt) :
    Follows q archives (backupRetentionPlan q archives) ∧
      ∀ dailyDays monthlyMonths : ℤ, q.dailyDays ≤ dailyDays → q.monthlyMonths ≤ monthlyMonths →
        (backupRetentionPlan q archives).kept ⊆
          (backupRetentionPlan { q with dailyDays, monthlyMonths } archives).kept := by
  have hwindow : ∀ archive ∈ (backupRetentionPlan q archives).kept, q.Beyond archive →
      q.Newest archives archive ∧ q.age archive ≤ q.monthlyUntil * Ticks.day := by
    intro archive hkept hbeyond
    rcases (mem_kept hdates).mp hkept with ⟨_, hscope, hspared⟩
    exact not_dated_of_beyond hscope hbeyond hspared
  refine ⟨⟨backupRetentionPlan_perm q archives, ?_, ?_, ?_, ?_, ?_⟩, ?_⟩
  · exact (List.nodup_append'.mp (planned_nodup hdates)).2.2
  · intro archive hmem hscope hrecent
    refine (mem_kept hdates).mpr ⟨hmem, hscope, fun hdated => ?_⟩
    have hbeyond := hdated.2.1
    simp only [Policy.daily, Ticks.day] at hbeyond hrecent
    omega
  · intro archive hmem hnewest hage
    exact (mem_kept hdates).mpr ⟨hmem, hnewest.1, not_dated_of_newest hnewest hage⟩
  · intro archive hkept other hother hbeyond hbeyond' hmonth
    have hnewest := (hwindow archive hkept hbeyond).1
    have hnewest' := (hwindow other hother hbeyond').1
    rcases (mem_kept hdates).mp hkept with ⟨hmem, hscope, _⟩
    rcases (mem_kept hdates).mp hother with ⟨hmem', hscope', _⟩
    -- two newest of one month have one date, and dates are distinct
    have hdate : archive.createdAt = other.createdAt :=
      le_antisymm (hnewest'.2 archive hmem hscope hmonth)
        (hnewest.2 other hmem' hscope' hmonth.symm)
    by_contra hne
    have : Std.Symm fun a b : BackupArchive => a.createdAt ≠ b.createdAt := ⟨fun _ _ h => h.symm⟩
    exact hdates.forall hmem hmem' hne hdate
  · intro archive hkept hbeyond
    have hage := (hwindow archive hkept hbeyond).2
    simp only [Policy.Beyond, Policy.monthlyUntil, Ticks.day] at hbeyond hage ⊢
    omega
  · intro dailyDays monthlyMonths hdaily hmonthly archive hkept
    rcases (mem_kept hdates).mp hkept with ⟨hmem, hscope, hspared⟩
    exact (mem_kept hdates).mpr
      ⟨hmem, hscope, fun hdated => hspared (dated_of_wider hdaily hmonthly hdated)⟩

/-- Two archives of January and one of March, the second of January the newest of its month. -/
theorem backupRetentionPlan_follows_january :
    (backupRetentionPlan { now := 80 * Ticks.day } [january 10, january 12, january 60]).kept =
      [january 60, january 12] ∧
    Follows { now := 80 * Ticks.day } [january 10, january 12, january 60]
      (backupRetentionPlan { now := 80 * Ticks.day } [january 10, january 12, january 60]) :=
  ⟨by decide +kernel, (backupRetentionPlan_follows _ _ (by decide +kernel)).1⟩

end BackupRetention
