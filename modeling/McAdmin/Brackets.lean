import Mathlib.Data.List.Basic

/-!
# Rows of brackets

A row of brackets of several kinds is nested when each that stops something stops what was started
last.  Where the brackets of each kind take turns, a row is nested exactly when no two spans cross:
between the two ends of a span there are whole spans of each kind only.
-/

namespace Brackets

inductive Bracket (κ : Type) where
  | start (kind : κ)
  | stop (kind : κ)
deriving DecidableEq

def Bracket.kind {κ : Type} : Bracket κ → κ
  | .start k | .stop k => k

section

variable {κ : Type} [DecidableEq κ]

/-- What is open after a row, the last first, unless something else than the last is stopped. -/
def run : List κ → List (Bracket κ) → Option (List κ)
  | opened, [] => some opened
  | opened, .start k :: row => run (k :: opened) row
  | [], .stop _ :: _ => none
  | k' :: opened, .stop k :: row => if k' = k then run opened row else none

/-- Whether a kind's brackets take turns and end closed, when it is open at first or not. -/
def alternates (k : κ) : Bool → List (Bracket κ) → Bool
  | opened, [] => !opened
  | opened, .start k' :: row =>
    if k' = k then !opened && alternates k true row else alternates k opened row
  | opened, .stop k' :: row =>
    if k' = k then opened && alternates k false row else alternates k opened row

/-- A row of whole spans of a kind, apart from brackets of other kinds. -/
def Whole (k : κ) (row : List (Bracket κ)) : Prop := alternates k false row = true

/-- Between the two ends of a span there are whole spans of each kind. -/
def Uncrossed (row : List (Bracket κ)) : Prop :=
  ∀ k before inner after, row = before ++ .start k :: inner ++ .stop k :: after →
    .stop k ∉ inner → ∀ k', Whole k' inner

/-! ### Runs -/

variable {k k' : κ} {row row' inner rest : List (Bracket κ)} {opened opened' more : List κ}
  {isOpen : Bool}

theorem run_append : run opened (row ++ row') = (run opened row).bind fun s => run s row' := by
  induction row generalizing opened with
  | nil => rfl
  | cons b row ih =>
    cases b with
    | start k => exact ih
    | stop k =>
      cases opened with
      | nil => rfl
      | cons k' opened =>
        rw [List.cons_append, run, run]
        split_ifs
        · exact ih
        · rfl

/-- What a row does not stop is open after it. -/
theorem run_of_notMem (h : run (opened ++ k :: more) row = some opened') (hk : .stop k ∉ row) :
    ∃ left, opened' = left ++ k :: more ∧ run opened row = some left := by
  induction row generalizing opened with
  | nil =>
    cases h
    exact ⟨opened, rfl, rfl⟩
  | cons b row ih =>
    have hrow : .stop k ∉ row := fun hmem => hk (List.mem_cons_of_mem b hmem)
    cases b with
    | start j => exact @ih (j :: opened) h hrow
    | stop j =>
      cases opened with
      | nil =>
        rw [List.nil_append, run] at h
        split_ifs at h with heq
        rw [heq] at hk
        exact absurd List.mem_cons_self hk
      | cons k' opened =>
        rw [List.cons_append, run] at h
        split_ifs at h with heq
        obtain ⟨left, hleft, hrun⟩ := ih h hrow
        refine ⟨left, hleft, ?_⟩
        rw [run, if_pos heq]
        exact hrun

/-- What is open after a row was open before, or is started in it. -/
theorem mem_of_run (h : run opened row = some opened') (hk : k ∈ opened') :
    k ∈ opened ∨ .start k ∈ row := by
  induction row generalizing opened with
  | nil =>
    cases h
    exact .inl hk
  | cons b row ih =>
    cases b with
    | start j =>
      rcases @ih (j :: opened) h with hmem | hmem
      · rcases List.mem_cons.mp hmem with rfl | hmem
        · exact .inr List.mem_cons_self
        · exact .inl hmem
      · exact .inr (List.mem_cons_of_mem _ hmem)
    | stop j =>
      cases opened with
      | nil => cases h
      | cons k' opened =>
        rw [run] at h
        split_ifs at h
        exact (ih h).imp (List.mem_cons_of_mem k') (List.mem_cons_of_mem _)

/-! ### Nested rows -/

inductive Nested : List (Bracket κ) → Prop where
  | nil : Nested []
  | span (k : κ) {inner rest : List (Bracket κ)} (hinner : Nested inner) (hrest : Nested rest) :
    Nested (.start k :: (inner ++ .stop k :: rest))

theorem run_of_nested (h : Nested row) (opened : List κ) : run opened row = some opened := by
  induction h generalizing opened with
  | nil => rfl
  | span k _ _ ihinner ihrest =>
    rw [run, run_append, ihinner, Option.bind_some, run, if_pos rfl]
    exact ihrest opened

/-- Where a row stops what was open. -/
theorem run_eq_some_nil (h : run (opened ++ [k]) row = some []) : ∃ inner rest,
    row = inner ++ .stop k :: rest ∧ run opened inner = some [] ∧ run [] rest = some [] := by
  induction row generalizing opened with
  | nil => simp [run] at h
  | cons b row ih =>
    cases b with
    | start j =>
      obtain ⟨inner, rest, rfl, hinner, hrest⟩ := @ih (j :: opened) h
      exact ⟨.start j :: inner, rest, rfl, hinner, hrest⟩
    | stop j =>
      cases opened with
      | nil =>
        rw [List.nil_append, run] at h
        split_ifs at h with heq
        subst heq
        exact ⟨[], row, rfl, rfl, h⟩
      | cons k' opened =>
        rw [List.cons_append, run] at h
        split_ifs at h with heq
        obtain ⟨inner, rest, rfl, hinner, hrest⟩ := ih h
        refine ⟨.stop j :: inner, rest, rfl, ?_, hrest⟩
        rw [run, if_pos heq]
        exact hinner

theorem run_iff_nested : run [] row = some [] ↔ Nested row := by
  refine ⟨fun h => ?_, fun h => run_of_nested h []⟩
  induction hlength : row.length using Nat.strongRecOn generalizing row with
  | _ n ih =>
    cases row with
    | nil => exact .nil
    | cons b row =>
      cases b with
      | stop k => cases h
      | start k =>
        have hopen : run ([] ++ [k]) row = some [] := h
        obtain ⟨inner, rest, rfl, hinner, hrest⟩ := run_eq_some_nil hopen
        simp only [List.length_cons, List.length_append] at hlength
        exact .span k (ih _ (by omega) hinner rfl) (ih _ (by omega) hrest rfl)

/-! ### Spans that do not cross -/

theorem alternates_of_free (h : ∀ b ∈ row, b.kind ≠ k) :
    alternates k isOpen (row ++ row') = alternates k isOpen row' := by
  induction row with
  | nil => rfl
  | cons b row ih =>
    obtain ⟨hb, hrow⟩ := List.forall_mem_cons.mp h
    cases b with
    | start j | stop j =>
      have hj : ¬ j = k := hb
      rw [List.cons_append, alternates, if_neg hj]
      exact ih hrow

/-- In a span of a kind a nested row has nothing of the kind. -/
theorem free_of_nested (h : Nested row) (hrow : alternates k true (row ++ row') = true) :
    ∀ b ∈ row, b.kind ≠ k := by
  induction h generalizing row' with
  | nil => exact List.forall_mem_nil _
  | @span j inner rest _ _ ihinner ihrest =>
    rw [List.cons_append, alternates] at hrow
    split_ifs at hrow with hj
    · cases hrow
    · rw [List.append_assoc] at hrow
      have hinner := ihinner hrow
      rw [alternates_of_free hinner, List.cons_append, alternates, if_neg hj] at hrow
      have hrest := ihrest hrow
      exact List.forall_mem_cons.mpr ⟨hj, List.forall_mem_append.mpr
        ⟨hinner, List.forall_mem_cons.mpr ⟨hj, hrest⟩⟩⟩

/-- Outside of the spans of a kind a nested row has whole spans of it. -/
theorem alternates_of_nested (h : Nested row) (hrow : alternates k false (row ++ row') = true)
    (more : List (Bracket κ)) : alternates k false (row ++ more) = alternates k false more := by
  induction h generalizing row' more with
  | nil => rfl
  | @span j inner rest hinner _ ihinner ihrest =>
    rw [List.cons_append, alternates, List.append_assoc] at hrow ⊢
    split_ifs at hrow ⊢ with hj
    · rw [Bool.not_false, Bool.true_and] at hrow ⊢
      have hfree := free_of_nested hinner hrow
      rw [alternates_of_free hfree, List.cons_append, alternates, if_pos hj, Bool.true_and]
        at hrow ⊢
      exact ihrest hrow more
    · rw [ihinner hrow, List.cons_append, alternates, if_neg hj]
      rw [ihinner hrow, List.cons_append, alternates, if_neg hj] at hrow
      exact ihrest hrow more

/-- The state of a kind in the middle of a row. -/
theorem exists_alternates (h : alternates k isOpen (row ++ row') = true) :
    ∃ isOpen', alternates k isOpen' row' = true := by
  induction row generalizing isOpen with
  | nil => exact ⟨isOpen, h⟩
  | cons b row ih =>
    cases b with
    | start j | stop j =>
      rw [List.cons_append, alternates] at h
      split_ifs at h
      · exact ih (Bool.and_eq_true_iff.mp h).2
      · exact ih h

theorem whole_of_nested (h : Nested row) (hrow : alternates k isOpen (row ++ row') = true) :
    Whole k row := by
  cases isOpen with
  | true =>
    have hfree : alternates k false (row ++ []) = alternates k false [] :=
      alternates_of_free (free_of_nested h hrow)
    rw [List.append_nil] at hfree
    exact hfree
  | false =>
    have hnested := alternates_of_nested h hrow []
    rw [List.append_nil] at hnested
    exact hnested

/-- A span that is open stops before its kind starts again. -/
theorem exists_stop (h : alternates k true row = true) : ∃ inner rest,
    row = inner ++ .stop k :: rest ∧ (∀ b ∈ inner, b.kind ≠ k) ∧
      alternates k false rest = true := by
  induction row with
  | nil => cases h
  | cons b row ih =>
    cases b with
    | start j =>
      rw [alternates] at h
      split_ifs at h with hj
      · cases h
      · obtain ⟨inner, rest, rfl, hfree, hrest⟩ := ih h
        exact ⟨.start j :: inner, rest, rfl, List.forall_mem_cons.mpr ⟨hj, hfree⟩, hrest⟩
    | stop j =>
      rw [alternates] at h
      split_ifs at h with hj
      · subst hj
        exact ⟨[], row, rfl, List.forall_mem_nil _, (Bool.and_eq_true_iff.mp h).2⟩
      · obtain ⟨inner, rest, rfl, hfree, hrest⟩ := ih h
        exact ⟨.stop j :: inner, rest, rfl, List.forall_mem_cons.mpr ⟨hj, hfree⟩, hrest⟩

theorem alternates_of_whole (h : Whole k row) :
    alternates k false (row ++ row') = alternates k false row' := by
  have hstates : ∀ isOpen, alternates k isOpen row = true →
      alternates k isOpen (row ++ row') = alternates k false row' := by
    intro isOpen hrow
    clear h
    induction row generalizing isOpen with
    | nil =>
      cases isOpen with
      | true => cases hrow
      | false => rfl
    | cons b row ih =>
      cases b with
      | start j =>
        rw [alternates] at hrow
        rw [List.cons_append, alternates]
        split_ifs at hrow ⊢
        · obtain ⟨hopen, hrow⟩ := Bool.and_eq_true_iff.mp hrow
          rw [hopen, Bool.true_and]
          exact ih true hrow
        · exact ih isOpen hrow
      | stop j =>
        rw [alternates] at hrow
        rw [List.cons_append, alternates]
        split_ifs at hrow ⊢
        · obtain ⟨hopen, hrow⟩ := Bool.and_eq_true_iff.mp hrow
          rw [hopen, Bool.true_and]
          exact ih false hrow
        · exact ih isOpen hrow
  exact hstates false h

theorem Whole.append (h : Whole k row) (h' : Whole k row') : Whole k (row ++ row') := by
  rw [Whole, alternates_of_whole h]
  exact h'

/-- What follows a row matters only in how its brackets of the kind take turns. -/
theorem alternates_append_congr
    (h : ∀ isOpen, alternates k isOpen row = alternates k isOpen row') (before : List (Bracket κ)) :
    ∀ isOpen, alternates k isOpen (before ++ row) = alternates k isOpen (before ++ row') := by
  induction before with
  | nil => exact h
  | cons b before ih =>
    intro isOpen
    cases b with
    | start j | stop j =>
      rw [List.cons_append, List.cons_append, alternates, alternates, ih, ih]

/-- Spans of which no two cross are nested. -/
theorem nested_of_uncrossed (h : Uncrossed row) (hwhole : ∀ k, Whole k row) : Nested row := by
  induction hlength : row.length using Nat.strongRecOn generalizing row with
  | _ n ih =>
    cases row with
    | nil => exact .nil
    | cons b row =>
      cases b with
      | stop k =>
        have hstop := hwhole k
        rw [Whole, alternates, if_pos rfl] at hstop
        cases hstop
      | start k =>
        have hstart := hwhole k
        rw [Whole, alternates, if_pos rfl, Bool.not_false, Bool.true_and] at hstart
        obtain ⟨inner, rest, rfl, hfree, hrest⟩ := exists_stop hstart
        have hstop : .stop k ∉ inner := fun hmem => hfree _ hmem rfl
        have hinner : ∀ k', Whole k' inner := h k [] inner rest (by simp) hstop
        simp only [List.length_cons, List.length_append] at hlength
        refine .span k (ih _ (by omega) ?_ hinner rfl) (ih _ (by omega) ?_ ?_ rfl)
        · intro k' before inner' after hsplit
          exact h k' (.start k :: before) inner' (after ++ .stop k :: rest) (by simp [hsplit])
        · intro k' before inner' after hsplit
          exact h k' (.start k :: (inner ++ .stop k :: before)) inner' after (by simp [hsplit])
        · intro k'
          have hrow := hwhole k'
          rw [Whole, alternates] at hrow
          split_ifs at hrow with heq
          · subst heq
            exact hrest
          · rw [alternates_of_whole (hinner k'), alternates, if_neg heq] at hrow
            exact hrow

/-- What comes before the first item that has a property. -/
theorem eq_of_first {α : Type} {P : α → Prop} {a b : α} {l l' more more' : List α}
    (h : l ++ a :: more = l' ++ b :: more') (ha : P a) (hb : P b) (hl : ∀ c ∈ l, ¬ P c)
    (hl' : ∀ c ∈ l', ¬ P c) : l = l' := by
  induction l generalizing l' with
  | nil =>
    cases l' with
    | nil => rfl
    | cons c l' =>
      obtain ⟨rfl, -⟩ := List.cons.inj h
      exact absurd ha (hl' _ List.mem_cons_self)
  | cons c l ih =>
    cases l' with
    | nil =>
      obtain ⟨rfl, -⟩ := List.cons.inj h
      exact absurd hb (hl _ List.mem_cons_self)
    | cons c' l' =>
      obtain ⟨rfl, hrest⟩ := List.cons.inj h
      rw [ih hrest (List.forall_mem_cons.mp hl).2 (List.forall_mem_cons.mp hl').2]

/-- What comes before the first place of an item. -/
theorem eq_of_split {α : Type} {a : α} {l l' more more' : List α}
    (h : l ++ a :: more = l' ++ a :: more') (hl : a ∉ l) (hl' : a ∉ l') : l = l' :=
  eq_of_first (P := (· = a)) h rfl rfl (fun _ hc heq => hl (heq ▸ hc))
    fun _ hc heq => hl' (heq ▸ hc)

/-- In a nested row, what is between the two ends of a span is nested. -/
theorem nested_inner (h : Nested (row ++ .start k :: (inner ++ .stop k :: rest)))
    (hstart : .start k ∉ inner) (hstop : .stop k ∉ inner) : Nested inner := by
  have hrun := run_iff_nested.mpr h
  rw [run_append] at hrun
  obtain ⟨opened, -, hrun⟩ := Option.bind_eq_some_iff.mp hrun
  rw [run, run_append] at hrun
  obtain ⟨opened', hleft, hrun⟩ := Option.bind_eq_some_iff.mp hrun
  have hopen : run ([] ++ k :: opened) inner = some opened' := hleft
  obtain ⟨left, rfl, hinner⟩ := run_of_notMem hopen hstop
  cases left with
  | nil => exact run_iff_nested.mp hinner
  | cons j left =>
    -- what is open where the span stops is its own kind, which nothing in it has started
    rw [List.cons_append, run] at hrun
    split_ifs at hrun with hj
    subst hj
    rcases mem_of_run hinner List.mem_cons_self with hmem | hmem
    · cases hmem
    · exact absurd hmem hstart

/-- No two spans of a nested row cross. -/
theorem uncrossed_of_nested (h : Nested row) (hwhole : ∀ k, Whole k row) : Uncrossed row := by
  rintro k before inner after rfl hstop k'
  rw [List.append_assoc, List.cons_append] at h hwhole
  have hmiddle : ∀ j, ∃ isOpen, alternates j isOpen (.start k :: (inner ++ .stop k :: after)) :=
    fun j => exists_alternates (hwhole j)
  -- the kind does not start in its own span
  have hstart : .start k ∉ inner := by
    obtain ⟨isOpen, hopen⟩ := hmiddle k
    rw [alternates, if_pos rfl] at hopen
    obtain ⟨inner', rest, hsplit, hfree, -⟩ := exists_stop (Bool.and_eq_true_iff.mp hopen).2
    have hstop' : .stop k ∉ inner' := fun hmem => hfree _ hmem rfl
    rw [eq_of_split hsplit hstop hstop']
    exact fun hmem => hfree _ hmem rfl
  have hnested := nested_inner h hstart hstop
  obtain ⟨isOpen, hopen⟩ := hmiddle k'
  rw [alternates] at hopen
  split_ifs at hopen
  · exact whole_of_nested hnested (Bool.and_eq_true_iff.mp hopen).2
  · exact whole_of_nested hnested hopen

theorem nested_iff_uncrossed (hwhole : ∀ k, Whole k row) : Nested row ↔ Uncrossed row :=
  ⟨fun h => uncrossed_of_nested h hwhole, fun h => nested_of_uncrossed h hwhole⟩

end

end Brackets
