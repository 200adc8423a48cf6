import Mathlib.Data.List.Sort

/-!
# The newest first

A page shows so many of the newest of some items.  Where only some of them are sorted, the
page is right exactly when each item left out has so many others that are not older.
-/

namespace NewestFirst

variable {α τ : Type} [LinearOrder τ]

def Descending (time : α → τ) (l : List α) : Prop := l.Pairwise fun a b => time b ≤ time a

/-- So many of all are shown, from the newest on, and none that is left is newer. -/
def IsNewest (time : α → τ) (limit : ℕ) (all shown : List α) : Prop :=
  Descending time shown ∧ shown.length = min limit all.length ∧
    ∃ rest, (shown ++ rest).Perm all ∧ ∀ a ∈ shown, ∀ b ∈ rest, time b ≤ time a

def since (time : α → τ) (t : τ) (l : List α) : ℕ := l.countP fun a => t ≤ time a

/-- `l.sort(key=time, reverse=True)` -/
def newestFirst (time : α → τ) (l : List α) : List α := l.insertionSort fun a b => time b ≤ time a

section

variable {time : α → τ} {limit : ℕ} {l l' kept left all shown : List α} {a b : α} {t : τ}

theorem newestFirst_perm (time : α → τ) (l : List α) : (newestFirst time l).Perm l :=
  List.perm_insertionSort _ l

theorem descending_newestFirst (time : α → τ) (l : List α) :
    Descending time (newestFirst time l) := by
  have : IsTrans α fun a b => time b ≤ time a := ⟨fun _ _ _ hab hbc => le_trans hbc hab⟩
  have : Std.Total fun a b : α => time b ≤ time a := ⟨fun a b => le_total (time b) (time a)⟩
  exact List.pairwise_insertionSort _ l

theorem since_append (time : α → τ) (t : τ) (l l' : List α) :
    since time t (l ++ l') = since time t l + since time t l' := List.countP_append

theorem since_perm (h : l.Perm l') (t : τ) : since time t l = since time t l' := h.countP_eq _

theorem since_le_length (time : α → τ) (t : τ) (l : List α) : since time t l ≤ l.length :=
  List.countP_le_length

theorem since_eq_length (h : ∀ a ∈ l, t ≤ time a) : since time t l = l.length :=
  List.countP_eq_length.mpr fun a ha => by simpa using h a ha

theorem Descending.since_take (h : Descending time l) (limit : ℕ) (t : τ) :
    since time t (l.take limit) = min limit (since time t l) := by
  induction l generalizing limit with
  | nil => simp [since]
  | cons first l ih =>
    rcases List.pairwise_cons.mp h with ⟨hfirst, hrest⟩
    cases limit with
    | zero => simp [since]
    | succ limit =>
      by_cases hlate : t ≤ time first
      · have hnext := ih hrest limit
        simp only [since] at hnext ⊢
        rw [List.take_succ_cons, List.countP_cons_of_pos (by simpa using hlate),
          List.countP_cons_of_pos (by simpa using hlate), hnext]
        omega
      · have hnone : since time t (first :: l) = 0 := by
          rw [since, List.countP_eq_zero]
          intro a ha
          rcases List.mem_cons.mp ha with rfl | ha
          · simpa using hlate
          · simpa using (hfirst a ha).trans_lt (not_le.mp hlate)
        have hfewer : since time t ((first :: l).take (limit + 1)) ≤ since time t (first :: l) :=
          (List.take_sublist _ _).countP_le
        omega

theorem Descending.le_of_mem_take (h : Descending time l) (hcount : limit ≤ since time t l)
    (ha : a ∈ l.take limit) : t ≤ time a := by
  have hall : since time t (l.take limit) = (l.take limit).length := by
    have hbelow := since_le_length time t l
    rw [h.since_take, List.length_take]
    omega
  simpa using List.countP_eq_length.mp hall a ha

theorem Descending.le_since_of_mem_drop (h : Descending time l) (hb : b ∈ l.drop limit) :
    limit ≤ since time (time b) (l.take limit) := by
  have hsplit : Descending time (l.take limit ++ l.drop limit) := by
    rw [List.take_append_drop]
    exact h
  have hbefore := (List.pairwise_append.mp hsplit).2.2
  have hlength : limit < l.length := by
    by_contra hshort
    rw [List.drop_eq_nil_of_le (not_lt.mp hshort)] at hb
    cases hb
  rw [since_eq_length fun a ha => hbefore a ha b hb, List.length_take]
  omega

theorem IsNewest.of_perm (h : IsNewest time limit all shown) (hperm : all.Perm l) :
    IsNewest time limit l shown := by
  rcases h with ⟨hsorted, hlength, rest, hrest, hnewer⟩
  exact ⟨hsorted, by rw [hlength, hperm.length_eq], rest, hrest.trans hperm, hnewer⟩

theorem Descending.isNewest_take (h : Descending time l) (hperm : l.Perm all) (limit : ℕ) :
    IsNewest time limit all (l.take limit) := by
  have hsplit : Descending time (l.take limit ++ l.drop limit) := by
    rw [List.take_append_drop]
    exact h
  refine ⟨h.sublist (List.take_sublist _ _), ?_, l.drop limit, ?_, ?_⟩
  · rw [List.length_take, hperm.length_eq]
  · rw [List.take_append_drop]
    exact hperm
  · exact (List.pairwise_append.mp hsplit).2.2

theorem isNewest_iff (time : α → τ) (limit : ℕ) (kept left : List α) :
    IsNewest time limit (kept ++ left) ((newestFirst time kept).take limit) ↔
      ∀ b ∈ left, limit ≤ since time (time b) kept := by
  have hsorted := descending_newestFirst time kept
  have hperm := newestFirst_perm time kept
  constructor
  · rintro ⟨_, hlength, rest, hrest, hnewer⟩ b hb
    rw [List.length_take, hperm.length_eq, List.length_append] at hlength
    have hleft : 0 < left.length := List.length_pos_of_mem hb
    have hall : ((newestFirst time kept).take limit ++
        ((newestFirst time kept).drop limit ++ left)).Perm (kept ++ left) := by
      rw [← List.append_assoc, List.take_append_drop]
      exact hperm.append_right left
    have hmem : b ∈ rest := by
      rw [((List.perm_append_left_iff _).mp (hrest.trans hall.symm)).mem_iff]
      exact List.mem_append_right _ hb
    -- what is left out is no newer than all that is shown
    have htake : since time (time b) ((newestFirst time kept).take limit) =
        ((newestFirst time kept).take limit).length :=
      since_eq_length fun a ha => hnewer a ha b hmem
    rw [hsorted.since_take, List.length_take, hperm.length_eq, since_perm hperm] at htake
    omega
  · intro hcovered
    refine ⟨hsorted.sublist (List.take_sublist _ _), ?_, (newestFirst time kept).drop limit ++ left,
      ?_, ?_⟩
    · rw [List.length_take, hperm.length_eq, List.length_append]
      cases hleft : left with
      | nil => simp
      | cons b rest =>
        have hb : b ∈ left := hleft ▸ List.mem_cons_self
        have henough := (hcovered b hb).trans (since_le_length time (time b) kept)
        omega
    · rw [← List.append_assoc, List.take_append_drop]
      exact hperm.append_right left
    · intro a ha b hb
      rcases List.mem_append.mp hb with hb | hb
      · have hsplit : Descending time
            ((newestFirst time kept).take limit ++ (newestFirst time kept).drop limit) := by
          rw [List.take_append_drop]
          exact hsorted
        exact (List.pairwise_append.mp hsplit).2.2 a ha b hb
      · have hcount := hcovered b hb
        rw [← since_perm hperm] at hcount
        exact hsorted.le_of_mem_take hcount ha

/-! ### Sources that are cut -/

/-- What a limit keeps of a source, and what it cuts off: beside any others, so many are at or
after a time of what is kept when so many are of all. -/
structure Cut (time : α → τ) (limit : ℕ) (kept left all : List α) : Prop where
  perm : (kept ++ left).Perm all
  covered : ∀ b ∈ left, limit ≤ since time (time b) kept
  counted : ∀ t others, limit ≤ since time t kept + others ↔ limit ≤ since time t all + others

theorem Descending.cut (h : Descending time l) (hperm : l.Perm all) (limit : ℕ) :
    Cut time limit (l.take limit) (l.drop limit) all where
  perm := by
    rw [List.take_append_drop]
    exact hperm
  covered b hb := h.le_since_of_mem_drop hb
  counted t others := by
    rw [h.since_take, since_perm hperm]
    omega

theorem Cut.map {β : Type} {time' : β → τ} {f : α → β} (h : Cut time limit kept left all)
    (htime : ∀ a, time' (f a) = time a) :
    Cut time' limit (kept.map f) (left.map f) (all.map f) := by
  have hsince : ∀ t (l : List α), since time' t (l.map f) = since time t l := by
    intro t l
    simp only [since, List.countP_map, Function.comp_def, htime]
  constructor
  · rw [← List.map_append]
    exact h.perm.map f
  · intro b hb
    rcases List.mem_map.mp hb with ⟨a, ha, rfl⟩
    rw [hsince, htime]
    exact h.covered a ha
  · intro t others
    rw [hsince, hsince]
    exact h.counted t others

theorem append_shuffle (a b c d : List α) :
    ((a ++ b) ++ (c ++ d)).Perm ((a ++ c) ++ (b ++ d)) := by
  rw [List.append_assoc, List.append_assoc]
  exact (List.perm_append_left_iff a).mpr (List.perm_append_comm_assoc b c d)

theorem Cut.append {kept' left' all' : List α} (h : Cut time limit kept left all)
    (h' : Cut time limit kept' left' all') :
    Cut time limit (kept ++ kept') (left ++ left') (all ++ all') := by
  constructor
  · exact (append_shuffle _ _ _ _).trans (h.perm.append h'.perm)
  · intro b hb
    rw [since_append]
    rcases List.mem_append.mp hb with hb | hb
    · exact (h.covered b hb).trans (Nat.le_add_right _ _)
    · exact (h'.covered b hb).trans (Nat.le_add_left _ _)
  · intro t others
    have hfirst := h.counted t (since time t kept' + others)
    have hsecond := h'.counted t (since time t all + others)
    rw [since_append, since_append]
    omega

theorem Cut.isNewest_iff {shown' hidden : List α} (h : Cut time limit kept left all) :
    IsNewest time limit ((shown' ++ hidden) ++ all)
        ((newestFirst time (shown' ++ kept)).take limit) ↔
      ∀ b ∈ hidden, limit ≤ since time (time b) (shown' ++ all) := by
  have hperm : ((shown' ++ kept) ++ (hidden ++ left)).Perm ((shown' ++ hidden) ++ all) :=
    (append_shuffle _ _ _ _).trans (h.perm.append_left _)
  have hnewest : IsNewest time limit ((shown' ++ hidden) ++ all)
      ((newestFirst time (shown' ++ kept)).take limit) ↔
        IsNewest time limit ((shown' ++ kept) ++ (hidden ++ left))
          ((newestFirst time (shown' ++ kept)).take limit) :=
    ⟨fun hnewest => hnewest.of_perm hperm.symm, fun hnewest => hnewest.of_perm hperm⟩
  have hcounted : ∀ t, limit ≤ since time t (shown' ++ kept) ↔
      limit ≤ since time t (shown' ++ all) := by
    intro t
    rw [since_append, since_append, Nat.add_comm, Nat.add_comm (since time t shown')]
    exact h.counted t _
  rw [hnewest, NewestFirst.isNewest_iff]
  simp only [hcounted]
  constructor
  · intro hall b hb
    exact hall b (List.mem_append_left _ hb)
  · intro hhidden b hb
    rcases List.mem_append.mp hb with hb | hb
    · exact hhidden b hb
    · rw [since_append]
      have henough := (h.counted (time b) 0).mp (h.covered b hb)
      omega

end

end NewestFirst
