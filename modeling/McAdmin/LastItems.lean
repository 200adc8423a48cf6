import Mathlib.Data.List.DropRight

/-!
# The last items of a list

`rtake` keeps the last items: what it is made of, and how it goes through other operations.
-/

namespace LastItems

variable {α β : Type} {m n : ℕ} {a : α} {l l' : List α}

theorem rtake_suffix (l : List α) (n : ℕ) : l.rtake n <:+ l := List.drop_suffix _ _

theorem mem_of_mem_rtake (h : a ∈ l.rtake n) : a ∈ l := List.mem_of_mem_drop h

theorem length_rtake (l : List α) (n : ℕ) : (l.rtake n).length = min n l.length := by
  rw [List.rtake, List.length_drop]
  omega

theorem rtake_of_length_le (h : l.length ≤ n) : l.rtake n = l := by
  rw [List.rtake, Nat.sub_eq_zero_of_le h, List.drop_zero]

theorem eq_rtake_of_suffix (h : l <:+ l') (hlength : l.length = n) : l = l'.rtake n := by
  rw [List.suffix_iff_eq_drop] at h
  rw [List.rtake, ← hlength]
  exact h

theorem map_rtake (l : List α) (n : ℕ) (f : α → β) : (l.rtake n).map f = (l.map f).rtake n := by
  rw [List.rtake, List.rtake, List.map_drop, List.length_map]

theorem rtake_append (n : ℕ) (l l' : List α) :
    (l ++ l').rtake n = l.rtake (n - l'.length) ++ l'.rtake n := by
  have hback : l.length + l'.length - n - l.length = l'.length - n := by omega
  rw [List.rtake, List.rtake, List.rtake, List.length_append, List.drop_append, hback]
  by_cases hn : n ≤ l'.length
  · have hnone : ∀ k, l.length ≤ k → l.drop k = [] := fun _ => List.drop_of_length_le
    rw [hnone _ (by omega), hnone _ (by omega)]
  · have hfront : l.length + l'.length - n = l.length - (n - l'.length) := by omega
    rw [hfront]

theorem rtake_rtake (h : m ≤ n) (l : List α) : (l.rtake n).rtake m = l.rtake m := by
  simp only [List.rtake, List.length_drop, List.drop_drop]
  congr 1
  omega

theorem rdrop_append_rtake (l : List α) (n : ℕ) : l.rdrop n ++ l.rtake n = l := by
  rw [List.rdrop, List.rtake, List.take_append_drop]

end LastItems
