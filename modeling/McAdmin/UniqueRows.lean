import Mathlib.Data.List.Nodup
import Mathlib.Data.List.Perm.Basic

/-!
# Rows with a unique key

What has the key of a row that is there is not inserted.  When rows of one key are one row, what
a second list inserts after a first one is what it inserts alone, exactly when it holds what was
new of the first.
-/

namespace UniqueRows

variable {ρ κ : Type} {key : ρ → κ}

structure Table (key : ρ → κ) where
  rows : List ρ
  unique : (rows.map key).Nodup

def Table.keys (table : Table key) : List κ := table.rows.map key

def Coherent (key : ρ → κ) (rows : List ρ) : Prop :=
  ∀ row ∈ rows, ∀ row' ∈ rows, key row = key row' → row = row'

theorem nodup_concat {table : Table key} {row : ρ} (h : key row ∉ table.keys) :
    ((table.rows ++ [row]).map key).Nodup := by
  rw [List.map_append, List.map_singleton]
  exact table.unique.append (List.nodup_singleton _) (List.disjoint_singleton.mpr h)

theorem rows_perm_iff {table table' : Table key} :
    table.rows.Perm table'.rows ↔ ∀ row, row ∈ table.rows ↔ row ∈ table'.rows :=
  List.perm_ext_iff_of_nodup table.unique.of_map table'.unique.of_map

variable [DecidableEq κ]

/-- `INSERT OR IGNORE` -/
def Table.insert (table : Table key) (row : ρ) : Table key :=
  if h : key row ∈ table.keys then table else ⟨table.rows ++ [row], nodup_concat h⟩

def Table.insertAll (table : Table key) (rows : List ρ) : Table key :=
  rows.foldl Table.insert table

section

variable {table : Table key} {rows rows' : List ρ} {row : ρ} {k : κ}

theorem insert_of_mem (h : key row ∈ table.keys) : table.insert row = table := dif_pos h

theorem rows_insert_of_notMem (h : key row ∉ table.keys) :
    (table.insert row).rows = table.rows ++ [row] := by
  rw [Table.insert, dif_neg h]

theorem mem_keys_insert : k ∈ (table.insert row).keys ↔ k ∈ table.keys ∨ key row = k := by
  by_cases h : key row ∈ table.keys
  · rw [insert_of_mem h]
    refine (or_iff_left_of_imp ?_).symm
    rintro rfl
    exact h
  · rw [Table.keys, rows_insert_of_notMem h, List.map_append, List.mem_append,
      List.map_singleton, List.mem_singleton, Table.keys, @eq_comm _ k]

theorem mem_keys_insertAll :
    k ∈ (table.insertAll rows).keys ↔ k ∈ table.keys ∨ ∃ row ∈ rows, key row = k := by
  induction rows generalizing table with
  | nil => simp [Table.insertAll]
  | cons row rows ih =>
    have hstep : table.insertAll (row :: rows) = (table.insert row).insertAll rows := rfl
    rw [hstep, ih, mem_keys_insert, List.exists_mem_cons_iff, or_assoc]

theorem mem_insertAll (h : Coherent key rows) :
    row ∈ (table.insertAll rows).rows ↔
      row ∈ table.rows ∨ key row ∉ table.keys ∧ row ∈ rows := by
  induction rows generalizing table with
  | nil => simp [Table.insertAll]
  | cons first rows ih =>
    have hstep : table.insertAll (first :: rows) = (table.insert first).insertAll rows := rfl
    have htail : Coherent key rows := fun row hrow row' hrow' =>
      h row (List.mem_cons_of_mem _ hrow) row' (List.mem_cons_of_mem _ hrow')
    rw [hstep, ih htail, mem_keys_insert, List.mem_cons]
    by_cases hfirst : key first ∈ table.keys
    · rw [insert_of_mem hfirst]
      refine or_congr_right ?_
      constructor
      · rintro ⟨hnew, hrow⟩
        exact ⟨fun hold => hnew (.inl hold), .inr hrow⟩
      · rintro ⟨hnew, rfl | hrow⟩
        · exact absurd hfirst hnew
        · refine ⟨?_, hrow⟩
          rintro (hold | heq)
          · exact hnew hold
          · rw [heq] at hfirst
            exact hnew hfirst
    · rw [rows_insert_of_notMem hfirst, List.mem_append, List.mem_singleton]
      constructor
      · rintro ((hold | rfl) | ⟨hnew, hrow⟩)
        · exact .inl hold
        · exact .inr ⟨hfirst, .inl rfl⟩
        · exact .inr ⟨fun hold => hnew (.inl hold), .inr hrow⟩
      · rintro (hold | ⟨hnew, rfl | hrow⟩)
        · exact .inl (.inl hold)
        · exact .inl (.inr rfl)
        -- of two rows with one key the first is inserted, and they are the same
        · by_cases heq : key first = key row
          · have hsame := h first List.mem_cons_self row (List.mem_cons_of_mem _ hrow) heq
            exact .inl (.inr hsame.symm)
          · refine .inr ⟨?_, hrow⟩
            rintro (hold | heq')
            · exact hnew hold
            · exact heq heq'

theorem insertAll_insertAll_perm_iff (h : Coherent key rows) (h' : Coherent key rows') :
    ((table.insertAll rows).insertAll rows').rows.Perm (table.insertAll rows').rows ↔
      ∀ row ∈ rows, key row ∉ table.keys → row ∈ rows' := by
  simp only [rows_perm_iff, mem_insertAll h', mem_insertAll h, mem_keys_insertAll]
  constructor
  · intro hsame row hrow hnew
    rcases (hsame row).mp (.inl (.inr ⟨hnew, hrow⟩)) with hold | ⟨-, hrow'⟩
    · exact absurd (List.mem_map_of_mem hold) hnew
    · exact hrow'
  · intro hheld row
    constructor
    · rintro ((hold | ⟨hnew, hrow⟩) | ⟨hnew, hrow'⟩)
      · exact .inl hold
      · exact .inr ⟨hnew, hheld row hrow hnew⟩
      · exact .inr ⟨fun hold => hnew (.inl hold), hrow'⟩
    · rintro (hold | ⟨hnew, hrow'⟩)
      · exact .inl (.inl hold)
      · by_cases hfirst : ∃ row' ∈ rows, key row' = key row
        · obtain ⟨first, hmem, heq⟩ := hfirst
          have hlater := hheld first hmem (by rw [heq]; exact hnew)
          obtain rfl := h' first hlater row hrow' heq
          exact .inl (.inr ⟨hnew, hmem⟩)
        · exact .inr ⟨not_or.mpr ⟨hnew, hfirst⟩, hrow'⟩

end

end UniqueRows
