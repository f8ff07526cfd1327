import Temnion.Library.Batches

/-
This file packs rows of different lengths into one list and finds them again by their offsets.
-/

namespace Rows

variable {A : Type} {rows : List (List A)} {row : List A} {index position : Nat}

/-- Where each row starts, and where the last one ends. -/
def offsets (rows : List (List A)) : List Nat := (Batches.starts 0 rows).map Prod.fst ++ [rows.flatten.length]

theorem starts_concat (rows : List (List A)) (row : List A) :
    (Batches.starts 0 (rows ++ [row])).map Prod.fst = (Batches.starts 0 rows).map Prod.fst ++ [rows.flatten.length] := by
  rw [Batches.starts_append, List.map_append, Batches.starts_cons, Batches.starts_nil, Nat.zero_add]
  rfl

theorem starts_length (position : Nat) (rows : List (List A)) : (Batches.starts position rows).length = rows.length := by
  induction rows generalizing position with
  | nil => rfl
  | cons row rows hypothesis => rw [Batches.starts_cons, List.length_cons, List.length_cons, hypothesis]

theorem offsets_length (rows : List (List A)) : (offsets rows).length = rows.length + 1 := by
  rw [offsets, List.length_append, List.length_map, starts_length, List.length_singleton]

/-- A row starts behind all rows in front of it. -/
theorem offsets_getElem? (inside : index ≤ rows.length) :
    (offsets rows)[index]? = some (rows.take index).flatten.length := by
  have shifted : ∀ position, ((Batches.starts position rows).map Prod.fst ++ [position + rows.flatten.length])[index]? =
      some (position + (rows.take index).flatten.length) := by
    induction rows generalizing index with
    | nil =>
        intro position
        rw [Nat.le_zero.mp inside]
        rfl
    | cons row rows hypothesis =>
        intro position
        cases index with
        | zero => rfl
        | succ index =>
            have next := hypothesis (Nat.le_of_succ_le_succ inside) (position + row.length)
            rw [Batches.starts_cons, List.map_cons, List.cons_append, List.getElem?_cons_succ, List.flatten_cons,
              List.length_append, ← Nat.add_assoc, next, List.take_succ_cons, List.flatten_cons, List.length_append,
              Nat.add_assoc]
  have found := shifted 0
  rwa [Nat.zero_add, Nat.zero_add] at found

/-- An offset lies inside the packed list. -/
theorem le_of_mem_offsets (member : position ∈ offsets rows) : position ≤ rows.flatten.length := by
  obtain ⟨index, inside, found⟩ := List.getElem_of_mem member
  have bound : index ≤ rows.length := by
    rw [offsets_length] at inside
    omega
  have same := offsets_getElem? bound
  rw [List.getElem?_eq_getElem inside, found] at same
  rw [Option.some.inj same]
  exact ((List.take_sublist index rows).flatten).length_le

/-- The packed list holds a row between its two offsets. -/
theorem flatten_row (found : rows[index]? = some row) :
    (rows.flatten.drop (rows.take index).flatten.length).take
      ((rows.take (index + 1)).flatten.length - (rows.take index).flatten.length) = row ∧
    (rows.take index).flatten.length ≤ (rows.take (index + 1)).flatten.length ∧
    (rows.take (index + 1)).flatten.length ≤ rows.flatten.length := by
  obtain ⟨inside, rfl⟩ := List.getElem?_eq_some_iff.mp found
  have next : (rows.take (index + 1)).flatten = (rows.take index).flatten ++ rows[index] := by
    rw [List.take_succ_eq_append_getElem inside, List.flatten_append, List.flatten_singleton]
  have whole : rows.flatten = (rows.take index).flatten ++ (rows[index] ++ (rows.drop (index + 1)).flatten) := by
    conv_lhs => rw [← List.take_append_drop index rows, List.drop_eq_getElem_cons inside]
    rw [List.flatten_append, List.flatten_cons]
  refine ⟨?_, ?_, ?_⟩
  · rw [next, List.length_append, Nat.add_sub_cancel_left, whole, List.drop_left, List.take_left]
  · rw [next, List.length_append]
    exact Nat.le_add_right _ _
  · exact ((List.take_sublist (index + 1) rows).flatten).length_le

end Rows
