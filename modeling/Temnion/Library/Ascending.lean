import Mathlib.Data.List.Destutter
import Mathlib.Data.List.Sort
import Mathlib.Tactic

/-
This file sorts lists into strictly ascending ones and intersects ascending lists from their fronts.
-/

namespace Ascending

variable {A : Type} [LinearOrder A]

/-- The elements of the list in ascending order, each of them once. -/
def sorted (list : List A) : List A := (list.mergeSort (· ≤ ·)).destutter (· ≠ ·)

theorem sorted_eq (list : List A) : sorted list = (list.mergeSort (· ≤ ·)).dedup :=
  (List.pairwise_mergeSort' (· ≤ ·) list).destutter_eq_dedup

@[simp] theorem mem_sorted {list : List A} {element : A} : element ∈ sorted list ↔ element ∈ list := by
  rw [sorted_eq, List.mem_dedup, List.mem_mergeSort]

theorem sorted_pairwise (list : List A) : (sorted list).Pairwise (· < ·) := by
  have weak : (sorted list).Pairwise (· ≤ ·) := by
    rw [sorted_eq]
    exact (List.pairwise_mergeSort' (· ≤ ·) list).sublist (List.dedup_sublist _)
  have different : (sorted list).Pairwise (· ≠ ·) := by
    rw [sorted_eq]
    exact List.nodup_dedup _
  exact (weak.and different).imp fun both => lt_of_le_of_ne both.1 both.2

/-- Of the two elements in front the smaller one is dropped. -/
def intersect : List A → List A → List A
  | [], _ => []
  | _ :: _, [] => []
  | first :: firsts, second :: seconds =>
      if first < second then intersect firsts (second :: seconds)
      else if second < first then intersect (first :: firsts) seconds
      else first :: intersect firsts seconds
termination_by first second => first.length + second.length

theorem intersect_sublist (first second : List A) : (intersect first second).Sublist first := by
  induction first, second using intersect.induct with
  | case1 second =>
      rw [intersect]
  | case2 first firsts =>
      rw [intersect]
      exact List.nil_sublist _
  | case3 first firsts second seconds less hypothesis =>
      rw [intersect, if_pos less]
      exact hypothesis.cons _
  | case4 first firsts second seconds notLess greater hypothesis =>
      rw [intersect, if_neg notLess, if_pos greater]
      exact hypothesis
  | case5 first firsts second seconds notLess notGreater hypothesis =>
      rw [intersect, if_neg notLess, if_neg notGreater]
      exact hypothesis.cons_cons _

/-- An element in front of an ascending list that is below all others is in none of them. -/
theorem not_mem_of_lt {element head : A} {tail : List A} (ascending : (head :: tail).Pairwise (· < ·))
    (less : element < head) : element ∉ head :: tail := by
  intro member
  rcases List.mem_cons.mp member with rfl | behind
  · exact lt_irrefl _ less
  · exact lt_asymm less ((List.pairwise_cons.mp ascending).1 _ behind)

/-- What is left of two ascending lists is what both of them have. -/
theorem mem_intersect {first second : List A} (one : first.Pairwise (· < ·)) (two : second.Pairwise (· < ·))
    {element : A} : element ∈ intersect first second ↔ element ∈ first ∧ element ∈ second := by
  induction first, second using intersect.induct with
  | case1 second => simp only [intersect, List.not_mem_nil, false_and]
  | case2 first firsts => simp only [intersect, List.not_mem_nil, and_false]
  | case3 first firsts second seconds less hypothesis =>
      rw [intersect, if_pos less, hypothesis (List.pairwise_cons.mp one).2 two]
      constructor
      · rintro ⟨inside, also⟩
        exact ⟨List.mem_cons_of_mem _ inside, also⟩
      · rintro ⟨inside, also⟩
        rcases List.mem_cons.mp inside with rfl | behind
        · exact absurd also (not_mem_of_lt two less)
        · exact ⟨behind, also⟩
  | case4 first firsts second seconds notLess greater hypothesis =>
      rw [intersect, if_neg notLess, if_pos greater, hypothesis one (List.pairwise_cons.mp two).2]
      constructor
      · rintro ⟨inside, also⟩
        exact ⟨inside, List.mem_cons_of_mem _ also⟩
      · rintro ⟨inside, also⟩
        rcases List.mem_cons.mp also with rfl | behind
        · exact absurd inside (not_mem_of_lt one greater)
        · exact ⟨inside, behind⟩
  | case5 first firsts second seconds notLess notGreater hypothesis =>
      obtain rfl : first = second := le_antisymm (not_lt.mp notGreater) (not_lt.mp notLess)
      rw [intersect, if_neg notLess, if_neg notGreater, List.mem_cons,
        hypothesis (List.pairwise_cons.mp one).2 (List.pairwise_cons.mp two).2, List.mem_cons, List.mem_cons]
      constructor
      · rintro (rfl | ⟨inside, also⟩)
        · exact ⟨Or.inl rfl, Or.inl rfl⟩
        · exact ⟨Or.inr inside, Or.inr also⟩
      · rintro ⟨rfl | inside, same | also⟩
        · exact Or.inl rfl
        · exact Or.inl rfl
        · exact Or.inl same
        · exact Or.inr ⟨inside, also⟩

end Ascending
