import Mathlib.Tactic

/-
This file removes an element of a dense list by moving the last one into its place.
-/

namespace Dense

variable {A : Type}

/-- An element of a list that grew by one is an old one or the new one. -/
theorem getElem?_concat_eq_some {xs : List A} {last value : A} {place : Nat} :
    (xs ++ [last])[place]? = some value ↔ xs[place]? = some value ∨ place = xs.length ∧ last = value := by
  rcases Nat.lt_trichotomy place xs.length with before | rfl | behind
  · rw [List.getElem?_append_left before]
    exact ⟨Or.inl, fun either => either.resolve_right fun equal => by omega⟩
  · rw [List.getElem?_concat_length, List.getElem?_eq_none (le_refl _)]
    simp
  · rw [List.getElem?_eq_none (by rw [List.length_append, List.length_singleton]; omega),
      List.getElem?_eq_none (by omega)]
    simp
    omega

/-- A replaced element stands in its place, and the others stay. -/
theorem getElem?_set_eq_some {xs : List A} {place other : Nat} {old new value : A} (found : xs[place]? = some old) :
    (xs.set place new)[other]? = some value ↔ other = place ∧ new = value ∨ other ≠ place ∧ xs[other]? = some value := by
  obtain ⟨inside, _⟩ := List.getElem?_eq_some_iff.mp found
  rw [List.getElem?_set]
  by_cases same : place = other
  · rw [if_pos same, if_pos inside, Option.some.injEq]
    simp [same]
  · rw [if_neg same]
    simp [Ne.symm same]

/-- The last element takes the place of the removed one. -/
def swapRemove (xs : List A) (index : Nat) : List A :=
  match xs.getLast? with
  | none => xs
  | some last => (xs.set index last).dropLast

theorem swapRemove_length (xs : List A) (index : Nat) : (swapRemove xs index).length = xs.length - 1 := by
  unfold swapRemove
  cases last : xs.getLast? with
  | none => rw [List.getLast?_eq_none_iff.mp last]; rfl
  | some value => rw [List.length_dropLast, List.length_set]

/-- Only the removed place changes, and the list ends one element earlier. -/
theorem swapRemove_getElem? {xs : List A} {index : Nat} (inside : index < xs.length) (place : Nat) :
    (swapRemove xs index)[place]? =
      if place + 1 < xs.length then (if place = index then xs[xs.length - 1]? else xs[place]?) else none := by
  unfold swapRemove
  cases last : xs.getLast? with
  | none =>
      rw [List.getLast?_eq_none_iff.mp last] at inside
      exact absurd inside (Nat.not_lt_zero _)
  | some value =>
      rw [List.getLast?_eq_getElem?] at last
      dsimp only
      rw [List.getElem?_dropLast, List.length_set, List.getElem?_set, last]
      by_cases before : place + 1 < xs.length
      · rw [if_pos (by omega), if_pos before]
        by_cases same : index = place
        · rw [if_pos same, if_pos inside, if_pos same.symm]
        · rw [if_neg same, if_neg (Ne.symm same)]
      · rw [if_neg (by omega), if_neg before]

end Dense
