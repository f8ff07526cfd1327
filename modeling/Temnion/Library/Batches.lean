import Mathlib.Tactic

/-
This file places the batches of a sequence at the positions of their first elements.
-/

namespace Batches

variable {A : Type}

/-- Each batch with the position of its first element. -/
def starts : Nat → List (List A) → List (Nat × List A)
  | _, [] => []
  | position, batch :: batches => (position, batch) :: starts (position + batch.length) batches

@[simp] theorem starts_nil (position : Nat) : starts position ([] : List (List A)) = [] := rfl

@[simp] theorem starts_cons (position : Nat) (batch : List A) (batches : List (List A)) :
    starts position (batch :: batches) = (position, batch) :: starts (position + batch.length) batches := rfl

/-- The second part starts where the first one ends. -/
theorem starts_append (position : Nat) (first second : List (List A)) :
    starts position (first ++ second) = starts position first ++ starts (position + first.flatten.length) second := by
  induction first generalizing position with
  | nil => simp
  | cons batch first ih => simp [ih, Nat.add_assoc]

theorem mem_of_mem_starts {position first : Nat} {batch : List A} {batches : List (List A)}
    (member : (first, batch) ∈ starts position batches) : batch ∈ batches := by
  induction batches generalizing position with
  | nil => simp at member
  | cons head batches ih =>
      rw [starts_cons, List.mem_cons] at member
      rcases member with same | member
      · exact (Prod.mk.inj same).2 ▸ List.mem_cons_self
      · exact List.mem_cons_of_mem _ (ih member)

/-- A batch lies inside the positions of the whole sequence. -/
theorem bounds_of_mem {position first : Nat} {batch : List A} {batches : List (List A)}
    (member : (first, batch) ∈ starts position batches) :
    position ≤ first ∧ first + batch.length ≤ position + batches.flatten.length := by
  induction batches generalizing position with
  | nil => simp at member
  | cons head batches ih =>
      rw [starts_cons, List.mem_cons] at member
      simp only [List.flatten_cons, List.length_append]
      rcases member with same | member
      · obtain ⟨rfl, rfl⟩ := Prod.mk.inj same
        omega
      · have bounds := ih member
        omega

/-- Every position belongs to a batch. -/
theorem exists_mem_of_position {position place : Nat} {batches : List (List A)} (lower : position ≤ place)
    (upper : place < position + batches.flatten.length) :
    ∃ first batch, (first, batch) ∈ starts position batches ∧ first ≤ place ∧ place < first + batch.length := by
  induction batches generalizing position with
  | nil =>
      simp at upper
      omega
  | cons head batches ih =>
      by_cases here : place < position + head.length
      · exact ⟨position, head, List.mem_cons_self, lower, here⟩
      · rw [List.flatten_cons, List.length_append] at upper
        obtain ⟨first, batch, member, inside⟩ := ih (by omega) (by omega : place < position + head.length + _)
        exact ⟨first, batch, List.mem_cons_of_mem _ member, inside⟩

/-- A position splits the batches at the one that it belongs to. -/
theorem exists_split_of_position {position place : Nat} {batches : List (List A)} (lower : position ≤ place)
    (upper : place < position + batches.flatten.length) :
    ∃ before batch after, batches = before ++ batch :: after ∧ position + before.flatten.length ≤ place ∧
      place < position + before.flatten.length + batch.length := by
  induction batches generalizing position with
  | nil =>
      simp at upper
      omega
  | cons head batches ih =>
      by_cases here : place < position + head.length
      · exact ⟨[], head, batches, rfl, lower, here⟩
      · rw [List.flatten_cons, List.length_append, ← Nat.add_assoc] at upper
        obtain ⟨before, batch, after, rfl, start, ends⟩ := ih (Nat.not_lt.mp here) upper
        refine ⟨head :: before, batch, after, rfl, ?_⟩
        rw [List.flatten_cons, List.length_append, ← Nat.add_assoc]
        exact ⟨start, ends⟩

/-- No position belongs to two batches. -/
theorem eq_of_mem_of_position {position place first second : Nat} {batch other : List A} {batches : List (List A)}
    (member : (first, batch) ∈ starts position batches) (lower : first ≤ place) (upper : place < first + batch.length)
    (member' : (second, other) ∈ starts position batches) (lower' : second ≤ place)
    (upper' : place < second + other.length) : first = second ∧ batch = other := by
  induction batches generalizing position with
  | nil => simp at member
  | cons head batches ih =>
      rw [starts_cons, List.mem_cons] at member member'
      rcases member with same | member <;> rcases member' with same' | member'
      · obtain ⟨rfl, rfl⟩ := Prod.mk.inj same
        obtain ⟨rfl, rfl⟩ := Prod.mk.inj same'
        exact ⟨rfl, rfl⟩
      · obtain ⟨rfl, rfl⟩ := Prod.mk.inj same
        have bounds := bounds_of_mem member'
        omega
      · obtain ⟨rfl, rfl⟩ := Prod.mk.inj same'
        have bounds := bounds_of_mem member
        omega
      · exact ih member member'

/-- The elements of a batch stand at its positions. -/
theorem getElem?_of_mem {position first index : Nat} {batch : List A} {batches : List (List A)}
    (member : (first, batch) ∈ starts position batches) (inside : index < batch.length) :
    batches.flatten[first - position + index]? = batch[index]? := by
  induction batches generalizing position with
  | nil => simp at member
  | cons head batches ih =>
      rw [starts_cons, List.mem_cons] at member
      rw [List.flatten_cons]
      rcases member with same | member
      · obtain ⟨rfl, rfl⟩ := Prod.mk.inj same
        rw [Nat.sub_self, Nat.zero_add, List.getElem?_append_left inside]
      · have bounds := bounds_of_mem member
        rw [List.getElem?_append_right (by omega), ← ih member]
        congr 1
        omega

/-- A batch with its position splits the sequence. -/
theorem exists_split_of_mem {position first : Nat} {batch : List A} {batches : List (List A)}
    (member : (first, batch) ∈ starts position batches) :
    ∃ before after, batches = before ++ batch :: after ∧ first = position + before.flatten.length := by
  induction batches generalizing position with
  | nil => simp at member
  | cons head batches ih =>
      rw [starts_cons, List.mem_cons] at member
      rcases member with same | member
      · obtain ⟨rfl, rfl⟩ := Prod.mk.inj same
        exact ⟨[], batches, rfl, rfl⟩
      · obtain ⟨before, after, rfl, start⟩ := ih member
        refine ⟨head :: before, after, rfl, ?_⟩
        rw [start, List.flatten_cons, List.length_append, Nat.add_assoc]

theorem length_starts (position : Nat) (batches : List (List A)) :
    (starts position batches).length = batches.length := by
  induction batches generalizing position with
  | nil => rfl
  | cons head batches ih => simp [ih]

/-- The part of a sequence before a batch decides where the batch starts. -/
theorem mem_starts_of_append (position : Nat) (before after : List (List A)) (batch : List A) :
    (position + before.flatten.length, batch) ∈ starts position (before ++ batch :: after) := by
  rw [starts_append]
  exact List.mem_append_right _ List.mem_cons_self

end Batches
