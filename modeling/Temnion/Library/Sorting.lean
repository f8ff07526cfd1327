import Mathlib.Data.List.Sort
import Mathlib.Tactic

/-
This file says how far the result of a sort by keys is fixed when elements of equal key, or the whole list, may come
in any order.
-/

namespace Sorting

variable {A K : Type} [LinearOrder K] {key : A → K}

/-- The elements of the list in the order of their keys. Elements with the same key come in any order. -/
structure UnstableSort (key : A → K) where
  sort : List A → List A
  perm : ∀ list, (sort list).Perm list
  sorted : ∀ list, (sort list).Pairwise fun first second => key first ≤ key second

/-- Among the elements of one key the given one comes first. -/
def favours [DecidableEq A] (key : A → K) (favourite first second : A) : Bool :=
  decide (key first < key second) || decide (key first = key second) && (first == favourite || second != favourite)

section Favourite

variable [DecidableEq A] {favourite first second third : A}

theorem favours_iff : favours key favourite first second = true ↔
    key first < key second ∨ key first = key second ∧ (first = favourite ∨ second ≠ favourite) := by
  simp [favours]

theorem favours_le (favoured : favours key favourite first second = true) : key first ≤ key second := by
  rcases favours_iff.mp favoured with less | ⟨same, _⟩
  · exact le_of_lt less
  · exact le_of_eq same

theorem favours_total : (favours key favourite first second || favours key favourite second first) = true := by
  rw [Bool.or_eq_true, favours_iff, favours_iff]
  rcases lt_trichotomy (key first) (key second) with less | same | greater
  · exact .inl (.inl less)
  · by_cases chosen : first = favourite
    · exact .inl (.inr ⟨same, .inl chosen⟩)
    · exact .inr (.inr ⟨same.symm, .inr chosen⟩)
  · exact .inr (.inl greater)

theorem favours_trans (one : favours key favourite first second = true)
    (two : favours key favourite second third = true) : favours key favourite first third = true := by
  rw [favours_iff] at one two ⊢
  rcases one with less | ⟨same, head⟩
  · rcases two with further | ⟨also, _⟩
    · exact .inl (less.trans further)
    · exact .inl (also ▸ less)
  · rcases two with further | ⟨also, tail⟩
    · exact .inl (same ▸ further)
    · refine .inr ⟨same.trans also, ?_⟩
      rcases head with chosen | other
      · exact .inl chosen
      · exact .inr (tail.resolve_left other)

theorem pairwise_favours (favourite : A) (list : List A) :
    (list.mergeSort (favours key favourite)).Pairwise
      fun first second => favours key favourite first second = true :=
  List.pairwise_mergeSort (fun _ _ _ => favours_trans) (fun _ _ => favours_total) list

/-- The favourite comes before every other element of its key, so that two favourites of one key exclude each
other. -/
theorem favourites_eq {other : A} {list : List A} (same : key favourite = key other) (present : favourite ∈ list)
    (also : other ∈ list)
    (one : list.Pairwise fun first second => favours key favourite first second = true)
    (two : list.Pairwise fun first second => favours key other first second = true) : favourite = other := by
  by_contra different
  have both := one.and two
  have refuted : ¬ (favours key favourite other favourite = true) := by
    rw [favours_iff]
    rintro (less | ⟨_, chosen | chosen⟩)
    · exact absurd less (same ▸ lt_irrefl _)
    · exact different chosen.symm
    · exact chosen rfl
  have refuted' : ¬ (favours key other favourite other = true) := by
    rw [favours_iff]
    rintro (less | ⟨_, chosen | chosen⟩)
    · exact absurd less (same ▸ lt_irrefl _)
    · exact different chosen
    · exact chosen rfl
  clear one two
  induction list with
  | nil => cases present
  | cons head tail hypothesis =>
      obtain ⟨before, rest⟩ := List.pairwise_cons.mp both
      rcases List.mem_cons.mp present with rfl | inside
      · rcases List.mem_cons.mp also with equal | behind
        · exact different equal.symm
        · exact refuted' (before other behind).2
      · rcases List.mem_cons.mp also with rfl | behind
        · exact refuted (before favourite inside).1
        · exact hypothesis inside behind rest

end Favourite

namespace UnstableSort

/-- With different keys only one order is left, whichever sort is used. -/
theorem sorts_eq (sorts others : UnstableSort key) {first second : List A} (same : first.Perm second)
    (apart : ∀ one ∈ first, ∀ two ∈ first, key one = key two → one = two) :
    sorts.sort first = others.sort second := by
  have perm := (sorts.perm first).trans (same.trans (others.perm second).symm)
  apply List.Perm.eq_of_pairwise _ (sorts.sorted first) (others.sorted second) perm
  intro one two member also less greater
  have inside := (sorts.perm first).mem_iff.mp member
  have inside' := same.mem_iff.mpr ((others.perm second).mem_iff.mp also)
  exact apart one inside two inside' (le_antisymm less greater)

theorem sort_eq (sorts : UnstableSort key) {first second : List A} (same : first.Perm second)
    (apart : ∀ one ∈ first, ∀ two ∈ first, key one = key two → one = two) :
    sorts.sort first = sorts.sort second :=
  sorts.sorts_eq sorts same apart

/-- The sort may favour one element in one list and another one in all other lists. -/
def favouring [DecidableEq A] (key : A → K) (list : List A) (one two : A) : UnstableSort key where
  sort other := other.mergeSort (favours key (if other = list then one else two))
  perm other := List.mergeSort_perm other _
  sorted other := (pairwise_favours _ other).imp favours_le

/-- One such sort keeps the order of the elements of one key. -/
def stable (key : A → K) : UnstableSort key where
  sort list := list.mergeSort fun first second => decide (key first ≤ key second)
  perm list := List.mergeSort_perm list _
  sorted list := by
    have total : ∀ first second : A,
        (decide (key first ≤ key second) || decide (key second ≤ key first)) = true := by
      intro first second
      rw [Bool.or_eq_true, decide_eq_true_eq, decide_eq_true_eq]
      exact le_total (key first) (key second)
    have transitive : ∀ first second third : A, decide (key first ≤ key second) = true →
        decide (key second ≤ key third) = true → decide (key first ≤ key third) = true := by
      intro first second third one two
      exact decide_eq_true ((of_decide_eq_true one).trans (of_decide_eq_true two))
    exact (List.pairwise_mergeSort transitive total list).imp of_decide_eq_true

theorem stable_sort {list : List A} (sorted : list.Pairwise fun first second => key first ≤ key second) :
    (stable key).sort list = list :=
  List.mergeSort_of_pairwise (sorted.imp decide_eq_true)

/-- Two different elements of one key come in either order. -/
theorem exists_sort_ne [DecidableEq A] {first second : List A} (different : first ≠ second) {one two : A}
    (apart : one ≠ two) (same : key one = key two) (present : one ∈ first) (also : two ∈ first) :
    ∃ sorts : UnstableSort key, sorts.sort first ≠ sorts.sort second := by
  refine ⟨favouring key first one two, ?_⟩
  intro equal
  have before := @pairwise_favours A K _ key _ one first
  have behind := @pairwise_favours A K _ key _ two second
  have unfold' : first.mergeSort (favours key one) = second.mergeSort (favours key two) := by
    change first.mergeSort (favours key (if first = first then one else two)) =
      second.mergeSort (favours key (if second = first then one else two)) at equal
    rwa [if_pos rfl, if_neg different.symm] at equal
  rw [← unfold'] at behind
  exact apart (favourites_eq same (List.mem_mergeSort.mpr present) (List.mem_mergeSort.mpr also) before behind)

end UnstableSort

/-- The order in which a hash map happens to be iterated. -/
structure Iteration (A : Type) where
  arrange : List A → List A
  perm : ∀ list, (arrange list).Perm list

/-- One such order is the order of the list. -/
def Iteration.inOrder (A : Type) : Iteration A := ⟨fun list => list, fun list => .refl list⟩

namespace UnstableSort

/-- The first element has the least key. -/
theorem head_le (sorts : UnstableSort key) {list rest : List A} {first : A} (sorted : sorts.sort list = first :: rest) :
    first ∈ list ∧ ∀ other ∈ list, key first ≤ key other := by
  have ordered := sorts.sorted list
  rw [sorted, List.pairwise_cons] at ordered
  have same := sorts.perm list
  rw [sorted] at same
  refine ⟨same.mem_iff.mp List.mem_cons_self, fun other member => ?_⟩
  rcases List.mem_cons.mp (same.mem_iff.mpr member) with rfl | behind
  · exact le_rfl
  · exact ordered.1 other behind

end UnstableSort

end Sorting
