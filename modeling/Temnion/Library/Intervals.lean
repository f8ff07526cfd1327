import Mathlib.Data.List.Chain
import Mathlib.Tactic

/-
This file follows intervals that stand one behind the other, the last one without an end.
-/

namespace Intervals

/-- An interval with its inclusive end, if it has one. -/
abbrev Interval := Nat × Option Nat

def Within (interval : Interval) (place : Nat) : Prop :=
  interval.1 ≤ place ∧ ∀ stop ∈ interval.2, place ≤ stop

/-- Intervals with an end, and one without an end behind them. -/
def spans (bounded : List (Nat × Nat)) (last : Nat) : List Interval :=
  bounded.map (fun interval => (interval.1, some interval.2)) ++ [(last, none)]

@[simp] theorem spans_nil (last : Nat) : spans [] last = [(last, none)] := rfl

@[simp] theorem spans_cons (first stop last : Nat) (bounded : List (Nat × Nat)) :
    spans ((first, stop) :: bounded) last = (first, some stop) :: spans bounded last := rfl

/-- Every interval starts right behind the end of the one before it. An interval may be empty or run backwards. -/
def Linked : Nat → List (Nat × Nat) → Nat → Prop
  | position, [], last => last = position
  | position, (first, stop) :: rest, last => first = position ∧ Linked (stop + 1) rest last

/-- The interval without an end splits in two. -/
theorem linked_concat {position start stop last : Nat} {bounded : List (Nat × Nat)} :
    Linked position (bounded ++ [(start, stop)]) last ↔ Linked position bounded start ∧ last = stop + 1 := by
  induction bounded generalizing position with
  | nil => exact Iff.rfl
  | cons interval bounded hypothesis =>
      obtain ⟨first, middle⟩ := interval
      rw [List.cons_append, Linked, Linked, hypothesis, and_assoc]

/-- One interval ends right before the next one. -/
def Follows (before after : Interval) : Prop := ∃ stop, before.2 = some stop ∧ after.1 = stop + 1

theorem linked_iff {position last : Nat} {bounded : List (Nat × Nat)} :
    Linked position bounded last ↔
      (spans bounded last).head?.map Prod.fst = some position ∧ List.IsChain Follows (spans bounded last) := by
  induction bounded generalizing position with
  | nil => simp [Linked]
  | cons interval bounded hypothesis =>
      obtain ⟨first, stop⟩ := interval
      rw [Linked, hypothesis, spans_cons, List.head?_cons, Option.map_some, Option.some.injEq]
      apply and_congr_right
      intro _
      cases rest : spans bounded last with
      | nil => simp [spans] at rest
      | cons next others =>
          rw [List.isChain_cons_cons]
          simp [Follows]

/-- Whatever lies before the last interval lies within another one. -/
theorem Linked.exists_within {position last place : Nat} {bounded : List (Nat × Nat)}
    (linked : Linked position bounded last) (lower : position ≤ place) (upper : place < last) :
    ∃ interval ∈ bounded, interval.1 ≤ place ∧ place ≤ interval.2 := by
  induction bounded generalizing position with
  | nil =>
      obtain rfl : last = position := linked
      omega
  | cons interval bounded hypothesis =>
      obtain ⟨first, stop⟩ := interval
      obtain ⟨rfl, rest⟩ := linked
      by_cases here : place ≤ stop
      · exact ⟨(first, stop), List.mem_cons_self, lower, here⟩
      · obtain ⟨other, member, inside⟩ := hypothesis rest (Nat.not_le.mp here)
        exact ⟨other, List.mem_cons_of_mem _ member, inside⟩

/-- The intervals before the last one hold every place below a place that they hold. -/
theorem Linked.within_of_le {position last place other : Nat} {bounded : List (Nat × Nat)}
    (linked : Linked position bounded last) (lower : position ≤ other) (order : other ≤ place)
    (holds : ∃ interval ∈ bounded, interval.1 ≤ place ∧ place ≤ interval.2) :
    ∃ interval ∈ bounded, interval.1 ≤ other ∧ other ≤ interval.2 := by
  induction bounded generalizing position with
  | nil =>
      obtain ⟨interval, absent, _⟩ := holds
      exact absurd absent List.not_mem_nil
  | cons interval bounded hypothesis =>
      obtain ⟨first, stop⟩ := interval
      obtain ⟨rfl, rest⟩ := linked
      by_cases here : other ≤ stop
      · exact ⟨(first, stop), List.mem_cons_self, lower, here⟩
      · obtain ⟨owner, member, inside⟩ := holds
        rcases List.mem_cons.mp member with rfl | member
        · have upper := inside.2
          dsimp only at upper
          omega
        · obtain ⟨found, member, within⟩ := hypothesis rest (Nat.not_le.mp here) ⟨owner, member, inside⟩
          exact ⟨found, List.mem_cons_of_mem _ member, within⟩

section Unique

variable {position last place : Nat} {bounded : List (Nat × Nat)}

/-- No interval starts before the position, unless one runs backwards. -/
theorem Linked.position_le (linked : Linked position bounded last)
    (ordered : ∀ interval ∈ bounded, interval.1 ≤ interval.2 + 1) :
    ∀ interval ∈ spans bounded last, position ≤ interval.1 := by
  induction bounded generalizing position with
  | nil =>
      obtain rfl : last = position := linked
      intro interval member
      rw [List.mem_singleton.mp member]
  | cons interval bounded hypothesis =>
      obtain ⟨first, stop⟩ := interval
      obtain ⟨rfl, rest⟩ := linked
      obtain ⟨bound, bounds⟩ := List.forall_mem_cons.mp ordered
      intro other member
      rcases List.mem_cons.mp member with rfl | member
      · exact le_refl _
      · have later := hypothesis rest bounds other member
        dsimp only at bound
        omega

/-- Every place from the position on lies within exactly one of the intervals. -/
theorem Linked.existsUnique (linked : Linked position bounded last)
    (ordered : ∀ interval ∈ bounded, interval.1 ≤ interval.2 + 1) (lower : position ≤ place) :
    ∃! index : Nat, ∃ interval, (spans bounded last)[index]? = some interval ∧ Within interval place := by
  induction bounded generalizing position with
  | nil =>
      obtain rfl : last = position := linked
      refine ⟨0, ⟨(last, none), rfl, lower, fun stop absent => nomatch absent⟩, ?_⟩
      intro index owner
      obtain ⟨interval, found, _⟩ := owner
      have inside := (List.getElem?_eq_some_iff.mp found).1
      exact Nat.lt_one_iff.mp inside
  | cons interval bounded hypothesis =>
      obtain ⟨first, stop⟩ := interval
      obtain ⟨rfl, rest⟩ := linked
      obtain ⟨bound, bounds⟩ := List.forall_mem_cons.mp ordered
      by_cases here : place ≤ stop
      · refine ⟨0, ⟨(first, some stop), rfl, lower, fun other same => Option.some.inj same ▸ here⟩, ?_⟩
        intro index owner
        obtain ⟨interval, found, within⟩ := owner
        cases index with
        | zero => rfl
        | succ index =>
            have later := rest.position_le bounds interval (List.mem_of_getElem? found)
            have start := within.1
            omega
      · obtain ⟨index, ⟨interval, found, within⟩, unique⟩ := hypothesis rest bounds (Nat.not_le.mp here)
        refine ⟨index + 1, ⟨interval, found, within⟩, ?_⟩
        intro other owner
        obtain ⟨interval, found, within⟩ := owner
        cases other with
        | zero =>
            obtain rfl := Option.some.inj found
            exact absurd (within.2 stop rfl) here
        | succ other => exact congrArg (· + 1) (unique other ⟨interval, found, within⟩)

end Unique

end Intervals
