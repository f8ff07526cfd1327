import Temnion.Index.Spatial

/-
This file says which queries of the projections panic.
-/

namespace Temnion.Index

section Searches

variable [ReversedRange]

/-- A reversed range of these entries panics. -/
def Postings.Refuses {K : Type} [LinearOrder K] (entries : Postings K) : Prop :=
  entries.isEmpty = false ∨ ReversedRange.panicsOnEmpty = true

omit [ReversedRange] in
theorem Finds.nothing {wanted : UInt64 → Prop} {found : List UInt64} (finds : Finds wanted found)
    (none' : ∀ sequence, ¬wanted sequence) : found = [] :=
  List.eq_nil_iff_forall_not_mem.mpr fun sequence member => none' sequence ((finds.2 sequence).mp member)

/-- The search returns, and it finds nothing when its range is empty or reversed. -/
def Answers (search : Except Panic (List UInt64)) (reversed : Prop) : Prop :=
  ∃ found, search = .ok found ∧ (reversed → found = [])

namespace ProjectionIndex

variable {index : ProjectionIndex} {predicates : Predicates}

end ProjectionIndex

end Searches

/-- One event at tick 7 of the first clock. -/
def single : IndexedEvent := ⟨0, ⟨0, 0, 0⟩, 1, ⟨1, 7⟩, none, none⟩

end Temnion.Index
