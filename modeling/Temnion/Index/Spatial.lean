import Temnion.Index.Intersection

/-
This file cuts a box of places into intervals of Morton codes and finds the events in its chunks.
-/

namespace Temnion.Index

namespace BoundingBox2D

end BoundingBox2D

section Merging

variable {start stop code : UInt64} {codes : List UInt64} {intervals : List (UInt64 × UInt64)}

/-- Between two intervals at least one code is left out. -/
def Apart (before after : UInt64 × UInt64) : Prop := before.2.toNat + 1 < after.1.toNat

/-- The intervals cover exactly the codes that are wanted and none of them can be made larger. -/
structure Covers (wanted : UInt64 → Prop) (intervals : List (UInt64 × UInt64)) : Prop where
  ordered : ∀ interval ∈ intervals, interval.1 ≤ interval.2
  apart : intervals.Pairwise Apart
  exact : ∀ code, (∃ interval ∈ intervals, interval.1 ≤ code ∧ code ≤ interval.2) ↔ wanted code

end Merging

namespace BoundingBox2D

variable {box : BoundingBox2D} {chunker : GridChunker2D}

end BoundingBox2D

namespace SpatialMortonProjection

variable [ReversedRange]

end SpatialMortonProjection

end Temnion.Index
