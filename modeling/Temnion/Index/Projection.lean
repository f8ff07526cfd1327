import Temnion.Core
import Temnion.Index.Morton
import Temnion.Index.Summary
import Temnion.Library.Ascending
import Temnion.Library.OrderedMap
import Temnion.Library.Words

/-
This file indexes events by entity, time, place and schema, and intersects what the projections find.
-/

namespace Temnion.Index

/-- The documentation lets every reversed range of a map panic. The implementation answers it when the map is empty. -/
class ReversedRange where
  panicsOnEmpty : Bool

inductive Panic where
  | rangeStart
  | overflow
  deriving DecidableEq

/-- The sequence numbers of each key in the order in which they were inserted. -/
abbrev Postings (K : Type) [LinearOrder K] := OrderedMap K (List UInt64)

namespace Postings

variable {K : Type} [LinearOrder K]

/-- The last sequence number of a key is not repeated. -/
def insert (entries : Postings K) (key : K) (sequence : UInt64) : Postings K :=
  entries.entry key [] fun list => if list.getLast? = some sequence then list else list ++ [sequence]

def sequencesFor (entries : Postings K) (key : K) : List UInt64 := entries[key]?.getD []

/-- The entries between two bounds, both of them included. -/
def range [ReversedRange] (entries : Postings K) (first last : K) : Except Panic (List (K × List UInt64)) :=
  if last < first ∧ (entries.isEmpty = false ∨ ReversedRange.panicsOnEmpty) then .error .rangeStart
  else .ok (entries.toList.filter fun (key, _) => first ≤ key ∧ key ≤ last)

end Postings

structure EntityProjection where
  entries : Postings EntityId

def EntityProjection.new : EntityProjection := ⟨∅⟩

def EntityProjection.insert (projection : EntityProjection) (entity : EntityId) (sequence : UInt64) : EntityProjection :=
  ⟨projection.entries.insert entity sequence⟩

def EntityProjection.sequencesForEntity (projection : EntityProjection) (entity : EntityId) : List UInt64 :=
  projection.entries.sequencesFor entity

structure TemporalProjection where
  entries : Postings (ClockId ×ₗ UInt64)

def TemporalProjection.new : TemporalProjection := ⟨∅⟩

def TemporalProjection.insert (projection : TemporalProjection) (clock : ClockId) (ticks sequence : UInt64) :
    TemporalProjection :=
  ⟨projection.entries.insert (toLex (clock, ticks)) sequence⟩

def TemporalProjection.sequencesInRange [ReversedRange] (projection : TemporalProjection) (clock : ClockId)
    (minTicks maxTicks : UInt64) : Except Panic (List UInt64) := do
  let entries ← projection.entries.range (toLex (clock, minTicks)) (toLex (clock, maxTicks))
  return Ascending.sorted ((entries.filter fun (key, _) => (ofLex key).1 = clock).flatMap Prod.snd)

structure SpatialMortonProjection where
  entries : Postings UInt64

def SpatialMortonProjection.new : SpatialMortonProjection := ⟨∅⟩

def SpatialMortonProjection.insert (projection : SpatialMortonProjection) (mortonCode sequence : UInt64) :
    SpatialMortonProjection :=
  ⟨projection.entries.insert mortonCode sequence⟩

def SpatialMortonProjection.sequencesInIntervals [ReversedRange] (projection : SpatialMortonProjection)
    (intervals : List (UInt64 × UInt64)) : Except Panic (List UInt64) := do
  let results ← intervals.mapM fun (start, stop) => projection.entries.range start stop
  return Ascending.sorted (results.flatten.flatMap Prod.snd)

structure SchemaBitmapProjection where
  entries : Postings SchemaId

def SchemaBitmapProjection.new : SchemaBitmapProjection := ⟨∅⟩

def SchemaBitmapProjection.insert (projection : SchemaBitmapProjection) (schema : SchemaId) (sequence : UInt64) :
    SchemaBitmapProjection :=
  ⟨projection.entries.insert schema sequence⟩

def SchemaBitmapProjection.sequencesForSchema (projection : SchemaBitmapProjection) (schema : SchemaId) : List UInt64 :=
  projection.entries.sequencesFor schema

/-- A grid of chunks of one positive size. -/
structure GridChunker2D where
  chunkSize : UInt32
  positive : 0 < chunkSize
  deriving DecidableEq

namespace GridChunker2D

def new (chunkSize : UInt32) : Except IndexError GridChunker2D :=
  if zero : chunkSize = 0 then .error (.format "chunk size must be positive")
  else .ok ⟨chunkSize, UInt32.pos_iff_ne_zero.mpr zero⟩

def chunkCoords (chunker : GridChunker2D) (x y : UInt32) : UInt32 × UInt32 :=
  (x / chunker.chunkSize, y / chunker.chunkSize)

def chunkMorton (chunker : GridChunker2D) (x y : UInt32) : UInt64 :=
  mortonEncode2d (chunker.chunkCoords x y).1 (chunker.chunkCoords x y).2

end GridChunker2D

/-- Both lists are read from their fronts. -/
def intersectSorted (first second : List UInt64) : List UInt64 := Ascending.intersect first second

structure ProjectionIndex where
  entities : EntityProjection
  temporal : TemporalProjection
  spatial : SpatialMortonProjection
  schemas : SchemaBitmapProjection
  totalIndexed : UInt64

namespace ProjectionIndex

def new : ProjectionIndex :=
  ⟨EntityProjection.new, TemporalProjection.new, SpatialMortonProjection.new, SchemaBitmapProjection.new, 0⟩

/-- An event without coordinates or without a grid is not placed. -/
def indexEvent (index : ProjectionIndex) (sequence : UInt64) (entity : EntityId) (schema : SchemaId)
    (validTime : Timestamp) (spatialCoords : Option (UInt32 × UInt32)) (chunker : Option GridChunker2D) :
    ProjectionIndex where
  entities := index.entities.insert entity sequence
  schemas := index.schemas.insert schema sequence
  temporal := index.temporal.insert validTime.clock validTime.ticks sequence
  spatial :=
    match spatialCoords, chunker with
    | some (x, y), some chunker => index.spatial.insert (chunker.chunkMorton x y) sequence
    | _, _ => index.spatial
  totalIndexed := index.totalIndexed + 1

/-- The candidates that a predicate finds as well. Without candidates so far these are all it finds. -/
def restrict {P : Type} (predicate : Option P) (search : P → Except Panic (List UInt64))
    (candidates : Option (List UInt64)) : Except Panic (Option (List UInt64)) :=
  match predicate with
  | none => .ok candidates
  | some wanted => (search wanted).map fun found => some ((candidates.map (intersectSorted · found)).getD found)

/-- Nothing is searched once no candidate is left. -/
def queryIntersect [ReversedRange] (index : ProjectionIndex) (entity : Option EntityId) (schema : Option SchemaId)
    (timeRange : Option (ClockId × UInt64 × UInt64)) (spatialIntervals : Option (List (UInt64 × UInt64))) :
    Except Panic (List UInt64) := do
  let candidates ← restrict entity (fun wanted => .ok (index.entities.sequencesForEntity wanted)) none
  if candidates = some [] then return []
  let candidates ← restrict schema (fun wanted => .ok (index.schemas.sequencesForSchema wanted)) candidates
  if candidates = some [] then return []
  let candidates ← restrict timeRange
    (fun (clock, minTicks, maxTicks) => index.temporal.sequencesInRange clock minTicks maxTicks) candidates
  if candidates = some [] then return []
  let candidates ← restrict spatialIntervals index.spatial.sequencesInIntervals candidates
  return candidates.getD []

end ProjectionIndex

end Temnion.Index
