import Temnion.Query.Plan

/-
This file splits rows into columns and puts them together again.
-/

namespace Temnion.Protocol

open Query

structure ColumnarBatch where
  length : Nat
  entityShards : List ShardId
  entitySlots : List UInt32
  entityGenerations : List UInt32
  validTimestamps : List UInt64
  knownTimestamps : List UInt64
  sequences : List UInt64
  schemaIds : List SchemaId
  deriving DecidableEq

namespace ColumnarBatch

variable [Binary64]

def fromQueryRows (rows : List QueryRow) : ColumnarBatch where
  length := rows.length
  entityShards := rows.map (·.entity.shard)
  entitySlots := rows.map (·.entity.slot)
  entityGenerations := rows.map (·.entity.generation)
  validTimestamps := rows.map (·.validTime.ticks)
  knownTimestamps := rows.map (·.knownTime.ticks)
  sequences := rows.map (·.sequence)
  schemaIds := rows.map (·.schema)

/-- No column has the clocks. The row takes the first clock for both times. -/
def rowAt (batch : ColumnarBatch) (i : Nat) : Option QueryRow := do
  let shard ← batch.entityShards[i]?
  let slot ← batch.entitySlots[i]?
  let generation ← batch.entityGenerations[i]?
  let validTicks ← batch.validTimestamps[i]?
  let knownTicks ← batch.knownTimestamps[i]?
  let sequence ← batch.sequences[i]?
  let schema ← batch.schemaIds[i]?
  some ⟨⟨shard, slot, generation⟩, schema, ⟨1, validTicks⟩, ⟨1, knownTicks⟩, sequence, []⟩

/-- It fails when an index is outside a column. -/
def toQueryRows (batch : ColumnarBatch) : Option (List QueryRow) := (List.range batch.length).mapM batch.rowAt

/-- The row that is put together for a row. -/
def restored (row : QueryRow) : QueryRow :=
  ⟨row.entity, row.schema, ⟨1, row.validTime.ticks⟩, ⟨1, row.knownTime.ticks⟩, row.sequence, []⟩

variable {rows : List QueryRow} {row : QueryRow}

theorem rowAt_fromQueryRows (rows : List QueryRow) (i : Nat) : (fromQueryRows rows).rowAt i = (rows[i]?).map restored := by
  unfold rowAt fromQueryRows
  simp only [List.getElem?_map]
  cases rows[i]? with
  | none => rfl
  | some row => rfl

/-- Every index is inside its column. -/
theorem toQueryRows_fromQueryRows (rows : List QueryRow) : (fromQueryRows rows).toQueryRows = some (rows.map restored) := by
  have whole := Option.mapM_range (rows.map restored)
  rw [List.length_map] at whole
  rw [toQueryRows, ← whole]
  apply Option.mapM_congr
  intro i _
  rw [rowAt_fromQueryRows, List.getElem?_map]

/-- The entity, the schema, the sequence number and the times of a row. -/
def fixedColumns (row : QueryRow) : EntityId × SchemaId × UInt64 × Timestamp × Timestamp :=
  (row.entity, row.schema, row.sequence, row.validTime, row.knownTime)

theorem fixedColumns_restored_iff (row : QueryRow) :
    fixedColumns (restored row) = fixedColumns row ↔ row.validTime.clock = 1 ∧ row.knownTime.clock = 1 := by
  obtain ⟨entity, schema, ⟨validClock, validTicks⟩, ⟨knownClock, knownTicks⟩, sequence, fields⟩ := row
  simp only [fixedColumns, restored, Prod.mk.injEq, Timestamp.mk.injEq, true_and, and_true]
  exact and_congr eq_comm eq_comm

/-- No index is outside a column, and the rows come back with their fixed columns exactly when both times of each of them
are on the first clock. -/
theorem columns_lossless_iff (rows : List QueryRow) : ∃ back, (fromQueryRows rows).toQueryRows = some back ∧
    (back.map fixedColumns = rows.map fixedColumns ↔
      ∀ row ∈ rows, row.validTime.clock = 1 ∧ row.knownTime.clock = 1) := by
  refine ⟨rows.map restored, toQueryRows_fromQueryRows rows, ?_⟩
  rw [List.map_map, List.map_inj_left]
  exact forall₂_congr fun row _ => fixedColumns_restored_iff row

omit [Binary64] in
/-- A time on the second clock comes back on the first one. -/
theorem second_clock_is_lost :
    letI := Binary64.exact
    let rows : List QueryRow := [⟨⟨0, 1, 1⟩, 2, ⟨2, 1000⟩, ⟨1, 2000⟩, 0, []⟩]
    ∃ back, (fromQueryRows rows).toQueryRows = some back ∧ back.map fixedColumns ≠ rows.map fixedColumns := by
  let := Binary64.exact
  intro rows
  refine ⟨rows.map restored, toQueryRows_fromQueryRows rows, ?_⟩
  decide

end ColumnarBatch

end Temnion.Protocol
