import Mathlib.Data.Prod.Lex
import Mathlib.Order.Basic
import Mathlib.Tactic

/-
This file defines the identities, the clock domains and the history filter.
-/

namespace Temnion

abbrev ShardId := UInt32

abbrev SourceId := UInt32

abbrev SourceEpoch := UInt64

abbrev ClockId := UInt32

abbrev SchemaId := UInt32

/-- The storage layer draws these sixteen bytes from the entropy of the system. -/
structure DatabaseId where
  bytes : List UInt8
  length : bytes.length = 16
  deriving DecidableEq

structure EntityId where
  shard : ShardId
  slot : UInt32
  generation : UInt32
  deriving DecidableEq, Repr

/-- The derived order compares shard, slot and generation in this order. -/
def EntityId.key (entity : EntityId) : Nat ×ₗ Nat ×ₗ Nat :=
  toLex (entity.shard.toNat, toLex (entity.slot.toNat, entity.generation.toNat))

theorem EntityId.key_injective : Function.Injective EntityId.key := by
  rintro ⟨shard, slot, generation⟩ ⟨shard', slot', generation'⟩ same
  simp only [key, toLex_inj, Prod.mk.injEq, UInt32.toNat_inj] at same
  obtain ⟨rfl, rfl, rfl⟩ := same
  rfl

instance : LinearOrder EntityId := LinearOrder.lift' EntityId.key EntityId.key_injective

structure EventId where
  source : SourceId
  epoch : SourceEpoch
  sequence : UInt64
  deriving DecidableEq, Repr

/-- The derived order compares source, epoch and sequence in this order. -/
def EventId.key (event : EventId) : Nat ×ₗ Nat ×ₗ Nat :=
  toLex (event.source.toNat, toLex (event.epoch.toNat, event.sequence.toNat))

theorem EventId.key_injective : Function.Injective EventId.key := by
  rintro ⟨source, epoch, sequence⟩ ⟨source', epoch', sequence'⟩ same
  simp only [key, toLex_inj, Prod.mk.injEq, UInt32.toNat_inj, UInt64.toNat_inj] at same
  obtain ⟨rfl, rfl, rfl⟩ := same
  rfl

instance : LinearOrder EventId := LinearOrder.lift' EventId.key EventId.key_injective

/-- A tick value has a meaning only within its clock domain. -/
structure Timestamp where
  clock : ClockId
  ticks : UInt64
  deriving DecidableEq, Repr

structure EventTimes where
  valid : Timestamp
  observed : Option Timestamp
  known : Timestamp
  deriving DecidableEq, Repr

inductive TimeAxis where
  | valid
  | observed
  | known
  deriving DecidableEq, Repr

def EventTimes.on (times : EventTimes) : TimeAxis → Option Timestamp
  | .valid => some times.valid
  | .observed => times.observed
  | .known => some times.known

/-- The interval is half open, scoped to one clock, and never reversed. -/
structure TimeRange where
  clock : ClockId
  start : UInt64
  stop : UInt64
  ordered : start ≤ stop
  deriving DecidableEq

structure InvalidTimeRange where
  start : UInt64
  stop : UInt64
  deriving DecidableEq, Repr

def TimeRange.new (clock : ClockId) (start stop : UInt64) : Except InvalidTimeRange TimeRange :=
  if ordered : start ≤ stop then .ok ⟨clock, start, stop, ordered⟩ else .error ⟨start, stop⟩

/-- A timestamp on another clock is outside the range. -/
def TimeRange.contains (range : TimeRange) (timestamp : Timestamp) : Bool :=
  timestamp.clock == range.clock && decide (range.start ≤ timestamp.ticks) &&
    decide (timestamp.ticks < range.stop)

theorem TimeRange.contains_iff {range : TimeRange} {timestamp : Timestamp} :
    range.contains timestamp ↔
      timestamp.clock = range.clock ∧ range.start ≤ timestamp.ticks ∧ timestamp.ticks < range.stop := by
  simp [contains, and_assoc]

/-- The cutoff is inclusive and lives on the known clock of the log. -/
structure HistoryFilter where
  entity : Option EntityId
  time : Option (TimeAxis × TimeRange)
  knownAsOf : Option Timestamp
  deriving DecidableEq

/-- The default filter restricts nothing. -/
def HistoryFilter.default : HistoryFilter := ⟨none, none, none⟩

/-- One persisted record of the source log. -/
structure StoredEvent where
  id : EventId
  entity : EntityId
  times : EventTimes
  schema : SchemaId
  payload : List UInt8
  causes : List EventId
  deriving DecidableEq, Repr

/-- The scan keeps a record unless a clause of the filter drops it. -/
def HistoryFilter.keeps (filter : HistoryFilter) (record : StoredEvent) : Bool :=
  !(filter.entity.any (· != record.entity) ||
    filter.knownAsOf.any (fun cutoff => decide (cutoff.ticks < record.times.known.ticks)) ||
    filter.time.any (fun (axis, range) => !(record.times.on axis).any range.contains))

theorem HistoryFilter.keeps_iff {filter : HistoryFilter} {record : StoredEvent} :
    filter.keeps record ↔
      (∀ entity, filter.entity = some entity → entity = record.entity) ∧
      (∀ cutoff, filter.knownAsOf = some cutoff → record.times.known.ticks ≤ cutoff.ticks) ∧
      (∀ axis range, filter.time = some (axis, range) →
        ∃ time, record.times.on axis = some time ∧ range.contains time) := by
  simp only [keeps, Bool.not_eq_true', Bool.or_eq_false_iff, Option.any_eq_false, bne_eq_false_iff_eq,
    decide_eq_false_iff_not, UInt64.not_lt, Bool.not_eq_false', Option.any_eq_true, Prod.forall, and_assoc]

@[simp] theorem HistoryFilter.default_keeps (record : StoredEvent) :
    HistoryFilter.default.keeps record = true := rfl

end Temnion
