import Temnion.Query.Expression
import Temnion.Storage.Store

/-
This file defines the logical and physical plans of queries and the execution of a storage scan.
-/

namespace Temnion.Query

open Storage Format

inductive CausalDirection where
  | causes
  | effects
  deriving DecidableEq, Repr

/-- The start belongs to the range and the stop does not. -/
structure TimestampRange where
  start : Timestamp
  stop : Timestamp
  deriving DecidableEq, Repr

section Types

variable [Binary64]

structure Scan where
  entity : Option EntityId
  schema : Option SchemaId
  validRange : Option TimestampRange
  knownAsOf : Option Timestamp
  filter : Option Expr
  projection : Option (List Text)
  limit : Option Nat
  deriving DecidableEq

structure CausalTrace where
  origin : EventId
  direction : CausalDirection
  maxDepth : Option Nat
  limit : Option Nat
  deriving DecidableEq

inductive LogicalPlan where
  | scan (scan : Scan)
  | causalTrace (trace : CausalTrace)
  deriving DecidableEq

structure StorageScan where
  entity : Option EntityId
  validRange : Option TimestampRange
  knownAsOf : Option Timestamp
  pushdownFilter : Option Expr
  projection : Option (List Text)
  limit : Option Nat
  useZoneMaps : Bool
  useBloom : Bool
  deriving DecidableEq

structure CausalWalk where
  origin : EventId
  direction : CausalDirection
  maxDepth : Nat
  limit : Option Nat
  deriving DecidableEq

inductive PhysicalPlan where
  | storageScan (scan : StorageScan)
  | causalWalk (walk : CausalWalk)
  deriving DecidableEq

/-- No operator of the storage scan reads the schema. -/
def Scan.storageScan (scan : Scan) : StorageScan where
  entity := scan.entity
  validRange := scan.validRange
  knownAsOf := scan.knownAsOf
  pushdownFilter := scan.filter
  projection := scan.projection
  limit := scan.limit
  useZoneMaps := scan.validRange.isSome
  useBloom := scan.entity.isSome

def planQuery : LogicalPlan → PhysicalPlan
  | .scan scan => .storageScan scan.storageScan
  | .causalTrace trace => .causalWalk ⟨trace.origin, trace.direction, trace.maxDepth.getD 16, trace.limit⟩

/-- The ceilings of one execution. -/
structure QueryBudget where
  maxRows : Option Nat
  maxEventsScanned : Option Nat
  maxBytes : Option Nat
  deriving DecidableEq, Repr

/-- One row of a result. -/
structure QueryRow where
  entity : EntityId
  schema : SchemaId
  validTime : Timestamp
  knownTime : Timestamp
  sequence : UInt64
  fields : Fields
  deriving DecidableEq

structure QueryResult where
  rows : List QueryRow
  eventsScanned : Nat
  bytesRead : Nat
  truncated : Bool
  deriving DecidableEq

inductive QueryError where
  | timeRange (error : InvalidTimeRange)
  | storage (error : StorageError)
  | evaluation (error : EvaluationError)
  | unsupported

end Types

def usizeMax : Nat := 2 ^ 64 - 1

section Execution

variable [Binary64]

/-- Only requested fields stay in the row. -/
def projectedRow (projection : Option (List Text)) (event : StoredEvent) : QueryRow where
  entity := event.entity
  schema := event.schema
  validTime := event.times.valid
  knownTime := event.times.known
  sequence := event.id.sequence
  fields := match projection with
    | none => eventFields event
    | some names => (eventFields event).filter fun field => names.contains field.1

/-- A filter that evaluates to anything but true drops the event. -/
def matchAndProjectEvent (filter : Option Expr) (projection : Option (List Text)) (event : StoredEvent) :
    Except EvaluationError (Option QueryRow) :=
  match filter with
  | none => .ok (some (projectedRow projection event))
  | some filter => do
      match ← filter.evaluate (eventFields event) with
      | .bool true => return some (projectedRow projection event)
      | _ => return none

/-- The rows end at the target. -/
def collectRows (filter : Option Expr) (projection : Option (List Text)) (target : Nat) :
    List StoredEvent → List QueryRow → Except EvaluationError (List QueryRow)
  | [], rows => .ok rows
  | event :: events, rows => do
      match ← matchAndProjectEvent filter projection event with
      | none => collectRows filter projection target events rows
      | some row =>
          let rows := rows ++ [row]
          if target ≤ rows.length then return rows else collectRows filter projection target events rows

namespace StorageScan

/-- At least one row is asked for. -/
def targetLimit (scan : StorageScan) (budget : QueryBudget) : Nat :=
  max (min (scan.limit.getD usizeMax) (budget.maxRows.getD usizeMax)) 1

def storageBudget (scan : StorageScan) (budget : QueryBudget) : StorageQueryBudget where
  maxResults := scan.targetLimit budget
  maxScanned := max (budget.maxEventsScanned.getD 65536) 1
  maxReadBytes := max (budget.maxBytes.getD (64 * 1024 * 1024)) 1024

/-- The range lies on the clock of its start. -/
def historyFilter (scan : StorageScan) : Except InvalidTimeRange HistoryFilter := do
  let time ← match scan.validRange with
    | none => pure none
    | some range => do
        let range ← TimeRange.new range.start.clock range.start.ticks range.stop.ticks
        pure (some (TimeAxis.valid, range))
  return ⟨scan.entity, time, scan.knownAsOf⟩

end StorageScan

variable [Crc32fast]

/-- One page of the history, filtered and projected. -/
def executeStorageScan (store : Store) (disk : Disk) (plan : PhysicalPlan) (budget : QueryBudget) :
    Except QueryError QueryResult :=
  match plan with
  | .storageScan scan => do
      let filter ← scan.historyFilter.mapError .timeRange
      let page ← (store.history disk filter (scan.storageBudget budget) none).mapError .storage
      let rows ← (collectRows scan.pushdownFilter scan.projection (scan.targetLimit budget) page.events []).mapError
        .evaluation
      return ⟨rows, page.scanned, page.bytesRead, page.continuation.isSome⟩
  | .causalWalk _ => .error .unsupported

end Execution

end Temnion.Query
