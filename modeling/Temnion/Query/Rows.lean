import Temnion.Query.Plan
import Temnion.Library.Fallible

/-
This file says which rows a storage scan returns for the page that it reads.
-/

namespace Temnion.Query

open Storage Format

variable [Binary64]

def isTrue : Except EvaluationError Literal → Bool
  | .ok (.bool true) => true
  | _ => false

/-- The filter of a scan is true on the event. -/
def satisfies (filter : Option Expr) (event : StoredEvent) : Bool :=
  filter.all fun expr => isTrue (expr.evaluate (eventFields event))

/-- The filter of a scan has a value on the event. -/
def Evaluates (filter : Option Expr) (event : StoredEvent) : Prop :=
  ∀ expr, filter = some expr → ∃ value, expr.evaluate (eventFields event) = .ok value

/-- A filter that has a value on one event has one on all events. -/
theorem Evaluates.all {filter : Option Expr} {event : StoredEvent} (evaluates : Evaluates filter event)
    (other : StoredEvent) : Evaluates filter other := by
  intro expr same
  obtain ⟨value, here⟩ := evaluates expr same
  have static := expr.evaluate_static event other
  rw [here] at static
  cases there : expr.evaluate (eventFields other) with
  | ok value' => exact ⟨value', rfl⟩
  | error error =>
      rw [there] at static
      contradiction

/-- A filter that is true on an event has a value there. -/
theorem Evaluates.of_satisfies {filter : Option Expr} {event : StoredEvent} (satisfied : satisfies filter event = true) :
    Evaluates filter event := by
  intro expr same
  rw [satisfies, same, Option.all_some] at satisfied
  cases here : expr.evaluate (eventFields event) with
  | ok value => exact ⟨value, rfl⟩
  | error error =>
      rw [here] at satisfied
      contradiction

variable {filter : Option Expr} {projection : Option (List Text)} {event : StoredEvent} {target : Nat}

theorem matchAndProjectEvent_ok (evaluates : Evaluates filter event) : matchAndProjectEvent filter projection event =
    .ok (if satisfies filter event then some (projectedRow projection event) else none) := by
  cases filter with
  | none => rfl
  | some expr =>
      obtain ⟨value, here⟩ := evaluates expr rfl
      rw [satisfies, Option.all_some, here]
      unfold matchAndProjectEvent
      dsimp only
      rw [here]
      cases value with
      | bool truth => cases truth <;> rfl
      | _ => rfl

/-- An event without a value of the filter is an error. -/
theorem matchAndProjectEvent_error (fails : ¬ Evaluates filter event) :
    ∃ error, matchAndProjectEvent filter projection event = .error error := by
  cases filter with
  | none => exact absurd nofun fails
  | some expr =>
      cases here : expr.evaluate (eventFields event) with
      | ok value =>
          refine absurd ?_ fails
          intro other same
          obtain rfl := Option.some.inj same
          exact ⟨value, here⟩
      | error error =>
          refine ⟨error, ?_⟩
          unfold matchAndProjectEvent
          dsimp only
          rw [here]
          rfl

/-- The rows of events that all evaluate are those of the matching ones, up to the target. -/
theorem collectRows_ok {events : List StoredEvent} {rows : List QueryRow}
    (evaluates : ∀ event ∈ events, Evaluates filter event) (below : rows.length < target) :
    collectRows filter projection target events rows =
      .ok ((rows ++ (events.filter (satisfies filter)).map (projectedRow projection)).take target) := by
  induction events generalizing rows with
  | nil =>
      rw [List.filter_nil, List.map_nil, List.append_nil, List.take_of_length_le (le_of_lt below)]
      rfl
  | cons event events hypothesis =>
      have rest := fun other member => evaluates other (List.mem_cons_of_mem event member)
      unfold collectRows
      rw [matchAndProjectEvent_ok (evaluates event List.mem_cons_self)]
      by_cases matched : satisfies filter event = true
      · rw [if_pos matched, List.filter_cons_of_pos matched, List.map_cons]
        have grown : (rows ++ [projectedRow projection event]).length = rows.length + 1 := List.length_append
        have split := List.append_cons rows (projectedRow projection event)
          ((events.filter (satisfies filter)).map (projectedRow projection))
        change (if target ≤ (rows ++ [projectedRow projection event]).length then .ok (rows ++ [projectedRow projection event])
          else collectRows filter projection target events (rows ++ [projectedRow projection event])) = _
        by_cases reached : target ≤ (rows ++ [projectedRow projection event]).length
        · rw [if_pos reached, split, List.take_append_of_le_length reached, List.take_of_length_le (by omega)]
        · rw [if_neg reached, hypothesis rest (by omega), split]
      · rw [if_neg matched, List.filter_cons_of_neg matched]
        exact hypothesis rest below

/-- An event that does not evaluate is an error, unless the rows end before it. -/
theorem collectRows_error {events : List StoredEvent} (fails : ¬ Evaluates filter event) (member : event ∈ events)
    {rows : List QueryRow} : ∃ error, collectRows filter projection target events rows = .error error := by
  cases events with
  | nil => nomatch member
  | cons first events =>
      have failing : ¬ Evaluates filter first := fun evaluates => fails (evaluates.all event)
      obtain ⟨error, here⟩ := @matchAndProjectEvent_error _ filter projection first failing
      refine ⟨error, ?_⟩
      unfold collectRows
      rw [here]
      rfl

section Execution

variable [Crc32fast] {store : Store} {disk : Disk} {budget : QueryBudget} {scan : Scan}

omit [Crc32fast] in
theorem targetLimit_pos {scan : StorageScan} : 0 < scan.targetLimit budget := lt_of_lt_of_le Nat.one_pos (le_max_right _ _)

omit [Crc32fast] in
theorem storageBudget_positive {scan : StorageScan} : 0 < (scan.storageBudget budget).maxResults ∧
    0 < (scan.storageBudget budget).maxScanned ∧ 0 < (scan.storageBudget budget).maxReadBytes :=
  ⟨targetLimit_pos, lt_of_lt_of_le Nat.one_pos (le_max_right _ _),
    lt_of_lt_of_le (by decide : 0 < 1024) (le_max_right _ _)⟩

/-- The page of events that the scan reads. -/
def scannedPage (store : Store) (disk : Disk) (budget : QueryBudget) (scan : StorageScan) :
    Except QueryError StoragePage := do
  let filter ← scan.historyFilter.mapError .timeRange
  (store.history disk filter (scan.storageBudget budget) none).mapError .storage

theorem executeStorageScan_eq (scan : StorageScan) : executeStorageScan store disk (.storageScan scan) budget = do
    let page ← scannedPage store disk budget scan
    let rows ← (collectRows scan.pushdownFilter scan.projection (scan.targetLimit budget) page.events []).mapError
      .evaluation
    return ⟨rows, page.scanned, page.bytesRead, page.continuation.isSome⟩ := by
  unfold executeStorageScan scannedPage
  dsimp only
  cases scan.historyFilter with
  | error error => rfl
  | ok filter => rfl

/-- The rows that an execution returns. One that fails returns none. -/
def rowsOf : Except QueryError QueryResult → List QueryRow
  | .ok result => result.rows
  | .error _ => []

/-- The rows of a scan whose page is read and evaluates. -/
theorem executeStorageScan_rows {scan : StorageScan} {page : StoragePage}
    (read : scannedPage store disk budget scan = .ok page)
    (evaluates : ∀ event ∈ page.events, Evaluates scan.pushdownFilter event) :
    executeStorageScan store disk (.storageScan scan) budget = .ok {
      rows := ((page.events.filter (satisfies scan.pushdownFilter)).map (projectedRow scan.projection)).take
        (scan.targetLimit budget)
      eventsScanned := page.scanned
      bytesRead := page.bytesRead
      truncated := page.continuation.isSome } := by
  rw [executeStorageScan_eq, read, Except.ok_bind, collectRows_ok evaluates targetLimit_pos]
  rfl

end Execution

end Temnion.Query
