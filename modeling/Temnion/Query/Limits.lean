import Temnion.Query.Execution
import Temnion.Branch.Run

/-
This file says when a storage scan returns the first matching events up to its limit.
-/

namespace Temnion.Query

open Storage Format

section Lists

variable {A B : Type} {wanted : A → Bool} {items : List A} {count : Nat}

/-- The wanted items among the first ones are the first wanted items exactly when all of the first ones are wanted or
none behind them is. -/
theorem map_take_filter_iff (image : A → B) :
    ((items.take count).filter wanted).map image = ((items.filter wanted).take count).map image ↔
      (∀ item ∈ items.take count, wanted item = true) ∨ ∀ item ∈ items.drop count, wanted item = false := by
  have whole : items.filter wanted = (items.take count).filter wanted ++ (items.drop count).filter wanted := by
    rw [← List.filter_append, List.take_append_drop]
  have few : ((items.take count).filter wanted).length ≤ count :=
    (List.length_filter_le _ _).trans (List.length_take_le _ _)
  rw [whole, List.take_append, List.take_of_length_le few, List.map_append, List.self_eq_append_right,
    List.map_eq_nil_iff, List.take_eq_nil_iff, List.filter_eq_nil_iff]
  have later : (∀ item ∈ items.drop count, ¬ wanted item = true) ↔ ∀ item ∈ items.drop count, wanted item = false :=
    forall₂_congr fun _ _ => iff_of_eq (Bool.not_eq_true _)
  rw [later]
  constructor
  · rintro (full | none)
    · left
      have long := List.length_take_le count items
      apply List.length_filter_eq_length_iff.mp
      have short := List.length_filter_le wanted (items.take count)
      omega
    · exact .inr none
  · rintro (all | none)
    · by_cases reached : count ≤ items.length
      · left
        rw [List.length_filter_eq_length_iff.mpr all, List.length_take, Nat.min_eq_left reached, Nat.sub_self]
      · right
        rw [List.drop_eq_nil_of_le (Nat.le_of_not_le reached)]
        exact fun item absent => absurd absent List.not_mem_nil
    · exact .inr none

/-- No wanted item is the first one. -/
theorem map_take_one_filter_iff (image : A → B) : ((items.take 1).filter wanted).map image = [] ↔
    ∀ item ∈ items.head?, wanted item = false := by
  rw [List.map_eq_nil_iff, List.filter_eq_nil_iff]
  cases items with
  | nil =>
      exact iff_of_true (fun _ absent => absurd absent List.not_mem_nil)
        fun item absent => absurd absent (Option.not_mem_none item)
  | cons head items =>
      constructor
      · intro unwanted item first
        obtain rfl : head = item := Option.some.inj first
        exact Bool.eq_false_of_not_eq_true (unwanted head List.mem_cons_self)
      · intro unwanted item member
        obtain rfl : item = head := List.mem_singleton.mp member
        rw [unwanted item rfl]
        exact Bool.false_ne_true

end Lists

namespace StorageScan

variable [Binary64]

/-- The smaller one of the limit of the scan and the rows of the budget. -/
def rowBound (scan : StorageScan) (budget : QueryBudget) : Option Nat :=
  match scan.limit, budget.maxRows with
  | none, rows => rows
  | some limit, none => some limit
  | some limit, some rows => some (min limit rows)

/-- The entity, the times and the filter of the scan accept the event. -/
def matching (scan : StorageScan) (event : StoredEvent) : Bool :=
  scan.admits event && satisfies scan.pushdownFilter event

/-- The rows of the first matching events up to the bound. -/
def firstRows (scan : StorageScan) (budget : QueryBudget) (events : List StoredEvent) : List QueryRow :=
  let found := events.filter scan.matching
  (match scan.rowBound budget with
  | none => found
  | some bound => found.take bound).map (projectedRow scan.projection)

/-- The bound cuts off no matching event that should be a row. -/
def BoundFits (scan : StorageScan) (budget : QueryBudget) (events : List StoredEvent) : Prop :=
  let admitted := events.filter scan.admits
  match scan.rowBound budget with
  | none => True
  | some 0 => ∀ event ∈ admitted.head?, satisfies scan.pushdownFilter event = false
  | some bound => (∀ event ∈ admitted.take bound, satisfies scan.pushdownFilter event = true) ∨
      ∀ event ∈ admitted.drop bound, satisfies scan.pushdownFilter event = false

variable {scan : StorageScan} {budget : QueryBudget} {events : List StoredEvent}

theorem filter_matching : events.filter scan.matching =
    (events.filter scan.admits).filter (satisfies scan.pushdownFilter) := by
  rw [List.filter_filter]
  exact List.filter_congr fun event _ => Bool.and_comm _ _

/-- Without a bound the scan asks for more events than there are. -/
theorem take_targetLimit_unbounded (unbounded : scan.rowBound budget = none) (short : events.length < 2 ^ 64) :
    events.take (scan.targetLimit budget) = events := by
  apply List.take_of_length_le
  have limit : usizeMax = 2 ^ 64 - 1 := rfl
  unfold rowBound at unbounded
  unfold targetLimit
  cases asked : scan.limit with
  | some rows =>
      rw [asked] at unbounded
      cases held : budget.maxRows with
      | some _ =>
          rw [held] at unbounded
          contradiction
      | none =>
          rw [held] at unbounded
          contradiction
  | none =>
      rw [asked] at unbounded
      change budget.maxRows = none at unbounded
      rw [unbounded, Option.getD_none]
      omega

/-- A positive bound is what the scan asks for, as far as there are events. -/
theorem take_targetLimit_bounded {bound : Nat} (bounded : scan.rowBound budget = some bound)
    (short : events.length < 2 ^ 64) : events.take (scan.targetLimit budget) = events.take (max bound 1) := by
  have limit : usizeMax = 2 ^ 64 - 1 := rfl
  have same : min (scan.targetLimit budget) events.length = min (max bound 1) events.length := by
    unfold rowBound at bounded
    unfold targetLimit
    cases asked : scan.limit with
    | none =>
        rw [asked] at bounded
        change budget.maxRows = some bound at bounded
        rw [bounded, Option.getD_none, Option.getD_some]
        omega
    | some rows =>
        rw [asked] at bounded
        cases held : budget.maxRows with
        | none =>
            rw [held] at bounded
            obtain rfl : rows = bound := Option.some.inj bounded
            rw [Option.getD_none, Option.getD_some]
            omega
        | some most =>
            rw [held] at bounded
            obtain rfl : min rows most = bound := Option.some.inj bounded
            rw [Option.getD_some, Option.getD_some]
  exact List.take_eq_take_iff.mpr same

/-- The rows of the page are the first matching ones exactly when the bound fits. -/
theorem firstRows_iff (short : events.length < 2 ^ 64) :
    (((events.filter scan.admits).take (scan.targetLimit budget)).filter (satisfies scan.pushdownFilter)).map
        (projectedRow scan.projection) = scan.firstRows budget events ↔ scan.BoundFits budget events := by
  have fewer := (List.length_filter_le scan.admits events).trans_lt short
  unfold firstRows BoundFits
  rw [filter_matching]
  dsimp only
  cases bound : scan.rowBound budget with
  | none =>
      rw [take_targetLimit_unbounded bound fewer]
      exact iff_of_true rfl trivial
  | some bound' =>
      rw [take_targetLimit_bounded bound fewer]
      cases bound' with
      | zero =>
          change _ = [] ↔ _
          exact map_take_one_filter_iff _
      | succ bound' =>
          rw [Nat.max_eq_left (Nat.le_add_left 1 bound')]
          exact map_take_filter_iff _

end StorageScan

section Rows

variable [Binary64] [Crc32fast] {log : Log} {store : Store} {disk : Disk} {budget : QueryBudget} {scan : StorageScan}

/-- The scan returns the first matching events, and it says so when some are missing. -/
def ReturnsFirst (store : Store) (disk : Disk) (events : List StoredEvent) (scan : StorageScan) (budget : QueryBudget) :
    Prop :=
  ∃ result, executeStorageScan store disk (.storageScan scan) budget = .ok result ∧
    result.rows = scan.firstRows budget events ∧
    (result.truncated = false → ∀ event ∈ events, scan.matching event = true →
      projectedRow scan.projection event ∈ result.rows)

/-- The range is in order, the page is served, and the bound fits. -/
def LimitHolds (log : Log) (store : Store) (scan : StorageScan) (budget : QueryBudget) : Prop :=
  (∃ filter, scan.historyFilter = .ok filter ∧ Serviceable log store filter (scan.targetLimit budget)) ∧
    scan.BoundFits budget log.events

/-- A scan that evaluates on every event returns the rows of its page. -/
theorem executeStorageScan_page {page : StoragePage} (read : scannedPage store disk budget scan = .ok page)
    (few : page.events.length ≤ scan.targetLimit budget)
    (evaluates : ∀ event ∈ page.events, Evaluates scan.pushdownFilter event) :
    executeStorageScan store disk (.storageScan scan) budget = .ok {
      rows := (page.events.filter (satisfies scan.pushdownFilter)).map (projectedRow scan.projection)
      eventsScanned := page.scanned
      bytesRead := page.bytesRead
      truncated := page.continuation.isSome } := by
  rw [executeStorageScan_rows read evaluates, List.take_of_length_le]
  rw [List.length_map]
  exact (List.length_filter_le _ _).trans few

/-- A scan whose page is not read has no result. -/
theorem executeStorageScan_unread (unread : ¬ ∃ page, scannedPage store disk budget scan = .ok page)
    {result : QueryResult} : executeStorageScan store disk (.storageScan scan) budget ≠ .ok result := by
  rw [executeStorageScan_eq]
  cases read : scannedPage store disk budget scan with
  | ok page => exact absurd ⟨page, read⟩ unread
  | error error => exact nofun

/-- A scan within its budget returns the first matching events exactly when it is served and its bound fits. -/
theorem returnsFirst_iff (inv : Inv (SealedOnce store.header) log disk store)
    (holds : BudgetHolds store disk budget scan)
    (evaluates : ∀ event ∈ log.events, Evaluates scan.pushdownFilter event) :
    ReturnsFirst store disk log.events scan budget ↔ LimitHolds log store scan budget := by
  by_cases served : ∃ page, scannedPage store disk budget scan = .ok page
  · obtain ⟨page, read⟩ := served
    obtain ⟨filter, named⟩ := exists_named read
    have keeps : filter.keeps = scan.admits := funext fun event => StorageScan.keeps_eq_admits named event
    have serviceable := (exists_scannedPage inv holds named).mp ⟨page, read⟩
    have events := scannedPage_events inv holds named read
    obtain ⟨next, front, few, _, ended⟩ := inv.history_front storageBudget_positive ((scannedPage_ok named).mp read)
    rw [keeps] at events front
    have returned := executeStorageScan_page read few fun event member => by
      rw [events] at member
      exact evaluates event (List.mem_of_mem_filter (List.mem_of_mem_take member))
    have rows := @StorageScan.firstRows_iff _ scan budget log.events inv.valid.bound
    rw [← events] at rows
    constructor
    · rintro ⟨result, done, first, _⟩
      obtain rfl := Except.ok.inj (returned.symm.trans done)
      exact ⟨⟨filter, named, serviceable⟩, rows.mp first⟩
    · rintro ⟨_, fits⟩
      refine ⟨_, returned, rows.mpr fits, ?_⟩
      intro complete event member matched
      dsimp only at complete ⊢
      rw [Option.isSome_eq_false_iff, Option.isNone_iff_eq_none] at complete
      rw [StorageScan.matching, Bool.and_eq_true] at matched
      rw [front, List.take_of_length_le (ended complete)]
      apply List.mem_map_of_mem
      exact List.mem_filter.mpr ⟨List.mem_filter.mpr ⟨member, matched.1⟩, matched.2⟩
  · apply iff_of_false
    · rintro ⟨result, done, _⟩
      exact executeStorageScan_unread served done
    · rintro ⟨⟨filter, named, serviceable⟩, _⟩
      exact served ((exists_scannedPage inv holds named).mpr serviceable)

/-- After any run of the store a scan that stays within its scan and byte budgets and evaluates on every event returns
the first matching events up to its bound if and only if it is served and its bound fits. -/
theorem limited_scan_iff {database : DatabaseId} {source : SourceId} {epoch : SourceEpoch} {limits : Limits}
    {start : System} (created : System.create database source epoch limits = .ok start) (commands : List Command) :
    (∃ log store, Consistent (SealedOnce store.header) log store (start.run commands)) ∧
      ∀ log store, Consistent (SealedOnce store.header) log store (start.run commands) →
        ∀ (scan : StorageScan) (budget : QueryBudget),
        (∀ event ∈ (start.run commands).acknowledged, Evaluates scan.pushdownFilter event) →
        BudgetHolds store (start.run commands).disk budget scan →
        (ReturnsFirst store (start.run commands).disk (start.run commands).acknowledged scan budget ↔
          LimitHolds log store scan budget) := by
  refine ⟨Branch.exists_start created commands, ?_⟩
  intro log store consistent scan budget evaluates holds
  rw [consistent.acknowledged] at evaluates ⊢
  exact returnsFirst_iff consistent.inv holds evaluates

end Rows

section Samples

open Replay

/-- The scan for one event with a filter. -/
def singleScan [Binary64] (filter : Option Expr) : StorageScan := ⟨none, none, none, filter, none, some 1, false, false⟩

/-- The filter for one sequence. -/
def sequenceFilter [Binary64] (sequence : Int64) : Expr := .binary .eq (.field "sequence".toList) (.literal (.int sequence))

/-- The scan for one event finds the first of two. -/
theorem limited_scan_iff_sample :
    letI := Binary64.exact
    letI := Crc32fast.ieee
    let system := (System.fresh sampleDatabase 1 1 Limits.default).run (bareCommands 2)
    ∃ store, system.handle = some store ∧
      ReturnsFirst store system.disk system.acknowledged (singleScan none) ⟨none, none, none⟩ := by
  let := Binary64.exact
  generalize Crc32fast.ieee = checksum
  intro system
  have created : System.create sampleDatabase 1 1 Limits.default =
      .ok (System.fresh sampleDatabase 1 1 Limits.default) := System.create_ok.mpr ⟨rfl, rfl⟩
  have bytes : 2 * 92 ≤ ((singleScan none).storageBudget ⟨none, none, none⟩).maxReadBytes :=
    (by decide : 2 * 92 ≤ 1024).trans (le_max_right _ _)
  have scanned : 2 ≤ ((singleScan none).storageBudget ⟨none, none, none⟩).maxScanned :=
    (by decide : 2 ≤ 65536).trans (le_max_left _ _)
  obtain ⟨store, log, present, consistent, _, holds, served, _⟩ := @rowsOf_bareCommands _ 2 _ ⟨none, none, none⟩
    (singleScan none) .default (by decide) rfl nofun bytes scanned fun _ => nofun
  refine ⟨store, present, ?_⟩
  apply ((limited_scan_iff created (bareCommands 2)).2 log store consistent (singleScan none) _ (fun _ _ => nofun)
    holds).mpr
  refine ⟨⟨.default, rfl, nofun, fun block member _ => served.2 block member⟩, .inl ?_⟩
  exact fun _ _ => rfl

/-- The scan for one event does not find the second of two, although it is the only one that matches. -/
theorem limit_precedes_filter :
    letI := Binary64.exact
    letI := Crc32fast.ieee
    let system := (System.fresh sampleDatabase 1 1 Limits.default).run (bareCommands 2)
    ∃ store, system.handle = some store ∧
      (∀ event, Evaluates (some (sequenceFilter 1)) event) ∧
      BudgetHolds store system.disk ⟨none, none, none⟩ (singleScan (some (sequenceFilter 1))) ∧
      ¬ ReturnsFirst store system.disk system.acknowledged (singleScan (some (sequenceFilter 1))) ⟨none, none, none⟩ := by
  let := Binary64.exact
  generalize Crc32fast.ieee = checksum
  intro system
  have evaluates : ∀ event, Evaluates (some (sequenceFilter 1)) event := by
    intro event filter same
    obtain rfl := Option.some.inj same
    exact ⟨_, rfl⟩
  have bytes : 2 * 92 ≤ ((singleScan (some (sequenceFilter 1))).storageBudget ⟨none, none, none⟩).maxReadBytes :=
    (by decide : 2 * 92 ≤ 1024).trans (le_max_right _ _)
  have scanned : 2 ≤ ((singleScan (some (sequenceFilter 1))).storageBudget ⟨none, none, none⟩).maxScanned :=
    (by decide : 2 ≤ 65536).trans (le_max_left _ _)
  obtain ⟨store, log, present, consistent, events, holds, served, _⟩ := @rowsOf_bareCommands _ 2 _ ⟨none, none, none⟩
    (singleScan (some (sequenceFilter 1))) .default (by decide) rfl nofun bytes scanned evaluates
  refine ⟨store, present, evaluates, holds, ?_⟩
  rw [consistent.acknowledged, returnsFirst_iff consistent.inv holds fun event _ => evaluates event, LimitHolds, events]
  rintro ⟨_, all | none⟩
  · have first := all (recordOf ⟨sampleDatabase, 1, 1⟩ 0 (bareInput 1 0)) List.mem_cons_self
    revert first
    decide
  · have second := none (recordOf ⟨sampleDatabase, 1, 1⟩ 1 (bareInput 1 0)) List.mem_cons_self
    revert second
    decide

end Samples

end Temnion.Query
