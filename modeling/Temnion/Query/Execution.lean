import Temnion.Query.Rows
import Temnion.Replay.Exact
import Temnion.Storage.Outcome

/-
This file says which rows a storage scan returns for the log behind a store.
-/

namespace Temnion.Query

open Storage Format Batches

section Log

variable [Binary64] [Crc32fast] {log : Log} {store : Store} {disk : Disk} {budget : QueryBudget} {scan : StorageScan}
  {filter : HistoryFilter}

/-- The page of a scan ends with its last place or with the log, and no failure is due to the budget. -/
def BudgetHolds (store : Store) (disk : Disk) (budget : QueryBudget) (scan : StorageScan) : Prop :=
  ∀ filter, scan.historyFilter = .ok filter →
    WithinBudget (scan.storageBudget budget) (store.history disk filter (scan.storageBudget budget) none)

theorem scannedPage_eq (named : scan.historyFilter = .ok filter) : scannedPage store disk budget scan =
    (store.history disk filter (scan.storageBudget budget) none).mapError .storage := by
  unfold scannedPage
  rw [named]
  rfl

theorem scannedPage_ok {page : StoragePage} (named : scan.historyFilter = .ok filter) :
    scannedPage store disk budget scan = .ok page ↔
      store.history disk filter (scan.storageBudget budget) none = .ok page := by
  rw [scannedPage_eq named]
  cases store.history disk filter (scan.storageBudget budget) none with
  | ok page' => exact ⟨fun same => congrArg _ (Except.ok.inj same), fun same => congrArg _ (Except.ok.inj same)⟩
  | error error => exact ⟨nofun, nofun⟩

/-- A scan whose page is read has a history filter. -/
theorem exists_named {page : StoragePage} (read : scannedPage store disk budget scan = .ok page) :
    ∃ filter, scan.historyFilter = .ok filter := by
  unfold scannedPage at read
  cases named : scan.historyFilter with
  | ok filter => exact ⟨filter, rfl⟩
  | error error =>
      rw [named] at read
      contradiction

/-- The page of a scan holds the first events that its history filter keeps. -/
theorem scannedPage_events {page : StoragePage} (inv : Inv (SealedOnce store.header) log disk store)
    (holds : BudgetHolds store disk budget scan) (named : scan.historyFilter = .ok filter)
    (read : scannedPage store disk budget scan = .ok page) :
    page.events = (log.events.filter filter.keeps).take (scan.targetLimit budget) :=
  inv.history_events storageBudget_positive (holds filter named) ((scannedPage_ok named).mp read)

/-- The page is read exactly when the cutoff is on the known clock and no segment on the way is refused. -/
theorem exists_scannedPage (inv : Inv (SealedOnce store.header) log disk store)
    (holds : BudgetHolds store disk budget scan) (named : scan.historyFilter = .ok filter) :
    (∃ page, scannedPage store disk budget scan = .ok page) ↔
      Serviceable log store filter (scan.targetLimit budget) := by
  have same : (∃ page, scannedPage store disk budget scan = .ok page) ↔
      ∃ page, store.history disk filter (scan.storageBudget budget) none = .ok page :=
    exists_congr fun page => scannedPage_ok named
  exact same.trans (inv.history_ok_iff storageBudget_positive (holds filter named))

/-- A scan whose page cannot be read returns nothing. -/
theorem rowsOf_unread (unread : ¬ ∃ page, scannedPage store disk budget scan = .ok page) :
    rowsOf (executeStorageScan store disk (.storageScan scan) budget) = [] := by
  rw [executeStorageScan_eq]
  cases read : scannedPage store disk budget scan with
  | ok page => exact absurd ⟨page, read⟩ unread
  | error error => rfl

/-- A scan of a log returns the rows of the first kept events that satisfy the filter. -/
theorem rowsOf_log (inv : Inv (SealedOnce store.header) log disk store) (holds : BudgetHolds store disk budget scan)
    (named : scan.historyFilter = .ok filter) (serviceable : Serviceable log store filter (scan.targetLimit budget))
    (evaluates : ∀ event ∈ log.events, Evaluates scan.pushdownFilter event) :
    rowsOf (executeStorageScan store disk (.storageScan scan) budget) =
      (((log.events.filter filter.keeps).take (scan.targetLimit budget)).filter (satisfies scan.pushdownFilter)).map
        (projectedRow scan.projection) := by
  obtain ⟨page, read⟩ := (exists_scannedPage inv holds named).mpr serviceable
  have events := scannedPage_events inv holds named read
  have inside : ∀ event ∈ page.events, event ∈ log.events := by
    intro event member
    rw [events] at member
    exact List.mem_of_mem_filter (List.mem_of_mem_take member)
  have few : ((page.events.filter (satisfies scan.pushdownFilter)).map (projectedRow scan.projection)).length ≤
      scan.targetLimit budget := by
    rw [List.length_map]
    have bound : page.events.length ≤ scan.targetLimit budget := by
      rw [events]
      exact List.length_take_le _ _
    exact (List.length_filter_le _ _).trans bound
  rw [executeStorageScan_rows read fun event member => evaluates event (inside event member), ← events]
  exact List.take_of_length_le few

omit [Crc32fast] in
/-- The rows of a page are those of its events that satisfy the filter. -/
theorem collectRows_mem {events : List StoredEvent} {rows : List QueryRow} {target : Nat} {row : QueryRow}
    (positive : 0 < target) (collected : collectRows scan.pushdownFilter scan.projection target events [] = .ok rows)
    (member : row ∈ rows) :
    ∃ event ∈ events, satisfies scan.pushdownFilter event = true ∧ row = projectedRow scan.projection event := by
  by_cases evaluates : ∀ event ∈ events, Evaluates scan.pushdownFilter event
  · rw [collectRows_ok evaluates positive] at collected
    obtain rfl := Except.ok.inj collected
    obtain ⟨event, kept, rfl⟩ := List.mem_map.mp (List.mem_of_mem_take member)
    exact ⟨event, List.mem_of_mem_filter kept, (List.mem_filter.mp kept).2, rfl⟩
  · push Not at evaluates
    obtain ⟨event, inside, fails⟩ := evaluates
    obtain ⟨error, failed⟩ := @collectRows_error _ _ scan.projection _ target _ fails inside []
    rw [failed] at collected
    contradiction

/-- A returned row comes from an event of the page that satisfies the filter. -/
theorem rowsOf_mem {row : QueryRow} (member : row ∈ rowsOf (executeStorageScan store disk (.storageScan scan) budget)) :
    ∃ page, scannedPage store disk budget scan = .ok page ∧ ∃ event ∈ page.events,
      satisfies scan.pushdownFilter event = true ∧ row = projectedRow scan.projection event := by
  rw [executeStorageScan_eq] at member
  cases read : scannedPage store disk budget scan with
  | error error =>
      rw [read] at member
      nomatch member
  | ok page =>
      rw [read, Except.ok_bind] at member
      cases collected : collectRows scan.pushdownFilter scan.projection (scan.targetLimit budget) page.events [] with
      | error error =>
          rw [collected] at member
          nomatch member
      | ok rows =>
          rw [collected] at member
          exact ⟨page, rfl, collectRows_mem targetLimit_pos collected member⟩

namespace StorageScan

omit [Crc32fast] in
/-- The entity, the valid range and the cutoff of the scan admit the event. -/
def admits (scan : StorageScan) (event : StoredEvent) : Bool :=
  scan.entity.all (· == event.entity) &&
    scan.validRange.all (fun range => event.times.valid.clock == range.start.clock &&
      decide (range.start.ticks ≤ event.times.valid.ticks) && decide (event.times.valid.ticks < range.stop.ticks)) &&
    scan.knownAsOf.all fun cutoff => decide (event.times.known.ticks ≤ cutoff.ticks)

omit [Crc32fast] in
theorem admits_iff {event : StoredEvent} : scan.admits event = true ↔
    (∀ entity, scan.entity = some entity → entity = event.entity) ∧
      (∀ range, scan.validRange = some range → event.times.valid.clock = range.start.clock ∧
        range.start.ticks ≤ event.times.valid.ticks ∧ event.times.valid.ticks < range.stop.ticks) ∧
      ∀ cutoff, scan.knownAsOf = some cutoff → event.times.known.ticks ≤ cutoff.ticks := by
  unfold admits
  simp only [Bool.and_eq_true, Option.all_eq_true, beq_iff_eq, decide_eq_true_eq, and_assoc]

omit [Crc32fast] in
theorem historyFilter_ok : scan.historyFilter = .ok filter ↔ filter.entity = scan.entity ∧
    filter.knownAsOf = scan.knownAsOf ∧ match scan.validRange with
      | none => filter.time = none
      | some range => ∃ ordered, filter.time = some (.valid, ⟨range.start.clock, range.start.ticks, range.stop.ticks, ordered⟩) := by
  obtain ⟨entity, time, knownAsOf⟩ := filter
  unfold historyFilter
  cases scan.validRange with
  | none =>
      change Except.ok _ = _ ↔ _
      rw [Except.ok.injEq, HistoryFilter.mk.injEq]
      constructor
      · rintro ⟨rfl, rfl, rfl⟩
        exact ⟨rfl, rfl, rfl⟩
      · rintro ⟨same, rfl, unset⟩
        exact ⟨same.symm, unset.symm, rfl⟩
  | some range =>
      dsimp only
      unfold TimeRange.new
      by_cases ordered : range.start.ticks ≤ range.stop.ticks
      · rw [dif_pos ordered]
        change Except.ok _ = _ ↔ _
        rw [Except.ok.injEq, HistoryFilter.mk.injEq]
        constructor
        · rintro ⟨rfl, rfl, rfl⟩
          exact ⟨rfl, rfl, ordered, rfl⟩
        · rintro ⟨same, rfl, _, set⟩
          exact ⟨same.symm, set.symm, rfl⟩
      · rw [dif_neg ordered]
        constructor
        · exact nofun
        · rintro ⟨_, _, again, _⟩
          exact absurd again ordered

omit [Crc32fast] in
/-- The history filter keeps what the scan admits. -/
theorem keeps_eq_admits (named : scan.historyFilter = .ok filter) (event : StoredEvent) :
    filter.keeps event = scan.admits event := by
  obtain ⟨entity, cutoff, range⟩ := historyFilter_ok.mp named
  rw [Bool.eq_iff_iff, HistoryFilter.keeps_iff, admits_iff, entity, cutoff]
  cases same : scan.validRange with
  | none =>
      rw [same] at range
      rw [range]
      exact ⟨fun kept => ⟨kept.1, nofun, kept.2.1⟩, fun admitted => ⟨admitted.1, admitted.2.2, nofun⟩⟩
  | some bounds =>
      rw [same] at range
      obtain ⟨ordered, set⟩ := range
      rw [set]
      constructor
      · rintro ⟨first, second, third⟩
        obtain ⟨time, found, inside⟩ := third _ _ rfl
        obtain rfl := Option.some.inj found
        refine ⟨first, ?_, second⟩
        intro other again
        obtain rfl := Option.some.inj again
        exact TimeRange.contains_iff.mp inside
      · rintro ⟨first, second, third⟩
        refine ⟨first, third, ?_⟩
        intro axis other again
        obtain ⟨rfl, rfl⟩ := Prod.mk.inj (Option.some.inj again)
        exact ⟨event.times.valid, rfl, TimeRange.contains_iff.mpr (second bounds rfl)⟩

omit [Crc32fast] in
/-- A scan whose range is refused admits nothing. -/
theorem exists_historyFilter {event : StoredEvent} (admitted : scan.admits event = true) :
    ∃ filter, scan.historyFilter = .ok filter := by
  obtain ⟨_, range, _⟩ := admits_iff.mp admitted
  unfold historyFilter
  cases same : scan.validRange with
  | none => exact ⟨_, rfl⟩
  | some bounds =>
      have inside := (range bounds same).2
      have ordered : bounds.start.ticks ≤ bounds.stop.ticks := UInt64.le_of_lt (UInt64.lt_of_le_of_lt inside.1 inside.2)
      dsimp only
      unfold TimeRange.new
      rw [dif_pos ordered]
      exact ⟨_, rfl⟩

/-- The cutoff of the scan is on the known clock, and the handle can read the whole log. -/
def Served (log : Log) (store : Store) (scan : StorageScan) : Prop :=
  (∀ cutoff last, scan.knownAsOf = some cutoff → store.lastKnown = some last → cutoff.clock = last.clock) ∧
    ∀ block ∈ log.blocks, block.Readable store.header store.limits

end StorageScan

omit [Binary64] [Crc32fast] in
/-- The sequence of an event is its place. -/
theorem sequence_of_place {place : Nat} {event : StoredEvent} {header : WalHeader} (valid : log.Valid header)
    (found : log.events[place]? = some event) : event.id.sequence.toNat = place := by
  have inside := (List.getElem?_eq_some_iff.mp found).1
  have bound := valid.bound
  rw [valid.numbered place event found, Nat.zero_add]
  exact UInt64.toNat_ofNat_of_lt' (inside.trans bound)

omit [Binary64] [Crc32fast] in
/-- No two events of a log have one sequence. -/
theorem eq_of_sequence {event other : StoredEvent} {header : WalHeader} (valid : log.Valid header)
    (member : event ∈ log.events) (member' : other ∈ log.events) (same : event.id.sequence = other.id.sequence) :
    event = other := by
  obtain ⟨place, found⟩ := List.mem_iff_getElem?.mp member
  obtain ⟨place', found'⟩ := List.mem_iff_getElem?.mp member'
  have places : place = place' := by
    rw [← sequence_of_place valid found, same, sequence_of_place valid found']
  rw [places] at found
  exact Option.some.inj (found.symm.trans found')

/-- A budget for all blocks of the log is not exceeded, when the blocks up to the end of the page can be read. -/
theorem budgetHolds_of_log (inv : Inv (SealedOnce store.header) log disk store)
    (readable : ∀ block ∈ log.blocks, ((log.events.take block.first).filter scan.admits).length < scan.targetLimit budget →
      block.Readable store.header store.limits)
    (bytes : (log.blocks.map (Block.length store.header)).sum ≤ (scan.storageBudget budget).maxReadBytes)
    (count : (log.blocks.map (·.records.length)).sum ≤ (scan.storageBudget budget).maxScanned) :
    BudgetHolds store disk budget scan := by
  intro filter named
  have keeps : filter.keeps = scan.admits := funext fun event => StorageScan.keeps_eq_admits named event
  rw [← keeps] at readable
  exact inv.withinBudget filter storageBudget_positive readable bytes count

end Log

section Bare

open Replay

variable [Crc32fast] {count : Nat}

/-- Each block of the bare log holds one event in 92 bytes. -/
theorem bareEvents_blocks {block : Block} (member : block ∈ Log.blocks ⟨[], (bareEvents count).map fun event => [event]⟩) :
    block.retired = false ∧ block.records.length = 1 ∧ ∀ header, block.length header = 92 := by
  rw [Log.blocks] at member
  obtain ⟨⟨first, batch⟩, inside, rfl⟩ := List.mem_map.mp ((List.mem_append.mp member).resolve_left List.not_mem_nil)
  obtain ⟨event, listed, rfl⟩ := List.mem_map.mp (mem_of_mem_starts inside)
  obtain ⟨sequence, _, rfl⟩ := List.mem_map.mp listed
  exact ⟨rfl, rfl, fun _ => batchBytes_bare_length _ _ _ _⟩

variable [Binary64] {budget : QueryBudget} {scan : StorageScan} {filter : HistoryFilter}

/-- A scan of a database of bare events whose blocks fit its budget. -/
theorem rowsOf_bareCommands (small : count < 2 ^ 32) (named : scan.historyFilter = .ok filter)
    (clock : ∀ cutoff, scan.knownAsOf = some cutoff → cutoff.clock = 1)
    (bytes : count * 92 ≤ (scan.storageBudget budget).maxReadBytes)
    (scanned : count ≤ (scan.storageBudget budget).maxScanned)
    (evaluates : ∀ event, Evaluates scan.pushdownFilter event) :
    let system := (System.fresh sampleDatabase 1 1 Limits.default).run (bareCommands count)
    ∃ store log, system.handle = some store ∧ Consistent (SealedOnce store.header) log store system ∧
      log.events = bareEvents count ∧ BudgetHolds store system.disk budget scan ∧ scan.Served log store ∧
      rowsOf (executeStorageScan store system.disk (.storageScan scan) budget) =
        ((((bareEvents count).filter filter.keeps).take (scan.targetLimit budget)).filter
          (satisfies scan.pushdownFilter)).map (projectedRow scan.projection) := by
  intro system
  obtain ⟨store, header, limits, sequence, offset, known, consistent, present⟩ := bareCommands_consistent small
  rw [← header] at consistent
  have flat : Log.events ⟨[], (bareEvents count).map fun event => [event]⟩ = bareEvents count := by
    rw [Log.events, Log.batches, List.nil_append, ← List.flatMap_def, List.flatMap_singleton']
  have readable : ∀ block ∈ Log.blocks ⟨[], (bareEvents count).map fun event => [event]⟩,
      block.Readable store.header store.limits := by
    intro block member retired
    rw [(bareEvents_blocks member).1] at retired
    contradiction
  have size : (Log.blocks ⟨[], (bareEvents count).map fun event => [event]⟩).length = count := by
    rw [Log.blocks, List.length_append, List.length_map, List.length_map, length_starts, length_starts, List.length_map,
      bareEvents_length, List.length_nil, Nat.zero_add]
  have lengths : ((Log.blocks ⟨[], (bareEvents count).map fun event => [event]⟩).map (Block.length store.header)).sum =
      count * 92 := by
    rw [List.map_congr_left fun block member => (bareEvents_blocks member).2.2 store.header, List.map_const',
      List.sum_replicate, size, smul_eq_mul]
  have records : ((Log.blocks ⟨[], (bareEvents count).map fun event => [event]⟩).map (·.records.length)).sum = count := by
    rw [List.map_congr_left fun block member => (bareEvents_blocks member).2.1, List.map_const',
      List.sum_replicate, size, smul_eq_mul, Nat.mul_one]
  have holds : BudgetHolds store system.disk budget scan :=
    budgetHolds_of_log consistent.inv (fun block member _ => readable block member) (lengths.trans_le bytes)
      (records.trans_le scanned)
  have served : scan.Served ⟨[], (bareEvents count).map fun event => [event]⟩ store := by
    refine ⟨?_, readable⟩
    intro cutoff last asked held
    rw [clock cutoff asked, known last held]
  have serviceable : Serviceable ⟨[], (bareEvents count).map fun event => [event]⟩ store filter (scan.targetLimit budget) := by
    refine ⟨?_, fun block member _ => readable block member⟩
    rw [OnKnownClock, (StorageScan.historyFilter_ok.mp named).2.1]
    exact served.1
  refine ⟨store, _, present, consistent, flat, holds, served, ?_⟩
  rw [rowsOf_log consistent.inv holds named serviceable fun event _ => evaluates event, flat]

end Bare

end Temnion.Query
