import Temnion.Query.Execution
import Temnion.Branch.Run

/-
This file says when all rows of a planned scan keep to the restrictions of the logical plan.
-/

namespace Temnion.Query

open Storage Format

/-- The time is on the clock of both ends and lies between them. -/
def TimestampRange.Contains (range : TimestampRange) (time : Timestamp) : Prop :=
  time.clock = range.start.clock ∧ time.clock = range.stop.clock ∧ range.start.ticks ≤ time.ticks ∧
    time.ticks < range.stop.ticks

section Lists

variable {A : Type} {keeps : A → Bool} {items : List A} {place : Nat} {item : A}

theorem length_filter_take_succ (found : items[place]? = some item) (kept : keeps item = true) :
    ((items.take (place + 1)).filter keeps).length = ((items.take place).filter keeps).length + 1 := by
  have alone : [item].filter keeps = [item] := List.filter_cons_of_pos kept
  rw [List.take_add_one, found, Option.toList_some, List.filter_append, alone, List.length_append,
    List.length_singleton]

theorem mem_take_filter (found : items[place]? = some item) (kept : keeps item = true) :
    item ∈ (items.filter keeps).take (((items.take place).filter keeps).length + 1) := by
  have front : (items.take (place + 1)).filter keeps <+: items.filter keeps :=
    (List.take_prefix _ items).filter keeps
  rw [← length_filter_take_succ found kept, ← List.prefix_iff_eq_take.mp front]
  apply List.mem_filter.mpr ⟨?_, kept⟩
  apply List.mem_of_getElem?
  rw [List.getElem?_take_of_lt (Nat.lt_succ_self place), found]

end Lists

section Restrictions

variable [Binary64]

/-- The event keeps to every restriction of the logical scan. -/
structure Scan.MetBy (scan : Scan) (event : StoredEvent) : Prop where
  entity : ∀ entity, scan.entity = some entity → event.entity = entity
  schema : ∀ schema, scan.schema = some schema → event.schema = schema
  validRange : ∀ range, scan.validRange = some range → range.Contains event.times.valid
  knownAsOf : ∀ cutoff, scan.knownAsOf = some cutoff →
    event.times.known.clock = cutoff.clock ∧ event.times.known.ticks ≤ cutoff.ticks
  filter : satisfies scan.filter event = true

/-- The event keeps to the restrictions that no part of the storage scan checks. -/
structure Scan.MetUnchecked (scan : Scan) (event : StoredEvent) : Prop where
  schema : ∀ schema, scan.schema = some schema → event.schema = schema
  stop : ∀ range, scan.validRange = some range → range.stop.clock = range.start.clock
  known : ∀ cutoff, scan.knownAsOf = some cutoff → event.times.known.clock = cutoff.clock

/-- What the storage scan does not check is all that is missing. -/
theorem Scan.metBy_iff {scan : Scan} {event : StoredEvent} (admitted : scan.storageScan.admits event = true)
    (satisfied : satisfies scan.filter event = true) : scan.MetBy event ↔ scan.MetUnchecked event := by
  obtain ⟨entity, range, cutoff⟩ := StorageScan.admits_iff.mp admitted
  constructor
  · intro met
    refine ⟨met.schema, ?_, fun time asked => (met.knownAsOf time asked).1⟩
    intro bounds asked
    obtain ⟨start, stop, _⟩ := met.validRange bounds asked
    exact stop.symm.trans start
  · intro met
    refine ⟨fun asked same => (entity asked same).symm, met.schema, ?_, ?_, satisfied⟩
    · intro bounds asked
      obtain ⟨clock, lower, upper⟩ := range bounds asked
      exact ⟨clock, clock.trans (met.stop bounds asked).symm, lower, upper⟩
    · intro time asked
      exact ⟨met.known time asked, cutoff time asked⟩

/-- A scan without a schema and a cutoff whose range is on one clock has nothing unchecked. -/
theorem Scan.metUnchecked_of_plain {scan : Scan} (schema : scan.schema = none) (cutoff : scan.knownAsOf = none)
    (range : ∀ bounds, scan.validRange = some bounds → bounds.stop.clock = bounds.start.clock) (event : StoredEvent) :
    scan.MetUnchecked event where
  schema := by
    rw [schema]
    exact fun _ absent => absurd absent.symm (Option.some_ne_none _)
  stop := range
  known := by
    rw [cutoff]
    exact fun _ absent => absurd absent.symm (Option.some_ne_none _)

variable [Crc32fast]

/-- The event at the place comes within the reach of the storage scan. -/
structure Scan.Reaches (log : Log) (store : Store) (scan : Scan) (place : Nat) (event : StoredEvent) : Prop where
  found : log.events[place]? = some event
  admitted : scan.storageScan.admits event = true
  satisfied : satisfies scan.filter event = true
  before : ((log.events.take place).filter scan.storageScan.admits).length < max (scan.limit.getD usizeMax) 1
  readable : ∀ block ∈ log.blocks, block.first ≤ place → block.Readable store.header store.limits

section Rows

variable {log : Log} {store : Store} {disk : Disk} {budget : QueryBudget} {scan : Scan}

/-- A row of the planned scan is that of an event within its reach. -/
theorem rowsOf_reached (inv : Inv (SealedOnce store.header) log disk store) {row : QueryRow}
    (member : row ∈ rowsOf (executeStorageScan store disk (planQuery (.scan scan)) budget)) :
    ∃ place event, scan.Reaches log store place event ∧ row = projectedRow scan.projection event := by
  obtain ⟨page, read, event, inside, satisfied, same⟩ := rowsOf_mem member
  obtain ⟨filter, named⟩ := exists_named read
  have keeps : filter.keeps = scan.storageScan.admits :=
    funext fun other => StorageScan.keeps_eq_admits named other
  obtain ⟨next, collected, bounded, readable, _⟩ := inv.history_front storageBudget_positive ((scannedPage_ok named).mp read)
  rw [keeps] at collected
  rw [collected] at inside
  obtain ⟨front, admitted⟩ := List.mem_filter.mp inside
  obtain ⟨place, found⟩ := List.mem_iff_getElem?.mp front
  have below : place < next := by
    have short := (List.getElem?_eq_some_iff.mp found).1
    exact short.trans_le (List.length_take_le _ _)
  rw [List.getElem?_take_of_lt below] at found
  have target : scan.storageScan.targetLimit budget ≤ max (scan.limit.getD usizeMax) 1 :=
    max_le_max_right 1 (min_le_left _ _)
  refine ⟨place, event, ⟨found, admitted, satisfied, ?_, ?_⟩, same⟩
  · have more := @filter_take_length_mono log.events scan.storageScan.admits (place + 1) next below
    rw [← collected, length_filter_take_succ found admitted] at more
    exact (Nat.lt_of_succ_le more).trans_le (bounded.trans target)
  · intro block listed start
    exact readable block listed (start.trans_lt below)

/-- Some budget brings the row of an event within the reach of the planned scan. -/
theorem exists_budget (inv : Inv (SealedOnce store.header) log disk store) {place : Nat} {event : StoredEvent}
    (reaches : scan.Reaches log store place event)
    (clock : ∀ cutoff last, scan.knownAsOf = some cutoff → store.lastKnown = some last → cutoff.clock = last.clock) :
    ∃ budget, projectedRow scan.projection event ∈
      rowsOf (executeStorageScan store disk (planQuery (.scan scan)) budget) := by
  obtain ⟨filter, named⟩ := StorageScan.exists_historyFilter reaches.admitted
  have keeps : filter.keeps = scan.storageScan.admits :=
    funext fun other => StorageScan.keeps_eq_admits named other
  let count := ((log.events.take place).filter scan.storageScan.admits).length
  let budget : QueryBudget := ⟨some (count + 1), some (log.blocks.map (·.records.length)).sum,
    some (log.blocks.map (Block.length store.header)).sum⟩
  have target : scan.storageScan.targetLimit budget = count + 1 := by
    have before : count < max (scan.limit.getD usizeMax) 1 := reaches.before
    change max (min (scan.limit.getD usizeMax) (count + 1)) 1 = count + 1
    omega
  have readable : ∀ block ∈ log.blocks, ((log.events.take block.first).filter scan.storageScan.admits).length <
      scan.storageScan.targetLimit budget → block.Readable store.header store.limits := by
    intro block listed few
    apply reaches.readable block listed
    by_contra past
    have more := @filter_take_length_mono log.events scan.storageScan.admits (place + 1) block.first
      (Nat.lt_of_not_le past)
    rw [length_filter_take_succ reaches.found reaches.admitted] at more
    rw [target] at few
    exact absurd few (Nat.not_lt.mpr more)
  have holds : BudgetHolds store disk budget scan.storageScan :=
    budgetHolds_of_log inv readable (le_max_left _ _) (le_max_left _ _)
  have serviceable : Serviceable log store filter (scan.storageScan.targetLimit budget) := by
    refine ⟨?_, keeps ▸ readable⟩
    rw [OnKnownClock, (StorageScan.historyFilter_ok.mp named).2.1]
    exact clock
  refine ⟨budget, ?_⟩
  change _ ∈ rowsOf (executeStorageScan store disk (.storageScan scan.storageScan) budget)
  rw [rowsOf_log inv holds named serviceable fun other _ => (Evaluates.of_satisfies reaches.satisfied).all other, target,
    keeps]
  apply List.mem_map_of_mem
  exact List.mem_filter.mpr ⟨mem_take_filter reaches.found reaches.admitted, reaches.satisfied⟩

/-- The rows of a planned scan keep to all restrictions, whatever the budget, if and only if the events within its reach
keep to those that it does not check. -/
theorem rowsOf_metBy_iff (inv : Inv (SealedOnce store.header) log disk store)
    (clock : ∀ cutoff last, scan.knownAsOf = some cutoff → store.lastKnown = some last → cutoff.clock = last.clock) :
    (∀ budget, ∀ row ∈ rowsOf (executeStorageScan store disk (planQuery (.scan scan)) budget),
        ∃ event ∈ log.events, row = projectedRow scan.projection event ∧ scan.MetBy event) ↔
      ∀ place event, scan.Reaches log store place event → scan.MetUnchecked event := by
  constructor
  · intro met place event reaches
    obtain ⟨budget, member⟩ := exists_budget inv reaches clock
    obtain ⟨other, listed, same, meets⟩ := met budget _ member
    obtain rfl : event = other :=
      eq_of_sequence inv.valid (List.mem_of_getElem? reaches.found) listed (congrArg QueryRow.sequence same)
    exact (Scan.metBy_iff reaches.admitted reaches.satisfied).mp meets
  · intro unchecked budget row member
    obtain ⟨place, event, reaches, same⟩ := rowsOf_reached inv member
    exact ⟨event, List.mem_of_getElem? reaches.found, same,
      (Scan.metBy_iff reaches.admitted reaches.satisfied).mpr (unchecked place event reaches)⟩

end Rows

/-- After any run of the store the rows of a planned scan keep to all restrictions of the plan, whatever the budget, if
and only if the events within its reach have its schema, its cutoff is on their known clock and its range on one clock. -/
theorem planned_scan_restricted_iff {database : DatabaseId} {source : SourceId} {epoch : SourceEpoch}
    {limits : Limits} {start : System} (created : System.create database source epoch limits = .ok start)
    (commands : List Command) :
    (∃ log store, Consistent (SealedOnce store.header) log store (start.run commands)) ∧
      ∀ log store, Consistent (SealedOnce store.header) log store (start.run commands) → ∀ scan : Scan,
        (∀ cutoff last, scan.knownAsOf = some cutoff → store.lastKnown = some last → cutoff.clock = last.clock) →
        ((∀ budget, ∀ row ∈ rowsOf (executeStorageScan store (start.run commands).disk (planQuery (.scan scan)) budget),
            ∃ event ∈ (start.run commands).acknowledged, row = projectedRow scan.projection event ∧ scan.MetBy event) ↔
          ∀ place event, scan.Reaches log store place event → scan.MetUnchecked event) := by
  refine ⟨Branch.exists_start created commands, ?_⟩
  intro log store consistent scan clock
  rw [consistent.acknowledged]
  exact rowsOf_metBy_iff consistent.inv clock

end Restrictions

section Samples

open Replay

/-- The scan of one schema. -/
def schemaScan [Binary64] (schema : SchemaId) : Scan := ⟨none, some schema, none, none, none, none, none⟩

/-- The only event of a database has schema 0, so a scan for that schema returns nothing else. -/
theorem planned_scan_restricted_iff_sample :
    letI := Binary64.exact
    letI := Crc32fast.ieee
    let system := (System.fresh sampleDatabase 1 1 Limits.default).run (bareCommands 1)
    ∃ store, system.handle = some store ∧ ∀ budget,
      ∀ row ∈ rowsOf (executeStorageScan store system.disk (planQuery (.scan (schemaScan 0))) budget),
        ∃ event ∈ system.acknowledged, row = projectedRow none event ∧ (schemaScan 0).MetBy event := by
  let := Binary64.exact
  generalize Crc32fast.ieee = checksum
  intro system
  have created : System.create sampleDatabase 1 1 Limits.default =
      .ok (System.fresh sampleDatabase 1 1 Limits.default) := System.create_ok.mpr ⟨rfl, rfl⟩
  obtain ⟨store, header, _, _, _, _, consistent, present⟩ := @bareCommands_consistent checksum 1 (by decide)
  rw [← header] at consistent
  refine ⟨store, present, ?_⟩
  apply ((planned_scan_restricted_iff created (bareCommands 1)).2 _ store consistent (schemaScan 0) nofun).mpr
  intro place event reaches
  have listed : event ∈ bareEvents 1 := List.mem_of_getElem? reaches.found
  refine ⟨?_, fun _ absent => absurd absent.symm (Option.some_ne_none _),
    fun _ absent => absurd absent.symm (Option.some_ne_none _)⟩
  intro schema asked
  obtain rfl := Option.some.inj asked
  rw [List.mem_singleton.mp listed]
  rfl

/-- A scan for schema 7 returns the only event of a database, which has schema 0. -/
theorem schema_is_not_checked :
    letI := Binary64.exact
    letI := Crc32fast.ieee
    let system := (System.fresh sampleDatabase 1 1 Limits.default).run (bareCommands 1)
    ∃ store, system.handle = some store ∧
      ¬ ∀ row ∈ rowsOf (executeStorageScan store system.disk (planQuery (.scan (schemaScan 7))) ⟨none, none, none⟩),
        ∃ event ∈ system.acknowledged, row = projectedRow none event ∧ (schemaScan 7).MetBy event := by
  let := Binary64.exact
  generalize Crc32fast.ieee = checksum
  intro system
  have bytes : 1 * 92 ≤ ((schemaScan 7).storageScan.storageBudget ⟨none, none, none⟩).maxReadBytes :=
    (by decide : 1 * 92 ≤ 1024).trans (le_max_right _ _)
  obtain ⟨store, log, present, consistent, events, _, _, rows⟩ := @rowsOf_bareCommands _ 1 _ ⟨none, none, none⟩
    (schemaScan 7).storageScan .default (by decide) rfl nofun bytes (le_max_right _ _) fun _ => nofun
  refine ⟨store, present, ?_⟩
  intro met
  have member : projectedRow none (recordOf ⟨sampleDatabase, 1, 1⟩ 0 (bareInput 1 0)) ∈
      rowsOf (executeStorageScan store system.disk (planQuery (.scan (schemaScan 7))) ⟨none, none, none⟩) := by
    change _ ∈ rowsOf (executeStorageScan store system.disk (.storageScan (schemaScan 7).storageScan) _)
    rw [rows]
    exact List.mem_singleton.mpr rfl
  obtain ⟨event, listed, _, meets⟩ := met _ member
  rw [consistent.acknowledged, events] at listed
  have schema := meets.schema 7 rfl
  rw [List.mem_singleton.mp listed] at schema
  revert schema
  decide

end Samples

end Temnion.Query
