import Temnion.Protocol.Predicate

/-
This file says when the historical phase of a subscription sends all matching events of its window.
-/

namespace Temnion.Protocol

open Query Storage Format Branch

section Lists

variable {A : Type} {keeps wanted : A → Bool} {items : List A} {count : Nat}

/-- No wanted item is cut off exactly when fewer kept items than are taken stand before each of them. -/
theorem drop_filter_iff : (∀ item ∈ (items.filter keeps).drop count, wanted item = false) ↔
    ∀ (place : Nat) (item : A), items[place]? = some item → keeps item = true → wanted item = true →
      ((items.take place).filter keeps).length < count := by
  induction items generalizing count with
  | nil =>
      rw [List.filter_nil, List.drop_nil]
      constructor
      · intro _ place item found
        nomatch found
      · exact fun _ item absent => absurd absent List.not_mem_nil
  | cons head items hypothesis =>
      by_cases kept : keeps head = true
      · rw [List.filter_cons_of_pos kept]
        cases count with
        | zero =>
            rw [List.drop_zero]
            constructor
            · intro unwanted place item found keeps wanted
              have member := List.mem_of_getElem? found
              have inside := List.mem_filter.mpr ⟨member, keeps⟩
              rw [List.filter_cons_of_pos kept] at inside
              rw [unwanted item inside] at wanted
              contradiction
            · intro few item member
              rw [← List.filter_cons_of_pos kept, List.mem_filter] at member
              obtain ⟨place, found⟩ := List.mem_iff_getElem?.mp member.1
              by_contra wanted
              exact Nat.not_lt_zero _ (few place item found member.2 (Bool.of_not_eq_false wanted))
        | succ count =>
            rw [List.drop_succ_cons, hypothesis]
            constructor
            · intro few place item found keeps wanted
              cases place with
              | zero => exact Nat.succ_pos count
              | succ place =>
                  rw [List.take_succ_cons, List.filter_cons_of_pos kept, List.length_cons]
                  exact Nat.succ_lt_succ (few place item found keeps wanted)
            · intro few place item found keeps wanted
              have bound := few (place + 1) item found keeps wanted
              rw [List.take_succ_cons, List.filter_cons_of_pos kept, List.length_cons] at bound
              exact Nat.lt_of_succ_lt_succ bound
      · rw [List.filter_cons_of_neg kept, hypothesis]
        constructor
        · intro few place item found keeps wanted
          cases place with
          | zero =>
              obtain rfl : head = item := Option.some.inj found
              exact absurd keeps kept
          | succ place =>
              rw [List.take_succ_cons, List.filter_cons_of_neg kept]
              exact few place item found keeps wanted
        · intro few place item found keeps wanted
          have bound := few (place + 1) item found keeps wanted
          rwa [List.take_succ_cons, List.filter_cons_of_neg kept] at bound

/-- A part of the wanted items is all of them when nothing wanted is cut off. -/
theorem map_filter_take_iff {B : Type} (image : A → B) :
    (((items.take count).filter wanted).map image = (items.filter wanted).map image) ↔
      ∀ item ∈ items.drop count, wanted item = false := by
  have whole : items.filter wanted = (items.take count).filter wanted ++ (items.drop count).filter wanted := by
    rw [← List.filter_append, List.take_append_drop]
  rw [whole, List.map_append, List.self_eq_append_right, List.map_eq_nil_iff, List.filter_eq_nil_iff]
  exact forall₂_congr fun item _ => Bool.not_eq_true _ ▸ Iff.rfl

end Lists

section Completeness

variable [Binary64]

/-- The limit of a query. -/
def limitOf : LogicalPlan → Option Nat
  | .scan scan => scan.limit
  | .causalTrace trace => trace.limit

/-- The events that a subscription asks for. A causal query puts no condition on them. -/
def planMatches : PhysicalPlan → StoredEvent → Bool
  | .storageScan scan, event => scan.admits event && satisfies scan.pushdownFilter event
  | .causalWalk _, _ => true

def projectionOf : PhysicalPlan → Option (List Text)
  | .storageScan scan => scan.projection
  | .causalWalk _ => none

/-- The records of the matching events of the window. -/
def expectedRecords (plan : PhysicalPlan) (events : List StoredEvent) (id : UInt64) (start stop : Nat) :
    List LiveEventRecord :=
  (events.filter fun event => planMatches plan event && inWindow start stop event.id.sequence).map fun event =>
    snapshotRecord id (projectedRow (projectionOf plan) event)

variable [Crc32fast]

/-- The scan of the snapshot does not run into the ceilings on events and bytes. -/
def SnapshotBudgetHolds (store : Store) (disk : Disk) (plan : PhysicalPlan) (start stop : Nat) : Prop :=
  ∀ scan, plan = .storageScan scan → BudgetHolds store disk (snapshotBudget start stop) scan

/-- The cutoff is on the known clock, and the segments up to so many admitted events can be read. -/
def ServesRows (log : Log) (store : Store) (scan : StorageScan) (rows : Nat) : Prop :=
  (∀ cutoff last, scan.knownAsOf = some cutoff → store.lastKnown = some last → cutoff.clock = last.clock) ∧
    ∀ block ∈ log.blocks, ((log.events.take block.first).filter scan.admits).length < rows →
      block.Readable store.header store.limits

/-- There is nothing to send, or the scan is served and before each matching event of the window stand fewer admitted
events than the window is long. -/
def CatchesUp (log : Log) (store : Store) (plan : PhysicalPlan) (start stop : Nat) : Prop :=
  (∀ event ∈ log.events, inWindow start stop event.id.sequence = true → planMatches plan event = false) ∨
    ∃ scan, plan = .storageScan scan ∧ ServesRows log store scan (stop - start) ∧
      ∀ (place : Nat) (event : StoredEvent), log.events[place]? = some event → start ≤ place → place < stop →
        planMatches plan event = true → ((log.events.take place).filter scan.admits).length < stop - start

variable {log : Log} {store : Store} {disk : Disk} {scan : StorageScan} {plan : PhysicalPlan} {id : UInt64}
  {start stop : Nat}

theorem serviceable_iff_servesRows {filter : HistoryFilter} {rows : Nat} (named : scan.historyFilter = .ok filter) :
    Serviceable log store filter rows ↔ ServesRows log store scan rows := by
  obtain ⟨_, cutoff, _⟩ := StorageScan.historyFilter_ok.mp named
  have same : filter.keeps = scan.admits := funext fun event => StorageScan.keeps_eq_admits named event
  unfold Serviceable OnKnownClock ServesRows
  rw [cutoff, same]

theorem snapshotRecords_eq (plan : PhysicalPlan) (id : UInt64) (window : start < stop) :
    snapshotRecords store disk plan id start stop =
      ((rowsOf (executeStorageScan store disk plan (snapshotBudget start stop))).filter fun row =>
        inWindow start stop row.sequence).map (snapshotRecord id) := by
  unfold snapshotRecords
  rw [if_pos window]
  cases executeStorageScan store disk plan (snapshotBudget start stop) with
  | ok result => rfl
  | error error => rfl

omit [Binary64] [Crc32fast] in
theorem inWindow_iff {sequence : UInt64} : inWindow start stop sequence = true ↔
    start ≤ sequence.toNat ∧ sequence.toNat < stop := by
  rw [inWindow, Bool.and_eq_true, decide_eq_true_eq, decide_eq_true_eq]

omit [Crc32fast] in
theorem expectedRecords_eq_nil : expectedRecords plan log.events id start stop = [] ↔
    ∀ event ∈ log.events, inWindow start stop event.id.sequence = true → planMatches plan event = false := by
  rw [expectedRecords, List.map_eq_nil_iff, List.filter_eq_nil_iff]
  refine forall₂_congr fun event _ => ?_
  rw [Bool.and_eq_true, not_and', Bool.not_eq_true]

/-- When no event is to be sent, the snapshot sends none. -/
theorem snapshotRecords_idle (inv : Inv (SealedOnce store.header) log disk store)
    (holds : SnapshotBudgetHolds store disk plan start stop)
    (nothing : ∀ event ∈ log.events, inWindow start stop event.id.sequence = true → planMatches plan event = false) :
    snapshotRecords store disk plan id start stop = [] := by
  by_cases window : start < stop
  · rw [snapshotRecords_eq plan id window, List.map_eq_nil_iff, List.filter_eq_nil_iff]
    intro row member within
    cases plan with
    | causalWalk walk => nomatch member
    | storageScan scan =>
        obtain ⟨page, read, event, inside, satisfied, rfl⟩ := rowsOf_mem member
        cases named : scan.historyFilter with
        | error error =>
            unfold scannedPage at read
            rw [named] at read
            contradiction
        | ok filter =>
            rw [scannedPage_events inv (holds scan rfl) named read] at inside
            obtain ⟨stored, kept⟩ := List.mem_filter.mp (List.mem_of_mem_take inside)
            rw [StorageScan.keeps_eq_admits named] at kept
            have unmatched := nothing event stored within
            rw [planMatches, kept, satisfied] at unmatched
            contradiction
  · exact if_neg window

omit [Crc32fast] in
theorem targetLimit_snapshot (unlimited : scan.limit = none) (window : start < stop) (bound : stop < 2 ^ 64) :
    scan.targetLimit (snapshotBudget start stop) = stop - start := by
  have limit : usizeMax = 2 ^ 64 - 1 := rfl
  unfold StorageScan.targetLimit
  rw [unlimited]
  change max (min usizeMax (stop - start)) 1 = stop - start
  omega

omit [Crc32fast] in
/-- The records of the rows of some events. -/
theorem snapshot_of_log (events : List StoredEvent) :
    (((events.filter (satisfies scan.pushdownFilter)).map (projectedRow scan.projection)).filter fun row =>
        inWindow start stop row.sequence).map (snapshotRecord id) =
      (events.filter fun event => inWindow start stop event.id.sequence && satisfies scan.pushdownFilter event).map
        fun event => snapshotRecord id (projectedRow scan.projection event) := by
  rw [List.filter_map, List.map_map, List.filter_filter]
  rfl

omit [Crc32fast] in
theorem expected_of_log (events : List StoredEvent) : expectedRecords (.storageScan scan) events id start stop =
    ((events.filter scan.admits).filter fun event =>
        inWindow start stop event.id.sequence && satisfies scan.pushdownFilter event).map
      fun event => snapshotRecord id (projectedRow scan.projection event) := by
  rw [expectedRecords, List.filter_filter]
  congr 2
  funext event
  rw [planMatches, Bool.and_comm, ← Bool.and_assoc]
  exact Bool.and_right_comm _ _ _

/-- The snapshot sends all matching events of its window exactly when it catches up. -/
theorem snapshotRecords_iff (inv : Inv (SealedOnce store.header) log disk store)
    (holds : SnapshotBudgetHolds store disk plan start stop) (bound : stop < 2 ^ 64)
    (unlimited : ∀ scan, plan = .storageScan scan → scan.limit = none) :
    snapshotRecords store disk plan id start stop = expectedRecords plan log.events id start stop ↔
      CatchesUp log store plan start stop := by
  by_cases nothing : ∀ event ∈ log.events, inWindow start stop event.id.sequence = true → planMatches plan event = false
  · rw [snapshotRecords_idle inv holds nothing, expectedRecords_eq_nil.mpr nothing]
    exact iff_of_true rfl (.inl nothing)
  · have expected : expectedRecords plan log.events id start stop ≠ [] := fun empty => nothing (expectedRecords_eq_nil.mp empty)
    obtain ⟨event, member, within, matched⟩ : ∃ event ∈ log.events, inWindow start stop event.id.sequence = true ∧
        planMatches plan event = true := by
      push Not at nothing
      obtain ⟨event, member, within, matched⟩ := nothing
      exact ⟨event, member, within, Bool.eq_true_of_not_eq_false matched⟩
    have place := inWindow_iff.mp within
    have window : start < stop := place.1.trans_lt place.2
    cases plan with
    | causalWalk walk =>
        apply iff_of_false
        · rw [snapshotRecords_eq _ id window]
          exact fun same => expected same.symm
        · rintro (idle | ⟨scan, same, _⟩)
          · exact nothing idle
          · contradiction
    | storageScan scan =>
        rw [planMatches, Bool.and_eq_true] at matched
        obtain ⟨filter, named⟩ := StorageScan.exists_historyFilter matched.1
        have keeps : filter.keeps = scan.admits := funext fun event => StorageScan.keeps_eq_admits named event
        have target := targetLimit_snapshot (unlimited scan rfl) window bound
        rw [snapshotRecords_eq _ id window]
        by_cases served : ServesRows log store scan (stop - start)
        · have serviceable := (serviceable_iff_servesRows named).mpr served
          rw [← target] at serviceable
          rw [rowsOf_log inv (holds scan rfl) named serviceable fun other _ =>
            (Evaluates.of_satisfies matched.2).all other, target, snapshot_of_log, expected_of_log, keeps,
            map_filter_take_iff, drop_filter_iff]
          constructor
          · intro few
            refine .inr ⟨scan, rfl, served, ?_⟩
            intro place event found lower upper matched
            rw [planMatches, Bool.and_eq_true] at matched
            apply few place event found matched.1
            rw [Bool.and_eq_true, inWindow_iff, sequence_of_place inv.valid found]
            exact ⟨⟨lower, upper⟩, matched.2⟩
          · rintro (idle | ⟨other, same, _, few⟩) place event found admitted wanted
            · rw [Bool.and_eq_true] at wanted
              have unmatched := idle event (List.mem_of_getElem? found) wanted.1
              rw [planMatches, admitted, wanted.2] at unmatched
              contradiction
            · obtain rfl := PhysicalPlan.storageScan.inj same
              rw [Bool.and_eq_true, inWindow_iff, sequence_of_place inv.valid found] at wanted
              apply few place event found wanted.1.1 wanted.1.2
              rw [planMatches, admitted, wanted.2]
              rfl
        · apply iff_of_false
          · rw [rowsOf_unread]
            · exact fun same => expected same.symm
            · rw [exists_scannedPage inv (holds scan rfl) named, target, serviceable_iff_servesRows named]
              exact served
          · rintro (idle | ⟨other, same, serves, _⟩)
            · exact nothing idle
            · obtain rfl := PhysicalPlan.storageScan.inj same
              exact served serves

/-- After any run of the store the historical phase of a subscription without a limit sends exactly the matching events
of its window, each once and in their order, if and only if it catches up. -/
theorem snapshot_sends_the_window_iff [Unicode] {database : DatabaseId} {source : SourceId} {epoch : SourceEpoch}
    {limits : Limits} {start : System} (created : System.create database source epoch limits = .ok start)
    (commands : List Command) :
    (∃ log store, Consistent (SealedOnce store.header) log store (start.run commands)) ∧
      ∀ log store, Consistent (SealedOnce store.header) log store (start.run commands) →
        ∀ request logical, parseQuery request.format request.queryStr = .ok logical → limitOf logical = none →
        ∀ window, window = snapshotWindow request store.nextSequence →
        SnapshotBudgetHolds store (start.run commands).disk (planQuery logical) window.1 window.2 → ∀ id,
          (snapshotRecords store (start.run commands).disk (planQuery logical) id window.1 window.2 =
              expectedRecords (planQuery logical) (start.run commands).acknowledged id window.1 window.2 ↔
            CatchesUp log store (planQuery logical) window.1 window.2) := by
  refine ⟨exists_start created commands, ?_⟩
  intro log store consistent request logical parsed unlimited window measured holds id
  rw [consistent.acknowledged]
  apply snapshotRecords_iff consistent.inv holds
  · rw [measured, snapshotWindow_snd, consistent.inv.tracks.nextSequence]
    exact consistent.inv.valid.bound
  · intro scan planned
    cases logical with
    | scan scan' =>
        obtain rfl := PhysicalPlan.storageScan.inj planned
        exact unlimited
    | causalTrace trace => contradiction

end Completeness

section Samples

open Replay

variable [Binary64]

theorem parse_everything [Unicode] : parseQuery .temql "FROM temnion".toList = .ok (.scan Scan.unrestricted) := rfl

/-- A subscription to everything from one sequence on. -/
def everythingFrom (sequence : UInt64) : SubscribeRequest := ⟨"FROM temnion".toList, .temql, some sequence, false⟩

/-- The snapshot of everything in a database of two bare events keeps within its budget. -/
theorem everything_served [Crc32fast] (start stop : Nat) :
    let system := (System.fresh sampleDatabase 1 1 Limits.default).run (bareCommands 2)
    ∃ store log, system.handle = some store ∧ Consistent (SealedOnce store.header) log store system ∧
      store.nextSequence = 2 ∧ log.events = bareEvents 2 ∧
      SnapshotBudgetHolds store system.disk (planQuery (.scan Scan.unrestricted)) start stop ∧
      ∀ block ∈ log.blocks, block.Readable store.header store.limits := by
  intro system
  have bytes : 2 * 92 ≤ (Scan.unrestricted.storageScan.storageBudget (snapshotBudget start stop)).maxReadBytes :=
    (by decide : 2 * 92 ≤ 1024).trans (le_max_right _ _)
  have scanned : 2 ≤ (Scan.unrestricted.storageScan.storageBudget (snapshotBudget start stop)).maxScanned :=
    (by decide : 2 ≤ 65536).trans (le_max_left _ _)
  obtain ⟨store, log, present, consistent, events, holds, served, _⟩ := @rowsOf_bareCommands _ 2 _ (snapshotBudget start stop)
    Scan.unrestricted.storageScan .default (by decide) rfl nofun bytes scanned fun _ => nofun
  have sequence : store.nextSequence = 2 := by
    rw [consistent.inv.tracks.nextSequence, events, bareEvents_length]
  refine ⟨store, log, present, consistent, sequence, events, ?_, served.2⟩
  intro scan planned
  obtain rfl := PhysicalPlan.storageScan.inj planned
  exact holds

omit [Binary64] in
/-- A subscription to everything from the start gets both events of the past. -/
theorem snapshot_sends_the_window_iff_sample :
    letI := Binary64.exact
    letI := Unicode.ascii
    letI := Crc32fast.ieee
    let system := (System.fresh sampleDatabase 1 1 Limits.default).run (bareCommands 2)
    ∃ store, system.handle = some store ∧
      snapshotRecords store system.disk (planQuery (.scan Scan.unrestricted)) 1 0 2 =
        expectedRecords (planQuery (.scan Scan.unrestricted)) system.acknowledged 1 0 2 := by
  let := Binary64.exact
  let := Unicode.ascii
  generalize Crc32fast.ieee = checksum
  intro system
  have created : System.create sampleDatabase 1 1 Limits.default =
      .ok (System.fresh sampleDatabase 1 1 Limits.default) := System.create_ok.mpr ⟨rfl, rfl⟩
  obtain ⟨store, log, present, consistent, sequence, events, holds, readable⟩ := everything_served 0 2
  refine ⟨store, present, ?_⟩
  apply ((snapshot_sends_the_window_iff created (bareCommands 2)).2 log store consistent (everythingFrom 0) _
    parse_everything rfl (0, 2) (by rw [sequence]; rfl) holds 1).mpr
  refine .inr ⟨_, rfl, ⟨nofun, fun block member _ => readable block member⟩, ?_⟩
  intro place event _ _ upper _
  have front := List.length_take_le place log.events
  have kept := List.length_filter_le Scan.unrestricted.storageScan.admits (log.events.take place)
  omega

omit [Binary64] in
/-- A subscription to everything from the second of two events on does not get it from the past. -/
theorem snapshot_misses_the_second_event :
    letI := Binary64.exact
    letI := Unicode.ascii
    letI := Crc32fast.ieee
    let system := (System.fresh sampleDatabase 1 1 Limits.default).run (bareCommands 2)
    let plan := planQuery (.scan Scan.unrestricted)
    parseQuery .temql "FROM temnion".toList = .ok (.scan Scan.unrestricted) ∧
      snapshotWindow (everythingFrom 1) 2 = (1, 2) ∧ ∃ store, system.handle = some store ∧ store.nextSequence = 2 ∧
        SnapshotBudgetHolds store system.disk plan 1 2 ∧
        snapshotRecords store system.disk plan 1 1 2 ≠ expectedRecords plan system.acknowledged 1 1 2 := by
  let := Binary64.exact
  let := Unicode.ascii
  generalize Crc32fast.ieee = checksum
  intro system plan
  obtain ⟨store, log, present, consistent, sequence, events, holds, _⟩ := everything_served 1 2
  refine ⟨parse_everything, rfl, store, present, sequence, holds, ?_⟩
  have unlimited : ∀ scan, plan = .storageScan scan → scan.limit = none := by
    intro scan planned
    rw [← PhysicalPlan.storageScan.inj planned]
    rfl
  rw [consistent.acknowledged, Ne, snapshotRecords_iff consistent.inv holds (by decide) unlimited, CatchesUp, events]
  rintro (idle | ⟨scan, planned, _, few⟩)
  · have unmatched := idle (recordOf ⟨sampleDatabase, 1, 1⟩ 1 (bareInput 1 0)) (by decide) (by decide)
    revert unmatched
    decide
  · obtain rfl := PhysicalPlan.storageScan.inj planned
    have bound := few 1 (recordOf ⟨sampleDatabase, 1, 1⟩ 1 (bareInput 1 0)) rfl (le_refl _) (by decide) rfl
    revert bound
    decide

end Samples

end Temnion.Protocol
