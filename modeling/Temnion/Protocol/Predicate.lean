import Temnion.Protocol.Dispatch
import Temnion.Query.Execution
import Temnion.Branch.Run

/-
This file compares the events that a subscription gets live with those that its scan returns.
-/

namespace Temnion.Protocol

open Query Storage Format Branch

section Agreement

variable [Binary64] [Crc32fast] {log : Log} {store : Store} {disk : Disk} {budget : QueryBudget} {scan : StorageScan}
  {event : StoredEvent}

/-- A subscriber that has just been registered for a plan gets the event from the hub. -/
def Forwarded (hub : SubscriptionHub) (plan : PhysicalPlan) (event : StoredEvent) : Prop :=
  let (id, registered) := hub.register (hubFilter plan)
  ∃ channel, (registered.dispatchEvents [event]).channels[hub.channels.length]? = some channel ∧
    liveRecord id event ∈ channel.sent

/-- The scan returns the row of the event, when its limit is ignored. -/
def Returned (store : Store) (disk : Disk) (budget : QueryBudget) (scan : StorageScan) (event : StoredEvent) : Prop :=
  projectedRow scan.projection event ∈
    rowsOf (executeStorageScan store disk (.storageScan { scan with limit := none }) budget)

omit [Crc32fast] in
/-- The hub looks at the condition only. -/
theorem forwarded_iff {hub : SubscriptionHub} {plan : PhysicalPlan} :
    Forwarded hub plan event ↔ satisfies (hubFilter plan) event = true := by
  have room : Channel.new.waiting + (liveRecords (hub.register (hubFilter plan)).1 (hubFilter plan) [event]).length ≤
      channelBound := by
    have few := List.length_filter_le (forwards (hubFilter plan)) [event]
    have bound : Channel.new.waiting = 0 := rfl
    have room : 1 ≤ channelBound := by decide
    rw [List.length_singleton] at few
    rw [liveRecords, List.length_map, bound]
    omega
  obtain ⟨_, after⟩ := SubscriptionHub.dispatchEvents_listed (hub.register_lists (hubFilter plan))
    (hub.register_channel (hubFilter plan)) rfl room
  rw [← forwards_eq]
  constructor
  · rintro ⟨channel, present, sent⟩
    obtain rfl := Option.some.inj (after.symm.trans present)
    obtain ⟨other, kept, _⟩ := List.mem_map.mp (sent : _ ∈ [] ++ liveRecords _ _ _)
    rw [List.mem_filter, List.mem_singleton] at kept
    rw [← kept.1]
    exact kept.2
  · intro matched
    refine ⟨_, after, List.mem_append_right _ (List.mem_map.mpr ⟨event, ?_, rfl⟩)⟩
    exact List.mem_filter.mpr ⟨List.mem_cons_self, matched⟩

/-- Without a limit the scan has room for all events of the log. -/
theorem serviceable_iff_served {filter : HistoryFilter} (inv : Inv (SealedOnce store.header) log disk store)
    (named : scan.historyFilter = .ok filter) :
    Serviceable log store filter usizeMax ↔ scan.Served log store := by
  obtain ⟨_, cutoff, _⟩ := StorageScan.historyFilter_ok.mp named
  unfold Serviceable OnKnownClock StorageScan.Served
  rw [cutoff]
  refine and_congr_right fun _ => ⟨?_, fun readable block member _ => readable block member⟩
  intro readable block member
  apply readable block member
  have kept := List.length_filter_le filter.keeps (log.events.take block.first)
  have front := List.length_take_le block.first log.events
  have stops := inv.blocks_consecutive.stop_le block member
  have size := List.length_pos_of_ne_nil (inv.blocks_consecutive.nonempty block member)
  have bound := inv.valid.bound
  have limit : usizeMax = 2 ^ 64 - 1 := rfl
  have ends : block.stop = block.first + block.records.length := rfl
  omega

/-- The scan returns what it admits and what satisfies its condition, as long as it is served. -/
theorem returned_iff (inv : Inv (SealedOnce store.header) log disk store)
    (holds : BudgetHolds store disk budget { scan with limit := none }) (rows : budget.maxRows = none)
    (member : event ∈ log.events) : Returned store disk budget scan event ↔
      satisfies scan.pushdownFilter event = true ∧ scan.admits event = true ∧ scan.Served log store := by
  let unlimited : StorageScan := { scan with limit := none }
  have target : unlimited.targetLimit budget = usizeMax := by
    unfold StorageScan.targetLimit
    rw [rows]
    rfl
  constructor
  · intro returned
    obtain ⟨page, read, other, inside, satisfied, same⟩ := rowsOf_mem returned
    cases named : unlimited.historyFilter with
    | error error =>
        unfold scannedPage at read
        rw [named] at read
        contradiction
    | ok filter =>
        have events := scannedPage_events inv holds named read
        have served := (exists_scannedPage inv holds named).mp ⟨page, read⟩
        rw [target, serviceable_iff_served inv named] at served
        rw [events] at inside
        have kept := List.mem_filter.mp (List.mem_of_mem_take inside)
        obtain rfl : event = other := eq_of_sequence inv.valid member kept.1 (congrArg QueryRow.sequence same)
        have admitted := kept.2
        rw [StorageScan.keeps_eq_admits named] at admitted
        exact ⟨satisfied, admitted, served⟩
  · rintro ⟨satisfied, admitted, served⟩
    have admitted' : unlimited.admits event = true := admitted
    obtain ⟨filter, named⟩ := StorageScan.exists_historyFilter admitted'
    have serviceable : Serviceable log store filter (unlimited.targetLimit budget) := by
      rw [target]
      exact (@serviceable_iff_served _ _ log store disk unlimited filter inv named).mpr served
    have evaluates := Evaluates.of_satisfies satisfied
    have returned := @rowsOf_log _ _ log store disk budget unlimited filter inv holds named serviceable
      fun other _ => evaluates.all other
    unfold Returned
    rw [returned, List.take_of_length_le]
    · apply List.mem_map_of_mem
      rw [List.mem_filter, List.mem_filter, StorageScan.keeps_eq_admits named]
      exact ⟨⟨member, admitted'⟩, satisfied⟩
    · have bound := inv.valid.bound
      have few := List.length_filter_le filter.keeps log.events
      have limit : usizeMax = 2 ^ 64 - 1 := rfl
      rw [target]
      omega

/-- After any run of the store a subscription and its scan agree on an event if and only if the condition is not true
on it, or the event has the entity, range and cutoff of the query and the scan is served. -/
theorem live_and_snapshot_agree_iff [Unicode] {database : DatabaseId} {source : SourceId} {epoch : SourceEpoch}
    {limits : Limits} {start : System} (created : System.create database source epoch limits = .ok start)
    (commands : List Command) :
    (∃ log store, Consistent (SealedOnce store.header) log store (start.run commands)) ∧
      ∀ log store, Consistent (SealedOnce store.header) log store (start.run commands) →
        ∀ format text logical scan, parseQuery format text = .ok logical → planQuery logical = .storageScan scan →
        ∀ budget, budget.maxRows = none →
        BudgetHolds store (start.run commands).disk budget { scan with limit := none } →
        ∀ (hub : SubscriptionHub), ∀ event ∈ (start.run commands).acknowledged,
          ((Forwarded hub (planQuery logical) event ↔ Returned store (start.run commands).disk budget scan event) ↔
            (satisfies scan.pushdownFilter event = true → scan.admits event = true ∧ scan.Served log store)) := by
  refine ⟨exists_start created commands, ?_⟩
  intro log store consistent format text logical scan parsed planned budget rows holds hub event member
  rw [consistent.acknowledged] at member
  rw [planned, forwarded_iff, returned_iff consistent.inv holds rows member, hubFilter]
  exact iff_self_and

end Agreement

section Samples

open Replay

variable [Binary64]

/-- The scan of one entity. -/
def entityScan (entity : EntityId) : Scan := { Scan.unrestricted with entity := some entity }

/-- The only event of the sample database. -/
def sampleEvent : StoredEvent := recordOf ⟨sampleDatabase, 1, 1⟩ 0 (bareInput 1 0)

theorem parse_sampleEntity [Unicode] :
    parseQuery .temql "FROM temnion\nENTITY 0:0:0".toList = .ok (.scan (entityScan ⟨0, 0, 0⟩)) := rfl

theorem parse_otherEntity [Unicode] :
    parseQuery .temql "FROM temnion\nENTITY 0:1:0".toList = .ok (.scan (entityScan ⟨0, 1, 0⟩)) := rfl

/-- The sample database serves the scan of any entity within every budget. -/
theorem entityScan_served [Crc32fast] (entity : EntityId) :
    let system := (System.fresh sampleDatabase 1 1 Limits.default).run (bareCommands 1)
    ∃ store log, system.handle = some store ∧ Consistent (SealedOnce store.header) log store system ∧
      system.acknowledged = [sampleEvent] ∧
      BudgetHolds store system.disk ⟨none, none, none⟩ (entityScan entity).storageScan ∧
      (entityScan entity).storageScan.Served log store := by
  intro system
  have bytes : 1 * 92 ≤ ((entityScan entity).storageScan.storageBudget ⟨none, none, none⟩).maxReadBytes :=
    (by decide : 1 * 92 ≤ 1024).trans (le_max_right _ _)
  obtain ⟨store, log, present, consistent, events, holds, served, _⟩ :=
    @rowsOf_bareCommands _ 1 _ ⟨none, none, none⟩ (entityScan entity).storageScan ⟨some entity, none, none⟩ (by decide)
      rfl nofun bytes (le_max_right _ _) fun _ => nofun
  exact ⟨store, log, present, consistent, consistent.acknowledged.trans events, holds, served⟩

omit [Binary64] in
/-- A subscription to the entity of the sample event gets it live and from the past. -/
theorem live_and_snapshot_agree_iff_sample :
    letI := Binary64.exact
    letI := Unicode.ascii
    letI := Crc32fast.ieee
    let system := (System.fresh sampleDatabase 1 1 Limits.default).run (bareCommands 1)
    ∃ store, system.handle = some store ∧
      (Forwarded SubscriptionHub.new (planQuery (.scan (entityScan ⟨0, 0, 0⟩))) sampleEvent ↔
        Returned store system.disk ⟨none, none, none⟩ (entityScan ⟨0, 0, 0⟩).storageScan sampleEvent) := by
  let := Binary64.exact
  let := Unicode.ascii
  generalize Crc32fast.ieee = checksum
  intro system
  have created : System.create sampleDatabase 1 1 Limits.default =
      .ok (System.fresh sampleDatabase 1 1 Limits.default) := System.create_ok.mpr ⟨rfl, rfl⟩
  obtain ⟨store, log, present, consistent, acknowledged, holds, served⟩ := entityScan_served ⟨0, 0, 0⟩
  refine ⟨store, present, ?_⟩
  apply ((live_and_snapshot_agree_iff created (bareCommands 1)).2 log store consistent .temql _ _ _ parse_sampleEntity
    rfl ⟨none, none, none⟩ rfl holds SubscriptionHub.new sampleEvent ?_).mpr
  · exact fun _ => ⟨by decide, served⟩
  · rw [acknowledged]
    exact List.mem_cons_self

omit [Binary64] in
/-- A subscription to another entity gets the sample event live, but not from the past. -/
theorem live_event_of_another_entity :
    letI := Binary64.exact
    letI := Unicode.ascii
    letI := Crc32fast.ieee
    let system := (System.fresh sampleDatabase 1 1 Limits.default).run (bareCommands 1)
    let scan := (entityScan ⟨0, 1, 0⟩).storageScan
    parseQuery .temql "FROM temnion\nENTITY 0:1:0".toList = .ok (.scan (entityScan ⟨0, 1, 0⟩)) ∧
      system.acknowledged = [sampleEvent] ∧ (∀ hub, Forwarded hub (.storageScan scan) sampleEvent) ∧
      ∃ store, system.handle = some store ∧ BudgetHolds store system.disk ⟨none, none, none⟩ scan ∧
        ¬ Returned store system.disk ⟨none, none, none⟩ scan sampleEvent := by
  let := Binary64.exact
  let := Unicode.ascii
  generalize Crc32fast.ieee = checksum
  intro system scan
  obtain ⟨store, log, present, consistent, acknowledged, holds, served⟩ := entityScan_served ⟨0, 1, 0⟩
  refine ⟨parse_otherEntity, acknowledged, fun hub => forwarded_iff.mpr rfl, store, present, holds, ?_⟩
  have member : sampleEvent ∈ log.events := by
    rw [← consistent.acknowledged, acknowledged]
    exact List.mem_cons_self
  intro returned
  have admitted := ((@returned_iff _ _ log store _ _ scan _ consistent.inv holds rfl member).mp returned).2.1
  revert admitted
  decide

end Samples

end Temnion.Protocol
