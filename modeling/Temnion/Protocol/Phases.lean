import Temnion.Protocol.Snapshot

/-
This file compares the record of an event from the historical phase of a subscription with the live one.
-/

namespace Temnion.Protocol

open Query Storage Format

/-- The records have the same contents, and only one of them may be live. -/
def LiveEventRecord.SameContents (past live : LiveEventRecord) : Prop := { past with isLive := live.isLive } = live

instance (past live : LiveEventRecord) : Decidable (past.SameContents live) := by
  unfold LiveEventRecord.SameContents
  infer_instance

/-- Two digits for each byte are none only without a byte. -/
theorem hexEncode_eq_nil {bytes : List UInt8} : hexEncode bytes = [] ↔ bytes = [] := by
  cases bytes with
  | nil => exact iff_of_true rfl rfl
  | cons byte bytes => exact iff_of_false (List.cons_ne_nil _ _) (List.cons_ne_nil _ _)

section Phases

variable [Binary64] {plan : PhysicalPlan} {id : UInt64} {event : StoredEvent}

/-- A row keeps everything that a record shows except the payload, under any projection. -/
theorem snapshotRecord_sameContents (id : UInt64) (projection : Option (List Text)) (event : StoredEvent) :
    (snapshotRecord id (projectedRow projection event)).SameContents (liveRecord id event) ↔ event.payload = [] := by
  rw [← hexEncode_eq_nil]
  constructor
  · intro same
    exact (congrArg LiveEventRecord.payloadHex same).symm
  · intro empty
    unfold LiveEventRecord.SameContents liveRecord
    rw [empty]
    rfl

/-- A record of the past is that of an event of the page which the hub passes on to the same subscriber. -/
theorem snapshotRecords_mem [Crc32fast] {store : Store} {disk : Disk} {start stop : Nat} {record : LiveEventRecord}
    (member : record ∈ snapshotRecords store disk plan id start stop) :
    ∃ scan page, plan = .storageScan scan ∧ scannedPage store disk (snapshotBudget start stop) scan = .ok page ∧
      ∃ event ∈ page.events, forwards (hubFilter plan) event = true ∧
        record = snapshotRecord id (projectedRow (projectionOf plan) event) := by
  by_cases window : start < stop
  · rw [snapshotRecords_eq plan id window] at member
    obtain ⟨row, kept, rfl⟩ := List.mem_map.mp member
    have returned := List.mem_of_mem_filter kept
    cases plan with
    | causalWalk walk => nomatch returned
    | storageScan scan =>
        obtain ⟨page, read, event, inside, satisfied, rfl⟩ := rowsOf_mem returned
        refine ⟨scan, page, rfl, read, event, inside, ?_, rfl⟩
        rw [forwards_eq]
        exact satisfied
  · rw [snapshotRecords, if_neg window] at member
    nomatch member

/-- The record of an event from the past and the one that the hub queues for it have the same contents exactly when the
payload of the event is empty. -/
theorem phases_agree_iff (plan : PhysicalPlan) (id : UInt64) :
    (∀ [Crc32fast] store disk start stop, ∀ record ∈ snapshotRecords store disk plan id start stop,
      ∃ scan page, plan = .storageScan scan ∧ scannedPage store disk (snapshotBudget start stop) scan = .ok page ∧
        ∃ event ∈ page.events, forwards (hubFilter plan) event = true ∧
          record = snapshotRecord id (projectedRow (projectionOf plan) event)) ∧
    ∀ event, forwards (hubFilter plan) event = true →
      ∀ (hub : SubscriptionHub) place channel, hub.Lists id (hubFilter plan) place →
      hub.channels[place]? = some channel → channel.connected = true → channel.waiting < channelBound →
        ∃ live, (hub.dispatchEvents [event]).channels[place]? = some (channel.put [live]) ∧
          ((snapshotRecord id (projectedRow (projectionOf plan) event)).SameContents live ↔ event.payload = []) := by
  constructor
  · intro _ store disk start stop record member
    exact snapshotRecords_mem member
  · intro event matched hub place channel listed present opened room
    have single : liveRecords id (hubFilter plan) [event] = [liveRecord id event] := by
      rw [liveRecords, List.filter_cons_of_pos matched]
      rfl
    have fits : channel.waiting + (liveRecords id (hubFilter plan) [event]).length ≤ channelBound := by
      rw [single]
      exact room
    obtain ⟨_, after⟩ := SubscriptionHub.dispatchEvents_listed listed present opened fits
    rw [single] at after
    exact ⟨_, after, snapshotRecord_sameContents id _ event⟩

end Phases

section Samples

open Branch Replay

/-- The sample event with a payload of two bytes. -/
def eventOfTwoBytes : StoredEvent := { sampleEvent with payload := [5, 6] }

/-- A subscriber to everything gets the sample event from both phases with the same contents. -/
theorem phases_agree_iff_sample :
    letI := Binary64.exact
    let plan := planQuery (.scan Scan.unrestricted)
    ∃ live, ((SubscriptionHub.new.register (hubFilter plan)).2.dispatchEvents [sampleEvent]).channels[0]? =
        some (Channel.new.put [live]) ∧
      (snapshotRecord 1 (projectedRow (projectionOf plan) sampleEvent)).SameContents live := by
  let := Binary64.exact
  intro plan
  obtain ⟨live, after, same⟩ := (phases_agree_iff plan 1).2 sampleEvent rfl
    (SubscriptionHub.new.register (hubFilter plan)).2 0 Channel.new (SubscriptionHub.new.register_lists _)
    (SubscriptionHub.new.register_channel _) rfl (by decide)
  exact ⟨live, after, same.mpr rfl⟩

/-- The payload of an event reaches a subscriber to everything live, but not from the past. -/
theorem payload_only_live :
    letI := Binary64.exact
    let plan := planQuery (.scan Scan.unrestricted)
    forwards (hubFilter plan) eventOfTwoBytes = true ∧
      ((SubscriptionHub.new.register (hubFilter plan)).2.dispatchEvents [eventOfTwoBytes]).channels[0]? =
        some (Channel.new.put [liveRecord 1 eventOfTwoBytes]) ∧
      (liveRecord 1 eventOfTwoBytes).payloadHex = "0506".toList ∧
      (snapshotRecord 1 (projectedRow (projectionOf plan) eventOfTwoBytes)).payloadHex = [] ∧
      ¬ (snapshotRecord 1 (projectedRow (projectionOf plan) eventOfTwoBytes)).SameContents
        (liveRecord 1 eventOfTwoBytes) := by
  let := Binary64.exact
  intro plan
  refine ⟨rfl, rfl, by decide, rfl, ?_⟩
  rw [snapshotRecord_sameContents]
  exact List.cons_ne_nil _ _

end Samples

end Temnion.Protocol
