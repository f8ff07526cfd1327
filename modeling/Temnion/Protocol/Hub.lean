import Temnion.Query.Sql

/-
This file defines subscriptions: the hub with its channels, the snapshot of the past and the requests for both.
-/

namespace Temnion.Protocol

open Query Storage Format

inductive QueryFormat where
  | temql
  | compactTem
  | sql
  deriving DecidableEq, Repr

structure SubscribeRequest where
  queryStr : Text
  format : QueryFormat
  fromSequence : Option UInt64
  fromNow : Bool
  deriving DecidableEq, Repr

/-- One event on its way to a subscriber. -/
structure LiveEventRecord where
  subscriptionId : UInt64
  sequence : UInt64
  isLive : Bool
  entityShard : UInt32
  entitySlot : UInt32
  entityGeneration : UInt32
  schema : UInt32
  validClock : UInt32
  validTime : UInt64
  knownClock : UInt32
  knownTime : UInt64
  payloadHex : Text
  deriving DecidableEq, Repr

/-- Two digits for each byte. -/
def hexEncode (bytes : List UInt8) : Text :=
  bytes.flatMap fun byte => [Nat.digitChar (byte.toNat / 16), Nat.digitChar (byte.toNat % 16)]

variable [Binary64]

def parseQuery [Unicode] (format : QueryFormat) (text : Text) : Except SqlError LogicalPlan :=
  match format with
  | .temql => refuse (parseTemql text)
  | .compactTem => refuse (parseCompactTem text)
  | .sql => parseSql text

/-- Of the plan only the condition of the scan goes to the hub. -/
def hubFilter : PhysicalPlan → Option Expr
  | .storageScan scan => scan.pushdownFilter
  | .causalWalk _ => none

/-- The hub passes an event on when its match succeeds. -/
def forwards (filter : Option Expr) (event : StoredEvent) : Bool :=
  match matchAndProjectEvent filter none event with
  | .ok (some _) => true
  | _ => false

section Channels

/-- The records that were put on the queue of a subscriber, and how many of them have been received. -/
structure Channel where
  sent : List LiveEventRecord
  received : Nat
  connected : Bool
  behind : received ≤ sent.length

/-- The queue of a subscriber holds this many records. -/
def channelBound : Nat := 1024

namespace Channel

def new : Channel := ⟨[], 0, true, le_refl _⟩

def waiting (channel : Channel) : Nat := channel.sent.length - channel.received

def put (channel : Channel) (records : List LiveEventRecord) : Channel where
  sent := channel.sent ++ records
  received := channel.received
  connected := channel.connected
  behind := channel.behind.trans (by rw [List.length_append]; exact Nat.le_add_right _ _)

/-- A record that finds the queue full is lost. -/
def trySend (channel : Channel) (record : LiveEventRecord) : Channel :=
  if channel.waiting < channelBound then channel.put [record] else channel

/-- Takes the next record from the queue, when there is one. -/
def receive (channel : Channel) : Channel :=
  if waits : channel.received < channel.sent.length then
    { channel with received := channel.received + 1, behind := waits }
  else channel

/-- The receiver is dropped. -/
def hangUp (channel : Channel) : Channel := { channel with connected := false }

end Channel

structure ActiveSubscription where
  filter : Option Expr
  sender : Nat

def liveRecord (id : UInt64) (event : StoredEvent) : LiveEventRecord where
  subscriptionId := id
  sequence := event.id.sequence
  isLive := true
  entityShard := event.entity.shard
  entitySlot := event.entity.slot
  entityGeneration := event.entity.generation
  schema := event.schema
  validClock := event.times.valid.clock
  validTime := event.times.valid.ticks
  knownClock := event.times.known.clock
  knownTime := event.times.known.ticks
  payloadHex := hexEncode event.payload

/-- Offers the matching events to one channel, and tells whether its receiver is gone. -/
def offer (id : UInt64) (filter : Option Expr) : List StoredEvent → Channel → Channel × Bool
  | [], channel => (channel, false)
  | event :: events, channel =>
      if forwards filter event then
        if channel.connected then offer id filter events (channel.trySend (liveRecord id event)) else (channel, true)
      else offer id filter events channel

/-- The channels and the numbers whose receivers are gone, after one more subscriber. -/
def dispatchTo (events : List StoredEvent) (reached : List Channel × List UInt64) (entry : UInt64 × ActiveSubscription) :
    List Channel × List UInt64 :=
  match reached.1[entry.2.sender]? with
  | none => reached
  | some channel =>
      let (channel, gone) := offer entry.1 entry.2.filter events channel
      (reached.1.set entry.2.sender channel, if gone then reached.2 ++ [entry.1] else reached.2)

theorem dispatchTo_length (events : List StoredEvent) (reached : List Channel × List UInt64)
    (entry : UInt64 × ActiveSubscription) : (dispatchTo events reached entry).1.length = reached.1.length := by
  unfold dispatchTo
  cases reached.1[entry.2.sender]? with
  | none => rfl
  | some channel => exact List.length_set

theorem foldl_dispatchTo_length (events : List StoredEvent) (entries : List (UInt64 × ActiveSubscription))
    (reached : List Channel × List UInt64) : (entries.foldl (dispatchTo events) reached).1.length = reached.1.length := by
  induction entries generalizing reached with
  | nil => rfl
  | cons entry entries hypothesis => rw [List.foldl_cons, hypothesis, dispatchTo_length]

/-- The subscribers by their numbers, and all channels that were made. No two subscribers share a channel. -/
structure SubscriptionHub where
  nextId : UInt64
  subscribers : List (UInt64 × ActiveSubscription)
  channels : List Channel
  numbers : (subscribers.map Prod.fst).Nodup
  senders : (subscribers.map fun entry => entry.2.sender).Nodup
  bounded : ∀ entry ∈ subscribers, entry.2.sender < channels.length

namespace SubscriptionHub

def new : SubscriptionHub := ⟨1, [], [], List.nodup_nil, List.nodup_nil, nofun⟩

/-- The subscribers for whom a condition holds. -/
def retain (hub : SubscriptionHub) (keeps : UInt64 → Bool) : SubscriptionHub where
  nextId := hub.nextId
  subscribers := hub.subscribers.filter fun entry => keeps entry.1
  channels := hub.channels
  numbers := hub.numbers.sublist (List.filter_sublist.map _)
  senders := hub.senders.sublist (List.filter_sublist.map _)
  bounded entry member := hub.bounded entry (List.mem_of_mem_filter member)

/-- A channel of its own for a subscriber whose number is free. -/
def insert (hub : SubscriptionHub) (id : UInt64) (filter : Option Expr) (free : id ∉ hub.subscribers.map Prod.fst) :
    SubscriptionHub where
  nextId := hub.nextId
  subscribers := hub.subscribers ++ [(id, ⟨filter, hub.channels.length⟩)]
  channels := hub.channels ++ [Channel.new]
  numbers := by
    rw [List.map_append]
    exact hub.numbers.append (List.nodup_singleton _) (List.disjoint_singleton.mpr free)
  senders := by
    rw [List.map_append]
    apply hub.senders.append (List.nodup_singleton _) (List.disjoint_singleton.mpr _)
    intro shared
    obtain ⟨entry, member, same⟩ := List.mem_map.mp shared
    exact absurd (hub.bounded entry member) (same ▸ lt_irrefl _)
  bounded entry member := by
    rw [List.length_append, List.length_singleton]
    rcases List.mem_append.mp member with old | new
    · exact (hub.bounded entry old).trans (Nat.lt_succ_self _)
    · rw [List.mem_singleton.mp new]
      exact Nat.lt_succ_self _

theorem not_mem_retain (hub : SubscriptionHub) (id : UInt64) :
    id ∉ (hub.retain (· ≠ id)).subscribers.map Prod.fst := by
  intro listed
  obtain ⟨entry, member, same⟩ := List.mem_map.mp listed
  have kept := (List.mem_filter.mp member).2
  exact of_decide_eq_true kept same

/-- The counter may pass its end, and the subscriber whose number comes again is replaced. -/
def register (hub : SubscriptionHub) (filter : Option Expr) : UInt64 × SubscriptionHub :=
  (hub.nextId, { (hub.retain (· ≠ hub.nextId)).insert hub.nextId filter (hub.not_mem_retain _) with
    nextId := hub.nextId + 1 })

def unregister (hub : SubscriptionHub) (id : UInt64) : Bool × SubscriptionHub :=
  (hub.subscribers.any (·.1 = id), hub.retain (· ≠ id))

/-- Subscribers whose receivers are gone are removed afterwards. -/
def dispatchEvents (hub : SubscriptionHub) (events : List StoredEvent) : SubscriptionHub :=
  let outcome := hub.subscribers.foldl (dispatchTo events) (hub.channels, [])
  let remaining := hub.retain fun id => !outcome.2.contains id
  { remaining with
    channels := outcome.1
    bounded := fun entry member => (remaining.bounded entry member).trans_eq
      (foldl_dispatchTo_length events hub.subscribers (hub.channels, [])).symm }

end SubscriptionHub

end Channels

section Snapshot

/-- The range of sequences that the past is sent for, when the store holds so many events. -/
def snapshotWindow (request : SubscribeRequest) (length : Nat) : Nat × Nat :=
  if request.fromNow then (length, length) else (min ((request.fromSequence.getD 0).toNat) length, length)

omit [Binary64] in
/-- The window ends with the store. -/
theorem snapshotWindow_snd (request : SubscribeRequest) (length : Nat) : (snapshotWindow request length).2 = length := by
  unfold snapshotWindow
  split <;> rfl

def snapshotBudget (start stop : Nat) : QueryBudget := ⟨some (stop - start), some 65536, some (32 * 1024 * 1024)⟩

/-- Records of the past come without their payload. -/
def snapshotRecord (id : UInt64) (row : QueryRow) : LiveEventRecord where
  subscriptionId := id
  sequence := row.sequence
  isLive := false
  entityShard := row.entity.shard
  entitySlot := row.entity.slot
  entityGeneration := row.entity.generation
  schema := row.schema
  validClock := row.validTime.clock
  validTime := row.validTime.ticks
  knownClock := row.knownTime.clock
  knownTime := row.knownTime.ticks
  payloadHex := []

def inWindow (start stop : Nat) (sequence : UInt64) : Bool := start ≤ sequence.toNat && sequence.toNat < stop

/-- The records of the past. A scan that fails sends none. -/
def snapshotRecords [Crc32fast] (store : Store) (disk : Disk) (plan : PhysicalPlan) (id : UInt64) (start stop : Nat) :
    List LiveEventRecord :=
  if start < stop then
    match executeStorageScan store disk plan (snapshotBudget start stop) with
    | .ok result => (result.rows.filter fun row => inWindow start stop row.sequence).map (snapshotRecord id)
    | .error _ => []
  else []

end Snapshot

end Temnion.Protocol
