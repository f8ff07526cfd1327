import Temnion.Branch.Run
import Temnion.Protocol.Dispatch
import Temnion.Query.Execution
import Temnion.Storage.KnownTime

/-
This file runs a server with one subscriber in the foreground and shows when no event is lost between the past and
the live queue.
-/

namespace Temnion.Protocol

open Query Storage Format

variable [Binary64] [Crc32fast]

/-- The records that an append is about to commit. -/
def committing (system : System) (batch : List WriteEvent) : List StoredEvent :=
  match system.offer batch, system.handle with
  | some (.ok _), some store =>
      match store.prepare batch with
      | .ok prepared => prepared.records
      | .error _ => []
  | _, _ => []

/-- How far the subscription of the foreground has come: nothing is known, the window is measured, or the number and
the channel are given out. -/
inductive Phase where
  | idle
  | measured (start stop : Nat)
  | subscribed (start stop : Nat) (id : UInt64) (place : Nat)
  deriving DecidableEq, Repr

/-- What the threads of the server do between two changes of the locks. -/
inductive Action where
  | measure
  | register
  | append (batch : List WriteEvent)
  | sealFrames
  | retire (holds : List ReferenceHold)
  | receive (place : Nat)
  | registerOther (filter : Option Expr)
  | unregister (id : UInt64)
  | hangUp (place : Nat)

structure Server where
  system : System
  hub : SubscriptionHub
  phase : Phase

namespace SubscriptionHub

/-- Changes one channel. -/
def change (hub : SubscriptionHub) (place : Nat) (act : Channel → Channel) : SubscriptionHub where
  nextId := hub.nextId
  subscribers := hub.subscribers
  channels := hub.channels.modify place act
  numbers := hub.numbers
  senders := hub.senders
  bounded entry member := (hub.bounded entry member).trans_eq (List.length_modify _ _ _).symm

end SubscriptionHub

namespace Server

/-- The length is read under the lock of the store, the registration takes the lock of the hub, and an append holds the
lock of the store until its records are dispatched. -/
def step (request : SubscribeRequest) (filter : Option Expr) (server : Server) : Action → Server
  | .measure =>
      match server.phase, server.system.handle with
      | .idle, some store =>
          let (start, stop) := snapshotWindow request store.nextSequence
          { server with phase := .measured start stop }
      | _, _ => server
  | .register =>
      match server.phase with
      | .measured start stop =>
          let (id, hub) := server.hub.register filter
          { server with hub, phase := .subscribed start stop id server.hub.channels.length }
      | _ => server
  | .append batch => { server with
      system := server.system.step (.append batch)
      hub := server.hub.dispatchEvents (committing server.system batch) }
  | .sealFrames => { server with system := server.system.step .sealFrames }
  | .retire holds => { server with system := server.system.step (.retire holds) }
  | .receive place => { server with hub := server.hub.change place Channel.receive }
  | .registerOther filter => { server with hub := (server.hub.register filter).2 }
  | .unregister id => { server with hub := (server.hub.unregister id).2 }
  | .hangUp place => { server with hub := server.hub.change place Channel.hangUp }

def run (request : SubscribeRequest) (filter : Option Expr) (server : Server) (actions : List Action) : Server :=
  actions.foldl (step request filter) server

/-- Between the measurement and the registration no matching event is committed, and afterwards the subscriber is
listed with an open channel and has room whenever a matching event is committed. -/
def HandsOver (filter : Option Expr) (server : Server) : Action → Prop
  | .append batch =>
      match server.phase with
      | .idle => True
      | .measured _ _ => ∀ event ∈ committing server.system batch, forwards filter event = false
      | .subscribed _ _ id place =>
          (∀ event ∈ committing server.system batch, forwards filter event = false) ∨
            server.hub.Lists id filter place ∧ ∃ channel, server.hub.channels[place]? = some channel ∧
              channel.connected = true ∧
              channel.waiting + (liveRecords id filter (committing server.system batch)).length ≤ channelBound
  | _ => True

/-- Every action of a run hands over in the state that it starts from. -/
def Follows (request : SubscribeRequest) (filter : Option Expr) : Server → List Action → Prop
  | _, [] => True
  | server, action :: actions => server.HandsOver filter action ∧ Follows request filter (server.step request filter action) actions

end Server

section Committing

variable {admits : List StoredEvent → Prop} {log : Log} {store : Store} {system : System} {batch : List WriteEvent}

omit [Binary64] in
/-- An append acknowledges the records that it was about to commit. -/
theorem acknowledged_append (consistent : Consistent admits log store system) :
    (system.step (.append batch)).acknowledged = system.acknowledged ++ committing system batch := by
  unfold committing System.offer
  cases present : system.handle with
  | none =>
      rw [System.step, System.perform_none present, Option.map_none]
      exact (List.append_nil _).symm
  | some other =>
      obtain rfl := consistent.handle other present
      have inv := consistent.inv
      have sound : (system.world other).fault = none := rfl
      have aligned : (system.world other).disk.wal.length = (system.world other).store.endOffset := inv.walExact
      rw [System.step, System.perform_open present, Option.map_some]
      rcases append_eq sound inv.tracks.usable aligned with ⟨fresh, next, ends⟩ | ⟨error, _, ends⟩
      · have prepared := (prepare_ok inv.tracks.usable).mpr ⟨fresh, next, rfl⟩
        rw [ends]
        dsimp only
        rw [prepared]
        rfl
      · rw [ends]
        exact (List.append_nil _).symm

omit [Binary64] in
/-- What a seal and a retirement do to the acknowledged events. -/
theorem acknowledged_keep {command : Command} (consistent : Consistent (fun _ => True) log store system)
    (still : ∀ batch, command ≠ .append batch) : (system.step command).acknowledged = system.acknowledged ∧
      ∃ later reached, Consistent (fun _ => True) later reached (system.step command) := by
  obtain ⟨later, reached, effect, next⟩ := consistent.step (fun _ _ => trivial) command
  refine ⟨?_, later, reached, next⟩
  rw [next.acknowledged, consistent.acknowledged]
  cases effect with
  | commit next => exact absurd rfl (still _)
  | keep => rfl
  | retire split => exact retireLog_events split
  | reopen => rfl

end Committing

section Queues

variable {hub : SubscriptionHub} {id : UInt64} {filter : Option Expr} {place : Nat} {events : List StoredEvent}
  {records : List LiveEventRecord}

/-- The channel was sent these records, and only this subscriber sends on it. -/
structure Queues (hub : SubscriptionHub) (id : UInt64) (filter : Option Expr) (place : Nat)
    (records : List LiveEventRecord) : Prop where
  channel : ∃ channel, hub.channels[place]? = some channel ∧ channel.sent = records
  owned : ∀ entry ∈ hub.subscribers, entry.2.sender = place → entry = (id, ⟨filter, place⟩)

omit [Crc32fast] in
theorem liveRecords_append (first second : List StoredEvent) :
    liveRecords id filter (first ++ second) = liveRecords id filter first ++ liveRecords id filter second := by
  rw [liveRecords, List.filter_append, List.map_append, liveRecords, liveRecords]

omit [Crc32fast] in
theorem liveRecords_eq_nil : liveRecords id filter events = [] ↔ ∀ event ∈ events, forwards filter event = false := by
  rw [liveRecords, List.map_eq_nil_iff, List.filter_eq_nil_iff]
  exact forall₂_congr fun event _ => Bool.not_eq_true _ ▸ Iff.rfl

namespace Queues

omit [Crc32fast] in
theorem bound (queues : Queues hub id filter place records) : place < hub.channels.length := by
  obtain ⟨channel, present, _⟩ := queues.channel
  exact (List.getElem?_eq_some_iff.mp present).1

omit [Crc32fast] in
/-- A new subscriber gets an empty queue of its own. -/
theorem register (hub : SubscriptionHub) (filter : Option Expr) :
    Queues (hub.register filter).2 (hub.register filter).1 filter hub.channels.length [] where
  channel := ⟨Channel.new, hub.register_channel filter, rfl⟩
  owned entry member same := by
    rcases List.mem_append.mp member with old | new
    · have inside := hub.bounded entry (List.mem_of_mem_filter old)
      omega
    · exact List.mem_singleton.mp new

omit [Crc32fast] in
theorem registerOther (queues : Queues hub id filter place records) (other : Option Expr) :
    Queues (hub.register other).2 id filter place records where
  channel := by
    obtain ⟨channel, present, sent⟩ := queues.channel
    exact ⟨channel, (List.getElem?_append_left queues.bound).trans present, sent⟩
  owned entry member same := by
    rcases List.mem_append.mp member with old | new
    · exact queues.owned entry (List.mem_of_mem_filter old) same
    · rw [List.mem_singleton.mp new] at same
      exact absurd queues.bound (same ▸ lt_irrefl _)

omit [Crc32fast] in
theorem retain (queues : Queues hub id filter place records) (keeps : UInt64 → Bool) :
    Queues (hub.retain keeps) id filter place records where
  channel := queues.channel
  owned entry member same := queues.owned entry (List.mem_of_mem_filter member) same

omit [Crc32fast] in
theorem change (queues : Queues hub id filter place records) (other : Nat) {act : Channel → Channel}
    (keeps : ∀ channel, (act channel).sent = channel.sent) : Queues (hub.change other act) id filter place records where
  channel := by
    obtain ⟨channel, present, sent⟩ := queues.channel
    unfold SubscriptionHub.change
    dsimp only
    rw [List.getElem?_modify, present, Option.map_eq_map, Option.map_some]
    by_cases same : other = place
    · exact ⟨act channel, congrArg some (if_pos same), (keeps channel).trans sent⟩
    · exact ⟨channel, congrArg some (if_neg same), sent⟩
  owned := queues.owned

omit [Crc32fast] in
/-- A dispatch without a matching event sends nothing. -/
theorem dispatch_idle (queues : Queues hub id filter place records)
    (nothing : ∀ event ∈ events, forwards filter event = false) :
    Queues (hub.dispatchEvents events) id filter place records where
  channel := by
    obtain ⟨channel, present, sent⟩ := queues.channel
    refine ⟨channel, ?_, sent⟩
    by_cases listed : (id, ⟨filter, place⟩) ∈ hub.subscribers
    · have offered := @offer_idle _ channel id filter events (liveRecords_eq_nil.mpr nothing)
      have after := (@foldl_dispatchTo_entry _ events _ (hub.channels, []) (id, ⟨filter, place⟩) channel listed
        hub.numbers hub.senders present List.not_mem_nil).1
      rw [offered] at after
      exact after
    · refine (@foldl_dispatchTo_other _ events hub.subscribers (hub.channels, []) place ?_).trans present
      intro entry member same
      exact listed (queues.owned entry member same ▸ member)
  owned entry member same := queues.owned entry (List.mem_of_mem_filter member) same

omit [Crc32fast] in
/-- A dispatch to the listed subscriber with room sends every matching event. -/
theorem dispatch_listed {channel : Channel} (queues : Queues hub id filter place records)
    (listed : hub.Lists id filter place) (present : hub.channels[place]? = some channel)
    (opened : channel.connected = true)
    (room : channel.waiting + (liveRecords id filter events).length ≤ channelBound) :
    Queues (hub.dispatchEvents events) id filter place (records ++ liveRecords id filter events) where
  channel := by
    obtain ⟨_, after⟩ := SubscriptionHub.dispatchEvents_listed listed present opened room
    obtain ⟨same, present', sent⟩ := queues.channel
    obtain rfl := Option.some.inj (present.symm.trans present')
    exact ⟨_, after, congrArg (· ++ liveRecords id filter events) sent⟩
  owned entry member same := queues.owned entry (List.mem_of_mem_filter member) same

end Queues

end Queues

section Run

variable {request : SubscribeRequest} {filter : Option Expr} {server : Server} {action : Action}

/-- Behind the end of the snapshot nothing matches before the registration, and afterwards everything that matches is
sent. -/
def Covered (filter : Option Expr) (server : Server) : Prop :=
  match server.phase with
  | .idle => True
  | .measured _ stop => stop ≤ server.system.acknowledged.length ∧
      ∀ event ∈ server.system.acknowledged.drop stop, forwards filter event = false
  | .subscribed _ stop id place => stop ≤ server.system.acknowledged.length ∧
      Queues server.hub id filter place (liveRecords id filter (server.system.acknowledged.drop stop))

structure Handed (filter : Option Expr) (server : Server) : Prop where
  consistent : ∃ log store, Consistent (fun _ => True) log store server.system
  covered : Covered filter server

/-- A change of the storage that commits nothing keeps everything covered. -/
theorem Handed.still {system : System} (handed : Handed filter server)
    (consistent : ∃ log store, Consistent (fun _ => True) log store system)
    (same : system.acknowledged = server.system.acknowledged) : Handed filter { server with system } := by
  refine ⟨consistent, ?_⟩
  have covered := handed.covered
  unfold Covered at covered ⊢
  rw [same]
  exact covered

/-- A change of the hub that keeps the queues keeps everything covered. -/
theorem Handed.changed {hub : SubscriptionHub} (handed : Handed filter server)
    (keeps : ∀ id place records, Queues server.hub id filter place records → Queues hub id filter place records) :
    Handed filter { server with hub } := by
  refine ⟨handed.consistent, ?_⟩
  have covered := handed.covered
  unfold Covered at covered ⊢
  cases phase : server.phase with
  | idle => trivial
  | measured start stop =>
      rw [phase] at covered
      exact covered
  | subscribed start stop id place =>
      rw [phase] at covered
      exact ⟨covered.1, keeps id place _ covered.2⟩

theorem Handed.measure (handed : Handed filter server) : Handed filter (server.step request filter .measure) := by
  unfold Server.step
  cases phase : server.phase with
  | idle =>
      cases present : server.system.handle with
      | none => exact handed
      | some store =>
          obtain ⟨log, other, consistent⟩ := handed.consistent
          obtain rfl := consistent.handle store present
          refine ⟨handed.consistent, ?_⟩
          have stop : (snapshotWindow request store.nextSequence).2 = server.system.acknowledged.length := by
            rw [snapshotWindow_snd, consistent.inv.tracks.nextSequence, consistent.acknowledged]
          change (snapshotWindow request store.nextSequence).2 ≤ _ ∧
            ∀ event ∈ server.system.acknowledged.drop (snapshotWindow request store.nextSequence).2, _
          rw [stop, List.drop_length]
          exact ⟨le_refl _, fun event absent => absurd absent List.not_mem_nil⟩
  | measured start stop => exact handed
  | subscribed start stop id place => exact handed

theorem Handed.register (handed : Handed filter server) : Handed filter (server.step request filter .register) := by
  have covered := handed.covered
  unfold Covered at covered
  unfold Server.step
  cases phase : server.phase with
  | idle => exact handed
  | measured start stop =>
      rw [phase] at covered
      refine ⟨handed.consistent, covered.1, ?_⟩
      rw [liveRecords_eq_nil.mpr covered.2]
      exact Queues.register server.hub filter
  | subscribed start stop id place => exact handed

theorem Handed.append {batch : List WriteEvent} (handed : Handed filter server)
    (allowed : server.HandsOver filter (.append batch)) : Handed filter (server.step request filter (.append batch)) := by
  obtain ⟨log, store, consistent⟩ := handed.consistent
  have covered := handed.covered
  have grown := @acknowledged_append _ _ _ _ _ batch consistent
  obtain ⟨later, reached, _, next, _⟩ := consistent.append batch
  refine ⟨⟨later, reached, next⟩, ?_⟩
  unfold Covered at covered ⊢
  unfold Server.HandsOver at allowed
  change match server.phase with
    | .idle => True
    | .measured _ stop => stop ≤ (server.system.step (.append batch)).acknowledged.length ∧
        ∀ event ∈ (server.system.step (.append batch)).acknowledged.drop stop, forwards filter event = false
    | .subscribed _ stop id place => stop ≤ (server.system.step (.append batch)).acknowledged.length ∧
        Queues (server.hub.dispatchEvents (committing server.system batch)) id filter place
          (liveRecords id filter ((server.system.step (.append batch)).acknowledged.drop stop))
  rw [grown]
  cases phase : server.phase with
  | idle => trivial
  | measured start stop =>
      rw [phase] at covered allowed
      refine ⟨covered.1.trans (by rw [List.length_append]; exact Nat.le_add_right _ _), ?_⟩
      rw [List.drop_append_of_le_length covered.1]
      intro event member
      rcases List.mem_append.mp member with old | new
      · exact covered.2 event old
      · exact allowed event new
  | subscribed start stop id place =>
      rw [phase] at covered allowed
      refine ⟨covered.1.trans (by rw [List.length_append]; exact Nat.le_add_right _ _), ?_⟩
      rw [List.drop_append_of_le_length covered.1, liveRecords_append]
      rcases allowed with nothing | ⟨listed, channel, present, opened, room⟩
      · rw [liveRecords_eq_nil.mpr nothing, List.append_nil]
        exact covered.2.dispatch_idle nothing
      · exact covered.2.dispatch_listed listed present opened room

/-- Every action that hands over keeps everything covered. -/
theorem Handed.step (handed : Handed filter server) (allowed : server.HandsOver filter action) :
    Handed filter (server.step request filter action) := by
  cases action with
  | measure => exact handed.measure
  | register => exact handed.register
  | append batch => exact handed.append allowed
  | sealFrames =>
      obtain ⟨log, store, consistent⟩ := handed.consistent
      obtain ⟨same, next⟩ := acknowledged_keep consistent (fun batch => @Command.noConfusion _ .sealFrames (.append batch))
      exact handed.still next same
  | retire holds =>
      obtain ⟨log, store, consistent⟩ := handed.consistent
      obtain ⟨same, next⟩ := acknowledged_keep consistent (fun batch => @Command.noConfusion _ (.retire holds) (.append batch))
      exact handed.still next same
  | receive place =>
      apply handed.changed
      intro id own records queues
      apply queues.change
      intro channel
      unfold Channel.receive
      split <;> rfl
  | registerOther other => exact handed.changed fun id own records queues => queues.registerOther other
  | unregister id => exact handed.changed fun own place records queues => queues.retain fun other => decide (other ≠ id)
  | hangUp place => exact handed.changed fun id own records queues => queues.change place fun _ => rfl

theorem Handed.run {actions : List Action} (handed : Handed filter server) (follows : server.Follows request filter actions) :
    Handed filter (server.run request filter actions) := by
  induction actions generalizing server with
  | nil => exact handed
  | cons action actions hypothesis => exact hypothesis (handed.step follows.1) follows.2

end Run

section Sequences

variable {log : Log} {header : WalHeader} {event : StoredEvent} {place stop : Nat}

omit [Binary64] [Crc32fast] in
theorem filter_key {A Key : Type} [DecidableEq Key] {key : A → Key} {items : List A} {item : A}
    (distinct : (items.map key).Nodup) (member : item ∈ items) :
    items.filter (fun other => decide (key other = key item)) = [item] := by
  induction items with
  | nil => nomatch member
  | cons head items hypothesis =>
      rw [List.map_cons, List.nodup_cons] at distinct
      rcases List.mem_cons.mp member with rfl | later
      · rw [List.filter_cons, if_pos (by exact decide_eq_true rfl), List.filter_eq_nil_iff.mpr]
        intro other inside same
        exact distinct.1 (List.mem_map.mpr ⟨other, inside, of_decide_eq_true same⟩)
      · rw [List.filter_cons, if_neg, hypothesis distinct.2 later]
        intro same
        exact distinct.1 (List.mem_map.mpr ⟨item, later, (of_decide_eq_true same).symm⟩)

omit [Binary64] [Crc32fast] in
theorem sequences_nodup (valid : log.Valid header) : (log.events.map (·.id.sequence)).Nodup := by
  rw [List.nodup_iff_getElem?_ne_getElem?]
  intro first second before inside same
  rw [List.length_map] at inside
  have left := List.getElem?_eq_getElem (before.trans inside)
  have right := List.getElem?_eq_getElem inside
  rw [List.getElem?_map, List.getElem?_map, left, right, Option.map_some, Option.map_some, Option.some.injEq] at same
  have places := congrArg UInt64.toNat same
  rw [sequence_of_place valid left, sequence_of_place valid right] at places
  omega

omit [Binary64] [Crc32fast] in
/-- Behind a place an event of the log is found by its sequence once, or not at all when it stands before it. -/
theorem filter_sequence (valid : log.Valid header) (member : event ∈ log.events) :
    (log.events.drop stop).filter (fun other => decide (other.id.sequence = event.id.sequence)) =
      if event.id.sequence.toNat < stop then [] else [event] := by
  obtain ⟨place, found⟩ := List.mem_iff_getElem?.mp member
  rw [sequence_of_place valid found]
  by_cases before : place < stop
  · rw [if_pos before, List.filter_eq_nil_iff]
    intro other inside same
    obtain ⟨index, there⟩ := List.mem_iff_getElem?.mp inside
    rw [List.getElem?_drop] at there
    have places := congrArg UInt64.toNat (of_decide_eq_true same)
    rw [sequence_of_place valid found, sequence_of_place valid there] at places
    omega
  · rw [if_neg before]
    have inside : event ∈ log.events.drop stop := by
      apply List.mem_iff_getElem?.mpr
      refine ⟨place - stop, ?_⟩
      rw [List.getElem?_drop, Nat.add_sub_cancel' (Nat.le_of_not_lt before)]
      exact found
    exact filter_key ((sequences_nodup valid).sublist ((List.drop_sublist _ _).map _)) inside

omit [Crc32fast] in
/-- The records of one sequence among those of some events. -/
theorem filter_liveRecords {id : UInt64} {filter : Option Expr} {events : List StoredEvent} {sequence : UInt64} :
    (liveRecords id filter events).filter (fun record => decide (record.sequence = sequence)) =
      liveRecords id filter (events.filter fun other => decide (other.id.sequence = sequence)) := by
  rw [liveRecords, List.filter_map, List.filter_filter, liveRecords, List.filter_filter]
  congr 2
  funext event
  exact Bool.and_comm _ _

end Sequences

section HandOver

/-- In every run whose actions hand over, each committed event from the start of the snapshot on that matches is either
before the end of the snapshot, or exactly once on the live queue. -/
theorem subscription_hands_over {database : DatabaseId} {source : SourceId} {epoch : SourceEpoch} {limits : Limits}
    {start : System} {request : SubscribeRequest} {filter : Option Expr} {actions : List Action}
    (created : System.create database source epoch limits = .ok start) (commands : List Command) (hub : SubscriptionHub)
    (follows : (Server.mk (start.run commands) hub .idle).Follows request filter actions) :
    let server := (Server.mk (start.run commands) hub .idle).run request filter actions
    ∀ first stop id place, server.phase = .subscribed first stop id place →
      ∃ channel, server.hub.channels[place]? = some channel ∧ ∀ event ∈ server.system.acknowledged,
        first ≤ event.id.sequence.toNat → forwards filter event = true →
        channel.sent.filter (fun record => decide (record.sequence = event.id.sequence)) =
          if event.id.sequence.toNat < stop then [] else [liveRecord id event] := by
  intro server first stop id place phase
  have begins : Handed filter (Server.mk (start.run commands) hub .idle) := by
    obtain ⟨log, store, consistent, _⟩ := (System.create_consistent (fun _ => True) created).run (fun _ _ => True)
      (fun _ _ _ _ _ _ _ _ _ _ => trivial) (fun _ _ _ _ _ => trivial) trivial (System.follows_always start commands)
    exact ⟨⟨log, store, consistent⟩, trivial⟩
  have handed : Handed filter server := begins.run follows
  obtain ⟨log, store, consistent⟩ := handed.consistent
  have covered := handed.covered
  unfold Covered at covered
  rw [phase] at covered
  obtain ⟨channel, present, sent⟩ := covered.2.channel
  refine ⟨channel, present, ?_⟩
  intro event member _ matched
  rw [consistent.acknowledged] at member sent
  rw [sent, filter_liveRecords, filter_sequence consistent.inv.valid member]
  by_cases before : event.id.sequence.toNat < stop
  · rw [if_pos before, if_pos before]
    rfl
  · rw [if_neg before, if_neg before, liveRecords, List.filter_cons_of_pos matched]
    rfl

end HandOver

section Samples

/-- A subscription to everything from the start. -/
def everything : SubscribeRequest := ⟨"FROM temnion".toList, .temql, none, false⟩

/-- The server of a new database. -/
def freshServer : Server := ⟨System.fresh sampleDatabase 1 1 Limits.default, .new, .idle⟩

/-- The first event that is appended. -/
def firstEvent : StoredEvent := recordOf ⟨sampleDatabase, 1, 1⟩ 0 (bareInput 1 5)

omit [Binary64] in
/-- The first append commits its event. -/
theorem first_append :
    committing (System.fresh sampleDatabase 1 1 Limits.default) [bareInput 1 5] = [firstEvent] ∧
      ((System.fresh sampleDatabase 1 1 Limits.default).step (.append [bareInput 1 5])).acknowledged = [firstEvent] := by
  have empty := System.create_consistent (fun _ => True)
    (System.create_ok.mpr ⟨rfl, rfl⟩ : System.create sampleDatabase 1 1 Limits.default = .ok _)
  have next : NextBatch (startStore ⟨sampleDatabase, 1, 1⟩ Limits.default 0) [bareInput 1 5] [firstEvent] :=
    NextBatch.bare rfl (fun last absent => nomatch absent) (by decide) (by decide)
  have ends := (empty.append_next rfl next).1.acknowledged
  have grown := @acknowledged_append _ _ _ _ _ [bareInput 1 5] empty
  have flat : (Log.empty.extend [firstEvent]).events = [firstEvent] := rfl
  have before : (System.fresh sampleDatabase 1 1 Limits.default).acknowledged = [] := rfl
  rw [flat] at ends
  rw [ends, before, List.nil_append] at grown
  exact ⟨grown.symm, ends⟩

end Samples

omit [Binary64] [Crc32fast] in
/-- An event that is appended after the registration is on the live queue. -/
theorem subscription_hands_over_sample :
    letI := Binary64.exact
    letI := Crc32fast.ieee
    ∃ channel, (freshServer.run everything none [.measure, .register, .append [bareInput 1 5]]).hub.channels[0]? =
        some channel ∧
      channel.sent.filter (fun record => decide (record.sequence = firstEvent.id.sequence)) =
        if firstEvent.id.sequence.toNat < 0 then [] else [liveRecord 1 firstEvent] := by
  let := Binary64.exact
  generalize Crc32fast.ieee = checksum
  have created : System.create sampleDatabase 1 1 Limits.default =
      .ok (System.fresh sampleDatabase 1 1 Limits.default) := System.create_ok.mpr ⟨rfl, rfl⟩
  have room : Channel.new.waiting + (liveRecords 1 none
      (committing (System.fresh sampleDatabase 1 1 Limits.default) [bareInput 1 5])).length ≤ channelBound := by
    rw [first_append.1]
    decide
  have follows : freshServer.Follows everything none [.measure, .register, .append [bareInput 1 5]] :=
    ⟨trivial, trivial, .inr ⟨List.mem_cons_self, .new, rfl, rfl, room⟩, trivial⟩
  obtain ⟨channel, present, once⟩ := subscription_hands_over created [] .new follows 0 0 1 0 rfl
  refine ⟨channel, present, once firstEvent ?_ (Nat.zero_le _) rfl⟩
  change firstEvent ∈ ((System.fresh sampleDatabase 1 1 Limits.default).step (.append [bareInput 1 5])).acknowledged
  rw [first_append.2]
  exact List.mem_cons_self

omit [Binary64] [Crc32fast] in
/-- An event that is appended between the measurement and the registration is neither in the snapshot nor on the
queue. -/
theorem subscription_loses_an_event :
    letI := Binary64.exact
    letI := Crc32fast.ieee
    let server := freshServer.run everything none [.measure, .append [bareInput 1 5], .register]
    server.phase = .subscribed 0 0 1 0 ∧ server.system.acknowledged = [firstEvent] ∧
      forwards none firstEvent = true ∧ ∃ channel, server.hub.channels[0]? = some channel ∧ channel.sent = [] := by
  let := Binary64.exact
  generalize Crc32fast.ieee = checksum
  exact ⟨rfl, first_append.2, rfl, .new, rfl, rfl⟩

end Temnion.Protocol
