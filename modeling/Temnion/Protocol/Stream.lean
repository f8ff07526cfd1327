import Temnion.Protocol.Lifetime

/-
This file follows one subscription through the turns of all connections and says which packets it sends.
-/

namespace Temnion.Protocol

open Query Storage Format

variable [Binary64]

section Channels

/-- Records were added behind those of the earlier channel, and none was received. -/
structure Channel.Grows (earlier later : Channel) : Prop where
  sent : earlier.sent <+: later.sent
  received : later.received = earlier.received

omit [Binary64] in
theorem Channel.Grows.refl (channel : Channel) : channel.Grows channel := ⟨List.prefix_refl _, rfl⟩

omit [Binary64] in
theorem Channel.Grows.trans {first second third : Channel} (one : first.Grows second) (two : second.Grows third) :
    first.Grows third := ⟨one.sent.trans two.sent, two.received.trans one.received⟩

omit [Binary64] in
theorem Channel.trySend_grows (channel : Channel) (record : LiveEventRecord) :
    channel.Grows (channel.trySend record) := by
  unfold Channel.trySend
  split
  · exact ⟨List.prefix_append _ _, rfl⟩
  · exact .refl channel

omit [Binary64] in
theorem Channel.receive_sent (channel : Channel) : channel.receive.sent = channel.sent := by
  unfold Channel.receive
  split <;> rfl

theorem offer_grows (id : UInt64) (filter : Option Expr) (events : List StoredEvent) (channel : Channel) :
    channel.Grows (offer id filter events channel).1 := by
  induction events generalizing channel with
  | nil => exact .refl channel
  | cons event events hypothesis =>
      rw [offer]
      split
      · split
        · exact (channel.trySend_grows _).trans (hypothesis _)
        · exact .refl channel
      · exact hypothesis channel

/-- Every channel is still there, with records added. -/
theorem foldl_dispatchTo_grows {events : List StoredEvent} {entries : List (UInt64 × ActiveSubscription)}
    {reached : List Channel × List UInt64} {place : Nat} {channel : Channel}
    (present : reached.1[place]? = some channel) :
    ∃ later, (entries.foldl (dispatchTo events) reached).1[place]? = some later ∧ channel.Grows later := by
  induction entries generalizing reached channel with
  | nil => exact ⟨channel, present, .refl channel⟩
  | cons entry entries hypothesis =>
      have stepped : ∃ later, (dispatchTo events reached entry).1[place]? = some later ∧ channel.Grows later := by
        unfold dispatchTo
        cases served : reached.1[entry.2.sender]? with
        | none => exact ⟨channel, present, .refl channel⟩
        | some other =>
            dsimp only
            by_cases same : entry.2.sender = place
            · rw [same, present, Option.some.injEq] at served
              rw [same, List.getElem?_set_self (List.getElem?_eq_some_iff.mp present).1, ← served]
              exact ⟨_, rfl, offer_grows _ _ _ _⟩
            · rw [List.getElem?_set_ne same]
              exact ⟨channel, present, .refl channel⟩
      obtain ⟨middle, found, grows⟩ := stepped
      obtain ⟨later, ends, more⟩ := hypothesis found
      exact ⟨later, ends, grows.trans more⟩

end Channels

section Turns

variable [Crc32fast] [Unicode] [ErrorTexts]

/-- What the turn of a connection does to the hub: it keeps the channels of other subscriptions and what was put on
its own, and a subscription that begins has a channel of its own. -/
structure Touches (shared next : Shared) (before after : Connection) : Prop where
  length : shared.hub.channels.length ≤ next.hub.channels.length
  others : ∀ place < shared.hub.channels.length,
    (∀ listener, before.listener = some listener → listener.place ≠ place) →
      next.hub.channels[place]? = shared.hub.channels[place]?
  records : ∀ (place : Nat) (channel : Channel), shared.hub.channels[place]? = some channel →
    ∃ later : Channel, next.hub.channels[place]? = some later ∧ later.sent = channel.sent
  listener : ∀ listener, after.listener = some listener → before.listener = some listener ∨
    listener.place = shared.hub.channels.length ∧ shared.hub.channels.length < next.hub.channels.length
  subscribers : ∀ entry ∈ next.hub.subscribers, entry ∈ shared.hub.subscribers ∨
    entry.2.sender = shared.hub.channels.length

variable {shared : Shared} {connection : Connection} {input : Input}

omit [Crc32fast] [Unicode] [ErrorTexts] in
/-- A turn that changes no channel and begins no subscription. -/
theorem Touches.keep {next : Shared} {after : Connection} (channels : next.hub.channels = shared.hub.channels)
    (subscribers : next.hub.subscribers ⊆ shared.hub.subscribers)
    (listener : ∀ listener, after.listener = some listener → connection.listener = some listener) :
    Touches shared next connection after where
  length := by rw [channels]
  others place _ _ := by rw [channels]
  records place channel found := ⟨channel, channels ▸ found, rfl⟩
  listener other found := Or.inl (listener other found)
  subscribers entry member := Or.inl (subscribers member)

omit [Crc32fast] [Unicode] [ErrorTexts] in
/-- A turn that changes the channel of its own subscription. -/
theorem Touches.change {next : Shared} {after : Connection} {own : Listener} {act : Channel → Channel}
    (serves : connection.listener = some own) (channels : next.hub.channels = shared.hub.channels.modify own.place act)
    (keeps : ∀ channel, (act channel).sent = channel.sent)
    (subscribers : next.hub.subscribers ⊆ shared.hub.subscribers)
    (listener : ∀ listener, after.listener = some listener → connection.listener = some listener) :
    Touches shared next connection after where
  length := by rw [channels, List.length_modify]
  others place _ apart := by rw [channels, List.getElem?_modify_ne _ _ (apart own serves)]
  records place channel found := by
    rw [channels, List.getElem?_modify, found, Option.map_eq_map, Option.map_some]
    by_cases same : own.place = place
    · exact ⟨act channel, congrArg some (if_pos same), keeps channel⟩
    · exact ⟨channel, congrArg some (if_neg same), rfl⟩
  listener other found := Or.inl (listener other found)
  subscribers entry member := Or.inl (subscribers member)

omit [Crc32fast] [Unicode] [ErrorTexts] in
theorem Touches.drop {after : Connection} (ended : after.listener = none) :
    Touches shared (shared.drop connection.listener) connection after := by
  have nothing : ∀ listener, after.listener = some listener → connection.listener = some listener := by
    rw [ended]
    nofun
  cases serves : connection.listener with
  | none => exact .keep rfl (List.Subset.refl _) (by rw [serves] at nothing; exact serves ▸ nothing)
  | some own => exact .change serves rfl (fun _ => rfl) (List.Subset.refl _) nothing

theorem answer_touches {packet : TnpPacket} (outside : connection.listener = none) :
    Touches shared (shared.answer (connection.take packet) packet).1 connection
      (shared.answer (connection.take packet) packet).2 := by
  have still : ∀ {next : Shared} {after : Connection}, next.hub.channels = shared.hub.channels →
      next.hub.subscribers ⊆ shared.hub.subscribers → after.listener = none → Touches shared next connection after := by
    intro next after channels subscribers ended
    refine .keep channels subscribers ?_
    rw [ended]
    nofun
  have idle : ∀ {after : Connection}, after.listener = none → Touches shared shared connection after :=
    still rfl (List.Subset.refl _)
  have stays : ∀ packets, ((connection.take packet).reply packets).listener = none := fun packets => outside
  unfold Shared.answer
  cases packet.messageType with
  | queryRequest =>
      dsimp only
      cases shared.answerQuery packet with
      | error fault => exact idle rfl
      | ok packets => exact idle (stays packets)
  | subscribeRequest =>
      dsimp only
      unfold Shared.subscribe
      split
      · exact idle rfl
      · split
        · exact idle rfl
        · exact idle (stays _)
        · split
          · exact idle rfl
          · rename_i logical _ _
            have longer : (shared.hub.register (hubFilter (planQuery logical))).2.channels.length =
                shared.hub.channels.length + 1 := List.length_append
            constructor
            · exact longer ▸ Nat.le_succ _
            · exact fun place inside _ => List.getElem?_append_left inside
            · intro place channel found
              have inside := (List.getElem?_eq_some_iff.mp found).1
              exact ⟨channel, (List.getElem?_append_left inside).trans found, rfl⟩
            · intro listener begins
              rw [← Option.some.inj begins]
              exact Or.inr ⟨rfl, longer ▸ Nat.lt_succ_self _⟩
            · intro entry member
              rcases List.mem_append.mp member with old | new
              · exact Or.inl (List.mem_of_mem_filter old)
              · exact Or.inr (List.mem_singleton.mp new ▸ rfl)
  | unsubscribeRequest =>
      dsimp only
      unfold Shared.unsubscribe
      split
      · exact idle rfl
      · exact still rfl (List.filter_subset_self _) (stays _)
  | _ => exact idle (stays _)

omit [Crc32fast] [Unicode] [ErrorTexts] in
theorem listen_touches {listener : Listener} {received : Except TnpError TnpPacket}
    (streaming : connection.stage = .streaming listener) :
    Touches shared (shared.listen connection listener received).1 connection
      (shared.listen connection listener received).2 := by
  have inside : connection.listener = some listener := by
    unfold Connection.listener
    rw [streaming]
    rfl
  have ends : ∀ {next : Shared} {outcome : Parse TnpError Unit} {front : Connection},
      next.hub.channels = shared.hub.channels.modify listener.place Channel.hangUp →
        next.hub.subscribers ⊆ shared.hub.subscribers → Touches shared next connection (front.close outcome) :=
    fun channels subscribers => .change inside channels (fun _ => rfl) subscribers nofun
  have stays : ∀ {after : Connection}, after.stage = connection.stage → Touches shared shared connection after :=
    fun same => .keep rfl (List.Subset.refl _) fun _ parts => (congrArg Stage.listener same).symm.trans parts
  unfold Shared.listen
  split
  · rename_i packet
    unfold Shared.control
    split
    · split
      · exact ends rfl (List.Subset.refl _)
      · refine .keep rfl (List.filter_subset_self _) fun other parts => ?_
        rw [inside]
        exact parts
    · exact stays rfl
    · exact stays rfl
  · exact stays rfl
  · exact ends rfl (List.filter_subset_self _)
  · exact ends rfl (List.filter_subset_self _)

/-- Every turn of a connection keeps the channels of the others. -/
theorem work_touches (shared : Shared) (connection : Connection) (input : Input) :
    Touches shared (shared.work connection input).1 connection (shared.work connection input).2 := by
  have still : ∀ {after : Connection},
      (∀ listener, after.listener = some listener → connection.listener = some listener) →
        Touches shared shared connection after := .keep rfl (List.Subset.refl _)
  cases waits : connection.outbox with
  | cons packet rest =>
      cases outcome : Shared.send packet input.fails with
      | ok _ =>
          rw [work_sends waits outcome]
          exact still fun _ parts => parts
      | error error =>
          rw [work_fails waits outcome]
          exact .drop rfl
  | nil =>
      unfold Shared.work
      rw [waits]
      dsimp only
      unfold Shared.proceed
      cases stage : connection.stage with
      | serving =>
          dsimp only
          have outside : connection.listener = none := by
            unfold Connection.listener
            rw [stage]
            rfl
          unfold Shared.serve
          split
          · exact answer_touches outside
          · exact still nofun
          · exact still nofun
          · exact still fun _ parts => parts
          · exact still nofun
      | replaying listener =>
          dsimp only
          have inside : connection.listener = some listener := by
            unfold Connection.listener
            rw [stage]
            rfl
          unfold Shared.replay
          split
          · exact .change inside rfl (fun _ => rfl) (List.Subset.refl _) nofun
          · refine still fun other parts => ?_
            rw [inside]
            exact parts
      | streaming listener =>
          dsimp only
          have inside : connection.listener = some listener := by
            unfold Connection.listener
            rw [stage]
            rfl
          unfold Shared.stream
          cases shared.pending listener with
          | some record => exact .change inside rfl Channel.receive_sent (List.Subset.refl _) fun _ parts => parts
          | none => exact listen_touches stage
      | parting listener =>
          have inside : connection.listener = some listener := by
            unfold Connection.listener
            rw [stage]
            rfl
          exact .change inside rfl (fun _ => rfl) (List.Subset.refl _) nofun
      | greeting =>
          dsimp only
          refine still ?_
          unfold Shared.greet
          split
          · nofun
          · split
            · nofun
            · split
              · nofun
              · split <;> nofun
      | closed outcome => exact still fun _ parts => parts
      | _ => exact still nofun

end Turns

namespace Host

variable [Crc32fast] [Unicode] [ErrorTexts] {host : Host} {place : Nat}

/-- Every subscription has a channel. -/
def Bound (host : Host) : Prop :=
  ∀ (place : Nat) (connection : Connection) (listener : Listener), host.connections[place]? = some connection →
    connection.listener = some listener → listener.place < host.shared.hub.channels.length

/-- No other connection has the channel. -/
def Alone (place sender : Nat) (host : Host) : Prop :=
  ∀ (other : Nat) (connection : Connection) (listener : Listener), other ≠ place →
    host.connections[other]? = some connection → connection.listener = some listener → listener.place ≠ sender

omit [Crc32fast] [Unicode] [ErrorTexts] in
theorem dispatchEvents_length (hub : SubscriptionHub) (events : List StoredEvent) :
    (hub.dispatchEvents events).channels.length = hub.channels.length :=
  foldl_dispatchTo_length events hub.subscribers (hub.channels, [])

theorem step_length (host : Host) (turn : Turn) :
    host.shared.hub.channels.length ≤ (host.step turn).shared.hub.channels.length := by
  cases turn with
  | accept => exact le_refl _
  | work place input =>
      cases present : host.connections[place]? with
      | none =>
          rw [work_absent present]
      | some connection =>
          rw [work_shared present]
          exact (work_touches host.shared connection input).length
  | commit store disk events => exact (dispatchEvents_length host.shared.hub events).ge
  | poison => exact le_refl _

/-- A subscription was there before, or it begins on a new channel. -/
theorem step_listener {turn : Turn} {after : Connection} {listener : Listener}
    (present : (host.step turn).connections[place]? = some after) (serves : after.listener = some listener) :
    (∃ before, host.connections[place]? = some before ∧ before.listener = some listener) ∨
      listener.place = host.shared.hub.channels.length ∧
        host.shared.hub.channels.length < (host.step turn).shared.hub.channels.length ∧
        ∃ input, turn = .work place input := by
  cases turn with
  | accept =>
      left
      change (host.connections ++ [Connection.accepted])[place]? = _ at present
      by_cases inside : place < host.connections.length
      · rw [List.getElem?_append_left inside] at present
        exact ⟨after, present, serves⟩
      · rw [List.getElem?_append_right (Nat.not_lt.mp inside)] at present
        obtain rfl := List.mem_singleton.mp (List.mem_of_getElem? present)
        contradiction
  | work mover input =>
      by_cases same : place = mover
      · subst same
        cases found : host.connections[place]? with
        | none =>
            rw [work_absent found, found] at present
            contradiction
        | some before =>
            rw [step_work found, Option.some.injEq] at present
            subst present
            rcases (work_touches host.shared before input).listener listener serves with old | ⟨new, more⟩
            · exact Or.inl ⟨before, rfl, old⟩
            · right
              rw [work_shared found]
              exact ⟨new, more, input, rfl⟩
      · rw [work_other same] at present
        exact Or.inl ⟨after, present, serves⟩
  | commit store disk events => exact Or.inl ⟨after, present, serves⟩
  | poison => exact Or.inl ⟨after, present, serves⟩

theorem Bound.step (bound : host.Bound) (turn : Turn) : (host.step turn).Bound := by
  intro place connection listener present serves
  rcases step_listener present serves with ⟨before, found, served⟩ | ⟨new, more, -⟩
  · exact lt_of_lt_of_le (bound place before listener found served) (step_length host turn)
  · rw [new]
    exact more

theorem start_run_bound (serverId : Text) (store : Store) (disk : Disk) (turns : List Turn) :
    ((start serverId store disk).run turns).Bound := by
  refine List.foldlRecOn turns Host.step (motive := Bound) ?_ fun _ bound turn _ => bound.step turn
  exact fun _ _ _ present => nomatch present

/-- A subscription that begins gets another channel. -/
theorem Alone.step {sender : Nat} (alone : host.Alone place sender) (inside : sender < host.shared.hub.channels.length)
    (turn : Turn) : (host.step turn).Alone place sender := by
  intro other connection listener apart present serves
  rcases step_listener present serves with ⟨before, found, served⟩ | ⟨new, -⟩
  · exact alone other before listener apart found served
  · omega

/-- The turns of others add records to the channel of a connection, and nothing else. -/
theorem step_grows {turn : Turn} {sender : Nat} {channel : Channel} (alone : host.Alone place sender)
    (others : ∀ input, turn ≠ .work place input) (found : host.shared.hub.channels[sender]? = some channel) :
    ∃ later, (host.step turn).shared.hub.channels[sender]? = some later ∧ channel.Grows later := by
  cases turn with
  | accept => exact ⟨channel, found, .refl channel⟩
  | work mover input =>
      cases moves : host.connections[mover]? with
      | none =>
          rw [work_absent moves]
          exact ⟨channel, found, .refl channel⟩
      | some other =>
          have touches := work_touches host.shared other input
          have apart : mover ≠ place := fun same => others input (same ▸ rfl)
          refine ⟨channel, ?_, .refl channel⟩
          rw [work_shared moves, touches.others sender (List.getElem?_eq_some_iff.mp found).1]
          · exact found
          · exact fun listener serves => alone mover other listener apart moves serves
  | commit store disk events => exact foldl_dispatchTo_grows found
  | poison => exact ⟨channel, found, .refl channel⟩

end Host

section Feeding

variable {hub : SubscriptionHub} {id : UInt64} {filter : Option Expr} {place : Nat} {records : List LiveEventRecord}

/-- What a channel takes of the events that are offered to it keeps their order. -/
theorem offer_takes (id : UInt64) (filter : Option Expr) (events : List StoredEvent) (channel : Channel) :
    ∃ more, more.Sublist (liveRecords id filter events) ∧
      (offer id filter events channel).1.sent = channel.sent ++ more := by
  cases opened : channel.connected with
  | true =>
      rw [offer_open opened]
      exact ⟨_, List.take_sublist _ _, rfl⟩
  | false =>
      refine ⟨[], List.nil_sublist _, ?_⟩
      rw [List.append_nil]
      induction events with
      | nil => rfl
      | cons event events hypothesis =>
          rw [offer, opened]
          split
          · rfl
          · exact hypothesis

variable [Crc32fast]

omit [Crc32fast] in
/-- A dispatch puts records of its matching events on the channel, in their order. -/
theorem Queues.dispatch (queues : Queues hub id filter place records) (events : List StoredEvent) :
    ∃ more, more.Sublist (liveRecords id filter events) ∧
      Queues (hub.dispatchEvents events) id filter place (records ++ more) := by
  obtain ⟨channel, present, sent⟩ := queues.channel
  have owned : ∀ entry ∈ (hub.dispatchEvents events).subscribers, entry.2.sender = place →
      entry = (id, ⟨filter, place⟩) := fun entry member => queues.owned entry (List.mem_of_mem_filter member)
  by_cases listed : (id, ⟨filter, place⟩) ∈ hub.subscribers
  · obtain ⟨more, part, taken⟩ := offer_takes id filter events channel
    have after := (@foldl_dispatchTo_entry _ events _ (hub.channels, []) (id, ⟨filter, place⟩) channel listed
      hub.numbers hub.senders present List.not_mem_nil).1
    exact ⟨more, part, ⟨_, after, sent ▸ taken⟩, owned⟩
  · refine ⟨[], List.nil_sublist _, ⟨channel, ?_, (List.append_nil records).symm ▸ sent⟩, owned⟩
    refine (@foldl_dispatchTo_other _ events hub.subscribers (hub.channels, []) place ?_).trans present
    intro entry member same
    exact listed (queues.owned entry member same ▸ member)

/-- The events that a turn dispatches. -/
def Turn.dispatched : Turn → List StoredEvent
  | .commit _ _ events => events
  | _ => []

variable [Unicode] [ErrorTexts] {host : Host}

/-- Every turn puts records of the events that it dispatches on the channel, and nothing else. -/
theorem Queues.turn (queues : Queues host.shared.hub id filter place records) (turn : Turn) :
    ∃ more, more.Sublist (liveRecords id filter turn.dispatched) ∧
      Queues (host.step turn).shared.hub id filter place (records ++ more) := by
  have same : Queues host.shared.hub id filter place (records ++ []) := by rwa [List.append_nil]
  cases turn with
  | accept => exact ⟨[], List.nil_sublist _, same⟩
  | work mover input =>
      refine ⟨[], List.nil_sublist _, ?_⟩
      cases present : host.connections[mover]? with
      | none => rwa [Host.work_absent present]
      | some connection =>
          have touches := work_touches host.shared connection input
          rw [Host.work_shared present, List.append_nil]
          obtain ⟨channel, found, sent⟩ := queues.channel
          obtain ⟨later, stays, keeps⟩ := touches.records place channel found
          refine ⟨⟨later, stays, keeps.trans sent⟩, fun entry member sender => ?_⟩
          rcases touches.subscribers entry member with old | new
          · exact queues.owned entry old sender
          · exact absurd queues.bound (by rw [← sender, new]; exact lt_irrefl _)
  | commit store disk events => exact queues.dispatch events
  | poison => exact ⟨[], List.nil_sublist _, same⟩

/-- The records of a channel are records of the events that were dispatched since, in their order. -/
theorem Queues.turns (queues : Queues host.shared.hub id filter place records) (turns : List Turn) :
    ∃ more, more.Sublist (liveRecords id filter (turns.flatMap Turn.dispatched)) ∧
      Queues (host.run turns).shared.hub id filter place (records ++ more) := by
  induction turns generalizing host records with
  | nil => exact ⟨[], List.nil_sublist _, by rwa [List.append_nil]⟩
  | cons turn turns hypothesis =>
      obtain ⟨first, now, next⟩ := queues.turn turn
      obtain ⟨second, later, reached⟩ := hypothesis next
      refine ⟨first ++ second, ?_, List.append_assoc _ _ _ ▸ reached⟩
      rw [List.flatMap_cons, liveRecords_append]
      exact now.append later

end Feeding

section Progress

/-- The packet of one record. -/
def eventPacket (streamId : UInt32) (record : LiveEventRecord) : TnpPacket :=
  TnpPacket.new .liveEvent streamId record.encode

/-- A subscription sends its response, then the records of the past and then those of its channel. -/
def subscriptionPackets (response : TnpPacket) (streamId : UInt32) (records : List LiveEventRecord) : List TnpPacket :=
  response :: records.map (eventPacket streamId)

/-- How far a subscription has come: what it has sent, and what it is about to send. -/
inductive Progress (response : TnpPacket) (listener : Listener) (past : List LiveEventRecord → Prop)
    (channel : Channel) : Stage → List TnpPacket → List TnpPacket → Prop
  | replaying (sent outbox : List TnpPacket) (fresh : channel.received = 0)
      (whole : sent ++ outbox = subscriptionPackets response listener.streamId []) :
      Progress response listener past channel (.replaying listener) sent outbox
  | streaming (records : List LiveEventRecord) (sent outbox : List TnpPacket) (replayed : past records)
      (whole : sent ++ outbox =
        subscriptionPackets response listener.streamId (records ++ channel.sent.take channel.received)) :
      Progress response listener past channel (.streaming listener) sent outbox
  | failed (outcome : Parse TnpError Unit) (sent : List TnpPacket)
      (part : sent <+: subscriptionPackets response listener.streamId []) :
      Progress response listener past channel (.closed outcome) sent []
  | closed (outcome : Parse TnpError Unit) (records : List LiveEventRecord) (sent : List TnpPacket)
      (replayed : past records)
      (part : sent <+: subscriptionPackets response listener.streamId (records ++ channel.sent)) :
      Progress response listener past channel (.closed outcome) sent []

variable {response : TnpPacket} {listener : Listener} {past : List LiveEventRecord → Prop} {channel later : Channel}
  {stage : Stage} {sent outbox : List TnpPacket}

omit [Binary64] in
theorem Channel.Grows.take (grows : channel.Grows later) :
    later.sent.take later.received = channel.sent.take channel.received := by
  obtain ⟨more, split⟩ := grows.sent
  rw [grows.received, ← split, List.take_append_of_le_length channel.behind]

omit [Binary64] in
theorem subscriptionPackets_mono {streamId : UInt32} {first second : List LiveEventRecord} (part : first <+: second) :
    subscriptionPackets response streamId first <+: subscriptionPackets response streamId second :=
  List.cons_prefix_cons.mpr ⟨rfl, part.map _⟩

omit [Binary64] in
theorem subscriptionPackets_append (streamId : UInt32) (records : List LiveEventRecord) (record : LiveEventRecord) :
    subscriptionPackets response streamId (records ++ [record]) =
      subscriptionPackets response streamId records ++ [eventPacket streamId record] := by
  unfold subscriptionPackets
  rw [List.map_append]
  rfl

/-- Further records on the channel do not change what was sent. -/
theorem Progress.grow (progress : Progress response listener past channel stage sent outbox)
    (grows : channel.Grows later) : Progress response listener past later stage sent outbox := by
  cases progress with
  | replaying _ _ fresh whole => exact .replaying sent outbox (grows.received.trans fresh) whole
  | streaming records _ _ replayed whole =>
      rw [← grows.take] at whole
      exact .streaming records sent outbox replayed whole
  | failed outcome _ part => exact .failed outcome sent part
  | closed outcome records _ replayed part =>
      refine .closed outcome records sent replayed (part.trans (subscriptionPackets_mono ?_))
      exact (List.prefix_append_right_inj records).mpr grows.sent

/-- A connection may end at any time. -/
theorem Progress.ended (progress : Progress response listener past channel stage sent outbox)
    (same : later.sent = channel.sent) (outcome : Parse TnpError Unit) :
    Progress response listener past later (.closed outcome) sent [] := by
  cases progress with
  | replaying _ _ fresh whole =>
      have part : sent <+: sent ++ outbox := List.prefix_append sent outbox
      rw [whole] at part
      exact .failed outcome sent part
  | streaming records _ _ replayed whole =>
      refine .closed outcome records sent replayed ((List.prefix_append sent outbox).trans ?_)
      rw [whole, same]
      exact subscriptionPackets_mono ((List.prefix_append_right_inj records).mpr (List.take_prefix _ _))
  | failed _ _ part => exact .failed outcome sent part
  | closed _ records _ replayed part =>
      rw [← same] at part
      exact .closed outcome records sent replayed part

/-- The first packet of the outbox is sent. -/
theorem Progress.send {packet : TnpPacket} {rest : List TnpPacket}
    (progress : Progress response listener past channel stage sent (packet :: rest)) :
    Progress response listener past channel stage (sent ++ [packet]) rest := by
  cases progress with
  | replaying _ _ fresh whole => exact .replaying _ rest fresh (by rwa [List.append_assoc])
  | streaming records _ _ replayed whole => exact .streaming records _ rest replayed (by rwa [List.append_assoc])

/-- What a subscription has sent, and when that is everything. -/
theorem Progress.sends (progress : Progress response listener past channel stage sent outbox)
    {early : List LiveEventRecord} (possible : past early) : ∃ records, past records ∧
      sent <+: subscriptionPackets response listener.streamId (records ++ channel.sent) ∧
      (stage = .streaming listener → outbox = [] → channel.received = channel.sent.length →
        sent = subscriptionPackets response listener.streamId (records ++ channel.sent)) := by
  have unborn : ∀ {records}, sent <+: subscriptionPackets response listener.streamId [] →
      sent <+: subscriptionPackets response listener.streamId (records ++ channel.sent) :=
    fun part => part.trans (subscriptionPackets_mono List.nil_prefix)
  cases progress with
  | replaying _ _ fresh whole =>
      have part : sent <+: sent ++ outbox := List.prefix_append sent outbox
      rw [whole] at part
      exact ⟨early, possible, unborn part, nofun⟩
  | streaming records _ _ replayed whole =>
      have part : sent <+: sent ++ outbox := List.prefix_append sent outbox
      rw [whole] at part
      refine ⟨records, replayed, part.trans (subscriptionPackets_mono ?_), fun _ empty drained => ?_⟩
      · exact (List.prefix_append_right_inj records).mpr (List.take_prefix _ _)
      · rwa [empty, List.append_nil, drained, List.take_length] at whole
  | failed outcome _ part => exact ⟨early, possible, unborn part, nofun⟩
  | closed outcome records _ replayed part => exact ⟨records, replayed, part, nofun⟩

end Progress

section Streams

/-- The subscription that a request asks for. -/
def Shared.listenerFor (shared : Shared) (streamId : UInt32) (request : SubscribeRequest) (logical : LogicalPlan) :
    Listener where
  id := shared.hub.nextId
  place := shared.hub.channels.length
  streamId := streamId
  plan := planQuery logical
  start := (snapshotWindow request shared.store.nextSequence).1
  stop := (snapshotWindow request shared.store.nextSequence).2

/-- The packet that announces a subscription. -/
def Listener.response (listener : Listener) : TnpPacket :=
  TnpPacket.new .subscribeResponse listener.streamId (SubscribeResponse.encode
    ⟨listener.id, true, UInt64.ofNat listener.start, UInt64.ofNat listener.stop, Shared.subscribedText listener.id⟩)

/-- The records of the past that a replay would send now. -/
def Host.snapshot [Crc32fast] (host : Host) (listener : Listener) : List LiveEventRecord :=
  snapshotRecords host.shared.store host.shared.disk listener.plan listener.id listener.start listener.stop

variable [Crc32fast] [Unicode] [ErrorTexts]

/-- The subscription that a connection got for a request, and how far it has come. -/
structure Streams (place : Nat) (older : List Exchange) (request response : TnpPacket) (listener : Listener)
    (past : List LiveEventRecord → Prop) (host : Host) (connection : Connection) (channel : Channel)
    (sent : List TnpPacket) : Prop where
  present : host.connections[place]? = some connection
  found : host.shared.hub.channels[listener.place]? = some channel
  transcript : connection.transcript = ⟨request, sent⟩ :: older
  progress : Progress response listener past channel connection.stage sent connection.outbox
  alone : host.Alone place listener.place
  sizes : ∀ packet ∈ sent, packet.payload.length ≤ maxPacketLen

/-- The connection receives no packet in its turns. -/
def Silent (place : Nat) (turn : Turn) : Prop :=
  ∀ input, turn = .work place input → ∀ packet, input.received ≠ .ok packet

variable {place : Nat} {older : List Exchange} {request response : TnpPacket} {listener : Listener}
  {past : List LiveEventRecord → Prop} {host : Host} {connection : Connection} {channel : Channel}
  {sent : List TnpPacket}

/-- The turns of others leave the subscription as it is. -/
theorem Streams.other {turn : Turn}
    (streams : Streams place older request response listener past host connection channel sent)
    (others : ∀ input, turn ≠ .work place input) :
    ∃ later, Streams place older request response listener past (host.step turn) connection later sent := by
  obtain ⟨later, found, grows⟩ := Host.step_grows streams.alone others streams.found
  exact ⟨later, Host.step_apart streams.present others, found, streams.transcript, streams.progress.grow grows,
    streams.alone.step (List.getElem?_eq_some_iff.mp streams.found).1 turn, streams.sizes⟩

/-- A turn of the connection itself, by what it does to the connection and to its channel. -/
theorem Streams.own {input : Input} {after : Connection} {later : Channel} {more : List TnpPacket}
    (streams : Streams place older request response listener past host connection channel sent)
    (reached : (host.shared.work connection input).2 = after)
    (found : (host.shared.work connection input).1.hub.channels[listener.place]? = some later)
    (transcript : after.transcript = ⟨request, more⟩ :: older)
    (progress : Progress response listener past later after.stage more after.outbox)
    (sizes : ∀ packet ∈ more, packet.payload.length ≤ maxPacketLen) :
    Streams place older request response listener past (host.step (.work place input)) after later more where
  present := by rw [Host.step_work streams.present, reached]
  found := by rw [Host.work_shared streams.present, found]
  transcript := transcript
  progress := progress
  alone := streams.alone.step (List.getElem?_eq_some_iff.mp streams.found).1 _
  sizes := sizes

omit [Crc32fast] [Unicode] [ErrorTexts] in
theorem change_found {hub : SubscriptionHub} {sender : Nat} (act : Channel → Channel)
    (found : hub.channels[sender]? = some channel) :
    (hub.change sender act).channels[sender]? = some (act channel) := by
  change (hub.channels.modify sender act)[sender]? = _
  rw [List.getElem?_modify_eq, found]
  rfl

/-- A turn that does nothing. -/
theorem Streams.stay {input : Input}
    (streams : Streams place older request response listener past host connection channel sent)
    (worked : host.shared.work connection input = (host.shared, connection)) :
    Streams place older request response listener past (host.step (.work place input)) connection channel sent := by
  refine streams.own ?_ ?_ streams.transcript streams.progress streams.sizes
  · rw [worked]
  · rw [worked]
    exact streams.found

/-- A connection that ends keeps the packets that were sent. -/
theorem Streams.ended {input : Input} {next : Shared} {outcome : Parse TnpError Unit}
    (streams : Streams place older request response listener past host connection channel sent)
    (worked : host.shared.work connection input = (next, connection.close outcome))
    (hub : next.hub.channels[listener.place]? = some channel.hangUp) :
    Streams place older request response listener past (host.step (.work place input)) (connection.close outcome)
      channel.hangUp sent := by
  have same : channel.hangUp.sent = channel.sent := rfl
  refine streams.own ?_ ?_ streams.transcript (streams.progress.ended same outcome) streams.sizes
  · rw [worked]
  · rw [worked]
    exact hub

omit [Crc32fast] [Unicode] [ErrorTexts] in
theorem Progress.listens {stage : Stage} {packet : TnpPacket} {outbox : List TnpPacket}
    (progress : Progress response listener past channel stage sent (packet :: outbox)) :
    stage.listener = some listener := by
  cases progress <;> rfl

omit [Crc32fast] [Unicode] [ErrorTexts] in
theorem listen_ends (shared : Shared) (connection : Connection) (listener : Listener) {error : TnpError}
    (late : error ≠ .timedOut) : ∃ outcome, shared.listen connection listener (.error error) =
      ((shared.unregister listener.id).drop (some listener), connection.close outcome) := by
  cases error with
  | timedOut => exact absurd rfl late
  | _ => exact ⟨_, rfl⟩

omit [Binary64] [Unicode] [ErrorTexts] in
theorem send_size {packet : TnpPacket} {fails : Option Text} (sends : Shared.send packet fails = .ok ()) :
    packet.payload.length ≤ maxPacketLen := by
  unfold Shared.send TnpPacket.encode at sends
  by_cases long : maxPacketLen < packet.payload.length
  · rw [if_pos long] at sends
    contradiction
  · exact Nat.not_lt.mp long

/-- A silent turn of the connection goes on with the subscription. -/
theorem Streams.work {input : Input}
    (streams : Streams place older request response listener past host connection channel sent)
    (silent : ∀ packet, input.received ≠ .ok packet)
    (replays : past (host.snapshot listener)) :
    ∃ after later more,
      Streams place older request response listener past (host.step (.work place input)) after later more := by
  have found := streams.found
  have progress := streams.progress
  cases waits : connection.outbox with
  | cons packet rest =>
      rw [waits] at progress
      cases outcome : Shared.send packet input.fails with
      | ok _ =>
          have worked : host.shared.work connection input = _ := work_sends waits outcome
          refine ⟨_, channel, sent ++ [packet], streams.own (by rw [worked]) (by rw [worked]; exact found) ?_ ?_ ?_⟩
          · unfold Connection.sent
            rw [streams.transcript]
          · exact progress.send
          · intro other member
            rcases List.mem_append.mp member with before | now
            · exact streams.sizes other before
            · exact List.mem_singleton.mp now ▸ send_size outcome
      | error error =>
          refine ⟨_, _, sent, streams.ended (work_fails waits outcome) ?_⟩
          have serves : connection.listener = some listener := progress.listens
          rw [serves]
          exact change_found Channel.hangUp found
  | nil =>
      rw [waits] at progress
      have proceeds : host.shared.work connection input = host.shared.proceed connection input.received := by
        unfold Shared.work
        rw [waits]
      generalize standing : connection.stage = stage at progress
      unfold Shared.proceed at proceeds
      rw [standing] at proceeds
      cases progress with
      | replaying _ _ fresh whole =>
          unfold Shared.replay at proceeds
          dsimp only at proceeds
          split at proceeds
          · exact ⟨_, _, sent, streams.ended proceeds (change_found Channel.hangUp found)⟩
          · refine ⟨_, channel, sent, streams.own rfl (by rw [proceeds]; exact found) ?_ ?_ streams.sizes⟩
            · rw [proceeds]
              exact streams.transcript
            · rw [proceeds]
              refine .streaming _ sent _ replays ?_
              rw [fresh, List.take_zero, List.append_nil]
              rw [List.append_nil] at whole
              rw [whole]
              rfl
      | streaming records _ _ replayed whole =>
          unfold Shared.stream at proceeds
          dsimp only at proceeds
          cases pending : host.shared.pending listener with
          | some record =>
              rw [pending] at proceeds
              have waiting : channel.sent[channel.received]? = some record := by
                unfold Shared.pending at pending
                rwa [found] at pending
              have inside := (List.getElem?_eq_some_iff.mp waiting).1
              refine ⟨_, channel.receive, sent, streams.own rfl ?_ ?_ ?_ streams.sizes⟩
              · rw [proceeds]
                exact change_found Channel.receive found
              · rw [proceeds]
                exact streams.transcript
              · rw [proceeds]
                have reply : (connection.reply [TnpPacket.new .liveEvent listener.streamId record.encode]).stage =
                    .streaming listener := standing
                rw [reply]
                refine .streaming records sent _ replayed ?_
                have taken : channel.receive.sent.take channel.receive.received =
                    channel.sent.take channel.received ++ [record] := by
                  unfold Channel.receive
                  rw [dif_pos inside, List.take_add_one, waiting]
                  rfl
                rw [List.append_nil] at whole
                rw [taken, ← List.append_assoc, subscriptionPackets_append, whole]
                rfl
          | none =>
              rw [pending] at proceeds
              dsimp only at proceeds
              have gone : (host.shared.unregister listener.id).hub.channels[listener.place]? = some channel := found
              cases received : input.received with
              | ok packet => exact absurd received (silent packet)
              | error error =>
                  rw [received] at proceeds
                  by_cases late : error = .timedOut
                  · subst late
                    exact ⟨connection, channel, sent, streams.stay proceeds⟩
                  · obtain ⟨outcome, ends⟩ := listen_ends host.shared connection listener late
                    exact ⟨_, _, sent, streams.ended (proceeds.trans ends) (change_found Channel.hangUp gone)⟩
      | failed outcome _ part => exact ⟨connection, channel, sent, streams.stay proceeds⟩
      | closed outcome records _ replayed part => exact ⟨connection, channel, sent, streams.stay proceeds⟩

/-- A run in which the client is silent goes on with the subscription. -/
theorem Streams.run (streams : Streams place older request response listener past host connection channel sent)
    (turns : List Turn) (silent : ∀ turn ∈ turns, Silent place turn)
    (replays : ∀ earlier, earlier <+: turns → past ((host.run earlier).snapshot listener)) :
    ∃ after later more, Streams place older request response listener past (host.run turns) after later more := by
  induction turns generalizing host connection channel sent with
  | nil => exact ⟨connection, channel, sent, streams⟩
  | cons turn turns hypothesis =>
      have rest : ∀ earlier, earlier <+: turns → past (((host.step turn).run earlier).snapshot listener) :=
        fun earlier part => replays (turn :: earlier) (List.cons_prefix_cons.mpr ⟨rfl, part⟩)
      have still : ∀ turn ∈ turns, Silent place turn := fun other member => silent other (List.mem_cons_of_mem _ member)
      by_cases own : ∃ input, turn = .work place input
      · obtain ⟨input, rfl⟩ := own
        obtain ⟨after, later, more, next⟩ := streams.work (silent _ List.mem_cons_self input rfl)
          (replays [] (List.nil_prefix))
        exact hypothesis next still rest
      · obtain ⟨later, next⟩ := streams.other fun input same => own ⟨input, same⟩
        exact hypothesis next still rest

/-- A request that is heard begins a subscription. -/
theorem subscribe_streams (past : List LiveEventRecord → Prop) {input : Input} {packet : TnpPacket}
    {request : SubscribeRequest} {logical : LogicalPlan}
    (bound : host.Bound) (present : host.connections[place]? = some connection) (serving : connection.stage = .serving)
    (idle : connection.outbox = []) (heard : input.received = .ok packet)
    (kind : packet.messageType = .subscribeRequest) (decoded : SubscribeRequest.decode packet.payload = .ok request)
    (parsed : parseQuery request.format request.queryStr = .ok logical) (sound : host.shared.poisoned = false) :
    (∃ after, Streams place connection.transcript packet
        (host.shared.listenerFor packet.streamId request logical).response
        (host.shared.listenerFor packet.streamId request logical) past
        (host.step (.work place input)) after Channel.new []) ∧
      Queues (host.step (.work place input)).shared.hub host.shared.hub.nextId (hubFilter (planQuery logical))
        host.shared.hub.channels.length [] := by
  have worked : host.shared.work connection input =
      ({ host.shared with hub := (host.shared.hub.register (hubFilter (planQuery logical))).2 },
        ⟨.replaying (host.shared.listenerFor packet.streamId request logical),
          [(host.shared.listenerFor packet.streamId request logical).response],
          ⟨packet, []⟩ :: connection.transcript⟩) := by
    unfold Shared.work Shared.proceed
    rw [idle, serving, heard]
    unfold Shared.serve Shared.answer Shared.subscribe
    dsimp only
    rw [kind]
    dsimp only
    rw [decoded]
    dsimp only
    rw [parsed]
    dsimp only
    rw [sound]
    rfl
  have shared : (host.step (.work place input)).shared = _ := Host.work_shared present
  rw [worked] at shared
  constructor
  · refine ⟨_, Host.step_work present input, ?_, ?_, ?_, ?_, nofun⟩
    · rw [shared]
      exact SubscriptionHub.register_channel _ _
    · rw [worked]
    · rw [worked]
      exact .replaying [] _ rfl rfl
    · intro other found listener apart reached serves
      rw [Host.work_other apart] at reached
      exact (bound other found listener reached serves).ne
  · rw [shared]
    exact Queues.register _ _

/-- What a connection has sent for a subscription is the response, then the records of one snapshot and then those of
its channel, which are records of events that were dispatched after the subscription began: in their order, none of
them twice. With nothing left to send or to receive it has sent them all. -/
theorem subscription_sends {serverId : Text} {store : Store} {disk : Disk} {before after : List Turn}
    {input : Input} {packet : TnpPacket} {request : SubscribeRequest} {logical : LogicalPlan}
    (reachable : (Host.start serverId store disk).run before = host)
    (present : host.connections[place]? = some connection) (serving : connection.stage = .serving)
    (idle : connection.outbox = []) (heard : input.received = .ok packet)
    (kind : packet.messageType = .subscribeRequest) (decoded : SubscribeRequest.decode packet.payload = .ok request)
    (parsed : parseQuery request.format request.queryStr = .ok logical) (sound : host.shared.poisoned = false)
    (fresh : listener = host.shared.listenerFor packet.streamId request logical)
    (silent : ∀ turn ∈ after, Silent place turn) :
    ∃ reached channel sent earlier,
      ((host.step (.work place input)).run after).connections[place]? = some reached ∧
      ((host.step (.work place input)).run after).shared.hub.channels[listener.place]? = some channel ∧
      reached.transcript = ⟨packet, sent⟩ :: connection.transcript ∧
      earlier <+: after ∧ (∀ packet ∈ sent, packet.payload.length ≤ maxPacketLen) ∧
      channel.sent.Sublist (liveRecords listener.id (hubFilter listener.plan) (after.flatMap Turn.dispatched)) ∧
      sent <+: subscriptionPackets listener.response packet.streamId
        (((host.step (.work place input)).run earlier).snapshot listener ++ channel.sent) ∧
      (reached.stage = .streaming listener → reached.outbox = [] → channel.received = channel.sent.length →
        sent = subscriptionPackets listener.response packet.streamId
          (((host.step (.work place input)).run earlier).snapshot listener ++ channel.sent)) := by
  subst fresh
  have bound : host.Bound := reachable ▸ Host.start_run_bound serverId store disk before
  obtain ⟨⟨begun, streams⟩, queues⟩ := subscribe_streams (fun records => ∃ earlier, earlier <+: after ∧
      records = ((host.step (.work place input)).run earlier).snapshot
        (host.shared.listenerFor packet.streamId request logical))
    bound present serving idle heard kind decoded parsed sound
  obtain ⟨reached, channel, sent, ends⟩ := streams.run after silent fun earlier part => ⟨earlier, part, rfl⟩
  obtain ⟨records, part, ⟨other, found, taken⟩, _⟩ := queues.turns after
  obtain rfl : channel = other := Option.some.inj (ends.found.symm.trans found)
  obtain ⟨_, ⟨earlier, within, rfl⟩, sends, whole⟩ := ends.progress.sends ⟨[], List.nil_prefix, rfl⟩
  exact ⟨reached, channel, sent, earlier, ends.present, ends.found, ends.transcript, within, ends.sizes, taken ▸ part,
    sends, whole⟩

/-- A new server that has greeted one client. -/
def helloHost : Host := ⟨newHost.shared, [⟨.serving, [], greeted⟩]⟩

theorem run_hello : newHost.run [.accept, receives hello, sends] = helloHost := rfl

end Streams

end Temnion.Protocol
