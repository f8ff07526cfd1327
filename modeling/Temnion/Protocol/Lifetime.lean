import Temnion.Protocol.Connection

/-
This file says when the subscriptions of a server live exactly as long as the connections that serve them.
-/

namespace Temnion.Protocol

open Query Storage Format LittleEndian Slices

variable [Binary64]

/-- The numbers that are given out. -/
def SubscriptionHub.ids (hub : SubscriptionHub) : List UInt64 := hub.subscribers.map Prod.fst

/-- The condition on one turn of a connection, when the other connections hold some numbers. In the branch of a
subscription every packet is sent, and an unsubscription names the own number. -/
def Orderly (held : UInt64 → Prop) (shared : Shared) (connection : Connection) (input : Input) : Prop :=
  match connection.outbox with
  | packet :: _ =>
      match connection.stage with
      | .replaying _ | .streaming _ => input.fails = none ∧ packet.payload.length ≤ maxPacketLen
      | _ => True
  | [] =>
      match connection.stage, input.received with
      | .serving, .ok packet =>
          match packet.messageType with
          | .subscribeRequest => ¬ held shared.hub.nextId
          | .unsubscribeRequest => ∀ request, UnsubscribeRequest.decode packet.payload = .ok request →
              ¬ held request.subscriptionId
          | _ => True
      | .replaying listener, _ => listener.start < listener.stop → shared.poisoned = false
      | .streaming listener, .ok packet => shared.pending listener = none →
          packet.messageType = .unsubscribeRequest →
            UnsubscribeRequest.decode packet.payload = .ok ⟨listener.id⟩
      | _, _ => True

/-- What one turn does to the subscribers: nothing, a connection enters the branch with a fresh number, a number that no
other connection holds is freed, the connection gives up its own number within the branch or while it leaves, or it
leaves after that. -/
inductive Effect (held : UInt64 → Prop) (shared : Shared) (connection : Connection) (next : Shared)
    (after : Connection) : Prop where
  | still (subscribers : next.hub.subscribers = shared.hub.subscribers) (same : after.listener = connection.listener)
      (parts : ∀ listener, after.stage = .parting listener → connection.stage = .parting listener)
  | enter (filter : Option Expr) (listener : Listener) (outside : connection.listener = none)
      (number : listener.id = shared.hub.nextId) (fresh : ¬ held listener.id) (stage : after.stage = .replaying listener)
      (subscribers : next.hub.subscribers = (shared.hub.register filter).2.subscribers)
  | free (id : UInt64) (outside : connection.listener = none) (unheld : ¬ held id) (still : after.listener = none)
      (subscribers : next.hub.subscribers = (shared.hub.retain (· ≠ id)).subscribers)
  | part (listener : Listener) (stage : connection.stage = .streaming listener) (parts : after.stage = .parting listener)
      (subscribers : next.hub.subscribers = (shared.hub.retain (· ≠ listener.id)).subscribers)
  | leave (listener : Listener) (inside : connection.listener = some listener) (left : after.listener = none)
      (subscribers : next.hub.subscribers = (shared.hub.retain (· ≠ listener.id)).subscribers)
  | depart (listener : Listener) (stage : connection.stage = .parting listener) (left : after.listener = none)
      (subscribers : next.hub.subscribers = shared.hub.subscribers)

section Effects

variable {held : UInt64 → Prop} {shared : Shared} {connection : Connection} {packet : TnpPacket} {input : Input}

theorem drop_subscribers (listener : Option Listener) : (shared.drop listener).hub.subscribers = shared.hub.subscribers := by
  cases listener <;> rfl

theorem not_mem_retain {hub : SubscriptionHub} {id : UInt64} {subscribers : List (UInt64 × ActiveSubscription)}
    (same : subscribers = (hub.retain (· ≠ id)).subscribers) : id ∉ subscribers.map Prod.fst :=
  same ▸ hub.not_mem_retain id

theorem mem_retain {hub : SubscriptionHub} {id : UInt64} {entry : UInt64 × ActiveSubscription}
    (member : entry ∈ hub.subscribers) (apart : entry.1 ≠ id) : entry ∈ (hub.retain (· ≠ id)).subscribers :=
  List.mem_filter.mpr ⟨member, decide_eq_true apart⟩

theorem ids_retain {hub : SubscriptionHub} {id other : UInt64} (absent : other ∉ hub.ids) :
    other ∉ (hub.retain (· ≠ id)).ids :=
  fun listed => absent ((List.filter_sublist.map Prod.fst).subset listed)

/-- A connection outside of the branch stays outside of it. -/
theorem Effect.outside {next : Shared} {after : Connection} (outside : connection.listener = none)
    (still : after.listener = none) (subscribers : next.hub.subscribers = shared.hub.subscribers) :
    Effect held shared connection next after := by
  apply Effect.still subscribers (still.trans outside.symm)
  intro listener parts
  unfold Connection.listener at still
  rw [parts] at still
  contradiction

variable [Crc32fast] [Unicode] [ErrorTexts]

theorem answer_effect (serving : connection.stage = .serving)
    (orderly : match packet.messageType with
      | .subscribeRequest => ¬ held shared.hub.nextId
      | .unsubscribeRequest => ∀ request, UnsubscribeRequest.decode packet.payload = .ok request →
          ¬ held request.subscriptionId
      | _ => True) :
    Effect held shared connection (shared.answer (connection.take packet) packet).1
      (shared.answer (connection.take packet) packet).2 := by
  have outside : connection.listener = none := by
    unfold Connection.listener
    rw [serving]
    rfl
  have stays : ∀ packets, ((connection.take packet).reply packets).listener = none := fun packets => outside
  unfold Shared.answer
  cases kind : packet.messageType with
  | queryRequest =>
      dsimp only
      cases shared.answerQuery packet with
      | error fault => exact .outside outside rfl rfl
      | ok packets => exact .outside outside (stays packets) rfl
  | subscribeRequest =>
      rw [kind] at orderly
      dsimp only
      unfold Shared.subscribe
      split
      · exact .outside outside rfl rfl
      · split
        · exact .outside outside rfl rfl
        · exact .outside outside (stays _) rfl
        · split
          · exact .outside outside rfl rfl
          · exact .enter _ _ outside rfl orderly rfl rfl
  | unsubscribeRequest =>
      rw [kind] at orderly
      dsimp only
      unfold Shared.unsubscribe
      split
      · exact .outside outside rfl rfl
      · rename_i request decoded
        exact .free request.subscriptionId outside (orderly request decoded) (stays _) rfl
  | _ => exact .outside outside (stays _) rfl

omit [Crc32fast] [Unicode] [ErrorTexts] in
theorem listen_effect {listener : Listener} {received : Except TnpError TnpPacket}
    (streaming : connection.stage = .streaming listener)
    (orderly : ∀ packet, received = .ok packet → packet.messageType = .unsubscribeRequest →
      UnsubscribeRequest.decode packet.payload = .ok ⟨listener.id⟩) :
    Effect held shared connection (shared.listen connection listener received).1
      (shared.listen connection listener received).2 := by
  have inside : connection.listener = some listener := by
    unfold Connection.listener
    rw [streaming]
    rfl
  have keeps : ∀ after : Connection, after.stage = connection.stage →
      Effect held shared connection shared after := by
    intro after same
    apply Effect.still rfl (congrArg Stage.listener same)
    exact fun other parts => same.symm.trans parts
  unfold Shared.listen
  split
  · rename_i packet
    unfold Shared.control
    split
    · rename_i kind
      rw [orderly packet rfl kind]
      exact .part listener streaming rfl rfl
    · exact keeps _ rfl
    · exact keeps _ rfl
  · exact keeps _ rfl
  · exact .leave listener inside rfl rfl
  · exact .leave listener inside rfl rfl

theorem work_sends {rest : List TnpPacket} (waits : connection.outbox = packet :: rest)
    (sent : Shared.send packet input.fails = .ok ()) :
    shared.work connection input = (shared, connection.sent packet rest) := by
  unfold Shared.work
  rw [waits]
  dsimp only
  rw [sent]

theorem work_fails {rest : List TnpPacket} {error : TnpError} (waits : connection.outbox = packet :: rest)
    (fails : Shared.send packet input.fails = .error error) :
    shared.work connection input =
      (shared.drop connection.listener, connection.fail (Shared.sendFailure connection.stage error)) := by
  unfold Shared.work
  rw [waits]
  dsimp only
  rw [fails]

/-- What an orderly turn does. -/
theorem work_effect (orderly : Orderly held shared connection input) :
    Effect held shared connection (shared.work connection input).1 (shared.work connection input).2 := by
  unfold Orderly at orderly
  unfold Shared.work
  cases waits : connection.outbox with
  | cons packet rest =>
      rw [waits] at orderly
      dsimp only at orderly ⊢
      have sent : Effect held shared connection shared (connection.sent packet rest) :=
        .still rfl rfl fun _ parts => parts
      cases outcome : Shared.send packet input.fails with
      | ok _ => exact sent
      | error error =>
          dsimp only
          cases stage : connection.stage with
          | parting listener => exact .depart listener stage rfl (drop_subscribers _)
          | replaying listener =>
              rw [stage] at orderly
              unfold Shared.send TnpPacket.encode at outcome
              rw [orderly.1, if_neg (Nat.not_lt.mpr orderly.2)] at outcome
              contradiction
          | streaming listener =>
              rw [stage] at orderly
              unfold Shared.send TnpPacket.encode at outcome
              rw [orderly.1, if_neg (Nat.not_lt.mpr orderly.2)] at outcome
              contradiction
          | _ =>
              apply Effect.outside _ rfl (drop_subscribers _)
              unfold Connection.listener
              rw [stage]
              rfl
  | nil =>
      rw [waits] at orderly
      dsimp only at orderly ⊢
      unfold Shared.proceed
      cases stage : connection.stage with
      | serving =>
          rw [stage] at orderly
          dsimp only
          have outside : connection.listener = none := by
            unfold Connection.listener
            rw [stage]
            rfl
          unfold Shared.serve
          split
          · rename_i packet arrived
            rw [arrived] at orderly
            exact answer_effect stage orderly
          · exact .outside outside rfl rfl
          · exact .outside outside rfl rfl
          · exact .outside outside outside rfl
          · exact .outside outside rfl rfl
      | replaying listener =>
          rw [stage] at orderly
          dsimp only
          have inside : connection.listener = some listener := by
            unfold Connection.listener
            rw [stage]
            rfl
          unfold Shared.replay
          by_cases locked : listener.start < listener.stop ∧ shared.poisoned = true
          · rw [orderly locked.1] at locked
            exact absurd locked.2 Bool.false_ne_true
          · rw [if_neg locked]
            exact .still rfl inside.symm nofun
      | streaming listener =>
          rw [stage] at orderly
          dsimp only
          unfold Shared.stream
          cases pending : shared.pending listener with
          | some record => exact .still rfl rfl fun _ parts => parts
          | none =>
              apply listen_effect stage
              intro packet arrived kind
              rw [arrived] at orderly
              exact orderly pending kind
      | parting listener => exact .depart listener stage rfl (drop_subscribers _)
      | greeting =>
          dsimp only
          have outside : connection.listener = none := by
            unfold Connection.listener
            rw [stage]
            rfl
          apply Effect.outside outside _ rfl
          unfold Shared.greet
          split
          · rfl
          · split
            · rfl
            · split
              · rfl
              · split <;> rfl
      | closed outcome => exact .still rfl rfl fun _ parts => parts
      | _ =>
          apply Effect.outside _ rfl rfl
          unfold Connection.listener
          rw [stage]
          rfl

end Effects

section Runs

namespace Host

/-- A connection other than this one serves a subscription with this number. -/
def Held (host : Host) (place : Nat) (id : UInt64) : Prop :=
  ∃ (other : Nat) (connection : Connection) (listener : Listener), other ≠ place ∧
    host.connections[other]? = some connection ∧ connection.listener = some listener ∧ listener.id = id

/-- No two connections serve subscriptions with one number, and a connection that has unsubscribed is not registered. -/
structure Owned (host : Host) : Prop where
  distinct : ∀ (place : Nat) (connection : Connection) (listener : Listener),
    host.connections[place]? = some connection → connection.listener = some listener → ¬ host.Held place listener.id
  gone : ∀ (place : Nat) (connection : Connection) (listener : Listener),
    host.connections[place]? = some connection → connection.stage = .parting listener →
      listener.id ∉ host.shared.hub.ids

section Work

variable {host : Host} {place : Nat} {connection : Connection} {input : Input}

/-- The place of a connection after the turn of another one. -/
theorem held_of (held : host.connections[place]? = some connection) {listener : Listener}
    (serves : connection.listener = some listener) {mover : Nat} (apart : place ≠ mover) :
    host.Held mover listener.id := ⟨place, connection, listener, apart, held, serves, rfl⟩

/-- No other connection has the number of the connection that moved. -/
theorem effect_unheld {next : Shared} {after : Connection} (owned : host.Owned)
    (present : host.connections[place]? = some connection)
    (effect : Effect (host.Held place) host.shared connection next after) {listener : Listener}
    (serves : after.listener = some listener) : ¬ host.Held place listener.id := by
  unfold Connection.listener at serves
  cases effect with
  | still subscribers same parts => exact owned.distinct place connection listener present (same.symm.trans serves)
  | enter filter other outside number fresh stage subscribers =>
      rw [stage] at serves
      obtain rfl := Option.some.inj serves
      exact fresh
  | part other stage parts subscribers =>
      rw [parts] at serves
      obtain rfl := Option.some.inj serves
      apply owned.distinct place connection other present
      unfold Connection.listener
      rw [stage]
      rfl
  | free id outside unheld still subscribers => nomatch still.symm.trans serves
  | leave other inside left subscribers => nomatch left.symm.trans serves
  | depart other stage left subscribers => nomatch left.symm.trans serves

/-- The entries of numbers that other connections hold stay. -/
theorem effect_spares {next : Shared} {after : Connection} (owned : host.Owned)
    (present : host.connections[place]? = some connection)
    (effect : Effect (host.Held place) host.shared connection next after) {entry : UInt64 × ActiveSubscription}
    (held : host.Held place entry.1) (member : entry ∈ host.shared.hub.subscribers) :
    entry ∈ next.hub.subscribers := by
  cases effect with
  | still subscribers same parts => rwa [subscribers]
  | enter filter other outside number fresh stage subscribers =>
      rw [subscribers]
      apply List.mem_append_left
      apply mem_retain member
      intro same
      rw [number, ← same] at fresh
      exact fresh held
  | free id outside unheld still subscribers =>
      rw [subscribers]
      exact mem_retain member fun same => unheld (same ▸ held)
  | part other stage parts subscribers =>
      rw [subscribers]
      apply mem_retain member
      intro same
      have serves : connection.listener = some other := by
        unfold Connection.listener
        rw [stage]
        rfl
      exact owned.distinct place connection other present serves (same ▸ held)
  | leave other inside left subscribers =>
      rw [subscribers]
      exact mem_retain member fun same => owned.distinct place connection other present inside (same ▸ held)
  | depart other stage left subscribers => rwa [subscribers]

/-- A number that was not given out is given out only to the connection that enters. -/
theorem effect_absent {next : Shared} {after : Connection}
    (effect : Effect (host.Held place) host.shared connection next after) {id : UInt64} (held : host.Held place id)
    (absent : id ∉ host.shared.hub.ids) : id ∉ next.hub.ids := by
  unfold SubscriptionHub.ids
  cases effect with
  | still subscribers same parts => rwa [subscribers]
  | enter filter other outside number fresh stage subscribers =>
      rw [subscribers]
      intro listed
      obtain ⟨entry, member, same⟩ := List.mem_map.mp listed
      rcases List.mem_append.mp member with old | new
      · exact absent (List.mem_map.mpr ⟨entry, List.mem_of_mem_filter old, same⟩)
      · have first : entry.1 = host.shared.hub.nextId := congrArg Prod.fst (List.mem_singleton.mp new)
        rw [number, ← first, same] at fresh
        exact fresh held
  | free other outside unheld still subscribers => rw [subscribers]; exact ids_retain absent
  | part other stage parts subscribers => rw [subscribers]; exact ids_retain absent
  | leave other inside left subscribers => rw [subscribers]; exact ids_retain absent
  | depart other stage left subscribers => rwa [subscribers]

end Work

variable [Crc32fast] [Unicode] [ErrorTexts]

/-- A connection that leaves the branch of its subscription is not registered any more, and no turn of a connection
removes the subscription of another one. -/
structure Proper (host : Host) (turn : Turn) : Prop where
  leaves : ∀ (place : Nat) (connection after : Connection) (listener : Listener),
    host.connections[place]? = some connection → connection.listener = some listener →
      (host.step turn).connections[place]? = some after → after.listener = none →
        listener.id ∉ (host.step turn).shared.hub.ids
  spares : ∀ (mover other : Nat) (input : Input) (connection : Connection) (listener : Listener),
    turn = .work mover input → other ≠ mover → host.connections[other]? = some connection →
      connection.listener = some listener → ∀ entry ∈ host.shared.hub.subscribers, entry.1 = listener.id →
        entry ∈ (host.step turn).shared.hub.subscribers

def OrderlyAt (host : Host) : Turn → Prop
  | .work place input => ∀ connection, host.connections[place]? = some connection →
      Orderly (host.Held place) host.shared connection input
  | _ => True

def AlwaysProper : Host → List Turn → Prop
  | _, [] => True
  | host, turn :: turns => host.Proper turn ∧ AlwaysProper (host.step turn) turns

def AlwaysOrderly : Host → List Turn → Prop
  | _, [] => True
  | host, turn :: turns => host.OrderlyAt turn ∧ AlwaysOrderly (host.step turn) turns

section Steps

variable {host : Host} {place : Nat} {connection : Connection} {input : Input}

theorem work_shared (present : host.connections[place]? = some connection) :
    (host.step (.work place input)).shared = (host.shared.work connection input).1 := by
  unfold step
  dsimp only
  rw [present]

theorem step_of_work {shared : Shared} {after : Connection} (present : host.connections[place]? = some connection)
    (work : host.shared.work connection input = (shared, after)) :
    host.step (.work place input) = ⟨shared, host.connections.set place after⟩ := by
  unfold step
  dsimp only
  rw [present]
  dsimp only
  rw [work]

/-- The other connections are those from before. -/
theorem work_other {other : Nat} (apart : other ≠ place) :
    (host.step (.work place input)).connections[other]? = host.connections[other]? := by
  unfold step
  dsimp only
  split
  · rfl
  · exact List.getElem?_set_ne apart.symm

/-- A turn of a connection that does not exist does nothing. -/
theorem work_absent (absent : host.connections[place]? = none) : host.step (.work place input) = host := by
  unfold step
  dsimp only
  rw [absent]

theorem work_proper (owned : host.Owned) (present : host.connections[place]? = some connection)
    (orderly : Orderly (host.Held place) host.shared connection input) : host.Proper (.work place input) := by
  have effect := work_effect orderly
  have shared : (host.step (.work place input)).shared = _ := work_shared present
  constructor
  · intro other before after listener found serves reached left
    by_cases here : other = place
    · subst here
      obtain rfl := Option.some.inj (present.symm.trans found)
      obtain rfl := Option.some.inj ((host.step_work present input).symm.trans reached)
      rw [shared]
      cases effect with
      | still subscribers same parts => nomatch left.symm.trans (same.trans serves)
      | enter filter other outside number fresh stage subscribers => nomatch outside.symm.trans serves
      | free id outside unheld still subscribers => nomatch outside.symm.trans serves
      | part other stage parts subscribers =>
          unfold Connection.listener at left
          rw [parts] at left
          contradiction
      | leave other inside left subscribers =>
          obtain rfl := Option.some.inj (inside.symm.trans serves)
          exact not_mem_retain subscribers
      | depart other stage left subscribers =>
          unfold Connection.listener at serves
          rw [stage] at serves
          obtain rfl := Option.some.inj serves
          unfold SubscriptionHub.ids
          rw [subscribers]
          exact owned.gone _ connection other present stage
    · rw [work_other here, found] at reached
      obtain rfl := Option.some.inj reached
      nomatch left.symm.trans serves
  · intro mover other input' found listener same apart before serves entry member number
    obtain ⟨rfl, rfl⟩ := Turn.work.inj same
    rw [shared]
    exact effect_spares owned present effect (number ▸ held_of before serves apart) member

theorem work_owned (owned : host.Owned) (present : host.connections[place]? = some connection)
    (orderly : Orderly (host.Held place) host.shared connection input) : (host.step (.work place input)).Owned := by
  have effect := work_effect orderly
  have shared : (host.step (.work place input)).shared = _ := work_shared present
  have after := host.step_work present input
  have back : ∀ id, (host.step (.work place input)).Held place id → host.Held place id := by
    rintro id ⟨other, found, listener, apart, reached, serves, number⟩
    exact ⟨other, found, listener, apart, (work_other apart).symm.trans reached, serves, number⟩
  constructor
  · intro other found listener reached serves held
    by_cases here : other = place
    · subst here
      obtain rfl := Option.some.inj (after.symm.trans reached)
      exact effect_unheld owned present effect serves (back _ held)
    · rw [work_other here] at reached
      obtain ⟨third, found', listener', apart, reached', serves', number⟩ := held
      by_cases mover : third = place
      · subst mover
        obtain rfl := Option.some.inj (after.symm.trans reached')
        exact effect_unheld owned present effect serves' (number ▸ held_of reached serves here)
      · rw [work_other mover] at reached'
        exact owned.distinct other found listener reached serves
          ⟨third, found', listener', apart, reached', serves', number⟩
  · intro other found listener reached parts
    rw [shared]
    by_cases here : other = place
    · subst here
      obtain rfl := Option.some.inj (after.symm.trans reached)
      cases effect with
      | still subscribers same parted =>
          unfold SubscriptionHub.ids
          rw [subscribers]
          exact owned.gone other connection listener present (parted listener parts)
      | enter filter other outside number fresh stage subscribers => nomatch stage.symm.trans parts
      | free id outside unheld still subscribers =>
          unfold Connection.listener at still
          rw [parts] at still
          contradiction
      | part mine stage parted subscribers =>
          obtain rfl := Stage.parting.inj (parted.symm.trans parts)
          exact not_mem_retain subscribers
      | leave mine inside left subscribers =>
          unfold Connection.listener at left
          rw [parts] at left
          contradiction
      | depart mine stage left subscribers =>
          unfold Connection.listener at left
          rw [parts] at left
          contradiction
    · rw [work_other here] at reached
      have serves : found.listener = some listener := by
        unfold Connection.listener
        rw [parts]
        rfl
      exact effect_absent effect (held_of reached serves here) (owned.gone other found listener reached parts)

omit [Crc32fast] [Unicode] [ErrorTexts] in
/-- A turn that changes no connection and registers nothing keeps the numbers apart. -/
theorem Owned.keep {next : Host} (owned : host.Owned)
    (connections : ∀ (place : Nat) (connection : Connection) (listener : Listener),
      next.connections[place]? = some connection → connection.listener = some listener →
        host.connections[place]? = some connection)
    (ids : ∀ id, id ∈ next.shared.hub.ids → id ∈ host.shared.hub.ids) : next.Owned where
  distinct place connection listener present serves := by
    rintro ⟨other, found, listener', apart, reached, serves', number⟩
    exact owned.distinct place connection listener (connections place connection listener present serves) serves
      ⟨other, found, listener', apart, connections other found listener' reached serves', serves', number⟩
  gone place connection listener present parts listed := by
    have serves : connection.listener = some listener := by
      unfold Connection.listener
      rw [parts]
      rfl
    exact owned.gone place connection listener (connections place connection listener present serves) parts
      (ids _ listed)

/-- A turn that is no connection's turn. -/
theorem Proper.of_idle {turn : Turn} (idle : ∀ place input, turn ≠ .work place input) : host.Proper turn where
  leaves place connection after listener present serves reached left := by
    rw [host.step_apart present (idle place)] at reached
    obtain rfl := Option.some.inj reached
    nomatch left.symm.trans serves
  spares mover other input connection listener same := absurd same (idle mover input)

/-- Every orderly turn is proper and keeps the numbers apart. -/
theorem step_proper (owned : host.Owned) (turn : Turn) (orderly : host.OrderlyAt turn) :
    host.Proper turn ∧ (host.step turn).Owned := by
  cases turn with
  | accept =>
      refine ⟨.of_idle nofun, owned.keep ?_ fun _ listed => listed⟩
      intro place connection listener present serves
      by_cases inside : place < host.connections.length
      · rwa [show (host.step .accept).connections = host.connections ++ [Connection.accepted] from rfl,
          List.getElem?_append_left inside] at present
      · have member := List.mem_of_getElem? present
        rw [show (host.step .accept).connections = host.connections ++ [Connection.accepted] from rfl,
          List.getElem?_append_right (Nat.not_lt.mp inside)] at present
        obtain rfl := List.mem_singleton.mp (List.mem_of_getElem? present)
        contradiction
  | work place input =>
      cases present : host.connections[place]? with
      | none =>
          rw [work_absent present]
          refine ⟨?_, owned⟩
          constructor
          · intro other connection after listener found serves reached left
            rw [work_absent present, found] at reached
            obtain rfl := Option.some.inj reached
            nomatch left.symm.trans serves
          · intro mover other input' connection listener same apart found serves entry member number
            rwa [work_absent present]
      | some connection => exact ⟨work_proper owned present (orderly connection present),
          work_owned owned present (orderly connection present)⟩
  | commit store disk events =>
      refine ⟨.of_idle nofun, owned.keep (fun _ _ _ present _ => present) ?_⟩
      intro id listed
      exact (List.filter_sublist.map Prod.fst).subset listed
  | poison => exact ⟨.of_idle nofun, owned.keep (fun _ _ _ present _ => present) fun _ listed => listed⟩

end Steps

omit [Crc32fast] [Unicode] [ErrorTexts] in
theorem start_owned (serverId : Text) (store : Store) (disk : Disk) : (Host.start serverId store disk).Owned where
  distinct _ _ _ present := nomatch present
  gone _ _ _ present := nomatch present

end Host

variable [Crc32fast] [Unicode] [ErrorTexts]

/-- In every run of a server whose turns are orderly, subscriptions end with the branch that serves them, and no
connection removes the subscription of another one. -/
theorem subscriptions_live_with_their_connections (serverId : Text) (store : Store) (disk : Disk) (turns : List Turn)
    (orderly : (Host.start serverId store disk).AlwaysOrderly turns) :
    (Host.start serverId store disk).AlwaysProper turns := by
  have owned := Host.start_owned serverId store disk
  generalize Host.start serverId store disk = host at *
  induction turns generalizing host with
  | nil => trivial
  | cons turn turns hypothesis =>
      obtain ⟨proper, next⟩ := Host.step_proper owned turn orderly.1
      exact ⟨proper, hypothesis (host.step turn) orderly.2 next⟩

section Samples

/-- The server of a new database. -/
def newHost : Host := Host.start [] (startStore ⟨sampleDatabase, 1, 1⟩ .default 0) ⟨[], [], none, []⟩

def hello : TnpPacket := TnpPacket.new .handshakeRequest 1 (HandshakeRequest.encode ⟨1, [], 0⟩)

def goodbye (id : UInt64) : TnpPacket := TnpPacket.new .unsubscribeRequest 3 (UnsubscribeRequest.encode ⟨id⟩)

def receives (packet : TnpPacket) : Turn := .work 0 ⟨.ok packet, none⟩

/-- The next packet is sent. -/
def sends : Turn := .work 0 ⟨.error .timedOut, none⟩

/-- A connection is greeted and subscribes to everything. -/
def subscribing : List Turn :=
  [.accept, receives hello, sends, receives (TnpPacket.new .subscribeRequest 2 everything.encode)]

/-- What the client asks for, and what the server answers. -/
def sampleListener : Listener := ⟨1, 0, 2, planQuery (.scan Scan.unrestricted), 0, 0⟩

def sampleResponse : TnpPacket :=
  TnpPacket.new .subscribeResponse 2 (SubscribeResponse.encode ⟨1, true, 0, 0, Shared.subscribedText 1⟩)

def greeted : List Exchange :=
  [⟨hello, [TnpPacket.new .handshakeResponse 1 (HandshakeResponse.encode ⟨true, tnpVersion, [], 15⟩)]⟩]

/-- The subscription is registered, and its response is still to be sent or was sent. -/
def subscribedHost (outbox reply : List TnpPacket) : Host where
  shared := { newHost.shared with hub := (SubscriptionHub.new.register none).2 }
  connections := [⟨.replaying sampleListener, outbox,
    ⟨TnpPacket.new .subscribeRequest 2 everything.encode, reply⟩ :: greeted⟩]

theorem run_subscribing : newHost.run subscribing = subscribedHost [sampleResponse] [] := rfl

omit [Binary64] [Crc32fast] [Unicode] [ErrorTexts] in
theorem sampleResponse_fits : sampleResponse.payload.length ≤ maxPacketLen := by
  decide +kernel

theorem subscribedHost_sends : (subscribedHost [sampleResponse] []).step sends = subscribedHost [] [sampleResponse] := by
  have sent : Shared.send sampleResponse none = .ok () := by
    unfold Shared.send TnpPacket.encode
    rw [if_neg (Nat.not_lt.mpr sampleResponse_fits)]
    rfl
  exact Host.step_of_work rfl (work_sends rfl sent)

/-- The response is lost, and the connection ends. -/
def lost : Turn := .work 0 ⟨.error .timedOut, some "broken pipe".toList⟩

theorem subscribedHost_lost : ∃ error, ((subscribedHost [sampleResponse] []).step lost).connections =
      [⟨.closed (.error error), [], ⟨TnpPacket.new .subscribeRequest 2 everything.encode, []⟩ :: greeted⟩] ∧
    ((subscribedHost [sampleResponse] []).step lost).shared.hub.ids = [1] := by
  obtain ⟨error, fails⟩ : ∃ error, Shared.send sampleResponse (some "broken pipe".toList) = .error error := by
    unfold Shared.send TnpPacket.encode
    rw [if_neg (Nat.not_lt.mpr sampleResponse_fits)]
    exact ⟨_, rfl⟩
  have step : (subscribedHost [sampleResponse] []).step lost = _ := Host.step_of_work rfl (work_fails rfl fails)
  rw [step]
  exact ⟨.refused error, rfl, rfl⟩

omit [Binary64] [Crc32fast] [Unicode] [ErrorTexts] in
/-- A subscriber that closes its connection leaves no trace. -/
theorem subscriptions_live_with_their_connections_sample :
    letI := Binary64.exact
    letI := Crc32fast.ieee
    letI := Unicode.ascii
    letI : ErrorTexts := ⟨fun _ => [], fun _ => []⟩
    newHost.AlwaysProper (subscribing ++ [sends, sends, .work 0 ⟨.error .connectionClosed, none⟩]) := by
  let := Binary64.exact
  generalize Crc32fast.ieee = checksum
  let := Unicode.ascii
  let : ErrorTexts := ⟨fun _ => [], fun _ => []⟩
  apply subscriptions_live_with_their_connections
  have turn : ∀ {host : Host} {connection : Connection} {input : Input}, host.connections[0]? = some connection →
      Orderly (host.Held 0) host.shared connection input → host.OrderlyAt (.work 0 input) := by
    intro host connection input present orderly other found
    obtain rfl := Option.some.inj (present.symm.trans found)
    exact orderly
  refine ⟨trivial, turn rfl trivial, turn rfl trivial, turn rfl ?_, ?_⟩
  · rintro ⟨other, connection, listener, apart, present, _⟩
    cases other with
    | zero => exact apart rfl
    | succ other => nomatch present
  · change (subscribedHost [sampleResponse] []).AlwaysOrderly _
    refine ⟨turn rfl ⟨rfl, sampleResponse_fits⟩, ?_⟩
    rw [subscribedHost_sends]
    exact ⟨turn rfl nofun, turn rfl trivial, trivial⟩

omit [Binary64] [Crc32fast] [Unicode] [ErrorTexts] in
/-- A subscriber whose response cannot be sent stays registered. -/
theorem unsent_response_leaves_the_subscription :
    letI := Binary64.exact
    letI := Crc32fast.ieee
    letI := Unicode.ascii
    letI : ErrorTexts := ⟨fun _ => [], fun _ => []⟩
    (∃ connection, (newHost.run (subscribing ++ [lost])).connections = [connection] ∧ connection.listener = none) ∧
      (newHost.run (subscribing ++ [lost])).shared.hub.ids = [1] ∧ ¬ newHost.AlwaysProper (subscribing ++ [lost]) := by
  let := Binary64.exact
  generalize Crc32fast.ieee = checksum
  let := Unicode.ascii
  let : ErrorTexts := ⟨fun _ => [], fun _ => []⟩
  obtain ⟨error, closed, listed⟩ := subscribedHost_lost
  have run : newHost.run (subscribing ++ [lost]) = (subscribedHost [sampleResponse] []).step lost := by
    rw [Host.run, List.foldl_append]
    exact congrArg (Host.step · lost) run_subscribing
  rw [run]
  refine ⟨⟨_, closed, rfl⟩, listed, ?_⟩
  rintro ⟨_, _, _, _, proper, _⟩
  have proper' : (subscribedHost [sampleResponse] []).Proper lost := proper
  have gone := proper'.leaves 0 _ _ sampleListener rfl rfl (by rw [closed]; rfl) rfl
  rw [listed] at gone
  exact gone List.mem_cons_self

end Samples

end Runs

end Temnion.Protocol
