import Temnion.Adapter.Connector
import Temnion.Protocol.Clients
import Temnion.Protocol.Stream

/-
This file models the session of a client and says what it hears of a live subscription.
-/

namespace Temnion.Adapter

open Protocol Query Format Slices

section Model

inductive ConnectorError where
  | network (message : Text)
  | protocol (error : TnpError)
  | handshakeRejected (serverId reason : Text)
  | subscriptionRejected (subscriptionId : UInt64) (reason : Text)
  | authFailed (message : Text)
  | serverTimeout
  deriving DecidableEq

/-- The names that the texts of errors use. -/
def messageName : TnpMessageType → String
  | .handshakeRequest => "HandshakeRequest"
  | .handshakeResponse => "HandshakeResponse"
  | .describeRequest => "DescribeRequest"
  | .describeResponse => "DescribeResponse"
  | .queryRequest => "QueryRequest"
  | .queryResponse => "QueryResponse"
  | .streamRecord => "StreamRecord"
  | .streamEnd => "StreamEnd"
  | .errorResponse => "ErrorResponse"
  | .ping => "Ping"
  | .pong => "Pong"
  | .subscribeRequest => "SubscribeRequest"
  | .subscribeResponse => "SubscribeResponse"
  | .liveEvent => "LiveEvent"
  | .unsubscribeRequest => "UnsubscribeRequest"
  | .unsubscribeResponse => "UnsubscribeResponse"

def expected (wanted : String) (got : TnpMessageType) : ConnectorError :=
  .protocol (.protocolViolation ("Expected ".toList ++ wanted.toList ++ ", got ".toList ++ (messageName got).toList))

/-- Errors of the protocol are passed on. -/
def fromProtocol {A : Type} (outcome : Parse TnpError A) : Parse ConnectorError A :=
  outcome.mapError fun fault =>
    match fault with
    | .panicked => .panicked
    | .refused error => .refused (.protocol error)

/-- A session: what it receives, the packets that it has written, and how the writes to come fail. -/
structure ActiveConnection where
  config : ConnectionConfig
  serverId : Text
  negotiatedVersion : UInt16
  capabilityFlags : UInt64
  channel : TnpChannel
  written : List TnpPacket
  failures : List (Option Text)

structure LiveSubscription where
  conn : Option ActiveConnection
  subscriptionId : UInt64
  snapshotStart : UInt64
  snapshotEnd : UInt64
  unsubscribed : Bool

variable [Crc32fast]

namespace ActiveConnection

def send (conn : ActiveConnection) (packet : TnpPacket) : Parse ConnectorError Unit × ActiveConnection :=
  match packet.encode with
  | .error error => (.error (.refused (.protocol error)), conn)
  | .ok _ =>
      match conn.failures.head?.join with
      | some message => (.error (.refused (.protocol (.ioError message))), { conn with failures := conn.failures.tail })
      | none => (.ok (), { conn with written := conn.written ++ [packet], failures := conn.failures.tail })

def recv (conn : ActiveConnection) : Parse ConnectorError TnpPacket × ActiveConnection :=
  (fromProtocol conn.channel.recv.1, { conn with channel := conn.channel.recv.2 })

/-- A packet of the expected kind. -/
def expect (conn : ActiveConnection) (kind : TnpMessageType) : Parse ConnectorError TnpPacket × ActiveConnection :=
  match conn.recv with
  | (.error fault, conn) => (.error fault, conn)
  | (.ok packet, conn) =>
      if packet.messageType ≠ kind then (.error (.refused (expected (messageName kind) packet.messageType)), conn)
      else (.ok packet, conn)

def handshakePacket (config : ConnectionConfig) : TnpPacket :=
  TnpPacket.new .handshakeRequest 1
    (HandshakeRequest.encode ⟨tnpVersion, config.username ++ ":tzeentch-client".toList, 1⟩)

/-- The handshake on a stream that is open. -/
def connect (config : ConnectionConfig) (arrivals : List Arrival) (failures : List (Option Text)) :
    Parse ConnectorError ActiveConnection := do
  let opened : ActiveConnection := ⟨config, [], 0, 0, TnpChannel.new arrivals, [], failures⟩
  let (greeted, conn) := opened.send (handshakePacket config)
  greeted
  let (answered, conn) := conn.expect .handshakeResponse
  let packet ← answered
  let resp ← fromProtocol (HandshakeResponse.decode packet.payload)
  refuseIf (resp.success = false)
    (.refused (.handshakeRejected resp.serverId "Negotiation failed on server".toList))
  return { conn with
    serverId := resp.serverId, negotiatedVersion := resp.negotiatedVersion, capabilityFlags := resp.capabilityFlags }

def ping (conn : ActiveConnection) : Parse ConnectorError Unit × ActiveConnection :=
  match conn.send (TnpPacket.new .ping 2 [1, 2, 3, 4]) with
  | (.error fault, conn) => (.error fault, conn)
  | (.ok _, conn) => ((conn.expect .pong).1.map fun _ => (), (conn.expect .pong).2)

/-- The packet that asks for a subscription. -/
def subscribePacket (request : SubscribeRequest) : TnpPacket := TnpPacket.new .subscribeRequest 3 request.encode

/-- The session becomes a subscription, and is gone when that fails. -/
def subscribe (conn : ActiveConnection) (request : SubscribeRequest) : Parse ConnectorError LiveSubscription := do
  let (asked, conn) := conn.send (subscribePacket request)
  asked
  let (answered, conn) := conn.expect .subscribeResponse
  let packet ← answered
  let resp ← fromProtocol (SubscribeResponse.decode packet.payload)
  refuseIf (resp.success = false) (.refused (.subscriptionRejected resp.subscriptionId resp.message))
  return ⟨some conn, resp.subscriptionId, resp.snapshotStart, resp.snapshotEnd, false⟩

end ActiveConnection

end Model

section Consumption

variable [Crc32fast]

/-- The bytes that are still to come. -/
def remaining (channel : TnpChannel) : List UInt8 :=
  channel.readBuf ++ channel.arrivals.flatMap Arrival.carried

theorem decode_positive {bytes : List UInt8} {packet : TnpPacket} {consumed : Nat}
    (decoded : TnpPacket.decode bytes = .ok (packet, consumed)) : 0 < consumed := by
  have anything : ∀ {A : Type} (outcome : Parse TnpError A), outcome.Ends (fun _ => True) fun _ => True :=
    fun _ => ⟨fun _ _ => trivial, fun _ _ => trivial⟩
  have ends : (TnpPacket.decode bytes).Ends (fun found => 0 < found.2) fun _ => True := by
    unfold TnpPacket.decode
    refine .bind (anything _) fun _ _ => .bind (anything _) fun magic _ => .bind (anything _) fun _ _ =>
      .bind (anything _) fun version _ => .bind (anything _) fun _ _ => .bind (anything _) fun raw _ =>
      .bind (anything _) fun kind _ => .bind (anything _) fun stream _ => .bind (anything _) fun size _ =>
      .bind (anything _) fun _ _ => .bind (anything _) fun _ _ => .bind (anything _) fun payload _ =>
      .bind (anything _) fun wanted _ => .bind (anything _) fun computed _ => .bind (anything _) fun _ _ => .ok ?_
    exact Nat.succ_pos _
  exact ends.1 _ decoded

theorem buffered_positive {buffer : List UInt8} {packet : TnpPacket} {consumed : Nat}
    (found : TnpChannel.buffered buffer = some (.ok (packet, consumed))) : 0 < consumed ∧ buffer ≠ [] := by
  unfold TnpChannel.buffered at found
  split at found
  · contradiction
  · rename_i nonempty
    refine ⟨?_, nonempty⟩
    split at found
    · contradiction
    · exact decode_positive (Option.some.inj found)

theorem remaining_drop {buffer : List UInt8} {packet : TnpPacket} {consumed : Nat} (arrivals : List Arrival)
    (found : TnpChannel.buffered buffer = some (.ok (packet, consumed))) :
    (remaining ⟨buffer.drop consumed, arrivals⟩).length < (remaining ⟨buffer, arrivals⟩).length := by
  obtain ⟨positive, nonempty⟩ := buffered_positive found
  have filled := List.length_pos_of_ne_nil nonempty
  change (buffer.drop consumed ++ arrivals.flatMap _).length < (buffer ++ arrivals.flatMap _).length
  rw [List.length_append, List.length_append, List.length_drop]
  omega

/-- A packet takes bytes. -/
theorem recvFrom_remaining {buffer : List UInt8} {arrivals : List Arrival} {packet : TnpPacket}
    (received : (TnpChannel.recvFrom buffer arrivals).1 = .ok packet) :
    (remaining (TnpChannel.recvFrom buffer arrivals).2).length < (remaining ⟨buffer, arrivals⟩).length := by
  induction arrivals generalizing buffer with
  | nil =>
      unfold TnpChannel.recvFrom at received ⊢
      cases found : TnpChannel.buffered buffer with
      | none =>
          rw [found] at received
          contradiction
      | some outcome =>
          rw [found] at received
          cases outcome with
          | error fault => contradiction
          | ok taken => exact remaining_drop [] found
  | cons arrival arrivals hypothesis =>
      unfold TnpChannel.recvFrom at received ⊢
      cases found : TnpChannel.buffered buffer with
      | none =>
          rw [found] at received
          cases arrival with
          | data chunk filled few =>
              refine (hypothesis received).trans_eq (congrArg List.length ?_)
              unfold remaining
              rw [List.append_assoc]
              rfl
          | timedOut => contradiction
          | failed message => contradiction
      | some outcome =>
          rw [found] at received
          cases outcome with
          | error fault => contradiction
          | ok taken => exact remaining_drop (arrival :: arrivals) found

/-- Writing does not read. -/
theorem ActiveConnection.send_channel (conn : ActiveConnection) (packet : TnpPacket) :
    (conn.send packet).2.channel = conn.channel := by
  unfold send
  split
  · rfl
  · split <;> rfl

theorem ActiveConnection.recv_remaining {conn : ActiveConnection} {packet : TnpPacket}
    (received : conn.recv.1 = .ok packet) :
    (remaining conn.recv.2.channel).length < (remaining conn.channel).length :=
  recvFrom_remaining (Except.mapError_eq_ok.mp received)

end Consumption

section Listening

variable [Crc32fast] [Replacement]

/-- A text, whatever the bytes are. -/
def lossy (bytes : List UInt8) : Text := (Utf8.decode bytes).getD (Replacement.text bytes)

/-- Waits for the next record and answers pings. Tells whether the stream is over. -/
def ActiveConnection.nextRecord (conn : ActiveConnection) :
    Parse ConnectorError (Option LiveEventRecord) × ActiveConnection × Bool :=
  match _ : conn.recv.1 with
  | .ok packet =>
      match packet.messageType with
      | .liveEvent => ((fromProtocol (LiveEventRecord.decode packet.payload)).map some, conn.recv.2, false)
      | .ping => (conn.recv.2.send (TnpPacket.new .pong packet.streamId packet.payload)).2.nextRecord
      | .unsubscribeResponse => (.ok none, conn.recv.2, true)
      | .errorResponse =>
          (.error (.refused (.protocol (.executionError (lossy packet.payload)))), conn.recv.2, false)
      | other =>
          (.error (.refused (.protocol (.protocolViolation
            ("Unexpected message during subscription: ".toList ++ (messageName other).toList)))), conn.recv.2, false)
  | .error (.refused (.protocol .timedOut)) => (.ok none, conn.recv.2, false)
  | .error (.refused (.protocol .connectionClosed)) => (.ok none, conn.recv.2, true)
  | .error fault => (.error fault, conn.recv.2, false)
termination_by (remaining conn.channel).length
decreasing_by
  rw [send_channel]
  exact recv_remaining ‹_›

/-- Reads up to the answer of an unsubscription. -/
def ActiveConnection.drain (conn : ActiveConnection) : ActiveConnection :=
  match _ : conn.recv.1 with
  | .ok packet => if packet.messageType = .unsubscribeResponse then conn.recv.2 else conn.recv.2.drain
  | .error _ => conn.recv.2
termination_by (remaining conn.channel).length
decreasing_by exact recv_remaining ‹_›

/-- No timeout may be zero. -/
def setReadTimeout (timeout : Option Nat) : Parse ConnectorError Unit :=
  refuseIf (timeout = some 0) (.refused (.network "cannot set a 0 duration timeout".toList))

namespace LiveSubscription

def nextEvent (sub : LiveSubscription) (timeout : Option Nat) :
    Parse ConnectorError (Option LiveEventRecord) × LiveSubscription :=
  if sub.unsubscribed then (.ok none, sub)
  else
    match sub.conn with
    | none => (.error (.refused (.network "Connection already closed".toList)), sub)
    | some conn =>
        match setReadTimeout timeout with
        | .error fault => (.error fault, sub)
        | .ok _ =>
            let (outcome, conn, ended) := conn.nextRecord
            (outcome, { sub with conn := some conn, unsubscribed := ended })

/-- The results of one call after the other. -/
def nextEvents (sub : LiveSubscription) : List (Option Nat) → List (Parse ConnectorError (Option LiveEventRecord))
  | [] => []
  | timeout :: timeouts => (sub.nextEvent timeout).1 :: (sub.nextEvent timeout).2.nextEvents timeouts

/-- The subscription after these calls. -/
def afterEvents (sub : LiveSubscription) : List (Option Nat) → LiveSubscription
  | [] => sub
  | timeout :: timeouts => (sub.nextEvent timeout).2.afterEvents timeouts

/-- The session goes on without the subscription. A failure to ask for its end is not heard. -/
def unsubscribe (sub : LiveSubscription) : Parse ConnectorError ActiveConnection :=
  match sub.conn with
  | none => .error (.refused (.network "Connection already closed".toList))
  | some conn =>
      if sub.unsubscribed then .ok conn
      else
        .ok (conn.send
          (TnpPacket.new .unsubscribeRequest 4 (UnsubscribeRequest.encode ⟨sub.subscriptionId⟩))).2.drain

end LiveSubscription

end Listening

section Hearing

/-- The record that a packet carries. -/
def recordOf (packet : TnpPacket) : Option LiveEventRecord :=
  if packet.messageType = .liveEvent then (LiveEventRecord.decode packet.payload).toOption else none

/-- What a server may send while events are streamed: records, and pings. -/
def Streamable (packet : TnpPacket) : Prop :=
  packet.Sendable ∧ (packet.messageType = .ping ∨
    packet.messageType = .liveEvent ∧ ∃ record, LiveEventRecord.decode packet.payload = .ok record)

variable [Crc32fast] [Replacement]

/-- A call hears the next record, or nothing in time, or the end behind the last packet. -/
inductive Hears (packets : List TnpPacket) (waits : Nat) :
    Parse ConnectorError (Option LiveEventRecord) × ActiveConnection × Bool → Prop
  | event (record : LiveEventRecord) (others : List TnpPacket) (conn : ActiveConnection)
      (part : others <:+ packets) (same : packets.filterMap recordOf = record :: others.filterMap recordOf)
      (carries : TnpChannel.Carries conn.channel others waits) : Hears packets waits (.ok (some record), conn, false)
  | late (others : List TnpPacket) (left : Nat) (conn : ActiveConnection) (part : others <:+ packets)
      (same : packets.filterMap recordOf = others.filterMap recordOf) (one : waits = left + 1)
      (carries : TnpChannel.Carries conn.channel others left) : Hears packets waits (.ok none, conn, false)
  | ended (conn : ActiveConnection) (nothing : packets.filterMap recordOf = []) :
      Hears packets waits (.ok none, conn, true)

section Records

variable {conn : ActiveConnection} {packet : TnpPacket}

theorem nextRecord_event {record : LiveEventRecord} (received : conn.recv.1 = .ok packet)
    (kind : packet.messageType = .liveEvent) (decoded : LiveEventRecord.decode packet.payload = .ok record) :
    conn.nextRecord = (.ok (some record), conn.recv.2, false) := by
  rw [ActiveConnection.nextRecord]
  split
  · rename_i other found
    obtain rfl := Except.ok.inj (received.symm.trans found)
    rw [kind]
    dsimp only
    rw [decoded]
    rfl
  all_goals
    rename_i found
    nomatch received.symm.trans found

theorem nextRecord_ping (received : conn.recv.1 = .ok packet) (kind : packet.messageType = .ping) :
    conn.nextRecord = (conn.recv.2.send (TnpPacket.new .pong packet.streamId packet.payload)).2.nextRecord := by
  rw [ActiveConnection.nextRecord]
  split
  · rename_i other found
    obtain rfl := Except.ok.inj (received.symm.trans found)
    rw [kind]
  all_goals
    rename_i found
    nomatch received.symm.trans found

theorem nextRecord_late (received : conn.recv.1 = .error (.refused (.protocol .timedOut))) :
    conn.nextRecord = (.ok none, conn.recv.2, false) := by
  rw [ActiveConnection.nextRecord]
  split
  · rename_i found
    nomatch received.symm.trans found
  · rfl
  · rename_i found
    nomatch received.symm.trans found
  · rename_i apart _ found
    exact absurd (Except.error.inj (received.symm.trans found)).symm apart

theorem nextRecord_closed (received : conn.recv.1 = .error (.refused (.protocol .connectionClosed))) :
    conn.nextRecord = (.ok none, conn.recv.2, true) := by
  rw [ActiveConnection.nextRecord]
  split
  · rename_i found
    nomatch received.symm.trans found
  · rename_i found
    nomatch received.symm.trans found
  · rfl
  · rename_i apart found
    exact absurd (Except.error.inj (received.symm.trans found)).symm apart

end Records

omit [Crc32fast] [Replacement] in
theorem recordOf_ping {packet : TnpPacket} (kind : packet.messageType = .ping) : recordOf packet = none := by
  unfold recordOf
  rw [kind]
  rfl

omit [Crc32fast] [Replacement] in
theorem recordOf_event {packet : TnpPacket} {record : LiveEventRecord} (kind : packet.messageType = .liveEvent)
    (decoded : LiveEventRecord.decode packet.payload = .ok record) : recordOf packet = some record := by
  unfold recordOf
  rw [if_pos kind, decoded]
  rfl

omit [Replacement] in
/-- A ping before the packets is not heard. -/
theorem Hears.ping {packet : TnpPacket} {packets : List TnpPacket} {waits : Nat}
    {result : Parse ConnectorError (Option LiveEventRecord) × ActiveConnection × Bool}
    (kind : packet.messageType = .ping) (hears : Hears packets waits result) :
    Hears (packet :: packets) waits result := by
  have silent : (packet :: packets).filterMap recordOf = packets.filterMap recordOf := by
    rw [List.filterMap_cons, recordOf_ping kind]
  cases hears with
  | event record others conn part same carries =>
      exact .event record others conn (part.trans (List.suffix_cons _ _)) (silent.trans same) carries
  | late others left conn part same one carries =>
      exact .late others left conn (part.trans (List.suffix_cons _ _)) (silent.trans same) one carries
  | ended conn nothing => exact .ended conn (silent.trans nothing)

theorem nextRecord_hears {packets : List TnpPacket} {waits : Nat} {conn : ActiveConnection}
    (streamable : ∀ packet ∈ packets, Streamable packet) (carries : TnpChannel.Carries conn.channel packets waits) :
    Hears packets waits conn.nextRecord := by
  induction packets generalizing conn with
  | nil =>
      have yields := TnpChannel.recvFrom_yields (fun packet member => (streamable packet member).1) carries
      change TnpChannel.Yields [] waits conn.channel.recv at yields
      generalize reached : conn.channel.recv = result at yields
      have received : conn.recv = (fromProtocol result.1, { conn with channel := result.2 }) := by
        unfold ActiveConnection.recv
        rw [reached]
      cases yields with
      | packet first others channel front later => nomatch front
      | timedOut left channel one later =>
          rw [nextRecord_late (by rw [received]; rfl), received]
          exact .late [] left _ (List.suffix_refl _) rfl one later
      | closed channel last none' later =>
          rw [nextRecord_closed (by rw [received]; rfl), received]
          exact .ended _ rfl
  | cons packet packets hypothesis =>
      have yields := TnpChannel.recvFrom_yields (fun packet member => (streamable packet member).1) carries
      change TnpChannel.Yields (packet :: packets) waits conn.channel.recv at yields
      generalize reached : conn.channel.recv = result at yields
      have received : conn.recv = (fromProtocol result.1, { conn with channel := result.2 }) := by
        unfold ActiveConnection.recv
        rw [reached]
      cases yields with
      | packet first others channel front later =>
          obtain ⟨rfl, rfl⟩ := List.cons.inj front
          have taken : conn.recv.1 = .ok packet := by
            rw [received]
            rfl
          rcases (streamable packet List.mem_cons_self).2 with kind | ⟨kind, record, decoded⟩
          · rw [nextRecord_ping taken kind]
            apply Hears.ping kind
            apply hypothesis fun other member => streamable other (List.mem_cons_of_mem _ member)
            rw [ActiveConnection.send_channel, received]
            exact later
          · rw [nextRecord_event taken kind decoded, received]
            refine .event record packets _ (List.suffix_cons _ _) ?_ later
            rw [List.filterMap_cons, recordOf_event kind decoded]
      | timedOut left channel one later =>
          rw [nextRecord_late (by rw [received]; rfl), received]
          exact .late _ left _ (List.suffix_refl _) rfl one later
      | closed channel last none' later => nomatch last

/-- A subscription reads the packets, or has heard all of their records and the end. -/
inductive Listens (sub : LiveSubscription) (packets : List TnpPacket) (waits : Nat) : Prop
  | going (conn : ActiveConnection) (present : sub.conn = some conn) (open' : sub.unsubscribed = false)
      (streamable : ∀ packet ∈ packets, Streamable packet) (carries : TnpChannel.Carries conn.channel packets waits)
  | ended (gone : sub.unsubscribed = true) (nothing : packets.filterMap recordOf = [])

variable {sub : LiveSubscription} {packets : List TnpPacket} {waits : Nat} {timeout : Option Nat}

/-- One call returns the next record or none, and never fails. -/
theorem nextEvent_listens (listens : Listens sub packets waits) (some' : timeout ≠ some 0) :
    ∃ found others left, (sub.nextEvent timeout).1 = .ok found ∧ Listens (sub.nextEvent timeout).2 others left ∧
      packets.filterMap recordOf = found.toList ++ others.filterMap recordOf ∧ left ≤ waits ∧
      (found = none → packets.filterMap recordOf = [] ∨ left < waits) := by
  cases listens with
  | ended gone nothing =>
      have idle : sub.nextEvent timeout = (.ok none, sub) := if_pos gone
      rw [idle]
      exact ⟨none, packets, waits, rfl, .ended gone nothing, rfl, le_refl _, fun _ => Or.inl nothing⟩
  | going conn present open' streamable carries =>
      have allowed : setReadTimeout timeout = .ok () := if_neg some'
      have calls : sub.nextEvent timeout = (conn.nextRecord.1,
          { sub with conn := some conn.nextRecord.2.1, unsubscribed := conn.nextRecord.2.2 }) := by
        unfold LiveSubscription.nextEvent
        rw [open', present, allowed]
        rfl
      have hears := nextRecord_hears streamable carries
      rw [calls]
      generalize conn.nextRecord = result at hears
      cases hears with
      | event record others next part same later =>
          exact ⟨some record, others, waits, rfl, .going next rfl rfl (fun packet member =>
            streamable packet (part.subset member)) later, same, le_refl _, nofun⟩
      | late others left next part same one later =>
          exact ⟨none, others, left, rfl, .going next rfl rfl (fun packet member =>
            streamable packet (part.subset member)) later, same, by omega, fun _ => Or.inr (by omega)⟩
      | ended next nothing =>
          exact ⟨none, packets, waits, rfl, .ended rfl nothing, rfl, le_refl _, fun _ => Or.inl nothing⟩

/-- The record that a call returned. -/
def heard : Parse ConnectorError (Option LiveEventRecord) → Option LiveEventRecord
  | .ok found => found
  | .error _ => none

/-- No call fails. The records are heard in their order, and enough calls hear them all. -/
theorem nextEvents_listens (listens : Listens sub packets waits) (timeouts : List (Option Nat))
    (some' : ∀ timeout ∈ timeouts, timeout ≠ some 0) :
    (∀ result ∈ sub.nextEvents timeouts, ∃ found, result = .ok found) ∧
      (sub.nextEvents timeouts).filterMap heard <+: packets.filterMap recordOf ∧
      ((packets.filterMap recordOf).length + waits ≤ timeouts.length →
        (sub.nextEvents timeouts).filterMap heard = packets.filterMap recordOf) := by
  induction timeouts generalizing sub packets waits with
  | nil =>
      refine ⟨nofun, List.nil_prefix, fun enough => ?_⟩
      have empty : (packets.filterMap recordOf).length = 0 := by
        rw [List.length_nil] at enough
        omega
      rw [List.length_eq_zero_iff.mp empty]
      rfl
  | cons timeout timeouts hypothesis =>
      obtain ⟨found, others, left, result, next, split, fewer, progress⟩ :=
        nextEvent_listens listens (some' timeout List.mem_cons_self)
      obtain ⟨fine, part, all⟩ := hypothesis next fun other member => some' other (List.mem_cons_of_mem _ member)
      have hears : (sub.nextEvents (timeout :: timeouts)).filterMap heard =
          found.toList ++ ((sub.nextEvent timeout).2.nextEvents timeouts).filterMap heard := by
        rw [LiveSubscription.nextEvents, result]
        cases found with
        | none => rfl
        | some record => rfl
      rw [hears, split]
      refine ⟨?_, (List.prefix_append_right_inj _).mpr part, fun enough => ?_⟩
      · intro outcome member
        rw [LiveSubscription.nextEvents, result] at member
        rcases List.mem_cons.mp member with rfl | later
        · exact ⟨found, rfl⟩
        · exact fine outcome later
      · rw [List.length_append, List.length_cons] at enough
        cases found with
        | some record =>
            rw [Option.toList_some, List.length_singleton] at enough
            rw [all (by omega)]
        | none =>
            rw [Option.toList_none, List.length_nil] at enough
            rcases progress rfl with empty | less
            · have nothing : others.filterMap recordOf = [] := split.symm.trans empty
              rw [nothing] at part
              rw [nothing, List.prefix_nil.mp part]
            · rw [all (by omega)]

omit [Replacement] in
/-- A packet that was expected is the next one. -/
theorem expect_ok {conn : ActiveConnection} {kind : TnpMessageType} {packet : TnpPacket}
    (found : (conn.expect kind).1 = .ok packet) :
    conn.recv.1 = .ok packet ∧ packet.messageType = kind ∧ (conn.expect kind).2 = conn.recv.2 := by
  unfold ActiveConnection.expect at found ⊢
  rcases received : conn.recv with ⟨outcome, next⟩
  rw [received] at found
  cases outcome with
  | error fault => contradiction
  | ok other =>
      dsimp only at found ⊢
      by_cases same : other.messageType = kind
      · rw [if_neg (not_not.mpr same)] at found ⊢
        obtain rfl := Except.ok.inj found
        exact ⟨rfl, same, rfl⟩
      · rw [if_pos same] at found
        contradiction

omit [Replacement] in
/-- A subscription that succeeds has read its response and nothing else. -/
theorem subscribe_reads {conn : ActiveConnection} {request : SubscribeRequest}
    (asked : conn.subscribe request = .ok sub) (carries : TnpChannel.Carries conn.channel packets waits)
    (sendable : ∀ packet ∈ packets, packet.Sendable) :
    ∃ packet others resp next, packets = packet :: others ∧ SubscribeResponse.decode packet.payload = .ok resp ∧
      sub = ⟨some next, resp.subscriptionId, resp.snapshotStart, resp.snapshotEnd, false⟩ ∧
      TnpChannel.Carries next.channel others waits := by
  unfold ActiveConnection.subscribe at asked
  generalize wrote : conn.send (ActiveConnection.subscribePacket request) = outcome at asked
  have channel : outcome.2.channel = conn.channel := wrote ▸ ActiveConnection.send_channel conn _
  obtain ⟨⟨⟩, _, asked⟩ := Except.bind_eq_ok.mp asked
  obtain ⟨packet, answered, asked⟩ := Except.bind_eq_ok.mp asked
  obtain ⟨taken, _, next⟩ := expect_ok answered
  obtain ⟨resp, decoded, asked⟩ := Except.bind_eq_ok.mp asked
  obtain ⟨⟨⟩, _, asked⟩ := Except.bind_eq_ok.mp asked
  obtain rfl := Except.ok.inj asked
  have yields := TnpChannel.recvFrom_yields sendable carries
  change TnpChannel.Yields packets waits conn.channel.recv at yields
  have arrived : conn.channel.recv.1 = .ok packet := channel ▸ Except.mapError_eq_ok.mp taken
  have after : outcome.2.recv.2.channel = conn.channel.recv.2 := by
    rw [← channel]
    rfl
  rw [← next] at after
  generalize conn.channel.recv = result at yields arrived after
  cases yields with
  | packet first others channel front later =>
      obtain rfl := Except.ok.inj arrived
      exact ⟨first, others, resp, _, front, Except.mapError_eq_ok.mp decoded, rfl, after ▸ later⟩
  | timedOut left channel one later => nomatch arrived
  | closed channel last none' later => nomatch arrived

end Hearing

section Sessions

variable [Crc32fast] [Replacement]

/-- A session without failures: what it is about to receive comes in time, and writing succeeds. -/
structure InStep (conn : ActiveConnection) (packets : List TnpPacket) : Prop where
  carries : TnpChannel.Carries conn.channel packets 0
  sendable : ∀ packet ∈ packets, packet.Sendable
  failures : conn.failures = []

variable {conn : ActiveConnection} {packet : TnpPacket} {packets later : List TnpPacket}

omit [Replacement] in
theorem InStep.send (step : InStep conn packets) (size : packet.payload.length ≤ maxPacketLen) :
    (conn.send packet).1 = .ok () ∧ InStep (conn.send packet).2 packets := by
  have small : ¬ maxPacketLen < packet.payload.length := Nat.not_lt.mpr size
  have sends : conn.send packet = (.ok (), { conn with written := conn.written ++ [packet], failures := [] }) := by
    unfold ActiveConnection.send TnpPacket.encode
    rw [if_neg small, step.failures]
    rfl
  rw [sends]
  exact ⟨rfl, step.carries, step.sendable, rfl⟩

omit [Replacement] in
theorem InStep.recv (step : InStep conn (packet :: packets)) :
    conn.recv.1 = .ok packet ∧ InStep conn.recv.2 packets := by
  have yields := TnpChannel.recvFrom_yields step.sendable step.carries
  change TnpChannel.Yields _ 0 conn.channel.recv at yields
  unfold ActiveConnection.recv
  generalize conn.channel.recv = result at yields
  cases yields with
  | packet first others channel front carries =>
      obtain ⟨rfl, rfl⟩ := List.cons.inj front
      exact ⟨rfl, carries, fun other member => step.sendable other (List.mem_cons_of_mem _ member), step.failures⟩
  | timedOut left channel one carries => nomatch one
  | closed channel last none' carries => nomatch last

omit [Replacement] in
theorem InStep.expect (step : InStep conn (packet :: packets)) :
    (conn.expect packet.messageType).1 = .ok packet ∧ InStep (conn.expect packet.messageType).2 packets := by
  obtain ⟨received, next⟩ := step.recv
  unfold ActiveConnection.expect
  rcases same : conn.recv with ⟨outcome, after⟩
  rw [same] at received next
  obtain rfl : outcome = .ok packet := received
  dsimp only
  rw [if_neg (not_not.mpr rfl)]
  exact ⟨rfl, next⟩

/-- The next record is heard, and the pings before it are answered. -/
theorem InStep.nextRecord {events : List TnpPacket} {record : LiveEventRecord} {records : List LiveEventRecord}
    (step : InStep conn (events ++ later)) (streamable : ∀ packet ∈ events, Streamable packet)
    (ahead : events.filterMap recordOf = record :: records) :
    ∃ next others, conn.nextRecord = (.ok (some record), next, false) ∧ others <:+ events ∧
      others.filterMap recordOf = records ∧ InStep next (others ++ later) := by
  induction events generalizing conn with
  | nil => nomatch ahead
  | cons event events hypothesis =>
      obtain ⟨received, after⟩ := step.recv
      rcases (streamable event List.mem_cons_self).2 with kind | ⟨kind, found, decoded⟩
      · rw [List.filterMap_cons, recordOf_ping kind] at ahead
        have size : (TnpPacket.new .pong event.streamId event.payload).payload.length ≤ maxPacketLen :=
          (streamable event List.mem_cons_self).1.2
        have pongs := (after.send size).2
        obtain ⟨next, others, result, part, same, goes⟩ :=
          hypothesis pongs (fun other member => streamable other (List.mem_cons_of_mem _ member)) ahead
        rw [nextRecord_ping received kind]
        exact ⟨next, others, result, part.trans (List.suffix_cons _ _), same, goes⟩
      · rw [List.filterMap_cons, recordOf_event kind decoded] at ahead
        obtain ⟨rfl, rfl⟩ := List.cons.inj ahead
        exact ⟨conn.recv.2, events, nextRecord_event received kind decoded, List.suffix_cons _ _, rfl, after⟩

/-- So many records are heard, one with each call. -/
theorem InStep.nextEvents (sub : LiveSubscription) {events : List TnpPacket} {timeouts : List (Option Nat)}
    (step : InStep conn (events ++ later)) (streamable : ∀ packet ∈ events, Streamable packet)
    (present : sub.conn = some conn) (going : sub.unsubscribed = false)
    (allowed : ∀ timeout ∈ timeouts, timeout ≠ some 0)
    (enough : timeouts.length ≤ (events.filterMap recordOf).length) :
    sub.nextEvents timeouts = ((events.filterMap recordOf).take timeouts.length).map (fun record => .ok (some record)) ∧
      ∃ next others, (sub.afterEvents timeouts) = { sub with conn := some next } ∧ others <:+ events ∧
        InStep next (others ++ later) := by
  induction timeouts generalizing sub conn events with
  | nil =>
      refine ⟨rfl, conn, events, ?_, List.suffix_refl _, step⟩
      rw [LiveSubscription.afterEvents, ← present]
  | cons timeout timeouts hypothesis =>
      rcases ahead : events.filterMap recordOf with _ | ⟨record, records⟩
      · rw [ahead] at enough
        nomatch enough
      · obtain ⟨next, others, result, part, same, goes⟩ := step.nextRecord streamable ahead
        have passes : setReadTimeout timeout = .ok () := if_neg (allowed timeout List.mem_cons_self)
        have calls : sub.nextEvent timeout = (.ok (some record), { sub with conn := some next }) := by
          unfold LiveSubscription.nextEvent
          rw [going, present, passes]
          dsimp only
          rw [result]
          cases sub
          cases going
          rfl
        rw [ahead, List.length_cons, List.length_cons] at enough
        obtain ⟨heard, last, left, ends, suffix, reached⟩ := hypothesis { sub with conn := some next } goes
          (fun packet member => streamable packet (part.subset member)) rfl going
          (fun other member => allowed other (List.mem_cons_of_mem _ member)) (by rw [same]; omega)
        refine ⟨?_, last, left, ?_, suffix.trans part, reached⟩
        · rw [LiveSubscription.nextEvents, calls, heard, same]
          rfl
        · rw [LiveSubscription.afterEvents, calls, ends]

omit [Replacement] in
/-- Everything up to the answer of the unsubscription is skipped. -/
theorem InStep.drain {events : List TnpPacket} (step : InStep conn (events ++ packet :: later))
    (apart : ∀ event ∈ events, event.messageType ≠ .unsubscribeResponse)
    (kind : packet.messageType = .unsubscribeResponse) : InStep conn.drain later := by
  induction events generalizing conn with
  | nil =>
      obtain ⟨received, after⟩ := step.recv
      rw [ActiveConnection.drain]
      split
      · rename_i found
        obtain rfl := Except.ok.inj (received.symm.trans found)
        rwa [if_pos kind]
      · rename_i found
        nomatch received.symm.trans found
  | cons event events hypothesis =>
      obtain ⟨received, after⟩ := step.recv
      rw [ActiveConnection.drain]
      split
      · rename_i found
        obtain rfl := Except.ok.inj (received.symm.trans found)
        rw [if_neg (apart event List.mem_cons_self)]
        exact hypothesis after fun other member => apart other (List.mem_cons_of_mem _ member)
      · rename_i found
        nomatch received.symm.trans found

omit [Replacement] in
theorem InStep.connect {config : ConnectionConfig} {arrivals : List Arrival} {hello : HandshakeResponse}
    (step : InStep ⟨config, [], 0, 0, TnpChannel.new arrivals, [], []⟩ (packet :: packets))
    (size : (ActiveConnection.handshakePacket config).payload.length ≤ maxPacketLen)
    (kind : packet.messageType = .handshakeResponse) (decoded : HandshakeResponse.decode packet.payload = .ok hello)
    (success : hello.success = true) :
    ∃ conn, ActiveConnection.connect config arrivals [] = .ok conn ∧ conn.serverId = hello.serverId ∧
      conn.negotiatedVersion = hello.negotiatedVersion ∧ conn.capabilityFlags = hello.capabilityFlags ∧
      InStep conn packets := by
  obtain ⟨greets, greeted⟩ := step.send size
  obtain ⟨answers, answered⟩ := greeted.expect
  rw [kind] at answers answered
  have passes : fromProtocol (.ok hello) = .ok hello := rfl
  have welcome : ¬ hello.success = false := by rw [success]; exact Bool.noConfusion
  unfold ActiveConnection.connect
  dsimp only
  rw [greets, Except.ok_bind, answers, Except.ok_bind, decoded, passes, Except.ok_bind, Except.refuseIf_bind welcome]
  exact ⟨_, rfl, rfl, rfl, rfl, answered.carries, answered.sendable, answered.failures⟩

omit [Replacement] in
theorem InStep.subscribe {request : SubscribeRequest} {resp : SubscribeResponse}
    (step : InStep conn (packet :: packets))
    (size : (ActiveConnection.subscribePacket request).payload.length ≤ maxPacketLen)
    (kind : packet.messageType = .subscribeResponse) (decoded : SubscribeResponse.decode packet.payload = .ok resp)
    (success : resp.success = true) :
    ∃ next, conn.subscribe request =
        .ok ⟨some next, resp.subscriptionId, resp.snapshotStart, resp.snapshotEnd, false⟩ ∧ InStep next packets := by
  obtain ⟨asks, asked⟩ := step.send size
  obtain ⟨answers, answered⟩ := asked.expect
  rw [kind] at answers answered
  have passes : fromProtocol (.ok resp) = .ok resp := rfl
  have welcome : ¬ resp.success = false := by rw [success]; exact Bool.noConfusion
  unfold ActiveConnection.subscribe
  dsimp only
  rw [asks, Except.ok_bind, answers, Except.ok_bind, decoded, passes, Except.ok_bind, Except.refuseIf_bind welcome]
  exact ⟨_, rfl, answered⟩

omit [Replacement] in
theorem InStep.unsubscribe (sub : LiveSubscription) {events : List TnpPacket}
    (step : InStep conn (events ++ packet :: later)) (present : sub.conn = some conn) (going : sub.unsubscribed = false)
    (apart : ∀ event ∈ events, event.messageType ≠ .unsubscribeResponse)
    (kind : packet.messageType = .unsubscribeResponse) :
    ∃ next, sub.unsubscribe = .ok next ∧ InStep next later := by
  have size : (TnpPacket.new .unsubscribeRequest 4
      (UnsubscribeRequest.encode ⟨sub.subscriptionId⟩)).payload.length ≤ maxPacketLen := by
    change (LittleEndian.le64 sub.subscriptionId).length ≤ maxPacketLen
    rw [LittleEndian.le64_length]
    decide
  have asked := (step.send size).2
  unfold LiveSubscription.unsubscribe
  rw [present, going]
  exact ⟨_, rfl, asked.drain apart kind⟩

omit [Replacement] in
theorem InStep.ping (step : InStep conn (packet :: packets)) (kind : packet.messageType = .pong) :
    conn.ping.1 = .ok () ∧ InStep conn.ping.2 packets := by
  have size : (TnpPacket.new .ping 2 [1, 2, 3, 4]).payload.length ≤ maxPacketLen := by decide
  obtain ⟨asks, asked⟩ := step.send size
  obtain ⟨answers, answered⟩ := asked.expect
  rw [kind] at answers answered
  unfold ActiveConnection.ping
  generalize ActiveConnection.send _ _ = outcome at *
  rcases outcome with ⟨outcome, conn⟩
  obtain rfl : outcome = .ok () := asks
  dsimp only at *
  rw [answers]
  exact ⟨rfl, answered⟩

/-- A whole session whose packets come in time, however their bytes are cut into reads: it connects, subscribes, hears
one record with each call, and is in step again after its unsubscription, which skips the records that were not
asked for. -/
theorem sessions_stay_in_step {config : ConnectionConfig} {arrivals : List Arrival} {request : SubscribeRequest}
    {greeting answer farewell pong : TnpPacket} {events : List TnpPacket} {hello : HandshakeResponse}
    {resp : SubscribeResponse} {timeouts : List (Option Nat)}
    (unbroken : ∀ arrival ∈ arrivals, arrival.breaks = false) (timely : arrivals.countP Arrival.timesOut = 0)
    (carried : arrivals.flatMap Arrival.carried =
      (greeting :: answer :: (events ++ farewell :: pong :: later)).flatMap TnpPacket.bytes)
    (sendable : ∀ packet ∈ greeting :: answer :: (events ++ farewell :: pong :: later), packet.Sendable)
    (greets : greeting.messageType = .handshakeResponse)
    (hears : HandshakeResponse.decode greeting.payload = .ok hello) (welcome : hello.success = true)
    (answers : answer.messageType = .subscribeResponse)
    (reads : SubscribeResponse.decode answer.payload = .ok resp) (accepted : resp.success = true)
    (streamable : ∀ event ∈ events, Streamable event) (ends : farewell.messageType = .unsubscribeResponse)
    (echoes : pong.messageType = .pong)
    (user : (ActiveConnection.handshakePacket config).payload.length ≤ maxPacketLen)
    (query : (ActiveConnection.subscribePacket request).payload.length ≤ maxPacketLen)
    (allowed : ∀ timeout ∈ timeouts, timeout ≠ some 0)
    (enough : timeouts.length ≤ (events.filterMap recordOf).length) :
    ∃ conn sub session, ActiveConnection.connect config arrivals [] = .ok conn ∧ conn.serverId = hello.serverId ∧
      conn.negotiatedVersion = hello.negotiatedVersion ∧ conn.capabilityFlags = hello.capabilityFlags ∧
      conn.subscribe request = .ok sub ∧ sub.subscriptionId = resp.subscriptionId ∧
      sub.nextEvents timeouts =
        ((events.filterMap recordOf).take timeouts.length).map (fun record => .ok (some record)) ∧
      (sub.afterEvents timeouts).unsubscribe = .ok session ∧ session.ping.1 = .ok () ∧
      TnpChannel.Carries session.ping.2.channel later 0 := by
  have opened : InStep ⟨config, [], 0, 0, TnpChannel.new arrivals, [], []⟩
      (greeting :: answer :: (events ++ farewell :: pong :: later)) :=
    ⟨⟨carried, unbroken, timely⟩, sendable, rfl⟩
  obtain ⟨conn, connects, server, version, flags, greeted⟩ := opened.connect user greets hears welcome
  obtain ⟨next, subscribes, answered⟩ := greeted.subscribe query answers reads accepted
  obtain ⟨records, last, others, after, part, reached⟩ := answered.nextEvents
    ⟨some next, resp.subscriptionId, resp.snapshotStart, resp.snapshotEnd, false⟩ streamable rfl rfl allowed enough
  have apart : ∀ event ∈ others, event.messageType ≠ .unsubscribeResponse := by
    intro event member same
    rcases (streamable event (part.subset member)).2 with kind | ⟨kind, _⟩
    · nomatch kind.symm.trans same
    · nomatch kind.symm.trans same
  obtain ⟨session, parts, free⟩ := reached.unsubscribe
    ⟨some last, resp.subscriptionId, resp.snapshotStart, resp.snapshotEnd, false⟩ rfl rfl apart ends
  obtain ⟨pongs, goes⟩ := free.ping echoes
  exact ⟨conn, _, session, connects, server, version, flags, subscribes, rfl, records, after ▸ parts, pongs,
    goes.carries⟩

end Sessions

section Delivery

variable [Binary64] [Crc32fast] [Unicode] [ErrorTexts] [Replacement]

omit [Binary64] [Crc32fast] [Unicode] [ErrorTexts] [Replacement] in
/-- A text within a payload that can be sent has a length field. -/
theorem fits_of_payload {text : Text} {payload : List UInt8} (size : payload.length ≤ maxPacketLen)
    (within : (Utf8.encode text).length ≤ payload.length) : Fits text := by
  have small : (Utf8.encode text).length ≤ maxPacketLen := within.trans size
  exact small.trans_lt (by decide)

omit [Binary64] [Crc32fast] [Unicode] [ErrorTexts] [Replacement] in
/-- The packet of a record that was small enough to be sent is read back. -/
theorem eventPacket_streamable {streamId : UInt32} {record : LiveEventRecord}
    (size : (eventPacket streamId record).payload.length ≤ maxPacketLen) :
    Streamable (eventPacket streamId record) ∧ recordOf (eventPacket streamId record) = some record := by
  have fits : Fits record.payloadHex := by
    apply fits_of_payload size
    change _ ≤ record.encode.length
    unfold LiveEventRecord.encode
    simp only [List.length_append]
    omega
  have decoded := record.decode_encode fits
  exact ⟨⟨⟨rfl, size⟩, Or.inr ⟨rfl, record, decoded⟩⟩, recordOf_event rfl decoded⟩

omit [Binary64] [Crc32fast] [Unicode] [ErrorTexts] [Replacement] in
theorem eventPackets_records {streamId : UInt32} {records : List LiveEventRecord}
    (sizes : ∀ packet ∈ records.map (eventPacket streamId), packet.payload.length ≤ maxPacketLen) :
    (∀ packet ∈ records.map (eventPacket streamId), Streamable packet) ∧
      (records.map (eventPacket streamId)).filterMap recordOf = records := by
  have each : ∀ record ∈ records, Streamable (eventPacket streamId record) ∧
      recordOf (eventPacket streamId record) = some record :=
    fun record member => eventPacket_streamable (sizes _ (List.mem_map_of_mem member))
  constructor
  · intro packet member
    obtain ⟨record, inside, rfl⟩ := List.mem_map.mp member
    exact (each record inside).1
  · rw [List.filterMap_map]
    calc records.filterMap (recordOf ∘ eventPacket streamId) = records.filterMap some :=
          List.filterMap_congr fun record member => (each record member).2
      _ = records := List.filterMap_some

omit [Crc32fast] [Unicode] [ErrorTexts] [Replacement] in
/-- The response of a subscription is read back. -/
theorem response_reads {listener : Listener} {resp : SubscribeResponse}
    (size : listener.response.payload.length ≤ maxPacketLen)
    (answer : SubscribeResponse.decode listener.response.payload = .ok resp) :
    resp.subscriptionId = listener.id ∧ resp.snapshotStart = UInt64.ofNat listener.start ∧
      resp.snapshotEnd = UInt64.ofNat listener.stop := by
  have fits : Fits (Shared.subscribedText listener.id) := by
    apply fits_of_payload size
    unfold Listener.response TnpPacket.new SubscribeResponse.encode
    simp only [List.length_append]
    omega
  have decoded : SubscribeResponse.decode listener.response.payload = _ := SubscribeResponse.decode_encode _ fits
  obtain rfl := Except.ok.inj (decoded.symm.trans answer)
  exact ⟨rfl, rfl, rfl⟩

/-- What a client hears of a subscription: the records of one snapshot and then those that the server put on its
channel, which are records of events that were dispatched after the subscription began. None of them is heard twice or
out of order, and no call fails. When the server has nothing left to send, enough calls hear them all. -/
theorem live_subscriptions_deliver {serverId : Text} {store : Storage.Store} {disk : Storage.Disk} {host : Host}
    {before after : List Turn} {place : Nat} {connection reached : Connection} {input : Input}
    {request : SubscribeRequest} {logical : LogicalPlan} {listener : Listener} {sent : List TnpPacket}
    {conn : ActiveConnection} {sub : LiveSubscription} {timeouts : List (Option Nat)}
    (reachable : (Host.start serverId store disk).run before = host)
    (present : host.connections[place]? = some connection) (serving : connection.stage = .serving)
    (idle : connection.outbox = []) (heard' : input.received = .ok (ActiveConnection.subscribePacket request))
    (fits : Fits request.queryStr) (parsed : parseQuery request.format request.queryStr = .ok logical)
    (sound : host.shared.poisoned = false)
    (fresh : listener = host.shared.listenerFor 3 request.normalized logical)
    (silent : ∀ turn ∈ after, Silent place turn)
    (ends : ((host.step (.work place input)).run after).connections[place]? = some reached)
    (transcript : reached.transcript = ⟨ActiveConnection.subscribePacket request, sent⟩ :: connection.transcript)
    (unread : conn.channel.readBuf = []) (unbroken : ∀ arrival ∈ conn.channel.arrivals, arrival.breaks = false)
    (carried : conn.channel.arrivals.flatMap Arrival.carried = sent.flatMap TnpPacket.bytes)
    (subscribed : conn.subscribe request = .ok sub) (allowed : ∀ timeout ∈ timeouts, timeout ≠ some 0) :
    sub.subscriptionId = listener.id ∧ sub.snapshotStart = UInt64.ofNat listener.start ∧
      sub.snapshotEnd = UInt64.ofNat listener.stop ∧
      (∀ result ∈ sub.nextEvents timeouts, ∃ found, result = .ok found) ∧
      ∃ channel earlier,
        ((host.step (.work place input)).run after).shared.hub.channels[listener.place]? = some channel ∧
        earlier <+: after ∧
        channel.sent.Sublist (liveRecords listener.id (hubFilter listener.plan) (after.flatMap Turn.dispatched)) ∧
        (sub.nextEvents timeouts).filterMap heard <+:
          ((host.step (.work place input)).run earlier).snapshot listener ++ channel.sent ∧
        (reached.stage = .streaming listener → reached.outbox = [] → channel.received = channel.sent.length →
          sent.length + conn.channel.arrivals.countP Arrival.timesOut ≤ timeouts.length →
            (sub.nextEvents timeouts).filterMap heard =
              ((host.step (.work place input)).run earlier).snapshot listener ++ channel.sent) := by
  have decoded : SubscribeRequest.decode (ActiveConnection.subscribePacket request).payload = .ok request.normalized :=
    request.decode_encode fits
  obtain ⟨reached', channel, sent', earlier, ends', found, transcript', within, sizes, part, sends, whole⟩ :=
    subscription_sends reachable present serving idle heard' rfl decoded parsed sound fresh silent
  obtain rfl : reached' = reached := Option.some.inj (ends'.symm.trans ends)
  obtain rfl : sent' = sent := by
    rw [transcript] at transcript'
    exact (Exchange.mk.inj (List.cons.inj transcript').1).2.symm
  have versions : ∀ packet ∈ sent', packet.version = tnpVersion := by
    intro packet member
    rcases List.mem_cons.mp (sends.subset member) with rfl | later
    · rfl
    · obtain ⟨record, _, rfl⟩ := List.mem_map.mp later
      rfl
  obtain ⟨packet, others, resp, next, front, answer, rfl, carries⟩ := subscribe_reads subscribed
    ⟨by rw [unread, List.nil_append, carried], unbroken, rfl⟩ fun packet member =>
      ⟨versions packet member, sizes packet member⟩
  subst front
  obtain ⟨rfl, later⟩ := List.cons_prefix_cons.mp sends
  obtain ⟨id, start, stop⟩ := response_reads (sizes _ List.mem_cons_self) answer
  rw [List.prefix_iff_eq_take, ← List.map_take] at later
  generalize taken : List.take others.length _ = records at later
  subst later
  obtain ⟨streamable, same⟩ := eventPackets_records fun packet member => sizes packet (List.mem_cons_of_mem _ member)
  have listens : Listens ⟨some next, resp.subscriptionId, resp.snapshotStart, resp.snapshotEnd, false⟩ _ _ :=
    .going next rfl rfl streamable carries
  obtain ⟨fine, hears, all⟩ := nextEvents_listens listens timeouts allowed
  rw [same] at hears all
  refine ⟨id, start, stop, fine, channel, earlier, found, within, part, hears.trans ?_, ?_⟩
  · exact taken ▸ List.take_prefix _ _
  · intro stage empty drained enough
    have equal := (List.cons.inj (whole stage empty drained)).2
    have lengths := congrArg List.length equal
    rw [List.length_map, List.length_map] at lengths
    rw [List.length_cons, List.length_map] at enough
    rw [all (by omega)]
    exact (taken ▸ List.take_prefix _ _ : records <+: _).eq_of_length lengths

section Samples

/-- The response that a new server sends to the first subscriber. -/
def firstResponse : TnpPacket :=
  TnpPacket.new .subscribeResponse 3 (SubscribeResponse.encode ⟨1, true, 0, 0, Shared.subscribedText 1⟩)

omit [Binary64] [Crc32fast] [Unicode] [ErrorTexts] [Replacement] in
theorem firstResponse_small : firstResponse.payload.length ≤ 4076 ∧ firstResponse.payload.length ≤ maxPacketLen := by
  decide +kernel

omit [Binary64] [Unicode] [ErrorTexts] [Replacement] in
theorem firstResponse_chunk : firstResponse.bytes ≠ [] ∧ firstResponse.bytes.length ≤ 4096 := by
  have length : firstResponse.bytes.length = 16 + firstResponse.payload.length + 4 := firstResponse.bytes_length
  have small := firstResponse_small.1
  refine ⟨fun empty => ?_, by omega⟩
  rw [empty, List.length_nil] at length
  omega

/-- A client to which the response comes in one piece. -/
def answeredClient : ActiveConnection where
  config := .default
  serverId := []
  negotiatedVersion := tnpVersion
  capabilityFlags := 15
  channel := ⟨[], [.data firstResponse.bytes firstResponse_chunk.1 firstResponse_chunk.2]⟩
  written := []
  failures := []

omit [Binary64] [Unicode] [ErrorTexts] [Replacement] in
theorem answeredClient_receives : answeredClient.channel.recv.1 = .ok firstResponse := by
  have sendable : firstResponse.Sendable := ⟨rfl, firstResponse_small.2⟩
  have decoded := TnpPacket.decode_bytes sendable []
  rw [List.append_nil] at decoded
  have found : TnpChannel.buffered firstResponse.bytes = some (.ok (firstResponse, firstResponse.bytes.length)) := by
    unfold TnpChannel.buffered
    rw [if_neg firstResponse_chunk.1, decoded]
  change (TnpChannel.recvFrom firstResponse.bytes []).1 = _
  unfold TnpChannel.recvFrom
  rw [found]

omit [Binary64] [Unicode] [ErrorTexts] [Replacement] in
theorem answeredClient_subscribes : ∃ sub, answeredClient.subscribe everything = .ok sub := by
  have small : (ActiveConnection.subscribePacket everything).payload.length ≤ maxPacketLen := by decide +kernel
  have written : answeredClient.send (ActiveConnection.subscribePacket everything) =
      (.ok (), { answeredClient with written := [ActiveConnection.subscribePacket everything] }) := by
    unfold ActiveConnection.send
    rw [TnpPacket.encode_ok ⟨rfl, small⟩]
    rfl
  have fits : Fits (Shared.subscribedText 1) := by
    unfold Fits
    decide +kernel
  have decoded : SubscribeResponse.decode firstResponse.payload =
      .ok ⟨1, true, 0, 0, Shared.subscribedText 1⟩ := SubscribeResponse.decode_encode _ fits
  unfold ActiveConnection.subscribe
  rw [written]
  have answered : (({ answeredClient with written := [ActiveConnection.subscribePacket everything] } :
      ActiveConnection).expect .subscribeResponse).1 = .ok firstResponse := by
    unfold ActiveConnection.expect ActiveConnection.recv
    rw [answeredClient_receives]
    rfl
  dsimp only
  rw [answered, Except.ok_bind, Except.ok_bind, decoded]
  exact ⟨_, rfl⟩

/-- A client asked for everything, and the response is still to be sent or was sent. -/
def askedHost (outbox reply : List TnpPacket) : Host where
  shared := { newHost.shared with hub := (SubscriptionHub.new.register none).2 }
  connections := [⟨.replaying ⟨1, 0, 3, planQuery (.scan Scan.unrestricted), 0, 0⟩, outbox,
    ⟨ActiveConnection.subscribePacket everything, reply⟩ :: greeted⟩]

omit [Replacement] in
theorem helloHost_responds :
    (helloHost.step (receives (ActiveConnection.subscribePacket everything))).run [sends] =
      askedHost [] [firstResponse] := by
  have sent : Shared.send firstResponse none = .ok () := by
    unfold Shared.send TnpPacket.encode
    rw [if_neg (Nat.not_lt.mpr firstResponse_small.2)]
    rfl
  have asked : helloHost.step (receives (ActiveConnection.subscribePacket everything)) = askedHost [firstResponse] [] :=
    rfl
  rw [asked]
  change (askedHost [firstResponse] []).step sends = askedHost [] [firstResponse]
  exact Host.step_of_work rfl (work_sends rfl sent)

omit [Binary64] [Crc32fast] [Unicode] [ErrorTexts] [Replacement] in
/-- A client asks a new server for everything and hears nothing. -/
theorem live_subscriptions_deliver_sample :
    letI := Binary64.exact
    letI := Crc32fast.ieee
    letI := Unicode.ascii
    letI : ErrorTexts := ⟨fun _ => [], fun _ => []⟩
    letI : Replacement := ⟨fun _ => []⟩
    ∃ sub, answeredClient.subscribe everything = .ok sub ∧ sub.subscriptionId = 1 ∧
      (∀ result ∈ sub.nextEvents [none, some 1], ∃ found, result = .ok found) ∧
      (sub.nextEvents [none, some 1]).filterMap heard = [] := by
  let := Binary64.exact
  generalize Crc32fast.ieee = checksum
  let := Unicode.ascii
  let : ErrorTexts := ⟨fun _ => [], fun _ => []⟩
  let : Replacement := ⟨fun _ => []⟩
  obtain ⟨sub, subscribed⟩ := answeredClient_subscribes
  have silent : ∀ turn ∈ [sends], Silent 0 turn := by
    intro turn member input same packet
    rw [List.mem_singleton.mp member] at same
    obtain ⟨_, rfl⟩ := Turn.work.inj same
    nofun
  have fits : Fits everything.queryStr := by
    unfold Fits
    decide
  have fresh : (⟨1, 0, 3, planQuery (.scan Scan.unrestricted), 0, 0⟩ : Listener) =
      helloHost.shared.listenerFor 3 everything.normalized (.scan Scan.unrestricted) := rfl
  have present : helloHost.connections[0]? = some ⟨.serving, [], greeted⟩ := rfl
  have heard' : (⟨.ok (ActiveConnection.subscribePacket everything), none⟩ : Input).received =
      .ok (ActiveConnection.subscribePacket everything) := rfl
  have ends : ((helloHost.step (.work 0 ⟨.ok (ActiveConnection.subscribePacket everything), none⟩)).run
      [sends]).connections[0]? = (askedHost [] [firstResponse]).connections[0]? :=
    congrArg (·.connections[0]?) helloHost_responds
  have parsed : parseQuery everything.format everything.queryStr = .ok (.scan Scan.unrestricted) := rfl
  have whole : answeredClient.channel.arrivals.flatMap Arrival.carried = [firstResponse].flatMap TnpPacket.bytes := rfl
  have unbroken : ∀ arrival ∈ answeredClient.channel.arrivals, arrival.breaks = false := by
    intro arrival member
    rw [List.mem_singleton.mp member]
    rfl
  have allowed : ∀ timeout ∈ [none, some 1], timeout ≠ some 0 := by decide
  obtain ⟨id, _, _, fine, channel, earlier, _, _, part, hears, _⟩ :=
    live_subscriptions_deliver run_hello present rfl rfl heard' fits parsed rfl fresh silent ends rfl rfl unbroken whole
      subscribed allowed
  refine ⟨sub, subscribed, id, fine, ?_⟩
  have nothing : ∀ host : Host, host.snapshot ⟨1, 0, 3, planQuery (.scan Scan.unrestricted), 0, 0⟩ = [] :=
    fun host => rfl
  rw [nothing, List.nil_append, List.sublist_nil.mp part] at hears
  exact List.prefix_nil.mp hears

/-- One record, as a server sends it. -/
def sampleRecord : LiveEventRecord := ⟨1, 5, true, 0, 1, 0, 2, 0, 7, 0, 9, "ff".toList⟩

def sampleHello : HandshakeResponse := ⟨true, tnpVersion, "server".toList, 15⟩

/-- What a server sends in a session with one ping and one record. -/
def samplePackets : List TnpPacket :=
  [TnpPacket.new .handshakeResponse 1 sampleHello.encode, firstResponse, TnpPacket.new .ping 0 [7],
    eventPacket 3 sampleRecord, TnpPacket.new .unsubscribeResponse 4 (UnsubscribeResponse.encode ⟨1, true⟩),
    TnpPacket.new .pong 2 []]

omit [Binary64] [Crc32fast] [Unicode] [ErrorTexts] [Replacement] in
theorem samplePackets_small :
    (∀ packet ∈ samplePackets, packet.Sendable) ∧ (samplePackets.map TnpPacket.total).sum ≤ 4096 := by
  unfold TnpPacket.Sendable
  decide +kernel

omit [Binary64] [Unicode] [ErrorTexts] [Replacement] in
theorem samplePackets_chunk :
    samplePackets.flatMap TnpPacket.bytes ≠ [] ∧ (samplePackets.flatMap TnpPacket.bytes).length ≤ 4096 := by
  have total := samplePackets_small.2
  have length : (samplePackets.flatMap TnpPacket.bytes).length = (samplePackets.map TnpPacket.total).sum := by
    rw [List.length_flatMap]
    exact congrArg List.sum (List.map_congr_left fun packet _ => packet.bytes_length)
  have positive : 0 < (samplePackets.map TnpPacket.total).sum := by decide +kernel
  refine ⟨fun empty => ?_, by omega⟩
  rw [empty, List.length_nil] at length
  omega

omit [Binary64] [Crc32fast] [Unicode] [ErrorTexts] [Replacement] in
/-- The packets of a whole session come in one piece. -/
theorem sessions_stay_in_step_sample :
    letI := Crc32fast.ieee
    letI : Replacement := ⟨fun _ => []⟩
    ∃ conn sub session,
      ActiveConnection.connect .default [.data _ samplePackets_chunk.1 samplePackets_chunk.2] [] = .ok conn ∧
      conn.serverId = "server".toList ∧ conn.subscribe everything = .ok sub ∧
      sub.nextEvents [none] = [.ok (some sampleRecord)] ∧ (sub.afterEvents [none]).unsubscribe = .ok session ∧
      session.ping.1 = .ok () := by
  generalize Crc32fast.ieee = checksum
  let : Replacement := ⟨fun _ => []⟩
  have reads : SubscribeResponse.decode firstResponse.payload = .ok ⟨1, true, 0, 0, Shared.subscribedText 1⟩ :=
    SubscribeResponse.decode_encode _ (by unfold Fits; decide +kernel)
  have hears : HandshakeResponse.decode (TnpPacket.new .handshakeResponse 1 sampleHello.encode).payload =
      .ok sampleHello := HandshakeResponse.decode_encode _ (by unfold Fits; decide +kernel)
  obtain ⟨event, record⟩ := @eventPacket_streamable 3 sampleRecord (by decide +kernel)
  have streamable : ∀ packet ∈ [TnpPacket.new .ping 0 [7], eventPacket 3 sampleRecord], Streamable packet := by
    intro packet member
    rcases List.mem_cons.mp member with rfl | last
    · exact ⟨⟨rfl, by decide⟩, Or.inl rfl⟩
    · exact List.mem_singleton.mp last ▸ event
  have records : [TnpPacket.new .ping 0 [7], eventPacket 3 sampleRecord].filterMap recordOf = [sampleRecord] := by
    rw [List.filterMap_cons, recordOf_ping rfl, List.filterMap_cons, record]
    rfl
  have unbroken : ∀ arrival ∈ [Arrival.data _ samplePackets_chunk.1 samplePackets_chunk.2], arrival.breaks = false := by
    intro arrival member
    rw [List.mem_singleton.mp member]
    rfl
  have user : (ActiveConnection.handshakePacket .default).payload.length ≤ maxPacketLen := by decide +kernel
  have query : (ActiveConnection.subscribePacket everything).payload.length ≤ maxPacketLen := by decide +kernel
  have allowed : ∀ timeout ∈ [none], timeout ≠ some 0 := by decide
  have parted : samplePackets = TnpPacket.new .handshakeResponse 1 sampleHello.encode :: firstResponse ::
      ([TnpPacket.new .ping 0 [7], eventPacket 3 sampleRecord] ++
        TnpPacket.new .unsubscribeResponse 4 (UnsubscribeResponse.encode ⟨1, true⟩) ::
          TnpPacket.new .pong 2 [] :: []) := rfl
  have carried : [Arrival.data _ samplePackets_chunk.1 samplePackets_chunk.2].flatMap Arrival.carried =
      samplePackets.flatMap TnpPacket.bytes := List.append_nil _
  obtain ⟨conn, sub, session, connects, server, _, _, subscribes, _, heard, parts, pongs, _⟩ :=
    sessions_stay_in_step unbroken rfl (parted ▸ carried) (parted ▸ samplePackets_small.1) rfl hears rfl rfl reads rfl
      streamable rfl rfl user query allowed (by rw [records]; decide)
  rw [records] at heard
  exact ⟨conn, sub, session, connects, server, subscribes, heard, parts, pongs⟩

end Samples

end Delivery

end Temnion.Adapter
