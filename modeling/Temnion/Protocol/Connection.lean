import Temnion.Protocol.HandOver
import Temnion.Protocol.Payloads

/-
This file serves the connections of a server. A connection moves by receiving, by sending one packet or by reading the
store, and the connections take turns in any order.
-/

namespace Temnion.Protocol

open Query Storage Format LittleEndian Slices

variable [Binary64]

/-- The texts of the errors of a query. -/
class ErrorTexts where
  parse : ParseError → Text
  query : QueryError → Text

section Replies

def numeral (number : Nat) : Text := Nat.toDigits 10 number

def describeText (serverId : Text) : Text :=
  "\x7b\"server_id\":\"".toList ++ serverId ++ "\",\"version\":1,\"capabilities\":[\"tnp\",\"query-ir\",\"temql\",".toList ++
    "\"compact-tem\",\"sql\",\"arrow-columnar\",\"live-subscription\"]\x7d".toList

/-- The header of an answer announces the number of its records. -/
def headerText (rows scanned : Nat) (truncated : Bool) : Text :=
  "\x7b\"rows\":".toList ++ numeral rows ++ ",\"scanned\":".toList ++ numeral scanned ++ ",\"truncated\":".toList ++
    (if truncated then "true".toList else "false".toList) ++ "\x7d".toList

def rowText (row : QueryRow) : Text :=
  numeral row.entity.shard.toNat ++ ":".toList ++ numeral row.entity.slot.toNat ++ ":".toList ++
    numeral row.entity.generation.toNat ++ "|".toList ++ numeral row.validTime.ticks.toNat ++ "|".toList ++
    numeral row.knownTime.ticks.toNat ++ "|".toList ++ numeral row.sequence.toNat

/-- A header, one packet for each row, and the end of the stream with the number of rows. -/
def answerOf (streamId : UInt32) (header : List UInt8) (records : List (List UInt8)) : List TnpPacket :=
  [TnpPacket.new .queryResponse streamId header] ++ records.map (TnpPacket.new .streamRecord streamId) ++
    [TnpPacket.new .streamEnd streamId (le32 (UInt32.ofNat records.length))]

def queryReply (streamId : UInt32) (result : QueryResult) : List TnpPacket :=
  answerOf streamId (Utf8.encode (headerText result.rows.length result.eventsScanned result.truncated))
    (result.rows.map fun row => Utf8.encode (rowText row))

def errorReply (streamId : UInt32) (message : String) : TnpPacket :=
  TnpPacket.new .errorResponse streamId (Utf8.encode message.toList)

end Replies

/-- The subscription of a connection: its number and channel, the packet that asked for it, and what it asks for. -/
structure Listener where
  id : UInt64
  place : Nat
  streamId : UInt32
  plan : PhysicalPlan
  start : Nat
  stop : Nat

/-- Where the code of a connection stands when it has sent what it has to send. -/
inductive Stage where
  | greeting
  | refusing
  | declining (version : UInt16)
  | serving
  | replaying (listener : Listener)
  | streaming (listener : Listener)
  | parting (listener : Listener)
  | closed (outcome : Parse TnpError Unit)

/-- A packet that was received, and the packets that were sent since. -/
structure Exchange where
  request : TnpPacket
  reply : List TnpPacket
  deriving DecidableEq

/-- The packets that are still to be sent, and all exchanges with the latest in front. -/
structure Connection where
  stage : Stage
  outbox : List TnpPacket
  transcript : List Exchange

/-- What the connection would receive next, and the failure of the writer if it fails. -/
structure Input where
  received : Except TnpError TnpPacket
  fails : Option Text

/-- What the connections share. The lock of the store may be poisoned. -/
structure Shared where
  serverId : Text
  hub : SubscriptionHub
  store : Store
  disk : Disk
  poisoned : Bool

/-- The subscription of a connection within the branch that serves it. -/
def Stage.listener : Stage → Option Listener
  | .replaying listener => some listener
  | .streaming listener => some listener
  | .parting listener => some listener
  | _ => none

namespace Connection

def accepted : Connection := ⟨.greeting, [], []⟩

def listener (connection : Connection) : Option Listener := connection.stage.listener

/-- A further packet was received. -/
def take (connection : Connection) (packet : TnpPacket) : Connection :=
  { connection with transcript := ⟨packet, []⟩ :: connection.transcript }

/-- The first packet of the outbox was sent. -/
def sent (connection : Connection) (packet : TnpPacket) (rest : List TnpPacket) : Connection where
  stage := connection.stage
  outbox := rest
  transcript :=
    match connection.transcript with
    | [] => []
    | exchange :: older => ⟨exchange.request, exchange.reply ++ [packet]⟩ :: older

def close (connection : Connection) (outcome : Parse TnpError Unit) : Connection :=
  ⟨.closed outcome, [], connection.transcript⟩

def fail (connection : Connection) (error : TnpError) : Connection := connection.close (.error (.refused error))

/-- The packets are sent before the connection goes on. -/
def reply (connection : Connection) (packets : List TnpPacket) : Connection := { connection with outbox := packets }

def turn (connection : Connection) (stage : Stage) : Connection := { connection with stage }

end Connection

namespace Shared

variable [Crc32fast] [Unicode] [ErrorTexts]

/-- The receiver of a subscription is dropped where its branch ends. -/
def drop (shared : Shared) (listener : Option Listener) : Shared :=
  match listener with
  | none => shared
  | some listener => { shared with hub := shared.hub.change listener.place Channel.hangUp }

def unregister (shared : Shared) (id : UInt64) : Shared := { shared with hub := (shared.hub.unregister id).2 }

def lockPoisoned : TnpError := .executionError "Store lock poisoned".toList

def queryBudget (maxRows : UInt32) : QueryBudget := ⟨some maxRows.toNat, some 50000, some (32 * 1024 * 1024)⟩

def parsed (format : QueryFormat) (text : Text) : Parse TnpError LogicalPlan :=
  (parseQuery format text).mapError fun error =>
    match error with
    | .refused error => .refused (.executionError (ErrorTexts.parse error))
    | .panicked => .panicked

/-- The packets that answer a query. Every failure leaves the request loop. -/
def answerQuery (shared : Shared) (packet : TnpPacket) : Parse TnpError (List TnpPacket) := do
  let request ← QueryRequest.decode packet.payload
  let logical ← parsed request.format request.queryStr
  refuseIf shared.poisoned (.refused lockPoisoned)
  let result ← (executeStorageScan shared.store shared.disk (planQuery logical) (queryBudget request.maxRows)).mapError
    fun error => Fault.refused (.executionError (ErrorTexts.query error))
  return queryReply packet.streamId result

def subscribedText (id : UInt64) : Text := "Subscribed to live events (id=".toList ++ numeral id.toNat ++ ")".toList

def unparsedText (error : ParseError) : Text := "Failed to parse subscription query: ".toList ++ ErrorTexts.parse error

/-- Measures the window, registers, and answers before the past is replayed. -/
def subscribe (shared : Shared) (connection : Connection) (packet : TnpPacket) : Shared × Connection :=
  match SubscribeRequest.decode packet.payload with
  | .error fault => (shared, connection.close (.error fault))
  | .ok request =>
      match parseQuery request.format request.queryStr with
      | .error .panicked => (shared, connection.close (.error .panicked))
      | .error (.refused error) =>
          (shared, connection.reply [TnpPacket.new .subscribeResponse packet.streamId
            (SubscribeResponse.encode ⟨0, false, 0, 0, unparsedText error⟩)])
      | .ok logical =>
          if shared.poisoned then (shared, connection.fail lockPoisoned)
          else
            let plan := planQuery logical
            let (start, stop) := snapshotWindow request shared.store.nextSequence
            let (id, hub) := shared.hub.register (hubFilter plan)
            let response : SubscribeResponse := ⟨id, true, UInt64.ofNat start, UInt64.ofNat stop, subscribedText id⟩
            ({ shared with hub }, (connection.turn
              (.replaying ⟨id, shared.hub.channels.length, packet.streamId, plan, start, stop⟩)).reply
                [TnpPacket.new .subscribeResponse packet.streamId response.encode])

/-- An unsubscription in the request loop. It may name any subscription. -/
def unsubscribe (shared : Shared) (connection : Connection) (packet : TnpPacket) : Shared × Connection :=
  match UnsubscribeRequest.decode packet.payload with
  | .error fault => (shared, connection.close (.error fault))
  | .ok request =>
      (shared.unregister request.subscriptionId, connection.reply [TnpPacket.new .unsubscribeResponse packet.streamId
        (UnsubscribeResponse.encode ⟨request.subscriptionId, (shared.hub.unregister request.subscriptionId).1⟩)])

/-- One packet of the request loop. -/
def answer (shared : Shared) (connection : Connection) (packet : TnpPacket) : Shared × Connection :=
  match packet.messageType with
  | .ping => (shared, connection.reply [TnpPacket.new .pong packet.streamId []])
  | .describeRequest =>
      (shared, connection.reply [TnpPacket.new .describeResponse packet.streamId
        (Utf8.encode (describeText shared.serverId))])
  | .queryRequest =>
      match shared.answerQuery packet with
      | .error fault => (shared, connection.close (.error fault))
      | .ok packets => (shared, connection.reply packets)
  | .subscribeRequest => shared.subscribe connection packet
  | .unsubscribeRequest => shared.unsubscribe connection packet
  | _ => (shared, connection.reply [errorReply packet.streamId "Unhandled message type"])

/-- The request loop ends well when the peer is gone. -/
def serve (shared : Shared) (connection : Connection) : Except TnpError TnpPacket → Shared × Connection
  | .ok packet => shared.answer (connection.take packet) packet
  | .error .connectionClosed => (shared, connection.close (.ok ()))
  | .error (.ioError _) => (shared, connection.close (.ok ()))
  | .error .timedOut => (shared, connection)
  | .error error => (shared, connection.fail error)

def greet (shared : Shared) (connection : Connection) : Except TnpError TnpPacket → Connection
  | .error error => connection.fail error
  | .ok packet =>
      if packet.messageType ≠ .handshakeRequest then
        ((connection.take packet).turn .refusing).reply [errorReply 0 "Expected HandshakeRequest"]
      else
        match HandshakeRequest.decode packet.payload with
        | .error fault => (connection.take packet).close (.error fault)
        | .ok request =>
            if request.clientVersion ≠ tnpVersion then
              ((connection.take packet).turn (.declining request.clientVersion)).reply
                [TnpPacket.new .handshakeResponse packet.streamId
                  (HandshakeResponse.encode ⟨false, tnpVersion, shared.serverId, 0⟩)]
            else
              ((connection.take packet).turn .serving).reply
                [TnpPacket.new .handshakeResponse packet.streamId
                  (HandshakeResponse.encode ⟨true, tnpVersion, shared.serverId, 15⟩)]

/-- The records of the past are read at once and sent one by one. -/
def replay (shared : Shared) (connection : Connection) (listener : Listener) : Shared × Connection :=
  if listener.start < listener.stop ∧ shared.poisoned then
    (shared.drop (some listener), connection.fail lockPoisoned)
  else
    let records := snapshotRecords shared.store shared.disk listener.plan listener.id listener.start listener.stop
    (shared, (connection.turn (.streaming listener)).reply
      (records.map fun record => TnpPacket.new .liveEvent listener.streamId record.encode))

/-- A packet that arrives while events are streamed. Only an unsubscription and a ping are heard. -/
def control (shared : Shared) (connection : Connection) (listener : Listener) (packet : TnpPacket) :
    Shared × Connection :=
  match packet.messageType with
  | .unsubscribeRequest =>
      match UnsubscribeRequest.decode packet.payload with
      | .error fault => (shared.drop (some listener), connection.close (.error fault))
      | .ok request =>
          (shared.unregister request.subscriptionId, (connection.turn (.parting listener)).reply
            [TnpPacket.new .unsubscribeResponse packet.streamId
              (UnsubscribeResponse.encode ⟨request.subscriptionId, true⟩)])
  | .ping => (shared, connection.reply [TnpPacket.new .pong packet.streamId []])
  | _ => (shared, connection)

/-- Without a further event the connection listens to its client. -/
def listen (shared : Shared) (connection : Connection) (listener : Listener) :
    Except TnpError TnpPacket → Shared × Connection
  | .ok packet => shared.control (connection.take packet) listener packet
  | .error .timedOut => (shared, connection)
  | .error .connectionClosed =>
      ((shared.unregister listener.id).drop (some listener), connection.close (.ok ()))
  | .error error => ((shared.unregister listener.id).drop (some listener), connection.fail error)

/-- The next record that waits in the channel of a subscription. -/
def pending (shared : Shared) (listener : Listener) : Option LiveEventRecord :=
  shared.hub.channels[listener.place]?.bind fun channel => channel.sent[channel.received]?

def stream (shared : Shared) (connection : Connection) (listener : Listener) (received : Except TnpError TnpPacket) :
    Shared × Connection :=
  match shared.pending listener with
  | some record =>
      ({ shared with hub := shared.hub.change listener.place Channel.receive },
        connection.reply [TnpPacket.new .liveEvent listener.streamId record.encode])
  | none => shared.listen connection listener received

/-- What a connection does that has nothing to send. -/
def proceed (shared : Shared) (connection : Connection) (received : Except TnpError TnpPacket) : Shared × Connection :=
  match connection.stage with
  | .greeting => (shared, shared.greet connection received)
  | .refusing => (shared, connection.fail (.handshakeFailed "Expected HandshakeRequest".toList))
  | .declining version => (shared, connection.fail (.unsupportedVersion tnpVersion version))
  | .serving => shared.serve connection received
  | .replaying listener => shared.replay connection listener
  | .streaming listener => shared.stream connection listener received
  | .parting listener => (shared.drop (some listener), connection.turn .serving)
  | .closed _ => (shared, connection)

def send (packet : TnpPacket) (fails : Option Text) : Except TnpError Unit := do
  let _ ← packet.encode
  match fails with
  | none => return ()
  | some message => throw (.ioError message)

/-- A packet that cannot be sent ends the connection. The refusal of a greeting does not depend on it. -/
def sendFailure (stage : Stage) (error : TnpError) : TnpError :=
  match stage with
  | .refusing => .handshakeFailed "Expected HandshakeRequest".toList
  | _ => error

def work (shared : Shared) (connection : Connection) (input : Input) : Shared × Connection :=
  match connection.outbox with
  | [] => shared.proceed connection input.received
  | packet :: rest =>
      match send packet input.fails with
      | .ok () => (shared, connection.sent packet rest)
      | .error error =>
          (shared.drop connection.listener, connection.fail (sendFailure connection.stage error))

end Shared

/-- The server with all connections that it has accepted. -/
structure Host where
  shared : Shared
  connections : List Connection

/-- A step of the server: a connection is accepted, one connection goes on, the store changes and its new events are
dispatched, or the lock of the store is poisoned. -/
inductive Turn where
  | accept
  | work (place : Nat) (input : Input)
  | commit (store : Store) (disk : Disk) (events : List StoredEvent)
  | poison

namespace Host

variable [Crc32fast] [Unicode] [ErrorTexts]

def start (serverId : Text) (store : Store) (disk : Disk) : Host := ⟨⟨serverId, SubscriptionHub.new, store, disk, false⟩, []⟩

def step (host : Host) : Turn → Host
  | .accept => { host with connections := host.connections ++ [Connection.accepted] }
  | .work place input =>
      match host.connections[place]? with
      | none => host
      | some connection =>
          let (shared, connection) := host.shared.work connection input
          ⟨shared, host.connections.set place connection⟩
  | .commit store disk events =>
      { host with shared := { host.shared with store, disk, hub := host.shared.hub.dispatchEvents events } }
  | .poison => { host with shared := { host.shared with poisoned := true } }

def run (host : Host) (turns : List Turn) : Host := turns.foldl step host

section Places

variable {host : Host} {place : Nat} {turn : Turn}

/-- Only its own turns change a connection. -/
theorem step_apart {connection : Connection} (present : host.connections[place]? = some connection)
    (apart : ∀ input, turn ≠ .work place input) : (host.step turn).connections[place]? = some connection := by
  cases turn with
  | accept =>
      have inside := (List.getElem?_eq_some_iff.mp present).1
      exact (List.getElem?_append_left inside).trans present
  | work other input =>
      have other' : other ≠ place := fun same => apart input (same ▸ rfl)
      unfold step
      dsimp only
      split
      · exact present
      · exact (List.getElem?_set_ne other').trans present
  | commit store disk events => exact present
  | poison => exact present

theorem step_work {connection : Connection} (present : host.connections[place]? = some connection) (input : Input) :
    (host.step (.work place input)).connections[place]? = some (host.shared.work connection input).2 := by
  have inside := (List.getElem?_eq_some_iff.mp present).1
  unfold step
  dsimp only
  rw [present]
  exact List.getElem?_set_self inside

end Places

end Host

end Temnion.Protocol
