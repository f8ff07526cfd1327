import Temnion.Protocol.Payloads

/-
This file models the protocol layers of the Python and the TypeScript client and compares them with the server.
-/

namespace Temnion.Protocol

open LittleEndian Slices Format

/-- A packet of a client, whose numbers have no width. -/
structure ClientPacket where
  messageType : Nat
  streamId : Nat
  payload : List UInt8
  version : Nat
  deriving DecidableEq, Repr

structure ClientLiveEvent where
  subscriptionId : Nat
  sequence : Nat
  isLive : Bool
  shard : Nat
  slot : Nat
  generation : Nat
  schema : Nat
  validClock : Nat
  validTime : Nat
  knownClock : Nat
  knownTime : Nat
  payloadHex : Text
  deriving DecidableEq, Repr

/-- The functions of a client. An error of the protocol is refused, and an exception of the runtime is a panic. -/
structure ClientCodec where
  encodePacket : ClientPacket → Parse String (List UInt8)
  decodePacket : List UInt8 → Parse String (ClientPacket × Nat)
  encodeHandshakeRequest : Text → Nat → Parse String (List UInt8)
  decodeHandshakeResponse : List UInt8 → Parse String (Bool × Nat × Text × Nat)
  encodeQueryRequest : Text → Nat → Nat → Parse String (List UInt8)
  encodeSubscribeRequest : Text → Nat → Option Nat → Bool → Parse String (List UInt8)
  decodeSubscribeResponse : List UInt8 → Parse String (Nat × Bool × Nat × Nat × Text)
  decodeLiveEvent : List UInt8 → Parse String ClientLiveEvent
  encodeUnsubscribeRequest : Nat → Parse String (List UInt8)
  decodeUnsubscribeResponse : List UInt8 → Parse String (Nat × Bool)

def clientVersion : Nat := 1

def raiseIf (condition : Prop) [Decidable condition] (message : String) : Parse String Unit :=
  refuseIf condition (.refused message)

namespace Python

/-- The numbers of the given widths, one after the other. A number that is too large raises. -/
def pack : List (Nat × Nat) → Parse String (List UInt8)
  | [] => .ok []
  | (width, value) :: fields => do
      let rest ← pack fields
      if value < 256 ^ width then return bytesOf width value ++ rest else throw .panicked

/-- The numbers of the given widths from a place on. -/
def unpackFrom (bytes : List UInt8) : Nat → List Nat → Parse String (List Nat)
  | _, [] => .ok []
  | offset, width :: widths => do
      let raw ← sliceAt bytes offset (offset + width)
      let values ← unpackFrom bytes (offset + width) widths
      return valueOf raw :: values

/-- A text that is no UTF-8 raises. -/
def decodeText (raw : List UInt8) : Parse String Text :=
  match Utf8.decode raw with
  | none => throw .panicked
  | some text => return text

/-- The checksum of the standard library. -/
def crc32 (bytes : List UInt8) : Nat := (Crc32fast.ieee.hash bytes).toNat

def encodePacket (packet : ClientPacket) : Parse String (List UInt8) := do
  raiseIf (maxPacketLen < packet.payload.length) "Payload size exceeds maximum"
  let header ← pack [(2, packet.version), (2, packet.messageType), (4, packet.streamId), (4, packet.payload.length)]
  let body := tnpMagic ++ header ++ packet.payload
  let checksum ← pack [(4, crc32 body)]
  return body ++ checksum

def decodePacket (data : List UInt8) : Parse String (ClientPacket × Nat) := do
  raiseIf (data.length < tnpOverhead) "Incomplete packet header"
  let magic ← sliceAt data 0 4
  match ← unpackFrom data 4 [2, 2, 4, 4] with
  | [version, messageType, streamId, payloadLen] =>
      raiseIf (magic ≠ tnpMagic) "Invalid magic"
      raiseIf (version ≠ clientVersion) "Unsupported TNP version"
      raiseIf (maxPacketLen < payloadLen) "Payload length exceeds limit"
      let total := tnpHeaderLen + payloadLen + 4
      raiseIf (data.length < total) "Incomplete packet payload"
      let payload ← sliceAt data tnpHeaderLen (tnpHeaderLen + payloadLen)
      let framed ← sliceAt data 0 (tnpHeaderLen + payloadLen)
      match ← unpackFrom data (tnpHeaderLen + payloadLen) [4] with
      | [expected] =>
          raiseIf (crc32 framed ≠ expected) "Checksum mismatch"
          return (⟨messageType, streamId, payload, version⟩, total)
      | _ => throw .panicked
  | _ => throw .panicked

def encodeHandshakeRequest (clientId : Text) (capabilityFlags : Nat) : Parse String (List UInt8) := do
  let idBytes := Utf8.encode clientId
  let front ← pack [(2, clientVersion), (4, idBytes.length)]
  let flags ← pack [(8, capabilityFlags)]
  return front ++ idBytes ++ flags

def decodeHandshakeResponse (payload : List UInt8) : Parse String (Bool × Nat × Text × Nat) := do
  raiseIf (payload.length < 7) "Truncated HandshakeResponse"
  match ← unpackFrom payload 0 [1, 2, 4] with
  | [success, negotiated, idLen] =>
      raiseIf (payload.length < 7 + idLen + 8) "Truncated HandshakeResponse server_id"
      let raw ← sliceAt payload 7 (7 + idLen)
      let serverId ← decodeText raw
      match ← unpackFrom payload (7 + idLen) [8] with
      | [capabilityFlags] => return (success ≠ 0, negotiated, serverId, capabilityFlags)
      | _ => throw .panicked
  | _ => throw .panicked

def encodeQueryRequest (queryStr : Text) (format maxRows : Nat) : Parse String (List UInt8) := do
  let qBytes := Utf8.encode queryStr
  let front ← pack [(1, format), (4, maxRows), (4, qBytes.length)]
  return front ++ qBytes

def encodeSubscribeRequest (queryStr : Text) (format : Nat) (fromSequence : Option Nat) (fromNow : Bool) :
    Parse String (List UInt8) := do
  let qBytes := Utf8.encode queryStr
  let front ← pack [(1, format), (1, if fromNow then 1 else 0), (8, fromSequence.getD 0), (4, qBytes.length)]
  return front ++ qBytes

def decodeSubscribeResponse (payload : List UInt8) : Parse String (Nat × Bool × Nat × Nat × Text) := do
  raiseIf (payload.length < 29) "Truncated SubscribeResponse"
  match ← unpackFrom payload 0 [8, 1, 8, 8, 4] with
  | [subId, success, snapStart, snapEnd, msgLen] =>
      raiseIf (payload.length < 29 + msgLen) "Truncated SubscribeResponse message"
      let raw ← sliceAt payload 29 (29 + msgLen)
      let message ← decodeText raw
      return (subId, success ≠ 0, snapStart, snapEnd, message)
  | _ => throw .panicked

def decodeLiveEvent (payload : List UInt8) : Parse String ClientLiveEvent := do
  raiseIf (payload.length < 61) "Truncated LiveEventRecord"
  match ← unpackFrom payload 0 [8, 8, 1, 4, 4, 4, 4, 4, 8, 4, 8, 4] with
  | [subId, seq, isLive, shard, slot, gen, schema, vClock, vTime, kClock, kTime, hexLen] =>
      raiseIf (payload.length < 61 + hexLen) "Truncated LiveEventRecord payload_hex"
      let raw ← sliceAt payload 61 (61 + hexLen)
      let payloadHex ← decodeText raw
      return ⟨subId, seq, isLive ≠ 0, shard, slot, gen, schema, vClock, vTime, kClock, kTime, payloadHex⟩
  | _ => throw .panicked

def encodeUnsubscribeRequest (subscriptionId : Nat) : Parse String (List UInt8) := pack [(8, subscriptionId)]

def decodeUnsubscribeResponse (payload : List UInt8) : Parse String (Nat × Bool) := do
  raiseIf (payload.length < 9) "Truncated UnsubscribeResponse"
  match ← unpackFrom payload 0 [8, 1] with
  | [subId, success] => return (subId, success ≠ 0)
  | _ => throw .panicked

def codec : ClientCodec := ⟨encodePacket, decodePacket, encodeHandshakeRequest, decodeHandshakeResponse,
  encodeQueryRequest, encodeSubscribeRequest, decodeSubscribeResponse, decodeLiveEvent, encodeUnsubscribeRequest,
  decodeUnsubscribeResponse⟩

end Python

/-- What the runtime of the TypeScript client makes of bytes that are no UTF-8. -/
class Replacement where
  text : List UInt8 → Text

namespace TypeScript

def alloc (size : Nat) : List UInt8 := List.replicate size 0

/-- A write beyond the end of the buffer raises. -/
def write (buffer : List UInt8) (offset : Nat) (part : List UInt8) : Parse String (List UInt8) :=
  if offset + part.length ≤ buffer.length then
    .ok (buffer.take offset ++ part ++ buffer.drop (offset + part.length))
  else .error .panicked

/-- A number that does not fit its width raises. -/
def writeUInt (width : Nat) (buffer : List UInt8) (value offset : Nat) : Parse String (List UInt8) :=
  if value < 256 ^ width then write buffer offset (bytesOf width value) else .error .panicked

/-- What does not fit into the buffer is not copied. -/
def copy (source buffer : List UInt8) (offset : Nat) : List UInt8 :=
  buffer.take offset ++ source.take (buffer.length - offset) ++ buffer.drop (offset + source.length)

def readUInt (width : Nat) (buffer : List UInt8) (offset : Nat) : Parse String Nat := do
  let raw ← sliceAt buffer offset (offset + width)
  return valueOf raw

/-- The part of the buffer that lies in the range. -/
def subarray (buffer : List UInt8) (start stop : Nat) : List UInt8 := slice buffer start (stop - start)

def toText [Replacement] (raw : List UInt8) : Text := (Utf8.decode raw).getD (Replacement.text raw)

/-- One bit of the table of the checksum. -/
def tableBit (value : UInt32) : UInt32 := if value &&& 1 ≠ 0 then (0xEDB88320 : UInt32) ^^^ (value >>> 1) else value >>> 1

def crcTable (index : UInt32) : UInt32 := tableBit^[8] index

/-- One byte of the checksum. -/
def crcStep (crc : UInt32) (byte : UInt8) : UInt32 := (crc >>> 8) ^^^ crcTable ((crc ^^^ byte.toUInt32) &&& 0xFF)

def crc32 (buffer : List UInt8) : Nat := (buffer.foldl crcStep 0xFFFFFFFF ^^^ 0xFFFFFFFF).toNat

def encodePacket (packet : ClientPacket) : Parse String (List UInt8) := do
  raiseIf (maxPacketLen < packet.payload.length) "Payload length exceeds limit"
  let total := tnpHeaderLen + packet.payload.length + 4
  let buf := copy tnpMagic (alloc total) 0
  let buf ← writeUInt 2 buf packet.version 4
  let buf ← writeUInt 2 buf packet.messageType 6
  let buf ← writeUInt 4 buf packet.streamId 8
  let buf ← writeUInt 4 buf packet.payload.length 12
  let buf := copy packet.payload buf 16
  let checksum := crc32 (subarray buf 0 (tnpHeaderLen + packet.payload.length))
  writeUInt 4 buf checksum (tnpHeaderLen + packet.payload.length)

def decodePacket (buf : List UInt8) : Parse String (ClientPacket × Nat) := do
  raiseIf (buf.length < tnpOverhead) "Buffer too short for TNP header"
  raiseIf (subarray buf 0 4 ≠ tnpMagic) "Invalid TNP packet magic, expected TNPP"
  let version ← readUInt 2 buf 4
  raiseIf (version ≠ clientVersion) "Unsupported TNP version"
  let msgType ← readUInt 2 buf 6
  let streamId ← readUInt 4 buf 8
  let payloadLen ← readUInt 4 buf 12
  raiseIf (maxPacketLen < payloadLen) "TNP payload length exceeds limit"
  let total := tnpHeaderLen + payloadLen + 4
  raiseIf (buf.length < total) "Incomplete TNP packet in buffer"
  let expected ← readUInt 4 buf (tnpHeaderLen + payloadLen)
  let computed := crc32 (subarray buf 0 (tnpHeaderLen + payloadLen))
  raiseIf (computed ≠ expected) "CRC32 checksum mismatch"
  return (⟨msgType, streamId, subarray buf tnpHeaderLen (tnpHeaderLen + payloadLen), version⟩, total)

def encodeHandshakeRequest (clientId : Text) (capabilityFlags : Nat) : Parse String (List UInt8) := do
  let idBytes := Utf8.encode clientId
  let buf := alloc (2 + 4 + idBytes.length + 8)
  let buf ← writeUInt 2 buf clientVersion 0
  let buf ← writeUInt 4 buf idBytes.length 2
  let buf := copy idBytes buf 6
  writeUInt 8 buf capabilityFlags (6 + idBytes.length)

def decodeHandshakeResponse [Replacement] (payload : List UInt8) : Parse String (Bool × Nat × Text × Nat) := do
  raiseIf (payload.length < 7) "Truncated HandshakeResponse"
  let success ← readUInt 1 payload 0
  let negotiatedVersion ← readUInt 2 payload 1
  let idLen ← readUInt 4 payload 3
  raiseIf (payload.length < 7 + idLen + 8) "Truncated HandshakeResponse serverId"
  let capabilityFlags ← readUInt 8 payload (7 + idLen)
  return (success ≠ 0, negotiatedVersion, toText (subarray payload 7 (7 + idLen)), capabilityFlags)

def encodeQueryRequest (queryStr : Text) (format maxRows : Nat) : Parse String (List UInt8) := do
  let qBytes := Utf8.encode queryStr
  let buf := alloc (1 + 4 + 4 + qBytes.length)
  let buf ← writeUInt 1 buf format 0
  let buf ← writeUInt 4 buf maxRows 1
  let buf ← writeUInt 4 buf qBytes.length 5
  return copy qBytes buf 9

def encodeSubscribeRequest (queryStr : Text) (format : Nat) (fromSequence : Option Nat) (fromNow : Bool) :
    Parse String (List UInt8) := do
  let qBytes := Utf8.encode queryStr
  let buf := alloc (1 + 1 + 8 + 4 + qBytes.length)
  let buf ← writeUInt 1 buf format 0
  let buf ← writeUInt 1 buf (if fromNow then 1 else 0) 1
  let buf ← writeUInt 8 buf (fromSequence.getD 0) 2
  let buf ← writeUInt 4 buf qBytes.length 10
  return copy qBytes buf 14

def decodeSubscribeResponse [Replacement] (payload : List UInt8) : Parse String (Nat × Bool × Nat × Nat × Text) := do
  raiseIf (payload.length < 29) "Truncated SubscribeResponse"
  let subscriptionId ← readUInt 8 payload 0
  let success ← readUInt 1 payload 8
  let snapshotStart ← readUInt 8 payload 9
  let snapshotEnd ← readUInt 8 payload 17
  let msgLen ← readUInt 4 payload 25
  raiseIf (payload.length < 29 + msgLen) "Truncated SubscribeResponse message"
  return (subscriptionId, success ≠ 0, snapshotStart, snapshotEnd, toText (subarray payload 29 (29 + msgLen)))

def decodeLiveEvent [Replacement] (payload : List UInt8) : Parse String ClientLiveEvent := do
  raiseIf (payload.length < 61) "Truncated LiveEventRecord"
  let subscriptionId ← readUInt 8 payload 0
  let sequence ← readUInt 8 payload 8
  let isLive ← readUInt 1 payload 16
  let shard ← readUInt 4 payload 17
  let slot ← readUInt 4 payload 21
  let generation ← readUInt 4 payload 25
  let schema ← readUInt 4 payload 29
  let validClock ← readUInt 4 payload 33
  let validTime ← readUInt 8 payload 37
  let knownClock ← readUInt 4 payload 45
  let knownTime ← readUInt 8 payload 49
  let hexLen ← readUInt 4 payload 57
  raiseIf (payload.length < 61 + hexLen) "Truncated LiveEventRecord payload_hex"
  return ⟨subscriptionId, sequence, isLive ≠ 0, shard, slot, generation, schema, validClock, validTime, knownClock,
    knownTime, toText (subarray payload 61 (61 + hexLen))⟩

def encodeUnsubscribeRequest (subscriptionId : Nat) : Parse String (List UInt8) :=
  writeUInt 8 (alloc 8) subscriptionId 0

def decodeUnsubscribeResponse (payload : List UInt8) : Parse String (Nat × Bool) := do
  raiseIf (payload.length < 9) "Truncated UnsubscribeResponse"
  let subscriptionId ← readUInt 8 payload 0
  let success ← readUInt 1 payload 8
  return (subscriptionId, success ≠ 0)

def codec [Replacement] : ClientCodec := ⟨encodePacket, decodePacket, encodeHandshakeRequest,
  decodeHandshakeResponse, encodeQueryRequest, encodeSubscribeRequest, decodeSubscribeResponse, decodeLiveEvent,
  encodeUnsubscribeRequest, decodeUnsubscribeResponse⟩

end TypeScript

/-- Decoding on one side gives back what the other side encoded, for values within the ranges of their fields. -/
structure Interoperates (client : ClientCodec) : Prop where
  packetToServer : ∀ (messageType : TnpMessageType) (streamId : UInt32) (payload : List UInt8),
    payload.length ≤ maxPacketLen →
      ∃ bytes, client.encodePacket ⟨messageType.toU16.toNat, streamId.toNat, payload, clientVersion⟩ = .ok bytes ∧
        @TnpPacket.decode Crc32fast.ieee bytes = .ok (TnpPacket.new messageType streamId payload, bytes.length)
  packetToClient : ∀ (messageType : TnpMessageType) (streamId : UInt32) (payload : List UInt8),
    payload.length ≤ maxPacketLen →
      ∃ bytes, @TnpPacket.encode Crc32fast.ieee (TnpPacket.new messageType streamId payload) = .ok bytes ∧
        client.decodePacket bytes =
          .ok (⟨messageType.toU16.toNat, streamId.toNat, payload, clientVersion⟩, bytes.length)
  handshakeRequest : ∀ (clientId : Text) (capabilityFlags : UInt64), Fits clientId →
    ∃ bytes, client.encodeHandshakeRequest clientId capabilityFlags.toNat = .ok bytes ∧
      HandshakeRequest.decode bytes = .ok ⟨tnpVersion, clientId, capabilityFlags⟩
  handshakeResponse : ∀ response : HandshakeResponse, Fits response.serverId →
    client.decodeHandshakeResponse response.encode =
      .ok (response.success, response.negotiatedVersion.toNat, response.serverId, response.capabilityFlags.toNat)
  queryRequest : ∀ request : QueryRequest, Fits request.queryStr →
    ∃ bytes, client.encodeQueryRequest request.queryStr request.format.toU8.toNat request.maxRows.toNat = .ok bytes ∧
      QueryRequest.decode bytes = .ok request
  subscribeRequest : ∀ request : SubscribeRequest, Fits request.queryStr →
    ∃ bytes, client.encodeSubscribeRequest request.queryStr request.format.toU8.toNat
        (request.fromSequence.map UInt64.toNat) request.fromNow = .ok bytes ∧
      SubscribeRequest.decode bytes = .ok request.normalized
  subscribeResponse : ∀ response : SubscribeResponse, Fits response.message →
    client.decodeSubscribeResponse response.encode = .ok (response.subscriptionId.toNat, response.success,
      response.snapshotStart.toNat, response.snapshotEnd.toNat, response.message)
  liveEvent : ∀ record : LiveEventRecord, Fits record.payloadHex →
    client.decodeLiveEvent record.encode = .ok ⟨record.subscriptionId.toNat, record.sequence.toNat, record.isLive,
      record.entityShard.toNat, record.entitySlot.toNat, record.entityGeneration.toNat, record.schema.toNat,
      record.validClock.toNat, record.validTime.toNat, record.knownClock.toNat, record.knownTime.toNat,
      record.payloadHex⟩
  unsubscribeRequest : ∀ request : UnsubscribeRequest,
    ∃ bytes, client.encodeUnsubscribeRequest request.subscriptionId.toNat = .ok bytes ∧
      UnsubscribeRequest.decode bytes = .ok request
  unsubscribeResponse : ∀ response : UnsubscribeResponse,
    client.decodeUnsubscribeResponse response.encode = .ok (response.subscriptionId.toNat, response.success)

/-- The decoder panics on no input, and reads back what the encoder writes of the admitted values. -/
structure Lawful {A : Type} (admits : A → Prop) (encode : A → List UInt8) (decode : List UInt8 → Parse TnpError A)
    (normalized : A → A) : Prop where
  safe : ∀ bytes, Safe (decode bytes)
  decode_encode : ∀ value, admits value → decode (encode value) = .ok (normalized value)

end Temnion.Protocol
