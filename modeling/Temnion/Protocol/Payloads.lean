import Temnion.Library.Utf8
import Temnion.Protocol.Hub
import Temnion.Protocol.Packet

/-
This file encodes and decodes the payloads of the network protocol on the side of the server.
-/

namespace Temnion.Protocol

open LittleEndian Slices

structure HandshakeRequest where
  clientVersion : UInt16
  clientId : Text
  capabilityFlags : UInt64
  deriving DecidableEq, Repr

structure HandshakeResponse where
  success : Bool
  negotiatedVersion : UInt16
  serverId : Text
  capabilityFlags : UInt64
  deriving DecidableEq, Repr

structure QueryRequest where
  format : QueryFormat
  queryStr : Text
  maxRows : UInt32
  deriving DecidableEq, Repr

structure SubscribeResponse where
  subscriptionId : UInt64
  success : Bool
  snapshotStart : UInt64
  snapshotEnd : UInt64
  message : Text
  deriving DecidableEq, Repr

structure UnsubscribeRequest where
  subscriptionId : UInt64
  deriving DecidableEq, Repr

structure UnsubscribeResponse where
  subscriptionId : UInt64
  success : Bool
  deriving DecidableEq, Repr

section Fields

variable {text : Text} {bytes rest : List UInt8} {offset next : Nat}

def flagByte (flag : Bool) : UInt8 := if flag then 1 else 0

theorem flagByte_ne_zero (flag : Bool) : decide (flagByte flag ≠ 0) = flag := by
  cases flag <;> rfl

/-- The length of a text is narrowed to four bytes. -/
def lengthField (text : Text) : List UInt8 := le32 (UInt32.ofNat (Utf8.encode text).length)

/-- The bytes of a text are counted by four bytes. -/
def Fits (text : Text) : Prop := (Utf8.encode text).length < 2 ^ 32

theorem Fits.toNat (fits : Fits text) : (UInt32.ofNat (Utf8.encode text).length).toNat = (Utf8.encode text).length :=
  UInt32.toNat_ofNat_of_lt' fits

def violation {A : Type} (message : String) : Parse TnpError A := .error (.refused (.protocolViolation message.toList))

def refuseShort (bytes : List UInt8) (length : Nat) (message : String) : Parse TnpError Unit :=
  refuseIf (bytes.length < length) (.refused (.protocolViolation message.toList))

/-- The text in a part of the bytes. -/
def readText (bytes : List UInt8) (start stop : Nat) : Parse TnpError Text := do
  let raw ← sliceAt bytes start stop
  match Utf8.decode raw with
  | none => violation "invalid utf-8 sequence"
  | some text => return text

theorem readText_eq (bytes : List UInt8) (start stop : Nat) :
    readText bytes start stop = textAt (.protocolViolation "invalid utf-8 sequence".toList) bytes start stop := rfl

theorem readText_ahead (ahead : Ahead bytes offset (Utf8.encode text ++ rest))
    (place : offset + (Utf8.encode text).length = next) :
    readText bytes offset next = .ok text ∧ Ahead bytes next rest := by
  rw [readText_eq]
  exact ahead.text _ place

theorem readText_safe {start stop : Nat} (ordered : start ≤ stop) (inside : stop ≤ bytes.length) :
    Safe (readText bytes start stop) := by
  rw [readText_eq]
  exact textAt_safe ordered inside

theorem refuseShort_bind {A : Type} {length : Nat} {message : String} {next : Unit → Parse TnpError A}
    (long : length ≤ bytes.length) : (refuseShort bytes length message >>= next) = next () :=
  Except.refuseIf_bind (Nat.not_lt.mpr long)

theorem refuseShort_safe {A : Type} {length : Nat} {message : String} {next : Unit → Parse TnpError A}
    (then' : length ≤ bytes.length → Safe (next ())) : Safe (refuseShort bytes length message >>= next) :=
  Safe.guard fun long => then' (Nat.not_lt.mp long)

end Fields

namespace QueryFormat

def toU8 : QueryFormat → UInt8
  | temql => 1
  | compactTem => 2
  | sql => 3

def ofU8 (byte : UInt8) : Parse TnpError QueryFormat :=
  match byte with
  | 1 => .ok temql
  | 2 => .ok compactTem
  | 3 => .ok sql
  | _ => violation "Unknown query format"

theorem ofU8_toU8 (format : QueryFormat) : ofU8 format.toU8 = .ok format := by
  cases format <;> rfl

theorem ofU8_safe (byte : UInt8) : Safe (ofU8 byte) := by
  unfold ofU8
  split <;> nofun

end QueryFormat

namespace HandshakeRequest

def encode (request : HandshakeRequest) : List UInt8 :=
  le16 request.clientVersion ++ (lengthField request.clientId ++ (Utf8.encode request.clientId ++
    le64 request.capabilityFlags))

def decode (bytes : List UInt8) : Parse TnpError HandshakeRequest := do
  refuseShort bytes 6 "Truncated HandshakeRequest"
  let clientVersion ← u16At bytes 0
  let idLen ← u32At bytes 2
  refuseShort bytes (6 + idLen.toNat + 8) "Truncated HandshakeRequest body"
  let clientId ← readText bytes 6 (6 + idLen.toNat)
  let capabilityFlags ← u64At bytes (6 + idLen.toNat)
  return ⟨clientVersion, clientId, capabilityFlags⟩

theorem decode_encode (request : HandshakeRequest) (fits : Fits request.clientId) :
    decode request.encode = .ok request := by
  have length : request.encode.length = 6 + (Utf8.encode request.clientId).length + 8 := by
    simp only [encode, lengthField, List.length_append, le16_length, le32_length, le64_length]
    omega
  obtain ⟨version, rest⟩ := (ahead_start request.encode).u16 TnpError rfl
  obtain ⟨size, rest⟩ := rest.u32 TnpError rfl
  obtain ⟨text, rest⟩ := readText_ahead rest rfl
  obtain ⟨flags, _⟩ := rest.last.u64 TnpError rfl
  rw [decode, refuseShort_bind (by omega), version, Except.ok_bind, size, Except.ok_bind, fits.toNat,
    refuseShort_bind (by omega), text, Except.ok_bind, flags]
  rfl

theorem decode_safe (bytes : List UInt8) : Safe (decode bytes) := by
  apply refuseShort_safe
  intro header
  rw [u16At_ok (by omega), Except.ok_bind, u32At_ok (by omega), Except.ok_bind]
  apply refuseShort_safe
  intro whole
  apply (readText_safe (by omega) (by omega)).bind
  intro text _
  rw [u64At_ok (by omega)]
  exact safe_ok _

end HandshakeRequest

namespace HandshakeResponse

def encode (response : HandshakeResponse) : List UInt8 :=
  [flagByte response.success] ++ (le16 response.negotiatedVersion ++ (lengthField response.serverId ++
    (Utf8.encode response.serverId ++ le64 response.capabilityFlags)))

def decode (bytes : List UInt8) : Parse TnpError HandshakeResponse := do
  refuseShort bytes 7 "Truncated HandshakeResponse"
  let success ← byteAt bytes 0
  let negotiatedVersion ← u16At bytes 1
  let idLen ← u32At bytes 3
  refuseShort bytes (7 + idLen.toNat + 8) "Truncated HandshakeResponse body"
  let serverId ← readText bytes 7 (7 + idLen.toNat)
  let capabilityFlags ← u64At bytes (7 + idLen.toNat)
  return ⟨success ≠ 0, negotiatedVersion, serverId, capabilityFlags⟩

theorem decode_encode (response : HandshakeResponse) (fits : Fits response.serverId) :
    decode response.encode = .ok response := by
  have length : response.encode.length = 7 + (Utf8.encode response.serverId).length + 8 := by
    simp only [encode, lengthField, List.length_append, List.length_singleton, le16_length, le32_length, le64_length]
    omega
  obtain ⟨success, rest⟩ := (ahead_start response.encode).byte TnpError rfl
  obtain ⟨version, rest⟩ := rest.u16 TnpError rfl
  obtain ⟨size, rest⟩ := rest.u32 TnpError rfl
  obtain ⟨text, rest⟩ := readText_ahead rest rfl
  obtain ⟨flags, _⟩ := rest.last.u64 TnpError rfl
  rw [decode, refuseShort_bind (by omega), success, Except.ok_bind, version, Except.ok_bind, size, Except.ok_bind,
    fits.toNat, refuseShort_bind (by omega), text, Except.ok_bind, flags, Except.ok_bind, flagByte_ne_zero]
  rfl

theorem decode_safe (bytes : List UInt8) : Safe (decode bytes) := by
  apply refuseShort_safe
  intro header
  rw [byteAt_ok (by omega), Except.ok_bind, u16At_ok (by omega), Except.ok_bind, u32At_ok (by omega), Except.ok_bind]
  apply refuseShort_safe
  intro whole
  apply (readText_safe (by omega) (by omega)).bind
  intro text _
  rw [u64At_ok (by omega)]
  exact safe_ok _

end HandshakeResponse

namespace QueryRequest

def encode (request : QueryRequest) : List UInt8 :=
  [request.format.toU8] ++ (le32 request.maxRows ++ (lengthField request.queryStr ++ Utf8.encode request.queryStr))

def decode (bytes : List UInt8) : Parse TnpError QueryRequest := do
  refuseShort bytes 9 "Truncated QueryRequest"
  let first ← byteAt bytes 0
  let format ← QueryFormat.ofU8 first
  let maxRows ← u32At bytes 1
  let qLen ← u32At bytes 5
  refuseShort bytes (9 + qLen.toNat) "Truncated QueryRequest string"
  let queryStr ← readText bytes 9 (9 + qLen.toNat)
  return ⟨format, queryStr, maxRows⟩

theorem decode_encode (request : QueryRequest) (fits : Fits request.queryStr) :
    decode request.encode = .ok request := by
  have length : request.encode.length = 9 + (Utf8.encode request.queryStr).length := by
    simp only [encode, lengthField, List.length_append, List.length_singleton, le32_length]
    omega
  obtain ⟨format, rest⟩ := (ahead_start request.encode).byte TnpError rfl
  obtain ⟨rows, rest⟩ := rest.u32 TnpError rfl
  obtain ⟨size, rest⟩ := rest.u32 TnpError rfl
  obtain ⟨text, _⟩ := readText_ahead rest.last rfl
  rw [decode, refuseShort_bind (by omega), format, Except.ok_bind, QueryFormat.ofU8_toU8, Except.ok_bind, rows,
    Except.ok_bind, size, Except.ok_bind, fits.toNat, refuseShort_bind (by omega), text]
  rfl

theorem decode_safe (bytes : List UInt8) : Safe (decode bytes) := by
  apply refuseShort_safe
  intro header
  rw [byteAt_ok (by omega), Except.ok_bind]
  apply (QueryFormat.ofU8_safe _).bind
  intro format _
  rw [u32At_ok (by omega), Except.ok_bind, u32At_ok (by omega), Except.ok_bind]
  apply refuseShort_safe
  intro whole
  apply (readText_safe (by omega) (by omega)).bind
  exact fun text _ => safe_ok _

end QueryRequest

namespace SubscribeRequest

def encode (request : SubscribeRequest) : List UInt8 :=
  [request.format.toU8] ++ ([flagByte request.fromNow] ++ (le64 (request.fromSequence.getD 0) ++
    (lengthField request.queryStr ++ Utf8.encode request.queryStr)))

def decode (bytes : List UInt8) : Parse TnpError SubscribeRequest := do
  refuseShort bytes 14 "Truncated SubscribeRequest"
  let first ← byteAt bytes 0
  let format ← QueryFormat.ofU8 first
  let fromNow ← byteAt bytes 1
  let fromSequence ← u64At bytes 2
  let qLen ← u32At bytes 10
  refuseShort bytes (14 + qLen.toNat) "Truncated SubscribeRequest string"
  let queryStr ← readText bytes 14 (14 + qLen.toNat)
  return ⟨queryStr, format, if fromNow ≠ 0 then none else some fromSequence, fromNow ≠ 0⟩

/-- What the bytes of a request say: no start with `fromNow`, and a start otherwise. -/
def normalized (request : SubscribeRequest) : SubscribeRequest :=
  { request with fromSequence := if request.fromNow then none else some (request.fromSequence.getD 0) }

theorem decode_encode (request : SubscribeRequest) (fits : Fits request.queryStr) :
    decode request.encode = .ok request.normalized := by
  have length : request.encode.length = 14 + (Utf8.encode request.queryStr).length := by
    simp only [encode, lengthField, List.length_append, List.length_singleton, le32_length, le64_length]
    omega
  obtain ⟨format, rest⟩ := (ahead_start request.encode).byte TnpError rfl
  obtain ⟨now, rest⟩ := rest.byte TnpError rfl
  obtain ⟨sequence, rest⟩ := rest.u64 TnpError rfl
  obtain ⟨size, rest⟩ := rest.u32 TnpError rfl
  obtain ⟨text, _⟩ := readText_ahead rest.last rfl
  rw [decode, refuseShort_bind (by omega), format, Except.ok_bind, QueryFormat.ofU8_toU8, Except.ok_bind, now,
    Except.ok_bind, sequence, Except.ok_bind, size, Except.ok_bind, fits.toNat, refuseShort_bind (by omega), text,
    Except.ok_bind, flagByte_ne_zero]
  unfold normalized
  cases request.fromNow <;> rfl

theorem decode_safe (bytes : List UInt8) : Safe (decode bytes) := by
  apply refuseShort_safe
  intro header
  rw [byteAt_ok (by omega), Except.ok_bind]
  apply (QueryFormat.ofU8_safe _).bind
  intro format _
  rw [byteAt_ok (by omega), Except.ok_bind, u64At_ok (by omega), Except.ok_bind, u32At_ok (by omega), Except.ok_bind]
  apply refuseShort_safe
  intro whole
  apply (readText_safe (by omega) (by omega)).bind
  exact fun text _ => safe_ok _

end SubscribeRequest

namespace SubscribeResponse

def encode (response : SubscribeResponse) : List UInt8 :=
  le64 response.subscriptionId ++ ([flagByte response.success] ++ (le64 response.snapshotStart ++
    (le64 response.snapshotEnd ++ (lengthField response.message ++ Utf8.encode response.message))))

def decode (bytes : List UInt8) : Parse TnpError SubscribeResponse := do
  refuseShort bytes 29 "Truncated SubscribeResponse"
  let subscriptionId ← u64At bytes 0
  let success ← byteAt bytes 8
  let snapshotStart ← u64At bytes 9
  let snapshotEnd ← u64At bytes 17
  let msgLen ← u32At bytes 25
  refuseShort bytes (29 + msgLen.toNat) "Truncated SubscribeResponse message"
  let message ← readText bytes 29 (29 + msgLen.toNat)
  return ⟨subscriptionId, success ≠ 0, snapshotStart, snapshotEnd, message⟩

theorem decode_encode (response : SubscribeResponse) (fits : Fits response.message) :
    decode response.encode = .ok response := by
  have length : response.encode.length = 29 + (Utf8.encode response.message).length := by
    simp only [encode, lengthField, List.length_append, List.length_singleton, le32_length, le64_length]
    omega
  obtain ⟨id, rest⟩ := (ahead_start response.encode).u64 TnpError rfl
  obtain ⟨success, rest⟩ := rest.byte TnpError rfl
  obtain ⟨start, rest⟩ := rest.u64 TnpError rfl
  obtain ⟨stop, rest⟩ := rest.u64 TnpError rfl
  obtain ⟨size, rest⟩ := rest.u32 TnpError rfl
  obtain ⟨text, _⟩ := readText_ahead rest.last rfl
  rw [decode, refuseShort_bind (by omega), id, Except.ok_bind, success, Except.ok_bind, start, Except.ok_bind, stop,
    Except.ok_bind, size, Except.ok_bind, fits.toNat, refuseShort_bind (by omega), text, Except.ok_bind,
    flagByte_ne_zero]
  rfl

theorem decode_safe (bytes : List UInt8) : Safe (decode bytes) := by
  apply refuseShort_safe
  intro header
  rw [u64At_ok (by omega), Except.ok_bind, byteAt_ok (by omega), Except.ok_bind, u64At_ok (by omega), Except.ok_bind,
    u64At_ok (by omega), Except.ok_bind, u32At_ok (by omega), Except.ok_bind]
  apply refuseShort_safe
  intro whole
  apply (readText_safe (by omega) (by omega)).bind
  exact fun text _ => safe_ok _

end SubscribeResponse

namespace LiveEventRecord

def encode (record : LiveEventRecord) : List UInt8 :=
  le64 record.subscriptionId ++ (le64 record.sequence ++ ([flagByte record.isLive] ++ (le32 record.entityShard ++
    (le32 record.entitySlot ++ (le32 record.entityGeneration ++ (le32 record.schema ++ (le32 record.validClock ++
      (le64 record.validTime ++ (le32 record.knownClock ++ (le64 record.knownTime ++ (lengthField record.payloadHex ++
        Utf8.encode record.payloadHex)))))))))))

def decode (bytes : List UInt8) : Parse TnpError LiveEventRecord := do
  refuseShort bytes 61 "Truncated LiveEventRecord"
  let subscriptionId ← u64At bytes 0
  let sequence ← u64At bytes 8
  let isLive ← byteAt bytes 16
  let entityShard ← u32At bytes 17
  let entitySlot ← u32At bytes 21
  let entityGeneration ← u32At bytes 25
  let schema ← u32At bytes 29
  let validClock ← u32At bytes 33
  let validTime ← u64At bytes 37
  let knownClock ← u32At bytes 45
  let knownTime ← u64At bytes 49
  let hexLen ← u32At bytes 57
  refuseShort bytes (61 + hexLen.toNat) "Truncated LiveEventRecord payload_hex"
  let payloadHex ← readText bytes 61 (61 + hexLen.toNat)
  return ⟨subscriptionId, sequence, isLive ≠ 0, entityShard, entitySlot, entityGeneration, schema, validClock,
    validTime, knownClock, knownTime, payloadHex⟩

theorem decode_encode (record : LiveEventRecord) (fits : Fits record.payloadHex) :
    decode record.encode = .ok record := by
  have length : record.encode.length = 61 + (Utf8.encode record.payloadHex).length := by
    simp only [encode, lengthField, List.length_append, List.length_singleton, le32_length, le64_length]
    omega
  obtain ⟨id, rest⟩ := (ahead_start record.encode).u64 TnpError rfl
  obtain ⟨sequence, rest⟩ := rest.u64 TnpError rfl
  obtain ⟨live, rest⟩ := rest.byte TnpError rfl
  obtain ⟨shard, rest⟩ := rest.u32 TnpError rfl
  obtain ⟨slot, rest⟩ := rest.u32 TnpError rfl
  obtain ⟨generation, rest⟩ := rest.u32 TnpError rfl
  obtain ⟨schema, rest⟩ := rest.u32 TnpError rfl
  obtain ⟨validClock, rest⟩ := rest.u32 TnpError rfl
  obtain ⟨validTime, rest⟩ := rest.u64 TnpError rfl
  obtain ⟨knownClock, rest⟩ := rest.u32 TnpError rfl
  obtain ⟨knownTime, rest⟩ := rest.u64 TnpError rfl
  obtain ⟨size, rest⟩ := rest.u32 TnpError rfl
  obtain ⟨text, _⟩ := readText_ahead rest.last rfl
  rw [decode, refuseShort_bind (by omega), id, Except.ok_bind, sequence, Except.ok_bind, live, Except.ok_bind, shard,
    Except.ok_bind, slot, Except.ok_bind, generation, Except.ok_bind, schema, Except.ok_bind, validClock,
    Except.ok_bind, validTime, Except.ok_bind, knownClock, Except.ok_bind, knownTime, Except.ok_bind, size,
    Except.ok_bind, fits.toNat, refuseShort_bind (by omega), text, Except.ok_bind, flagByte_ne_zero]
  rfl

theorem decode_safe (bytes : List UInt8) : Safe (decode bytes) := by
  apply refuseShort_safe
  intro header
  rw [u64At_ok (by omega), Except.ok_bind, u64At_ok (by omega), Except.ok_bind, byteAt_ok (by omega), Except.ok_bind,
    u32At_ok (by omega), Except.ok_bind, u32At_ok (by omega), Except.ok_bind, u32At_ok (by omega), Except.ok_bind,
    u32At_ok (by omega), Except.ok_bind, u32At_ok (by omega), Except.ok_bind, u64At_ok (by omega), Except.ok_bind,
    u32At_ok (by omega), Except.ok_bind, u64At_ok (by omega), Except.ok_bind, u32At_ok (by omega), Except.ok_bind]
  apply refuseShort_safe
  intro whole
  apply (readText_safe (by omega) (by omega)).bind
  exact fun text _ => safe_ok _

end LiveEventRecord

namespace UnsubscribeRequest

def encode (request : UnsubscribeRequest) : List UInt8 := le64 request.subscriptionId

def decode (bytes : List UInt8) : Parse TnpError UnsubscribeRequest := do
  refuseShort bytes 8 "Truncated UnsubscribeRequest"
  let subscriptionId ← u64At bytes 0
  return ⟨subscriptionId⟩

theorem decode_encode (request : UnsubscribeRequest) : decode request.encode = .ok request := by
  have length : request.encode.length = 8 := le64_length request.subscriptionId
  obtain ⟨id, _⟩ := (ahead_start request.encode).last.u64 TnpError rfl
  rw [decode, refuseShort_bind (by omega), id]
  rfl

theorem decode_safe (bytes : List UInt8) : Safe (decode bytes) := by
  apply refuseShort_safe
  intro header
  rw [u64At_ok (by omega)]
  exact safe_ok _

end UnsubscribeRequest

namespace UnsubscribeResponse

def encode (response : UnsubscribeResponse) : List UInt8 :=
  le64 response.subscriptionId ++ [flagByte response.success]

def decode (bytes : List UInt8) : Parse TnpError UnsubscribeResponse := do
  refuseShort bytes 9 "Truncated UnsubscribeResponse"
  let subscriptionId ← u64At bytes 0
  let success ← byteAt bytes 8
  return ⟨subscriptionId, success ≠ 0⟩

theorem decode_encode (response : UnsubscribeResponse) : decode response.encode = .ok response := by
  have length : response.encode.length = 9 := by
    rw [encode, List.length_append, le64_length, List.length_singleton]
  obtain ⟨id, rest⟩ := (ahead_start response.encode).u64 TnpError rfl
  obtain ⟨success, _⟩ := rest.last.byte TnpError rfl
  rw [decode, refuseShort_bind (by omega), id, Except.ok_bind, success, Except.ok_bind, flagByte_ne_zero]
  rfl

theorem decode_safe (bytes : List UInt8) : Safe (decode bytes) := by
  apply refuseShort_safe
  intro header
  rw [u64At_ok (by omega), Except.ok_bind, byteAt_ok (by omega)]
  exact safe_ok _

end UnsubscribeResponse

end Temnion.Protocol
