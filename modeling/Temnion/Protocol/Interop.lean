import Temnion.Format.Checksum
import Temnion.Protocol.Clients

/-
This file shows that the clients and the server read what the others write.
-/

namespace Temnion.Protocol

open LittleEndian Slices Format

section Widths

variable {bytes rest : List UInt8} {offset : Nat}

theorem bytesOf_one (byte : UInt8) : bytesOf 1 byte.toNat = [byte] := by
  rw [bytesOf, bytesOf, UInt8.ofNat_toNat]

theorem u8_fits (byte : UInt8) : byte.toNat < 256 ^ 1 := byte.toNat_lt

theorem u16_fits (value : UInt16) : value.toNat < 256 ^ 2 := value.toNat_lt

theorem u32_fits (value : UInt32) : value.toNat < 256 ^ 4 := value.toNat_lt

theorem u64_fits (value : UInt64) : value.toNat < 256 ^ 8 := value.toNat_lt

theorem flag_ne_zero (flag : Bool) : decide ((flagByte flag).toNat ≠ 0) = flag := by
  cases flag <;> rfl

/-- A number of some width stands ahead. -/
theorem word_ahead {width value : Nat} (ahead : Ahead bytes offset (bytesOf width value ++ rest)) :
    (sliceAt bytes offset (offset + width) : Parse String (List UInt8)) = .ok (bytesOf width value) := by
  have place : offset + (bytesOf width value).length = offset + width := by rw [bytesOf_length]
  exact (ahead.slice String place).1

end Widths

/-- A packet field by field. -/
theorem bytes_ahead [Crc32fast] (packet : TnpPacket) : Ahead packet.bytes 0 (tnpMagic ++ (le16 packet.version ++
    (le16 packet.messageType.toU16 ++ (le32 packet.streamId ++ (le32 (UInt32.ofNat packet.payload.length) ++
      (packet.payload ++ le32 (Crc32fast.hash packet.body))))))) := by
  refine ⟨Nat.zero_le _, ?_⟩
  simp only [TnpPacket.bytes, TnpPacket.body, List.append_assoc, List.drop_zero]

theorem raiseIf_bind {A : Type} {condition : Prop} [Decidable condition] {message : String}
    {next : Unit → Parse String A} (passes : ¬ condition) : (raiseIf condition message >>= next) = next () :=
  Except.refuseIf_bind passes

/-- The number of bytes of a payload that fits. -/
theorem size_toNat {payload : List UInt8} (fits : payload.length ≤ maxPacketLen) :
    (UInt32.ofNat payload.length).toNat = payload.length :=
  @TnpPacket.size_toNat (TnpPacket.new .ping 0 payload) ⟨rfl, fits⟩

namespace Python

variable {fields : List (Nat × Nat)} {packed bytes rest : List UInt8} {widths values : List Nat} {offset : Nat}

theorem pack_nil : pack [] = .ok [] := rfl

theorem unpack_nil : unpackFrom bytes offset [] = .ok [] := rfl

theorem pack_word {width value : Nat} (fits : value < 256 ^ width) (others : pack fields = .ok packed) :
    pack ((width, value) :: fields) = .ok (bytesOf width value ++ packed) := by
  rw [pack, others, Except.ok_bind, if_pos fits]
  rfl

theorem pack_u8 (byte : UInt8) (others : pack fields = .ok packed) :
    pack ((1, byte.toNat) :: fields) = .ok ([byte] ++ packed) := by
  rw [pack_word (u8_fits byte) others, bytesOf_one]

theorem pack_u16 (value : UInt16) (others : pack fields = .ok packed) :
    pack ((2, value.toNat) :: fields) = .ok (le16 value ++ packed) := pack_word (u16_fits value) others

theorem pack_u32 (value : UInt32) (others : pack fields = .ok packed) :
    pack ((4, value.toNat) :: fields) = .ok (le32 value ++ packed) := pack_word (u32_fits value) others

theorem pack_u64 (value : UInt64) (others : pack fields = .ok packed) :
    pack ((8, value.toNat) :: fields) = .ok (le64 value ++ packed) := pack_word (u64_fits value) others

theorem unpack_word {width value : Nat} (fits : value < 256 ^ width)
    (ahead : Ahead bytes offset (bytesOf width value ++ rest))
    (others : unpackFrom bytes (offset + width) widths = .ok values) :
    unpackFrom bytes offset (width :: widths) = .ok (value :: values) := by
  rw [unpackFrom, word_ahead ahead, Except.ok_bind, others, Except.ok_bind, valueOf_bytesOf fits]
  rfl

theorem unpack_u8 {byte : UInt8} (ahead : Ahead bytes offset ([byte] ++ rest))
    (others : unpackFrom bytes (offset + 1) widths = .ok values) :
    unpackFrom bytes offset (1 :: widths) = .ok (byte.toNat :: values) := by
  rw [← bytesOf_one] at ahead
  exact unpack_word (u8_fits byte) ahead others

theorem unpack_u16 {value : UInt16} (ahead : Ahead bytes offset (le16 value ++ rest))
    (others : unpackFrom bytes (offset + 2) widths = .ok values) :
    unpackFrom bytes offset (2 :: widths) = .ok (value.toNat :: values) := unpack_word (u16_fits value) ahead others

theorem unpack_u32 {value : UInt32} (ahead : Ahead bytes offset (le32 value ++ rest))
    (others : unpackFrom bytes (offset + 4) widths = .ok values) :
    unpackFrom bytes offset (4 :: widths) = .ok (value.toNat :: values) := unpack_word (u32_fits value) ahead others

theorem unpack_u64 {value : UInt64} (ahead : Ahead bytes offset (le64 value ++ rest))
    (others : unpackFrom bytes (offset + 8) widths = .ok values) :
    unpackFrom bytes offset (8 :: widths) = .ok (value.toNat :: values) := unpack_word (u64_fits value) ahead others

theorem decodeText_encode (text : Text) : decodeText (Utf8.encode text) = .ok text := by
  rw [decodeText, Utf8.decode_encode]
  rfl

theorem encodeHandshakeRequest_eq {clientId : Text} (fits : Fits clientId) (capabilityFlags : UInt64) :
    encodeHandshakeRequest clientId capabilityFlags.toNat =
      .ok (HandshakeRequest.encode ⟨tnpVersion, clientId, capabilityFlags⟩) := by
  have front : pack [(2, clientVersion), (4, (Utf8.encode clientId).length)] = .ok (le16 tnpVersion ++
      (lengthField clientId ++ [])) := by
    have fields := pack_u16 tnpVersion (pack_u32 (UInt32.ofNat (Utf8.encode clientId).length) pack_nil)
    rwa [fits.toNat] at fields
  have flags : pack [(8, capabilityFlags.toNat)] = .ok (le64 capabilityFlags ++ []) := pack_u64 capabilityFlags pack_nil
  rw [encodeHandshakeRequest, front, Except.ok_bind, flags, Except.ok_bind, HandshakeRequest.encode]
  simp only [List.append_assoc, List.append_nil]
  rfl

theorem decodeHandshakeResponse_encode (response : HandshakeResponse) (fits : Fits response.serverId) :
    decodeHandshakeResponse response.encode =
      .ok (response.success, response.negotiatedVersion.toNat, response.serverId, response.capabilityFlags.toNat) := by
  have length : response.encode.length = 7 + (Utf8.encode response.serverId).length + 8 := by
    simp only [HandshakeResponse.encode, lengthField, List.length_append, List.length_singleton, le16_length,
      le32_length, le64_length]
    omega
  have start := ahead_start response.encode
  obtain ⟨_, version⟩ := start.byte String rfl
  obtain ⟨_, size⟩ := version.u16 String rfl
  obtain ⟨_, text⟩ := size.u32 String rfl
  obtain ⟨raw, flags⟩ := text.slice String rfl
  have header : unpackFrom response.encode 0 [1, 2, 4] = .ok [(flagByte response.success).toNat,
      response.negotiatedVersion.toNat, (Utf8.encode response.serverId).length] := by
    rw [← fits.toNat]
    exact unpack_u8 start (unpack_u16 version (unpack_u32 size unpack_nil))
  have last := unpack_u64 flags.last unpack_nil
  rw [decodeHandshakeResponse, raiseIf_bind (by omega), header, Except.ok_bind]
  dsimp only
  rw [raiseIf_bind (by omega), raw, Except.ok_bind, decodeText_encode, Except.ok_bind, last, Except.ok_bind,
    flag_ne_zero]
  rfl

theorem encodeQueryRequest_eq (request : QueryRequest) (fits : Fits request.queryStr) :
    encodeQueryRequest request.queryStr request.format.toU8.toNat request.maxRows.toNat = .ok request.encode := by
  have front : pack [(1, request.format.toU8.toNat), (4, request.maxRows.toNat),
      (4, (Utf8.encode request.queryStr).length)] = .ok ([request.format.toU8] ++ (le32 request.maxRows ++
        (lengthField request.queryStr ++ []))) := by
    have fields := pack_u8 request.format.toU8 (pack_u32 request.maxRows
      (pack_u32 (UInt32.ofNat (Utf8.encode request.queryStr).length) pack_nil))
    rwa [fits.toNat] at fields
  rw [encodeQueryRequest, front, Except.ok_bind, QueryRequest.encode]
  simp only [List.append_assoc, List.append_nil]
  rfl

theorem encodeSubscribeRequest_eq (request : SubscribeRequest) (fits : Fits request.queryStr) :
    encodeSubscribeRequest request.queryStr request.format.toU8.toNat (request.fromSequence.map UInt64.toNat)
      request.fromNow = .ok request.encode := by
  have now : (if request.fromNow then 1 else 0) = (flagByte request.fromNow).toNat := by
    cases request.fromNow <;> rfl
  have sequence : (request.fromSequence.map UInt64.toNat).getD 0 = (request.fromSequence.getD 0).toNat := by
    cases request.fromSequence <;> rfl
  have front : pack [(1, request.format.toU8.toNat), (1, (flagByte request.fromNow).toNat),
      (8, (request.fromSequence.getD 0).toNat), (4, (Utf8.encode request.queryStr).length)] =
        .ok ([request.format.toU8] ++ ([flagByte request.fromNow] ++ (le64 (request.fromSequence.getD 0) ++
          (lengthField request.queryStr ++ [])))) := by
    have fields := pack_u8 request.format.toU8 (pack_u8 (flagByte request.fromNow)
      (pack_u64 (request.fromSequence.getD 0)
        (pack_u32 (UInt32.ofNat (Utf8.encode request.queryStr).length) pack_nil)))
    rwa [fits.toNat] at fields
  rw [encodeSubscribeRequest, now, sequence, front, Except.ok_bind, SubscribeRequest.encode]
  simp only [List.append_assoc, List.append_nil]
  rfl

theorem decodeSubscribeResponse_encode (response : SubscribeResponse) (fits : Fits response.message) :
    decodeSubscribeResponse response.encode = .ok (response.subscriptionId.toNat, response.success,
      response.snapshotStart.toNat, response.snapshotEnd.toNat, response.message) := by
  have length : response.encode.length = 29 + (Utf8.encode response.message).length := by
    simp only [SubscribeResponse.encode, lengthField, List.length_append, List.length_singleton, le32_length,
      le64_length]
    omega
  have start := ahead_start response.encode
  obtain ⟨_, success⟩ := start.u64 String rfl
  obtain ⟨_, first⟩ := success.byte String rfl
  obtain ⟨_, second⟩ := first.u64 String rfl
  obtain ⟨_, size⟩ := second.u64 String rfl
  obtain ⟨_, text⟩ := size.u32 String rfl
  obtain ⟨raw, _⟩ := text.last.slice String rfl
  have header : unpackFrom response.encode 0 [8, 1, 8, 8, 4] = .ok [response.subscriptionId.toNat,
      (flagByte response.success).toNat, response.snapshotStart.toNat, response.snapshotEnd.toNat,
        (Utf8.encode response.message).length] := by
    rw [← fits.toNat]
    exact unpack_u64 start (unpack_u8 success (unpack_u64 first (unpack_u64 second (unpack_u32 size unpack_nil))))
  rw [decodeSubscribeResponse, raiseIf_bind (by omega), header, Except.ok_bind]
  dsimp only
  rw [raiseIf_bind (by omega), raw, Except.ok_bind, decodeText_encode, Except.ok_bind, flag_ne_zero]
  rfl

theorem decodeLiveEvent_encode (record : LiveEventRecord) (fits : Fits record.payloadHex) :
    decodeLiveEvent record.encode = .ok ⟨record.subscriptionId.toNat, record.sequence.toNat, record.isLive,
      record.entityShard.toNat, record.entitySlot.toNat, record.entityGeneration.toNat, record.schema.toNat,
      record.validClock.toNat, record.validTime.toNat, record.knownClock.toNat, record.knownTime.toNat,
      record.payloadHex⟩ := by
  have length : record.encode.length = 61 + (Utf8.encode record.payloadHex).length := by
    simp only [LiveEventRecord.encode, lengthField, List.length_append, List.length_singleton, le32_length,
      le64_length]
    omega
  have start := ahead_start record.encode
  obtain ⟨_, sequence⟩ := start.u64 String rfl
  obtain ⟨_, live⟩ := sequence.u64 String rfl
  obtain ⟨_, shard⟩ := live.byte String rfl
  obtain ⟨_, slot⟩ := shard.u32 String rfl
  obtain ⟨_, generation⟩ := slot.u32 String rfl
  obtain ⟨_, schema⟩ := generation.u32 String rfl
  obtain ⟨_, validClock⟩ := schema.u32 String rfl
  obtain ⟨_, validTime⟩ := validClock.u32 String rfl
  obtain ⟨_, knownClock⟩ := validTime.u64 String rfl
  obtain ⟨_, knownTime⟩ := knownClock.u32 String rfl
  obtain ⟨_, size⟩ := knownTime.u64 String rfl
  obtain ⟨_, text⟩ := size.u32 String rfl
  obtain ⟨raw, _⟩ := text.last.slice String rfl
  have header : unpackFrom record.encode 0 [8, 8, 1, 4, 4, 4, 4, 4, 8, 4, 8, 4] = .ok [record.subscriptionId.toNat,
      record.sequence.toNat, (flagByte record.isLive).toNat, record.entityShard.toNat, record.entitySlot.toNat,
      record.entityGeneration.toNat, record.schema.toNat, record.validClock.toNat, record.validTime.toNat,
      record.knownClock.toNat, record.knownTime.toNat, (Utf8.encode record.payloadHex).length] := by
    rw [← fits.toNat]
    apply unpack_u64 start
    apply unpack_u64 sequence
    apply unpack_u8 live
    apply unpack_u32 shard
    apply unpack_u32 slot
    apply unpack_u32 generation
    apply unpack_u32 schema
    apply unpack_u32 validClock
    apply unpack_u64 validTime
    apply unpack_u32 knownClock
    apply unpack_u64 knownTime
    exact unpack_u32 size unpack_nil
  rw [decodeLiveEvent, raiseIf_bind (by omega), header, Except.ok_bind]
  dsimp only
  rw [raiseIf_bind (by omega), raw, Except.ok_bind, decodeText_encode, Except.ok_bind, flag_ne_zero]
  rfl

theorem encodeUnsubscribeRequest_eq (request : UnsubscribeRequest) :
    encodeUnsubscribeRequest request.subscriptionId.toNat = .ok request.encode := by
  have fields := pack_u64 request.subscriptionId pack_nil
  rwa [List.append_nil] at fields

theorem decodeUnsubscribeResponse_encode (response : UnsubscribeResponse) :
    decodeUnsubscribeResponse response.encode = .ok (response.subscriptionId.toNat, response.success) := by
  have length : response.encode.length = 9 := by
    rw [UnsubscribeResponse.encode, List.length_append, le64_length, List.length_singleton]
  have start := ahead_start response.encode
  obtain ⟨_, success⟩ := start.u64 String rfl
  rw [decodeUnsubscribeResponse, raiseIf_bind (by omega), unpack_u64 start (unpack_u8 success.last unpack_nil),
    Except.ok_bind]
  dsimp only
  rw [flag_ne_zero]
  rfl

section Packets

variable (messageType : TnpMessageType) (streamId : UInt32) {payload : List UInt8}

theorem encodePacket_eq (fits : payload.length ≤ maxPacketLen) :
    encodePacket ⟨messageType.toU16.toNat, streamId.toNat, payload, clientVersion⟩ =
      .ok (@TnpPacket.bytes Crc32fast.ieee (TnpPacket.new messageType streamId payload)) := by
  have header : pack [(2, clientVersion), (2, messageType.toU16.toNat), (4, streamId.toNat), (4, payload.length)] =
      .ok (le16 tnpVersion ++ (le16 messageType.toU16 ++ (le32 streamId ++
        (le32 (UInt32.ofNat payload.length) ++ [])))) := by
    have fields := pack_u16 tnpVersion (pack_u16 messageType.toU16 (pack_u32 streamId
      (pack_u32 (UInt32.ofNat payload.length) pack_nil)))
    rwa [size_toNat fits] at fields
  have same : tnpMagic ++ (le16 tnpVersion ++ (le16 messageType.toU16 ++ (le32 streamId ++
      (le32 (UInt32.ofNat payload.length) ++ [])))) ++ payload = (TnpPacket.new messageType streamId payload).body := by
    simp only [TnpPacket.body, TnpPacket.new, List.append_assoc, List.append_nil]
  rw [encodePacket, raiseIf_bind (Nat.not_lt.mpr fits), header, Except.ok_bind, same]
  have checksum : pack [(4, crc32 (TnpPacket.new messageType streamId payload).body)] =
      .ok (le32 (Crc32fast.ieee.hash (TnpPacket.new messageType streamId payload).body) ++ []) :=
    pack_u32 _ pack_nil
  dsimp only
  rw [checksum, Except.ok_bind, List.append_nil]
  rfl

theorem decodePacket_bytes (fits : payload.length ≤ maxPacketLen) :
    decodePacket (@TnpPacket.bytes Crc32fast.ieee (TnpPacket.new messageType streamId payload)) =
      .ok (⟨messageType.toU16.toNat, streamId.toNat, payload, clientVersion⟩,
        (@TnpPacket.bytes Crc32fast.ieee (TnpPacket.new messageType streamId payload)).length) := by
  let := Crc32fast.ieee
  generalize whole : (TnpPacket.new messageType streamId payload).bytes = bytes
  have length : bytes.length = 16 + payload.length + 4 := by
    rw [← whole, TnpPacket.bytes_length]
    rfl
  have start : Ahead bytes 0 _ := whole ▸ bytes_ahead (TnpPacket.new messageType streamId payload)
  obtain ⟨magic, version⟩ := start.slice String rfl
  obtain ⟨_, raw⟩ := version.u16 String rfl
  obtain ⟨_, stream⟩ := raw.u16 String rfl
  obtain ⟨_, size⟩ := stream.u32 String rfl
  obtain ⟨_, text⟩ := size.u32 String rfl
  obtain ⟨body, checksum⟩ := text.slice String rfl
  have header : unpackFrom bytes 4 [2, 2, 4, 4] = .ok [clientVersion, messageType.toU16.toNat, streamId.toNat,
      payload.length] := by
    rw [← size_toNat fits]
    exact unpack_u16 version (unpack_u16 raw (unpack_u32 stream (unpack_u32 size unpack_nil)))
  have framed : (sliceAt bytes 0 (16 + payload.length) : Parse String (List UInt8)) =
      .ok (TnpPacket.new messageType streamId payload).body := by
    apply @sliceAt_of_split _ _ _ _ [] (le32 (Crc32fast.hash (TnpPacket.new messageType streamId payload).body))
    · rw [← whole, List.nil_append]
      rfl
    · rfl
    · rw [TnpPacket.body_length, Nat.zero_add]
      rfl
  rw [decodePacket, raiseIf_bind (by unfold tnpOverhead tnpHeaderLen; omega)]
  change (Slices.sliceAt bytes 0 (0 + tnpMagic.length) >>= _) = _
  rw [magic, Except.ok_bind, header, Except.ok_bind]
  dsimp only
  rw [raiseIf_bind (not_not.mpr rfl), raiseIf_bind (not_not.mpr rfl), raiseIf_bind (Nat.not_lt.mpr fits)]
  change (raiseIf (bytes.length < 16 + payload.length + 4) _ >>= _) = _
  rw [raiseIf_bind (by omega)]
  change (Slices.sliceAt bytes 16 (16 + payload.length) >>= _) = _
  have body' : (sliceAt bytes 16 (16 + payload.length) : Parse String (List UInt8)) = .ok payload := body
  have checksum' : unpackFrom bytes (16 + payload.length) [4] =
      .ok [crc32 (TnpPacket.new messageType streamId payload).body] := unpack_u32 checksum.last unpack_nil
  rw [body', Except.ok_bind]
  change (Slices.sliceAt bytes 0 (16 + payload.length) >>= _) = _
  rw [framed, Except.ok_bind]
  change (unpackFrom bytes (16 + payload.length) [4] >>= _) = _
  rw [checksum', Except.ok_bind]
  dsimp only
  rw [raiseIf_bind (not_not.mpr rfl), length]
  rfl

end Packets

end Python

namespace TypeScript

section Buffers

variable {front source bytes middle rest : List UInt8} {width value room offset next : Nat}

theorem alloc_length (size : Nat) : (alloc size).length = size := List.length_replicate

theorem alloc_add (first second : Nat) : alloc (first + second) = alloc first ++ alloc second :=
  List.replicate_add first second 0

/-- A part that is written behind the written bytes takes the place of zeros. -/
theorem write_next (place : front.length = offset) :
    write (front ++ alloc (source.length + room)) offset source = .ok (front ++ source ++ alloc room) := by
  have fits : offset + source.length ≤ (front ++ alloc (source.length + room)).length := by
    rw [List.length_append, alloc_length]
    omega
  have behind : (front ++ alloc (source.length + room)).drop (offset + source.length) = alloc room := by
    rw [alloc_add, ← List.append_assoc, List.drop_left' (by rw [List.length_append, alloc_length, place])]
  have before : (front ++ alloc (source.length + room)).take offset = front := by
    rw [← place, List.take_left]
  rw [write, if_pos fits, behind, before]

theorem writeUInt_next (place : front.length = offset) (fits : value < 256 ^ width) :
    writeUInt width (front ++ alloc (width + room)) value offset = .ok (front ++ bytesOf width value ++ alloc room) := by
  have part := @write_next front (bytesOf width value) room offset place
  rw [bytesOf_length] at part
  rw [writeUInt, if_pos fits, part]

theorem write_u8 (byte : UInt8) (place : front.length = offset) :
    writeUInt 1 (front ++ alloc (1 + room)) byte.toNat offset = .ok (front ++ [byte] ++ alloc room) := by
  rw [writeUInt_next place (u8_fits byte), bytesOf_one]

theorem write_u16 (word : UInt16) (place : front.length = offset) :
    writeUInt 2 (front ++ alloc (2 + room)) word.toNat offset = .ok (front ++ le16 word ++ alloc room) :=
  writeUInt_next place (u16_fits word)

theorem write_u32 (word : UInt32) (place : front.length = offset) :
    writeUInt 4 (front ++ alloc (4 + room)) word.toNat offset = .ok (front ++ le32 word ++ alloc room) :=
  writeUInt_next place (u32_fits word)

theorem write_u64 (word : UInt64) (place : front.length = offset) :
    writeUInt 8 (front ++ alloc (8 + room)) word.toNat offset = .ok (front ++ le64 word ++ alloc room) :=
  writeUInt_next place (u64_fits word)

theorem copy_next (place : front.length = offset) :
    copy source (front ++ alloc (source.length + room)) offset = front ++ source ++ alloc room := by
  have written := @write_next front source room offset place
  have fits : offset + source.length ≤ (front ++ alloc (source.length + room)).length := by
    rw [List.length_append, alloc_length]
    omega
  rw [write, if_pos fits] at written
  have whole : source.take ((front ++ alloc (source.length + room)).length - offset) = source :=
    List.take_of_length_le (by omega)
  rw [copy, whole]
  exact Except.ok.inj written

theorem readUInt_word (fits : value < 256 ^ width) (ahead : Ahead bytes offset (bytesOf width value ++ rest)) :
    readUInt width bytes offset = .ok value := by
  rw [readUInt, word_ahead ahead, Except.ok_bind, valueOf_bytesOf fits]
  rfl

theorem readUInt_u8 {byte : UInt8} (ahead : Ahead bytes offset ([byte] ++ rest)) :
    readUInt 1 bytes offset = .ok byte.toNat := by
  rw [← bytesOf_one] at ahead
  exact readUInt_word (u8_fits byte) ahead

theorem readUInt_u16 {word : UInt16} (ahead : Ahead bytes offset (le16 word ++ rest)) :
    readUInt 2 bytes offset = .ok word.toNat := readUInt_word (u16_fits word) ahead

theorem readUInt_u32 {word : UInt32} (ahead : Ahead bytes offset (le32 word ++ rest)) :
    readUInt 4 bytes offset = .ok word.toNat := readUInt_word (u32_fits word) ahead

theorem readUInt_u64 {word : UInt64} (ahead : Ahead bytes offset (le64 word ++ rest)) :
    readUInt 8 bytes offset = .ok word.toNat := readUInt_word (u64_fits word) ahead

theorem subarray_ahead (ahead : Ahead bytes offset (middle ++ rest)) (place : offset + middle.length = next) :
    subarray bytes offset next = middle := by
  have length : next - offset = middle.length := by omega
  rw [subarray, length]
  exact (ahead.part place).2.1

theorem toText_encode [Replacement] (text : Text) : toText (Utf8.encode text) = text := by
  rw [toText, Utf8.decode_encode, Option.getD_some]

end Buffers

section Checksums

theorem tableBit_eq (value : UInt32) : tableBit value = crcBit value := by
  rw [tableBit]
  rcases and_one value with even | odd
  · rw [even, if_neg (not_not.mpr rfl), crcBit_even even]
  · rw [odd, if_pos (by decide), crcBit_odd odd, UInt32.xor_comm]

/-- The table takes the eight bits of a byte at once. -/
theorem crcStep_eq (crc : UInt32) (byte : UInt8) : crcStep crc byte = crcBit^[8] (crc ^^^ byte.toUInt32) := by
  have bits : tableBit = crcBit := funext tableBit_eq
  have small : byte.toUInt32 >>> 8 = 0 := by
    apply UInt32.toNat_inj.mp
    rw [UInt32.toNat_shiftRight, UInt8.toNat_toUInt32]
    change byte.toNat >>> 8 = 0
    rw [Nat.shiftRight_eq_div_pow]
    exact Nat.div_eq_of_lt byte.toNat_lt
  rw [iterate_crcBit_eight, UInt32.shiftRight_xor, small, UInt32.xor_zero, crcStep, crcTable, bits]

/-- The checksum of the client is the one of the server. -/
theorem crc32_eq (buffer : List UInt8) : crc32 buffer = (Crc32fast.ieee.hash buffer).toNat := by
  have steps : crcStep = fun value byte => crcBit^[8] (value ^^^ byte.toUInt32) := by
    funext crc byte
    exact crcStep_eq crc byte
  rw [crc32, steps]
  rfl

end Checksums

section Encoders

/-- The length of a text, as the number that it is written as. -/
theorem length_field {text : Text} (fits : Fits text) :
    (Utf8.encode text).length = (UInt32.ofNat (Utf8.encode text).length).toNat := fits.toNat.symm

theorem encodeHandshakeRequest_eq {clientId : Text} (fits : Fits clientId) (capabilityFlags : UInt64) :
    encodeHandshakeRequest clientId capabilityFlags.toNat =
      .ok (HandshakeRequest.encode ⟨tnpVersion, clientId, capabilityFlags⟩) := by
  generalize room : (Utf8.encode clientId).length + (8 + 0) = behind
  have size : alloc (2 + 4 + (Utf8.encode clientId).length + 8) = [] ++ alloc (2 + (4 + behind)) := by
    rw [List.nil_append]
    congr 1
    omega
  have version : writeUInt 2 ([] ++ alloc (2 + (4 + behind))) clientVersion 0 = .ok (le16 tnpVersion ++
      alloc (4 + behind)) := write_u16 tnpVersion rfl
  have count : writeUInt 4 (le16 tnpVersion ++ alloc (4 + behind)) (Utf8.encode clientId).length 2 =
      .ok (le16 tnpVersion ++ lengthField clientId ++ alloc behind) := by
    have field := @write_u32 (le16 tnpVersion) behind 2 (UInt32.ofNat (Utf8.encode clientId).length) rfl
    rwa [fits.toNat] at field
  have text : copy (Utf8.encode clientId) (le16 tnpVersion ++ lengthField clientId ++ alloc behind) 6 =
      le16 tnpVersion ++ lengthField clientId ++ Utf8.encode clientId ++ alloc (8 + 0) := by
    rw [← room]
    exact copy_next rfl
  have place : (le16 tnpVersion ++ lengthField clientId ++ Utf8.encode clientId).length =
      6 + (Utf8.encode clientId).length := by
    rw [List.length_append]
    rfl
  rw [encodeHandshakeRequest]
  dsimp only
  rw [size, version, Except.ok_bind, count, Except.ok_bind, text, write_u64 capabilityFlags place,
    HandshakeRequest.encode]
  simp only [List.append_assoc]
  rfl

theorem encodeQueryRequest_eq (request : QueryRequest) (fits : Fits request.queryStr) :
    encodeQueryRequest request.queryStr request.format.toU8.toNat request.maxRows.toNat = .ok request.encode := by
  generalize room : (Utf8.encode request.queryStr).length + 0 = behind
  have size : alloc (1 + 4 + 4 + (Utf8.encode request.queryStr).length) = [] ++ alloc (1 + (4 + (4 + behind))) := by
    rw [List.nil_append]
    congr 1
    omega
  have format : writeUInt 1 ([] ++ alloc (1 + (4 + (4 + behind)))) request.format.toU8.toNat 0 =
      .ok ([request.format.toU8] ++ alloc (4 + (4 + behind))) := write_u8 request.format.toU8 rfl
  have rows : writeUInt 4 ([request.format.toU8] ++ alloc (4 + (4 + behind))) request.maxRows.toNat 1 =
      .ok ([request.format.toU8] ++ le32 request.maxRows ++ alloc (4 + behind)) := write_u32 request.maxRows rfl
  have count : writeUInt 4 ([request.format.toU8] ++ le32 request.maxRows ++ alloc (4 + behind))
      (Utf8.encode request.queryStr).length 5 =
        .ok ([request.format.toU8] ++ le32 request.maxRows ++ lengthField request.queryStr ++ alloc behind) := by
    have field := @write_u32 ([request.format.toU8] ++ le32 request.maxRows) behind 5
      (UInt32.ofNat (Utf8.encode request.queryStr).length) rfl
    rwa [fits.toNat] at field
  have text : copy (Utf8.encode request.queryStr)
      ([request.format.toU8] ++ le32 request.maxRows ++ lengthField request.queryStr ++ alloc behind) 9 =
        [request.format.toU8] ++ le32 request.maxRows ++ lengthField request.queryStr ++
          Utf8.encode request.queryStr ++ alloc 0 := by
    rw [← room]
    exact copy_next rfl
  rw [encodeQueryRequest, size, format, Except.ok_bind, rows, Except.ok_bind, count, Except.ok_bind, text, QueryRequest.encode]
  simp only [List.append_assoc]
  rw [alloc, List.replicate_zero, List.append_nil]
  rfl

theorem encodeSubscribeRequest_eq (request : SubscribeRequest) (fits : Fits request.queryStr) :
    encodeSubscribeRequest request.queryStr request.format.toU8.toNat (request.fromSequence.map UInt64.toNat)
      request.fromNow = .ok request.encode := by
  have now : (if request.fromNow then 1 else 0) = (flagByte request.fromNow).toNat := by
    cases request.fromNow <;> rfl
  have sequence : (request.fromSequence.map UInt64.toNat).getD 0 = (request.fromSequence.getD 0).toNat := by
    cases request.fromSequence <;> rfl
  generalize room : (Utf8.encode request.queryStr).length + 0 = behind
  have size : alloc (1 + 1 + 8 + 4 + (Utf8.encode request.queryStr).length) =
      [] ++ alloc (1 + (1 + (8 + (4 + behind)))) := by
    rw [List.nil_append]
    congr 1
    omega
  have format : writeUInt 1 ([] ++ alloc (1 + (1 + (8 + (4 + behind))))) request.format.toU8.toNat 0 =
      .ok ([request.format.toU8] ++ alloc (1 + (8 + (4 + behind)))) := write_u8 request.format.toU8 rfl
  generalize headed : [request.format.toU8] ++ [flagByte request.fromNow] = header
  have flag : writeUInt 1 ([request.format.toU8] ++ alloc (1 + (8 + (4 + behind)))) (flagByte request.fromNow).toNat 1 =
      .ok (header ++ alloc (8 + (4 + behind))) := by
    rw [← headed]
    exact write_u8 (flagByte request.fromNow) rfl
  have from' : writeUInt 8 (header ++ alloc (8 + (4 + behind))) (request.fromSequence.getD 0).toNat 2 =
      .ok (header ++ le64 (request.fromSequence.getD 0) ++ alloc (4 + behind)) := by
    rw [← headed]
    exact write_u64 (request.fromSequence.getD 0) rfl
  have count : writeUInt 4 (header ++ le64 (request.fromSequence.getD 0) ++ alloc (4 + behind))
      (Utf8.encode request.queryStr).length 10 =
        .ok (header ++ le64 (request.fromSequence.getD 0) ++ lengthField request.queryStr ++ alloc behind) := by
    have field := @write_u32 (header ++ le64 (request.fromSequence.getD 0)) behind 10
      (UInt32.ofNat (Utf8.encode request.queryStr).length) (by rw [← headed]; rfl)
    rwa [fits.toNat] at field
  have text : copy (Utf8.encode request.queryStr)
      (header ++ le64 (request.fromSequence.getD 0) ++ lengthField request.queryStr ++ alloc behind) 14 =
        header ++ le64 (request.fromSequence.getD 0) ++ lengthField request.queryStr ++
          Utf8.encode request.queryStr ++ alloc 0 := by
    rw [← room, ← headed]
    exact copy_next rfl
  rw [encodeSubscribeRequest, now, sequence, size, format, Except.ok_bind, flag, Except.ok_bind, from', Except.ok_bind, count, Except.ok_bind, text, ← headed,
    SubscribeRequest.encode]
  simp only [List.append_assoc]
  rw [alloc, List.replicate_zero, List.append_nil]
  rfl

theorem encodeUnsubscribeRequest_eq (request : UnsubscribeRequest) :
    encodeUnsubscribeRequest request.subscriptionId.toNat = .ok request.encode := by
  have written := @write_u64 [] 0 0 request.subscriptionId rfl
  rw [List.nil_append, List.nil_append] at written
  rw [encodeUnsubscribeRequest, written, alloc, List.replicate_zero, List.append_nil]
  rfl

end Encoders

section Decoders

theorem decodeHandshakeResponse_encode [Replacement] (response : HandshakeResponse) (fits : Fits response.serverId) :
    decodeHandshakeResponse response.encode =
      .ok (response.success, response.negotiatedVersion.toNat, response.serverId, response.capabilityFlags.toNat) := by
  have length : response.encode.length = 7 + (Utf8.encode response.serverId).length + 8 := by
    simp only [HandshakeResponse.encode, lengthField, List.length_append, List.length_singleton, le16_length,
      le32_length, le64_length]
    omega
  have start := ahead_start response.encode
  obtain ⟨_, version⟩ := start.byte String rfl
  obtain ⟨_, size⟩ := version.u16 String rfl
  obtain ⟨_, text⟩ := size.u32 String rfl
  obtain ⟨_, flags⟩ := text.slice String rfl
  rw [decodeHandshakeResponse, raiseIf_bind (by omega), readUInt_u8 start, Except.ok_bind, readUInt_u16 version,
    Except.ok_bind, readUInt_u32 size, Except.ok_bind, fits.toNat, raiseIf_bind (by omega), readUInt_u64 flags.last,
    Except.ok_bind, subarray_ahead text rfl, toText_encode, flag_ne_zero]
  rfl

theorem decodeSubscribeResponse_encode [Replacement] (response : SubscribeResponse) (fits : Fits response.message) :
    decodeSubscribeResponse response.encode = .ok (response.subscriptionId.toNat, response.success,
      response.snapshotStart.toNat, response.snapshotEnd.toNat, response.message) := by
  have length : response.encode.length = 29 + (Utf8.encode response.message).length := by
    simp only [SubscribeResponse.encode, lengthField, List.length_append, List.length_singleton, le32_length,
      le64_length]
    omega
  have start := ahead_start response.encode
  obtain ⟨_, success⟩ := start.u64 String rfl
  obtain ⟨_, first⟩ := success.byte String rfl
  obtain ⟨_, second⟩ := first.u64 String rfl
  obtain ⟨_, size⟩ := second.u64 String rfl
  obtain ⟨_, text⟩ := size.u32 String rfl
  rw [decodeSubscribeResponse, raiseIf_bind (by omega), readUInt_u64 start, Except.ok_bind, readUInt_u8 success,
    Except.ok_bind, readUInt_u64 first, Except.ok_bind, readUInt_u64 second, Except.ok_bind, readUInt_u32 size,
    Except.ok_bind, fits.toNat, raiseIf_bind (by omega), subarray_ahead text.last rfl, toText_encode, flag_ne_zero]
  rfl

theorem decodeLiveEvent_encode [Replacement] (record : LiveEventRecord) (fits : Fits record.payloadHex) :
    decodeLiveEvent record.encode = .ok ⟨record.subscriptionId.toNat, record.sequence.toNat, record.isLive,
      record.entityShard.toNat, record.entitySlot.toNat, record.entityGeneration.toNat, record.schema.toNat,
      record.validClock.toNat, record.validTime.toNat, record.knownClock.toNat, record.knownTime.toNat,
      record.payloadHex⟩ := by
  have length : record.encode.length = 61 + (Utf8.encode record.payloadHex).length := by
    simp only [LiveEventRecord.encode, lengthField, List.length_append, List.length_singleton, le32_length,
      le64_length]
    omega
  have start := ahead_start record.encode
  obtain ⟨_, sequence⟩ := start.u64 String rfl
  obtain ⟨_, live⟩ := sequence.u64 String rfl
  obtain ⟨_, shard⟩ := live.byte String rfl
  obtain ⟨_, slot⟩ := shard.u32 String rfl
  obtain ⟨_, generation⟩ := slot.u32 String rfl
  obtain ⟨_, schema⟩ := generation.u32 String rfl
  obtain ⟨_, validClock⟩ := schema.u32 String rfl
  obtain ⟨_, validTime⟩ := validClock.u32 String rfl
  obtain ⟨_, knownClock⟩ := validTime.u64 String rfl
  obtain ⟨_, knownTime⟩ := knownClock.u32 String rfl
  obtain ⟨_, size⟩ := knownTime.u64 String rfl
  obtain ⟨_, text⟩ := size.u32 String rfl
  rw [decodeLiveEvent, raiseIf_bind (by omega), readUInt_u64 start, Except.ok_bind, readUInt_u64 sequence,
    Except.ok_bind, readUInt_u8 live, Except.ok_bind, readUInt_u32 shard, Except.ok_bind, readUInt_u32 slot,
    Except.ok_bind, readUInt_u32 generation, Except.ok_bind, readUInt_u32 schema, Except.ok_bind,
    readUInt_u32 validClock, Except.ok_bind, readUInt_u64 validTime, Except.ok_bind, readUInt_u32 knownClock,
    Except.ok_bind, readUInt_u64 knownTime, Except.ok_bind, readUInt_u32 size, Except.ok_bind, fits.toNat,
    raiseIf_bind (by omega), subarray_ahead text.last rfl, toText_encode, flag_ne_zero]
  rfl

theorem decodeUnsubscribeResponse_encode (response : UnsubscribeResponse) :
    decodeUnsubscribeResponse response.encode = .ok (response.subscriptionId.toNat, response.success) := by
  have length : response.encode.length = 9 := by
    rw [UnsubscribeResponse.encode, List.length_append, le64_length, List.length_singleton]
  have start := ahead_start response.encode
  obtain ⟨_, success⟩ := start.u64 String rfl
  rw [decodeUnsubscribeResponse, raiseIf_bind (by omega), readUInt_u64 start, Except.ok_bind,
    readUInt_u8 success.last, Except.ok_bind, flag_ne_zero]
  rfl

end Decoders

section Packets

variable (messageType : TnpMessageType) (streamId : UInt32) {payload : List UInt8}

theorem encodePacket_eq (fits : payload.length ≤ maxPacketLen) :
    encodePacket ⟨messageType.toU16.toNat, streamId.toNat, payload, clientVersion⟩ =
      .ok (@TnpPacket.bytes Crc32fast.ieee (TnpPacket.new messageType streamId payload)) := by
  generalize room : payload.length + (4 + 0) = behind
  have size : alloc (tnpHeaderLen + payload.length + 4) =
      [] ++ alloc (tnpMagic.length + (2 + (2 + (4 + (4 + behind))))) := by
    rw [List.nil_append]
    congr 1
    change 16 + payload.length + 4 = 4 + (2 + (2 + (4 + (4 + behind))))
    omega
  have magic : copy tnpMagic ([] ++ alloc (tnpMagic.length + (2 + (2 + (4 + (4 + behind)))))) 0 =
      tnpMagic ++ alloc (2 + (2 + (4 + (4 + behind)))) := copy_next rfl
  have version : writeUInt 2 (tnpMagic ++ alloc (2 + (2 + (4 + (4 + behind))))) clientVersion 4 =
      .ok (tnpMagic ++ le16 tnpVersion ++ alloc (2 + (4 + (4 + behind)))) := write_u16 tnpVersion rfl
  have raw : writeUInt 2 (tnpMagic ++ le16 tnpVersion ++ alloc (2 + (4 + (4 + behind)))) messageType.toU16.toNat 6 =
      .ok (tnpMagic ++ le16 tnpVersion ++ le16 messageType.toU16 ++ alloc (4 + (4 + behind))) :=
    write_u16 messageType.toU16 rfl
  have stream : writeUInt 4 (tnpMagic ++ le16 tnpVersion ++ le16 messageType.toU16 ++ alloc (4 + (4 + behind)))
      streamId.toNat 8 = .ok (tnpMagic ++ le16 tnpVersion ++ le16 messageType.toU16 ++ le32 streamId ++
        alloc (4 + behind)) := write_u32 streamId rfl
  have count : writeUInt 4 (tnpMagic ++ le16 tnpVersion ++ le16 messageType.toU16 ++ le32 streamId ++
      alloc (4 + behind)) payload.length 12 = .ok (tnpMagic ++ le16 tnpVersion ++ le16 messageType.toU16 ++
        le32 streamId ++ le32 (UInt32.ofNat payload.length) ++ alloc behind) := by
    have field := @write_u32 (tnpMagic ++ le16 tnpVersion ++ le16 messageType.toU16 ++ le32 streamId) behind 12
      (UInt32.ofNat payload.length) rfl
    rwa [size_toNat fits] at field
  have body : copy payload (tnpMagic ++ le16 tnpVersion ++ le16 messageType.toU16 ++ le32 streamId ++
      le32 (UInt32.ofNat payload.length) ++ alloc behind) 16 =
        (TnpPacket.new messageType streamId payload).body ++ alloc (4 + 0) := by
    have written := @copy_next (tnpMagic ++ le16 tnpVersion ++ le16 messageType.toU16 ++ le32 streamId ++
      le32 (UInt32.ofNat payload.length)) payload (4 + 0) 16 rfl
    rw [← room, written]
    simp only [TnpPacket.body, TnpPacket.new, List.append_assoc]
  have place : (TnpPacket.new messageType streamId payload).body.length = tnpHeaderLen + payload.length :=
    TnpPacket.body_length _
  have framed : subarray ((TnpPacket.new messageType streamId payload).body ++ alloc (4 + 0)) 0
      (tnpHeaderLen + payload.length) = (TnpPacket.new messageType streamId payload).body := by
    apply subarray_ahead (ahead_start _)
    rw [place, Nat.zero_add]
  rw [encodePacket, raiseIf_bind (Nat.not_lt.mpr fits)]
  dsimp only
  rw [size, magic, version, Except.ok_bind, raw, Except.ok_bind, stream, Except.ok_bind, count, Except.ok_bind, body,
    framed, crc32_eq, write_u32 _ place, alloc, List.replicate_zero, List.append_nil]
  rfl

theorem decodePacket_bytes (fits : payload.length ≤ maxPacketLen) :
    decodePacket (@TnpPacket.bytes Crc32fast.ieee (TnpPacket.new messageType streamId payload)) =
      .ok (⟨messageType.toU16.toNat, streamId.toNat, payload, clientVersion⟩,
        (@TnpPacket.bytes Crc32fast.ieee (TnpPacket.new messageType streamId payload)).length) := by
  let := Crc32fast.ieee
  generalize whole : (TnpPacket.new messageType streamId payload).bytes = bytes
  have length : bytes.length = 16 + payload.length + 4 := by
    rw [← whole, TnpPacket.bytes_length]
    rfl
  have start : Ahead bytes 0 _ := whole ▸ bytes_ahead (TnpPacket.new messageType streamId payload)
  obtain ⟨_, version⟩ := start.slice String rfl
  obtain ⟨_, raw⟩ := version.u16 String rfl
  obtain ⟨_, stream⟩ := raw.u16 String rfl
  obtain ⟨_, size⟩ := stream.u32 String rfl
  obtain ⟨_, text⟩ := size.u32 String rfl
  obtain ⟨_, checksum⟩ := text.slice String rfl
  have magic : subarray bytes 0 4 = tnpMagic := subarray_ahead start rfl
  have version' : readUInt 2 bytes 4 = .ok clientVersion := readUInt_u16 version
  have count : readUInt 4 bytes 12 = .ok payload.length := by
    rw [← size_toNat fits]
    exact readUInt_u32 size
  have expected : readUInt 4 bytes (tnpHeaderLen + payload.length) =
      .ok (crc32 (TnpPacket.new messageType streamId payload).body) := by
    rw [crc32_eq]
    exact readUInt_u32 checksum.last
  have front : Ahead bytes 0 ((TnpPacket.new messageType streamId payload).body ++
      le32 (Crc32fast.hash (TnpPacket.new messageType streamId payload).body)) := whole ▸ ahead_start _
  have framed : subarray bytes 0 (tnpHeaderLen + payload.length) =
      (TnpPacket.new messageType streamId payload).body := by
    apply subarray_ahead front
    rw [TnpPacket.body_length, Nat.zero_add]
    rfl
  have body : subarray bytes tnpHeaderLen (tnpHeaderLen + payload.length) = payload := subarray_ahead text rfl
  rw [decodePacket, raiseIf_bind (by unfold tnpOverhead tnpHeaderLen; omega), magic,
    raiseIf_bind (not_not.mpr rfl), version', Except.ok_bind, raiseIf_bind (not_not.mpr rfl)]
  have raw' : readUInt 2 bytes 6 = .ok messageType.toU16.toNat := readUInt_u16 raw
  have stream' : readUInt 4 bytes 8 = .ok streamId.toNat := readUInt_u32 stream
  rw [raw', Except.ok_bind, stream', Except.ok_bind, count, Except.ok_bind, raiseIf_bind (Nat.not_lt.mpr fits)]
  dsimp only
  rw [raiseIf_bind (by unfold tnpHeaderLen; omega), expected, Except.ok_bind, framed, raiseIf_bind (not_not.mpr rfl),
    body, length]
  rfl

end Packets

end TypeScript

section Agreement

variable {messageType : TnpMessageType} {streamId : UInt32} {payload : List UInt8}

theorem new_sendable (fits : payload.length ≤ maxPacketLen) : (TnpPacket.new messageType streamId payload).Sendable :=
  ⟨rfl, fits⟩

/-- The server reads the packet that it would have written itself. -/
theorem decode_new [Crc32fast] (fits : payload.length ≤ maxPacketLen) :
    TnpPacket.decode (TnpPacket.new messageType streamId payload).bytes =
      .ok (TnpPacket.new messageType streamId payload, (TnpPacket.new messageType streamId payload).bytes.length) := by
  have decoded := TnpPacket.decode_bytes (@new_sendable messageType streamId payload fits) []
  rwa [List.append_nil] at decoded

theorem Python.interoperates : Interoperates Python.codec where
  packetToServer messageType streamId _ fits :=
    ⟨_, Python.encodePacket_eq messageType streamId fits, @decode_new _ _ _ Crc32fast.ieee fits⟩
  packetToClient messageType streamId _ fits :=
    ⟨_, @TnpPacket.encode_ok Crc32fast.ieee _ (new_sendable fits), Python.decodePacket_bytes messageType streamId fits⟩
  handshakeRequest _ capabilityFlags fits :=
    ⟨_, Python.encodeHandshakeRequest_eq fits capabilityFlags, HandshakeRequest.decode_encode _ fits⟩
  handshakeResponse := Python.decodeHandshakeResponse_encode
  queryRequest request fits := ⟨_, Python.encodeQueryRequest_eq request fits, request.decode_encode fits⟩
  subscribeRequest request fits := ⟨_, Python.encodeSubscribeRequest_eq request fits, request.decode_encode fits⟩
  subscribeResponse := Python.decodeSubscribeResponse_encode
  liveEvent := Python.decodeLiveEvent_encode
  unsubscribeRequest request := ⟨_, Python.encodeUnsubscribeRequest_eq request, request.decode_encode⟩
  unsubscribeResponse := Python.decodeUnsubscribeResponse_encode

theorem TypeScript.interoperates [Replacement] : Interoperates TypeScript.codec where
  packetToServer messageType streamId _ fits :=
    ⟨_, TypeScript.encodePacket_eq messageType streamId fits, @decode_new _ _ _ Crc32fast.ieee fits⟩
  packetToClient messageType streamId _ fits :=
    ⟨_, @TnpPacket.encode_ok Crc32fast.ieee _ (new_sendable fits),
      TypeScript.decodePacket_bytes messageType streamId fits⟩
  handshakeRequest _ capabilityFlags fits :=
    ⟨_, TypeScript.encodeHandshakeRequest_eq fits capabilityFlags, HandshakeRequest.decode_encode _ fits⟩
  handshakeResponse := TypeScript.decodeHandshakeResponse_encode
  queryRequest request fits := ⟨_, TypeScript.encodeQueryRequest_eq request fits, request.decode_encode fits⟩
  subscribeRequest request fits := ⟨_, TypeScript.encodeSubscribeRequest_eq request fits, request.decode_encode fits⟩
  subscribeResponse := TypeScript.decodeSubscribeResponse_encode
  liveEvent := TypeScript.decodeLiveEvent_encode
  unsubscribeRequest request := ⟨_, TypeScript.encodeUnsubscribeRequest_eq request, request.decode_encode⟩
  unsubscribeResponse := TypeScript.decodeUnsubscribeResponse_encode

/-- The three implementations agree, and the decoders of the server read every byte string within its bounds. -/
theorem implementations_agree [Replacement] :
    (Interoperates Python.codec ∧ Interoperates TypeScript.codec) ∧
    Lawful (fun request => Fits request.clientId) HandshakeRequest.encode HandshakeRequest.decode id ∧
    Lawful (fun response => Fits response.serverId) HandshakeResponse.encode HandshakeResponse.decode id ∧
    Lawful (fun request => Fits request.queryStr) QueryRequest.encode QueryRequest.decode id ∧
    Lawful (fun request => Fits request.queryStr) SubscribeRequest.encode SubscribeRequest.decode
      SubscribeRequest.normalized ∧
    Lawful (fun response => Fits response.message) SubscribeResponse.encode SubscribeResponse.decode id ∧
    Lawful (fun record => Fits record.payloadHex) LiveEventRecord.encode LiveEventRecord.decode id ∧
    Lawful (fun _ => True) UnsubscribeRequest.encode UnsubscribeRequest.decode id ∧
    Lawful (fun _ => True) UnsubscribeResponse.encode UnsubscribeResponse.decode id := by
  refine ⟨⟨Python.interoperates, TypeScript.interoperates⟩, ?_, ?_, ?_, ?_, ?_, ?_, ?_, ?_⟩
  · exact ⟨HandshakeRequest.decode_safe, HandshakeRequest.decode_encode⟩
  · exact ⟨HandshakeResponse.decode_safe, HandshakeResponse.decode_encode⟩
  · exact ⟨QueryRequest.decode_safe, QueryRequest.decode_encode⟩
  · exact ⟨SubscribeRequest.decode_safe, SubscribeRequest.decode_encode⟩
  · exact ⟨SubscribeResponse.decode_safe, SubscribeResponse.decode_encode⟩
  · exact ⟨LiveEventRecord.decode_safe, LiveEventRecord.decode_encode⟩
  · exact ⟨UnsubscribeRequest.decode_safe, fun request _ => request.decode_encode⟩
  · exact ⟨UnsubscribeResponse.decode_safe, fun response _ => response.decode_encode⟩

end Agreement

end Temnion.Protocol
