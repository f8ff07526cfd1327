import Temnion.Format.Codec
import Temnion.Library.Slices
import Temnion.Library.Text

/-
This file frames the packets of the network protocol and receives them from a stream that is cut anywhere.
-/

namespace Temnion.Protocol

open LittleEndian Slices Format

def tnpMagic : List UInt8 := [84, 78, 80, 80]

def tnpVersion : UInt16 := 1

def maxPacketLen : Nat := 16 * 1024 * 1024

def tnpHeaderLen : Nat := 16

def tnpOverhead : Nat := tnpHeaderLen + 4

inductive TnpMessageType where
  | handshakeRequest
  | handshakeResponse
  | describeRequest
  | describeResponse
  | queryRequest
  | queryResponse
  | streamRecord
  | streamEnd
  | errorResponse
  | ping
  | pong
  | subscribeRequest
  | subscribeResponse
  | liveEvent
  | unsubscribeRequest
  | unsubscribeResponse
  deriving DecidableEq, Repr

/-- Every reason for which a packet, a payload or a request is refused. -/
inductive TnpError where
  | invalidMagic
  | unsupportedVersion (expected actual : UInt16)
  | checksumMismatch
  | packetTooLarge (size : Nat)
  | incompletePacket
  | unknownMessageType (raw : UInt16)
  | protocolViolation (message : Text)
  | handshakeFailed (message : Text)
  | executionError (message : Text)
  | ioError (message : Text)
  | timedOut
  | connectionClosed
  deriving DecidableEq, Repr

namespace TnpMessageType

def toU16 : TnpMessageType → UInt16
  | handshakeRequest => 0x0001
  | handshakeResponse => 0x0002
  | describeRequest => 0x0003
  | describeResponse => 0x0004
  | queryRequest => 0x0005
  | queryResponse => 0x0006
  | streamRecord => 0x0007
  | streamEnd => 0x0008
  | errorResponse => 0x0009
  | ping => 0x000A
  | pong => 0x000B
  | subscribeRequest => 0x000C
  | subscribeResponse => 0x000D
  | liveEvent => 0x000E
  | unsubscribeRequest => 0x000F
  | unsubscribeResponse => 0x0010

def tryFrom (value : UInt16) : Except TnpError TnpMessageType :=
  match value with
  | 0x0001 => .ok handshakeRequest
  | 0x0002 => .ok handshakeResponse
  | 0x0003 => .ok describeRequest
  | 0x0004 => .ok describeResponse
  | 0x0005 => .ok queryRequest
  | 0x0006 => .ok queryResponse
  | 0x0007 => .ok streamRecord
  | 0x0008 => .ok streamEnd
  | 0x0009 => .ok errorResponse
  | 0x000A => .ok ping
  | 0x000B => .ok pong
  | 0x000C => .ok subscribeRequest
  | 0x000D => .ok subscribeResponse
  | 0x000E => .ok liveEvent
  | 0x000F => .ok unsubscribeRequest
  | 0x0010 => .ok unsubscribeResponse
  | other => .error (.unknownMessageType other)

theorem tryFrom_toU16 (messageType : TnpMessageType) : tryFrom messageType.toU16 = .ok messageType := by
  cases messageType <;> rfl

end TnpMessageType

structure TnpPacket where
  version : UInt16
  messageType : TnpMessageType
  streamId : UInt32
  payload : List UInt8
  deriving DecidableEq, Repr

/-- An error of a pure step stops the decoder. -/
def refused {E A : Type} : Except E A → Parse E A
  | .ok value => .ok value
  | .error error => .error (.refused error)

namespace TnpPacket

def new (messageType : TnpMessageType) (streamId : UInt32) (payload : List UInt8) : TnpPacket :=
  ⟨tnpVersion, messageType, streamId, payload⟩

/-- The header and the payload. -/
def body (packet : TnpPacket) : List UInt8 :=
  tnpMagic ++ le16 packet.version ++ le16 packet.messageType.toU16 ++ le32 packet.streamId ++
    le32 (UInt32.ofNat packet.payload.length) ++ packet.payload

variable [Crc32fast]

def encode (packet : TnpPacket) : Except TnpError (List UInt8) :=
  if maxPacketLen < packet.payload.length then .error (.packetTooLarge packet.payload.length)
  else .ok (packet.body ++ le32 (Crc32fast.hash packet.body))

/-- The packet in front of the bytes, and how many bytes it takes. -/
def decode (bytes : List UInt8) : Parse TnpError (TnpPacket × Nat) := do
  refuseIf (bytes.length < tnpOverhead) (.refused .incompletePacket)
  let magic ← sliceAt bytes 0 4
  refuseIf (magic ≠ tnpMagic) (.refused .invalidMagic)
  let version ← u16At bytes 4
  refuseIf (version ≠ tnpVersion) (.refused (.unsupportedVersion tnpVersion version))
  let raw ← u16At bytes 6
  let messageType ← refused (TnpMessageType.tryFrom raw)
  let streamId ← u32At bytes 8
  let payloadLength ← u32At bytes 12
  refuseIf (maxPacketLen < payloadLength.toNat) (.refused (.packetTooLarge payloadLength.toNat))
  let total := tnpHeaderLen + payloadLength.toNat + 4
  refuseIf (bytes.length < total) (.refused .incompletePacket)
  let payload ← sliceAt bytes tnpHeaderLen (tnpHeaderLen + payloadLength.toNat)
  let expected ← u32At bytes (total - 4)
  let computed ← sliceAt bytes 0 (total - 4)
  refuseIf (Crc32fast.hash computed ≠ expected) (.refused .checksumMismatch)
  return (⟨version, messageType, streamId, payload⟩, total)

/-- The version is the current one, and the payload fits. -/
def Sendable (packet : TnpPacket) : Prop := packet.version = tnpVersion ∧ packet.payload.length ≤ maxPacketLen

def bytes (packet : TnpPacket) : List UInt8 := packet.body ++ le32 (Crc32fast.hash packet.body)

/-- The number of bytes of a packet. -/
def total (packet : TnpPacket) : Nat := tnpHeaderLen + packet.payload.length + 4

variable {packet : TnpPacket} {buffer rest : List UInt8}

theorem encode_ok (sendable : packet.Sendable) : packet.encode = .ok packet.bytes :=
  if_neg (Nat.not_lt.mpr sendable.2)

omit [Crc32fast] in
theorem body_length (packet : TnpPacket) : packet.body.length = tnpHeaderLen + packet.payload.length := by
  rw [body, List.length_append, Nat.add_right_cancel_iff]
  rfl

theorem bytes_length (packet : TnpPacket) : packet.bytes.length = packet.total := by
  rw [bytes, List.length_append, body_length, le32_length, total]

/-- The first sixteen bytes of the buffer are the header of the packet. -/
structure Headed (packet : TnpPacket) (buffer : List UInt8) : Prop where
  enough : tnpOverhead ≤ buffer.length
  magic : slice buffer 0 4 = tnpMagic
  version : getU16 buffer 4 = packet.version
  raw : getU16 buffer 6 = packet.messageType.toU16
  stream : getU32 buffer 8 = packet.streamId
  size : getU32 buffer 12 = UInt32.ofNat packet.payload.length

theorem headed_append (packet : TnpPacket) (rest : List UInt8) : Headed packet (packet.bytes ++ rest) where
  enough := by
    rw [List.length_append, bytes_length, total]
    unfold tnpOverhead
    omega
  magic := by
    apply @slice_of_split _ _ _ [] (le16 packet.version ++ le16 packet.messageType.toU16 ++ le32 packet.streamId ++
      le32 (UInt32.ofNat packet.payload.length) ++ packet.payload ++ le32 (Crc32fast.hash packet.body) ++ rest)
    · simp only [bytes, body, List.append_assoc, List.nil_append]
    · rfl
    · rfl
  version := getU16_of_slice (@slice_of_split _ _ _ tnpMagic (le16 packet.messageType.toU16 ++ le32 packet.streamId ++
      le32 (UInt32.ofNat packet.payload.length) ++ packet.payload ++ le32 (Crc32fast.hash packet.body) ++ rest) _
        (by simp only [bytes, body, List.append_assoc]) rfl rfl)
  raw := getU16_of_slice (@slice_of_split _ _ _ (tnpMagic ++ le16 packet.version) (le32 packet.streamId ++
      le32 (UInt32.ofNat packet.payload.length) ++ packet.payload ++ le32 (Crc32fast.hash packet.body) ++ rest) _
        (by simp only [bytes, body, List.append_assoc]) rfl rfl)
  stream := getU32_of_slice (@slice_of_split _ _ _ (tnpMagic ++ le16 packet.version ++
      le16 packet.messageType.toU16) (le32 (UInt32.ofNat packet.payload.length) ++ packet.payload ++
        le32 (Crc32fast.hash packet.body) ++ rest) _ (by simp only [bytes, body, List.append_assoc]) rfl rfl)
  size := getU32_of_slice (@slice_of_split _ _ _ (tnpMagic ++ le16 packet.version ++ le16 packet.messageType.toU16 ++
      le32 packet.streamId) (packet.payload ++ le32 (Crc32fast.hash packet.body) ++ rest) _
        (by simp only [bytes, body, List.append_assoc]) rfl rfl)

omit [Crc32fast] in
/-- A truncation behind the header keeps it. -/
theorem Headed.take (headed : Headed packet buffer) {count : Nat} (enough : tnpOverhead ≤ count) :
    Headed packet (buffer.take count) where
  enough := by
    rw [List.length_take]
    exact le_min enough headed.enough
  magic := (slice_take (le_trans (by decide) enough)).trans headed.magic
  version := (congrArg (fun bytes => UInt16.ofNat (valueOf bytes)) (slice_take (le_trans (by decide) enough))).trans
    headed.version
  raw := (congrArg (fun bytes => UInt16.ofNat (valueOf bytes)) (slice_take (le_trans (by decide) enough))).trans
    headed.raw
  stream := (congrArg (fun bytes => UInt32.ofNat (valueOf bytes)) (slice_take (le_trans (by decide) enough))).trans
    headed.stream
  size := (congrArg (fun bytes => UInt32.ofNat (valueOf bytes)) (slice_take (le_trans (by decide) enough))).trans
    headed.size

omit [Crc32fast] in
theorem size_toNat (sendable : packet.Sendable) :
    (UInt32.ofNat packet.payload.length).toNat = packet.payload.length := by
  apply UInt32.toNat_ofNat_of_lt'
  exact sendable.2.trans_lt (by decide)

/-- Behind a valid header only the length, the payload and the checksum are left to look at. -/
theorem decode_headed (sendable : packet.Sendable) (headed : Headed packet buffer) : decode buffer = (do
    refuseIf (buffer.length < packet.total) (.refused .incompletePacket)
    let payload ← sliceAt buffer tnpHeaderLen (tnpHeaderLen + packet.payload.length)
    let expected ← u32At buffer (packet.total - 4)
    let computed ← sliceAt buffer 0 (packet.total - 4)
    refuseIf (Crc32fast.hash computed ≠ expected) (.refused .checksumMismatch)
    return (⟨packet.version, packet.messageType, packet.streamId, payload⟩, packet.total)) := by
  have enough : 20 ≤ buffer.length := headed.enough
  have size := size_toNat sendable
  rw [decode, Except.refuseIf_bind (Nat.not_lt.mpr headed.enough), sliceAt_ok (Nat.zero_le _) (by omega),
    Except.ok_bind, headed.magic, Except.refuseIf_bind (not_not.mpr rfl), u16At_ok (by omega), Except.ok_bind,
    headed.version, Except.refuseIf_bind (not_not.mpr sendable.1), u16At_ok (by omega), Except.ok_bind, headed.raw,
    TnpMessageType.tryFrom_toU16, refused, Except.ok_bind, u32At_ok (by omega), Except.ok_bind, headed.stream,
    u32At_ok (by omega), Except.ok_bind, headed.size, size,
    Except.refuseIf_bind (Nat.not_lt.mpr sendable.2)]
  rfl

/-- The packet is read back from the front of its bytes. -/
theorem decode_bytes (sendable : packet.Sendable) (rest : List UInt8) :
    decode (packet.bytes ++ rest) = .ok (packet, packet.bytes.length) := by
  have long : ¬ (packet.bytes ++ rest).length < packet.total := by
    rw [List.length_append, bytes_length]
    omega
  have header : (tnpMagic ++ le16 packet.version ++ le16 packet.messageType.toU16 ++ le32 packet.streamId ++
      le32 (UInt32.ofNat packet.payload.length)).length = tnpHeaderLen := rfl
  have payload : (sliceAt (packet.bytes ++ rest) tnpHeaderLen (tnpHeaderLen + packet.payload.length) :
      Parse TnpError (List UInt8)) = .ok packet.payload :=
    @sliceAt_of_split _ _ _ _ _ (le32 (Crc32fast.hash packet.body) ++ rest) _
      (by simp only [bytes, body, List.append_assoc]) header rfl
  have ends : packet.total - 4 = packet.body.length := by
    rw [total, body_length, Nat.add_sub_cancel]
  have expected : (u32At (packet.bytes ++ rest) packet.body.length : Parse TnpError UInt32) =
      .ok (Crc32fast.hash packet.body) :=
    @u32At_of_split _ _ _ packet.body rest _ (by simp only [bytes, List.append_assoc]) rfl
  have computed : (sliceAt (packet.bytes ++ rest) 0 packet.body.length : Parse TnpError (List UInt8)) =
      .ok packet.body :=
    @sliceAt_of_split _ _ _ _ [] (le32 (Crc32fast.hash packet.body) ++ rest) _
      (by simp only [bytes, List.append_assoc, List.nil_append]) rfl (Nat.zero_add _)
  rw [decode_headed sendable (headed_append packet rest), Except.refuseIf_bind long, payload, Except.ok_bind, ends,
    expected, Except.ok_bind, computed, Except.ok_bind, Except.refuseIf_bind (not_not.mpr rfl), bytes_length]
  rfl

/-- A part of its bytes that ends too early is incomplete. -/
theorem decode_take (sendable : packet.Sendable) (rest : List UInt8) {count : Nat}
    (early : count < packet.bytes.length) :
    decode ((packet.bytes ++ rest).take count) = .error (.refused .incompletePacket) := by
  have length : ((packet.bytes ++ rest).take count).length = count := by
    rw [List.length_take, List.length_append]
    omega
  by_cases enough : tnpOverhead ≤ count
  · rw [decode_headed sendable ((headed_append packet rest).take enough)]
    apply refuseIf_refused
    rw [length, ← bytes_length]
    exact early
  · rw [decode]
    apply refuseIf_refused
    rw [length]
    exact Nat.not_le.mp enough

end TnpPacket

section Channel

/-- What one read of the stream yields: up to 4096 bytes, no byte in time, or another failure. -/
inductive Arrival where
  | data (chunk : List UInt8) (some : chunk ≠ []) (few : chunk.length ≤ 4096)
  | timedOut
  | failed (message : Text)

/-- The bytes that a read adds to the buffer. -/
def Arrival.carried : Arrival → List UInt8
  | .data chunk _ _ => chunk
  | .timedOut => []
  | .failed _ => []

def Arrival.timesOut : Arrival → Bool
  | .timedOut => true
  | _ => false

def Arrival.breaks : Arrival → Bool
  | .failed _ => true
  | _ => false

/-- The bytes that were read and not used yet, and what the further reads yield before the end of the stream. -/
structure TnpChannel where
  readBuf : List UInt8
  arrivals : List Arrival

namespace TnpChannel

def new (arrivals : List Arrival) : TnpChannel := ⟨[], arrivals⟩

variable [Crc32fast]

/-- The packet in front of the buffer, when it is complete. -/
def buffered (buffer : List UInt8) : Option (Parse TnpError (TnpPacket × Nat)) :=
  if buffer = [] then none
  else
    match TnpPacket.decode buffer with
    | .error (.refused .incompletePacket) => none
    | outcome => some outcome

/-- Reads until the buffer starts with a complete packet. -/
def recvFrom (buffer : List UInt8) : List Arrival → Parse TnpError TnpPacket × TnpChannel
  | [] =>
      match buffered buffer with
      | some (.ok (packet, consumed)) => (.ok packet, ⟨buffer.drop consumed, []⟩)
      | some (.error error) => (.error error, ⟨buffer, []⟩)
      | none => (.error (.refused .connectionClosed), ⟨buffer, []⟩)
  | arrival :: arrivals =>
      match buffered buffer with
      | some (.ok (packet, consumed)) => (.ok packet, ⟨buffer.drop consumed, arrival :: arrivals⟩)
      | some (.error error) => (.error error, ⟨buffer, arrival :: arrivals⟩)
      | none =>
          match arrival with
          | .data chunk _ _ => recvFrom (buffer ++ chunk) arrivals
          | .timedOut => (.error (.refused .timedOut), ⟨buffer, arrivals⟩)
          | .failed message => (.error (.refused (.ioError message)), ⟨buffer, arrivals⟩)

def recv (channel : TnpChannel) : Parse TnpError TnpPacket × TnpChannel :=
  recvFrom channel.readBuf channel.arrivals

/-- The results of so many calls. -/
def recvMany : Nat → TnpChannel → List (Parse TnpError TnpPacket)
  | 0, _ => []
  | count + 1, channel => channel.recv.1 :: recvMany count channel.recv.2

section Chunks

/-- The call ends without a packet because no byte came in time. -/
def timesOut : Parse TnpError TnpPacket → Bool
  | .error (.refused .timedOut) => true
  | _ => false

/-- The buffer and the further reads make up the packets, and so many reads time out. -/
structure Carries (channel : TnpChannel) (packets : List TnpPacket) (waits : Nat) : Prop where
  bytes : channel.readBuf ++ channel.arrivals.flatMap Arrival.carried = packets.flatMap TnpPacket.bytes
  unbroken : ∀ arrival ∈ channel.arrivals, arrival.breaks = false
  waits : channel.arrivals.countP Arrival.timesOut = waits

/-- A call yields the first packet, or takes one read that times out, or finds the end behind the last packet. -/
inductive Yields (packets : List TnpPacket) (waits : Nat) : Parse TnpError TnpPacket × TnpChannel → Prop
  | packet (first : TnpPacket) (others : List TnpPacket) (channel : TnpChannel) (front : packets = first :: others)
      (carries : Carries channel others waits) : Yields packets waits (.ok first, channel)
  | timedOut (left : Nat) (channel : TnpChannel) (one : waits = left + 1) (carries : Carries channel packets left) :
      Yields packets waits (.error (.refused .timedOut), channel)
  | closed (channel : TnpChannel) (last : packets = []) (none : waits = 0) (carries : Carries channel [] 0) :
      Yields packets waits (.error (.refused .connectionClosed), channel)

variable {packets : List TnpPacket} {waits : Nat} {buffer rest : List UInt8} {arrivals : List Arrival}

/-- A buffer in front of the bytes still to come holds the first packet, or is incomplete. -/
theorem buffered_cases {packet : TnpPacket} (sendable : packet.Sendable)
    (split : buffer ++ rest = packet.bytes ++ packets.flatMap TnpPacket.bytes) :
    (∃ left, buffered buffer = some (.ok (packet, packet.bytes.length)) ∧ buffer.drop packet.bytes.length = left ∧
        left ++ rest = packets.flatMap TnpPacket.bytes) ∨
      buffered buffer = none ∧ buffer.length < packet.bytes.length := by
  by_cases early : buffer.length < packet.bytes.length
  · right
    refine ⟨?_, early⟩
    have part : buffer = (packet.bytes ++ packets.flatMap TnpPacket.bytes).take buffer.length := by
      rw [← split, List.take_left]
    rw [buffered]
    split_ifs with empty
    · rfl
    · rw [part, TnpPacket.decode_take sendable _ early]
  · left
    have enough := Nat.not_lt.mp early
    have front : buffer.take packet.bytes.length = packet.bytes := by
      have parts := congrArg (List.take packet.bytes.length) split
      rwa [List.take_left, List.take_append_of_le_length enough] at parts
    have whole : buffer = packet.bytes ++ buffer.drop packet.bytes.length := by
      conv_lhs => rw [← List.take_append_drop packet.bytes.length buffer, front]
    refine ⟨buffer.drop packet.bytes.length, ?_, rfl, ?_⟩
    · have some' : buffer ≠ [] := by
        intro empty
        rw [empty] at enough
        have positive : 0 < packet.bytes.length := by
          rw [TnpPacket.bytes_length, TnpPacket.total]
          exact Nat.succ_pos _
        exact absurd enough (Nat.not_le.mpr positive)
      have decoded : TnpPacket.decode buffer = .ok (packet, packet.bytes.length) := by
        rw [whole]
        exact TnpPacket.decode_bytes sendable _
      rw [buffered, if_neg some', decoded]
    · rw [whole, List.append_assoc] at split
      exact List.append_cancel_left split

theorem recvFrom_yields (sendable : ∀ packet ∈ packets, packet.Sendable)
    (carries : Carries ⟨buffer, arrivals⟩ packets waits) : Yields packets waits (recvFrom buffer arrivals) := by
  induction arrivals generalizing buffer waits with
  | nil =>
      obtain ⟨split, unbroken, none'⟩ := carries
      obtain rfl : 0 = waits := none'
      rw [List.flatMap_nil] at split
      cases packets with
      | nil =>
          rw [List.append_nil] at split
          obtain rfl : buffer = [] := split
          exact .closed _ rfl rfl ⟨rfl, unbroken, rfl⟩
      | cons packet packets =>
          rcases buffered_cases (sendable packet List.mem_cons_self) split with ⟨left, found, rfl, others⟩ | ⟨_, early⟩
          · rw [recvFrom, found]
            exact .packet packet packets _ rfl ⟨others, unbroken, rfl⟩
          · have lengths := congrArg List.length split
            rw [List.append_nil, List.flatMap_cons, List.length_append] at lengths
            omega
  | cons arrival arrivals hypothesis =>
      obtain ⟨split, unbroken, total⟩ := carries
      have later : ∀ other ∈ arrivals, other.breaks = false :=
        fun other member => unbroken other (List.mem_cons_of_mem _ member)
      -- The buffer alone yields nothing, so the next read decides.
      have reads (nothing : buffered buffer = none) : Yields packets waits (recvFrom buffer (arrival :: arrivals)) := by
        rw [recvFrom.eq_def]
        dsimp only
        rw [nothing]
        cases arrival with
        | data chunk some' few =>
            apply hypothesis
            refine ⟨?_, later, total⟩
            rw [← split, List.append_assoc]
            rfl
        | timedOut =>
            have one : arrivals.countP Arrival.timesOut + 1 = waits := by
              rw [← total]
              exact (List.countP_cons_of_pos rfl).symm
            exact .timedOut _ _ one.symm ⟨split, later, rfl⟩
        | failed message => exact absurd (show true = false from unbroken _ List.mem_cons_self) (by decide)
      cases packets with
      | nil =>
          have empty : buffer = [] := (List.append_eq_nil_iff.mp split).1
          exact reads (if_pos empty)
      | cons packet packets =>
          rcases buffered_cases (sendable packet List.mem_cons_self) split with ⟨left, found, rfl, others⟩ | ⟨nothing, _⟩
          · rw [recvFrom.eq_def]
            dsimp only
            rw [found]
            exact .packet packet packets _ rfl ⟨others, unbroken, total⟩
          · exact reads nothing

/-- The results of enough calls: the packets in their order among the calls that time out, and then the end. -/
theorem recvMany_filter {channel : TnpChannel} (sendable : ∀ packet ∈ packets, packet.Sendable)
    (carries : Carries channel packets waits) (extra : Nat) :
    (recvMany (packets.length + waits + extra) channel).filter (fun result => !timesOut result) =
      packets.map .ok ++ List.replicate extra (.error (.refused .connectionClosed)) := by
  generalize calls : packets.length + waits + extra = count
  induction count generalizing channel packets waits extra with
  | zero =>
      obtain ⟨⟨none', rfl⟩, rfl⟩ : (packets.length = 0 ∧ waits = 0) ∧ extra = 0 := by omega
      obtain rfl := List.length_eq_zero_iff.mp none'
      rfl
  | succ count hypothesis =>
      have yields := recvFrom_yields sendable carries
      change Yields packets waits channel.recv at yields
      rw [recvMany]
      generalize channel.recv = result at yields
      cases yields with
      | packet first others next front later =>
          subst front
          rw [List.filter_cons, if_pos (by rfl), List.map_cons, List.cons_append]
          rw [List.length_cons] at calls
          have rest : others.length + waits + extra = count := by omega
          rw [hypothesis (fun packet member => sendable packet (List.mem_cons_of_mem _ member)) later extra rest]
      | timedOut left next one later =>
          rw [List.filter_cons, if_neg (by exact Bool.false_ne_true)]
          have rest : packets.length + left + extra = count := by omega
          exact hypothesis sendable later extra rest
      | closed next last none' later =>
          subst last
          subst none'
          obtain ⟨less, rfl⟩ : ∃ less, extra = less + 1 := ⟨extra - 1, by simp only [List.length_nil] at calls; omega⟩
          have rest : ([] : List TnpPacket).length + 0 + less = count := by
            rw [List.length_nil] at calls ⊢
            omega
          have behind := hypothesis sendable later less rest
          rw [List.filter_cons, if_pos (by rfl), List.replicate_succ]
          exact congrArg (_ :: ·) behind

/-- Packets are received as they were sent, however their bytes are cut into reads and whenever reads time out, and each
of them is decoded from its own bytes with anything behind it. -/
theorem recv_independent_of_chunks (packets : List TnpPacket) (sendable : ∀ packet ∈ packets, packet.Sendable)
    (arrivals : List Arrival) (unbroken : ∀ arrival ∈ arrivals, arrival.breaks = false)
    (split : arrivals.flatMap Arrival.carried = packets.flatMap TnpPacket.bytes) :
    (∀ packet ∈ packets, packet.encode = .ok packet.bytes ∧
        ∀ rest, TnpPacket.decode (packet.bytes ++ rest) = .ok (packet, packet.bytes.length)) ∧
      ∀ extra, (recvMany (packets.length + arrivals.countP Arrival.timesOut + extra) (new arrivals)).filter
          (fun result => !timesOut result) =
        packets.map .ok ++ List.replicate extra (.error (.refused .connectionClosed)) := by
  constructor
  · intro packet member
    exact ⟨TnpPacket.encode_ok (sendable packet member), TnpPacket.decode_bytes (sendable packet member)⟩
  · exact recvMany_filter sendable ⟨split, unbroken, rfl⟩

omit [Crc32fast] in
/-- A ping that arrives in two parts, the first of which ends within its header. -/
theorem recv_in_two_parts :
    letI := Crc32fast.ieee
    let ping := TnpPacket.new .ping 7 []
    let parts : List Arrival := [.data (ping.bytes.take 5) (List.cons_ne_nil _ _) (by decide), .timedOut,
      .data (ping.bytes.drop 5) (List.cons_ne_nil _ _) (by decide)]
    (∀ packet ∈ [ping], packet.encode = .ok packet.bytes ∧
        ∀ rest, TnpPacket.decode (packet.bytes ++ rest) = .ok (packet, packet.bytes.length)) ∧
      ∀ extra, (recvMany ([ping].length + parts.countP Arrival.timesOut + extra) (new parts)).filter
          (fun result => !timesOut result) =
        [ping].map .ok ++ List.replicate extra (.error (.refused .connectionClosed)) := by
  let := Crc32fast.ieee
  intro ping parts
  apply recv_independent_of_chunks [ping]
  · intro packet member
    rw [List.mem_singleton.mp member]
    exact ⟨rfl, Nat.zero_le _⟩
  · intro arrival member
    rcases List.mem_cons.mp member with rfl | member
    · rfl
    · rcases List.mem_cons.mp member with rfl | member
      · rfl
      · rw [List.mem_singleton.mp member]
        rfl
  · change ping.bytes.take 5 ++ ([] ++ (ping.bytes.drop 5 ++ [])) = ping.bytes ++ []
    rw [List.nil_append, List.append_nil, List.append_nil, List.take_append_drop]

end Chunks

end TnpChannel

end Channel

end Temnion.Protocol
