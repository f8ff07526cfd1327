import Temnion.Format.Codec
import Temnion.Library.Utf8

/-
This file frames the data of the analytical transport and reads the frames back.
-/

namespace Temnion.Flight

open LittleEndian Slices Format

def flightMagic : List UInt8 := [70, 76, 71, 84]

def flightVersion : UInt16 := 1

def maxFlightPayload : Nat := 32 * 1024 * 1024

inductive FlightError where
  | unauthenticated
  | invalidToken
  | invalidDescriptor (message : Text)
  | invalidTicket (message : Text)
  | corruptedData
  | executionError (message : Text)
  | payloadTooLarge (size : Nat)
  | actionNotImplemented (action : Text)
  | incompleteMessage
  deriving DecidableEq, Repr

/-- A command, a path, or nothing. -/
inductive FlightDescriptor where
  | cmd (text : Text)
  | path (segments : List Text)
  | none
  deriving DecidableEq, Repr

namespace FlightDescriptor

def refuseShort (bytes : List UInt8) (length : Nat) (message : String) : Parse FlightError Unit :=
  refuseIf (bytes.length < length) (.refused (.invalidDescriptor message.toList))

def segmentAt (bytes : List UInt8) (start stop : Nat) : Parse FlightError Text :=
  textAt (.invalidDescriptor "invalid utf-8 sequence".toList) bytes start stop

def encodeSegment (segment : Text) : List UInt8 := counted (Utf8.encode segment)

def encode : FlightDescriptor → List UInt8
  | .cmd text => [1] ++ counted (Utf8.encode text)
  | .path paths => [2] ++ (le32 (UInt32.ofNat paths.length) ++ paths.flatMap encodeSegment)
  | .none => [0]

/-- So many elements of a path, one after the other. -/
def segmentsAt (bytes : List UInt8) (offset : Nat) : Nat → Parse FlightError (List Text)
  | 0 => .ok []
  | count + 1 => do
      refuseShort bytes (offset + 4) "Truncated path element length"
      let segLen ← u32At bytes offset
      refuseShort bytes (offset + 4 + segLen.toNat) "Truncated path element body"
      let segment ← segmentAt bytes (offset + 4) (offset + 4 + segLen.toNat)
      let segments ← segmentsAt bytes (offset + 4 + segLen.toNat) count
      return segment :: segments

def decodeCmd (bytes : List UInt8) : Parse FlightError FlightDescriptor := do
  refuseShort bytes 5 "Truncated Cmd"
  let len ← u32At bytes 1
  refuseShort bytes (5 + len.toNat) "Truncated Cmd body"
  let text ← segmentAt bytes 5 (5 + len.toNat)
  return .cmd text

def decodePath (bytes : List UInt8) : Parse FlightError FlightDescriptor := do
  refuseShort bytes 5 "Truncated Path count"
  let count ← u32At bytes 1
  let paths ← segmentsAt bytes 5 count.toNat
  return .path paths

/-- Bytes behind the descriptor are not looked at. -/
def decode (bytes : List UInt8) : Parse FlightError FlightDescriptor :=
  if bytes = [] then .ok .none
  else do
    let tag ← byteAt bytes 0
    match tag with
    | 0 => return .none
    | 1 => decodeCmd bytes
    | 2 => decodePath bytes
    | _ => .error (.refused (.invalidDescriptor "Unknown descriptor tag".toList))

variable {bytes rest : List UInt8} {offset next : Nat}

theorem refuseShort_bind {A : Type} {length : Nat} {message : String} {next : Unit → Parse FlightError A}
    (long : length ≤ bytes.length) : (refuseShort bytes length message >>= next) = next () :=
  Except.refuseIf_bind (Nat.not_lt.mpr long)

theorem refuseShort_safe {A : Type} {length : Nat} {message : String} {next : Unit → Parse FlightError A}
    (then' : length ≤ bytes.length → Safe (next ())) : Safe (refuseShort bytes length message >>= next) :=
  Safe.guard fun long => then' (Nat.not_lt.mp long)

section RoundTrip

/-- An element takes at least the bytes of its length. -/
theorem length_le_flatMap (paths : List Text) : 4 * paths.length ≤ (paths.flatMap encodeSegment).length := by
  induction paths with
  | nil => exact le_refl _
  | cons segment paths hypothesis =>
      rw [List.length_cons, List.flatMap_cons, List.length_append, encodeSegment, counted_length]
      omega

/-- The elements that lie ahead are read one after the other. -/
theorem segmentsAt_ahead {paths : List Text} (ahead : Ahead bytes offset (paths.flatMap encodeSegment ++ rest))
    (few : (paths.flatMap encodeSegment).length < 2 ^ 32) : segmentsAt bytes offset paths.length = .ok paths := by
  induction paths generalizing offset with
  | nil => rfl
  | cons segment paths hypothesis =>
      rw [List.flatMap_cons, List.length_append, encodeSegment, counted_length] at few
      rw [List.flatMap_cons, List.append_assoc] at ahead
      obtain ⟨count, read, size, body⟩ := ahead.counted FlightError (by omega)
      obtain ⟨text, further⟩ := body.text (FlightError.invalidDescriptor "invalid utf-8 sequence".toList) rfl
      have inside := body.1
      have reached := further.1
      rw [List.length_cons, segmentsAt, refuseShort_bind inside, read, Except.ok_bind, size, refuseShort_bind reached,
        segmentAt, text, Except.ok_bind, hypothesis further (by omega)]
      rfl

theorem encode_pos (descriptor : FlightDescriptor) : 0 < descriptor.encode.length := by
  cases descriptor with
  | none => exact Nat.one_pos
  | cmd text => exact Nat.succ_pos _
  | path paths => exact Nat.succ_pos _

/-- A descriptor is read back from its bytes. -/
theorem decode_encode (descriptor : FlightDescriptor) (few : descriptor.encode.length < 2 ^ 32) :
    decode descriptor.encode = .ok descriptor := by
  have some : descriptor.encode ≠ [] := List.ne_nil_of_length_pos descriptor.encode_pos
  cases descriptor with
  | none => decide
  | cmd text =>
      have length : (encode (.cmd text)).length = 5 + (Utf8.encode text).length := by
        rw [encode, List.length_append, counted_length, List.length_singleton, ← Nat.add_assoc]
      have whole : Ahead (encode (.cmd text)) 0 ([1] ++ (counted (Utf8.encode text) ++ [])) := by
        rw [List.append_nil]
        exact ahead_start _
      obtain ⟨tag, ahead⟩ := whole.byte FlightError rfl
      obtain ⟨count, read, size, body⟩ := ahead.counted FlightError (by omega)
      obtain ⟨found, _⟩ := body.text (FlightError.invalidDescriptor "invalid utf-8 sequence".toList) rfl
      rw [decode, if_neg some, tag, Except.ok_bind]
      change decodeCmd _ = _
      rw [decodeCmd, refuseShort_bind (by omega), read, Except.ok_bind, size, refuseShort_bind (by omega), segmentAt,
        found]
      rfl
  | path paths =>
      have length : (encode (.path paths)).length = 5 + (paths.flatMap encodeSegment).length := by
        rw [encode, List.length_append, List.length_append, le32_length, List.length_singleton, ← Nat.add_assoc]
      have segments := length_le_flatMap paths
      have few : paths.length < 2 ^ 32 := by omega
      have whole : Ahead (encode (.path paths)) 0 ([2] ++ (le32 (UInt32.ofNat paths.length) ++
          (paths.flatMap encodeSegment ++ []))) := by
        rw [List.append_nil]
        exact ahead_start _
      obtain ⟨tag, ahead⟩ := whole.byte FlightError rfl
      obtain ⟨count, ahead⟩ := ahead.u32 FlightError rfl
      have read := segmentsAt_ahead ahead (by omega)
      rw [decode, if_neg some, tag, Except.ok_bind]
      change decodePath _ = _
      rw [decodePath, refuseShort_bind (by omega), count, Except.ok_bind, UInt32.toNat_ofNat_of_lt' few, read]
      rfl

end RoundTrip

section Safety

theorem segmentsAt_safe (bytes : List UInt8) (offset count : Nat) : Safe (segmentsAt bytes offset count) := by
  induction count generalizing offset with
  | zero => exact safe_ok _
  | succ count hypothesis =>
      apply refuseShort_safe
      intro header
      rw [u32At_ok header, Except.ok_bind]
      apply refuseShort_safe
      intro whole
      apply (textAt_safe (Nat.le_add_right _ _) whole).bind
      intro segment _
      exact (hypothesis _).bind fun segments _ => safe_ok _

theorem decode_safe (bytes : List UInt8) : Safe (decode bytes) := by
  unfold decode
  split
  · exact safe_ok _
  · rename_i some
    have first : 0 < bytes.length := List.length_pos_of_ne_nil some
    rw [byteAt_ok first, Except.ok_bind]
    split
    · exact safe_ok _
    · apply refuseShort_safe
      intro header
      rw [u32At_ok header, Except.ok_bind]
      apply refuseShort_safe
      intro whole
      exact (textAt_safe (Nat.le_add_right _ _) whole).bind fun cmd _ => safe_ok _
    · apply refuseShort_safe
      intro header
      rw [u32At_ok header, Except.ok_bind]
      exact (segmentsAt_safe bytes 5 _).bind fun paths _ => safe_ok _
    · exact safe_refused _

end Safety

end FlightDescriptor

structure FlightData where
  descriptor : Option FlightDescriptor
  dataHeader : List UInt8
  dataBody : List UInt8
  deriving DecidableEq, Repr

namespace FlightData

/-- Without a descriptor there are no bytes of one. -/
def descBytes (data : FlightData) : List UInt8 := (data.descriptor.map FlightDescriptor.encode).getD []

def totalSize (data : FlightData) : Nat :=
  4 + 2 + 4 + data.descBytes.length + 4 + data.dataHeader.length + 4 + data.dataBody.length + 4

/-- Everything in front of the checksum. -/
def framed (data : FlightData) : List UInt8 :=
  flightMagic ++ (le16 flightVersion ++ (counted data.descBytes ++ (counted data.dataHeader ++ counted data.dataBody)))

variable [Crc32fast]

def encode (data : FlightData) : Except FlightError (List UInt8) :=
  if maxFlightPayload < data.totalSize then .error (.payloadTooLarge data.totalSize)
  else .ok (data.framed ++ le32 (Crc32fast.hash data.framed))

omit [Crc32fast] in
def refuseShort (bytes : List UInt8) (length : Nat) : Parse FlightError Unit :=
  refuseIf (bytes.length < length) (.refused .incompleteMessage)

omit [Crc32fast] in
/-- No bytes stand for no descriptor. -/
def descriptorAt (bytes : List UInt8) (start stop : Nat) : Parse FlightError (Option FlightDescriptor) :=
  if start < stop then do
    let raw ← sliceAt bytes start stop
    let descriptor ← FlightDescriptor.decode raw
    return some descriptor
  else .ok none

/-- The data in front of the bytes, and how many bytes it takes. -/
def decode (bytes : List UInt8) : Parse FlightError (FlightData × Nat) := do
  refuseShort bytes 18
  let magic ← sliceAt bytes 0 4
  refuseIf (magic ≠ flightMagic) (.refused .corruptedData)
  let version ← u16At bytes 4
  refuseIf (version ≠ flightVersion) (.refused .corruptedData)
  let descLen ← u32At bytes 6
  let header := 10 + descLen.toNat
  refuseShort bytes (header + 4)
  let descriptor ← descriptorAt bytes 10 header
  let headerLen ← u32At bytes header
  let body := header + 4 + headerLen.toNat
  refuseShort bytes (body + 4)
  let dataHeader ← sliceAt bytes (header + 4) body
  let bodyLen ← u32At bytes body
  let stop := body + 4 + bodyLen.toNat
  refuseShort bytes (stop + 4)
  let dataBody ← sliceAt bytes (body + 4) stop
  let expected ← u32At bytes stop
  let summed ← sliceAt bytes 0 stop
  refuseIf (Crc32fast.hash summed ≠ expected) (.refused .corruptedData)
  return (⟨descriptor, dataHeader, dataBody⟩, stop + 4)

omit [Crc32fast]

variable {data : FlightData} {bytes frame rest : List UInt8}

theorem refuseShort_bind {A : Type} {length : Nat} {next : Unit → Parse FlightError A} (long : length ≤ bytes.length) :
    (refuseShort bytes length >>= next) = next () :=
  Except.refuseIf_bind (Nat.not_lt.mpr long)

theorem refuseShort_safe {A : Type} {length : Nat} {next : Unit → Parse FlightError A}
    (then' : length ≤ bytes.length → Safe (next ())) : Safe (refuseShort bytes length >>= next) :=
  Safe.guard fun long => then' (Nat.not_lt.mp long)

theorem descriptorAt_safe {start stop : Nat} (inside : stop ≤ bytes.length) : Safe (descriptorAt bytes start stop) := by
  unfold descriptorAt
  split
  · rename_i ordered
    rw [sliceAt_ok ordered.le inside, Except.ok_bind]
    exact (FlightDescriptor.decode_safe _).bind fun descriptor _ => safe_ok _
  · exact safe_ok _

variable [Crc32fast]

theorem decode_safe (bytes : List UInt8) : Safe (decode bytes) := by
  apply refuseShort_safe
  intro fixed
  rw [sliceAt_ok (Nat.zero_le _) (by omega), Except.ok_bind]
  apply Safe.guard
  intro _
  rw [u16At_ok (by omega), Except.ok_bind]
  apply Safe.guard
  intro _
  rw [u32At_ok (by omega), Except.ok_bind]
  apply refuseShort_safe
  intro header
  apply (descriptorAt_safe ((Nat.le_add_right _ 4).trans header)).bind
  intro descriptor _
  rw [u32At_ok header, Except.ok_bind]
  apply refuseShort_safe
  intro body
  rw [sliceAt_ok (Nat.le_add_right _ _) ((Nat.le_add_right _ 4).trans body), Except.ok_bind, u32At_ok body,
    Except.ok_bind]
  apply refuseShort_safe
  intro stop
  rw [sliceAt_ok (Nat.le_add_right _ _) ((Nat.le_add_right _ 4).trans stop), Except.ok_bind, u32At_ok stop,
    Except.ok_bind, sliceAt_ok (Nat.zero_le _) ((Nat.le_add_right _ 4).trans stop), Except.ok_bind]
  exact Safe.guard fun _ => safe_ok _

end FlightData

end Temnion.Flight
