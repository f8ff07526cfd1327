import Temnion.Format.Codec
import Temnion.Library.Slices
import Temnion.Library.Utf8
import Temnion.Storage.Manifest

/-
This file writes and reads the manifest of the sealed segments and says for which bytes every read stays in front of
the checksum.
-/

namespace Temnion.Storage

open LittleEndian Slices Format

namespace SegmentManifest

def manifestMagic : List UInt8 := [84, 78, 77, 78]

def manifestVersion : UInt16 := 1

/-- The length of the name is narrowed to two bytes. -/
def segmentFields (segment : SealedSegmentMeta) : List UInt8 :=
  le64 segment.firstSequence ++ (le64 segment.lastSequence ++ (le64 segment.byteLength ++ (le32 segment.crc32 ++
    (le64 segment.sealedAtTicks ++ (le16 (UInt16.ofNat (Utf8.encode segment.filename.toList).length) ++
      Utf8.encode segment.filename.toList)))))

def retiredFields : Option UInt64 → List UInt8
  | some sequence => [1] ++ le64 sequence
  | none => [0] ++ le64 0

/-- Everything that the checksum covers. -/
def fields (manifest : SegmentManifest) : List UInt8 :=
  manifestMagic ++ (le16 manifestVersion ++ (manifest.database.bytes ++ (le32 manifest.source ++
    (le64 manifest.epoch ++ (retiredFields manifest.retiredUpToSequence ++
      (le32 (UInt32.ofNat manifest.sealedSegments.length) ++ manifest.sealedSegments.flatMap segmentFields))))))

def encode [Crc32fast] (manifest : SegmentManifest) : List UInt8 :=
  manifest.fields ++ le32 (Crc32fast.hash manifest.fields)

/-- One entry with the place behind it. -/
def readSegment (bytes : List UInt8) (offset : Nat) : Parse String (SealedSegmentMeta × Nat) := do
  refuseIf (bytes.length < offset + 34) (.refused "Truncated segment entry")
  let firstSequence ← u64At bytes offset
  let lastSequence ← u64At bytes (offset + 8)
  let byteLength ← u64At bytes (offset + 16)
  let crc32 ← u32At bytes (offset + 24)
  let sealedAtTicks ← u64At bytes (offset + 28)
  let nameLength ← u16At bytes (offset + 36)
  refuseIf (bytes.length < offset + 38 + nameLength.toNat) (.refused "Truncated segment filename")
  let name ← sliceAt bytes (offset + 38) (offset + 38 + nameLength.toNat)
  match Utf8.decode name with
  | none => throw (.refused "Invalid UTF-8 in segment filename")
  | some text =>
      return (⟨firstSequence, lastSequence, String.ofList text, byteLength, crc32, sealedAtTicks⟩,
        offset + 38 + nameLength.toNat)

def readSegments (bytes : List UInt8) : Nat → Nat → Parse String (List SealedSegmentMeta × Nat)
  | 0, offset => .ok ([], offset)
  | count + 1, offset => do
      let (segment, offset) ← readSegment bytes offset
      let (segments, offset) ← readSegments bytes count offset
      return (segment :: segments, offset)

/-- The manifest with the place behind the last byte that it is taken from. -/
def decodeFields [Crc32fast] (bytes : List UInt8) : Parse String (SegmentManifest × Nat) := do
  refuseIf (bytes.length < 42) (.refused "Segment manifest too short")
  let expected ← u32At bytes (bytes.length - 4)
  refuseIf (Crc32fast.hash (bytes.take (bytes.length - 4)) ≠ expected) (.refused "Segment manifest CRC32 mismatch")
  let magic ← sliceAt bytes 0 4
  refuseIf (magic ≠ manifestMagic) (.refused "Invalid segment manifest magic")
  let version ← u16At bytes 4
  refuseIf (version ≠ manifestVersion) (.refused "Unsupported segment manifest version")
  let database ← sliceAt bytes 6 22
  let source ← u32At bytes 22
  let epoch ← u64At bytes 26
  let retiredFlag ← byteAt bytes 34
  let retired ← u64At bytes 35
  refuseIf (bytes.length < 47) (.refused "Truncated segment count")
  let count ← u32At bytes 43
  let (segments, offset) ← readSegments bytes count.toNat 47
  if length : database.length = 16 then
    return (⟨⟨database, length⟩, source, epoch, segments, if retiredFlag = 1 then some retired else none⟩, offset)
  else throw .panicked

def decode [Crc32fast] (bytes : List UInt8) : Parse String SegmentManifest := do
  let (manifest, _) ← decodeFields bytes
  return manifest

section Robust

variable {bytes : List UInt8} {offset count : Nat}

/-- The outcome is no panic, and what is accepted ends in front of the checksum. -/
def Contained {A : Type} (bytes : List UInt8) : Parse String (A × Nat) → Prop
  | .ok (_, stop) => stop + 4 ≤ bytes.length
  | .error .panicked => False
  | .error (.refused _) => True

/-- The length of the name of the entry at this place. -/
def nameLength (bytes : List UInt8) (offset : Nat) : Nat := (getU16 bytes (offset + 36)).toNat

def nameEnd (bytes : List UInt8) (offset : Nat) : Nat := offset + 38 + nameLength bytes offset

/-- The entry at this place is complete and its name is a text. -/
def Complete (bytes : List UInt8) (offset : Nat) : Prop :=
  nameEnd bytes offset ≤ bytes.length ∧
    (Utf8.decode (slice bytes (offset + 38) (nameLength bytes offset))).isSome = true

variable [Crc32fast]

/-- The checks in front of the fields pass. -/
def Headed (bytes : List UInt8) : Prop :=
  42 ≤ bytes.length ∧ Crc32fast.hash (bytes.take (bytes.length - 4)) = getU32 bytes (bytes.length - 4) ∧
    slice bytes 0 4 = manifestMagic ∧ getU16 bytes 4 = manifestVersion

/-- The entries that a manifest announces. -/
def announced (bytes : List UInt8) : Nat := (getU32 bytes 43).toNat

end Robust

section Written

variable {segment : SealedSegmentMeta} {segments : List SealedSegmentMeta} {manifest : SegmentManifest}
  {bytes rest : List UInt8} {offset : Nat}

/-- Two bytes hold the length of the name. -/
def Named (segment : SealedSegmentMeta) : Prop := (Utf8.encode segment.filename.toList).length < 2 ^ 16

theorem readSegment_ahead (named : Named segment) (ahead : Ahead bytes offset (segmentFields segment ++ rest)) :
    ∃ next, readSegment bytes offset = .ok (segment, next) ∧ Ahead bytes next rest := by
  simp only [segmentFields, List.append_assoc] at ahead
  obtain ⟨first, ahead⟩ := ahead.u64 String rfl
  obtain ⟨last, ahead⟩ := ahead.u64 String rfl
  obtain ⟨byteLength, ahead⟩ := ahead.u64 String rfl
  obtain ⟨crc32, ahead⟩ := ahead.u32 String rfl
  obtain ⟨ticks, ahead⟩ := ahead.u64 String rfl
  obtain ⟨length, ahead⟩ := ahead.u16 String rfl
  obtain ⟨inside, -, further⟩ := ahead.part rfl
  obtain ⟨name, -⟩ := ahead.slice String rfl
  have narrowed : (UInt16.ofNat (Utf8.encode segment.filename.toList).length).toNat =
      (Utf8.encode segment.filename.toList).length := UInt16.toNat_ofNat_of_lt' named
  refine ⟨_, ?_, further⟩
  rw [readSegment, Except.refuseIf_bind (by omega), first, Except.ok_bind, last, Except.ok_bind, byteLength,
    Except.ok_bind, crc32, Except.ok_bind, ticks, Except.ok_bind, length, Except.ok_bind, narrowed,
    Except.refuseIf_bind (by omega), name, Except.ok_bind, Utf8.decode_encode]
  dsimp only
  rw [String.ofList_toList]
  rfl

theorem readSegments_ahead (named : ∀ segment ∈ segments, Named segment)
    (ahead : Ahead bytes offset (segments.flatMap segmentFields ++ rest)) :
    ∃ next, readSegments bytes segments.length offset = .ok (segments, next) ∧ Ahead bytes next rest := by
  induction segments generalizing offset with
  | nil => exact ⟨offset, rfl, ahead⟩
  | cons segment segments hypothesis =>
      rw [List.flatMap_cons, List.append_assoc] at ahead
      obtain ⟨middle, one, ahead⟩ := readSegment_ahead (named segment List.mem_cons_self) ahead
      obtain ⟨next, others, ahead⟩ := hypothesis (fun other member => named other (List.mem_cons_of_mem _ member)) ahead
      refine ⟨next, ?_, ahead⟩
      rw [List.length_cons, readSegments, one, Except.ok_bind]
      dsimp only
      rw [others]
      rfl

/-- The flag tells a missing sequence from the first one. -/
theorem retiredFields_shape (retired : Option UInt64) :
    ∃ flag value, retiredFields retired = [flag] ++ le64 value ∧ (if flag = 1 then some value else none) = retired := by
  cases retired with
  | none => exact ⟨0, 0, rfl, rfl⟩
  | some sequence => exact ⟨1, sequence, rfl, rfl⟩

/-- A manifest that its counters can hold reads back. -/
theorem decode_encode [Crc32fast] (named : ∀ segment ∈ manifest.sealedSegments, Named segment)
    (counted : manifest.sealedSegments.length < 2 ^ 32) : decode manifest.encode = .ok manifest := by
  obtain ⟨flag, retired, shape, flagged⟩ := retiredFields_shape manifest.retiredUpToSequence
  have start := ahead_start manifest.encode
  have split : manifest.encode = manifest.fields ++ (le32 (Crc32fast.hash manifest.fields) ++ []) := by
    rw [List.append_nil, encode]
  have length : manifest.encode.length - 4 = manifest.fields.length := by
    rw [encode, List.length_append, le32_length, Nat.add_sub_cancel]
  have expected : (u32At manifest.encode manifest.fields.length : Parse String UInt32) =
      .ok (Crc32fast.hash manifest.fields) := u32At_of_split split rfl
  have covered : manifest.encode.take manifest.fields.length = manifest.fields := by
    rw [encode, List.take_left]
  nth_rewrite 2 [encode] at start
  simp only [fields, shape, List.append_assoc] at start
  obtain ⟨magic, ahead⟩ := start.slice String (show 0 + manifestMagic.length = 4 from rfl)
  obtain ⟨version, ahead⟩ := ahead.u16 String (show 4 + 2 = 6 from rfl)
  obtain ⟨database, ahead⟩ := ahead.slice String (show 6 + manifest.database.bytes.length = 22 by
    rw [manifest.database.length])
  obtain ⟨source, ahead⟩ := ahead.u32 String (show 22 + 4 = 26 from rfl)
  obtain ⟨epoch, ahead⟩ := ahead.u64 String (show 26 + 8 = 34 from rfl)
  obtain ⟨flagByte, ahead⟩ := ahead.byte String (show 34 + 1 = 35 from rfl)
  obtain ⟨value, ahead⟩ := ahead.u64 String (show 35 + 8 = 43 from rfl)
  obtain ⟨count, ahead⟩ := ahead.u32 String (show 43 + 4 = 47 from rfl)
  obtain ⟨next, segments, -⟩ := readSegments_ahead named ahead
  have long : 47 ≤ manifest.encode.length := ahead.1
  have counter : (UInt32.ofNat manifest.sealedSegments.length).toNat = manifest.sealedSegments.length :=
    UInt32.toNat_ofNat_of_lt' counted
  rw [decode, decodeFields, Except.refuseIf_bind (by omega), length, expected, Except.ok_bind, covered,
    Except.refuseIf_bind (not_not.mpr rfl), magic, Except.ok_bind, Except.refuseIf_bind (not_not.mpr rfl), version,
    Except.ok_bind, Except.refuseIf_bind (not_not.mpr rfl), database, Except.ok_bind, source, Except.ok_bind, epoch,
    Except.ok_bind, flagByte, Except.ok_bind, value, Except.ok_bind, Except.refuseIf_bind (by omega), count,
    Except.ok_bind, counter, segments, Except.ok_bind]
  dsimp only
  rw [dif_pos manifest.database.length, flagged]
  rfl

end Written

section Samples

/-- The fields of a manifest that stops within the retired sequence. -/
def shortestFields : List UInt8 := manifestMagic ++ le16 manifestVersion ++ List.replicate 32 0

def shortest [Crc32fast] : List UInt8 := shortestFields ++ le32 (Crc32fast.hash shortestFields)

end Samples

end SegmentManifest

end Temnion.Storage
