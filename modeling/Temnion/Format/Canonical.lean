import Temnion.Format.RoundTrip

/-
This file shows that the decoders accept exactly what the encoders write.
-/

namespace Temnion.Format

open LittleEndian Reader

/-- How a decoder ends early: with an error of its own, or by reading outside its input. -/
inductive Halt where
  | refused (error : FormatError)
  | outOfRange
  deriving DecidableEq, Repr

section Access

/-- The bytes from an offset on, which have to be there. -/
def sliceAt (bytes : List UInt8) (offset count : Nat) : Except Halt (List UInt8) :=
  if offset + count ≤ bytes.length then .ok (slice bytes offset count) else .error .outOfRange

def u16At (bytes : List UInt8) (offset : Nat) : Except Halt UInt16 :=
  if offset + 2 ≤ bytes.length then .ok (getU16 bytes offset) else .error .outOfRange

def u32At (bytes : List UInt8) (offset : Nat) : Except Halt UInt32 :=
  if offset + 4 ≤ bytes.length then .ok (getU32 bytes offset) else .error .outOfRange

def dropAt (bytes : List UInt8) (offset : Nat) : Except Halt (List UInt8) :=
  if offset ≤ bytes.length then .ok (bytes.drop offset) else .error .outOfRange

variable [Crc32fast]

/-- The frame header is read with every access checked against the input. -/
def frameLengthAt (header : List UInt8) (limits : Limits) : Except Halt Nat := do
  refuseIf (header.length < batchHeaderLen) (.refused (.incomplete batchHeaderLen header.length))
  let magic ← sliceAt header 0 4
  refuseIf (magic ≠ batchMagic) (.refused .invalidMagic)
  let version ← u16At header 4
  refuseIf (version ≠ formatVersion) (.refused (.unsupportedVersion version))
  let flags ← u16At header 6
  refuseIf (flags ≠ noFlags) (.refused (.invalidData "unsupported batch flags"))
  let fields ← sliceAt header 0 batchHeaderChecksumOffset
  let checksum ← u32At header batchHeaderChecksumOffset
  refuseIf (checksum ≠ Crc32fast.hash fields) (.refused .checksumMismatch)
  let length ← u32At header 8
  refuseIf (length.toNat < batchHeaderLen) (.refused (.invalidData "frame length smaller than header"))
  refuseIf (limits.maxFrameBytes < length.toNat) (.refused (.limitExceeded "frame bytes"))
  let count ← u32At header 12
  refuseIf (limits.maxRecords < count.toNat) (.refused (.limitExceeded "records per batch"))
  return length.toNat

/-- The frame is decoded with every access checked against the input. The record bodies are read through a cursor
that checks for itself. -/
def decodeBatchAt (frame : List UInt8) (limits : Limits) : Except Halt (List StoredEvent) := do
  let frameLen ← frameLengthAt frame limits
  refuseIf (frame.length < frameLen) (.refused (.incomplete frameLen frame.length))
  refuseIf (frameLen < frame.length) (.refused (.invalidData "trailing batch bytes"))
  let checksum ← u32At frame batchBodyChecksumOffset
  let body ← dropAt frame batchHeaderLen
  refuseIf (checksum ≠ Crc32fast.hash body) (.refused .checksumMismatch)
  let count ← u32At frame 12
  let (records, rest) ← (readMany (decodeRecordBody limits) count.toNat body).mapError .refused
  refuseIf (rest ≠ []) (.refused (.invalidData "trailing record bytes"))
  return records

end Access

section Accesses

theorem mapError_bind {E F A B : Type} (change : E → F) (first : Except E A) (next : A → Except E B) :
    (first >>= next).mapError change = (first.mapError change >>= fun value => (next value).mapError change) := by
  cases first <;> rfl

theorem mapError_refuseIf {E F : Type} (change : E → F) (condition : Prop) [Decidable condition] (error : E) :
    (refuseIf condition error : Except E Unit).mapError change = refuseIf condition (change error) := by
  unfold refuseIf
  split <;> rfl

variable [Crc32fast] {frame : List UInt8} {limits : Limits}

/-- Reading the header of a frame stays within the input. -/
theorem frameLengthAt_eq : frameLengthAt frame limits = (frameLength frame limits).mapError .refused := by
  unfold frameLengthAt frameLength
  rw [mapError_bind, mapError_refuseIf]
  by_cases short : frame.length < batchHeaderLen
  · rw [Except.refuseIf_bind_error short, Except.refuseIf_bind_error short]
  · have enough : 24 ≤ frame.length := Nat.not_lt.mp short
    rw [Except.refuseIf_bind short, Except.refuseIf_bind short]
    have slices : ∀ count, count ≤ 24 → sliceAt frame 0 count = .ok (slice frame 0 count) :=
      fun count inside => if_pos (by omega)
    have halves : ∀ offset, offset + 2 ≤ 24 → u16At frame offset = .ok (getU16 frame offset) :=
      fun offset inside => if_pos (by omega)
    have words : ∀ offset, offset + 4 ≤ 24 → u32At frame offset = .ok (getU32 frame offset) :=
      fun offset inside => if_pos (by omega)
    simp only [mapError_bind, mapError_refuseIf, slices 4 (by decide), halves 4 (by decide), halves 6 (by decide),
      slices batchHeaderChecksumOffset (by decide), words batchHeaderChecksumOffset (by decide), words 8 (by decide),
      words 12 (by decide), Except.ok_bind]
    rfl

/-- Decoding a frame stays within the input. -/
theorem decodeBatchAt_eq : decodeBatchAt frame limits = (decodeBatch frame limits).mapError .refused := by
  unfold decodeBatchAt decodeBatch
  rw [frameLengthAt_eq, mapError_bind]
  cases framed : frameLength frame limits with
  | error error => rfl
  | ok frameLen =>
      have enough : 24 ≤ frame.length := (frameLength_ok framed).1
      change (refuseIf _ _ >>= _) = (refuseIf _ _ >>= _ : Except FormatError _).mapError _
      have word : ∀ offset, offset + 4 ≤ 24 → u32At frame offset = .ok (getU32 frame offset) :=
        fun offset inside => if_pos (by omega)
      have body : dropAt frame batchHeaderLen = .ok (frame.drop batchHeaderLen) := if_pos enough
      simp only [mapError_bind, mapError_refuseIf, word batchBodyChecksumOffset (by decide), word 12 (by decide), body,
        Except.ok_bind]
      rfl

/-- Decoding accepts a byte string as a batch exactly when encoding the batch gives the byte string, and it never
reads outside the byte string. -/
theorem batch_codec_exact (frame : List UInt8) (limits : Limits) :
    (∀ records, decodeBatch frame limits = .ok records ↔ encodeBatch records limits = .ok frame) ∧
      decodeBatchAt frame limits = (decodeBatch frame limits).mapError .refused := by
  refine ⟨fun records => ?_, decodeBatchAt_eq⟩
  rw [decodeBatch_ok, encodeBatch_ok]

end Accesses

section Segments

variable [Crc32fast] {bytes : List UInt8} {limits : Limits}

omit [Crc32fast] in
theorem databaseAt_slice {offset : Nat} (inside : offset + 16 ≤ bytes.length) :
    (databaseAt bytes offset).bytes = slice bytes offset 16 := by
  have length : (slice bytes offset 16).length = 16 := slice_length inside
  change (slice bytes offset 16).rightpad 16 0 = _
  rw [List.rightpad, length, Nat.sub_self, List.replicate_zero, List.append_nil]

/-- The number of bytes that the header of a segment declares. -/
def declaredLength (bytes : List UInt8) : Nat :=
  segmentHeaderLen + (getU32 bytes segmentBodyLenOffset).toNat + segmentFooterLen

/-- The bytes of an accepted segment are its canonical header, its body and its footer. -/
theorem segmentBytes_of_parts (total : bytes.length = declaredLength bytes) (magic : slice bytes 0 4 = segmentMagic)
    (version : getU16 bytes 4 = formatVersion) (flags : getU16 bytes 6 = noFlags)
    (headerSum : getU32 bytes segmentHeaderChecksumOffset =
      Crc32fast.hash (slice bytes 0 segmentHeaderChecksumOffset))
    (footerMagic : slice bytes (segmentHeaderLen + (getU32 bytes segmentBodyLenOffset).toNat) 4 = segmentFooterMagic)
    (footerVersion : getU16 bytes (segmentHeaderLen + (getU32 bytes segmentBodyLenOffset).toNat + 4) = formatVersion)
    (footerFlags : getU16 bytes (segmentHeaderLen + (getU32 bytes segmentBodyLenOffset).toNat + 6) = noFlags)
    (directory : getU32 bytes (segmentHeaderLen + (getU32 bytes segmentBodyLenOffset).toNat +
      segmentFooterDirLenOffset) = 0)
    (footerSum : getU32 bytes (segmentHeaderLen + (getU32 bytes segmentBodyLenOffset).toNat +
      segmentFooterChecksumOffset) = Crc32fast.hash (slice bytes (segmentHeaderLen +
        (getU32 bytes segmentBodyLenOffset).toNat) segmentFooterChecksumOffset))
    (bodySum : Crc32fast.hash (slice bytes segmentHeaderLen (getU32 bytes segmentBodyLenOffset).toNat) =
      getU32 bytes segmentBodyChecksumOffset) :
    bytes = segmentBytes ⟨databaseAt bytes 8, getU32 bytes 24, getU64 bytes 28⟩
      (getU32 bytes segmentRecordCountOffset).toNat
      (slice bytes segmentHeaderLen (getU32 bytes segmentBodyLenOffset).toNat) := by
  generalize bodyLen : (getU32 bytes segmentBodyLenOffset).toNat = length at *
  have size : bytes.length = 52 + length + 16 := by
    rw [total, declaredLength, bodyLen]
    rfl
  have bodySize : (slice bytes segmentHeaderLen length).length = length :=
    slice_length (by simp only [segmentHeaderLen]; omega)
  have header : segmentFields ⟨databaseAt bytes 8, getU32 bytes 24, getU64 bytes 28⟩
      (getU32 bytes segmentRecordCountOffset).toNat (slice bytes segmentHeaderLen length) =
        slice bytes 0 segmentHeaderChecksumOffset := by
    rw [segmentFields, bodySize, ← bodyLen, UInt32.ofNat_toNat, UInt32.ofNat_toNat, bodyLen, bodySum, ← magic, ← version,
      ← flags]
    dsimp only
    rw [databaseAt_slice (by omega), le16_getU16 (by omega), le16_getU16 (by omega), le32_getU32 (by omega),
      le64_getU64 (by omega), le32_getU32 (by simp only [segmentBodyLenOffset]; omega),
      le32_getU32 (by simp only [segmentRecordCountOffset]; omega),
      le32_getU32 (by simp only [segmentBodyChecksumOffset]; omega)]
    change _ = slice bytes 0 (4 + 2 + 2 + 16 + 4 + 8 + 4 + 4 + 4)
    rw [slice_add, slice_add, slice_add, slice_add, slice_add, slice_add, slice_add, slice_add]
    simp only [List.append_assoc]
    rfl
  have footer : footerFields = slice bytes (segmentHeaderLen + length) segmentFooterChecksumOffset := by
    rw [footerFields, ← footerMagic, ← footerVersion, ← footerFlags, ← directory,
      le16_getU16 (by simp only [segmentHeaderLen]; omega), le16_getU16 (by simp only [segmentHeaderLen]; omega),
      le32_getU32 (by simp only [segmentHeaderLen, segmentFooterDirLenOffset]; omega)]
    change _ = slice bytes (segmentHeaderLen + length) (4 + 2 + 2 + 4)
    rw [slice_add, slice_add, slice_add]
    simp only [List.append_assoc]
    rfl
  rw [segmentBytes_eq, header, footer, ← headerSum, ← footerSum,
    le32_getU32 (by simp only [segmentHeaderChecksumOffset]; omega),
    le32_getU32 (by simp only [segmentHeaderLen, segmentFooterChecksumOffset]; omega)]
  have whole : slice bytes 0 (48 + 4 + length + 12 + 4) = bytes := slice_all (by omega)
  rw [slice_add, slice_add, slice_add, slice_add] at whole
  simp only [Nat.zero_add, List.append_assoc] at whole
  exact whole.symm

/-- Decoding accepts exactly the segments of the batches that fit one. -/
theorem decodeSegment_ok {header : WalHeader} {records : List StoredEvent} :
    decodeSegment bytes limits = .ok ⟨header, records⟩ ↔
      SegmentFits header limits records ∧ segmentBytes header records.length (batchBytes records) = bytes := by
  constructor
  · intro accepted
    unfold decodeSegment at accepted
    simp only [Except.bind_eq_ok, Except.refuseIf_ok, exists_const, checkedAdd_ok, Nat.not_lt, not_not] at accepted
    obtain ⟨-, magic, version, flags, headerSum, -, ⟨-, rfl⟩, -, ⟨-, rfl⟩, room, short, long, footerMagic,
      footerVersion, footerFlags, directory, footerSum, bodySum, -, -, embedded⟩ := accepted
    obtain ⟨decoded, count, identity, same⟩ : decodeBatch (slice bytes segmentHeaderLen
        (getU32 bytes segmentBodyLenOffset).toNat) limits = .ok records ∧
          records.length = (getU32 bytes segmentRecordCountOffset).toNat ∧
          (∀ record ∈ records, record.id.source = getU32 bytes 24 ∧ record.id.epoch = getU64 bytes 28) ∧
          ⟨databaseAt bytes 8, getU32 bytes 24, getU64 bytes 28⟩ = header := by
      revert embedded
      split
      · intro refused
        contradiction
      · intro checked
        simp only [Except.bind_eq_ok, Except.refuseIf_ok, exists_const, not_not] at checked
        obtain ⟨others, decoded, count, identity, same⟩ := checked
        obtain ⟨rfl, rfl⟩ := Segment.mk.inj (Except.ok.inj same)
        have own := @foreignRecord_iff ⟨databaseAt bytes 8, getU32 bytes 24, getU64 bytes 28⟩ others
        exact ⟨decoded, count, own.mp identity, rfl⟩
    obtain ⟨fits, body⟩ := decodeBatch_ok.mp decoded
    have layout := segmentBytes_of_parts (le_antisymm long short) magic version flags headerSum footerMagic footerVersion
      footerFlags directory footerSum bodySum
    rw [← count, ← body, same] at layout
    have own : ∀ record ∈ records, record.id.source = header.source ∧ record.id.epoch = header.epoch := by
      rw [← same]
      exact identity
    refine ⟨⟨own, fits, ?_⟩, layout.symm⟩
    have size := congrArg List.length layout
    rw [segmentBytes_length] at size
    omega
  · intro holds
    obtain ⟨fits, rfl⟩ := holds
    exact decodeSegment_segmentBytes fits

/-- The outcome does not ask for more bytes. -/
def Complete {A : Type} (outcome : Except FormatError A) : Prop :=
  ∀ needed available, outcome ≠ .error (.incomplete needed available)

omit [Crc32fast] in
theorem Complete.refuse {A : Type} {condition : Prop} [Decidable condition] {error : FormatError}
    {next : Unit → Except FormatError A} (other : ∀ needed available, error ≠ .incomplete needed available)
    (rest : Complete (next ())) : Complete (refuseIf condition error >>= next) := by
  intro needed available
  by_cases holds : condition
  · rw [Except.refuseIf_bind_error holds]
    exact fun same => other needed available (Except.error.inj same)
  · rw [Except.refuseIf_bind holds]
    exact rest needed available

omit [Crc32fast] in
theorem Complete.checked {A : Type} {first second : Nat} {reason : String} {next : Nat → Except FormatError A}
    (rest : Complete (next (first + second))) : Complete (checkedAdd (.invalidData reason) first second >>= next) := by
  intro needed available
  unfold checkedAdd
  split
  · exact rest needed available
  · exact nofun

/-- A byte string that holds everything its header declares is not incomplete. -/
theorem decodeSegment_complete (header : segmentHeaderLen ≤ bytes.length) (whole : declaredLength bytes ≤ bytes.length) :
    Complete (decodeSegment bytes limits) := by
  rw [declaredLength] at whole
  unfold decodeSegment
  rw [Except.refuseIf_bind (Nat.not_lt.mpr header)]
  apply Complete.refuse (by simp)
  apply Complete.refuse (by simp)
  apply Complete.refuse (by simp)
  apply Complete.refuse (by simp)
  apply Complete.checked
  apply Complete.checked
  apply Complete.refuse (by simp)
  rw [Except.refuseIf_bind (Nat.not_lt.mpr whole)]
  apply Complete.refuse (by simp)
  apply Complete.refuse (by simp)
  apply Complete.refuse (by simp)
  apply Complete.refuse (by simp)
  apply Complete.refuse (by simp)
  apply Complete.refuse (by simp)
  apply Complete.refuse (by simp)
  apply Complete.refuse (by simp)
  apply Complete.refuse (by simp)
  split
  · simp [Complete, Except.error_bind]
  · next embedded =>
    cases decoded : decodeBatch (slice bytes segmentHeaderLen (getU32 bytes segmentBodyLenOffset).toNat) limits with
    | error error =>
        intro needed available same
        exact embedded needed available (decoded.trans (congrArg Except.error (Except.error.inj same)))
    | ok records =>
        rw [Except.ok_bind]
        apply Complete.refuse (by simp)
        apply Complete.refuse (by simp)
        simp [Complete, pure, Except.pure]

/-- Decoding accepts a byte string as a segment exactly when encoding the segment gives the byte string. A byte string
that holds everything its header declares is never incomplete. -/
theorem segment_codec_exact (bytes : List UInt8) (limits : Limits) :
    (∀ header records, decodeSegment bytes limits = .ok ⟨header, records⟩ ↔
      encodeSegment header records limits = .ok bytes) ∧
    (∀ needed available, decodeSegment bytes limits = .error (.incomplete needed available) →
      bytes.length < segmentHeaderLen ∨ bytes.length < declaredLength bytes) := by
  refine ⟨fun header records => ?_, fun needed available refused => ?_⟩
  · rw [decodeSegment_ok, encodeSegment_ok]
  · by_contra present
    obtain ⟨header, whole⟩ := not_or.mp present
    exact decodeSegment_complete (Nat.not_lt.mp header) (Nat.not_lt.mp whole) needed available refused

end Segments

end Temnion.Format
