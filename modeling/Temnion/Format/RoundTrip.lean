import Temnion.Format.Codec

namespace Temnion.Format

open LittleEndian Reader

/-- The record respects its limits and the widths of its length fields. -/
structure RecordFits (limits : Limits) (record : StoredEvent) : Prop where
  payload : record.payload.length ≤ limits.maxPayloadBytes
  payloadWord : record.payload.length < 2 ^ 32
  causes : record.causes.length ≤ limits.maxCauses
  causesWord : record.causes.length < 2 ^ 16

@[simp] theorem eventIdBytes_length (id : EventId) : (eventIdBytes id).length = eventIdLen := by
  simp [eventIdBytes, eventIdLen]

@[simp] theorem timestampBytes_length (timestamp : Timestamp) :
    (timestampBytes timestamp).length = timestampLen := by
  simp [timestampBytes, timestampLen]

theorem causesBytes_length (causes : List EventId) :
    (causes.flatMap eventIdBytes).length = causes.length * eventIdLen := by
  induction causes with
  | nil => simp
  | cons cause causes ih =>
      rw [List.flatMap_cons, List.length_append, ih, eventIdBytes_length, List.length_cons, Nat.succ_mul,
        Nat.add_comm]

/-- The observed timestamp takes its bytes only when it is present. -/
def observedLen (record : StoredEvent) : Nat :=
  if record.times.observed.isSome then observedTimestampLen else 0

theorem recordBytes_length (record : StoredEvent) :
    (recordBytes record).length =
      recordFixedLen + observedLen record + record.causes.length * eventIdLen + record.payload.length := by
  have observed : ((record.times.observed.map timestampBytes).getD []).length = observedLen record := by
    unfold observedLen
    cases record.times.observed <;> simp [observedTimestampLen]
  simp only [recordBytes, List.length_append, causesBytes_length, observed, eventIdBytes_length,
    timestampBytes_length, le16_length, le32_length, eventIdLen, timestampLen, recordFixedLen]

theorem encodedRecordLen_ok {record : StoredEvent} {limits : Limits} {length : Nat} :
    encodedRecordLen record limits = .ok length ↔
      RecordFits limits record ∧ (recordBytes record).length = length := by
  unfold encodedRecordLen
  simp only [Except.bind_eq_ok, Except.refuseIf_ok, checkedMul_ok, checkedAdd_ok, exists_const, Nat.not_lt,
    Nat.not_le]
  rw [recordBytes_length, observedLen]
  constructor
  · intro steps
    obtain ⟨payload, payloadWord, causes, causesWord, _, ⟨_, rfl⟩, _, ⟨_, rfl⟩, _, ⟨_, rfl⟩, _, rfl⟩ := steps
    exact ⟨⟨payload, payloadWord, causes, causesWord⟩, rfl⟩
  · intro fits
    obtain ⟨⟨payload, payloadWord, causes, causesWord⟩, rfl⟩ := fits
    have small : (if record.times.observed.isSome then observedTimestampLen else 0) ≤ 12 := by
      split <;> simp [observedTimestampLen, timestampLen]
    have fixed : recordFixedLen = 68 := rfl
    have idLen : eventIdLen = 20 := rfl
    rw [idLen]
    refine ⟨payload, payloadWord, causes, causesWord, _, ⟨?_, rfl⟩, _, ⟨?_, rfl⟩, _, ⟨?_, rfl⟩, ?_, rfl⟩ <;>
      omega

theorem encodeRecordBody_ok {bytes result : List UInt8} {record : StoredEvent} :
    encodeRecordBody bytes record = .ok result ↔
      record.payload.length < 2 ^ 32 ∧ record.causes.length < 2 ^ 16 ∧ bytes ++ recordBytes record = result := by
  unfold encodeRecordBody
  simp only [Except.bind_eq_ok, Except.refuseIf_ok, exists_const, Nat.not_le, pure, Except.pure, Except.ok.injEq]

/-- The body of a batch is the concatenation of its records. -/
def bodyBytes (records : List StoredEvent) : List UInt8 := records.flatMap recordBytes

@[simp] theorem bodyBytes_nil : bodyBytes [] = [] := rfl

@[simp] theorem bodyBytes_cons (record : StoredEvent) (records : List StoredEvent) :
    bodyBytes (record :: records) = recordBytes record ++ bodyBytes records := rfl

theorem encodeBody_ok {records : List StoredEvent} {bytes result : List UInt8} :
    records.foldlM encodeRecordBody bytes = .ok result ↔
      (∀ record ∈ records, record.payload.length < 2 ^ 32 ∧ record.causes.length < 2 ^ 16) ∧
        bytes ++ bodyBytes records = result := by
  induction records generalizing bytes with
  | nil => simp [pure, Except.pure]
  | cons record records ih =>
      simp only [List.foldlM_cons, Except.bind_eq_ok, encodeRecordBody_ok, ih, List.forall_mem_cons,
        bodyBytes_cons]
      constructor
      · intro steps
        obtain ⟨_, ⟨payload, causes, rfl⟩, rest, same⟩ := steps
        exact ⟨⟨⟨payload, causes⟩, rest⟩, by rw [← same, List.append_assoc]⟩
      · intro holds
        obtain ⟨⟨⟨payload, causes⟩, rest⟩, same⟩ := holds
        exact ⟨_, ⟨payload, causes, rfl⟩, rest, by rw [← same, List.append_assoc]⟩

theorem encodeLengths_ok {records : List StoredEvent} {limits : Limits} {start result : Nat} :
    records.foldlM (fun bodyLen record => do
        checkedAdd (.invalidData "frame length overflow") bodyLen (← encodedRecordLen record limits))
        start = (.ok result : Except FormatError Nat) ↔
      (∀ record ∈ records, RecordFits limits record) ∧ start + (bodyBytes records).length = result ∧
        (records ≠ [] → result < 2 ^ 64) := by
  induction records generalizing start with
  | nil => simp [pure, Except.pure]
  | cons record records ih =>
      simp only [List.foldlM_cons, Except.bind_eq_ok, encodedRecordLen_ok, checkedAdd_ok, ih,
        List.forall_mem_cons, bodyBytes_cons, List.length_append]
      constructor
      · intro steps
        obtain ⟨_, ⟨_, ⟨fits, rfl⟩, bound, rfl⟩, rest, rfl, small⟩ := steps
        refine ⟨⟨fits, rest⟩, by omega, fun _ => ?_⟩
        by_cases last : records = []
        · subst last
          simpa using bound
        · exact small last
      · intro holds
        obtain ⟨⟨fits, rest⟩, rfl, small⟩ := holds
        have bound := small (by simp)
        exact ⟨_, ⟨_, ⟨fits, rfl⟩, by omega, rfl⟩, rest, by omega, fun _ => by omega⟩

theorem recordBytes_pos (record : StoredEvent) : 68 ≤ (recordBytes record).length := by
  rw [recordBytes_length]
  have fixed : recordFixedLen = 68 := rfl
  omega

theorem bodyBytes_length_ge (records : List StoredEvent) :
    68 * records.length ≤ (bodyBytes records).length := by
  induction records with
  | nil => simp
  | cons record records ih =>
      have size := recordBytes_pos record
      rw [bodyBytes_cons, List.length_append, List.length_cons]
      omega

section

variable [Crc32fast]

/-- The frame that holds exactly these records. -/
def batchBytes (records : List StoredEvent) : List UInt8 :=
  frameBytes (batchHeaderLen + (bodyBytes records).length) records.length (bodyBytes records)

theorem frameBytes_length (frameLen recordCount : Nat) (body : List UInt8) :
    (frameBytes frameLen recordCount body).length = batchHeaderLen + body.length := by
  simp [frameBytes, batchMagic, batchHeaderLen]
  omega

theorem batchBytes_length (records : List StoredEvent) :
    (batchBytes records).length = batchHeaderLen + (bodyBytes records).length :=
  frameBytes_length _ _ _

/-- The batch respects the limits of one frame and the widths of its length fields. -/
structure BatchFits (limits : Limits) (records : List StoredEvent) : Prop where
  count : records.length ≤ limits.maxRecords
  each : ∀ record ∈ records, RecordFits limits record
  length : (batchBytes records).length ≤ limits.maxFrameBytes
  lengthWord : (batchBytes records).length < 2 ^ 32

theorem BatchFits.countWord {limits : Limits} {records : List StoredEvent}
    (fits : BatchFits limits records) : records.length < 2 ^ 32 := by
  have bound := fits.lengthWord
  have size := bodyBytes_length_ge records
  rw [batchBytes_length] at bound
  omega

/-- Encoding succeeds exactly on the batches that fit, with their frame as the result. -/
theorem encodeBatch_ok {records : List StoredEvent} {limits : Limits} {bytes : List UInt8} :
    encodeBatch records limits = .ok bytes ↔ BatchFits limits records ∧ batchBytes records = bytes := by
  unfold encodeBatch
  simp only [Except.bind_eq_ok, Except.refuseIf_ok, exists_const, Nat.not_lt, Nat.not_le, encodeLengths_ok,
    checkedAdd_ok, encodeBody_ok, List.nil_append, Nat.zero_add, pure, Except.pure, Except.ok.injEq]
  constructor
  · intro steps
    obtain ⟨count, _, ⟨each, rfl, _⟩, _, ⟨_, rfl⟩, length, lengthWord, _, _, ⟨_, rfl⟩, rfl⟩ := steps
    rw [← batchBytes_length] at length lengthWord
    exact ⟨⟨count, each, length, lengthWord⟩, rfl⟩
  · intro holds
    obtain ⟨fits, rfl⟩ := holds
    have length := fits.length
    have lengthWord := fits.lengthWord
    rw [batchBytes_length] at length lengthWord
    exact ⟨fits.count, _, ⟨fits.each, rfl, fun _ => by omega⟩, _, ⟨by omega, rfl⟩, length, lengthWord,
      fits.countWord, _, ⟨fun record member => ⟨(fits.each record member).payloadWord,
        (fits.each record member).causesWord⟩, rfl⟩, rfl⟩

end

theorem readEventId_ok {source epoch sequence : String} {input rest : List UInt8} {id : EventId} :
    readEventId source epoch sequence input = .ok (id, rest) ↔ input = eventIdBytes id ++ rest := by
  unfold readEventId
  simp only [bind_ok, readU32_ok, readU64_ok, pure_ok]
  constructor
  · intro steps
    obtain ⟨_, _, rfl, _, _, rfl, _, _, rfl, rfl, rfl⟩ := steps
    simp [eventIdBytes]
  · intro same
    subst same
    refine ⟨id.source, _, ?_, id.epoch, _, rfl, id.sequence, _, rfl, rfl, rfl⟩
    simp [eventIdBytes]

theorem readTimestamp_ok {clock ticks : String} {input rest : List UInt8} {timestamp : Timestamp} :
    readTimestamp clock ticks input = .ok (timestamp, rest) ↔ input = timestampBytes timestamp ++ rest := by
  unfold readTimestamp
  simp only [bind_ok, readU32_ok, readU64_ok, pure_ok]
  constructor
  · intro steps
    obtain ⟨_, _, rfl, _, _, rfl, rfl, rfl⟩ := steps
    simp [timestampBytes]
  · intro same
    subst same
    refine ⟨timestamp.clock, _, ?_, timestamp.ticks, _, rfl, rfl, rfl⟩
    simp [timestampBytes]

/-- Only the two known flag words pass the flag check. -/
theorem knownRecordFlags_iff (flags : UInt16) :
    flags &&& ~~~knownRecordFlags = 0 ↔ flags = noFlags ∨ flags = observedFlag := by
  constructor
  · intro clear
    have words : flags.toNat &&& 65534 = 0 := by
      have same := congrArg UInt16.toNat clear
      rw [UInt16.toNat_and] at same
      exact same
    have half : flags.toNat / 2 % 2 ^ 15 = 0 := by
      rw [← Nat.and_two_pow_sub_one_eq_mod, show 2 ^ 15 - 1 = 65534 / 2 from rfl, ← Nat.and_div_two, words]
    have bound : flags.toNat < 2 ^ 16 := flags.toNat_lt
    have bit : flags.toNat = 0 ∨ flags.toNat = 1 := by omega
    rcases bit with zero | one
    · exact Or.inl (UInt16.toNat_inj.mp zero)
    · exact Or.inr (UInt16.toNat_inj.mp one)
  · intro known
    rcases known with rfl | rfl <;> decide

/-- The optional timestamp is read exactly when its flag is set. -/
theorem readObserved_ok {flags : UInt16} (known : flags = noFlags ∨ flags = observedFlag)
    {input rest : List UInt8} {observed : Option Timestamp} :
    readObserved flags input = .ok (observed, rest) ↔
      flags = (if observed.isSome then observedFlag else noFlags) ∧
        input = (observed.map timestampBytes).getD [] ++ rest := by
  unfold readObserved
  rcases known with rfl | rfl
  · have unset : ¬noFlags &&& observedFlag ≠ 0 := by decide
    rw [if_neg unset, pure_ok]
    cases observed with
    | none => simp
    | some timestamp => simp [noFlags, observedFlag]
  · have set : observedFlag &&& observedFlag ≠ 0 := by decide
    rw [if_pos set, map_eq_pure_bind, bind_ok]
    simp only [readTimestamp_ok, pure_ok]
    cases observed with
    | none => simp [noFlags, observedFlag]
    | some timestamp => simp

/-- Decoding a record accepts exactly the encodings of the records that fit. -/
theorem decodeRecordBody_inverts (limits : Limits) :
    Inverts (decodeRecordBody limits) (RecordFits limits) recordBytes := by
  intro input record rest
  have readCauses : ∀ source epoch sequence, Inverts (readEventId source epoch sequence) (fun _ => True)
      eventIdBytes := fun _ _ _ _ _ _ => by rw [readEventId_ok, true_and]
  unfold decodeRecordBody
  simp only [bind_ok, readU16_ok, readU32_ok, readEventId_ok, readTimestamp_ok, refuseIf_ok, readFixed_ok,
    pure_ok, (readCauses _ _ _).readMany, not_not, Nat.not_lt, knownRecordFlags_iff]
  constructor
  · intro steps
    obtain ⟨id, _, rfl, shard, _, rfl, slot, _, rfl, generation, _, rfl, valid, _, rfl, known, _, rfl,
      schema, _, rfl, flags, _, rfl, _, _, ⟨flagsKnown, rfl⟩, causeCount, _, rfl, _, _, ⟨causesFit, rfl⟩,
      payloadLen, _, rfl, _, _, ⟨payloadFits, rfl⟩, observed, _, observedRead, causes, _, ⟨causesLen, _, rfl⟩,
      payload, _, ⟨payloadSize, rfl⟩, rfl, rfl⟩ := steps
    obtain ⟨rfl, rfl⟩ := (readObserved_ok flagsKnown).mp observedRead
    have causesWord := causeCount.toNat_lt
    have payloadWord := payloadLen.toNat_lt
    rw [← causesLen] at causesFit causesWord
    rw [← payloadSize] at payloadFits payloadWord
    refine ⟨⟨payloadFits, payloadWord, causesFit, causesWord⟩, ?_⟩
    simp [recordBytes, recordFlags, causesLen, payloadSize, UInt16.ofNat_toNat, UInt32.ofNat_toNat]
  · intro holds
    obtain ⟨fits, rfl⟩ := holds
    have flagsKnown : recordFlags record = noFlags ∨ recordFlags record = observedFlag := by
      unfold recordFlags
      split <;> simp
    have causeCount : (UInt16.ofNat record.causes.length).toNat = record.causes.length :=
      UInt16.toNat_ofNat_of_lt' fits.causesWord
    have payloadLen : (UInt32.ofNat record.payload.length).toNat = record.payload.length :=
      UInt32.toNat_ofNat_of_lt' fits.payloadWord
    refine ⟨record.id, _, ?_, record.entity.shard, _, rfl, record.entity.slot, _, rfl, record.entity.generation,
      _, rfl, record.times.valid, _, rfl, record.times.known, _, rfl, record.schema, _, rfl, recordFlags record,
      _, rfl, (), _, ⟨flagsKnown, rfl⟩, UInt16.ofNat record.causes.length, _, rfl, (), _,
      ⟨by rw [causeCount]; exact fits.causes, rfl⟩, UInt32.ofNat record.payload.length, _, rfl, (), _,
      ⟨by rw [payloadLen]; exact fits.payload, rfl⟩, record.times.observed, _,
      (readObserved_ok flagsKnown).mpr ⟨rfl, rfl⟩, record.causes, _, ⟨causeCount.symm, by simp, rfl⟩,
      record.payload, _, ⟨payloadLen.symm, rfl⟩, rfl, rfl⟩
    simp [recordBytes]

/-- The reader of a batch inverts its encoder on the body. -/
theorem readBody_ok {limits : Limits} {count : Nat} {body rest : List UInt8} {records : List StoredEvent} :
    readMany (decodeRecordBody limits) count body = .ok (records, rest) ↔
      records.length = count ∧ (∀ record ∈ records, RecordFits limits record) ∧
        body = bodyBytes records ++ rest :=
  (decodeRecordBody_inverts limits).readMany count body records rest

@[simp] theorem walMagic_length : walMagic.length = 4 := by simp [walMagic]

@[simp] theorem batchMagic_length : batchMagic.length = 4 := by simp [batchMagic]

@[simp] theorem segmentMagic_length : segmentMagic.length = 4 := by simp [segmentMagic]

@[simp] theorem segmentFooterMagic_length : segmentFooterMagic.length = 4 := by simp [segmentFooterMagic]

/-- The thirty-six bytes that the checksum of the log header covers. -/
def walFields (header : WalHeader) : List UInt8 :=
  walMagic ++ (le16 formatVersion ++ (le16 noFlags ++ (header.database.bytes ++ (le32 header.source ++
    le64 header.epoch))))

theorem walFields_length (header : WalHeader) : (walFields header).length = walChecksumOffset := by
  simp [walFields, header.database.length, walChecksumOffset]

/-- The twelve bytes that the checksum of the segment footer covers. -/
def footerFields : List UInt8 :=
  segmentFooterMagic ++ (le16 formatVersion ++ (le16 noFlags ++ le32 0))

theorem footerFields_length : footerFields.length = segmentFooterChecksumOffset := by
  simp [footerFields, segmentFooterChecksumOffset]

theorem foreignRecord_iff {header : WalHeader} {records : List StoredEvent} :
    ¬records.any (fun record => record.id.source != header.source || record.id.epoch != header.epoch) ↔
      ∀ record ∈ records, record.id.source = header.source ∧ record.id.epoch = header.epoch := by
  simp [not_or]

/-- Sixteen stored bytes give back the identity. -/
theorem databaseAt_bytes {bytes : List UInt8} {offset : Nat} {database : DatabaseId}
    (stored : slice bytes offset 16 = database.bytes) : databaseAt bytes offset = database := by
  obtain ⟨inner, length⟩ := database
  simp only [databaseAt, DatabaseId.mk.injEq, stored]
  rw [List.rightpad, length, Nat.sub_self, List.replicate_zero, List.append_nil]

section

variable [Crc32fast]

/-- The twenty bytes that the header checksum covers. -/
def frameFields (frameLen recordCount : Nat) (body : List UInt8) : List UInt8 :=
  batchMagic ++ le16 formatVersion ++ le16 noFlags ++ le32 (UInt32.ofNat frameLen) ++
    le32 (UInt32.ofNat recordCount) ++ le32 (Crc32fast.hash body)

theorem frameFields_length (frameLen recordCount : Nat) (body : List UInt8) :
    (frameFields frameLen recordCount body).length = batchHeaderChecksumOffset := by
  simp [frameFields, batchHeaderChecksumOffset]

theorem frameBytes_eq (frameLen recordCount : Nat) (body : List UInt8) :
    frameBytes frameLen recordCount body = frameFields frameLen recordCount body ++
      (le32 (Crc32fast.hash (frameFields frameLen recordCount body)) ++ body) := by
  simp only [frameBytes, frameFields, List.append_assoc]

theorem slice_frameFields {frameLen recordCount : Nat} {body rest : List UInt8} :
    slice (frameBytes frameLen recordCount body ++ rest) 0 batchHeaderChecksumOffset =
      frameFields frameLen recordCount body := by
  rw [frameBytes_eq, List.append_assoc, slice_append_left (frameFields_length _ _ _)]

/-- Each header field stands at its offset, whatever follows the frame. -/
theorem frameBytes_header {frame body rest : List UInt8} {frameLen recordCount : Nat}
    (starts : frame = frameBytes frameLen recordCount body ++ rest) :
    slice frame 0 4 = batchMagic ∧ getU16 frame 4 = formatVersion ∧ getU16 frame 6 = noFlags ∧
      getU32 frame 8 = UInt32.ofNat frameLen ∧ getU32 frame 12 = UInt32.ofNat recordCount ∧
      getU32 frame batchBodyChecksumOffset = Crc32fast.hash body ∧
      getU32 frame batchHeaderChecksumOffset = Crc32fast.hash (frameFields frameLen recordCount body) := by
  have layout : frame = batchMagic ++ (le16 formatVersion ++ (le16 noFlags ++ (le32 (UInt32.ofNat frameLen) ++
      (le32 (UInt32.ofNat recordCount) ++ (le32 (Crc32fast.hash body) ++
        (le32 (Crc32fast.hash (frameFields frameLen recordCount body)) ++ (body ++ rest))))))) := by
    rw [starts, frameBytes_eq]
    simp only [frameFields, List.append_assoc]
  rw [layout]
  refine ⟨?_, getU16_of_slice ?_, getU16_of_slice ?_, getU32_of_slice ?_, getU32_of_slice ?_,
    getU32_of_slice ?_, getU32_of_slice ?_⟩ <;>
    simp [slice_append_right, slice_append_left, batchBodyChecksumOffset, batchHeaderChecksumOffset]

/-- The header of a frame announces its length, whatever follows the frame. -/
theorem frameLength_frameBytes {limits : Limits} {recordCount : Nat} {body : List UInt8} (rest : List UInt8)
    (length : batchHeaderLen + body.length ≤ limits.maxFrameBytes)
    (lengthWord : batchHeaderLen + body.length < 2 ^ 32) (count : recordCount ≤ limits.maxRecords)
    (countWord : recordCount < 2 ^ 32) :
    frameLength (frameBytes (batchHeaderLen + body.length) recordCount body ++ rest) limits =
      .ok (batchHeaderLen + body.length) := by
  obtain ⟨magic, version, flags, frameLen, records, _, checksum⟩ :=
    frameBytes_header (rfl : frameBytes (batchHeaderLen + body.length) recordCount body ++ rest = _)
  have frameLenWord : (UInt32.ofNat (batchHeaderLen + body.length)).toNat = batchHeaderLen + body.length :=
    UInt32.toNat_ofNat_of_lt' lengthWord
  have recordsWord : (UInt32.ofNat recordCount).toNat = recordCount := UInt32.toNat_ofNat_of_lt' countWord
  unfold frameLength
  simp only [Except.bind_eq_ok, Except.refuseIf_ok, exists_const, pure, Except.pure, magic, version, flags,
    frameLen, records, checksum, slice_frameFields, frameLenWord, recordsWord, ne_eq, not_true_eq_false,
    not_false_eq_true, true_and, and_true, Nat.not_lt, List.length_append, frameBytes_length]
  exact ⟨by omega, by omega, length, count⟩

/-- A header that passes its checks is the header of some frame. -/
theorem frameLength_ok {bytes : List UInt8} {limits : Limits} {frameLen : Nat}
    (accepted : frameLength bytes limits = .ok frameLen) :
    batchHeaderLen ≤ bytes.length ∧ slice bytes 0 4 = batchMagic ∧ getU16 bytes 4 = formatVersion ∧
      getU16 bytes 6 = noFlags ∧
      getU32 bytes batchHeaderChecksumOffset = Crc32fast.hash (slice bytes 0 batchHeaderChecksumOffset) ∧
      (getU32 bytes 8).toNat = frameLen ∧ batchHeaderLen ≤ frameLen ∧ frameLen ≤ limits.maxFrameBytes ∧
      (getU32 bytes 12).toNat ≤ limits.maxRecords := by
  unfold frameLength at accepted
  simp only [Except.bind_eq_ok, Except.refuseIf_ok, exists_const, pure, Except.pure, Except.ok.injEq,
    Nat.not_lt, not_not] at accepted
  obtain ⟨enough, magic, version, flags, checksum, lower, upper, count, rfl⟩ := accepted
  exact ⟨enough, magic, version, flags, checksum, rfl, lower, upper, count⟩

/-- The bytes of an accepted frame are its canonical header and its body. -/
theorem frameBytes_of_header {bytes : List UInt8} (enough : batchHeaderLen ≤ bytes.length)
    (magic : slice bytes 0 4 = batchMagic) (version : getU16 bytes 4 = formatVersion)
    (flags : getU16 bytes 6 = noFlags)
    (body : getU32 bytes batchBodyChecksumOffset = Crc32fast.hash (bytes.drop batchHeaderLen))
    (checksum : getU32 bytes batchHeaderChecksumOffset =
      Crc32fast.hash (slice bytes 0 batchHeaderChecksumOffset)) :
    bytes = frameBytes (getU32 bytes 8).toNat (getU32 bytes 12).toNat (bytes.drop batchHeaderLen) := by
  have long : 24 ≤ bytes.length := enough
  have fields : slice bytes 0 batchHeaderChecksumOffset =
      frameFields (getU32 bytes 8).toNat (getU32 bytes 12).toNat (bytes.drop batchHeaderLen) := by
    rw [frameFields, ← body, UInt32.ofNat_toNat, UInt32.ofNat_toNat, ← magic, ← version, ← flags,
      le16_getU16 (by omega), le16_getU16 (by omega), le32_getU32 (by omega), le32_getU32 (by omega),
      le32_getU32 (by simp only [batchBodyChecksumOffset]; omega)]
    change slice bytes 0 (4 + 2 + 2 + 4 + 4 + 4) = _
    rw [slice_add, slice_add, slice_add, slice_add, slice_add]
    rfl
  have tail : slice bytes batchHeaderChecksumOffset 4 ++ bytes.drop batchHeaderLen =
      bytes.drop (0 + batchHeaderChecksumOffset) := (drop_eq_slice_append bytes batchHeaderChecksumOffset 4).symm
  rw [frameBytes_eq, ← fields, ← checksum, le32_getU32 (by simp only [batchHeaderChecksumOffset]; omega), tail,
    ← drop_eq_slice_append, List.drop_zero]

/-- Decoding accepts exactly the frames of the batches that fit. -/
theorem decodeBatch_ok {bytes : List UInt8} {limits : Limits} {records : List StoredEvent} :
    decodeBatch bytes limits = .ok records ↔ BatchFits limits records ∧ batchBytes records = bytes := by
  constructor
  · intro accepted
    unfold decodeBatch at accepted
    simp only [Except.bind_eq_ok, Except.refuseIf_ok, exists_const, pure, Except.pure, Except.ok.injEq,
      Nat.not_lt, not_not, Prod.exists, readBody_ok] at accepted
    obtain ⟨frameLen, framed, short, long, body, records, _, ⟨count, each, bodyEq⟩, rfl, rfl⟩ := accepted
    obtain ⟨enough, magic, version, flags, checksum, lengthEq, _, lengthFits, countFits⟩ := frameLength_ok framed
    have canonical := frameBytes_of_header enough magic version flags body checksum
    rw [List.append_nil] at bodyEq
    have size : batchHeaderLen + (bodyBytes records).length = bytes.length := by
      rw [← bodyEq, List.length_drop]
      omega
    have same : batchBytes records = bytes := by
      rw [batchBytes, canonical, lengthEq, ← count, bodyEq, size]
      congr 1
      omega
    have frameWord := (getU32 bytes 8).toNat_lt
    refine ⟨⟨by omega, each, ?_, ?_⟩, same⟩ <;> rw [same] <;> omega
  · intro holds
    obtain ⟨fits, rfl⟩ := holds
    have length := fits.length
    have lengthWord := fits.lengthWord
    rw [batchBytes_length] at length lengthWord
    have framed := frameLength_frameBytes [] length lengthWord fits.count fits.countWord
    obtain ⟨_, _, _, _, count, body, _⟩ := frameBytes_header (List.append_nil (batchBytes records)).symm
    rw [List.append_nil] at framed
    have countEq : (UInt32.ofNat records.length).toNat = records.length :=
      UInt32.toNat_ofNat_of_lt' fits.countWord
    have dropped : (batchBytes records).drop batchHeaderLen = bodyBytes records := by
      rw [batchBytes, frameBytes_eq, ← List.append_assoc]
      apply List.drop_left'
      rw [List.length_append, frameFields_length, le32_length]
      rfl
    unfold decodeBatch
    simp only [Except.bind_eq_ok, Except.refuseIf_ok, exists_const, pure, Except.pure, Except.ok.injEq,
      Nat.not_lt, not_not, Prod.exists, readBody_ok, dropped]
    refine ⟨_, framed, ?_, ?_, body, records, [], ⟨?_, fits.each, by simp⟩, rfl, rfl⟩
    · rw [batchBytes_length]
    · rw [batchBytes_length]
    · rw [count, countEq]

/-- The announced length depends on the twenty-four header bytes alone. -/
theorem frameLength_take {bytes : List UInt8} {limits : Limits} (enough : batchHeaderLen ≤ bytes.length) :
    frameLength (bytes.take batchHeaderLen) limits = frameLength bytes limits := by
  have header : ∀ offset count, offset + count ≤ batchHeaderLen →
      slice (bytes.take batchHeaderLen) offset count = slice bytes offset count :=
    fun offset count inside => slice_take inside
  have size : (bytes.take batchHeaderLen).length = batchHeaderLen := List.length_take_of_le enough
  have half : ∀ offset, offset + 2 ≤ batchHeaderLen →
      getU16 (bytes.take batchHeaderLen) offset = getU16 bytes offset := by
    intro offset inside
    rw [getU16, header offset 2 inside, getU16]
  have word : ∀ offset, offset + 4 ≤ batchHeaderLen →
      getU32 (bytes.take batchHeaderLen) offset = getU32 bytes offset := by
    intro offset inside
    rw [getU32, header offset 4 inside, getU32]
  unfold frameLength
  rw [Except.refuseIf_bind (by rw [size]; exact Nat.lt_irrefl _), Except.refuseIf_bind (Nat.not_lt.mpr enough),
    header 0 4 (by decide), half 4 (by decide), half 6 (by decide), word 8 (by decide), word 12 (by decide),
    word batchHeaderChecksumOffset (by decide), header 0 batchHeaderChecksumOffset (by decide)]

/-- The frame of a batch that fits announces its own length, whatever follows it. -/
theorem frameLength_batchBytes {records : List StoredEvent} {limits : Limits} {rest : List UInt8}
    (fits : BatchFits limits records) :
    frameLength (batchBytes records ++ rest) limits = .ok (batchBytes records).length := by
  have length := fits.length
  have lengthWord := fits.lengthWord
  rw [batchBytes_length] at length lengthWord ⊢
  exact frameLength_frameBytes rest length lengthWord fits.count fits.countWord

theorem encodeWalHeader_eq (header : WalHeader) :
    encodeWalHeader header = walFields header ++ le32 (Crc32fast.hash (walFields header)) := by
  simp only [encodeWalHeader, walFields, List.append_assoc]

theorem encodeWalHeader_length (header : WalHeader) : (encodeWalHeader header).length = walHeaderLen := by
  rw [encodeWalHeader_eq, List.length_append, walFields_length, le32_length, walChecksumOffset, walHeaderLen]

/-- Decoding gives back the identity that the log header encodes. -/
theorem decodeWalHeader_encodeWalHeader (header : WalHeader) :
    decodeWalHeader (encodeWalHeader header) = .ok header := by
  have size := encodeWalHeader_length header
  have fields : slice (encodeWalHeader header) 0 walChecksumOffset = walFields header := by
    rw [encodeWalHeader_eq, slice_append_left (walFields_length header)]
  have checksum : getU32 (encodeWalHeader header) walChecksumOffset = Crc32fast.hash (walFields header) := by
    apply getU32_of_slice
    rw [encodeWalHeader_eq, slice_append_right (walFields_length header).le, walFields_length, Nat.sub_self]
    simp [slice]
  have inner : ∀ offset count, offset + count ≤ walChecksumOffset →
      slice (encodeWalHeader header) offset count = slice (walFields header) offset count := by
    intro offset count inside
    rw [← fields, slice.eq_1 _ 0, List.drop_zero, slice_take inside]
  have magic : slice (encodeWalHeader header) 0 4 = walMagic := by
    rw [inner 0 4 (by decide), walFields, slice_append_left walMagic_length]
  have version : getU16 (encodeWalHeader header) 4 = formatVersion := by
    apply getU16_of_slice
    rw [inner 4 2 (by decide)]
    simp [walFields, slice_append_right, slice_append_left]
  have flags : getU16 (encodeWalHeader header) 6 = noFlags := by
    apply getU16_of_slice
    rw [inner 6 2 (by decide)]
    simp [walFields, slice_append_right, slice_append_left]
  have database : databaseAt (encodeWalHeader header) 8 = header.database := by
    apply databaseAt_bytes
    rw [inner 8 16 (by decide)]
    simp [walFields, slice_append_right, slice_append_left, header.database.length]
  have source : getU32 (encodeWalHeader header) 24 = header.source := by
    apply getU32_of_slice
    rw [inner 24 4 (by decide)]
    simp [walFields, slice_append_right, slice_append_left, header.database.length]
  have epoch : getU64 (encodeWalHeader header) 28 = header.epoch := by
    apply getU64_of_slice
    rw [inner 28 8 (by decide)]
    simp [walFields, slice_append_right, slice_all, header.database.length]
  unfold decodeWalHeader
  simp only [Except.bind_eq_ok, Except.refuseIf_ok, exists_const, pure, Except.pure, size, magic, version, flags,
    checksum, fields, database, source, epoch, lt_self_iff_false, ne_eq, not_true_eq_false, not_false_eq_true,
    true_and]

/-- The forty-eight bytes that the checksum of the segment header covers. -/
def segmentFields (header : WalHeader) (recordCount : Nat) (batch : List UInt8) : List UInt8 :=
  segmentMagic ++ (le16 formatVersion ++ (le16 noFlags ++ (header.database.bytes ++ (le32 header.source ++
    (le64 header.epoch ++ (le32 (UInt32.ofNat batch.length) ++ (le32 (UInt32.ofNat recordCount) ++
      le32 (Crc32fast.hash batch))))))))

theorem segmentFields_length (header : WalHeader) (recordCount : Nat) (batch : List UInt8) :
    (segmentFields header recordCount batch).length = segmentHeaderChecksumOffset := by
  simp [segmentFields, header.database.length, segmentHeaderChecksumOffset]

theorem segmentBytes_eq (header : WalHeader) (recordCount : Nat) (batch : List UInt8) :
    segmentBytes header recordCount batch = segmentFields header recordCount batch ++
      (le32 (Crc32fast.hash (segmentFields header recordCount batch)) ++
        (batch ++ (footerFields ++ le32 (Crc32fast.hash footerFields)))) := by
  simp only [segmentBytes, segmentFields, footerFields, List.append_assoc]

theorem segmentBytes_length (header : WalHeader) (recordCount : Nat) (batch : List UInt8) :
    (segmentBytes header recordCount batch).length = segmentHeaderLen + batch.length + segmentFooterLen := by
  simp only [segmentBytes_eq, List.length_append, segmentFields_length, footerFields_length, le32_length,
    segmentHeaderChecksumOffset, segmentFooterChecksumOffset, segmentHeaderLen, segmentFooterLen]
  omega

/-- The header fields of a segment stand at their offsets. -/
theorem segmentBytes_header (header : WalHeader) (recordCount : Nat) (batch : List UInt8) :
    let bytes := segmentBytes header recordCount batch
    slice bytes 0 4 = segmentMagic ∧ getU16 bytes 4 = formatVersion ∧ getU16 bytes 6 = noFlags ∧
      databaseAt bytes 8 = header.database ∧ getU32 bytes 24 = header.source ∧ getU64 bytes 28 = header.epoch ∧
      getU32 bytes segmentBodyLenOffset = UInt32.ofNat batch.length ∧
      getU32 bytes segmentRecordCountOffset = UInt32.ofNat recordCount ∧
      getU32 bytes segmentBodyChecksumOffset = Crc32fast.hash batch := by
  intro bytes
  have inner : ∀ offset count, offset + count ≤ segmentHeaderChecksumOffset →
      slice bytes offset count = slice (segmentFields header recordCount batch) offset count := by
    intro offset count inside
    have fields : bytes.take segmentHeaderChecksumOffset = segmentFields header recordCount batch := by
      rw [show bytes = _ from segmentBytes_eq header recordCount batch,
        ← segmentFields_length header recordCount batch, List.take_left]
    rw [← fields, slice_take inside]
  refine ⟨?_, getU16_of_slice ?_, getU16_of_slice ?_, databaseAt_bytes ?_, getU32_of_slice ?_,
    getU64_of_slice ?_, getU32_of_slice ?_, getU32_of_slice ?_, getU32_of_slice ?_⟩
  all_goals
    rw [inner _ _ (by decide), segmentFields]
    simp [slice_append_right, slice_append_left, slice_all, header.database.length, segmentBodyLenOffset,
      segmentRecordCountOffset, segmentBodyChecksumOffset]

/-- The two checksummed parts of a segment and the batch between them can be read back. -/
theorem segmentBytes_parts (header : WalHeader) (recordCount : Nat) (batch : List UInt8) :
    let bytes := segmentBytes header recordCount batch
    slice bytes 0 segmentHeaderChecksumOffset = segmentFields header recordCount batch ∧
      getU32 bytes segmentHeaderChecksumOffset = Crc32fast.hash (segmentFields header recordCount batch) ∧
      slice bytes segmentHeaderLen batch.length = batch ∧
      ∀ offset count, slice bytes (segmentHeaderLen + batch.length + offset) count =
        slice (footerFields ++ le32 (Crc32fast.hash footerFields)) offset count := by
  intro bytes
  have layout : bytes = segmentFields header recordCount batch ++
      (le32 (Crc32fast.hash (segmentFields header recordCount batch)) ++
        (batch ++ (footerFields ++ le32 (Crc32fast.hash footerFields)))) := segmentBytes_eq _ _ _
  have size := segmentFields_length header recordCount batch
  have headerLen : segmentHeaderLen = segmentHeaderChecksumOffset + 4 := rfl
  refine ⟨?_, getU32_of_slice ?_, ?_, fun offset count => ?_⟩
  · rw [layout, slice_append_left size]
  · rw [layout, slice_append_right (by omega), size, Nat.sub_self, slice_append_left (le32_length _)]
  · rw [layout, slice_append_right (by omega), size, slice_append_right (by simp [headerLen]), le32_length, headerLen,
      Nat.add_sub_cancel_left, Nat.sub_self, slice_append_left rfl]
  · rw [layout, slice_append_right (by omega), size, slice_append_right (by simp [headerLen]; omega), le32_length,
      slice_append_right (by omega)]
    congr 1
    omega

/-- The batch fits a segment of its own. -/
structure SegmentFits (header : WalHeader) (limits : Limits) (records : List StoredEvent) : Prop where
  identity : ∀ record ∈ records, record.id.source = header.source ∧ record.id.epoch = header.epoch
  batch : BatchFits limits records
  room : segmentHeaderLen + (batchBytes records).length + segmentFooterLen ≤ limits.maxSegmentBytes

/-- Encoding a segment succeeds exactly on the batches that fit one. -/
theorem encodeSegment_ok {header : WalHeader} {records : List StoredEvent} {limits : Limits} {bytes : List UInt8} :
    encodeSegment header records limits = .ok bytes ↔
      SegmentFits header limits records ∧ segmentBytes header records.length (batchBytes records) = bytes := by
  unfold encodeSegment
  simp only [Except.bind_eq_ok, Except.refuseIf_ok, exists_const, foreignRecord_iff, encodeBatch_ok, checkedAdd_ok,
    Nat.not_le, Nat.not_lt, pure, Except.pure, Except.ok.injEq]
  constructor
  · intro steps
    obtain ⟨identity, _, ⟨fits, rfl⟩, _, _, _, ⟨_, rfl⟩, _, ⟨_, rfl⟩, room, same⟩ := steps
    exact ⟨⟨identity, fits, room⟩, same⟩
  · intro holds
    obtain ⟨⟨identity, fits, room⟩, same⟩ := holds
    have word := fits.lengthWord
    have headerLen : segmentHeaderLen = 52 := rfl
    have footerLen : segmentFooterLen = 16 := rfl
    exact ⟨identity, _, ⟨fits, rfl⟩, word, fits.countWord, _, ⟨by omega, rfl⟩, _, ⟨by omega, rfl⟩, room, same⟩

/-- Decoding gives back the identity and the records that a segment holds. -/
theorem decodeSegment_segmentBytes {header : WalHeader} {records : List StoredEvent} {limits : Limits}
    (fits : SegmentFits header limits records) :
    decodeSegment (segmentBytes header records.length (batchBytes records)) limits = .ok ⟨header, records⟩ := by
  obtain ⟨magic, version, flags, database, source, epoch, bodyLen, count, checksum⟩ :=
    segmentBytes_header header records.length (batchBytes records)
  obtain ⟨fields, headerSum, body, footer⟩ := segmentBytes_parts header records.length (batchBytes records)
  have size := segmentBytes_length header records.length (batchBytes records)
  have bodyWord : (UInt32.ofNat (batchBytes records).length).toNat = (batchBytes records).length :=
    UInt32.toNat_ofNat_of_lt' fits.batch.lengthWord
  have countWord : (UInt32.ofNat records.length).toNat = records.length :=
    UInt32.toNat_ofNat_of_lt' fits.batch.countWord
  have footerStart := footer 0
  rw [Nat.add_zero] at footerStart
  have footerMagic : slice (footerFields ++ le32 (Crc32fast.hash footerFields)) 0 4 = segmentFooterMagic := by
    simp [footerFields, slice_append_left]
  have footerSum : slice (footerFields ++ le32 (Crc32fast.hash footerFields)) 0 segmentFooterChecksumOffset =
      footerFields := slice_append_left footerFields_length
  have footerVersion : getU16 (segmentBytes header records.length (batchBytes records))
      (segmentHeaderLen + (batchBytes records).length + 4) = formatVersion := by
    apply getU16_of_slice
    rw [footer]
    simp [footerFields, slice_append_right, slice_append_left]
  have footerFlags : getU16 (segmentBytes header records.length (batchBytes records))
      (segmentHeaderLen + (batchBytes records).length + 6) = noFlags := by
    apply getU16_of_slice
    rw [footer]
    simp [footerFields, slice_append_right, slice_append_left]
  have directory : getU32 (segmentBytes header records.length (batchBytes records))
      (segmentHeaderLen + (batchBytes records).length + segmentFooterDirLenOffset) = 0 := by
    apply getU32_of_slice
    rw [footer]
    simp [footerFields, slice_append_right, slice_append_left, segmentFooterDirLenOffset]
  have footerChecksum : getU32 (segmentBytes header records.length (batchBytes records))
      (segmentHeaderLen + (batchBytes records).length + segmentFooterChecksumOffset) =
        Crc32fast.hash footerFields := by
    apply getU32_of_slice
    rw [footer, slice_append_right footerFields_length.le, footerFields_length, Nat.sub_self,
      slice_all (le32_length _)]
  have decoded : decodeBatch (batchBytes records) limits = .ok records := decodeBatch_ok.mpr ⟨fits.batch, rfl⟩
  have long := batchBytes_length records
  have word := fits.batch.lengthWord
  have room := fits.room
  have headerLen : segmentHeaderLen = 52 := rfl
  have footerLen : segmentFooterLen = 16 := rfl
  unfold decodeSegment
  simp only [Except.bind_eq_ok, Except.refuseIf_ok, exists_const, pure, Except.pure, checkedAdd_ok, magic, version,
    flags, database, source, epoch, bodyLen, count, checksum, fields, headerSum, body, footerStart, footerMagic,
    footerSum, footerVersion, footerFlags, directory, footerChecksum, bodyWord, countWord, size, decoded,
    foreignRecord_iff, ne_eq, not_true_eq_false, not_false_eq_true, true_and, Nat.not_lt, Except.ok.injEq]
  exact ⟨by omega, _, ⟨by omega, rfl⟩, _, ⟨by omega, rfl⟩, room, le_rfl, le_rfl, by omega, fits.batch.count, _, rfl,
    not_not.mpr rfl, fits.identity, rfl⟩

/-- Two batches that fit some limits each have different frames. -/
theorem batchBytes_injective {limits other : Limits} {records others : List StoredEvent}
    (fits : BatchFits limits records) (fits' : BatchFits other others) (same : batchBytes records = batchBytes others) :
    records = others := by
  let both : Limits := ⟨max limits.maxFrameBytes other.maxFrameBytes, max limits.maxRecords other.maxRecords,
    max limits.maxPayloadBytes other.maxPayloadBytes, max limits.maxCauses other.maxCauses, 0⟩
  have first : BatchFits both records := {
    count := fits.count.trans (Nat.le_max_left _ _)
    each := fun record member => {
      payload := (fits.each record member).payload.trans (Nat.le_max_left _ _)
      payloadWord := (fits.each record member).payloadWord
      causes := (fits.each record member).causes.trans (Nat.le_max_left _ _)
      causesWord := (fits.each record member).causesWord }
    length := fits.length.trans (Nat.le_max_left _ _)
    lengthWord := fits.lengthWord }
  have second : BatchFits both others := {
    count := fits'.count.trans (Nat.le_max_right _ _)
    each := fun record member => {
      payload := (fits'.each record member).payload.trans (Nat.le_max_right _ _)
      payloadWord := (fits'.each record member).payloadWord
      causes := (fits'.each record member).causes.trans (Nat.le_max_right _ _)
      causesWord := (fits'.each record member).causesWord }
    length := fits'.length.trans (Nat.le_max_right _ _)
    lengthWord := fits'.lengthWord }
  have decoded := decodeBatch_ok.mpr ⟨first, rfl⟩
  rw [same, decodeBatch_ok.mpr ⟨second, rfl⟩] at decoded
  exact (Except.ok.inj decoded).symm

/-- A segment that was sealed under some limits is accepted under others exactly when it fits them. -/
theorem SegmentFits.decodeSegment_ok {header : WalHeader} {limits other : Limits} {records : List StoredEvent}
    {segment : Segment} (fits : SegmentFits header other records)
    (accepted : decodeSegment (segmentBytes header records.length (batchBytes records)) limits = .ok segment) :
    SegmentFits header limits records := by
  obtain ⟨magic, version, flags, database, source, epoch, bodyLen, count, checksum⟩ :=
    segmentBytes_header header records.length (batchBytes records)
  obtain ⟨fields, headerSum, body, footer⟩ := segmentBytes_parts header records.length (batchBytes records)
  have bodyWord : (UInt32.ofNat (batchBytes records).length).toNat = (batchBytes records).length :=
    UInt32.toNat_ofNat_of_lt' fits.batch.lengthWord
  unfold decodeSegment at accepted
  simp only [Except.bind_eq_ok, Except.refuseIf_ok, exists_const, checkedAdd_ok, bodyLen, bodyWord, body] at accepted
  obtain ⟨-, -, -, -, -, -, ⟨-, rfl⟩, -, ⟨-, rfl⟩, room, -, -, -, -, -, -, -, -, -, -, embedded⟩ := accepted
  obtain ⟨others, batch⟩ : ∃ others, decodeBatch (batchBytes records) limits = .ok others := by
    revert embedded
    split
    · intro failed
      cases failed
    · intro checked
      obtain ⟨others, decoded, -⟩ := Except.bind_eq_ok.mp checked
      exact ⟨others, decoded⟩
  obtain ⟨fitting, same⟩ := decodeBatch_ok.mp batch
  obtain rfl := batchBytes_injective fitting fits.batch same
  exact ⟨fits.identity, fitting, Nat.not_lt.mp room⟩

end

end Temnion.Format
