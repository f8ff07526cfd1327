import Temnion.Format.RoundTrip
import Temnion.Index.Summary
import Temnion.Library.Moving

/-
This file reads the summary of a segment from its bytes.
-/

namespace Temnion.Index

open Format LittleEndian Slices Moving

/-- Sixty-four bytes of a filter. -/
def filterOf (bits : List UInt8) : EntityBloomFilter := ⟨Vector.ofFn fun place => bits.getD place 0⟩

def readZone (body : List UInt8) : Moving IndexError TimestampZoneMap := do
  let clock ← takeU32 body
  let minTicks ← takeU64 body
  let maxTicks ← takeU64 body
  return ⟨clock, minTicks, maxTicks⟩

def readCorner (body : List UInt8) : Moving IndexError EntityId := do
  let shard ← takeU32 body
  let slot ← takeU32 body
  let generation ← takeU32 body
  return ⟨shard, slot, generation⟩

def readBlock (body : List UInt8) : Moving IndexError BlockSummary := do
  let batchIndex ← takeU32 body
  let recordCount ← takeU32 body
  let byteOffset ← takeU64 body
  let byteLength ← takeU32 body
  let seqMin ← takeU64 body
  let seqMax ← takeU64 body
  let validTimeRange ← readZone body
  let knownTimeRange ← readZone body
  let entityMin ← readCorner body
  let entityMax ← readCorner body
  let schemaMask ← takeU64 body
  let bloomBits ← takeSlice body 64
  return ⟨batchIndex, recordCount, byteOffset, byteLength, ⟨seqMin, seqMax⟩, validTimeRange, knownTimeRange,
    ⟨entityMin, entityMax⟩, filterOf bloomBits, schemaMask⟩

def blockLen : Nat := 172

/-- The stored total is not used. It is counted again. -/
def readSummary (body : List UInt8) : Moving IndexError SegmentSummary := do
  let database ← takeSlice body 16
  let source ← takeU32 body
  let epoch ← takeU64 body
  let _ ← takeU64 body
  let blockCount ← takeU32 body
  room body (blockCount.toNat * blockLen) (.format "truncated block summaries")
  let blocks ← many (readBlock body) blockCount.toNat
  liftM ((SegmentSummary.new (databaseAt database 0) source epoch blocks).mapError Fault.refused)

section Blocks

variable (body : List UInt8)

theorem filterOf_bits (filter : EntityBloomFilter) : filterOf filter.bits.toList = filter := by
  obtain ⟨bits⟩ := filter
  have same : (Vector.ofFn fun place : Fin 64 => bits.toList.getD place 0) = bits := by
    apply Vector.ext
    intro place inside
    rw [Vector.getElem_ofFn, List.getD_eq_getElem?_getD, List.getElem?_eq_getElem (by simpa using inside)]
    exact Vector.getElem_toList _
  exact congrArg EntityBloomFilter.mk same

theorem reads_zone (zone : TimestampZoneMap) : Reads body (readZone body) (SegmentSummary.zoneBytes zone) zone := by
  rw [SegmentSummary.zoneBytes, List.append_assoc]
  exact (reads_takeU32 body _).bind ((reads_takeU64 body _).bind (reads_takeU64 body _).bind_pure)

theorem reads_corner (entity : EntityId) : Reads body (readCorner body) (SegmentSummary.entityBytes entity) entity := by
  rw [SegmentSummary.entityBytes, List.append_assoc]
  exact (reads_takeU32 body _).bind ((reads_takeU32 body _).bind (reads_takeU32 body _).bind_pure)

/-- A block is read as it was written. -/
theorem reads_block (block : BlockSummary) : Reads body (readBlock body) (SegmentSummary.blockBytes block) block := by
  have bits := @reads_takeSlice IndexError body block.entityBloom.bits.toList
  have last := @Reads.bind_pure IndexError _ _ body _ _ _ (fun bloomBits => (⟨block.batchIndex, block.recordCount,
    block.byteOffset, block.byteLength, ⟨block.sequenceRange.min, block.sequenceRange.max⟩, block.validTimeRange,
    block.knownTimeRange, ⟨block.entityRange.min, block.entityRange.max⟩, filterOf bloomBits, block.schemaMask⟩ :
      BlockSummary)) bits
  rw [filterOf_bits, Vector.length_toList] at last
  simp only [SegmentSummary.blockBytes, List.append_assoc]
  apply (reads_takeU32 body block.batchIndex).bind
  apply (reads_takeU32 body block.recordCount).bind
  apply (reads_takeU64 body block.byteOffset).bind
  apply (reads_takeU32 body block.byteLength).bind
  apply (reads_takeU64 body block.sequenceRange.min).bind
  apply (reads_takeU64 body block.sequenceRange.max).bind
  apply (reads_zone body block.validTimeRange).bind
  apply (reads_zone body block.knownTimeRange).bind
  apply (reads_corner body block.entityRange.min).bind
  apply (reads_corner body block.entityRange.max).bind
  apply (reads_takeU64 body block.schemaMask).bind
  exact last

theorem takes_zone : Takes body (readZone body) 20 :=
  (takes_u32 body).bind fun _ => (takes_u64 body).bind fun _ => (takes_u64 body).bind fun _ => Takes.pure body _

theorem takes_corner : Takes body (readCorner body) 12 :=
  (takes_u32 body).bind fun _ => (takes_u32 body).bind fun _ => (takes_u32 body).bind fun _ => Takes.pure body _

/-- A block takes 172 bytes. -/
theorem takes_block : Takes body (readBlock body) blockLen :=
  (takes_u32 body).bind fun _ => (takes_u32 body).bind fun _ => (takes_u64 body).bind fun _ => (takes_u32 body).bind
    fun _ => (takes_u64 body).bind fun _ => (takes_u64 body).bind fun _ => (takes_zone body).bind fun _ =>
    (takes_zone body).bind fun _ => (takes_corner body).bind fun _ => (takes_corner body).bind fun _ =>
    (takes_u64 body).bind fun _ => (takes_slice body 64).bind fun _ => Takes.pure body _

theorem blockBytes_length (block : BlockSummary) : (SegmentSummary.blockBytes block).length = blockLen := by
  simp [SegmentSummary.blockBytes, SegmentSummary.zoneBytes, SegmentSummary.entityBytes, blockLen]

theorem blocks_length (blocks : List BlockSummary) :
    (blocks.flatMap SegmentSummary.blockBytes).length = blocks.length * blockLen := by
  rw [List.length_flatMap, List.map_congr_left fun block _ => blockBytes_length block, List.map_const', List.sum_replicate,
    smul_eq_mul]

end Blocks

namespace SegmentSummary

def body (summary : SegmentSummary) : List UInt8 :=
  summary.database.bytes ++ (le32 summary.source ++ (le64 summary.epoch ++ (le64 summary.totalRecords ++
    (le32 (UInt32.ofNat summary.blocks.length) ++ summary.blocks.flatMap blockBytes))))

theorem new_fields {database : DatabaseId} {source : SourceId} {epoch : SourceEpoch} {blocks : List BlockSummary}
    {summary : SegmentSummary} (created : new database source epoch blocks = .ok summary) :
    summary.database = database ∧ summary.source = source ∧ summary.epoch = epoch ∧ summary.blocks = blocks := by
  cases blocks with
  | nil => cases created
  | cons first rest =>
      rw [← Except.ok.inj created]
      exact ⟨rfl, rfl, rfl, rfl⟩

/-- The body of a summary is read as the summary that its blocks have. -/
theorem reads_summary {summary : SegmentSummary} (bytes : List UInt8)
    (created : new summary.database summary.source summary.epoch summary.blocks = .ok summary)
    (few : summary.blocks.length < 2 ^ 32) : Reads bytes (readSummary bytes) summary.body summary := by
  have count : (UInt32.ofNat summary.blocks.length).toNat = summary.blocks.length := UInt32.toNat_ofNat_of_lt' few
  have database := @reads_takeSlice IndexError bytes summary.database.bytes
  rw [summary.database.length] at database
  have whole : slice summary.database.bytes 0 16 = summary.database.bytes := by
    rw [slice, List.drop_zero, List.take_of_length_le (Nat.le_of_eq summary.database.length)]
  apply database.bind
  apply (reads_takeU32 bytes summary.source).bind
  apply (reads_takeU64 bytes summary.epoch).bind
  apply (reads_takeU64 bytes summary.totalRecords).bind
  apply (reads_takeU32 bytes _).bind
  apply Reads.room
  · rw [databaseAt_bytes whole, count]
    have blocks := (Reads.many fun block _ => reads_block bytes block : Reads bytes _ (summary.blocks.flatMap blockBytes) _)
    rw [← List.append_nil (summary.blocks.flatMap blockBytes)]
    apply blocks.bind
    rw [created]
    exact Reads.pure bytes summary
  · rw [count, blocks_length]

variable [Crc32fast]

/-- Bytes behind the last block are not looked at. -/
def decode (bytes : List UInt8) : Parse IndexError SegmentSummary := do
  refuseIf (bytes.length < 50) (.refused (.format "summary payload too short for header"))
  let magic ← sliceAt bytes 0 4
  refuseIf (magic ≠ summaryMagic) (.refused .invalidMagic)
  let version ← u16At bytes 4
  refuseIf (version ≠ summaryVersion) (.refused (.unsupportedVersion version))
  let expected ← u32At bytes 6
  let body ← sliceAt bytes 10 bytes.length
  refuseIf (Crc32fast.hash body ≠ expected) (.refused .checksumMismatch)
  let (summary, _) ← readSummary body 0
  return summary

theorem encode_eq (summary : SegmentSummary) : summary.encode =
    summaryMagic ++ (le16 summaryVersion ++ (le32 (Crc32fast.hash summary.body) ++ summary.body)) := by
  have same : summary.database.bytes ++ le32 summary.source ++ le64 summary.epoch ++ le64 summary.totalRecords ++
      le32 (UInt32.ofNat summary.blocks.length) ++ summary.blocks.flatMap blockBytes = summary.body := by
    simp only [body, List.append_assoc]
  unfold encode
  dsimp only
  rw [same, List.append_assoc, List.append_assoc]

theorem decode_encode {summary : SegmentSummary}
    (created : new summary.database summary.source summary.epoch summary.blocks = .ok summary)
    (few : summary.blocks.length < 2 ^ 32) : decode summary.encode = .ok summary := by
  have least : 40 ≤ summary.body.length := by
    simp only [body, List.length_append, summary.database.length, le32_length, le64_length]
    omega
  have length : summary.encode.length = 10 + summary.body.length := by
    have magic : summaryMagic.length = 4 := rfl
    simp only [encode_eq, List.length_append, le16_length, le32_length, magic]
    omega
  obtain ⟨checksum, hashed⟩ : ∃ checksum, Crc32fast.hash summary.body = checksum := ⟨_, rfl⟩
  have whole : Ahead summary.encode 0 (summaryMagic ++ (le16 summaryVersion ++ (le32 checksum ++ (summary.body ++ [])))) := by
    rw [List.append_nil, ← hashed, ← encode_eq]
    exact ahead_start summary.encode
  obtain ⟨magic, ahead⟩ := whole.slice IndexError (rfl : _ = 4)
  obtain ⟨version, ahead⟩ := ahead.u16 IndexError rfl
  obtain ⟨expected, ahead⟩ := ahead.u32 IndexError (rfl : _ = 10)
  obtain ⟨body, _⟩ := ahead.slice IndexError length.symm
  have read := reads_summary summary.body created few 0 [] (ahead_start summary.body).last
  rw [decode, Except.refuseIf_bind (by omega), magic, Except.ok_bind, Except.refuseIf_bind (not_not.mpr rfl), version,
    Except.ok_bind, Except.refuseIf_bind (not_not.mpr rfl), expected, Except.ok_bind, body, Except.ok_bind,
    Except.refuseIf_bind (not_not.mpr hashed), read]
  rfl

omit [Crc32fast] in
/-- The length of the header covers every read before the blocks, and the check of their number every later one. -/
theorem readSummary_safe {bytes : List UInt8} (long : 40 ≤ bytes.length) : Safe (readSummary bytes 0) := by
  obtain ⟨database, first⟩ := @takes_slice IndexError bytes 16 0 (by omega)
  obtain ⟨source, second⟩ := @takes_u32 IndexError bytes 16 (by omega)
  obtain ⟨epoch, third⟩ := @takes_u64 IndexError bytes 20 (by omega)
  obtain ⟨total, fourth⟩ := @takes_u64 IndexError bytes 28 (by omega)
  obtain ⟨blockCount, fifth⟩ := @takes_u32 IndexError bytes 36 (by omega)
  have reached : readSummary bytes 0 = (do
      let (_, place) ← room bytes (blockCount.toNat * blockLen) (.format "truncated block summaries") 40
      let (blocks, place) ← many (readBlock bytes) blockCount.toNat place
      (liftM ((SegmentSummary.new (databaseAt database 0) source epoch blocks).mapError Fault.refused) :
        Moving IndexError SegmentSummary) place) := by
    change (takeSlice bytes 16 0 >>= fun pair => _) = _
    rw [first, Except.ok_bind]
    change (takeU32 bytes 16 >>= fun pair => _) = _
    rw [second, Except.ok_bind]
    change (takeU64 bytes 20 >>= fun pair => _) = _
    rw [third, Except.ok_bind]
    change (takeU64 bytes 28 >>= fun pair => _) = _
    rw [fourth, Except.ok_bind]
    change (takeU32 bytes 36 >>= fun pair => _) = _
    rw [fifth, Except.ok_bind]
    rfl
  rw [reached]
  unfold room
  rw [bind_assoc]
  apply Safe.guard
  intro inside
  apply ((takes_block bytes).many blockCount.toNat |>.safe (by omega)).bind
  intro pair _
  exact Careful.lift _ pair.2

theorem decode_safe (bytes : List UInt8) : Safe (decode bytes) := by
  apply Safe.guard
  intro long
  rw [sliceAt_ok (Nat.zero_le _) (by omega), Except.ok_bind]
  apply Safe.guard
  intro _
  rw [u16At_ok (by omega), Except.ok_bind]
  apply Safe.guard
  intro _
  rw [u32At_ok (by omega), Except.ok_bind, sliceAt_ok (by omega) (le_refl _), Except.ok_bind]
  apply Safe.guard
  intro _
  have width : 40 ≤ (slice bytes 10 (bytes.length - 10)).length := by
    rw [slice, List.length_take, List.length_drop]
    omega
  exact (readSummary_safe width).bind fun pair _ => safe_ok _

/-- A summary of fewer than 2^32 blocks is decoded as it was encoded, and no bytes lead outside their end. -/
theorem summary_round_trip :
    (∀ database source epoch blocks summary, new database source epoch blocks = .ok summary → blocks.length < 2 ^ 32 →
      decode summary.encode = .ok summary) ∧ ∀ bytes, Safe (decode bytes) := by
  refine ⟨?_, decode_safe⟩
  intro database source epoch blocks summary created few
  obtain ⟨first, second, third, fourth⟩ := new_fields created
  rw [← fourth] at few
  rw [← first, ← second, ← third, ← fourth] at created
  exact decode_encode created few

omit [Crc32fast] in
/-- The summary of one block with one record. -/
theorem summary_round_trip_sample :
    letI := Crc32fast.ieee
    let block := BlockSummary.new 0 44 92 7 ⟨0, 1, 2⟩ 3 ⟨⟨1, 5⟩, none, ⟨1, 6⟩⟩
    ∃ summary, new ⟨List.replicate 16 1, rfl⟩ 1 2 [block] = .ok summary ∧ decode summary.encode = .ok summary := by
  generalize Crc32fast.ieee = checksum
  intro block
  exact ⟨_, rfl, summary_round_trip.1 ⟨List.replicate 16 1, rfl⟩ 1 2 [block] _ rfl (by decide)⟩

end SegmentSummary

end Temnion.Index
