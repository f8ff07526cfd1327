import Temnion.Core
import Temnion.Library.Reader

/-
This file encodes and decodes the write-ahead log and the sealed segments.
-/

namespace Temnion.Format

open LittleEndian Reader

/-- The checksum crate. Every result holds for any fixed function of the bytes. -/
class Crc32fast where
  hash : List UInt8 → UInt32

def crcBit (value : UInt32) : UInt32 :=
  if value &&& 1 = 1 then value >>> 1 ^^^ 0xEDB88320 else value >>> 1

/-- The function of the checksum crate, one bit at a time. -/
@[reducible] def Crc32fast.ieee : Crc32fast where
  hash bytes := bytes.foldl (fun value byte => crcBit^[8] (value ^^^ byte.toUInt32)) 0xFFFFFFFF ^^^ 0xFFFFFFFF

example : Crc32fast.ieee.hash [0x31, 0x32, 0x33, 0x34, 0x35, 0x36, 0x37, 0x38, 0x39] = 0xCBF43926 := by decide +kernel

def walMagic : List UInt8 := [0x54, 0x4E, 0x57, 0x4C]

def batchMagic : List UInt8 := [0x54, 0x4E, 0x57, 0x42]

def segmentMagic : List UInt8 := [0x54, 0x4E, 0x53, 0x46]

def segmentFooterMagic : List UInt8 := [0x54, 0x4E, 0x46, 0x54]

def formatVersion : UInt16 := 1

def noFlags : UInt16 := 0

def observedFlag : UInt16 := 1

def knownRecordFlags : UInt16 := observedFlag

def eventIdLen : Nat := 4 + 8 + 8

def timestampLen : Nat := 4 + 8

def observedTimestampLen : Nat := timestampLen

def recordFixedLen : Nat := eventIdLen + 12 + timestampLen + timestampLen + 4 + 2 + 2 + 4

def walChecksumOffset : Nat := 36

def batchBodyChecksumOffset : Nat := 16

def batchHeaderChecksumOffset : Nat := 20

def segmentBodyLenOffset : Nat := 36

def segmentRecordCountOffset : Nat := 40

def segmentBodyChecksumOffset : Nat := 44

def segmentHeaderChecksumOffset : Nat := 48

def segmentHeaderLen : Nat := 52

def segmentFooterDirLenOffset : Nat := 8

def segmentFooterChecksumOffset : Nat := 12

def segmentFooterLen : Nat := 16

def walHeaderLen : Nat := 40

def batchHeaderLen : Nat := 24

structure WalHeader where
  database : DatabaseId
  source : SourceId
  epoch : SourceEpoch
  deriving DecidableEq

structure Limits where
  maxFrameBytes : Nat
  maxRecords : Nat
  maxPayloadBytes : Nat
  maxCauses : Nat
  maxSegmentBytes : Nat
  deriving DecidableEq, Repr

def Limits.default : Limits where
  maxFrameBytes := 4 * 1024 * 1024
  maxRecords := 65536
  maxPayloadBytes := 1024 * 1024
  maxCauses := 64
  maxSegmentBytes := 64 * 1024 * 1024

structure Segment where
  header : WalHeader
  records : List StoredEvent
  deriving DecidableEq

inductive FormatError where
  | incomplete (needed available : Nat)
  | invalidMagic
  | unsupportedVersion (version : UInt16)
  | checksumMismatch
  | limitExceeded (limit : String)
  | invalidData (reason : String)
  deriving DecidableEq, Repr

section

variable [Crc32fast]

def encodeWalHeader (header : WalHeader) : List UInt8 :=
  let fields := walMagic ++ le16 formatVersion ++ le16 noFlags ++ header.database.bytes ++
    le32 header.source ++ le64 header.epoch
  fields ++ le32 (Crc32fast.hash fields)

/-- Sixteen bytes at an offset, padded when the input is too short. -/
def databaseAt (bytes : List UInt8) (offset : Nat) : DatabaseId where
  bytes := (slice bytes offset 16).rightpad 16 0
  length := by simp [slice]

def decodeWalHeader (bytes : List UInt8) : Except FormatError WalHeader := do
  refuseIf (bytes.length < walHeaderLen) (.incomplete walHeaderLen bytes.length)
  refuseIf (walHeaderLen < bytes.length) (.invalidData "trailing WAL header bytes")
  refuseIf (slice bytes 0 4 ≠ walMagic) .invalidMagic
  refuseIf (getU16 bytes 4 ≠ formatVersion) (.unsupportedVersion (getU16 bytes 4))
  refuseIf (getU16 bytes 6 ≠ noFlags) (.invalidData "unsupported WAL header flags")
  refuseIf (getU32 bytes walChecksumOffset ≠ Crc32fast.hash (slice bytes 0 walChecksumOffset)) .checksumMismatch
  return ⟨databaseAt bytes 8, getU32 bytes 24, getU64 bytes 28⟩

end

def encodedRecordLen (record : StoredEvent) (limits : Limits) : Except FormatError Nat := do
  refuseIf (limits.maxPayloadBytes < record.payload.length) (.limitExceeded "payload bytes")
  refuseIf (2 ^ 32 ≤ record.payload.length) (.limitExceeded "payload bytes")
  refuseIf (limits.maxCauses < record.causes.length) (.limitExceeded "causes per event")
  refuseIf (2 ^ 16 ≤ record.causes.length) (.limitExceeded "causes per event")
  let observedLen := if record.times.observed.isSome then observedTimestampLen else 0
  let causesLen ← checkedMul (.invalidData "record length overflow") record.causes.length eventIdLen
  let withObserved ← checkedAdd (.invalidData "record length overflow") recordFixedLen observedLen
  let withCauses ← checkedAdd (.invalidData "record length overflow") withObserved causesLen
  checkedAdd (.invalidData "record length overflow") withCauses record.payload.length

def eventIdBytes (id : EventId) : List UInt8 :=
  le32 id.source ++ le64 id.epoch ++ le64 id.sequence

def timestampBytes (timestamp : Timestamp) : List UInt8 :=
  le32 timestamp.clock ++ le64 timestamp.ticks

def recordFlags (record : StoredEvent) : UInt16 :=
  if record.times.observed.isSome then observedFlag else noFlags

/-- The bytes that one record adds to the body of its batch. -/
def recordBytes (record : StoredEvent) : List UInt8 :=
  eventIdBytes record.id ++
    (le32 record.entity.shard ++ le32 record.entity.slot ++ le32 record.entity.generation) ++
    timestampBytes record.times.valid ++ timestampBytes record.times.known ++ le32 record.schema ++
    le16 (recordFlags record) ++ le16 (UInt16.ofNat record.causes.length) ++
    le32 (UInt32.ofNat record.payload.length) ++
    (record.times.observed.map timestampBytes).getD [] ++
    record.causes.flatMap eventIdBytes ++ record.payload

def encodeRecordBody (bytes : List UInt8) (record : StoredEvent) : Except FormatError (List UInt8) := do
  refuseIf (2 ^ 32 ≤ record.payload.length) (.limitExceeded "payload bytes")
  refuseIf (2 ^ 16 ≤ record.causes.length) (.limitExceeded "causes per event")
  return bytes ++ recordBytes record

/-- The frame header and the body, with the two checksums in place. -/
def frameBytes [Crc32fast] (frameLen recordCount : Nat) (body : List UInt8) : List UInt8 :=
  let fields := batchMagic ++ le16 formatVersion ++ le16 noFlags ++ le32 (UInt32.ofNat frameLen) ++
    le32 (UInt32.ofNat recordCount) ++ le32 (Crc32fast.hash body)
  fields ++ le32 (Crc32fast.hash fields) ++ body

def encodeBatch [Crc32fast] (records : List StoredEvent) (limits : Limits) :
    Except FormatError (List UInt8) := do
  refuseIf (limits.maxRecords < records.length) (.limitExceeded "records per batch")
  let bodyLen ← records.foldlM (fun bodyLen record => do
    checkedAdd (.invalidData "frame length overflow") bodyLen (← encodedRecordLen record limits)) 0
  let frameLen ← checkedAdd (.invalidData "frame length overflow") batchHeaderLen bodyLen
  refuseIf (limits.maxFrameBytes < frameLen) (.limitExceeded "frame bytes")
  refuseIf (2 ^ 32 ≤ frameLen) (.limitExceeded "frame bytes")
  refuseIf (2 ^ 32 ≤ records.length) (.limitExceeded "records per batch")
  let body ← records.foldlM encodeRecordBody []
  return frameBytes frameLen records.length body

section

variable [Crc32fast]

def frameLength (header : List UInt8) (limits : Limits) : Except FormatError Nat := do
  refuseIf (header.length < batchHeaderLen) (.incomplete batchHeaderLen header.length)
  refuseIf (slice header 0 4 ≠ batchMagic) .invalidMagic
  refuseIf (getU16 header 4 ≠ formatVersion) (.unsupportedVersion (getU16 header 4))
  refuseIf (getU16 header 6 ≠ noFlags) (.invalidData "unsupported batch flags")
  refuseIf (getU32 header batchHeaderChecksumOffset ≠ Crc32fast.hash (slice header 0 batchHeaderChecksumOffset))
    .checksumMismatch
  let frameLen := (getU32 header 8).toNat
  refuseIf (frameLen < batchHeaderLen) (.invalidData "frame length smaller than header")
  refuseIf (limits.maxFrameBytes < frameLen) (.limitExceeded "frame bytes")
  refuseIf (limits.maxRecords < (getU32 header 12).toNat) (.limitExceeded "records per batch")
  return frameLen

end

def readEventId (source epoch sequence : String) : Reader FormatError EventId := do
  let source ← readU32 (.invalidData source)
  let epoch ← readU64 (.invalidData epoch)
  let sequence ← readU64 (.invalidData sequence)
  return ⟨source, epoch, sequence⟩

def readTimestamp (clock ticks : String) : Reader FormatError Timestamp := do
  let clock ← readU32 (.invalidData clock)
  let ticks ← readU64 (.invalidData ticks)
  return ⟨clock, ticks⟩

def readObserved (flags : UInt16) : Reader FormatError (Option Timestamp) :=
  if flags &&& observedFlag ≠ 0 then
    some <$> readTimestamp "truncated observed clock" "truncated observed ticks"
  else pure none

/-- The remaining bytes play the part of the body and its cursor. -/
def decodeRecordBody (limits : Limits) : Reader FormatError StoredEvent := do
  let id ← readEventId "truncated event source" "truncated event epoch" "truncated event sequence"
  let shard ← readU32 (.invalidData "truncated entity shard")
  let slot ← readU32 (.invalidData "truncated entity slot")
  let generation ← readU32 (.invalidData "truncated entity generation")
  let valid ← readTimestamp "truncated valid clock" "truncated valid ticks"
  let known ← readTimestamp "truncated known clock" "truncated known ticks"
  let schema ← readU32 (.invalidData "truncated schema id")
  let flags ← readU16 (.invalidData "truncated record flags")
  refuseIf (flags &&& ~~~knownRecordFlags ≠ 0) (.invalidData "unsupported record flags")
  let causeCount ← readU16 (.invalidData "truncated cause count")
  refuseIf (limits.maxCauses < causeCount.toNat) (.limitExceeded "causes per event")
  let payloadLen ← readU32 (.invalidData "truncated payload length")
  refuseIf (limits.maxPayloadBytes < payloadLen.toNat) (.limitExceeded "payload bytes")
  let observed ← readObserved flags
  let causes ← readMany
    (readEventId "truncated cause source" "truncated cause epoch" "truncated cause sequence")
    causeCount.toNat
  let payload ← readFixed payloadLen.toNat (.invalidData "truncated payload bytes")
  return ⟨id, ⟨shard, slot, generation⟩, ⟨valid, observed, known⟩, schema, payload, causes⟩

section

variable [Crc32fast]

def decodeBatch (frame : List UInt8) (limits : Limits) : Except FormatError (List StoredEvent) := do
  let frameLen ← frameLength frame limits
  refuseIf (frame.length < frameLen) (.incomplete frameLen frame.length)
  refuseIf (frameLen < frame.length) (.invalidData "trailing batch bytes")
  refuseIf (getU32 frame batchBodyChecksumOffset ≠ Crc32fast.hash (frame.drop batchHeaderLen)) .checksumMismatch
  let (records, rest) ← readMany (decodeRecordBody limits) (getU32 frame 12).toNat (frame.drop batchHeaderLen)
  refuseIf (rest ≠ []) (.invalidData "trailing record bytes")
  return records

/-- The segment header, the embedded batch and the footer, with the three checksums in place. -/
def segmentBytes (header : WalHeader) (recordCount : Nat) (batch : List UInt8) : List UInt8 :=
  let fields := segmentMagic ++ le16 formatVersion ++ le16 noFlags ++ header.database.bytes ++
    le32 header.source ++ le64 header.epoch ++ le32 (UInt32.ofNat batch.length) ++
    le32 (UInt32.ofNat recordCount) ++ le32 (Crc32fast.hash batch)
  let footer := segmentFooterMagic ++ le16 formatVersion ++ le16 noFlags ++ le32 0
  fields ++ le32 (Crc32fast.hash fields) ++ batch ++ footer ++ le32 (Crc32fast.hash footer)

def encodeSegment (header : WalHeader) (records : List StoredEvent) (limits : Limits) :
    Except FormatError (List UInt8) := do
  refuseIf (records.any (fun record => record.id.source != header.source || record.id.epoch != header.epoch))
    (.invalidData "record source or epoch differs from segment header")
  let batch ← encodeBatch records limits
  refuseIf (2 ^ 32 ≤ batch.length) (.limitExceeded "frame bytes")
  refuseIf (2 ^ 32 ≤ records.length) (.limitExceeded "records per batch")
  let withHeader ← checkedAdd (.invalidData "segment length overflow") segmentHeaderLen batch.length
  let totalLen ← checkedAdd (.invalidData "segment length overflow") withHeader segmentFooterLen
  refuseIf (limits.maxSegmentBytes < totalLen) (.limitExceeded "segment bytes")
  return segmentBytes header records.length batch

def decodeSegment (bytes : List UInt8) (limits : Limits) : Except FormatError Segment := do
  refuseIf (bytes.length < segmentHeaderLen) (.incomplete segmentHeaderLen bytes.length)
  refuseIf (slice bytes 0 4 ≠ segmentMagic) .invalidMagic
  refuseIf (getU16 bytes 4 ≠ formatVersion) (.unsupportedVersion (getU16 bytes 4))
  refuseIf (getU16 bytes 6 ≠ noFlags) (.invalidData "unsupported segment flags")
  refuseIf (getU32 bytes segmentHeaderChecksumOffset ≠ Crc32fast.hash (slice bytes 0 segmentHeaderChecksumOffset))
    .checksumMismatch
  let bodyLen := (getU32 bytes segmentBodyLenOffset).toNat
  let withHeader ← checkedAdd (.invalidData "segment length overflow") segmentHeaderLen bodyLen
  let totalLen ← checkedAdd (.invalidData "segment length overflow") withHeader segmentFooterLen
  refuseIf (limits.maxSegmentBytes < totalLen) (.limitExceeded "segment bytes")
  refuseIf (bytes.length < totalLen) (.incomplete totalLen bytes.length)
  refuseIf (totalLen < bytes.length) (.invalidData "trailing segment bytes")
  let footerStart := segmentHeaderLen + bodyLen
  refuseIf (slice bytes footerStart 4 ≠ segmentFooterMagic) .invalidMagic
  refuseIf (getU16 bytes (footerStart + 4) ≠ formatVersion)
    (.unsupportedVersion (getU16 bytes (footerStart + 4)))
  refuseIf (getU16 bytes (footerStart + 6) ≠ noFlags) (.invalidData "unsupported segment footer flags")
  refuseIf (getU32 bytes (footerStart + segmentFooterDirLenOffset) ≠ 0)
    (.invalidData "nonzero segment directory length")
  refuseIf (getU32 bytes (footerStart + segmentFooterChecksumOffset) ≠
      Crc32fast.hash (slice bytes footerStart segmentFooterChecksumOffset))
    .checksumMismatch
  let body := slice bytes segmentHeaderLen bodyLen
  refuseIf (Crc32fast.hash body ≠ getU32 bytes segmentBodyChecksumOffset) .checksumMismatch
  refuseIf (bodyLen < batchHeaderLen) (.invalidData "segment body shorter than embedded batch header")
  let header : WalHeader := ⟨databaseAt bytes 8, getU32 bytes 24, getU64 bytes 28⟩
  let expectedCount := (getU32 bytes segmentRecordCountOffset).toNat
  refuseIf (limits.maxRecords < expectedCount) (.limitExceeded "records per batch")
  let records ← match decodeBatch body limits with
    | .error (.incomplete _ _) =>
        .error (.invalidData "complete segment contains a truncated embedded batch")
    | other => other
  refuseIf (records.length ≠ expectedCount) (.invalidData "segment record count differs from embedded batch")
  refuseIf (records.any (fun record => record.id.source != header.source || record.id.epoch != header.epoch))
    (.invalidData "record source or epoch differs from segment header")
  return ⟨header, records⟩

end

end Temnion.Format
