import Temnion.Storage.Disk
import Temnion.Format.RoundTrip
import Mathlib.Data.Finset.Basic

/-
This file defines the durable source log of a single writer.
-/

namespace Temnion.Storage

open Format Index LittleEndian

inductive RecoveryMode where
  | rejectIncompleteTail
  | truncateIncompleteTail
  deriving DecidableEq, Repr

structure RecoveryReport where
  recoveredEvents : Nat
  discardedTailBytes : Nat
  deriving DecidableEq, Repr

structure WriteEvent where
  entity : EntityId
  times : EventTimes
  schema : SchemaId
  payload : List UInt8
  causes : List EventId
  deriving DecidableEq, Repr

structure DurableReceipt where
  database : DatabaseId
  first : EventId
  last : EventId
  count : Nat
  deriving DecidableEq

structure StorageQueryBudget where
  maxResults : Nat
  maxScanned : Nat
  maxReadBytes : Nat
  deriving DecidableEq, Repr

structure StorageCursor where
  database : DatabaseId
  source : SourceId
  epoch : SourceEpoch
  filter : HistoryFilter
  nextSequence : Nat
  snapshotEnd : Nat
  deriving DecidableEq

structure StoragePage where
  events : List StoredEvent
  scanned : Nat
  bytesRead : Nat
  continuation : Option StorageCursor
  deriving DecidableEq

structure SealReport where
  segmentsCreated : Nat
  segmentsExisting : Nat
  events : Nat
  deriving DecidableEq, Repr

structure RetirementReport where
  framesRetired : Nat
  eventsRetired : Nat
  bytesFreed : Nat
  retiredUpTo : Option UInt64
  deriving DecidableEq, Repr

structure ReferenceHold where
  heldSequences : Finset UInt64

def ReferenceHold.isSequenceHeld (hold : ReferenceHold) (sequence : UInt64) : Bool :=
  decide (sequence ∈ hold.heldSequences)

/-- A format error is an error of the storage. -/
def asStorage {A : Type} (outcome : Except FormatError A) : Except StorageError A :=
  outcome.mapError .format

theorem asStorage_ok {A : Type} {outcome : Except FormatError A} {value : A} :
    asStorage outcome = .ok value ↔ outcome = .ok value := by
  cases outcome <;> simp [asStorage, Except.mapError]

def validateLimits (limits : Limits) : Except StorageError Unit :=
  refuseIf (limits.maxFrameBytes ≤ batchHeaderLen ∨ limits.maxRecords = 0 ∨ limits.maxPayloadBytes = 0 ∨
    limits.maxSegmentBytes ≤ walHeaderLen) .invalidLimits

/-- The known time of a record must not leave the clock of the previous record or go back on it. -/
def checkKnown (record : StoredEvent) : Option Timestamp → Except StorageError Unit
  | none => pure ()
  | some previous => do
      refuseIf (previous.clock ≠ record.times.known.clock)
        (.knownClockMismatch previous.clock record.times.known.clock)
      refuseIf (record.times.known.ticks < previous.ticks)
        (.knownTimeRegression previous.ticks record.times.known.ticks)

def validateRecord (header : WalHeader) (sequence : UInt64) (previous : Option Timestamp)
    (record : StoredEvent) : Except StorageError Unit := do
  refuseIf (record.id.source ≠ header.source ∨ record.id.epoch ≠ header.epoch ∨ record.id.sequence ≠ sequence)
    (.invalidRecord "source, epoch, or contiguous sequence mismatch")
  checkKnown record previous
  refuseIf (record.causes.any fun cause =>
      cause.source == header.source && cause.epoch == header.epoch && decide (sequence ≤ cause.sequence))
    (.invalidRecord "same-source cause does not precede event")

def frameSummary (index offset length : Nat) (first : StoredEvent) (rest : List StoredEvent) : BlockSummary :=
  rest.foldl (fun summary record => summary.update record.id.sequence record.entity record.schema record.times)
    (.new (UInt32.ofNat index) (UInt64.ofNat offset) (UInt32.ofNat length) first.id.sequence first.entity
      first.schema first.times)

variable [Crc32fast]

namespace Store

/-- The handle publishes a frame at the end of its log. Frames are never empty. -/
def pushFrame (store : Store) (records : List StoredEvent) (length next : Nat) (known : Option Timestamp) :
    Store where
  header := store.header
  limits := store.limits
  frames := store.frames ++ [⟨store.endOffset, length, store.nextSequence, records.length⟩]
  summaries := store.summaries ++
    match records with
    | [] => []
    | first :: rest => [frameSummary store.frames.length store.endOffset length first rest]
  nextSequence := next
  endOffset := store.endOffset + length
  lastKnown := known
  poisoned := store.poisoned

end Store

/-- A new database has a log header and nothing else. The identity comes from the system. -/
def create (database : DatabaseId) (source : SourceId) (epoch : SourceEpoch) (limits : Limits) :
    Except StorageError (Disk × Store) := do
  validateLimits limits
  let header : WalHeader := ⟨database, source, epoch⟩
  return (
    { wal := encodeWalHeader header, segments := [], manifest := none, temporaries := [] },
    { header, limits, frames := [], summaries := [], nextSequence := 0
      endOffset := (encodeWalHeader header).length, lastKnown := none, poisoned := false })

section Frames

def decodeFrameAt (wal : List UInt8) (limits : Limits) (offset length : Nat) :
    Except StorageError (List StoredEvent) := do
  let bytes ← readExact .readHistoryFrame wal offset length
  asStorage (decodeBatch bytes limits)

def readFrameAt (wal : List UInt8) (limits : Limits) (offset length : Nat) :
    Except StorageError (List StoredEvent) := do
  refuseIf (limits.maxFrameBytes < length) (.format (.limitExceeded "frame bytes"))
  decodeFrameAt wal limits offset length

namespace Store

def framesUpTo (store : Store) (sequence : Nat) : List FrameLocation :=
  store.frames.takeWhile fun frame => frame.first ≤ sequence

/-- The partition point of the frames, minus one. -/
def frameIndexForSequence (store : Store) (sequence : Nat) : Option Nat :=
  match (store.framesUpTo sequence).length with
  | 0 => none
  | index + 1 => some index

def frameForSequence (store : Store) (sequence : Nat) : Option FrameLocation :=
  (store.frameIndexForSequence sequence).bind (store.frames[·]?)

def validateIndexed (store : Store) (position : Nat × Option Timestamp) (record : StoredEvent) :
    Except StorageError (Nat × Option Timestamp) := do
  validateRecord store.header (UInt64.ofNat position.1) position.2 record
  refuseIf (store.lastKnown.any fun last => last.clock != record.times.known.clock)
    (.invalidRecord "frame clock changed after recovery")
  return (position.1 + 1, some record.times.known)

def checkIndexedFrame (store : Store) (frame : FrameLocation) (records : List StoredEvent) :
    Except StorageError (List StoredEvent) := do
  refuseIf (records.length ≠ frame.count) (.invalidRecord "frame count changed after recovery")
  let _ ← records.foldlM store.validateIndexed (frame.first, none)
  return records

def readIndexedFrame (store : Store) (wal : List UInt8) (frame : FrameLocation) :
    Except StorageError (List StoredEvent) := do
  let records ← readFrameAt wal store.limits frame.offset frame.length
  store.checkIndexedFrame frame records

end Store

/-- The indexed read together with the operations that it consists of. -/
def readIndexed (store : Store) (frame : FrameLocation) : Process (List StoredEvent) := do
  refuseIf (store.limits.maxFrameBytes < frame.length) (.format (.limitExceeded "frame bytes"))
  observe .seekHistoryFrame
  observe .readHistoryFrame
  let world ← Procedure.read
  let records ← Procedure.lift (decodeFrameAt world.disk.wal store.limits frame.offset frame.length)
  Procedure.lift (store.checkIndexedFrame frame records)

end Frames

namespace Store

section Recovery

/-- The length of the next frame, or nothing when the log ends before the frame does. -/
def nextFrame (store : Store) (wal : List UInt8) : Except StorageError (Option Nat) :=
  if wal.length - store.endOffset < batchHeaderLen then .ok none
  else do
    let frameBytes ← asStorage (frameLength (slice wal store.endOffset batchHeaderLen) store.limits)
    return if wal.length - store.endOffset < frameBytes then none else some frameBytes

def validateNext (header : WalHeader) (position : Nat × Option Timestamp) (record : StoredEvent) :
    Except StorageError (Nat × Option Timestamp) := do
  validateRecord header (UInt64.ofNat position.1) position.2 record
  let next ← checkedAdd .sequenceExhausted position.1 1
  return (next, some record.times.known)

def recoverFrame (store : Store) (wal : List UInt8) (frameBytes : Nat) : Except StorageError Store := do
  let records ← readFrameAt wal store.limits store.endOffset frameBytes
  refuseIf (records = []) (.invalidRecord "empty WAL batch")
  let (next, known) ← records.foldlM (validateNext store.header) (store.nextSequence, store.lastKnown)
  let _ ← checkedAdd .sequenceExhausted store.endOffset frameBytes
  return store.pushFrame records frameBytes next known

def recoverTail (store : Store) (remaining : Nat) : RecoveryMode → Procedure Disk StorageError (Store × Nat)
  | .rejectIncompleteTail => Procedure.fail (.incompleteTail store.endOffset remaining)
  | .truncateIncompleteTail => do
      Procedure.update fun disk => { disk with wal := setLen store.endOffset disk.wal }
      return (store, remaining)

/-- The scan of the log. Every round takes a whole frame, so the length of the log bounds the rounds. -/
def recoverFrames (recovery : RecoveryMode) (wal : List UInt8) :
    Nat → Store → Procedure Disk StorageError (Store × Nat)
  | 0, store => do
      refuseIf (store.endOffset < wal.length) .outOfSteps
      return (store, 0)
  | steps + 1, store =>
      if store.endOffset < wal.length then do
        match ← Procedure.lift (store.nextFrame wal) with
        | none => store.recoverTail (wal.length - store.endOffset) recovery
        | some frameBytes => do
            let store ← Procedure.lift (store.recoverFrame wal frameBytes)
            recoverFrames recovery wal steps store
      else return (store, 0)

/-- The handle before the scan. The manifest tells how many sequences have left the log. -/
def opening (disk : Disk) (limits : Limits) : Except StorageError Store := do
  validateLimits limits
  let header ← asStorage (decodeWalHeader (disk.wal.take walHeaderLen))
  return {
    header, limits, frames := [], summaries := []
    nextSequence := ((disk.manifest.bind (·.retiredUpToSequence)).map (·.toNat + 1)).getD 0
    endOffset := walHeaderLen, lastKnown := none, poisoned := false }

def openStore (limits : Limits) (recovery : RecoveryMode) : Procedure Disk StorageError (Store × RecoveryReport) := do
  let disk ← Procedure.read
  let start ← Procedure.lift (opening disk limits)
  let (store, discarded) ← recoverFrames recovery disk.wal disk.wal.length start
  return (store, ⟨store.nextSequence, discarded⟩)

end Recovery

section Append

/-- The records built so far and the known time of the last one. -/
def appendRecord (store : Store) (admitted : List StoredEvent × Option Timestamp) (input : WriteEvent) :
    Except StorageError (List StoredEvent × Option Timestamp) := do
  let sequence := UInt64.ofNat (store.nextSequence + admitted.1.length)
  let record : StoredEvent := ⟨⟨store.header.source, store.header.epoch, sequence⟩, input.entity, input.times,
    input.schema, input.payload, input.causes⟩
  validateRecord store.header sequence admitted.2 record
  return (admitted.1 ++ [record], some record.times.known)

/-- What an append is about to write and to publish. -/
structure Prepared where
  records : List StoredEvent
  encoded : List UInt8
  next : Nat
  known : Option Timestamp

def prepare (store : Store) (batch : List WriteEvent) : Except StorageError Prepared := do
  refuseIf store.poisoned .poisoned
  refuseIf (batch = []) .emptyBatch
  refuseIf (store.limits.maxRecords < batch.length) (.format (.limitExceeded "records per batch"))
  let next ← checkedAdd .sequenceExhausted store.nextSequence batch.length
  let (records, known) ← batch.foldlM store.appendRecord ([], store.lastKnown)
  let encoded ← asStorage (encodeBatch records store.limits)
  let _ ← checkedAdd .sequenceExhausted store.endOffset encoded.length
  return ⟨records, encoded, next, known⟩

def writeBatch (store : Store) (encoded : List UInt8) : Process Unit := do
  observe .inspectAppendPosition
  let world ← Procedure.read
  refuseIf (world.disk.wal.length ≠ store.endOffset) (.invalidRecord "WAL changed outside the locked writer")
  observe .seekAppendPosition
  fileOperation .appendBatch
    (fun written disk => { disk with wal := overwrite store.endOffset (encoded.take written) disk.wal })
    (fun disk => { disk with wal := overwrite store.endOffset encoded disk.wal })
  observe .synchronizeBatch

/-- The subscribers see the records after the handle has published them. -/
def publish (prepared : Prepared) (world : World) : World where
  disk := world.disk
  store := world.store.pushFrame prepared.records prepared.encoded.length prepared.next prepared.known
  acknowledged := world.acknowledged ++ prepared.records
  fault := world.fault

def poison (world : World) : World := { world with store := { world.store with poisoned := true } }

/-- The ids of the first and the last record. -/
def receipt (store : Store) (records : List StoredEvent) : DurableReceipt where
  database := store.header.database
  first := ⟨store.header.source, store.header.epoch, UInt64.ofNat store.nextSequence⟩
  last := ⟨store.header.source, store.header.epoch, UInt64.ofNat (store.nextSequence + records.length - 1)⟩
  count := records.length

def append (batch : List WriteEvent) : Process DurableReceipt := do
  let world ← Procedure.read
  let prepared ← Procedure.lift (world.store.prepare batch)
  match ← Procedure.attempt (world.store.writeBatch prepared.encoded) with
  | .error error => do
      Procedure.update poison
      Procedure.fail (.commitOutcomeUnknown error)
  | .ok () => do
      Procedure.update (publish prepared)
      return world.store.receipt prepared.records

end Append

section Read

def readEventFromSegment (store : Store) (disk : Disk) (sequence : UInt64) :
    Except StorageError (Option StoredEvent) :=
  match disk.manifest.bind (·.findSegmentForSequence sequence) with
  | none => .ok none
  | some sealedMeta =>
      match disk.segments.lookup sealedMeta.filename with
      | none => .ok none
      | some file => do
          let bytes ← readBoundedFile (some file) store.limits.maxSegmentBytes
          let segment ← asStorage (decodeSegment bytes store.limits)
          return segment.records.find? (·.id.sequence = sequence)

def orUnknown (id : EventId) (found : Option StoredEvent) : Except StorageError StoredEvent :=
  match found with
  | some event => .ok event
  | none => .error (.unknownEvent id)

def get (store : Store) (disk : Disk) (id : EventId) : Except StorageError StoredEvent := do
  refuseIf store.poisoned .poisoned
  refuseIf (id.source ≠ store.header.source ∨ id.epoch ≠ store.header.epoch ∨
    store.nextSequence ≤ id.sequence.toNat) (.unknownEvent id)
  match store.frameForSequence id.sequence.toNat with
  | some frame => do
      let records ← store.readIndexedFrame disk.wal frame
      orUnknown id (records.find? (·.id = id))
  | none => do
      let found ← store.readEventFromSegment disk id.sequence
      orUnknown id (found.filter (·.id = id))

/-- What the scan finds at a sequence: a frame that its summary skips, or the records of a frame or segment
with the length and the count that the budgets charge. -/
inductive Visit where
  | skip (next : Nat)
  | block (records : List StoredEvent) (frameLength frameCount : Nat)

def visitSegment (store : Store) (disk : Disk) (next : Nat) : Except StorageError Visit :=
  match disk.manifest.bind (·.findSegmentForSequence (UInt64.ofNat next)) with
  | none => .error .invalidCursor
  | some sealedMeta => do
      let bytes ← readBoundedFile (disk.segments.lookup sealedMeta.filename) store.limits.maxSegmentBytes
      let segment ← asStorage (decodeSegment bytes store.limits)
      return .block segment.records sealedMeta.byteLength.toNat segment.records.length

def visit (store : Store) (disk : Disk) (filter : HistoryFilter) (next : Nat) : Except StorageError Visit :=
  match store.frameIndexForSequence next, store.frameForSequence next with
  | some index, some frame =>
      if store.summaries[index]?.any (·.matchesFilter filter = .skip) then
        .ok (.skip (frame.first + frame.count))
      else do
        let records ← store.readIndexedFrame disk.wal frame
        return .block records frame.length frame.count
  | _, _ => store.visitSegment disk next

/-- The position of a scan and what it has collected. -/
structure Scan where
  next : Nat
  events : List StoredEvent
  scanned : Nat
  bytesRead : Nat
  deriving DecidableEq

def scanRecords (filter : HistoryFilter) (stop maxResults : Nat) : List StoredEvent → Scan → Scan
  | [], scan => scan
  | record :: records, scan =>
      if record.id.sequence.toNat < scan.next then scanRecords filter stop maxResults records scan
      else if stop ≤ record.id.sequence.toNat then scan
      else if filter.keeps record then
        let collected := { scan with
          next := record.id.sequence.toNat + 1
          events := scan.events ++ [record] }
        if collected.events.length = maxResults then collected
        else scanRecords filter stop maxResults records collected
      else scanRecords filter stop maxResults records { scan with next := record.id.sequence.toNat + 1 }

/-- The scan over frames and segments. Every round moves the position, so the window bounds the rounds. -/
def scanBlocks (store : Store) (disk : Disk) (filter : HistoryFilter) (budget : StorageQueryBudget) (stop : Nat) :
    Nat → Scan → Except StorageError Scan
  | 0, scan => do
      refuseIf (scan.next < stop) .outOfSteps
      return scan
  | steps + 1, scan =>
      if scan.next < stop then do
        match ← store.visit disk filter scan.next with
        | .skip next => scanBlocks store disk filter budget stop steps { scan with next := next }
        | .block records frameLength frameCount =>
            if budget.maxReadBytes < frameLength ∨ budget.maxScanned < frameCount then
              if scan.bytesRead ≠ 0 then .ok scan else .error (.budgetTooSmall frameLength frameCount)
            else if budget.maxReadBytes - scan.bytesRead < frameLength ∨
                budget.maxScanned - scan.scanned < frameCount then .ok scan
            else
              let reached := scanRecords filter stop budget.maxResults records { scan with
                scanned := scan.scanned + records.length
                bytesRead := scan.bytesRead + frameLength }
              if reached.events.length = budget.maxResults then .ok reached
              else scanBlocks store disk filter budget stop steps reached
      else .ok scan

/-- A cutoff must be on the known clock of the log. -/
def checkCutoff (filter : HistoryFilter) (lastKnown : Option Timestamp) : Except StorageError Unit :=
  match filter.knownAsOf, lastKnown with
  | some cutoff, some last => refuseIf (cutoff.clock ≠ last.clock) (.knownClockMismatch last.clock cutoff.clock)
  | _, _ => pure ()

/-- The first sequence of the page and the end of its snapshot. -/
def window (store : Store) (filter : HistoryFilter) : Option StorageCursor → Except StorageError (Nat × Nat)
  | none => .ok (0, store.nextSequence)
  | some cursor => do
      refuseIf (cursor.database ≠ store.header.database ∨ cursor.source ≠ store.header.source ∨
        cursor.epoch ≠ store.header.epoch ∨ cursor.filter ≠ filter ∨ cursor.snapshotEnd < cursor.nextSequence ∨
        store.nextSequence < cursor.snapshotEnd) .invalidCursor
      return (cursor.nextSequence, cursor.snapshotEnd)

def cursorAt (store : Store) (filter : HistoryFilter) (next stop : Nat) : StorageCursor where
  database := store.header.database
  source := store.header.source
  epoch := store.header.epoch
  filter := filter
  nextSequence := next
  snapshotEnd := stop

def cursorFromSequence (store : Store) (sequence : Nat) (filter : HistoryFilter) :
    Except StorageError StorageCursor := do
  refuseIf store.poisoned .poisoned
  refuseIf (store.nextSequence < sequence) .invalidCursor
  return store.cursorAt filter sequence store.nextSequence

def history (store : Store) (disk : Disk) (filter : HistoryFilter) (budget : StorageQueryBudget)
    (cursor : Option StorageCursor) : Except StorageError StoragePage := do
  refuseIf store.poisoned .poisoned
  refuseIf (budget.maxResults = 0 ∨ budget.maxScanned = 0 ∨ budget.maxReadBytes = 0) .invalidBudget
  checkCutoff filter store.lastKnown
  let (next, stop) ← store.window filter cursor
  let scan ← store.scanBlocks disk filter budget stop (stop - next) ⟨next, [], 0, 0⟩
  return {
    events := scan.events
    scanned := scan.scanned
    bytesRead := scan.bytesRead
    continuation := if scan.next < stop then some (store.cursorAt filter scan.next stop) else none }

end Read

section Seal

/-- A published segment is immutable: an existing one must already hold the encoded bytes. -/
def publishSegment (store : Store) (filename : String) (records : List StoredEvent) (encoded : List UInt8) :
    Process Bool := do
  observe .inspectSegmentPath
  let world ← Procedure.read
  match world.disk.segments.lookup filename with
  | some file => do
      let existing ← readBounded (some file) store.limits.maxSegmentBytes
      refuseIf (existing ≠ encoded) (.invalidRecord "existing immutable segment differs from WAL")
      let _ ← Procedure.lift (asStorage (decodeSegment existing store.limits))
      return false
  | none => do
      atomicOperation .createTemporarySegment fun disk => { disk with temporaries := [] :: disk.temporaries }
      fileOperation .writeTemporarySegment
        (fun written disk => { disk with temporaries := encoded.take written :: disk.temporaries.tail })
        (fun disk => { disk with temporaries := encoded :: disk.temporaries.tail })
      observe .synchronizeTemporarySegment
      let written ← Procedure.read
      let persisted ← readBounded written.disk.temporaries.head? store.limits.maxSegmentBytes
      let decoded ← Procedure.lift (asStorage (decodeSegment persisted store.limits))
      refuseIf (decoded.header ≠ store.header ∨ decoded.records ≠ records)
        (.invalidRecord "segment verification differs from WAL")
      atomicOperation .publishSegment fun disk =>
        { disk with segments := (filename, disk.temporaries.headD []) :: disk.segments }
      observe .synchronizeDirectory
      atomicOperation .removeTemporary fun disk => { disk with temporaries := disk.temporaries.tail }
      observe .synchronizeDirectory
      return true

def sealedMeta (frame : FrameLocation) (records : List StoredEvent) (encoded : List UInt8) :
    SealedSegmentMeta where
  firstSequence := UInt64.ofNat frame.first
  lastSequence := UInt64.ofNat frame.last
  filename := segmentFilename frame.first frame.last
  byteLength := UInt64.ofNat encoded.length
  crc32 := Crc32fast.hash encoded
  sealedAtTicks := (records.getLast?.map (·.times.valid.ticks)).getD 0

/-- The summary file is written once and not atomically. -/
def writeSummary (store : Store) (frame : FrameLocation) (index : Nat) : Process Unit := do
  observe .inspectSummaryPath
  let world ← Procedure.read
  match world.disk.segments.lookup (summaryFilename frame.first frame.last), store.summaries[index]? with
  | none, some block => do
      let summary ← Procedure.lift ((SegmentSummary.new store.header.database store.header.source
        store.header.epoch [block]).mapError .index)
      let name := summaryFilename frame.first frame.last
      fileOperation .writeSummary
        (fun written disk => { disk with segments := (name, summary.encode.take written) :: disk.segments })
        (fun disk => { disk with segments := (name, summary.encode) :: disk.segments })
  | _, _ => return ()

def sealFrame (store : Store) (progress : SegmentManifest × SealReport) (indexed : FrameLocation × Nat) :
    Process (SegmentManifest × SealReport) := do
  let frame := indexed.1
  let records ← readIndexed store frame
  let encoded ← Procedure.lift (asStorage (encodeSegment store.header records store.limits))
  let created ← store.publishSegment (segmentFilename frame.first frame.last) records encoded
  store.writeSummary frame indexed.2
  return (progress.1.registerSegment (sealedMeta frame records encoded), {
    segmentsCreated := progress.2.segmentsCreated + if created then 1 else 0
    segmentsExisting := progress.2.segmentsExisting + if created then 0 else 1
    events := progress.2.events + records.length })

/-- One segment per frame, and one save of the manifest at the end. -/
def sealFrames : Process SealReport := do
  let world ← Procedure.read
  let store := world.store
  refuseIf store.poisoned .poisoned
  observe .createSegmentDirectory
  observe .synchronizeDirectory
  let manifest ← SegmentManifest.loadIfExists
  let start := manifest.getD (.new store.header.database store.header.source store.header.epoch)
  let (manifest, report) ← store.frames.zipIdx.foldlM store.sealFrame (start, ⟨0, 0, 0⟩)
  manifest.save
  return report

end Seal

section Retire

def isHeld (holds : List ReferenceHold) (frame : FrameLocation) : Bool :=
  holds.any fun hold => (List.range' frame.first frame.count).any fun sequence =>
    hold.isSequenceHeld (UInt64.ofNat sequence)

def eligible (manifest : SegmentManifest) (holds : List ReferenceHold) (frame : FrameLocation) : Bool :=
  manifest.isSequenceSealed (UInt64.ofNat frame.first) && manifest.isSequenceSealed (UInt64.ofNat frame.last) &&
    !isHeld holds frame

def readRemaining (bytes : List UInt8) (frame : FrameLocation) : Process (List UInt8) := do
  observe .seekRemainingFrame
  observe .readRemainingFrame
  let world ← Procedure.read
  let frameBytes ← Procedure.lift (readExact .readRemainingFrame world.disk.wal frame.offset frame.length)
  return bytes ++ frameBytes

/-- An empty remainder is not written at all. -/
def writeCompacted (bytes : List UInt8) : Process Unit :=
  if bytes = [] then return ()
  else fileOperation .writeCompacted
    (fun written disk => { disk with wal := overwrite walHeaderLen (bytes.take written) disk.wal })
    (fun disk => { disk with wal := overwrite walHeaderLen bytes disk.wal })

/-- The remaining frames follow the header without a gap. -/
def relocate : Nat → List FrameLocation → List FrameLocation
  | _, [] => []
  | offset, frame :: frames => { frame with offset := offset } :: relocate (offset + frame.length) frames

def compacted (store : Store) (retired length : Nat) : Store where
  header := store.header
  limits := store.limits
  frames := relocate walHeaderLen (store.frames.drop retired)
  summaries := store.summaries.drop retired
  nextSequence := store.nextSequence
  endOffset := length
  lastKnown := store.lastKnown
  poisoned := store.poisoned

/-- The retired frames leave the log, and only then the manifest. -/
def retireFrames (store : Store) (manifest : SegmentManifest) (retired : List FrameLocation)
    (highest : FrameLocation) : Process RetirementReport := do
  let remaining ← (store.frames.drop retired.length).foldlM readRemaining []
  let length := walHeaderLen + remaining.length
  observe .seekCompaction
  writeCompacted remaining
  atomicOperation .truncateCompacted fun disk => { disk with wal := setLen length disk.wal }
  observe .synchronizeCompacted
  Procedure.update fun world => { world with store := world.store.compacted retired.length length }
  let upTo := some (UInt64.ofNat highest.last)
  { manifest with retiredUpToSequence := upTo }.save
  return {
    framesRetired := retired.length
    eventsRetired := (retired.map (·.count)).sum
    bytesFreed := store.endOffset - length
    retiredUpTo := upTo }

def retireWal (holds : List ReferenceHold) : Process RetirementReport := do
  let world ← Procedure.read
  let store := world.store
  refuseIf store.poisoned .poisoned
  match ← SegmentManifest.loadIfExists with
  | none => return ⟨0, 0, 0, none⟩
  | some manifest =>
      let retired := store.frames.takeWhile (eligible manifest holds)
      match retired.getLast? with
      | none => return ⟨0, 0, 0, manifest.retiredUpToSequence⟩
      | some highest => store.retireFrames manifest retired highest

end Retire

end Store

end Temnion.Storage
