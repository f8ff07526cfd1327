import Temnion.Storage.Manifest
import Temnion.Index.Summary
import Temnion.Library.Fallible

/-
This file defines the files of a store, its handle, and the file operations that may fail.
-/

namespace Temnion.Storage

open Format Index

/-- The last constructor stands for a scan of the model that ran out of steps. -/
inductive StorageError where
  | io (operation : String)
  | alreadyExists
  | format (error : FormatError)
  | index (error : IndexError)
  | poisoned
  | commitOutcomeUnknown (error : StorageError)
  | emptyBatch
  | invalidLimits
  | sequenceExhausted
  | knownClockMismatch (expected actual : ClockId)
  | knownTimeRegression (previous actual : UInt64)
  | invalidRecord (reason : String)
  | incompleteTail (offset bytes : Nat)
  | unknownEvent (id : EventId)
  | invalidBudget
  | budgetTooSmall (frameBytes frameRecords : Nat)
  | invalidCursor
  | outOfSteps
  deriving DecidableEq, Repr

/-- Every file operation of the writer, named after the step that it belongs to. -/
inductive FileOperation where
  | inspectAppendPosition
  | seekAppendPosition
  | appendBatch
  | synchronizeBatch
  | seekHistoryFrame
  | readHistoryFrame
  | createSegmentDirectory
  | synchronizeDirectory
  | inspectSegmentPath
  | openBoundedFile
  | inspectBoundedFile
  | readBoundedFile
  | checkBoundedFileEnd
  | createTemporarySegment
  | writeTemporarySegment
  | synchronizeTemporarySegment
  | publishSegment
  | removeTemporary
  | inspectSummaryPath
  | writeSummary
  | inspectManifest
  | readManifest
  | createManifestDirectory
  | createTemporaryManifest
  | writeTemporaryManifest
  | synchronizeTemporaryManifest
  | replaceManifest
  | seekRemainingFrame
  | readRemainingFrame
  | seekCompaction
  | writeCompacted
  | truncateCompacted
  | synchronizeCompacted
  deriving DecidableEq, Repr

def FileOperation.label : FileOperation → String
  | inspectAppendPosition => "inspect append position"
  | seekAppendPosition => "seek append position"
  | appendBatch => "append WAL batch"
  | synchronizeBatch => "synchronize WAL batch"
  | seekHistoryFrame => "seek history frame"
  | readHistoryFrame => "read history frame"
  | createSegmentDirectory => "create segment directory"
  | synchronizeDirectory => "synchronize directory"
  | inspectSegmentPath => "inspect segment path"
  | openBoundedFile => "open bounded file"
  | inspectBoundedFile => "inspect bounded file"
  | readBoundedFile => "read bounded file"
  | checkBoundedFileEnd => "check bounded file end"
  | createTemporarySegment => "create temporary segment"
  | writeTemporarySegment => "write temporary segment"
  | synchronizeTemporarySegment => "synchronize temporary segment"
  | publishSegment => "publish immutable segment"
  | removeTemporary => "remove published segment temporary"
  | inspectSummaryPath => "inspect summary path"
  | writeSummary => "write segment summary"
  | inspectManifest => "inspect_manifest"
  | readManifest => "read_manifest"
  | createManifestDirectory => "create_manifest_dir"
  | createTemporaryManifest => "create_temp_manifest"
  | writeTemporaryManifest => "write_temp_manifest"
  | synchronizeTemporaryManifest => "sync_temp_manifest"
  | replaceManifest => "replace_manifest"
  | seekRemainingFrame => "seek remaining WAL frame"
  | readRemainingFrame => "read remaining WAL frame"
  | seekCompaction => "seek WAL for compaction"
  | writeCompacted => "write compacted WAL bytes"
  | truncateCompacted => "truncate compacted WAL"
  | synchronizeCompacted => "sync compacted WAL"

/-- The segment directory by file name. A later entry replaces an earlier one of its name. -/
abbrev Directory := List (String × List UInt8)

/-- The durable state of one database. The manifest file stands for the value that it encodes,
and its temporary files are left out because nothing ever reads them. -/
structure Disk where
  wal : List UInt8
  segments : Directory
  manifest : Option SegmentManifest
  temporaries : List (List UInt8)

structure FrameLocation where
  offset : Nat
  length : Nat
  first : Nat
  count : Nat
  deriving DecidableEq, Repr

/-- The last sequence of a frame that is not empty. -/
def FrameLocation.last (frame : FrameLocation) : Nat := frame.first + frame.count - 1

structure Store where
  header : WalHeader
  limits : Limits
  frames : List FrameLocation
  summaries : List BlockSummary
  nextSequence : Nat
  endOffset : Nat
  lastKnown : Option Timestamp
  poisoned : Bool

/-- One file operation that is going to fail. -/
structure Fault where
  operation : FileOperation
  /-- The number of earlier uses of the operation that still succeed. -/
  skipped : Nat
  /-- The number of bytes that a failing write leaves behind. -/
  written : Nat
  deriving DecidableEq, Repr

/-- The files, the handle of the single writer, the events that the commit subscribers saw,
and the failure that is still to come. -/
structure World where
  disk : Disk
  store : Store
  acknowledged : List StoredEvent
  fault : Option Fault

abbrev Process := Procedure World StorageError

def failNow (world : World) (operation : FileOperation) : Option Fault :=
  world.fault.filter fun fault => fault.operation = operation && fault.skipped = 0

/-- A fault on this operation comes one use closer. -/
def pass (operation : FileOperation) (fault : Fault) : Fault :=
  if fault.operation = operation then { fault with skipped := fault.skipped - 1 } else fault

/-- The operation changes the files. A failing one leaves what its written bytes amount to. -/
def fileOperation (operation : FileOperation) (partly : Nat → Disk → Disk) (fully : Disk → Disk) :
    Process Unit := fun world =>
  match failNow world operation with
  | some fault =>
      (.error (.io operation.label), { world with disk := partly fault.written world.disk, fault := none })
  | none => (.ok (), { world with disk := fully world.disk, fault := world.fault.map (pass operation) })

/-- An operation that takes effect as a whole or not at all. -/
def atomicOperation (operation : FileOperation) (fully : Disk → Disk) : Process Unit :=
  fileOperation operation (fun _ disk => disk) fully

/-- An operation that only looks at the files. -/
def observe (operation : FileOperation) : Process Unit := atomicOperation operation id

/-- The bytes replace what stands at the offset. -/
def overwrite (offset : Nat) (bytes wal : List UInt8) : List UInt8 :=
  wal.take offset ++ bytes ++ wal.drop (offset + bytes.length)

/-- The file is cut, or extended with zeros. -/
def setLen (length : Nat) (wal : List UInt8) : List UInt8 := (wal.take length).rightpad length 0

/-- Exactly the requested bytes, or nothing when the file is too short. -/
def readExact (operation : FileOperation) (wal : List UInt8) (offset length : Nat) :
    Except StorageError (List UInt8) :=
  if offset + length ≤ wal.length then .ok (LittleEndian.slice wal offset length)
  else .error (.io operation.label)

def readBoundedFile (file : Option (List UInt8)) (maxBytes : Nat) : Except StorageError (List UInt8) :=
  match file with
  | none => .error (.io FileOperation.openBoundedFile.label)
  | some bytes => do
      refuseIf (maxBytes < bytes.length) (.format (.limitExceeded "file bytes"))
      return bytes

/-- The bounded read together with the operations that it consists of. -/
def readBounded (file : Option (List UInt8)) (maxBytes : Nat) : Process (List UInt8) := do
  observe .openBoundedFile
  observe .inspectBoundedFile
  let bytes ← Procedure.lift (readBoundedFile file maxBytes)
  observe .readBoundedFile
  observe .checkBoundedFileEnd
  return bytes

namespace SegmentManifest

def loadIfExists : Process (Option SegmentManifest) := do
  observe .inspectManifest
  let world ← Procedure.read
  match world.disk.manifest with
  | none => return none
  | some manifest =>
      observe .readManifest
      return some manifest

def save (manifest : SegmentManifest) : Process Unit := do
  observe .createManifestDirectory
  observe .createTemporaryManifest
  observe .writeTemporaryManifest
  observe .synchronizeTemporaryManifest
  atomicOperation .replaceManifest fun disk => { disk with manifest := some manifest }

end SegmentManifest

section Operations

/-- Without a fault the operation has its full effect. -/
theorem fileOperation_ok {operation : FileOperation} {partly : Nat → Disk → Disk} {fully : Disk → Disk}
    {world : World} (sound : world.fault = none) :
    fileOperation operation partly fully world = (.ok (), { world with disk := fully world.disk }) := by
  simp [fileOperation, failNow, sound]

theorem observe_ok {operation : FileOperation} {world : World} (sound : world.fault = none) :
    observe operation world = (.ok (), world) := by
  rw [observe, atomicOperation, fileOperation_ok sound, id]

theorem readBounded_ok {file : Option (List UInt8)} {maxBytes : Nat} {world : World}
    (sound : world.fault = none) : readBounded file maxBytes world = (readBoundedFile file maxBytes, world) := by
  unfold readBounded
  rw [Procedure.bind_of_ok (observe_ok sound), Procedure.bind_of_ok (observe_ok sound), Procedure.bind_apply,
    Procedure.lift_apply]
  cases readBoundedFile file maxBytes with
  | error error => rfl
  | ok bytes =>
      dsimp only
      rw [Procedure.bind_of_ok (observe_ok sound), Procedure.bind_of_ok (observe_ok sound), Procedure.pure_apply]

theorem loadIfExists_ok {world : World} (sound : world.fault = none) :
    SegmentManifest.loadIfExists world = (.ok world.disk.manifest, world) := by
  unfold SegmentManifest.loadIfExists
  rw [Procedure.bind_of_ok (observe_ok sound), Procedure.bind_of_ok (Procedure.read_apply world)]
  cases present : world.disk.manifest with
  | none => rfl
  | some manifest => exact Procedure.bind_of_ok (observe_ok sound)

theorem save_ok {manifest : SegmentManifest} {world : World} (sound : world.fault = none) :
    manifest.save world =
      (.ok (), { world with disk := { world.disk with manifest := some manifest } }) := by
  unfold SegmentManifest.save
  rw [Procedure.bind_of_ok (observe_ok sound), Procedure.bind_of_ok (observe_ok sound),
    Procedure.bind_of_ok (observe_ok sound), Procedure.bind_of_ok (observe_ok sound), atomicOperation,
    fileOperation_ok sound]

/-- An operation meets what its full effect ensures, or what a fault leaves behind. -/
theorem fileOperation_meets {operation : FileOperation} {partly : Nat → Disk → Disk} {fully : Disk → Disk}
    {before : World → Prop} {after : Unit → World → Prop} {failed : StorageError → World → Prop}
    (succeeds : ∀ world, before world →
      after () { world with disk := fully world.disk, fault := world.fault.map (pass operation) })
    (fails : ∀ world fault, before world → world.fault = some fault →
      failed (.io operation.label) { world with disk := partly fault.written world.disk, fault := none }) :
    Procedure.Meets before (fileOperation operation partly fully) after failed := by
  intro world start
  unfold fileOperation
  cases broken : failNow world operation with
  | none => exact succeeds world start
  | some fault => exact fails world fault start (Option.filter_eq_some_iff.mp broken).1

theorem readBoundedFile_ok {file : Option (List UInt8)} {maxBytes : Nat} {bytes : List UInt8} :
    readBoundedFile file maxBytes = .ok bytes ↔ file = some bytes ∧ bytes.length ≤ maxBytes := by
  cases file with
  | none => simp [readBoundedFile]
  | some content =>
      simp only [readBoundedFile, Except.bind_eq_ok, Except.refuseIf_ok, exists_const, Nat.not_lt, pure, Except.pure,
        Except.ok.injEq, Option.some.injEq]
      constructor
      · intro steps
        obtain ⟨bound, rfl⟩ := steps
        exact ⟨rfl, bound⟩
      · intro holds
        obtain ⟨rfl, bound⟩ := holds
        exact ⟨bound, rfl⟩

theorem readExact_ok {operation : FileOperation} {wal bytes : List UInt8} {offset length : Nat} :
    readExact operation wal offset length = .ok bytes ↔
      offset + length ≤ wal.length ∧ LittleEndian.slice wal offset length = bytes := by
  unfold readExact
  split <;> simp_all

end Operations

end Temnion.Storage
