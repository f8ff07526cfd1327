import Temnion.Branch.Manifest

/-
This file models the manager of the branches over the files below the database directory.
-/

namespace Temnion.Branch

open Format LittleEndian Storage Replay

/-- The directory of one branch. It may hold no store yet. -/
structure Folder where
  store : Option Disk
  checkpoints : CheckpointStore

/-- The files below the database directory. The directory of branch 0 is the database directory itself. -/
structure RootDir where
  manifest : Option (List UInt8)
  folders : BranchId → Option Folder

structure TimelineSegment where
  branchId : BranchId
  startSeq : UInt64
  endSeq : Option UInt64
  deriving DecidableEq

namespace TimelineSegment

/-- The position lies within the segment. -/
def Owns (segment : TimelineSegment) (position : UInt64) : Prop :=
  segment.startSeq ≤ position ∧ ∀ stop ∈ segment.endSeq, position ≤ stop

instance (segment : TimelineSegment) (position : UInt64) : Decidable (segment.Owns position) :=
  inferInstanceAs (Decidable (_ ∧ ∀ stop ∈ segment.endSeq, position ≤ stop))

end TimelineSegment

structure BranchManager where
  rootDir : RootDir
  manifest : BranchManifest

/-- An error of the storage is an error of the branches. -/
def asBranch {A : Type} (outcome : Except StorageError A) : Except BranchError A := outcome.mapError .storage

@[simp] theorem asBranch_ok {A : Type} (value : A) : asBranch (.ok value) = .ok value := rfl

@[simp] theorem asBranch_error {A : Type} (error : StorageError) :
    asBranch (.error error : Except StorageError A) = .error (.storage error) := rfl

namespace RootDir

/-- The files of a store, for which its directory and its log must be there. -/
def storeFiles (rootDir : RootDir) (id : BranchId) : Except StorageError Disk :=
  match rootDir.folders id with
  | none => .error (.io "open writer lock")
  | some folder =>
      match folder.store with
      | none => .error (.io "open WAL")
      | some disk => .ok disk

/-- The first durable effect of a fork. -/
def createFolder (rootDir : RootDir) (id : BranchId) : RootDir :=
  { rootDir with
    folders := Function.update rootDir.folders id (some ((rootDir.folders id).getD ⟨none, ⟨[]⟩⟩)) }

def putStore (rootDir : RootDir) (id : BranchId) (disk : Disk) : RootDir :=
  { rootDir with
    folders := Function.update rootDir.folders id
      ((rootDir.folders id).map fun folder => { folder with store := some disk }) }

variable [Crc32fast]

def openStore (rootDir : RootDir) (id : BranchId) : Except StorageError Store := do
  let disk ← rootDir.storeFiles id
  let (store, _) ← (Store.openStore Limits.default .rejectIncompleteTail disk).1
  return store

/-- The second durable effect of a fork. A log that is already there is not replaced. -/
def createStore (rootDir : RootDir) (id : BranchId) (database : DatabaseId) : Except StorageError RootDir := do
  refuseIf ((rootDir.folders id).any (·.store.isSome)) .alreadyExists
  let (disk, _) ← Storage.create database id.toUInt32 1 Limits.default
  return rootDir.putStore id disk

/-- The last durable effect of a fork replaces the manifest as a whole. -/
def publish (rootDir : RootDir) (manifest : BranchManifest) : RootDir :=
  { rootDir with manifest := some manifest.encode }

end RootDir

def mainBranch : BranchMetadata := ⟨0, "main", none, .active, 0⟩

namespace BranchManager

def ofRoot (rootDir : RootDir) (database : DatabaseId) [Crc32fast] : BranchManager :=
  let manifest : BranchManifest := ⟨database, (∅ : Branches).insert 0 mainBranch⟩
  ⟨rootDir.publish manifest, manifest⟩

variable [Crc32fast]

/-- The manager over a directory with its saved manifest, or with a new one when none is there. -/
def openManager (rootDir : RootDir) : Except BranchError BranchManager :=
  match rootDir.manifest with
  | some bytes => do
      let manifest ← BranchManifest.decode bytes
      return ⟨rootDir, manifest⟩
  | none => do
      let store ← asBranch (rootDir.openStore 0)
      return ofRoot rootDir store.header.database

/-- What a fork checks before it changes anything. It gives the identity of the new branch. -/
def checkFork (manager : BranchManager) (parentId : BranchId) (forkSequence : UInt64) : Except BranchError BranchId := do
  match manager.manifest.branches[parentId]? with
  | none => .error (.parentNotFound parentId)
  | some parentMeta => do
      refuseIf (parentMeta.lifecycle = .retired) (.branchAlreadyRetired parentId)
      let parentStore ← asBranch (manager.rootDir.openStore parentId)
      let parentLen := parentStore.nextSequence
      refuseIf (parentLen ≤ forkSequence.toNat ∧ 0 < parentLen)
        (.invalidForkSequence forkSequence (UInt64.ofNat (parentLen - 1)))
      return manager.manifest.branches.maxKey?.getD 0 + 1

/-- The manifest with one more branch. -/
def withBranch (manifest : BranchManifest) (branch : BranchMetadata) : BranchManifest :=
  { manifest with branches := manifest.branches.insert branch.id branch }

/-- The identity of the database of the new log comes from the system. -/
def createFork (manager : BranchManager) (database : DatabaseId) (parentId : BranchId) (name : String)
    (forkSequence : UInt64) (lifecycle : BranchLifecycle) : Except BranchError BranchId × BranchManager :=
  match manager.checkFork parentId forkSequence with
  | .error error => (.error error, manager)
  | .ok nextId =>
      let made := manager.rootDir.createFolder nextId
      match made.createStore nextId database with
      | .error error => (.error (.storage error), { manager with rootDir := made })
      | .ok stored =>
          let manifest := withBranch manager.manifest ⟨nextId, name, some (parentId, forkSequence), lifecycle, 0⟩
          (.ok nextId, ⟨stored.publish manifest, manifest⟩)

def setLifecycle (manager : BranchManager) (id : BranchId) (lifecycle : BranchLifecycle) :
    Except BranchError Unit × BranchManager :=
  match manager.manifest.branches[id]? with
  | none => (.error (.branchNotFound id), manager)
  | some branch =>
      let manifest : BranchManifest := { manager.manifest with
        branches := manager.manifest.branches.insert id { branch with lifecycle := lifecycle } }
      (.ok (), ⟨manager.rootDir.publish manifest, manifest⟩)

/-- The walk from a branch to its root. A segment is pushed before those of the ancestors, and the segments are
reversed at the end, so that it stands behind them. Sequences wrap around. -/
def walk (branches : Branches) : Nat → BranchId → Option UInt64 → List TimelineSegment →
    Except BranchError (List TimelineSegment)
  | 0, _, _, _ => .error .outOfSteps
  | steps + 1, currId, childFork, segments =>
      match branches[currId]? with
      | none => .error (.branchNotFound currId)
      | some branch =>
          match branch.parent with
          | some (parentId, forkSeq) => walk branches steps parentId (some forkSeq) (⟨currId, forkSeq + 1, childFork⟩ :: segments)
          | none => .ok (⟨currId, 0, childFork⟩ :: segments)

/-- A walk that visits more branches than there are goes on forever. -/
def resolveTimeline (manager : BranchManager) (targetBranch : BranchId) : Except BranchError (List TimelineSegment) :=
  walk manager.manifest.branches (manager.manifest.branches.size + 1) targetBranch none []

/-- An append to the files of a store, with the events that it acknowledges. -/
def appendTo (disk : Disk) (events : List WriteEvent) : Except StorageError DurableReceipt × Disk × List StoredEvent :=
  match Store.openStore Limits.default .rejectIncompleteTail disk with
  | (.error error, disk) => (.error error, disk, [])
  | (.ok (store, _), disk) =>
      let (outcome, reached) := Store.append events ⟨disk, store, [], none⟩
      (outcome, reached.disk, reached.acknowledged)

/-- The first sequence of the appended events, the manager afterwards, and the events themselves. -/
def appendToBranch (manager : BranchManager) (id : BranchId) (events : List WriteEvent) :
    Except BranchError UInt64 × BranchManager × List StoredEvent :=
  match manager.manifest.branches[id]? with
  | none => (.error (.branchNotFound id), manager, [])
  | some branch =>
      if branch.lifecycle = .retired then (.error (.branchAlreadyRetired id), manager, [])
      else
        match manager.rootDir.storeFiles id with
        | .error error => (.error (.storage error), manager, [])
        | .ok disk =>
            let (outcome, reached, acknowledged) := appendTo disk events
            (asBranch (outcome.map fun receipt => receipt.first.sequence),
              { manager with rootDir := manager.rootDir.putStore id reached }, acknowledged)

/-- The reconstruction on the branch that owns the target, on its own store and up to the same number. -/
def reconstructAt {S : Type} [Inhabited S] (manager : BranchManager) (id : BranchId) (targetSequence : UInt64)
    (reducer : StateReducer S) (decodeState : List UInt8 → Except ReplayError S) :
    Except BranchError (S × CheckpointHeader) := do
  let timeline ← manager.resolveTimeline id
  match timeline.find? fun segment => segment.Owns targetSequence with
  | none => .error (.invalidForkSequence targetSequence 0)
  | some activeSegment => do
      let disk ← asBranch (manager.rootDir.storeFiles activeSegment.branchId)
      let checkpoints := ((manager.rootDir.folders activeSegment.branchId).map (·.checkpoints)).getD ⟨[]⟩
      ((ReplayEngine.new disk checkpoints 0).reconstructAtSequence targetSequence reducer decodeState).1.mapError .replay

end BranchManager

end Temnion.Branch
