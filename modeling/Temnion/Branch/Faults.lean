import Temnion.Branch.Saved

/-
This file lets every file operation of the manager fail and says when an error leaves its manifest as it is saved.
-/

namespace Temnion.Branch

open Format Storage Replay

/-- The step of an atomic write that fails. None of them touches the file that is there. -/
inductive WriteStep where
  | entropy
  | openTemporary
  | writeTemporary
  | synchronize
  | publish
  deriving DecidableEq

def WriteStep.error : WriteStep → BranchError
  | .entropy => .format "entropy error"
  | .openTemporary => .io "open temporary manifest"
  | .writeTemporary => .io "write temporary manifest"
  | .synchronize => .io "synchronize temporary manifest"
  | .publish => .io "publish manifest"

/-- The operations of a fork that fail. A store that could not be created may leave some of its files. -/
structure Faults where
  openStore : Option StorageError
  createFolder : Bool
  createStore : Option (StorageError × Option Disk)
  atomicWrite : Option WriteStep

/-- Everything works. -/
def Faults.absent : Faults := ⟨none, false, none, none⟩

namespace RootDir

/-- The directory holds the store of a database. -/
def HasStore (rootDir : RootDir) : Prop := ∃ folder, rootDir.folders 0 = some folder ∧ folder.store.isSome = true

/-- The files that stay behind never replace a store. -/
def leave (rootDir : RootDir) (id : BranchId) (left : Option Disk) : RootDir :=
  { rootDir with
    folders := Function.update rootDir.folders id
      ((rootDir.folders id).map fun folder => { folder with store := folder.store.or left }) }

variable [Crc32fast]

def openStoreWith (fault : Option StorageError) (rootDir : RootDir) (id : BranchId) : Except StorageError Store :=
  match fault with
  | some error => .error error
  | none => rootDir.openStore id

def createStoreWith (fault : Option (StorageError × Option Disk)) (rootDir : RootDir) (id : BranchId)
    (database : DatabaseId) : Except StorageError Unit × RootDir :=
  match fault with
  | some (error, left) => (.error error, rootDir.leave id left)
  | none =>
      match rootDir.createStore id database with
      | .error error => (.error error, rootDir)
      | .ok stored => (.ok (), stored)

end RootDir

namespace BranchManager

variable [Crc32fast]

def checkForkWith (fault : Option StorageError) (manager : BranchManager) (parentId : BranchId) (forkSequence : UInt64) :
    Except BranchError BranchId := do
  match manager.manifest.branches[parentId]? with
  | none => .error (.parentNotFound parentId)
  | some parentMeta => do
      refuseIf (parentMeta.lifecycle = .retired) (.branchAlreadyRetired parentId)
      let parentStore ← asBranch (manager.rootDir.openStoreWith fault parentId)
      let parentLen := parentStore.nextSequence
      refuseIf (parentLen ≤ forkSequence.toNat ∧ 0 < parentLen)
        (.invalidForkSequence forkSequence (UInt64.ofNat (parentLen - 1)))
      return manager.manifest.branches.maxKey?.getD 0 + 1

/-- What a fork does before it edits the manifest. -/
def prepareFork (faults : Faults) (manager : BranchManager) (database : DatabaseId) (parentId : BranchId)
    (forkSequence : UInt64) : Except BranchError BranchId × RootDir :=
  match manager.checkForkWith faults.openStore parentId forkSequence with
  | .error error => (.error error, manager.rootDir)
  | .ok nextId =>
      if faults.createFolder then (.error (.io "create branch directory"), manager.rootDir)
      else
        match (manager.rootDir.createFolder nextId).createStoreWith faults.createStore nextId database with
        | (.error error, left) => (.error (.storage error), left)
        | (.ok _, stored) => (.ok nextId, stored)

/-- The edited manifest is written. -/
def save (fault : Option WriteStep) (manager : BranchManager) : Except BranchError Unit × BranchManager :=
  match fault with
  | some step => (.error step.error, manager)
  | none => (.ok (), { manager with rootDir := manager.rootDir.publish manager.manifest })

def createForkWith (faults : Faults) (manager : BranchManager) (database : DatabaseId) (parentId : BranchId)
    (name : String) (forkSequence : UInt64) (lifecycle : BranchLifecycle) : Except BranchError BranchId × BranchManager :=
  match manager.prepareFork faults database parentId forkSequence with
  | (.error error, rootDir) => (.error error, { manager with rootDir := rootDir })
  | (.ok nextId, rootDir) =>
      let edited := withBranch manager.manifest ⟨nextId, name, some (parentId, forkSequence), lifecycle, 0⟩
      let (outcome, reached) := save faults.atomicWrite ⟨rootDir, edited⟩
      (outcome.map fun _ => nextId, reached)

def setLifecycleWith (fault : Option WriteStep) (manager : BranchManager) (id : BranchId) (lifecycle : BranchLifecycle) :
    Except BranchError Unit × BranchManager :=
  match manager.manifest.branches[id]? with
  | none => (.error (.branchNotFound id), manager)
  | some branch =>
      let edited : BranchManifest := { manager.manifest with
        branches := manager.manifest.branches.insert id { branch with lifecycle := lifecycle } }
      save fault { manager with manifest := edited }

theorem createForkWith_absent (manager : BranchManager) (database : DatabaseId) (parentId : BranchId) (name : String)
    (forkSequence : UInt64) (lifecycle : BranchLifecycle) :
    manager.createForkWith .absent database parentId name forkSequence lifecycle =
      manager.createFork database parentId name forkSequence lifecycle := by
  have checked : manager.checkForkWith none parentId forkSequence = manager.checkFork parentId forkSequence := rfl
  unfold createForkWith createFork prepareFork
  rw [Faults.absent, checked]
  cases manager.checkFork parentId forkSequence with
  | error error => rfl
  | ok nextId =>
      dsimp only [RootDir.createStoreWith]
      rw [if_neg Bool.false_ne_true]
      cases (manager.rootDir.createFolder nextId).createStore nextId database with
      | error error => rfl
      | ok stored => rfl

theorem setLifecycleWith_none (manager : BranchManager) (id : BranchId) (lifecycle : BranchLifecycle) :
    manager.setLifecycleWith none id lifecycle = manager.setLifecycle id lifecycle := by
  unfold setLifecycleWith setLifecycle
  cases manager.manifest.branches[id]? with
  | none => rfl
  | some branch => rfl

/-- A manifest is on disk when its file was written for it or is read as it, and is read as it when everything fits. -/
def OnDisk (manager : BranchManager) : Prop :=
  ∃ bytes, manager.rootDir.manifest = some bytes ∧
    (bytes = manager.manifest.encode ∨ BranchManifest.decode bytes = .ok manager.manifest) ∧
    (manager.manifest.Fits → BranchManifest.decode bytes = .ok manager.manifest)

end BranchManager

/-- A call on a manager with the operations that fail. A failed append leaves any files of the store. -/
inductive Attempt where
  | fork (faults : Faults) (database : DatabaseId) (parent : BranchId) (name : String) (forkSequence : UInt64)
      (lifecycle : BranchLifecycle)
  | setLifecycle (fault : Option WriteStep) (id : BranchId) (lifecycle : BranchLifecycle)
  | append (fault : Option (StorageError × Disk)) (id : BranchId) (events : List WriteEvent)
  | reopen

namespace BranchManager

variable [Crc32fast]

/-- A manager that cannot be opened again is kept. -/
def attempt (manager : BranchManager) : Attempt → Except BranchError Unit × BranchManager
  | .fork faults database parent name forkSequence lifecycle =>
      let (outcome, reached) := manager.createForkWith faults database parent name forkSequence lifecycle
      (outcome.map fun _ => (), reached)
  | .setLifecycle fault id lifecycle => manager.setLifecycleWith fault id lifecycle
  | .append (some (error, left)) id _ => (.error (.storage error), { manager with rootDir := manager.rootDir.putStore id left })
  | .append none id events =>
      let (outcome, reached, _) := manager.appendToBranch id events
      (outcome.map fun _ => (), reached)
  | .reopen =>
      match openManager manager.rootDir with
      | .error error => (.error error, manager)
      | .ok again => (.ok (), again)

/-- An error leaves the manifest unchanged and on disk. -/
def Atomic (manager : BranchManager) (attempt : Attempt) : Prop :=
  ∀ error, (manager.attempt attempt).1 = .error error →
    (manager.attempt attempt).2.manifest = manager.manifest ∧ (manager.attempt attempt).2.OnDisk

/-- The write does not fail when it is reached with an edited manifest. -/
def Writes (manager : BranchManager) : Attempt → Prop
  | .fork faults database parent _ forkSequence _ =>
      ∀ nextId, (manager.prepareFork faults database parent forkSequence).1 = .ok nextId → faults.atomicWrite = none
  | .setLifecycle fault id lifecycle =>
      ∀ branch, manager.manifest.branches[id]? = some branch → branch.lifecycle ≠ lifecycle → fault = none
  | .append _ _ _ => True
  | .reopen => True

/-- A manager that was opened on these files and whose writes of edited manifests did not fail. -/
inductive Reached (rootDir : RootDir) : BranchManager → Prop where
  | opened {manager : BranchManager} (opens : openManager rootDir = .ok manager) : Reached rootDir manager
  | attempted {manager : BranchManager} (reached : Reached rootDir manager) {attempt : Attempt}
      (writes : manager.Writes attempt) : Reached rootDir (manager.attempt attempt).2

end BranchManager

section Files

variable [Crc32fast] {rootDir stored : RootDir} {id : BranchId}

omit [Crc32fast] in
/-- A change of one directory that keeps a store keeps the store of the database. -/
theorem RootDir.HasStore.update (has : rootDir.HasStore) {folder : Option Folder} {manifest : Option (List UInt8)}
    (keeps : ∀ before, rootDir.folders id = some before → before.store.isSome = true →
      ∃ after, folder = some after ∧ after.store.isSome = true) :
    RootDir.HasStore ⟨manifest, Function.update rootDir.folders id folder⟩ := by
  obtain ⟨before, found, store⟩ := has
  unfold HasStore
  dsimp only
  by_cases here : id = 0
  · rw [here] at keeps ⊢
    rw [Function.update_self]
    exact keeps before found store
  · rw [Function.update_of_ne (Ne.symm here)]
    exact ⟨before, found, store⟩

omit [Crc32fast] in
theorem RootDir.HasStore.createFolder (has : rootDir.HasStore) (id : BranchId) : (rootDir.createFolder id).HasStore := by
  apply has.update
  intro before found store
  rw [found]
  exact ⟨before, rfl, store⟩

omit [Crc32fast] in
theorem RootDir.HasStore.putStore (has : rootDir.HasStore) (id : BranchId) (disk : Disk) :
    (rootDir.putStore id disk).HasStore := by
  apply has.update
  intro before found _
  rw [found]
  exact ⟨_, rfl, rfl⟩

omit [Crc32fast] in
theorem RootDir.HasStore.leave (has : rootDir.HasStore) (id : BranchId) (left : Option Disk) :
    (rootDir.leave id left).HasStore := by
  apply has.update
  intro before found store
  rw [found]
  refine ⟨_, rfl, ?_⟩
  obtain ⟨disk, same⟩ := Option.isSome_iff_exists.mp store
  dsimp only
  rw [same]
  rfl

/-- A new store is put into a directory without one. -/
theorem createStore_ok {database : DatabaseId} (made : rootDir.createStore id database = .ok stored) :
    (rootDir.folders id).any (·.store.isSome) = false ∧ ∃ disk, stored = rootDir.putStore id disk := by
  obtain ⟨_, free, made⟩ := Except.bind_eq_ok.mp made
  obtain ⟨⟨disk, store⟩, _, same⟩ := Except.bind_eq_ok.mp made
  exact ⟨Bool.eq_false_iff.mpr (Except.refuseIf_ok.mp free), disk, (Except.ok.inj same).symm⟩

/-- The creation of a store keeps the manifest and the store of the database, and gives none to its directory. -/
theorem createStoreWith_keeps (fault : Option (StorageError × Option Disk)) (database : DatabaseId) :
    let reached := rootDir.createStoreWith fault id database
    reached.2.manifest = rootDir.manifest ∧ (rootDir.HasStore → reached.2.HasStore) ∧
      ((∃ done, reached.1 = .ok done) → rootDir.HasStore → id ≠ 0) := by
  unfold RootDir.createStoreWith
  cases fault with
  | some fault =>
      refine ⟨rfl, fun has => has.leave id fault.2, ?_⟩
      rintro ⟨_, impossible⟩
      cases impossible
  | none =>
      dsimp only
      cases made : rootDir.createStore id database with
      | error error =>
          refine ⟨rfl, fun has => has, ?_⟩
          rintro ⟨_, impossible⟩
          cases impossible
      | ok stored =>
          obtain ⟨free, disk, rfl⟩ := createStore_ok made
          refine ⟨rfl, fun has => has.putStore id disk, fun _ has here => ?_⟩
          obtain ⟨folder, found, store⟩ := has
          rw [here, found, Option.any_some, store] at free
          contradiction

end Files

/-- The number behind the highest one is free, unless the numbers are used up. -/
theorem next_free {branches : Branches} (positive : branches.maxKey?.getD 0 + 1 ≠ 0) :
    branches[branches.maxKey?.getD 0 + 1]? = none := by
  by_contra taken
  have member : branches.maxKey?.getD 0 + 1 ∈ branches :=
    Std.ExtTreeMap.mem_iff_isSome_getElem?.mpr (Option.isSome_iff_ne_none.mpr taken)
  obtain ⟨top, highest⟩ := Option.isSome_iff_exists.mp (Std.ExtTreeMap.isSome_maxKey?_of_mem member)
  rw [highest, Option.getD_some] at member positive
  have below := (Std.ExtTreeMap.maxKey?_eq_some_iff_mem_and_forall.mp highest).2 _ member
  rw [Std.isLE_compare, UInt64.le_iff_toNat_le, UInt64.toNat_add, UInt64.toNat_one] at below
  apply positive
  apply UInt64.toNat_inj.mp
  have bound := top.toNat_lt
  rw [UInt64.toNat_add, UInt64.toNat_one, UInt64.toNat_zero]
  omega

section Runs

variable [Crc32fast] {manager : BranchManager} {rootDir : RootDir}

namespace BranchManager

theorem checkForkWith_ok {fault : Option StorageError} {parentId nextId : BranchId} {forkSequence : UInt64}
    (passed : manager.checkForkWith fault parentId forkSequence = .ok nextId) :
    nextId = manager.manifest.branches.maxKey?.getD 0 + 1 := by
  unfold checkForkWith at passed
  split at passed
  · contradiction
  · obtain ⟨_, _, passed⟩ := Except.bind_eq_ok.mp passed
    obtain ⟨_, _, passed⟩ := Except.bind_eq_ok.mp passed
    obtain ⟨_, _, passed⟩ := Except.bind_eq_ok.mp passed
    exact (Except.ok.inj passed).symm

/-- Before the manifest is edited, only the directory of the new branch has changed, and its number is free. -/
theorem prepareFork_keeps (faults : Faults) (database : DatabaseId) (parentId : BranchId) (forkSequence : UInt64) :
    let reached := manager.prepareFork faults database parentId forkSequence
    reached.2.manifest = manager.rootDir.manifest ∧ (manager.rootDir.HasStore → reached.2.HasStore) ∧
      ∀ nextId, reached.1 = .ok nextId → manager.rootDir.HasStore → manager.manifest.branches[nextId]? = none := by
  unfold prepareFork
  cases checked : manager.checkForkWith faults.openStore parentId forkSequence with
  | error error =>
      refine ⟨rfl, fun has => has, ?_⟩
      intro nextId impossible
      cases impossible
  | ok nextId =>
      dsimp only
      by_cases blocked : faults.createFolder = true
      · rw [if_pos blocked]
        refine ⟨rfl, fun has => has, ?_⟩
        intro nextId impossible
        cases impossible
      · rw [if_neg blocked]
        have kept := @createStoreWith_keeps _ (manager.rootDir.createFolder nextId) nextId faults.createStore database
        cases made : (manager.rootDir.createFolder nextId).createStoreWith faults.createStore nextId database with
        | mk outcome files =>
            rw [made] at kept
            obtain ⟨manifest, has, apart⟩ := kept
            cases outcome with
            | error error =>
                refine ⟨manifest, fun before => has (before.createFolder nextId), ?_⟩
                intro nextId impossible
                cases impossible
            | ok done =>
                refine ⟨manifest, fun before => has (before.createFolder nextId), ?_⟩
                intro other same before
                obtain rfl := Except.ok.inj same
                have next := checkForkWith_ok checked
                have positive := apart ⟨done, rfl⟩ (before.createFolder nextId)
                rw [next] at positive ⊢
                exact next_free positive

/-- What holds in every state of a run: the manifest is on disk, every branch has its own number, and the database has
its store. -/
structure Sound (manager : BranchManager) : Prop where
  onDisk : manager.OnDisk
  keyed : manager.manifest.Keyed
  hasStore : manager.rootDir.HasStore

theorem OnDisk.move (onDisk : manager.OnDisk) (same : rootDir.manifest = manager.rootDir.manifest) :
    OnDisk ⟨rootDir, manager.manifest⟩ := by
  obtain ⟨bytes, saved, written, reads⟩ := onDisk
  exact ⟨bytes, same.trans saved, written, reads⟩

/-- A manifest that was written is on disk. -/
theorem onDisk_publish {manifest : BranchManifest} (keyed : manifest.Keyed) :
    OnDisk ⟨rootDir.publish manifest, manifest⟩ :=
  ⟨manifest.encode, rfl, .inl rfl, (BranchManifest.decode_encode_iff keyed).mpr⟩

theorem openManager_sound (database : rootDir.HasStore) (opens : openManager rootDir = .ok manager) : manager.Sound := by
  unfold openManager at opens
  cases saved : rootDir.manifest with
  | some bytes =>
      rw [saved] at opens
      obtain ⟨manifest, read, same⟩ := Except.bind_eq_ok.mp opens
      rw [← Except.ok.inj same]
      exact ⟨⟨bytes, saved, .inr read, fun _ => read⟩, BranchManifest.decode_keyed read, database⟩
  | none =>
      rw [saved] at opens
      obtain ⟨store, _, same⟩ := Except.bind_eq_ok.mp opens
      rw [← Except.ok.inj same]
      have keyed : BranchManifest.Keyed ⟨store.header.database, (∅ : Branches).insert 0 mainBranch⟩ := tree_main.keyed
      exact ⟨onDisk_publish keyed, keyed, database⟩

omit [Crc32fast] in
/-- A manifest with one more or one changed branch still has every branch under its own number. -/
theorem keyed_insert {manifest : BranchManifest} (keyed : manifest.Keyed) {id : BranchId} {branch : BranchMetadata}
    (same : branch.id = id) : BranchManifest.Keyed { manifest with branches := manifest.branches.insert id branch } := by
  intro place other found
  change (manifest.branches.insert id branch)[place]? = some other at found
  rw [getElem?_insert] at found
  split at found
  · next here => rw [← Option.some.inj found, same, here]
  · exact keyed place other found

/-- A fork that cannot be prepared ends there, and another one writes the manifest with its branch. -/
theorem attempt_fork (faults : Faults) (database : DatabaseId) (parent : BranchId) (name : String) (forkSequence : UInt64)
    (lifecycle : BranchLifecycle) :
    (∃ error files, manager.prepareFork faults database parent forkSequence = (.error error, files) ∧
      manager.attempt (.fork faults database parent name forkSequence lifecycle) = (.error error, ⟨files, manager.manifest⟩)) ∨
    ∃ nextId files, manager.prepareFork faults database parent forkSequence = (.ok nextId, files) ∧
      manager.attempt (.fork faults database parent name forkSequence lifecycle) = save faults.atomicWrite
        ⟨files, withBranch manager.manifest ⟨nextId, name, some (parent, forkSequence), lifecycle, 0⟩⟩ := by
  have ran : manager.attempt (.fork faults database parent name forkSequence lifecycle) =
      ((manager.createForkWith faults database parent name forkSequence lifecycle).1.map fun _ => (),
        (manager.createForkWith faults database parent name forkSequence lifecycle).2) := rfl
  rw [ran]
  unfold createForkWith
  cases prepared : manager.prepareFork faults database parent forkSequence with
  | mk outcome files =>
      cases outcome with
      | error error => exact .inl ⟨error, files, rfl, rfl⟩
      | ok nextId =>
          refine .inr ⟨nextId, files, rfl, ?_⟩
          dsimp only
          cases faults.atomicWrite with
          | none => rfl
          | some step => rfl

omit [Crc32fast] in
/-- A branch that gets its own lifecycle leaves the manifest as it is. -/
theorem relabel_same {manifest : BranchManifest} {id : BranchId} {branch : BranchMetadata}
    (found : manifest.branches[id]? = some branch) :
    ({ manifest with branches := manifest.branches.insert id { branch with lifecycle := branch.lifecycle } } :
      BranchManifest) = manifest := by
  have same : manifest.branches.insert id { branch with lifecycle := branch.lifecycle } = manifest.branches := by
    apply Std.ExtTreeMap.ext_getElem?
    intro place
    rw [getElem?_insert]
    split
    · next here => rw [← here, found]
    · rfl
  rw [same]

/-- A change of a lifecycle whose write fails is kept in memory and never reaches the disk. -/
theorem relabel_fails {id : BranchId} {branch : BranchMetadata} {lifecycle : BranchLifecycle}
    (found : manager.manifest.branches[id]? = some branch) (differ : branch.lifecycle ≠ lifecycle) (step : WriteStep) :
    let reached := manager.attempt (.setLifecycle (some step) id lifecycle)
    reached.1 = .error step.error ∧ reached.2.manifest ≠ manager.manifest ∧ reached.2.rootDir = manager.rootDir := by
  have ends : manager.attempt (.setLifecycle (some step) id lifecycle) = (.error step.error, { manager with
      manifest := { manager.manifest with
        branches := manager.manifest.branches.insert id { branch with lifecycle := lifecycle } } }) := by
    change manager.setLifecycleWith (some step) id lifecycle = _
    unfold setLifecycleWith
    rw [found]
    rfl
  rw [ends]
  refine ⟨rfl, ?_, rfl⟩
  intro same
  have again := congrArg (fun manifest : BranchManifest => manifest.branches[id]?) same
  change (manager.manifest.branches.insert id _)[id]? = manager.manifest.branches[id]? at again
  rw [getElem?_insert, if_pos rfl, found] at again
  exact differ (congrArg BranchMetadata.lifecycle (Option.some.inj again)).symm

/-- A manager that is opened again is the one on its files, or there is none. -/
theorem attempt_reopen (manager : BranchManager) : (∃ error, manager.attempt .reopen = (.error error, manager)) ∨
    ∃ again, openManager manager.rootDir = .ok again ∧ manager.attempt .reopen = (.ok (), again) := by
  unfold attempt
  cases opens : openManager manager.rootDir with
  | error error => exact .inl ⟨error, rfl⟩
  | ok again => exact .inr ⟨again, rfl, rfl⟩

theorem appendToBranch_keeps (has : manager.rootDir.HasStore) (id : BranchId) (events : List WriteEvent) :
    let reached := (manager.appendToBranch id events).2.1
    reached.manifest = manager.manifest ∧ reached.rootDir.manifest = manager.rootDir.manifest ∧
      reached.rootDir.HasStore := by
  unfold appendToBranch
  cases manager.manifest.branches[id]? with
  | none => exact ⟨rfl, rfl, has⟩
  | some branch =>
      dsimp only
      by_cases closed : branch.lifecycle = .retired
      · rw [if_pos closed]
        exact ⟨rfl, rfl, has⟩
      · rw [if_neg closed]
        cases manager.rootDir.storeFiles id with
        | error error => exact ⟨rfl, rfl, has⟩
        | ok disk => exact ⟨rfl, rfl, has.putStore id _⟩

/-- A call whose write does not fail keeps what holds in every state of a run. -/
theorem Sound.attempt (sound : manager.Sound) {attempt : Attempt} (writes : manager.Writes attempt) :
    (manager.attempt attempt).2.Sound := by
  cases attempt with
  | fork faults database parent name forkSequence lifecycle =>
      obtain ⟨manifest, has, _⟩ := @prepareFork_keeps _ manager faults database parent forkSequence
      rcases manager.attempt_fork faults database parent name forkSequence lifecycle with
        ⟨error, files, prepared, ends⟩ | ⟨nextId, files, prepared, ends⟩
      · rw [prepared] at manifest has
        rw [ends]
        exact ⟨sound.onDisk.move manifest, sound.keyed, has sound.hasStore⟩
      · rw [prepared] at has
        rw [ends, writes nextId (congrArg Prod.fst prepared)]
        have keyed := @keyed_insert _ sound.keyed nextId ⟨nextId, name, some (parent, forkSequence), lifecycle, 0⟩ rfl
        exact ⟨onDisk_publish keyed, keyed, has sound.hasStore⟩
  | setLifecycle fault id lifecycle =>
      change (manager.setLifecycleWith fault id lifecycle).2.Sound
      unfold setLifecycleWith
      cases found : manager.manifest.branches[id]? with
      | none => exact sound
      | some branch =>
          dsimp only
          have keyed := @keyed_insert _ sound.keyed id { branch with lifecycle := lifecycle } (sound.keyed id branch found)
          by_cases same : branch.lifecycle = lifecycle
          · cases fault with
            | none => exact ⟨onDisk_publish keyed, keyed, sound.hasStore⟩
            | some step =>
                rw [← same, relabel_same found]
                exact sound
          · rw [writes branch found same]
            exact ⟨onDisk_publish keyed, keyed, sound.hasStore⟩
  | append fault id events =>
      cases fault with
      | some fault => exact ⟨sound.onDisk.move rfl, sound.keyed, sound.hasStore.putStore id fault.2⟩
      | none =>
          obtain ⟨manifest, saved, has⟩ := manager.appendToBranch_keeps sound.hasStore id events
          change (manager.appendToBranch id events).2.1.Sound
          refine ⟨?_, ?_, has⟩
          · have moved := sound.onDisk.move saved
            rw [← manifest] at moved
            exact moved
          · rw [manifest]
            exact sound.keyed
  | reopen =>
      rcases manager.attempt_reopen with ⟨error, ends⟩ | ⟨again, opens, ends⟩
      · rw [ends]
        exact sound
      · rw [ends]
        exact openManager_sound sound.hasStore opens

theorem Reached.sound (database : rootDir.HasStore) (reached : Reached rootDir manager) : manager.Sound := by
  induction reached with
  | opened opens => exact openManager_sound database opens
  | attempted _ writes hypothesis => exact hypothesis.attempt writes

/-- A call with an error leaves the manifest unchanged and on disk if and only if its write of an edited manifest does not
fail. -/
theorem Sound.atomic_iff (sound : manager.Sound) (attempt : Attempt) : manager.Atomic attempt ↔ manager.Writes attempt := by
  constructor
  · intro atomic
    cases attempt with
    | fork faults database parent name forkSequence lifecycle =>
        intro nextId prepared
        obtain ⟨_, _, free⟩ := @prepareFork_keeps _ manager faults database parent forkSequence
        rcases manager.attempt_fork faults database parent name forkSequence lifecycle with
          ⟨error, files, failed, _⟩ | ⟨other, files, passed, ends⟩
        · rw [failed] at prepared
          cases prepared
        · cases fault : faults.atomicWrite with
          | none => rfl
          | some step =>
              rw [fault] at ends
              obtain ⟨same, _⟩ := atomic step.error (congrArg Prod.fst ends)
              rw [ends] at same
              have absent := free other (congrArg Prod.fst passed) sound.hasStore
              have found := congrArg (fun manifest : BranchManifest => manifest.branches[other]?) same
              change (manager.manifest.branches.insert other _)[other]? = manager.manifest.branches[other]? at found
              rw [getElem?_insert, if_pos rfl, absent] at found
              cases found
    | setLifecycle fault id lifecycle =>
        intro branch found differ
        cases fault with
        | none => rfl
        | some step =>
            obtain ⟨failed, edited, _⟩ := manager.relabel_fails found differ step
            exact absurd (atomic step.error failed).1 edited
    | append => trivial
    | reopen => trivial
  · intro writes error failed
    refine ⟨?_, (sound.attempt writes).onDisk⟩
    cases attempt with
    | fork faults database parent name forkSequence lifecycle =>
        rcases manager.attempt_fork faults database parent name forkSequence lifecycle with
          ⟨other, files, _, ends⟩ | ⟨nextId, files, passed, ends⟩
        · rw [ends]
        · rw [ends, writes nextId (congrArg Prod.fst passed)] at failed
          cases failed
    | setLifecycle fault id lifecycle =>
        change (manager.setLifecycleWith fault id lifecycle).1 = _ at failed
        change (manager.setLifecycleWith fault id lifecycle).2.manifest = _
        unfold setLifecycleWith at failed ⊢
        cases found : manager.manifest.branches[id]? with
        | none => rfl
        | some branch =>
            rw [found] at failed
            dsimp only at failed ⊢
            cases fault with
            | none => cases failed
            | some step =>
                by_cases same : branch.lifecycle = lifecycle
                · rw [← same]
                  exact relabel_same found
                · cases writes branch found same
    | append fault id events =>
        cases fault with
        | some fault => rfl
        | none => exact (manager.appendToBranch_keeps sound.hasStore id events).1
    | reopen =>
        rcases manager.attempt_reopen with ⟨other, ends⟩ | ⟨again, opens, ends⟩
        · rw [ends]
        · rw [ends] at failed
          cases failed

/-- In a run whose writes of edited manifests do not fail the manifest stays on disk, and the next call is atomic if and
only if its write does not fail either. -/
theorem atomic_on_error_iff (database : rootDir.HasStore) (reached : Reached rootDir manager) (attempt : Attempt) :
    manager.OnDisk ∧ (manager.Atomic attempt ↔ manager.Writes attempt) :=
  ⟨(reached.sound database).onDisk, (reached.sound database).atomic_iff attempt⟩

end BranchManager

end Runs

section Samples

/-- The files of a database with one event. -/
def sampleRoot [Crc32fast] : RootDir := rootOnly ((System.fresh sampleDatabase 1 1 Limits.default).run (bareCommands 1)).disk

theorem sampleRoot_opens [Crc32fast] : ∃ manager, BranchManager.openManager sampleRoot = .ok manager ∧
    manager.manifest.branches[(0 : BranchId)]? = some mainBranch := by
  obtain ⟨system, started, named, _⟩ := bareStart (by decide : 1 < 2 ^ 32)
  obtain ⟨manager, opens, same⟩ := Except.bind_eq_ok.mp started
  refine ⟨manager, opens, ?_⟩
  rw [← Except.ok.inj same] at named
  change manager.manifest = _ at named
  rw [named, getElem?_insert, if_pos rfl]

/-- The manifest is not edited when a branch gets the lifecycle that it has, and a failed write does no harm. -/
theorem atomic_on_error_iff_sample :
    letI := Crc32fast.ieee
    ∃ manager, BranchManager.openManager sampleRoot = .ok manager ∧
      manager.Atomic (.setLifecycle (some .publish) 0 .active) := by
  generalize Crc32fast.ieee = inst
  obtain ⟨manager, opens, main⟩ := sampleRoot_opens
  have database : sampleRoot.HasStore := ⟨_, rfl, rfl⟩
  refine ⟨manager, opens, (BranchManager.atomic_on_error_iff database (.opened opens) _).2.mpr ?_⟩
  intro branch found differ
  rw [main] at found
  rw [← Option.some.inj found] at differ
  exact absurd rfl differ

/-- A branch is retired, and the new manifest cannot be renamed: the manager says that it is retired, and the disk that it
is active. -/
theorem retirement_not_undone :
    letI := Crc32fast.ieee
    ∃ manager, BranchManager.openManager sampleRoot = .ok manager ∧
      let reached := manager.attempt (.setLifecycle (some .publish) 0 .retired)
      reached.1 = .error (.io "publish manifest") ∧ reached.2.manifest ≠ manager.manifest ∧
        reached.2.rootDir = manager.rootDir := by
  generalize Crc32fast.ieee = inst
  obtain ⟨manager, opens, main⟩ := sampleRoot_opens
  exact ⟨manager, opens, manager.relabel_fails main (by decide) .publish⟩

end Samples

end Temnion.Branch
