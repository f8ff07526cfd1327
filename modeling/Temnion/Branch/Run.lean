import Temnion.Branch.Timeline
import Temnion.Replay.Exact

/-
This file runs a manager of branches through its commands. The timelines of the branches only grow.
-/

namespace Temnion.Branch

open Format LittleEndian Storage Replay

/-- A manager with the events that were acknowledged for each branch. -/
structure BranchSystem where
  manager : BranchManager
  acknowledged : BranchId → List StoredEvent

inductive BranchCommand where
  | fork (database : DatabaseId) (parent : BranchId) (name : String) (forkSequence : UInt64)
      (lifecycle : BranchLifecycle)
  | setLifecycle (id : BranchId) (lifecycle : BranchLifecycle)
  | append (id : BranchId) (events : List WriteEvent)

/-- A database directory without a manifest of branches. -/
def rootOnly (disk : Disk) : RootDir := ⟨none, Function.update (fun _ => none) 0 (some ⟨some disk, ⟨[]⟩⟩)⟩

theorem rootOnly_folders (disk : Disk) (id : BranchId) :
    (rootOnly disk).folders id = if id = 0 then some ⟨some disk, ⟨[]⟩⟩ else none := by
  exact Function.update_apply (fun _ => none) 0 _ id

namespace BranchSystem

variable [Crc32fast]

/-- A new manager over a database. -/
def start (root : System) : Except BranchError BranchSystem := do
  let manager ← BranchManager.openManager (rootOnly root.disk)
  return ⟨manager, Function.update (fun _ => []) 0 root.acknowledged⟩

def step (system : BranchSystem) : BranchCommand → BranchSystem
  | .fork database parent name forkSequence lifecycle =>
      { system with manager := (system.manager.createFork database parent name forkSequence lifecycle).2 }
  | .setLifecycle id lifecycle => { system with manager := (system.manager.setLifecycle id lifecycle).2 }
  | .append id events =>
      let reached := (system.manager.appendToBranch id events).2
      ⟨reached.1, Function.update system.acknowledged id (system.acknowledged id ++ reached.2)⟩

def run (system : BranchSystem) (commands : List BranchCommand) : BranchSystem := commands.foldl step system

@[simp] theorem run_nil (system : BranchSystem) : system.run [] = system := rfl

@[simp] theorem run_cons (system : BranchSystem) (command : BranchCommand) (commands : List BranchCommand) :
    system.run (command :: commands) = (system.step command).run commands := rfl

/-- Every command of a run is allowed in the state that it starts from. -/
def Follows (allowed : BranchSystem → BranchCommand → Prop) : BranchSystem → List BranchCommand → Prop
  | _, [] => True
  | system, command :: commands => allowed system command ∧ Follows allowed (system.step command) commands

end BranchSystem

section Trees

variable {branches : Branches} {count : Nat}

theorem getElem?_insert (branches : Branches) (id place : BranchId) (branch : BranchMetadata) :
    (branches.insert id branch)[place]? = if id = place then some branch else branches[place]? := by
  rw [Std.ExtTreeMap.getElem?_insert]
  simp only [Std.LawfulEqOrd.compare_eq_iff_eq]

theorem parentOf_insert (branches : Branches) (id place : BranchId) (branch : BranchMetadata) :
    parentOf (branches.insert id branch) place = if id = place then branch.parent else parentOf branches place := by
  rw [parentOf, getElem?_insert]
  split <;> rfl

theorem Tree.present (tree : Tree branches count) {id : BranchId} {branch : BranchMetadata}
    (found : branches[id]? = some branch) : id.toNat < count := by
  rw [← tree.keys, Std.ExtTreeMap.mem_iff_isSome_getElem?, found]
  rfl

/-- The first branch is alone. -/
theorem tree_main : Tree ((∅ : Branches).insert 0 mainBranch) 1 where
  positive := Nat.one_pos
  bound := by decide
  keys := by
    intro id
    rw [Std.ExtTreeMap.mem_iff_isSome_getElem?, getElem?_insert, Nat.lt_one_iff]
    have zero : id.toNat = 0 ↔ 0 = id := by
      rw [eq_comm, ← UInt64.toNat_inj]
      rfl
    rw [zero]
    split <;> simp [*]
  size := by
    rw [Std.ExtTreeMap.size_insert]
    simp
  keyed := by
    intro id branch found
    rw [getElem?_insert] at found
    split at found
    · next same =>
        obtain rfl := Option.some.inj found
        exact same
    · rw [Std.ExtTreeMap.getElem?_empty] at found
      contradiction
  root := by
    rw [parentOf_insert, if_pos rfl]
    rfl
  parents := by
    intro id inside other
    exact absurd (UInt64.toNat_inj.mp (Nat.lt_one_iff.mp inside)) other

/-- A branch may get another lifecycle. -/
theorem Tree.relabel (tree : Tree branches count) {id : BranchId} {branch other : BranchMetadata}
    (found : branches[id]? = some branch) (same : other.id = branch.id) (linked : other.parent = branch.parent) :
    Tree (branches.insert id other) count ∧ ∀ place, parentOf (branches.insert id other) place = parentOf branches place := by
  have parents : ∀ place, parentOf (branches.insert id other) place = parentOf branches place := by
    intro place
    rw [parentOf_insert]
    split
    · next here => rw [← here, linked, parentOf_eq found]
    · rfl
  have held : id ∈ branches := Std.ExtTreeMap.mem_iff_isSome_getElem?.mpr (found ▸ rfl)
  refine ⟨⟨tree.positive, tree.bound, ?_, ?_, ?_, ?_, ?_⟩, parents⟩
  · intro place
    rw [← tree.keys, Std.ExtTreeMap.mem_insert, Std.LawfulEqOrd.compare_eq_iff_eq]
    exact or_iff_right_of_imp fun here => here ▸ held
  · rw [Std.ExtTreeMap.size_insert, if_pos (Std.ExtTreeMap.contains_iff_mem.mpr held), tree.size]
  · intro place found' entry
    rw [getElem?_insert] at entry
    split at entry
    · next here =>
        rw [← Option.some.inj entry, same, ← here]
        exact tree.keyed id branch found
    · exact tree.keyed place found' entry
  · rw [parents]
    exact tree.root
  · intro place inside other
    rw [parents]
    exact tree.parents place inside other

/-- A new branch gets the next number. -/
theorem Tree.extend (tree : Tree branches count) {branch : BranchMetadata} {parent : BranchId} {sequence : UInt64}
    (small : count < 2 ^ 64) (number : branch.id.toNat = count) (forked : branch.parent = some (parent, sequence))
    (before : parent.toNat < count) :
    Tree (branches.insert branch.id branch) (count + 1) ∧
      ∀ place, place ≠ branch.id → parentOf (branches.insert branch.id branch) place = parentOf branches place := by
  have parents : ∀ place, place ≠ branch.id →
      parentOf (branches.insert branch.id branch) place = parentOf branches place := by
    intro place other
    rw [parentOf_insert, if_neg fun here => other here.symm]
  have fresh : ¬ branch.id ∈ branches := by
    rw [tree.keys]
    omega
  have nonzero : (0 : BranchId) ≠ branch.id := by
    intro same
    have zero : branch.id.toNat = 0 := by rw [← same]; rfl
    have positive := tree.positive
    omega
  refine ⟨⟨Nat.succ_pos _, small, ?_, ?_, ?_, ?_, ?_⟩, parents⟩
  · intro place
    have here : branch.id = place ↔ place.toNat = count := by
      rw [← number, UInt64.toNat_inj, eq_comm]
    rw [Std.ExtTreeMap.mem_insert, Std.LawfulEqOrd.compare_eq_iff_eq, tree.keys, here]
    omega
  · rw [Std.ExtTreeMap.size_insert, if_neg (mt Std.ExtTreeMap.contains_iff_mem.mp fresh), tree.size]
  · intro place found entry
    rw [getElem?_insert] at entry
    split at entry
    · next here =>
        rw [← Option.some.inj entry]
        exact here
    · exact tree.keyed place found entry
  · rw [parents 0 nonzero]
    exact tree.root
  · intro place inside other
    by_cases here : place = branch.id
    · refine ⟨parent, sequence, ?_, ?_⟩
      · rw [parentOf_insert, if_pos here.symm, forked]
      · rw [here, number]
        exact before
    · rw [parents place here]
      apply tree.parents place _ other
      have different : place.toNat ≠ count := fun same => here (UInt64.toNat_inj.mp (same.trans number.symm))
      omega

/-- The next number is the number of branches. It wraps around when every number is taken. -/
theorem Tree.next_eq (tree : Tree branches count) :
    branches.maxKey?.getD 0 + 1 = UInt64.ofNat count := by
  have positive := tree.positive
  have bound := tree.bound
  have last : (UInt64.ofNat (count - 1)).toNat = count - 1 := toNat_ofNat (by omega)
  have highest : branches.maxKey? = some (UInt64.ofNat (count - 1)) := by
    rw [Std.ExtTreeMap.maxKey?_eq_some_iff_mem_and_forall, tree.keys, last]
    refine ⟨by omega, fun id member => ?_⟩
    have inside := (tree.keys id).mp member
    rw [Std.isLE_compare, UInt64.le_iff_toNat_le, last]
    omega
  rw [highest, Option.getD_some, ← UInt64.toNat_inj, UInt64.toNat_add, last, UInt64.toNat_one, UInt64.toNat_ofNat']
  rw [Nat.sub_add_cancel positive]

end Trees

variable [Crc32fast]

/-- The files of the branches hold the logs, and the manifest is saved. -/
structure Holds (system : BranchSystem) (count : Nat) (logs : BranchId → Log) : Prop where
  tree : Tree system.manager.manifest.branches count
  saved : system.manager.rootDir.manifest = some system.manager.manifest.encode
  stores : ∀ id, id.toNat < count → ∃ disk store,
    system.manager.rootDir.folders id = some ⟨some disk, ⟨[]⟩⟩ ∧ Inv (SealedOnce store.header) (logs id) disk store
  absent : ∀ id, count ≤ id.toNat → system.manager.rootDir.folders id = none
  acknowledged : ∀ id, id.toNat < count → system.acknowledged id = (logs id).events
  silent : ∀ id, count ≤ id.toNat → system.acknowledged id = []
  live : ∀ id, id.toNat < count → ∀ batch ∈ (logs id).live, BatchFits Limits.default batch

/-- What a command changes about the timelines: nothing, one more branch without events, or more events of one branch. -/
inductive Effect (branches later : Branches) (count : Nat) (logs : BranchId → Log) :
    BranchCommand → Nat → (BranchId → Log) → Prop where
  | keep {command : BranchCommand} (same : ∀ place, parentOf later place = parentOf branches place) :
      Effect branches later count logs command count logs
  | fork {database : DatabaseId} {parent : BranchId} {name : String} {forkSequence : UInt64} {lifecycle : BranchLifecycle}
      (small : count < 2 ^ 64) (before : parent.toNat < count)
      (link : parentOf later (UInt64.ofNat count) = some (parent, forkSequence))
      (same : ∀ place, place ≠ UInt64.ofNat count → parentOf later place = parentOf branches place)
      (guard : forkSequence.toNat < (logs parent).events.length ∨ (logs parent).events = []) :
      Effect branches later count logs (.fork database parent name forkSequence lifecycle) (count + 1)
        (Function.update logs (UInt64.ofNat count) Log.empty)
  | append {id : BranchId} {events : List WriteEvent} {fresh : List StoredEvent} (inside : id.toNat < count)
      (same : ∀ place, parentOf later place = parentOf branches place) :
      Effect branches later count logs (.append id events) count
        (Function.update logs id ((logs id).extend fresh))

section Steps

variable {system : BranchSystem} {count : Nat} {logs : BranchId → Log}

/-- The records of a next batch are determined. -/
theorem nextBatch_unique {store : Store} {events : List WriteEvent} {fresh other : List StoredEvent}
    (usable : store.poisoned = false) (next : NextBatch store events fresh) (again : NextBatch store events other) :
    fresh = other := by
  have first := (prepare_ok usable).mpr ⟨fresh, next, rfl⟩
  have second := (prepare_ok usable).mpr ⟨other, again, rfl⟩
  exact congrArg Store.Prepared.records (Except.ok.inj (first.symm.trans second))

/-- An append to a store that opens commits the batch that may come next, or it changes nothing when there is none. -/
theorem appendTo_cases {log : Log} {disk : Disk} {store : Store} (inv : Inv (SealedOnce store.header) log disk store)
    (live : ∀ batch ∈ log.live, BatchFits Limits.default batch) (events : List WriteEvent) :
    (∃ error, BranchManager.appendTo disk events = (.error error, disk, []) ∧
        ∀ fresh, ¬ NextBatch (opened store.header Limits.default log) events fresh) ∨
      ∃ receipt fresh later reached, BranchManager.appendTo disk events = (.ok receipt, later, fresh) ∧
        NextBatch (opened store.header Limits.default log) events fresh ∧
        Inv (SealedOnce reached.header) (log.extend fresh) later reached ∧ BatchFits Limits.default fresh := by
  unfold BranchManager.appendTo
  obtain ⟨ends, again⟩ := inv.reopen .rejectIncompleteTail (rfl : validateLimits Limits.default = .ok ()) live
  rw [ends]
  dsimp only
  let world : World := ⟨disk, opened store.header Limits.default log, [], none⟩
  have sound : world.fault = none := rfl
  have usable : world.store.poisoned = false := again.tracks.usable
  have aligned : world.disk.wal.length = world.store.endOffset := again.walExact
  rcases (append_eq sound usable aligned : _ ∨ ∃ error, world.store.prepare events = .error error ∧ _) with
    ⟨fresh, next, done⟩ | ⟨error, failed, done⟩
  · refine Or.inr ⟨world.store.receipt fresh, fresh, (committed fresh world).disk, world.store.pushBatch fresh, ?_, next, ?_⟩
    · change ((Store.append events world).1, (Store.append events world).2.disk,
        (Store.append events world).2.acknowledged) = _
      rw [done]
      rfl
    · have same : (world.store.pushBatch fresh).header = store.header := opened_header
      have limits : world.store.limits = Limits.default := opened_limits
      rw [same]
      exact ⟨again.commit next, limits ▸ next.fits⟩
  · refine Or.inl ⟨error, ?_, fun fresh next => ?_⟩
    · change ((Store.append events world).1, (Store.append events world).2.disk,
        (Store.append events world).2.acknowledged) = _
      rw [done]
    · rw [(prepare_ok usable).mpr ⟨fresh, next, rfl⟩] at failed
      contradiction

/-- The files of a branch are there. -/
theorem Holds.storeFiles (holds : Holds system count logs) {id : BranchId} (inside : id.toNat < count) :
    ∃ disk store, system.manager.rootDir.storeFiles id = .ok disk ∧
      system.manager.rootDir.folders id = some ⟨some disk, ⟨[]⟩⟩ ∧ Inv (SealedOnce store.header) (logs id) disk store := by
  obtain ⟨disk, store, folder, inv⟩ := holds.stores id inside
  refine ⟨disk, store, ?_, folder, inv⟩
  rw [RootDir.storeFiles, folder]

/-- A change of the manifest that keeps the tree. -/
theorem Holds.relabel (holds : Holds system count logs) (id : BranchId) (lifecycle : BranchLifecycle) :
    Effect system.manager.manifest.branches (system.step (.setLifecycle id lifecycle)).manager.manifest.branches count logs
        (.setLifecycle id lifecycle) count logs ∧ Holds (system.step (.setLifecycle id lifecycle)) count logs := by
  cases found : system.manager.manifest.branches[id]? with
  | none =>
      have kept : system.step (.setLifecycle id lifecycle) = system := by
        rw [BranchSystem.step, BranchManager.setLifecycle, found]
      rw [kept]
      exact ⟨.keep fun place => rfl, holds⟩
  | some branch =>
      let manifest : BranchManifest := { system.manager.manifest with
        branches := system.manager.manifest.branches.insert id { branch with lifecycle := lifecycle } }
      have reached : system.step (.setLifecycle id lifecycle) =
          ⟨⟨system.manager.rootDir.publish manifest, manifest⟩, system.acknowledged⟩ := by
        rw [BranchSystem.step, BranchManager.setLifecycle, found]
      obtain ⟨tree, parents⟩ : Tree manifest.branches count ∧ _ := holds.tree.relabel found rfl rfl
      rw [reached]
      exact ⟨.keep parents, tree, rfl, holds.stores, holds.absent, holds.acknowledged, holds.silent, holds.live⟩

/-- What an append to an active branch does, in terms of the append to its files. -/
theorem Holds.appendToBranch_eq (holds : Holds system count logs) {id : BranchId} {branch : BranchMetadata}
    (found : system.manager.manifest.branches[id]? = some branch) (active : branch.lifecycle ≠ .retired)
    (events : List WriteEvent) :
    ∃ disk store, system.manager.rootDir.folders id = some ⟨some disk, ⟨[]⟩⟩ ∧
      Inv (SealedOnce store.header) (logs id) disk store ∧
      system.manager.appendToBranch id events =
        (asBranch ((BranchManager.appendTo disk events).1.map fun receipt => receipt.first.sequence),
          { system.manager with
            rootDir := system.manager.rootDir.putStore id (BranchManager.appendTo disk events).2.1 },
          (BranchManager.appendTo disk events).2.2) := by
  obtain ⟨disk, store, files, folder, inv⟩ := holds.storeFiles (holds.tree.present found)
  refine ⟨disk, store, folder, inv, ?_⟩
  rw [BranchManager.appendToBranch, found]
  dsimp only
  rw [if_neg active, files]

/-- A committed append keeps the files and the tree. -/
theorem Holds.appended (holds : Holds system count logs) {id : BranchId} (inside : id.toNat < count) {disk later : Disk}
    {store : Store} {fresh : List StoredEvent}
    (folder : system.manager.rootDir.folders id = some ⟨some disk, ⟨[]⟩⟩)
    (again : Inv (SealedOnce store.header) ((logs id).extend fresh) later store) (fits : BatchFits Limits.default fresh) :
    Holds ⟨{ system.manager with rootDir := system.manager.rootDir.putStore id later },
      Function.update system.acknowledged id (system.acknowledged id ++ fresh)⟩ count
      (Function.update logs id ((logs id).extend fresh)) := by
  have apart : ∀ {place : BranchId}, count ≤ place.toNat → place ≠ id := by
    intro place beyond same
    rw [same] at beyond
    omega
  refine ⟨holds.tree, holds.saved, ?_, ?_, ?_, ?_, ?_⟩
  · intro place bound
    by_cases here : place = id
    · subst here
      refine ⟨later, store, ?_, ?_⟩
      · change Function.update _ _ _ _ = _
        rw [Function.update_self, folder]
        rfl
      · rw [Function.update_self]
        exact again
    · obtain ⟨disk', other, folder', inv'⟩ := holds.stores place bound
      refine ⟨disk', other, ?_, ?_⟩
      · change Function.update _ _ _ _ = _
        rw [Function.update_of_ne here]
        exact folder'
      · rw [Function.update_of_ne here]
        exact inv'
  · intro place beyond
    change Function.update _ _ _ _ = _
    rw [Function.update_of_ne (apart beyond)]
    exact holds.absent place beyond
  · intro place bound
    by_cases here : place = id
    · subst here
      change Function.update _ _ _ _ = _
      rw [Function.update_self, Function.update_self, Log.extend_events, holds.acknowledged _ bound]
    · change Function.update _ _ _ _ = _
      rw [Function.update_of_ne here, Function.update_of_ne here]
      exact holds.acknowledged place bound
  · intro place beyond
    change Function.update _ _ _ _ = _
    rw [Function.update_of_ne (apart beyond)]
    exact holds.silent place beyond
  · intro place bound batch member
    by_cases here : place = id
    · rw [here, Function.update_self] at member
      rcases List.mem_append.mp member with member | member
      · exact holds.live id inside batch member
      · exact List.mem_singleton.mp member ▸ fits
    · rw [Function.update_of_ne here] at member
      exact holds.live place bound batch member

theorem Holds.append (holds : Holds system count logs) (id : BranchId) (events : List WriteEvent) :
    ∃ reached, Effect system.manager.manifest.branches (system.step (.append id events)).manager.manifest.branches count logs
        (.append id events) count reached ∧ Holds (system.step (.append id events)) count reached := by
  have unchanged : ∀ error, system.manager.appendToBranch id events = (error, system.manager, []) →
      ∃ reached, Effect system.manager.manifest.branches
        (system.step (.append id events)).manager.manifest.branches count logs
        (.append id events) count reached ∧ Holds (system.step (.append id events)) count reached := by
    intro error same
    have kept : system.step (.append id events) = system := by
      rw [BranchSystem.step, same, List.append_nil, Function.update_eq_self]
    rw [kept]
    exact ⟨logs, .keep fun place => rfl, holds⟩
  cases found : system.manager.manifest.branches[id]? with
  | none => exact unchanged (.error (.branchNotFound id)) (by rw [BranchManager.appendToBranch, found])
  | some branch =>
      have inside := holds.tree.present found
      by_cases closed : branch.lifecycle = .retired
      · apply unchanged (.error (.branchAlreadyRetired id))
        rw [BranchManager.appendToBranch, found]
        exact if_pos closed
      · obtain ⟨disk, store, folder, inv, reached⟩ := holds.appendToBranch_eq found closed events
        rcases appendTo_cases inv (holds.live id inside) events with ⟨error, failed, _⟩ |
          ⟨receipt, fresh, later, store', done, _, again, fits⟩
        · apply unchanged (.error (.storage error))
          have same : system.manager.rootDir.putStore id disk = system.manager.rootDir := by
            rw [RootDir.putStore, folder, Option.map_some, ← folder, Function.update_eq_self]
          rw [reached, failed]
          dsimp only
          rw [same]
          rfl
        · have ends : system.step (.append id events) =
              ⟨{ system.manager with rootDir := system.manager.rootDir.putStore id later },
                Function.update system.acknowledged id (system.acknowledged id ++ fresh)⟩ := by
            rw [BranchSystem.step, reached, done]
          rw [ends]
          exact ⟨_, .append inside fun place => rfl, holds.appended inside folder again fits⟩

/-- An append of a batch that may come next commits it. -/
theorem Holds.append_next (holds : Holds system count logs) {id : BranchId} {branch : BranchMetadata}
    (found : system.manager.manifest.branches[id]? = some branch) (active : branch.lifecycle ≠ .retired)
    {events : List WriteEvent} {disk : Disk} {store : Store} {fresh : List StoredEvent}
    (folder : system.manager.rootDir.folders id = some ⟨some disk, ⟨[]⟩⟩)
    (inv : Inv (SealedOnce store.header) (logs id) disk store)
    (next : NextBatch (opened store.header Limits.default (logs id)) events fresh) :
    (system.step (.append id events)).manager.manifest = system.manager.manifest ∧
      Holds (system.step (.append id events)) count (Function.update logs id ((logs id).extend fresh)) := by
  have inside := holds.tree.present found
  obtain ⟨disk', _, folder', _, reached⟩ := holds.appendToBranch_eq found active events
  obtain rfl : disk = disk' := by
    rw [folder] at folder'
    exact Option.some.inj (congrArg Folder.store (Option.some.inj folder'))
  obtain ⟨_, again⟩ := inv.reopen .rejectIncompleteTail (rfl : validateLimits Limits.default = .ok ())
    (holds.live id inside)
  rcases appendTo_cases inv (holds.live id inside) events with ⟨error, _, never⟩ |
    ⟨receipt, other, later, store', done, next', committed, fits⟩
  · exact absurd next (never fresh)
  · obtain rfl := nextBatch_unique again.tracks.usable next next'
    have ends : system.step (.append id events) =
        ⟨{ system.manager with rootDir := system.manager.rootDir.putStore id later },
          Function.update system.acknowledged id (system.acknowledged id ++ fresh)⟩ := by
      rw [BranchSystem.step, reached, done]
    rw [ends]
    exact ⟨rfl, holds.appended inside folder committed fits⟩

/-- The store of a branch opens with the events of its log. -/
theorem Holds.openStore (holds : Holds system count logs) {id : BranchId} (inside : id.toNat < count) :
    ∃ store, system.manager.rootDir.openStore id = .ok store ∧ store.nextSequence = (logs id).events.length := by
  obtain ⟨disk, store, files, _, inv⟩ := holds.storeFiles inside
  obtain ⟨ends, again⟩ := inv.reopen .rejectIncompleteTail (rfl : validateLimits Limits.default = .ok ())
    (holds.live id inside)
  refine ⟨opened store.header Limits.default (logs id), ?_, again.tracks.nextSequence⟩
  unfold RootDir.openStore
  rw [files, Except.ok_bind, ends]
  rfl

/-- A branch without a directory gets one with an empty store. -/
theorem createStore_absent {rootDir : RootDir} {id : BranchId} (absent : rootDir.folders id = none)
    (database : DatabaseId) :
    ∃ disk store, (rootDir.createFolder id).createStore id database =
        .ok ⟨rootDir.manifest, Function.update rootDir.folders id (some ⟨some disk, ⟨[]⟩⟩)⟩ ∧
      Inv (SealedOnce store.header) Log.empty disk store := by
  have created : Storage.create database id.toUInt32 1 Limits.default = _ := Storage.create_ok.mpr ⟨rfl, rfl, rfl⟩
  refine ⟨_, startStore ⟨database, id.toUInt32, 1⟩ Limits.default 0, ?_,
    create_inv (SealedOnce ⟨database, id.toUInt32, 1⟩) created⟩
  unfold RootDir.createStore
  have empty : (rootDir.createFolder id).folders id = some ⟨none, ⟨[]⟩⟩ := by
    change Function.update _ _ _ _ = _
    rw [Function.update_self, absent]
    rfl
  rw [empty, Except.refuseIf_bind (by decide), created, Except.ok_bind]
  change Except.ok (RootDir.mk _ (Function.update (Function.update _ _ _) id (Option.map _
    ((rootDir.createFolder id).folders id)))) = _
  rw [empty, Function.update_idem]
  rfl

/-- A store is not replaced. -/
theorem createStore_present {rootDir : RootDir} {id : BranchId} {disk : Disk} {checkpoints : CheckpointStore}
    (folder : rootDir.folders id = some ⟨some disk, checkpoints⟩) (database : DatabaseId) :
    rootDir.createFolder id = rootDir ∧ rootDir.createStore id database = .error .alreadyExists := by
  constructor
  · rw [RootDir.createFolder, folder, Option.getD_some, ← folder, Function.update_eq_self]
  · unfold RootDir.createStore
    rw [folder]
    rfl

/-- A fork that passes its checks gets the next number, and its sequence lies in the log of its parent unless that is
empty. -/
theorem Holds.checkFork_passed (holds : Holds system count logs) {parent nextId : BranchId} {forkSequence : UInt64}
    (passed : system.manager.checkFork parent forkSequence = .ok nextId) :
    nextId = UInt64.ofNat count ∧ parent.toNat < count ∧
      (forkSequence.toNat < (logs parent).events.length ∨ (logs parent).events = []) := by
  unfold BranchManager.checkFork at passed
  cases found : system.manager.manifest.branches[parent]? with
  | none =>
      rw [found] at passed
      contradiction
  | some parentMeta =>
      have before := holds.tree.present found
      rw [found] at passed
      obtain ⟨_, _, passed⟩ := Except.bind_eq_ok.mp passed
      obtain ⟨parentStore, opens, passed⟩ := Except.bind_eq_ok.mp passed
      obtain ⟨_, guard, passed⟩ := Except.bind_eq_ok.mp passed
      rw [Except.refuseIf_ok] at guard
      have next : nextId = UInt64.ofNat count := by
        rw [← holds.tree.next_eq]
        exact (Except.ok.inj passed).symm
      refine ⟨next, before, ?_⟩
      obtain ⟨store, opened, length⟩ := holds.openStore before
      rw [opened] at opens
      rw [← Except.ok.inj opens, length] at guard
      rcases Nat.eq_zero_or_pos (logs parent).events.length with empty | positive
      · exact Or.inr (List.length_eq_zero_iff.mp empty)
      · exact Or.inl (by omega)

/-- A fork passes its checks when its parent is not retired and the sequence lies in the log of its parent. -/
theorem Holds.checkFork_ok (holds : Holds system count logs) {parent : BranchId} {branch : BranchMetadata}
    {forkSequence : UInt64} (found : system.manager.manifest.branches[parent]? = some branch)
    (active : branch.lifecycle ≠ .retired)
    (guard : forkSequence.toNat < (logs parent).events.length ∨ (logs parent).events = []) :
    system.manager.checkFork parent forkSequence = .ok (UInt64.ofNat count) := by
  obtain ⟨store, opens, length⟩ := holds.openStore (holds.tree.present found)
  unfold BranchManager.checkFork
  rw [found]
  dsimp only
  rw [Except.refuseIf_bind active, opens, asBranch_ok, Except.ok_bind, Except.refuseIf_bind, ← holds.tree.next_eq]
  · rfl
  · rw [length]
    rcases guard with below | empty
    · omega
    · rw [empty, List.length_nil]
      omega

/-- What a fork does once its checks have passed. -/
theorem Holds.createFork_passed (holds : Holds system count logs) {parent nextId : BranchId} {forkSequence : UInt64}
    (passed : system.manager.checkFork parent forkSequence = .ok nextId) (number : nextId.toNat = count)
    (database : DatabaseId) (name : String) (lifecycle : BranchLifecycle) :
    let manifest := BranchManager.withBranch system.manager.manifest
      ⟨nextId, name, some (parent, forkSequence), lifecycle, 0⟩
    ∃ disk store, system.manager.createFork database parent name forkSequence lifecycle =
        (.ok nextId, ⟨RootDir.publish ⟨system.manager.rootDir.manifest,
          Function.update system.manager.rootDir.folders nextId (some ⟨some disk, ⟨[]⟩⟩)⟩ manifest, manifest⟩) ∧
      Inv (SealedOnce store.header) Log.empty disk store := by
  intro manifest
  obtain ⟨disk, store, created, inv⟩ := createStore_absent (holds.absent nextId number.ge) database
  refine ⟨disk, store, ?_, inv⟩
  rw [BranchManager.createFork, passed]
  dsimp only
  rw [created]

/-- A fork keeps the files and the tree. -/
theorem Holds.forked (holds : Holds system count logs) {parent nextId : BranchId} {forkSequence : UInt64}
    (passed : system.manager.checkFork parent forkSequence = .ok nextId) (number : nextId.toNat = count)
    (database : DatabaseId) (name : String) (lifecycle : BranchLifecycle) :
    let next := system.step (.fork database parent name forkSequence lifecycle)
    next.manager.manifest = BranchManager.withBranch system.manager.manifest
        ⟨nextId, name, some (parent, forkSequence), lifecycle, 0⟩ ∧
      Holds next (count + 1) (Function.update logs nextId Log.empty) := by
  intro next
  obtain ⟨_, before, _⟩ := holds.checkFork_passed passed
  obtain ⟨disk, store, made, inv⟩ := holds.createFork_passed passed number database name lifecycle
  have small : count < 2 ^ 64 := number ▸ nextId.toNat_lt
  let branch : BranchMetadata := ⟨nextId, name, some (parent, forkSequence), lifecycle, 0⟩
  let manifest := BranchManager.withBranch system.manager.manifest branch
  have reached : next = ⟨⟨RootDir.publish ⟨system.manager.rootDir.manifest,
      Function.update system.manager.rootDir.folders nextId (some ⟨some disk, ⟨[]⟩⟩)⟩ manifest, manifest⟩,
      system.acknowledged⟩ := by
    change BranchSystem.mk (system.manager.createFork database parent name forkSequence lifecycle).2 _ = _
    rw [made]
  obtain ⟨tree, _⟩ : Tree manifest.branches (count + 1) ∧ ∀ place, place ≠ nextId →
      parentOf manifest.branches place = parentOf system.manager.manifest.branches place :=
    holds.tree.extend small number (rfl : branch.parent = some (parent, forkSequence)) before
  have different : ∀ place : BranchId, place ≠ nextId → place.toNat ≠ count :=
    fun place other same => other (UInt64.toNat_inj.mp (same.trans number.symm))
  rw [reached]
  refine ⟨rfl, tree, rfl, ?_, ?_, ?_, ?_, ?_⟩
  · intro place inside
    by_cases here : place = nextId
    · refine ⟨disk, store, ?_, ?_⟩
      · change Function.update _ _ _ _ = _
        rw [here, Function.update_self]
      · rw [here, Function.update_self]
        exact inv
    · have apart := different place here
      obtain ⟨disk', store', folder, inv'⟩ := holds.stores place (by omega)
      refine ⟨disk', store', ?_, ?_⟩
      · change Function.update _ _ _ _ = _
        rw [Function.update_of_ne here]
        exact folder
      · rw [Function.update_of_ne here]
        exact inv'
  · intro place beyond
    have here : place ≠ nextId := by
      intro same
      rw [same] at beyond
      omega
    change Function.update _ _ _ _ = _
    rw [Function.update_of_ne here]
    exact holds.absent place (by omega)
  · intro place inside
    by_cases here : place = nextId
    · rw [here, Function.update_self]
      exact holds.silent nextId number.ge
    · have apart := different place here
      rw [Function.update_of_ne here]
      exact holds.acknowledged place (by omega)
  · exact fun place beyond => holds.silent place (by omega)
  · intro place inside batch member
    by_cases here : place = nextId
    · rw [here, Function.update_self] at member
      exact absurd member List.not_mem_nil
    · have apart := different place here
      rw [Function.update_of_ne here] at member
      exact holds.live place (by omega) batch member

/-- A fork makes the next branch, or it fails and changes nothing. -/
theorem Holds.fork (holds : Holds system count logs) (database : DatabaseId) (parent : BranchId) (name : String)
    (forkSequence : UInt64) (lifecycle : BranchLifecycle) :
    let command := BranchCommand.fork database parent name forkSequence lifecycle
    let outcome := (system.manager.createFork database parent name forkSequence lifecycle).1
    ((∃ error, outcome = .error error) ∧ system.step command = system) ∨
      (outcome = .ok (UInt64.ofNat count) ∧
        Effect system.manager.manifest.branches (system.step command).manager.manifest.branches count logs command
          (count + 1) (Function.update logs (UInt64.ofNat count) Log.empty) ∧
        Holds (system.step command) (count + 1) (Function.update logs (UInt64.ofNat count) Log.empty)) := by
  intro command outcome
  cases passed : system.manager.checkFork parent forkSequence with
  | error error =>
      have made : system.manager.createFork database parent name forkSequence lifecycle =
          (.error error, system.manager) := by
        rw [BranchManager.createFork, passed]
      refine Or.inl ⟨⟨error, congrArg Prod.fst made⟩, ?_⟩
      change BranchSystem.mk (system.manager.createFork database parent name forkSequence lifecycle).2 _ = _
      rw [made]
  | ok nextId =>
      obtain ⟨next, before, guard⟩ := holds.checkFork_passed passed
      rcases Nat.lt_or_ge count (2 ^ 64) with small | full
      · have number : nextId.toNat = count := by
          rw [next]
          exact toNat_ofNat small
        obtain ⟨disk, store, made, _⟩ := holds.createFork_passed passed number database name lifecycle
        obtain ⟨reached, again⟩ := holds.forked passed number database name lifecycle
        rw [next] at made reached again
        refine Or.inr ⟨congrArg Prod.fst made, ?_, again⟩
        refine .fork small before ?_ (fun place other => ?_) guard
        · rw [reached, BranchManager.withBranch, parentOf_insert, if_pos rfl]
        · rw [reached, BranchManager.withBranch, parentOf_insert, if_neg other.symm]
      · have zero : nextId = 0 := by
          rw [next, Nat.le_antisymm holds.tree.bound full]
          rfl
        obtain ⟨disk, store, folder, inv⟩ := holds.stores 0 holds.tree.positive
        rw [← zero] at folder
        obtain ⟨same, taken⟩ := createStore_present folder database
        have made : system.manager.createFork database parent name forkSequence lifecycle =
            (.error (.storage .alreadyExists), system.manager) := by
          rw [BranchManager.createFork, passed]
          dsimp only
          rw [same, taken]
        refine Or.inl ⟨⟨_, congrArg Prod.fst made⟩, ?_⟩
        change BranchSystem.mk (system.manager.createFork database parent name forkSequence lifecycle).2 _ = _
        rw [made]

/-- Every command has one of the listed effects. -/
theorem Holds.step (holds : Holds system count logs) (command : BranchCommand) :
    ∃ later reached, Effect system.manager.manifest.branches (system.step command).manager.manifest.branches count logs
        command later reached ∧ Holds (system.step command) later reached := by
  cases command with
  | fork database parent name forkSequence lifecycle =>
      rcases holds.fork database parent name forkSequence lifecycle with ⟨_, kept⟩ | ⟨_, effect, next⟩
      · rw [kept]
        exact ⟨count, logs, .keep fun place => rfl, holds⟩
      · exact ⟨_, _, effect, next⟩
  | setLifecycle id lifecycle => exact ⟨count, logs, holds.relabel id lifecycle⟩
  | append id events =>
      obtain ⟨reached, effect, next⟩ := holds.append id events
      exact ⟨count, reached, effect, next⟩

/-- What the effects of the allowed commands preserve holds at the end of a run. -/
theorem Holds.run (kept : Branches → Nat → (BranchId → Log) → Prop) {allowed : BranchSystem → BranchCommand → Prop}
    {commands : List BranchCommand}
    (preserves : ∀ system count logs command later reached, Holds system count logs →
      kept system.manager.manifest.branches count logs → allowed system command →
      Effect system.manager.manifest.branches (system.step command).manager.manifest.branches count logs command later
        reached → kept (system.step command).manager.manifest.branches later reached)
    (holds : Holds system count logs) (start : kept system.manager.manifest.branches count logs)
    (follows : system.Follows allowed commands) :
    ∃ later reached, Holds (system.run commands) later reached ∧
      kept (system.run commands).manager.manifest.branches later reached := by
  induction commands generalizing system count logs with
  | nil => exact ⟨count, logs, holds, start⟩
  | cons command commands hypothesis =>
      obtain ⟨permitted, follows⟩ := follows
      obtain ⟨later, reached, effect, next⟩ := holds.step command
      exact hypothesis next (preserves system count logs command later reached holds start permitted effect) follows

/-- Every run keeps the files and the tree. -/
theorem Holds.run_always (holds : Holds system count logs) (commands : List BranchCommand) :
    ∃ later reached, Holds (system.run commands) later reached := by
  induction commands generalizing system count logs with
  | nil => exact ⟨count, logs, holds⟩
  | cons command commands hypothesis =>
      obtain ⟨later, reached, _, next⟩ := holds.step command
      exact hypothesis next

end Steps

section Start

variable {log : Log} {store : Store} {root : System} {system : BranchSystem}

/-- A new manager has only the branch of its database. -/
theorem start_holds (consistent : Consistent (SealedOnce store.header) log store root)
    (started : BranchSystem.start root = .ok system) :
    Holds system 1 (Function.update (fun _ => Log.empty) 0 log) := by
  obtain ⟨manager, opened, same⟩ := Except.bind_eq_ok.mp started
  obtain rfl := Except.ok.inj same
  obtain ⟨reader, opens, made⟩ := Except.bind_eq_ok.mp opened
  obtain rfl := Except.ok.inj made
  have zero : ∀ {id : BranchId}, id.toNat < 1 → id = 0 := fun inside => UInt64.toNat_inj.mp (Nat.lt_one_iff.mp inside)
  have other : ∀ {id : BranchId}, 1 ≤ id.toNat → id ≠ 0 := by
    intro id beyond same
    rw [same, UInt64.toNat_zero] at beyond
    exact Nat.not_succ_le_zero 0 beyond
  have folders : ∀ id, (BranchManager.ofRoot (rootOnly root.disk) reader.header.database).rootDir.folders id =
      if id = 0 then some ⟨some root.disk, ⟨[]⟩⟩ else none := rootOnly_folders root.disk
  refine ⟨tree_main, rfl, ?_, ?_, ?_, ?_, ?_⟩
  · intro id inside
    rw [folders, zero inside, Function.update_self]
    exact ⟨root.disk, store, rfl, consistent.inv⟩
  · intro id beyond
    rw [folders, if_neg (other beyond)]
  · intro id inside
    dsimp only
    rw [zero inside, Function.update_self, Function.update_self, consistent.acknowledged]
  · intro id beyond
    dsimp only
    rw [Function.update_of_ne (other beyond)]
  · intro id inside
    rw [zero inside, Function.update_self]
    have files : RootDir.storeFiles (rootOnly root.disk) 0 = .ok root.disk := by
      unfold RootDir.storeFiles
      rw [rootOnly_folders, if_pos rfl]
    rw [RootDir.openStore, files, Except.ok_bind] at opens
    rcases consistent.inv.open_cases Limits.default .rejectIncompleteTail with ⟨_, again⟩ | ⟨error, failed⟩
    · have limits : (Storage.opened store.header Limits.default log).limits = Limits.default := opened_limits
      exact limits ▸ again.tracks.fits
    · rw [failed] at opens
      exact nomatch opens

/-- A database whose frames fit the default limits gets a manager. -/
theorem start_ok (consistent : Consistent (SealedOnce store.header) log store root)
    (fits : ∀ batch ∈ log.live, BatchFits Limits.default batch) :
    ∃ system, BranchSystem.start root = .ok system ∧
      system.manager.manifest = ⟨store.header.database, (∅ : Branches).insert 0 mainBranch⟩ := by
  obtain ⟨ends, _⟩ := consistent.inv.reopen .rejectIncompleteTail (rfl : validateLimits Limits.default = .ok ()) fits
  have opens : RootDir.openStore (rootOnly root.disk) 0 = .ok (opened store.header Limits.default log) := by
    unfold RootDir.openStore RootDir.storeFiles
    rw [rootOnly_folders, if_pos rfl]
    dsimp only
    rw [Except.ok_bind, ends]
    rfl
  have manager : BranchManager.openManager (rootOnly root.disk) = .ok (BranchManager.ofRoot (rootOnly root.disk)
      (opened store.header Limits.default log).header.database) := by
    unfold BranchManager.openManager
    change (asBranch (RootDir.openStore (rootOnly root.disk) 0) >>= _) = _
    rw [opens]
    rfl
  refine ⟨_, Except.bind_eq_ok.mpr ⟨_, manager, rfl⟩, ?_⟩
  change BranchManifest.mk _ _ = _
  rw [opened_header]

end Start

/-- The directories that a manager starts from. -/
theorem exists_start {database : DatabaseId} {source : SourceId} {epoch : SourceEpoch} {limits : Limits} {root : System}
    (created : System.create database source epoch limits = .ok root) (commands : List Command) :
    ∃ log store, Consistent (SealedOnce store.header) log store (root.run commands) := by
  have first := System.create_consistent (SealedOnce ⟨database, source, epoch⟩) created
  obtain ⟨log, store, consistent, header⟩ := first.run (fun _ store => store.header = ⟨database, source, epoch⟩)
    (fun log store system command later reached same _ _ effect => effect.header.trans same)
    (fun log store same batch fits => ⟨_, same ▸ fits⟩) rfl (System.follows_always root commands)
  exact ⟨log, store, header ▸ consistent⟩

end Temnion.Branch
