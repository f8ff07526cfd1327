import Temnion.Branch.Partition

/-
This file says which manifests of the manager read back after they were saved.
-/

namespace Temnion.Branch

open Format Storage Replay

section Runs

variable [Crc32fast]

/-- A fork whose name and whose number fit their fields. -/
def NameFits (system : BranchSystem) (command : BranchCommand) : Prop :=
  ∀ database parent name forkSequence lifecycle, command = .fork database parent name forkSequence lifecycle →
    (nameBytes name).length < 2 ^ 16 ∧ system.manager.manifest.branches.size + 1 < 2 ^ 32

/-- What a command does to the manifest: nothing, one more branch, or another lifecycle of a branch. -/
inductive Rewrites (before : BranchManifest) : BranchCommand → BranchManifest → Prop where
  | keep (command : BranchCommand) : Rewrites before command before
  | fork (database : DatabaseId) (parent : BranchId) (name : String) (forkSequence : UInt64) (lifecycle : BranchLifecycle)
      (id : BranchId) : Rewrites before (.fork database parent name forkSequence lifecycle)
        (BranchManager.withBranch before ⟨id, name, some (parent, forkSequence), lifecycle, 0⟩)
  | relabel {id : BranchId} {branch : BranchMetadata} (found : before.branches[id]? = some branch)
      (lifecycle : BranchLifecycle) : Rewrites before (.setLifecycle id lifecycle)
        { before with branches := before.branches.insert id { branch with lifecycle := lifecycle } }

theorem step_rewrites (system : BranchSystem) (command : BranchCommand) :
    Rewrites system.manager.manifest command (system.step command).manager.manifest := by
  cases command with
  | fork database parent name forkSequence lifecycle =>
      change Rewrites _ _ (system.manager.createFork database parent name forkSequence lifecycle).2.manifest
      unfold BranchManager.createFork
      cases system.manager.checkFork parent forkSequence with
      | error error => exact .keep _
      | ok nextId =>
          dsimp only
          cases (system.manager.rootDir.createFolder nextId).createStore nextId database with
          | error error => exact .keep _
          | ok stored => exact .fork database parent name forkSequence lifecycle nextId
  | setLifecycle id lifecycle =>
      change Rewrites _ _ (system.manager.setLifecycle id lifecycle).2.manifest
      unfold BranchManager.setLifecycle
      cases found : system.manager.manifest.branches[id]? with
      | none => exact .keep _
      | some branch => exact .relabel found lifecycle
  | append id events =>
      change Rewrites _ _ (system.manager.appendToBranch id events).2.1.manifest
      unfold BranchManager.appendToBranch
      cases system.manager.manifest.branches[id]? with
      | none => exact .keep _
      | some branch =>
          dsimp only
          by_cases closed : branch.lifecycle = .retired
          · rw [if_pos closed]
            exact .keep _
          · rw [if_neg closed]
            cases system.manager.rootDir.storeFiles id with
            | error error => exact .keep _
            | ok disk => exact .keep _

omit [Crc32fast] in
/-- A manifest with one more short name fits. -/
theorem Fits.insert {manifest : BranchManifest} {branch : BranchMetadata} (fits : manifest.Fits) (id : BranchId)
    (short : (nameBytes branch.name).length < 2 ^ 16)
    (room : (manifest.branches.insert id branch).size < 2 ^ 32) :
    BranchManifest.Fits { manifest with branches := manifest.branches.insert id branch } where
  names := by
    intro place other found
    rw [getElem?_insert] at found
    split at found
    · rw [← Option.some.inj found]
      exact short
    · exact fits.names place other found
  count := room

omit [Crc32fast] in
theorem Rewrites.fits {system : BranchSystem} {command : BranchCommand} {after : BranchManifest}
    (rewrites : Rewrites system.manager.manifest command after) (fits : system.manager.manifest.Fits)
    (named : NameFits system command) : after.Fits := by
  have grown : ∀ (id : BranchId) (branch : BranchMetadata),
      (system.manager.manifest.branches.insert id branch).size ≤ system.manager.manifest.branches.size + 1 := by
    intro id branch
    rw [Std.ExtTreeMap.size_insert]
    split <;> omega
  cases rewrites with
  | keep => exact fits
  | fork database parent name forkSequence lifecycle id =>
      obtain ⟨short, room⟩ := named database parent name forkSequence lifecycle rfl
      exact Fits.insert fits id short ((grown id _).trans_lt room)
  | relabel found lifecycle =>
      next id branch =>
      apply @Fits.insert _ { branch with lifecycle := lifecycle } fits id (fits.names id branch found)
      have held : id ∈ system.manager.manifest.branches := Std.ExtTreeMap.mem_iff_isSome_getElem?.mpr (found ▸ rfl)
      rw [Std.ExtTreeMap.size_insert, if_pos (Std.ExtTreeMap.contains_iff_mem.mpr held)]
      exact fits.count

/-- Forks with short names leave a manifest that fits. -/
theorem run_fits {system : BranchSystem} {commands : List BranchCommand} (fits : system.manager.manifest.Fits)
    (follows : system.Follows NameFits commands) : (system.run commands).manager.manifest.Fits := by
  induction commands generalizing system with
  | nil => exact fits
  | cons command commands hypothesis =>
      obtain ⟨named, follows⟩ := follows
      exact hypothesis ((step_rewrites system command).fits fits named) follows

theorem start_fits {root : System} {system : BranchSystem} (started : BranchSystem.start root = .ok system) :
    system.manager.manifest.Fits := by
  obtain ⟨manager, opened, same⟩ := Except.bind_eq_ok.mp started
  obtain rfl := Except.ok.inj same
  obtain ⟨reader, _, made⟩ := Except.bind_eq_ok.mp opened
  obtain rfl := Except.ok.inj made
  constructor
  · intro id branch found
    change ((∅ : Branches).insert 0 mainBranch)[id]? = some branch at found
    rw [getElem?_insert, Std.ExtTreeMap.getElem?_empty] at found
    split at found
    · rw [← Option.some.inj found]
      decide
    · contradiction
  · change ((∅ : Branches).insert 0 mainBranch).size < _
    rw [Std.ExtTreeMap.size_insert]
    simp

/-- A manifest reads back if and only if its names and the number of its branches fit their fields, and they do when
every fork had a short name. -/
theorem manifest_reads_back {database : DatabaseId} {source : SourceId} {epoch : SourceEpoch} {limits : Limits}
    {root : System} {system : BranchSystem} (created : System.create database source epoch limits = .ok root)
    (commands : List Command) (started : BranchSystem.start (root.run commands) = .ok system)
    (later : List BranchCommand) :
    let manifest := (system.run later).manager.manifest
    (BranchManifest.decode manifest.encode = .ok manifest ↔ manifest.Fits) ∧
      (system.Follows NameFits later → BranchManifest.decode manifest.encode = .ok manifest) := by
  intro manifest
  obtain ⟨log, store, consistent⟩ := exists_start created commands
  obtain ⟨count, logs, holds⟩ := (start_holds consistent started).run_always later
  have reads := BranchManifest.decode_encode_iff (holds.tree.keyed : manifest.Keyed)
  exact ⟨reads, fun follows => reads.mpr (run_fits (start_fits started) follows)⟩

end Runs

section Long

/-- A name of letters. -/
def longName (count : Nat) : String := String.ofList (List.replicate count 'a')

theorem longName_length (count : Nat) : (nameBytes (longName count)).length = count := by
  rw [nameBytes, longName, String.toByteArray_ofList]
  induction count with
  | zero => rfl
  | succ count hypothesis =>
      rw [List.replicate_succ, List.utf8Encode_cons, ByteArray.data_append, Array.toList_append, List.length_append,
        hypothesis]
      exact Nat.add_comm 1 count

variable [Crc32fast]

/-- A fork is accepted with a name of any length, and the manifest reads back only when the name is short. -/
theorem longName_accepted (count : Nat) :
    ∃ system, BranchSystem.start ((System.fresh sampleDatabase 1 1 Limits.default).run (bareCommands 1)) = .ok system ∧
      (system.manager.createFork sampleDatabase 0 (longName count) 0 .active).1 = .ok 1 ∧
      let reached := (system.run [.fork sampleDatabase 0 (longName count) 0 .active]).manager.manifest
      BranchManifest.decode reached.encode = .ok reached → count < 2 ^ 16 := by
  obtain ⟨system, started, passed, holds⟩ := bareStart_passes
  obtain ⟨disk, store, made, _⟩ := holds.createFork_passed passed rfl sampleDatabase (longName count) .active
  obtain ⟨reached, again⟩ := holds.forked passed rfl sampleDatabase (longName count) .active
  refine ⟨system, started, congrArg Prod.fst made, ?_⟩
  intro manifest reads
  have fits := (BranchManifest.decode_encode_iff (again.tree.keyed : manifest.Keyed)).mp reads
  have short := fits.names 1 ⟨1, longName count, some (0, 0), .active, 0⟩ (by
    rw [reached, BranchManager.withBranch, getElem?_insert, if_pos rfl])
  dsimp only at short
  rw [longName_length] at short
  exact short

end Long

/-- A fork with a name of 65,536 bytes is accepted, but the manifest that is then saved does not read back. -/
theorem manifest_loses_long_name :
    letI := Crc32fast.ieee
    ∃ system, BranchSystem.start ((System.fresh sampleDatabase 1 1 Limits.default).run (bareCommands 1)) = .ok system ∧
      (system.manager.createFork sampleDatabase 0 (longName 65536) 0 .active).1 = .ok 1 ∧
      let reached := (system.run [.fork sampleDatabase 0 (longName 65536) 0 .active]).manager.manifest
      BranchManifest.decode reached.encode ≠ .ok reached := by
  generalize Crc32fast.ieee = inst
  generalize long : 65536 = count
  obtain ⟨system, started, accepted, short⟩ := longName_accepted count
  exact ⟨system, started, accepted, fun reads => absurd (short reads) (by omega)⟩

/-- A fork with a name of one letter. -/
theorem manifest_reads_back_sample :
    letI := Crc32fast.ieee
    ∃ system, BranchSystem.start ((System.fresh sampleDatabase 1 1 Limits.default).run (bareCommands 1)) = .ok system ∧
      let reached := (system.run [.fork sampleDatabase 0 "a" 0 .active]).manager.manifest
      BranchManifest.decode reached.encode = .ok reached := by
  generalize Crc32fast.ieee = inst
  obtain ⟨system, started, named, holds⟩ := bareStart (by decide : 1 < 2 ^ 32)
  have created : System.create sampleDatabase 1 1 Limits.default = .ok (System.fresh sampleDatabase 1 1 Limits.default) :=
    System.create_ok.mpr ⟨rfl, rfl⟩
  refine ⟨system, started, (manifest_reads_back created (bareCommands 1) started _).2 ⟨?_, trivial⟩⟩
  intro database parent name forkSequence lifecycle same
  cases same
  rw [holds.tree.size]
  decide

end Temnion.Branch
