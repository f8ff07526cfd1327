import Temnion.Branch.Saved

/-
This file says which crashes in the middle of a fork a later fork can recover from.
-/

namespace Temnion.Branch

open Format LittleEndian Storage Replay

/-- A directory is made only once. -/
theorem RootDir.createFolder_idem (rootDir : RootDir) (id : BranchId) :
    (rootDir.createFolder id).createFolder id = rootDir.createFolder id := by
  unfold createFolder
  dsimp only
  rw [Function.update_self, Option.getD_some, Function.update_idem]

/-- The last durable effect of a fork before a crash. -/
inductive ForkStop where
  | folder
  | store
  deriving DecidableEq

namespace BranchManager

variable [Crc32fast]

/-- The files that a crash in the middle of a fork leaves. -/
def interruptedFork (manager : BranchManager) (database : DatabaseId) (parentId : BranchId) (forkSequence : UInt64)
    (stop : ForkStop) : RootDir :=
  match manager.checkFork parentId forkSequence with
  | .error _ => manager.rootDir
  | .ok nextId =>
      let made := manager.rootDir.createFolder nextId
      match stop, made.createStore nextId database with
      | .store, .ok stored => stored
      | _, _ => made

/-- After the crash the manager opens with the old manifest, and every fork that passes its checks succeeds. -/
def Restartable (manager : BranchManager) (database : DatabaseId) (parentId : BranchId) (forkSequence : UInt64)
    (stop : ForkStop) : Prop :=
  let left := manager.interruptedFork database parentId forkSequence stop
  let again : BranchManager := ⟨left, manager.manifest⟩
  openManager left = .ok again ∧
    ∀ database parentId name forkSequence lifecycle nextId, again.checkFork parentId forkSequence = .ok nextId →
      (again.createFork database parentId name forkSequence lifecycle).1 = .ok nextId

/-- A fork that succeeds only publishes the manifest after the last of these effects. -/
theorem createFork_of_interrupted {manager reached : BranchManager} {database : DatabaseId} {parentId nextId : BranchId}
    {name : String} {forkSequence : UInt64} {lifecycle : BranchLifecycle}
    (made : manager.createFork database parentId name forkSequence lifecycle = (.ok nextId, reached)) :
    reached.rootDir = (manager.interruptedFork database parentId forkSequence .store).publish reached.manifest := by
  unfold createFork at made
  unfold interruptedFork
  cases checked : manager.checkFork parentId forkSequence with
  | error error =>
      rw [checked] at made
      exact absurd (congrArg Prod.fst made) nofun
  | ok next =>
      rw [checked] at made
      dsimp only at made ⊢
      cases stored : (manager.rootDir.createFolder next).createStore next database with
      | error error =>
          rw [stored] at made
          exact absurd (congrArg Prod.fst made) nofun
      | ok files =>
          rw [stored] at made
          rw [← (Prod.mk.inj made).2]

/-- The saved manifest outlives the crash. -/
theorem interruptedFork_manifest (manager : BranchManager) (database : DatabaseId) (parentId : BranchId)
    (forkSequence : UInt64) (stop : ForkStop) :
    (manager.interruptedFork database parentId forkSequence stop).manifest = manager.rootDir.manifest := by
  unfold interruptedFork
  cases manager.checkFork parentId forkSequence with
  | error error => rfl
  | ok nextId =>
      cases stop with
      | folder => rfl
      | store =>
          dsimp only
          cases stored : (manager.rootDir.createFolder nextId).createStore nextId database with
          | error error => rfl
          | ok files =>
              obtain ⟨_, _, stored⟩ := Except.bind_eq_ok.mp stored
              obtain ⟨_, _, made⟩ := Except.bind_eq_ok.mp stored
              rw [← Except.ok.inj made]
              rfl

end BranchManager

section Forks

variable [Crc32fast] {system : BranchSystem} {count : Nat} {logs : BranchId → Log}

/-- What each crash leaves: the directory of the next branch, without a store or with one. -/
theorem Holds.interrupted_eq (holds : Holds system count logs) {parent nextId : BranchId} {forkSequence : UInt64}
    (passed : system.manager.checkFork parent forkSequence = .ok nextId) (number : nextId.toNat = count)
    (database : DatabaseId) (stop : ForkStop) :
    ∃ files : Option Disk, (files.isSome ↔ stop = .store) ∧
      system.manager.interruptedFork database parent forkSequence stop =
        ⟨system.manager.rootDir.manifest, Function.update system.manager.rootDir.folders nextId (some ⟨files, ⟨[]⟩⟩)⟩ := by
  have absent := holds.absent nextId number.ge
  unfold BranchManager.interruptedFork
  rw [passed]
  cases stop with
  | folder =>
      refine ⟨none, by decide, ?_⟩
      dsimp only
      rw [RootDir.createFolder, absent]
      rfl
  | store =>
      obtain ⟨disk, store, created, _⟩ := createStore_absent absent database
      refine ⟨some disk, iff_of_true rfl rfl, ?_⟩
      dsimp only
      rw [created]

/-- After the crash a fork passes the same checks as before. -/
theorem Holds.checkFork_interrupted (holds : Holds system count logs) {parent nextId : BranchId} {forkSequence : UInt64}
    (passed : system.manager.checkFork parent forkSequence = .ok nextId) (number : nextId.toNat = count)
    (database : DatabaseId) (stop : ForkStop) (other : BranchId) (sequence : UInt64) :
    BranchManager.checkFork ⟨system.manager.interruptedFork database parent forkSequence stop, system.manager.manifest⟩
      other sequence = system.manager.checkFork other sequence := by
  obtain ⟨files, _, left⟩ := holds.interrupted_eq passed number database stop
  rw [left]
  unfold BranchManager.checkFork
  cases found : system.manager.manifest.branches[other]? with
  | none => rfl
  | some branch =>
      have before := holds.tree.present found
      have different : other ≠ nextId := by
        intro here
        rw [here] at before
        omega
      have opens : RootDir.openStore ⟨system.manager.rootDir.manifest,
          Function.update system.manager.rootDir.folders nextId (some ⟨files, ⟨[]⟩⟩)⟩ other =
          system.manager.rootDir.openStore other := by
        unfold RootDir.openStore RootDir.storeFiles
        dsimp only
        rw [Function.update_of_ne different]
      dsimp only
      rw [opens]

/-- A crash in the middle of a fork can be recovered from if and only if the saved manifest reads back and the new store
was not there yet. -/
theorem Holds.restartable_iff (holds : Holds system count logs) {parent nextId : BranchId} {forkSequence : UInt64}
    (passed : system.manager.checkFork parent forkSequence = .ok nextId) (database : DatabaseId) (stop : ForkStop) :
    system.manager.Restartable database parent forkSequence stop ↔
      system.manager.manifest.Fits ∧ stop = .folder := by
  have reads := BranchManifest.decode_encode_iff (holds.tree.keyed : system.manager.manifest.Keyed)
  have opens : ∀ left : RootDir, left.manifest = system.manager.rootDir.manifest →
      (BranchManager.openManager left = .ok ⟨left, system.manager.manifest⟩ ↔ system.manager.manifest.Fits) := by
    intro left same
    rw [← reads, BranchManager.openManager, same, holds.saved]
    dsimp only
    constructor
    · intro opened
      obtain ⟨manifest, decoded, made⟩ := Except.bind_eq_ok.mp opened
      rw [decoded]
      exact congrArg Except.ok (congrArg BranchManager.manifest (Except.ok.inj made))
    · intro decoded
      rw [decoded]
      rfl
  let left := system.manager.interruptedFork database parent forkSequence stop
  have kept : left.manifest = system.manager.rootDir.manifest :=
    system.manager.interruptedFork_manifest database parent forkSequence stop
  have numbered : system.manager.manifest.Fits → nextId.toNat = count := by
    intro fits
    obtain ⟨next, _, _⟩ := holds.checkFork_passed passed
    have room := fits.count
    rw [holds.tree.size] at room
    rw [next]
    exact toNat_ofNat (by omega)
  constructor
  · intro restartable
    obtain ⟨opened, forks⟩ := restartable
    have fits := (opens left kept).mp opened
    refine ⟨fits, ?_⟩
    by_contra other
    obtain ⟨files, stored, same⟩ := holds.interrupted_eq passed (numbered fits) database stop
    have checks := holds.checkFork_interrupted passed (numbered fits) database stop parent forkSequence
    rw [passed] at checks
    have success := forks database parent "" forkSequence .active nextId checks
    cases stop with
    | folder => exact other rfl
    | store =>
        obtain ⟨disk, rfl⟩ := Option.isSome_iff_exists.mp (stored.mpr rfl)
        have folder : left.folders nextId = some ⟨some disk, ⟨[]⟩⟩ := by
          change (system.manager.interruptedFork database parent forkSequence .store).folders nextId = _
          rw [same]
          exact Function.update_self _ _ _
        obtain ⟨present, taken⟩ := createStore_present folder database
        rw [BranchManager.createFork, checks] at success
        dsimp only at success
        rw [present, taken] at success
        contradiction
  · intro whole
    obtain ⟨fits, rfl⟩ := whole
    refine ⟨(opens left kept).mpr fits, fun database' parent' name sequence lifecycle id checks => ?_⟩
    have origin := holds.checkFork_interrupted passed (numbered fits) database .folder parent' sequence
    rw [origin] at checks
    have next : id = nextId := by
      rw [(holds.checkFork_passed checks).1, (holds.checkFork_passed passed).1]
    rw [next] at checks ⊢
    have made : left.createFolder nextId = system.manager.rootDir.createFolder nextId := by
      have folder : left = system.manager.rootDir.createFolder nextId := by
        change system.manager.interruptedFork database parent forkSequence .folder = _
        rw [BranchManager.interruptedFork, passed]
      rw [folder, RootDir.createFolder_idem]
    obtain ⟨disk, store, created, _⟩ := createStore_absent (holds.absent nextId (numbered fits).ge) database'
    rw [BranchManager.createFork, origin, checks]
    dsimp only
    rw [made, created]

/-- For every manager and every crash in the middle of a fork that passed its checks: the directory opens with the old
manifest and the next valid fork succeeds if and only if that manifest reads back and the crash came before the store. -/
theorem fork_restartable_iff {database : DatabaseId} {source : SourceId} {epoch : SourceEpoch} {limits : Limits}
    {root : System} {system : BranchSystem} (created : System.create database source epoch limits = .ok root)
    (commands : List Command) (started : BranchSystem.start (root.run commands) = .ok system)
    (later : List BranchCommand) {parent nextId : BranchId} {forkSequence : UInt64}
    (passed : (system.run later).manager.checkFork parent forkSequence = .ok nextId) (chosen : DatabaseId)
    (stop : ForkStop) :
    (system.run later).manager.Restartable chosen parent forkSequence stop ↔
      (system.run later).manager.manifest.Fits ∧ stop = .folder := by
  obtain ⟨log, store, consistent⟩ := exists_start created commands
  obtain ⟨count, logs, holds⟩ := (start_holds consistent started).run_always later
  exact holds.restartable_iff passed chosen stop

end Forks

/-- A crash between the store of a new branch and the manifest blocks every later fork. -/
theorem fork_blocked_after_crash :
    letI := Crc32fast.ieee
    ∃ system, BranchSystem.start ((System.fresh sampleDatabase 1 1 Limits.default).run (bareCommands 1)) = .ok system ∧
      system.manager.checkFork 0 0 = .ok 1 ∧ ¬ system.manager.Restartable sampleDatabase 0 0 .store := by
  generalize Crc32fast.ieee = inst
  obtain ⟨system, started, passed, holds⟩ := bareStart_passes
  refine ⟨system, started, passed, fun restartable => ?_⟩
  exact absurd ((holds.restartable_iff passed sampleDatabase .store).mp restartable).2 (by decide)

/-- A crash between the directory of a new branch and its store. -/
theorem fork_restartable_iff_sample :
    letI := Crc32fast.ieee
    ∃ system, BranchSystem.start ((System.fresh sampleDatabase 1 1 Limits.default).run (bareCommands 1)) = .ok system ∧
      system.manager.Restartable sampleDatabase 0 0 .folder := by
  generalize Crc32fast.ieee = inst
  obtain ⟨system, started, passed, _⟩ := bareStart_passes
  have created : System.create sampleDatabase 1 1 Limits.default = .ok (System.fresh sampleDatabase 1 1 Limits.default) :=
    System.create_ok.mpr ⟨rfl, rfl⟩
  exact ⟨system, started, (fork_restartable_iff created (bareCommands 1) started [] passed sampleDatabase .folder).mpr
    ⟨start_fits started, rfl⟩⟩

end Temnion.Branch
