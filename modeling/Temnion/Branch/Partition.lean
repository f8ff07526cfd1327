import Temnion.Branch.Run

/-
This file shows that the timeline of a branch is connected, and when it partitions the sequences.
-/

namespace Temnion.Branch

open Format Storage Replay

section Timelines

variable [Crc32fast] {database : DatabaseId} {source : SourceId} {epoch : SourceEpoch} {limits : Limits}

/-- The segments of every branch that a new manager comes to are connected. They partition the sequences when no fork on
the way to the branch lies below the fork of its parent. -/
theorem timeline_connected {root : System} {system : BranchSystem} {id : BranchId}
    (created : System.create database source epoch limits = .ok root) (commands : List Command)
    (started : BranchSystem.start (root.run commands) = .ok system) (later : List BranchCommand)
    (listed : id ∈ (system.run later).manager.manifest.branches) :
    ∃ segments, (system.run later).manager.resolveTimeline id = .ok segments ∧ Connected id segments ∧
      (Climbs (system.run later).manager.manifest.branches id → Partitions segments) := by
  obtain ⟨log, store, consistent⟩ := exists_start created commands
  obtain ⟨count, logs, holds⟩ := (start_holds consistent started).run_always later
  obtain ⟨ancestors, start, resolves, resolved⟩ := resolveTimeline_of_tree holds.tree ((holds.tree.keys id).mp listed)
  exact ⟨timelineOf ancestors id start, resolved, resolves.connected, resolves.partitions_iff_climbs.mpr⟩

end Timelines

section Forks

/-- A fork of the main branch and a fork of that fork. -/
def nestedForks (first second : UInt64) : List BranchCommand :=
  [.fork sampleDatabase 0 "first" first .active, .fork sampleDatabase 1 "second" second .active]

/-- The branches after the two forks. -/
def nestedBranches (first second : UInt64) : Branches :=
  (((∅ : Branches).insert 0 mainBranch).insert 1 ⟨1, "first", some (0, first), .active, 0⟩).insert 2
    ⟨2, "second", some (1, second), .active, 0⟩

theorem nestedBranches_second (first second : UInt64) :
    (nestedBranches first second)[(2 : BranchId)]? = some ⟨2, "second", some (1, second), .active, 0⟩ := by
  rw [nestedBranches, getElem?_insert, if_pos rfl]

theorem nestedBranches_first (first second : UInt64) :
    (nestedBranches first second)[(1 : BranchId)]? = some ⟨1, "first", some (0, first), .active, 0⟩ := by
  rw [nestedBranches, getElem?_insert, if_neg (by decide), getElem?_insert, if_pos rfl]

theorem nestedBranches_main (first second : UInt64) : (nestedBranches first second)[(0 : BranchId)]? = some mainBranch := by
  rw [nestedBranches, getElem?_insert, if_neg (by decide), getElem?_insert, if_neg (by decide), getElem?_insert, if_pos rfl]

/-- The timeline of the second fork. -/
theorem nestedBranches_resolves (first second : UInt64) :
    Resolves (nestedBranches first second) 2 [⟨0, 0, first⟩, ⟨1, first + 1, second⟩] (second + 1) :=
  .child (nestedBranches_second first second) rfl
    (.child (nestedBranches_first first second) rfl (.root (nestedBranches_main first second) rfl))

end Forks

section Samples

variable [Crc32fast]

omit [Crc32fast] in
theorem bareLog_events (count : Nat) :
    Log.events ⟨[], (bareEvents count).map fun event => [event]⟩ = bareEvents count := by
  rw [Log.events, Log.batches, List.nil_append, ← List.flatMap_def, List.flatMap_singleton']

theorem bareEvents_fit (count : Nat) :
    ∀ batch ∈ (bareEvents count).map (fun event => [event]), BatchFits Limits.default batch := by
  intro batch member
  obtain ⟨event, inside, rfl⟩ := List.mem_map.mp member
  obtain ⟨sequence, -, rfl⟩ := List.mem_map.mp inside
  exact (bare_fits _ _ _ _).batch

/-- A new manager over a database of bare events. -/
theorem bareStart {count : Nat} (small : count < 2 ^ 32) :
    ∃ system, BranchSystem.start ((System.fresh sampleDatabase 1 1 Limits.default).run (bareCommands count)) = .ok system ∧
      system.manager.manifest = ⟨sampleDatabase, (∅ : Branches).insert 0 mainBranch⟩ ∧
      Holds system 1 (Function.update (fun _ => Log.empty) 0 ⟨[], (bareEvents count).map fun event => [event]⟩) := by
  obtain ⟨store, header, _, _, _, _, consistent, _⟩ := bareCommands_consistent small
  rw [← header] at consistent
  obtain ⟨system, started, named⟩ := start_ok consistent (bareEvents_fit count)
  refine ⟨system, started, ?_, start_holds consistent started⟩
  rw [named, header]

/-- The first fork of a new manager over one bare event passes its checks. -/
theorem bareStart_passes : ∃ system,
    BranchSystem.start ((System.fresh sampleDatabase 1 1 Limits.default).run (bareCommands 1)) = .ok system ∧
      system.manager.checkFork 0 0 = .ok 1 ∧ Holds system 1
        (Function.update (fun _ => Log.empty) 0 ⟨[], (bareEvents 1).map fun event => [event]⟩) := by
  obtain ⟨system, started, named, holds⟩ := bareStart (by decide : 1 < 2 ^ 32)
  refine ⟨system, started, ?_, holds⟩
  have main : system.manager.manifest.branches[(0 : BranchId)]? = some mainBranch := by
    rw [named, getElem?_insert, if_pos rfl]
  apply holds.checkFork_ok main (by decide)
  · rw [Function.update_self, bareLog_events, bareEvents_length]
    exact Or.inl (by decide)

/-- The first branch has no events of its own, and the second fork may lie anywhere. -/
theorem nestedForks_accepted {count : Nat} {first : UInt64} (small : count < 2 ^ 32) (inside : first.toNat < count)
    (second : UInt64) :
    ∃ system, BranchSystem.start ((System.fresh sampleDatabase 1 1 Limits.default).run (bareCommands count)) = .ok system ∧
      (system.run (nestedForks first second)).manager.manifest.branches = nestedBranches first second ∧
      ∃ logs, Holds (system.run (nestedForks first second)) 3 logs := by
  obtain ⟨system, started, named, holds⟩ := bareStart small
  have main : system.manager.manifest.branches[(0 : BranchId)]? = some mainBranch := by
    rw [named, getElem?_insert, if_pos rfl]
  have passed : system.manager.checkFork 0 first = .ok 1 := by
    apply holds.checkFork_ok main (by decide)
    · rw [Function.update_self, bareLog_events, bareEvents_length]
      exact Or.inl inside
  obtain ⟨once, holds⟩ := holds.forked passed rfl sampleDatabase "first" .active
  have child : (system.step (.fork sampleDatabase 0 "first" first .active)).manager.manifest.branches[(1 : BranchId)]? =
      some ⟨1, "first", some (0, first), .active, 0⟩ := by
    rw [once, BranchManager.withBranch, getElem?_insert, if_pos rfl]
  have again : (system.step (.fork sampleDatabase 0 "first" first .active)).manager.checkFork 1 second = .ok 2 := by
    apply holds.checkFork_ok child (by dsimp only; decide)
    · rw [Function.update_self]
      exact Or.inr rfl
  obtain ⟨twice, holds⟩ := holds.forked again rfl sampleDatabase "second" .active
  refine ⟨system, started, ?_, _, holds⟩
  rw [nestedForks, BranchSystem.run_cons, BranchSystem.run_cons, BranchSystem.run_nil, twice, once, named]
  rfl

end Samples

/-- A fork of a fork at the same sequence leaves an empty segment whose end lies before its start. -/
theorem timeline_has_empty_segment :
    letI := Crc32fast.ieee
    ∃ system segments,
      BranchSystem.start ((System.fresh sampleDatabase 1 1 Limits.default).run (bareCommands 3)) = .ok system ∧
      (system.run (nestedForks 2 2)).manager.resolveTimeline 2 = .ok segments ∧
      segments = [⟨0, 0, some 2⟩, ⟨1, 3, some 2⟩, ⟨2, 3, none⟩] ∧
      ¬ ∀ segment ∈ segments, ∀ stop, segment.endSeq = some stop → segment.startSeq ≤ stop := by
  generalize Crc32fast.ieee = inst
  obtain ⟨system, started, named, logs, holds⟩ := nestedForks_accepted (by decide : 3 < 2 ^ 32) (by decide : (2 : UInt64).toNat < 3) 2
  have resolved : (system.run (nestedForks 2 2)).manager.resolveTimeline 2 =
      .ok (timelineOf [⟨0, 0, 2⟩, ⟨1, 3, 2⟩] 2 3) := by
    rw [BranchManager.resolveTimeline, holds.tree.size, named]
    exact walk_of_resolves (nestedBranches_resolves 2 2) (by decide) none []
  refine ⟨system, _, started, resolved, rfl, fun ordered => ?_⟩
  have bound := ordered ⟨1, 3, some 2⟩ (by decide) 2 rfl
  revert bound
  decide

/-- The timeline of the fork of a fork. -/
theorem timeline_connected_sample :
    letI := Crc32fast.ieee
    ∃ system segments,
      BranchSystem.start ((System.fresh sampleDatabase 1 1 Limits.default).run (bareCommands 3)) = .ok system ∧
      (system.run (nestedForks 2 2)).manager.resolveTimeline 2 = .ok segments ∧ Connected 2 segments ∧
      Partitions segments := by
  generalize Crc32fast.ieee = inst
  obtain ⟨system, started, named, logs, holds⟩ := nestedForks_accepted (by decide : 3 < 2 ^ 32) (by decide : (2 : UInt64).toNat < 3) 2
  have created : System.create sampleDatabase 1 1 Limits.default = .ok (System.fresh sampleDatabase 1 1 Limits.default) :=
    System.create_ok.mpr ⟨rfl, rfl⟩
  obtain ⟨segments, resolved, connected, partitions⟩ := timeline_connected created (bareCommands 3) started
    (nestedForks 2 2) ((holds.tree.keys 2).mpr (by decide))
  refine ⟨system, segments, started, resolved, connected, partitions ?_⟩
  rw [named]
  have second := parentOf_eq (nestedBranches_second 2 2)
  have first := parentOf_eq (nestedBranches_first 2 2)
  have main := parentOf_eq (nestedBranches_main 2 2)
  rw [climbs_of_child second, climbs_of_child first]
  refine ⟨⟨by decide, fun grand earlier link => ?_⟩, ⟨by decide, fun grand earlier link => ?_⟩, climbs_of_root main⟩
  · rw [first] at link
    obtain ⟨_, rfl⟩ := Prod.mk.inj (Option.some.inj link)
    exact UInt64.le_refl 2
  · rw [main] at link
    exact absurd link (Option.some_ne_none _).symm

end Temnion.Branch
