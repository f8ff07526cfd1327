import Temnion.Branch.Run

/-
This file says when the walk from a branch to its root comes to an end.
-/

namespace Temnion.Branch

open Format Storage Relation

section Climb

variable {branches : Branches} {id parent ancestor : BranchId} {forkSeq : UInt64} {steps : Nat}

/-- The ancestor of a branch by so many parent links. -/
def climb (branches : Branches) : Nat → BranchId → Option BranchId
  | 0, id => some id
  | steps + 1, id => (parentOf branches id).bind fun link => climb branches steps link.1

theorem climb_child (forked : parentOf branches id = some (parent, forkSeq)) :
    climb branches (steps + 1) id = climb branches steps parent := by
  rw [climb, forked, Option.bind_some]

theorem climb_root (alone : parentOf branches id = none) : climb branches (steps + 1) id = none := by
  rw [climb, alone, Option.bind_none]

/-- The last parent link may be followed after all the others. -/
theorem climb_succ : climb branches (steps + 1) id =
    (climb branches steps id).bind fun ancestor => (parentOf branches ancestor).map Prod.fst := by
  induction steps generalizing id with
  | zero =>
      rw [climb, climb, Option.bind_some]
      cases parentOf branches id <;> rfl
  | succ steps hypothesis =>
      cases forked : parentOf branches id with
      | none => rw [climb_root forked, climb_root forked, Option.bind_none]
      | some link => rw [climb_child forked, climb_child forked, hypothesis]

theorem climb_reaches (climbs : climb branches steps id = some ancestor) :
    ReflTransGen (ForkedFrom branches) id ancestor := by
  induction steps generalizing id with
  | zero =>
      obtain rfl := Option.some.inj climbs
      exact .refl
  | succ steps hypothesis =>
      obtain ⟨⟨parent, forkSeq⟩, forked, rest⟩ := Option.bind_eq_some_iff.mp climbs
      exact .head ⟨forkSeq, forked⟩ (hypothesis rest)

/-- A climb that goes on passes through every smaller number of links. -/
theorem climb_split {more : Nat} (climbs : climb branches (steps + more) id = some ancestor) :
    ∃ middle, climb branches steps id = some middle ∧ climb branches more middle = some ancestor := by
  induction steps generalizing id with
  | zero =>
      rw [Nat.zero_add] at climbs
      exact ⟨id, rfl, climbs⟩
  | succ steps hypothesis =>
      rw [Nat.add_right_comm] at climbs
      obtain ⟨⟨parent, forkSeq⟩, forked, rest⟩ := Option.bind_eq_some_iff.mp climbs
      obtain ⟨middle, first, second⟩ := hypothesis rest
      exact ⟨middle, (climb_child forked).trans first, second⟩

/-- The walk runs out of steps exactly when there are that many parent links to follow. -/
theorem walk_eq_outOfSteps_iff {childFork : Option UInt64} {segments : List TimelineSegment} :
    BranchManager.walk branches steps id childFork segments = .error .outOfSteps ↔ (climb branches steps id).isSome := by
  induction steps generalizing id childFork segments with
  | zero => exact iff_of_true rfl rfl
  | succ steps hypothesis =>
      rw [BranchManager.walk]
      cases found : branches[id]? with
      | none =>
          have alone : parentOf branches id = none := by rw [parentOf, found, Option.bind_none]
          rw [climb_root alone]
          simp
      | some branch =>
          dsimp only
          cases forked : branch.parent with
          | none =>
              rw [climb_root ((parentOf_eq found).trans forked)]
              simp
          | some link =>
              rw [climb_child ((parentOf_eq found).trans forked)]
              exact hypothesis

end Climb

section Ends

variable {branches : Branches} {id ancestor : BranchId}

/-- The walk from this branch returns, with a timeline or with an error. -/
def WalkEnds (branches : Branches) (id : BranchId) : Prop :=
  ∃ steps, BranchManager.walk branches steps id none [] ≠ .error .outOfSteps

/-- A branch is its own ancestor. -/
def OnCycle (branches : Branches) (id : BranchId) : Prop := TransGen (ForkedFrom branches) id id

/-- No ancestor of the branch, nor the branch itself, is its own ancestor. -/
def Rooted (branches : Branches) (id : BranchId) : Prop :=
  ∀ ancestor, ReflTransGen (ForkedFrom branches) id ancestor → ¬OnCycle branches ancestor

/-- The parent of a branch on a cycle is on a cycle. -/
theorem parent_onCycle (cycle : OnCycle branches id) :
    ∃ parent, ForkedFrom branches id parent ∧ OnCycle branches parent := by
  obtain ⟨parent, forked, back⟩ := TransGen.head'_iff.mp cycle
  exact ⟨parent, forked, TransGen.tail' back forked⟩

theorem climb_of_onCycle (cycle : OnCycle branches id) (steps : Nat) : (climb branches steps id).isSome := by
  induction steps generalizing id with
  | zero => rfl
  | succ steps hypothesis =>
      obtain ⟨parent, ⟨forkSeq, forked⟩, onward⟩ := parent_onCycle cycle
      rw [climb_child forked]
      exact hypothesis onward

/-- A branch with an ancestor on a cycle can be climbed from forever. -/
theorem climb_of_reaches (reaches : ReflTransGen (ForkedFrom branches) id ancestor) (cycle : OnCycle branches ancestor)
    (steps : Nat) : (climb branches steps id).isSome := by
  induction reaches using ReflTransGen.head_induction_on generalizing steps with
  | refl => exact climb_of_onCycle cycle steps
  | head forked _ hypothesis =>
      obtain ⟨forkSeq, forked⟩ := forked
      cases steps with
      | zero => rfl
      | succ steps =>
          rw [climb_child forked]
          exact hypothesis steps

/-- A climb over more links than there are branches meets some branch twice. -/
theorem onCycle_of_climb (climbs : (climb branches (branches.size + 1) id).isSome) :
    ∃ ancestor, ReflTransGen (ForkedFrom branches) id ancestor ∧ OnCycle branches ancestor := by
  obtain ⟨top, climbs⟩ := Option.isSome_iff_exists.mp climbs
  have passes : ∀ steps ∈ Finset.range (branches.size + 1), ∃ middle, climb branches steps id = some middle ∧
      middle ∈ branches.keys.toFinset := by
    intro steps within
    obtain ⟨more, whole⟩ := Nat.exists_eq_add_of_lt (Finset.mem_range.mp within)
    rw [whole, Nat.add_assoc] at climbs
    obtain ⟨middle, first, second⟩ := climb_split climbs
    obtain ⟨link, forked, _⟩ := Option.bind_eq_some_iff.mp second
    obtain ⟨branch, found, _⟩ := Option.bind_eq_some_iff.mp forked
    refine ⟨middle, first, List.mem_toFinset.mpr (Std.ExtTreeMap.mem_keys.mpr ?_)⟩
    rw [Std.ExtTreeMap.mem_iff_isSome_getElem?, found]
    rfl
  have few : branches.keys.toFinset.card < (Finset.range (branches.size + 1)).card := by
    have bound := List.toFinset_card_le branches.keys
    rw [Std.ExtTreeMap.length_keys] at bound
    rw [Finset.card_range]
    omega
  have maps : ∀ steps ∈ Finset.range (branches.size + 1), (climb branches steps id).getD id ∈ branches.keys.toFinset := by
    intro steps within
    obtain ⟨middle, passed, listed⟩ := passes steps within
    rw [passed]
    exact listed
  obtain ⟨first, firstIn, second, secondIn, different, same⟩ := Finset.exists_ne_map_eq_of_card_lt_of_maps_to few maps
  wlog order : first < second generalizing first second
  · exact this second secondIn first firstIn different.symm same.symm (by omega)
  obtain ⟨middle, passed, _⟩ := passes first firstIn
  obtain ⟨again, repassed, _⟩ := passes second secondIn
  rw [passed, repassed] at same
  obtain rfl : middle = again := same
  obtain ⟨more, rfl⟩ := Nat.exists_eq_add_of_lt order
  rw [Nat.add_assoc] at repassed
  obtain ⟨between, atFirst, round⟩ := climb_split repassed
  obtain rfl := Option.some.inj (passed.symm.trans atFirst)
  obtain ⟨⟨parent, forkSeq⟩, forked, rest⟩ := Option.bind_eq_some_iff.mp round
  exact ⟨middle, climb_reaches passed, TransGen.head' ⟨forkSeq, forked⟩ (climb_reaches rest)⟩

/-- The walk ends exactly when it meets no cycle. -/
theorem walkEnds_iff_rooted : WalkEnds branches id ↔ Rooted branches id := by
  constructor
  · intro ends ancestor reaches cycle
    obtain ⟨steps, ends⟩ := ends
    exact ends (walk_eq_outOfSteps_iff.mpr (climb_of_reaches reaches cycle steps))
  · intro rooted
    refine ⟨branches.size + 1, fun endless => ?_⟩
    obtain ⟨ancestor, reaches, cycle⟩ := onCycle_of_climb (walk_eq_outOfSteps_iff.mp endless)
    exact rooted ancestor reaches cycle

/-- A walk that ends at all needs no more steps than the manager grants it. -/
theorem resolveTimeline_ends_iff (manager : BranchManager) :
    manager.resolveTimeline id ≠ .error .outOfSteps ↔ WalkEnds manager.manifest.branches id := by
  constructor
  · exact fun ends => ⟨_, ends⟩
  · intro ends endless
    obtain ⟨ancestor, reaches, cycle⟩ := onCycle_of_climb (walk_eq_outOfSteps_iff.mp endless)
    exact walkEnds_iff_rooted.mp ends ancestor reaches cycle

/-- A manager whose branches form a tree resolves every branch. -/
theorem Tree.rooted {count : Nat} (tree : Tree branches count) (id : BranchId) : Rooted branches id := by
  rw [← walkEnds_iff_rooted]
  by_cases inside : id.toNat < count
  · obtain ⟨ancestors, start, resolves, _⟩ := tree.resolves inside
    refine ⟨ancestors.length + 1, ?_⟩
    rw [walk_of_resolves resolves (Nat.lt_succ_self _)]
    simp
  · refine ⟨1, ?_⟩
    have absent := (tree.keys id).not.mpr inside
    rw [Std.ExtTreeMap.mem_iff_isSome_getElem?, Option.not_isSome_iff_eq_none] at absent
    rw [BranchManager.walk, absent]
    simp

end Ends

section Decoded

variable [Crc32fast]

/-- Over a saved manifest that reads back, the walk from a branch ends if and only if neither the branch nor any of its
ancestors is its own ancestor. Reading checks nothing of the kind. -/
theorem decoded_walk_ends_iff {bytes : List UInt8} {manifest : BranchManifest}
    (decoded : BranchManifest.decode bytes = .ok manifest) {rootDir : RootDir} (saved : rootDir.manifest = some bytes)
    (id : BranchId) :
    ∃ manager, BranchManager.openManager rootDir = .ok manager ∧ manager.manifest = manifest ∧
      (WalkEnds manager.manifest.branches id ↔ Rooted manifest.branches id) := by
  refine ⟨⟨rootDir, manifest⟩, ?_, rfl, walkEnds_iff_rooted⟩
  rw [BranchManager.openManager, saved]
  dsimp only
  rw [decoded]
  rfl

end Decoded

section Samples

/-- A manifest with one branch. -/
def lone (branch : BranchMetadata) : BranchManifest := ⟨sampleDatabase, (∅ : Branches).insert branch.id branch⟩

theorem lone_getElem? (branch : BranchMetadata) (id : BranchId) :
    (lone branch).branches[id]? = if branch.id = id then some branch else none := by
  rw [lone, getElem?_insert, Std.ExtTreeMap.getElem?_empty]

theorem decode_lone [Crc32fast] (branch : BranchMetadata) (short : (nameBytes branch.name).length < 2 ^ 16) :
    BranchManifest.decode (lone branch).encode = .ok (lone branch) := by
  have only : ∀ {id : BranchId} {other : BranchMetadata}, (lone branch).branches[id]? = some other →
      branch.id = id ∧ branch = other := by
    intro id other found
    rw [lone_getElem?] at found
    split at found
    · next same => exact ⟨same, Option.some.inj found⟩
    · contradiction
  apply (BranchManifest.decode_encode_iff fun id other found => ?_).mpr
  · refine ⟨fun id other found => ?_, ?_⟩
    · rw [← (only found).2]
      exact short
    · rw [lone, Std.ExtTreeMap.size_insert, if_neg (by simp), Std.ExtTreeMap.size_empty]
      decide
  · rw [← (only found).2, (only found).1]

end Samples

theorem decoded_walk_ends_iff_sample :
    letI := Crc32fast.ieee
    ∃ manager, BranchManager.openManager ⟨some (lone mainBranch).encode, fun _ => none⟩ = .ok manager ∧
      WalkEnds manager.manifest.branches 0 := by
  generalize Crc32fast.ieee = checksum
  let := checksum
  let rootDir : RootDir := ⟨some (lone mainBranch).encode, fun _ => none⟩
  have saved : rootDir.manifest = some (lone mainBranch).encode := rfl
  obtain ⟨manager, opened, same, ends⟩ := decoded_walk_ends_iff (decode_lone mainBranch (by decide +kernel)) saved 0
  exact ⟨manager, opened, ends.mpr (tree_main.rooted 0)⟩

/-- Branch 1 names itself as its parent, and its walk never ends. -/
theorem self_parent_never_ends :
    letI := Crc32fast.ieee
    ∃ bytes manifest, BranchManifest.decode bytes = .ok manifest ∧ ¬WalkEnds manifest.branches 1 := by
  generalize Crc32fast.ieee = checksum
  let := checksum
  refine ⟨_, _, decode_lone ⟨1, "a", some (1, 0), .active, 0⟩ (by decide +kernel), fun ends => ?_⟩
  have loop : ForkedFrom (lone ⟨1, "a", some (1, 0), .active, 0⟩).branches 1 1 := by
    refine ⟨0, ?_⟩
    rw [parentOf, lone_getElem?]
    rfl
  exact walkEnds_iff_rooted.mp ends 1 .refl (.single loop)

end Temnion.Branch
