import Temnion.Branch.Manager
import Temnion.Library.Intervals

/-
This file resolves the timelines of a tree of branches and says when they partition the sequences.
-/

namespace Temnion.Branch

open Intervals Relation

/-- The branch and the sequence at which a branch was forked. -/
def parentOf (branches : Branches) (id : BranchId) : Option (BranchId × UInt64) :=
  (branches[id]?).bind (·.parent)

/-- The branches are numbered from 0 on, and only branch 0 has no parent. A parent comes before its children. -/
structure Tree (branches : Branches) (count : Nat) : Prop where
  positive : 0 < count
  bound : count ≤ 2 ^ 64
  keys : ∀ id, id ∈ branches ↔ id.toNat < count
  size : branches.size = count
  keyed : ∀ (id : BranchId) (branch : BranchMetadata), branches[id]? = some branch → branch.id = id
  root : parentOf branches 0 = none
  parents : ∀ id, id.toNat < count → id ≠ 0 →
    ∃ parent sequence, parentOf branches id = some (parent, sequence) ∧ parent.toNat < id.toNat

section Resolve

/-- A segment with an end. -/
structure Stretch where
  branchId : BranchId
  first : UInt64
  stop : UInt64

def Stretch.segment (stretch : Stretch) : TimelineSegment := ⟨stretch.branchId, stretch.first, some stretch.stop⟩

def Stretch.bounds (stretch : Stretch) : Nat × Nat := (stretch.first.toNat, stretch.stop.toNat)

/-- The segments of the ancestors and the open segment of the branch. -/
def timelineOf (ancestors : List Stretch) (id : BranchId) (start : UInt64) : List TimelineSegment :=
  ancestors.map Stretch.segment ++ [⟨id, start, none⟩]

/-- A child cuts the timeline of its parent at the fork and goes on from there. -/
inductive Resolves (branches : Branches) : BranchId → List Stretch → UInt64 → Prop where
  | root {id : BranchId} {branch : BranchMetadata} (found : branches[id]? = some branch) (alone : branch.parent = none) :
      Resolves branches id [] 0
  | child {id parent : BranchId} {branch : BranchMetadata} {forkSeq start : UInt64} {ancestors : List Stretch}
      (found : branches[id]? = some branch) (forked : branch.parent = some (parent, forkSeq))
      (rest : Resolves branches parent ancestors start) :
      Resolves branches id (ancestors ++ [⟨parent, start, forkSeq⟩]) (forkSeq + 1)

variable {branches : Branches} {count : Nat} {id : BranchId} {ancestors : List Stretch} {start : UInt64}

theorem parentOf_eq {branch : BranchMetadata} (found : branches[id]? = some branch) :
    parentOf branches id = branch.parent := by
  rw [parentOf, found, Option.bind_some]

/-- The walk collects the segments of a timeline in front of the segments that it has. -/
theorem walk_of_resolves (resolves : Resolves branches id ancestors start) {steps : Nat} (enough : ancestors.length < steps)
    (childFork : Option UInt64) (segments : List TimelineSegment) :
    BranchManager.walk branches steps id childFork segments =
      .ok (ancestors.map Stretch.segment ++ ⟨id, start, childFork⟩ :: segments) := by
  induction resolves generalizing steps childFork segments with
  | root found alone =>
      obtain ⟨steps, rfl⟩ := Nat.exists_eq_add_of_lt enough
      rw [BranchManager.walk, found]
      dsimp only
      rw [alone]
      rfl
  | child found forked rest hypothesis =>
      rw [List.length_append, List.length_singleton] at enough
      obtain ⟨steps, rfl⟩ : ∃ fewer, steps = fewer + 1 := ⟨steps - 1, by omega⟩
      rw [BranchManager.walk, found]
      dsimp only
      rw [forked]
      dsimp only
      rw [hypothesis (by omega), List.map_append, List.append_assoc]
      rfl

theorem Tree.resolves (tree : Tree branches count) {id : BranchId} (inside : id.toNat < count) :
    ∃ ancestors start, Resolves branches id ancestors start ∧ ancestors.length ≤ id.toNat := by
  induction number : id.toNat using Nat.strong_induction_on generalizing id with
  | _ number' hypothesis =>
      obtain ⟨branch, found⟩ := Option.isSome_iff_exists.mp
        (Std.ExtTreeMap.mem_iff_isSome_getElem?.mp ((tree.keys id).mpr inside))
      by_cases first : id = 0
      · refine ⟨[], 0, .root found ?_, Nat.zero_le _⟩
        rw [← parentOf_eq found, first]
        exact tree.root
      · obtain ⟨parent, forkSeq, forked, before⟩ := tree.parents id inside first
        rw [parentOf_eq found] at forked
        obtain ⟨ancestors, start, rest, length⟩ :=
          hypothesis parent.toNat (number ▸ before) (before.trans inside) rfl
        refine ⟨_, _, .child found forked rest, ?_⟩
        rw [List.length_append, List.length_singleton]
        omega

/-- The manager resolves the timeline of every branch that it has. -/
theorem resolveTimeline_of_tree {manager : BranchManager} (tree : Tree manager.manifest.branches count) {id : BranchId}
    (inside : id.toNat < count) :
    ∃ ancestors start, Resolves manager.manifest.branches id ancestors start ∧
      manager.resolveTimeline id = .ok (timelineOf ancestors id start) := by
  obtain ⟨ancestors, start, resolves, length⟩ := tree.resolves inside
  have enough : ancestors.length < manager.manifest.branches.size + 1 := by
    rw [tree.size]
    omega
  exact ⟨ancestors, start, resolves, walk_of_resolves resolves enough none []⟩

/-- A branch has only one timeline. -/
theorem Resolves.unique {others : List Stretch} {other : UInt64} (resolves : Resolves branches id ancestors start)
    (again : Resolves branches id others other) : ancestors = others ∧ start = other := by
  induction resolves generalizing others other with
  | root found alone =>
      cases again with
      | root found' alone' => exact ⟨rfl, rfl⟩
      | child found' forked' rest' =>
          obtain rfl := Option.some.inj (found.symm.trans found')
          rw [alone] at forked'
          contradiction
  | child found forked rest hypothesis =>
      cases again with
      | root found' alone' =>
          obtain rfl := Option.some.inj (found.symm.trans found')
          rw [forked] at alone'
          contradiction
      | child found' forked' rest' =>
          obtain rfl := Option.some.inj (found.symm.trans found')
          obtain ⟨rfl, rfl⟩ := Prod.mk.inj (Option.some.inj (forked.symm.trans forked'))
          obtain ⟨rfl, rfl⟩ := hypothesis rest'
          exact ⟨rfl, rfl⟩

end Resolve

section Partition

def TimelineSegment.span (segment : TimelineSegment) : Interval :=
  (segment.startSeq.toNat, segment.endSeq.map (·.toNat))

/-- The segments start at 0, every one starts behind the end of the one before it, and the last one is the open segment
of the branch. -/
structure Connected (id : BranchId) (segments : List TimelineSegment) : Prop where
  start : segments.head?.map (·.startSeq) = some 0
  contiguous : List.IsChain (fun before after => ∃ stop, before.endSeq = some stop ∧ after.startSeq = stop + 1) segments
  last : ∃ start, segments.getLast? = some ⟨id, start, none⟩

/-- The segments follow each other without a gap, and every sequence lies in exactly one of them. A segment whose end
lies right before its start is empty. -/
structure Partitions (segments : List TimelineSegment) : Prop where
  start : segments.head?.map (·.startSeq) = some 0
  contiguous : List.IsChain (fun before after => ∃ stop, before.endSeq = some stop ∧
    after.startSeq.toNat = stop.toNat + 1) segments
  ordered : ∀ segment ∈ segments, ∀ stop, segment.endSeq = some stop → segment.startSeq.toNat ≤ stop.toNat + 1
  owned : ∀ position, ∃! index : Nat, ∃ segment, segments[index]? = some segment ∧ segment.Owns position

variable {branches : Branches} {id : BranchId} {ancestors : List Stretch} {start : UInt64}

theorem map_span_timelineOf : (timelineOf ancestors id start).map TimelineSegment.span =
    spans (ancestors.map Stretch.bounds) start.toNat := by
  rw [timelineOf, spans, List.map_append, List.map_map, List.map_map]
  rfl

theorem TimelineSegment.owns_iff {segment : TimelineSegment} {position : UInt64} :
    segment.Owns position ↔ Within segment.span position.toNat := by
  obtain ⟨branch, start, stop⟩ := segment
  cases stop with
  | none => simp [Owns, Within, span, UInt64.le_iff_toNat_le]
  | some stop => simp [Owns, Within, span, UInt64.le_iff_toNat_le]

/-- A timeline partitions the sequences if and only if its intervals are linked from 0 on and none runs backwards. -/
theorem partitions_iff : Partitions (timelineOf ancestors id start) ↔
    Linked 0 (ancestors.map Stretch.bounds) start.toNat ∧
      ∀ interval ∈ ancestors.map Stretch.bounds, interval.1 ≤ interval.2 + 1 := by
  have heads : (timelineOf ancestors id start).head?.map (·.startSeq) = some 0 ↔
      (spans (ancestors.map Stretch.bounds) start.toNat).head?.map Prod.fst = some 0 := by
    rw [← map_span_timelineOf, List.head?_map, Option.map_map]
    cases (timelineOf ancestors id start).head? with
    | none => simp
    | some segment => simp [TimelineSegment.span, ← UInt64.toNat_inj]
  have chains : List.IsChain (fun before after => ∃ stop, before.endSeq = some stop ∧
        after.startSeq.toNat = stop.toNat + 1) (timelineOf ancestors id start) ↔
      List.IsChain Follows (spans (ancestors.map Stretch.bounds) start.toNat) := by
    rw [← map_span_timelineOf, List.isChain_map]
    apply iff_of_eq
    congr 1
    funext before after
    simp [Follows, TimelineSegment.span]
  constructor
  · intro partitions
    refine ⟨linked_iff.mpr ⟨heads.mp partitions.start, chains.mp partitions.contiguous⟩, ?_⟩
    intro interval member
    obtain ⟨stretch, inside, rfl⟩ := List.mem_map.mp member
    exact partitions.ordered stretch.segment
      (List.mem_append_left _ (List.mem_map_of_mem inside)) stretch.stop rfl
  · intro whole
    obtain ⟨linked, ordered⟩ := whole
    obtain ⟨head, chain⟩ := linked_iff.mp linked
    refine ⟨heads.mpr head, chains.mpr chain, ?_, ?_⟩
    · intro segment member stop ends
      rcases List.mem_append.mp member with inside | same
      · obtain ⟨stretch, listed, rfl⟩ := List.mem_map.mp inside
        obtain rfl := Option.some.inj ends
        exact ordered _ (List.mem_map_of_mem listed)
      · obtain rfl := List.mem_singleton.mp same
        contradiction
    · intro position
      have unique := linked.existsUnique ordered (Nat.zero_le position.toNat)
      rw [← map_span_timelineOf] at unique
      simp only [List.getElem?_map, Option.map_eq_some_iff] at unique
      convert unique using 3
      constructor
      · intro owner
        obtain ⟨segment, found, owns⟩ := owner
        exact ⟨segment.span, ⟨segment, found, rfl⟩, TimelineSegment.owns_iff.mp owns⟩
      · intro owner
        obtain ⟨_, ⟨segment, found, rfl⟩, within⟩ := owner
        exact ⟨segment, found, TimelineSegment.owns_iff.mpr within⟩

/-- A branch was forked from its parent. -/
def ForkedFrom (branches : Branches) (child parent : BranchId) : Prop :=
  ∃ sequence, parentOf branches child = some (parent, sequence)

/-- On the way from the branch to its root no fork lies below the fork of the parent itself, and none at the last number. -/
def Climbs (branches : Branches) (id : BranchId) : Prop :=
  ∀ child, ReflTransGen (ForkedFrom branches) id child → ∀ parent sequence,
    parentOf branches child = some (parent, sequence) →
      sequence.toNat + 1 < 2 ^ 64 ∧ ∀ grand earlier, parentOf branches parent = some (grand, earlier) → earlier ≤ sequence

theorem climbs_of_root (alone : parentOf branches id = none) : Climbs branches id := by
  intro child path parent sequence forked
  rcases ReflTransGen.cases_head path with rfl | ⟨middle, ⟨first, step⟩, _⟩
  · rw [alone] at forked
    contradiction
  · rw [alone] at step
    contradiction

theorem climbs_of_child {parent : BranchId} {sequence : UInt64} (forked : parentOf branches id = some (parent, sequence)) :
    Climbs branches id ↔ (sequence.toNat + 1 < 2 ^ 64 ∧
      ∀ grand earlier, parentOf branches parent = some (grand, earlier) → earlier ≤ sequence) ∧ Climbs branches parent := by
  constructor
  · intro climbs
    exact ⟨climbs id .refl parent sequence forked, fun child path => climbs child (.head ⟨sequence, forked⟩ path)⟩
  · intro whole child path other later link
    rcases ReflTransGen.cases_head path with rfl | ⟨middle, ⟨first, step⟩, rest⟩
    · obtain ⟨rfl, rfl⟩ := Prod.mk.inj (Option.some.inj (forked.symm.trans link))
      exact whole.1
    · obtain ⟨rfl, rfl⟩ := Prod.mk.inj (Option.some.inj (forked.symm.trans step))
      exact whole.2 child rest other later link

/-- The start of a branch lies behind its fork. -/
theorem Resolves.start_eq (resolves : Resolves branches id ancestors start) :
    (parentOf branches id = none ∧ start = 0) ∨
      ∃ parent sequence, parentOf branches id = some (parent, sequence) ∧ start = sequence + 1 := by
  cases resolves with
  | root found alone => exact Or.inl ⟨(parentOf_eq found).trans alone, rfl⟩
  | child found forked rest => exact Or.inr ⟨_, _, (parentOf_eq found).trans forked, rfl⟩

/-- Every timeline is connected. Its last sequence may wrap around to the first one. -/
theorem Resolves.connected (resolves : Resolves branches id ancestors start) :
    Connected id (timelineOf ancestors id start) := by
  refine ⟨?_, ?_, start, List.getLast?_concat⟩
  · induction resolves with
    | root found alone => rfl
    | child found forked rest hypothesis =>
        next id parent branch forkSeq start ancestors =>
        rw [timelineOf, List.head?_append] at hypothesis ⊢
        cases ancestors with
        | nil => exact hypothesis
        | cons first others => exact hypothesis
  · induction resolves with
    | root found alone => exact List.isChain_singleton _
    | child found forked rest hypothesis =>
        next id parent branch forkSeq start ancestors =>
        have ends : timelineOf (ancestors ++ [⟨parent, start, forkSeq⟩]) id (forkSeq + 1) =
            ancestors.map Stretch.segment ++ [⟨parent, start, some forkSeq⟩, ⟨id, forkSeq + 1, none⟩] := by
          rw [timelineOf, List.map_append, List.append_assoc]
          rfl
        rw [timelineOf, List.isChain_append] at hypothesis
        rw [ends, List.isChain_append]
        refine ⟨hypothesis.1, List.isChain_pair.mpr ⟨forkSeq, rfl, rfl⟩, ?_⟩
        intro before member after first
        obtain rfl := Option.some.inj first
        exact hypothesis.2.2 before member ⟨parent, start, none⟩ rfl

theorem toNat_succ {sequence : UInt64} (room : sequence.toNat + 1 < 2 ^ 64) :
    (sequence + 1).toNat = sequence.toNat + 1 := by
  rw [UInt64.toNat_add, UInt64.toNat_one]
  omega

/-- A timeline partitions the sequences if and only if the forks climb on the way to its branch. -/
theorem Resolves.partitions_iff_climbs (resolves : Resolves branches id ancestors start) :
    Partitions (timelineOf ancestors id start) ↔ Climbs branches id := by
  rw [partitions_iff]
  induction resolves with
  | root found alone =>
      refine iff_of_true ⟨rfl, fun interval absent => absurd absent List.not_mem_nil⟩ (climbs_of_root ?_)
      exact (parentOf_eq found).trans alone
  | child found forked rest hypothesis =>
      next id parent branch forkSeq start ancestors =>
      rw [climbs_of_child ((parentOf_eq found).trans forked), ← hypothesis, List.map_append, List.map_singleton,
        Stretch.bounds, linked_concat, List.forall_mem_append, List.forall_mem_singleton]
      have room : (forkSeq + 1).toNat = forkSeq.toNat + 1 ↔ forkSeq.toNat + 1 < 2 ^ 64 := by
        rw [UInt64.toNat_add, UInt64.toNat_one]
        omega
      have order : Climbs branches parent → (start.toNat ≤ forkSeq.toNat + 1 ↔
          ∀ grand earlier, parentOf branches parent = some (grand, earlier) → earlier ≤ forkSeq) := by
        intro climbs
        rcases rest.start_eq with ⟨alone, rfl⟩ | ⟨grand, earlier, link, rfl⟩
        · exact iff_of_true (Nat.zero_le (forkSeq.toNat + 1)) fun grand earlier link => absurd (alone.symm.trans link) nofun
        · have after := toNat_succ (climbs parent .refl grand earlier link).1
          rw [after]
          constructor
          · intro below other sequence again
            obtain ⟨rfl, rfl⟩ := Prod.mk.inj (Option.some.inj (link.symm.trans again))
            exact UInt64.le_iff_toNat_le.mpr (Nat.le_of_succ_le_succ below)
          · exact fun above => Nat.succ_le_succ (UInt64.le_iff_toNat_le.mp (above grand earlier link))
      constructor
      · intro whole
        obtain ⟨⟨linked, last⟩, ordered, bound⟩ := whole
        exact ⟨⟨room.mp last, (order (hypothesis.mp ⟨linked, ordered⟩)).mp bound⟩, linked, ordered⟩
      · intro whole
        obtain ⟨⟨small, above⟩, linked, ordered⟩ := whole
        exact ⟨⟨linked, room.mpr small⟩, ordered, (order (hypothesis.mp ⟨linked, ordered⟩)).mpr above⟩

end Partition

end Temnion.Branch
