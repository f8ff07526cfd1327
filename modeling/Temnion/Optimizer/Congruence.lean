import Temnion.Optimizer.Reached

/-
This file says when one pass of the rebuild restores the congruence of an e-graph.
-/

namespace Temnion.Optimizer

open Query

variable [Binary64]

namespace EGraph

variable {graph : EGraph} {state : Rebuilding} {root id other : EClassId} {node : ENode}

/-- Nodes and keys are canonical, equal nodes are in one class, each key is in the class that its entry names, and only
roots have nodes. -/
structure Congruent (graph : EGraph) : Prop where
  nodes : ∀ id, ∀ node ∈ graph.nodes id, graph.canonicalizeNode node = node
  keys : ∀ entry ∈ graph.hashcons, graph.canonicalizeNode entry.1 = entry.1
  unique : ∀ first second, ∀ one ∈ graph.nodes first, ∀ two ∈ graph.nodes second,
    graph.canonicalizeNode one = graph.canonicalizeNode two → graph.findConst first = graph.findConst second
  entries : ∀ entry ∈ graph.hashcons, entry.1 ∈ graph.nodes (graph.findConst entry.2)
  roots : ∀ id, graph.findConst id ≠ id → graph.nodes id = []

/-- No two classes have nodes with the same canonical form. -/
def Separate (graph : EGraph) : Prop :=
  ∀ first second, graph.findConst first = first → graph.findConst second = second →
    ∀ one ∈ graph.nodes first, ∀ two ∈ graph.nodes second,
      graph.canonicalizeNode one = graph.canonicalizeNode two → first = second

/-- Only roots have nodes. -/
def RootsOnly (graph : EGraph) : Prop := ∀ id, graph.findConst id ≠ id → graph.nodes id = []

/-- A class that has been merged into another one still has a node. -/
def Stranded (graph : EGraph) : Prop := ∃ id, graph.findConst id ≠ id ∧ ∃ node, node ∈ graph.nodes id

theorem not_stranded_iff : ¬graph.Stranded ↔ graph.RootsOnly := by
  constructor
  · intro none id merged
    rw [List.eq_nil_iff_forall_not_mem]
    exact fun node member => none ⟨id, merged, node, member⟩
  · rintro only ⟨id, merged, node, member⟩
    rw [only id merged] at member
    exact absurd member List.not_mem_nil

/-- The pass without any merge: the roots below the bound have canonical nodes in the place of their old ones, as far as
these have been put back, and the new table names them. -/
structure Passes (graph : EGraph) (bound : Nat) (done : List (EClassId × ENode)) (state : Rebuilding) : Prop where
  findConst : ∀ id, state.graph.findConst id = graph.findConst id
  nodes : ∀ id node, node ∈ state.graph.nodes id ↔
    ¬(id < bound ∧ graph.findConst id = id) ∧ node ∈ graph.nodes id ∨
      ∃ old, (id, old) ∈ done ∧ graph.canonicalizeNode old = node
  owners : ∀ pair ∈ done, pair.1 < bound ∧ graph.findConst pair.1 = pair.1 ∧ pair.2 ∈ graph.nodes pair.1
  entries : ∀ entry ∈ state.newHashcons, ∃ old, (entry.2, old) ∈ done ∧ graph.canonicalizeNode old = entry.1
  found : ∀ pair ∈ done, ∃ id, state.newHashcons.lookup (graph.canonicalizeNode pair.2) = some id

/-- All nodes of the roots below the bound have been put back. -/
def Complete (graph : EGraph) (bound : Nat) (done : List (EClassId × ENode)) : Prop :=
  ∀ id < bound, graph.findConst id = id → ∀ node ∈ graph.nodes id, (id, node) ∈ done

variable {bound : Nat} {done : List (EClassId × ENode)}

theorem Passes.canonicalizeNode (passes : Passes graph bound done state) (node : ENode) :
    state.graph.canonicalizeNode node = graph.canonicalizeNode node :=
  ENode.map_congr fun child _ => passes.findConst child

theorem Stranded.find (stranded : graph.Stranded) (id : EClassId) : (graph.find id).2.Stranded := by
  obtain ⟨other, merged, node, member⟩ := stranded
  refine ⟨other, ?_, node, member⟩
  rwa [find_snd_findConst]

theorem Stranded.drain (stranded : graph.Stranded) (own : graph.findConst id = id) : (graph.drain id).Stranded := by
  obtain ⟨other, merged, node, member⟩ := stranded
  refine ⟨other, merged, node, mem_drain_nodes.mpr ⟨?_, member⟩⟩
  rintro rfl
  exact merged own

variable [HashOrder ENode]

/-- What a class has stays stranded. -/
theorem Stranded.extend (stranded : graph.Stranded) (present : id < graph.size) (added : List ENode) :
    (graph.extend id added).Stranded := by
  obtain ⟨other, merged, node, member⟩ := stranded
  exact ⟨other, merged, node, (mem_extend_nodes present).mpr (.inl member)⟩

theorem Stranded.union (stranded : graph.Stranded) {first second : EClassId}
    (length : graph.parents.parents.length = graph.size) (firstPresent : first < graph.size)
    (secondPresent : second < graph.size) : (graph.union first second).2.Stranded := by
  obtain ⟨other, merged, node, member⟩ := stranded
  have merges := union_merges length firstPresent secondPresent
  have still : (graph.union first second).2.findConst other ≠ other := by
    intro own
    have below : (graph.union first second).2.findConst other ≤ graph.findConst other := by
      rw [← merges.merged other]
      exact findConst_le
    rw [own] at below
    exact merged (le_antisymm findConst_le below)
  refine ⟨other, still, node, ?_⟩
  rw [union_snd]
  split
  · exact member
  · next apart =>
      have present : graph.findConst first < (graph.searched first second).size := findConst_lt firstPresent
      rw [mem_link_nodes present]
      refine .inl ⟨?_, member⟩
      rintro rfl
      apply merged
      rcases max_choice (graph.findConst first) (graph.findConst second) with same | same
      · rw [same, findConst_findConst]
      · rw [same, findConst_findConst]

section Node

theorem rebuildNode_absent (absent : state.newHashcons.lookup (state.graph.canonicalizeNode node) = none) :
    rebuildNode root state node = { state with
      graph := state.graph.extend root [state.graph.canonicalizeNode node]
      newHashcons := (state.graph.canonicalizeNode node, root) :: state.newHashcons } := by
  simp only [rebuildNode, absent]

theorem rebuildNode_same {existing : EClassId}
    (found : state.newHashcons.lookup (state.graph.canonicalizeNode node) = some existing)
    (same : state.graph.findConst existing = root) : rebuildNode root state node = { state with
      graph := (state.graph.find existing).2.extend root [state.graph.canonicalizeNode node] } := by
  simp only [rebuildNode, found, find_fst]
  exact if_pos same

theorem rebuildNode_merge {existing : EClassId}
    (found : state.newHashcons.lookup (state.graph.canonicalizeNode node) = some existing)
    (apart : state.graph.findConst existing ≠ root) : rebuildNode root state node = { state with
      graph := ((state.graph.find existing).2.union (state.graph.findConst existing) root).2.extend root
        [state.graph.canonicalizeNode node]
      merges := state.merges + 1 } := by
  simp only [rebuildNode, found, find_fst]
  exact if_neg apart

/-- What the union in a rebuild does. -/
theorem rebuild_merges {pending : List ENode} {existing : EClassId} (before : Rebuilds graph root pending state)
    (known : existing < graph.size) (present : root < graph.size) :
    Merges (state.graph.findConst existing) root (state.graph.find existing).2
      ((state.graph.find existing).2.union (state.graph.findConst existing) root).2 := by
  have size : (state.graph.find existing).2.size = graph.size := before.size
  apply union_merges
  · rw [find_snd_parents_length, before.length]
    rfl
  · rw [size]
    exact lt_of_le_of_lt findConst_le known
  · rwa [size]

/-- What is stranded stays so. -/
theorem Stranded.rebuildNode {pending : List ENode} (stranded : state.graph.Stranded)
    (before : Rebuilds graph root (node :: pending) state) (present : root < graph.size) :
    (rebuildNode root state node).graph.Stranded := by
  have here : root < state.graph.size := by rwa [before.size]
  cases found : state.newHashcons.lookup (state.graph.canonicalizeNode node) with
  | none =>
      rw [rebuildNode_absent found]
      exact stranded.extend here _
  | some existing =>
      by_cases same : state.graph.findConst existing = root
      · rw [rebuildNode_same found same]
        exact (stranded.find existing).extend here _
      · have known := (before.keys _ (mem_of_lookup found)).1
        have merges := rebuild_merges before known present
        have size : (state.graph.find existing).2.size = graph.size := before.size
        have length : (state.graph.find existing).2.parents.parents.length = (state.graph.find existing).2.size := by
          rw [find_snd_parents_length, before.length]
          rfl
        rw [rebuildNode_merge found same]
        apply ((stranded.find existing).union length (by rw [size]; exact lt_of_le_of_lt findConst_le known) here).extend
        rw [merges.size]
        exact here

theorem Passes.put {middle : EGraph} {entries : List (ENode × EClassId)} {merges : Nat}
    (passes : Passes graph (root + 1) done state) (present : root < middle.size) (own : graph.findConst root = root)
    (member : node ∈ graph.nodes root) (classes : ∀ id, middle.findConst id = state.graph.findConst id)
    (held : ∀ id, middle.nodes id = state.graph.nodes id)
    (known : ∀ entry ∈ entries, entry ∈ state.newHashcons ∨ entry = (graph.canonicalizeNode node, root))
    (named : ∀ pair ∈ done ++ [(root, node)], ∃ id, entries.lookup (graph.canonicalizeNode pair.2) = some id) :
    Passes graph (root + 1) (done ++ [(root, node)])
      ⟨middle.extend root [state.graph.canonicalizeNode node], entries, merges⟩ where
  findConst id := by rw [extend_findConst, classes, passes.findConst]
  nodes id other := by
    rw [mem_extend_nodes present, held, passes.nodes, List.mem_singleton, passes.canonicalizeNode]
    simp only [List.mem_append, List.mem_singleton, Prod.mk.injEq]
    constructor
    · rintro ((old | ⟨origin, listed, same⟩) | ⟨rfl, rfl⟩)
      · exact .inl old
      · exact .inr ⟨origin, .inl listed, same⟩
      · exact .inr ⟨node, .inr ⟨rfl, rfl⟩, rfl⟩
    · rintro (old | ⟨origin, listed | ⟨rfl, rfl⟩, same⟩)
      · exact .inl (.inl old)
      · exact .inl (.inr ⟨origin, listed, same⟩)
      · exact .inr ⟨rfl, same.symm⟩
  owners pair listed := by
    rcases List.mem_append.mp listed with earlier | now
    · exact passes.owners pair earlier
    · rw [List.mem_singleton.mp now]
      exact ⟨Nat.lt_succ_self root, own, member⟩
  entries entry listed := by
    rcases known entry listed with old | rfl
    · obtain ⟨origin, earlier, same⟩ := passes.entries entry old
      exact ⟨origin, List.mem_append_left _ earlier, same⟩
    · exact ⟨node, List.mem_append_right _ (List.mem_singleton.mpr rfl), rfl⟩
  found := named

/-- The next node is put back without a merge, or it shows that two classes have the same node and is stranded in the one
that has just been merged away. -/
theorem Passes.rebuildNode {pending : List ENode} (passes : Passes graph (root + 1) done state)
    (before : Rebuilds graph root (node :: pending) state) (present : root < graph.size)
    (own : graph.findConst root = root) (member : node ∈ graph.nodes root) :
    (rebuildNode root state node).graph.Stranded ∧ ¬graph.Separate ∨
      Passes graph (root + 1) (done ++ [(root, node)]) (rebuildNode root state node) := by
  have here : root < state.graph.size := by rwa [before.size]
  have canonical := passes.canonicalizeNode node
  cases found : state.newHashcons.lookup (state.graph.canonicalizeNode node) with
  | none =>
      rw [rebuildNode_absent found]
      refine .inr (passes.put here own member (fun _ => rfl) (fun _ => rfl) ?_ ?_)
      · intro entry listed
        rw [← canonical]
        exact (List.mem_cons.mp listed).symm
      · intro pair listed
        rw [List.lookup_cons]
        by_cases same : graph.canonicalizeNode pair.2 = state.graph.canonicalizeNode node
        · exact ⟨root, by rw [beq_iff_eq.mpr same]⟩
        · rw [beq_false_of_ne same]
          rcases List.mem_append.mp listed with earlier | now
          · exact passes.found pair earlier
          · rw [List.mem_singleton.mp now, canonical] at same
            exact absurd rfl same
  | some existing =>
      obtain ⟨origin, listed, form⟩ := passes.entries _ (mem_of_lookup found)
      obtain ⟨below, base, held⟩ := passes.owners _ listed
      rw [canonical] at form
      have top : state.graph.findConst existing = existing := (passes.findConst existing).trans base
      by_cases same : state.graph.findConst existing = root
      · rw [rebuildNode_same found same]
        refine .inr (passes.put here own member (fun id => find_snd_findConst) (fun _ => rfl) ?_ ?_)
        · exact fun entry old => .inl old
        · intro pair also
          rcases List.mem_append.mp also with earlier | now
          · exact passes.found pair earlier
          · rw [List.mem_singleton.mp now, ← canonical]
            exact ⟨existing, found⟩
      · rw [rebuildNode_merge found same]
        have merges := rebuild_merges before (before.keys _ (mem_of_lookup found)).1 present
        refine .inl ⟨⟨root, ?_, state.graph.canonicalizeNode node, ?_⟩, fun separate => ?_⟩
        · rw [extend_findConst, ← merges.united, top]
          have lower := @findConst_le _ ((state.graph.find existing).2.union existing root).2 existing
          have less : existing < root := lt_of_le_of_ne (Nat.le_of_lt_succ below) (top ▸ same)
          exact ne_of_lt (lt_of_le_of_lt lower less)
        · have room : root < ((state.graph.find existing).2.union (state.graph.findConst existing) root).2.size := by
            rw [merges.size]
            exact here
          exact (mem_extend_nodes room).mpr (.inr ⟨rfl, List.mem_singleton.mpr rfl⟩)
        · exact same (top.trans (separate existing root base own origin held node member form))

theorem Stranded.rebuildNodes {pending : List ENode} (stranded : state.graph.Stranded)
    (before : Rebuilds graph root pending state) (present : root < graph.size) :
    (pending.foldl (EGraph.rebuildNode root) state).graph.Stranded := by
  induction pending generalizing state with
  | nil => exact stranded
  | cons node pending hypothesis => exact hypothesis (stranded.rebuildNode before present) (before.rebuildNode present)

/-- All nodes of a class are put back without a merge, or one is stranded. -/
theorem Passes.rebuildNodes {pending : List ENode} (passes : Passes graph (root + 1) done state)
    (before : Rebuilds graph root pending state) (present : root < graph.size)
    (own : graph.findConst root = root) (members : ∀ node ∈ pending, node ∈ graph.nodes root) :
    (pending.foldl (EGraph.rebuildNode root) state).graph.Stranded ∧ ¬graph.Separate ∨
      Passes graph (root + 1) (done ++ pending.map fun node => (root, node))
        (pending.foldl (EGraph.rebuildNode root) state) := by
  induction pending generalizing state done with
  | nil =>
      rw [List.map_nil, List.append_nil]
      exact .inr passes
  | cons node pending hypothesis =>
      have next := before.rebuildNode present
      rcases passes.rebuildNode before present own (members node List.mem_cons_self) with ⟨stranded, shared⟩ | kept
      · exact .inl ⟨stranded.rebuildNodes next present, shared⟩
      · have rest := hypothesis kept next fun other member => members other (List.mem_cons_of_mem _ member)
        rwa [List.append_assoc] at rest

end Node

section Pass

/-- Up to the bound the pass made no merge, or it stranded a node since two classes have the same one. -/
def Passed (graph : EGraph) (bound : Nat) (state : Rebuilding) : Prop :=
  state.graph.Stranded ∧ ¬graph.Separate ∨ ∃ done, Passes graph bound done state ∧ Complete graph bound done

omit [HashOrder ENode] in
/-- A class that is not a root is passed over. -/
theorem Passes.skip (passes : Passes graph id done state) (merged : graph.findConst id ≠ id) :
    Passes graph (id + 1) done { state with graph := (state.graph.find id).2 } where
  findConst other := by rw [find_snd_findConst, passes.findConst]
  nodes other node := by
    rw [find_snd_nodes, passes.nodes]
    have same : (other < id ∧ graph.findConst other = other) ↔ other < id + 1 ∧ graph.findConst other = other := by
      constructor
      · exact fun both => ⟨Nat.lt_succ_of_lt both.1, both.2⟩
      · rintro ⟨below, root⟩
        refine ⟨lt_of_le_of_ne (Nat.le_of_lt_succ below) ?_, root⟩
        rintro rfl
        exact merged root
    rw [same]
  owners pair listed := ⟨Nat.lt_succ_of_lt (passes.owners pair listed).1, (passes.owners pair listed).2⟩
  entries := passes.entries
  found := passes.found

omit [HashOrder ENode] in
/-- A root is drained before its nodes are put back. -/
theorem Passes.drain (passes : Passes graph id done state) (own : graph.findConst id = id) :
    Passes graph (id + 1) done { state with graph := (state.graph.find id).2.drain id } where
  findConst other := by rw [drain_findConst, find_snd_findConst, passes.findConst]
  nodes other node := by
    rw [mem_drain_nodes, find_snd_nodes, passes.nodes]
    constructor
    · rintro ⟨apart, ⟨kept, member⟩ | put⟩
      · refine .inl ⟨fun both => kept ⟨lt_of_le_of_ne (Nat.le_of_lt_succ both.1) apart, both.2⟩, member⟩
      · exact .inr put
    · rintro (⟨kept, member⟩ | ⟨old, listed, form⟩)
      · refine ⟨?_, .inl ⟨fun both => kept ⟨Nat.lt_succ_of_lt both.1, both.2⟩, member⟩⟩
        rintro rfl
        exact kept ⟨Nat.lt_succ_self _, own⟩
      · exact ⟨ne_of_lt (passes.owners _ listed).1, .inr ⟨old, listed, form⟩⟩
  owners pair listed := ⟨Nat.lt_succ_of_lt (passes.owners pair listed).1, (passes.owners pair listed).2⟩
  entries := passes.entries
  found := passes.found

theorem Stranded.rebuildClass (stranded : state.graph.Stranded) (before : Rebuilds graph root [] state)
    (present : id < graph.size) : (rebuildClass state id).graph.Stranded := by
  unfold EGraph.rebuildClass
  by_cases own : (state.graph.find id).1 = id
  · simp only [if_pos own]
    rw [own]
    have drained := (stranded.find id).drain (find_snd_findConst.trans own)
    exact drained.rebuildNodes ((before.find id).drain id) present
  · simp only [if_neg own]
    exact stranded.find id

theorem Passed.rebuildClass (passed : Passed graph id state) (before : Rebuilds graph root [] state)
    (present : id < graph.size) : Passed graph (id + 1) (rebuildClass state id) := by
  rcases passed with ⟨stranded, shared⟩ | ⟨done, passes, complete⟩
  · exact .inl ⟨stranded.rebuildClass before present, shared⟩
  unfold EGraph.rebuildClass
  by_cases own : (state.graph.find id).1 = id
  · have root' : graph.findConst id = id := (passes.findConst id).symm.trans own
    have members : ∀ node, node ∈ state.graph.nodes id ↔ node ∈ graph.nodes id := by
      intro node
      rw [passes.nodes]
      constructor
      · rintro (⟨-, member⟩ | ⟨old, listed, -⟩)
        · exact member
        · exact absurd (passes.owners _ listed).1 (lt_irrefl _)
      · exact fun member => .inl ⟨fun both => absurd both.1 (lt_irrefl _), member⟩
    simp only [if_pos own]
    rw [own]
    rcases (passes.drain root').rebuildNodes ((before.find id).drain id) present root' (fun node member =>
      (members node).mp member) with stranded | kept
    · exact .inl stranded
    · refine .inr ⟨_, kept, ?_⟩
      intro other below base node member
      rcases Nat.lt_succ_iff_lt_or_eq.mp below with earlier | rfl
      · exact List.mem_append_left _ (complete other earlier base node member)
      · exact List.mem_append_right _ (List.mem_map_of_mem ((members node).mpr member))
  · have merged : graph.findConst id ≠ id := fun same => own ((passes.findConst id).trans same)
    simp only [if_neg own]
    refine .inr ⟨done, passes.skip merged, ?_⟩
    intro other below base node member
    rcases Nat.lt_succ_iff_lt_or_eq.mp below with earlier | rfl
    · exact complete other earlier base node member
    · exact absurd base merged

theorem passed_range (wellFormed : WellFormed graph) {count : Nat} (within : count ≤ graph.size) :
    Passed graph count ((List.range count).foldl EGraph.rebuildClass ⟨graph, [], 0⟩) ∧
      ∃ root, Rebuilds graph root [] ((List.range count).foldl EGraph.rebuildClass ⟨graph, [], 0⟩) := by
  induction count with
  | zero =>
      refine ⟨.inr ⟨[], ⟨fun _ => rfl, fun id node => ?_, nofun, nofun, nofun⟩, nofun⟩, 0, start_rebuilds wellFormed⟩
      simp
  | succ count hypothesis =>
      obtain ⟨passed, root, before⟩ := hypothesis (Nat.le_of_succ_le within)
      rw [List.range_succ, List.foldl_append]
      exact ⟨passed.rebuildClass before within, before.rebuildClass count within⟩

theorem stranded_range (wellFormed : WellFormed graph) (stranded : graph.Stranded) {count : Nat}
    (within : count ≤ graph.size) : ((List.range count).foldl EGraph.rebuildClass ⟨graph, [], 0⟩).graph.Stranded := by
  induction count with
  | zero => exact stranded
  | succ count hypothesis =>
      obtain ⟨-, root, before⟩ := passed_range wellFormed (Nat.le_of_succ_le within)
      rw [List.range_succ, List.foldl_append]
      exact (hypothesis (Nat.le_of_succ_le within)).rebuildClass before within

omit [HashOrder ENode] in
/-- A pass without any merge leaves a congruent graph when only roots had nodes. -/
theorem Passes.congruent (passes : Passes graph graph.size done state) (separate : graph.Separate)
    (rootsOnly : graph.RootsOnly) : Congruent { state.graph with hashcons := state.newHashcons } := by
  have canonical : ∀ node, EGraph.canonicalizeNode { state.graph with hashcons := state.newHashcons } node =
      graph.canonicalizeNode node := passes.canonicalizeNode
  have put : ∀ id node, node ∈ state.graph.nodes id → ∃ old, (id, old) ∈ done ∧ graph.canonicalizeNode old = node := by
    intro id node member
    rcases (passes.nodes id node).mp member with ⟨kept, old⟩ | put
    · have merged : graph.findConst id ≠ id := fun root => kept ⟨lt_size_of_mem old, root⟩
      rw [rootsOnly id merged] at old
      exact absurd old List.not_mem_nil
    · exact put
  refine ⟨?_, ?_, ?_, ?_, ?_⟩
  · intro id node member
    obtain ⟨old, -, rfl⟩ := put id node member
    rw [canonical, canonicalizeNode_canonicalizeNode]
  · intro entry listed
    obtain ⟨old, -, same⟩ := passes.entries entry listed
    rw [canonical, ← same, canonicalizeNode_canonicalizeNode]
  · intro first second one member two also same
    obtain ⟨old, listed, rfl⟩ := put first one member
    obtain ⟨other, listed', rfl⟩ := put second two also
    obtain ⟨-, base, held⟩ := passes.owners _ listed
    obtain ⟨-, base', held'⟩ := passes.owners _ listed'
    rw [canonical, canonical, canonicalizeNode_canonicalizeNode, canonicalizeNode_canonicalizeNode] at same
    exact congrArg _ (separate first second base base' old held other held' same)
  · intro entry listed
    obtain ⟨old, earlier, same⟩ := passes.entries entry listed
    have top : state.graph.findConst entry.2 = entry.2 := (passes.findConst _).trans (passes.owners _ earlier).2.1
    change entry.1 ∈ state.graph.nodes (state.graph.findConst entry.2)
    rw [top]
    exact (passes.nodes _ _).mpr (.inr ⟨old, earlier, same⟩)
  · intro id merged
    rw [List.eq_nil_iff_forall_not_mem]
    intro node member
    obtain ⟨old, listed, -⟩ := put id node member
    exact merged ((passes.findConst id).trans (passes.owners _ listed).2.1)

/-- A rebuild restores the congruence exactly when it had nothing to merge and only roots had nodes. -/
theorem congruent_rebuild_iff (wellFormed : WellFormed graph) :
    graph.rebuild.2.Congruent ↔ graph.Separate ∧ graph.RootsOnly := by
  obtain ⟨passed, -⟩ := passed_range wellFormed (le_refl graph.size)
  constructor
  · intro congruent
    have clean : ¬graph.rebuildClasses.graph.Stranded := not_stranded_iff.mpr congruent.roots
    refine ⟨?_, not_stranded_iff.mp fun stranded => clean (stranded_range wellFormed stranded (le_refl graph.size))⟩
    rcases passed with ⟨stranded, -⟩ | ⟨done, passes, complete⟩
    · exact absurd stranded clean
    intro first second base base' one member two also same
    have put : ∀ id node, graph.findConst id = id → node ∈ graph.nodes id →
        graph.canonicalizeNode node ∈ graph.rebuild.2.nodes id := by
      intro id node root held
      exact (passes.nodes _ _).mpr (.inr ⟨node, complete id (lt_size_of_mem held) root node held, rfl⟩)
    have together := congruent.unique first second _ (put first one base member) _ (put second two base' also) (by
      rw [same])
    rwa [show graph.rebuild.2.findConst first = first from (passes.findConst first).trans base,
      show graph.rebuild.2.findConst second = second from (passes.findConst second).trans base'] at together
  · rintro ⟨separate, rootsOnly⟩
    rcases passed with ⟨-, shared⟩ | ⟨done, passes, -⟩
    · exact absurd separate shared
    · exact passes.congruent separate rootsOnly

/-- In every graph that calls lead to, one rebuild restores the congruence exactly when no two classes have nodes with the
same canonical form and only roots have nodes. -/
theorem rebuild_restores_congruence_iff (reached : Reached graph) :
    graph.rebuild.2.Congruent ↔ graph.Separate ∧ graph.RootsOnly :=
  congruent_rebuild_iff reached.wellFormed

end Pass

omit [Binary64] in
theorem rebuild_restores_congruence_iff_sample :
    letI := Binary64.exact
    letI := HashOrder.latest ENode
    let graph := (new.addExpr (.not (.field "a".toList))).2
    graph.rebuild.2.Congruent ↔ graph.Separate ∧ graph.RootsOnly := by
  let := Binary64.exact
  let := HashOrder.latest ENode
  exact rebuild_restores_congruence_iff (.single (.addExpr _))

omit [Binary64] in
/-- The negations of two merged fields are merged by the rebuild, which leaves a node in the class that is gone. -/
theorem merged_negations_leave_a_node :
    letI := Binary64.exact
    letI := HashOrder.latest ENode
    ∃ graph : EGraph, Reached graph ∧ ¬graph.rebuild.2.Congruent := by
  let := Binary64.exact
  let := HashOrder.latest ENode
  let negations := ((new.addExpr (.not (.field "a".toList))).2.addExpr (.not (.field "b".toList))).2
  refine ⟨(negations.union 0 2).2, ?_, fun congruent => ?_⟩
  · have both : Reached negations := .tail (.single (.addExpr _)) (.addExpr _)
    exact both.tail (.union 0 2 (by decide +kernel) (by decide +kernel))
  · have gone : (negations.union 0 2).2.rebuild.2.findConst 3 ≠ 3 := by decide +kernel
    have left : (negations.union 0 2).2.rebuild.2.nodes 3 ≠ [] := by decide +kernel
    exact left (congruent.roots 3 gone)

end EGraph

end Temnion.Optimizer
