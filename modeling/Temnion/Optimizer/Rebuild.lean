import Temnion.Optimizer.Meaning

/-
This file says what additions, unions and rebuilds keep of an e-graph.
-/

namespace Temnion.Optimizer

open Query

variable [Binary64]

namespace EGraph

variable {graph later last : EGraph} {id other root : EClassId} {node : ENode}

/-- The class of the id has a node with the same canonical form. -/
def Covers (graph : EGraph) (id : EClassId) (node : ENode) : Prop :=
  ∃ other, ∃ counterpart ∈ graph.nodes other, graph.findConst other = graph.findConst id ∧
    graph.canonicalizeNode counterpart = graph.canonicalizeNode node

theorem covers_of_mem (member : node ∈ graph.nodes id) : graph.Covers id node := ⟨id, node, member, rfl, rfl⟩

/-- The classes have parents, the ids in nodes and keys belong to classes, and the classes have the nodes of their keys. -/
structure WellFormed (graph : EGraph) : Prop where
  length : graph.parents.parents.length = graph.size
  children : ∀ id, ∀ node ∈ graph.nodes id, ∀ child ∈ node.children, child < graph.size
  keys : ∀ entry ∈ graph.hashcons, entry.2 < graph.size ∧ graph.Covers entry.2 entry.1

/-- Classes only merge, and they keep their nodes up to the canonical form. -/
structure Grows (graph later : EGraph) : Prop where
  wellFormed : WellFormed later
  size : graph.size ≤ later.size
  merged : ∀ id, later.findConst (graph.findConst id) = later.findConst id
  kept : ∀ id, ∀ node ∈ graph.nodes id, later.Covers id node

theorem findConst_eq_of_merged (merged : ∀ id, later.findConst (graph.findConst id) = later.findConst id)
    (same : graph.findConst id = graph.findConst other) : later.findConst id = later.findConst other := by
  rw [← merged id, same, merged]

theorem Covers.mono (merged : ∀ id, later.findConst (graph.findConst id) = later.findConst id)
    (kept : ∀ id, ∀ node ∈ graph.nodes id, later.Covers id node) (covers : graph.Covers id node) :
    later.Covers id node := by
  obtain ⟨other, counterpart, member, class_eq, form⟩ := covers
  obtain ⟨last, final, present, same, canonical⟩ := kept other counterpart member
  refine ⟨last, final, present, ?_, ?_⟩
  · rw [same]
    exact findConst_eq_of_merged merged class_eq
  · rw [canonical]
    exact canonicalizeNode_congr merged form

theorem Grows.refl (wellFormed : WellFormed graph) : Grows graph graph where
  wellFormed := wellFormed
  size := le_refl _
  merged _ := findConst_findConst
  kept _ _ := covers_of_mem

theorem Grows.trans (first : Grows graph later) (second : Grows later last) : Grows graph last where
  wellFormed := second.wellFormed
  size := le_trans first.size second.size
  merged id := by rw [← second.merged, first.merged, second.merged]
  kept id node member := (first.kept id node member).mono second.merged second.kept

theorem new_wellFormed : WellFormed new where
  length := rfl
  children _ _ member := nomatch member
  keys _ member := nomatch member

theorem find_grows (wellFormed : WellFormed graph) : Grows graph (graph.find id).2 where
  wellFormed := by
    constructor
    · rw [find_snd_parents_length]
      exact wellFormed.length
    · exact wellFormed.children
    · intro entry member
      refine ⟨(wellFormed.keys entry member).1, (wellFormed.keys entry member).2.mono ?_ ?_⟩
      · intro id
        rw [find_snd_findConst, find_snd_findConst, findConst_findConst]
      · exact fun id node member => covers_of_mem member
  size := le_refl _
  merged id := by rw [find_snd_findConst, find_snd_findConst, findConst_findConst]
  kept id node member := covers_of_mem member

section Union

variable [HashOrder ENode]

omit [HashOrder ENode] in
theorem Merges.grows {first second : EClassId} (wellFormed : WellFormed graph) (merges : Merges first second graph later) :
    Grows graph later := by
  have kept : ∀ id, ∀ node ∈ graph.nodes id, later.Covers id node := by
    intro id node member
    obtain ⟨other, present, same⟩ := merges.moved id node member
    exact ⟨other, node, present, same, rfl⟩
  refine ⟨?_, le_of_eq merges.size.symm, merges.merged, kept⟩
  constructor
  · rw [merges.length, merges.size, wellFormed.length]
  · intro id node member
    have constant : graph.Constant fun _ => () := fun _ => rfl
    obtain ⟨_, origin⟩ := merges.constant constant rfl
    obtain ⟨other, present, _⟩ := origin id node member
    rw [merges.size]
    exact wellFormed.children other node present
  · rw [merges.hashcons, merges.size]
    exact fun entry member =>
      ⟨(wellFormed.keys entry member).1, (wellFormed.keys entry member).2.mono merges.merged kept⟩

theorem union_grows {first second : EClassId} (wellFormed : WellFormed graph) (firstPresent : first < graph.size)
    (secondPresent : second < graph.size) : Grows graph (graph.union first second).2 :=
  (union_merges wellFormed.length firstPresent secondPresent).grows wellFormed

end Union

section Add

theorem mem_of_lookup {entries : List (ENode × EClassId)} (found : entries.lookup node = some id) :
    (node, id) ∈ entries := by
  obtain ⟨before, after, rfl, _⟩ := List.lookup_eq_some_iff.mp found
  exact List.mem_append_right _ List.mem_cons_self

theorem add_of_lookup (found : graph.hashcons.lookup (graph.canonicalizeNode node) = some id) :
    graph.add node = graph.find id := by
  unfold add
  simp only [found]

/-- The graph with a new class for the node. -/
def added (graph : EGraph) (node : ENode) : EGraph := { graph with
  parents := graph.parents.push
  classes := graph.classes ++ [[graph.canonicalizeNode node]]
  hashcons := (graph.canonicalizeNode node, graph.size) :: graph.hashcons }

theorem add_of_absent (absent : graph.hashcons.lookup (graph.canonicalizeNode node) = none) :
    graph.add node = (graph.size, graph.added node) := by
  unfold add
  simp only [absent]
  rfl

@[simp] theorem added_size : (graph.added node).size = graph.size + 1 := List.length_append

@[simp] theorem added_findConst : (graph.added node).findConst id = graph.findConst id := UnionFind.push_root

theorem findConst_lt (present : id < graph.size) : graph.findConst id < graph.size := lt_of_le_of_lt findConst_le present

theorem mem_added_nodes {present : ENode} : present ∈ (graph.added node).nodes id ↔
    present ∈ graph.nodes id ∨ id = graph.size ∧ present = graph.canonicalizeNode node := by
  unfold nodes added
  simp only
  rcases lt_trichotomy id graph.size with before | rfl | after
  · rw [List.getElem?_append_left before]
    exact (or_iff_left fun both => absurd both.1 (ne_of_lt before)).symm
  · rw [List.getElem?_concat_length, List.getElem?_eq_none (le_refl _)]
    simp
  · rw [List.getElem?_eq_none (by rw [List.length_append, List.length_singleton]; exact after),
      List.getElem?_eq_none (le_of_lt after)]
    exact (or_iff_left fun both => absurd both.1 (ne_of_gt after)).symm

theorem added_grows (wellFormed : WellFormed graph) (within : ∀ child ∈ node.children, child < graph.size) :
    Grows graph (graph.added node) := by
  have kept : ∀ id, ∀ present ∈ graph.nodes id, (graph.added node).Covers id present :=
    fun id present member => covers_of_mem (mem_added_nodes.mpr (.inl member))
  have merged : ∀ id, (graph.added node).findConst (graph.findConst id) = (graph.added node).findConst id := by
    intro id
    rw [added_findConst, added_findConst, findConst_findConst]
  refine ⟨?_, by rw [added_size]; exact Nat.le_succ _, merged, kept⟩
  constructor
  · rw [added_size, ← wellFormed.length]
    exact UnionFind.push_length
  · intro id present member child below
    rw [added_size]
    apply Nat.lt_succ_of_lt
    rcases mem_added_nodes.mp member with old | ⟨_, rfl⟩
    · exact wellFormed.children id present old child below
    · obtain ⟨origin, listed, rfl⟩ := ENode.mem_children_map.mp below
      exact findConst_lt (within origin listed)
  · intro entry member
    rw [added_size]
    rcases List.mem_cons.mp member with rfl | old
    · exact ⟨Nat.lt_succ_self _, covers_of_mem (mem_added_nodes.mpr (.inr ⟨rfl, rfl⟩))⟩
    · exact ⟨Nat.lt_succ_of_lt (wellFormed.keys entry old).1, (wellFormed.keys entry old).2.mono merged kept⟩

/-- What an addition does: the class of the returned id has the node afterwards. -/
theorem add_grows (wellFormed : WellFormed graph) (within : ∀ child ∈ node.children, child < graph.size) :
    Grows graph (graph.add node).2 ∧ (graph.add node).1 < (graph.add node).2.size ∧
      (graph.add node).2.Covers (graph.add node).1 node := by
  cases found : graph.hashcons.lookup (graph.canonicalizeNode node) with
  | some existing =>
      obtain ⟨present, covers⟩ := wellFormed.keys _ (mem_of_lookup found)
      rw [add_of_lookup found]
      refine ⟨find_grows wellFormed, findConst_lt present, ?_⟩
      obtain ⟨other, counterpart, member, class_eq, form⟩ := covers
      refine ⟨other, counterpart, member, ?_, ?_⟩
      · rw [find_snd_findConst, find_snd_findConst, find_fst, findConst_findConst, class_eq]
      · apply @canonicalizeNode_congr _ graph
        · intro id
          rw [find_snd_findConst, find_snd_findConst, findConst_findConst]
        · rw [form, canonicalizeNode_canonicalizeNode]
  | none =>
      rw [add_of_absent found]
      refine ⟨added_grows wellFormed within, by rw [added_size]; exact Nat.lt_succ_self _, ?_⟩
      refine ⟨graph.size, _, mem_added_nodes.mpr (.inr ⟨rfl, rfl⟩), rfl, ?_⟩
      apply @canonicalizeNode_congr _ graph
      · intro id
        rw [added_findConst, added_findConst, findConst_findConst]
      · exact canonicalizeNode_canonicalizeNode

end Add

/-- A model of the later graph is a model of the earlier one. -/
theorem Grows.models {Value : Type} {meaning : Meaning Value} {value : EClassId → Value} (grows : Grows graph later)
    (models : Models meaning later value) : Models meaning graph value where
  constant id := by rw [← models.constant, grows.merged, models.constant]
  nodes id node member := by
    obtain ⟨other, counterpart, present, class_eq, form⟩ := grows.kept id node member
    rw [← models.constant.denote_congr form, models.nodes other counterpart present, ← models.constant, class_eq,
      models.constant]

/-- A model gives a node the value of the class that has its canonical form. -/
theorem Covers.denote {Value : Type} {meaning : Meaning Value} {value : EClassId → Value} (covers : graph.Covers id node)
    (models : Models meaning graph value) : node.denote meaning value = some (value id) := by
  obtain ⟨other, counterpart, present, class_eq, form⟩ := covers
  rw [← models.constant.denote_congr form, models.nodes other counterpart present, ← models.constant, class_eq,
    models.constant]

/-- A model extends to a new class by the value of its node. -/
theorem added_models {Value : Type} {meaning : Meaning Value} {value : EClassId → Value} {denoted : Value}
    (wellFormed : WellFormed graph) (within : ∀ child ∈ node.children, child < graph.size)
    (models : Models meaning graph value) (denotes : node.denote meaning value = some denoted) :
    Models meaning (graph.added node) (Function.update value graph.size denoted) := by
  have below : ∀ id < graph.size, Function.update value graph.size denoted id = value id :=
    fun id present => Function.update_of_ne (ne_of_lt present) denoted value
  constructor
  · intro id
    rw [added_findConst]
    by_cases present : id < graph.size
    · rw [below _ (findConst_lt present), below _ present, models.constant]
    · have fixed : graph.findConst id = id := by
        apply UnionFind.root_of_parent
        unfold UnionFind.parent
        rw [List.getElem?_eq_none (by rw [wellFormed.length]; exact Nat.le_of_not_lt present)]
        rfl
      rw [fixed]
  · intro id present member
    rcases mem_added_nodes.mp member with old | ⟨rfl, rfl⟩
    · rw [below _ (lt_size_of_mem old), ← models.nodes id present old]
      exact ENode.denote_congr fun child listed => below child (wellFormed.children id present old child listed)
    · rw [Function.update_self, ← denotes, ← models.constant.denote]
      apply ENode.denote_congr
      intro child listed
      obtain ⟨origin, old, rfl⟩ := ENode.mem_children_map.mp listed
      exact below _ (findConst_lt (within origin old))

section Rebuild

variable [HashOrder ENode]

/-- The class of the id has a node with the same canonical form, or such a node waits to be put into it. -/
def CoversWith (graph : EGraph) (root : EClassId) (pending : List ENode) (id : EClassId) (node : ENode) : Prop :=
  ∃ other, ∃ counterpart, (counterpart ∈ graph.nodes other ∨ other = root ∧ counterpart ∈ pending) ∧
    graph.findConst other = graph.findConst id ∧ graph.canonicalizeNode counterpart = graph.canonicalizeNode node

/-- What the rebuild has kept while these nodes of a class wait to be put back. -/
structure Rebuilds (graph : EGraph) (root : EClassId) (pending : List ENode) (state : Rebuilding) : Prop where
  size : state.graph.size = graph.size
  length : state.graph.parents.parents.length = state.graph.size
  children : ∀ id, ∀ node ∈ state.graph.nodes id, ∀ child ∈ node.children, child < graph.size
  pendingChildren : ∀ node ∈ pending, ∀ child ∈ node.children, child < graph.size
  merged : ∀ id, state.graph.findConst (graph.findConst id) = state.graph.findConst id
  kept : ∀ id, ∀ node ∈ graph.nodes id, state.graph.CoversWith root pending id node
  keys : ∀ entry ∈ state.newHashcons, entry.2 < graph.size ∧ state.graph.CoversWith root pending entry.2 entry.1
  models : ∀ {Value : Type} {meaning : Meaning Value} {value : EClassId → Value}, Models meaning graph value →
    Models meaning state.graph value ∧ ∀ node ∈ pending, node.denote meaning value = some (value root)

variable {state : Rebuilding} {pending : List ENode}

/-- The next node is put back after a union that every model justifies. -/
theorem Rebuilds.put {first second : EClassId} {middle : EGraph} {entries : List (ENode × EClassId)} {merges : Nat}
    (before : Rebuilds graph root (node :: pending) state) (present : root < graph.size)
    (united : Merges first second state.graph middle)
    (equal : ∀ {Value : Type} {meaning : Meaning Value} {value : EClassId → Value}, Models meaning graph value →
      value first = value second)
    (known : ∀ entry ∈ entries, entry ∈ state.newHashcons ∨ entry = (state.graph.canonicalizeNode node, root)) :
    Rebuilds graph root pending ⟨middle.extend root [state.graph.canonicalizeNode node], entries, merges⟩ := by
  have middlePresent : root < middle.size := by rwa [united.size, before.size]
  have members := fun other counterpart =>
    @mem_extend_nodes _ middle root other counterpart _ [state.graph.canonicalizeNode node] middlePresent
  have canonicalChildren : ∀ child ∈ (state.graph.canonicalizeNode node).children, child < graph.size := by
    intro child listed
    obtain ⟨origin, old, rfl⟩ := ENode.mem_children_map.mp listed
    exact lt_of_le_of_lt findConst_le (before.pendingChildren node List.mem_cons_self origin old)
  have merged : ∀ id, middle.findConst (graph.findConst id) = middle.findConst id :=
    fun id => findConst_eq_of_merged united.merged (before.merged id)
  have last : middle.canonicalizeNode (state.graph.canonicalizeNode node) = middle.canonicalizeNode node :=
    canonicalizeNode_congr united.merged canonicalizeNode_canonicalizeNode
  have kept : ∀ id old, state.graph.CoversWith root (node :: pending) id old →
      (middle.extend root [state.graph.canonicalizeNode node]).CoversWith root pending id old := by
    intro id old covers
    obtain ⟨other, counterpart, held, class_eq, form⟩ := covers
    have class_eq' := findConst_eq_of_merged united.merged class_eq
    have form' := canonicalizeNode_congr united.merged form
    rcases held with there | ⟨rfl, waiting⟩
    · obtain ⟨place, here, same⟩ := united.moved other counterpart there
      exact ⟨place, counterpart, .inl ((members place counterpart).mpr (.inl here)), same.trans class_eq', form'⟩
    · rcases List.mem_cons.mp waiting with rfl | waiting
      · exact ⟨other, _, .inl ((members other _).mpr (.inr ⟨rfl, List.mem_singleton_self _⟩)), class_eq',
          last.trans form'⟩
      · exact ⟨other, counterpart, .inr ⟨rfl, waiting⟩, class_eq', form'⟩
  refine ⟨?_, ?_, ?_, ?_, merged, ?_, ?_, ?_⟩
  · rw [extend_size, united.size, before.size]
  · rw [extend_size, extend_parents, united.length, united.size, before.length]
  · intro id old member
    rcases (members id old).mp member with there | ⟨_, new⟩
    · have constant : state.graph.Constant fun _ => () := fun _ => rfl
      obtain ⟨_, origin⟩ := united.constant constant rfl
      obtain ⟨other, here, _⟩ := origin id old there
      exact before.children other old here
    · rw [List.mem_singleton.mp new]
      exact canonicalChildren
  · exact fun other member => before.pendingChildren other (List.mem_cons_of_mem _ member)
  · exact fun id old member => kept id old (before.kept id old member)
  · intro entry member
    rcases known entry member with old | rfl
    · exact ⟨(before.keys entry old).1, kept _ _ (before.keys entry old).2⟩
    · exact ⟨present, root, _, .inl ((members root _).mpr (.inr ⟨rfl, List.mem_singleton_self _⟩)), rfl, rfl⟩
  · intro Value meaning value models
    obtain ⟨here, waiting⟩ := before.models models
    have after := united.models here (equal models)
    refine ⟨extend_models after middlePresent ?_, fun other member => waiting other (List.mem_cons_of_mem _ member)⟩
    intro new member
    rw [List.mem_singleton.mp member, here.constant.denote]
    exact waiting node List.mem_cons_self

omit [HashOrder ENode] in
theorem CoversWith.denote {Value : Type} {meaning : Meaning Value} {value : EClassId → Value}
    (covers : graph.CoversWith root pending id node) (models : Models meaning graph value)
    (waiting : ∀ node ∈ pending, node.denote meaning value = some (value root)) :
    node.denote meaning value = some (value id) := by
  obtain ⟨other, counterpart, held, class_eq, form⟩ := covers
  have denotes : counterpart.denote meaning value = some (value other) := by
    rcases held with present | ⟨rfl, waits⟩
    · exact models.nodes other counterpart present
    · exact waiting counterpart waits
  rw [← models.constant.denote_congr form, denotes, ← models.constant, class_eq, models.constant]

theorem Rebuilds.rebuildNode (before : Rebuilds graph root (node :: pending) state) (present : root < graph.size) :
    Rebuilds graph root pending (rebuildNode root state node) := by
  unfold EGraph.rebuildNode
  cases found : state.newHashcons.lookup (state.graph.canonicalizeNode node) with
  | none =>
      simp only [found]
      exact before.put present (@Merges.refl _ state.graph root) (fun _ => rfl) fun entry member =>
        (List.mem_cons.mp member).symm
  | some existing =>
      simp only [found]
      obtain ⟨existingPresent, covers⟩ := before.keys _ (mem_of_lookup found)
      by_cases same : (state.graph.find existing).1 = root
      · rw [if_pos same]
        exact before.put present (Merges.of_find (@Merges.refl _ _ root)) (fun _ => rfl) fun entry member => .inl member
      · rw [if_neg same]
        refine before.put present (Merges.of_find (union_merges ?_ ?_ ?_)) ?_ fun entry member => .inl member
        · rw [find_snd_parents_length, before.length]
          rfl
        · rw [show (state.graph.find existing).2.size = graph.size from before.size]
          exact lt_of_le_of_lt findConst_le existingPresent
        · rwa [show (state.graph.find existing).2.size = graph.size from before.size]
        · intro Value meaning value models
          obtain ⟨here, waiting⟩ := before.models models
          have old := covers.denote here waiting
          rw [here.constant.denote, waiting node List.mem_cons_self] at old
          rw [find_fst, here.constant]
          exact (Option.some.inj old).symm

theorem Rebuilds.rebuildNodes (before : Rebuilds graph root pending state) (present : root < graph.size) :
    Rebuilds graph root [] (pending.foldl (EGraph.rebuildNode root) state) := by
  induction pending generalizing state with
  | nil => exact before
  | cons node pending hypothesis => exact hypothesis (before.rebuildNode present)

omit [HashOrder ENode] in
/-- A class that waits has all its nodes in the list. -/
theorem Rebuilds.drain (before : Rebuilds graph root [] state) (i : EClassId) :
    Rebuilds graph i (state.graph.nodes i) { state with graph := state.graph.drain i } := by
  have covers : ∀ id node, state.graph.CoversWith root [] id node →
      (state.graph.drain i).CoversWith i (state.graph.nodes i) id node := by
    intro id node covers
    obtain ⟨other, counterpart, held, class_eq, form⟩ := covers
    refine ⟨other, counterpart, ?_, class_eq, form⟩
    have present : counterpart ∈ state.graph.nodes other := held.resolve_right fun waits => List.not_mem_nil waits.2
    by_cases drained : other = i
    · exact .inr ⟨drained, drained ▸ present⟩
    · exact .inl (mem_drain_nodes.mpr ⟨drained, present⟩)
  refine ⟨?_, ?_, ?_, before.children i, before.merged, ?_, ?_, ?_⟩
  · rw [drain_size, before.size]
  · rw [drain_size, ← before.length]
    rfl
  · exact fun id node member => before.children id node (mem_drain_nodes.mp member).2
  · exact fun id node member => covers id node (before.kept id node member)
  · exact fun entry member => ⟨(before.keys entry member).1, covers _ _ (before.keys entry member).2⟩
  · intro Value meaning value models
    exact ⟨drain_models (before.models models).1, (before.models models).1.nodes i⟩

omit [HashOrder ENode] in
theorem Rebuilds.find (before : Rebuilds graph root [] state) (i : EClassId) :
    Rebuilds graph root [] { state with graph := (state.graph.find i).2 } := by
  have merged : ∀ id, (state.graph.find i).2.findConst (state.graph.findConst id) =
      (state.graph.find i).2.findConst id := by
    intro id
    rw [find_snd_findConst, find_snd_findConst, findConst_findConst]
  have covers : ∀ id node, state.graph.CoversWith root [] id node →
      (state.graph.find i).2.CoversWith root [] id node := by
    intro id node covers
    obtain ⟨other, counterpart, held, class_eq, form⟩ := covers
    exact ⟨other, counterpart, held, findConst_eq_of_merged merged class_eq, canonicalizeNode_congr merged form⟩
  refine ⟨before.size, ?_, before.children, before.pendingChildren, ?_, ?_, ?_, ?_⟩
  · rw [find_snd_parents_length]
    exact before.length
  · exact fun id => findConst_eq_of_merged merged (before.merged id)
  · exact fun id node member => covers id node (before.kept id node member)
  · exact fun entry member => ⟨(before.keys entry member).1, covers _ _ (before.keys entry member).2⟩
  · intro Value meaning value models
    exact ⟨find_models (before.models models).1, fun _ member => nomatch member⟩

theorem Rebuilds.rebuildClass (before : Rebuilds graph root [] state) (i : EClassId) (present : i < graph.size) :
    ∃ root, Rebuilds graph root [] (rebuildClass state i) := by
  unfold EGraph.rebuildClass
  by_cases own : (state.graph.find i).1 = i
  · refine ⟨i, ?_⟩
    simp only [if_pos own]
    rw [own]
    exact ((before.find i).drain i).rebuildNodes present
  · simp only [if_neg own]
    exact ⟨root, before.find i⟩

theorem Rebuilds.rebuildClasses {ids : List EClassId} (before : Rebuilds graph root [] state)
    (present : ∀ i ∈ ids, i < graph.size) :
    ∃ root, Rebuilds graph root [] (ids.foldl EGraph.rebuildClass state) := by
  induction ids generalizing state root with
  | nil => exact ⟨root, before⟩
  | cons i ids hypothesis =>
      obtain ⟨_, after⟩ := before.rebuildClass i (present i List.mem_cons_self)
      exact hypothesis after fun other member => present other (List.mem_cons_of_mem _ member)

omit [HashOrder ENode] in
theorem CoversWith.covers (covers : graph.CoversWith root [] id node) : graph.Covers id node := by
  obtain ⟨other, counterpart, held, rest⟩ := covers
  exact ⟨other, counterpart, held.resolve_right fun waits => List.not_mem_nil waits.2, rest⟩

omit [HashOrder ENode] in
theorem start_rebuilds (wellFormed : WellFormed graph) : Rebuilds graph 0 [] ⟨graph, [], 0⟩ := by
  refine ⟨rfl, wellFormed.length, wellFormed.children, nofun, fun _ => findConst_findConst, ?_, nofun, ?_⟩
  · exact fun id node member => ⟨id, node, .inl member, rfl, rfl⟩
  · exact fun models => ⟨models, nofun⟩

theorem rebuild_rebuilds (wellFormed : WellFormed graph) : ∃ root, Rebuilds graph root [] graph.rebuildClasses :=
  (start_rebuilds wellFormed).rebuildClasses fun _ member => List.mem_range.mp member

/-- A rebuild merges classes and keeps their nodes. -/
theorem rebuild_grows (wellFormed : WellFormed graph) : Grows graph graph.rebuild.2 := by
  obtain ⟨root, after⟩ := rebuild_rebuilds wellFormed
  refine ⟨⟨after.length, ?_, ?_⟩, le_of_eq after.size.symm, after.merged, ?_⟩
  · intro id node member child listed
    rw [show graph.rebuild.2.size = graph.size from after.size]
    exact after.children id node member child listed
  · intro entry member
    rw [show graph.rebuild.2.size = graph.size from after.size]
    exact ⟨(after.keys entry member).1, (after.keys entry member).2.covers⟩
  · exact fun id node member => (after.kept id node member).covers

theorem rebuild_models {Value : Type} {meaning : Meaning Value} {value : EClassId → Value}
    (wellFormed : WellFormed graph) (models : Models meaning graph value) : Models meaning graph.rebuild.2 value := by
  obtain ⟨root, after⟩ := rebuild_rebuilds wellFormed
  exact ⟨(after.models models).1.constant, (after.models models).1.nodes⟩

end Rebuild

end EGraph

end Temnion.Optimizer
