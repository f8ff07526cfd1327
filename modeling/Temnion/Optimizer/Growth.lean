import Temnion.Optimizer.EGraph

/-
This file says what each operation of the e-graph does to its classes:
classes only merge, and each node keeps a counterpart with the same canonical form in its class.
-/

namespace Temnion.Optimizer

open Query

variable [Binary64]

namespace ENode

def children : ENode → List EClassId
  | .binary _ left right => [left, right]
  | .not child => [child]
  | .scan _ (some filter) _ => [filter]
  | _ => []

theorem map_congr {node : ENode} {first second : EClassId → EClassId}
    (same : ∀ child ∈ node.children, first child = second child) : node.map first = node.map second := by
  cases node with
  | literal value => rfl
  | field name => rfl
  | binary op left right =>
      change binary op (first left) (first right) = binary op (second left) (second right)
      rw [same left List.mem_cons_self, same right (List.mem_cons_of_mem _ List.mem_cons_self)]
  | not child => exact congrArg not (same child List.mem_cons_self)
  | scan entity filter limit =>
      cases filter with
      | none => rfl
      | some filter =>
          change scan entity (some (first filter)) limit = scan entity (some (second filter)) limit
          rw [same filter List.mem_cons_self]
  | emptyRelation => rfl

theorem map_map {node : ENode} {first second : EClassId → EClassId} :
    (node.map first).map second = node.map fun child => second (first child) := by
  cases node with
  | scan entity filter limit => cases filter <;> rfl
  | _ => rfl

theorem mem_children_map {node : ENode} {rename : EClassId → EClassId} {child : EClassId} :
    child ∈ (node.map rename).children ↔ ∃ old ∈ node.children, rename old = child := by
  have same : (node.map rename).children = node.children.map rename := by
    cases node with
    | scan entity filter limit => cases filter <;> rfl
    | _ => rfl
  rw [same, List.mem_map]

end ENode

namespace EGraph

variable {graph : EGraph} {id other root : EClassId} {node : ENode}

abbrev size (graph : EGraph) : Nat := graph.classes.length

@[simp] theorem findConst_findConst : graph.findConst (graph.findConst id) = graph.findConst id :=
  UnionFind.root_root

theorem findConst_le : graph.findConst id ≤ id := UnionFind.root_le

@[simp] theorem find_fst : (graph.find id).1 = graph.findConst id := rfl

@[simp] theorem find_snd_classes : (graph.find id).2.classes = graph.classes := rfl

@[simp] theorem find_snd_nodes : (graph.find id).2.nodes other = graph.nodes other := rfl

@[simp] theorem find_snd_hashcons : (graph.find id).2.hashcons = graph.hashcons := rfl

@[simp] theorem find_snd_findConst : (graph.find id).2.findConst other = graph.findConst other :=
  UnionFind.find_snd_root

@[simp] theorem find_snd_parents_length :
    (graph.find id).2.parents.parents.length = graph.parents.parents.length :=
  UnionFind.find_snd_length

theorem nodes_eq_nil (absent : graph.size ≤ id) : graph.nodes id = [] := by
  unfold nodes
  rw [List.getElem?_eq_none absent]
  rfl

theorem lt_size_of_mem (member : node ∈ graph.nodes id) : id < graph.size := by
  by_contra absent
  rw [nodes_eq_nil (Nat.le_of_not_lt absent)] at member
  contradiction

@[simp] theorem drain_size : (graph.drain id).size = graph.size := List.length_set

@[simp] theorem drain_hashcons : (graph.drain id).hashcons = graph.hashcons := rfl

@[simp] theorem drain_findConst : (graph.drain id).findConst other = graph.findConst other := rfl

theorem mem_drain_nodes : node ∈ (graph.drain id).nodes other ↔ other ≠ id ∧ node ∈ graph.nodes other := by
  unfold nodes drain
  rw [List.getElem?_set]
  by_cases same : id = other
  · rw [if_pos same]
    refine iff_of_false ?_ fun both => both.1 same.symm
    by_cases present : id < graph.classes.length
    · rw [if_pos present]
      exact List.not_mem_nil
    · rw [if_neg present]
      exact List.not_mem_nil
  · rw [if_neg same]
    exact (and_iff_right (Ne.symm same)).symm

theorem canonicalizeNode_congr {first second : ENode} {later : EGraph}
    (merged : ∀ id, later.findConst (graph.findConst id) = later.findConst id)
    (same : graph.canonicalizeNode first = graph.canonicalizeNode second) :
    later.canonicalizeNode first = later.canonicalizeNode second := by
  have through : ∀ node : ENode, (graph.canonicalizeNode node).map later.findConst = later.canonicalizeNode node := by
    intro node
    unfold canonicalizeNode
    rw [ENode.map_map]
    exact ENode.map_congr fun child _ => merged child
  rw [← through first, same, through]

@[simp] theorem canonicalizeNode_canonicalizeNode :
    graph.canonicalizeNode (graph.canonicalizeNode node) = graph.canonicalizeNode node := by
  unfold canonicalizeNode
  rw [ENode.map_map]
  exact ENode.map_congr fun child _ => findConst_findConst

variable [HashOrder ENode]

@[simp] theorem extend_size {added : List ENode} : (graph.extend id added).size = graph.size :=
  List.length_modify ..

@[simp] theorem extend_hashcons {added : List ENode} : (graph.extend id added).hashcons = graph.hashcons := rfl

@[simp] theorem extend_parents {added : List ENode} : (graph.extend id added).parents = graph.parents := rfl

@[simp] theorem extend_findConst {added : List ENode} :
    (graph.extend id added).findConst other = graph.findConst other := rfl

omit [HashOrder ENode] in
theorem mem_foldl_insert {added nodes : List ENode} :
    node ∈ added.foldl (fun nodes node => nodes.insert node) nodes ↔ node ∈ nodes ∨ node ∈ added := by
  induction added generalizing nodes with
  | nil => exact (or_iff_left List.not_mem_nil).symm
  | cons first added hypothesis =>
      rw [List.foldl_cons, hypothesis, List.mem_insert_iff, List.mem_cons]
      tauto

theorem mem_extend_nodes {added : List ENode} (present : id < graph.size) :
    node ∈ (graph.extend id added).nodes other ↔ node ∈ graph.nodes other ∨ other = id ∧ node ∈ added := by
  unfold nodes extend
  rw [List.getElem?_modify]
  by_cases same : id = other
  · obtain rfl := same
    rw [List.getElem?_eq_getElem present]
    simp only [if_true, Option.map_eq_map, Option.map_some, Option.getD_some, (HashOrder.perm _ _).mem_iff,
      mem_foldl_insert, true_and]
  · simp only [if_neg same, Option.map_eq_map, Option.map_id']
    exact (or_iff_left fun both => same both.1.symm).symm

/-- The graph after the two searches of a union. -/
def searched (graph : EGraph) (first second : EClassId) : EGraph := ((graph.find first).2.find second).2

theorem union_snd (graph : EGraph) (first second : EClassId) :
    (graph.union first second).2 =
      if graph.findConst first = graph.findConst second then graph.searched first second
      else ((graph.searched first second).link (graph.findConst first) (graph.findConst second)).2 := by
  have unfolded : graph.union first second =
      if (graph.find first).1 = ((graph.find first).2.find second).1
      then (((graph.find first).2.find second).1, graph.searched first second)
      else (graph.searched first second).link (graph.find first).1 ((graph.find first).2.find second).1 := by
    unfold union
    by_cases same : (graph.find first).1 = ((graph.find first).2.find second).1
    · rw [if_pos same]
      exact (if_pos same).trans (congrArg (·, graph.searched first second) same)
    · rw [if_neg same]
      exact if_neg same
  rw [unfolded, find_fst, find_fst, find_snd_findConst]
  by_cases same : graph.findConst first = graph.findConst second
  · rw [if_pos same, if_pos same]
  · rw [if_neg same, if_neg same]

/-- The ids of a class have one value. -/
def Constant {Value : Type} (graph : EGraph) (value : EClassId → Value) : Prop :=
  ∀ id, value (graph.findConst id) = value id

/-- What a union of two classes does. -/
structure Merges (first second : EClassId) (graph later : EGraph) : Prop where
  size : later.size = graph.size
  length : later.parents.parents.length = graph.parents.parents.length
  hashcons : later.hashcons = graph.hashcons
  merged : ∀ id, later.findConst (graph.findConst id) = later.findConst id
  united : later.findConst first = later.findConst second
  moved : ∀ id, ∀ node ∈ graph.nodes id, ∃ other, node ∈ later.nodes other ∧ later.findConst other = later.findConst id
  constant : ∀ {Value : Type} {value : EClassId → Value}, graph.Constant value → value first = value second →
    later.Constant value ∧ ∀ id, ∀ node ∈ later.nodes id, ∃ other, node ∈ graph.nodes other ∧ value other = value id

section Link

variable {root1 root2 : EClassId} (length : graph.parents.parents.length = graph.size)
  (present1 : root1 < graph.size) (present2 : root2 < graph.size)
  (root1_eq : graph.findConst root1 = root1) (root2_eq : graph.findConst root2 = root2) (apart : root1 ≠ root2)

include length present1 present2 root1_eq root2_eq apart

theorem link_findConst : (graph.link root1 root2).2.findConst id =
    if graph.findConst id = max root1 root2 then min root1 root2 else graph.findConst id := by
  have fixed : ∀ root, graph.findConst root = root → graph.parents.parent root = root := by
    intro root own
    have above : graph.parents.parent (graph.parents.root root) = graph.parents.root root := UnionFind.parent_root
    rwa [show graph.parents.root root = root from own] at above
  have cases : min root1 root2 = root1 ∧ max root1 root2 = root2 ∨ min root1 root2 = root2 ∧ max root1 root2 = root1 := by
    rcases le_total root1 root2 with lower | lower
    · exact .inl ⟨min_eq_left lower, max_eq_right lower⟩
    · exact .inr ⟨min_eq_right lower, max_eq_left lower⟩
  have present : max root1 root2 < graph.parents.parents.length := by
    rw [length]
    exact max_lt present1 present2
  refine @UnionFind.point_root graph.parents (max root1 root2) id (min root1 root2) min_le_max present ?_ ?_ ?_
  · rcases cases with both | both
    · rw [both.1, both.2]
      exact apart
    · rw [both.1, both.2]
      exact apart.symm
  · rcases cases with both | both
    · rw [both.1]
      exact fixed root1 root1_eq
    · rw [both.1]
      exact fixed root2 root2_eq
  · rcases cases with both | both
    · rw [both.2]
      exact fixed root2 root2_eq
    · rw [both.2]
      exact fixed root1 root1_eq

omit length present2 root1_eq root2_eq apart in
theorem mem_link_nodes : node ∈ (graph.link root1 root2).2.nodes other ↔
    other ≠ max root1 root2 ∧ node ∈ graph.nodes other ∨
      other = min root1 root2 ∧ node ∈ graph.nodes (max root1 root2) := by
  unfold link
  simp only
  rw [mem_extend_nodes (by rw [drain_size]; exact lt_of_le_of_lt (min_le_left _ _) present1), mem_drain_nodes]
  rfl

theorem link_merges : Merges root1 root2 graph (graph.link root1 root2).2 := by
  have find := fun id => @link_findConst _ graph id _ root1 root2 length present1 present2 root1_eq root2_eq apart
  have members := fun id node => @mem_link_nodes _ graph id node _ root1 root2 present1
  have lowest : graph.findConst (min root1 root2) = min root1 root2 := by
    rcases le_total root1 root2 with lower | lower
    · rw [min_eq_left lower, root1_eq]
    · rw [min_eq_right lower, root2_eq]
  have highest : graph.findConst (max root1 root2) = max root1 root2 := by
    rcases le_total root1 root2 with lower | lower
    · rw [max_eq_right lower, root2_eq]
    · rw [max_eq_left lower, root1_eq]
  have different : min root1 root2 ≠ max root1 root2 := fun same => apart (inf_eq_sup.mp same)
  have top : (graph.link root1 root2).2.findConst (max root1 root2) = min root1 root2 := by
    rw [find, highest, if_pos rfl]
  have bottom : (graph.link root1 root2).2.findConst (min root1 root2) = min root1 root2 := by
    rw [find, lowest, if_neg different]
  constructor
  · unfold link
    simp only
    rw [extend_size, drain_size]
  · exact @UnionFind.point_length graph.parents _ _ min_le_max
  · rfl
  · intro id
    rw [find, find, findConst_findConst]
  · rcases le_total root1 root2 with lower | lower
    · rw [min_eq_left lower, max_eq_right lower] at *
      rw [top, bottom]
    · rw [min_eq_right lower, max_eq_left lower] at *
      rw [top, bottom]
  · intro id node member
    by_cases same : id = max root1 root2
    · refine ⟨min root1 root2, (members _ _).mpr (.inr ⟨rfl, same ▸ member⟩), ?_⟩
      rw [bottom, same, top]
    · exact ⟨id, (members _ _).mpr (.inl ⟨same, member⟩), rfl⟩
  · intro Value value constant equal
    have ends : value (min root1 root2) = value (max root1 root2) := by
      rcases le_total root1 root2 with lower | lower
      · rw [min_eq_left lower, max_eq_right lower, equal]
      · rw [min_eq_right lower, max_eq_left lower, equal]
    constructor
    · intro id
      rw [find, ← constant id]
      by_cases same : graph.findConst id = max root1 root2
      · rw [if_pos same, same, ends]
      · rw [if_neg same]
    · intro id node member
      rcases (members _ _).mp member with ⟨_, old⟩ | ⟨rfl, old⟩
      · exact ⟨id, old, rfl⟩
      · exact ⟨max root1 root2, old, ends.symm⟩

end Link

omit [HashOrder ENode] in
theorem Merges.refl : Merges id id graph graph where
  size := rfl
  length := rfl
  hashcons := rfl
  merged _ := findConst_findConst
  united := rfl
  moved id _ member := ⟨id, member, rfl⟩
  constant constant _ := ⟨constant, fun id _ member => ⟨id, member, rfl⟩⟩

omit [HashOrder ENode] in
/-- A search before a union makes no difference. -/
theorem Merges.of_find {first second : EClassId} {later : EGraph}
    (merges : Merges first second (graph.find id).2 later) : Merges first second graph later where
  size := merges.size
  length := by rw [merges.length, find_snd_parents_length]
  hashcons := merges.hashcons
  merged id := by rw [← merges.merged id, find_snd_findConst]
  united := merges.united
  moved := merges.moved
  constant constant equal := merges.constant (fun id => by rw [find_snd_findConst, constant]) equal

omit [HashOrder ENode] in
/-- The union of the roots of two classes is the union of the classes. -/
theorem Merges.of_roots {first second : EClassId} {later : EGraph}
    (merges : Merges (graph.findConst first) (graph.findConst second) graph later) : Merges first second graph later where
  size := merges.size
  length := merges.length
  hashcons := merges.hashcons
  merged := merges.merged
  united := by rw [← merges.merged first, ← merges.merged second, merges.united]
  moved := merges.moved
  constant constant equal := merges.constant constant (by rw [constant, constant, equal])

theorem union_merges {first second : EClassId} (length : graph.parents.parents.length = graph.size)
    (firstPresent : first < graph.size) (secondPresent : second < graph.size) :
    Merges first second graph (graph.union first second).2 := by
  rw [union_snd]
  by_cases same : graph.findConst first = graph.findConst second
  · rw [if_pos same]
    apply Merges.of_roots
    rw [same]
    exact Merges.of_find (Merges.of_find Merges.refl)
  · rw [if_neg same]
    apply Merges.of_roots
    apply Merges.of_find
    apply Merges.of_find
    apply link_merges
    · rw [find_snd_parents_length, find_snd_parents_length]
      exact length
    · exact lt_of_le_of_lt findConst_le firstPresent
    · exact lt_of_le_of_lt findConst_le secondPresent
    · rw [find_snd_findConst, find_snd_findConst, findConst_findConst]
    · rw [find_snd_findConst, find_snd_findConst, findConst_findConst]
    · exact same

end EGraph

end Temnion.Optimizer
