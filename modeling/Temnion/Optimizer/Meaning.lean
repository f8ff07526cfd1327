import Temnion.Optimizer.Growth

/-
This file defines what makes an interpretation of nodes respect the rewrite rules,
and when an assignment of values to classes is a model of an e-graph.
-/

namespace Temnion.Optimizer

open Query

variable [Binary64]

/-- The connective that this truth value absorbs. -/
def connective : Bool → BinaryOp
  | false => .and
  | true => .or

/-- An interpretation of nodes in which each rewrite rule holds. -/
structure Meaning (Value : Type) where
  literal : Literal → Option Value
  field : Text → Option Value
  binary : BinaryOp → Value → Value → Option Value
  not : Value → Option Value
  scan : Option EntityId → Option Value → Option Nat → Option Value
  emptyRelation : Option Value
  literal_bool : ∀ truth, ∃ value, literal (.bool truth) = some value
  not_not : ∀ {first second third}, not first = some second → not second = some third → third = first
  not_bool : ∀ {truth first second}, literal (.bool truth) = some first → not first = some second →
    literal (.bool !truth) = some second
  neutral_right : ∀ {truth neutral first second}, literal (.bool !truth) = some neutral →
    binary (connective truth) first neutral = some second → second = first
  neutral_left : ∀ {truth neutral first second}, literal (.bool !truth) = some neutral →
    binary (connective truth) neutral first = some second → second = first
  absorbing_right : ∀ {truth absorbing first second}, literal (.bool truth) = some absorbing →
    binary (connective truth) first absorbing = some second → second = absorbing
  absorbing_left : ∀ {truth absorbing first second}, literal (.bool truth) = some absorbing →
    binary (connective truth) absorbing first = some second → second = absorbing
  idempotent : ∀ {truth first second}, binary (connective truth) first first = some second → second = first
  eq_self : ∀ {first second}, binary .eq first first = some second → literal (.bool true) = some second
  fold : ∀ {op left right folded first second result}, EGraph.foldLiterals op left right = some folded →
    literal left = some first → literal right = some second → binary op first second = some result →
    literal folded = some result
  scan_true : ∀ {always entity limit rows}, literal (.bool true) = some always →
    scan entity (some always) limit = some rows → scan entity none limit = some rows
  scan_false : ∀ {never entity limit rows}, literal (.bool false) = some never →
    scan entity (some never) limit = some rows → emptyRelation = some rows

variable {Value : Type} {meaning : Meaning Value} {value other : EClassId → Value}

namespace ENode

def denote (meaning : Meaning Value) (value : EClassId → Value) : ENode → Option Value
  | .literal constant => meaning.literal constant
  | .field name => meaning.field name
  | .binary op left right => meaning.binary op (value left) (value right)
  | .not child => meaning.not (value child)
  | .scan entity filter limit => meaning.scan entity (filter.map value) limit
  | .emptyRelation => meaning.emptyRelation

theorem denote_congr {node : ENode} (same : ∀ child ∈ node.children, value child = other child) :
    node.denote meaning value = node.denote meaning other := by
  cases node with
  | literal constant => rfl
  | field name => rfl
  | binary op left right =>
      change meaning.binary op (value left) (value right) = meaning.binary op (other left) (other right)
      rw [same left List.mem_cons_self, same right (List.mem_cons_of_mem _ List.mem_cons_self)]
  | not child => exact congrArg meaning.not (same child List.mem_cons_self)
  | scan entity filter limit =>
      cases filter with
      | none => rfl
      | some filter => exact congrArg (fun value => meaning.scan entity (some value) limit) (same filter List.mem_cons_self)
  | emptyRelation => rfl

theorem denote_map {node : ENode} {rename : EClassId → EClassId} :
    (node.map rename).denote meaning value = node.denote meaning fun id => value (rename id) := by
  cases node with
  | scan entity filter limit => cases filter <;> rfl
  | _ => rfl

end ENode

/-- The value of an expression, if all its operators have one. -/
def Meaning.denote (meaning : Meaning Value) : Expr → Option Value
  | .literal constant => meaning.literal constant
  | .field name => meaning.field name
  | .not inner => (meaning.denote inner).bind meaning.not
  | .binary op left right =>
      (meaning.denote left).bind fun first => (meaning.denote right).bind fun second => meaning.binary op first second

/-- Each class has one value and all its nodes denote it. -/
structure Models (meaning : Meaning Value) (graph : EGraph) (value : EClassId → Value) : Prop where
  constant : graph.Constant value
  nodes : ∀ id, ∀ node ∈ graph.nodes id, node.denote meaning value = some (value id)

namespace EGraph

variable {graph later : EGraph} {id : EClassId} {node : ENode}

theorem Constant.denote (constant : graph.Constant value) :
    (graph.canonicalizeNode node).denote meaning value = node.denote meaning value := by
  unfold canonicalizeNode
  rw [ENode.denote_map]
  exact ENode.denote_congr fun child _ => constant child

/-- A counterpart of a node denotes what the node denotes. -/
theorem Constant.denote_congr {first second : ENode} (constant : graph.Constant value)
    (same : graph.canonicalizeNode first = graph.canonicalizeNode second) :
    first.denote meaning value = second.denote meaning value := by
  rw [← constant.denote, same, constant.denote]

theorem new_models : Models meaning new value where
  constant _ := congrArg value UnionFind.empty_root
  nodes _ _ member := nomatch member

theorem find_models (models : Models meaning graph value) : Models meaning (graph.find id).2 value where
  constant id := by rw [find_snd_findConst, models.constant]
  nodes := models.nodes

theorem drain_models (models : Models meaning graph value) : Models meaning (graph.drain id) value where
  constant := models.constant
  nodes id node member := models.nodes id node (mem_drain_nodes.mp member).2

theorem extend_models [HashOrder ENode] {added : List ENode} (models : Models meaning graph value) (present : id < graph.size)
    (sound : ∀ node ∈ added, node.denote meaning value = some (value id)) :
    Models meaning (graph.extend id added) value where
  constant := models.constant
  nodes other node member := by
    rcases (mem_extend_nodes present).mp member with old | ⟨rfl, new⟩
    · exact models.nodes other node old
    · exact sound node new

theorem Merges.models {first second : EClassId} (merges : Merges first second graph later)
    (models : Models meaning graph value) (equal : value first = value second) : Models meaning later value := by
  obtain ⟨constant, origin⟩ := merges.constant models.constant equal
  refine ⟨constant, ?_⟩
  intro id node member
  obtain ⟨other, present, same⟩ := origin id node member
  rw [models.nodes other node present, same]

end EGraph

end Temnion.Optimizer
