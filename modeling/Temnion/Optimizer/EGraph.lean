import Temnion.Query.Expression
import Temnion.Library.UnionFind

/-
This file defines the e-graph of expressions and scans, its saturation by the rewrite rules,
and the extraction of a cheapest expression.
-/

namespace Temnion.Optimizer

open Query

/-- The order in which a hash set is iterated after each of its changes. -/
class HashOrder (Item : Type) where
  arrange : Nat → List Item → List Item
  perm : ∀ mutation items, (arrange mutation items).Perm items

/-- A hash set that is iterated from its last element to its first. -/
@[reducible] def HashOrder.latest (Item : Type) : HashOrder Item := ⟨fun _ items => items, fun _ _ => .refl _⟩

abbrev EClassId := Nat

section Graph

variable [Binary64]

/-- A literal is its own representation, since equal floats have equal bits here. -/
inductive ENode where
  | literal (value : Literal)
  | field (name : Text)
  | binary (op : BinaryOp) (left right : EClassId)
  | not (child : EClassId)
  | scan (entity : Option EntityId) (filter : Option EClassId) (limit : Option Nat)
  | emptyRelation
  deriving DecidableEq

/-- The node with its class ids replaced. -/
def ENode.map (rename : EClassId → EClassId) : ENode → ENode
  | .literal value => .literal value
  | .field name => .field name
  | .binary op left right => .binary op (rename left) (rename right)
  | .not child => .not (rename child)
  | .scan entity filter limit => .scan entity (filter.map rename) limit
  | .emptyRelation => .emptyRelation

structure EGraph where
  parents : UnionFind
  classes : List (List ENode)
  hashcons : List (ENode × EClassId)
  mutations : Nat

namespace EGraph

def new : EGraph := ⟨UnionFind.empty, [], [], 0⟩

def nodes (graph : EGraph) (id : EClassId) : List ENode := (graph.classes[id]?).getD []

/-- The canonical root of a class, with path compression. -/
def find (graph : EGraph) (id : EClassId) : EClassId × EGraph :=
  let (root, parents) := graph.parents.find id
  (root, { graph with parents })

def findConst (graph : EGraph) (id : EClassId) : EClassId := graph.parents.root id

variable [HashOrder ENode]

/-- The class gains the nodes that it does not have yet. -/
def extend (graph : EGraph) (id : EClassId) (added : List ENode) : EGraph := { graph with
  classes := graph.classes.modify id fun nodes =>
    HashOrder.arrange graph.mutations (added.foldl (fun nodes node => nodes.insert node) nodes)
  mutations := graph.mutations + 1 }

/-- The class is left without its nodes. -/
def drain (graph : EGraph) (id : EClassId) : EGraph := { graph with classes := graph.classes.set id [] }

/-- The lower of two roots becomes the parent of the other and takes its nodes. -/
def link (graph : EGraph) (root1 root2 : EClassId) : EClassId × EGraph :=
  let parent := min root1 root2
  let child := max root1 root2
  let graph := { graph with parents := graph.parents.point child parent min_le_max }
  (parent, (graph.drain child).extend parent (graph.nodes child))

/-- Merges two classes and returns the canonical root. -/
def union (graph : EGraph) (id1 id2 : EClassId) : EClassId × EGraph :=
  let (root1, graph) := graph.find id1
  let (root2, graph) := graph.find id2
  if root1 = root2 then (root1, graph) else graph.link root1 root2

def canonicalizeNode (graph : EGraph) (node : ENode) : ENode := node.map graph.findConst

def add (graph : EGraph) (node : ENode) : EClassId × EGraph :=
  let node := graph.canonicalizeNode node
  match graph.hashcons.lookup node with
  | some existingId => graph.find existingId
  | none =>
      let newId := graph.classes.length
      (newId, { graph with
        parents := graph.parents.push
        classes := graph.classes ++ [[node]]
        hashcons := (node, newId) :: graph.hashcons })

structure Rebuilding where
  graph : EGraph
  newHashcons : List (ENode × EClassId)
  merges : Nat

/-- The node goes back to the class that it was drained from, even when that class has just been merged away. -/
def rebuildNode (root : EClassId) (state : Rebuilding) (node : ENode) : Rebuilding :=
  let canonical := state.graph.canonicalizeNode node
  match state.newHashcons.lookup canonical with
  | some existingId =>
      let (canonExisting, graph) := state.graph.find existingId
      if canonExisting = root then
        { state with graph := graph.extend root [canonical] }
      else
        { state with
          graph := (graph.union canonExisting root).2.extend root [canonical]
          merges := state.merges + 1 }
  | none =>
      { state with
        graph := state.graph.extend root [canonical]
        newHashcons := (canonical, root) :: state.newHashcons }

def rebuildClass (state : Rebuilding) (i : EClassId) : Rebuilding :=
  let (root, graph) := state.graph.find i
  if root = i then
    (graph.nodes root).foldl (rebuildNode root) { state with graph := graph.drain root }
  else { state with graph }

def rebuildClasses (graph : EGraph) : Rebuilding :=
  (List.range graph.classes.length).foldl rebuildClass ⟨graph, [], 0⟩

def rebuild (graph : EGraph) : Nat × EGraph :=
  let state := graph.rebuildClasses
  (state.merges, { state.graph with hashcons := state.newHashcons })

def addExpr (graph : EGraph) : Expr → EClassId × EGraph
  | .literal value => graph.add (.literal value)
  | .field name => graph.add (.field name)
  | .not inner =>
      let (child, graph) := graph.addExpr inner
      graph.add (.not child)
  | .binary op left right =>
      let (left, graph) := graph.addExpr left
      let (right, graph) := graph.addExpr right
      graph.add (.binary op left right)

/-- The literals that an operator over two literals folds to. -/
def foldLiterals : BinaryOp → Literal → Literal → Option Literal
  | .eq, .int a, .int b => some (.bool (a == b))
  | .notEq, .int a, .int b => some (.bool (a != b))
  | .lt, .int a, .int b => some (.bool (decide (a < b)))
  | .lte, .int a, .int b => some (.bool (decide (a ≤ b)))
  | .gt, .int a, .int b => some (.bool (decide (b < a)))
  | .gte, .int a, .int b => some (.bool (decide (b ≤ a)))
  | .and, .bool a, .bool b => some (.bool (a && b))
  | .or, .bool a, .bool b => some (.bool (a || b))
  | _, _, _ => none

/-- The classes that one round of the rules found to be equal. -/
structure Matching where
  graph : EGraph
  matchesToUnion : List (EClassId × EClassId)

def Matching.push (state : Matching) (pairs : List (EClassId × EClassId)) : Matching :=
  { state with matchesToUnion := state.matchesToUnion ++ pairs }

/-- The classes of the two boolean literals. -/
structure Constants where
  canonTrue : EClassId
  canonFalse : EClassId

/-- The operands of the negations in the class, which a second negation cancels. -/
def innerOf : ENode → Option EClassId
  | .not inner => some inner
  | _ => none

def matchNot (constants : Constants) (root child : EClassId) (state : Matching) : Matching :=
  let childRoot := state.graph.findConst child
  let state := state.push (((state.graph.nodes childRoot).filterMap innerOf).map fun inner => (root, inner))
  if childRoot = constants.canonTrue then state.push [(root, constants.canonFalse)]
  else if childRoot = constants.canonFalse then state.push [(root, constants.canonTrue)]
  else state

/-- The rule for a connective with a neutral operand, an absorbing operand, and equal operands. -/
def connectiveRules (neutral absorbing root leftRoot rightRoot : EClassId) : List (EClassId × EClassId) :=
  (if rightRoot = neutral then [(root, leftRoot)] else if leftRoot = neutral then [(root, rightRoot)] else []) ++
    (if rightRoot = absorbing ∨ leftRoot = absorbing then [(root, absorbing)] else []) ++
    (if leftRoot = rightRoot then [(root, leftRoot)] else [])

def binaryRules (constants : Constants) (root leftRoot rightRoot : EClassId) :
    BinaryOp → List (EClassId × EClassId)
  | .and => connectiveRules constants.canonTrue constants.canonFalse root leftRoot rightRoot
  | .or => connectiveRules constants.canonFalse constants.canonTrue root leftRoot rightRoot
  | .eq => if leftRoot = rightRoot then [(root, constants.canonTrue)] else []
  | _ => []

def literalOf : ENode → Option Literal
  | .literal value => some value
  | _ => none

def literals (graph : EGraph) (id : EClassId) : List Literal := (graph.nodes id).filterMap literalOf

/-- The node is added and its class joins the class of the root. -/
def Matching.addFor (root : EClassId) (state : Matching) (node : ENode) : Matching :=
  let (id, graph) := state.graph.add node
  ⟨graph, state.matchesToUnion ++ [(root, id)]⟩

def matchBinary (constants : Constants) (root : EClassId) (op : BinaryOp) (left right : EClassId)
    (state : Matching) : Matching :=
  let leftRoot := state.graph.findConst left
  let rightRoot := state.graph.findConst right
  let folded := (state.graph.literals leftRoot).flatMap fun left =>
    (state.graph.literals rightRoot).filterMap fun right => foldLiterals op left right
  (folded.map .literal).foldl (Matching.addFor root) (state.push (binaryRules constants root leftRoot rightRoot op))

def matchScan (constants : Constants) (root : EClassId) (entity : Option EntityId) (filter : EClassId)
    (limit : Option Nat) (state : Matching) : Matching :=
  let filterRoot := state.graph.findConst filter
  if filterRoot = constants.canonTrue then state.addFor root (.scan entity none limit)
  else if filterRoot = constants.canonFalse then state.addFor root .emptyRelation
  else state

def matchNode (constants : Constants) (root : EClassId) (state : Matching) : ENode → Matching
  | .not child => matchNot constants root child state
  | .binary op left right => matchBinary constants root op left right state
  | .scan entity (some filter) limit => matchScan constants root entity filter limit state
  | _ => state

/-- The root classes and their nodes when the round starts. -/
def classSnapshots (graph : EGraph) : List (EClassId × List ENode) :=
  ((List.range graph.classes.length).filter fun id => graph.findConst id = id).map fun id => (id, graph.nodes id)

def matchClass (constants : Constants) (state : Matching) (snapshot : EClassId × List ENode) : Matching :=
  snapshot.2.foldl (matchNode constants (state.graph.findConst snapshot.1)) state

def matchAll (constants : Constants) (graph : EGraph) : Matching :=
  graph.classSnapshots.foldl (matchClass constants) ⟨graph, []⟩

structure Merging where
  graph : EGraph
  totalRewrites : Nat
  anyMerged : Bool

def mergePair (state : Merging) (pair : EClassId × EClassId) : Merging :=
  let (ra, graph) := state.graph.find pair.1
  let (rb, graph) := graph.find pair.2
  if ra = rb then { state with graph }
  else ⟨(graph.union ra rb).2, state.totalRewrites + 1, true⟩

structure SaturationReport where
  iterations : Nat
  totalRewrites : Nat
  totalClasses : Nat
  deriving DecidableEq, Repr

/-- The rounds end at the bound, or after one in which nothing matches or nothing is merged. -/
def saturateFrom (trueId falseId : EClassId) : Nat → Nat → Nat → EGraph → SaturationReport × EGraph
  | 0, iterations, rewrites, graph => (⟨iterations, rewrites, graph.classes.length⟩, graph)
  | rounds + 1, iterations, rewrites, graph =>
      let matching := matchAll ⟨graph.findConst trueId, graph.findConst falseId⟩ graph
      if matching.matchesToUnion = [] then
        (⟨iterations + 1, rewrites, matching.graph.classes.length⟩, matching.graph)
      else
        let merging := matching.matchesToUnion.foldl mergePair ⟨matching.graph, rewrites, false⟩
        let graph := merging.graph.rebuild.2
        if merging.anyMerged then saturateFrom trueId falseId rounds (iterations + 1) merging.totalRewrites graph
        else (⟨iterations + 1, merging.totalRewrites, graph.classes.length⟩, graph)

def saturate (graph : EGraph) (maxIterations : Nat) : SaturationReport × EGraph :=
  let (trueId, graph) := graph.add (.literal (.bool true))
  let (falseId, graph) := graph.add (.literal (.bool false))
  saturateFrom trueId falseId maxIterations 0 0 graph

end EGraph

/-- The cost and the node that were recorded for each class. -/
abbrev BestTable := List (Option (Nat × ENode))

inductive ExtractionError where
  | noScalar (root : EClassId)
  | noNode (root : EClassId)
  | relational
  deriving DecidableEq, Repr

namespace EGraph

def bestCost (table : BestTable) (id : EClassId) : Option Nat := (table[id]?.join).map Prod.fst

def nodeCost (graph : EGraph) (table : BestTable) : ENode → Option Nat
  | .literal _ => some 1
  | .field _ => some 2
  | .not child => (bestCost table (graph.findConst child)).map fun cost => 2 + cost
  | .binary _ left right => do
      let leftCost ← bestCost table (graph.findConst left)
      let rightCost ← bestCost table (graph.findConst right)
      some (3 + leftCost + rightCost)
  | .scan _ _ _ | .emptyRelation => none

/-- A cost is below the recorded one, or none has been recorded. -/
def improves (cost : Nat) : Option Nat → Bool
  | none => true
  | some known => decide (cost < known)

def relaxNode (graph : EGraph) (canon : EClassId) (state : BestTable × Bool) (node : ENode) : BestTable × Bool :=
  match graph.nodeCost state.1 node with
  | none => state
  | some cost =>
      if improves cost (bestCost state.1 canon) then (state.1.set canon (some (cost, node)), true) else state

def relaxClass (graph : EGraph) (state : BestTable × Bool) (i : EClassId) : BestTable × Bool :=
  (graph.nodes i).foldl (graph.relaxNode (graph.findConst i)) state

def relaxAll (graph : EGraph) (table : BestTable) : BestTable × Bool :=
  (List.range graph.classes.length).foldl graph.relaxClass (table, false)

/-- The passes end at the bound, or after one that changes nothing. -/
def relax (graph : EGraph) : Nat → BestTable → BestTable
  | 0, table => table
  | passes + 1, table =>
      let (table, changed) := graph.relaxAll table
      if changed then graph.relax passes table else table

def bestTable (graph : EGraph) : BestTable :=
  graph.relax (graph.classes.length + 10) (List.replicate graph.classes.length none)

/-- The fuel bounds the depth of the recursion, which has no bound of its own. -/
def reconstructExpr (graph : EGraph) (table : BestTable) : Nat → EClassId → ExceptT ExtractionError Option Expr
  | 0, _ => Option.none
  | fuel + 1, id =>
      let canon := graph.findConst id
      match table[canon]?.join with
      | none => throw (.noNode canon)
      | some (_, .literal value) => pure (.literal value)
      | some (_, .field name) => pure (.field name)
      | some (_, .not child) => do
          let inner ← reconstructExpr graph table fuel child
          pure (.not inner)
      | some (_, .binary op left right) => do
          let left ← reconstructExpr graph table fuel left
          let right ← reconstructExpr graph table fuel right
          pure (.binary op left right)
      | some (_, .scan _ _ _) | some (_, .emptyRelation) => throw .relational

def extractBestExpr (graph : EGraph) (fuel : Nat) (id : EClassId) : ExceptT ExtractionError Option (Expr × Nat) :=
  let root := graph.findConst id
  match bestCost graph.bestTable root with
  | none => throw (.noScalar root)
  | some cost => do
      let expr ← reconstructExpr graph graph.bestTable fuel root
      pure (expr, cost)

end EGraph

end Graph

end Temnion.Optimizer
