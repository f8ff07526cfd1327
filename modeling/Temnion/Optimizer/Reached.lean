import Temnion.Optimizer.Extract
import Temnion.Optimizer.Saturate
import Mathlib.Logic.Relation

/-
This file follows an e-graph through any calls and says what extraction returns afterwards.
-/

namespace Temnion.Optimizer

open Query

variable [Binary64] [HashOrder ENode]

namespace EGraph

/-- One call on an e-graph. The classes that it names exist. -/
inductive Called (graph : EGraph) : EGraph → Prop
  | add (node : ENode) (within : ∀ child ∈ node.children, child < graph.size) : Called graph (graph.add node).2
  | addExpr (expr : Expr) : Called graph (graph.addExpr expr).2
  | union (first second : EClassId) (firstPresent : first < graph.size) (secondPresent : second < graph.size) :
      Called graph (graph.union first second).2
  | rebuild : Called graph graph.rebuild.2
  | saturate (maxIterations : Nat) : Called graph (graph.saturate maxIterations).2

/-- The graph comes from a new one by calls. -/
def Reached : EGraph → Prop := Relation.ReflTransGen Called new

variable {graph later : EGraph}

theorem Called.grows (wellFormed : WellFormed graph) (called : Called graph later) : Grows graph later := by
  cases called with
  | add node within => exact (add_grows wellFormed within).1
  | addExpr expr => exact (addExpr_represents wellFormed expr).1
  | union first second firstPresent secondPresent => exact union_grows wellFormed firstPresent secondPresent
  | rebuild => exact rebuild_grows wellFormed
  | saturate maxIterations => exact (saturate_derives wellFormed maxIterations).toGrows

theorem grows_of_calls (wellFormed : WellFormed graph) (calls : Relation.ReflTransGen Called graph later) :
    Grows graph later := by
  induction calls with
  | refl => exact .refl wellFormed
  | tail _ called hypothesis => exact hypothesis.trans (called.grows hypothesis.wellFormed)

theorem Reached.wellFormed (reached : Reached graph) : WellFormed graph :=
  (grows_of_calls new_wellFormed reached).wellFormed

/-- Whatever is called before and after an addition, the extraction from its class ends with a cheapest expression of the
class and the cost of that expression, which is no dearer than the added one. -/
theorem extraction_cost_exact (expr : Expr) (before : Reached graph)
    (after : Relation.ReflTransGen Called (graph.addExpr expr).2 later) :
    ∃ best, cost best ≤ cost expr ∧
      ∀ fuel, cost best ≤ fuel → later.extractBestExpr fuel (graph.addExpr expr).1 = some (.ok (best, cost best)) := by
  obtain ⟨added, -, represents⟩ := addExpr_represents before.wellFormed expr
  have still := (grows_of_calls added.wellFormed after).represents represents
  obtain ⟨best, -, least, returned⟩ := extractBestExpr_spec still
  exact ⟨best, least expr still, returned⟩

omit [Binary64] [HashOrder ENode] in
/-- `NOT(NOT(f))` -/
theorem extraction_cost_exact_sample :
    letI := Binary64.exact
    letI := HashOrder.latest ENode
    let expr : Expr := .not (.not (.field "f".toList))
    ∃ best, cost best ≤ 6 ∧ ∀ fuel, cost best ≤ fuel →
      ((new.addExpr expr).2.saturate 10).2.extractBestExpr fuel (new.addExpr expr).1 = some (.ok (best, cost best)) := by
  let := Binary64.exact
  let := HashOrder.latest ENode
  intro expr
  exact extraction_cost_exact expr .refl (.single (.saturate 10))

end EGraph

end Temnion.Optimizer
