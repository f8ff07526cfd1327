import Temnion.Causal.Trace
import Temnion.Query.Plan

/-
This file executes a causal walk over a graph.
-/

namespace Temnion.Query

variable [Binary64]

namespace CausalWalk

/-- At most so many events are returned. -/
def targetLimit (walk : CausalWalk) (budget : QueryBudget) : Nat :=
  min (walk.limit.getD usizeMax) (budget.maxRows.getD usizeMax)

def traced (walk : CausalWalk) (graph : Causal.CausalGraph) : Option Causal.CausalTrace :=
  match walk.direction with
  | .causes => graph.traceCauses walk.origin walk.maxDepth
  | .effects => graph.traceEffects walk.origin walk.maxDepth

end CausalWalk

/-- None stands for a trace that does not end. -/
def executeCausalWalk (graph : Causal.CausalGraph) (plan : PhysicalPlan) (budget : QueryBudget) :
    Option (Except QueryError (List EventId)) :=
  match plan with
  | .causalWalk walk => (walk.traced graph).map fun trace => .ok (trace.events.take (walk.targetLimit budget))
  | .storageScan _ => some (.error .unsupported)

/-- The walk along the causes returns the first events of the trace. -/
theorem executeCausalWalk_causes (graph : Causal.CausalGraph) (origin : EventId) (maxDepth : Nat) (limit : Option Nat)
    (budget : QueryBudget) : ∃ trace, graph.traceCauses origin maxDepth = some trace ∧
      executeCausalWalk graph (.causalWalk ⟨origin, .causes, maxDepth, limit⟩) budget =
        some (.ok (trace.events.take (min (limit.getD usizeMax) (budget.maxRows.getD usizeMax)))) := by
  obtain ⟨⟨trace, ended, -, -⟩, -⟩ := graph.traces_exact origin maxDepth
  refine ⟨trace, ended, ?_⟩
  rw [executeCausalWalk, CausalWalk.traced, ended]
  rfl

end Temnion.Query
