import Temnion.Causal.Graph
import Temnion.Library.Trace

/-
This file traces the causes and the effects of an event up to a depth.
-/

namespace Temnion.Causal

/-- The events in the order in which they were found, their depths, and the edges from parents to children. -/
structure CausalTrace where
  events : List EventId
  depths : OrderedMap EventId Nat
  edges : List (EventId × EventId)

namespace CausalGraph

/-- Each round of the trace takes an event that one of the lists holds, or the root. -/
def traceRounds (relation : OrderedMap EventId (List EventId)) : Nat :=
  (relation.toList.flatMap Prod.snd).length + 2

/-- None stands for a queue that outlives the rounds. -/
def trace (relation : OrderedMap EventId (List EventId)) (root : EventId) (maxDepth : Nat) : Option CausalTrace :=
  (Trace.drain (fun event => relation[event]?.getD []) maxDepth (traceRounds relation) (Trace.start root)).map
    fun state => ⟨state.nodes, state.depths, state.edges⟩

def traceCauses (graph : CausalGraph) (root : EventId) (maxDepth : Nat) : Option CausalTrace :=
  trace graph.causes root maxDepth

def traceEffects (graph : CausalGraph) (root : EventId) (maxDepth : Nat) : Option CausalTrace :=
  trace graph.effects root maxDepth

end CausalGraph

/-- The trace lists the events that so many steps of the relation lead to. -/
def CausalTrace.Exact (trace : CausalTrace) (next : EventId → List EventId) (root : EventId) (maxDepth : Nat) : Prop :=
  Trace.Exact next root maxDepth trace.events trace.depths trace.edges

namespace CausalGraph

/-- A trace ends and is exact. -/
theorem trace_exact (relation : OrderedMap EventId (List EventId)) (root : EventId) (maxDepth : Nat) :
    ∃ found, trace relation root maxDepth = some found ∧
      found.Exact (fun event => relation[event]?.getD []) root maxDepth := by
  have inside : ∀ event other : EventId, other ∈ relation[event]?.getD [] → other ∈ relation.toList.flatMap Prod.snd := by
    intro event other member
    cases found : relation[event]? with
    | none =>
        rw [found] at member
        exact absurd member List.not_mem_nil
    | some others =>
        rw [found] at member
        exact List.mem_flatMap.mpr ⟨(event, others), OrderedMap.mem_toList.mpr found, member⟩
  obtain ⟨final, ended, exact'⟩ := Trace.drain_exact root maxDepth inside (Nat.lt_succ_self _)
  exact ⟨⟨final.nodes, final.depths, final.edges⟩, by rw [trace, traceRounds, ended]; rfl, exact'⟩

/-- The edges of an exact trace leave the events above the depth. -/
theorem CausalTrace.Exact.mem_edges {found : CausalTrace} {next : EventId → List EventId} {root : EventId} {maxDepth : Nat}
    (traced : found.Exact next root maxDepth) (event other : EventId) : (event, other) ∈ found.edges ↔
      (∃ depth < maxDepth, found.depths[event]? = some depth) ∧ other ∈ next event := by
  rw [traced.edges]
  simp only [List.mem_flatMap, List.mem_filter, List.mem_map, Prod.mk.injEq, Option.any_eq_true, decide_eq_true_eq]
  constructor
  · rintro ⟨_, ⟨-, depth, found, short⟩, _, edge, rfl, rfl⟩
    exact ⟨⟨depth, short, found⟩, edge⟩
  · rintro ⟨⟨depth, short, listed⟩, edge⟩
    obtain ⟨within, path, -⟩ := (traced.shortest event depth).mp listed
    exact ⟨event, ⟨(traced.reached event).mpr ⟨depth, within, path⟩, depth, listed, short⟩, other, edge, rfl, rfl⟩

/-- Both traces list every event within the depth once, with its shortest distance, and all edges above the depth. -/
theorem traces_exact (graph : CausalGraph) (root : EventId) (maxDepth : Nat) :
    (∃ causes, graph.traceCauses root maxDepth = some causes ∧
      causes.Exact graph.immediateCauses root maxDepth ∧ ∀ event cause, (event, cause) ∈ causes.edges ↔
        (∃ depth < maxDepth, causes.depths[event]? = some depth) ∧ cause ∈ graph.immediateCauses event) ∧
    ∃ effects, graph.traceEffects root maxDepth = some effects ∧
      effects.Exact graph.immediateEffects root maxDepth ∧ ∀ event effect, (event, effect) ∈ effects.edges ↔
        (∃ depth < maxDepth, effects.depths[event]? = some depth) ∧ effect ∈ graph.immediateEffects event := by
  obtain ⟨causes, ended, traced⟩ := trace_exact graph.causes root maxDepth
  obtain ⟨effects, ended', traced'⟩ := trace_exact graph.effects root maxDepth
  exact ⟨⟨causes, ended, traced, CausalTrace.Exact.mem_edges traced⟩,
    effects, ended', traced', CausalTrace.Exact.mem_edges traced'⟩

end CausalGraph

end Temnion.Causal
