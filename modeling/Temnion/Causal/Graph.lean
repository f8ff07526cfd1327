import Mathlib.Data.List.Destutter
import Temnion.Core
import Temnion.Library.Kahn
import Temnion.Library.Search

/-
This file models the causal graph, its cycle check and its topological order.
-/

namespace Temnion.Causal

open OrderedMap

inductive CausalError where
  | cycleDetected (source target : EventId)
  | format (message : String)
  deriving DecidableEq, Repr

/-- The two maps hold each edge once from either end. -/
structure CausalGraph where
  causes : OrderedMap EventId (List EventId)
  effects : OrderedMap EventId (List EventId)

namespace CausalGraph

def new : CausalGraph := ⟨∅, ∅⟩

def immediateCauses (graph : CausalGraph) (event : EventId) : List EventId :=
  graph.causes[event]?.getD []

def immediateEffects (graph : CausalGraph) (event : EventId) : List EventId :=
  graph.effects[event]?.getD []

/-- Each round of the search takes an event that a list of causes holds, or the descendant. -/
def searchRounds (graph : CausalGraph) : Nat :=
  (graph.causes.toList.flatMap Prod.snd).length + 2

def isAncestorOf (graph : CausalGraph) (ancestor descendant : EventId) : Bool :=
  ancestor = descendant ||
    Search.reaches graph.immediateCauses ancestor graph.searchRounds [descendant] [descendant]

/-- A sort and the removal of equal neighbours. -/
def normalize (causes : List EventId) : List EventId :=
  (causes.mergeSort (· ≤ ·)).destutter (· ≠ ·)

def addEffect (event : EventId) (effects : OrderedMap EventId (List EventId)) (cause : EventId) :
    OrderedMap EventId (List EventId) :=
  effects.entry cause [] fun list => if event ∈ list then list else list ++ [event]

def addEvent (graph : CausalGraph) (event : EventId) (causes : List EventId) : Except CausalError CausalGraph :=
  let causes := normalize causes
  match causes.find? fun cause => cause = event || graph.isAncestorOf event cause with
  | some cause => .error (.cycleDetected event cause)
  | none =>
      .ok {
        causes := graph.causes.insert event causes
        effects := (causes.foldl (addEffect event) graph.effects).entry event [] id }

/-- One entry of the cause map adds its events and counts its causes. -/
def countEntry (degrees : OrderedMap EventId Nat) (pair : EventId × List EventId) : OrderedMap EventId Nat :=
  let degrees := degrees.entry pair.1 0 id
  let degrees := pair.2.foldl (fun degrees cause => degrees.entry cause 0 id) degrees
  degrees.entry pair.1 0 (· + pair.2.length)

def inDegree (graph : CausalGraph) : OrderedMap EventId Nat :=
  graph.causes.toList.foldl countEntry ∅

/-- None stands for a queue that outlives the fuel. -/
def topologicalSort (graph : CausalGraph) (fuel : Nat) : Option (Except CausalError (List EventId)) :=
  (Kahn.drain graph.immediateEffects fuel graph.inDegree (Kahn.ready graph.inDegree) []).map fun order =>
    if order.length ≠ graph.inDegree.size then .error (.format "cycle detected during topological sorting")
    else .ok order

/-- The events of a graph are the keys of its two maps. -/
def Contains (graph : CausalGraph) (event : EventId) : Prop :=
  event ∈ graph.causes ∨ event ∈ graph.effects

/-- A rejected call leaves the graph as it is. -/
def register (graph : CausalGraph) (call : EventId × List EventId) : CausalGraph :=
  match graph.addEvent call.1 call.2 with
  | .ok next => next
  | .error _ => graph

def run (calls : List (EventId × List EventId)) : CausalGraph := calls.foldl register new

/-- The graph of stored events and their causes. -/
def ofEvents (events : List StoredEvent) : CausalGraph := run (events.map fun event => (event.id, event.causes))

end CausalGraph

end Temnion.Causal
