import Temnion.Causal.Acyclic
import Temnion.Causal.Order

/-
This file says that the graph of stored events with acyclic causes holds all of them.
-/

namespace Temnion.Causal

/-- The causes that the records of an event name. -/
def causesOf (events : List StoredEvent) (event : EventId) : List EventId :=
  (events.filter fun record => record.id = event).flatMap StoredEvent.causes

def Cites (events : List StoredEvent) (cause event : EventId) : Prop := cause ∈ causesOf events event

theorem mem_causesOf {events : List StoredEvent} {cause event : EventId} :
    cause ∈ causesOf events event ↔ ∃ record ∈ events, record.id = event ∧ cause ∈ record.causes := by
  simp only [causesOf, List.mem_flatMap, List.mem_filter, decide_eq_true_eq, and_assoc]

namespace CausalGraph

variable {relation : EventId → EventId → Prop} {graph : CausalGraph} {registrations calls : List (EventId × List EventId)}

/-- The pairs of a list stand in the relation. -/
def Inside (relation : EventId → EventId → Prop) (calls : List (EventId × List EventId)) : Prop :=
  ∀ call ∈ calls, ∀ cause ∈ call.2, relation cause call.1

theorem Tracks.precedes (tracks : graph.Tracks registrations) (inside : Inside relation registrations)
    {cause event : EventId} (precedes : graph.Precedes cause event) : relation cause event := by
  have member : cause ∈ graph.immediateCauses event := precedes
  obtain ⟨causes, registered, listed⟩ := lastCauses_mem (tracks.mem_immediateCauses.mp member)
  exact inside _ registered _ listed

/-- A registration whose edges close no cycle is accepted. -/
theorem Tracks.accepts (tracks : graph.Tracks registrations) (acyclic : ∀ event, ¬Relation.TransGen relation event event)
    {call : EventId × List EventId} (inside : Inside relation registrations)
    (inside' : ∀ cause ∈ call.2, relation cause call.1) : ∃ next, graph.addEvent call.1 call.2 = .ok next := by
  cases added : graph.addEvent call.1 call.2 with
  | ok next => exact ⟨next, rfl⟩
  | error error =>
      rcases (addEvent_error_iff graph call.1 call.2).mp ⟨error, added⟩ with itself | ⟨cause, member, before⟩
      · exact absurd (.single (inside' _ itself)) (acyclic call.1)
      · rcases isAncestorOf_iff.mp before with rfl | path
        · exact absurd (.single (inside' _ member)) (acyclic call.1)
        · have path' : Relation.TransGen relation call.1 cause := 
            Relation.TransGen.mono (fun _ _ precedes => tracks.precedes inside precedes) _ _ path
          exact absurd (path'.tail (inside' _ member)) (acyclic call.1)

/-- Calls whose edges close no cycle are all accepted. -/
theorem Tracks.accepted_eq (acyclic : ∀ event, ¬Relation.TransGen relation event event)
    (tracks : graph.Tracks registrations) (inside : Inside relation registrations) (inside' : Inside relation calls) :
    accepted graph calls = calls := by
  induction calls generalizing graph registrations with
  | nil => rfl
  | cons call rest hypothesis =>
      obtain ⟨next, added⟩ := tracks.accepts acyclic inside (inside' call List.mem_cons_self)
      have onward := hypothesis (tracks.addEvent added) (List.forall_mem_append.mpr
        ⟨inside, List.forall_mem_singleton.mpr (inside' call List.mem_cons_self)⟩)
        fun other member => inside' other (List.mem_cons_of_mem _ member)
      rw [accepted, added]
      exact congrArg _ onward

/-- Distinct events whose causes are acyclic keep all their causes. -/
theorem mem_run_causes (acyclic : ∀ event, ¬Relation.TransGen relation event event) (inside : Inside relation calls)
    (distinct : (calls.map Prod.fst).Nodup) {cause event : EventId} :
    cause ∈ (run calls).immediateCauses event ↔ ∃ causes, (event, causes) ∈ calls ∧ cause ∈ causes := by
  have all : accepted new calls = calls := Tracks.accepted_eq acyclic new_tracks (fun _ absent => by simp at absent) inside
  have tracks := run_tracks calls
  rw [all] at tracks
  rw [tracks.mem_immediateCauses]
  refine ⟨lastCauses_mem, ?_⟩
  rintro ⟨causes, member, listed⟩
  have only : ∀ call ∈ calls.filter (·.1 = event), call = (event, causes) := by
    intro call chosen
    obtain ⟨inside, same⟩ := List.mem_filter.mp chosen
    exact List.inj_on_of_nodup_map distinct inside member (of_decide_eq_true same)
  have chosen : (event, causes) ∈ calls.filter (·.1 = event) := List.mem_filter.mpr ⟨member, decide_eq_true rfl⟩
  have last := List.getLast?_eq_some_getLast (List.ne_nil_of_mem chosen)
  rw [lastCauses, last, only _ (List.getLast_mem (List.ne_nil_of_mem chosen))]
  exact listed

/-- Stored events with distinct ids and acyclic causes keep all their causes in the graph. -/
theorem mem_ofEvents_causes {events : List StoredEvent} (distinct : (events.map StoredEvent.id).Nodup)
    (acyclic : ∀ event, ¬Relation.TransGen (Cites events) event event) {cause event : EventId} :
    cause ∈ (ofEvents events).immediateCauses event ↔ cause ∈ causesOf events event := by
  have inside : Inside (Cites events) (events.map fun event => (event.id, event.causes)) := by
    intro call member cause listed
    obtain ⟨record, present, rfl⟩ := List.mem_map.mp member
    exact mem_causesOf.mpr ⟨record, present, rfl, listed⟩
  rw [ofEvents, mem_run_causes acyclic inside (by rwa [List.map_map]), mem_causesOf]
  simp only [List.mem_map, Prod.mk.injEq]
  constructor
  · rintro ⟨causes, ⟨record, present, rfl, rfl⟩, listed⟩
    exact ⟨record, present, rfl, listed⟩
  · rintro ⟨record, present, rfl, listed⟩
    exact ⟨record.causes, ⟨record, present, rfl, rfl⟩, listed⟩

end CausalGraph

end Temnion.Causal
