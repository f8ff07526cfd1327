import Temnion.Causal.Registered

/-
This file says that no registration closes a cycle and which registrations are refused for it.
-/

namespace Temnion.Causal

namespace CausalGraph

/-- A registration is refused exactly for a cause that is the event itself or comes after it. -/
theorem addEvent_error_iff (graph : CausalGraph) (event : EventId) (causes : List EventId) :
    (∃ error, graph.addEvent event causes = .error error) ↔
      event ∈ causes ∨ ∃ cause ∈ causes, graph.isAncestorOf event cause = true := by
  have found : (∃ cause ∈ normalize causes, (cause = event || graph.isAncestorOf event cause) = true) ↔
      event ∈ causes ∨ ∃ cause ∈ causes, graph.isAncestorOf event cause = true := by
    simp only [mem_normalize, Bool.or_eq_true, decide_eq_true_eq, and_or_left, exists_or, exists_eq_right]
  rw [← found, addEvent]
  split
  · next cause refused =>
      have closes := List.find?_some refused
      exact iff_of_true ⟨_, rfl⟩ ⟨cause, List.mem_of_find?_eq_some refused, closes⟩
  · next accepted =>
      refine iff_of_false ?_ ?_
      · rintro ⟨error, same⟩
        cases same
      · rintro ⟨cause, member, closes⟩
        exact List.find?_eq_none.mp accepted cause member closes

theorem register_error {graph : CausalGraph} {event : EventId} {causes : List EventId} {error : CausalError}
    (refused : graph.addEvent event causes = .error error) : graph.register (event, causes) = graph := by
  rw [register, refused]

/-- After any calls the causes are acyclic, the ancestors are those that the causes lead to, and a call fails exactly
when it would close a cycle and then changes nothing. -/
theorem ancestry_acyclic (calls : List (EventId × List EventId)) :
    (∀ event, ¬Relation.TransGen (run calls).Precedes event event) ∧
    (∀ ancestor descendant, (run calls).isAncestorOf ancestor descendant = true ↔
      ancestor = descendant ∨ Relation.TransGen (run calls).Precedes ancestor descendant) ∧
    ∀ event causes, ((∃ error, (run calls).addEvent event causes = .error error) ↔
        event ∈ causes ∨ ∃ cause ∈ causes, (run calls).isAncestorOf event cause = true) ∧
      ((∃ error, (run calls).addEvent event causes = .error error) →
        (run calls).register (event, causes) = run calls) := by
  refine ⟨(run_tracks calls).acyclic, fun ancestor descendant => isAncestorOf_iff, fun event causes =>
    ⟨addEvent_error_iff _ event causes, ?_⟩⟩
  rintro ⟨error, refused⟩
  exact register_error refused

end CausalGraph

end Temnion.Causal
