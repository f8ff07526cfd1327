import Temnion.Causal.Registered

/-
This file decides when the two maps of a causal graph agree and when its events have a topological order.
-/

namespace Temnion.Causal

open OrderedMap

namespace CausalGraph

/-- The lists of causes and of effects are inverse to each other and hold nothing twice. -/
def Dual (graph : CausalGraph) : Prop :=
  (∀ cause event, cause ∈ graph.immediateCauses event ↔ event ∈ graph.immediateEffects cause) ∧
    ∀ event, (graph.immediateCauses event).Nodup ∧ (graph.immediateEffects event).Nodup

/-- The sort ends with all events of the graph, each once and after its causes. -/
def Sorts (graph : CausalGraph) : Prop :=
  ∃ fuel order, graph.topologicalSort fuel = some (.ok order) ∧ order.Nodup ∧
    (∀ event, event ∈ order ↔ graph.Contains event) ∧ Kahn.Placed graph.immediateCauses order

/-- The last registration of an event repeats every cause of its earlier ones. -/
def Covered (registrations : List (EventId × List EventId)) : Prop :=
  ∀ event causes, (event, causes) ∈ registrations → ∀ cause ∈ causes, cause ∈ lastCauses registrations event

theorem lastCauses_mem {registrations : List (EventId × List EventId)} {event cause : EventId}
    (member : cause ∈ lastCauses registrations event) : ∃ causes, (event, causes) ∈ registrations ∧ cause ∈ causes := by
  rw [lastCauses] at member
  cases last : (registrations.filter (·.1 = event)).getLast? with
  | none =>
      rw [last] at member
      exact absurd member List.not_mem_nil
  | some call =>
      rw [last] at member
      obtain ⟨inside, same⟩ := List.mem_filter.mp (List.mem_of_getLast? last)
      obtain rfl : call.1 = event := by simpa using same
      exact ⟨call.2, inside, member⟩

section

variable {graph : CausalGraph} {registrations : List (EventId × List EventId)} (tracks : graph.Tracks registrations)

include tracks

theorem Tracks.mem_immediateCauses {cause event : EventId} :
    cause ∈ graph.immediateCauses event ↔ cause ∈ lastCauses registrations event := by
  rw [tracks.causes, mem_normalize]

/-- The causes always stand among the effects. -/
theorem Tracks.effect_of_cause {cause event : EventId} (member : cause ∈ graph.immediateCauses event) :
    event ∈ graph.immediateEffects cause := by
  rw [tracks.effects]
  exact lastCauses_mem (tracks.mem_immediateCauses.mp member)

theorem Tracks.dual_iff : graph.Dual ↔ Covered registrations := by
  constructor
  · rintro ⟨inverse, -⟩ event causes registered cause member
    rw [← tracks.mem_immediateCauses, inverse, tracks.effects]
    exact ⟨causes, registered, member⟩
  · intro covered
    refine ⟨fun cause event => ⟨tracks.effect_of_cause, fun member => ?_⟩, fun event => ⟨?_, tracks.effects_nodup event⟩⟩
    · obtain ⟨causes, registered, inside⟩ := (tracks.effects cause event).mp member
      exact tracks.mem_immediateCauses.mpr (covered event causes registered cause inside)
    · rw [tracks.causes]
      exact normalize_nodup _

end

/-- After any calls the maps agree exactly when every last registration covers the earlier ones. -/
theorem dual_iff_covered (calls : List (EventId × List EventId)) :
    (run calls).Dual ↔ Covered (accepted new calls) := (run_tracks calls).dual_iff

/-- The second registration drops the first cause, whose list of effects keeps the event. -/
theorem reregistration_breaks_duality : ¬ (run [(⟨0, 0, 2⟩, [⟨0, 0, 0⟩]), (⟨0, 0, 2⟩, [⟨0, 0, 1⟩])]).Dual := by
  intro dual
  have absent : (⟨0, 0, 0⟩ : EventId) ∉
      (run [(⟨0, 0, 2⟩, [⟨0, 0, 0⟩]), (⟨0, 0, 2⟩, [⟨0, 0, 1⟩])]).immediateCauses ⟨0, 0, 2⟩ := by decide +kernel
  have present : (⟨0, 0, 2⟩ : EventId) ∈
      (run [(⟨0, 0, 2⟩, [⟨0, 0, 0⟩]), (⟨0, 0, 2⟩, [⟨0, 0, 1⟩])]).immediateEffects ⟨0, 0, 0⟩ := by decide +kernel
  exact absent ((dual.1 _ _).mpr present)

theorem countEntry_getElem? (degrees : OrderedMap EventId Nat) (pair : EventId × List EventId) (event : EventId) :
    (countEntry degrees pair)[event]? =
      if event = pair.1 then some (degrees[event]?.getD 0 + pair.2.length)
      else if event ∈ pair.2 then some (degrees[event]?.getD 0) else degrees[event]? := by
  have listed (causes : List EventId) (degrees : OrderedMap EventId Nat) (event : EventId) :
      (causes.foldl (fun degrees cause => degrees.entry cause 0 id) degrees)[event]? =
        if event ∈ causes then some (degrees[event]?.getD 0) else degrees[event]? := by
    induction causes generalizing degrees with
    | nil => rfl
    | cons first rest hypothesis =>
        rw [List.foldl_cons, hypothesis, entry_getElem?]
        by_cases same : first = event
        · simp [same]
        · simp [same, Ne.symm same]
  simp only [countEntry, entry_getElem?, listed]
  by_cases same : pair.1 = event
  · subst same
    by_cases member : pair.1 ∈ pair.2
    · simp [member]
    · simp [member]
  · simp [same, Ne.symm same]

/-- Entries with different keys count each event once. -/
theorem countEntry_foldl {pairs : List (EventId × List EventId)} (nodup : (pairs.map Prod.fst).Nodup)
    (degrees : OrderedMap EventId Nat) (event : EventId) :
    (pairs.foldl countEntry degrees)[event]? =
      if ∃ pair ∈ pairs, event = pair.1 ∨ event ∈ pair.2 then
        some (degrees[event]?.getD 0 + ((pairs.find? (·.1 = event)).elim 0 fun pair => pair.2.length))
      else degrees[event]? := by
  induction pairs generalizing degrees with
  | nil => simp
  | cons first rest hypothesis =>
      rw [List.map_cons, List.nodup_cons] at nodup
      rw [List.foldl_cons, hypothesis nodup.2, countEntry_getElem?, List.find?_cons]
      by_cases same : first.1 = event
      · have absent : rest.find? (·.1 = event) = none := by
          rw [List.find?_eq_none]
          intro pair member equal
          rw [decide_eq_true_eq] at equal
          exact nodup.1 (List.mem_map.mpr ⟨pair, member, equal.trans same.symm⟩)
        rw [if_pos same.symm, absent]
        simp [same]
      · have absent : (¬ ∃ pair ∈ rest, event = pair.1 ∨ event ∈ pair.2) → rest.find? (·.1 = event) = none := by
          intro missing
          rw [List.find?_eq_none]
          intro pair member equal
          exact missing ⟨pair, member, Or.inl (of_decide_eq_true equal).symm⟩
        have whole : (∃ pair ∈ first :: rest, event = pair.1 ∨ event ∈ pair.2) ↔
            event ∈ first.2 ∨ ∃ pair ∈ rest, event = pair.1 ∨ event ∈ pair.2 := by
          simp [Ne.symm same]
        simp only [whole, Ne.symm same, same, if_false, decide_false]
        by_cases later : ∃ pair ∈ rest, event = pair.1 ∨ event ∈ pair.2
        · rw [if_pos later, if_pos (Or.inr later)]
          split <;> rfl
        · rw [if_neg later, absent later]
          simp only [later, or_false, Option.elim_none, add_zero]

/-- The sort counts the registered events and all their causes. -/
def Counts (graph : CausalGraph) (event : EventId) : Prop :=
  event ∈ graph.causes ∨ ∃ other, event ∈ graph.immediateCauses other

theorem counts_iff (graph : CausalGraph) (event : EventId) :
    graph.Counts event ↔ ∃ pair ∈ graph.causes.toList, event = pair.1 ∨ event ∈ pair.2 := by
  simp only [Prod.exists, mem_toList, Counts, immediateCauses, Std.ExtTreeMap.mem_iff_isSome_getElem?]
  constructor
  · rintro (registered | ⟨other, member⟩)
    · obtain ⟨causes, found⟩ := Option.isSome_iff_exists.mp registered
      exact ⟨event, causes, found, Or.inl rfl⟩
    · cases found : graph.causes[other]? with
      | none =>
          rw [found] at member
          exact absurd member List.not_mem_nil
      | some causes =>
          rw [found] at member
          exact ⟨other, causes, found, Or.inr member⟩
  · rintro ⟨other, causes, found, rfl | member⟩
    · exact Or.inl (found ▸ rfl)
    · exact Or.inr ⟨other, by rw [found]; exact member⟩

/-- The degree of an event is the number of its causes. -/
theorem inDegree_eq_some {graph : CausalGraph} {event : EventId} {degree : Nat} :
    graph.inDegree[event]? = some degree ↔ graph.Counts event ∧ (graph.immediateCauses event).length = degree := by
  have count : ((graph.causes.toList.find? (·.1 = event)).elim 0 fun pair => pair.2.length) =
      (graph.immediateCauses event).length := by
    cases found : graph.causes.toList.find? (·.1 = event) with
    | none =>
        have missing : graph.causes[event]? = none := by
          by_contra present
          obtain ⟨causes, inside⟩ := Option.ne_none_iff_exists'.mp present
          have differs := List.find?_eq_none.mp found (event, causes) (mem_toList.mpr inside)
          simp at differs
        rw [immediateCauses, missing]
        rfl
    | some pair =>
        have member := mem_toList.mp (List.mem_of_find?_eq_some found)
        obtain rfl : pair.1 = event := by simpa using List.find?_some found
        rw [immediateCauses, member]
        rfl
  rw [inDegree, countEntry_foldl (keys_nodup graph.causes), count, counts_iff]
  split <;> simp [*]

theorem mem_inDegree {graph : CausalGraph} {event : EventId} : event ∈ graph.inDegree ↔ graph.Counts event := by
  rw [Std.ExtTreeMap.mem_iff_isSome_getElem?, Option.isSome_iff_exists]
  simp only [inDegree_eq_some, exists_and_left, exists_eq', and_true]

/-- The two maps of a dual graph describe one graph to the sort. -/
theorem Dual.agrees {graph : CausalGraph} (dual : graph.Dual) :
    Kahn.Agrees graph.immediateCauses graph.immediateEffects graph.inDegree where
  dual cause event := (dual.1 cause event).symm
  successors_nodup event := (dual.2 event).2
  predecessors_nodup event := (dual.2 event).1
  needs _ _ found := (inDegree_eq_some.mp found).2.symm
  closed event _ _ member := mem_inDegree.mpr (Or.inr ⟨event, member⟩)

section

variable {graph : CausalGraph} {registrations : List (EventId × List EventId)} (tracks : graph.Tracks registrations)

include tracks

/-- The degrees of a dual graph are those of all its events. -/
theorem Tracks.contains_iff (dual : graph.Dual) (event : EventId) : graph.Contains event ↔ event ∈ graph.inDegree := by
  rw [mem_inDegree, Counts, Contains]
  constructor
  · rintro (registered | mentioned)
    · exact Or.inl registered
    · obtain ⟨⟨other, causes⟩, registered, rfl | member⟩ := (tracks.mentioned event).mp mentioned
      · exact Or.inl ((tracks.registered _).mpr ⟨causes, registered⟩)
      · exact Or.inr ⟨other, (dual.1 event other).mpr ((tracks.effects event other).mpr ⟨causes, registered, member⟩)⟩
  · rintro (registered | ⟨other, member⟩)
    · exact Or.inl registered
    · obtain ⟨causes, registered, inside⟩ := lastCauses_mem (tracks.mem_immediateCauses.mp member)
      exact Or.inr ((tracks.mentioned event).mpr ⟨(other, causes), registered, Or.inr inside⟩)

theorem Tracks.sorts_of_dual (dual : graph.Dual) : graph.Sorts := by
  obtain ⟨fuel, order, finished, unique, whole, placed⟩ := dual.agrees.sorts tracks.acyclic
  have size : order.length = graph.inDegree.size := by
    have perm : order.Perm graph.inDegree.keys := by
      apply (List.perm_ext_iff_of_nodup unique Std.ExtTreeMap.nodup_keys).mpr
      intro event
      rw [whole, Std.ExtTreeMap.mem_keys]
    rw [perm.length_eq, Std.ExtTreeMap.length_keys]
  refine ⟨fuel, order, ?_, unique, fun event => ?_, placed⟩
  · rw [topologicalSort, finished, Option.map_some, if_neg (not_not.mpr size)]
  · rw [whole, tracks.contains_iff dual]

/-- An effect that is not a cause is counted down once too often. -/
theorem Tracks.dual_of_sorts (sorts : graph.Sorts) : graph.Dual := by
  obtain ⟨fuel, order, finished, unique, whole, -⟩ := sorts
  rw [topologicalSort, Option.map_eq_some_iff] at finished
  obtain ⟨order', drained, same⟩ := finished
  obtain rfl : order' = order := by
    split at same
    · exact absurd same nofun
    · exact Except.ok.inj same
  refine ⟨fun cause event => ⟨tracks.effect_of_cause, fun member => ?_⟩, fun event => ⟨?_, tracks.effects_nodup event⟩⟩
  · by_contra missing
    obtain ⟨causes, registered, inside⟩ := (tracks.effects cause event).mp member
    have counted : graph.Counts event := Or.inl ((tracks.registered event).mpr ⟨causes, registered⟩)
    have different : (cause :: graph.immediateCauses event).Nodup := by
      rw [tracks.causes] at missing ⊢
      exact List.nodup_cons.mpr ⟨missing, normalize_nodup _⟩
    have named : ∀ other ∈ cause :: graph.immediateCauses event, other ∈ order' ∧ event ∈ graph.immediateEffects other := by
      intro other listed
      have effect : event ∈ graph.immediateEffects other := by
        rcases List.mem_cons.mp listed with rfl | listed
        · exact member
        · exact tracks.effect_of_cause listed
      obtain ⟨causes, registered, inside⟩ := (tracks.effects other event).mp effect
      have present : graph.Contains other :=
        Or.inr ((tracks.mentioned other).mpr ⟨(event, causes), registered, Or.inr inside⟩)
      exact ⟨(whole other).mpr present, effect⟩
    exact Kahn.oversupplied tracks.effects_nodup drained (inDegree_eq_some.mpr ⟨counted, rfl⟩) different named
      (Nat.lt_succ_self _) unique
  · rw [tracks.causes]
    exact normalize_nodup _

end

/-- After any calls the sort succeeds exactly when every last registration covers the earlier ones. -/
theorem sorts_iff_covered (calls : List (EventId × List EventId)) :
    (run calls).Sorts ↔ Covered (accepted new calls) := by
  have tracks := run_tracks calls
  rw [← tracks.dual_iff]
  exact ⟨tracks.dual_of_sorts, tracks.sorts_of_dual⟩

/-- Two events that are each an effect of the other never leave the queue. -/
theorem reregistration_loops :
    let graph := run [(⟨0, 0, 1⟩, [⟨0, 0, 0⟩]), (⟨0, 0, 1⟩, []), (⟨0, 0, 0⟩, [⟨0, 0, 1⟩])]
    ¬ graph.Sorts ∧ ∀ fuel, graph.topologicalSort fuel = none := by
  intro graph
  have ready : Kahn.ready graph.inDegree = [⟨0, 0, 1⟩] := by decide +kernel
  have first : graph.immediateEffects ⟨0, 0, 0⟩ = [⟨0, 0, 1⟩] := by decide +kernel
  have second : graph.immediateEffects ⟨0, 0, 1⟩ = [⟨0, 0, 0⟩] := by decide +kernel
  have other : graph.inDegree[(⟨0, 0, 0⟩ : EventId)]? = some 1 := by decide +kernel
  have lowered : (graph.inDegree.insert (⟨0, 0, 0⟩ : EventId) 0)[(⟨0, 0, 0⟩ : EventId)]? = some 0 := by decide +kernel
  have kept : (graph.inDegree.insert (⟨0, 0, 0⟩ : EventId) 0)[(⟨0, 0, 1⟩ : EventId)]? = some 0 := by decide +kernel
  have loops : ∀ fuel, graph.topologicalSort fuel = none := by
    intro fuel
    rw [topologicalSort, ready, Option.map_eq_none_iff]
    cases fuel with
    | zero => rfl
    | succ fuel =>
        have counted : Kahn.relax (graph.inDegree, []) ⟨0, 0, 0⟩ =
            (graph.inDegree.insert (⟨0, 0, 0⟩ : EventId) 0, [⟨0, 0, 0⟩]) := by
          rw [Kahn.relax, other]
          rfl
        rw [Kahn.drain, second, List.foldl_cons, List.foldl_nil, counted]
        exact Kahn.drain_loops first second lowered kept fuel _
  refine ⟨?_, loops⟩
  rintro ⟨fuel, order, finished, -⟩
  rw [loops fuel] at finished
  contradiction

end CausalGraph

end Temnion.Causal
