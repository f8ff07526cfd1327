import Temnion.Causal.Graph

/-
This file says what a causal graph holds after any sequence of registrations.
-/

namespace Temnion.Causal

open OrderedMap

theorem normalize_eq (causes : List EventId) :
    CausalGraph.normalize causes = (causes.mergeSort (· ≤ ·)).dedup :=
  (List.pairwise_mergeSort' (· ≤ ·) causes).destutter_eq_dedup

@[simp] theorem mem_normalize {causes : List EventId} {cause : EventId} :
    cause ∈ CausalGraph.normalize causes ↔ cause ∈ causes := by
  rw [normalize_eq, List.mem_dedup, List.mem_mergeSort]

theorem normalize_nodup (causes : List EventId) : (CausalGraph.normalize causes).Nodup := by
  rw [normalize_eq]
  exact List.nodup_dedup _

namespace CausalGraph

/-- The first event is one of the causes of the second. -/
def Precedes (graph : CausalGraph) (first second : EventId) : Prop := first ∈ graph.immediateCauses second

theorem isAncestorOf_iff {graph : CausalGraph} {ancestor descendant : EventId} :
    graph.isAncestorOf ancestor descendant = true ↔
      ancestor = descendant ∨ Relation.TransGen graph.Precedes ancestor descendant := by
  have inside : ∀ event cause, cause ∈ graph.immediateCauses event → cause ∈ graph.causes.toList.flatMap Prod.snd := by
    intro event cause member
    rw [immediateCauses] at member
    cases found : graph.causes[event]? with
    | none =>
        rw [found] at member
        exact absurd member List.not_mem_nil
    | some causes =>
        rw [found] at member
        exact List.mem_flatMap.mpr ⟨(event, causes), mem_toList.mpr found, member⟩
  have enough : (graph.causes.toList.flatMap Prod.snd).length + 1 < graph.searchRounds := Nat.lt_succ_self _
  rw [isAncestorOf, Bool.or_eq_true, decide_eq_true_eq, Search.reaches_singleton_iff inside enough,
    ← Relation.transGen_swap]
  rfl

/-- The registration puts the event behind each of its causes once. -/
theorem addEffect_foldl (event : EventId) {causes : List EventId} (nodup : causes.Nodup)
    (effects : OrderedMap EventId (List EventId)) (cause : EventId) :
    (causes.foldl (addEffect event) effects)[cause]? =
      if cause ∈ causes then
        some (if event ∈ effects[cause]?.getD [] then effects[cause]?.getD [] else effects[cause]?.getD [] ++ [event])
      else effects[cause]? := by
  induction causes generalizing effects with
  | nil => simp
  | cons first rest hypothesis =>
      obtain ⟨fresh, nodup⟩ := List.nodup_cons.mp nodup
      rw [List.foldl_cons, hypothesis nodup, addEffect, entry_getElem?]
      by_cases same : first = cause
      · subst same
        rw [if_neg fresh, if_pos rfl, if_pos List.mem_cons_self]
      · rw [if_neg same]
        simp only [List.mem_cons, Ne.symm same, false_or]

/-- Everything that an accepted registration checks and changes. -/
theorem addEvent_ok {graph next : CausalGraph} {event : EventId} {causes : List EventId}
    (added : graph.addEvent event causes = .ok next) :
    (∀ cause ∈ causes, cause ≠ event ∧ graph.isAncestorOf event cause = false) ∧
      (∀ other, next.causes[other]? = if event = other then some (normalize causes) else graph.causes[other]?) ∧
      ∀ other, next.effects[other]? =
        if other = event ∨ other ∈ causes then
          some (if other ∈ causes ∧ event ∉ graph.immediateEffects other then graph.immediateEffects other ++ [event]
            else graph.immediateEffects other)
        else graph.effects[other]? := by
  rw [addEvent] at added
  split at added
  · exact absurd added nofun
  · next accepted =>
      rw [Except.ok.injEq] at added
      subst added
      have checked : ∀ cause ∈ causes, cause ≠ event ∧ graph.isAncestorOf event cause = false := by
        intro cause member
        have both := List.find?_eq_none.mp accepted cause (mem_normalize.mpr member)
        simpa using both
      refine ⟨checked, fun other => ?_, fun other => ?_⟩
      · simp only [Std.ExtTreeMap.getElem?_insert, compare_eq_iff_eq]
      · simp only [entry_getElem?, addEffect_foldl event (normalize_nodup causes), mem_normalize, immediateEffects, id]
        by_cases same : event = other
        · subst same
          have absent : event ∉ causes := fun member => (checked event member).1 rfl
          simp [absent]
        · simp only [if_neg same, Ne.symm same, false_or]
          by_cases member : other ∈ causes
          · simp only [member, if_true, true_and, Option.some.injEq]
            split <;> simp_all
          · simp [member]

/-- A cycle check that found nothing keeps the causes without a cycle. -/
theorem addEvent_acyclic {graph next : CausalGraph} {event : EventId} {causes : List EventId}
    (added : graph.addEvent event causes = .ok next)
    (acyclic : ∀ event, ¬ Relation.TransGen graph.Precedes event event) :
    ∀ event, ¬ Relation.TransGen next.Precedes event event := by
  obtain ⟨checked, changed, -⟩ := addEvent_ok added
  have behind : ∀ cause ∈ causes, cause ≠ event ∧ ¬ Relation.TransGen graph.Precedes event cause := by
    intro cause member
    obtain ⟨different, apart⟩ := checked cause member
    rw [← Bool.not_eq_true, isAncestorOf_iff, not_or] at apart
    exact ⟨different, apart.2⟩
  have edge : ∀ {first second}, next.Precedes first second →
      if second = event then first ∈ causes else graph.Precedes first second := by
    intro first second step
    rw [Precedes, immediateCauses, changed] at step
    split
    · next same =>
        rw [if_pos same.symm] at step
        exact mem_normalize.mp step
    · next different =>
        rw [if_neg (Ne.symm different)] at step
        exact step
  -- a path of the new graph is an old path, or it passes the new edges exactly once
  have path : ∀ {first last}, Relation.TransGen next.Precedes first last →
      Relation.TransGen graph.Precedes first last ∨
        ∃ cause ∈ causes, (first = cause ∨ Relation.TransGen graph.Precedes first cause) ∧
          (last = event ∨ Relation.TransGen graph.Precedes event last) := by
    intro first last leads
    induction leads with
    | single step =>
        have old := edge step
        split at old
        · next same => exact Or.inr ⟨_, old, Or.inl rfl, Or.inl same⟩
        · exact Or.inl (Relation.TransGen.single old)
    | tail _ step hypothesis =>
        have old := edge step
        split at old
        · next same =>
            rcases hypothesis with before | ⟨cause, member, start, rfl | stop⟩
            · exact Or.inr ⟨_, old, Or.inr before, Or.inl same⟩
            · exact absurd rfl (behind _ old).1
            · exact absurd stop (behind _ old).2
        · rcases hypothesis with before | ⟨cause, member, start, rfl | stop⟩
          · exact Or.inl (before.tail old)
          · exact Or.inr ⟨cause, member, start, Or.inr (Relation.TransGen.single old)⟩
          · exact Or.inr ⟨cause, member, start, Or.inr (stop.tail old)⟩
  intro other cycle
  rcases path cycle with old | ⟨cause, member, start, stop⟩
  · exact acyclic other old
  · obtain ⟨different, apart⟩ := behind cause member
    rcases start with rfl | start <;> rcases stop with rfl | stop
    · exact different rfl
    · exact apart stop
    · exact apart start
    · exact apart (stop.trans start)

/-- The calls that pass the cycle check of the graph they meet. -/
def accepted : CausalGraph → List (EventId × List EventId) → List (EventId × List EventId)
  | _, [] => []
  | graph, call :: rest =>
      match graph.addEvent call.1 call.2 with
      | .ok next => call :: accepted next rest
      | .error _ => accepted graph rest

/-- The causes of the last registration of an event. -/
def lastCauses (registrations : List (EventId × List EventId)) (event : EventId) : List EventId :=
  ((registrations.filter (·.1 = event)).getLast?.map Prod.snd).getD []

theorem lastCauses_concat (registrations : List (EventId × List EventId)) (call : EventId × List EventId)
    (event : EventId) :
    lastCauses (registrations ++ [call]) event = if call.1 = event then call.2 else lastCauses registrations event := by
  rw [lastCauses, List.filter_append, List.filter_singleton]
  by_cases same : call.1 = event
  · simp [same]
  · simp [same, lastCauses]

/-- What the two maps hold after the registrations. -/
structure Tracks (graph : CausalGraph) (registrations : List (EventId × List EventId)) : Prop where
  causes : ∀ event, graph.immediateCauses event = normalize (lastCauses registrations event)
  effects : ∀ cause event, event ∈ graph.immediateEffects cause ↔ ∃ causes, (event, causes) ∈ registrations ∧ cause ∈ causes
  effects_nodup : ∀ cause, (graph.immediateEffects cause).Nodup
  registered : ∀ event, event ∈ graph.causes ↔ ∃ causes, (event, causes) ∈ registrations
  mentioned : ∀ event, event ∈ graph.effects ↔ ∃ call ∈ registrations, event = call.1 ∨ event ∈ call.2
  acyclic : ∀ event, ¬ Relation.TransGen graph.Precedes event event

theorem new_tracks : Tracks new [] where
  causes event := by simp [immediateCauses, new, lastCauses, normalize]
  effects cause event := by simp [immediateEffects, new]
  effects_nodup cause := by simp [immediateEffects, new]
  registered event := by simp [new]
  mentioned event := by simp [new]
  acyclic event := by
    intro cycle
    obtain ⟨first, -, step⟩ := Relation.TransGen.tail'_iff.mp cycle
    simp [Precedes, immediateCauses, new] at step

theorem Tracks.addEvent {graph next : CausalGraph} {registrations : List (EventId × List EventId)}
    {call : EventId × List EventId} (tracks : graph.Tracks registrations)
    (added : graph.addEvent call.1 call.2 = .ok next) : next.Tracks (registrations ++ [call]) := by
  obtain ⟨checked, causes, effects⟩ := addEvent_ok added
  have inEffects : ∀ cause, next.immediateEffects cause =
      if cause ∈ call.2 ∧ call.1 ∉ graph.immediateEffects cause then graph.immediateEffects cause ++ [call.1]
      else graph.immediateEffects cause := by
    intro cause
    rw [immediateEffects, effects]
    by_cases member : cause ∈ call.2
    · simp [member]
    · by_cases same : cause = call.1 <;> simp [member, same, immediateEffects]
  constructor
  · intro event
    rw [lastCauses_concat, immediateCauses, causes]
    split
    · rfl
    · exact tracks.causes event
  · intro cause event
    rw [inEffects]
    have old := tracks.effects cause event
    have split : (∃ causes, (event, causes) ∈ registrations ++ [call] ∧ cause ∈ causes) ↔
        (∃ causes, (event, causes) ∈ registrations ∧ cause ∈ causes) ∨ event = call.1 ∧ cause ∈ call.2 := by
      simp only [List.mem_append, List.mem_singleton, Prod.ext_iff, or_and_right, exists_or]
      grind
    rw [split, ← old]
    by_cases fresh : cause ∈ call.2 ∧ call.1 ∉ graph.immediateEffects cause
    · rw [if_pos fresh, List.mem_append, List.mem_singleton]
      grind
    · rw [if_neg fresh]
      grind
  · intro cause
    rw [inEffects]
    split
    · next fresh => exact List.nodup_append.mpr ⟨tracks.effects_nodup cause, List.nodup_singleton _, by grind⟩
    · exact tracks.effects_nodup cause
  · intro event
    have old := tracks.registered event
    rw [Std.ExtTreeMap.mem_iff_isSome_getElem?] at old
    rw [Std.ExtTreeMap.mem_iff_isSome_getElem?, causes]
    by_cases same : call.1 = event
    · subst same
      simp only [if_true, Option.isSome_some, true_iff]
      exact ⟨call.2, List.mem_append_right _ List.mem_cons_self⟩
    · rw [if_neg same, old]
      simp only [List.mem_append, List.mem_singleton, Prod.ext_iff, Ne.symm same, false_and, or_false]
  · intro event
    have old := tracks.mentioned event
    rw [Std.ExtTreeMap.mem_iff_isSome_getElem?] at old
    rw [Std.ExtTreeMap.mem_iff_isSome_getElem?, effects]
    simp only [List.mem_append, List.mem_singleton, or_and_right, exists_or, exists_eq_left, ← old]
    by_cases named : event = call.1 ∨ event ∈ call.2
    · simp [named]
    · simp [named]
  · exact addEvent_acyclic added tracks.acyclic

theorem Tracks.register {graph : CausalGraph} {registrations : List (EventId × List EventId)}
    (tracks : graph.Tracks registrations) (calls : List (EventId × List EventId)) :
    (calls.foldl CausalGraph.register graph).Tracks (registrations ++ accepted graph calls) := by
  induction calls generalizing graph registrations with
  | nil => simpa [accepted] using tracks
  | cons call rest hypothesis =>
      rw [List.foldl_cons, CausalGraph.register, accepted]
      cases added : graph.addEvent call.1 call.2 with
      | error error => exact hypothesis tracks
      | ok next =>
          dsimp only
          rw [List.append_cons]
          exact hypothesis (tracks.addEvent added)

/-- The graph of every run holds its accepted registrations. -/
theorem run_tracks (calls : List (EventId × List EventId)) : (run calls).Tracks (accepted new calls) :=
  new_tracks.register calls

end CausalGraph

end Temnion.Causal
