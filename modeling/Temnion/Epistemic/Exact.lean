import Temnion.Epistemic.Cycle

/-
This file says exactly which beliefs a retraction retracts.
-/

namespace Temnion.Epistemic

open Query OrderedMap

namespace TruthMaintenanceSystem

section Exact

variable [Binary64] {before middle after system : TruthMaintenanceSystem} {first second chosen : KnowledgeId → Prop}
  {id : KnowledgeId}

/-- The chosen beliefs are retracted, and nothing else has changed. -/
structure RetractsExactly (chosen : KnowledgeId → Prop) (before after : TruthMaintenanceSystem) : Prop where
  marked : ∀ id, chosen id → after.beliefs[id]? = before.beliefs[id]?.map (setStatus .retracted)
  kept : ∀ id, ¬chosen id → after.beliefs[id]? = before.beliefs[id]?
  nextId : after.nextId = before.nextId
  observations : after.observations = before.observations
  claims : after.claims = before.claims
  rules : after.rules = before.rules
  contradictions : after.contradictions = before.contradictions

namespace RetractsExactly

theorem refl (system : TruthMaintenanceSystem) : RetractsExactly (fun _ => False) system system :=
  ⟨fun _ => False.elim, fun _ _ => rfl, rfl, rfl, rfl, rfl, rfl⟩

theorem mark (system : TruthMaintenanceSystem) (id : KnowledgeId) :
    RetractsExactly (· = id) system (system.mark id .retracted) where
  marked other same := by rw [mark_getElem?, if_pos same]
  kept other different := by rw [mark_getElem?, if_neg different]
  nextId := rfl
  observations := rfl
  claims := rfl
  rules := rfl
  contradictions := rfl

theorem congr (exact' : RetractsExactly first before after) (same : ∀ id, first id ↔ second id) :
    RetractsExactly second before after where
  marked id chosen := exact'.marked id ((same id).mpr chosen)
  kept id other := exact'.kept id fun chosen => other ((same id).mp chosen)
  nextId := exact'.nextId
  observations := exact'.observations
  claims := exact'.claims
  rules := exact'.rules
  contradictions := exact'.contradictions

/-- A belief that is retracted twice is retracted once. -/
theorem trans (one : RetractsExactly first before middle) (two : RetractsExactly second middle after) :
    RetractsExactly (fun id => first id ∨ second id) before after where
  marked id chosen := by
    by_cases early : first id
    · by_cases late : second id
      · rw [two.marked id late, one.marked id early, Option.map_map]
        rfl
      · rw [two.kept id late, one.marked id early]
    · rw [two.marked id (chosen.resolve_left early), one.kept id early]
  kept id neither := by
    rw [two.kept id fun late => neither (.inr late), one.kept id fun early => neither (.inl early)]
  nextId := two.nextId.trans one.nextId
  observations := two.observations.trans one.observations
  claims := two.claims.trans one.claims
  rules := two.rules.trans one.rules
  contradictions := two.contradictions.trans one.contradictions

theorem only (exact' : RetractsExactly chosen before after) : OnlyRetracts before after := by
  intro id
  by_cases marked : chosen id
  · exact .inr (exact'.marked id marked)
  · exact .inl (exact'.kept id marked)

/-- The retracted beliefs are those from before and the chosen ones. -/
theorem retracted_iff (exact' : RetractsExactly chosen before after) :
    after.Retracted id ↔ before.Retracted id ∨ chosen id ∧ id ∈ before.beliefs := by
  by_cases marked : chosen id
  · have known : after.Retracted id ↔ id ∈ before.beliefs := by
      unfold Retracted
      rw [exact'.marked id marked, Std.ExtTreeMap.mem_iff_isSome_getElem?]
      cases before.beliefs[id]? with
      | none => simp
      | some belief => simp [setStatus]
    rw [known]
    refine ⟨fun present => .inr ⟨marked, present⟩, fun either => either.elim (fun earlier => ?_) And.right⟩
    obtain ⟨belief, present, -⟩ := earlier
    exact Std.ExtTreeMap.mem_iff_isSome_getElem?.mpr (Option.isSome_of_eq_some present)
  · unfold Retracted
    rw [exact'.kept id marked]
    simp [marked]

end RetractsExactly

theorem OnlyRetracts.chain_iff (only : OnlyRetracts before after) {premise : KnowledgeId} :
    Relation.ReflTransGen after.Depends id premise ↔ Relation.ReflTransGen before.Depends id premise :=
  ⟨fun chain => Relation.ReflTransGen.mono (fun _ _ => only.depends_iff.mp) _ _ chain,
    fun chain => Relation.ReflTransGen.mono (fun _ _ => only.depends_iff.mpr) _ _ chain⟩

/-- A retraction that ends retracts the belief and all that lead to it through premises. -/
theorem retractBelief_exact {fuel : Nat} {outcome : Except Text Unit} (known : id ∈ before.beliefs)
    (ends : retractBelief fuel id before = some (outcome, after)) :
    outcome = .ok () ∧ RetractsExactly (Relation.ReflTransGen before.Depends · id) before after := by
  induction fuel generalizing id before after outcome with
  | zero => contradiction
  | succ fuel hypothesis =>
      have several : ∀ (ids : List KnowledgeId) (start reached : TruthMaintenanceSystem), (∀ id ∈ ids, id ∈ start.beliefs) →
          retractAll fuel ids start = some reached →
            RetractsExactly (fun other => ∃ id ∈ ids, Relation.ReflTransGen start.Depends other id) start reached := by
        intro ids
        induction ids with
        | nil =>
            intro start reached _ same
            obtain rfl := Option.some.inj same
            exact (RetractsExactly.refl start).congr fun id => by simp
        | cons head rest others =>
            intro start reached present folds
            rw [retractAll, List.foldlM_cons] at folds
            obtain ⟨between, one, tail⟩ := Option.bind_eq_some_iff.mp folds
            obtain ⟨⟨result, _⟩, retracts, rfl⟩ := Option.map_eq_some_iff.mp one
            obtain ⟨-, headExact⟩ := hypothesis (present head List.mem_cons_self) retracts
            have restExact := others _ _ (fun id member =>
              headExact.only.mem_iff.mpr (present id (List.mem_cons_of_mem _ member))) tail
            refine (headExact.trans restExact).congr fun other => ?_
            simp only [headExact.only.chain_iff, List.mem_cons, or_and_right, exists_or, exists_eq_left]
      rw [retractBelief_known known] at ends
      obtain ⟨reached, folds, same⟩ := Option.map_eq_some_iff.mp ends
      obtain ⟨rfl, rfl⟩ := Prod.mk.inj same
      have marks := RetractsExactly.mark before id
      have listed : ∀ other ∈ (before.mark id .retracted).dependents id, other ∈ (before.mark id .retracted).beliefs :=
        fun other member => mem_of_depends (mem_dependents.mp member)
      refine ⟨rfl, (marks.trans (several _ _ _ listed folds)).congr fun other => ?_⟩
      rw [Relation.ReflTransGen.cases_tail_iff]
      apply or_congr eq_comm
      constructor
      · rintro ⟨dependent, member, chain⟩
        exact ⟨dependent, marks.only.chain_iff.mp chain, marks.only.depends_iff.mp (mem_dependents.mp member)⟩
      · rintro ⟨dependent, chain, depends⟩
        exact ⟨dependent, mem_dependents.mpr (marks.only.depends_iff.mpr depends), marks.only.chain_iff.mpr chain⟩

/-- Without a cycle a retraction ends. It retracts the belief with all that depend on it through premises, and nothing
else changes. An unknown id changes nothing. -/
theorem retraction_exact (acyclic : system.Acyclic) (id : KnowledgeId) :
    (∃ fuel, retractBelief fuel id system ≠ none) ∧
    ∀ fuel outcome after, retractBelief fuel id system = some (outcome, after) →
      (id ∉ system.beliefs ∧ outcome = .error (notFound id) ∧ after = system) ∨
      (id ∈ system.beliefs ∧ outcome = .ok () ∧
        (∀ other, after.Retracted other ↔
          system.Retracted other ∨ other = id ∨ Relation.TransGen system.Depends other id) ∧
        RetractsExactly (fun other => other = id ∨ Relation.TransGen system.Depends other id) system after) := by
  refine ⟨(ends_iff.mpr acyclic id).1, fun fuel outcome after ends => ?_⟩
  by_cases known : id ∈ system.beliefs
  · obtain ⟨returned, chains⟩ := retractBelief_exact known ends
    have exact' : RetractsExactly (fun other => other = id ∨ Relation.TransGen system.Depends other id) system after :=
      chains.congr fun other => by rw [Relation.reflTransGen_iff_eq_or_transGen, eq_comm]
    refine .inr ⟨known, returned, fun other => ?_, exact'⟩
    rw [exact'.retracted_iff]
    apply or_congr_right
    refine and_iff_left_of_imp fun either => ?_
    rcases either with rfl | chain
    · exact known
    · obtain ⟨next, depends, -⟩ := Relation.TransGen.head'_iff.mp chain
      exact mem_of_depends depends
  · cases fuel with
    | zero => contradiction
    | succ fuel =>
        rw [retractBelief_unknown known] at ends
        obtain ⟨rfl, rfl⟩ := Prod.mk.inj (Option.some.inj ends)
        exact .inl ⟨known, rfl, rfl⟩

end Exact

end TruthMaintenanceSystem

section Samples

open TruthMaintenanceSystem

theorem retraction_exact_sample :
    letI := Binary64.exact
    letI := Unicode.ascii
    ∃ after, retractBelief 2 1 (new.infer (assumed "rain".toList ⟨(1 : ℚ)⟩ 1)) = some (.ok (), after) ∧
      after.Retracted 1 := by
  let := Binary64.exact
  let := Unicode.ascii
  have acyclic : (new.infer (assumed "rain".toList ⟨(1 : ℚ)⟩ 1)).Acyclic := by
    refine (acyclic_infer_iff fun id cycle => ?_).mpr ?_
    · exact absurd (mem_of_cycle cycle) Std.ExtTreeMap.not_mem_empty
    · intro premise absent
      exact absurd absent List.not_mem_nil
  refine ⟨_, rfl, ?_⟩
  rcases (retraction_exact acyclic 1).2 2 (.ok ()) _ rfl with ⟨-, failed, -⟩ | ⟨-, -, retracted, -⟩
  · contradiction
  · exact (retracted 1).mpr (.inr (.inl rfl))

end Samples

end Temnion.Epistemic
