import Temnion.Library.Fallible
import Temnion.Epistemic.Retraction

/-
This file says when the recursions over the premises of the beliefs come to an end.
-/

namespace Temnion.Epistemic

open Query OrderedMap

namespace TruthMaintenanceSystem

section Recursions

variable [Binary64]

def RetractEnds (system : TruthMaintenanceSystem) (id : KnowledgeId) : Prop :=
  ∃ fuel, retractBelief fuel id system ≠ none

def WhyEnds (system : TruthMaintenanceSystem) (id : KnowledgeId) : Prop :=
  ∃ fuel, system.why fuel id ≠ .error .deeper

/-- No belief is reached from itself through premises. -/
def Acyclic (system : TruthMaintenanceSystem) : Prop := ∀ id, ¬Relation.TransGen system.Depends id id

variable {system : TruthMaintenanceSystem} {id premise : KnowledgeId}

section Finite

instance (system : TruthMaintenanceSystem) : Finite { id : KnowledgeId // id ∈ system.beliefs } :=
  Finite.of_injective (fun id => (⟨id.val, system.allocated _ id.property⟩ : Fin system.nextId)) fun _ _ same =>
    Subtype.ext (Fin.mk.inj same)

/-- Following premises from belief to belief stops when there is no cycle. -/
theorem wellFounded_premises (acyclic : system.Acyclic) :
    WellFounded fun premise id : { id : KnowledgeId // id ∈ system.beliefs } =>
      Relation.TransGen system.Depends id premise := by
  have irreflexive : Std.Irrefl fun premise id : { id : KnowledgeId // id ∈ system.beliefs } =>
      Relation.TransGen system.Depends id.val premise.val := ⟨fun id => acyclic id⟩
  have transitive : IsTrans { id : KnowledgeId // id ∈ system.beliefs } fun premise id =>
      Relation.TransGen system.Depends id premise := ⟨fun _ _ _ first second => second.trans first⟩
  exact Finite.wellFounded_of_trans_of_irrefl _

/-- So does following dependents. -/
theorem wellFounded_dependents (acyclic : system.Acyclic) :
    WellFounded fun id premise : { id : KnowledgeId // id ∈ system.beliefs } =>
      Relation.TransGen system.Depends id premise := by
  have irreflexive : Std.Irrefl fun id premise : { id : KnowledgeId // id ∈ system.beliefs } =>
      Relation.TransGen system.Depends id.val premise.val := ⟨fun id => acyclic id⟩
  have transitive : IsTrans { id : KnowledgeId // id ∈ system.beliefs } fun id premise =>
      Relation.TransGen system.Depends id premise := ⟨fun _ _ _ first second => first.trans second⟩
  exact Finite.wellFounded_of_trans_of_irrefl _

end Finite

/-- A belief on a cycle has a premise on a cycle. -/
theorem premise_on_cycle (cycle : Relation.TransGen system.Depends id id) :
    ∃ premise, system.Depends id premise ∧ Relation.TransGen system.Depends premise premise := by
  obtain ⟨premise, depends, back⟩ := Relation.TransGen.head'_iff.mp cycle
  exact ⟨premise, depends, Relation.TransGen.tail' back depends⟩

/-- A belief on a cycle is a premise of a belief on a cycle. -/
theorem dependent_on_cycle (cycle : Relation.TransGen system.Depends premise premise) :
    ∃ id, system.Depends id premise ∧ Relation.TransGen system.Depends id id := by
  obtain ⟨id, back, depends⟩ := Relation.TransGen.tail'_iff.mp cycle
  exact ⟨id, depends, Relation.TransGen.head' depends back⟩

theorem mem_of_cycle (cycle : Relation.TransGen system.Depends id id) : id ∈ system.beliefs := by
  obtain ⟨premise, depends, _⟩ := premise_on_cycle cycle
  exact mem_of_depends depends

omit [Binary64] in
/-- What holds of every large fuel also holds of every larger fuel but one. -/
theorem eventually_succ {holds : Nat → Prop} {earlier : Nat → Prop} (step : ∀ fuel, earlier fuel → holds (fuel + 1))
    (eventually : ∀ᶠ fuel in Filter.atTop, earlier fuel) : ∀ᶠ fuel in Filter.atTop, holds fuel := by
  obtain ⟨bound, all⟩ := Filter.eventually_atTop.mp eventually
  refine Filter.eventually_atTop.mpr ⟨bound + 1, fun fuel above => ?_⟩
  obtain ⟨fuel, rfl⟩ := Nat.exists_eq_add_of_le' (Nat.le_of_add_left_le above)
  exact step fuel (all fuel (Nat.le_of_succ_le_succ above))

section Why

/-- A query for a belief never returns an error. -/
theorem why_ne_failed {fuel : Nat} {message : Text} (known : id ∈ system.beliefs) :
    system.why fuel id ≠ .error (.failed message) := by
  induction fuel generalizing id with
  | zero => exact nofun
  | succ fuel hypothesis =>
      obtain ⟨belief, present⟩ := Option.isSome_iff_exists.mp (Std.ExtTreeMap.mem_iff_isSome_getElem?.mp known)
      unfold why
      rw [present]
      dsimp only
      rcases Except.mapM_cases (system.why fuel) (belief.justification.premises.filter (· ∈ system.beliefs)) with
        ⟨traces, all, _⟩ | ⟨error, stops, premise, member, fails⟩
      · rw [all]
        exact nofun
      · rw [stops]
        intro same
        obtain rfl := Except.error.inj same
        exact hypothesis (of_decide_eq_true (List.mem_filter.mp member).2) fails

/-- The query goes round a cycle with any fuel. -/
theorem why_of_cycle (fuel : Nat) (cycle : Relation.TransGen system.Depends id id) :
    system.why fuel id = .error .deeper := by
  induction fuel generalizing id with
  | zero => rfl
  | succ fuel hypothesis =>
      obtain ⟨premise, ⟨belief, present, named⟩, onward⟩ := premise_on_cycle cycle
      have listed : premise ∈ belief.justification.premises.filter (· ∈ system.beliefs) :=
        List.mem_filter.mpr ⟨named, decide_eq_true (mem_of_cycle onward)⟩
      unfold why
      rw [present]
      dsimp only
      rcases Except.mapM_cases (system.why fuel) (belief.justification.premises.filter (· ∈ system.beliefs)) with
        ⟨traces, _, each⟩ | ⟨error, stops, failing, member, fails⟩
      · obtain ⟨trace, finished⟩ := each premise listed
        rw [hypothesis onward] at finished
        contradiction
      · rw [stops]
        cases error with
        | deeper => rfl
        | failed message =>
            exact absurd fails (why_ne_failed (of_decide_eq_true (List.mem_filter.mp member).2))

/-- Without a cycle the query ends with every fuel that is large enough. -/
theorem why_eventually (acyclic : system.Acyclic) (id : { id : KnowledgeId // id ∈ system.beliefs }) :
    ∀ᶠ fuel in Filter.atTop, system.why fuel id ≠ .error .deeper := by
  induction id using (wellFounded_premises acyclic).induction with
  | _ id hypothesis =>
      obtain ⟨belief, present⟩ :=
        Option.isSome_iff_exists.mp (Std.ExtTreeMap.mem_iff_isSome_getElem?.mp id.property)
      have premises : ∀ᶠ fuel in Filter.atTop,
          ∀ premise ∈ { premise | premise ∈ belief.justification.premises.filter (· ∈ system.beliefs) },
            system.why fuel premise ≠ .error .deeper := by
        rw [Filter.eventually_all_finite (List.finite_toSet _)]
        intro premise member
        obtain ⟨named, known⟩ := List.mem_filter.mp member
        exact hypothesis ⟨premise, of_decide_eq_true known⟩ (Relation.TransGen.single ⟨belief, present, named⟩)
      apply eventually_succ _ premises
      intro fuel all
      unfold why
      rw [present]
      dsimp only
      rcases Except.mapM_cases (system.why fuel) (belief.justification.premises.filter (· ∈ system.beliefs)) with
        ⟨traces, finished, _⟩ | ⟨error, stops, failing, member, fails⟩
      · rw [finished]
        exact nofun
      · rw [stops]
        intro same
        obtain rfl := Except.error.inj same
        exact all failing member fails

end Why

section Retract

variable {reached : TruthMaintenanceSystem}

/-- A retraction that meets an endless one among several is endless itself. -/
theorem retractAll_endless {fuel : Nat} {ids : List KnowledgeId} (listed : id ∈ ids)
    (endless : ∀ reached, OnlyRetracts system reached → retractBelief fuel id reached = none)
    (only : OnlyRetracts system reached) : retractAll fuel ids reached = none := by
  induction ids generalizing reached with
  | nil => contradiction
  | cons first rest hypothesis =>
      rw [retractAll, List.foldlM_cons]
      rcases List.mem_cons.mp listed with rfl | listed
      · rw [endless reached only]
        rfl
      · cases one : retractBelief fuel first reached with
        | none => rfl
        | some ended =>
            have onward := only.trans (retractBelief_cascades one).1.only
            exact hypothesis listed onward

/-- Several retractions end when each of them does. -/
theorem retractAll_ends {fuel : Nat} {ids : List KnowledgeId}
    (ends : ∀ id ∈ ids, ∀ reached, OnlyRetracts system reached → retractBelief fuel id reached ≠ none)
    (only : OnlyRetracts system reached) : retractAll fuel ids reached ≠ none := by
  induction ids generalizing reached with
  | nil => exact nofun
  | cons first rest hypothesis =>
      rw [retractAll, List.foldlM_cons]
      obtain ⟨ended, one⟩ := Option.ne_none_iff_exists'.mp (ends first List.mem_cons_self reached only)
      rw [one]
      have onward := only.trans (retractBelief_cascades one).1.only
      exact hypothesis (fun id member => ends id (List.mem_cons_of_mem _ member)) onward

theorem mem_dependents_mark {other : KnowledgeId} (only : OnlyRetracts system reached) :
    id ∈ (reached.mark other .retracted).dependents premise ↔ system.Depends id premise := by
  rw [mem_dependents]
  exact (only.trans (.mark reached other)).depends_iff

/-- The retraction goes round a cycle with any fuel. -/
theorem retractBelief_of_cycle (fuel : Nat) (cycle : Relation.TransGen system.Depends id id)
    (only : OnlyRetracts system reached) : retractBelief fuel id reached = none := by
  induction fuel generalizing id reached with
  | zero => rfl
  | succ fuel hypothesis =>
      obtain ⟨dependent, depends, onward⟩ := dependent_on_cycle cycle
      rw [retractBelief_known (only.mem_iff.mpr (mem_of_cycle cycle)),
        retractAll_endless ((mem_dependents_mark only).mpr depends) (fun _ => hypothesis onward)
          (only.trans (.mark reached id))]
      rfl

/-- Without a cycle the retraction ends with every fuel that is large enough. -/
theorem retractBelief_eventually (acyclic : system.Acyclic) (id : { id : KnowledgeId // id ∈ system.beliefs }) :
    ∀ᶠ fuel in Filter.atTop, ∀ reached, OnlyRetracts system reached → retractBelief fuel id reached ≠ none := by
  induction id using (wellFounded_dependents acyclic).induction with
  | _ id hypothesis =>
      have dependents : ∀ᶠ fuel in Filter.atTop, ∀ dependent ∈ { dependent | dependent ∈ system.dependents id },
          ∀ reached, OnlyRetracts system reached → retractBelief fuel dependent reached ≠ none := by
        rw [Filter.eventually_all_finite (List.finite_toSet _)]
        intro dependent member
        have depends : system.Depends dependent id := mem_dependents.mp member
        exact hypothesis ⟨dependent, mem_of_depends depends⟩ (Relation.TransGen.single depends)
      apply eventually_succ _ dependents
      intro fuel all reached only
      rw [retractBelief_known (only.mem_iff.mpr id.property)]
      intro endless
      apply retractAll_ends _ (only.trans (.mark reached id)) (Option.map_eq_none_iff.mp endless)
      intro dependent member
      exact all dependent (mem_dependents.mpr ((mem_dependents_mark only).mp member))

end Retract

/-- Both recursions end for every id exactly when the premises form no cycle. -/
theorem ends_iff : (∀ id, system.RetractEnds id ∧ system.WhyEnds id) ↔ system.Acyclic := by
  constructor
  · intro ends id cycle
    obtain ⟨fuel, finished⟩ := (ends id).2
    exact finished (why_of_cycle fuel cycle)
  · intro acyclic id
    by_cases known : id ∈ system.beliefs
    · obtain ⟨fuel, retracts⟩ := (retractBelief_eventually acyclic ⟨id, known⟩).exists
      exact ⟨⟨fuel, retracts system (.refl system)⟩, (why_eventually acyclic ⟨id, known⟩).exists⟩
    · have absent : system.beliefs[id]? = none := by
        rw [Std.ExtTreeMap.mem_iff_isSome_getElem?, Option.not_isSome_iff_eq_none] at known
        exact known
      refine ⟨⟨1, by rw [retractBelief_unknown known]; exact nofun⟩, 1, ?_⟩
      unfold why
      rw [absent]
      exact nofun

end Recursions

section Runs

variable [Binary64] [Unicode] {system next : TruthMaintenanceSystem} {inference : Inference} {id premise : KnowledgeId}

/-- None of the premises is the new id or rests on it. -/
def Orderly (system : TruthMaintenanceSystem) : Operation → Prop
  | .inferBelief inference => ∀ premise ∈ inference.justification.premises,
      ¬Relation.ReflTransGen system.Depends premise system.nextId
  | _ => True

/-- An inference adds the premises of the new belief. -/
theorem depends_infer_iff : (system.infer inference).Depends id premise ↔
    system.Depends id premise ∨ id = system.nextId ∧ premise ∈ inference.justification.premises := by
  unfold Depends infer
  rw [inferBelief_getElem?]
  by_cases fresh : id = system.nextId
  · rw [if_pos fresh, fresh, not_mem_nextId]
    constructor
    · intro depends
      obtain ⟨belief, same, named⟩ := depends
      obtain rfl := Option.some.inj same
      exact Or.inr ⟨rfl, named⟩
    · intro depends
      rcases depends with absent | ⟨_, named⟩
      · obtain ⟨_, absent, _⟩ := absent
        contradiction
      · exact ⟨_, rfl, named⟩
  · rw [if_neg fresh]
    by_cases conflicts : id ∈ system.conflicting inference.proposition
    · obtain ⟨existing, present, _, _⟩ := mem_conflicting.mp conflicts
      rw [if_pos conflicts, present, Option.map_some]
      constructor
      · intro depends
        obtain ⟨belief, same, named⟩ := depends
        obtain rfl := Option.some.inj same
        exact Or.inl ⟨existing, rfl, named⟩
      · intro depends
        rcases depends with ⟨belief, same, named⟩ | ⟨same, _⟩
        · obtain rfl := Option.some.inj same
          exact ⟨_, rfl, named⟩
        · contradiction
    · rw [if_neg conflicts]
      exact ⟨Or.inl, fun depends => depends.resolve_right fun both => fresh both.1⟩

/-- A chain of premises that ends at the new id was there before. -/
theorem chain_to_nextId (chain : Relation.ReflTransGen (system.infer inference).Depends id system.nextId) :
    Relation.ReflTransGen system.Depends id system.nextId := by
  induction chain using Relation.ReflTransGen.head_induction_on with
  | refl => exact .refl
  | head depends _ hypothesis =>
      rcases depends_infer_iff.mp depends with before | ⟨rfl, _⟩
      · exact .head before hypothesis
      · exact .refl

/-- A chain of premises after an inference was there before or passes through the new belief. -/
theorem chain_cases (chain : Relation.TransGen (system.infer inference).Depends id premise) :
    Relation.TransGen system.Depends id premise ∨ ∃ named ∈ inference.justification.premises,
      Relation.ReflTransGen (system.infer inference).Depends id system.nextId ∧
        Relation.ReflTransGen (system.infer inference).Depends named premise := by
  induction chain with
  | single depends =>
      rcases depends_infer_iff.mp depends with before | ⟨rfl, named⟩
      · exact Or.inl (.single before)
      · exact Or.inr ⟨_, named, .refl, .refl⟩
  | tail earlier depends hypothesis =>
      rcases depends_infer_iff.mp depends with before | ⟨rfl, named⟩
      · rcases hypothesis with old | ⟨other, named, through, onward⟩
        · exact Or.inl (old.tail before)
        · exact Or.inr ⟨other, named, through, onward.tail depends⟩
      · exact Or.inr ⟨_, named, earlier.to_reflTransGen, .refl⟩

theorem acyclic_infer_iff (acyclic : system.Acyclic) :
    (system.infer inference).Acyclic ↔ system.Orderly (.inferBelief inference) := by
  have grows : ∀ {id premise}, system.Depends id premise → (system.infer inference).Depends id premise :=
    fun depends => depends_infer_iff.mpr (Or.inl depends)
  constructor
  · intro after premise named chain
    have first : (system.infer inference).Depends system.nextId premise := depends_infer_iff.mpr (Or.inr ⟨rfl, named⟩)
    exact after _ (Relation.TransGen.head' first (Relation.ReflTransGen.mono (fun _ _ => grows) _ _ chain))
  · intro orderly id cycle
    rcases chain_cases cycle with before | ⟨premise, named, through, onward⟩
    · exact acyclic id before
    · exact orderly premise named (chain_to_nextId (onward.trans through))

omit [Unicode] in
theorem OnlyRetracts.acyclic (only : OnlyRetracts system next) (acyclic : system.Acyclic) : next.Acyclic := by
  intro id cycle
  exact acyclic id (Relation.TransGen.mono (fun _ _ => only.depends_iff.mp) _ _ cycle)

/-- Both recursions end for every id in every state of a run exactly when each of its inferences is orderly. -/
theorem recursions_end_iff {start : TruthMaintenanceSystem} (starts : start = new ∨ start = default)
    (operations : List Operation) :
    (∀ done reached, done <+: operations → start.Runs done reached →
      ∀ id, reached.RetractEnds id ∧ reached.WhyEnds id) ↔
      ∀ done operation middle, done ++ [operation] <+: operations → start.Runs done middle →
        middle.Orderly operation := by
  constructor
  · intro always done operation middle within runs
    cases operation with
    | inferBelief inference =>
        have before := always done middle ((List.prefix_append _ _).trans within) runs
        have after := always _ _ within (runs.append ⟨middle.infer inference, rfl, rfl⟩)
        exact (acyclic_infer_iff (ends_iff.mp before)).mp (ends_iff.mp after)
    | _ => trivial
  · intro orderly done reached within runs
    rw [ends_iff]
    have empty : start.beliefs = ∅ := by rcases starts with rfl | rfl <;> rfl
    have acyclic : start.Acyclic := by
      intro id cycle
      have known := mem_of_cycle cycle
      rw [empty] at known
      exact absurd known Std.ExtTreeMap.not_mem_empty
    apply runs.preserves _ acyclic fun earlier operation middle inside => orderly earlier operation middle (inside.trans within)
    intro system operation next holds allowed performs
    rcases performs.cases with same | ⟨inference, rfl, rfl⟩ | cascades
    · unfold Acyclic Depends
      rw [same]
      exact holds
    · exact (acyclic_infer_iff holds).mpr allowed
    · exact cascades.only.acyclic holds

end Runs

end TruthMaintenanceSystem

section Samples

open TruthMaintenanceSystem

theorem recursions_end_iff_sample :
    letI := Binary64.exact
    letI := Unicode.ascii
    ∃ reached, new.Runs [.inferBelief (assumed "rain".toList ⟨(1 : ℚ)⟩ 1), .retractBelief 1] reached ∧
      reached.RetractEnds 1 ∧ reached.WhyEnds 1 := by
  let := Binary64.exact
  let := Unicode.ascii
  have always := (recursions_end_iff (Or.inl rfl)
    [.inferBelief (assumed "rain".toList ⟨(1 : ℚ)⟩ 1), .retractBelief 1]).mpr <| by
      intro done operation middle within _
      have member := within.subset (List.mem_append_right done (List.mem_singleton_self operation))
      rcases List.mem_pair.mp member with rfl | rfl
      · exact nofun
      · trivial
  refine ⟨_, ⟨_, rfl, _, ⟨2, .ok (), rfl⟩, rfl⟩, ?_⟩
  exact always _ _ (List.prefix_refl _) ⟨_, rfl, _, ⟨2, .ok (), rfl⟩, rfl⟩ 1

/-- The first belief names its own id, and neither recursion over it ends. -/
theorem belief_on_itself_never_ends :
    letI := Binary64.exact
    letI := Unicode.ascii
    ∃ reached, new.Runs [.inferBelief { assumed "rain".toList ⟨(1 : ℚ)⟩ 1 with justification := ⟨[], [1], [], []⟩ }]
      reached ∧ ¬reached.RetractEnds 1 ∧ ¬reached.WhyEnds 1 := by
  let := Binary64.exact
  let := Unicode.ascii
  refine ⟨_, ⟨_, rfl, rfl⟩, ?_⟩
  have cycle : Relation.TransGen
      (new.infer { assumed "rain".toList ⟨(1 : ℚ)⟩ 1 with justification := ⟨[], [1], [], []⟩ }).Depends 1 1 :=
    .single ⟨_, rfl, List.mem_singleton_self 1⟩
  constructor
  · intro ends
    obtain ⟨fuel, finished⟩ := ends
    exact finished (retractBelief_of_cycle fuel cycle (.refl _))
  · intro ends
    obtain ⟨fuel, finished⟩ := ends
    exact finished (why_of_cycle fuel cycle)

end Samples

end Temnion.Epistemic
