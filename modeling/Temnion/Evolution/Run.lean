import Temnion.Library.Runs
import Temnion.Evolution.Engine

/-
This file follows the engine through a run of operations.
-/

namespace Temnion.Evolution

open OrderedMap

/-- An evaluation also gets a workload, which the engine does not read. -/
inductive Operation (Score : Type) where
  | setConfig (config : EvolutionConfig Score)
  | registerIncumbent (kind : CandidateKind) (targetDomain : Text) (payload : List UInt8)
      (initialFitness : FitnessMetrics Score)
  | proposeCandidate (kind : CandidateKind) (targetDomain : Text) (lineage : CandidateLineage) (payload : List UInt8)
  | evaluateCandidate (candidateId : CandidateId) (budget : IsolationBudget) (simulatedMetrics : FitnessMetrics Score)
  | promoteCandidate (candidateId : CandidateId) (approver : Option Text) (timestampMs : UInt64)
  | rollback (targetDomain reason : Text)

namespace EvolutionEngine

section Entries

variable {Score : Type} {engine : EvolutionEngine Score} {id other : CandidateId} {domain : Text}
variable {record : CandidateRecord Score}

/-- The prior incumbents of a domain, the last one first. -/
def stack (engine : EvolutionEngine Score) (domain : Text) : List (CandidateRecord Score) :=
  (engine.priorIncumbents[domain]?).getD []

theorem enroll_candidates (named : record.id = engine.nextCandidateId) (id : CandidateId) :
    (engine.enroll record named).candidates[id]? =
      if engine.nextCandidateId = id then some record else engine.candidates[id]? :=
  insert_getElem? _ _ _ _

theorem amend_candidates {change : CandidateRecord Score → CandidateRecord Score}
    (keeps : ∀ record, (change record).id = record.id) (other : CandidateId) :
    (engine.amend id change keeps).candidates[other]? =
      if id = other then (engine.candidates[id]?).map change else engine.candidates[other]? :=
  modify_getElem? _ _ _ _

theorem install_incumbents (record : CandidateRecord Score) (domain : Text) :
    (engine.install record).incumbents[domain]? =
      if record.targetDomain = domain then some record else engine.incumbents[domain]? := by
  unfold install
  dsimp only
  rw [Std.ExtTreeMap.getElem?_insert]
  simp only [compare_eq_iff_eq]

theorem install_stack (record : CandidateRecord Score) (domain : Text) :
    (engine.install record).stack domain =
      if record.targetDomain = domain then (engine.incumbents[domain]?).toList ++ engine.stack domain
      else engine.stack domain := by
  unfold install stack
  dsimp only
  by_cases same : record.targetDomain = domain
  · rw [if_pos same, same]
    cases engine.incumbents[domain]? with
    | none => rfl
    | some prior =>
        dsimp only
        rw [entry_getElem?, if_pos rfl]
        rfl
  · rw [if_neg same]
    cases engine.incumbents[record.targetDomain]? with
    | none => rfl
    | some prior =>
        dsimp only
        rw [entry_getElem?, if_neg same]

/-- The next id is not taken. -/
theorem next_absent (engine : EvolutionEngine Score) : engine.candidates[engine.nextCandidateId]? = none := by
  cases found : engine.candidates[engine.nextCandidateId]? with
  | none => rfl
  | some record => exact absurd (engine.registered _ record found).2 (Nat.lt_irrefl _)

end Entries

section Steps

variable {Score : Type} [NetBenefit Score]

def step (engine : EvolutionEngine Score) : Operation Score → EvolutionEngine Score
  | .setConfig config => engine.setConfig config
  | .registerIncumbent kind targetDomain payload initialFitness =>
      (engine.registerIncumbent kind targetDomain payload initialFitness).2
  | .proposeCandidate kind targetDomain lineage payload =>
      (engine.proposeCandidate kind targetDomain lineage payload).2
  | .evaluateCandidate candidateId budget simulatedMetrics =>
      (engine.evaluateCandidate candidateId budget simulatedMetrics).2
  | .promoteCandidate candidateId approver timestampMs =>
      (engine.promoteCandidate candidateId approver timestampMs).2
  | .rollback targetDomain reason => (engine.rollback targetDomain reason).2

def run (engine : EvolutionEngine Score) (operations : List (Operation Score)) : EvolutionEngine Score :=
  operations.foldl step engine

/-- The budget is within the bounds of the constitution. -/
def Bounded (budget : IsolationBudget) : Prop := validateAction (.executeShadowEvaluation budget) = .ok ()

/-- The configuration and the approver satisfy the constitution. -/
def Approved (engine : EvolutionEngine Score) (approver : Option Text) : Prop :=
  engine.config.manualPromotionRequired = true ∧ approver.isSome = true

/-- What an operation can do to the records. -/
inductive Transition (engine : EvolutionEngine Score) : Operation Score → EvolutionEngine Score → Prop where
  | kept {operation : Operation Score} {next : EvolutionEngine Score}
      (incumbents : next.incumbents = engine.incumbents) (candidates : next.candidates = engine.candidates)
      (priorIncumbents : next.priorIncumbents = engine.priorIncumbents) : Transition engine operation next
  | registered (kind : CandidateKind) (domain : Text) (payload : List UInt8) (fitness : FitnessMetrics Score) :
      Transition engine (.registerIncumbent kind domain payload fitness)
        { engine.enroll (engine.baselineRecord kind domain payload fitness) (engine.baselineRecord_id _ _ _ _) with
          incumbents := engine.incumbents.insert domain (engine.baselineRecord kind domain payload fitness) }
  | proposed (kind : CandidateKind) (domain : Text) (lineage : CandidateLineage) (payload : List UInt8) :
      Transition engine (.proposeCandidate kind domain lineage payload)
        (engine.enroll (engine.proposedRecord kind domain lineage payload) (engine.proposedRecord_id _ _ _ _))
  | evaluated {id : CandidateId} {budget : IsolationBudget} {candidate : CandidateRecord Score}
      (metrics : FitnessMetrics Score) (bounded : Bounded budget) (found : engine.candidates[id]? = some candidate) :
      Transition engine (.evaluateCandidate id budget metrics)
        (engine.amend id (setEvaluated (engine.scored candidate metrics)) (setEvaluated_id _))
  | rejected {id : CandidateId} {approver : Option Text} {candidate : CandidateRecord Score}
      (timestampMs : UInt64) (reason : Text) (approved : engine.Approved approver)
      (found : engine.candidates[id]? = some candidate) :
      Transition engine (.promoteCandidate id approver timestampMs)
        (engine.amend id (setStatus (.rejected reason)) (setStatus_id _))
  | promoted {id : CandidateId} {approver : Option Text} {candidate : CandidateRecord Score}
      {fitness : FitnessMetrics Score} (timestampMs : UInt64) (approved : engine.Approved approver)
      (found : engine.candidates[id]? = some candidate) (latest : candidate.latestFitness = some fitness)
      (enough : engine.config.minNetBenefitThreshold ≤ fitness.netBenefitScore) :
      Transition engine (.promoteCandidate id approver timestampMs)
        ((engine.amend id (setPromoted timestampMs) (setPromoted_id _)).install (setPromoted timestampMs candidate))
  | restored {domain : Text} {previous : CandidateRecord Score} {rest : List (CandidateRecord Score)} (reason : Text)
      (stacked : engine.priorIncumbents[domain]? = some (previous :: rest))
      (vacant : engine.incumbents[domain]? = none) :
      Transition engine (.rollback domain reason)
        { engine with
          incumbents := engine.incumbents.insert domain previous
          priorIncumbents := engine.priorIncumbents.insert domain rest }
  | rolledBack {domain : Text} {previous current : CandidateRecord Score} {rest : List (CandidateRecord Score)}
      (reason : Text) (stacked : engine.priorIncumbents[domain]? = some (previous :: rest))
      (active : engine.incumbents[domain]? = some current) :
      Transition engine (.rollback domain reason)
        { engine.amend current.id (setStatus (.rolledBack reason)) (setStatus_id _) with
          incumbents := engine.incumbents.insert domain previous
          priorIncumbents := engine.priorIncumbents.insert domain rest }

/-- Every step is one of these transitions. -/
theorem step_transition (engine : EvolutionEngine Score) (operation : Operation Score) :
    Transition engine operation (engine.step operation) := by
  cases operation with
  | setConfig config => exact .kept rfl rfl rfl
  | registerIncumbent kind domain payload fitness => exact .registered kind domain payload fitness
  | proposeCandidate kind domain lineage payload =>
      rw [step, proposeCandidate]
      split
      · exact .kept rfl rfl rfl
      · split
        · exact .kept rfl rfl rfl
        · exact .proposed kind domain lineage payload
  | evaluateCandidate id budget metrics =>
      rw [step, evaluateCandidate]
      cases bounded : validateAction (.executeShadowEvaluation budget) with
      | error violation => exact .kept rfl rfl rfl
      | ok _ =>
          cases found : engine.candidates[id]? with
          | none => exact .kept rfl rfl rfl
          | some candidate => exact .evaluated metrics bounded found
  | promoteCandidate id approver timestampMs =>
      rw [step, promoteCandidate]
      cases valid : validateAction (.promoteCandidate id engine.config.manualPromotionRequired approver) with
      | error violation => exact .kept rfl rfl rfl
      | ok _ =>
          have approved : engine.Approved approver := validateAction_promoteCandidate.mp valid
          cases found : engine.candidates[id]? with
          | none => exact .kept rfl rfl rfl
          | some candidate =>
              dsimp only
              cases latest : candidate.latestFitness with
              | none => exact .kept rfl rfl rfl
              | some fitness =>
                  dsimp only
                  split
                  · exact .rejected timestampMs _ approved found
                  · next enough => exact .promoted timestampMs approved found latest (not_lt.mp enough)
  | rollback domain reason =>
      rw [step, rollback]
      cases stacked : engine.priorIncumbents[domain]? with
      | none => exact .kept rfl rfl rfl
      | some priors =>
          cases priors with
          | nil => exact .kept rfl rfl rfl
          | cons previous rest =>
              cases active : engine.incumbents[domain]? with
              | none => exact .restored reason stacked active
              | some current => exact .rolledBack reason stacked active

section Evaluate

variable {engine : EvolutionEngine Score} {id : CandidateId} {budget : IsolationBudget} {metrics : FitnessMetrics Score}

theorem evaluateCandidate_refused {violation : ConstitutionalViolation}
    (refused : validateAction (.executeShadowEvaluation budget) = .error violation) :
    engine.evaluateCandidate id budget metrics = (.error violation, engine) := by
  rw [evaluateCandidate, refused]

theorem evaluateCandidate_absent (bounded : Bounded budget) (absent : engine.candidates[id]? = none) :
    engine.evaluateCandidate id budget metrics =
      (.error (.missingProvenanceLineage "Candidate not found".toList), engine) := by
  rw [evaluateCandidate, bounded]
  dsimp only
  rw [absent]

theorem evaluateCandidate_found {candidate : CandidateRecord Score} (bounded : Bounded budget)
    (found : engine.candidates[id]? = some candidate) :
    engine.evaluateCandidate id budget metrics = (.ok (engine.scored candidate metrics),
      engine.amend id (setEvaluated (engine.scored candidate metrics)) (setEvaluated_id _)) := by
  rw [evaluateCandidate, bounded]
  dsimp only
  rw [found]

end Evaluate

end Steps

end EvolutionEngine

end Temnion.Evolution
