import Temnion.Library.OrderedMap
import Temnion.Library.Text

/-
This file models the constitution and the engine that evaluates, promotes and rolls back candidates.
-/

namespace Temnion.Evolution

open OrderedMap

/-- The source counts in sixty-four bits. Exhausting them is left out. -/
abbrev CandidateId := Nat

/-- The names of domains are in the order of their characters. -/
instance transCmpDomain : Std.TransCmp (@compare Text LinearOrder.toOrd) := transCmp

inductive CandidateKind where
  | codec
  | layout
  | index
  | checkpointPolicy
  | prefetchPolicy
  | shardPlacement
  | knowledgeRule
  | retrievalPolicy
  | transformation
  | modelSkill
  | mutationPolicy
  deriving DecidableEq, Repr

inductive CandidateStatus where
  | proposed
  | sandboxed
  | evaluating
  | promoted
  | rejected (reason : Text)
  | rolledBack (reason : Text)
  deriving DecidableEq, Repr

structure CandidateLineage where
  candidateId : CandidateId
  parentCandidateId : Option CandidateId
  targetDomain : Text
  createdAtMs : UInt64
  mutationOperator : Text
  rationale : Text
  deriving DecidableEq

structure IsolationBudget where
  maxCpuSteps : UInt64
  maxMemoryBytes : UInt64
  timeoutMs : UInt64
  deriving DecidableEq

def IsolationBudget.default : IsolationBudget := ⟨1000000, 64 * 1024 * 1024, 5000⟩

/-- What is measured of a candidate. -/
structure Measurements (Score : Type) where
  latencyP50Us : UInt64
  latencyP99Us : UInt64
  memoryBytes : UInt64
  storageBytes : UInt64
  cpuCycles : UInt64
  readAmplification : Score
  writeAmplification : Score
  backgroundCostScore : Score
  deriving DecidableEq

structure FitnessMetrics (Score : Type) extends Measurements Score where
  netBenefitScore : Score
  deriving DecidableEq

/-- The floating-point numbers of the source as an ordered type. The comparison of two measurements does not read a score.
The last field prints a number with three decimals. -/
class NetBenefit (Score : Type) extends LinearOrder Score where
  computeNetBenefit : Measurements Score → Measurements Score → Score
  formatted : Score → Text

structure CandidateRecord (Score : Type) where
  id : CandidateId
  kind : CandidateKind
  targetDomain : Text
  lineage : CandidateLineage
  status : CandidateStatus
  payload : List UInt8
  latestFitness : Option (FitnessMetrics Score)
  promotedAtMs : Option UInt64
  deriving DecidableEq

structure EvolutionConfig (Score : Type) where
  enabled : Bool
  manualPromotionRequired : Bool
  gateCPassed : Bool
  minNetBenefitThreshold : Score

section Constitution

inductive ConstitutionalAxiom where
  | evidenceImmutability
  | provenancePreservation
  | nonSelfModification
  | mandatoryRollback
  | resourceBoundedness
  | gatePrerequisite
  | exactMemoryPrimacy
  | readerCompatibility
  deriving DecidableEq, Repr

def ConstitutionalAxiom.display : ConstitutionalAxiom → Text
  | evidenceImmutability => "EvidenceImmutability".toList
  | provenancePreservation => "ProvenancePreservation".toList
  | nonSelfModification => "NonSelfModification".toList
  | mandatoryRollback => "MandatoryRollback".toList
  | resourceBoundedness => "ResourceBoundedness".toList
  | gatePrerequisite => "GatePrerequisite".toList
  | exactMemoryPrimacy => "ExactMemoryPrimacy".toList
  | readerCompatibility => "ReaderCompatibility".toList

inductive ConstitutionalViolation where
  | evidenceMutationAttempted (message : Text)
  | constitutionSelfModificationAttempted (message : Text)
  | unauthorizedAutonomousPromotion (message : Text)
  | gateCriteriaNotMet (gate detail : Text)
  | resourceLimitExceeded (limit : Text) (requested : UInt64)
  | missingProvenanceLineage (message : Text)
  | regressionWithoutRollback (message : Text)
  | incompatibleFormat (message : Text)
  deriving DecidableEq

inductive ProposedAction where
  | mutateStorageEvidence (eventId : UInt64)
  | mutateConstitution (targetAxiom : ConstitutionalAxiom)
  | promoteCandidate (candidateId : CandidateId) (manual : Bool) (approver : Option Text)
  | executeShadowEvaluation (budget : IsolationBudget)
  | mutateMutationPolicy (gateCPassed : Bool)
  | querySemanticProjection (queryText : Text) (exactBypass : Bool)

def validateAction : ProposedAction → Except ConstitutionalViolation Unit
  | .mutateStorageEvidence eventId =>
      .error (.evidenceMutationAttempted ("Cannot modify or delete authoritative event ".toList ++
        Text.decimal eventId.toNat))
  | .mutateConstitution targetAxiom =>
      .error (.constitutionSelfModificationAttempted ("Axiom ".toList ++ targetAxiom.display ++
        " cannot be altered at runtime".toList))
  | .promoteCandidate candidateId manual approver =>
      if !manual || approver.isNone then
        .error (.unauthorizedAutonomousPromotion ("Candidate CandidateId(".toList ++ Text.decimal candidateId ++
          ") requires explicit human manual approval".toList))
      else .ok ()
  | .executeShadowEvaluation budget =>
      if budget.maxCpuSteps = 0 ∨ 10000000 < budget.maxCpuSteps then
        .error (.resourceLimitExceeded "max_cpu_steps".toList budget.maxCpuSteps)
      else if budget.maxMemoryBytes = 0 ∨ 512 * 1024 * 1024 < budget.maxMemoryBytes then
        .error (.resourceLimitExceeded "max_memory_bytes".toList budget.maxMemoryBytes)
      else .ok ()
  | .mutateMutationPolicy gateCPassed =>
      if gateCPassed then .ok ()
      else .error (.gateCriteriaNotMet "Gate C".toList
        "Meta-evolution is prohibited until Gate C demonstrates net benefit".toList)
  | .querySemanticProjection _ exactBypass =>
      if exactBypass then
        .error (.evidenceMutationAttempted
          "Semantic associative queries cannot bypass or overwrite exact storage memory".toList)
      else .ok ()

theorem validateAction_promoteCandidate {id : CandidateId} {manual : Bool} {approver : Option Text} :
    validateAction (.promoteCandidate id manual approver) = .ok () ↔ manual = true ∧ approver.isSome = true := by
  cases manual <;> cases approver <;> simp [validateAction]

end Constitution

/-- Every record of the registry stands under its own id, which was allocated before. The top of a stack of prior
incumbents stands first. -/
structure EvolutionEngine (Score : Type) where
  config : EvolutionConfig Score
  nextCandidateId : CandidateId
  incumbents : OrderedMap Text (CandidateRecord Score)
  candidates : OrderedMap CandidateId (CandidateRecord Score)
  priorIncumbents : OrderedMap Text (List (CandidateRecord Score))
  registered : ∀ (id : CandidateId) (record : CandidateRecord Score), candidates[id]? = some record →
    record.id = id ∧ id < nextCandidateId

namespace EvolutionEngine

section Registry

variable {Score : Type}

def new (config : EvolutionConfig Score) : EvolutionEngine Score where
  config := config
  nextCandidateId := 1
  incumbents := ∅
  candidates := ∅
  priorIncumbents := ∅
  registered := by simp

def setConfig (engine : EvolutionEngine Score) (config : EvolutionConfig Score) : EvolutionEngine Score :=
  { engine with config := config }

/-- A new record enters the registry under the next id. -/
def enroll (engine : EvolutionEngine Score) (record : CandidateRecord Score) (named : record.id = engine.nextCandidateId) :
    EvolutionEngine Score :=
  { engine with
    nextCandidateId := engine.nextCandidateId + 1
    candidates := engine.candidates.insert engine.nextCandidateId record
    registered := by
      intro id other found
      rw [insert_getElem?] at found
      split at found
      · next here =>
          rw [← Option.some.inj found, named]
          exact ⟨here, here ▸ Nat.lt_succ_self _⟩
      · exact ⟨(engine.registered id other found).1, Nat.lt_succ_of_lt (engine.registered id other found).2⟩ }

/-- The record of the registry with this id changes. Its copies elsewhere stay as they are. -/
def amend (engine : EvolutionEngine Score) (id : CandidateId) (change : CandidateRecord Score → CandidateRecord Score)
    (keeps : ∀ record, (change record).id = record.id) : EvolutionEngine Score :=
  { engine with
    candidates := engine.candidates.modify id change
    registered := by
      intro other record found
      rw [modify_getElem?] at found
      split at found
      · next here =>
          obtain ⟨before, present, rfl⟩ := Option.map_eq_some_iff.mp found
          obtain rfl := here
          exact ⟨(keeps before).trans (engine.registered id before present).1, (engine.registered id before present).2⟩
      · exact engine.registered other record found }

def setStatus (status : CandidateStatus) (record : CandidateRecord Score) : CandidateRecord Score :=
  { record with status := status }

def setEvaluated (metrics : FitnessMetrics Score) (record : CandidateRecord Score) : CandidateRecord Score :=
  { record with latestFitness := some metrics, status := .sandboxed }

def setPromoted (timestampMs : UInt64) (record : CandidateRecord Score) : CandidateRecord Score :=
  { record with status := .promoted, promotedAtMs := some timestampMs }

@[simp] theorem setStatus_id (status : CandidateStatus) (record : CandidateRecord Score) :
    (setStatus status record).id = record.id := rfl

@[simp] theorem setEvaluated_id (metrics : FitnessMetrics Score) (record : CandidateRecord Score) :
    (setEvaluated metrics record).id = record.id := rfl

@[simp] theorem setPromoted_id (timestampMs : UInt64) (record : CandidateRecord Score) :
    (setPromoted timestampMs record).id = record.id := rfl

/-- The record becomes the incumbent of its domain, and the incumbent before it goes on the stack. -/
def install (engine : EvolutionEngine Score) (record : CandidateRecord Score) : EvolutionEngine Score :=
  { engine with
    incumbents := engine.incumbents.insert record.targetDomain record
    priorIncumbents :=
      match engine.incumbents[record.targetDomain]? with
      | none => engine.priorIncumbents
      | some prior => engine.priorIncumbents.entry record.targetDomain [] (prior :: ·) }

end Registry

section Operations

variable {Score : Type}

def baselineRecord (engine : EvolutionEngine Score) (kind : CandidateKind) (targetDomain : Text) (payload : List UInt8)
    (initialFitness : FitnessMetrics Score) : CandidateRecord Score where
  id := engine.nextCandidateId
  kind := kind
  targetDomain := targetDomain
  lineage := ⟨engine.nextCandidateId, none, targetDomain, 1000, "StaticBaseline".toList,
    "Default static incumbent configuration".toList⟩
  status := .promoted
  payload := payload
  latestFitness := some initialFitness
  promotedAtMs := some 1000

theorem baselineRecord_id (engine : EvolutionEngine Score) (kind : CandidateKind) (targetDomain : Text)
    (payload : List UInt8) (initialFitness : FitnessMetrics Score) :
    (engine.baselineRecord kind targetDomain payload initialFitness).id = engine.nextCandidateId := rfl

/-- An incumbent that is replaced in this way does not go on the stack. -/
def registerIncumbent (engine : EvolutionEngine Score) (kind : CandidateKind) (targetDomain : Text)
    (payload : List UInt8) (initialFitness : FitnessMetrics Score) : CandidateId × EvolutionEngine Score :=
  let record := engine.baselineRecord kind targetDomain payload initialFitness
  let enrolled := engine.enroll record (engine.baselineRecord_id kind targetDomain payload initialFitness)
  (record.id, { enrolled with incumbents := engine.incumbents.insert targetDomain record })

def proposedRecord (engine : EvolutionEngine Score) (kind : CandidateKind) (targetDomain : Text)
    (lineage : CandidateLineage) (payload : List UInt8) : CandidateRecord Score where
  id := engine.nextCandidateId
  kind := kind
  targetDomain := targetDomain
  lineage := { lineage with candidateId := engine.nextCandidateId }
  status := .proposed
  payload := payload
  latestFitness := none
  promotedAtMs := none

theorem proposedRecord_id (engine : EvolutionEngine Score) (kind : CandidateKind) (targetDomain : Text)
    (lineage : CandidateLineage) (payload : List UInt8) :
    (engine.proposedRecord kind targetDomain lineage payload).id = engine.nextCandidateId := rfl

def proposeCandidate (engine : EvolutionEngine Score) (kind : CandidateKind) (targetDomain : Text)
    (lineage : CandidateLineage) (payload : List UInt8) :
    Except ConstitutionalViolation CandidateId × EvolutionEngine Score :=
  if !engine.config.enabled then
    (.error (.gateCriteriaNotMet "Gate B/C".toList
      "Evolution is disabled by default until prerequisite gates pass".toList), engine)
  else if lineage.rationale = [] ∨ lineage.mutationOperator = [] then
    (.error (.missingProvenanceLineage
      "Candidates require non-empty rationale and mutation operator lineage".toList), engine)
  else
    let record := engine.proposedRecord kind targetDomain lineage payload
    (.ok record.id, engine.enroll record (engine.proposedRecord_id kind targetDomain lineage payload))

/-- The recorded fitness of the incumbent of a domain. -/
def baselineOf (engine : EvolutionEngine Score) (targetDomain : Text) : Option (FitnessMetrics Score) :=
  (engine.incumbents[targetDomain]?).bind (·.latestFitness)

/-- The record on top of the stack becomes the incumbent. The one before it is dropped, and only its record in the registry
keeps the status. -/
def rollback (engine : EvolutionEngine Score) (targetDomain reason : Text) :
    Except ConstitutionalViolation CandidateId × EvolutionEngine Score :=
  match engine.priorIncumbents[targetDomain]? with
  | none =>
      (.error (.regressionWithoutRollback ("No prior incumbent available to roll back to for domain ".toList ++
        targetDomain)), engine)
  | some [] =>
      (.error (.regressionWithoutRollback ("Prior incumbent stack empty for domain ".toList ++ targetDomain)), engine)
  | some (previous :: rest) =>
      let popped := { engine with
        incumbents := engine.incumbents.insert targetDomain previous
        priorIncumbents := engine.priorIncumbents.insert targetDomain rest }
      (.ok previous.id,
        match engine.incumbents[targetDomain]? with
        | none => popped
        | some current => popped.amend current.id (setStatus (.rolledBack reason)) (setStatus_id _))

variable [NetBenefit Score]

/-- The metrics with the net benefit over the incumbent, when there is one to compare with. -/
def scored (engine : EvolutionEngine Score) (candidate : CandidateRecord Score) (metrics : FitnessMetrics Score) :
    FitnessMetrics Score :=
  match engine.baselineOf candidate.targetDomain with
  | none => metrics
  | some baseline =>
      { metrics with
        netBenefitScore := NetBenefit.computeNetBenefit metrics.toMeasurements baseline.toMeasurements }

def evaluateCandidate (engine : EvolutionEngine Score) (candidateId : CandidateId) (budget : IsolationBudget)
    (simulatedMetrics : FitnessMetrics Score) :
    Except ConstitutionalViolation (FitnessMetrics Score) × EvolutionEngine Score :=
  match validateAction (.executeShadowEvaluation budget) with
  | .error violation => (.error violation, engine)
  | .ok () =>
      match engine.candidates[candidateId]? with
      | none => (.error (.missingProvenanceLineage "Candidate not found".toList), engine)
      | some candidate =>
          let computedMetrics := engine.scored candidate simulatedMetrics
          (.ok computedMetrics, engine.amend candidateId (setEvaluated computedMetrics) (setEvaluated_id _))

def belowThreshold (score threshold : Score) : Text :=
  "Net benefit ".toList ++ NetBenefit.formatted score ++ " is below threshold ".toList ++
    NetBenefit.formatted threshold

def promoteCandidate (engine : EvolutionEngine Score) (candidateId : CandidateId) (approver : Option Text)
    (timestampMs : UInt64) : Except ConstitutionalViolation Unit × EvolutionEngine Score :=
  match validateAction (.promoteCandidate candidateId engine.config.manualPromotionRequired approver) with
  | .error violation => (.error violation, engine)
  | .ok () =>
      match engine.candidates[candidateId]? with
      | none => (.error (.missingProvenanceLineage "Candidate not found".toList), engine)
      | some candidate =>
          match candidate.latestFitness with
          | none =>
              (.error (.gateCriteriaNotMet "Gate C".toList
                "Candidate has not been evaluated before promotion attempt".toList), engine)
          | some fitness =>
              let threshold := engine.config.minNetBenefitThreshold
              if fitness.netBenefitScore < threshold then
                (.error (.gateCriteriaNotMet "Gate C".toList ("Candidate net benefit ".toList ++
                    NetBenefit.formatted fitness.netBenefitScore ++ " fails threshold ".toList ++
                    NetBenefit.formatted threshold)),
                  engine.amend candidateId
                    (setStatus (.rejected (belowThreshold fitness.netBenefitScore threshold))) (setStatus_id _))
              else
                (.ok (), (engine.amend candidateId (setPromoted timestampMs) (setPromoted_id _)).install
                  (setPromoted timestampMs candidate))

end Operations

end EvolutionEngine

end Temnion.Evolution
