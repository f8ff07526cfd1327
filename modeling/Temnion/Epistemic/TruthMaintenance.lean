import Temnion.Library.OrderedMap
import Temnion.Query.Expression

/-
This file models the beliefs of the truth maintenance system, their inference, retraction and queries.
-/

namespace Temnion.Epistemic

open Query OrderedMap

/-- The source counts in sixty-four bits. Exhausting them is left out. -/
abbrev KnowledgeId := Nat

inductive KnowledgeStatus where
  | active
  | contradicted
  | retracted
  | superseded
  deriving DecidableEq, Repr

section Records

variable [Binary64]

structure Confidence where
  value : Binary64.Carrier

structure Observation where
  id : KnowledgeId
  eventRef : EventId
  validTime : Timestamp
  knownTime : Timestamp
  feature : Text
  valueRepr : Text

structure Claim where
  id : KnowledgeId
  source : Text
  proposition : Text
  confidence : Confidence
  validFrom : Timestamp
  validTo : Timestamp
  assertedAt : Timestamp

structure Justification where
  evidenceEvents : List EventId
  premises : List KnowledgeId
  appliedRules : List KnowledgeId
  assumptions : List Text

structure Belief where
  id : KnowledgeId
  proposition : Text
  confidence : Confidence
  status : KnowledgeStatus
  validTime : Timestamp
  learnedTime : Timestamp
  justification : Justification

structure Rule where
  id : KnowledgeId
  name : Text
  antecedent : Text
  consequent : Text
  confidence : Confidence
  supportCount : UInt64
  version : UInt32

structure Contradiction where
  itemA : KnowledgeId
  itemB : KnowledgeId
  detectedAt : Timestamp
  reason : Text

inductive WhyTrace where
  | node (targetId : KnowledgeId) (proposition : Text) (confidence : Confidence) (status : KnowledgeStatus)
      (directEvidence : List EventId) (appliedRules : List Rule) (assumptions : List Text)
      (premiseTraces : List WhyTrace) (contradictions : List Contradiction)

/-- Every belief has an id that was allocated before. -/
structure TruthMaintenanceSystem where
  nextId : KnowledgeId
  observations : OrderedMap KnowledgeId Observation
  claims : OrderedMap KnowledgeId Claim
  beliefs : OrderedMap KnowledgeId Belief
  rules : OrderedMap KnowledgeId Rule
  contradictions : List Contradiction
  allocated : ∀ id ∈ beliefs, id < nextId

end Records

section Propositions

variable [Unicode]

def antonyms : List (Text × Text) :=
  [("true".toList, "false".toList), ("alive".toList, "dead".toList), ("active".toList, "inactive".toList),
    ("healthy".toList, "critical".toList), ("open".toList, "closed".toList)]

def contains (text wanted : Text) : Bool := (Text.splitOnce wanted text).isSome

def isContradictory (a b : Text) : Bool :=
  let aClean := Unicode.toLowercase a.trim
  let bClean := Unicode.toLowercase b.trim
  bClean == "not ".toList ++ aClean || aClean == "not ".toList ++ bClean ||
    antonyms.any fun (x, y) => (contains aClean x && contains bClean y) || (contains aClean y && contains bClean x)

end Propositions

namespace TruthMaintenanceSystem

variable [Binary64]

def new : TruthMaintenanceSystem := ⟨1, ∅, ∅, ∅, ∅, [], by simp⟩

/-- The derived default does not start at one. -/
def default : TruthMaintenanceSystem := ⟨0, ∅, ∅, ∅, ∅, [], by simp⟩

/-- The id is the next one, and no belief takes part in the allocation. -/
def allocId (system : TruthMaintenanceSystem) : KnowledgeId × TruthMaintenanceSystem :=
  (system.nextId, { system with
    nextId := system.nextId + 1
    allocated := fun id member => Nat.lt_succ_of_lt (system.allocated id member) })

def recordObservation (system : TruthMaintenanceSystem) (eventRef : EventId) (validTime knownTime : Timestamp)
    (feature valueRepr : Text) : KnowledgeId × TruthMaintenanceSystem :=
  let (id, system) := system.allocId
  (id, { system with
    observations := system.observations.insert id ⟨id, eventRef, validTime, knownTime, feature, valueRepr⟩ })

def assertClaim (system : TruthMaintenanceSystem) (source proposition : Text) (confidence : Confidence)
    (validFrom validTo assertedAt : Timestamp) : KnowledgeId × TruthMaintenanceSystem :=
  let (id, system) := system.allocId
  (id, { system with
    claims := system.claims.insert id ⟨id, source, proposition, confidence, validFrom, validTo, assertedAt⟩ })

def defineRule (system : TruthMaintenanceSystem) (name antecedent consequent : Text) (confidence : Confidence) :
    KnowledgeId × TruthMaintenanceSystem :=
  let (id, system) := system.allocId
  (id, { system with rules := system.rules.insert id ⟨id, name, antecedent, consequent, confidence, 0, 1⟩ })

def setStatus (status : KnowledgeStatus) (belief : Belief) : Belief := { belief with status := status }

/-- The belief with this id gets a status. The others stay as they are. -/
def mark (system : TruthMaintenanceSystem) (id : KnowledgeId) (status : KnowledgeStatus) : TruthMaintenanceSystem :=
  { system with
    beliefs := system.beliefs.modify id (setStatus status)
    allocated := fun other member => system.allocated other (Std.ExtTreeMap.mem_modify.mp member) }

section Inference

variable [Unicode]

/-- The active beliefs that a proposition contradicts, in the order of their ids. -/
def conflicting (system : TruthMaintenanceSystem) (proposition : Text) : List KnowledgeId :=
  (system.beliefs.toList.filter fun entry =>
    entry.2.status = .active && isContradictory entry.2.proposition proposition).map Prod.fst

/-- One contradiction is recorded, and its older belief is marked. -/
def contradict (id : KnowledgeId) (proposition : Text) (learnedTime : Timestamp) (system : TruthMaintenanceSystem)
    (other : KnowledgeId) : TruthMaintenanceSystem :=
  let existing := (system.beliefs[other]?.map Belief.proposition).getD []
  let reason := "Proposition '".toList ++ proposition ++ "' contradicts '".toList ++ existing ++ "'".toList
  { system.mark other .contradicted with
    contradictions := system.contradictions ++ [⟨other, id, learnedTime, reason⟩] }

def insertBelief (system : TruthMaintenanceSystem) (id : KnowledgeId) (belief : Belief) (below : id < system.nextId) :
    TruthMaintenanceSystem :=
  { system with
    beliefs := system.beliefs.insert id belief
    allocated := by
      intro other member
      rcases Std.ExtTreeMap.mem_insert.mp member with same | member
      · rw [← compare_eq_iff_eq.mp same]
        exact below
      · exact system.allocated other member }

omit [Unicode] in
theorem contradict_nextId {id : KnowledgeId} {proposition : Text} {learnedTime : Timestamp}
    (system : TruthMaintenanceSystem) (others : List KnowledgeId) :
    (others.foldl (contradict id proposition learnedTime) system).nextId = system.nextId := by
  induction others generalizing system with
  | nil => rfl
  | cons other others hypothesis => exact hypothesis _

def inferBelief (system : TruthMaintenanceSystem) (proposition : Text) (confidence : Confidence)
    (validTime learnedTime : Timestamp) (justification : Justification) : KnowledgeId × TruthMaintenanceSystem :=
  let id := system.nextId
  let conflicts := system.allocId.2.conflicting proposition
  let status : KnowledgeStatus := if conflicts = [] then .active else .contradicted
  let marked := conflicts.foldl (contradict id proposition learnedTime) system.allocId.2
  (id, marked.insertBelief id ⟨id, proposition, confidence, status, validTime, learnedTime, justification⟩ (by
    rw [contradict_nextId]
    exact Nat.lt_succ_self _))

end Inference

/-- The beliefs that name an id as a premise, in the order of their ids. -/
def dependents (system : TruthMaintenanceSystem) (id : KnowledgeId) : List KnowledgeId :=
  (system.beliefs.toList.filter fun entry => entry.2.justification.premises.contains id).map Prod.fst

def notFound (id : KnowledgeId) : Text := "Belief k:".toList ++ Text.decimal id ++ " not found".toList

/-- None stands for a recursion that is deeper than the fuel. -/
def retractBelief : Nat → KnowledgeId → TruthMaintenanceSystem → Option (Except Text Unit × TruthMaintenanceSystem)
  | 0, _, _ => none
  | fuel + 1, id, system =>
      if id ∈ system.beliefs then do
        let marked := system.mark id .retracted
        let reached ← (marked.dependents id).foldlM (fun reached dependent =>
          (retractBelief fuel dependent reached).map Prod.snd) marked
        return (.ok (), reached)
      else some (.error (notFound id), system)

/-- Why a query returns no trace: its recursion is deeper than the fuel, or it returns an error. -/
inductive Stop where
  | deeper
  | failed (message : Text)
  deriving DecidableEq

def why (system : TruthMaintenanceSystem) : Nat → KnowledgeId → Except Stop WhyTrace
  | 0, _ => .error .deeper
  | fuel + 1, targetId =>
      match system.beliefs[targetId]? with
      | none => .error (.failed (notFound targetId))
      | some belief => do
          let appliedRules := belief.justification.appliedRules.filterMap fun rule => system.rules[rule]?
          let premiseTraces ← (belief.justification.premises.filter (· ∈ system.beliefs)).mapM (why system fuel)
          return .node targetId belief.proposition belief.confidence belief.status belief.justification.evidenceEvents
            appliedRules belief.justification.assumptions premiseTraces
            (system.contradictions.filter fun contradiction =>
              contradiction.itemA = targetId || contradiction.itemB = targetId)

def activeBeliefsKnownAsOf (system : TruthMaintenanceSystem) (cutoff : Timestamp) : List Belief :=
  (system.beliefs.toList.map Prod.snd).filter fun belief =>
    belief.status = .active && belief.learnedTime.ticks ≤ cutoff.ticks

section Entries

variable {system : TruthMaintenanceSystem} {id : KnowledgeId} {belief : Belief}

theorem mark_getElem? (system : TruthMaintenanceSystem) (id other : KnowledgeId) (status : KnowledgeStatus) :
    (system.mark id status).beliefs[other]? =
      if other = id then system.beliefs[other]?.map (setStatus status) else system.beliefs[other]? := by
  unfold mark
  rw [Std.ExtTreeMap.getElem?_modify]
  by_cases same : other = id
  · rw [if_pos same, if_pos (compare_eq_iff_eq.mpr same.symm), same]
  · rw [if_neg same, if_neg fun equal => same (compare_eq_iff_eq.mp equal).symm]

theorem mem_dependents {premise : KnowledgeId} : id ∈ system.dependents premise ↔
    ∃ belief, system.beliefs[id]? = some belief ∧ premise ∈ belief.justification.premises := by
  unfold dependents
  simp only [List.mem_map, List.mem_filter, Prod.exists, mem_toList, List.contains_eq_mem, decide_eq_true_eq]
  constructor
  · intro present
    obtain ⟨_, belief, ⟨present, named⟩, rfl⟩ := present
    exact ⟨belief, present, named⟩
  · intro present
    obtain ⟨belief, present, named⟩ := present
    exact ⟨id, belief, ⟨present, named⟩, rfl⟩

theorem mem_activeBeliefsKnownAsOf {cutoff : Timestamp} : belief ∈ system.activeBeliefsKnownAsOf cutoff ↔
    ∃ id : KnowledgeId, system.beliefs[id]? = some belief ∧ belief.status = .active ∧
      belief.learnedTime.ticks ≤ cutoff.ticks := by
  unfold activeBeliefsKnownAsOf
  simp only [List.mem_filter, List.mem_map, Prod.exists, mem_toList, Bool.and_eq_true, decide_eq_true_eq,
    exists_eq_right]
  constructor
  · intro listed
    obtain ⟨⟨id, present⟩, active, learned⟩ := listed
    exact ⟨id, present, active, learned⟩
  · intro listed
    obtain ⟨id, present, active, learned⟩ := listed
    exact ⟨⟨id, present⟩, active, learned⟩

variable [Unicode]

theorem mem_conflicting {proposition : Text} : id ∈ system.conflicting proposition ↔
    ∃ belief, system.beliefs[id]? = some belief ∧ belief.status = .active ∧
      isContradictory belief.proposition proposition = true := by
  unfold conflicting
  simp only [List.mem_map, List.mem_filter, Prod.exists, mem_toList, Bool.and_eq_true, decide_eq_true_eq]
  constructor
  · intro present
    obtain ⟨_, belief, ⟨present, active, contradictory⟩, rfl⟩ := present
    exact ⟨belief, present, active, contradictory⟩
  · intro present
    obtain ⟨belief, present, active, contradictory⟩ := present
    exact ⟨id, belief, ⟨present, active, contradictory⟩, rfl⟩

omit [Unicode] in
/-- The contradicted beliefs are marked, and the others stay as they are. -/
theorem contradict_getElem? {newer other : KnowledgeId} {proposition : Text} {learnedTime : Timestamp}
    (system : TruthMaintenanceSystem) (conflicts : List KnowledgeId) :
    (conflicts.foldl (contradict newer proposition learnedTime) system).beliefs[other]? =
      if other ∈ conflicts then system.beliefs[other]?.map (setStatus .contradicted) else system.beliefs[other]? := by
  induction conflicts generalizing system with
  | nil => rw [if_neg (List.not_mem_nil), List.foldl_nil]
  | cons conflict conflicts hypothesis =>
      have marked : (contradict newer proposition learnedTime system conflict).beliefs[other]? =
          if other = conflict then system.beliefs[other]?.map (setStatus .contradicted) else system.beliefs[other]? :=
        mark_getElem? system conflict other .contradicted
      rw [List.foldl_cons, hypothesis, marked]
      by_cases same : other = conflict
      · rw [if_pos same, if_pos (List.mem_cons.mpr (Or.inl same)), Option.map_map]
        exact ite_self _
      · rw [if_neg same]
        simp only [List.mem_cons, same, false_or]

/-- The belief that an inference adds. -/
def inferred (system : TruthMaintenanceSystem) (proposition : Text) (confidence : Confidence)
    (validTime learnedTime : Timestamp) (justification : Justification) : Belief where
  id := system.nextId
  proposition := proposition
  confidence := confidence
  status := if system.conflicting proposition = [] then .active else .contradicted
  validTime := validTime
  learnedTime := learnedTime
  justification := justification

/-- An inference adds its belief and marks the active ones that it contradicts. -/
theorem inferBelief_getElem? (proposition : Text) (confidence : Confidence) (validTime learnedTime : Timestamp)
    (justification : Justification) :
    (system.inferBelief proposition confidence validTime learnedTime justification).2.beliefs[id]? =
      if id = system.nextId then some (system.inferred proposition confidence validTime learnedTime justification)
      else if id ∈ system.conflicting proposition then system.beliefs[id]?.map (setStatus .contradicted)
      else system.beliefs[id]? := by
  unfold inferBelief insertBelief
  dsimp only
  rw [Std.ExtTreeMap.getElem?_insert]
  by_cases same : id = system.nextId
  · rw [if_pos same, if_pos (compare_eq_iff_eq.mpr same.symm)]
    rfl
  · rw [if_neg same, if_neg fun equal => same (compare_eq_iff_eq.mp equal).symm, contradict_getElem?]
    rfl

omit [Unicode] in
theorem not_mem_nextId (system : TruthMaintenanceSystem) : system.beliefs[system.nextId]? = none := by
  cases present : system.beliefs[system.nextId]? with
  | none => rfl
  | some belief =>
      exact absurd (system.allocated _ (Std.ExtTreeMap.mem_iff_isSome_getElem?.mpr (Option.isSome_of_eq_some present)))
        (Nat.lt_irrefl _)

end Entries

end TruthMaintenanceSystem

end Temnion.Epistemic
