import Temnion.Epistemic.TruthMaintenance

/-
This file says when later inferences leave the beliefs known at a cutoff as they are.
-/

namespace Temnion.Epistemic

open Query OrderedMap

namespace TruthMaintenanceSystem

variable [Binary64] [Unicode]

/-- The arguments of one inference. -/
structure Inference where
  proposition : Text
  confidence : Confidence
  validTime : Timestamp
  learnedTime : Timestamp
  justification : Justification

def infer (system : TruthMaintenanceSystem) (inference : Inference) : TruthMaintenanceSystem :=
  (system.inferBelief inference.proposition inference.confidence inference.validTime inference.learnedTime
    inference.justification).2

def inferAll (system : TruthMaintenanceSystem) (inferences : List Inference) : TruthMaintenanceSystem :=
  inferences.foldl infer system

/-- The proposition of the inference does not contradict the belief. -/
def agrees (inference : Inference) (belief : Belief) : Bool :=
  !isContradictory belief.proposition inference.proposition

variable {system : TruthMaintenanceSystem} {cutoff : Timestamp}

/-- An inference that is learned after the cutoff removes exactly the beliefs that it contradicts. -/
theorem infer_activeBeliefsKnownAsOf {inference : Inference} (later : cutoff.ticks < inference.learnedTime.ticks) :
    (system.infer inference).activeBeliefsKnownAsOf cutoff =
      (system.activeBeliefsKnownAsOf cutoff).filter (agrees inference) := by
  unfold activeBeliefsKnownAsOf
  rw [List.filter_map, List.filter_map, List.filter_map, List.filter_filter]
  congr 1
  apply filter_toList_congr
  intro id belief
  unfold infer
  rw [inferBelief_getElem?]
  simp only [Function.comp_apply, Bool.and_eq_true, decide_eq_true_eq]
  by_cases fresh : id = system.nextId
  · rw [if_pos fresh, fresh, not_mem_nextId]
    refine iff_of_false ?_ nofun
    intro listed
    obtain ⟨same, _, learned⟩ := listed
    obtain rfl := Option.some.inj same
    exact absurd learned (UInt64.not_le.mpr later)
  · rw [if_neg fresh]
    by_cases conflicts : id ∈ system.conflicting inference.proposition
    · obtain ⟨existing, present, active, contradictory⟩ := mem_conflicting.mp conflicts
      rw [if_pos conflicts, present, Option.map_some]
      constructor
      · intro listed
        obtain ⟨same, status, _⟩ := listed
        obtain rfl := Option.some.inj same
        contradiction
      · intro listed
        obtain ⟨same, agreeing, _⟩ := listed
        obtain rfl := Option.some.inj same
        rw [agrees, contradictory] at agreeing
        contradiction
    · rw [if_neg conflicts]
      constructor
      · intro listed
        obtain ⟨present, active, learned⟩ := listed
        refine ⟨present, ?_, active, learned⟩
        rw [agrees, Bool.not_eq_true', Bool.eq_false_iff]
        intro contradictory
        exact conflicts (mem_conflicting.mpr ⟨belief, present, active, contradictory⟩)
      · intro listed
        exact ⟨listed.1, listed.2.2⟩

theorem inferAll_activeBeliefsKnownAsOf {inferences : List Inference}
    (later : ∀ inference ∈ inferences, cutoff.ticks < inference.learnedTime.ticks) :
    (system.inferAll inferences).activeBeliefsKnownAsOf cutoff =
      (system.activeBeliefsKnownAsOf cutoff).filter fun belief =>
        inferences.all fun inference => agrees inference belief := by
  induction inferences generalizing system with
  | nil => exact (List.filter_eq_self.mpr fun _ _ => rfl).symm
  | cons inference inferences hypothesis =>
      have tail := @hypothesis (system.infer inference) fun other member => later other (List.mem_cons_of_mem _ member)
      change (inferAll (system.infer inference) inferences).activeBeliefsKnownAsOf cutoff = _
      rw [tail, infer_activeBeliefsKnownAsOf (later inference List.mem_cons_self), List.filter_filter]
      apply List.filter_congr
      intro belief _
      rw [List.all_cons, Bool.and_comm]

/-- Inferences that are learned after the cutoff keep the beliefs known at it exactly when they contradict none of them. -/
theorem activeBeliefsKnownAsOf_stable_iff (system : TruthMaintenanceSystem) (cutoff : Timestamp)
    (inferences : List Inference) (later : ∀ inference ∈ inferences, cutoff.ticks < inference.learnedTime.ticks) :
    (system.inferAll inferences).activeBeliefsKnownAsOf cutoff = system.activeBeliefsKnownAsOf cutoff ↔
      ∀ inference ∈ inferences, ∀ belief ∈ system.activeBeliefsKnownAsOf cutoff,
        isContradictory belief.proposition inference.proposition = false := by
  rw [inferAll_activeBeliefsKnownAsOf later, List.filter_eq_self]
  constructor
  · intro kept inference member belief listed
    have agreeing := List.all_eq_true.mp (kept belief listed) inference member
    rw [agrees, Bool.not_eq_true'] at agreeing
    exact agreeing
  · intro consistent belief listed
    rw [List.all_eq_true]
    intro inference member
    rw [agrees, consistent inference member belief listed, Bool.not_false]

end TruthMaintenanceSystem

section Samples

open TruthMaintenanceSystem

/-- An inference without evidence or premises. -/
def assumed [Binary64] (proposition : Text) (confidence : Confidence) (ticks : UInt64) : Inference :=
  ⟨proposition, confidence, ⟨1, ticks⟩, ⟨1, ticks⟩, ⟨[], [], [], []⟩⟩

theorem activeBeliefsKnownAsOf_stable_iff_sample :
    letI := Binary64.exact
    letI := Unicode.ascii
    let system := new.infer (assumed "alive".toList ⟨(1 : ℚ)⟩ 1)
    (system.inferAll [assumed "warm".toList ⟨(1 : ℚ)⟩ 9]).activeBeliefsKnownAsOf ⟨1, 5⟩ =
      system.activeBeliefsKnownAsOf ⟨1, 5⟩ := by
  let := Binary64.exact
  let := Unicode.ascii
  exact (activeBeliefsKnownAsOf_stable_iff _ _ _ (by decide)).mpr (by decide)

/-- The belief known at the cutoff is lost once its contradiction is learned. -/
theorem later_inference_removes_belief :
    letI := Binary64.exact
    letI := Unicode.ascii
    let system := new.infer (assumed "alive".toList ⟨(1 : ℚ)⟩ 1)
    (∀ inference ∈ [assumed "dead".toList ⟨(1 : ℚ)⟩ 9], (⟨1, 5⟩ : Timestamp).ticks < inference.learnedTime.ticks) ∧
      (system.inferAll [assumed "dead".toList ⟨(1 : ℚ)⟩ 9]).activeBeliefsKnownAsOf ⟨1, 5⟩ ≠
        system.activeBeliefsKnownAsOf ⟨1, 5⟩ := by
  let := Binary64.exact
  let := Unicode.ascii
  refine ⟨by decide, fun same => ?_⟩
  exact absurd (congrArg List.length same) (by decide)

end Samples

end Temnion.Epistemic
