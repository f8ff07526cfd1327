import Temnion.Evolution.Run

/-
This file says when a promotion is gated by the benefit over the very incumbent that it replaces.
-/

namespace Temnion.Evolution

open OrderedMap

namespace EvolutionEngine

section Gate

variable {Score : Type} [NetBenefit Score] {engine : EvolutionEngine Score} {id : CandidateId}

/-- What the code checks of a promotion. -/
def Passes (engine : EvolutionEngine Score) (id : CandidateId) (approver : Option Text) : Prop :=
  engine.Approved approver ∧ ∃ candidate fitness, engine.candidates[id]? = some candidate ∧
    candidate.latestFitness = some fitness ∧ engine.config.minNetBenefitThreshold ≤ fitness.netBenefitScore

theorem promoteCandidate_ok_iff {approver : Option Text} {timestampMs : UInt64} :
    (engine.promoteCandidate id approver timestampMs).1 = .ok () ↔ engine.Passes id approver := by
  have checks := @validateAction_promoteCandidate id engine.config.manualPromotionRequired approver
  unfold promoteCandidate Passes Approved
  cases valid : validateAction (.promoteCandidate id engine.config.manualPromotionRequired approver) with
  | error violation =>
      rw [← checks, valid]
      simp
  | ok _ =>
      rw [← checks, valid]
      cases found : engine.candidates[id]? with
      | none => simp
      | some candidate =>
          cases latest : candidate.latestFitness with
          | none => simp [latest]
          | some fitness =>
              by_cases low : fitness.netBenefitScore < engine.config.minNetBenefitThreshold
              · simp [latest, low]
              · simp [latest, low, not_lt.mp low]

/-- The recorded fitness of the incumbent that a promotion of the candidate replaces. -/
def baselineFor (engine : EvolutionEngine Score) (id : CandidateId) : Option (FitnessMetrics Score) :=
  (engine.candidates[id]?).bind fun candidate => engine.baselineOf candidate.targetDomain

/-- A promotion that succeeds and replaces an incumbent with recorded fitness has enough benefit over this fitness. -/
def Gated (engine : EvolutionEngine Score) (id : CandidateId) (approver : Option Text) (timestampMs : UInt64) : Prop :=
  (engine.promoteCandidate id approver timestampMs).1 = .ok () → ∀ baseline, engine.baselineFor id = some baseline →
    ∃ candidate fitness, engine.candidates[id]? = some candidate ∧ candidate.latestFitness = some fitness ∧
      engine.config.minNetBenefitThreshold ≤
        NetBenefit.computeNetBenefit fitness.toMeasurements baseline.toMeasurements

end Gate

section Watch

variable {Score : Type} [NetBenefit Score]

/-- The engine with what each candidate was compared with in its last evaluation. -/
structure Watched (Score : Type) where
  engine : EvolutionEngine Score
  comparedWith : CandidateId → Option (Measurements Score)

/-- An evaluation within the budget compares the candidate with the incumbent of its domain, if there is one. -/
def Watched.step (watched : Watched Score) (operation : Operation Score) : Watched Score where
  engine := watched.engine.step operation
  comparedWith :=
    match operation with
    | .evaluateCandidate id budget _ =>
        match validateAction (.executeShadowEvaluation budget) with
        | .ok _ => Function.update watched.comparedWith id ((watched.engine.baselineFor id).map (·.toMeasurements))
        | .error _ => watched.comparedWith
    | _ => watched.comparedWith

def watch (config : EvolutionConfig Score) (operations : List (Operation Score)) : Watched Score :=
  operations.foldl Watched.step ⟨new config, fun _ => none⟩

theorem watch_engine (config : EvolutionConfig Score) (operations : List (Operation Score)) :
    (watch config operations).engine = (new config).run operations := by
  induction operations using List.reverseRecOn with
  | nil => rfl
  | append_singleton done operation hypothesis =>
      rw [watch, run, Runs.foldl_concat, Runs.foldl_concat]
      exact congrArg (fun engine => engine.step operation) hypothesis

/-- A promotion that passes the checks over an incumbent with recorded fitness names a candidate whose last evaluation
compared it with this very fitness. -/
def Watched.Current (watched : Watched Score) : Operation Score → Prop
  | .promoteCandidate id approver _ => watched.engine.Passes id approver →
      ∀ baseline, watched.engine.baselineFor id = some baseline →
        watched.comparedWith id = some baseline.toMeasurements
  | _ => True

/-- The recorded score of a candidate is its benefit over what it was compared with. -/
def Watched.Scored (watched : Watched Score) : Prop :=
  ∀ id baseline, watched.comparedWith id = some baseline →
    ∃ candidate fitness, watched.engine.candidates[id]? = some candidate ∧ candidate.latestFitness = some fitness ∧
      fitness.netBenefitScore = NetBenefit.computeNetBenefit fitness.toMeasurements baseline

variable {watched : Watched Score} {operation : Operation Score} {engine next : EvolutionEngine Score}

/-- Only an evaluation changes the recorded fitness of a candidate. -/
theorem Transition.latestFitness (transition : Transition engine operation next)
    (other : ∀ id budget metrics, operation ≠ .evaluateCandidate id budget metrics) {id : CandidateId}
    {candidate : CandidateRecord Score} (found : engine.candidates[id]? = some candidate) :
    ∃ later, next.candidates[id]? = some later ∧ later.latestFitness = candidate.latestFitness := by
  have taken : engine.nextCandidateId ≠ id := by
    intro same
    rw [← same, engine.next_absent] at found
    contradiction
  have amended : ∀ (place : CandidateId) (change : CandidateRecord Score → CandidateRecord Score)
      (keeps : ∀ record, (change record).id = record.id),
      (∀ record, (change record).latestFitness = record.latestFitness) →
      ∃ later, (engine.amend place change keeps).candidates[id]? = some later ∧
        later.latestFitness = candidate.latestFitness := by
    intro place change keeps same
    rw [amend_candidates]
    by_cases here : place = id
    · rw [if_pos here, here, found]
      exact ⟨_, rfl, same candidate⟩
    · rw [if_neg here]
      exact ⟨candidate, found, rfl⟩
  cases transition with
  | kept _ candidates _ => exact ⟨candidate, candidates ▸ found, rfl⟩
  | registered kind domain payload fitness =>
      refine ⟨candidate, ?_, rfl⟩
      dsimp only
      rw [enroll_candidates, if_neg taken, found]
  | proposed kind domain lineage payload =>
      refine ⟨candidate, ?_, rfl⟩
      rw [enroll_candidates, if_neg taken, found]
  | evaluated metrics bounded found => exact absurd rfl (other _ _ _)
  | rejected timestampMs reason approved found => exact amended _ _ (setStatus_id _) fun _ => rfl
  | promoted timestampMs approved found latest enough => exact amended _ _ (setPromoted_id _) fun _ => rfl
  | restored reason stacked vacant => exact ⟨candidate, found, rfl⟩
  | rolledBack reason stacked active => exact amended _ _ (setStatus_id _) fun _ => rfl

theorem Watched.Scored.step (scored : watched.Scored) (operation : Operation Score) : (watched.step operation).Scored := by
  have carried : (∀ id budget metrics, operation ≠ .evaluateCandidate id budget metrics) →
      (watched.step operation).comparedWith = watched.comparedWith → (watched.step operation).Scored := by
    intro other same id baseline compared
    rw [same] at compared
    obtain ⟨candidate, fitness, found, latest, score⟩ := scored id baseline compared
    obtain ⟨later, kept, unchanged⟩ := (step_transition watched.engine operation).latestFitness other found
    exact ⟨later, fitness, kept, unchanged.trans latest, score⟩
  cases operation with
  | evaluateCandidate id budget metrics =>
      cases bounded : validateAction (.executeShadowEvaluation budget) with
      | error violation =>
          have refused : watched.step (.evaluateCandidate id budget metrics) = watched := by
            unfold Watched.step
            dsimp only
            rw [EvolutionEngine.step, evaluateCandidate_refused bounded, bounded]
          rw [refused]
          exact scored
      | ok _ =>
          intro other baseline compared
          unfold Watched.step at compared ⊢
          dsimp only at compared ⊢
          rw [bounded] at compared
          dsimp only at compared
          rw [EvolutionEngine.step]
          cases found : watched.engine.candidates[id]? with
          | none =>
              rw [evaluateCandidate_absent bounded found]
              rw [baselineFor, found, Option.bind_none, Option.map_none] at compared
              rw [Function.update_apply] at compared
              split at compared
              · contradiction
              · exact scored other baseline compared
          | some candidate =>
              rw [evaluateCandidate_found bounded found]
              dsimp only
              rw [amend_candidates]
              rw [Function.update_apply] at compared
              split at compared
              · next here =>
                  obtain ⟨fitness, present, rfl⟩ := Option.map_eq_some_iff.mp compared
                  rw [baselineFor, found, Option.bind_some] at present
                  rw [if_pos here.symm, found]
                  refine ⟨_, _, rfl, rfl, ?_⟩
                  rw [EvolutionEngine.scored, present]
              · next apart =>
                  rw [if_neg (Ne.symm apart)]
                  exact scored other baseline compared
  | _ => exact carried (fun _ _ _ => by simp) rfl

/-- Every promotion of a run is gated when each of them is current. -/
theorem promotions_gated (config : EvolutionConfig Score) (operations : List (Operation Score))
    (current : ∀ done operation, done ++ [operation] <+: operations → (watch config done).Current operation) :
    ∀ done id approver timestampMs, done ++ [.promoteCandidate id approver timestampMs] <+: operations →
      ((new config).run done).Gated id approver timestampMs := by
  intro done id approver timestampMs within passed baseline compared
  rw [promoteCandidate_ok_iff] at passed
  have scored : (watch config done).Scored :=
    Runs.foldl_invariant (fun _ _ absent => absurd absent (Option.not_mem_none _))
      (fun watched operation holds (_ : watched.Current operation) => holds.step operation) current
      ((List.prefix_append _ _).trans within)
  have kept := current done _ within
  unfold Watched.Current at kept
  rw [watch_engine] at kept
  obtain ⟨candidate, fitness, found, latest, score⟩ := scored id _ (kept passed baseline compared)
  rw [watch_engine] at found
  obtain ⟨_, again, other, present, recorded, enough⟩ := passed
  obtain rfl := Option.some.inj (found.symm.trans present)
  obtain rfl := Option.some.inj (latest.symm.trans recorded)
  exact ⟨candidate, fitness, found, latest, score ▸ enough⟩

end Watch

end EvolutionEngine

section Samples

/-- The relative gain over a baseline, if the baseline is positive. -/
def gain (baseline value : ℚ) : ℚ := if 0 < baseline then (baseline - value) / baseline else 0

/-- The comparison of the source over exact numbers. -/
@[reducible] def NetBenefit.exact : NetBenefit ℚ where
  computeNetBenefit candidate baseline :=
    35 / 100 * gain baseline.latencyP50Us.toNat candidate.latencyP50Us.toNat +
      25 / 100 * gain baseline.memoryBytes.toNat candidate.memoryBytes.toNat +
      25 / 100 * gain baseline.storageBytes.toNat candidate.storageBytes.toNat +
      15 / 100 * gain baseline.readAmplification candidate.readAmplification -
      10 / 100 * (candidate.backgroundCostScore - baseline.backgroundCostScore)
  formatted score :=
    let thousandths := (round (score * 1000)).natAbs
    (if score < 0 then ['-'] else []) ++ Text.decimal (thousandths / 1000) ++ ['.'] ++
      (Text.decimal (1000 + thousandths % 1000)).tail

/-- Only the median latency differs between the samples. -/
def sampleMetrics (latency : UInt64) : FitnessMetrics ℚ := ⟨⟨latency, latency, 0, 0, 0, 0, 0, 0⟩, 0⟩

def sampleConfig : EvolutionConfig ℚ := ⟨true, true, false, 5 / 100⟩

def sampleLineage : CandidateLineage := ⟨0, none, "scan".toList, 0, "tune".toList, "faster".toList⟩

/-- A challenger is evaluated against the first incumbent and promoted. -/
def sampleRun : List (Operation ℚ) :=
  [.registerIncumbent .codec "scan".toList [] (sampleMetrics 100),
    .proposeCandidate .codec "scan".toList sampleLineage [],
    .evaluateCandidate 2 IsolationBudget.default (sampleMetrics 50),
    .promoteCandidate 2 (some "operator".toList) 1]

/-- Two challengers are evaluated against the first incumbent, and the faster one is promoted. -/
def staleRun : List (Operation ℚ) :=
  [.registerIncumbent .codec "scan".toList [] (sampleMetrics 100),
    .proposeCandidate .codec "scan".toList sampleLineage [],
    .proposeCandidate .codec "scan".toList sampleLineage [],
    .evaluateCandidate 2 IsolationBudget.default (sampleMetrics 50),
    .evaluateCandidate 3 IsolationBudget.default (sampleMetrics 60),
    .promoteCandidate 2 (some "operator".toList) 1]

open EvolutionEngine

theorem promotions_gated_sample :
    letI := NetBenefit.exact
    ((new sampleConfig).run (sampleRun.take 3)).Gated 2 (some "operator".toList) 1 := by
  let := NetBenefit.exact
  refine promotions_gated sampleConfig sampleRun ?_ (sampleRun.take 3) 2 _ 1 (List.prefix_refl sampleRun)
  have baseline : ((new sampleConfig).run (sampleRun.take 3)).baselineFor 2 = some (sampleMetrics 100) := by decide +kernel
  have compared : (watch sampleConfig (sampleRun.take 3)).comparedWith 2 = some (sampleMetrics 100).toMeasurements := by
    decide +kernel
  intro done operation within
  refine Runs.forall_prefix (fun done operation => (watch sampleConfig done).Current operation) ?_ within
  intro position inside
  have few : position < 4 := inside
  interval_cases position
  · trivial
  · trivial
  · trivial
  · intro passes other present
    rw [watch_engine, baseline] at present
    obtain rfl := Option.some.inj present
    exact compared

/-- Neither challenger is compared with the other, and the slower one replaces the faster one in the end. -/
theorem slower_candidate_replaces_faster :
    letI := NetBenefit.exact
    ¬((new sampleConfig).run staleRun).Gated 3 (some "operator".toList) 2 := by
  let := NetBenefit.exact
  have found : ((new sampleConfig).run staleRun).candidates[(3 : CandidateId)]? = some ⟨3, .codec, "scan".toList,
      { sampleLineage with candidateId := 3 }, .sandboxed, [],
      some ⟨(sampleMetrics 60).toMeasurements, 14 / 100⟩, none⟩ := by decide +kernel
  have baseline : ((new sampleConfig).run staleRun).baselineFor 3 =
      some ⟨(sampleMetrics 50).toMeasurements, 175 / 1000⟩ := by decide +kernel
  have threshold : ((new sampleConfig).run staleRun).config.minNetBenefitThreshold = 5 / 100 := by decide +kernel
  have manual : ((new sampleConfig).run staleRun).config.manualPromotionRequired = true := by decide +kernel
  intro gated
  have passed : ((new sampleConfig).run staleRun).Passes 3 (some "operator".toList) := by
    refine ⟨⟨manual, rfl⟩, _, _, found, rfl, ?_⟩
    rw [threshold]
    decide +kernel
  obtain ⟨candidate, fitness, again, latest, enough⟩ := gated (promoteCandidate_ok_iff.mpr passed) _ baseline
  obtain rfl := Option.some.inj (found.symm.trans again)
  obtain rfl := Option.some.inj latest
  rw [threshold] at enough
  exact absurd enough (by decide +kernel)

end Samples

end Temnion.Evolution
