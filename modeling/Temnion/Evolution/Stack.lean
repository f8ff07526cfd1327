import Temnion.Evolution.Rollback

/-
This file says that promotions and rollbacks of a domain undo each other like the brackets of a word.
-/

namespace Temnion.Evolution

open OrderedMap

namespace EvolutionEngine

section Steps

variable {Score : Type} [NetBenefit Score] {engine : EvolutionEngine Score} {domain : Text}
  {operation : Operation Score} {current original : CandidateRecord Score} {operations : List (Operation Score)}

/-- The operation is a promotion that succeeds for a candidate of the domain. -/
def promotes (domain : Text) (engine : EvolutionEngine Score) : Operation Score → Bool
  | .promoteCandidate candidateId approver timestampMs =>
      match (engine.promoteCandidate candidateId approver timestampMs).1 with
      | .ok () => (engine.candidates[candidateId]?).any fun candidate => candidate.targetDomain = domain
      | .error _ => false
  | _ => false

/-- The operation is a rollback of the domain that succeeds. -/
def rollsBack (domain : Text) (engine : EvolutionEngine Score) : Operation Score → Bool
  | .rollback targetDomain reason =>
      match (engine.rollback targetDomain reason).1 with
      | .ok _ => targetDomain = domain
      | .error _ => false
  | _ => false

/-- How many operations of a run are of a kind when they are performed. -/
def count (kind : EvolutionEngine Score → Operation Score → Bool) : EvolutionEngine Score → List (Operation Score) → Nat
  | _, [] => 0
  | engine, operation :: rest => (if kind engine operation then 1 else 0) + count kind (engine.step operation) rest

/-- The operation registers an incumbent for the domain. -/
def Registers (domain : Text) : Operation Score → Prop
  | .registerIncumbent _ targetDomain _ _ => targetDomain = domain
  | _ => False

/-- What an operation can do to the incumbent of a domain and to the stack below it. -/
inductive Moved (domain : Text) (engine : EvolutionEngine Score) (current : CandidateRecord Score)
    (operation : Operation Score) (next : EvolutionEngine Score) : Prop where
  | pushed (promotion : promotes domain engine operation = true) (noRollback : rollsBack domain engine operation = false)
      (candidate : CandidateRecord Score) (incumbent : next.incumbents[domain]? = some candidate)
      (stack : next.stack domain = current :: engine.stack domain)
  | popped (noPromotion : promotes domain engine operation = false) (rollback : rollsBack domain engine operation = true)
      (previous : CandidateRecord Score) (incumbent : next.incumbents[domain]? = some previous)
      (stack : engine.stack domain = previous :: next.stack domain)
  | kept (noPromotion : promotes domain engine operation = false) (noRollback : rollsBack domain engine operation = false)
      (incumbent : next.incumbents[domain]? = some current) (stack : next.stack domain = engine.stack domain)

omit [NetBenefit Score] in
theorem rollback_incumbents {targetDomain reason : Text} {previous : CandidateRecord Score}
    {rest : List (CandidateRecord Score)} (stacked : engine.priorIncumbents[targetDomain]? = some (previous :: rest)) :
    (engine.rollback targetDomain reason).2.incumbents[domain]? =
      if targetDomain = domain then some previous else engine.incumbents[domain]? := by
  have whole : (engine.rollback targetDomain reason).2.incumbents = engine.incumbents.insert targetDomain previous := by
    rw [rollback, stacked]
    cases engine.incumbents[targetDomain]? with
    | none => rfl
    | some current => rfl
  rw [whole, insert_getElem?]
  split
  · rfl
  · rfl

omit [NetBenefit Score] in
theorem rollback_stack {targetDomain reason : Text} {previous : CandidateRecord Score}
    {rest : List (CandidateRecord Score)} (stacked : engine.priorIncumbents[targetDomain]? = some (previous :: rest)) :
    (engine.rollback targetDomain reason).2.stack domain = if targetDomain = domain then rest else engine.stack domain := by
  have below : (engine.rollback targetDomain reason).2.priorIncumbents = engine.priorIncumbents.insert targetDomain rest := by
    rw [rollback, stacked]
    cases engine.incumbents[targetDomain]? with
    | none => rfl
    | some current => rfl
  rw [stack, below, insert_getElem?]
  split
  · rfl
  · rfl

omit [NetBenefit Score] in
/-- What a promotion leaves alone and what it pushes on the stack of its domain. -/
theorem install_moved (active : engine.incumbents[domain]? = some current) (candidate : CandidateRecord Score) :
    (engine.install candidate).incumbents[domain]? = some (if candidate.targetDomain = domain then candidate else current) ∧
      (engine.install candidate).stack domain =
        if candidate.targetDomain = domain then current :: engine.stack domain else engine.stack domain := by
  rw [install_incumbents, install_stack, active]
  split
  · exact ⟨rfl, rfl⟩
  · exact ⟨rfl, rfl⟩

theorem step_moved (active : engine.incumbents[domain]? = some current) (other : ¬Registers domain operation) :
    Moved domain engine current operation (engine.step operation) := by
  cases operation with
  | setConfig config => exact .kept rfl rfl active rfl
  | registerIncumbent kind targetDomain payload fitness =>
      have incumbent : (engine.registerIncumbent kind targetDomain payload fitness).2.incumbents[domain]? = some current := by
        change (engine.incumbents.insert targetDomain _)[domain]? = _
        rw [insert_getElem?]
        exact (if_neg other).trans active
      exact .kept rfl rfl incumbent rfl
  | proposeCandidate kind targetDomain lineage payload =>
      rw [step, proposeCandidate]
      split
      · exact .kept rfl rfl active rfl
      · split
        · exact .kept rfl rfl active rfl
        · exact .kept rfl rfl active rfl
  | evaluateCandidate id budget metrics =>
      rw [step, evaluateCandidate]
      cases validateAction (.executeShadowEvaluation budget) with
      | error violation => exact .kept rfl rfl active rfl
      | ok _ =>
          cases engine.candidates[id]? with
          | none => exact .kept rfl rfl active rfl
          | some candidate => exact .kept rfl rfl active rfl
  | promoteCandidate id approver timestampMs =>
      have chosen : promotes domain engine (.promoteCandidate id approver timestampMs) =
        match (engine.promoteCandidate id approver timestampMs).1 with
        | .ok () => (engine.candidates[id]?).any fun candidate => candidate.targetDomain = domain
        | .error _ => false := rfl
      rw [step]
      rw [promoteCandidate] at chosen ⊢
      cases valid : validateAction (.promoteCandidate id engine.config.manualPromotionRequired approver) with
      | error violation =>
          rw [valid] at chosen
          exact .kept chosen rfl active rfl
      | ok _ =>
          rw [valid] at chosen
          cases found : engine.candidates[id]? with
          | none =>
              rw [found] at chosen
              exact .kept chosen rfl active rfl
          | some candidate =>
              rw [found] at chosen
              dsimp only at chosen ⊢
              cases latest : candidate.latestFitness with
              | none =>
                  rw [latest] at chosen
                  exact .kept chosen rfl active rfl
              | some fitness =>
                  rw [latest] at chosen
                  dsimp only at chosen ⊢
                  split
                  · next below =>
                      rw [if_pos below] at chosen
                      exact .kept chosen rfl active rfl
                  · next enough =>
                      rw [if_neg enough, Option.any_some] at chosen
                      let raised := engine.amend id (setPromoted timestampMs) (setPromoted_id _)
                      have active' : raised.incumbents[domain]? = some current := active
                      obtain ⟨incumbent, below⟩ := install_moved active' (setPromoted timestampMs candidate)
                      by_cases here : candidate.targetDomain = domain
                      · have same : (setPromoted timestampMs candidate).targetDomain = domain := here
                        rw [if_pos same] at incumbent below
                        exact .pushed (chosen.trans (decide_eq_true here)) rfl _ incumbent below
                      · have apart : (setPromoted timestampMs candidate).targetDomain ≠ domain := here
                        rw [if_neg apart] at incumbent below
                        exact .kept (chosen.trans (decide_eq_false here)) rfl incumbent below
  | rollback targetDomain reason =>
      have chosen : rollsBack domain engine (.rollback targetDomain reason) =
        match (engine.rollback targetDomain reason).1 with
        | .ok _ => decide (targetDomain = domain)
        | .error _ => false := rfl
      rw [step]
      rw [rollback] at chosen ⊢
      cases stacked : engine.priorIncumbents[targetDomain]? with
      | none =>
          rw [stacked] at chosen
          exact .kept rfl chosen active rfl
      | some priors =>
          rw [stacked] at chosen
          cases priors with
          | nil => exact .kept rfl chosen active rfl
          | cons previous rest =>
              have incumbents := @rollback_incumbents _ engine domain targetDomain reason previous rest stacked
              have below := @rollback_stack _ engine domain targetDomain reason previous rest stacked
              rw [rollback, stacked] at incumbents below
              by_cases here : targetDomain = domain
              · have top : engine.stack domain = previous :: rest := by rw [stack, ← here, stacked, Option.getD_some]
                rw [if_pos here] at incumbents below
                exact .popped rfl (chosen.trans (decide_eq_true here)) previous incumbents (top.trans (congrArg _ below.symm))
              · rw [if_neg here] at incumbents below
                exact .kept rfl (chosen.trans (decide_eq_false here)) (incumbents.trans active) below

theorem count_append (kind : EvolutionEngine Score → Operation Score → Bool) (engine : EvolutionEngine Score)
    (done : List (Operation Score)) (operation : Operation Score) : engine.count kind (done ++ [operation]) =
      engine.count kind done + if kind (engine.run done) operation then 1 else 0 := by
  induction done generalizing engine with
  | nil => exact Nat.add_comm _ _
  | cons first rest hypothesis =>
      rw [List.cons_append, count, count, hypothesis, Nat.add_assoc]
      rfl

/-- While there were no more rollbacks than promotions, the old incumbent and the stack below it stand under one record
for each promotion that was not rolled back. -/
theorem run_stack (active : engine.incumbents[domain]? = some original)
    (others : ∀ operation ∈ operations, ¬Registers domain operation)
    (bracketed : ∀ done, done <+: operations →
      engine.count (rollsBack domain) done ≤ engine.count (promotes domain) done) :
    ∃ incumbent pushed, (engine.run operations).incumbents[domain]? = some incumbent ∧
      incumbent :: (engine.run operations).stack domain = pushed ++ original :: engine.stack domain ∧
      pushed.length + engine.count (rollsBack domain) operations = engine.count (promotes domain) operations := by
  induction operations using List.reverseRecOn with
  | nil => exact ⟨original, [], active, rfl, rfl⟩
  | append_singleton done operation hypothesis =>
      obtain ⟨current, pushed, incumbent, line, length⟩ := hypothesis
        (fun earlier member => others earlier (List.mem_append_left _ member))
        (fun earlier within => bracketed earlier (within.trans (List.prefix_append _ _)))
      have allowed := bracketed _ (List.prefix_refl (done ++ [operation]))
      have moved := step_moved incumbent (others operation (List.mem_append_right _ (List.mem_singleton.mpr rfl)))
      rw [count_append, count_append] at allowed ⊢
      rw [show engine.run (done ++ [operation]) = (engine.run done).step operation from Runs.foldl_concat _ _ _ _]
      cases moved with
      | pushed promotion noRollback candidate incumbent' below =>
          refine ⟨candidate, candidate :: pushed, incumbent', ?_, ?_⟩
          · rw [below, line, List.cons_append]
          · rw [promotion, noRollback, List.length_cons]
            simp only [Bool.false_eq_true, if_true, if_false]
            omega
      | popped noPromotion rollback previous incumbent' below =>
          rw [noPromotion, rollback] at allowed ⊢
          simp only [Bool.false_eq_true, if_true, if_false] at allowed ⊢
          cases pushed with
          | nil =>
              rw [List.length_nil] at length
              omega
          | cons last pushed =>
              rw [List.cons_append, List.cons.injEq] at line
              rw [List.length_cons] at length
              refine ⟨previous, pushed, incumbent', ?_, by omega⟩
              rw [← below, line.2]
      | kept noPromotion noRollback incumbent' below =>
          refine ⟨current, pushed, incumbent', ?_, ?_⟩
          · rw [below, line]
          · rw [noPromotion, noRollback]
            exact length

/-- When every promotion of a domain was rolled back, and no prefix of the run rolled back more than it promoted, the old
incumbent is active again with the same record, and the stack below it is the same. -/
theorem promotions_and_rollbacks_nest (engine : EvolutionEngine Score) (domain : Text) (original : CandidateRecord Score)
    (operations : List (Operation Score)) (active : engine.incumbents[domain]? = some original)
    (others : ∀ operation ∈ operations, ¬Registers domain operation)
    (bracketed : ∀ done, done <+: operations → engine.count (rollsBack domain) done ≤ engine.count (promotes domain) done)
    (balanced : engine.count (rollsBack domain) operations = engine.count (promotes domain) operations) :
    (engine.run operations).incumbents[domain]? = some original ∧
      (engine.run operations).stack domain = engine.stack domain := by
  obtain ⟨incumbent, pushed, found, line, length⟩ := run_stack active others bracketed
  have none : pushed = [] := List.eq_nil_of_length_eq_zero (by omega)
  rw [none, List.nil_append, List.cons.injEq] at line
  rw [found, line.1]
  exact ⟨rfl, line.2⟩

end Steps

end EvolutionEngine

section Samples

open EvolutionEngine

/-- A challenger is promoted and rolled back again. -/
def sampleDetour : List (Operation ℚ) :=
  [.promoteCandidate 2 (some "operator".toList) 1, .rollback "scan".toList "slower".toList]

theorem promotions_and_rollbacks_nest_sample :
    letI := NetBenefit.exact
    let before := (new sampleConfig).run (sampleRun.take 3)
    (before.run sampleDetour).incumbents["scan".toList]? = before.incumbents["scan".toList]? := by
  let := NetBenefit.exact
  intro before
  have seated : (before.incumbents["scan".toList]?).isSome = true := by decide +kernel
  obtain ⟨original, active⟩ := Option.isSome_iff_exists.mp seated
  have others : ∀ operation ∈ sampleDetour, ¬Registers "scan".toList operation := by
    intro operation member registers
    rcases List.mem_cons.mp member with rfl | member
    · exact registers
    · rw [List.mem_singleton.mp member] at registers
      exact registers
  have bracketed : ∀ done, done <+: sampleDetour →
      before.count (rollsBack "scan".toList) done ≤ before.count (promotes "scan".toList) done := by
    intro done within
    obtain ⟨length, rfl⟩ : ∃ length, done = sampleDetour.take length := ⟨_, List.prefix_iff_eq_take.mp within⟩
    rcases Nat.lt_or_ge length 2 with few | all
    · interval_cases length
      · decide +kernel
      · decide +kernel
    · rw [List.take_of_length_le all]
      decide +kernel
  rw [active]
  exact (promotions_and_rollbacks_nest before _ original sampleDetour active others bracketed (by decide +kernel)).1

end Samples

end Temnion.Evolution
