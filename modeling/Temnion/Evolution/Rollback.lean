import Temnion.Evolution.Promotion

/-
This file says when every rollback replaces the incumbent and the registry agrees with the incumbents.
-/

namespace Temnion.Evolution

open OrderedMap

namespace EvolutionEngine

section Consistency

variable {Score : Type} {engine : EvolutionEngine Score} {domain : Text} {record : CandidateRecord Score}
variable {id place : CandidateId} {change : CandidateRecord Score → CandidateRecord Score}

/-- The candidate is the incumbent of some domain. -/
def Active (engine : EvolutionEngine Score) (id : CandidateId) : Prop :=
  ∃ (domain : Text) (record : CandidateRecord Score), engine.incumbents[domain]? = some record ∧ record.id = id

/-- The registry has a record of the candidate for this domain. -/
def Named (engine : EvolutionEngine Score) (domain : Text) (id : CandidateId) : Prop :=
  ∃ candidate, engine.candidates[id]? = some candidate ∧ candidate.targetDomain = domain

/-- The registry says that the candidate is promoted. -/
def Promoted (engine : EvolutionEngine Score) (id : CandidateId) : Prop :=
  ∃ candidate, engine.candidates[id]? = some candidate ∧ candidate.status = .promoted

instance (engine : EvolutionEngine Score) (id : CandidateId) : Decidable (engine.Active id) :=
  decidable_of_iff (id ∈ engine.incumbents.toList.map fun entry => entry.2.id) <| by
    simp only [Active, List.mem_map, Prod.exists, Std.ExtTreeMap.mem_toList_iff_getElem?_eq_some]

instance (engine : EvolutionEngine Score) (id : CandidateId) : Decidable (engine.Promoted id) :=
  decidable_of_iff (∃ candidate ∈ engine.candidates[id]?, candidate.status = .promoted) <| by
    simp only [Promoted, Option.mem_def]

/-- The registry says that every incumbent is promoted. -/
def Recorded (engine : EvolutionEngine Score) : Prop :=
  ∀ (domain : Text) (record : CandidateRecord Score), engine.incumbents[domain]? = some record →
    engine.Promoted record.id

theorem Named.unique {other : Text} (first : engine.Named domain id) (second : engine.Named other id) : domain = other := by
  obtain ⟨candidate, found, rfl⟩ := first
  obtain ⟨again, present, rfl⟩ := second
  rw [Option.some.inj (found.symm.trans present)]

theorem Named.ne_next (named : engine.Named domain id) : engine.nextCandidateId ≠ id := by
  obtain ⟨candidate, found, _⟩ := named
  intro same
  rw [← same, engine.next_absent] at found
  contradiction

theorem Named.amend (named : engine.Named domain id) (keeps : ∀ record, (change record).id = record.id)
    (same : ∀ record, (change record).targetDomain = record.targetDomain) :
    (engine.amend place change keeps).Named domain id := by
  obtain ⟨candidate, found, target⟩ := named
  unfold Named
  rw [amend_candidates]
  by_cases here : place = id
  · rw [if_pos here, here, found]
    exact ⟨_, rfl, (same candidate).trans target⟩
  · rw [if_neg here]
    exact ⟨candidate, found, target⟩

theorem Promoted.amend (promoted : engine.Promoted id) (keeps : ∀ record, (change record).id = record.id)
    (apart : place ≠ id) :
    (engine.amend place change keeps).Promoted id := by
  unfold Promoted
  rw [amend_candidates, if_neg apart]
  exact promoted

theorem Named.enroll (earlier : engine.Named domain id) (named : record.id = engine.nextCandidateId) :
    (engine.enroll record named).Named domain id := by
  unfold Named
  rw [enroll_candidates, if_neg earlier.ne_next]
  exact earlier

theorem Promoted.ne_next (promoted : engine.Promoted id) : engine.nextCandidateId ≠ id := by
  obtain ⟨candidate, found, _⟩ := promoted
  intro same
  rw [← same, engine.next_absent] at found
  contradiction

theorem Promoted.enroll (earlier : engine.Promoted id) (named : record.id = engine.nextCandidateId) :
    (engine.enroll record named).Promoted id := by
  unfold Promoted
  rw [enroll_candidates, if_neg earlier.ne_next]
  exact earlier

/-- Every incumbent is promoted in the registry, under its own domain. Nobody stands next to itself in the line of an
incumbent and the prior ones. -/
structure Consistent (engine : EvolutionEngine Score) : Prop where
  recorded : engine.Recorded
  named : ∀ (domain : Text) (record : CandidateRecord Score), engine.incumbents[domain]? = some record →
    engine.Named domain record.id
  prior : ∀ domain, ∀ record ∈ engine.stack domain, engine.Named domain record.id
  line : ∀ (domain : Text) (record : CandidateRecord Score), engine.incumbents[domain]? = some record →
    List.IsChain (· ≠ ·) ((record :: engine.stack domain).map (·.id))
  vacant : ∀ domain : Text, engine.incumbents[domain]? = none → engine.stack domain = []

theorem consistent_new (config : EvolutionConfig Score) : (new config).Consistent where
  recorded _ _ absent := absurd absent (by simp [new])
  named _ _ absent := absurd absent (by simp [new])
  prior _ _ member := absurd member (by simp [new, stack])
  line _ _ absent := absurd absent (by simp [new])
  vacant _ _ := by simp [new, stack]

/-- Two domains have different incumbents. -/
theorem Consistent.apart (consistent : engine.Consistent) {other : Text}
    (found : engine.incumbents[other]? = some record) (named : engine.Named domain id) (different : domain ≠ other) :
    id ≠ record.id := by
  intro same
  rw [same] at named
  exact different (named.unique (consistent.named other record found))

/-- A change of a record that is no incumbent, or that leaves it promoted, keeps everything but its status. -/
theorem Consistent.amend (consistent : engine.Consistent) (keeps : ∀ record, (change record).id = record.id)
    (same : ∀ record, (change record).targetDomain = record.targetDomain) (idle : ¬engine.Active place) :
    (engine.amend place change keeps).Consistent where
  recorded domain record found :=
    (consistent.recorded domain record found).amend keeps fun here => idle ⟨domain, record, found, here.symm⟩
  named domain record found := (consistent.named domain record found).amend keeps same
  prior domain record member := (consistent.prior domain record member).amend keeps same
  line := consistent.line
  vacant := consistent.vacant

/-- Only the incumbents, the prior ones and the registry matter. -/
theorem Consistent.congr (consistent : engine.Consistent) {next : EvolutionEngine Score}
    (incumbents : next.incumbents = engine.incumbents) (candidates : next.candidates = engine.candidates)
    (priorIncumbents : next.priorIncumbents = engine.priorIncumbents) : next.Consistent := by
  obtain ⟨config, nextCandidateId, _, _, _, registered⟩ := next
  dsimp only at incumbents candidates priorIncumbents
  subst incumbents candidates priorIncumbents
  exact ⟨consistent.recorded, consistent.named, consistent.prior, consistent.line, consistent.vacant⟩

theorem Consistent.enroll (consistent : engine.Consistent) (named : record.id = engine.nextCandidateId) :
    (engine.enroll record named).Consistent where
  recorded domain other found := (consistent.recorded domain other found).enroll named
  named domain other found := (consistent.named domain other found).enroll named
  prior domain other member := (consistent.prior domain other member).enroll named
  line := consistent.line
  vacant := consistent.vacant

/-- Another incumbent of one domain with another stack of prior ones. -/
theorem Consistent.seat (consistent : engine.Consistent) {next : EvolutionEngine Score} (domain : Text)
    (record : CandidateRecord Score) (rest : List (CandidateRecord Score))
    (incumbents : ∀ place : Text, next.incumbents[place]? = if domain = place then some record else engine.incumbents[place]?)
    (stack : ∀ place, next.stack place = if domain = place then rest else engine.stack place)
    (others : ∀ (place : Text) (other : CandidateRecord Score), domain ≠ place →
      engine.incumbents[place]? = some other → next.Promoted other.id)
    (names : ∀ place id, engine.Named place id → next.Named place id) (promoted : next.Promoted record.id)
    (named : next.Named domain record.id) (priors : ∀ prior ∈ rest, next.Named domain prior.id)
    (line : List.IsChain (· ≠ ·) ((record :: rest).map (·.id))) : next.Consistent where
  recorded place other found := by
    rw [incumbents] at found
    split at found
    · rw [← Option.some.inj found]
      exact promoted
    · next apart => exact others place other apart found
  named place other found := by
    rw [incumbents] at found
    split at found
    · next here =>
        rw [← Option.some.inj found, ← here]
        exact named
    · exact names place _ (consistent.named place other found)
  prior place other member := by
    rw [stack] at member
    split at member
    · next here => exact here ▸ priors other member
    · exact names place _ (consistent.prior place other member)
  line place other found := by
    rw [incumbents] at found
    rw [stack]
    split at found
    · next here =>
        rw [if_pos here, ← Option.some.inj found]
        exact line
    · next apart =>
        rw [if_neg apart]
        exact consistent.line place other found
  vacant place absent := by
    rw [incumbents] at absent
    rw [stack]
    split at absent
    · contradiction
    · next apart =>
        rw [if_neg apart]
        exact consistent.vacant place absent

/-- The prior incumbents of a domain do not stand next to themselves either. -/
theorem Consistent.stack_chain (consistent : engine.Consistent) (domain : Text) :
    List.IsChain (· ≠ ·) ((engine.stack domain).map (·.id)) := by
  cases active : engine.incumbents[domain]? with
  | none =>
      rw [consistent.vacant domain active]
      exact .nil
  | some record => exact (consistent.line domain record active).tail

/-- A new incumbent takes the place of the old one, which is dropped. -/
theorem Consistent.register (consistent : engine.Consistent) (kind : CandidateKind) (domain : Text) (payload : List UInt8)
    (fitness : FitnessMetrics Score) : (engine.registerIncumbent kind domain payload fitness).2.Consistent := by
  let fresh := engine.baselineRecord kind domain payload fitness
  have numbered : fresh.id = engine.nextCandidateId := engine.baselineRecord_id kind domain payload fitness
  have found : (engine.registerIncumbent kind domain payload fitness).2.candidates[fresh.id]? = some fresh := by
    change (engine.enroll fresh numbered).candidates[fresh.id]? = _
    rw [enroll_candidates]
    exact if_pos rfl
  apply consistent.seat domain fresh (engine.stack domain)
  · intro place
    unfold registerIncumbent
    dsimp only
    rw [Std.ExtTreeMap.getElem?_insert]
    simp only [compare_eq_iff_eq]
    rfl
  · intro place
    split
    · next here => rw [← here]; rfl
    · rfl
  · intro place other _ active
    exact (consistent.recorded place other active).enroll numbered
  · exact fun place id earlier => earlier.enroll numbered
  · exact ⟨fresh, found, rfl⟩
  · exact ⟨fresh, found, rfl⟩
  · exact fun prior member => (consistent.prior domain prior member).enroll numbered
  · rw [List.map_cons, List.isChain_cons]
    refine ⟨fun id first => ?_, consistent.stack_chain domain⟩
    obtain ⟨prior, member, rfl⟩ := List.mem_map.mp (List.mem_of_mem_head? first)
    exact (consistent.prior domain prior member).ne_next

/-- A promoted candidate takes the place of the old incumbent, which goes on the stack. -/
theorem Consistent.install (consistent : engine.Consistent) {candidate : CandidateRecord Score}
    (found : engine.candidates[id]? = some candidate) (idle : ¬engine.Active id) (timestampMs : UInt64) :
    ((engine.amend id (setPromoted timestampMs) (setPromoted_id _)).install
      (setPromoted timestampMs candidate)).Consistent := by
  obtain rfl : candidate.id = id := (engine.registered id candidate found).1
  let raised := engine.amend candidate.id (setPromoted timestampMs) (setPromoted_id _)
  let domain := (setPromoted timestampMs candidate).targetDomain
  have present : (raised.install (setPromoted timestampMs candidate)).candidates[candidate.id]? =
      some (setPromoted timestampMs candidate) := by
    change raised.candidates[candidate.id]? = _
    rw [amend_candidates, if_pos rfl, found]
    rfl
  have amended : raised.Consistent := consistent.amend (setPromoted_id _) (fun _ => rfl) idle
  apply amended.seat domain (setPromoted timestampMs candidate) ((raised.incumbents[domain]?).toList ++ raised.stack domain)
  · exact fun place => install_incumbents _ place
  · intro place
    rw [install_stack]
    by_cases here : domain = place
    · rw [if_pos here, if_pos here, ← here]
    · rw [if_neg here, if_neg here]
  · intro place other _ active
    exact amended.recorded place other active
  · exact fun place other earlier => earlier
  · exact ⟨_, present, rfl⟩
  · exact ⟨_, present, rfl⟩
  · intro prior member
    rcases List.mem_append.mp member with active | stacked
    · exact amended.named _ prior (Option.mem_toList.mp active)
    · exact amended.prior _ prior stacked
  · rw [List.map_cons, List.isChain_cons]
    cases active : raised.incumbents[domain]? with
    | none => exact ⟨fun id first => absurd first (by rw [amended.vacant domain active]; simp), amended.stack_chain domain⟩
    | some current =>
        refine ⟨fun id first same => ?_, amended.line domain current active⟩
        obtain rfl := Option.some.inj first
        exact idle ⟨domain, current, active, same.symm⟩

/-- The prior incumbent takes the place of the current one, whose record is marked. -/
theorem Consistent.restore (consistent : engine.Consistent) {previous current : CandidateRecord Score}
    {rest : List (CandidateRecord Score)} (stacked : engine.priorIncumbents[domain]? = some (previous :: rest))
    (active : engine.incumbents[domain]? = some current) (promoted : engine.Promoted previous.id) (reason : Text) :
    EvolutionEngine.Consistent { engine.amend current.id (setStatus (.rolledBack reason)) (setStatus_id _) with
      incumbents := engine.incumbents.insert domain previous
      priorIncumbents := engine.priorIncumbents.insert domain rest } := by
  have whole : engine.stack domain = previous :: rest := by rw [stack, stacked, Option.getD_some]
  have line := consistent.line domain current active
  rw [whole] at line
  have different : current.id ≠ previous.id := (List.isChain_cons_cons.mp line).1
  have names : ∀ place id, engine.Named place id →
      (engine.amend current.id (setStatus (.rolledBack reason)) (setStatus_id _)).Named place id :=
    fun place id named => named.amend (setStatus_id _) fun _ => rfl
  have prior : ∀ record ∈ previous :: rest, engine.Named domain record.id :=
    fun record member => consistent.prior domain record (whole ▸ member)
  apply consistent.seat domain previous rest
  · intro place
    dsimp only
    rw [Std.ExtTreeMap.getElem?_insert]
    simp only [compare_eq_iff_eq]
  · intro place
    unfold stack
    dsimp only
    rw [Std.ExtTreeMap.getElem?_insert]
    simp only [compare_eq_iff_eq]
    split
    · rfl
    · rfl
  · intro place other apart found
    exact (consistent.recorded place other found).amend (setStatus_id _)
      (consistent.apart found (consistent.named domain current active) apart)
  · exact names
  · exact promoted.amend (setStatus_id _) different
  · exact names domain previous.id (prior previous List.mem_cons_self)
  · exact fun record member => names domain record.id (prior record (List.mem_cons_of_mem _ member))
  · exact (List.isChain_cons_cons.mp line).2

end Consistency

section Runs

variable {Score : Type} [NetBenefit Score] {engine : EvolutionEngine Score} {operation : Operation Score}

/-- An evaluation within its budget and an approved promotion do not name an incumbent, and a rollback finds on top of the
stack a candidate that is still promoted in the registry. -/
def Orderly (engine : EvolutionEngine Score) : Operation Score → Prop
  | .evaluateCandidate id budget _ => Bounded budget → ¬engine.Active id
  | .promoteCandidate id approver _ => engine.Approved approver → ¬engine.Active id
  | .rollback domain _ => ∀ previous ∈ (engine.stack domain).head?, engine.Promoted previous.id
  | _ => True

/-- A rollback that succeeds leaves another candidate active. -/
def Effective (engine : EvolutionEngine Score) (domain reason : Text) : Prop :=
  ∀ restored, (engine.rollback domain reason).1 = .ok restored →
    ∀ before, engine.incumbents[domain]? = some before →
      ∀ after, (engine.rollback domain reason).2.incumbents[domain]? = some after → after.id ≠ before.id

theorem Consistent.step (consistent : engine.Consistent) (orderly : engine.Orderly operation) :
    (engine.step operation).Consistent := by
  have transition := step_transition engine operation
  generalize engine.step operation = next at transition
  cases transition with
  | kept incumbents candidates priorIncumbents => exact consistent.congr incumbents candidates priorIncumbents
  | registered kind domain payload fitness => exact consistent.register kind domain payload fitness
  | proposed kind domain lineage payload => exact consistent.enroll (engine.proposedRecord_id _ _ _ _)
  | evaluated metrics bounded found => exact consistent.amend (setEvaluated_id _) (fun _ => rfl) (orderly bounded)
  | rejected timestampMs reason approved found =>
      exact consistent.amend (setStatus_id _) (fun _ => rfl) (orderly approved)
  | promoted timestampMs approved found latest enough => exact consistent.install found (orderly approved) timestampMs
  | restored reason stacked vacant =>
      have empty := consistent.vacant _ vacant
      rw [stack, stacked] at empty
      contradiction
  | rolledBack reason stacked active =>
      refine consistent.restore stacked active (orderly _ ?_) reason
      rw [stack, stacked]
      rfl

omit [NetBenefit Score] in
/-- A rollback that succeeds makes the prior incumbent on top of the stack active. -/
theorem rollback_ok_iff {domain reason : Text} {restored : CandidateId} :
    (engine.rollback domain reason).1 = .ok restored ↔ ∃ previous rest,
      engine.priorIncumbents[domain]? = some (previous :: rest) ∧ previous.id = restored := by
  unfold rollback
  cases stacked : engine.priorIncumbents[domain]? with
  | none => simp
  | some priors => cases priors <;> simp

omit [NetBenefit Score] in
theorem rollback_incumbent {domain reason : Text} {previous : CandidateRecord Score} {rest : List (CandidateRecord Score)}
    (stacked : engine.priorIncumbents[domain]? = some (previous :: rest)) :
    (engine.rollback domain reason).2.incumbents[domain]? = some previous := by
  unfold rollback
  rw [stacked]
  dsimp only
  cases engine.incumbents[domain]? with
  | none => exact Std.ExtTreeMap.getElem?_insert_self
  | some current => exact Std.ExtTreeMap.getElem?_insert_self

omit [NetBenefit Score] in
theorem Consistent.effective (consistent : engine.Consistent) (domain reason : Text) : engine.Effective domain reason := by
  intro restored succeeded before active after found same
  obtain ⟨previous, rest, stacked, _⟩ := rollback_ok_iff.mp succeeded
  rw [rollback_incumbent stacked] at found
  obtain rfl := Option.some.inj found
  have line := consistent.line domain before active
  rw [stack, stacked] at line
  exact (List.isChain_cons_cons.mp line).1 same.symm

/-- In an orderly run every rollback is effective, and every state records its incumbents as promoted. -/
theorem orderly_run_effective (config : EvolutionConfig Score) (operations : List (Operation Score))
    (orderly : ∀ done operation, done ++ [operation] <+: operations → ((new config).run done).Orderly operation) :
    (∀ done, done <+: operations → ((new config).run done).Recorded) ∧
      ∀ done domain reason, done ++ [.rollback domain reason] <+: operations →
        ((new config).run done).Effective domain reason := by
  have always : ∀ done, done <+: operations → ((new config).run done).Consistent := by
    intro done within
    exact Runs.foldl_invariant (consistent_new config) (fun _ _ holds allowed => holds.step allowed) orderly within
  constructor
  · exact fun done within => (always done within).recorded
  · exact fun done domain reason within =>
      (always done ((List.prefix_append _ _).trans within)).effective domain reason

end Runs

end EvolutionEngine

section Samples

open EvolutionEngine

theorem orderly_run_effective_sample :
    letI := NetBenefit.exact
    ((new sampleConfig).run sampleRun).Recorded ∧
      ((new sampleConfig).run sampleRun).Effective "scan".toList "slower".toList := by
  let := NetBenefit.exact
  let operations := sampleRun ++ [.rollback "scan".toList "slower".toList]
  have orderly : ∀ done operation, done ++ [operation] <+: operations →
      ((new sampleConfig).run done).Orderly operation := by
    intro done operation within
    refine Runs.forall_prefix (fun done operation => ((new sampleConfig).run done).Orderly operation) ?_ within
    intro position inside
    have few : position < 5 := inside
    interval_cases position
    · trivial
    · trivial
    · exact fun _ => by decide +kernel
    · exact fun _ => by decide +kernel
    · have promoted : ∀ previous ∈ (((new sampleConfig).run sampleRun).stack "scan".toList).head?,
          ((new sampleConfig).run sampleRun).Promoted previous.id := by decide +kernel
      exact promoted
  obtain ⟨recorded, effective⟩ := orderly_run_effective sampleConfig operations orderly
  exact ⟨recorded sampleRun (List.prefix_append _ _), effective sampleRun _ _ (List.prefix_refl _)⟩

/-- A candidate that is promoted twice is restored by the rollback of itself, and an incumbent that is evaluated again is
no longer promoted in the registry. -/
theorem promoted_again_is_restored :
    letI := NetBenefit.exact
    ¬((new sampleConfig).run (sampleRun ++ [.promoteCandidate 2 (some "operator".toList) 2])).Effective
        "scan".toList "slower".toList ∧
      ¬((new sampleConfig).run (sampleRun ++
        [.evaluateCandidate 2 IsolationBudget.default (sampleMetrics 50)])).Recorded := by
  let := NetBenefit.exact
  constructor
  · intro effective
    have stacked : (((new sampleConfig).run (sampleRun ++ [.promoteCandidate 2 (some "operator".toList) 2])).priorIncumbents[
        "scan".toList]?).map (fun records => records.map (·.id)) = some [2, 1] := by decide +kernel
    have active : (((new sampleConfig).run (sampleRun ++ [.promoteCandidate 2 (some "operator".toList) 2])).incumbents[
        "scan".toList]?).map (·.id) = some 2 := by decide +kernel
    obtain ⟨records, stacked, ids⟩ := Option.map_eq_some_iff.mp stacked
    obtain ⟨previous, rest, rfl, number, _⟩ := List.map_eq_cons_iff.mp ids
    obtain ⟨before, active, same⟩ := Option.map_eq_some_iff.mp active
    exact effective previous.id (rollback_ok_iff.mpr ⟨previous, rest, stacked, rfl⟩) before active previous
      (rollback_incumbent stacked) (number.trans same.symm)
  · intro recorded
    have active : ((new sampleConfig).run (sampleRun ++
        [.evaluateCandidate 2 IsolationBudget.default (sampleMetrics 50)])).Active 2 := by decide +kernel
    obtain ⟨domain, record, found, number⟩ := active
    have promoted := recorded domain record found
    rw [number] at promoted
    exact absurd promoted (by decide +kernel)

end Samples

end Temnion.Evolution
