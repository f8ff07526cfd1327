import Temnion.Epistemic.Retraction

/-
This file proves that active beliefs never contradict each other and says which beliefs contradict themselves.
-/

namespace Temnion.Epistemic

open Query OrderedMap

section Propositions

variable [Unicode]

theorem isContradictory_comm (a b : Text) : isContradictory a b = isContradictory b a := by
  unfold isContradictory
  dsimp only
  rw [Bool.or_comm (Unicode.toLowercase b.trim == _)]
  congr 2
  funext pair
  rw [Bool.or_comm, Bool.and_comm, Bool.and_comm (contains (Unicode.toLowercase a.trim) pair.1)]

/-- The text contains two words of opposite meaning. -/
def Ambivalent (text : Text) : Prop :=
  ∃ pair ∈ antonyms, contains (Unicode.toLowercase text.trim) pair.1 = true ∧
    contains (Unicode.toLowercase text.trim) pair.2 = true

/-- A proposition contradicts itself when it contains two words of opposite meaning. -/
theorem isContradictory_self_iff {text : Text} : isContradictory text text = true ↔ Ambivalent text := by
  have longer : ∀ clean : Text, (clean == "not ".toList ++ clean) = false := by
    intro clean
    rw [beq_eq_false_iff_ne]
    intro same
    have length := congrArg List.length same
    rw [List.length_append] at length
    exact absurd length (Nat.ne_of_lt (Nat.lt_add_of_pos_left (by decide)))
  unfold isContradictory Ambivalent
  dsimp only
  rw [longer, Bool.false_or, Bool.false_or, List.any_eq_true]
  refine exists_congr fun pair => and_congr_right fun _ => ?_
  rw [Bool.and_comm (contains _ pair.2), Bool.or_self, Bool.and_eq_true]

end Propositions

namespace TruthMaintenanceSystem

variable [Binary64]

section Log

variable {system next : TruthMaintenanceSystem}

/-- Each belief is kept with its proposition. -/
def Persists (system next : TruthMaintenanceSystem) : Prop :=
  ∀ (id : KnowledgeId) (belief : Belief), system.beliefs[id]? = some belief →
    ∃ later, next.beliefs[id]? = some later ∧ later.proposition = belief.proposition

theorem OnlyRetracts.persists (only : OnlyRetracts system next) : system.Persists next := by
  intro id belief present
  rcases only id with same | marked
  · exact ⟨belief, same.trans present, rfl⟩
  · exact ⟨setStatus .retracted belief, by rw [marked, present, Option.map_some], rfl⟩

/-- The recording of contradictions with several beliefs adds one entry for each. -/
theorem contradict_contradictions {newer : KnowledgeId} {proposition : Text} {learnedTime : Timestamp}
    (system : TruthMaintenanceSystem) (conflicts : List KnowledgeId) :
    ∃ added, (conflicts.foldl (contradict newer proposition learnedTime) system).contradictions =
      system.contradictions ++ added ∧
        added.map (fun contradiction => (contradiction.itemA, contradiction.itemB)) =
          conflicts.map fun conflict => (conflict, newer) := by
  induction conflicts generalizing system with
  | nil => exact ⟨[], (List.append_nil _).symm, rfl⟩
  | cons conflict conflicts hypothesis =>
      obtain ⟨added, log, items⟩ := hypothesis (contradict newer proposition learnedTime system conflict)
      obtain ⟨entry, recorded, here⟩ : ∃ entry : Contradiction,
          (contradict newer proposition learnedTime system conflict).contradictions = system.contradictions ++ [entry] ∧
            (entry.itemA, entry.itemB) = (conflict, newer) := ⟨_, rfl, rfl⟩
      refine ⟨entry :: added, ?_, ?_⟩
      · rw [List.foldl_cons, log, recorded, List.append_assoc]
        rfl
      · rw [List.map_cons, List.map_cons, items, here]

/-- A retraction records no contradiction. -/
theorem retractBelief_contradictions {fuel : Nat} {id : KnowledgeId} {outcome : Except Text Unit}
    (ends : retractBelief fuel id system = some (outcome, next)) : next.contradictions = system.contradictions := by
  induction fuel generalizing id system next outcome with
  | zero => contradiction
  | succ fuel hypothesis =>
      by_cases known : id ∈ system.beliefs
      · rw [retractBelief_known known] at ends
        obtain ⟨reached, folds, same⟩ := Option.map_eq_some_iff.mp ends
        obtain rfl := (Prod.mk.inj same).2
        have marked : (system.mark id .retracted).contradictions = system.contradictions := rfl
        rw [← marked]
        clear same marked ends
        generalize (system.mark id .retracted).dependents id = ids at folds
        generalize system.mark id .retracted = start at folds ⊢
        induction ids generalizing start with
        | nil => rw [← Option.some.inj folds]
        | cons first rest ih =>
            rw [retractAll, List.foldlM_cons] at folds
            obtain ⟨between, one, others⟩ := Option.bind_eq_some_iff.mp folds
            obtain ⟨⟨result, _⟩, retracts, rfl⟩ := Option.map_eq_some_iff.mp one
            exact (ih _ others).trans (hypothesis retracts)
      · rw [retractBelief_unknown known] at ends
        rw [(Prod.mk.inj (Option.some.inj ends)).2]

variable [Unicode] {inference : Inference}

theorem Performs.contradictions {operation : Operation} (performs : system.Performs operation next) :
    next.contradictions = system.contradictions ∨
      ∃ inference, operation = .inferBelief inference ∧ next = system.infer inference := by
  cases operation with
  | inferBelief inference => exact Or.inr ⟨inference, rfl, performs⟩
  | retractBelief id =>
      obtain ⟨fuel, outcome, ends⟩ := performs
      exact Or.inl (retractBelief_contradictions ends)
  | _ =>
      obtain rfl := performs
      exact Or.inl rfl

/-- An inference records one contradiction with each active belief that it contradicts. -/
theorem infer_contradictions (system : TruthMaintenanceSystem) (inference : Inference) :
    ∃ added, (system.infer inference).contradictions = system.contradictions ++ added ∧
      added.map (fun contradiction => (contradiction.itemA, contradiction.itemB)) =
        (system.conflicting inference.proposition).map fun conflict => (conflict, system.nextId) :=
  contradict_contradictions system.allocId.2 (system.conflicting inference.proposition)

theorem infer_persists (system : TruthMaintenanceSystem) (inference : Inference) :
    system.Persists (system.infer inference) := by
  intro id belief present
  have old : id ≠ system.nextId := by
    rintro rfl
    rw [not_mem_nextId] at present
    contradiction
  unfold infer
  rw [inferBelief_getElem?, if_neg old, present]
  by_cases conflicts : id ∈ system.conflicting inference.proposition
  · exact ⟨setStatus .contradicted belief, if_pos conflicts, rfl⟩
  · exact ⟨belief, if_neg conflicts, rfl⟩

end Log

section Consistency

variable [Unicode]

/-- Both items of the contradiction are beliefs with contradictory propositions. -/
def Clashes (system : TruthMaintenanceSystem) (contradiction : Contradiction) : Prop :=
  ∃ older newer : Belief, system.beliefs[contradiction.itemA]? = some older ∧
    system.beliefs[contradiction.itemB]? = some newer ∧
    isContradictory older.proposition newer.proposition = true

/-- Active beliefs do not contradict each other, and for each contradicted belief there is a record. -/
structure Consistent (system : TruthMaintenanceSystem) : Prop where
  apart : ∀ (id other : KnowledgeId) (belief existing : Belief), id ≠ other → system.beliefs[id]? = some belief →
    system.beliefs[other]? = some existing → belief.status = .active → existing.status = .active →
    isContradictory belief.proposition existing.proposition = false
  recorded : ∀ (id : KnowledgeId) (belief : Belief), system.beliefs[id]? = some belief →
    belief.status = .contradicted → ∃ contradiction ∈ system.contradictions,
      (contradiction.itemA = id ∨ contradiction.itemB = id) ∧ system.Clashes contradiction

variable {system next : TruthMaintenanceSystem} {inference : Inference}

theorem Persists.clashes (persists : system.Persists next) {contradiction : Contradiction}
    (clashes : system.Clashes contradiction) : next.Clashes contradiction := by
  obtain ⟨older, newer, first, second, contradictory⟩ := clashes
  obtain ⟨older', first', sameOlder⟩ := persists _ _ first
  obtain ⟨newer', second', sameNewer⟩ := persists _ _ second
  refine ⟨older', newer', first', second', ?_⟩
  rw [sameOlder, sameNewer]
  exact contradictory

theorem Cascades.consistent (cascades : Cascades system next) (same : next.contradictions = system.contradictions)
    (consistent : system.Consistent) : next.Consistent where
  apart id other belief existing differ present present' active active' := by
    have earlier := cascades.only.unchanged present (by rw [active]; decide)
    have earlier' := cascades.only.unchanged present' (by rw [active']; decide)
    exact consistent.apart id other belief existing differ earlier earlier' active active'
  recorded id belief present contradicted := by
    have earlier := cascades.only.unchanged present (by rw [contradicted]; decide)
    obtain ⟨contradiction, member, item, clashes⟩ := consistent.recorded id belief earlier contradicted
    refine ⟨contradiction, ?_, item, cascades.only.persists.clashes clashes⟩
    rw [same]
    exact member

theorem infer_nextId (system : TruthMaintenanceSystem) (inference : Inference) :
    (system.infer inference).beliefs[system.nextId]? = some (system.inferred inference.proposition
      inference.confidence inference.validTime inference.learnedTime inference.justification) := by
  unfold infer
  rw [inferBelief_getElem?, if_pos rfl]

/-- What an inference leaves active was active before or is the new belief, which nothing contradicts. -/
theorem infer_apart (consistent : system.Consistent) {id other : KnowledgeId} {belief existing : Belief}
    (differ : id ≠ other) (present : (system.infer inference).beliefs[id]? = some belief)
    (present' : (system.infer inference).beliefs[other]? = some existing) (active : belief.status = .active)
    (active' : existing.status = .active) : isContradictory belief.proposition existing.proposition = false := by
  have fresh : ∀ {id other : KnowledgeId} {belief existing : Belief}, id = system.nextId →
      (system.infer inference).beliefs[id]? = some belief → system.conflicting inference.proposition = [] →
      system.beliefs[other]? = some existing → existing.status = .active →
      isContradictory existing.proposition belief.proposition = false := by
    intro id other belief existing new present nothing before active
    rw [new, infer_nextId] at present
    rw [← Option.some.inj present, Bool.eq_false_iff]
    intro contradictory
    have listed : other ∈ system.conflicting inference.proposition :=
      mem_conflicting.mpr ⟨existing, before, active, contradictory⟩
    rw [nothing] at listed
    exact List.not_mem_nil listed
  rcases active_infer present active with ⟨new, nothing, -⟩ | before
  · rcases active_infer present' active' with ⟨new', -, -⟩ | before'
    · exact absurd (new.trans new'.symm) differ
    · rw [isContradictory_comm]
      exact fresh new present nothing before' active'
  · rcases active_infer present' active' with ⟨new', nothing', -⟩ | before'
    · exact fresh new' present' nothing' before active
    · exact consistent.apart id other belief existing differ before before' active active'

/-- The log holds a contradiction with each active belief that an inference contradicts. -/
theorem infer_records {conflict : KnowledgeId} (conflicts : conflict ∈ system.conflicting inference.proposition) :
    ∃ contradiction ∈ (system.infer inference).contradictions, contradiction.itemA = conflict ∧
      contradiction.itemB = system.nextId ∧ (system.infer inference).Clashes contradiction := by
  obtain ⟨added, log, items⟩ := infer_contradictions system inference
  have listed : (conflict, system.nextId) ∈ added.map fun contradiction => (contradiction.itemA, contradiction.itemB) := by
    rw [items]
    exact List.mem_map.mpr ⟨conflict, conflicts, rfl⟩
  obtain ⟨contradiction, member, same⟩ := List.mem_map.mp listed
  obtain ⟨older, newer⟩ := Prod.mk.inj same
  obtain ⟨existing, present, -, contradictory⟩ := mem_conflicting.mp conflicts
  obtain ⟨later, present', proposition⟩ := infer_persists system inference conflict existing present
  have first : (system.infer inference).beliefs[contradiction.itemA]? = some later := by rw [older, present']
  have second := infer_nextId system inference
  rw [← newer] at second
  rw [← proposition] at contradictory
  refine ⟨contradiction, ?_, older, newer, later, _, first, second, contradictory⟩
  rw [log]
  exact List.mem_append_right _ member

theorem infer_recorded (consistent : system.Consistent) {id : KnowledgeId} {belief : Belief}
    (present : (system.infer inference).beliefs[id]? = some belief) (contradicted : belief.status = .contradicted) :
    ∃ contradiction ∈ (system.infer inference).contradictions,
      (contradiction.itemA = id ∨ contradiction.itemB = id) ∧ (system.infer inference).Clashes contradiction := by
  by_cases new : id = system.nextId
  · rw [new, infer_nextId] at present
    rw [← Option.some.inj present] at contradicted
    have some' : system.conflicting inference.proposition ≠ [] := by
      intro nothing
      rw [inferred, if_pos nothing] at contradicted
      contradiction
    obtain ⟨conflict, conflicts⟩ := List.exists_mem_of_ne_nil _ some'
    obtain ⟨contradiction, member, -, newer, clashes⟩ := infer_records conflicts
    exact ⟨contradiction, member, Or.inr (newer.trans new.symm), clashes⟩
  by_cases conflicts : id ∈ system.conflicting inference.proposition
  · obtain ⟨contradiction, member, older, -, clashes⟩ := infer_records conflicts
    exact ⟨contradiction, member, Or.inl older, clashes⟩
  · unfold infer at present
    rw [inferBelief_getElem?, if_neg new, if_neg conflicts] at present
    obtain ⟨contradiction, member, item, clashes⟩ := consistent.recorded id belief present contradicted
    obtain ⟨added, log, -⟩ := infer_contradictions system inference
    refine ⟨contradiction, ?_, item, (infer_persists system inference).clashes clashes⟩
    rw [log]
    exact List.mem_append_left _ member

theorem Performs.consistent {operation : Operation} (performs : system.Performs operation next)
    (consistent : system.Consistent) : next.Consistent := by
  rcases performs.contradictions with log | ⟨inference, rfl, rfl⟩
  · rcases performs.cases with same | ⟨inference, rfl, rfl⟩ | cascades
    · obtain ⟨apart, recorded⟩ := consistent
      refine ⟨?_, ?_⟩
      · rw [same]
        exact apart
      · unfold Clashes at recorded ⊢
        rw [same, log]
        exact recorded
    · exact ⟨fun _ _ _ _ => infer_apart consistent, fun _ _ => infer_recorded consistent⟩
    · exact cascades.consistent log consistent
  · exact ⟨fun _ _ _ _ => infer_apart consistent, fun _ _ => infer_recorded consistent⟩

/-- In every state of a run the active beliefs agree and the contradicted ones are recorded. -/
theorem runs_consistent {start reached : TruthMaintenanceSystem} (starts : start = new ∨ start = default)
    {operations : List Operation} (runs : start.Runs operations reached) : reached.Consistent := by
  have empty : start.beliefs = ∅ := by rcases starts with rfl | rfl <;> rfl
  have consistent : start.Consistent := by
    refine ⟨fun id _ belief _ _ present => ?_, fun id belief present => ?_⟩
    · rw [empty] at present
      contradiction
    · rw [empty] at present
      contradiction
  have step : ∀ system operation next, Consistent system → True → system.Performs operation next → next.Consistent :=
    fun _ _ _ holds _ performs => performs.consistent holds
  exact runs.preserves step consistent fun _ _ _ _ _ => trivial

end Consistency

section Self

variable [Unicode]

/-- Only beliefs in this proposition are active. -/
def Only (system : TruthMaintenanceSystem) (proposition : Text) : Prop :=
  ∀ (id : KnowledgeId) (belief : Belief), system.beliefs[id]? = some belief → belief.status = .active →
    belief.proposition = proposition

/-- The inference adds an active belief and no contradiction. -/
def Accepts (system : TruthMaintenanceSystem) (inference : Inference) : Prop :=
  (∃ belief : Belief, (system.infer inference).beliefs[system.nextId]? = some belief ∧ belief.status = .active) ∧
    (system.infer inference).contradictions = system.contradictions

variable {system : TruthMaintenanceSystem} {inference : Inference}

theorem accepts_iff : system.Accepts inference ↔ system.conflicting inference.proposition = [] := by
  constructor
  · rintro ⟨⟨belief, present, active⟩, -⟩
    rw [infer_nextId] at present
    rw [← Option.some.inj present] at active
    by_contra some'
    rw [inferred, if_neg some'] at active
    contradiction
  · intro nothing
    refine ⟨⟨_, infer_nextId system inference, if_pos nothing⟩, ?_⟩
    obtain ⟨added, log, items⟩ := infer_contradictions system inference
    rw [nothing] at items
    rw [log, List.map_eq_nil_iff.mp items, List.append_nil]

/-- Where no other proposition is active, a proposition meets no contradiction unless it contradicts itself. -/
theorem Only.conflicting (only : system.Only inference.proposition)
    (coherent : isContradictory inference.proposition inference.proposition = false) :
    system.conflicting inference.proposition = [] := by
  rw [List.eq_nil_iff_forall_not_mem]
  intro id member
  obtain ⟨belief, present, active, contradictory⟩ := mem_conflicting.mp member
  rw [only id belief present active, coherent] at contradictory
  contradiction

theorem Only.infer {proposition : Text} (only : system.Only proposition) (same : inference.proposition = proposition) :
    (system.infer inference).Only proposition := by
  intro id belief present active
  rcases active_infer present active with ⟨new, -, -⟩ | before
  · rw [new, infer_nextId] at present
    rw [← Option.some.inj present]
    exact same
  · exact only id belief before active

theorem Only.inferAll {proposition : Text} {inferences : List Inference} (only : system.Only proposition)
    (same : ∀ inference ∈ inferences, inference.proposition = proposition) :
    (system.inferAll inferences).Only proposition := by
  induction inferences generalizing system with
  | nil => exact only
  | cons inference inferences hypothesis =>
      exact hypothesis (only.infer (same inference List.mem_cons_self))
        fun other member => same other (List.mem_cons_of_mem _ member)

/-- Where no other proposition is active, a proposition is accepted again and again exactly when it does not contain
two words of opposite meaning, and exactly then it does not contradict itself. -/
theorem inferences_accepted_iff (only : system.Only inference.proposition) :
    ((∀ inferences : List Inference, (∀ other ∈ inferences, other.proposition = inference.proposition) →
      (system.inferAll inferences).Accepts inference) ↔ ¬ Ambivalent inference.proposition) ∧
    (isContradictory inference.proposition inference.proposition = false ↔ ¬ Ambivalent inference.proposition) := by
  have coherent : isContradictory inference.proposition inference.proposition = false ↔
      ¬ Ambivalent inference.proposition := by rw [← isContradictory_self_iff, Bool.not_eq_true]
  refine ⟨⟨fun accepted ambivalent => ?_, fun plain inferences same => ?_⟩, coherent⟩
  · have once := accepts_iff.mp (accepted [] fun _ member => absurd member List.not_mem_nil)
    have twice := accepts_iff.mp (accepted [inference] fun other member => by rw [List.mem_singleton.mp member])
    have listed : system.nextId ∈ (system.infer inference).conflicting inference.proposition :=
      mem_conflicting.mpr ⟨_, infer_nextId system inference, if_pos once, isContradictory_self_iff.mpr ambivalent⟩
    rw [show (system.infer inference).conflicting inference.proposition = [] from twice] at listed
    exact List.not_mem_nil listed
  · exact accepts_iff.mpr ((only.inferAll same).conflicting (coherent.mpr plain))

end Self

end TruthMaintenanceSystem

section Samples

open TruthMaintenanceSystem

theorem runs_consistent_sample :
    letI := Binary64.exact
    letI := Unicode.ascii
    ∃ reached, new.Runs [.inferBelief (assumed "alive".toList ⟨(1 : ℚ)⟩ 1),
      .inferBelief (assumed "dead".toList ⟨(1 : ℚ)⟩ 2), .retractBelief 1] reached ∧ reached.Consistent := by
  let := Binary64.exact
  let := Unicode.ascii
  obtain ⟨reached, runs⟩ : ∃ reached, new.Runs [.inferBelief (assumed "alive".toList ⟨(1 : ℚ)⟩ 1),
      .inferBelief (assumed "dead".toList ⟨(1 : ℚ)⟩ 2), .retractBelief 1] reached :=
    ⟨_, _, rfl, _, rfl, _, ⟨2, .ok (), rfl⟩, rfl⟩
  exact ⟨reached, runs, runs_consistent (Or.inl rfl) runs⟩

theorem inferences_accepted_iff_sample :
    letI := Binary64.exact
    letI := Unicode.ascii
    (new.inferAll [assumed "warm".toList ⟨(1 : ℚ)⟩ 1]).Accepts (assumed "warm".toList ⟨(1 : ℚ)⟩ 2) := by
  let := Binary64.exact
  let := Unicode.ascii
  have only : new.Only (assumed "warm".toList ⟨(1 : ℚ)⟩ 2).proposition := by
    intro id belief present
    contradiction
  have plain : ¬ Ambivalent (assumed "warm".toList ⟨(1 : ℚ)⟩ 2).proposition := by
    rw [← isContradictory_self_iff]
    decide
  exact (inferences_accepted_iff only).1.mpr plain _ fun other member => by rw [List.mem_singleton.mp member]; rfl

/-- The word for one state contains the word for the opposite one. -/
theorem inactive_contradicts_itself :
    letI := Binary64.exact
    letI := Unicode.ascii
    new.Only "inactive".toList ∧ isContradictory "inactive".toList "inactive".toList = true ∧
      ¬ (new.inferAll [assumed "inactive".toList ⟨(1 : ℚ)⟩ 1]).Accepts (assumed "inactive".toList ⟨(1 : ℚ)⟩ 2) := by
  let := Binary64.exact
  let := Unicode.ascii
  refine ⟨fun id belief present => by contradiction, by decide, ?_⟩
  rw [accepts_iff]
  decide

end Samples

end Temnion.Epistemic
