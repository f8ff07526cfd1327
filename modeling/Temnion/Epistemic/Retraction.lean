import Temnion.Epistemic.Cutoff

/-
This file follows a retraction through the dependent beliefs and says when active beliefs rest on retracted ones.
-/

namespace Temnion.Epistemic

open Query OrderedMap

namespace TruthMaintenanceSystem

section Cascade

variable [Binary64]

def Retracted (system : TruthMaintenanceSystem) (id : KnowledgeId) : Prop :=
  ∃ belief, system.beliefs[id]? = some belief ∧ belief.status = .retracted

/-- The belief names the id as one of its premises. -/
def Depends (system : TruthMaintenanceSystem) (id premise : KnowledgeId) : Prop :=
  ∃ belief, system.beliefs[id]? = some belief ∧ premise ∈ belief.justification.premises

/-- Some beliefs have been retracted, and nothing else has changed. -/
def OnlyRetracts (before after : TruthMaintenanceSystem) : Prop :=
  ∀ id : KnowledgeId, after.beliefs[id]? = before.beliefs[id]? ∨
    after.beliefs[id]? = before.beliefs[id]?.map (setStatus .retracted)

variable {before middle after system : TruthMaintenanceSystem} {id premise : KnowledgeId}

namespace OnlyRetracts

theorem refl (system : TruthMaintenanceSystem) : OnlyRetracts system system := fun _ => Or.inl rfl

theorem trans (first : OnlyRetracts before middle) (second : OnlyRetracts middle after) : OnlyRetracts before after := by
  intro id
  rcases second id with same | marked
  · rw [same]
    exact first id
  · right
    rcases first id with same | earlier
    · rw [marked, same]
    · rw [marked, earlier, Option.map_map]
      rfl

theorem mark (system : TruthMaintenanceSystem) (id : KnowledgeId) : OnlyRetracts system (system.mark id .retracted) := by
  intro other
  rw [mark_getElem?]
  by_cases same : other = id
  · rw [if_pos same]
    exact Or.inr rfl
  · rw [if_neg same]
    exact Or.inl rfl

theorem mem_iff (only : OnlyRetracts before after) : id ∈ after.beliefs ↔ id ∈ before.beliefs := by
  rw [Std.ExtTreeMap.mem_iff_isSome_getElem?, Std.ExtTreeMap.mem_iff_isSome_getElem?]
  rcases only id with same | marked
  · rw [same]
  · rw [marked, Option.isSome_map]

theorem depends_iff (only : OnlyRetracts before after) : after.Depends id premise ↔ before.Depends id premise := by
  unfold Depends
  rcases only id with same | marked
  · rw [same]
  · rw [marked]
    constructor
    · intro depends
      obtain ⟨_, relabelled, named⟩ := depends
      obtain ⟨belief, present, rfl⟩ := Option.map_eq_some_iff.mp relabelled
      exact ⟨belief, present, named⟩
    · intro depends
      obtain ⟨belief, present, named⟩ := depends
      exact ⟨setStatus .retracted belief, by rw [present, Option.map_some], named⟩

/-- A retracted belief stays retracted. -/
theorem retracted (only : OnlyRetracts before after) (earlier : before.Retracted id) : after.Retracted id := by
  obtain ⟨belief, present, status⟩ := earlier
  rcases only id with same | marked
  · exact ⟨belief, by rw [same, present], status⟩
  · exact ⟨setStatus .retracted belief, by rw [marked, present, Option.map_some], rfl⟩

/-- A belief that is not retracted is the same as before. -/
theorem unchanged (only : OnlyRetracts before after) {belief : Belief} (present : after.beliefs[id]? = some belief)
    (status : belief.status ≠ .retracted) : before.beliefs[id]? = some belief := by
  rcases only id with same | marked
  · rw [← same, present]
  · rw [present] at marked
    obtain ⟨earlier, _, rfl⟩ := Option.map_eq_some_iff.mp marked.symm
    contradiction

end OnlyRetracts

/-- A retraction takes all the beliefs with it that depend on what it has retracted. -/
structure Cascades (before after : TruthMaintenanceSystem) : Prop where
  only : OnlyRetracts before after
  closed : ∀ premise, after.Retracted premise →
    before.Retracted premise ∨ ∀ id, before.Depends id premise → after.Retracted id

theorem Cascades.refl (system : TruthMaintenanceSystem) : Cascades system system :=
  ⟨.refl system, fun _ retracted => Or.inl retracted⟩

theorem Cascades.trans (first : Cascades before middle) (second : Cascades middle after) : Cascades before after where
  only := first.only.trans second.only
  closed premise retracted := by
    rcases second.closed premise retracted with earlier | all
    · rcases first.closed premise earlier with start | every
      · exact Or.inl start
      · exact Or.inr fun id depends => second.only.retracted (every id depends)
    · exact Or.inr fun id depends => all id (first.only.depends_iff.mpr depends)

theorem mem_of_depends (depends : system.Depends id premise) : id ∈ system.beliefs := by
  obtain ⟨belief, present, _⟩ := depends
  exact Std.ExtTreeMap.mem_iff_isSome_getElem?.mpr (Option.isSome_of_eq_some present)

/-- The retraction of several beliefs one after the other. -/
def retractAll (fuel : Nat) (ids : List KnowledgeId) (system : TruthMaintenanceSystem) : Option TruthMaintenanceSystem :=
  ids.foldlM (fun reached id => (retractBelief fuel id reached).map Prod.snd) system

theorem retractBelief_unknown {fuel : Nat} (unknown : id ∉ system.beliefs) :
    retractBelief (fuel + 1) id system = some (.error (notFound id), system) := by
  rw [retractBelief, if_neg unknown]

theorem retractBelief_known {fuel : Nat} (known : id ∈ system.beliefs) : retractBelief (fuel + 1) id system =
    (retractAll fuel ((system.mark id .retracted).dependents id) (system.mark id .retracted)).map
      fun reached => (.ok (), reached) := by
  rw [retractBelief, if_pos known, Option.map_eq_bind]
  rfl

/-- What a retraction that ends has done. -/
theorem retractBelief_cascades {fuel : Nat} {outcome : Except Text Unit}
    (ends : retractBelief fuel id before = some (outcome, after)) :
    Cascades before after ∧ (id ∈ before.beliefs → after.Retracted id) := by
  induction fuel generalizing id before after outcome with
  | zero => contradiction
  | succ fuel hypothesis =>
      have several : ∀ (ids : List KnowledgeId) (start reached : TruthMaintenanceSystem),
          retractAll fuel ids start = some reached → Cascades start reached ∧
            ∀ other ∈ ids, other ∈ start.beliefs → reached.Retracted other := by
        intro ids
        induction ids with
        | nil =>
            intro start reached same
            obtain rfl := Option.some.inj same
            exact ⟨.refl start, nofun⟩
        | cons first rest ih =>
            intro start reached folds
            rw [retractAll, List.foldlM_cons] at folds
            obtain ⟨between, one, others⟩ := Option.bind_eq_some_iff.mp folds
            obtain ⟨⟨result, _⟩, retracts, rfl⟩ := Option.map_eq_some_iff.mp one
            obtain ⟨head, headRetracted⟩ := hypothesis retracts
            obtain ⟨tail, tailRetracted⟩ := ih _ _ others
            refine ⟨head.trans tail, fun other member known => ?_⟩
            rcases List.mem_cons.mp member with rfl | member
            · exact tail.only.retracted (headRetracted known)
            · exact tailRetracted other member (head.only.mem_iff.mpr known)
      by_cases known : id ∈ before.beliefs
      · rw [retractBelief_known known] at ends
        obtain ⟨reached, folds, same⟩ := Option.map_eq_some_iff.mp ends
        obtain rfl := (Prod.mk.inj same).2
        obtain ⟨cascades, all⟩ := several _ _ _ folds
        have marks := OnlyRetracts.mark before id
        have marked : (before.mark id .retracted).Retracted id := by
          obtain ⟨belief, present⟩ := Option.isSome_iff_exists.mp (Std.ExtTreeMap.mem_iff_isSome_getElem?.mp known)
          refine ⟨setStatus .retracted belief, ?_, rfl⟩
          rw [mark_getElem?, if_pos rfl, present, Option.map_some]
        refine ⟨⟨marks.trans cascades.only, fun premise retracted => ?_⟩, fun _ => cascades.only.retracted marked⟩
        rcases cascades.closed premise retracted with earlier | every
        · by_cases same : premise = id
          · right
            intro other depends
            have dependsMarked := marks.depends_iff.mpr depends
            rw [same] at dependsMarked
            exact all other (mem_dependents.mpr dependsMarked) (mem_of_depends dependsMarked)
          · left
            obtain ⟨belief, present, status⟩ := earlier
            rw [mark_getElem?, if_neg same] at present
            exact ⟨belief, present, status⟩
        · exact Or.inr fun other depends => every other (marks.depends_iff.mpr depends)
      · rw [retractBelief_unknown known] at ends
        obtain rfl := (Prod.mk.inj (Option.some.inj ends)).2
        exact ⟨.refl before, fun present => absurd present known⟩

end Cascade

section Runs

variable [Binary64] [Unicode]

/-- The calls that change the system. A concept, a model or a skill only takes an id. -/
inductive Operation where
  | recordObservation (eventRef : EventId) (validTime knownTime : Timestamp) (feature valueRepr : Text)
  | assertClaim (source proposition : Text) (confidence : Confidence) (validFrom validTo assertedAt : Timestamp)
  | inferBelief (inference : Inference)
  | defineRule (name antecedent consequent : Text) (confidence : Confidence)
  | register
  | retractBelief (id : KnowledgeId)

/-- The call returns and leaves this system. A retraction may also go on for ever. -/
def Performs (system : TruthMaintenanceSystem) : Operation → TruthMaintenanceSystem → Prop
  | .recordObservation eventRef validTime knownTime feature valueRepr, next =>
      next = (system.recordObservation eventRef validTime knownTime feature valueRepr).2
  | .assertClaim source proposition confidence validFrom validTo assertedAt, next =>
      next = (system.assertClaim source proposition confidence validFrom validTo assertedAt).2
  | .inferBelief inference, next => next = system.infer inference
  | .defineRule name antecedent consequent confidence, next =>
      next = (system.defineRule name antecedent consequent confidence).2
  | .register, next => next = system.allocId.2
  | .retractBelief id, next => ∃ fuel outcome, system.retractBelief fuel id = some (outcome, next)

def Runs : TruthMaintenanceSystem → List Operation → TruthMaintenanceSystem → Prop
  | system, [], reached => reached = system
  | system, operation :: operations, reached => ∃ next, system.Performs operation next ∧ Runs next operations reached

/-- An operation changes no belief, infers one, or retracts some. -/
theorem Performs.cases {system next : TruthMaintenanceSystem} {operation : Operation}
    (performs : system.Performs operation next) :
    next.beliefs = system.beliefs ∨ (∃ inference, operation = .inferBelief inference ∧ next = system.infer inference) ∨
      Cascades system next := by
  cases operation with
  | inferBelief inference => exact Or.inr (Or.inl ⟨inference, rfl, performs⟩)
  | retractBelief id =>
      obtain ⟨fuel, outcome, ends⟩ := performs
      exact Or.inr (Or.inr (retractBelief_cascades ends).1)
  | _ =>
      obtain rfl := performs
      exact Or.inl rfl

theorem Runs.append {system middle reached : TruthMaintenanceSystem} {first second : List Operation}
    (head : system.Runs first middle) (tail : middle.Runs second reached) : system.Runs (first ++ second) reached := by
  induction first generalizing system with
  | nil =>
      obtain rfl := head
      exact tail
  | cons operation first hypothesis =>
      obtain ⟨next, performs, rest⟩ := head
      exact ⟨next, performs, hypothesis rest⟩

/-- What the allowed operations preserve holds wherever a run of them ends. -/
theorem Runs.preserves {start reached : TruthMaintenanceSystem} {operations : List Operation}
    {kept : TruthMaintenanceSystem → Prop} {allowed : TruthMaintenanceSystem → Operation → Prop}
    (step : ∀ system operation next, kept system → allowed system operation → system.Performs operation next → kept next)
    (runs : start.Runs operations reached) (holds : kept start)
    (follows : ∀ done operation middle, done ++ [operation] <+: operations → start.Runs done middle →
      allowed middle operation) : kept reached := by
  induction operations generalizing start with
  | nil =>
      obtain rfl := runs
      exact holds
  | cons operation operations hypothesis =>
      obtain ⟨next, performs, rest⟩ := runs
      have permitted := follows [] operation start (List.cons_prefix_cons.mpr ⟨rfl, List.nil_prefix⟩) rfl
      apply hypothesis rest (step _ _ _ holds permitted performs)
      intro done other middle within earlier
      exact follows (operation :: done) other middle (List.cons_prefix_cons.mpr ⟨rfl, within⟩) ⟨next, performs, earlier⟩

/-- No active belief has a retracted belief among its premises. -/
def Grounded (system : TruthMaintenanceSystem) : Prop :=
  ∀ (id : KnowledgeId) (belief : Belief), system.beliefs[id]? = some belief → belief.status = .active →
    ∀ premise ∈ belief.justification.premises, ¬system.Retracted premise

/-- The inference names no retracted belief, or it contradicts an active one and is not active itself. -/
def Supported (system : TruthMaintenanceSystem) : Operation → Prop
  | .inferBelief inference => system.conflicting inference.proposition ≠ [] ∨
      ∀ premise ∈ inference.justification.premises, ¬system.Retracted premise
  | _ => True

variable {system next : TruthMaintenanceSystem} {inference : Inference} {id : KnowledgeId}

omit [Unicode] in
theorem Cascades.grounded (cascades : Cascades system next) (grounded : system.Grounded) : next.Grounded := by
  intro id belief present active premise named retracted
  have earlier := cascades.only.unchanged present (by rw [active]; decide)
  rcases cascades.closed premise retracted with before | all
  · exact grounded id belief earlier active premise named before
  · obtain ⟨same, present', status⟩ := all id ⟨belief, earlier, named⟩
    rw [present] at present'
    obtain rfl := Option.some.inj present'
    rw [active] at status
    contradiction

/-- An inference retracts nothing. -/
theorem retracted_infer_iff : (system.infer inference).Retracted id ↔ system.Retracted id := by
  unfold Retracted infer
  rw [inferBelief_getElem?]
  by_cases fresh : id = system.nextId
  · rw [if_pos fresh, fresh, not_mem_nextId]
    refine iff_of_false ?_ nofun
    intro retracted
    obtain ⟨belief, same, status⟩ := retracted
    obtain rfl := Option.some.inj same
    rw [inferred] at status
    split at status <;> contradiction
  · rw [if_neg fresh]
    by_cases conflicts : id ∈ system.conflicting inference.proposition
    · obtain ⟨existing, present, active, _⟩ := mem_conflicting.mp conflicts
      rw [if_pos conflicts, present, Option.map_some]
      refine iff_of_false ?_ ?_
      · intro retracted
        obtain ⟨belief, same, status⟩ := retracted
        obtain rfl := Option.some.inj same
        contradiction
      · intro retracted
        obtain ⟨belief, same, status⟩ := retracted
        obtain rfl := Option.some.inj same
        rw [active] at status
        contradiction
    · rw [if_neg conflicts]

/-- An active belief after an inference is the new one or was active before. -/
theorem active_infer {belief : Belief} (present : (system.infer inference).beliefs[id]? = some belief)
    (active : belief.status = .active) : (id = system.nextId ∧ system.conflicting inference.proposition = [] ∧
      belief.justification = inference.justification) ∨ system.beliefs[id]? = some belief := by
  unfold infer at present
  rw [inferBelief_getElem?] at present
  by_cases fresh : id = system.nextId
  · rw [if_pos fresh] at present
    obtain rfl := Option.some.inj present
    refine Or.inl ⟨fresh, ?_, rfl⟩
    by_contra some'
    rw [inferred, if_neg some'] at active
    contradiction
  · rw [if_neg fresh] at present
    by_cases conflicts : id ∈ system.conflicting inference.proposition
    · rw [if_pos conflicts] at present
      obtain ⟨existing, _, rfl⟩ := Option.map_eq_some_iff.mp present
      contradiction
    · rw [if_neg conflicts] at present
      exact Or.inr present

theorem grounded_infer_iff (grounded : system.Grounded) :
    (system.infer inference).Grounded ↔ system.Supported (.inferBelief inference) := by
  constructor
  · intro after
    by_contra unsupported
    obtain ⟨none', some'⟩ := not_or.mp unsupported
    have empty := not_not.mp none'
    obtain ⟨premise, named, retracted⟩ := not_forall₂.mp some'
    have present : (system.infer inference).beliefs[system.nextId]? = some (system.inferred inference.proposition
        inference.confidence inference.validTime inference.learnedTime inference.justification) := by
      unfold infer
      rw [inferBelief_getElem?, if_pos rfl]
    exact after _ _ present (if_pos empty) premise named (retracted_infer_iff.mpr (not_not.mp retracted))
  · intro supported id belief present active premise named retracted
    have earlier := retracted_infer_iff.mp retracted
    rcases active_infer present active with ⟨_, empty, same⟩ | before
    · rw [same] at named
      exact (supported.resolve_left (not_not.mpr empty)) premise named earlier
    · exact grounded id belief before active premise named earlier

/-- Every state of a run is grounded exactly when each of its inferences is supported. -/
theorem grounded_iff {start : TruthMaintenanceSystem} (starts : start = new ∨ start = default)
    (operations : List Operation) :
    (∀ done reached, done <+: operations → start.Runs done reached → reached.Grounded) ↔
      ∀ done operation middle, done ++ [operation] <+: operations → start.Runs done middle →
        middle.Supported operation := by
  constructor
  · intro always done operation middle within runs
    cases operation with
    | inferBelief inference =>
        have before := always done middle ((List.prefix_append _ _).trans within) runs
        have after := always _ _ within (runs.append ⟨middle.infer inference, rfl, rfl⟩)
        exact (grounded_infer_iff before).mp after
    | _ => trivial
  · intro supported done reached within runs
    have empty : start.beliefs = ∅ := by rcases starts with rfl | rfl <;> rfl
    have grounded : start.Grounded := by
      intro id belief present
      rw [empty] at present
      contradiction
    apply runs.preserves _ grounded fun earlier operation middle inside => supported earlier operation middle (inside.trans within)
    intro system operation next holds allowed performs
    rcases performs.cases with same | ⟨inference, rfl, rfl⟩ | cascades
    · unfold Grounded Retracted
      rw [same]
      exact holds
    · exact (grounded_infer_iff holds).mpr allowed
    · exact cascades.grounded holds

end Runs

end TruthMaintenanceSystem

section Samples

open TruthMaintenanceSystem

theorem grounded_iff_sample :
    letI := Binary64.exact
    letI := Unicode.ascii
    ∃ reached, new.Runs [.inferBelief (assumed "rain".toList ⟨(1 : ℚ)⟩ 1), .retractBelief 1] reached ∧
      reached.Grounded := by
  let := Binary64.exact
  let := Unicode.ascii
  have always := (grounded_iff (Or.inl rfl)
    [.inferBelief (assumed "rain".toList ⟨(1 : ℚ)⟩ 1), .retractBelief 1]).mpr <| by
      intro done operation middle within _
      have member := within.subset (List.mem_append_right done (List.mem_singleton_self operation))
      rcases List.mem_pair.mp member with rfl | rfl
      · exact Or.inr nofun
      · trivial
  refine ⟨_, ⟨_, rfl, _, ⟨2, .ok (), rfl⟩, rfl⟩, ?_⟩
  exact always _ _ (List.prefix_refl _) ⟨_, rfl, _, ⟨2, .ok (), rfl⟩, rfl⟩

/-- The second belief is active although its premise was retracted before. -/
theorem active_belief_on_retracted_premise :
    letI := Binary64.exact
    letI := Unicode.ascii
    ∃ reached, new.Runs [.inferBelief (assumed "rain".toList ⟨(1 : ℚ)⟩ 1), .retractBelief 1,
      .inferBelief { assumed "wet".toList ⟨(1 : ℚ)⟩ 2 with justification := ⟨[], [1], [], []⟩ }] reached ∧
        ¬reached.Grounded := by
  let := Binary64.exact
  let := Unicode.ascii
  refine ⟨_, ⟨_, rfl, _, ⟨2, .ok (), rfl⟩, _, rfl, rfl⟩, ?_⟩
  intro grounded
  exact grounded 2 _ rfl rfl 1 (List.mem_singleton_self 1) ⟨_, rfl, rfl⟩

end Samples

end Temnion.Epistemic
