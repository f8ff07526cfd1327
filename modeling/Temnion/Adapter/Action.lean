import Temnion.Adapter.Mirror
import Temnion.Causal.Events
import Temnion.Causal.Trace
import Temnion.Library.Words

/-
This file reconstructs the lineage of an action and says when the lineage holds no later knowledge.
-/

namespace Temnion.Adapter

open Causal OrderedMap

def schemaPercept : SchemaId := 101

def schemaIntention : SchemaId := 102

def schemaAction : SchemaId := 103

def schemaOutcome : SchemaId := 104

def schemaBeliefUpdate : SchemaId := 105

inductive ActionTraceNode where
  | percept (event : EventId) (organ sensor : String) (timestamp : UInt64)
  | retrievedBelief (event : EventId) (concept : String) (confidence : ℚ) (timestamp : UInt64)
  | intention (event : EventId) (goal policy : String) (timestamp : UInt64)
  | action (event : EventId) (actionId command : String) (timestamp : UInt64)
  | outcome (event : EventId) (reward : ℚ) (timestamp : UInt64)
  | sourceGap (stepName : String) (expectedTime : UInt64)

structure ActionTrace where
  actionEvent : EventId
  nodes : List ActionTraceNode
  edges : List (EventId × EventId)
  futureLeakageDetected : Bool
  totalCauses : Nat

/-- The nodes that the causes have given so far. -/
structure Lineage where
  nodes : List ActionTraceNode
  hasPercept : Bool
  hasIntention : Bool

def causeNode (event : StoredEvent) : Option ActionTraceNode :=
  if event.schema = schemaPercept then
    some (.percept event.id "SensoryOrgan" "Vision0" event.times.valid.ticks)
  else if event.schema = schemaIntention then
    some (.intention event.id "ReachTarget" "PolicyV1" event.times.valid.ticks)
  else if event.schema = schemaBeliefUpdate then
    some (.retrievedBelief event.id "ObstacleAhead" (92 / 100) event.times.valid.ticks)
  else none

/-- The event was known only after the action. -/
def Leaks (action event : StoredEvent) : Prop :=
  action.times.known.ticks < event.times.known.ticks ∧ event.id ≠ action.id

instance (action event : StoredEvent) : Decidable (Leaks action event) := inferInstanceAs (Decidable (_ ∧ _))

/-- A cause that is not in the list gives no node. -/
def visitCause (byId : OrderedMap EventId StoredEvent) (action : StoredEvent) (lineage : Lineage) (id : EventId) :
    Except AdapterError Lineage :=
  match byId[id]? with
  | none => .ok lineage
  | some event =>
      if Leaks action event then
        .error (.futureKnowledgeLeakage action.times.known.ticks event.times.known.ticks)
      else .ok {
        nodes := lineage.nodes ++ (causeNode event).toList
        hasPercept := lineage.hasPercept || event.schema == schemaPercept
        hasIntention := lineage.hasIntention || event.schema == schemaIntention }

/-- A step that left no event is a gap, so many ticks before the action. -/
def gap (present : Bool) (stepName : String) (before : Nat) (actionTime : UInt64) : List ActionTraceNode :=
  if present then [] else [.sourceGap stepName (UInt64.ofNat (actionTime.toNat - before))]

def outcomes (events : List StoredEvent) (action : StoredEvent) : List StoredEvent :=
  events.filter fun event => event.schema = schemaOutcome ∧ action.id ∈ event.causes

def completed (events : List StoredEvent) (action : StoredEvent) (trace : CausalTrace) (lineage : Lineage) :
    ActionTrace where
  actionEvent := action.id
  nodes := lineage.nodes ++ gap lineage.hasPercept "Perception" 10 action.times.known.ticks ++
    gap lineage.hasIntention "IntentionSelection" 2 action.times.known.ticks ++
    [.action action.id "ActionExec" "MoveForward" action.times.known.ticks] ++
    (outcomes events action).map fun event => .outcome event.id 1 event.times.valid.ticks
  edges := (outcomes events action).map (fun event => (action.id, event.id)) ++ trace.edges
  futureLeakageDetected := false
  totalCauses := trace.events.length

def bySequence (events : List StoredEvent) : OrderedMap UInt64 StoredEvent :=
  events.foldl (fun map event => map.insert event.id.sequence event) ∅

def byId (events : List StoredEvent) : OrderedMap EventId StoredEvent :=
  events.foldl (fun map event => map.insert event.id event) ∅

/-- The causes up to this depth are traced. -/
def traceDepth : Nat := 32

/-- None stands for a trace of the causes that does not end. -/
def traceAction (target : UInt64) (events : List StoredEvent) : Option (Except AdapterError ActionTrace) :=
  match (bySequence events)[target]? with
  | none => some (.error (.actionNotFound target))
  | some action =>
      if action.schema ≠ schemaAction then some (.error (.actionNotFound target))
      else ((CausalGraph.ofEvents events).traceCauses action.id traceDepth).map fun trace =>
        ((trace.events.mergeSort fun first second => first.sequence ≤ second.sequence).foldlM
          (visitCause (byId events) action) ⟨[], false, false⟩).map (completed events action trace)

section Visits

variable {events : List StoredEvent} {action : StoredEvent} {ids : List EventId} {lineage : Lineage}

/-- The causes are visited to the end exactly when none of them leaks. -/
theorem visitCauses_ok_iff {map : OrderedMap EventId StoredEvent} :
    (∃ last, ids.foldlM (visitCause map action) lineage = .ok last) ↔
      ∀ id ∈ ids, ∀ event, map[id]? = some event → ¬Leaks action event := by
  induction ids generalizing lineage with
  | nil => simp [Pure.pure, Except.pure]
  | cons id ids hypothesis =>
      rw [List.foldlM_cons, List.forall_mem_cons, visitCause]
      cases found : map[id]? with
      | none => simpa [Except.ok_bind] using hypothesis
      | some event =>
          by_cases leaks : Leaks action event
          · simp [leaks, Bind.bind, Except.bind]
          · simpa [leaks, Except.ok_bind] using hypothesis

end Visits

section Safety

variable {events : List StoredEvent} {action event : StoredEvent} {target : UInt64}

theorem ids_nodup (distinct : (events.map fun event => event.id.sequence).Nodup) : (events.map StoredEvent.id).Nodup := by
  refine List.Nodup.of_map EventId.sequence ?_
  rwa [List.map_map]

theorem bySequence_getElem? (distinct : (events.map fun event => event.id.sequence).Nodup) :
    (bySequence events)[target]? = some action ↔ action ∈ events ∧ action.id.sequence = target := by
  rw [bySequence, foldl_insert_getElem? distinct]
  simp only [exists_eq_right_right]

theorem byId_getElem? (distinct : (events.map StoredEvent.id).Nodup) {id : EventId} :
    (byId events)[id]? = some event ↔ event ∈ events ∧ event.id = id := by
  rw [byId, foldl_insert_getElem? distinct]
  simp only [exists_eq_right_right]

/-- The causes of the event lead back from it in at most so many steps. -/
def Near (events : List StoredEvent) (action event : StoredEvent) : Prop :=
  ∃ steps ≤ traceDepth, Trace.Path (causesOf events) action.id steps event.id

/-- The trace of an action holds the events near it. -/
theorem traceCauses_near (distinct : (events.map StoredEvent.id).Nodup)
    (acyclic : ∀ event, ¬Relation.TransGen (Cites events) event event) :
    ∃ trace, (CausalGraph.ofEvents events).traceCauses action.id traceDepth = some trace ∧
      ∀ event, event.id ∈ trace.events ↔ Near events action event := by
  obtain ⟨⟨trace, ended, exact', -⟩, -⟩ := (CausalGraph.ofEvents events).traces_exact action.id traceDepth
  have same : ∀ node neighbour, neighbour ∈ (CausalGraph.ofEvents events).immediateCauses node ↔
      neighbour ∈ causesOf events node := fun node neighbour => CausalGraph.mem_ofEvents_causes distinct acyclic
  refine ⟨trace, ended, fun event => (exact'.reached event.id).trans ?_⟩
  constructor
  · rintro ⟨steps, short, path⟩
    exact ⟨steps, short, path.mono fun node neighbour => (same node neighbour).mp⟩
  · rintro ⟨steps, short, path⟩
    exact ⟨steps, short, path.mono fun node neighbour => (same node neighbour).mpr⟩

/-- The visits of the traced events end exactly when nothing near leaks. -/
theorem returned_iff (distinct : (events.map StoredEvent.id).Nodup) {trace : CausalTrace}
    (near : ∀ event, event.id ∈ trace.events ↔ Near events action event) :
    (∃ found, (some trace).map (fun trace =>
      ((trace.events.mergeSort fun first second => first.sequence ≤ second.sequence).foldlM
        (visitCause (byId events) action) ⟨[], false, false⟩).map (completed events action trace)) = some (.ok found)) ↔
      ∀ event ∈ events, Near events action event → ¬Leaks action event := by
  have visited := @visitCauses_ok_iff action
    (trace.events.mergeSort fun first second => first.sequence ≤ second.sequence) ⟨[], false, false⟩ (byId events)
  have same : (∃ found, (some trace).map (fun trace =>
      ((trace.events.mergeSort fun first second => first.sequence ≤ second.sequence).foldlM
        (visitCause (byId events) action) ⟨[], false, false⟩).map (completed events action trace)) = some (.ok found)) ↔
      ∃ last, (trace.events.mergeSort fun first second => first.sequence ≤ second.sequence).foldlM
        (visitCause (byId events) action) ⟨[], false, false⟩ = .ok last := by
    simp only [Option.map_some, Option.some.injEq, Except.map_eq_ok]
    constructor
    · rintro ⟨found, last, ended, -⟩
      exact ⟨last, ended⟩
    · rintro ⟨last, ended⟩
      exact ⟨_, last, ended, rfl⟩
  rw [same, visited]
  constructor
  · intro spared event member near'
    exact spared event.id (List.mem_mergeSort.mpr ((near event).mpr near')) event
      ((byId_getElem? distinct).mpr ⟨member, rfl⟩)
  · intro spared id listed event found
    obtain ⟨member, rfl⟩ := (byId_getElem? distinct).mp found
    exact spared event member ((near event).mp (List.mem_mergeSort.mp listed))

/-- The lineage is returned exactly for an action near which nothing leaks. -/
theorem traceAction_ok_iff (distinct : (events.map fun event => event.id.sequence).Nodup)
    (acyclic : ∀ event, ¬Relation.TransGen (Cites events) event event) :
    (∃ trace, traceAction target events = some (.ok trace)) ↔
      ∃ action ∈ events, action.id.sequence = target ∧ action.schema = schemaAction ∧
        ∀ event ∈ events, Near events action event → ¬Leaks action event := by
  have ids := ids_nodup distinct
  unfold traceAction
  cases found : (bySequence events)[target]? with
  | none =>
      refine iff_of_false (by simp) ?_
      rintro ⟨action, member, same, -⟩
      rw [(bySequence_getElem? distinct).mpr ⟨member, same⟩] at found
      contradiction
  | some action =>
      obtain ⟨member, same⟩ := (bySequence_getElem? distinct).mp found
      have only : ∀ other ∈ events, other.id.sequence = target → other = action := fun other member' same' =>
        List.inj_on_of_nodup_map distinct member' member (same'.trans same.symm)
      dsimp only
      by_cases kind : action.schema = schemaAction
      · obtain ⟨trace, ended, near⟩ := @traceCauses_near events action ids acyclic
        rw [if_neg (not_not.mpr kind), ended, returned_iff ids near]
        constructor
        · intro near'
          exact ⟨action, member, same, kind, near'⟩
        · rintro ⟨other, member', same', -, near'⟩
          rwa [only other member' same'] at near'
      · refine iff_of_false (by simp [kind]) ?_
        rintro ⟨other, member', same', kind', -⟩
        exact kind (only other member' same' ▸ kind')

/-- No transitive cause of an action whose lineage is returned was known after the action. -/
def KeepsFutureOut (events : List StoredEvent) (target : UInt64) : Prop :=
  ∀ trace, traceAction target events = some (.ok trace) → ∀ action ∈ events, action.id.sequence = target →
    ∀ event ∈ events, Relation.TransGen (Cites events) event.id action.id →
      event.times.known.ticks ≤ action.times.known.ticks

/-- The lineage keeps the future out exactly when a cause that was known later, if there is one, stands near the action. -/
theorem keepsFutureOut_iff (distinct : (events.map fun event => event.id.sequence).Nodup)
    (acyclic : ∀ event, ¬Relation.TransGen (Cites events) event event) :
    KeepsFutureOut events target ↔ ∀ action ∈ events, action.id.sequence = target → action.schema = schemaAction →
      (∃ event ∈ events, Relation.TransGen (Cites events) event.id action.id ∧
        action.times.known.ticks < event.times.known.ticks) →
      ∃ event ∈ events, Near events action event ∧ action.times.known.ticks < event.times.known.ticks := by
  constructor
  · rintro safe action member rfl kind ⟨late, listed, cause, after⟩
    by_contra spared
    have quiet : ∀ event ∈ events, Near events action event → ¬Leaks action event :=
      fun event member' near leaks => spared ⟨event, member', near, leaks.1⟩
    obtain ⟨trace, returned⟩ := (traceAction_ok_iff distinct acyclic).mpr ⟨action, member, rfl, kind, quiet⟩
    exact absurd (safe trace returned action member rfl late listed cause) (UInt64.not_le.mpr after)
  · rintro leaks trace returned action member rfl event listed cause
    obtain ⟨other, member', same, kind, quiet⟩ := (traceAction_ok_iff distinct acyclic).mp ⟨trace, returned⟩
    obtain rfl : other = action := List.inj_on_of_nodup_map distinct member' member same
    by_contra after
    obtain ⟨late, listed', near, after'⟩ := leaks other member rfl kind ⟨event, listed, cause, UInt64.not_le.mp after⟩
    refine quiet late listed' near ⟨after', fun same' => ?_⟩
    obtain rfl : late = other := List.inj_on_of_nodup_map (ids_nodup distinct) listed' member same'
    exact lt_irrefl _ after'

end Safety

section Chain

/-- Each event of the chain has the one before it as its cause, and only the first was known late. -/
def link (index : Nat) : StoredEvent where
  id := ⟨1, 1, UInt64.ofNat index⟩
  entity := ⟨0, 0, 1⟩
  times := ⟨⟨1, 5⟩, none, ⟨1, if index = 0 then 9 else 5⟩⟩
  schema := schemaAction
  payload := []
  causes := if index = 0 then [] else [⟨1, 1, UInt64.ofNat (index - 1)⟩]

def chain : List StoredEvent := (List.range 34).map link

theorem chain_distinct : (chain.map fun event => event.id.sequence).Nodup := by decide +kernel

theorem chain_cites {cause event : EventId} (cites : Cites chain cause event) :
    cause.sequence.toNat + 1 = event.sequence.toNat := by
  have all : ∀ record ∈ chain, ∀ cause ∈ record.causes, cause.sequence.toNat + 1 = record.id.sequence.toNat := by
    decide +kernel
  obtain ⟨record, member, rfl, listed⟩ := mem_causesOf.mp cites
  exact all record member cause listed

theorem chain_acyclic (event : EventId) : ¬Relation.TransGen (Cites chain) event event := by
  have before : ∀ first second, Relation.TransGen (Cites chain) first second →
      first.sequence.toNat < second.sequence.toNat := by
    intro first second path
    induction path with
    | single cites =>
        have next := chain_cites cites
        omega
    | tail _ cites hypothesis =>
        have next := chain_cites cites
        omega
  exact fun cycle => lt_irrefl _ (before event event cycle)

/-- The first event is a cause of every other, however far. -/
theorem chain_ancestor {index : Nat} (inside : index < 33) :
    Relation.TransGen (Cites chain) (link 0).id (link (index + 1)).id := by
  have cites : ∀ index < 33, Cites chain (link index).id (link (index + 1)).id := by
    unfold Cites
    decide +kernel
  induction index with
  | zero => exact .single (cites 0 inside)
  | succ index hypothesis => exact (hypothesis (by omega)).tail (cites (index + 1) inside)

theorem chain_path {root event : EventId} {steps : Nat} (path : Trace.Path (causesOf chain) root steps event) :
    event.sequence.toNat + steps = root.sequence.toNat := by
  induction path with
  | root => rfl
  | step _ edge hypothesis =>
      have next := chain_cites edge
      omega

/-- The lineage of the last event is returned although the first was known later. -/
theorem distant_leak_returned : (chain.map fun event => event.id.sequence).Nodup ∧
    (∀ event, ¬Relation.TransGen (Cites chain) event event) ∧
    (∃ trace, traceAction 33 chain = some (.ok trace)) ∧ ¬KeepsFutureOut chain 33 := by
  have last : link 33 ∈ chain := List.mem_map_of_mem (List.mem_range.mpr (by decide))
  have first : link 0 ∈ chain := List.mem_map_of_mem (List.mem_range.mpr (by decide))
  have known : ∀ event ∈ chain, 1 ≤ event.id.sequence.toNat → event.times.known.ticks = 5 := by decide +kernel
  have quiet : ∀ event ∈ chain, Near chain (link 33) event → ¬Leaks (link 33) event := by
    rintro event member ⟨steps, short, path⟩ ⟨after, -⟩
    have place : event.id.sequence.toNat + steps = 33 := chain_path path
    have short' : steps ≤ 32 := short
    rw [known event member (by omega)] at after
    exact absurd after (by decide)
  obtain ⟨trace, returned⟩ := (@traceAction_ok_iff chain 33 chain_distinct chain_acyclic).mpr
    ⟨link 33, last, rfl, rfl, quiet⟩
  refine ⟨chain_distinct, chain_acyclic, ⟨trace, returned⟩, fun safe => ?_⟩
  exact absurd (safe trace returned (link 33) last rfl (link 0) first (chain_ancestor (by decide))) (by decide)

theorem keepsFutureOut_sample : KeepsFutureOut chain 1 := by
  refine (keepsFutureOut_iff chain_distinct chain_acyclic).mpr fun action member same _ _ => ?_
  have second : link 1 ∈ chain := List.mem_map_of_mem (List.mem_range.mpr (by decide))
  have first : link 0 ∈ chain := List.mem_map_of_mem (List.mem_range.mpr (by decide))
  obtain rfl : action = link 1 := List.inj_on_of_nodup_map chain_distinct member second same
  have edge : (link 0).id ∈ causesOf chain (link 1).id := by decide +kernel
  exact ⟨link 0, first, ⟨1, by decide, .step .root edge⟩, by decide⟩

end Chain

end Temnion.Adapter
