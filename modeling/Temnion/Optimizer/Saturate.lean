import Temnion.Optimizer.Rebuild

/-
This file proves that saturation only merges classes that are equal in every model.
-/

namespace Temnion.Optimizer

open Query

variable [Binary64]

namespace EGraph

variable {graph later last : EGraph} {id root first second : EClassId} {node : ENode}

/-- The classes have the same value in every model. -/
def Entails (graph : EGraph) (first second : EClassId) : Prop :=
  ∀ {Value : Type} {meaning : Meaning Value} {value : EClassId → Value}, Models meaning graph value →
    value first = value second

/-- The node denotes the value of the class in every model. -/
def Denotes (graph : EGraph) (id : EClassId) (node : ENode) : Prop :=
  ∀ {Value : Type} {meaning : Meaning Value} {value : EClassId → Value}, Models meaning graph value →
    node.denote meaning value = some (value id)

/-- The graph grows and each model extends to the new classes. -/
structure Derives (graph later : EGraph) : Prop extends Grows graph later where
  models : ∀ {Value : Type} {meaning : Meaning Value} {value : EClassId → Value}, Models meaning graph value →
    ∃ extended : EClassId → Value, (∀ id < graph.size, extended id = value id) ∧ Models meaning later extended

theorem Derives.refl (wellFormed : WellFormed graph) : Derives graph graph where
  toGrows := Grows.refl wellFormed
  models {_ _ value} models := ⟨value, fun _ _ => rfl, models⟩

theorem Derives.trans (here : Derives graph later) (there : Derives later last) : Derives graph last where
  toGrows := here.toGrows.trans there.toGrows
  models models := by
    obtain ⟨between, same, models⟩ := here.models models
    obtain ⟨extended, same', models⟩ := there.models models
    refine ⟨extended, ?_, models⟩
    intro id present
    rw [same' id (lt_of_lt_of_le present here.size), same id present]

theorem Grows.entails (grows : Grows graph later) (entails : graph.Entails first second) : later.Entails first second :=
  fun models => entails (grows.models models)

theorem Grows.denotes (grows : Grows graph later) (denotes : graph.Denotes id node) : later.Denotes id node :=
  fun models => denotes (grows.models models)

/-- The class returned by an addition gets the value of the node. -/
theorem add_models {Value : Type} {meaning : Meaning Value} {value : EClassId → Value} {denoted : Value}
    (wellFormed : WellFormed graph) (within : ∀ child ∈ node.children, child < graph.size)
    (models : Models meaning graph value) (denotes : node.denote meaning value = some denoted) :
    ∃ extended : EClassId → Value, (∀ id < graph.size, extended id = value id) ∧
      Models meaning (graph.add node).2 extended ∧ extended (graph.add node).1 = denoted := by
  have extends' : ∃ extended : EClassId → Value, (∀ id < graph.size, extended id = value id) ∧
      Models meaning (graph.add node).2 extended := by
    cases found : graph.hashcons.lookup (graph.canonicalizeNode node) with
    | some existing =>
        rw [add_of_lookup found]
        exact ⟨value, fun _ _ => rfl, find_models models⟩
    | none =>
        rw [add_of_absent found]
        exact ⟨_, fun id present => Function.update_of_ne (ne_of_lt present) denoted value,
          added_models wellFormed within models denotes⟩
  obtain ⟨extended, same, after⟩ := extends'
  refine ⟨extended, same, after, ?_⟩
  have here := (add_grows wellFormed within).2.2.denote after
  rw [ENode.denote_congr fun child listed => same child (within child listed), denotes] at here
  exact (Option.some.inj here).symm

/-- A node that every model gives the value of a class can be added. -/
theorem add_derives (wellFormed : WellFormed graph) (within : ∀ child ∈ node.children, child < graph.size)
    (denotes : graph.Denotes root node) : Derives graph (graph.add node).2 where
  toGrows := (add_grows wellFormed within).1
  models models := by
    obtain ⟨extended, same, after, _⟩ := add_models wellFormed within models (denotes models)
    exact ⟨extended, same, after⟩

theorem literal_within {value : Literal} {size : Nat} : ∀ child ∈ (ENode.literal value).children, child < size :=
  fun _ listed => absurd listed List.not_mem_nil

/-- A boolean literal can always be added. -/
theorem add_bool_derives (wellFormed : WellFormed graph) (truth : Bool) :
    Derives graph (graph.add (.literal (.bool truth))).2 where
  toGrows := (add_grows wellFormed literal_within).1
  models {_ meaning value} models := by
    obtain ⟨denoted, denotes⟩ := meaning.literal_bool truth
    obtain ⟨extended, same, after, _⟩ := @add_models _ graph (.literal (.bool truth)) _ _ _ _ wellFormed literal_within models denotes
    exact ⟨extended, same, after⟩

theorem add_denotes (wellFormed : WellFormed graph) (within : ∀ child ∈ node.children, child < graph.size) :
    (graph.add node).2.Denotes (graph.add node).1 node :=
  fun models => (add_grows wellFormed within).2.2.denote models

section Union

variable [HashOrder ENode]

theorem union_derives (wellFormed : WellFormed graph) (firstPresent : first < graph.size)
    (secondPresent : second < graph.size) (entails : graph.Entails first second) :
    Derives graph (graph.union first second).2 where
  toGrows := union_grows wellFormed firstPresent secondPresent
  models {_ _ value} models :=
    ⟨value, fun _ _ => rfl, (union_merges wellFormed.length firstPresent secondPresent).models models (entails models)⟩

theorem rebuild_derives (wellFormed : WellFormed graph) : Derives graph graph.rebuild.2 where
  toGrows := rebuild_grows wellFormed
  models {_ _ value} models := ⟨value, fun _ _ => rfl, rebuild_models wellFormed models⟩

end Union

theorem find_derives (wellFormed : WellFormed graph) : Derives graph (graph.find id).2 where
  toGrows := find_grows wellFormed
  models {_ _ value} models := ⟨value, fun _ _ => rfl, find_models models⟩

section Matching

/-- The pair may be merged: both classes exist and are equal in every model. -/
def Justified (graph : EGraph) (pair : EClassId × EClassId) : Prop :=
  pair.1 < graph.size ∧ pair.2 < graph.size ∧ graph.Entails pair.1 pair.2

theorem Grows.justified {pair : EClassId × EClassId} (grows : Grows graph later) (justified : graph.Justified pair) :
    later.Justified pair :=
  ⟨lt_of_lt_of_le justified.1 grows.size, lt_of_lt_of_le justified.2.1 grows.size, grows.entails justified.2.2⟩

/-- What holds while the rules collect matches in the graph. -/
structure Matched (graph : EGraph) (state : Matching) : Prop where
  derives : Derives graph state.graph
  pairs : ∀ pair ∈ state.matchesToUnion, state.graph.Justified pair

variable {state : Matching} {constants : Constants}

theorem Matched.push {pairs : List (EClassId × EClassId)} (before : Matched graph state)
    (new : ∀ pair ∈ pairs, state.graph.Justified pair) : Matched graph (state.push pairs) where
  derives := before.derives
  pairs pair member := (List.mem_append.mp member).elim (before.pairs pair) (new pair)

theorem Matched.addFor (before : Matched graph state) (present : root < state.graph.size)
    (within : ∀ child ∈ node.children, child < state.graph.size) (denotes : state.graph.Denotes root node) :
    Matched graph (state.addFor root node) := by
  have wellFormed := before.derives.wellFormed
  have derives := add_derives wellFormed within denotes
  refine ⟨before.derives.trans derives, ?_⟩
  intro pair member
  rcases List.mem_append.mp member with old | new
  · exact derives.justified (before.pairs pair old)
  · rw [List.mem_singleton.mp new]
    refine ⟨lt_of_lt_of_le present derives.size, (add_grows wellFormed within).2.1, fun models => ?_⟩
    have here := derives.denotes denotes models
    rw [add_denotes wellFormed within models] at here
    exact (Option.some.inj here).symm

theorem Matched.addAll {nodes : List ENode} (before : Matched graph state) (present : root < state.graph.size)
    (within : ∀ node ∈ nodes, ∀ child ∈ node.children, child < state.graph.size)
    (denotes : ∀ node ∈ nodes, state.graph.Denotes root node) : Matched graph (nodes.foldl (Matching.addFor root) state) := by
  induction nodes generalizing state with
  | nil => exact before
  | cons node nodes hypothesis =>
      have inside := within node List.mem_cons_self
      have grows := (add_grows before.derives.wellFormed inside).1
      apply hypothesis (before.addFor present inside (denotes node List.mem_cons_self))
      · exact lt_of_lt_of_le present grows.size
      · exact fun other member child listed =>
          lt_of_lt_of_le (within other (List.mem_cons_of_mem _ member) child listed) grows.size
      · exact fun other member => grows.denotes (denotes other (List.mem_cons_of_mem _ member))

/-- The id is the class of the boolean literal. -/
structure IsBool (graph : EGraph) (truth : Bool) (id : EClassId) : Prop where
  present : id < graph.size
  denotes : graph.Denotes id (.literal (.bool truth))

theorem Grows.isBool {truth : Bool} (grows : Grows graph later) (isBool : graph.IsBool truth id) :
    later.IsBool truth id :=
  ⟨lt_of_lt_of_le isBool.present grows.size, grows.denotes isBool.denotes⟩

/-- The classes of the two boolean literals are known. -/
structure Knows (graph : EGraph) (constants : Constants) : Prop where
  canonTrue : graph.IsBool true constants.canonTrue
  canonFalse : graph.IsBool false constants.canonFalse

theorem Grows.knows (grows : Grows graph later) (knows : graph.Knows constants) : later.Knows constants :=
  ⟨grows.isBool knows.canonTrue, grows.isBool knows.canonFalse⟩

theorem Matched.matchNot {child : EClassId} (before : Matched graph state) (knows : state.graph.Knows constants)
    (present : root < state.graph.size) (denotes : state.graph.Denotes root (.not child)) :
    Matched graph (matchNot constants root child state) := by
  have inner : Matched graph (state.push (((state.graph.nodes (state.graph.findConst child)).filterMap innerOf).map
      fun inner => (root, inner))) := by
    apply before.push
    intro pair member
    obtain ⟨inner, listed, rfl⟩ := List.mem_map.mp member
    obtain ⟨node, held, isNot⟩ := List.mem_filterMap.mp listed
    obtain rfl : node = .not inner := by
      cases node with
      | not other => rw [Option.some.inj isNot]
      | _ => nomatch isNot
    refine ⟨present, before.derives.wellFormed.children _ _ held inner List.mem_cons_self, fun models => ?_⟩
    have below := models.nodes _ _ held
    rw [models.constant] at below
    exact Meaning.not_not _ below (denotes models)
  have opposite : ∀ {truth : Bool} {canon other : EClassId}, state.graph.IsBool truth canon →
      state.graph.IsBool (!truth) other → state.graph.findConst child = canon → state.graph.Justified (root, other) := by
    intro truth canon other isBool isOther same
    refine ⟨present, isOther.present, fun {_ meaning value} models => ?_⟩
    have operand := isBool.denotes models
    rw [← same, models.constant] at operand
    have result := meaning.not_bool operand (denotes models)
    exact Option.some.inj (result.symm.trans (isOther.denotes models))
  unfold EGraph.matchNot
  simp only
  by_cases isTrue : state.graph.findConst child = constants.canonTrue
  · rw [if_pos isTrue]
    apply inner.push
    intro pair member
    rw [List.mem_singleton.mp member]
    exact opposite knows.canonTrue knows.canonFalse isTrue
  · rw [if_neg isTrue]
    by_cases isFalse : state.graph.findConst child = constants.canonFalse
    · rw [if_pos isFalse]
      apply inner.push
      intro pair member
      rw [List.mem_singleton.mp member]
      exact opposite knows.canonFalse knows.canonTrue isFalse
    · rw [if_neg isFalse]
      exact inner

theorem justified_connective {truth : Bool} {neutral absorbing left right : EClassId}
    (isNeutral : graph.IsBool (!truth) neutral) (isAbsorbing : graph.IsBool truth absorbing)
    (present : root < graph.size) (leftPresent : left < graph.size) (rightPresent : right < graph.size)
    (denotes : graph.Denotes root (.binary (connective truth) left right)) :
    ∀ pair ∈ connectiveRules neutral absorbing root (graph.findConst left) (graph.findConst right),
      graph.Justified pair := by
  have leftRoot : graph.findConst left < graph.size := findConst_lt leftPresent
  have rightRoot : graph.findConst right < graph.size := findConst_lt rightPresent
  have canonical : graph.Denotes root (.binary (connective truth) (graph.findConst left) (graph.findConst right)) := by
    intro _ meaning value models
    have here := denotes models
    rwa [← models.constant.denote] at here
  intro pair member
  rcases List.mem_append.mp member with member | member
  · rcases List.mem_append.mp member with member | member
    · by_cases rightNeutral : graph.findConst right = neutral
      · rw [if_pos rightNeutral] at member
        rw [List.mem_singleton.mp member]
        refine ⟨present, leftRoot, fun {_ meaning _} models => ?_⟩
        exact meaning.neutral_right (isNeutral.denotes models) (rightNeutral ▸ canonical models)
      · rw [if_neg rightNeutral] at member
        by_cases leftNeutral : graph.findConst left = neutral
        · rw [if_pos leftNeutral] at member
          rw [List.mem_singleton.mp member]
          refine ⟨present, rightRoot, fun {_ meaning _} models => ?_⟩
          exact meaning.neutral_left (isNeutral.denotes models) (leftNeutral ▸ canonical models)
        · rw [if_neg leftNeutral] at member
          contradiction
    · by_cases absorbs : graph.findConst right = absorbing ∨ graph.findConst left = absorbing
      · rw [if_pos absorbs] at member
        rw [List.mem_singleton.mp member]
        refine ⟨present, isAbsorbing.present, fun {_ meaning _} models => ?_⟩
        rcases absorbs with same | same
        · exact meaning.absorbing_right (isAbsorbing.denotes models) (same ▸ canonical models)
        · exact meaning.absorbing_left (isAbsorbing.denotes models) (same ▸ canonical models)
      · rw [if_neg absorbs] at member
        contradiction
  · by_cases same : graph.findConst left = graph.findConst right
    · rw [if_pos same] at member
      rw [List.mem_singleton.mp member]
      refine ⟨present, leftRoot, fun {_ meaning _} models => ?_⟩
      have here := canonical models
      rw [← same] at here
      exact meaning.idempotent here
    · rw [if_neg same] at member
      contradiction

theorem justified_binary {op : BinaryOp} {left right : EClassId} (knows : graph.Knows constants)
    (present : root < graph.size) (leftPresent : left < graph.size) (rightPresent : right < graph.size)
    (denotes : graph.Denotes root (.binary op left right)) :
    ∀ pair ∈ binaryRules constants root (graph.findConst left) (graph.findConst right) op, graph.Justified pair := by
  cases op with
  | and =>
      exact @justified_connective _ graph root false _ _ _ _ knows.canonTrue knows.canonFalse present leftPresent
        rightPresent denotes
  | or =>
      exact @justified_connective _ graph root true _ _ _ _ knows.canonFalse knows.canonTrue present leftPresent
        rightPresent denotes
  | eq =>
      intro pair member
      change pair ∈ (if graph.findConst left = graph.findConst right then _ else []) at member
      by_cases same : graph.findConst left = graph.findConst right
      · rw [if_pos same] at member
        rw [List.mem_singleton.mp member]
        refine ⟨present, knows.canonTrue.present, fun {_ meaning value} models => ?_⟩
        have equal : value left = value right := by rw [← models.constant, same, models.constant]
        have here : meaning.binary .eq (value left) (value right) = some (value root) := denotes models
        rw [← equal] at here
        exact Option.some.inj ((meaning.eq_self here).symm.trans (knows.canonTrue.denotes models))
      · rw [if_neg same] at member
        contradiction
  | _ => exact fun _ member => nomatch member

theorem mem_literals {value : Literal} (member : value ∈ graph.literals id) : .literal value ∈ graph.nodes id := by
  obtain ⟨node, held, isLiteral⟩ := List.mem_filterMap.mp member
  cases node with
  | literal other =>
      obtain rfl := Option.some.inj isLiteral
      exact held
  | _ => nomatch isLiteral

theorem Matched.matchBinary {op : BinaryOp} {left right : EClassId} (before : Matched graph state)
    (knows : state.graph.Knows constants) (present : root < state.graph.size) (leftPresent : left < state.graph.size)
    (rightPresent : right < state.graph.size) (denotes : state.graph.Denotes root (.binary op left right)) :
    Matched graph (matchBinary constants root op left right state) := by
  unfold EGraph.matchBinary
  simp only
  refine Matched.addAll (before.push ?_) present ?_ ?_
  · exact justified_binary knows present leftPresent rightPresent denotes
  · intro node member
    obtain ⟨folded, _, rfl⟩ := List.mem_map.mp member
    exact literal_within
  · intro node member _ meaning value models
    obtain ⟨folded, listed, rfl⟩ := List.mem_map.mp member
    obtain ⟨first, firstListed, rest⟩ := List.mem_flatMap.mp listed
    obtain ⟨second, secondListed, folds⟩ := List.mem_filterMap.mp rest
    have models' : Models meaning state.graph value := models
    have firstDenotes := models'.nodes _ _ (mem_literals firstListed)
    have secondDenotes := models'.nodes _ _ (mem_literals secondListed)
    rw [models'.constant] at firstDenotes secondDenotes
    exact meaning.fold folds firstDenotes secondDenotes (denotes models')

theorem Matched.matchScan {entity : Option EntityId} {filter : EClassId} {limit : Option Nat}
    (before : Matched graph state) (knows : state.graph.Knows constants) (present : root < state.graph.size)
    (denotes : state.graph.Denotes root (.scan entity (some filter) limit)) :
    Matched graph (matchScan constants root entity filter limit state) := by
  have childless : ∀ child ∈ ([] : List EClassId), child < state.graph.size := fun _ listed => absurd listed List.not_mem_nil
  unfold EGraph.matchScan
  simp only
  by_cases isTrue : state.graph.findConst filter = constants.canonTrue
  · rw [if_pos isTrue]
    refine before.addFor present childless fun {_ meaning value} models => ?_
    have always := knows.canonTrue.denotes models
    rw [← isTrue, models.constant] at always
    exact meaning.scan_true always (denotes models)
  · rw [if_neg isTrue]
    by_cases isFalse : state.graph.findConst filter = constants.canonFalse
    · rw [if_pos isFalse]
      refine before.addFor present childless fun {_ meaning value} models => ?_
      have never := knows.canonFalse.denotes models
      rw [← isFalse, models.constant] at never
      exact meaning.scan_false never (denotes models)
    · rw [if_neg isFalse]
      exact before

theorem Matched.matchNode (before : Matched graph state) (knows : state.graph.Knows constants)
    (present : root < state.graph.size) (within : ∀ child ∈ node.children, child < state.graph.size)
    (denotes : state.graph.Denotes root node) : Matched graph (matchNode constants root state node) := by
  cases node with
  | literal value => exact before
  | field name => exact before
  | binary op left right =>
      exact before.matchBinary knows present (within left List.mem_cons_self)
        (within right (List.mem_cons_of_mem _ List.mem_cons_self)) denotes
  | not child => exact before.matchNot knows present denotes
  | scan entity filter limit =>
      cases filter with
      | none => exact before
      | some filter => exact before.matchScan knows present denotes
  | emptyRelation => exact before

/-- The matches collected so far are also matches of the graph reached so far. -/
theorem Matched.self (before : Matched graph state) : Matched state.graph state :=
  ⟨Derives.refl before.derives.wellFormed, before.pairs⟩

theorem Matched.trans {next : Matching} (before : Matched graph state) (after : Matched state.graph next) :
    Matched graph next :=
  ⟨before.derives.trans after.derives, after.pairs⟩

theorem Matched.matchNodes {nodes : List ENode} (before : Matched graph state) (wellFormed : WellFormed graph)
    (knows : graph.Knows constants) (present : root < state.graph.size) (held : ∀ node ∈ nodes, node ∈ graph.nodes id)
    (entails : state.graph.Entails id root) : Matched graph (nodes.foldl (EGraph.matchNode constants root) state) := by
  induction nodes generalizing state with
  | nil => exact before
  | cons node nodes hypothesis =>
      have grows := before.derives.toGrows
      have member := held node List.mem_cons_self
      have after : Matched state.graph (EGraph.matchNode constants root state node) := by
        apply before.self.matchNode (grows.knows knows) present
        · exact fun child listed => lt_of_lt_of_le (wellFormed.children id node member child listed) grows.size
        · intro Value meaning value models
          rw [← entails models]
          exact (grows.models models).nodes id node member
      apply hypothesis (before.trans after)
      · exact lt_of_lt_of_le present after.derives.size
      · exact fun other listed => held other (List.mem_cons_of_mem _ listed)
      · exact after.derives.entails entails

theorem Matched.matchClasses {snapshots : List (EClassId × List ENode)} (before : Matched graph state)
    (wellFormed : WellFormed graph) (knows : graph.Knows constants)
    (held : ∀ snapshot ∈ snapshots, snapshot.1 < graph.size ∧ snapshot.2 = graph.nodes snapshot.1) :
    Matched graph (snapshots.foldl (matchClass constants) state) := by
  induction snapshots generalizing state with
  | nil => exact before
  | cons snapshot snapshots hypothesis =>
      obtain ⟨present, same⟩ := held snapshot List.mem_cons_self
      apply hypothesis _ fun other listed => held other (List.mem_cons_of_mem _ listed)
      apply before.matchNodes wellFormed knows
      · exact findConst_lt (lt_of_lt_of_le present before.derives.size)
      · exact fun node member => same ▸ member
      · exact fun models => (models.constant _).symm

/-- A round of the rules justifies all its matches. -/
theorem matchAll_matched (wellFormed : WellFormed graph) (knows : graph.Knows constants) :
    Matched graph (matchAll constants graph) := by
  have start : Matched graph ⟨graph, []⟩ := ⟨Derives.refl wellFormed, fun _ member => nomatch member⟩
  apply start.matchClasses wellFormed knows
  intro snapshot member
  obtain ⟨id, listed, rfl⟩ := List.mem_map.mp member
  exact ⟨List.mem_range.mp (List.mem_filter.mp listed).1, rfl⟩

end Matching

section Saturation

variable [HashOrder ENode]

theorem mergePair_derives {state : Merging} {pair : EClassId × EClassId} (wellFormed : WellFormed state.graph)
    (justified : state.graph.Justified pair) : Derives state.graph (mergePair state pair).graph := by
  obtain ⟨firstPresent, secondPresent, entails⟩ := justified
  have first := @find_derives _ state.graph pair.1 wellFormed
  have searched := first.trans (@find_derives _ _ pair.2 first.wellFormed)
  unfold mergePair
  simp only
  by_cases same : (state.graph.find pair.1).1 = ((state.graph.find pair.1).2.find pair.2).1
  · rw [if_pos same]
    exact searched
  · rw [if_neg same]
    refine searched.trans (union_derives searched.wellFormed ?_ ?_ ?_)
    · exact lt_of_lt_of_le (findConst_lt firstPresent) searched.size
    · rw [find_fst, find_snd_findConst]
      exact lt_of_lt_of_le (findConst_lt secondPresent) searched.size
    · intro Value meaning value models
      rw [find_fst, find_fst, find_snd_findConst]
      have here := searched.toGrows.models models
      rw [here.constant, here.constant, entails here]

theorem mergePairs_derives {pairs : List (EClassId × EClassId)} {state : Merging} (wellFormed : WellFormed state.graph)
    (justified : ∀ pair ∈ pairs, state.graph.Justified pair) :
    Derives state.graph (pairs.foldl mergePair state).graph := by
  induction pairs generalizing state with
  | nil => exact Derives.refl wellFormed
  | cons pair pairs hypothesis =>
      have step := mergePair_derives wellFormed (justified pair List.mem_cons_self)
      apply step.trans
      apply hypothesis step.wellFormed
      exact fun other member => step.justified (justified other (List.mem_cons_of_mem _ member))

theorem saturateFrom_derives {trueId falseId : EClassId} {rounds iterations rewrites : Nat}
    (wellFormed : WellFormed graph) (isTrue : graph.IsBool true trueId) (isFalse : graph.IsBool false falseId) :
    Derives graph (saturateFrom trueId falseId rounds iterations rewrites graph).2 := by
  induction rounds generalizing graph iterations rewrites with
  | zero => exact Derives.refl wellFormed
  | succ rounds hypothesis =>
      have canonical : ∀ {truth id}, graph.IsBool truth id → graph.IsBool truth (graph.findConst id) := by
        intro truth id isBool
        refine ⟨findConst_lt isBool.present, fun models => ?_⟩
        rw [models.constant]
        exact isBool.denotes models
      have matched := @matchAll_matched _ graph ⟨graph.findConst trueId, graph.findConst falseId⟩ wellFormed
        ⟨canonical isTrue, canonical isFalse⟩
      unfold saturateFrom
      simp only
      generalize matchAll ⟨graph.findConst trueId, graph.findConst falseId⟩ graph = matching at matched
      by_cases nothing : matching.matchesToUnion = []
      · rw [if_pos nothing]
        exact matched.derives
      · rw [if_neg nothing]
        have merged := @mergePairs_derives _ _ matching.matchesToUnion ⟨matching.graph, rewrites, false⟩
          matched.derives.wellFormed matched.pairs
        have round := (matched.derives.trans merged).trans (rebuild_derives merged.wellFormed)
        generalize matching.matchesToUnion.foldl mergePair ⟨matching.graph, rewrites, false⟩ = merging at round
        by_cases any : merging.anyMerged = true
        · rw [if_pos any]
          exact round.trans (hypothesis round.wellFormed (round.isBool isTrue) (round.isBool isFalse))
        · rw [if_neg any]
          exact round

/-- Saturation merges classes, keeps their nodes, and each model extends to its result. -/
theorem saturate_derives (wellFormed : WellFormed graph) (maxIterations : Nat) :
    Derives graph (graph.saturate maxIterations).2 := by
  have first := add_bool_derives wellFormed true
  have second := add_bool_derives first.wellFormed false
  have isTrue : (graph.add (.literal (.bool true))).2.IsBool true (graph.add (.literal (.bool true))).1 :=
    ⟨(add_grows wellFormed literal_within).2.1, add_denotes wellFormed literal_within⟩
  have isFalse := (add_grows first.wellFormed (@literal_within _ (.bool false) _)).2.1
  apply (first.trans second).trans
  exact saturateFrom_derives second.wellFormed (second.isBool isTrue)
    ⟨isFalse, add_denotes first.wellFormed literal_within⟩

end Saturation

end EGraph

end Temnion.Optimizer
