import Temnion.Optimizer.Rebuild
import Mathlib.Data.Finset.Card

/-
This file proves that extraction returns a cheapest expression that the class represents.
-/

namespace Temnion.Optimizer

open Query

variable [Binary64]

/-- The structural cost of an expression. -/
def cost : Expr → Nat
  | .literal _ => 1
  | .field _ => 2
  | .not inner => 2 + cost inner
  | .binary _ left right => 3 + cost left + cost right

theorem cost_pos {expr : Expr} : 0 < cost expr := by
  cases expr <;> simp only [cost] <;> omega

/-- The expression can be read off the nodes of the class and of the classes below. -/
inductive Represents (graph : EGraph) : EClassId → Expr → Prop
  | literal {id place value} : .literal value ∈ graph.nodes place → graph.findConst place = graph.findConst id →
      Represents graph id (.literal value)
  | field {id place name} : .field name ∈ graph.nodes place → graph.findConst place = graph.findConst id →
      Represents graph id (.field name)
  | not {id place child inner} : .not child ∈ graph.nodes place → graph.findConst place = graph.findConst id →
      Represents graph child inner → Represents graph id (.not inner)
  | binary {id place op leftChild rightChild left right} : .binary op leftChild rightChild ∈ graph.nodes place →
      graph.findConst place = graph.findConst id → Represents graph leftChild left →
      Represents graph rightChild right → Represents graph id (.binary op left right)

variable {graph later : EGraph} {id other : EClassId} {expr : Expr}

theorem Represents.congr (represents : Represents graph id expr) (same : graph.findConst id = graph.findConst other) :
    Represents graph other expr := by
  cases represents with
  | literal member place => exact .literal member (place.trans same)
  | field member place => exact .field member (place.trans same)
  | not member place inner => exact .not member (place.trans same) inner
  | binary member place left right => exact .binary member (place.trans same) left right

namespace EGraph

/-- The class represents what its nodes and those of their counterparts represent. -/
theorem Covers.represents_literal {value : Literal} (covers : graph.Covers id (.literal value)) :
    Represents graph id (.literal value) := by
  obtain ⟨place, counterpart, member, same, form⟩ := covers
  cases counterpart with
  | literal value' =>
      obtain rfl := ENode.literal.inj form
      exact .literal member same
  | _ => nomatch form

theorem Covers.represents_field {name : Text} (covers : graph.Covers id (.field name)) :
    Represents graph id (.field name) := by
  obtain ⟨place, counterpart, member, same, form⟩ := covers
  cases counterpart with
  | field name' =>
      obtain rfl := ENode.field.inj form
      exact .field member same
  | _ => nomatch form

theorem Covers.represents_not {child : EClassId} {inner : Expr} (covers : graph.Covers id (.not child))
    (represents : Represents graph child inner) : Represents graph id (.not inner) := by
  obtain ⟨place, counterpart, member, same, form⟩ := covers
  cases counterpart with
  | not child' => exact .not member same (represents.congr (ENode.not.inj form).symm)
  | _ => nomatch form

theorem Covers.represents_binary {op : BinaryOp} {leftChild rightChild : EClassId} {left right : Expr}
    (covers : graph.Covers id (.binary op leftChild rightChild)) (leftRepresents : Represents graph leftChild left)
    (rightRepresents : Represents graph rightChild right) : Represents graph id (.binary op left right) := by
  obtain ⟨place, counterpart, member, same, form⟩ := covers
  cases counterpart with
  | binary op' leftChild' rightChild' =>
      obtain ⟨rfl, leftSame, rightSame⟩ := ENode.binary.inj form
      exact .binary member same (leftRepresents.congr leftSame.symm) (rightRepresents.congr rightSame.symm)
  | _ => nomatch form

/-- A class keeps representing what it has represented. -/
theorem Grows.represents (grows : Grows graph later) (represents : Represents graph id expr) :
    Represents later id expr := by
  have covers : ∀ {id place node}, node ∈ graph.nodes place → graph.findConst place = graph.findConst id →
      later.Covers id node := by
    intro id place node member same
    obtain ⟨last, counterpart, held, class_eq, form⟩ := grows.kept place node member
    exact ⟨last, counterpart, held, class_eq.trans (findConst_eq_of_merged grows.merged same), form⟩
  induction represents with
  | literal member place => exact (covers member place).represents_literal
  | field member place => exact (covers member place).represents_field
  | not member place _ inner => exact (covers member place).represents_not inner
  | binary member place _ _ left right => exact (covers member place).represents_binary left right

/-- The class of an added expression represents it. -/
theorem addExpr_represents (wellFormed : WellFormed graph) (expr : Expr) :
    Grows graph (graph.addExpr expr).2 ∧ (graph.addExpr expr).1 < (graph.addExpr expr).2.size ∧
      Represents (graph.addExpr expr).2 (graph.addExpr expr).1 expr := by
  induction expr generalizing graph with
  | literal value =>
      obtain ⟨grows, present, covers⟩ := @add_grows _ graph (.literal value) wellFormed nofun
      exact ⟨grows, present, covers.represents_literal⟩
  | field name =>
      obtain ⟨grows, present, covers⟩ := @add_grows _ graph (.field name) wellFormed nofun
      exact ⟨grows, present, covers.represents_field⟩
  | not inner hypothesis =>
      obtain ⟨grows, present, represents⟩ := hypothesis wellFormed
      obtain ⟨grows', present', covers⟩ := @add_grows _ (graph.addExpr inner).2 (.not (graph.addExpr inner).1)
        grows.wellFormed (by
          intro child listed
          rwa [List.mem_singleton.mp listed])
      exact ⟨grows.trans grows', present', covers.represents_not (grows'.represents represents)⟩
  | binary op left right leftHypothesis rightHypothesis =>
      obtain ⟨grows, present, represents⟩ := leftHypothesis wellFormed
      obtain ⟨grows', present', represents'⟩ := rightHypothesis grows.wellFormed
      obtain ⟨grows'', present'', covers⟩ := @add_grows _ _
        (.binary op (graph.addExpr left).1 ((graph.addExpr left).2.addExpr right).1) grows'.wellFormed (by
          intro child listed
          rcases List.mem_cons.mp listed with rfl | listed
          · exact lt_of_lt_of_le present grows'.size
          · rwa [List.mem_singleton.mp listed])
      exact ⟨(grows.trans grows').trans grows'', present'', covers.represents_binary
        (grows''.represents (grows'.represents represents)) (grows''.represents represents')⟩

section Table

variable {table between final : BestTable} {state : BestTable × Bool} {node : ENode} {canon place : EClassId}
  {known : Nat}

/-- The recorded costs only go down. -/
def Lowers (table later : BestTable) : Prop :=
  later.length = table.length ∧
    ∀ {id known}, bestCost table id = some known → ∃ lower ≤ known, bestCost later id = some lower

theorem Lowers.refl : Lowers table table := ⟨rfl, fun {_ known} found => ⟨known, le_refl known, found⟩⟩

theorem Lowers.trans (first : Lowers table between) (second : Lowers between final) : Lowers table final := by
  refine ⟨second.1.trans first.1, ?_⟩
  intro id known found
  obtain ⟨lower, below, found⟩ := first.2 found
  obtain ⟨lowest, below', found⟩ := second.2 found
  exact ⟨lowest, le_trans below' below, found⟩

/-- A node costs no more once the costs of its children have gone down. -/
theorem Lowers.nodeCost (lowers : Lowers table final) (found : graph.nodeCost table node = some known) :
    ∃ lower ≤ known, graph.nodeCost final node = some lower := by
  cases node with
  | literal value => exact ⟨known, le_refl known, found⟩
  | field name => exact ⟨known, le_refl known, found⟩
  | not child =>
      obtain ⟨childCost, childFound, rfl⟩ := Option.map_eq_some_iff.mp found
      obtain ⟨lower, below, lowerFound⟩ := lowers.2 childFound
      refine ⟨2 + lower, Nat.add_le_add_left below 2, ?_⟩
      exact Option.map_eq_some_iff.mpr ⟨lower, lowerFound, rfl⟩
  | binary op left right =>
      obtain ⟨leftCost, leftFound, rest⟩ := Option.bind_eq_some_iff.mp found
      obtain ⟨rightCost, rightFound, total⟩ := Option.bind_eq_some_iff.mp rest
      obtain rfl := Option.some.inj total
      obtain ⟨leftLower, leftBelow, leftLowerFound⟩ := lowers.2 leftFound
      obtain ⟨rightLower, rightBelow, rightLowerFound⟩ := lowers.2 rightFound
      refine ⟨3 + leftLower + rightLower, by omega, ?_⟩
      exact Option.bind_eq_some_iff.mpr ⟨leftLower, leftLowerFound,
        Option.bind_eq_some_iff.mpr ⟨rightLower, rightLowerFound, rfl⟩⟩
  | scan entity filter limit => nomatch found
  | emptyRelation => nomatch found

theorem bestCost_set (present : canon < table.length) : bestCost (table.set canon (some (known, node))) id =
    if id = canon then some known else bestCost table id := by
  unfold bestCost
  rw [List.getElem?_set]
  by_cases same : canon = id
  · rw [if_pos same, if_pos (same ▸ present), if_pos same.symm]
    rfl
  · rw [if_neg same, if_neg (Ne.symm same)]

/-- What one node does to the table: nothing, or it takes the place of a dearer node. -/
theorem relaxNode_cases (graph : EGraph) (canon : EClassId) (state : BestTable × Bool) (node : ENode) :
    (graph.relaxNode canon state node = state ∧ ∀ known, graph.nodeCost state.1 node = some known →
        ∃ lower ≤ known, bestCost state.1 canon = some lower) ∨
      ∃ known, graph.nodeCost state.1 node = some known ∧ improves known (bestCost state.1 canon) = true ∧
        graph.relaxNode canon state node = (state.1.set canon (some (known, node)), true) := by
  unfold relaxNode
  cases found : graph.nodeCost state.1 node with
  | none => exact .inl ⟨rfl, fun _ absurd => nomatch absurd⟩
  | some known =>
      simp only
      by_cases better : improves known (bestCost state.1 canon) = true
      · exact .inr ⟨known, rfl, better, if_pos better⟩
      · refine .inl ⟨if_neg better, ?_⟩
        intro known' same
        obtain rfl := Option.some.inj same
        cases held : bestCost state.1 canon with
        | none =>
            rw [held] at better
            exact absurd rfl better
        | some lower =>
            rw [held] at better
            exact ⟨lower, Nat.le_of_not_lt fun below => better (decide_eq_true below), rfl⟩

theorem relaxNode_lowers (present : canon < state.1.length) :
    Lowers state.1 (graph.relaxNode canon state node).1 := by
  rcases relaxNode_cases graph canon state node with ⟨same, _⟩ | ⟨known, _, better, changed⟩
  · rw [same]
    exact Lowers.refl
  · rw [changed]
    refine ⟨List.length_set, ?_⟩
    intro id old found
    rw [bestCost_set present]
    by_cases same : id = canon
    · rw [← same, found] at better
      rw [if_pos same]
      exact ⟨known, le_of_lt (of_decide_eq_true better), rfl⟩
    · rw [if_neg same]
      exact ⟨old, le_refl old, found⟩

/-- The entry of a node's class is at most what the node costs. -/
theorem relaxNode_bound (present : canon < state.1.length) (found : graph.nodeCost state.1 node = some known) :
    ∃ lower ≤ known, bestCost (graph.relaxNode canon state node).1 canon = some lower := by
  rcases relaxNode_cases graph canon state node with ⟨same, bound⟩ | ⟨known', found', _, changed⟩
  · rw [same]
    exact bound known found
  · rw [found] at found'
    obtain rfl := Option.some.inj found'
    rw [changed, bestCost_set present, if_pos rfl]
    exact ⟨known, le_refl known, rfl⟩

/-- Each entry names a node of its class, which costs no more than the entry says. -/
def Supported (graph : EGraph) (table : BestTable) : Prop :=
  ∀ canon known node, table[canon]?.join = some (known, node) →
    ∃ place, node ∈ graph.nodes place ∧ graph.findConst place = canon ∧
      ∃ actual ≤ known, graph.nodeCost table node = some actual

theorem Supported.relaxNode (supported : Supported graph state.1) (present : canon < state.1.length)
    (member : node ∈ graph.nodes place) (same : graph.findConst place = canon) :
    Supported graph (graph.relaxNode canon state node).1 := by
  have lowers := @relaxNode_lowers _ graph state node canon present
  rcases relaxNode_cases graph canon state node with ⟨unchanged, _⟩ | ⟨known, found, _, changed⟩
  · rw [unchanged]
    exact supported
  · rw [changed] at lowers ⊢
    intro id known' node' entry
    have kept : ∀ {node known}, graph.nodeCost state.1 node = some known →
        ∃ actual ≤ known, graph.nodeCost (state.1.set canon (some (_, _))) node = some actual := lowers.nodeCost
    rw [List.getElem?_set] at entry
    by_cases own : canon = id
    · rw [if_pos own, if_pos present] at entry
      obtain ⟨rfl, rfl⟩ := Prod.mk.inj (Option.some.inj entry)
      exact ⟨place, member, same.trans own, kept found⟩
    · rw [if_neg own] at entry
      obtain ⟨place', member', same', actual, below, found'⟩ := supported _ _ _ entry
      obtain ⟨lower, below', found''⟩ := kept found'
      exact ⟨place', member', same', lower, le_trans below' below, found''⟩

/-- What holds of the table while the nodes of one class are relaxed. -/
theorem relaxNodes (supported : Supported graph state.1) (length : state.1.length = graph.size)
    (present : canon < graph.size) {nodes : List ENode} (members : ∀ node ∈ nodes, node ∈ graph.nodes place)
    (same : graph.findConst place = canon) :
    Lowers state.1 (nodes.foldl (graph.relaxNode canon) state).1 ∧
      Supported graph (nodes.foldl (graph.relaxNode canon) state).1 ∧
      ∀ node ∈ nodes, ∀ known, graph.nodeCost state.1 node = some known →
        ∃ lower ≤ known, bestCost (nodes.foldl (graph.relaxNode canon) state).1 canon = some lower := by
  induction nodes generalizing state with
  | nil => exact ⟨Lowers.refl, supported, fun _ absurd => nomatch absurd⟩
  | cons node nodes hypothesis =>
      have here : canon < state.1.length := by rwa [length]
      have first := @relaxNode_lowers _ graph state node canon here
      obtain ⟨rest, supported', bound⟩ := hypothesis
        (supported.relaxNode here (members node List.mem_cons_self) same) (by rw [first.1, length])
        fun other member => members other (List.mem_cons_of_mem _ member)
      refine ⟨first.trans rest, supported', ?_⟩
      intro other member known found
      rcases List.mem_cons.mp member with rfl | member
      · obtain ⟨lower, below, held⟩ := relaxNode_bound here found
        obtain ⟨lowest, below', held⟩ := rest.2 held
        exact ⟨lowest, le_trans below' below, held⟩
      · obtain ⟨lower, below, found⟩ := first.nodeCost found
        obtain ⟨lowest, below', held⟩ := bound other member lower found
        exact ⟨lowest, le_trans below' below, held⟩

/-- What holds of the table while the classes of one pass are relaxed. -/
theorem relaxClasses (supported : Supported graph state.1) (length : state.1.length = graph.size)
    {places : List EClassId} (present : ∀ place ∈ places, place < graph.size) :
    Lowers state.1 (places.foldl graph.relaxClass state).1 ∧ Supported graph (places.foldl graph.relaxClass state).1 ∧
      ∀ place ∈ places, ∀ node ∈ graph.nodes place, ∀ known, graph.nodeCost state.1 node = some known →
        ∃ lower ≤ known, bestCost (places.foldl graph.relaxClass state).1 (graph.findConst place) = some lower := by
  induction places generalizing state with
  | nil => exact ⟨Lowers.refl, supported, fun _ absurd => nomatch absurd⟩
  | cons place places hypothesis =>
      have here := findConst_lt (present place List.mem_cons_self)
      obtain ⟨first, supported', bound⟩ := @relaxNodes _ graph state _ place supported length here
        (graph.nodes place) (fun _ member => member) rfl
      obtain ⟨rest, supported'', bound'⟩ := @hypothesis (graph.relaxClass state place) supported'
        (first.1.trans length) fun other member => present other (List.mem_cons_of_mem _ member)
      refine ⟨first.trans rest, supported'', ?_⟩
      intro other member node held known found
      rcases List.mem_cons.mp member with rfl | member
      · obtain ⟨lower, below, entry⟩ := bound node held known found
        obtain ⟨lowest, below', entry⟩ := rest.2 entry
        exact ⟨lowest, le_trans below' below, entry⟩
      · obtain ⟨lower, below, found⟩ := first.nodeCost found
        obtain ⟨lowest, below', entry⟩ := bound' other member node held lower found
        exact ⟨lowest, le_trans below' below, entry⟩

/-- The table after one pass. -/
def pass (graph : EGraph) (table : BestTable) : BestTable := (graph.relaxAll table).1

theorem pass_spec (supported : Supported graph table) (length : table.length = graph.size) :
    Lowers table (graph.pass table) ∧ Supported graph (graph.pass table) ∧
      ∀ place, ∀ node ∈ graph.nodes place, ∀ known, graph.nodeCost table node = some known →
        ∃ lower ≤ known, bestCost (graph.pass table) (graph.findConst place) = some lower := by
  obtain ⟨lowers, supported', bound⟩ := @relaxClasses _ graph (table, false) supported length
    (List.range graph.classes.length) fun place member => List.mem_range.mp member
  exact ⟨lowers, supported', fun place node held => bound place (List.mem_range.mpr (lt_size_of_mem held)) node held⟩

omit [Binary64] in
/-- A run of steps that each report their changes reports its changes. -/
theorem foldl_unchanged {Table Item : Type} {step : Table × Bool → Item → Table × Bool}
    (reports : ∀ state item, (step state item).2 = false → step state item = state) {items : List Item}
    {state : Table × Bool} (unchanged : (items.foldl step state).2 = false) : items.foldl step state = state := by
  induction items generalizing state with
  | nil => rfl
  | cons item items hypothesis =>
      have rest := hypothesis unchanged
      rw [List.foldl_cons] at unchanged ⊢
      rw [rest] at unchanged ⊢
      exact reports state item unchanged

/-- A pass that reports no change has made none. -/
theorem relaxAll_unchanged (unchanged : (graph.relaxAll table).2 = false) : graph.pass table = table := by
  have node : ∀ canon state node, (graph.relaxNode canon state node).2 = false →
      graph.relaxNode canon state node = state := by
    intro canon state node unchanged
    rcases relaxNode_cases graph canon state node with ⟨same, _⟩ | ⟨_, _, _, changed⟩
    · exact same
    · rw [changed] at unchanged
      contradiction
  exact congrArg Prod.fst (foldl_unchanged (fun _ _ => foldl_unchanged (node _)) unchanged)

theorem relax_succ {passes : Nat} : graph.relax (passes + 1) table =
    if (graph.relaxAll table).2 = true then graph.relax passes (graph.pass table) else graph.pass table := rfl

/-- Ending early makes no difference to the table. -/
theorem relax_eq_iterate {passes : Nat} : graph.relax passes table = graph.pass^[passes] table := by
  induction passes generalizing table with
  | zero => rfl
  | succ passes hypothesis =>
      rw [Function.iterate_succ_apply, relax_succ]
      by_cases changed : (graph.relaxAll table).2 = true
      · rw [if_pos changed, hypothesis]
      · have fixed := relaxAll_unchanged (Bool.eq_false_iff.mpr changed)
        rw [if_neg changed, fixed]
        exact (Function.iterate_fixed fixed passes).symm

theorem iterate_spec (graph : EGraph) (passes : Nat) :
    Supported graph (graph.pass^[passes] (List.replicate graph.size none)) ∧
      (graph.pass^[passes] (List.replicate graph.size none)).length = graph.size := by
  induction passes with
  | zero =>
      refine ⟨?_, List.length_replicate⟩
      intro canon known node entry
      rw [Function.iterate_zero_apply, List.getElem?_replicate] at entry
      by_cases present : canon < graph.size
      · rw [if_pos present] at entry
        nomatch entry
      · rw [if_neg present] at entry
        nomatch entry
  | succ passes hypothesis =>
      rw [Function.iterate_succ_apply']
      obtain ⟨lowers, supported, _⟩ := pass_spec hypothesis.1 hypothesis.2
      exact ⟨supported, lowers.1.trans hypothesis.2⟩

end Table

section Least

/-- The cost of a cheapest expression that the class represents. -/
def LeastCost (graph : EGraph) (id : EClassId) (least : Nat) : Prop :=
  (∃ expr, Represents graph id expr ∧ cost expr = least) ∧ ∀ expr, Represents graph id expr → least ≤ cost expr

theorem exists_leastCost (represents : Represents graph id expr) : ∃ least ≤ cost expr, graph.LeastCost id least := by
  classical
  have some' : ∃ known, ∃ expr, Represents graph id expr ∧ cost expr = known := ⟨_, expr, represents, rfl⟩
  refine ⟨Nat.find some', Nat.find_min' some' ⟨expr, represents, rfl⟩, Nat.find_spec some', ?_⟩
  exact fun other represents' => Nat.find_min' some' ⟨other, represents', rfl⟩

theorem LeastCost.congr {least : Nat} (leastCost : graph.LeastCost id least)
    (same : graph.findConst id = graph.findConst other) : graph.LeastCost other least := by
  obtain ⟨⟨expr, represents, total⟩, bound⟩ := leastCost
  exact ⟨⟨expr, represents.congr same, total⟩, fun expr represents => bound expr (represents.congr same.symm)⟩

theorem findConst_lt_of_represents (represents : Represents graph id expr) : graph.findConst id < graph.size := by
  cases represents with
  | literal member place => rw [← place]; exact findConst_lt (lt_size_of_mem member)
  | field member place => rw [← place]; exact findConst_lt (lt_size_of_mem member)
  | not member place inner => rw [← place]; exact findConst_lt (lt_size_of_mem member)
  | binary member place left right => rw [← place]; exact findConst_lt (lt_size_of_mem member)

open Classical in
/-- The number of classes that represent an expression cheaper than this. -/
noncomputable def rank (graph : EGraph) (bound : Nat) : Nat :=
  ((Finset.range graph.size).filter fun id => ∃ least < bound, graph.LeastCost id least).card

theorem rank_le_size (bound : Nat) : graph.rank bound ≤ graph.size := by
  classical
  exact (Finset.card_filter_le _ _).trans (Finset.card_range _).le

/-- The rank of a child of a cheapest expression is lower. -/
theorem rank_lt {least bound : Nat} (leastCost : graph.LeastCost id least) (cheaper : least < bound) :
    graph.rank least < graph.rank bound := by
  classical
  obtain ⟨⟨expr, represents, total⟩, rest⟩ := leastCost
  have canonical : graph.LeastCost (graph.findConst id) least :=
    LeastCost.congr ⟨⟨expr, represents, total⟩, rest⟩ findConst_findConst.symm
  apply Finset.card_lt_card
  rw [Finset.ssubset_iff_of_subset]
  · refine ⟨graph.findConst id, ?_, ?_⟩
    · exact Finset.mem_filter.mpr ⟨Finset.mem_range.mpr (findConst_lt_of_represents represents), least, cheaper, canonical⟩
    · intro member
      obtain ⟨_, other, lower, least'⟩ := Finset.mem_filter.mp member
      obtain ⟨expr', represents', total'⟩ := canonical.1
      obtain ⟨expr'', represents'', total''⟩ := least'.1
      have bound := canonical.2 expr'' represents''
      omega
  · intro place member
    obtain ⟨inside, other, lower, least'⟩ := Finset.mem_filter.mp member
    exact Finset.mem_filter.mpr ⟨inside, other, lt_trans lower cheaper, least'⟩

/-- After as many passes as its rank, the recorded cost of a class is the least. -/
theorem iterate_bound {passes least : Nat} (leastCost : graph.LeastCost id least) (enough : graph.rank least < passes) :
    ∃ lower ≤ least,
      bestCost (graph.pass^[passes] (List.replicate graph.size none)) (graph.findConst id) = some lower := by
  induction passes generalizing id least with
  | zero => exact absurd enough (Nat.not_lt_zero _)
  | succ passes hypothesis =>
      obtain ⟨supported, length⟩ := iterate_spec graph passes
      obtain ⟨_, _, bound⟩ := pass_spec supported length
      rw [Function.iterate_succ_apply']
      have child : ∀ {child inner}, Represents graph child inner → cost inner < least →
          ∃ lower ≤ cost inner, bestCost (graph.pass^[passes] (List.replicate graph.size none))
            (graph.findConst child) = some lower := by
        intro child inner represents cheaper
        obtain ⟨childLeast, below, childLeastCost⟩ := exists_leastCost represents
        have lower := rank_lt childLeastCost (lt_of_le_of_lt below cheaper)
        obtain ⟨held, within, found⟩ := hypothesis childLeastCost (by omega)
        exact ⟨held, le_trans within below, found⟩
      obtain ⟨⟨expr, represents, rfl⟩, _⟩ := leastCost
      cases represents with
      | literal member place =>
          rw [← place]
          exact bound _ _ member 1 rfl
      | field member place =>
          rw [← place]
          exact bound _ _ member 2 rfl
      | not member place inner =>
          obtain ⟨lower, below, found⟩ := child inner (by simp only [cost]; omega)
          obtain ⟨lowest, below', found'⟩ := bound _ _ member (2 + lower)
            (Option.map_eq_some_iff.mpr ⟨lower, found, rfl⟩)
          rw [← place]
          exact ⟨lowest, by simp only [cost]; omega, found'⟩
      | binary member place left right =>
          obtain ⟨leftLower, leftBelow, leftFound⟩ := child left (by simp only [cost]; omega)
          obtain ⟨rightLower, rightBelow, rightFound⟩ := child right (by simp only [cost]; omega)
          obtain ⟨lowest, below, found⟩ := bound _ _ member (3 + leftLower + rightLower)
            (Option.bind_eq_some_iff.mpr ⟨leftLower, leftFound,
              Option.bind_eq_some_iff.mpr ⟨rightLower, rightFound, rfl⟩⟩)
          rw [← place]
          exact ⟨lowest, by simp only [cost]; omega, found⟩

end Least

section Reconstruct

variable {table : BestTable} {known : Nat} {node : ENode}

theorem nodeCost_pos (found : graph.nodeCost table node = some known) : 0 < known := by
  cases node with
  | literal value => exact Option.some.inj found ▸ Nat.one_pos
  | field name => exact Option.some.inj found ▸ Nat.two_pos
  | not child =>
      obtain ⟨childCost, _, total⟩ := Option.map_eq_some_iff.mp found
      omega
  | binary op left right =>
      obtain ⟨leftCost, _, rest⟩ := Option.bind_eq_some_iff.mp found
      obtain ⟨rightCost, _, total⟩ := Option.bind_eq_some_iff.mp rest
      have sum := Option.some.inj total
      omega
  | scan entity filter limit => nomatch found
  | emptyRelation => nomatch found

/-- Reconstruction ends within the recorded cost and returns an expression that is no dearer. -/
theorem reconstructExpr_spec (supported : Supported graph table)
    (entry : table[graph.findConst id]?.join = some (known, node)) :
    ∃ expr, Represents graph id expr ∧ cost expr ≤ known ∧
      ∀ fuel, known ≤ fuel → graph.reconstructExpr table fuel id = some (.ok expr) := by
  induction known using Nat.strong_induction_on generalizing id node with
  | _ known hypothesis =>
      obtain ⟨place, member, same, actual, below, found⟩ := supported _ _ _ entry
      have positive := nodeCost_pos found
      have child : ∀ {child childCost}, bestCost table (graph.findConst child) = some childCost → childCost < known →
          ∃ expr, Represents graph child expr ∧ cost expr ≤ childCost ∧
            ∀ fuel, childCost ≤ fuel → graph.reconstructExpr table fuel child = some (.ok expr) := by
        intro child childCost childFound cheaper
        obtain ⟨⟨childKnown, childNode⟩, childEntry, rfl⟩ := Option.map_eq_some_iff.mp childFound
        exact hypothesis _ cheaper childEntry
      have step : ∀ {expr}, (∀ fuel, known ≤ fuel + 1 → graph.reconstructExpr table (fuel + 1) id = some (.ok expr)) →
          ∀ fuel, known ≤ fuel → graph.reconstructExpr table fuel id = some (.ok expr) := by
        intro expr returns fuel enough
        obtain ⟨fuel, rfl⟩ := Nat.exists_eq_succ_of_ne_zero (ne_of_gt (lt_of_lt_of_le (by omega : 0 < known) enough))
        exact returns fuel enough
      cases node with
      | literal value =>
          obtain rfl := Option.some.inj found
          refine ⟨.literal value, .literal member same, below, step fun fuel _ => ?_⟩
          simp only [reconstructExpr, entry]
          rfl
      | field name =>
          obtain rfl := Option.some.inj found
          refine ⟨.field name, .field member same, below, step fun fuel _ => ?_⟩
          simp only [reconstructExpr, entry]
          rfl
      | not inner =>
          obtain ⟨innerCost, innerFound, rfl⟩ := Option.map_eq_some_iff.mp found
          obtain ⟨expr, represents, bound, returned⟩ := child innerFound (by omega)
          refine ⟨.not expr, .not member same represents, by simp only [cost]; omega, step fun fuel enough => ?_⟩
          simp only [reconstructExpr, entry, returned fuel (by omega)]
          rfl
      | binary op left right =>
          obtain ⟨leftCost, leftFound, rest⟩ := Option.bind_eq_some_iff.mp found
          obtain ⟨rightCost, rightFound, total⟩ := Option.bind_eq_some_iff.mp rest
          obtain rfl := Option.some.inj total
          obtain ⟨leftExpr, leftRepresents, leftBound, leftReturned⟩ := child leftFound (by omega)
          obtain ⟨rightExpr, rightRepresents, rightBound, rightReturned⟩ := child rightFound (by omega)
          refine ⟨.binary op leftExpr rightExpr, .binary member same leftRepresents rightRepresents,
            by simp only [cost]; omega, step fun fuel enough => ?_⟩
          simp only [reconstructExpr, entry, leftReturned fuel (by omega), rightReturned fuel (by omega)]
          rfl
      | scan entity filter limit => nomatch found
      | emptyRelation => nomatch found

/-- Extraction returns a cheapest expression of a class that represents one. -/
theorem extractBestExpr_spec (represents : Represents graph id expr) :
    ∃ best, Represents graph id best ∧ (∀ other, Represents graph id other → cost best ≤ cost other) ∧
      ∀ fuel, cost best ≤ fuel → graph.extractBestExpr fuel id = some (.ok (best, cost best)) := by
  obtain ⟨supported, _⟩ := iterate_spec graph (graph.size + 10)
  obtain ⟨least, _, leastCost⟩ := exists_leastCost represents
  have enough : graph.rank least < graph.size + 10 := lt_of_le_of_lt (rank_le_size least) (by omega)
  obtain ⟨known, below, found⟩ := iterate_bound leastCost enough
  rw [← relax_eq_iterate] at supported found
  obtain ⟨⟨known', node⟩, entry, same⟩ := Option.map_eq_some_iff.mp found
  obtain rfl : known' = known := same
  obtain ⟨best, represents', bound, returned⟩ := @reconstructExpr_spec _ graph (graph.findConst id) _ known' node
    supported (by rw [findConst_findConst]; exact entry)
  have represents'' := represents'.congr findConst_findConst
  have minimal := leastCost.2 best represents''
  obtain rfl : known' = cost best := by omega
  refine ⟨best, represents'', fun other represents => le_trans below (leastCost.2 other represents), ?_⟩
  intro fuel enough
  unfold extractBestExpr
  rw [show graph.bestTable = graph.relax (graph.size + 10) (List.replicate graph.size none) from rfl]
  simp only [found, returned fuel enough]
  rfl

end Reconstruct

end EGraph

end Temnion.Optimizer
