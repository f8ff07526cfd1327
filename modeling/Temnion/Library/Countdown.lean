import Temnion.Library.Kahn

/-
This file counts the nodes of a graph that are reached when every node waits for its edges, which may be repeated.
Every counter is checked before it is lowered.
-/

namespace Countdown

variable {K : Type} [LinearOrder K]

/-- One edge less leads to the node. Without any left it goes on the stack. -/
def lower (state : OrderedMap K Nat × List K) (node : K) : Option (OrderedMap K Nat × List K) :=
  match state.1[node]? with
  | some (degree + 1) => some (state.1.insert node degree, if degree = 0 then node :: state.2 else state.2)
  | some 0 => none
  | none => none

/-- Counts the nodes that are taken from the stack. -/
def count (successors : OrderedMap K (List K)) : Nat → OrderedMap K Nat → List K → Option Nat
  | 0, _, _ => none
  | _ + 1, _, [] => some 0
  | fuel + 1, degrees, node :: stack => do
      let nodes ← successors[node]?
      let (degrees, stack) ← nodes.foldlM lower (degrees, stack)
      let rest ← count successors fuel degrees stack
      some (rest + 1)

/-- No counter is too low for the nodes, and each of them loses one for every time that it is named. -/
theorem foldlM_lower {nodes : List K} {degrees : OrderedMap K Nat} (stack : List K)
    (enough : ∀ node ∈ nodes, ∃ degree, degrees[node]? = some degree ∧ nodes.count node ≤ degree) :
    ∃ lowered joined, nodes.foldlM lower (degrees, stack) = some (lowered, joined) ∧
      (∀ node : K, lowered[node]? = (degrees[node]?).map (· - nodes.count node)) ∧
      ∀ node, joined.count node =
        stack.count node + if 0 < nodes.count node ∧ degrees[node]? = some (nodes.count node) then 1 else 0 := by
  induction nodes generalizing degrees stack with
  | nil => exact ⟨degrees, stack, rfl, fun node => by simp, fun node => by simp⟩
  | cons first rest hypothesis =>
      obtain ⟨degree, found, within⟩ := enough first List.mem_cons_self
      rw [List.count_cons_self] at within
      obtain ⟨before, rfl⟩ : ∃ before, degree = before + 1 := ⟨degree - 1, by omega⟩
      have here : lower (degrees, stack) first =
          some (degrees.insert first before, if before = 0 then first :: stack else stack) := by
        rw [lower, found]
      have look : ∀ node : K, (degrees.insert first before)[node]? = if first = node then some before else degrees[node]? :=
        fun node => OrderedMap.insert_getElem? degrees first before node
      obtain ⟨lowered, joined, done, degrees', stack'⟩ :=
        @hypothesis (degrees.insert first before) (if before = 0 then first :: stack else stack) (by
          intro node member
          rw [look]
          by_cases same : first = node
          · subst same
            exact ⟨before, if_pos rfl, Nat.le_of_succ_le_succ within⟩
          · obtain ⟨own, present, bound⟩ := enough node (List.mem_cons_of_mem first member)
            rw [List.count_cons_of_ne same] at bound
            exact ⟨own, (if_neg same).trans present, bound⟩)
      refine ⟨lowered, joined, ?_, fun node => ?_, fun node => ?_⟩
      · rw [List.foldlM_cons, here]
        exact done
      · rw [degrees', look]
        by_cases same : first = node
        · subst same
          rw [if_pos rfl, found, List.count_cons_self, Option.map_some, Option.map_some]
          congr 1
          omega
        · rw [if_neg same, List.count_cons_of_ne same]
      · rw [stack', look]
        by_cases same : first = node
        · subst same
          simp only [if_true, found, List.count_cons_self, Option.some.injEq]
          by_cases last : before = 0
          · subst last
            rw [if_pos rfl, List.count_cons_self, if_neg (by omega), if_pos (by omega)]
          · rw [if_neg last, Nat.add_left_cancel_iff]
            apply if_congr _ rfl rfl
            omega
        · rw [if_neg same, List.count_cons_of_ne same]
          congr 1
          split
          · exact List.count_cons_of_ne same
          · rfl

/-- The edges to a node that do not come from an ordered one. -/
def remaining (predecessors : K → List K) (order : List K) (node : K) : Nat :=
  (predecessors node).countP fun predecessor => decide (predecessor ∉ order)

theorem remaining_nil (predecessors : K → List K) (node : K) :
    remaining predecessors [] node = (predecessors node).length := by
  rw [remaining, List.countP_eq_length]
  intro predecessor _
  exact decide_eq_true List.not_mem_nil

theorem remaining_concat {predecessors : K → List K} {order : List K} {last : K} (fresh : last ∉ order) (node : K) :
    remaining predecessors (order ++ [last]) node + (predecessors node).count last = remaining predecessors order node := by
  unfold remaining
  induction predecessors node with
  | nil => rfl
  | cons first rest hypothesis =>
      rw [List.countP_cons, List.countP_cons, List.count_cons]
      by_cases same : first = last
      · subst same
        rw [if_neg (by simp), if_pos (beq_self_eq_true first), if_pos (decide_eq_true fresh)]
        omega
      · have alike : first ∉ order ++ [last] ↔ first ∉ order := by simp [same]
        rw [if_neg fun equal => same (eq_of_beq equal)]
        simp only [alike]
        omega

/-- The graph that the two maps describe is the one of the predecessors. -/
structure Edges (predecessors : K → List K) (successors : OrderedMap K (List K)) (initial : OrderedMap K Nat) : Prop where
  degree : ∀ (node : K) (degree : Nat), initial[node]? = some degree → degree = (predecessors node).length
  closed : ∀ node ∈ initial, ∀ predecessor ∈ predecessors node, predecessor ∈ initial
  listed : ∀ node ∈ initial, ∃ nodes, successors[node]? = some nodes ∧ (∀ other ∈ nodes, other ∈ initial) ∧
    ∀ other ∈ initial, nodes.count other = (predecessors other).count node

/-- The counters say how many edges every node waits for, and those that wait for none are ordered or on the stack. -/
structure Waits (predecessors : K → List K) (initial degrees : OrderedMap K Nat) (stack order : List K) : Prop where
  degree : ∀ node : K, degrees[node]? = (initial[node]?).map fun _ => remaining predecessors order node
  count : ∀ node : K, (order ++ stack).count node =
    if node ∈ initial ∧ remaining predecessors order node = 0 then 1 else 0

section

variable {predecessors : K → List K} {successors : OrderedMap K (List K)} {initial degrees : OrderedMap K Nat}
  {stack order : List K} {node : K}

theorem Waits.nodup (waits : Waits predecessors initial degrees stack order) : (order ++ stack).Nodup := by
  rw [List.nodup_iff_count_le_one]
  intro node
  rw [waits.count]
  split
  · exact le_rfl
  · exact Nat.zero_le 1

theorem Waits.mem_iff (waits : Waits predecessors initial degrees stack order) :
    node ∈ order ++ stack ↔ node ∈ initial ∧ remaining predecessors order node = 0 := by
  rw [← List.count_pos_iff, waits.count]
  split
  · next both => exact iff_of_true Nat.one_pos both
  · next not => exact iff_of_false (lt_irrefl 0) not

/-- At the start a node waits for all its edges. -/
theorem Edges.start (edges : Edges predecessors successors initial)
    (free : ∀ node, stack.count node = if initial[node]? = some 0 then 1 else 0) :
    Waits predecessors initial initial stack [] where
  degree node := by
    cases found : initial[node]? with
    | none => rfl
    | some degree => rw [Option.map_some, remaining_nil, ← edges.degree node degree found]
  count node := by
    rw [List.nil_append, free, remaining_nil]
    cases found : initial[node]? with
    | none =>
        rw [if_neg nofun, if_neg]
        rintro ⟨member, -⟩
        rw [Std.ExtTreeMap.mem_iff_isSome_getElem?, found] at member
        contradiction
    | some degree =>
        have member : node ∈ initial := Std.ExtTreeMap.mem_iff_isSome_getElem?.mpr (found ▸ rfl)
        rw [← edges.degree node degree found]
        apply if_congr _ rfl rfl
        rw [Option.some.injEq]
        exact ⟨fun zero => ⟨member, zero⟩, fun both => both.2⟩

/-- A node of the stack is ordered without any counter becoming too low. -/
theorem Edges.step (edges : Edges predecessors successors initial)
    (waits : Waits predecessors initial degrees (node :: stack) order) :
    ∃ nodes lowered joined, successors[node]? = some nodes ∧ nodes.foldlM lower (degrees, stack) = some (lowered, joined) ∧
      Waits predecessors initial lowered joined (order ++ [node]) := by
  have both := waits.nodup
  have fresh : node ∉ order := fun member =>
    List.disjoint_of_nodup_append both member List.mem_cons_self
  have member := (waits.mem_iff.mp (List.mem_append_right order List.mem_cons_self)).1
  obtain ⟨nodes, found, inside, counts⟩ := edges.listed node member
  have known : ∀ other ∈ initial, degrees[other]? = some (remaining predecessors order other) := by
    intro other present
    obtain ⟨degree, same⟩ := Option.isSome_iff_exists.mp (Std.ExtTreeMap.mem_iff_isSome_getElem?.mp present)
    rw [waits.degree, same, Option.map_some]
  obtain ⟨lowered, joined, done, degrees', stack'⟩ := foldlM_lower stack (by
    intro other listed
    refine ⟨_, known other (inside other listed), ?_⟩
    rw [counts other (inside other listed), ← remaining_concat fresh]
    exact Nat.le_add_left _ _ : ∀ other ∈ nodes, ∃ degree, degrees[other]? = some degree ∧ nodes.count other ≤ degree)
  refine ⟨nodes, lowered, joined, found, done, ?_, ?_⟩
  · intro other
    rw [degrees', waits.degree]
    cases present : initial[other]? with
    | none => rfl
    | some degree =>
        have fewer := @remaining_concat _ _ predecessors _ _ fresh other
        rw [Option.map_some, Option.map_some, Option.map_some,
          counts other (Std.ExtTreeMap.mem_iff_isSome_getElem?.mpr (present ▸ rfl))]
        congr 1
        omega
  · intro other
    have before := waits.count other
    rw [List.append_cons, List.count_append] at before
    rw [List.count_append, stack', ← Nat.add_assoc, before]
    by_cases present : other ∈ initial
    · have fewer := @remaining_concat _ _ predecessors _ _ fresh other
      simp only [known other present, counts other present, Option.some.injEq, present, true_and]
      split
      · rw [if_neg (by omega), if_pos (by omega)]
      · rw [Nat.zero_add]
        apply if_congr _ rfl rfl
        omega
    · have unnamed : ¬ 0 < nodes.count other := fun positive => present (inside other (List.count_pos_iff.mp positive))
      rw [if_neg fun both => present both.1, if_neg fun both => unnamed both.1, if_neg fun both => present both.1]

theorem Waits.length_le (waits : Waits predecessors initial degrees stack order) :
    (order ++ stack).length ≤ initial.size := by
  rw [← Std.ExtTreeMap.length_keys]
  apply (waits.nodup.subperm _).length_le
  intro node member
  exact Std.ExtTreeMap.mem_keys.mpr (waits.mem_iff.mp member).1

/-- A node that waits for nothing comes after all its predecessors. -/
theorem Waits.complete (free : remaining predecessors order node = 0) :
    ∀ predecessor ∈ predecessors node, predecessor ∈ order := by
  intro predecessor member
  have none := List.countP_eq_zero.mp free predecessor member
  rwa [decide_eq_true_eq, not_not] at none

/-- With a round for each node the count ends, and the nodes were counted in an order of the graph. -/
theorem Edges.finish {fuel : Nat} (edges : Edges predecessors successors initial)
    (waits : Waits predecessors initial degrees stack order) (placed : Kahn.Placed predecessors order)
    (enough : initial.size < fuel + order.length) :
    ∃ counted final degrees', count successors fuel degrees stack = some counted ∧
      counted + order.length = final.length ∧ Waits predecessors initial degrees' [] final ∧
      Kahn.Placed predecessors final := by
  induction fuel generalizing degrees stack order with
  | zero =>
      have bound := waits.length_le
      rw [List.length_append] at bound
      omega
  | succ fuel hypothesis =>
      cases stack with
      | nil => exact ⟨0, order, degrees, rfl, Nat.zero_add _, waits, placed⟩
      | cons node stack =>
          obtain ⟨nodes, lowered, joined, found, done, after⟩ := edges.step waits
          have free := (waits.mem_iff.mp (List.mem_append_right order List.mem_cons_self)).2
          obtain ⟨counted, final, degrees', rest, length, waits', placed'⟩ :=
            hypothesis after (placed.concat (Waits.complete free)) (by
              rw [List.length_append, List.length_singleton]
              omega)
          refine ⟨counted + 1, final, degrees', ?_, ?_, waits', placed'⟩
          · simp only [count, found, done, rest, Option.bind_eq_bind, Option.bind_some]
          · rw [List.length_append, List.length_singleton] at length
            omega

/-- The edges between the nodes of the graph. -/
def Edge (predecessors : K → List K) (initial : OrderedMap K Nat) (first second : K) : Prop :=
  first ∈ predecessors second ∧ second ∈ initial

/-- Without a cycle no node waits for ever. -/
theorem Edges.exhausts (edges : Edges predecessors successors initial)
    (acyclic : ∀ node, ¬ Relation.TransGen (Edge predecessors initial) node node)
    (waits : Waits predecessors initial degrees [] order) : ∀ node ∈ initial, node ∈ order := by
  intro node member
  by_contra missing
  let Missing := {node : K // node ∈ initial.keys ∧ node ∉ order}
  let leads (first second : Missing) : Prop := Relation.TransGen (Edge predecessors initial) first.val second.val
  have : Finite Missing := Set.Finite.subset (List.finite_toSet initial.keys) fun _ inside => inside.1
  have : IsTrans Missing leads := ⟨fun _ _ _ => Relation.TransGen.trans⟩
  have : Std.Irrefl leads := ⟨fun node => acyclic node.val⟩
  have founded : WellFounded leads := Finite.wellFounded_of_trans_of_irrefl leads
  obtain ⟨⟨first, inside, outside⟩, -, earliest⟩ :=
    founded.has_min Set.univ ⟨⟨node, Std.ExtTreeMap.mem_keys.mpr member, missing⟩, trivial⟩
  have known : first ∈ initial := Std.ExtTreeMap.mem_keys.mp inside
  apply outside
  rw [← List.append_nil order, waits.mem_iff]
  refine ⟨known, ?_⟩
  rw [remaining, List.countP_eq_zero]
  intro predecessor edge
  rw [decide_eq_true_eq, not_not]
  by_contra lost
  have present := edges.closed first known predecessor edge
  exact earliest ⟨predecessor, Std.ExtTreeMap.mem_keys.mpr present, lost⟩ trivial (.single ⟨edge, known⟩)

/-- An order of all nodes leaves no cycle. -/
theorem acyclic_of_placed (unique : order.Nodup) (placed : Kahn.Placed predecessors order)
    (all : ∀ node ∈ initial, node ∈ order) (node : K) :
    ¬ Relation.TransGen (Edge predecessors initial) node node := by
  have earlier : ∀ {first second}, Edge predecessors initial first second → order.idxOf first < order.idxOf second := by
    rintro first second ⟨edge, present⟩
    obtain ⟨before, after, rfl⟩ := List.append_of_mem (all second present)
    have inside := placed before second after rfl first edge
    have fresh : second ∉ before := fun member =>
      List.disjoint_of_nodup_append unique member List.mem_cons_self
    rw [List.idxOf_append_of_mem inside, List.idxOf_append_of_notMem fresh, List.idxOf_cons_self, Nat.add_zero]
    exact List.idxOf_lt_length_of_mem inside
  intro cycle
  have less : ∀ {last}, Relation.TransGen (Edge predecessors initial) node last → order.idxOf node < order.idxOf last := by
    intro last path
    induction path with
    | single edge => exact earlier edge
    | tail _ edge hypothesis => exact hypothesis.trans (earlier edge)
  exact lt_irrefl _ (less cycle)

/-- No counter becomes too low, the count ends, and it counts all nodes exactly when the graph has no cycle. -/
theorem Edges.counts (edges : Edges predecessors successors initial)
    (free : ∀ node, stack.count node = if initial[node]? = some 0 then 1 else 0) :
    ∃ counted, count successors (initial.size + 1) initial stack = some counted ∧
      (counted = initial.size ↔ ∀ node, ¬ Relation.TransGen (Edge predecessors initial) node node) := by
  have nothing : Kahn.Placed predecessors [] := fun before node after split => by
    rw [eq_comm, List.append_eq_nil_iff] at split
    exact absurd split.2 (List.cons_ne_nil _ _)
  obtain ⟨counted, final, degrees, done, length, waits, placed⟩ :=
    edges.finish (edges.start free) nothing (Nat.lt_succ_self initial.size)
  have unique : final.Nodup := by
    have nodup := waits.nodup
    rwa [List.append_nil] at nodup
  have sub : final.Subperm initial.keys := by
    apply unique.subperm
    intro node member
    rw [← List.append_nil final] at member
    exact Std.ExtTreeMap.mem_keys.mpr (waits.mem_iff.mp member).1
  refine ⟨counted, done, ?_⟩
  rw [List.length_nil, Nat.add_zero] at length
  rw [length, ← Std.ExtTreeMap.length_keys]
  constructor
  · intro full
    have same := sub.perm_of_length_le full.ge
    exact acyclic_of_placed unique placed fun node member => same.mem_iff.mpr (Std.ExtTreeMap.mem_keys.mpr member)
  · intro acyclic
    apply le_antisymm sub.length_le
    apply (Std.ExtTreeMap.nodup_keys.subperm _).length_le
    intro node member
    exact edges.exhausts acyclic waits node (Std.ExtTreeMap.mem_keys.mp member)

end

end Countdown
