import Mathlib
import Temnion.Library.OrderedMap

/-
This file orders the nodes of a graph by counting for each node the predecessors that are still missing.
-/

namespace Kahn

variable {K : Type} [LinearOrder K]

/-- A node loses one missing predecessor and joins the queue when none is left. -/
def relax (state : OrderedMap K Nat × List K) (node : K) : OrderedMap K Nat × List K :=
  match state.1[node]? with
  | none => state
  | some degree => (state.1.insert node (degree - 1), if degree - 1 = 0 then state.2 ++ [node] else state.2)

/-- The nodes that miss nothing at the start, in the order of the map. -/
def ready (degrees : OrderedMap K Nat) : List K :=
  (degrees.toList.filter fun (_, degree) => degree = 0).map Prod.fst

def drain (successors : K → List K) : Nat → OrderedMap K Nat → List K → List K → Option (List K)
  | 0, _, _, _ => none
  | _ + 1, _, [], order => some order
  | fuel + 1, degrees, node :: queue, order =>
      let (degrees, queue) := (successors node).foldl relax (degrees, queue)
      drain successors fuel degrees queue (order ++ [node])

/-- How often an ordered node named this one as its successor. -/
def supplied (successors : K → List K) (order : List K) (node : K) : Nat :=
  order.countP fun predecessor => decide (node ∈ successors predecessor)

theorem supplied_concat (successors : K → List K) (order : List K) (last node : K) :
    supplied successors (order ++ [last]) node =
      supplied successors order node + if node ∈ successors last then 1 else 0 := by
  simp [supplied, List.countP_append, List.countP_singleton]

/-- The degrees and the queue say exactly what the ordered nodes have supplied. -/
structure Counted (successors : K → List K) (initial degrees : OrderedMap K Nat) (queue order : List K) : Prop where
  degree : ∀ node : K, degrees[node]? = (initial[node]?).map (· - supplied successors order node)
  count : ∀ node : K, (order ++ queue).count node =
    (initial[node]?).elim 0 fun degree => supplied successors order node + 1 - degree

theorem ready_count (degrees : OrderedMap K Nat) (node : K) :
    (ready degrees).count node = if degrees[node]? = some 0 then 1 else 0 := by
  have nodup : (ready degrees).Nodup := degrees.keys_nodup.sublist (List.filter_sublist.map _)
  have member : node ∈ ready degrees ↔ degrees[node]? = some 0 := by
    rw [← OrderedMap.mem_toList]
    simp [ready]
  rw [List.nodup_iff_count_le_one] at nodup
  by_cases zero : degrees[node]? = some 0
  · rw [if_pos zero]
    have positive := List.count_pos_iff.mpr (member.mpr zero)
    have atMost := nodup node
    omega
  · rw [if_neg zero, List.count_eq_zero]
    exact fun inside => zero (member.mp inside)

theorem start (successors : K → List K) (initial : OrderedMap K Nat) :
    Counted successors initial initial (ready initial) [] where
  degree node := by cases initial[node]? <;> simp [supplied]
  count node := by
    rw [List.nil_append, ready_count]
    cases initial[node]? with
    | none => rfl
    | some degree =>
        cases degree with
        | zero => rfl
        | succ degree => simp [supplied]

/-- Every named successor loses one, and those that reach zero join the queue once. -/
theorem relax_all {nodes : List K} (nodup : nodes.Nodup) (degrees : OrderedMap K Nat) (queue : List K) (node : K) :
    (nodes.foldl relax (degrees, queue)).1[node]? =
        (if node ∈ nodes then (degrees[node]?).map (· - 1) else degrees[node]?) ∧
      (nodes.foldl relax (degrees, queue)).2.count node =
        queue.count node + if node ∈ nodes ∧ (degrees[node]?).any (· ≤ 1) then 1 else 0 := by
  induction nodes generalizing degrees queue with
  | nil => simp
  | cons first rest hypothesis =>
      obtain ⟨fresh, nodup⟩ := List.nodup_cons.mp nodup
      rw [List.foldl_cons]
      cases found : degrees[first]? with
      | none =>
          have skipped : relax (degrees, queue) first = (degrees, queue) := by simp [relax, found]
          rw [skipped]
          obtain ⟨lowered, joined⟩ := hypothesis nodup degrees queue
          rw [lowered, joined]
          by_cases same : node = first
          · subst same
            simp [fresh, found]
          · simp [same]
      | some degree =>
          have changed : relax (degrees, queue) first =
              (degrees.insert first (degree - 1), if degree - 1 = 0 then queue ++ [first] else queue) := by
            simp [relax, found]
          rw [changed]
          obtain ⟨lowered, joined⟩ := hypothesis nodup (degrees.insert first (degree - 1))
            (if degree - 1 = 0 then queue ++ [first] else queue)
          rw [lowered, joined]
          by_cases same : node = first
          · subst same
            simp only [fresh, found, List.mem_cons, true_or, if_true, if_false, Std.ExtTreeMap.getElem?_insert_self,
              Option.map_some, Option.any_some, decide_eq_true_eq, true_and, false_and, add_zero]
            by_cases last : degree ≤ 1
            · rw [if_pos (Nat.sub_eq_zero_of_le last), if_pos last, List.count_append, List.count_singleton_self]
            · rw [if_neg (by omega), if_neg last, add_zero]
          · simp only [List.mem_cons, same, false_or, Std.ExtTreeMap.getElem?_insert, compare_eq_iff_eq, Ne.symm same,
              if_false]
            split <;> simp [List.count_append, Ne.symm same]

/-- One round keeps the count of what the ordered nodes have supplied. -/
theorem Counted.step {successors : K → List K} {initial degrees : OrderedMap K Nat} {queue order : List K} {node : K}
    (counted : Counted successors initial degrees (node :: queue) order) (nodup : (successors node).Nodup) :
    Counted successors initial ((successors node).foldl relax (degrees, queue)).1
      ((successors node).foldl relax (degrees, queue)).2 (order ++ [node]) where
  degree other := by
    rw [(relax_all nodup degrees queue other).1, counted.degree, supplied_concat]
    cases initial[other]? with
    | none => simp
    | some degree => split <;> simp [Nat.sub_sub]
  count other := by
    have before := counted.count other
    rw [List.count_append, (relax_all nodup degrees queue other).2, counted.degree, supplied_concat]
    rw [List.append_cons, List.count_append] at before
    cases found : initial[other]? with
    | none =>
        rw [found] at before
        simpa using before
    | some degree =>
        rw [found] at before
        simp only [Option.map_some, Option.any_some, Option.elim_some, decide_eq_true_eq] at before ⊢
        by_cases named : other ∈ successors node
        · rw [if_pos named]
          by_cases last : degree - supplied successors order other ≤ 1
          · rw [if_pos ⟨named, last⟩]
            omega
          · rw [if_neg fun both => last both.2]
            omega
        · rw [if_neg named, if_neg fun both => named both.1]
          omega

theorem relax_zero {degrees : OrderedMap K Nat} {node : K} (zero : degrees[node]? = some 0) (queue : List K) :
    relax (degrees, queue) node = (degrees, queue ++ [node]) := by
  have same : degrees.insert node 0 = degrees := by
    apply Std.ExtTreeMap.ext_getElem?
    intro other
    rw [Std.ExtTreeMap.getElem?_insert]
    split
    · next equal => rw [← compare_eq_iff_eq.mp equal, zero]
    · rfl
  simp [relax, zero, same]

/-- Two nodes that miss nothing and name each other follow each other for ever. -/
theorem drain_loops {successors : K → List K} {first second : K} {degrees : OrderedMap K Nat}
    (forth : successors first = [second]) (back : successors second = [first])
    (firstZero : degrees[first]? = some 0) (secondZero : degrees[second]? = some 0) (fuel : Nat) (order : List K) :
    drain successors fuel degrees [first] order = none := by
  induction fuel generalizing first second order with
  | zero => rfl
  | succ fuel hypothesis =>
      rw [drain, forth, List.foldl_cons, List.foldl_nil, relax_zero secondZero]
      exact hypothesis back forth secondZero firstZero (order ++ [first])

/-- A finished run counted everything that its order supplied. -/
theorem Counted.drain {successors : K → List K} {initial degrees : OrderedMap K Nat} {queue order final : List K}
    {fuel : Nat} (counted : Counted successors initial degrees queue order)
    (nodup : ∀ node, (successors node).Nodup) (finished : drain successors fuel degrees queue order = some final) :
    ∃ degrees', Counted successors initial degrees' [] final := by
  induction fuel generalizing degrees queue order with
  | zero => exact absurd finished nofun
  | succ fuel hypothesis =>
      cases queue with
      | nil =>
          rw [Kahn.drain, Option.some.injEq] at finished
          exact ⟨degrees, finished ▸ counted⟩
      | cons node queue => exact hypothesis (counted.step (nodup node)) finished

/-- Whatever waits or is ordered has had its need supplied. -/
theorem Counted.mem {successors : K → List K} {initial degrees : OrderedMap K Nat} {queue order : List K}
    (counted : Counted successors initial degrees queue order) {node : K} (member : node ∈ order ++ queue) :
    ∃ degree, initial[node]? = some degree ∧ degree ≤ supplied successors order node := by
  have positive : 0 < (order ++ queue).count node := List.count_pos_iff.mpr member
  rw [counted.count] at positive
  cases found : initial[node]? with
  | none =>
      rw [found] at positive
      exact absurd positive (Nat.lt_irrefl 0)
  | some degree =>
      rw [found, Option.elim_some] at positive
      exact ⟨degree, rfl, by omega⟩

/-- The order is never longer than the degree map. -/
theorem Counted.length_le {successors : K → List K} {initial degrees : OrderedMap K Nat} {queue order : List K}
    (counted : Counted successors initial degrees queue order) (unique : (order ++ queue).Nodup) :
    (order ++ queue).length ≤ initial.size := by
  have sub : (order ++ queue).Subperm (initial.toList.map Prod.fst) := by
    apply unique.subperm
    intro node member
    obtain ⟨degree, found, _⟩ := counted.mem member
    exact List.mem_map.mpr ⟨(node, degree), OrderedMap.mem_toList.mpr found, rfl⟩
  calc (order ++ queue).length ≤ (initial.toList.map Prod.fst).length := sub.length_le
    _ = initial.size := by rw [List.length_map, Std.ExtTreeMap.length_toList]

/-- A node with more suppliers than it needs stands in the final order more than once. -/
theorem oversupplied {successors : K → List K} {initial : OrderedMap K Nat} {final suppliers : List K}
    {fuel degree : Nat} {node : K} (nodup : ∀ node, (successors node).Nodup)
    (finished : drain successors fuel initial (ready initial) [] = some final) (needs : initial[node]? = some degree)
    (different : suppliers.Nodup) (named : ∀ supplier ∈ suppliers, supplier ∈ final ∧ node ∈ successors supplier)
    (more : degree < suppliers.length) : ¬ final.Nodup := by
  obtain ⟨degrees, counted⟩ := (start successors initial).drain nodup finished
  have count : final.count node = supplied successors final node + 1 - degree := by
    rw [← List.append_nil final, counted.count, needs, List.append_nil, Option.elim_some]
  have sub : suppliers.Subperm (final.filter fun predecessor => decide (node ∈ successors predecessor)) := by
    apply different.subperm
    intro supplier member
    obtain ⟨present, names⟩ := named supplier member
    exact List.mem_filter.mpr ⟨present, decide_eq_true names⟩
  have supply := sub.length_le
  rw [← List.countP_eq_length_filter] at supply
  intro unique
  have once : final.count node ≤ 1 := List.nodup_iff_count_le_one.mp unique node
  rw [count, supplied] at once
  omega

/-- The graph that the two lists and the degrees describe is one and the same. -/
structure Agrees (predecessors successors : K → List K) (initial : OrderedMap K Nat) : Prop where
  dual : ∀ node successor, successor ∈ successors node ↔ node ∈ predecessors successor
  successors_nodup : ∀ node, (successors node).Nodup
  predecessors_nodup : ∀ node, (predecessors node).Nodup
  needs : ∀ (node : K) (degree : Nat), initial[node]? = some degree → degree = (predecessors node).length
  closed : ∀ node ∈ initial, ∀ predecessor ∈ predecessors node, predecessor ∈ initial

section

variable {predecessors successors : K → List K} {initial : OrderedMap K Nat} (agrees : Agrees predecessors successors initial)

include agrees

/-- Without repetitions in the order, the supply is the part of the predecessors that it contains. -/
theorem Agrees.supplied_eq (order : List K) (node : K) :
    supplied successors order node = (order.filter (· ∈ predecessors node)).length := by
  rw [supplied, List.countP_eq_length_filter]
  simp only [agrees.dual]

theorem Agrees.supplied_le {order : List K} (unique : order.Nodup) (node : K) :
    supplied successors order node ≤ (predecessors node).length := by
  rw [agrees.supplied_eq]
  apply (List.Nodup.subperm (unique.filter _) _).length_le
  intro predecessor member
  simpa using (List.mem_filter.mp member).2

/-- A node that misses nothing has all its predecessors in the order. -/
theorem Agrees.complete {order : List K} (unique : order.Nodup) {node : K}
    (full : (predecessors node).length ≤ supplied successors order node) : ∀ predecessor ∈ predecessors node, predecessor ∈ order := by
  rw [agrees.supplied_eq] at full
  have sub : (order.filter (· ∈ predecessors node)).Subperm (predecessors node) := by
    apply List.Nodup.subperm (unique.filter _)
    intro predecessor member
    simpa using (List.mem_filter.mp member).2
  intro predecessor member
  exact List.mem_of_mem_filter ((sub.perm_of_length_le full).mem_iff.mpr member)

/-- The queue continues the order without repetitions. -/
theorem Agrees.unique_append {degrees : OrderedMap K Nat} {queue order : List K}
    (counted : Counted successors initial degrees queue order) (unique : order.Nodup) : (order ++ queue).Nodup := by
  rw [List.nodup_iff_count_le_one]
  intro node
  have count := counted.count node
  cases found : initial[node]? with
  | none =>
      rw [count, found]
      exact Nat.zero_le 1
  | some degree =>
      have bound := agrees.supplied_le unique node
      rw [← agrees.needs node degree found] at bound
      rw [count, found, Option.elim_some]
      omega

end

/-- Every node of the order comes after all its predecessors. -/
def Placed (predecessors : K → List K) (order : List K) : Prop :=
  ∀ before node after, order = before ++ node :: after → ∀ predecessor ∈ predecessors node, predecessor ∈ before

omit [LinearOrder K] in
theorem Placed.concat {predecessors : K → List K} {order : List K} {last : K} (placed : Placed predecessors order)
    (complete : ∀ predecessor ∈ predecessors last, predecessor ∈ order) : Placed predecessors (order ++ [last]) := by
  intro before node after split
  rcases List.eq_nil_or_concat after with rfl | ⟨initial, final, rfl⟩
  · obtain ⟨rfl, same⟩ := List.append_inj' split rfl
    obtain rfl : last = node := by simpa using same
    exact complete
  · rw [List.concat_eq_append, ← List.cons_append, ← List.append_assoc] at split
    exact placed before node initial (List.append_inj' split rfl).1

section

variable {predecessors successors : K → List K} {initial : OrderedMap K Nat} (agrees : Agrees predecessors successors initial)

include agrees

/-- The run of an agreeing graph ends, and its order respects the predecessors. -/
theorem Agrees.drain {degrees : OrderedMap K Nat} {queue order : List K} {fuel : Nat}
    (counted : Counted successors initial degrees queue order) (unique : order.Nodup)
    (placed : Placed predecessors order) (enough : initial.size < fuel + order.length) :
    ∃ final degrees', Kahn.drain successors fuel degrees queue order = some final ∧
      Counted successors initial degrees' [] final ∧ final.Nodup ∧ Placed predecessors final := by
  induction fuel generalizing degrees queue order with
  | zero =>
      have bound := counted.length_le (agrees.unique_append counted unique)
      rw [List.length_append] at bound
      omega
  | succ fuel hypothesis =>
      cases queue with
      | nil => exact ⟨order, degrees, rfl, counted, unique, placed⟩
      | cons node queue =>
          have both := agrees.unique_append counted unique
          have unique' : (order ++ [node]).Nodup := by
            rw [List.append_cons] at both
            exact both.sublist (List.sublist_append_left _ _)
          obtain ⟨degree, found, full⟩ := counted.mem (List.mem_append_right order List.mem_cons_self)
          rw [agrees.needs node degree found] at full
          apply hypothesis (counted.step (agrees.successors_nodup node)) unique'
            (placed.concat (agrees.complete unique full))
          rw [List.length_append, List.length_singleton]
          omega

/-- Without a cycle, a finished run has ordered every node of the degree map. -/
theorem Agrees.exhausts {degrees : OrderedMap K Nat} {final : List K}
    (acyclic : ∀ node, ¬ Relation.TransGen (fun first second => first ∈ predecessors second) node node)
    (counted : Counted successors initial degrees [] final) :
    ∀ node ∈ initial, node ∈ final := by
  intro node member
  by_contra missing
  -- a missing node that is earliest in the cause order misses no predecessor
  let Missing := {node : K // node ∈ initial.keys ∧ node ∉ final}
  let leads (first second : Missing) : Prop :=
    Relation.TransGen (fun u v => u ∈ predecessors v) first.val second.val
  have : Finite Missing := Set.Finite.subset (List.finite_toSet initial.keys) fun _ inside => inside.1
  have : IsTrans Missing leads := ⟨fun _ _ _ => Relation.TransGen.trans⟩
  have : Std.Irrefl leads := ⟨fun node => acyclic node.val⟩
  have founded : WellFounded leads := Finite.wellFounded_of_trans_of_irrefl leads
  obtain ⟨⟨first, inside, outside⟩, -, earliest⟩ :=
    founded.has_min Set.univ ⟨⟨node, Std.ExtTreeMap.mem_keys.mpr member, missing⟩, trivial⟩
  have known : first ∈ initial := Std.ExtTreeMap.mem_keys.mp inside
  obtain ⟨degree, found⟩ := Option.isSome_iff_exists.mp (Std.ExtTreeMap.mem_iff_isSome_getElem?.mp known)
  have short : supplied successors final first < degree := by
    have none : final.count first = supplied successors final first + 1 - degree := by
      rw [← List.append_nil final, counted.count, found, List.append_nil, Option.elim_some]
    rw [List.count_eq_zero.mpr outside] at none
    omega
  have sub : (predecessors first).Subperm (final.filter (· ∈ predecessors first)) := by
    apply (agrees.predecessors_nodup first).subperm
    intro predecessor step
    rw [List.mem_filter]
    refine ⟨?_, by simpa using step⟩
    by_contra lost
    have present := agrees.closed first known predecessor step
    exact earliest ⟨predecessor, Std.ExtTreeMap.mem_keys.mpr present, lost⟩ trivial (Relation.TransGen.single step)
  have full := sub.length_le
  rw [← agrees.supplied_eq, ← agrees.needs first degree found] at full
  exact absurd short (not_lt.mpr full)

/-- The whole run on an agreeing graph without cycles orders exactly the nodes of the degree map. -/
theorem Agrees.sorts (acyclic : ∀ node, ¬ Relation.TransGen (fun first second => first ∈ predecessors second) node node) :
    ∃ fuel final, Kahn.drain successors fuel initial (ready initial) [] = some final ∧ final.Nodup ∧
      (∀ node, node ∈ final ↔ node ∈ initial) ∧ Placed predecessors final := by
  have empty : Placed predecessors [] := fun before node after split => by
    rw [eq_comm, List.append_eq_nil_iff] at split
    exact absurd split.2 (List.cons_ne_nil _ _)
  obtain ⟨final, degrees, finished, counted, unique, placed⟩ :=
    agrees.drain (start successors initial) List.nodup_nil empty (Nat.lt_succ_self initial.size)
  refine ⟨initial.size + 1, final, finished, unique, fun node => ⟨fun member => ?_, ?_⟩, placed⟩
  · obtain ⟨degree, found, -⟩ := counted.mem (List.mem_append_left [] member)
    exact Std.ExtTreeMap.mem_iff_isSome_getElem?.mpr (found ▸ rfl)
  · exact agrees.exhausts acyclic counted node

end

end Kahn
