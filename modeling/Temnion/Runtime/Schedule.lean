import Temnion.Library.Countdown
import Temnion.Library.Sorting
import Temnion.Runtime.Tasks
import Mathlib.Data.Prod.Lex

/-
This file checks the graph of tasks for cycles with every access and every subtraction checked, lists the tasks that
are ready, and says that some task always is.
-/

namespace Temnion.Runtime

open Sorting

/-- The classes in the order of their discriminants. -/
def TaskClass.rank : TaskClass → Nat
  | .seal => 4
  | .compress => 3
  | .index => 2
  | .summary => 1
  | .maintenance => 0

/-- Higher classes come first, and then older tasks. -/
def TaskNode.priority (node : TaskNode) : Natᵒᵈ ×ₗ TaskId := toLex (OrderDual.toDual node.taskClass.rank, node.id)

namespace TaskDag

/-- The orders in which the three hash maps of a check are iterated. -/
structure CheckOrder where
  values : Iteration (TaskId × TaskNode)
  degrees : Iteration (TaskId × Nat)

/-- One pair for each dependency of a task, in the order of the tasks. -/
def edges (dag : TaskDag) (values : Iteration (TaskId × TaskNode)) : List (TaskId × TaskId) :=
  (values.arrange dag.tasks.toList).flatMap fun (_, node) => node.dependencies.map fun dependency => (dependency, node.id)

def adjacency (dag : TaskDag) (values : Iteration (TaskId × TaskNode)) : OrderedMap TaskId (List TaskId) :=
  (dag.edges values).foldl (fun adjacent edge => adjacent.entry edge.1 [] (· ++ [edge.2])) (dag.tasks.map fun _ _ => [])

def inDegree (dag : TaskDag) (values : Iteration (TaskId × TaskNode)) : OrderedMap TaskId Nat :=
  (dag.edges values).foldl (fun degrees edge => degrees.entry edge.2 0 (· + 1)) (dag.tasks.map fun _ _ => 0)

/-- The check for cycles, which fails when a counter would become negative or a task is not found. The last task of the
queue is taken first. -/
def checkCycle (dag : TaskDag) (order : CheckOrder) : Option Bool :=
  let degrees := dag.inDegree order.values
  let queue := ((order.degrees.arrange degrees.toList).filter fun (_, degree) => degree = 0).map Prod.fst
  (Countdown.count (dag.adjacency order.values) (dag.tasks.size + 1) degrees queue.reverse).map fun visited =>
    decide (visited ≠ dag.tasks.size)

/-- An addition with the checked search for cycles. -/
def addTaskChecked (dag : TaskDag) (order : CheckOrder) (taskClass : TaskClass) (description : Text)
    (dependencies : List TaskId) : Option (Except TaskError TaskId × TaskDag) :=
  match dependencies.find? fun dependency => !dag.tasks.contains dependency with
  | some missing => some (.error (.taskNotFound missing), dag)
  | none =>
      let id := dag.nextId
      let node : TaskNode := ⟨id, taskClass, description, .pending, dependencies⟩
      let added : TaskDag := ⟨dag.tasks.insert id node, dag.nextId + 1⟩
      (added.checkCycle order).map fun cyclic =>
        if cyclic then (.error .dependencyCycleDetected, { added with tasks := added.tasks.erase id }) else (.ok id, added)

/-- Whether all these tasks are completed. It fails at one that is not found. -/
def allCompleted (dag : TaskDag) : List TaskId → Option Bool
  | [] => some true
  | dependency :: rest =>
      match dag.tasks[dependency]? with
      | none => none
      | some node => if node.status = .completed then dag.allCompleted rest else some false

def readyNodes (dag : TaskDag) : List TaskNode → Option (List TaskNode)
  | [] => some []
  | node :: rest =>
      if node.status ≠ .pending then dag.readyNodes rest
      else do
        let allDepsDone ← dag.allCompleted node.dependencies
        let ready ← dag.readyNodes rest
        some (if allDepsDone then node :: ready else ready)

def readyTasks (dag : TaskDag) (values : Iteration (TaskId × TaskNode)) (sorts : UnstableSort TaskNode.priority) :
    Option (List TaskId) :=
  (dag.readyNodes ((values.arrange dag.tasks.toList).map Prod.snd)).map fun ready => (sorts.sort ready).map TaskNode.id

section Cycles

variable {dag : TaskDag} {id : TaskId} {node : TaskNode} {values : Iteration (TaskId × TaskNode)}

/-- Every task is stored under its id. -/
def Keyed (dag : TaskDag) : Prop := ∀ (id : TaskId) (node : TaskNode), dag.tasks[id]? = some node → node.id = id

/-- The dependencies of a task, or none when there is no such task. -/
def dependenciesOf (dag : TaskDag) (id : TaskId) : List TaskId := (dag.tasks[id]?).elim [] TaskNode.dependencies

theorem mem_edges (keyed : dag.Keyed) {edge : TaskId × TaskId} :
    edge ∈ dag.edges values ↔ edge.1 ∈ dag.dependenciesOf edge.2 := by
  unfold edges dependenciesOf
  simp only [List.mem_flatMap, (values.perm _).mem_iff, Prod.exists, OrderedMap.mem_toList, List.mem_map]
  constructor
  · rintro ⟨id, node, found, dependency, member, rfl⟩
    dsimp only
    rw [keyed id node found, found]
    exact member
  · intro member
    cases found : dag.tasks[edge.2]? with
    | none =>
        rw [found] at member
        exact absurd member List.not_mem_nil
    | some node =>
        rw [found] at member
        exact ⟨edge.2, node, found, edge.1, member, Prod.ext rfl (keyed _ node found)⟩

/-- An edge is listed as often as the task names the dependency. -/
theorem count_edges (keyed : dag.Keyed) (dependency id : TaskId) :
    (dag.edges values).count (dependency, id) = (dag.dependenciesOf id).count dependency := by
  have lists : (dag.edges values).Perm
      (dag.tasks.toList.flatMap fun (_, node) => node.dependencies.map fun dependency => (dependency, node.id)) :=
    (values.perm _).flatMap_right _
  have others : ∀ entries : List (TaskId × TaskNode),
      (∀ key node, (key, node) ∈ entries → node.id = key ∧ key ≠ id) → (entries.flatMap fun (_, node) =>
        node.dependencies.map fun dependency => (dependency, node.id)).count (dependency, id) = 0 := by
    intro entries apart
    rw [List.count_eq_zero, List.mem_flatMap]
    rintro ⟨⟨key, node⟩, member, listed⟩
    obtain ⟨named, -, same⟩ := List.mem_map.mp listed
    obtain ⟨own, differs⟩ := apart key node member
    exact differs (own.symm.trans (Prod.ext_iff.mp same).2)
  rw [lists.count_eq, dependenciesOf]
  cases found : dag.tasks[id]? with
  | none =>
      apply others
      intro key node member
      have present := OrderedMap.mem_toList.mp member
      refine ⟨keyed key node present, ?_⟩
      rintro rfl
      rw [found] at present
      contradiction
  | some node =>
      rw [((OrderedMap.toList_erase found).flatMap_right _).count_eq, List.flatMap_cons, List.count_append, others,
        Nat.add_zero]
      · dsimp only
        rw [keyed id node found]
        exact List.count_map_of_injective _ _ (Prod.mk_left_injective id) dependency
      · intro key node member
        have present := OrderedMap.mem_toList.mp member
        rw [Std.ExtTreeMap.getElem?_erase] at present
        simp only [compare_eq_iff_eq] at present
        by_cases same : id = key
        · rw [if_pos same] at present
          contradiction
        · rw [if_neg same] at present
          exact ⟨keyed key node present, Ne.symm same⟩

theorem count_fst (pairs : List (TaskId × TaskId)) (first second : TaskId) :
    ((pairs.filter fun pair => pair.2 = second).map Prod.fst).count first = pairs.count (first, second) := by
  induction pairs with
  | nil => rfl
  | cons pair rest hypothesis =>
      by_cases same : pair.2 = second
      · rw [List.filter_cons_of_pos (by simpa using same), List.map_cons, List.count_cons, List.count_cons, hypothesis]
        simp [Prod.ext_iff, same]
      · rw [List.filter_cons_of_neg (by simpa using same), hypothesis, List.count_cons_of_ne]
        exact fun equal => same (Prod.ext_iff.mp equal).2

theorem count_snd (pairs : List (TaskId × TaskId)) (first second : TaskId) :
    ((pairs.filter fun pair => pair.1 = first).map Prod.snd).count second = pairs.count (first, second) := by
  induction pairs with
  | nil => rfl
  | cons pair rest hypothesis =>
      by_cases same : pair.1 = first
      · rw [List.filter_cons_of_pos (by simpa using same), List.map_cons, List.count_cons, List.count_cons, hypothesis]
        simp [Prod.ext_iff, same]
      · rw [List.filter_cons_of_neg (by simpa using same), hypothesis, List.count_cons_of_ne]
        exact fun equal => same (Prod.ext_iff.mp equal).1

/-- An edge joins two tasks of the graph. -/
theorem edge_ends (grounded : Grounded dag) (keyed : dag.Keyed) {edge : TaskId × TaskId} (member : edge ∈ dag.edges values) :
    (∃ node, dag.tasks[edge.1]? = some node) ∧ ∃ node, dag.tasks[edge.2]? = some node := by
  rw [mem_edges keyed, dependenciesOf] at member
  cases found : dag.tasks[edge.2]? with
  | none =>
      rw [found] at member
      exact absurd member List.not_mem_nil
  | some node =>
      rw [found] at member
      exact ⟨(grounded.older edge.2 node found edge.1 member).2, node, rfl⟩

theorem foldl_succ (items : List (TaskId × TaskId)) (start : Nat) :
    items.foldl (fun count _ => count + 1) start = start + items.length := by
  induction items generalizing start with
  | nil => rfl
  | cons item items hypothesis =>
      rw [List.foldl_cons, hypothesis, List.length_cons]
      omega

theorem inDegree_getElem? (grounded : Grounded dag) (keyed : dag.Keyed) (id : TaskId) :
    (dag.inDegree values)[id]? = (dag.tasks[id]?).map fun _ => (dag.dependenciesOf id).length := by
  have same : ((dag.edges values).filter fun edge => edge.2 = id).length = (dag.dependenciesOf id).length := by
    rw [← List.length_map Prod.fst]
    apply List.Perm.length_eq
    rw [List.perm_iff_count]
    intro dependency
    rw [count_fst, count_edges keyed]
  rw [inDegree, OrderedMap.foldl_entry_getElem?, Std.ExtTreeMap.getElem?_map, Option.map_map]
  · congr 1
    funext node
    rw [Function.comp_apply, foldl_succ, Nat.zero_add, same]
  · intro edge member
    obtain ⟨node, found⟩ := (edge_ends grounded keyed member).2
    exact ⟨0, by rw [Std.ExtTreeMap.getElem?_map, found, Option.map_some]⟩

theorem adjacency_getElem? (grounded : Grounded dag) (keyed : dag.Keyed) (id : TaskId) :
    (dag.adjacency values)[id]? =
      (dag.tasks[id]?).map fun _ => ((dag.edges values).filter fun edge => edge.1 = id).map Prod.snd := by
  rw [adjacency, OrderedMap.foldl_entry_getElem?, Std.ExtTreeMap.getElem?_map, Option.map_map]
  · congr 1
    funext node
    rw [Function.comp_apply, List.foldl_append_eq_append, List.nil_append, ← List.flatMap_def, ← List.map_eq_flatMap]
  · intro edge member
    obtain ⟨node, found⟩ := (edge_ends grounded keyed member).1
    exact ⟨[], by rw [Std.ExtTreeMap.getElem?_map, found, Option.map_some]⟩

theorem mem_inDegree (grounded : Grounded dag) (keyed : dag.Keyed) : id ∈ dag.inDegree values ↔ id ∈ dag.tasks := by
  rw [Std.ExtTreeMap.mem_iff_isSome_getElem?, Std.ExtTreeMap.mem_iff_isSome_getElem?, inDegree_getElem? grounded keyed,
    Option.isSome_map]

/-- The counters and the lists describe the dependencies of the tasks. -/
theorem countdown_edges (grounded : Grounded dag) (keyed : dag.Keyed) :
    Countdown.Edges dag.dependenciesOf (dag.adjacency values) (dag.inDegree values) where
  degree id degree found := by
    rw [inDegree_getElem? grounded keyed] at found
    obtain ⟨node, -, same⟩ := Option.map_eq_some_iff.mp found
    exact same.symm
  closed id member dependency named := by
    rw [mem_inDegree grounded keyed, Std.ExtTreeMap.mem_iff_isSome_getElem?, Option.isSome_iff_exists]
    have edge : (dependency, id) ∈ dag.edges values := (mem_edges keyed).mpr named
    exact (edge_ends grounded keyed edge).1
  listed id member := by
    rw [mem_inDegree grounded keyed, Std.ExtTreeMap.mem_iff_isSome_getElem?, Option.isSome_iff_exists] at member
    obtain ⟨node, found⟩ := member
    refine ⟨((dag.edges values).filter fun edge => edge.1 = id).map Prod.snd, ?_, ?_, ?_⟩
    · rw [adjacency_getElem? grounded keyed, found, Option.map_some]
    · intro other listed
      obtain ⟨edge, inside, rfl⟩ := List.mem_map.mp listed
      rw [mem_inDegree grounded keyed, Std.ExtTreeMap.mem_iff_isSome_getElem?, Option.isSome_iff_exists]
      exact (edge_ends grounded keyed (List.mem_of_mem_filter inside)).2
    · intro other _
      rw [count_snd, count_edges keyed]

/-- Dependencies are older, so there is no cycle. -/
theorem edges_acyclic (grounded : Grounded dag) (initial : OrderedMap TaskId Nat) (id : TaskId) :
    ¬ Relation.TransGen (Countdown.Edge dag.dependenciesOf initial) id id := by
  have older : ∀ {first second}, Countdown.Edge dag.dependenciesOf initial first second → first < second := by
    rintro first second ⟨named, -⟩
    rw [dependenciesOf] at named
    cases found : dag.tasks[second]? with
    | none =>
        rw [found] at named
        exact absurd named List.not_mem_nil
    | some node =>
        rw [found] at named
        exact (grounded.older second node found first named).1
  intro cycle
  have less : ∀ {last}, Relation.TransGen (Countdown.Edge dag.dependenciesOf initial) id last → id < last := by
    intro last path
    induction path with
    | single edge => exact older edge
    | tail _ edge hypothesis => exact hypothesis.trans (older edge)
  exact lt_irrefl _ (less cycle)

/-- No counter becomes negative, every access succeeds, and no cycle is found. -/
theorem checkCycle_eq (grounded : Grounded dag) (keyed : dag.Keyed) (order : CheckOrder) :
    dag.checkCycle order = some false := by
  have size : (dag.inDegree order.values).size = dag.tasks.size := by
    rw [← Std.ExtTreeMap.length_keys, ← Std.ExtTreeMap.length_keys]
    apply List.Perm.length_eq
    rw [List.perm_ext_iff_of_nodup Std.ExtTreeMap.nodup_keys Std.ExtTreeMap.nodup_keys]
    intro id
    rw [Std.ExtTreeMap.mem_keys, Std.ExtTreeMap.mem_keys, mem_inDegree grounded keyed]
  have free : ∀ id, (((order.degrees.arrange (dag.inDegree order.values).toList).filter fun (_, degree) =>
      degree = 0).map Prod.fst).reverse.count id = if (dag.inDegree order.values)[id]? = some 0 then 1 else 0 := by
    intro id
    rw [List.count_reverse, (((order.degrees.perm _).filter _).map _).count_eq]
    exact Kahn.ready_count (dag.inDegree order.values) id
  obtain ⟨visited, done, exact'⟩ := (@countdown_edges dag order.values grounded keyed).counts free
  have all := exact'.mpr (edges_acyclic grounded _)
  rw [size] at done all
  rw [checkCycle]
  dsimp only
  rw [done, Option.map_some, all]
  simp

/-- Where every counter is checked, the unchecked subtraction does the same. -/
theorem lower_of_checked {state after : OrderedMap TaskId Nat × List TaskId} (checked : Countdown.lower state id = some after) :
    lower state id = after := by
  unfold Countdown.lower at checked
  unfold lower
  cases found : state.1[id]? with
  | none =>
      rw [found] at checked
      contradiction
  | some degree =>
      rw [found] at checked
      cases degree with
      | zero => contradiction
      | succ degree => exact Option.some.inj checked

theorem foldl_of_checked {ids : List TaskId} {state after : OrderedMap TaskId Nat × List TaskId}
    (checked : ids.foldlM Countdown.lower state = some after) : ids.foldl lower state = after := by
  induction ids generalizing state with
  | nil => exact Option.some.inj checked
  | cons first rest hypothesis =>
      rw [List.foldlM_cons] at checked
      obtain ⟨between, one, others⟩ := Option.bind_eq_some_iff.mp checked
      rw [List.foldl_cons, lower_of_checked one]
      exact hypothesis others

theorem visit_of_count {successors : OrderedMap TaskId (List TaskId)} {dependents : TaskId → List TaskId}
    (same : ∀ (id : TaskId) (ids : List TaskId), successors[id]? = some ids → dependents id = ids) {fuel visited : Nat}
    {degrees : OrderedMap TaskId Nat} {queue : List TaskId}
    (counted : Countdown.count successors fuel degrees queue = some visited) :
    visit dependents fuel degrees queue = visited := by
  induction fuel generalizing degrees queue visited with
  | zero => contradiction
  | succ fuel hypothesis =>
      cases queue with
      | nil => exact Option.some.inj counted
      | cons id queue =>
          rw [Countdown.count] at counted
          obtain ⟨ids, found, counted⟩ := Option.bind_eq_some_iff.mp counted
          obtain ⟨⟨degrees', queue'⟩, lowered, counted⟩ := Option.bind_eq_some_iff.mp counted
          obtain ⟨rest, others, counted⟩ := Option.bind_eq_some_iff.mp counted
          rw [visit, same id ids found, foldl_of_checked lowered]
          dsimp only
          rw [hypothesis others, ← Option.some.inj counted, Nat.add_comm]

/-- The dependents of a task are the ends of its edges in the order of the map. -/
theorem dependents_eq (keyed : dag.Keyed) (id : TaskId) :
    dag.dependents id = ((dag.edges (.inOrder _)).filter fun edge => edge.1 = id).map Prod.snd := by
  unfold dependents edges Iteration.inOrder
  rw [List.filter_flatMap, List.map_flatMap]
  apply List.flatMap_congr
  rintro ⟨other, node⟩ member
  dsimp only
  rw [keyed other node (OrderedMap.mem_toList.mp member), List.filter_map, List.map_map]
  rfl

/-- The search that keeps the order of the map finds no cycle either. -/
theorem hasCycle_eq (grounded : Grounded dag) (keyed : dag.Keyed) : dag.hasCycle = false := by
  have degrees : dag.tasks.map (fun _ node => node.dependencies.length) = dag.inDegree (.inOrder _) := by
    apply Std.ExtTreeMap.ext_getElem?
    intro id
    rw [Std.ExtTreeMap.getElem?_map, inDegree_getElem? grounded keyed, dependenciesOf]
    cases dag.tasks[id]? with
    | none => rfl
    | some node => rfl
  have size : (dag.inDegree (.inOrder _)).size = dag.tasks.size := by rw [← degrees, Std.ExtTreeMap.size_map]
  have edges := @countdown_edges dag (.inOrder _) grounded keyed
  obtain ⟨visited, done, exact'⟩ := edges.counts (Kahn.ready_count (dag.inDegree (.inOrder _)))
  have all := exact'.mpr (edges_acyclic grounded _)
  rw [size] at done all
  have counted := visit_of_count (fun id ids found => by
    rw [adjacency_getElem? grounded keyed] at found
    obtain ⟨node, -, same⟩ := Option.map_eq_some_iff.mp found
    rw [dependents_eq keyed, same] : ∀ id ids, (dag.adjacency (.inOrder _))[id]? = some ids → dag.dependents id = ids) done
  unfold hasCycle
  dsimp only
  rw [degrees]
  exact decide_eq_false fun differs => differs (counted.trans all)

theorem Keyed.insert (keyed : dag.Keyed) (own : node.id = id) {nextId : Nat} : Keyed ⟨dag.tasks.insert id node, nextId⟩ := by
  intro other task found
  rw [OrderedMap.insert_getElem?] at found
  by_cases same : id = other
  · rw [if_pos same] at found
    rw [← Option.some.inj found, own, same]
  · rw [if_neg same] at found
    exact keyed other task found

/-- The checked addition and the unchecked one do the same, and neither finds a cycle. -/
theorem addTaskChecked_eq (grounded : Grounded dag) (keyed : dag.Keyed) (order : CheckOrder) (taskClass : TaskClass)
    (description : Text) (dependencies : List TaskId) :
    dag.addTaskChecked order taskClass description dependencies = some (dag.addTask taskClass description dependencies) ∧
      (dag.addTask taskClass description dependencies).1 ≠ .error .dependencyCycleDetected := by
  unfold addTaskChecked addTask
  cases absent : dependencies.find? fun dependency => !dag.tasks.contains dependency with
  | some missing => exact ⟨rfl, nofun⟩
  | none =>
      let node : TaskNode := ⟨dag.nextId, taskClass, description, .pending, dependencies⟩
      have grounded' := @Grounded.insert dag node grounded (dependencies_present absent)
      have keyed' : Keyed ⟨dag.tasks.insert dag.nextId node, dag.nextId + 1⟩ := @Keyed.insert dag _ node keyed rfl _
      dsimp only
      rw [checkCycle_eq grounded' keyed' order, hasCycle_eq grounded' keyed', Option.map_some]
      exact ⟨rfl, nofun⟩

theorem Keyed.step (grounded : Grounded dag) (keyed : dag.Keyed) (command : TaskCommand) : (dag.step command).Keyed := by
  have status : ∀ (id : TaskId) (node : TaskNode) (status : TaskStatus), dag.tasks[id]? = some node →
      (dag.setStatus node id status).Keyed :=
    fun id node status found => @Keyed.insert dag id { node with status } keyed (keyed id node found) _
  cases command with
  | addTask taskClass description dependencies =>
      change (dag.addTask taskClass description dependencies).2.Keyed
      unfold addTask
      cases absent : dependencies.find? fun dependency => !dag.tasks.contains dependency with
      | some missing => exact keyed
      | none =>
          let node : TaskNode := ⟨dag.nextId, taskClass, description, .pending, dependencies⟩
          have grounded' := @Grounded.insert dag node grounded (dependencies_present absent)
          have keyed' : Keyed ⟨dag.tasks.insert dag.nextId node, dag.nextId + 1⟩ := @Keyed.insert dag _ node keyed rfl _
          dsimp only
          rw [hasCycle_eq grounded' keyed']
          exact keyed'
  | markRunning id =>
      change (dag.markRunning id).2.Keyed
      rw [markRunning]
      split
      · exact keyed
      · next node found =>
          split
          · exact status id node .running found
          · exact keyed
  | markCompleted id =>
      change (dag.markCompleted id).2.Keyed
      rw [markCompleted]
      split
      · exact keyed
      · next node found => exact status id node .completed found
  | markFailed id =>
      change (dag.markFailed id).2.Keyed
      rw [markFailed]
      split
      · exact keyed
      · next node found => exact status id node .failed found

theorem run_keeps (commands : List TaskCommand) : Grounded (new.run commands) ∧ (new.run commands).Keyed := by
  induction commands using List.reverseRecOn with
  | nil => exact ⟨new_keeps.1, fun id node found => by contradiction⟩
  | append_singleton commands command hypothesis =>
      rw [run, List.foldl_append]
      exact ⟨hypothesis.1.step command, hypothesis.2.step hypothesis.1 command⟩

end Cycles

section Readiness

variable {dag : TaskDag} {id : TaskId} {node : TaskNode}

/-- A pending task of the graph whose dependencies are all completed. -/
structure Ready (dag : TaskDag) (node : TaskNode) : Prop where
  found : dag.tasks[node.id]? = some node
  pending : node.status = .pending
  completed : ∀ dependency ∈ node.dependencies, dag.isCompleted dependency = true

/-- The first task has a higher class, or the same one and a smaller id. -/
def Precedes (first second : TaskNode) : Prop :=
  second.taskClass.rank < first.taskClass.rank ∨ first.taskClass.rank = second.taskClass.rank ∧ first.id < second.id

theorem allCompleted_eq {dependencies : List TaskId}
    (present : ∀ dependency ∈ dependencies, ∃ node, dag.tasks[dependency]? = some node) :
    dag.allCompleted dependencies = some (dependencies.all dag.isCompleted) := by
  induction dependencies with
  | nil => rfl
  | cons dependency rest hypothesis =>
      obtain ⟨node, found⟩ := present dependency List.mem_cons_self
      rw [allCompleted, found, List.all_cons, isCompleted, found, Option.any_some]
      by_cases completed : node.status = .completed
      · rw [decide_eq_true completed, Bool.true_and]
        exact (if_pos completed).trans (hypothesis fun other member => present other (List.mem_cons_of_mem _ member))
      · rw [decide_eq_false completed, Bool.false_and]
        exact if_neg completed

/-- No access to a dependency fails, and exactly the ready tasks are kept. -/
theorem readyNodes_eq {nodes : List TaskNode}
    (present : ∀ node ∈ nodes, ∀ dependency ∈ node.dependencies, ∃ other, dag.tasks[dependency]? = some other) :
    dag.readyNodes nodes =
      some (nodes.filter fun node => node.status = .pending && node.dependencies.all dag.isCompleted) := by
  induction nodes with
  | nil => rfl
  | cons node rest hypothesis =>
      have others := hypothesis fun other member => present other (List.mem_cons_of_mem _ member)
      by_cases pending : node.status = .pending
      · rw [readyNodes, if_neg (not_not.mpr pending), allCompleted_eq (present node List.mem_cons_self), others]
        cases done : node.dependencies.all dag.isCompleted with
        | true => simp [done, pending]
        | false => simp [done]
      · rw [readyNodes, if_pos pending, others, List.filter_cons_of_neg]
        simp [pending]

theorem priority_le_iff {first second : TaskNode} : first.priority ≤ second.priority ↔
    second.taskClass.rank < first.taskClass.rank ∨
      first.taskClass.rank = second.taskClass.rank ∧ first.id ≤ second.id := by
  rw [TaskNode.priority, TaskNode.priority, Prod.Lex.toLex_le_toLex]
  rfl

theorem isReady_iff (node : TaskNode) :
    (decide (node.status = .pending) && node.dependencies.all dag.isCompleted) = true ↔
      node.status = .pending ∧ ∀ dependency ∈ node.dependencies, dag.isCompleted dependency = true := by
  rw [Bool.and_eq_true, decide_eq_true_eq, List.all_eq_true]

theorem priority_injective {first second : TaskNode} (found : dag.tasks[first.id]? = some first)
    (also : dag.tasks[second.id]? = some second) (same : first.priority = second.priority) : first = second := by
  have ids : first.id = second.id := (Prod.ext_iff.mp (toLex_inj.mp same)).2
  rw [ids, also] at found
  exact (Option.some.inj found).symm

/-- The ready tasks are listed by their classes and then by their ids, and no access fails. -/
theorem readyTasks_eq (grounded : Grounded dag) (keyed : dag.Keyed) :
    ∃ nodes : List TaskNode, (∀ node, node ∈ nodes ↔ dag.Ready node) ∧ nodes.Pairwise Precedes ∧
      ∀ values sorts, dag.readyTasks values sorts = some (nodes.map TaskNode.id) := by
  let isReady (node : TaskNode) : Bool := node.status = .pending && node.dependencies.all dag.isCompleted
  let sorts : UnstableSort TaskNode.priority := .stable _
  have stored : ∀ node, node ∈ dag.tasks.toList.map Prod.snd ↔ dag.tasks[node.id]? = some node := by
    intro node
    rw [List.mem_map]
    constructor
    · rintro ⟨⟨id, task⟩, member, rfl⟩
      have found := OrderedMap.mem_toList.mp member
      rw [keyed id task found]
      exact found
    · intro found
      exact ⟨(node.id, node), OrderedMap.mem_toList.mpr found, rfl⟩
  have apart : ∀ one ∈ (dag.tasks.toList.map Prod.snd).filter isReady, ∀ two ∈ (dag.tasks.toList.map Prod.snd).filter isReady,
      one.priority = two.priority → one = two := by
    intro one first two second same
    exact priority_injective ((stored one).mp (List.mem_of_mem_filter first)) ((stored two).mp (List.mem_of_mem_filter second))
      same
  have nodup : ((dag.tasks.toList.map Prod.snd).filter isReady).Nodup := by
    apply List.Nodup.filter
    rw [List.nodup_map_iff_inj_on dag.tasks.toList_nodup]
    rintro ⟨id, task⟩ first ⟨other, also⟩ second rfl
    have one := keyed id task (OrderedMap.mem_toList.mp first)
    have two := keyed other task (OrderedMap.mem_toList.mp second)
    rw [← one, ← two]
  refine ⟨sorts.sort ((dag.tasks.toList.map Prod.snd).filter isReady), ?_, ?_, ?_⟩
  · intro node
    rw [(sorts.perm _).mem_iff, List.mem_filter, stored, isReady_iff]
    constructor
    · rintro ⟨found, pending, completed⟩
      exact ⟨found, pending, completed⟩
    · intro ready
      exact ⟨ready.found, ready.pending, ready.completed⟩
  · have ordered := (sorts.sorted _).and ((sorts.perm _).nodup_iff.mpr nodup)
    apply ordered.imp_of_mem
    rintro first second member also ⟨below, different⟩
    have inside := (sorts.perm _).mem_iff.mp member
    have inside' := (sorts.perm _).mem_iff.mp also
    rcases priority_le_iff.mp below with less | ⟨same, least⟩
    · exact .inl less
    · refine .inr ⟨same, lt_of_le_of_ne least fun equal => different (apart first inside second inside' ?_)⟩
      rw [TaskNode.priority, TaskNode.priority, same, equal]
  · intro values others
    have shuffled := ((values.perm dag.tasks.toList).map Prod.snd)
    have present : ∀ node ∈ (values.arrange dag.tasks.toList).map Prod.snd, ∀ dependency ∈ node.dependencies,
        ∃ other, dag.tasks[dependency]? = some other := by
      intro node member dependency named
      have found := (stored node).mp (shuffled.mem_iff.mp member)
      exact (grounded.older node.id node found dependency named).2
    rw [readyTasks, readyNodes_eq present, Option.map_some]
    congr 2
    exact (sorts.sorts_eq others (shuffled.filter isReady).symm apart).symm

/-- While some task is pending and none runs or has failed, a task is ready. -/
theorem exists_ready (grounded : Grounded dag) (keyed : dag.Keyed) (found : dag.tasks[id]? = some node)
    (pending : node.status = .pending)
    (idle : ∀ (id : TaskId) (node : TaskNode), dag.tasks[id]? = some node → node.status ≠ .running ∧ node.status ≠ .failed) :
    ∃ node, dag.Ready node := by
  induction id using Nat.strong_induction_on generalizing node with
  | _ id hypothesis =>
      by_cases done : ∀ dependency ∈ node.dependencies, dag.isCompleted dependency = true
      · exact ⟨node, keyed id node found ▸ found, pending, done⟩
      · push Not at done
        obtain ⟨dependency, member, missing⟩ := done
        obtain ⟨older, other, present⟩ := grounded.older id node found dependency member
        apply hypothesis dependency older present
        rw [isCompleted, present, Option.any_some, Ne, decide_eq_true_eq] at missing
        obtain ⟨notRunning, notFailed⟩ := idle dependency other present
        cases status : other.status with
        | pending => rfl
        | running => exact absurd status notRunning
        | completed => exact absurd status missing
        | failed => exact absurd status notFailed

/-- In every state of a run from the empty graph an addition finds no cycle and lowers no counter below zero, the ready
tasks are the pending ones without open dependencies in the order of their priorities, and while some task is pending and
none runs or has failed there is one. -/
theorem tasks_never_deadlock (commands : List TaskCommand) :
    let dag := new.run commands
    (∀ order taskClass description dependencies,
      dag.addTaskChecked order taskClass description dependencies = some (dag.addTask taskClass description dependencies) ∧
        (dag.addTask taskClass description dependencies).1 ≠ .error .dependencyCycleDetected) ∧
      ∃ nodes : List TaskNode, (∀ node, node ∈ nodes ↔ dag.Ready node) ∧ nodes.Pairwise Precedes ∧
        (∀ values sorts, dag.readyTasks values sorts = some (nodes.map TaskNode.id)) ∧
        ((∃ (id : TaskId) (node : TaskNode), dag.tasks[id]? = some node ∧ node.status = .pending) →
          (∀ (id : TaskId) (node : TaskNode), dag.tasks[id]? = some node →
            node.status ≠ .running ∧ node.status ≠ .failed) → nodes.map TaskNode.id ≠ []) := by
  intro dag
  obtain ⟨grounded, keyed⟩ := run_keeps commands
  refine ⟨addTaskChecked_eq grounded keyed, ?_⟩
  obtain ⟨nodes, ready, ordered, listed⟩ := readyTasks_eq grounded keyed
  refine ⟨nodes, ready, ordered, listed, ?_⟩
  rintro ⟨id, node, found, pending⟩ idle
  obtain ⟨first, holds⟩ := exists_ready grounded keyed found pending idle
  exact List.ne_nil_of_mem (List.mem_map_of_mem ((ready first).mpr holds))

end Readiness

end TaskDag

end Temnion.Runtime
