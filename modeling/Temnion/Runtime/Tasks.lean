import Temnion.Library.OrderedMap
import Temnion.Library.Text

/-
This file runs the graph of background tasks and says which changes of status respect the prerequisites.
-/

namespace Temnion.Runtime

inductive TaskClass where
  | seal
  | compress
  | index
  | summary
  | maintenance
  deriving DecidableEq, Repr

inductive TaskStatus where
  | pending
  | running
  | completed
  | failed
  deriving DecidableEq, Repr

/-- Every reason for which the task graph refuses an operation. -/
inductive TaskError where
  | taskNotFound (id : Nat)
  | dependencyCycleDetected
  | taskPrerequisitesNotMet (id : Nat)
  deriving DecidableEq, Repr

abbrev TaskId := Nat

structure TaskNode where
  id : TaskId
  taskClass : TaskClass
  description : Text
  status : TaskStatus
  dependencies : List TaskId
  deriving DecidableEq, Repr

structure TaskDag where
  tasks : OrderedMap TaskId TaskNode
  nextId : Nat

namespace TaskDag

def new : TaskDag := ⟨∅, 0⟩

section Cycles

/-- One edge less leads to the task. A task without any joins the queue. -/
def lower (state : OrderedMap TaskId Nat × List TaskId) (id : TaskId) : OrderedMap TaskId Nat × List TaskId :=
  match state.1[id]? with
  | none => state
  | some degree => (state.1.insert id (degree - 1), if degree - 1 = 0 then id :: state.2 else state.2)

/-- Counts the tasks that are taken from the queue, the last one first. -/
def visit (dependents : TaskId → List TaskId) : Nat → OrderedMap TaskId Nat → List TaskId → Nat
  | 0, _, _ => 0
  | _ + 1, _, [] => 0
  | fuel + 1, degrees, id :: queue =>
      let (degrees, queue) := (dependents id).foldl lower (degrees, queue)
      1 + visit dependents fuel degrees queue

/-- Each task with one entry for each dependency of another task on it. -/
def dependents (dag : TaskDag) (id : TaskId) : List TaskId :=
  dag.tasks.toList.flatMap fun (other, node) => (node.dependencies.filter (· = id)).map fun _ => other

/-- A task that is never free of incoming edges lies behind a cycle. -/
def hasCycle (dag : TaskDag) : Bool :=
  let degrees := dag.tasks.map fun _ node => node.dependencies.length
  let free := (degrees.toList.filter fun (_, degree) => degree = 0).map Prod.fst
  visit dag.dependents (dag.tasks.size + 1) degrees free ≠ dag.tasks.size

end Cycles

def addTask (dag : TaskDag) (taskClass : TaskClass) (description : Text) (dependencies : List TaskId) :
    Except TaskError TaskId × TaskDag :=
  match dependencies.find? fun dependency => !dag.tasks.contains dependency with
  | some missing => (.error (.taskNotFound missing), dag)
  | none =>
      let id := dag.nextId
      let node : TaskNode := ⟨id, taskClass, description, .pending, dependencies⟩
      let added : TaskDag := ⟨dag.tasks.insert id node, dag.nextId + 1⟩
      if added.hasCycle then (.error .dependencyCycleDetected, { added with tasks := added.tasks.erase id })
      else (.ok id, added)

def isCompleted (dag : TaskDag) (id : TaskId) : Bool := dag.tasks[id]?.any (·.status = .completed)

/-- Gives a task another status. -/
def setStatus (dag : TaskDag) (node : TaskNode) (id : TaskId) (status : TaskStatus) : TaskDag :=
  { dag with tasks := dag.tasks.insert id { node with status } }

/-- Only this transition looks at the prerequisites. -/
def markRunning (dag : TaskDag) (id : TaskId) : Except TaskError Unit × TaskDag :=
  match dag.tasks[id]? with
  | none => (.error (.taskNotFound id), dag)
  | some node =>
      if node.dependencies.all dag.isCompleted then (.ok (), dag.setStatus node id .running)
      else (.error (.taskPrerequisitesNotMet id), dag)

def markCompleted (dag : TaskDag) (id : TaskId) : Except TaskError Unit × TaskDag :=
  match dag.tasks[id]? with
  | none => (.error (.taskNotFound id), dag)
  | some node => (.ok (), dag.setStatus node id .completed)

def markFailed (dag : TaskDag) (id : TaskId) : Except TaskError Unit × TaskDag :=
  match dag.tasks[id]? with
  | none => (.error (.taskNotFound id), dag)
  | some node => (.ok (), dag.setStatus node id .failed)

end TaskDag

inductive TaskCommand where
  | addTask (taskClass : TaskClass) (description : Text) (dependencies : List TaskId)
  | markRunning (id : TaskId)
  | markCompleted (id : TaskId)
  | markFailed (id : TaskId)

namespace TaskDag

def step (dag : TaskDag) : TaskCommand → TaskDag
  | .addTask taskClass description dependencies => (dag.addTask taskClass description dependencies).2
  | .markRunning id => (dag.markRunning id).2
  | .markCompleted id => (dag.markCompleted id).2
  | .markFailed id => (dag.markFailed id).2

def run (dag : TaskDag) (commands : List TaskCommand) : TaskDag := commands.foldl step dag

/-- Dependencies are older tasks of the graph. -/
structure Grounded (dag : TaskDag) : Prop where
  below : ∀ (id : TaskId) (node : TaskNode), dag.tasks[id]? = some node → id < dag.nextId
  older : ∀ (id : TaskId) (node : TaskNode), dag.tasks[id]? = some node → ∀ dependency ∈ node.dependencies,
    dependency < id ∧ ∃ other, dag.tasks[dependency]? = some other

def Active (node : TaskNode) : Prop := node.status = .running ∨ node.status = .completed

/-- Every task that runs or is completed has all its dependencies completed. -/
def Safe (dag : TaskDag) : Prop :=
  ∀ (id : TaskId) (node : TaskNode), dag.tasks[id]? = some node → Active node →
    ∀ dependency ∈ node.dependencies, dag.isCompleted dependency = true

/-- No task that runs or is completed depends on this one. -/
def Unneeded (dag : TaskDag) (id : TaskId) : Prop :=
  ∀ (other : TaskId) (node : TaskNode), dag.tasks[other]? = some node → Active node → id ∉ node.dependencies

/-- A task is completed after its dependencies only, and a completed task leaves this status only while no task
that runs or is completed depends on it. -/
def Permits (dag : TaskDag) : TaskCommand → Prop
  | .addTask _ _ _ => True
  | .markRunning id => ∀ node, dag.tasks[id]? = some node → node.status = .completed → dag.Unneeded id
  | .markCompleted id => ∀ node, dag.tasks[id]? = some node →
      ∀ dependency ∈ node.dependencies, dag.isCompleted dependency = true
  | .markFailed id => ∀ node, dag.tasks[id]? = some node → node.status = .completed → dag.Unneeded id

def Follows : TaskDag → List TaskCommand → Prop
  | _, [] => True
  | dag, command :: commands => dag.Permits command ∧ Follows (dag.step command) commands

section Steps

variable {dag : TaskDag} {id other dependency : TaskId} {node : TaskNode} {status : TaskStatus}

theorem setStatus_getElem? : (dag.setStatus node id status).tasks[other]? =
    if id = other then some { node with status } else dag.tasks[other]? := by
  rw [setStatus, Std.ExtTreeMap.getElem?_insert]
  simp only [compare_eq_iff_eq]

theorem setStatus_isCompleted : (dag.setStatus node id status).isCompleted other =
    if id = other then decide (status = .completed) else dag.isCompleted other := by
  unfold isCompleted
  rw [setStatus_getElem?]
  by_cases same : id = other
  · rw [if_pos same, if_pos same, Option.any_some]
  · rw [if_neg same, if_neg same]

theorem Grounded.setStatus (grounded : Grounded dag) (found : dag.tasks[id]? = some node) :
    Grounded (dag.setStatus node id status) where
  below other changed present := by
    rw [setStatus_getElem?] at present
    by_cases same : id = other
    · exact same ▸ grounded.below id node found
    · rw [if_neg same] at present
      exact grounded.below other changed present
  older other changed present dependency member := by
    have keeps : ∀ kept : TaskId, (∃ task : TaskNode, dag.tasks[kept]? = some task) →
        ∃ task : TaskNode, (dag.setStatus node id status).tasks[kept]? = some task := by
      intro kept exists'
      rw [setStatus_getElem?]
      by_cases same : id = kept
      · exact ⟨_, if_pos same⟩
      · rw [if_neg same]
        exact exists'
    rw [setStatus_getElem?] at present
    by_cases same : id = other
    · rw [if_pos same] at present
      obtain rfl := Option.some.inj present
      obtain ⟨less, task⟩ := grounded.older id node found dependency member
      exact ⟨same ▸ less, keeps dependency task⟩
    · rw [if_neg same] at present
      obtain ⟨less, task⟩ := grounded.older other changed present dependency member
      exact ⟨less, keeps dependency task⟩

/-- A change of status is safe exactly when the task has what its new status needs, and it is still what its
dependents need. -/
theorem safe_setStatus_iff (grounded : Grounded dag) (safe : Safe dag) (found : dag.tasks[id]? = some node) :
    Safe (dag.setStatus node id status) ↔
      ((status = .running ∨ status = .completed) →
          ∀ dependency ∈ node.dependencies, dag.isCompleted dependency = true) ∧
        (node.status = .completed → status ≠ .completed → dag.Unneeded id) := by
  have apart : ∀ dependency ∈ node.dependencies, id ≠ dependency :=
    fun dependency member => ne_of_gt (grounded.older id node found dependency member).1
  constructor
  · intro after
    constructor
    · intro active dependency member
      have done := after id { node with status } (by rw [setStatus_getElem?, if_pos rfl]) active dependency member
      rwa [setStatus_isCompleted, if_neg (apart dependency member)] at done
    · intro _ lost other needing present active member
      have different : id ≠ other := ne_of_lt (grounded.older other needing present id member).1
      have kept : (dag.setStatus node id status).tasks[other]? = some needing := by
        rw [setStatus_getElem?, if_neg different]
        exact present
      have done := after other needing kept active id member
      rw [setStatus_isCompleted, if_pos rfl] at done
      exact lost (of_decide_eq_true done)
  · rintro ⟨own, needed⟩ other changed present active dependency member
    rw [setStatus_getElem?] at present
    rw [setStatus_isCompleted]
    by_cases same : id = other
    · rw [if_pos same] at present
      obtain rfl := Option.some.inj present
      rw [if_neg (apart dependency member)]
      exact own active dependency member
    · rw [if_neg same] at present
      have done := safe other changed present active dependency member
      by_cases here : id = dependency
      · subst here
        rw [if_pos rfl, decide_eq_true_eq]
        unfold isCompleted at done
        rw [found, Option.any_some, decide_eq_true_eq] at done
        by_contra lost
        exact needed done lost other changed present active member
      · rw [if_neg here]
        exact done

theorem Grounded.congr {later : TaskDag} (same : ∀ other : TaskId, later.tasks[other]? = dag.tasks[other]?)
    (grown : dag.nextId ≤ later.nextId) (grounded : Grounded dag) : Grounded later where
  below id node found := by
    rw [same] at found
    exact (grounded.below id node found).trans_le grown
  older id node found dependency member := by
    rw [same] at found ⊢
    exact grounded.older id node found dependency member

theorem Safe.congr {later : TaskDag} (same : ∀ other : TaskId, later.tasks[other]? = dag.tasks[other]?)
    (safe : Safe dag) : Safe later := by
  intro id node found active dependency member
  rw [same] at found
  unfold isCompleted
  rw [same]
  exact safe id node found active dependency member

theorem insert_found (grounded : Grounded dag) (found : dag.tasks[other]? = some node) (added : TaskNode) :
    (dag.tasks.insert dag.nextId added)[other]? = some node := by
  rw [OrderedMap.insert_getElem?, if_neg (ne_of_gt (grounded.below other node found)), found]

/-- A new task depends on tasks of the graph. -/
theorem Grounded.insert (grounded : Grounded dag)
    (present : ∀ dependency ∈ node.dependencies, ∃ other, dag.tasks[dependency]? = some other) :
    Grounded ⟨dag.tasks.insert dag.nextId node, dag.nextId + 1⟩ where
  below other task found := by
    rw [OrderedMap.insert_getElem?] at found
    by_cases same : dag.nextId = other
    · exact same ▸ Nat.lt_succ_self _
    · rw [if_neg same] at found
      exact (grounded.below other task found).trans (Nat.lt_succ_self _)
  older other task found dependency member := by
    rw [OrderedMap.insert_getElem?] at found
    by_cases same : dag.nextId = other
    · rw [if_pos same] at found
      obtain rfl := Option.some.inj found
      obtain ⟨older, there⟩ := present dependency member
      exact ⟨same ▸ grounded.below dependency older there, older, insert_found grounded there node⟩
    · rw [if_neg same] at found
      obtain ⟨less, older, there⟩ := grounded.older other task found dependency member
      exact ⟨less, older, insert_found grounded there node⟩

/-- A new task is pending, and nothing depends on it yet. -/
theorem Safe.insert (grounded : Grounded dag) (safe : Safe dag) (pending : node.status = .pending) :
    Safe ⟨dag.tasks.insert dag.nextId node, dag.nextId + 1⟩ := by
  intro other task found active dependency member
  rw [OrderedMap.insert_getElem?] at found
  by_cases same : dag.nextId = other
  · rw [if_pos same] at found
    obtain rfl := Option.some.inj found
    rw [Active, pending] at active
    rcases active with running | completed <;> contradiction
  · rw [if_neg same] at found
    obtain ⟨_, older, there⟩ := grounded.older other task found dependency member
    have done := safe other task found active dependency member
    unfold isCompleted at done ⊢
    rw [there] at done
    rw [insert_found grounded there]
    exact done

/-- A refused task is taken out again. -/
theorem erase_insert (grounded : Grounded dag) (added : TaskNode) (other : TaskId) :
    ((dag.tasks.insert dag.nextId added).erase dag.nextId)[other]? = dag.tasks[other]? := by
  rw [Std.ExtTreeMap.getElem?_erase, Std.ExtTreeMap.getElem?_insert]
  simp only [compare_eq_iff_eq]
  by_cases here : dag.nextId = other
  · rw [if_pos here, ← here]
    by_contra found
    obtain ⟨node, found⟩ := Option.ne_none_iff_exists'.mp (Ne.symm found)
    exact lt_irrefl _ (grounded.below _ node found)
  · rw [if_neg here, if_neg here]

theorem dependencies_present {dependencies : List TaskId}
    (absent : (dependencies.find? fun dependency => !dag.tasks.contains dependency) = none) :
    ∀ dependency ∈ dependencies, ∃ other, dag.tasks[dependency]? = some other := by
  intro dependency member
  have contained := List.find?_eq_none.mp absent dependency member
  rw [Bool.not_eq_true', Bool.not_eq_false, Std.ExtTreeMap.contains_eq_isSome_getElem?] at contained
  exact Option.isSome_iff_exists.mp contained

theorem Grounded.addTask (grounded : Grounded dag) (taskClass : TaskClass) (description : Text)
    (dependencies : List TaskId) : Grounded (dag.addTask taskClass description dependencies).2 := by
  unfold TaskDag.addTask
  cases absent : dependencies.find? fun dependency => !dag.tasks.contains dependency with
  | some missing => exact grounded
  | none =>
      dsimp only
      split
      · exact grounded.congr (erase_insert grounded _) (Nat.le_succ _)
      · exact @Grounded.insert dag ⟨dag.nextId, taskClass, description, .pending, dependencies⟩ grounded
          (dependencies_present absent)

theorem Safe.addTask (grounded : Grounded dag) (safe : Safe dag) (taskClass : TaskClass) (description : Text)
    (dependencies : List TaskId) : Safe (dag.addTask taskClass description dependencies).2 := by
  unfold TaskDag.addTask
  cases absent : dependencies.find? fun dependency => !dag.tasks.contains dependency with
  | some missing => exact safe
  | none =>
      dsimp only
      split
      · exact safe.congr (erase_insert grounded _)
      · exact safe.insert grounded rfl

theorem Grounded.step (grounded : Grounded dag) (command : TaskCommand) : Grounded (dag.step command) := by
  cases command with
  | addTask taskClass description dependencies => exact grounded.addTask taskClass description dependencies
  | markRunning id =>
      change Grounded (dag.markRunning id).2
      rw [markRunning]
      split
      · exact grounded
      · rename_i node found
        split
        · exact grounded.setStatus found
        · exact grounded
  | markCompleted id =>
      change Grounded (dag.markCompleted id).2
      rw [markCompleted]
      split
      · exact grounded
      · rename_i node found
        exact grounded.setStatus found
  | markFailed id =>
      change Grounded (dag.markFailed id).2
      rw [markFailed]
      split
      · exact grounded
      · rename_i node found
        exact grounded.setStatus found

/-- A condition on the task that is found. -/
theorem forall_found {Holds : TaskNode → Prop} (found : dag.tasks[id]? = some node) :
    (∀ other, dag.tasks[id]? = some other → Holds other) ↔ Holds node := by
  rw [found]
  constructor
  · exact fun always => always node rfl
  · intro holds other same
    exact Option.some.inj same ▸ holds

theorem forall_missing {Holds : TaskNode → Prop} (missing : dag.tasks[id]? = none) :
    ∀ other, dag.tasks[id]? = some other → Holds other := by
  intro other found
  rw [missing] at found
  contradiction

/-- From a safe state exactly the permitted commands lead to a safe state. -/
theorem safe_step_iff (grounded : Grounded dag) (safe : Safe dag) (command : TaskCommand) :
    Safe (dag.step command) ↔ dag.Permits command := by
  cases command with
  | addTask taskClass description dependencies =>
      exact iff_of_true (safe.addTask grounded taskClass description dependencies) trivial
  | markRunning id =>
      change Safe (dag.markRunning id).2 ↔
        ∀ node, dag.tasks[id]? = some node → node.status = .completed → dag.Unneeded id
      rw [markRunning]
      split
      · rename_i missing
        exact iff_of_true safe (forall_missing missing)
      · rename_i node found
        rw [forall_found found]
        by_cases met : node.dependencies.all dag.isCompleted = true
        · rw [if_pos met, safe_setStatus_iff grounded safe found]
          have own := List.all_eq_true.mp met
          constructor
          · exact fun both completed => both.2 completed nofun
          · exact fun needed => ⟨fun _ => own, fun completed _ => needed completed⟩
        · rw [if_neg met]
          apply iff_of_true safe
          intro completed
          exact absurd (List.all_eq_true.mpr (safe id node found (.inr completed))) met
  | markCompleted id =>
      change Safe (dag.markCompleted id).2 ↔ ∀ node, dag.tasks[id]? = some node →
        ∀ dependency ∈ node.dependencies, dag.isCompleted dependency = true
      rw [markCompleted]
      split
      · rename_i missing
        exact iff_of_true safe (forall_missing missing)
      · rename_i node found
        rw [forall_found found, safe_setStatus_iff grounded safe found]
        constructor
        · exact fun both => both.1 (.inr rfl)
        · exact fun own => ⟨fun _ => own, fun _ lost => absurd rfl lost⟩
  | markFailed id =>
      change Safe (dag.markFailed id).2 ↔
        ∀ node, dag.tasks[id]? = some node → node.status = .completed → dag.Unneeded id
      rw [markFailed]
      split
      · rename_i missing
        exact iff_of_true safe (forall_missing missing)
      · rename_i node found
        rw [forall_found found, safe_setStatus_iff grounded safe found]
        constructor
        · exact fun both completed => both.2 completed nofun
        · refine fun needed => ⟨?_, fun completed _ => needed completed⟩
          rintro (running | completed) <;> contradiction

end Steps

theorem new_keeps : Grounded new ∧ Safe new := by
  have empty : ∀ other : TaskId, new.tasks[other]? = none := fun other => Std.ExtTreeMap.getElem?_empty
  refine ⟨⟨?_, ?_⟩, ?_⟩
  · intro id node found
    rw [empty] at found
    contradiction
  · intro id node found
    rw [empty] at found
    contradiction
  · intro id node found
    rw [empty] at found
    contradiction

/-- A run stays safe in all its states exactly when every command of it is permitted. -/
theorem run_safe_iff {dag : TaskDag} (grounded : Grounded dag) (safe : Safe dag) (commands : List TaskCommand) :
    (∀ count, Safe (dag.run (commands.take count))) ↔ dag.Follows commands := by
  induction commands generalizing dag with
  | nil =>
      apply iff_of_true _ trivial
      intro count
      rw [List.take_nil]
      exact safe
  | cons command commands hypothesis =>
      constructor
      · intro always
        have first : Safe (dag.step command) := always 1
        refine ⟨(safe_step_iff grounded safe command).mp first, ?_⟩
        exact (hypothesis (grounded.step command) first).mp fun count => always (count + 1)
      · rintro ⟨permitted, follows⟩ count
        have first := (safe_step_iff grounded safe command).mpr permitted
        cases count with
        | zero => exact safe
        | succ count => exact (hypothesis (grounded.step command) first).mpr follows count

/-- In the states of a run from the empty graph every task that runs or is completed has all its dependencies
completed, if and only if each command is permitted in the state before it. -/
theorem task_run_safe_iff (commands : List TaskCommand) :
    (∀ count, Safe (new.run (commands.take count))) ↔ new.Follows commands :=
  run_safe_iff new_keeps.1 new_keeps.2 commands

/-- A task is completed while its dependency is pending. -/
theorem completed_before_its_dependency :
    let commands : List TaskCommand := [.addTask .seal [] [], .addTask .index [] [0], .markCompleted 1]
    ¬ Safe (new.run commands) := by
  intro commands safe
  have found : (new.run commands).tasks[(1 : TaskId)]? = some ⟨1, .index, [], .completed, [0]⟩ := rfl
  have done := safe 1 ⟨1, .index, [], .completed, [0]⟩ found (.inr rfl) 0 (List.mem_singleton.mpr rfl)
  have open' : (new.run commands).isCompleted 0 = false := rfl
  rw [open'] at done
  contradiction

end TaskDag

end Temnion.Runtime
