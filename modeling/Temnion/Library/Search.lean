import Mathlib.Data.List.Basic
import Mathlib.Logic.Relation
import Mathlib.Tactic

/-
This file searches a graph breadth first and shows that the search decides reachability.
-/

namespace Search

variable {A : Type} [DecidableEq A]

/-- The neighbours that were not seen join the queue, and none stands for the target among them. -/
def visit (target : A) : List A → List A → List A → Option (List A × List A)
  | [], queue, visited => some (queue, visited)
  | neighbour :: rest, queue, visited =>
      if neighbour = target then none
      else if neighbour ∈ visited then visit target rest queue visited
      else visit target rest (queue ++ [neighbour]) (neighbour :: visited)

/-- The search leaves the queue from its front until it meets the target or the queue is empty. -/
def reaches (next : A → List A) (target : A) : Nat → List A → List A → Bool
  | 0, _, _ => false
  | _ + 1, [], _ => false
  | fuel + 1, current :: queue, visited =>
      match visit target (next current) queue visited with
      | none => true
      | some (queue, visited) => reaches next target fuel queue visited

theorem visit_eq_none {target : A} {neighbours queue visited : List A} :
    visit target neighbours queue visited = none ↔ target ∈ neighbours := by
  induction neighbours generalizing queue visited with
  | nil => simp [visit]
  | cons neighbour rest hypothesis =>
      rw [visit]
      split
      · next same => simp [same]
      · next different =>
          split <;> rw [hypothesis, List.mem_cons] <;> simp [Ne.symm different]

/-- A visit without the target sees every neighbour and queues each new one. -/
theorem visit_spec {target : A} {neighbours queue visited queue' visited' : List A}
    (visit_eq : visit target neighbours queue visited = some (queue', visited')) :
    (∀ node, node ∈ visited' ↔ node ∈ visited ∨ node ∈ neighbours) ∧
      ∀ node, node ∈ queue' ↔ node ∈ queue ∨ node ∈ neighbours ∧ node ∉ visited := by
  induction neighbours generalizing queue visited with
  | nil =>
      obtain ⟨rfl, rfl⟩ : queue = queue' ∧ visited = visited' := by simpa [visit] using visit_eq
      simp
  | cons neighbour rest hypothesis =>
      rw [visit] at visit_eq
      split at visit_eq
      · exact absurd visit_eq nofun
      · split at visit_eq
        · next seen =>
            obtain ⟨seenAll, queued⟩ := hypothesis visit_eq
            refine ⟨fun node => ?_, fun node => ?_⟩
            · rw [seenAll, List.mem_cons]
              grind
            · rw [queued, List.mem_cons]
              grind
        · next unseen =>
            obtain ⟨seenAll, queued⟩ := hypothesis visit_eq
            refine ⟨fun node => ?_, fun node => ?_⟩
            · rw [seenAll, List.mem_cons, List.mem_cons]
              grind
            · rw [queued, List.mem_append, List.mem_singleton, List.mem_cons, List.mem_cons]
              grind

/-- Nodes of the nodes that the search has not seen. -/
def unseen (nodes visited : List A) : Nat := (nodes.filter (· ∉ visited)).length

theorem unseen_cons_lt {nodes visited : List A} {node : A} (inside : node ∈ nodes) (fresh : node ∉ visited) :
    unseen nodes (node :: visited) < unseen nodes visited := by
  unfold unseen
  rw [← List.countP_eq_length_filter, ← List.countP_eq_length_filter]
  have split := List.countP_eq_countP_filter_add nodes (fun other => decide (other ∉ visited)) (· = node)
  have dropped : List.countP (fun other => decide (other ∉ node :: visited)) nodes =
      List.countP (fun other => decide (other ∉ visited)) (nodes.filter (fun other => !decide (other = node))) := by
    rw [List.countP_filter]
    apply List.countP_congr
    intro other _
    simp [and_comm]
  have counted : 0 < List.countP (fun other => decide (other ∉ visited)) (nodes.filter (· = node)) := by
    rw [List.countP_pos_iff]
    exact ⟨node, by simp [inside], by simp [fresh]⟩
  omega

/-- Each new node of the queue is paid for by one node that was unseen. -/
theorem visit_pays {target : A} {nodes neighbours queue visited queue' visited' : List A}
    (visit_eq : visit target neighbours queue visited = some (queue', visited'))
    (inside : ∀ node ∈ neighbours, node ∈ nodes) :
    queue'.length + unseen nodes visited' ≤ queue.length + unseen nodes visited := by
  induction neighbours generalizing queue visited with
  | nil =>
      obtain ⟨rfl, rfl⟩ : queue = queue' ∧ visited = visited' := by simpa [visit] using visit_eq
      exact le_refl _
  | cons neighbour rest hypothesis =>
      have tail : ∀ node ∈ rest, node ∈ nodes := fun node member => inside node (List.mem_cons_of_mem _ member)
      rw [visit] at visit_eq
      split at visit_eq
      · exact absurd visit_eq nofun
      · split at visit_eq
        · exact hypothesis visit_eq tail
        · next fresh =>
            have paid := hypothesis visit_eq tail
            have smaller := unseen_cons_lt (inside neighbour List.mem_cons_self) fresh
            rw [List.length_append, List.length_singleton] at paid
            omega

/-- The search from a closed frontier meets the target exactly when a queued or a later node leads to it. -/
theorem reaches_iff {next : A → List A} {target : A} {nodes : List A} {fuel : Nat} {queue visited : List A}
    (inside : ∀ node neighbour, neighbour ∈ next node → neighbour ∈ nodes)
    (enough : queue.length + unseen nodes visited < fuel)
    (queued : ∀ node ∈ queue, node ∈ visited)
    (left : ∀ node ∈ visited, node ∉ queue → ∀ neighbour ∈ next node, neighbour ∈ visited ∧ neighbour ≠ target) :
    reaches next target fuel queue visited = true ↔
      ∃ node ∈ visited, Relation.TransGen (fun node neighbour => neighbour ∈ next node) node target := by
  induction fuel generalizing queue visited with
  | zero => exact absurd enough (Nat.not_lt_zero _)
  | succ fuel hypothesis =>
      cases queue with
      | nil =>
          simp only [reaches, Bool.false_eq_true, false_iff, not_exists, not_and]
          intro node seen leads
          -- no step leaves the seen nodes, and none of them steps to the target
          induction leads using Relation.TransGen.head_induction_on with
          | single last => exact (left _ seen List.not_mem_nil _ last).2 rfl
          | head first _ rest => exact rest (left _ seen List.not_mem_nil _ first).1
      | cons current queue =>
          have seen := queued current List.mem_cons_self
          rw [reaches]
          cases visit_eq : visit target (next current) queue visited with
          | none =>
              have met := visit_eq_none.mp visit_eq
              simp only [true_iff]
              exact ⟨current, seen, Relation.TransGen.single met⟩
          | some result =>
              obtain ⟨queue', visited'⟩ := result
              obtain ⟨seenAll, queuedAll⟩ := visit_spec visit_eq
              have missed : target ∉ next current := fun member => by
                have stopped : visit target (next current) queue visited = none := visit_eq_none.mpr member
                rw [visit_eq] at stopped
                cases stopped
              have paid := visit_pays visit_eq (inside current)
              have enough' : queue'.length + unseen nodes visited' < fuel := by
                rw [List.length_cons] at enough
                omega
              have queued' : ∀ node ∈ queue', node ∈ visited' := by
                intro node member
                rw [seenAll]
                exact ((queuedAll node).mp member).imp (fun old => queued node (List.mem_cons_of_mem _ old)) And.left
              have left' : ∀ node ∈ visited', node ∉ queue' →
                  ∀ neighbour ∈ next node, neighbour ∈ visited' ∧ neighbour ≠ target := by
                intro node member behind neighbour step
                rw [queuedAll, not_or, not_and_not_right] at behind
                have old : node ∈ visited := ((seenAll node).mp member).elim id behind.2
                by_cases same : node = current
                · subst same
                  exact ⟨(seenAll neighbour).mpr (Or.inr step), fun equal => missed (equal ▸ step)⟩
                · obtain ⟨seenOld, different⟩ := left node old (by simp [same, behind.1]) neighbour step
                  exact ⟨(seenAll neighbour).mpr (Or.inl seenOld), different⟩
              dsimp only
              rw [hypothesis enough' queued' left']
              constructor
              · rintro ⟨node, member, leads⟩
                rcases (seenAll node).mp member with old | fresh
                · exact ⟨node, old, leads⟩
                · exact ⟨current, seen, Relation.TransGen.head fresh leads⟩
              · rintro ⟨node, member, leads⟩
                exact ⟨node, (seenAll node).mpr (Or.inl member), leads⟩

/-- A search from one node decides whether a nonempty path leads from it to the target. -/
theorem reaches_singleton_iff {next : A → List A} {target source : A} {nodes : List A} {fuel : Nat}
    (inside : ∀ node neighbour, neighbour ∈ next node → neighbour ∈ nodes) (enough : nodes.length + 1 < fuel) :
    reaches next target fuel [source] [source] = true ↔
      Relation.TransGen (fun node neighbour => neighbour ∈ next node) source target := by
  have bounded : unseen nodes [source] ≤ nodes.length := List.length_filter_le _ _
  rw [reaches_iff inside (by rw [List.length_singleton]; omega) (fun _ member => member)
    (fun node member behind => absurd member behind)]
  simp

end Search
