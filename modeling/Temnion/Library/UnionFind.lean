import Mathlib.Data.List.Basic
import Mathlib.Order.Nat

/-
This file defines parent pointers that never point upwards, and the roots that they lead to.
-/

namespace Temnion

/-- The pointers of a forest of numbers, each of which points at itself or at a lower number. -/
structure UnionFind where
  parents : List Nat
  below : ∀ {child parent : Nat}, parents[child]? = some parent → parent ≤ child

namespace UnionFind

def empty : UnionFind := ⟨[], nofun⟩

variable {forest : UnionFind} {child node target : Nat}

/-- A number that is not in the forest is its own parent. -/
def parent (forest : UnionFind) (node : Nat) : Nat := (forest.parents[node]?).getD node

theorem parent_le : forest.parent node ≤ node := by
  unfold parent
  cases found : forest.parents[node]? with
  | none => exact le_refl node
  | some parent => exact forest.below found

def walk (forest : UnionFind) : Nat → Nat → Nat
  | 0, node => node
  | steps + 1, node => if forest.parent node = node then node else walk forest steps (forest.parent node)

/-- Each step of the walk goes down, so the number itself bounds its steps. -/
def root (forest : UnionFind) (node : Nat) : Nat := forest.walk node node

theorem walk_enough {steps : Nat} (enough : node ≤ steps) : forest.walk steps node = forest.root node := by
  unfold root
  induction node using Nat.strongRecOn generalizing steps with
  | _ node hypothesis =>
      cases steps with
      | zero => rw [Nat.le_zero.mp enough]
      | succ steps =>
          cases node with
          | zero =>
              have fixed : forest.parent 0 = 0 := Nat.le_zero.mp parent_le
              simp only [walk, fixed, if_true]
          | succ node =>
              simp only [walk]
              by_cases fixed : forest.parent (node + 1) = node + 1
              · rw [if_pos fixed, if_pos fixed]
              · have lower : forest.parent (node + 1) < node + 1 := lt_of_le_of_ne parent_le fixed
                have within : forest.parent (node + 1) ≤ node := Nat.lt_succ_iff.mp lower
                rw [if_neg fixed, if_neg fixed, hypothesis _ lower (le_trans within (Nat.le_of_succ_le_succ enough)),
                  hypothesis _ lower within]

theorem root_eq : forest.root node = if forest.parent node = node then node else forest.root (forest.parent node) := by
  calc forest.root node = forest.walk (node + 1) node := (walk_enough (Nat.le_succ node)).symm
    _ = if forest.parent node = node then node else forest.walk node (forest.parent node) := rfl
    _ = if forest.parent node = node then node else forest.root (forest.parent node) := by
        rw [walk_enough parent_le]

theorem root_of_parent (fixed : forest.parent node = node) : forest.root node = node := by
  rw [root_eq, if_pos fixed]

@[simp] theorem root_parent : forest.root (forest.parent node) = forest.root node := by
  by_cases fixed : forest.parent node = node
  · rw [fixed]
  · conv_rhs => rw [root_eq, if_neg fixed]

@[simp] theorem empty_root : empty.root node = node := root_of_parent rfl

/-- What holds of a number and of its root whenever it holds of the parent's root. -/
theorem root_induction {holds : Nat → Nat → Prop} (fixed : ∀ node, forest.parent node = node → holds node node)
    (step : ∀ node, forest.parent node < node → holds (forest.parent node) (forest.root (forest.parent node)) →
      holds node (forest.root (forest.parent node)))
    (node : Nat) : holds node (forest.root node) := by
  induction node using Nat.strongRecOn with
  | _ node hypothesis =>
      by_cases own : forest.parent node = node
      · rw [root_of_parent own]
        exact fixed node own
      · have lower : forest.parent node < node := lt_of_le_of_ne parent_le own
        rw [← root_parent]
        exact step node lower (hypothesis _ lower)

theorem root_le : forest.root node ≤ node :=
  @root_induction forest (fun node root => root ≤ node) (fun _ _ => le_refl _)
    (fun _ lower bound => le_trans bound (le_of_lt lower)) node

theorem parent_root : forest.parent (forest.root node) = forest.root node :=
  @root_induction forest (fun _ root => forest.parent root = root) (fun _ fixed => fixed) (fun _ _ fixed => fixed) node

@[simp] theorem root_root : forest.root (forest.root node) = forest.root node :=
  root_of_parent parent_root

theorem root_lt_length (present : node < forest.parents.length) : forest.root node < forest.parents.length :=
  lt_of_le_of_lt root_le present

/-- A new number is its own root. -/
def push (forest : UnionFind) : UnionFind where
  parents := forest.parents ++ [forest.parents.length]
  below := by
    intro child parent found
    rcases lt_trichotomy child forest.parents.length with present | rfl | beyond
    · rw [List.getElem?_append_left present] at found
      exact forest.below found
    · rw [List.getElem?_concat_length] at found
      exact le_of_eq (Option.some.inj found).symm
    · rw [List.getElem?_eq_none (by rw [List.length_append, List.length_singleton]; omega)] at found
      contradiction

@[simp] theorem push_length : forest.push.parents.length = forest.parents.length + 1 :=
  List.length_append

@[simp] theorem push_parent : forest.push.parent node = forest.parent node := by
  unfold parent push
  rcases lt_trichotomy node forest.parents.length with present | rfl | beyond
  · rw [List.getElem?_append_left present]
  · rw [List.getElem?_concat_length, List.getElem?_eq_none (le_refl _)]
    rfl
  · rw [List.getElem?_eq_none (le_of_lt beyond),
      List.getElem?_eq_none (by rw [List.length_append, List.length_singleton]; omega)]

theorem root_congr {other : UnionFind} (same : ∀ node, other.parent node = forest.parent node) :
    other.root node = forest.root node := by
  refine @root_induction other (fun node root => root = forest.root node) ?_ ?_ node
  · intro node fixed
    exact (root_of_parent ((same node).symm.trans fixed)).symm
  · intro node _ equal
    rw [equal, same, root_parent]

@[simp] theorem push_root : forest.push.root node = forest.root node :=
  root_congr fun _ => push_parent

/-- The child points at the target from now on. -/
def point (forest : UnionFind) (child target : Nat) (lower : target ≤ child) : UnionFind where
  parents := forest.parents.set child target
  below := by
    intro other parent found
    rw [List.getElem?_set] at found
    by_cases same : child = other
    · rw [if_pos same] at found
      by_cases present : child < forest.parents.length
      · rw [if_pos present] at found
        rw [← Option.some.inj found, ← same]
        exact lower
      · rw [if_neg present] at found
        contradiction
    · rw [if_neg same] at found
      exact forest.below found

variable {lower : target ≤ child}

@[simp] theorem point_length : (forest.point child target lower).parents.length = forest.parents.length :=
  List.length_set

theorem point_parent (present : child < forest.parents.length) :
    (forest.point child target lower).parent node = if node = child then target else forest.parent node := by
  unfold parent point
  rw [List.getElem?_set]
  by_cases same : node = child
  · rw [if_pos same.symm, if_pos present, if_pos same]
    rfl
  · rw [if_neg (Ne.symm same), if_neg same]

/-- A pointer from a root to another root merges the two trees. -/
theorem point_root (present : child < forest.parents.length) (apart : target ≠ child)
    (fixed : forest.parent target = target) (own : forest.parent child = child) :
    (forest.point child target lower).root node = if forest.root node = child then target else forest.root node := by
  have targetFixed : (forest.point child target lower).parent target = target := by
    rw [point_parent present, if_neg apart, fixed]
  refine @root_induction forest
    (fun node root => (forest.point child target lower).root node = if root = child then target else root) ?_ ?_ node
  · intro node fixed'
    by_cases same : node = child
    · rw [if_pos same, root_eq, point_parent present, if_pos same, root_of_parent targetFixed, same, if_neg apart]
    · rw [if_neg same]
      exact root_of_parent (by rw [point_parent present, if_neg same, fixed'])
  · intro node below equal
    have other : node ≠ child := fun same => absurd (same ▸ own) (ne_of_lt (same ▸ below))
    rw [← equal, ← root_parent, point_parent present, if_neg other]

/-- A pointer from a number to its root changes no root. -/
theorem point_own_root : (forest.point child (forest.root child) root_le).root node = forest.root node := by
  by_cases present : child < forest.parents.length
  · have target : (forest.point child (forest.root child) root_le).parent (forest.root child) = forest.root child := by
      rw [point_parent present]
      by_cases same : forest.root child = child
      · rw [if_pos same]
      · rw [if_neg same, parent_root]
    refine @root_induction forest
      (fun node root => (forest.point child (forest.root child) root_le).root node = root) ?_ ?_ node
    · intro node fixed
      apply root_of_parent
      rw [point_parent present]
      by_cases same : node = child
      · rw [if_pos same, same, root_of_parent (same ▸ fixed)]
      · rw [if_neg same, fixed]
    · intro node below equal
      rw [← root_parent, point_parent present]
      by_cases same : node = child
      · rw [if_pos same, root_of_parent target, same, root_parent]
      · rw [if_neg same, equal]
  · apply root_congr
    intro node
    change ((forest.parents.set child (forest.root child))[node]?).getD node = forest.parent node
    rw [List.set_eq_of_length_le (Nat.le_of_not_lt present)]
    rfl

/-- All numbers on the way down to the target point at it afterwards. -/
def compress (forest : UnionFind) (target : Nat) : Nat → Nat → UnionFind
  | 0, _ => forest
  | steps + 1, node =>
      if lower : target < node then
        compress (forest.point node target (le_of_lt lower)) target steps (forest.parent node)
      else forest

@[simp] theorem compress_length {steps : Nat} :
    (forest.compress target steps node).parents.length = forest.parents.length := by
  induction steps generalizing forest node with
  | zero => rfl
  | succ steps hypothesis =>
      unfold compress
      by_cases lower : target < node
      · rw [dif_pos lower, hypothesis, point_length]
      · rw [dif_neg lower]

theorem compress_root {steps other : Nat} (target_eq : target = forest.root node) :
    (forest.compress target steps node).root other = forest.root other := by
  induction steps generalizing forest node with
  | zero => rfl
  | succ steps hypothesis =>
      subst target_eq
      unfold compress
      by_cases lower : forest.root node < node
      · rw [dif_pos lower, hypothesis (by rw [point_own_root, root_parent]), point_own_root]
      · rw [dif_neg lower]

/-- The root of a number, with the pointers on the way to it shortened. -/
def find (forest : UnionFind) (node : Nat) : Nat × UnionFind :=
  (forest.root node, forest.compress (forest.root node) node node)

@[simp] theorem find_fst : (forest.find node).1 = forest.root node := rfl

@[simp] theorem find_snd_length : (forest.find node).2.parents.length = forest.parents.length := compress_length

@[simp] theorem find_snd_root {other : Nat} : (forest.find node).2.root other = forest.root other :=
  compress_root rfl

end UnionFind

end Temnion
