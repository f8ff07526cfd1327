import Mathlib.Tactic

/-
This file accounts for a reader that moves over a sequence and collects the items that it keeps.
-/

namespace Sweep

variable {A : Type} {keeps : A → Bool} {items more : List A} {stop next middle : Nat}

/-- The kept items between a position and the stop. -/
def pending (keeps : A → Bool) (items : List A) (stop next : Nat) : List A :=
  ((items.take stop).drop next).filter keeps

/-- Nothing is pending behind the stop. -/
theorem pending_of_le (reached : stop ≤ next) : pending keeps items stop next = [] := by
  rw [pending, List.drop_eq_nil_of_le ((List.length_take_le _ _).trans reached), List.filter_nil]

/-- The item at the position is pending when it is kept. -/
theorem pending_cons {item : A} (here : items[next]? = some item) (before : next < stop) :
    pending keeps items stop next = (if keeps item then [item] else []) ++ pending keeps items stop (next + 1) := by
  have inside : (items.take stop)[next]? = some item := by
    rw [List.getElem?_take_of_lt before]
    exact here
  obtain ⟨bound, value⟩ := List.getElem?_eq_some_iff.mp inside
  rw [pending, List.drop_eq_getElem_cons bound, value, List.filter_cons, pending]
  split <;> rfl

/-- The reader may leap over items that are not kept. -/
theorem pending_leap (ahead : next ≤ middle)
    (dropped : ∀ place item, next ≤ place → place < middle → items[place]? = some item → keeps item = false) :
    pending keeps items stop next = pending keeps items stop middle := by
  induction middle, ahead using Nat.le_induction with
  | base => rfl
  | succ middle ahead ih =>
      rw [ih fun place item lower upper => dropped place item lower (by omega)]
      by_cases before : middle < stop
      · cases here : items[middle]? with
        | none =>
            have outside := List.getElem?_eq_none_iff.mp here
            rw [pending, pending, List.drop_eq_nil_of_le, List.drop_eq_nil_of_le]
            · rw [List.length_take]
              omega
            · rw [List.length_take]
              omega
        | some item =>
            rw [pending_cons here before, dropped middle item ahead (Nat.lt_succ_self _) here]
            rfl
      · rw [pending_of_le (by omega), pending_of_le (by omega)]

/-- Later items do not change what is pending before the stop. -/
theorem pending_append (inside : stop ≤ items.length) :
    pending keeps (items ++ more) stop next = pending keeps items stop next := by
  rw [pending, pending, List.take_append_of_le_length inside]

/-- A reader that starts at the front has all the kept items before the stop ahead of it. -/
theorem pending_zero : pending keeps items stop 0 = (items.take stop).filter keeps := rfl

theorem mem_pending {item : A} : item ∈ pending keeps items stop next ↔
    keeps item ∧ ∃ place, next ≤ place ∧ place < stop ∧ items[place]? = some item := by
  rw [pending, List.mem_filter, and_comm, List.mem_iff_getElem?]
  constructor
  · intro holds
    obtain ⟨kept, index, found⟩ := holds
    rw [List.getElem?_drop, List.getElem?_take] at found
    split at found
    · next before => exact ⟨kept, next + index, Nat.le_add_right _ _, before, found⟩
    · contradiction
  · intro holds
    obtain ⟨kept, place, lower, before, found⟩ := holds
    refine ⟨kept, place - next, ?_⟩
    rw [List.getElem?_drop, Nat.add_sub_cancel' lower, List.getElem?_take_of_lt before]
    exact found

/-- What the reader collected and what is pending for it stay the same together. -/
structure Moves (keeps : A → Bool) (items : List A) (stop : Nat) (before : Nat × List A) (after : Nat × List A) :
    Prop where
  forward : before.1 ≤ after.1
  account : after.2 ++ pending keeps items stop after.1 = before.2 ++ pending keeps items stop before.1

theorem Moves.refl (state : Nat × List A) : Moves keeps items stop state state := ⟨le_refl _, rfl⟩

theorem Moves.trans {first second third : Nat × List A} (one : Moves keeps items stop first second)
    (two : Moves keeps items stop second third) : Moves keeps items stop first third :=
  ⟨one.forward.trans two.forward, two.account.trans one.account⟩

/-- Taking the item at the position is a move. -/
theorem Moves.take {item : A} {collected : List A} (here : items[next]? = some item) (before : next < stop) :
    Moves keeps items stop (next, collected) (next + 1, collected ++ if keeps item then [item] else []) :=
  ⟨Nat.le_succ _, by rw [pending_cons here before, List.append_assoc]⟩

theorem Moves.leap {collected : List A} (ahead : next ≤ middle)
    (dropped : ∀ place item, next ≤ place → place < middle → items[place]? = some item → keeps item = false) :
    Moves keeps items stop (next, collected) (middle, collected) :=
  ⟨ahead, by rw [pending_leap ahead dropped]⟩

/-- A reader that has reached the stop has collected everything that was pending. -/
theorem Moves.finished {start : Nat} {collected : List A} {after : Nat × List A}
    (moves : Moves keeps items stop (start, collected) after) (reached : stop ≤ after.1) :
    after.2 = collected ++ pending keeps items stop start := by
  rw [← moves.account, pending_of_le reached, List.append_nil]

end Sweep
