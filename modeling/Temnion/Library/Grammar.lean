import Mathlib.Data.List.Basic

/-
This file says when the text of a tree and what follows it determine the tree.
-/

namespace Grammar

variable {T A : Type}

/-- A short tree is determined by its text in front of what may follow it. -/
def Decomposes (bound : Nat) (yield : T → List A) (follow : List A → Prop) : Prop :=
  ∀ first second rest rest', (yield first).length ≤ bound → follow rest → follow rest' →
    yield first ++ rest = yield second ++ rest' → first = second ∧ rest = rest'

/-- The texts of the items with the separator before each of them. -/
def separated (separator : A) (yield : T → List A) : List T → List A
  | [] => []
  | item :: items => separator :: (yield item ++ separated separator yield items)

variable {bound : Nat} {yield : T → List A} {follow stop : List A → Prop} {separator : A}

section Chains

variable (between : ∀ rest, follow (separator :: rest)) (weaker : ∀ rest, stop rest → follow rest)

include between weaker

/-- An item may stand before further items and before what stops them. -/
theorem follow_separated (items : List T) {rest : List A} (stops : stop rest) :
    follow (separated separator yield items ++ rest) := by
  cases items with
  | nil => exact weaker rest stops
  | cons item items => exact between _

variable (apart : ∀ rest, ¬stop (separator :: rest))

include apart

/-- Items behind separators are determined where no further separator follows. -/
theorem Decomposes.separated (decomposes : Decomposes bound yield follow) :
    Decomposes bound (separated separator yield) stop := by
  intro items
  induction items with
  | nil =>
      intro items' rest rest' short stops stops' same
      cases items' with
      | nil => exact ⟨rfl, same⟩
      | cons item' items' =>
          obtain rfl : rest = _ := same
          exact absurd stops (apart _)
  | cons item items hypothesis =>
      intro items' rest rest' short stops stops' same
      rw [Grammar.separated, List.length_cons, List.length_append] at short
      rw [Grammar.separated, List.cons_append, List.append_assoc] at same
      cases items' with
      | nil =>
          obtain rfl : rest' = _ := same.symm
          exact absurd stops' (apart _)
      | cons item' items' =>
          rw [Grammar.separated, List.cons_append, List.append_assoc] at same
          obtain ⟨rfl, onward⟩ := decomposes item item' _ _ (by omega) (follow_separated between weaker items stops)
            (follow_separated between weaker items' stops') (List.cons.inj same).2
          obtain ⟨rfl, rfl⟩ := hypothesis items' rest rest' (by omega) stops stops' onward
          exact ⟨rfl, rfl⟩

/-- A first item and the items behind separators are determined where no further separator follows. -/
theorem Decomposes.chain (decomposes : Decomposes bound yield follow) :
    Decomposes bound (fun chain : T × List T => yield chain.1 ++ Grammar.separated separator yield chain.2) stop := by
  rintro ⟨first, items⟩ ⟨second, items'⟩ rest rest' short stops stops' same
  dsimp only at short same
  rw [List.length_append] at short
  rw [List.append_assoc, List.append_assoc] at same
  obtain ⟨rfl, onward⟩ := decomposes first second _ _ (by omega) (follow_separated between weaker items stops)
    (follow_separated between weaker items' stops') same
  obtain ⟨rfl, rfl⟩ := decomposes.separated between weaker apart items items' rest rest' (by omega) stops stops' onward
  exact ⟨rfl, rfl⟩

end Chains

end Grammar
