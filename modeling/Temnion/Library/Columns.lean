import Temnion.Library.LittleEndian

/-
This file lays values of one width out behind each other and finds every value at its place.
-/

open LittleEndian

namespace Columns

variable {A : Type} {encode : A → List UInt8} {width index : Nat} {items : List A} {item : A}

theorem flatMap_length (uniform : ∀ item, (encode item).length = width) (items : List A) :
    (items.flatMap encode).length = width * items.length := by
  induction items with
  | nil => rfl
  | cons item items hypothesis =>
      rw [List.flatMap_cons, List.length_append, uniform, hypothesis, List.length_cons, Nat.mul_succ, Nat.add_comm]

/-- The bytes of a value start behind what stands in front of the column and the values before it. -/
theorem slice_flatMap (uniform : ∀ item, (encode item).length = width) (front rest : List UInt8)
    (found : items[index]? = some item) :
    slice (front ++ (items.flatMap encode ++ rest)) (front.length + width * index) width = encode item := by
  induction items generalizing index front with
  | nil => simp at found
  | cons first items hypothesis =>
      rw [List.flatMap_cons, List.append_assoc]
      cases index with
      | zero =>
          obtain rfl := Option.some.inj found
          rw [Nat.mul_zero, Nat.add_zero, slice, List.drop_left, ← uniform first, List.take_left]
      | succ index =>
          have next := hypothesis (front ++ encode first) found
          rw [List.length_append, uniform, List.append_assoc] at next
          rw [← next, Nat.mul_succ]
          congr 1
          omega

end Columns
