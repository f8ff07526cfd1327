import Mathlib.Data.Nat.Bitwise
import Mathlib.Tactic

/-
This file lets some naturals take turns in giving the bits of a code.
-/

namespace Interleave

/-- The highest bit in which two naturals differ decides which one is smaller. -/
theorem exists_testBit_of_lt {first second : Nat} (less : first < second) : ∃ top,
    first.testBit top = false ∧ second.testBit top = true ∧
      ∀ index, top < index → first.testBit index = second.testBit index := by
  have differ : first ^^^ second ≠ 0 := by
    intro same
    exact Nat.ne_of_lt less (Nat.xor_eq_zero_iff.mp same)
  obtain ⟨top, unequal, agree⟩ := Nat.exists_most_significant_bit differ
  have above : ∀ index, top < index → first.testBit index = second.testBit index := by
    intro index behind
    have same := agree index behind
    rwa [Nat.testBit_xor, bne_eq_false_iff_eq] at same
  rw [Nat.testBit_xor] at unequal
  cases low : first.testBit top with
  | false =>
      rw [low, Bool.false_xor] at unequal
      exact ⟨top, low, unequal, above⟩
  | true =>
      rw [low, Bool.true_xor, Bool.not_eq_true'] at unequal
      have greater := Nat.lt_of_testBit top unequal low fun index behind => (above index behind).symm
      exact absurd less (Nat.lt_asymm greater)

/-- The coordinates take turns in giving the bits of the code, beginning with their lowest bits. -/
def Interleaves (coordinates : List Nat) (code : Nat) : Prop :=
  ∀ index, code.testBit index =
    (coordinates.getD (index % coordinates.length) 0).testBit (index / coordinates.length)

variable {coordinates others : List Nat} {code other place : Nat}

/-- The code has the bits of every coordinate. -/
theorem Interleaves.testBit (interleaves : Interleaves coordinates code) (inside : place < coordinates.length)
    (index : Nat) : (coordinates.getD place 0).testBit index = code.testBit (coordinates.length * index + place) := by
  have quotient : (coordinates.length * index + place) / coordinates.length = index := by
    rw [Nat.mul_add_div (Nat.zero_lt_of_lt inside), Nat.div_eq_of_lt inside, Nat.add_zero]
  rw [interleaves, Nat.mul_add_mod, Nat.mod_eq_of_lt inside, quotient]

theorem Interleaves.code_unique (first : Interleaves coordinates code) (second : Interleaves coordinates other) :
    code = other := by
  apply Nat.eq_of_testBit_eq
  intro index
  rw [first, second]

theorem Interleaves.coordinates_unique (first : Interleaves coordinates code) (second : Interleaves others code)
    (same : coordinates.length = others.length) : coordinates = others := by
  apply List.ext_getElem same
  intro place inside inside'
  apply Nat.eq_of_testBit_eq
  intro index
  have bits := first.testBit inside index
  rw [same, ← second.testBit inside' index] at bits
  rwa [List.getD_eq_getElem _ _ inside, List.getD_eq_getElem _ _ inside'] at bits

/-- A greater coordinate among the same others gives a greater code. -/
theorem Interleaves.lt_of_lt {value : Nat} (first : Interleaves coordinates code)
    (second : Interleaves (coordinates.set place value) other) (inside : place < coordinates.length)
    (less : coordinates.getD place 0 < value) : code < other := by
  obtain ⟨top, low, high, above⟩ := exists_testBit_of_lt less
  have read : (coordinates.set place value).getD place 0 = value := by
    rw [List.getD_eq_getElem?_getD, List.getElem?_set_self inside, Option.getD_some]
  have length : (coordinates.set place value).length = coordinates.length := List.length_set
  apply Nat.lt_of_testBit (coordinates.length * top + place)
  · rw [← first.testBit inside, low]
  · have bit := second.testBit (length.symm ▸ inside) top
    rw [read, high, length] at bit
    exact bit.symm
  · intro index behind
    rw [first, second, length]
    by_cases turn : index % coordinates.length = place
    · rw [turn, read]
      apply above
      have whole := Nat.div_add_mod index coordinates.length
      rw [turn] at whole
      by_contra behind'
      have least := Nat.mul_le_mul_left coordinates.length (Nat.not_lt.mp behind')
      omega
    · rw [List.getD_eq_getElem?_getD, List.getD_eq_getElem?_getD, List.getElem?_set_ne (Ne.symm turn)]

/-- The number of a coordinate's bits that are taken from a code. -/
def coordinate (ways count place code : Nat) : Nat :=
  Nat.ofBits fun index : Fin count => code.testBit (ways * index + place)

theorem testBit_coordinate (ways count place code index : Nat) : (coordinate ways count place code).testBit index =
    (decide (index < count) && code.testBit (ways * index + place)) := by
  rw [coordinate]
  by_cases inside : index < count
  · rw [Nat.testBit_ofBits_lt _ index inside, decide_eq_true inside, Bool.true_and]
  · rw [Nat.testBit_ofBits_ge _ index (Nat.not_lt.mp inside), decide_eq_false inside, Bool.false_and]

theorem coordinate_lt (ways count place code : Nat) : coordinate ways count place code < 2 ^ count :=
  Nat.ofBits_lt_two_pow _

theorem coordinate_shiftRight (ways count place code : Nat) :
    coordinate ways count 0 (code >>> place) = coordinate ways count place code := by
  apply Nat.eq_of_testBit_eq
  intro index
  rw [testBit_coordinate, testBit_coordinate, Nat.testBit_shiftRight, Nat.add_zero, Nat.add_comm place]

/-- A code that is small enough is interleaved from its coordinates. -/
theorem interleaves_coordinates {ways count code : Nat} (some' : 0 < ways) (small : code < 2 ^ (ways * count)) :
    Interleaves ((List.range ways).map fun place => coordinate ways count place code) code := by
  intro index
  have turn : index % ways < ways := Nat.mod_lt _ some'
  rw [List.length_map, List.length_range, List.getD_eq_getElem?_getD, List.getElem?_map, List.getElem?_range turn,
    Option.map_some, Option.getD_some, testBit_coordinate, Nat.div_add_mod]
  by_cases inside : index / ways < count
  · rw [decide_eq_true inside, Bool.true_and]
  · rw [decide_eq_false inside, Bool.false_and]
    apply Nat.testBit_lt_two_pow
    apply small.trans_le
    apply Nat.pow_le_pow_right Nat.two_pos
    rw [Nat.mul_comm]
    exact (Nat.le_div_iff_mul_le some').mp (Nat.not_lt.mp inside)

end Interleave
