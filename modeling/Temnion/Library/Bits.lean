import Mathlib.Data.Nat.Bitwise
import Mathlib.Tactic

/-
This file writes naturals as lists of bits, the lowest bit first.
-/

namespace Bits

/-- The lowest bits of a natural. -/
def bits (count value : Nat) : List Bool := (List.range count).map value.testBit

@[simp] theorem bits_zero (value : Nat) : bits 0 value = [] := rfl

@[simp] theorem bits_length (count value : Nat) : (bits count value).length = count := by
  rw [bits, List.length_map, List.length_range]

/-- One more bit stands at the end. -/
theorem bits_succ (count value : Nat) : bits (count + 1) value = bits count value ++ [value.testBit count] := by
  rw [bits, List.range_succ, List.map_append]
  rfl

/-- The first bit is the lowest one. -/
theorem bits_cons (count value : Nat) : bits (count + 1) value = value.testBit 0 :: bits count (value >>> 1) := by
  rw [bits, List.range_succ_eq_map, List.map_cons, List.map_map, bits]
  congr 1
  apply List.map_congr_left
  intro index _
  rw [Function.comp_apply, Nat.testBit_shiftRight, Nat.succ_eq_one_add]

/-- Naturals that agree on their lowest bits have the same list. -/
theorem bits_congr {count first second : Nat} (agree : ∀ index < count, first.testBit index = second.testBit index) :
    bits count first = bits count second := by
  apply List.map_congr_left
  intro index member
  exact agree index (List.mem_range.mp member)

theorem bits_mod (count value : Nat) : bits count (value % 2 ^ count) = bits count value := by
  apply bits_congr
  intro index below
  rw [Nat.testBit_mod_two_pow, decide_eq_true below, Bool.true_and]

/-- The bits split at any place. -/
theorem bits_add (first second value : Nat) :
    bits (first + second) value = bits first value ++ bits second (value >>> first) := by
  induction second with
  | zero => rw [Nat.add_zero, bits_zero, List.append_nil]
  | succ second hypothesis =>
      rw [← Nat.add_assoc, bits_succ, hypothesis, bits_succ, Nat.testBit_shiftRight, List.append_assoc]

/-- A bit above a small natural sits behind its bits. -/
theorem testBit_or_shiftLeft {value bit count : Nat} (small : value < 2 ^ count) (index : Nat) :
    (value ||| bit <<< count).testBit index =
      if index < count then value.testBit index else bit.testBit (index - count) := by
  rw [Nat.testBit_or, Nat.testBit_shiftLeft]
  by_cases below : index < count
  · rw [if_pos below, decide_eq_false (Nat.not_le.mpr below), Bool.false_and, Bool.or_false]
  · have above : count ≤ index := Nat.not_lt.mp below
    have vanishes : value.testBit index = false :=
      Nat.testBit_lt_two_pow (lt_of_lt_of_le small (Nat.pow_le_pow_right Nat.two_pos above))
    rw [if_neg below, vanishes, Bool.false_or, decide_eq_true above, Bool.true_and]

/-- Putting one bit above a small natural appends it to the list. -/
theorem bits_or_shiftLeft {value bit count : Nat} (small : value < 2 ^ count) :
    bits (count + 1) (value ||| bit <<< count) = bits count value ++ [bit.testBit 0] := by
  rw [bits_succ, testBit_or_shiftLeft small, if_neg (Nat.lt_irrefl count), Nat.sub_self]
  congr 1
  apply bits_congr
  intro index below
  rw [testBit_or_shiftLeft small, if_pos below]

theorem or_shiftLeft_lt {value bit count : Nat} (small : value < 2 ^ count) (single : bit < 2) :
    value ||| bit <<< count < 2 ^ (count + 1) := by
  apply Nat.or_lt_two_pow
  · exact lt_of_lt_of_le small (Nat.pow_le_pow_right Nat.two_pos (Nat.le_succ count))
  · rw [Nat.shiftLeft_eq, Nat.pow_succ, Nat.mul_comm]
    exact Nat.mul_lt_mul_of_pos_left single (Nat.two_pow_pos count)

/-- One more low bit joins the lower ones. -/
theorem mod_or_shiftLeft (value count : Nat) :
    value % 2 ^ count ||| (value.testBit count).toNat <<< count = value % 2 ^ (count + 1) := by
  apply Nat.eq_of_testBit_eq
  intro index
  rw [testBit_or_shiftLeft (Nat.mod_lt _ (Nat.two_pow_pos count)), Nat.testBit_mod_two_pow, Nat.testBit_mod_two_pow]
  by_cases below : index < count
  · rw [if_pos below, decide_eq_true below, decide_eq_true (Nat.lt_succ_of_lt below)]
  · rw [if_neg below]
    by_cases same : index = count
    · subst same
      rw [Nat.sub_self, decide_eq_true (Nat.lt_succ_self _), Bool.true_and]
      cases value.testBit index <;> rfl
    · have above : ¬index < count + 1 := by omega
      have positive : index - count ≠ 0 := by omega
      rw [decide_eq_false above, Bool.false_and]
      apply Nat.testBit_lt_two_pow
      have small : (value.testBit count).toNat < 2 := Bool.toNat_lt _
      exact lt_of_lt_of_le small (Nat.le_self_pow positive 2)

/-- The bits of a byte string, byte by byte. -/
def byteBits (bytes : List UInt8) : List Bool := bytes.flatMap fun byte => bits 8 byte.toNat

@[simp] theorem byteBits_nil : byteBits [] = [] := rfl

@[simp] theorem byteBits_cons (byte : UInt8) (bytes : List UInt8) :
    byteBits (byte :: bytes) = bits 8 byte.toNat ++ byteBits bytes := List.flatMap_cons

@[simp] theorem byteBits_append (first second : List UInt8) :
    byteBits (first ++ second) = byteBits first ++ byteBits second := List.flatMap_append

theorem byteBits_length (bytes : List UInt8) : (byteBits bytes).length = 8 * bytes.length := by
  induction bytes with
  | nil => rfl
  | cons byte bytes hypothesis =>
      rw [byteBits_cons, List.length_append, bits_length, hypothesis, List.length_cons]
      omega

/-- The natural with these bits. -/
def numberOf : List Bool → Nat
  | [] => 0
  | bit :: rest => bit.toNat + 2 * numberOf rest

theorem bits_numberOf (list : List Bool) : bits list.length (numberOf list) = list := by
  induction list with
  | nil => rfl
  | cons bit rest hypothesis =>
      have low : (bit.toNat + 2 * numberOf rest).testBit 0 = bit := by
        cases bit <;> simp [Nat.testBit_zero]
      have high : (bit.toNat + 2 * numberOf rest) >>> 1 = numberOf rest := by
        have single := bit.toNat_lt
        rw [Nat.shiftRight_one]
        omega
      rw [List.length_cons, bits_cons, numberOf, low, high, hypothesis]

theorem numberOf_lt (list : List Bool) : numberOf list < 2 ^ list.length := by
  induction list with
  | nil => exact Nat.one_pos
  | cons bit rest hypothesis =>
      have single := bit.toNat_lt
      rw [numberOf, List.length_cons, Nat.pow_succ]
      omega

end Bits
