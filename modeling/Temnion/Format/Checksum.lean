import Temnion.Format.Codec

/-
This file shows that the checksum may take a whole byte at a time.
-/

namespace Temnion.Format

theorem and_xor_distrib (mask first second : UInt32) :
    (first ^^^ second) &&& mask = (first &&& mask) ^^^ (second &&& mask) := by
  apply UInt32.toNat_inj.mp
  rw [UInt32.toNat_and, UInt32.toNat_xor, UInt32.toNat_xor, UInt32.toNat_and, UInt32.toNat_and]
  exact Nat.and_xor_distrib_right

/-- The lowest bit is zero or one. -/
theorem and_one (value : UInt32) : value &&& 1 = 0 ∨ value &&& 1 = 1 := by
  have bit : (value &&& 1).toNat = value.toNat % 2 := by
    rw [UInt32.toNat_and]
    exact Nat.and_one_is_mod value.toNat
  rcases Nat.mod_two_eq_zero_or_one value.toNat with even | odd
  · exact .inl (UInt32.toNat_inj.mp (bit.trans even))
  · exact .inr (UInt32.toNat_inj.mp (bit.trans odd))

theorem crcBit_even {value : UInt32} (even : value &&& 1 = 0) : crcBit value = value >>> 1 := by
  rw [crcBit, even, if_neg (by decide)]

theorem crcBit_odd {value : UInt32} (odd : value &&& 1 = 1) : crcBit value = value >>> 1 ^^^ 0xEDB88320 := by
  rw [crcBit, if_pos odd]

/-- A step of the checksum is linear. -/
theorem crcBit_xor (first second : UInt32) : crcBit (first ^^^ second) = crcBit first ^^^ crcBit second := by
  have both := and_xor_distrib 1 first second
  rcases and_one first with one | one <;> rcases and_one second with two | two
  · rw [one, two] at both
    rw [crcBit_even both, crcBit_even one, crcBit_even two, UInt32.shiftRight_xor]
  · rw [one, two] at both
    rw [crcBit_odd both, crcBit_even one, crcBit_odd two, UInt32.shiftRight_xor, UInt32.xor_assoc]
  · rw [one, two] at both
    rw [crcBit_odd both, crcBit_odd one, crcBit_even two, UInt32.shiftRight_xor, UInt32.xor_assoc, UInt32.xor_assoc,
      UInt32.xor_comm (second >>> 1)]
  · rw [one, two] at both
    have gone (polynomial left right : UInt32) : left ^^^ polynomial ^^^ (right ^^^ polynomial) = left ^^^ right := by
      rw [UInt32.xor_comm right, UInt32.xor_assoc, ← UInt32.xor_assoc polynomial, UInt32.xor_self, UInt32.zero_xor]
    rw [crcBit_even (both.trans UInt32.xor_self), crcBit_odd one, crcBit_odd two, UInt32.shiftRight_xor, gone]

theorem iterate_crcBit_xor (count : Nat) (first second : UInt32) :
    crcBit^[count] (first ^^^ second) = crcBit^[count] first ^^^ crcBit^[count] second := by
  induction count generalizing first second with
  | zero => rfl
  | succ count hypothesis =>
      rw [Function.iterate_succ_apply, crcBit_xor, hypothesis, Function.iterate_succ_apply,
        Function.iterate_succ_apply]

/-- Low bits that are all zero are only shifted out. -/
theorem iterate_crcBit_toNat {count : Nat} {value : UInt32} (zeros : value.toNat % 2 ^ count = 0) :
    (crcBit^[count] value).toNat = value.toNat / 2 ^ count := by
  induction count generalizing value with
  | zero => rw [pow_zero, Nat.div_one]; rfl
  | succ count hypothesis =>
      have split : value.toNat % 2 ^ (count + 1) = value.toNat % 2 + 2 * (value.toNat / 2 % 2 ^ count) := by
        rw [pow_succ', Nat.mod_mul]
      have even : value &&& 1 = 0 := by
        apply UInt32.toNat_inj.mp
        rw [UInt32.toNat_and]
        exact (Nat.and_one_is_mod value.toNat).trans (show value.toNat % 2 = 0 by omega)
      have half : (value >>> 1).toNat = value.toNat / 2 := by
        rw [UInt32.toNat_shiftRight]
        exact Nat.shiftRight_one value.toNat
      have rest : (value >>> 1).toNat % 2 ^ count = 0 := by
        rw [half]
        omega
      rw [Function.iterate_succ_apply, crcBit_even even, hypothesis rest, half, Nat.div_div_eq_div_mul, pow_succ']

/-- Eight steps shift the word by a byte and add what its lowest byte leaves. -/
theorem iterate_crcBit_eight (value : UInt32) :
    crcBit^[8] value = value >>> 8 ^^^ crcBit^[8] (value &&& 0xFF) := by
  have parts : value = (value &&& 0xFFFFFF00) ^^^ (value &&& 0xFF) := by
    apply UInt32.toNat_inj.mp
    have masks : (0xFFFFFF00 : Nat) ^^^ 0xFF = 2 ^ 32 - 1 := by decide
    rw [UInt32.toNat_xor, UInt32.toNat_and, UInt32.toNat_and]
    change value.toNat = (value.toNat &&& 0xFFFFFF00) ^^^ (value.toNat &&& 0xFF)
    rw [← Nat.and_xor_distrib_left, masks, Nat.and_two_pow_sub_one_of_lt_two_pow value.toNat_lt]
  have high : (value &&& 0xFFFFFF00).toNat = value.toNat &&& 0xFFFFFF00 := UInt32.toNat_and _ _
  have zeros : (value &&& 0xFFFFFF00).toNat % 2 ^ 8 = 0 := by
    rw [high, Nat.and_mod_two_pow]
    exact Nat.and_zero _
  have shifted : crcBit^[8] (value &&& 0xFFFFFF00) = value >>> 8 := by
    apply UInt32.toNat_inj.mp
    have small : value.toNat >>> 8 < 2 ^ 24 := by
      rw [Nat.shiftRight_eq_div_pow]
      exact Nat.div_lt_of_lt_mul value.toNat_lt
    rw [iterate_crcBit_toNat zeros, high, UInt32.toNat_shiftRight, ← Nat.shiftRight_eq_div_pow,
      Nat.shiftRight_and_distrib]
    exact Nat.and_two_pow_sub_one_of_lt_two_pow small
  conv_lhs => rw [parts, iterate_crcBit_xor, shifted]

end Temnion.Format
