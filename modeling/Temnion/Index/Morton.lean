import Temnion.Library.Interleave
import Temnion.Library.Words

/-
This file interleaves the bits of two or three coordinates.
-/

namespace Temnion.Index

open Interleave

/-- Dilates the bits of the value into the even positions. -/
def mortonSpread2d (value : UInt32) : UInt64 :=
  let x := value.toUInt64
  let x := (x ||| (x <<< 16)) &&& 0x0000ffff0000ffff
  let x := (x ||| (x <<< 8)) &&& 0x00ff00ff00ff00ff
  let x := (x ||| (x <<< 4)) &&& 0x0f0f0f0f0f0f0f0f
  let x := (x ||| (x <<< 2)) &&& 0x3333333333333333
  (x ||| (x <<< 1)) &&& 0x5555555555555555

/-- Compacts the bits in the even positions. -/
def mortonCompact2d (code : UInt64) : UInt32 :=
  let x := code &&& 0x5555555555555555
  let x := (x ||| (x >>> 1)) &&& 0x3333333333333333
  let x := (x ||| (x >>> 2)) &&& 0x0f0f0f0f0f0f0f0f
  let x := (x ||| (x >>> 4)) &&& 0x00ff00ff00ff00ff
  let x := (x ||| (x >>> 8)) &&& 0x0000ffff0000ffff
  let x := (x ||| (x >>> 16)) &&& 0x00000000ffffffff
  x.toUInt32

def mortonEncode2d (x y : UInt32) : UInt64 := mortonSpread2d x ||| (mortonSpread2d y <<< 1)

def mortonDecode2d (code : UInt64) : UInt32 × UInt32 := (mortonCompact2d code, mortonCompact2d (code >>> 1))

/-- Dilates the lower 21 bits of the value into every third bit. -/
def mortonSpread3d (value : UInt32) : UInt64 :=
  (List.range 21).foldl
    (fun code i => code ||| ((value.toUInt64 >>> UInt64.ofNat i) &&& 1) <<< UInt64.ofNat (3 * i)) 0

/-- Compacts every third bit into the lower 21 bits. -/
def mortonCompact3d (code : UInt64) : UInt32 :=
  (List.range 21).foldl
    (fun value i => value ||| ((code >>> UInt64.ofNat (3 * i)) &&& 1).toUInt32 <<< UInt32.ofNat i) 0

def mortonEncode3d (x y z : UInt32) : UInt64 :=
  mortonSpread3d x ||| (mortonSpread3d y <<< 1) ||| (mortonSpread3d z <<< 2)

def mortonDecode3d (code : UInt64) : UInt32 × UInt32 × UInt32 :=
  (mortonCompact3d code, mortonCompact3d (code >>> 1), mortonCompact3d (code >>> 2))

section Groups

variable {size value index : Nat} {code mask : UInt64}

/-- The place in the value of the bit that stands at the index when the bits are grouped. -/
def place (size index : Nat) : Nat := size * (index / size / 2) + index % size

/-- The bits of the value stand in groups of one size, and behind every group as many bits are zero. -/
def Grouped (size value : Nat) (code : UInt64) : Prop :=
  ∀ index, code.toNat.testBit index = (decide (index / size % 2 = 0) && value.testBit (place size index))

/-- The mask keeps the places of the groups. -/
def Masks (size : Nat) (mask : UInt64) : Prop :=
  ∀ index < 64, mask.toNat.testBit index = decide (index / size % 2 = 0)

instance : Decidable (Masks size mask) := inferInstanceAs (Decidable (∀ index < 64, _))

theorem testBit_shiftLeft (small : size < 64) (inside : index < 64) :
    (code <<< UInt64.ofNat size).toNat.testBit index = (decide (size ≤ index) && code.toNat.testBit (index - size)) := by
  have word : size < UInt64.size := small.trans (by decide)
  rw [UInt64.toNat_shiftLeft, UInt64.toNat_ofNat_of_lt' word, Nat.mod_eq_of_lt small, Nat.testBit_mod_two_pow,
    Nat.testBit_shiftLeft, decide_eq_true inside, Bool.true_and]

theorem testBit_shiftRight (small : size < 64) :
    (code >>> UInt64.ofNat size).toNat.testBit index = code.toNat.testBit (size + index) := by
  have word : size < UInt64.size := small.trans (by decide)
  rw [UInt64.toNat_shiftRight, UInt64.toNat_ofNat_of_lt' word, Nat.mod_eq_of_lt small, Nat.testBit_shiftRight]

theorem testBit_of_le (code : UInt64) (outside : 64 ≤ index) : code.toNat.testBit index = false :=
  Nat.testBit_lt_two_pow (code.toNat_lt.trans_le (Nat.pow_le_pow_right (by decide) outside))

/-- A bit of the value stands at most twice as far when the bits are grouped. -/
theorem le_place (size : Nat) (even : index / size % 2 = 0) : index ≤ 2 * place size index := by
  have whole := Nat.div_add_mod index size
  have twice : 2 * (index / size / 2) = index / size := by omega
  have doubled : 2 * (size * (index / size / 2)) = size * (index / size) := by
    rw [Nat.mul_left_comm, twice]
  rw [place]
  omega

theorem testBit_place (small : value < 2 ^ 32) (even : index / size % 2 = 0) (outside : 64 ≤ index) :
    value.testBit (place size index) = false := by
  have far := le_place size even
  exact Nat.testBit_lt_two_pow (small.trans_le (Nat.pow_le_pow_right (by decide) (by omega)))

theorem place_double (size index : Nat) :
    place (2 * size) index = 2 * (size * (index / size / 4)) + (index % size + size * (index / size % 2)) := by
  rw [place, Nat.mul_comm 2 size, ← Nat.div_div_eq_div_mul, Nat.mod_mul, Nat.div_div_eq_div_mul _ 2 2, Nat.mul_comm size 2,
    Nat.mul_assoc]

theorem sub_place (inside : size ≤ index) : (index - size) / size = index / size - 1 ∧ (index - size) % size = index % size := by
  have quotient := Nat.sub_mul_div index size 1
  rw [Nat.mul_one] at quotient
  exact ⟨quotient, (Nat.mod_eq_sub_mod inside).symm⟩

/-- The bit at an even group comes from one of two groups of twice the size. -/
theorem halve_bit (value : Nat) (positive : 0 < size) (even : index / size % 2 = 0) :
    ((decide (index / (2 * size) % 2 = 0) && value.testBit (place (2 * size) index)) ||
      (decide (size ≤ index) && (decide ((index - size) / (2 * size) % 2 = 0) &&
        value.testBit (place (2 * size) (index - size))))) = value.testBit (place size index) := by
  have pair : ∀ position, position / (2 * size) = position / size / 2 := fun position => by
    rw [Nat.mul_comm, Nat.div_div_eq_div_mul]
  rw [pair, pair, place_double, place_double, place]
  rcases (by omega : index / size % 4 = 0 ∨ index / size % 4 = 2) with first | second
  · have odd : ¬(size ≤ index ∧ (index - size) / size / 2 % 2 = 0) := by
      rintro ⟨inside, other⟩
      have least : 1 ≤ index / size := (Nat.one_le_div_iff positive).mpr inside
      rw [(sub_place inside).1] at other
      omega
    have half : index / size / 2 = 2 * (index / size / 4) := by omega
    rw [decide_eq_true (by omega : index / size / 2 % 2 = 0), even, half, Nat.mul_zero, Nat.add_zero, Bool.true_and,
      ← Bool.and_assoc, ← Bool.decide_and, decide_eq_false odd, Bool.false_and, Bool.or_false, Nat.mul_left_comm]
  · have least : 1 ≤ index / size := Nat.one_le_iff_ne_zero.mpr fun zero => by simp [zero] at second
    have inside : size ≤ index := (Nat.one_le_div_iff positive).mp least
    have half : index / size / 2 = 2 * (index / size / 4) + 1 := by omega
    obtain ⟨quotient, rest⟩ := sub_place inside
    rw [quotient, rest, decide_eq_false (by omega : ¬index / size / 2 % 2 = 0), Bool.false_and, Bool.false_or,
      decide_eq_true inside, Bool.true_and, decide_eq_true (by omega : (index / size - 1) / 2 % 2 = 0), Bool.true_and,
      (by omega : (index / size - 1) / 4 = index / size / 4), (by omega : (index / size - 1) % 2 = 1), half, Nat.mul_one,
      Nat.mul_add, Nat.mul_one, Nat.mul_left_comm]
    congr 1
    omega

/-- Every group is split into two. -/
theorem Grouped.halve (grouped : Grouped (2 * size) value code) (small : value < 2 ^ 32) (positive : 0 < size)
    (short : size < 64) (masks : Masks size mask) :
    Grouped size value ((code ||| (code <<< UInt64.ofNat size)) &&& mask) := by
  intro index
  rw [UInt64.toNat_and, Nat.testBit_and, UInt64.toNat_or, Nat.testBit_or, Bool.and_comm]
  rcases Nat.lt_or_ge index 64 with inside | outside
  · rw [masks index inside]
    by_cases even : index / size % 2 = 0
    · rw [testBit_shiftLeft short inside, grouped, grouped, halve_bit value positive even]
    · rw [decide_eq_false even, Bool.false_and, Bool.false_and]
  · rw [testBit_of_le mask outside, Bool.false_and]
    by_cases even : index / size % 2 = 0
    · rw [testBit_place small even outside, Bool.and_false]
    · rw [decide_eq_false even, Bool.false_and]

/-- Two neighbouring groups are joined. -/
theorem Grouped.double (grouped : Grouped size value code) (small : value < 2 ^ 32) (positive : 0 < size)
    (short : size < 64) (masks : Masks (2 * size) mask) :
    Grouped (2 * size) value ((code ||| (code >>> UInt64.ofNat size)) &&& mask) := by
  have pair : ∀ index, index / (2 * size) = index / size / 2 := fun index => by
    rw [Nat.mul_comm, Nat.div_div_eq_div_mul]
  intro index
  rw [UInt64.toNat_and, Nat.testBit_and, UInt64.toNat_or, Nat.testBit_or, Bool.and_comm]
  by_cases even : index / (2 * size) % 2 = 0
  · rw [decide_eq_true even, Bool.true_and]
    rcases Nat.lt_or_ge index 64 with inside | outside
    · have half : index / size / 2 % 2 = 0 := by rw [← pair, even]
      rw [masks index inside, decide_eq_true even, Bool.true_and, testBit_shiftRight short, grouped, grouped,
        Nat.add_div_left _ positive, place, place, Nat.add_div_left _ positive, Nat.add_mod_left, place_double]
      rcases (by omega : index / size % 4 = 0 ∨ index / size % 4 = 1) with first | second
      · rw [decide_eq_true (by omega : index / size % 2 = 0), decide_eq_false (by omega : ¬(index / size).succ % 2 = 0),
          Bool.true_and, Bool.false_and, Bool.or_false, (by omega : index / size / 2 = 2 * (index / size / 4)),
          (by omega : index / size % 2 = 0), Nat.mul_zero, Nat.add_zero, Nat.mul_left_comm]
      · rw [decide_eq_false (by omega : ¬index / size % 2 = 0), decide_eq_true (by omega : (index / size).succ % 2 = 0),
          Bool.false_and, Bool.true_and, Bool.false_or,
          (by omega : (index / size).succ / 2 = 2 * (index / size / 4) + 1), (by omega : index / size % 2 = 1),
          Nat.mul_add, Nat.mul_one, Nat.mul_left_comm, Nat.add_assoc, Nat.add_comm size]
    · rw [testBit_of_le mask outside, Bool.false_and, testBit_place small even outside]
  · rw [decide_eq_false even, Bool.false_and]
    rcases Nat.lt_or_ge index 64 with inside | outside
    · rw [masks index inside, decide_eq_false even, Bool.false_and]
    · rw [testBit_of_le mask outside, Bool.false_and]

/-- The bits of the value before any group is split. -/
theorem grouped_whole (value : UInt32) : Grouped 32 value.toNat value.toUInt64 := by
  intro index
  rw [UInt32.toNat_toUInt64]
  rcases Nat.lt_or_ge index 32 with inside | outside
  · rw [place, Nat.div_eq_of_lt inside, Nat.mod_eq_of_lt inside]
    simp
  · have zero : ∀ far, 32 ≤ far → value.toNat.testBit far = false := fun far least =>
      Nat.testBit_lt_two_pow (value.toNat_lt.trans_le (Nat.pow_le_pow_right (by decide) least))
    rw [zero index outside]
    by_cases even : index / 32 % 2 = 0
    · rw [zero (place 32 index) ?_, Bool.and_false]
      rw [place]
      omega
    · rw [decide_eq_false even, Bool.false_and]

/-- The bits of the value stand in the even places. -/
theorem spread_grouped (value : UInt32) : Grouped 1 value.toNat (mortonSpread2d value) := by
  have small := value.toNat_lt
  have sixteen := @Grouped.halve 16 _ _ 0x0000ffff0000ffff (grouped_whole value) small (by decide) (by decide) (by decide +kernel)
  have eight := @Grouped.halve 8 _ _ 0x00ff00ff00ff00ff sixteen small (by decide) (by decide) (by decide +kernel)
  have four := @Grouped.halve 4 _ _ 0x0f0f0f0f0f0f0f0f eight small (by decide) (by decide) (by decide +kernel)
  have two := @Grouped.halve 2 _ _ 0x3333333333333333 four small (by decide) (by decide) (by decide +kernel)
  exact @Grouped.halve 1 _ _ 0x5555555555555555 two small (by decide) (by decide) (by decide +kernel)

theorem testBit_spread (value : UInt32) (index : Nat) : (mortonSpread2d value).toNat.testBit index =
    (decide (index % 2 = 0) && value.toNat.testBit (index / 2)) := by
  rw [spread_grouped, place, Nat.div_one, Nat.mod_one, Nat.one_mul, Nat.add_zero]

theorem testBit_coordinate (value : UInt32) (outside : 32 ≤ index) : value.toNat.testBit index = false :=
  Nat.testBit_lt_two_pow (value.toNat_lt.trans_le (Nat.pow_le_pow_right (by decide) outside))

/-- The bits of the coordinates alternate. -/
theorem testBit_encode (x y : UInt32) (index : Nat) : (mortonEncode2d x y).toNat.testBit index =
    if index % 2 = 0 then x.toNat.testBit (index / 2) else y.toNat.testBit (index / 2) := by
  rw [mortonEncode2d, UInt64.toNat_or, Nat.testBit_or, testBit_spread]
  rcases Nat.lt_or_ge index 64 with inside | outside
  · have shifted := @testBit_shiftLeft 1 index (mortonSpread2d y) (by decide) inside
    change (mortonSpread2d y <<< 1).toNat.testBit index = _ at shifted
    rw [shifted, testBit_spread]
    by_cases even : index % 2 = 0
    · rw [if_pos even, decide_eq_true even, Bool.true_and]
      rcases Nat.eq_zero_or_pos index with rfl | positive
      · exact Bool.or_false _
      · rw [decide_eq_false (by omega : ¬(index - 1) % 2 = 0), Bool.false_and, Bool.and_false, Bool.or_false]
    · rw [if_neg even, decide_eq_false even, Bool.false_and, Bool.false_or, decide_eq_true (by omega : 1 ≤ index),
        decide_eq_true (by omega : (index - 1) % 2 = 0), (by omega : (index - 1) / 2 = index / 2), Bool.true_and,
        Bool.true_and]
  · rw [testBit_of_le _ outside, Bool.or_false, testBit_coordinate x (by omega), Bool.and_false,
      testBit_coordinate y (by omega), ite_self]

theorem encode2d_interleaves (x y : UInt32) : Interleaves [x.toNat, y.toNat] (mortonEncode2d x y).toNat := by
  intro index
  rw [testBit_encode, List.length_cons, List.length_singleton]
  rcases Nat.mod_two_eq_zero_or_one index with even | odd
  · rw [even, if_pos rfl]
    rfl
  · rw [odd, if_neg Nat.one_ne_zero]
    rfl

/-- The even bits of the code in the even places. -/
theorem grouped_coordinate (code : UInt64) :
    Grouped 1 (coordinate 2 32 0 code.toNat) (code &&& 0x5555555555555555) := by
  have masks : Masks 1 0x5555555555555555 := by decide +kernel
  intro index
  rw [UInt64.toNat_and, Nat.testBit_and]
  by_cases even : index / 1 % 2 = 0
  · rw [decide_eq_true even, Bool.true_and]
    rcases Nat.lt_or_ge index 64 with inside | outside
    · rw [masks index inside, decide_eq_true even, Bool.and_true, Interleave.testBit_coordinate, place, Nat.div_one,
        Nat.mod_one, Nat.one_mul, Nat.add_zero, Nat.add_zero, decide_eq_true (by omega : index / 2 < 32), Bool.true_and]
      congr 1
      omega
    · rw [testBit_of_le _ outside, Bool.false_and, testBit_place (coordinate_lt _ _ _ _) even outside]
  · rw [decide_eq_false even, Bool.false_and]
    rcases Nat.lt_or_ge index 64 with inside | outside
    · rw [masks index inside, decide_eq_false even, Bool.and_false]
    · rw [testBit_of_le _ outside, Bool.false_and]

/-- The even bits of the code are joined again. -/
theorem mortonCompact2d_toNat (code : UInt64) : (mortonCompact2d code).toNat = coordinate 2 32 0 code.toNat := by
  have small := coordinate_lt 2 32 0 code.toNat
  have two := @Grouped.double 1 _ _ 0x3333333333333333 (grouped_coordinate code) small (by decide) (by decide)
    (by decide +kernel)
  have four := @Grouped.double 2 _ _ 0x0f0f0f0f0f0f0f0f two small (by decide) (by decide) (by decide +kernel)
  have eight := @Grouped.double 4 _ _ 0x00ff00ff00ff00ff four small (by decide) (by decide) (by decide +kernel)
  have sixteen := @Grouped.double 8 _ _ 0x0000ffff0000ffff eight small (by decide) (by decide) (by decide +kernel)
  have whole := @Grouped.double 16 _ _ 0x00000000ffffffff sixteen small (by decide) (by decide) (by decide +kernel)
  apply Nat.eq_of_testBit_eq
  intro index
  unfold mortonCompact2d
  dsimp only
  rw [UInt64.toNat_toUInt32, Nat.testBit_mod_two_pow]
  by_cases inside : index < 32
  · rw [decide_eq_true inside, Bool.true_and]
    refine (whole index).trans ?_
    rw [place, Nat.div_eq_of_lt inside, Nat.mod_eq_of_lt inside]
    simp
  · rw [decide_eq_false inside, Bool.false_and, Interleave.testBit_coordinate, decide_eq_false inside, Bool.false_and]

theorem decode2d_interleaves (code : UInt64) :
    Interleaves [(mortonDecode2d code).1.toNat, (mortonDecode2d code).2.toNat] code.toNat := by
  rw [mortonDecode2d, mortonCompact2d_toNat, mortonCompact2d_toNat, UInt64.toNat_shiftRight, UInt64.toNat_one]
  rw [(rfl : 1 % 64 = 1), coordinate_shiftRight]
  exact interleaves_coordinates Nat.two_pos code.toNat_lt

theorem mortonDecode2d_encode (x y : UInt32) : mortonDecode2d (mortonEncode2d x y) = (x, y) := by
  have same := (decode2d_interleaves (mortonEncode2d x y)).coordinates_unique (encode2d_interleaves x y) rfl
  obtain ⟨first, second⟩ := List.cons.inj same
  exact Prod.ext (UInt32.toNat_inj.mp first) (UInt32.toNat_inj.mp (List.cons.inj second).1)

theorem mortonEncode2d_decode (code : UInt64) :
    mortonEncode2d (mortonDecode2d code).1 (mortonDecode2d code).2 = code :=
  UInt64.toNat_inj.mp ((encode2d_interleaves _ _).code_unique (decode2d_interleaves code))

theorem mortonEncode2d_strictMono (x y : UInt32) :
    (StrictMono fun x => mortonEncode2d x y) ∧ StrictMono fun y => mortonEncode2d x y := by
  constructor
  · intro less more ascends
    exact @Interleaves.lt_of_lt _ _ _ 0 _ (encode2d_interleaves less y) (encode2d_interleaves more y) Nat.two_pos ascends
  · intro less more ascends
    exact @Interleaves.lt_of_lt _ _ _ 1 _ (encode2d_interleaves x less) (encode2d_interleaves x more) Nat.one_lt_two
      ascends

end Groups

section Thirds

variable {value : UInt32} {index i : Nat}

/-- One bit of a word. -/
theorem testBit_single (word : UInt64) (short : i < 64) (index : Nat) :
    ((word >>> UInt64.ofNat i) &&& 1).toNat.testBit index = (decide (index = 0) && word.toNat.testBit i) := by
  have low := Nat.testBit_mod_two_pow (word >>> UInt64.ofNat i).toNat 1 index
  rw [Nat.pow_one] at low
  rw [UInt64.toNat_and, UInt64.toNat_one, Nat.and_one_is_mod, low, testBit_shiftRight short]
  rcases Nat.eq_zero_or_pos index with rfl | positive
  · rfl
  · rw [decide_eq_false (by omega : ¬index < 1), decide_eq_false (by omega : ¬index = 0), Bool.false_and, Bool.false_and]

/-- The bits of the value stand in every third place. -/
theorem testBit_spread3d_fold (value : UInt32) {count : Nat} (few : count ≤ 21) (index : Nat) :
    ((List.range count).foldl (fun code i => code ||| ((value.toUInt64 >>> UInt64.ofNat i) &&& 1) <<< UInt64.ofNat (3 * i))
      0).toNat.testBit index = (decide (index % 3 = 0 ∧ index / 3 < count) && value.toNat.testBit (index / 3)) := by
  induction count with
  | zero =>
      rw [decide_eq_false (by omega), Bool.false_and]
      exact Nat.zero_testBit index
  | succ count hypothesis =>
      rw [List.range_succ, List.foldl_concat, UInt64.toNat_or, Nat.testBit_or, hypothesis (by omega)]
      rcases Nat.lt_or_ge index 64 with inside | outside
      · rw [testBit_shiftLeft (by omega) inside, testBit_single _ (by omega), UInt32.toNat_toUInt64]
        by_cases here : index = 3 * count
        · rw [decide_eq_false (by omega), decide_eq_true (by omega : 3 * count ≤ index),
            decide_eq_true (by omega : index - 3 * count = 0), decide_eq_true (by omega), Bool.false_and, Bool.true_and,
            Bool.true_and, Bool.true_and, Bool.false_or, (by omega : index / 3 = count)]
        · have apart : (decide (3 * count ≤ index) && (decide (index - 3 * count = 0) && value.toNat.testBit count)) =
              false := by
            rw [← Bool.and_assoc, ← Bool.decide_and, decide_eq_false (by omega), Bool.false_and]
          rw [apart, Bool.or_false]
          congr 1
          exact decide_eq_decide.mpr (by omega)
      · rw [testBit_of_le _ outside, decide_eq_false (by omega), decide_eq_false (by omega), Bool.false_and,
          Bool.false_or]

theorem testBit_spread3d (narrow : value.toNat < 2 ^ 21) (index : Nat) :
    (mortonSpread3d value).toNat.testBit index = (decide (index % 3 = 0) && value.toNat.testBit (index / 3)) := by
  rw [mortonSpread3d, testBit_spread3d_fold value (Nat.le_refl 21)]
  rcases Nat.lt_or_ge (index / 3) 21 with inside | outside
  · congr 1
    exact decide_eq_decide.mpr (and_iff_left inside)
  · rw [Nat.testBit_lt_two_pow (narrow.trans_le (Nat.pow_le_pow_right Nat.two_pos outside)), Bool.and_false,
      Bool.and_false]

/-- The bits of every third place are joined again. -/
theorem testBit_compact3d_fold (code : UInt64) {count : Nat} (few : count ≤ 21) (index : Nat) :
    ((List.range count).foldl (fun value i => value ||| ((code >>> UInt64.ofNat (3 * i)) &&& 1).toUInt32 <<< UInt32.ofNat i)
      0).toNat.testBit index = (decide (index < count) && code.toNat.testBit (3 * index)) := by
  induction count with
  | zero =>
      rw [decide_eq_false (Nat.not_lt_zero index), Bool.false_and]
      exact Nat.zero_testBit index
  | succ count hypothesis =>
      have amount : (UInt32.ofNat count).toNat = count := by
        rw [UInt32.toNat_ofNat', Nat.mod_eq_of_lt (by omega)]
      rw [List.range_succ, List.foldl_concat, UInt32.toNat_or, Nat.testBit_or, hypothesis (by omega),
        UInt32.toNat_shiftLeft, amount, Nat.mod_eq_of_lt (by omega : count < 32), Nat.testBit_mod_two_pow,
        Nat.testBit_shiftLeft, UInt64.toNat_toUInt32, Nat.testBit_mod_two_pow, testBit_single _ (by omega)]
      by_cases here : index = count
      · rw [here, decide_eq_false (Nat.lt_irrefl count), decide_eq_true (by omega : count < 32),
          decide_eq_true (Nat.le_refl count), decide_eq_true (by omega : count - count < 32),
          decide_eq_true (by omega : count - count = 0), decide_eq_true (Nat.lt_succ_self count)]
        rfl
      · have apart : (decide (count ≤ index) && (decide (index - count < 32) && (decide (index - count = 0) &&
            code.toNat.testBit (3 * count)))) = false := by
          rcases Nat.lt_or_gt_of_ne here with before | behind
          · rw [decide_eq_false (by omega : ¬count ≤ index), Bool.false_and]
          · rw [decide_eq_false (by omega : ¬index - count = 0), Bool.false_and, Bool.and_false, Bool.and_false]
        rw [apart, Bool.and_false, Bool.or_false]
        congr 1
        exact decide_eq_decide.mpr (by omega)

theorem mortonCompact3d_toNat (code : UInt64) : (mortonCompact3d code).toNat = coordinate 3 21 0 code.toNat := by
  apply Nat.eq_of_testBit_eq
  intro index
  rw [mortonCompact3d, testBit_compact3d_fold code (Nat.le_refl 21), Interleave.testBit_coordinate, Nat.add_zero]

/-- The coordinate has at most 21 bits. -/
def Narrow (value : UInt32) : Prop := value.toNat < 2 ^ 21

instance (value : UInt32) : Decidable (Narrow value) := inferInstanceAs (Decidable (_ < _))

/-- A spread coordinate that is moved by its turn. -/
theorem testBit_moved {place : Nat} (narrow : Narrow value) (short : place < 3) (index : Nat) :
    (mortonSpread3d value <<< UInt64.ofNat place).toNat.testBit index =
      (decide (index % 3 = place) && value.toNat.testBit (index / 3)) := by
  rcases Nat.lt_or_ge index 64 with inside | outside
  · rw [testBit_shiftLeft (by omega) inside, testBit_spread3d narrow]
    by_cases turn : index % 3 = place
    · rw [decide_eq_true turn, decide_eq_true (by omega : place ≤ index),
        decide_eq_true (by omega : (index - place) % 3 = 0), (by omega : (index - place) / 3 = index / 3), Bool.true_and,
        Bool.true_and]
    · rw [decide_eq_false turn, Bool.false_and, ← Bool.and_assoc, ← Bool.decide_and, decide_eq_false (by omega),
        Bool.false_and]
  · rw [testBit_of_le _ outside, Nat.testBit_lt_two_pow (Nat.lt_of_lt_of_le narrow
      (Nat.pow_le_pow_right Nat.two_pos (by omega))), Bool.and_false]

theorem encode3d_interleaves {x y z : UInt32} (first : Narrow x) (second : Narrow y) (third : Narrow z) :
    Interleaves [x.toNat, y.toNat, z.toNat] (mortonEncode3d x y z).toNat := by
  intro index
  have moved := testBit_moved second (by decide : 1 < 3) index
  have moved' := testBit_moved third (by decide : 2 < 3) index
  change (mortonSpread3d y <<< 1).toNat.testBit index = _ at moved
  change (mortonSpread3d z <<< 2).toNat.testBit index = _ at moved'
  rw [mortonEncode3d, UInt64.toNat_or, Nat.testBit_or, UInt64.toNat_or, Nat.testBit_or, testBit_spread3d first, moved,
    moved']
  change _ = ([x.toNat, y.toNat, z.toNat].getD (index % 3) 0).testBit (index / 3)
  rcases (by omega : index % 3 = 0 ∨ index % 3 = 1 ∨ index % 3 = 2) with turn | turn | turn
  · rw [turn]
    exact (Bool.or_false _).trans (Bool.or_false _)
  · rw [turn]
    exact Bool.or_false _
  · rw [turn]
    rfl

theorem decode3d_interleaves {code : UInt64} (small : code.toNat < 2 ^ 63) :
    Interleaves [(mortonDecode3d code).1.toNat, (mortonDecode3d code).2.1.toNat, (mortonDecode3d code).2.2.toNat]
      code.toNat := by
  have once : (code >>> 1).toNat = code.toNat >>> 1 := UInt64.toNat_shiftRight code 1
  have twice : (code >>> 2).toNat = code.toNat >>> 2 := UInt64.toNat_shiftRight code 2
  rw [mortonDecode3d, mortonCompact3d_toNat, mortonCompact3d_toNat, mortonCompact3d_toNat, once, twice,
    coordinate_shiftRight, coordinate_shiftRight]
  exact interleaves_coordinates (by decide : 0 < 3) small

theorem narrow_compact3d (code : UInt64) : Narrow (mortonCompact3d code) := by
  rw [Narrow, mortonCompact3d_toNat]
  exact coordinate_lt 3 21 0 code.toNat

theorem mortonEncode3d_lt {x y z : UInt32} (first : Narrow x) (second : Narrow y) (third : Narrow z) :
    (mortonEncode3d x y z).toNat < 2 ^ 63 := by
  apply Nat.lt_pow_two_of_testBit
  intro index outside
  have far : ∀ {value : UInt32}, Narrow value → value.toNat.testBit (index / 3) = false := fun narrow =>
    Nat.testBit_lt_two_pow (Nat.lt_of_lt_of_le narrow (Nat.pow_le_pow_right Nat.two_pos (by omega)))
  rw [encode3d_interleaves first second third]
  change ([x.toNat, y.toNat, z.toNat].getD (index % 3) 0).testBit (index / 3) = false
  rcases (by omega : index % 3 = 0 ∨ index % 3 = 1 ∨ index % 3 = 2) with turn | turn | turn
  · rw [turn]
    exact far first
  · rw [turn]
    exact far second
  · rw [turn]
    exact far third

theorem mortonDecode3d_encode {x y z : UInt32} (first : Narrow x) (second : Narrow y) (third : Narrow z) :
    mortonDecode3d (mortonEncode3d x y z) = (x, y, z) := by
  have same := (decode3d_interleaves (mortonEncode3d_lt first second third)).coordinates_unique
    (encode3d_interleaves first second third) rfl
  obtain ⟨head, tail⟩ := List.cons.inj same
  obtain ⟨middle, last⟩ := List.cons.inj tail
  exact Prod.ext (UInt32.toNat_inj.mp head) (Prod.ext (UInt32.toNat_inj.mp middle)
    (UInt32.toNat_inj.mp (List.cons.inj last).1))

theorem mortonEncode3d_decode {code : UInt64} (small : code.toNat < 2 ^ 63) :
    mortonEncode3d (mortonDecode3d code).1 (mortonDecode3d code).2.1 (mortonDecode3d code).2.2 = code := by
  have encoded := encode3d_interleaves (narrow_compact3d code) (narrow_compact3d (code >>> 1)) (narrow_compact3d (code >>> 2))
  exact UInt64.toNat_inj.mp (encoded.code_unique (decode3d_interleaves small))

theorem mortonEncode3d_strictMono {x y z : UInt32} (first : Narrow x) (second : Narrow y) (third : Narrow z) :
    StrictMonoOn (fun x => mortonEncode3d x y z) {x | Narrow x} ∧
      StrictMonoOn (fun y => mortonEncode3d x y z) {y | Narrow y} ∧
      StrictMonoOn (fun z => mortonEncode3d x y z) {z | Narrow z} := by
  refine ⟨?_, ?_, ?_⟩
  · intro less small more large ascends
    exact @Interleaves.lt_of_lt _ _ _ 0 _ (encode3d_interleaves small second third)
      (encode3d_interleaves large second third) (Nat.zero_lt_succ 2) ascends
  · intro less small more large ascends
    exact @Interleaves.lt_of_lt _ _ _ 1 _ (encode3d_interleaves first small third)
      (encode3d_interleaves first large third) (Nat.succ_lt_succ (Nat.zero_lt_succ 1)) ascends
  · intro less small more large ascends
    exact @Interleaves.lt_of_lt _ _ _ 2 _ (encode3d_interleaves first second small)
      (encode3d_interleaves first second large) (Nat.lt_succ_self 2) ascends

end Thirds

/-- Codes and coordinates determine each other, and a code grows with every single coordinate. -/
theorem morton_order_embedding :
    (∀ x y, mortonDecode2d (mortonEncode2d x y) = (x, y)) ∧
    (∀ code, mortonEncode2d (mortonDecode2d code).1 (mortonDecode2d code).2 = code) ∧
    (∀ x y, (StrictMono fun x => mortonEncode2d x y) ∧ StrictMono fun y => mortonEncode2d x y) ∧
    (∀ x y z, Narrow x → Narrow y → Narrow z →
      mortonDecode3d (mortonEncode3d x y z) = (x, y, z) ∧ (mortonEncode3d x y z).toNat < 2 ^ 63) ∧
    (∀ code : UInt64, code.toNat < 2 ^ 63 →
      mortonEncode3d (mortonDecode3d code).1 (mortonDecode3d code).2.1 (mortonDecode3d code).2.2 = code ∧
        Narrow (mortonDecode3d code).1 ∧ Narrow (mortonDecode3d code).2.1 ∧ Narrow (mortonDecode3d code).2.2) ∧
    ∀ x y z, Narrow x → Narrow y → Narrow z →
      StrictMonoOn (fun x => mortonEncode3d x y z) {x | Narrow x} ∧
        StrictMonoOn (fun y => mortonEncode3d x y z) {y | Narrow y} ∧
        StrictMonoOn (fun z => mortonEncode3d x y z) {z | Narrow z} := by
  refine ⟨mortonDecode2d_encode, mortonEncode2d_decode, mortonEncode2d_strictMono, ?_, ?_, ?_⟩
  · intro x y z first second third
    exact ⟨mortonDecode3d_encode first second third, mortonEncode3d_lt first second third⟩
  · intro code small
    exact ⟨mortonEncode3d_decode small, narrow_compact3d _, narrow_compact3d _, narrow_compact3d _⟩
  · intro x y z first second third
    exact mortonEncode3d_strictMono first second third

/-- Three coordinates of 21, one and no bits. -/
theorem morton_order_embedding_sample :
    mortonDecode2d (mortonEncode2d 0xffffffff 5) = (0xffffffff, 5) ∧
      mortonDecode3d (mortonEncode3d 0x1fffff 1 0) = (0x1fffff, 1, 0) :=
  ⟨morton_order_embedding.1 _ _, (morton_order_embedding.2.2.2.1 _ _ _ (by decide) (by decide) (by decide)).1⟩

end Temnion.Index
