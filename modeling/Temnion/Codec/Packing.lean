import Temnion.Codec.Packed
import Temnion.Codec.Xor
import Temnion.Library.Words

/-
This file packs words of a fixed number of bits and gives the packed words back.
-/

namespace Temnion.Codec

open LittleEndian Format

section Pack

variable {width bits : Nat}

/-- The whole bytes, and the bits that do not fill a byte yet. -/
structure Packer (width : Nat) where
  body : List UInt8
  bitBuf : BitVec width
  bitCount : Nat

def Packer.start (width : Nat) : Packer width := ⟨[], BitVec.ofNat width 0, 0⟩

/-- Takes whole bytes out of the buffer. -/
def drain (state : Packer width) : Packer width :=
  if 8 ≤ state.bitCount then
    drain ⟨state.body ++ [UInt8.ofNat state.bitBuf.toNat], state.bitBuf >>> 8, state.bitCount - 8⟩
  else state
termination_by state.bitCount

def push (bits : Nat) (state : Packer width) (word : Nat) : Except Halt (Packer width) := do
  let shifted ← shiftedLeft (BitVec.ofNat width word) state.bitCount
  let bitCount ← addByte state.bitCount bits
  return drain ⟨state.body, state.bitBuf ||| shifted, bitCount⟩

/-- Words of no bits take no bytes. -/
def packWords (width bits : Nat) (words : List Nat) : Except Halt (List UInt8) :=
  if 0 < bits then do
    let state ← words.foldlM (push bits) (Packer.start width)
    return if 0 < state.bitCount then state.body ++ [UInt8.ofNat state.bitBuf.toNat] else state.body
  else .ok []

/-- The number whose bits are those of the words behind one another. -/
def joined (bits : Nat) : List Nat → Nat
  | [] => 0
  | word :: words => word + 2 ^ bits * joined bits words

theorem joined_concat (bits : Nat) (words : List Nat) (word : Nat) :
    joined bits (words ++ [word]) = joined bits words + 2 ^ (bits * words.length) * word := by
  induction words with
  | nil => simp [joined]
  | cons first words hypothesis =>
      rw [List.cons_append, joined, hypothesis, joined, List.length_cons, Nat.mul_succ, Nat.add_comm _ bits, Nat.pow_add]
      ring

/-- The bytes and the buffer together hold every bit of the words. -/
structure Packer.Holds (bits : Nat) (words : List Nat) (state : Packer width) : Prop where
  joined : valueOf state.body + 2 ^ (8 * state.body.length) * state.bitBuf.toNat = joined bits words
  counted : 8 * state.body.length + state.bitCount = bits * words.length
  narrow : state.bitBuf.toNat < 2 ^ state.bitCount

theorem Packer.Holds.start (bits : Nat) : (Packer.start width).Holds bits [] where
  joined := by simp [Packer.start, Codec.joined, valueOf]
  counted := rfl
  narrow := by simp [Packer.start]

variable {words : List Nat} {state : Packer width} {word : Nat}

/-- A byte that leaves the buffer stands above the ones before it. -/
theorem Packer.Holds.emit (holds : state.Holds bits words) (whole : 8 ≤ state.bitCount) :
    (⟨state.body ++ [UInt8.ofNat state.bitBuf.toNat], state.bitBuf >>> 8, state.bitCount - 8⟩ : Packer width).Holds
      bits words where
  joined := by
    have byte : valueOf [UInt8.ofNat state.bitBuf.toNat] = state.bitBuf.toNat % 2 ^ 8 := by
      rw [valueOf, valueOf, UInt8.toNat_ofNat']
      rfl
    have split := Nat.mod_add_div state.bitBuf.toNat (2 ^ 8)
    dsimp only
    rw [valueOf_append, byte, List.length_append, List.length_singleton, BitVec.toNat_ushiftRight,
      Nat.shiftRight_eq_div_pow, Nat.mul_succ, Nat.pow_add, show (256 : Nat) = 2 ^ 8 from rfl, ← Nat.pow_mul,
      Nat.add_assoc, Nat.mul_assoc, ← Nat.mul_add, split, holds.joined]
  counted := by
    have counted := holds.counted
    dsimp only
    rw [List.length_append, List.length_singleton]
    omega
  narrow := by
    dsimp only
    rw [BitVec.toNat_ushiftRight, Nat.shiftRight_eq_div_pow, Nat.div_lt_iff_lt_mul (Nat.two_pow_pos _), ← Nat.pow_add,
      Nat.sub_add_cancel whole]
    exact holds.narrow

/-- Less than a byte is left in the buffer. -/
theorem Packer.Holds.drain (holds : state.Holds bits words) :
    (drain state).Holds bits words ∧ (drain state).bitCount < 8 := by
  fun_induction Codec.drain state with
  | case1 state whole further => exact further (holds.emit whole)
  | case2 state few => exact ⟨holds, Nat.not_le.mp few⟩

/-- One more word is put above the bits of the buffer. -/
theorem Packer.Holds.push (holds : state.Holds bits words) (few : state.bitCount < 8) (room : bits + 8 ≤ width)
    (short : bits ≤ 64) (fits : word < 2 ^ bits) :
    ∃ reached, push bits state word = .ok reached ∧ reached.Holds bits (words ++ [word]) ∧ reached.bitCount < 8 := by
  have small : word < 2 ^ width := lt_of_lt_of_le fits (Nat.pow_le_pow_right Nat.two_pos (by omega))
  have shifted : word <<< state.bitCount < 2 ^ (bits + state.bitCount) := Nat.shiftLeft_lt fits
  have inside : word <<< state.bitCount < 2 ^ width :=
    lt_of_lt_of_le shifted (Nat.pow_le_pow_right Nat.two_pos (by omega))
  have buffer : (state.bitBuf ||| BitVec.ofNat width word <<< state.bitCount).toNat =
      state.bitBuf.toNat + 2 ^ state.bitCount * word := by
    rw [BitVec.toNat_or, BitVec.toNat_shiftLeft, BitVec.toNat_ofNat, Nat.mod_eq_of_lt small, Nat.mod_eq_of_lt inside,
      Nat.shiftLeft_eq, Nat.mul_comm word, Nat.or_comm, ← Nat.two_pow_add_eq_or_of_lt holds.narrow, Nat.add_comm]
  have grown : (⟨state.body, state.bitBuf ||| BitVec.ofNat width word <<< state.bitCount, state.bitCount + bits⟩ :
      Packer width).Holds bits (words ++ [word]) := by
    have counted := holds.counted
    exact {
      joined := by
        dsimp only
        rw [buffer, joined_concat, ← holds.joined, ← counted, Nat.pow_add]
        ring
      counted := by
        dsimp only
        rw [List.length_append, List.length_singleton, Nat.mul_succ, ← counted, Nat.add_assoc]
      narrow := by
        dsimp only
        rw [buffer, Nat.pow_add]
        have least : 2 ^ state.bitCount * (word + 1) ≤ 2 ^ state.bitCount * 2 ^ bits := Nat.mul_le_mul_left _ fits
        have narrow := holds.narrow
        rw [Nat.mul_succ] at least
        omega }
  obtain ⟨drained, rest⟩ := grown.drain
  refine ⟨_, ?_, drained, rest⟩
  rw [Codec.push, shiftedLeft, if_pos (by omega), Except.ok_bind, addByte, if_pos (by omega), Except.ok_bind]
  rfl

/-- The loop over the words keeps every bit, and its count of bits stays a byte. -/
theorem pack_holds (room : bits + 8 ≤ width) (short : bits ≤ 64) (fit : ∀ word ∈ words, word < 2 ^ bits) :
    ∃ reached, words.foldlM (push bits) (Packer.start width) = .ok reached ∧ reached.Holds bits words ∧
      reached.bitCount < 8 := by
  induction words using List.reverseRecOn with
  | nil => exact ⟨_, rfl, Packer.Holds.start bits, Nat.zero_lt_succ 7⟩
  | append_singleton words word hypothesis =>
      rw [List.forall_mem_append, List.forall_mem_singleton] at fit
      obtain ⟨state, packs, holds, few⟩ := hypothesis fit.1
      obtain ⟨reached, pushes, held, fewer⟩ := holds.push few room short fit.2
      refine ⟨reached, ?_, held, fewer⟩
      rw [List.foldlM_append, packs, Except.ok_bind, List.foldlM_cons, pushes, Except.ok_bind]
      rfl

/-- The words stand in the packed bytes one after the other. -/
theorem fieldsFrom_joined {packed : List UInt8} {offset : Nat} (fit : ∀ word ∈ words, word < 2 ^ bits)
    (spelled : valueOf packed >>> offset = joined bits words) : fieldsFrom packed bits offset words.length = words := by
  induction words generalizing offset with
  | nil => rfl
  | cons word words hypothesis =>
      obtain ⟨first, later⟩ := List.forall_mem_cons.mp fit
      have rest : valueOf packed >>> (offset + bits) = joined bits words := by
        rw [Nat.shiftRight_add, spelled, joined, Nat.shiftRight_eq_div_pow, Nat.add_mul_div_left _ _ (Nat.two_pow_pos _),
          Nat.div_eq_of_lt first, Nat.zero_add]
      rw [List.length_cons, fieldsFrom, hypothesis later rest, fieldAt, spelled, joined, Nat.add_mul_mod_self_left,
        Nat.mod_eq_of_lt first]

/-- The packed bytes are as many as the decoder expects and hold the words. -/
theorem packWords_ok (room : bits + 8 ≤ width) (short : bits ≤ 64) (fit : ∀ word ∈ words, word < 2 ^ bits) :
    ∃ packed, packWords width bits words = .ok packed ∧
      packed.length = (if bits = 0 then 0 else packedLength words.length bits) ∧
        (bits ≠ 0 → fieldsFrom packed bits 0 words.length = words) := by
  rw [packWords]
  by_cases some' : 0 < bits
  · obtain ⟨state, packs, holds, few⟩ := pack_holds room short fit
    have counted := holds.counted
    have total : words.length * bits = bits * words.length := Nat.mul_comm _ _
    have byte : valueOf [UInt8.ofNat state.bitBuf.toNat] = state.bitBuf.toNat := by
      have narrow : state.bitBuf.toNat < 2 ^ 8 :=
        lt_of_lt_of_le holds.narrow (Nat.pow_le_pow_right Nat.two_pos (Nat.le_of_lt few))
      rw [valueOf, valueOf, UInt8.toNat_ofNat_of_lt' narrow]
      rfl
    rw [if_pos some', packs, Except.ok_bind, if_neg (Nat.ne_of_gt some'), packedLength, total]
    refine ⟨_, rfl, ?_, fun _ => fieldsFrom_joined fit ?_⟩
    · split
      · rw [List.length_append, List.length_singleton]
        omega
      · omega
    · rw [Nat.shiftRight_zero, ← holds.joined, Nat.pow_mul]
      split
      · rw [valueOf_append, byte]
      · have none' : state.bitCount = 0 := by omega
        have narrow := holds.narrow
        rw [none', Nat.pow_zero, Nat.lt_one_iff] at narrow
        rw [narrow, Nat.mul_zero, Nat.add_zero]
  · exact ⟨[], if_neg some', by rw [if_pos (by omega)]; rfl, fun other => absurd (Nat.pos_of_ne_zero other) some'⟩

/-- The state of the decoder when it took so many words. -/
def advance (packed : List UInt8) (bits : Nat) : Nat → Unpacker width → Except Halt (Unpacker width)
  | 0, state => .ok state
  | count + 1, state => do
      let state ← refill packed bits state
      let bitBuf ← shiftedRight state.bitBuf bits
      advance packed bits count ⟨state.byteIdx, bitBuf, state.bitCount - bits⟩

/-- The buffer holds the loaded bits behind the ones that were taken, whatever the number of words is. -/
theorem advance_holds {packed : List UInt8} {consumed : Nat} {state : Unpacker width} (room : bits + 8 ≤ width)
    (short : bits ≤ 64) (count : Nat) (holds : state.Holds packed consumed) (few : state.bitCount < 8) :
    ∃ reached, advance packed bits count state = .ok reached ∧ reached.Holds packed (consumed + bits * count) ∧
      reached.bitCount < 8 := by
  induction count generalizing state consumed with
  | zero => exact ⟨state, rfl, holds, few⟩
  | succ count hypothesis =>
      obtain ⟨filled, fills, held, below, enough⟩ := refill_ok holds room short (by omega)
      obtain ⟨reached, advances, after, fewer⟩ := hypothesis (held.take enough) (by dsimp only; omega)
      refine ⟨reached, ?_, ?_, fewer⟩
      · rw [advance, fills, Except.ok_bind, shiftedRight, if_pos (by omega), Except.ok_bind]
        exact advances
      · rw [Nat.mul_succ, Nat.add_comm _ bits, ← Nat.add_assoc]
        exact after

/-- The loop over the words goes through these states. -/
theorem unpack_advance {packed : List UInt8} {mask : BitVec width} {consumed : Nat} {state reached : Unpacker width}
    (masks : mask.toNat = 2 ^ bits - 1) (room : bits + 8 ≤ width) (short : bits ≤ 64)
    (emit : Nat → Except Halt (List UInt8)) (first second : Nat) (out : List UInt8)
    (holds : state.Holds packed consumed) (few : state.bitCount < 8)
    (advances : advance packed bits first state = .ok reached) :
    unpack packed bits mask emit (first + second) state out =
      (((fieldsFrom packed bits consumed first).mapM emit) >>= fun parts =>
        unpack packed bits mask emit second reached (out ++ parts.flatten)) := by
  induction first generalizing state consumed out with
  | zero =>
      rw [advance, Except.ok.injEq] at advances
      rw [Nat.zero_add, advances]
      change _ = unpack packed bits mask emit second reached (out ++ [].flatten)
      rw [List.flatten_nil, List.append_nil]
  | succ first hypothesis =>
      obtain ⟨filled, fills, held, below, enough⟩ := refill_ok holds room short (by omega)
      have word : (filled.bitBuf &&& mask).toNat = fieldAt packed bits consumed := by
        rw [BitVec.toNat_and, masks, Nat.and_two_pow_sub_one_eq_mod, held.field enough]
      rw [advance, fills, Except.ok_bind, shiftedRight, if_pos (by omega), Except.ok_bind] at advances
      rw [Nat.succ_add, unpack, fills, Except.ok_bind]
      dsimp only
      rw [shiftedRight, if_pos (by omega), Except.ok_bind, word, fieldsFrom, List.mapM_cons]
      cases emit (fieldAt packed bits consumed) with
      | error error => rfl
      | ok bytes =>
          rw [Except.ok_bind, Except.ok_bind, hypothesis (out ++ bytes) (held.take enough) (by dsimp only; omega) advances]
          cases (fieldsFrom packed bits (consumed + bits) first).mapM emit with
          | error error => rfl
          | ok parts =>
              change unpack packed bits mask emit second reached (out ++ bytes ++ parts.flatten) =
                unpack packed bits mask emit second reached (out ++ (bytes :: parts).flatten)
              rw [List.flatten_cons, List.append_assoc]

/-- Behind its header the decoder finds the packed words and the remainder. -/
theorem decodePacked_ok {header : Nat} {head packed rest : List UInt8} {emit : Nat → Except Halt (List UInt8)}
    {image : Nat → List UInt8} {expectedLen : Nat} (room : bits + 8 ≤ width) (short : bits ≤ 64)
    (few : words.length < 2 ^ 32) (fit : ∀ word ∈ words, word < 2 ^ bits) (emits : ∀ word ∈ words, emit word = .ok (image word))
    (length : head.length = header) (small : header ≤ 13) (packs : packWords width bits words = .ok packed)
    (narrow : rest.length < 8) (total : (words.flatMap image ++ rest).length = expectedLen) :
    decodePacked width header bits words.length (image 0) emit (head ++ packed ++ rest) rest.length expectedLen =
      .ok (words.flatMap image ++ rest) := by
  obtain ⟨bytes, same, size, fields⟩ := packWords_ok room short fit
  rw [packs, Except.ok.injEq] at same
  rw [← same] at size fields
  have product : words.length * bits < 2 ^ 39 := by
    have bound := Nat.mul_le_mul (Nat.le_of_lt few) short
    omega
  have counted : ∃ packedTotal, packedBits words.length bits = .ok packedTotal ∧ packed.length = (packedTotal + 7) / 8 ∧
      packedTotal < 2 ^ 39 := by
    unfold packedBits
    by_cases empty : bits = 0
    · refine ⟨0, if_pos empty, ?_, by decide⟩
      rw [size, if_pos empty]
    · refine ⟨words.length * bits, ?_, ?_, product⟩
      · rw [if_neg empty]
        exact checkedMul_ok.mpr ⟨by omega, rfl⟩
      · rw [size, if_neg empty]
        rfl
  obtain ⟨packedTotal, counts, exact', below⟩ := counted
  have whole : (head ++ packed ++ rest).length = header + packed.length + rest.length := by
    rw [List.length_append, List.length_append, length]
  have read : decodeWords width header (header + packed.length) bits words.length (image 0) emit (head ++ packed ++ rest) =
      .ok (words.flatMap image) := by
    unfold decodeWords
    by_cases empty : bits = 0
    · rw [if_pos empty]
      have zeros : ∀ word ∈ words, word = 0 := by
        intro word member
        have none' := fit word member
        rw [empty, Nat.pow_zero, Nat.lt_one_iff] at none'
        exact none'
      have all := List.eq_replicate_of_mem zeros
      rw [all, List.length_replicate, List.flatMap_def, List.map_replicate]
    · obtain ⟨mask, masks, value⟩ := maskOf_ok (by omega : bits < width)
      have stored : slice (head ++ packed ++ rest) header packed.length = packed := by
        rw [List.append_assoc, slice_append_right (Nat.le_of_eq length), length, Nat.sub_self, slice_append_left rfl]
      rw [if_neg empty, sliceAt_ok (Nat.le_add_right _ _) (by omega), Except.ok_bind, masks, Except.ok_bind,
        Nat.add_sub_cancel_left, stored,
        unpack_eq value room short emit words.length [] (Unpacker.Holds.start _) (Nat.zero_lt_succ 7), fields empty,
        Except.mapM_ok emits]
      change Except.ok ([] ++ (words.map image).flatten) = _
      rw [List.nil_append, List.flatMap_def]
  have last : withRemainder (head ++ packed ++ rest) (header + packed.length) (header + packed.length + rest.length)
      (words.flatMap image) = .ok (words.flatMap image ++ rest) := by
    unfold withRemainder
    by_cases some' : header + packed.length < header + packed.length + rest.length
    · have stored : slice (head ++ packed ++ rest) (header + packed.length) rest.length = rest := by
        rw [slice_append_right (by rw [List.length_append, length]), List.length_append, length, Nat.sub_self,
          slice_all rfl]
      rw [if_pos some', sliceAt_ok (Nat.le_add_right _ _) (Nat.le_of_eq whole.symm), Except.ok_bind,
        Nat.add_sub_cancel_left, stored]
      rfl
    · have empty : rest = [] := List.eq_nil_of_length_eq_zero (by omega)
      rw [if_neg some', empty, List.append_nil]
  unfold decodePacked
  rw [counts, Except.ok_bind, ← exact', checkedAdd_ok.mpr ⟨by omega, rfl⟩, Except.ok_bind,
    checkedAdd_ok.mpr ⟨by omega, rfl⟩, Except.ok_bind, Except.refuseIf_bind (by omega), read, Except.ok_bind, last,
    Except.ok_bind, Except.refuseIf_bind (not_not.mpr total)]
  rfl

end Pack

/-- The bits that a value takes, counted from its leading zeros. -/
def bitsOf (width value : Nat) : Nat := if value = 0 then 0 else width - (BitVec.ofNat width value).clz.toNat

theorem bitsOf_le (width value : Nat) : bitsOf width value ≤ width := by
  unfold bitsOf
  split
  · exact Nat.zero_le _
  · exact Nat.sub_le _ _

theorem lt_bitsOf {width value : Nat} (fits : value < 2 ^ width) : value < 2 ^ bitsOf width value := by
  unfold bitsOf
  split
  · rename_i zero
    rw [zero, Nat.pow_zero]
    exact Nat.one_pos
  · have below := @BitVec.toNat_lt_two_pow_sub_clz width (BitVec.ofNat width value)
    rwa [BitVec.toNat_ofNat, Nat.mod_eq_of_lt fits] at below

def greatest (words : List Nat) : Nat := words.foldl (fun maxVal word => if maxVal < word then word else maxVal) 0

theorem le_greatest {words : List Nat} {word : Nat} (member : word ∈ words) : word ≤ greatest words := by
  have step : (fun maxVal word : Nat => if maxVal < word then word else maxVal) = max := by
    funext maxVal word
    rw [max_def]
    split <;> split <;> omega
  rw [greatest, step, List.foldl_eq_foldr]
  exact List.le_max_of_le' 0 member (Nat.le_refl _)

theorem greatest_lt {words : List Nat} {bound : Nat} (positive : 0 < bound) (each : ∀ word ∈ words, word < bound) :
    greatest words < bound := by
  unfold greatest
  refine List.foldlRecOn (motive := fun maxVal => maxVal < bound) words _ positive fun maxVal below word member => ?_
  split
  · exact each word member
  · exact below

/-- All words fit the bits of the greatest one. -/
theorem fit_greatest {words : List Nat} {width : Nat} (fit : ∀ word ∈ words, word < 2 ^ width) :
    ∀ word ∈ words, word < 2 ^ bitsOf width (greatest words) := fun _ member =>
  lt_of_le_of_lt (le_greatest member) (lt_bitsOf (greatest_lt (Nat.two_pow_pos width) fit))

/-- An input without a remainder ends with its words. -/
theorem append_rest (size : Nat) (body input : List UInt8) :
    (if 0 < input.length % size then body ++ input.drop (input.length / size * size) else body) =
      body ++ input.drop (input.length / size * size) := by
  by_cases some' : 0 < input.length % size
  · rw [if_pos some']
  · have whole : input.length / size * size = input.length :=
      Nat.div_mul_cancel (Nat.dvd_of_mod_eq_zero (Nat.eq_zero_of_not_pos some'))
    rw [if_neg some', whole, List.drop_length, List.append_nil]

namespace BitPackCodec

/-- The whole words of the input, without the remainder. -/
def wordsOf (input : List UInt8) : List UInt32 := (List.range (input.length / 4)).map fun index => getU32 input (4 * index)

/-- The body behind the count of bits and the count of words, and the remainder of the input. -/
def encodeBody (input : List UInt8) : Except Halt (List UInt8) := do
  let wordCount := input.length / 4
  let remainderLen := input.length % 4
  let words := (wordsOf input).map UInt32.toNat
  let bits := bitsOf 32 (greatest words)
  let packed ← packWords 64 bits words
  let body := UInt8.ofNat bits :: le32 (UInt32.ofNat wordCount) ++ packed
  return if 0 < remainderLen then body ++ input.drop (wordCount * 4) else body

/-- The words of an input are its bytes without the remainder. -/
theorem wordsOf_bytes (input : List UInt8) : (wordsOf input).flatMap le32 = input.take (input.length / 4 * 4) := by
  have grown : ∀ count, count ≤ input.length / 4 →
      ((List.range count).map fun index => getU32 input (4 * index)).flatMap le32 = input.take (count * 4) := by
    intro count
    induction count with
    | zero => exact fun _ => rfl
    | succ count hypothesis =>
        intro inside
        rw [List.range_succ, List.map_append, List.flatMap_append, hypothesis (Nat.le_of_succ_le inside), List.map_singleton,
          List.flatMap_singleton, le32_getU32 (by omega), Nat.add_one_mul count 4, List.take_add, slice, Nat.mul_comm 4 count]
  exact grown _ (Nat.le_refl _)

/-- The decoder finds the words and the remainder behind the header of the encoder. -/
theorem decodeBody_packed {words : List Nat} {bits expectedLen : Nat} {packed rest : List UInt8} (narrow : bits ≤ 32)
    (fit : ∀ word ∈ words, word < 2 ^ bits) (packs : packWords 64 bits words = .ok packed) (few : rest.length < 4)
    (total : words.length * 4 + rest.length = expectedLen) (short : expectedLen < 2 ^ 32) :
    decodeBody (UInt8.ofNat bits :: le32 (UInt32.ofNat words.length) ++ packed ++ rest) expectedLen =
      .ok (words.flatMap (fun word => le32 (UInt32.ofNat word)) ++ rest) := by
  have stored : (UInt8.ofNat bits).toNat = bits := UInt8.toNat_ofNat_of_lt' (show bits < 2 ^ 8 by omega)
  have number : (UInt32.ofNat words.length).toNat = words.length :=
    UInt32.toNat_ofNat_of_lt' (show words.length < 2 ^ 32 by omega)
  have width : (words.flatMap fun word => le32 (UInt32.ofNat word)).length = words.length * 4 := by
    simp [List.length_flatMap]
  have decoded : decodePacked 64 5 bits words.length (le32 0) emit
      (UInt8.ofNat bits :: le32 (UInt32.ofNat words.length) ++ packed ++ rest) rest.length expectedLen =
        .ok (words.flatMap (fun word => le32 (UInt32.ofNat word)) ++ rest) :=
    decodePacked_ok (by omega) (by omega) (by omega) fit (fun _ _ => rfl) rfl (Nat.le_of_ble_eq_true rfl) packs (by omega)
      (by rw [List.length_append, width, total])
  have long : ¬(UInt8.ofNat bits :: le32 (UInt32.ofNat words.length) ++ packed ++ rest).length < 5 := by
    rw [List.length_append, List.length_append, List.length_cons, le32_length]
    omega
  have first : byteAt (UInt8.ofNat bits :: le32 (UInt32.ofNat words.length) ++ packed ++ rest) 0 =
      .ok (UInt8.ofNat bits) := rfl
  have second : getU32 (UInt8.ofNat bits :: le32 (UInt32.ofNat words.length) ++ packed ++ rest) 1 =
      UInt32.ofNat words.length := getU32_of_slice rfl
  have left : expectedLen - words.length * 4 = rest.length := by omega
  unfold decodeBody
  rw [Except.refuseIf_bind long, first, Except.ok_bind, stored]
  dsimp only
  rw [Except.refuseIf_bind (by omega), u32At_ok (by omega), second, Except.ok_bind, number,
    checkedMul_ok.mpr ⟨by omega, rfl⟩, Except.ok_bind, left, checkedAdd_ok.mpr ⟨by omega, rfl⟩, Except.ok_bind,
    Except.refuseIf_bind (not_not.mpr total)]
  exact decoded

/-- The body of an input is decoded to it. -/
theorem body_lossless {input : List UInt8} (short : input.length < 2 ^ 32) :
    ∃ body, encodeBody input = .ok body ∧ decodeBody body input.length = .ok input := by
  have fit : ∀ word ∈ (wordsOf input).map UInt32.toNat, word < 2 ^ 32 := by
    intro word member
    obtain ⟨value, -, rfl⟩ := List.mem_map.mp member
    exact value.toNat_lt
  have count : ((wordsOf input).map UInt32.toNat).length = input.length / 4 := by
    rw [List.length_map, wordsOf, List.length_map, List.length_range]
  have image : ((wordsOf input).map UInt32.toNat).flatMap (fun word => le32 (UInt32.ofNat word)) =
      input.take (input.length / 4 * 4) := by
    rw [List.flatMap_map, ← wordsOf_bytes]
    simp only [UInt32.ofNat_toNat]
  unfold encodeBody
  dsimp only
  generalize (wordsOf input).map UInt32.toNat = words at fit count image
  have narrow := bitsOf_le 32 (greatest words)
  obtain ⟨packed, packs, -⟩ := packWords_ok (by omega : bitsOf 32 (greatest words) + 8 ≤ 64) (by omega) (fit_greatest fit)
  have decoded := decodeBody_packed narrow (fit_greatest fit) packs
    (by rw [List.length_drop]; omega : (input.drop (input.length / 4 * 4)).length < 4)
    (by rw [List.length_drop]; omega) short
  rw [count, image, List.take_append_drop] at decoded
  refine ⟨_, ?_, decoded⟩
  rw [packs, Except.ok_bind, append_rest]
  rfl

end BitPackCodec

namespace DeltaForCodec

def least (first : UInt64) (rest : List UInt64) : UInt64 :=
  rest.foldl (fun minVal value => if value < minVal then value else minVal) first

theorem least_le (first : UInt64) (rest : List UInt64) : ∀ value ∈ first :: rest, least first rest ≤ value := by
  induction rest generalizing first with
  | nil =>
      intro value member
      rw [List.mem_singleton.mp member]
      exact UInt64.le_refl _
  | cons next rest hypothesis =>
      have bounded := hypothesis (if next < first then next else first)
      have below : least first (next :: rest) ≤ if next < first then next else first := bounded _ List.mem_cons_self
      have both : least first (next :: rest) ≤ first ∧ least first (next :: rest) ≤ next := by
        split at below
        · rename_i smaller
          exact ⟨le_trans below smaller.le, below⟩
        · rename_i larger
          exact ⟨below, le_trans below (not_lt.mp larger)⟩
      intro value member
      rcases List.mem_cons.mp member with rfl | member
      · exact both.1
      · rcases List.mem_cons.mp member with rfl | member
        · exact both.2
        · exact bounded value (List.mem_cons_of_mem _ member)

/-- An input without a whole word stands behind an empty header. -/
def encodeBody (input : List UInt8) : Except Halt (List UInt8) := do
  let u64Count := input.length / 8
  let remainderLen := input.length % 8
  match XorCodec.wordsOf input with
  | [] => return List.replicate 13 0 ++ input
  | first :: rest => do
      let minVal := least first rest
      let offsets ← (first :: rest).mapM fun value => subtract value.toNat minVal.toNat
      let bits := bitsOf 64 (greatest offsets)
      let packed ← packWords 128 bits offsets
      let body := le64 minVal ++ UInt8.ofNat bits :: le32 (UInt32.ofNat u64Count) ++ packed
      return if 0 < remainderLen then body ++ input.drop (u64Count * 8) else body

/-- The decoder finds the offsets and the remainder behind the header of the encoder. -/
theorem decodeBody_packed {minVal : UInt64} {offsets : List Nat} {bits expectedLen : Nat} {packed rest : List UInt8}
    (narrow : bits ≤ 64) (fit : ∀ offset ∈ offsets, offset < 2 ^ bits)
    (bounded : ∀ offset ∈ offsets, minVal.toNat + offset < 2 ^ 64) (packs : packWords 128 bits offsets = .ok packed)
    (few : rest.length < 8) (total : offsets.length * 8 + rest.length = expectedLen) (short : expectedLen < 2 ^ 32) :
    decodeBody (le64 minVal ++ UInt8.ofNat bits :: le32 (UInt32.ofNat offsets.length) ++ packed ++ rest) expectedLen =
      .ok (offsets.flatMap (fun offset => le64 (UInt64.ofNat (minVal.toNat + offset))) ++ rest) := by
  have stored : (UInt8.ofNat bits).toNat = bits := UInt8.toNat_ofNat_of_lt' (show bits < 2 ^ 8 by omega)
  have number : (UInt32.ofNat offsets.length).toNat = offsets.length :=
    UInt32.toNat_ofNat_of_lt' (show offsets.length < 2 ^ 32 by omega)
  have width : (offsets.flatMap fun offset => le64 (UInt64.ofNat (minVal.toNat + offset))).length = offsets.length * 8 := by
    simp [List.length_flatMap]
  have emits : ∀ offset ∈ offsets, emit minVal offset = .ok (le64 (UInt64.ofNat (minVal.toNat + offset))) := by
    intro offset member
    have fits := bounded offset member
    rw [emit, toNat_ofNat (by omega), checkedAdd_ok.mpr ⟨fits, rfl⟩]
    rfl
  have decoded := decodePacked_ok (by omega : bits + 8 ≤ 128) narrow (by omega) fit emits
    (rfl : (le64 minVal ++ UInt8.ofNat bits :: le32 (UInt32.ofNat offsets.length)).length = 13) (Nat.le_refl _) packs few
    (by rw [List.length_append, width, total])
  have long : ¬(le64 minVal ++ UInt8.ofNat bits :: le32 (UInt32.ofNat offsets.length) ++ packed ++ rest).length < 13 := by
    rw [List.length_append, List.length_append, List.length_append, List.length_cons, le64_length, le32_length]
    omega
  have base : getU64 (le64 minVal ++ UInt8.ofNat bits :: le32 (UInt32.ofNat offsets.length) ++ packed ++ rest) 0 =
      minVal := getU64_of_slice rfl
  have byte : byteAt (le64 minVal ++ UInt8.ofNat bits :: le32 (UInt32.ofNat offsets.length) ++ packed ++ rest) 8 =
      .ok (UInt8.ofNat bits) := rfl
  have counter : getU32 (le64 minVal ++ UInt8.ofNat bits :: le32 (UInt32.ofNat offsets.length) ++ packed ++ rest) 9 =
      UInt32.ofNat offsets.length := getU32_of_slice rfl
  have left : expectedLen - offsets.length * 8 = rest.length := by omega
  unfold decodeBody
  rw [Except.refuseIf_bind long, u64At_ok (by omega), base, Except.ok_bind, byte, Except.ok_bind, stored]
  dsimp only
  rw [Except.refuseIf_bind (by omega), u32At_ok (by omega), counter, Except.ok_bind, number,
    checkedMul_ok.mpr ⟨by omega, rfl⟩, Except.ok_bind, left]
  rw [Nat.add_zero, UInt64.ofNat_toNat] at decoded
  exact decoded

/-- An input without a whole word comes back as the remainder of an empty header. -/
theorem decodeBody_empty {input : List UInt8} (few : input.length < 8) :
    decodeBody (List.replicate 13 0 ++ input) input.length = .ok input := by
  have decoded := @decodeBody_packed 0 [] 0 input.length [] input (Nat.zero_le _) (List.forall_mem_nil _)
    (List.forall_mem_nil _) rfl few (by rw [List.length_nil]; omega) (by omega)
  exact decoded

/-- The body of an input is decoded to it. -/
theorem body_lossless {input : List UInt8} (short : input.length < 2 ^ 32) :
    ∃ body, encodeBody input = .ok body ∧ decodeBody body input.length = .ok input := by
  have length := XorCodec.wordsOf_length input
  have bytes := XorCodec.wordsOf_bytes input
  unfold encodeBody
  cases words : XorCodec.wordsOf input with
  | nil =>
      rw [words, List.length_nil] at length
      exact ⟨_, rfl, decodeBody_empty (by omega)⟩
  | cons first rest =>
      rw [words] at length bytes
      have below := least_le first rest
      dsimp only
      generalize least first rest = minVal at below ⊢
      have subtracts : ∀ value ∈ first :: rest, subtract value.toNat minVal.toNat = .ok (value.toNat - minVal.toNat) :=
        fun value member => if_pos (UInt64.le_iff_toNat_le.mp (below value member))
      have fit : ∀ offset ∈ (first :: rest).map (fun value => value.toNat - minVal.toNat), offset < 2 ^ 64 := by
        intro offset member
        obtain ⟨value, -, rfl⟩ := List.mem_map.mp member
        have small := value.toNat_lt
        omega
      have bounded : ∀ offset ∈ (first :: rest).map (fun value => value.toNat - minVal.toNat),
          minVal.toNat + offset < 2 ^ 64 := by
        intro offset member
        obtain ⟨value, present, rfl⟩ := List.mem_map.mp member
        have ordered := UInt64.le_iff_toNat_le.mp (below value present)
        have small := value.toNat_lt
        omega
      have image : ((first :: rest).map fun value => value.toNat - minVal.toNat).flatMap
          (fun offset => le64 (UInt64.ofNat (minVal.toNat + offset))) = input.take (input.length / 8 * 8) := by
        rw [List.flatMap_map, ← bytes]
        apply List.flatMap_congr
        intro value member
        have ordered := UInt64.le_iff_toNat_le.mp (below value member)
        rw [Nat.add_sub_cancel' ordered, UInt64.ofNat_toNat]
      have count : ((first :: rest).map fun value => value.toNat - minVal.toNat).length = input.length / 8 := by
        rw [List.length_map, length]
      rw [Except.mapM_ok subtracts, Except.ok_bind]
      generalize (first :: rest).map (fun value => value.toNat - minVal.toNat) = offsets at fit bounded image count
      have narrow := bitsOf_le 64 (greatest offsets)
      obtain ⟨packed, packs, -⟩ := packWords_ok (by omega : bitsOf 64 (greatest offsets) + 8 ≤ 128) narrow (fit_greatest fit)
      have decoded := decodeBody_packed narrow (fit_greatest fit) bounded packs
        (by rw [List.length_drop]; omega : (input.drop (input.length / 8 * 8)).length < 8)
        (by rw [List.length_drop]; omega) short
      rw [count, image, List.take_append_drop] at decoded
      refine ⟨_, ?_, decoded⟩
      rw [packs, Except.ok_bind, append_rest]
      rfl

end DeltaForCodec

/-- In both loops the buffer and the bytes hold every bit, behind any number of words. Shifts by the width of the buffer
and counts of bits beyond a byte would end them. -/
structure KeepsBits (width bits : Nat) : Prop where
  packing : ∀ words : List Nat, (∀ word ∈ words, word < 2 ^ bits) →
    ∃ reached, words.foldlM (push bits) (Packer.start width) = .ok reached ∧ reached.Holds bits words
  unpacking : ∀ (packed : List UInt8) (count : Nat),
    ∃ reached, advance packed bits count (Unpacker.start width) = .ok reached ∧ reached.Holds packed (bits * count)

theorem KeepsBits.of_room {width bits : Nat} (room : bits + 8 ≤ width) (short : bits ≤ 64) : KeepsBits width bits where
  packing words fit := by
    obtain ⟨reached, packs, holds, -⟩ := pack_holds room short fit
    exact ⟨reached, packs, holds⟩
  unpacking packed count := by
    obtain ⟨reached, advances, holds, -⟩ :=
      advance_holds room short count (Unpacker.Holds.start packed) (Nat.zero_lt_succ 7)
    rw [Nat.zero_add] at holds
    exact ⟨reached, advances, holds⟩

variable [Crc32fast]

def BitPackCodec.encode (input : List UInt8) : Except Halt (List UInt8) := do
  let body ← BitPackCodec.encodeBody input
  frameCompressed .bitPack input.length body

def DeltaForCodec.encode (input : List UInt8) : Except Halt (List UInt8) := do
  let body ← DeltaForCodec.encodeBody input
  frameCompressed .deltaFor input.length body

theorem BitPackCodec.lossless {input : List UInt8} (short : input.length < 2 ^ 32) :
    ∃ compressed, BitPackCodec.encode input = .ok compressed ∧ BitPackCodec.decode compressed input.length = .ok input := by
  obtain ⟨body, encoded, decoded⟩ := BitPackCodec.body_lossless short
  rw [BitPackCodec.encode, encoded, Except.ok_bind, frameCompressed_ok short]
  refine ⟨_, rfl, ?_⟩
  rw [BitPackCodec.decode, verifyFrameAt_eq, verifyFrame_frameCompressed short, Except.ok_bind, decoded]

theorem DeltaForCodec.lossless {input : List UInt8} (short : input.length < 2 ^ 32) :
    ∃ compressed, DeltaForCodec.encode input = .ok compressed ∧
      DeltaForCodec.decode compressed input.length = .ok input := by
  obtain ⟨body, encoded, decoded⟩ := DeltaForCodec.body_lossless short
  rw [DeltaForCodec.encode, encoded, Except.ok_bind, frameCompressed_ok short]
  refine ⟨_, rfl, ?_⟩
  rw [DeltaForCodec.decode, verifyFrameAt_eq, verifyFrame_frameCompressed short, Except.ok_bind, decoded]

/-- Both codecs give every input back that a frame can describe, and no bit is lost at any width of theirs. -/
theorem packing_lossless {input : List UInt8} (short : input.length < 2 ^ 32) :
    (∃ compressed, BitPackCodec.encode input = .ok compressed ∧
      BitPackCodec.decode compressed input.length = .ok input) ∧
    (∃ compressed, DeltaForCodec.encode input = .ok compressed ∧
      DeltaForCodec.decode compressed input.length = .ok input) ∧
    (∀ bits ≤ 32, KeepsBits 64 bits) ∧ ∀ bits ≤ 64, KeepsBits 128 bits := by
  refine ⟨BitPackCodec.lossless short, DeltaForCodec.lossless short, ?_, ?_⟩
  · exact fun bits narrow => KeepsBits.of_room (by omega) (by omega)
  · exact fun bits narrow => KeepsBits.of_room (by omega) narrow

omit [Crc32fast] in
theorem packing_lossless_sample : letI := Crc32fast.ieee
    ([7, 0, 0, 0, 3] : List UInt8).length < 2 ^ 32 ∧ ∃ compressed, BitPackCodec.encode [7, 0, 0, 0, 3] = .ok compressed ∧
      BitPackCodec.decode compressed 5 = .ok [7, 0, 0, 0, 3] := by
  generalize Crc32fast.ieee = checksum
  exact ⟨by decide, (@packing_lossless checksum [7, 0, 0, 0, 3] (by decide)).1⟩

end Temnion.Codec
