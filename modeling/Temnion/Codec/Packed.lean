import Temnion.Codec.Frame

/-
This file unpacks words of a fixed number of bits, as the bit packing and the offsets from a base do.
-/

namespace Temnion.Codec

open LittleEndian Format

section Unpack

variable {width : Nat}

/-- The next byte to load, and the bits that were loaded but not taken. -/
structure Unpacker (width : Nat) where
  byteIdx : Nat
  bitBuf : BitVec width
  bitCount : Nat

def Unpacker.start (width : Nat) : Unpacker width := ⟨0, BitVec.ofNat width 0, 0⟩

/-- A shift of a word by its whole width or more has no result. -/
def shiftedLeft (value : BitVec width) (amount : Nat) : Except Halt (BitVec width) :=
  if amount < width then .ok (value <<< amount) else .error .overflow

def shiftedRight (value : BitVec width) (amount : Nat) : Except Halt (BitVec width) :=
  if amount < width then .ok (value >>> amount) else .error .overflow

/-- The count of the loaded bits is a byte. -/
def addByte (first second : Nat) : Except Halt Nat :=
  if first + second < 2 ^ 8 then .ok (first + second) else .error .overflow

def maskOf (width bits : Nat) : Except Halt (BitVec width) := do
  let one ← shiftedLeft (BitVec.ofNat width 1) bits
  if one = 0 then .error .overflow else return one - 1

/-- Loads bytes until there are enough bits for a word or no bytes left. -/
def refill (packed : List UInt8) (bits : Nat) (state : Unpacker width) : Except Halt (Unpacker width) :=
  if state.bitCount < bits ∧ state.byteIdx < packed.length then do
    let byte ← byteAt packed state.byteIdx
    let shifted ← shiftedLeft (BitVec.ofNat width byte.toNat) state.bitCount
    let bitCount ← addByte state.bitCount 8
    refill packed bits ⟨state.byteIdx + 1, state.bitBuf ||| shifted, bitCount⟩
  else .ok state
termination_by packed.length - state.byteIdx

/-- The loop over the words. The count of the loaded bits stops at zero. -/
def unpack (packed : List UInt8) (bits : Nat) (mask : BitVec width) (emit : Nat → Except Halt (List UInt8)) :
    Nat → Unpacker width → List UInt8 → Except Halt (List UInt8)
  | 0, _, out => .ok out
  | count + 1, state, out => do
      let state ← refill packed bits state
      let word := state.bitBuf &&& mask
      let bitBuf ← shiftedRight state.bitBuf bits
      let bytes ← emit word.toNat
      unpack packed bits mask emit count ⟨state.byteIdx, bitBuf, state.bitCount - bits⟩ (out ++ bytes)

/-- The number that stands at an offset in the bits of the bytes, with zeros behind the last byte. -/
def fieldAt (packed : List UInt8) (bits offset : Nat) : Nat := (valueOf packed >>> offset) % 2 ^ bits

/-- The numbers of a fixed number of bits that follow each other from an offset on. -/
def fieldsFrom (packed : List UInt8) (bits : Nat) : Nat → Nat → List Nat
  | _, 0 => []
  | offset, count + 1 => fieldAt packed bits offset :: fieldsFrom packed bits (offset + bits) count

theorem fieldsFrom_length (packed : List UInt8) (bits offset count : Nat) :
    (fieldsFrom packed bits offset count).length = count := by
  induction count generalizing offset with
  | zero => rfl
  | succ count hypothesis => rw [fieldsFrom, List.length_cons, hypothesis]

theorem fieldsFrom_lt {packed : List UInt8} {bits offset count field : Nat}
    (member : field ∈ fieldsFrom packed bits offset count) : field < 2 ^ bits := by
  induction count generalizing offset with
  | zero => exact absurd member List.not_mem_nil
  | succ count hypothesis =>
      rcases List.mem_cons.mp member with rfl | later
      · exact Nat.mod_lt _ (Nat.two_pow_pos bits)
      · exact hypothesis later

/-- The next byte stands above the ones before it. -/
theorem valueOf_take_succ {packed : List UInt8} {index : Nat} (inside : index < packed.length) :
    valueOf (packed.take (index + 1)) = valueOf (packed.take index) + 2 ^ (8 * index) * (packed.getD index 0).toNat := by
  have next : packed.getD index 0 = packed[index] := by
    rw [List.getD_eq_getElem?_getD, List.getElem?_eq_getElem inside, Option.getD_some]
  rw [List.take_succ_eq_append_getElem inside, valueOf_append, List.length_take_of_le inside.le, next, Nat.pow_mul]
  rfl

theorem valueOf_take_lt (packed : List UInt8) (index : Nat) : valueOf (packed.take index) < 2 ^ (8 * index) := by
  have below := valueOf_lt (packed.take index)
  have fewer : (packed.take index).length ≤ index := List.length_take_le index packed
  rw [Nat.pow_mul]
  exact lt_of_lt_of_le below (Nat.pow_le_pow_right (by decide) fewer)

/-- The lowest bits of the number are those of the first bytes. -/
theorem valueOf_take_mod (packed : List UInt8) (index : Nat) :
    valueOf packed % 2 ^ (8 * index) = valueOf (packed.take index) := by
  rcases Nat.lt_or_ge index packed.length with inside | behind
  · have split := valueOf_append (packed.take index) (packed.drop index)
    rw [List.take_append_drop, List.length_take_of_le inside.le] at split
    rw [split, show (256 : Nat) ^ index = 2 ^ (8 * index) from by rw [Nat.pow_mul], Nat.add_mul_mod_self_left,
      Nat.mod_eq_of_lt (valueOf_take_lt packed index)]
  · rw [List.take_of_length_le behind]
    have below := valueOf_take_lt packed index
    rw [List.take_of_length_le behind] at below
    exact Nat.mod_eq_of_lt below

/-- The buffer holds what was loaded behind the consumed bits. -/
structure Unpacker.Holds (packed : List UInt8) (consumed : Nat) (state : Unpacker width) : Prop where
  inside : state.byteIdx ≤ packed.length
  buffered : state.bitBuf.toNat = valueOf (packed.take state.byteIdx) >>> consumed
  counted : 8 * state.byteIdx = consumed + state.bitCount ∨
    state.byteIdx = packed.length ∧ 8 * state.byteIdx ≤ consumed ∧ state.bitCount = 0

theorem Unpacker.Holds.start (packed : List UInt8) : (Unpacker.start width).Holds packed 0 where
  inside := Nat.zero_le _
  buffered := BitVec.toNat_zero
  counted := Or.inl rfl

variable {packed : List UInt8} {bits consumed : Nat} {state : Unpacker width}

/-- One more byte is put above the bits of the buffer. -/
theorem Unpacker.Holds.load (holds : state.Holds packed consumed) (more : state.byteIdx < packed.length)
    (room : state.bitCount + 8 ≤ width) :
    (⟨state.byteIdx + 1, state.bitBuf ||| BitVec.ofNat width (packed.getD state.byteIdx 0).toNat <<< state.bitCount,
      state.bitCount + 8⟩ : Unpacker width).Holds packed consumed := by
  have counted : 8 * state.byteIdx = consumed + state.bitCount := by
    rcases holds.counted with exact' | ⟨finished, -⟩
    · exact exact'
    · omega
  have byte := (packed.getD state.byteIdx 0).toNat_lt
  have small : (packed.getD state.byteIdx 0).toNat < 2 ^ width :=
    lt_of_lt_of_le byte (Nat.pow_le_pow_right Nat.two_pos (by omega))
  have shifted : (packed.getD state.byteIdx 0).toNat <<< state.bitCount < 2 ^ width := by
    refine lt_of_lt_of_le (Nat.shiftLeft_lt byte) ?_
    exact Nat.pow_le_pow_right Nat.two_pos (by omega)
  have low : state.bitBuf.toNat < 2 ^ state.bitCount := by
    rw [holds.buffered, Nat.shiftRight_eq_div_pow, Nat.div_lt_iff_lt_mul (Nat.two_pow_pos _), ← Nat.pow_add,
      Nat.add_comm, ← counted]
    exact valueOf_take_lt packed state.byteIdx
  exact {
    inside := more
    buffered := by
      dsimp only
      rw [BitVec.toNat_or, BitVec.toNat_shiftLeft, BitVec.toNat_ofNat, Nat.mod_eq_of_lt small, Nat.mod_eq_of_lt shifted,
        Nat.shiftLeft_eq, Nat.mul_comm _ (2 ^ state.bitCount), Nat.or_comm, ← Nat.two_pow_add_eq_or_of_lt low,
        holds.buffered, valueOf_take_succ more, counted, Nat.pow_add, Nat.mul_assoc, Nat.shiftRight_eq_div_pow,
        Nat.shiftRight_eq_div_pow, Nat.add_mul_div_left _ _ (Nat.two_pow_pos consumed), Nat.add_comm]
    counted := Or.inl (by dsimp only; omega) }

/-- Loading stays within the bytes and the machine words and ends with enough bits or behind the last byte. -/
theorem refill_ok (holds : state.Holds packed consumed) (room : bits + 8 ≤ width) (narrow : bits ≤ 64)
    (fewer : state.bitCount < bits + 8) : ∃ filled, refill packed bits state = .ok filled ∧
      filled.Holds packed consumed ∧ filled.bitCount < bits + 8 ∧
        (bits ≤ filled.bitCount ∨ filled.byteIdx = packed.length) := by
  induction left : packed.length - state.byteIdx using Nat.strong_induction_on generalizing state with
  | _ left hypothesis =>
      rw [refill]
      by_cases more : state.bitCount < bits ∧ state.byteIdx < packed.length
      · rw [if_pos more, byteAt_ok more.2, Except.ok_bind, shiftedLeft, if_pos (by omega), Except.ok_bind, addByte,
          if_pos (by omega), Except.ok_bind]
        exact hypothesis _ (by dsimp only; omega) (holds.load more.2 (by omega)) (by dsimp only; omega) rfl
      · rw [if_neg more]
        refine ⟨state, rfl, holds, fewer, ?_⟩
        have inside := holds.inside
        omega

/-- The buffer starts with the number at the consumed bits, when it has enough of them or all that are left. -/
theorem Unpacker.Holds.field (holds : state.Holds packed consumed)
    (filled : bits ≤ state.bitCount ∨ state.byteIdx = packed.length) :
    state.bitBuf.toNat % 2 ^ bits = fieldAt packed bits consumed := by
  rw [holds.buffered, fieldAt]
  by_cases finished : state.byteIdx = packed.length
  · rw [finished, List.take_length]
  · have enough : bits ≤ state.bitCount := filled.resolve_right finished
    have counted : 8 * state.byteIdx = consumed + state.bitCount := by
      rcases holds.counted with exact' | ⟨last, -⟩
      · exact exact'
      · exact absurd last finished
    rw [← valueOf_take_mod]
    apply Nat.eq_of_testBit_eq
    intro index
    rw [Nat.testBit_mod_two_pow, Nat.testBit_mod_two_pow, Nat.testBit_shiftRight, Nat.testBit_shiftRight,
      Nat.testBit_mod_two_pow]
    by_cases low : index < bits
    · rw [decide_eq_true (by omega : consumed + index < 8 * state.byteIdx), Bool.true_and]
    · rw [decide_eq_false low, Bool.false_and, Bool.false_and]

/-- Taking a word consumes its bits. -/
theorem Unpacker.Holds.take (holds : state.Holds packed consumed)
    (filled : bits ≤ state.bitCount ∨ state.byteIdx = packed.length) :
    (⟨state.byteIdx, state.bitBuf >>> bits, state.bitCount - bits⟩ : Unpacker width).Holds packed (consumed + bits) where
  inside := holds.inside
  buffered := by
    dsimp only
    rw [BitVec.toNat_ushiftRight, holds.buffered, Nat.shiftRight_add]
  counted := by
    dsimp only
    have counted := holds.counted
    omega

theorem maskOf_ok (narrow : bits < width) : ∃ mask, maskOf width bits = .ok mask ∧ mask.toNat = 2 ^ bits - 1 := by
  have power : (BitVec.ofNat width 1 <<< bits).toNat = 2 ^ bits := by
    rw [BitVec.toNat_shiftLeft, BitVec.toNat_one (by omega), Nat.shiftLeft_eq, Nat.one_mul,
      Nat.mod_eq_of_lt (Nat.pow_lt_pow_right (by decide) narrow)]
  have positive := Nat.two_pow_pos bits
  have set : ¬BitVec.ofNat width 1 <<< bits = 0 := by
    intro same
    rw [same] at power
    exact absurd power (by rw [BitVec.ofNat_eq_ofNat, BitVec.toNat_zero]; omega)
  refine ⟨BitVec.ofNat width 1 <<< bits - 1, ?_, ?_⟩
  · rw [maskOf, shiftedLeft, if_pos narrow, Except.ok_bind, if_neg set]
    rfl
  · have single : (BitVec.ofNat width 1).toNat = 1 := BitVec.toNat_one (by omega)
    have below : BitVec.ofNat width 1 ≤ BitVec.ofNat width 1 <<< bits := by
      rw [BitVec.le_def, power, single]
      exact positive
    change (BitVec.ofNat width 1 <<< bits - BitVec.ofNat width 1).toNat = _
    rw [BitVec.toNat_sub_of_le below, power, single]

/-- The loop emits the numbers one after the other. -/
theorem unpack_eq {mask : BitVec width} (masks : mask.toNat = 2 ^ bits - 1) (room : bits + 8 ≤ width)
    (narrow : bits ≤ 64) (emit : Nat → Except Halt (List UInt8)) (count : Nat) (out : List UInt8)
    (holds : state.Holds packed consumed) (fewer : state.bitCount < 8) :
    unpack packed bits mask emit count state out =
      ((fieldsFrom packed bits consumed count).mapM emit).map fun parts => out ++ parts.flatten := by
  induction count generalizing state consumed out with
  | zero =>
      change Except.ok out = Except.ok (out ++ [].flatten)
      rw [List.flatten_nil, List.append_nil]
  | succ count hypothesis =>
      obtain ⟨filled, fills, held, below, enough⟩ := refill_ok holds room narrow (by omega)
      have word : (filled.bitBuf &&& mask).toNat = fieldAt packed bits consumed := by
        rw [BitVec.toNat_and, masks, Nat.and_two_pow_sub_one_eq_mod, held.field enough]
      rw [unpack, fills, Except.ok_bind]
      dsimp only
      rw [shiftedRight, if_pos (by omega), Except.ok_bind, word, fieldsFrom, List.mapM_cons]
      cases emit (fieldAt packed bits consumed) with
      | error error => rfl
      | ok bytes =>
          rw [Except.ok_bind, Except.ok_bind, hypothesis (out ++ bytes) (held.take enough) (by dsimp only; omega)]
          cases (fieldsFrom packed bits (consumed + bits) count).mapM emit with
          | error error => rfl
          | ok parts =>
              change Except.ok (out ++ bytes ++ parts.flatten) = Except.ok (out ++ (bytes :: parts).flatten)
              rw [List.flatten_cons, List.append_assoc]

end Unpack

/-- The bytes that so many words of so many bits take. -/
def packedLength (count bits : Nat) : Nat := (count * bits + 7) / 8

/-- Words of no bits take no bytes. -/
def packedBits (count bits : Nat) : Except Halt Nat := if bits = 0 then .ok 0 else checkedMul .overflow count bits

/-- Words of no bits are all alike. -/
def decodeWords (width header packedStop bits count : Nat) (plain : List UInt8)
    (emit : Nat → Except Halt (List UInt8)) (body : List UInt8) : Except Halt (List UInt8) :=
  if bits = 0 then .ok (List.replicate count plain).flatten
  else do
    let packed ← sliceAt body header packedStop
    let mask ← maskOf width bits
    unpack packed bits mask emit count (Unpacker.start width) []

def withRemainder (body : List UInt8) (start stop : Nat) (out : List UInt8) : Except Halt (List UInt8) :=
  if start < stop then do return out ++ (← sliceAt body start stop) else .ok out

/-- The words behind the header of a body and the remainder behind the words. -/
def decodePacked (width header bits count : Nat) (plain : List UInt8) (emit : Nat → Except Halt (List UInt8))
    (body : List UInt8) (remainderLen expectedLen : Nat) : Except Halt (List UInt8) := do
  let packedBits ← packedBits count bits
  let packedStop ← checkedAdd .overflow header ((packedBits + 7) / 8)
  let stop ← checkedAdd .overflow packedStop remainderLen
  refuseIf (body.length < stop) (Halt.error (.incomplete stop body.length))
  let words ← decodeWords width header packedStop bits count plain emit body
  let out ← withRemainder body packedStop stop words
  refuseIf (out.length ≠ expectedLen) (Halt.error (.lengthMismatch expectedLen out.length))
  return out

namespace BitPackCodec

def emit (word : Nat) : Except Halt (List UInt8) := .ok (le32 (UInt32.ofNat word))

def decodeBody (body : List UInt8) (expectedLen : Nat) : Except Halt (List UInt8) := do
  refuseIf (body.length < 5) (Halt.error (.incomplete 5 body.length))
  let bits := (← byteAt body 0).toNat
  refuseIf (32 < bits) (Halt.error (.invalidData "bit-width exceeds 32"))
  let wordCount := (← u32At body 1).toNat
  let wordBytes ← checkedMul .overflow wordCount 4
  let remainderLen := expectedLen - wordBytes
  let total ← checkedAdd .overflow wordBytes remainderLen
  refuseIf (total ≠ expectedLen) (Halt.error (.invalidData "inconsistent word count and length"))
  decodePacked 64 5 bits wordCount (le32 0) emit body remainderLen expectedLen

end BitPackCodec

namespace DeltaForCodec

/-- The offset is added to the base without a check. -/
def emit (minVal : UInt64) (word : Nat) : Except Halt (List UInt8) := do
  let value ← checkedAdd .overflow minVal.toNat (UInt64.ofNat word).toNat
  return le64 (UInt64.ofNat value)

def decodeBody (body : List UInt8) (expectedLen : Nat) : Except Halt (List UInt8) := do
  refuseIf (body.length < 13) (Halt.error (.incomplete 13 body.length))
  let minVal ← u64At body 0
  let bits := (← byteAt body 8).toNat
  refuseIf (64 < bits) (Halt.error (.invalidData "FOR bit-width exceeds 64"))
  let u64Count := (← u32At body 9).toNat
  let wordBytes ← checkedMul .overflow u64Count 8
  let remainderLen := expectedLen - wordBytes
  decodePacked 128 13 bits u64Count (le64 minVal) (emit minVal) body remainderLen expectedLen

end DeltaForCodec

section Robustness

variable {width header bits count remainderLen expectedLen : Nat} {plain body : List UInt8}
  {emit : Nat → Except Halt (List UInt8)}

/-- Behind the words no access leaves the body any more. -/
theorem finish_robust {out : List UInt8} {start stop : Nat} (ordered : start ≤ stop) (inside : stop ≤ body.length) :
    Robust expectedLen (do
      let out ← withRemainder body start stop out
      refuseIf (out.length ≠ expectedLen) (Halt.error (.lengthMismatch expectedLen out.length))
      return out) := by
  have appended : (withRemainder body start stop out).Ends (fun _ => True) Halt.Reported := by
    unfold withRemainder
    split
    · rw [sliceAt_ok ordered inside]
      exact Except.Ends.ok trivial
    · exact Except.Ends.ok trivial
  apply appended.bind
  intro out _
  apply Except.Ends.refuseIf_bind fun _ => trivial
  intro same
  exact Except.Ends.ok (not_not.mp same)

/-- The words are decoded without a halt exactly when each of them is emitted. -/
theorem decodePacked_robust_iff (room : bits + 8 ≤ width) (narrow : bits ≤ 64) (few : count < 2 ^ 32)
    (small : header ≤ 13) (short : remainderLen < 2 ^ 32)
    (halts : ∀ field error, emit field = .error error → ¬error.Reported) :
    Robust expectedLen (decodePacked width header bits count plain emit body remainderLen expectedLen) ↔
      (bits ≠ 0 → header + packedLength count bits + remainderLen ≤ body.length →
        ∀ field ∈ fieldsFrom (slice body header (packedLength count bits)) bits 0 count,
          ∃ bytes, emit field = .ok bytes) := by
  have product : count * bits < 2 ^ 39 := by
    have bound := Nat.mul_le_mul (Nat.le_of_lt few) narrow
    omega
  unfold decodePacked packedBits decodeWords
  by_cases empty : bits = 0
  · refine iff_of_true ?_ fun some' => absurd empty some'
    rw [if_pos empty, Except.ok_bind, checkedAdd_ok.mpr ⟨by omega, rfl⟩, Except.ok_bind,
      checkedAdd_ok.mpr ⟨by omega, rfl⟩, Except.ok_bind]
    apply Except.Ends.refuseIf_bind fun _ => trivial
    intro inside
    rw [if_pos empty, Except.ok_bind]
    exact finish_robust (Nat.le_add_right _ _) (Nat.not_lt.mp inside)
  · have length : (count * bits + 7) / 8 = packedLength count bits := rfl
    have bound : packedLength count bits < 2 ^ 37 := by
      unfold packedLength
      omega
    rw [if_neg empty, checkedMul_ok.mpr ⟨by omega, rfl⟩, Except.ok_bind, length, checkedAdd_ok.mpr ⟨by omega, rfl⟩,
      Except.ok_bind, checkedAdd_ok.mpr ⟨by omega, rfl⟩, Except.ok_bind]
    by_cases cut : body.length < header + packedLength count bits + remainderLen
    · rw [Except.refuseIf_bind_error cut]
      exact iff_of_true (Except.Ends.error trivial) fun _ complete => absurd cut (Nat.not_lt.mpr complete)
    · have inside := Nat.not_lt.mp cut
      obtain ⟨mask, masks, value⟩ := maskOf_ok (by omega : bits < width)
      rw [Except.refuseIf_bind cut, if_neg empty, sliceAt_ok (Nat.le_add_right _ _) (by omega), Except.ok_bind, masks,
        Except.ok_bind, Nat.add_sub_cancel_left,
        unpack_eq value room narrow emit count [] (Unpacker.Holds.start _) (Nat.zero_lt_succ 7)]
      rcases Except.mapM_cases emit (fieldsFrom (slice body header (packedLength count bits)) bits 0 count) with
        ⟨parts, emitted, all⟩ | ⟨error, stops, field, member, fails⟩
      · rw [emitted]
        exact iff_of_true (finish_robust (Nat.le_add_right _ _) inside) fun _ _ => all
      · rw [stops]
        refine iff_of_false (fun robust => halts field error fails (robust.2 error rfl)) fun all => ?_
        obtain ⟨bytes, emits⟩ := all empty inside field member
        exact absurd (fails.symm.trans emits) (by nofun)

/-- Packed words always fit. -/
theorem BitPackCodec.decodeBody_robust (short : expectedLen < 2 ^ 32) (body : List UInt8) :
    Robust expectedLen (BitPackCodec.decodeBody body expectedLen) := by
  unfold BitPackCodec.decodeBody
  apply Except.Ends.refuseIf_bind fun _ => trivial
  intro long
  have enough : 5 ≤ body.length := Nat.not_lt.mp long
  rw [byteAt_ok (by omega : 0 < body.length), Except.ok_bind]
  dsimp only
  apply Except.Ends.refuseIf_bind fun _ => trivial
  intro narrow
  have few := (getU32 body 1).toNat_lt
  rw [u32At_ok (by omega : 1 + 4 ≤ body.length), Except.ok_bind, checkedMul_ok.mpr ⟨by omega, rfl⟩, Except.ok_bind,
    checkedAdd_ok.mpr ⟨by omega, rfl⟩, Except.ok_bind]
  apply Except.Ends.refuseIf_bind fun _ => trivial
  intro _
  have emits : ∀ field error, BitPackCodec.emit field = .error error → ¬error.Reported :=
    fun _ _ fails => absurd fails (by nofun)
  exact (decodePacked_robust_iff (by omega) (by omega) few (by decide) (by omega) emits).mpr
    fun _ _ field _ => ⟨_, rfl⟩

namespace DeltaForCodec

/-- Every offset of a complete body leads from the base to a word. -/
def Bounded (body : List UInt8) (expectedLen : Nat) : Prop :=
  let bits := (body.getD 8 0).toNat
  let count := (getU32 body 9).toNat
  13 ≤ body.length → bits ≤ 64 → bits ≠ 0 →
    13 + packedLength count bits + (expectedLen - count * 8) ≤ body.length →
      ∀ offset ∈ fieldsFrom (slice body 13 (packedLength count bits)) bits 0 count,
        (getU64 body 0).toNat + offset < 2 ^ 64

theorem emit_ok {minVal : UInt64} {offset : Nat} (narrow : offset < 2 ^ 64) :
    (∃ bytes, DeltaForCodec.emit minVal offset = .ok bytes) ↔ minVal.toNat + offset < 2 ^ 64 := by
  rw [DeltaForCodec.emit, toNat_ofNat narrow]
  by_cases fits : minVal.toNat + offset < 2 ^ 64
  · rw [checkedAdd_ok.mpr ⟨fits, rfl⟩]
    exact iff_of_true ⟨_, rfl⟩ fits
  · refine iff_of_false ?_ fits
    rintro ⟨bytes, emits⟩
    rw [Except.bind_eq_ok] at emits
    obtain ⟨value, sum, -⟩ := emits
    exact fits (checkedAdd_ok.mp sum).1

theorem emit_overflows {minVal : UInt64} {offset : Nat} {error : Halt} (fails : DeltaForCodec.emit minVal offset = .error error) :
    ¬error.Reported := by
  rw [DeltaForCodec.emit, Except.bind_eq_error] at fails
  rcases fails with sum | ⟨value, -, impossible⟩
  · rw [checkedAdd_error sum]
    exact id
  · exact absurd impossible (by nofun)

/-- The decoder halts exactly when an offset leads beyond the words. -/
theorem decodeBody_robust_iff (short : expectedLen < 2 ^ 32) (body : List UInt8) :
    Robust expectedLen (decodeBody body expectedLen) ↔ Bounded body expectedLen := by
  unfold decodeBody Bounded
  dsimp only
  by_cases cut : body.length < 13
  · rw [Except.refuseIf_bind_error cut]
    exact iff_of_true (Except.Ends.error trivial) fun enough => absurd cut (Nat.not_lt.mpr enough)
  · have enough : 13 ≤ body.length := Nat.not_lt.mp cut
    rw [Except.refuseIf_bind cut, u64At_ok (by omega : 0 + 8 ≤ body.length), Except.ok_bind,
      byteAt_ok (by omega : 8 < body.length), Except.ok_bind]
    by_cases wide : 64 < (body.getD 8 0).toNat
    · rw [Except.refuseIf_bind_error wide]
      exact iff_of_true (Except.Ends.error trivial) fun _ narrow => absurd wide (Nat.not_lt.mpr narrow)
    · have narrow := Nat.not_lt.mp wide
      have few := (getU32 body 9).toNat_lt
      rw [Except.refuseIf_bind wide, u32At_ok (by omega : 9 + 4 ≤ body.length), Except.ok_bind,
        checkedMul_ok.mpr ⟨by omega, rfl⟩, Except.ok_bind,
        decodePacked_robust_iff (by omega : (body.getD 8 0).toNat + 8 ≤ 128) narrow few (Nat.le_refl _) (by omega) fun _ _ => emit_overflows]
      have bound : ∀ offset ∈ fieldsFrom (slice body 13 (packedLength (getU32 body 9).toNat (body.getD 8 0).toNat))
          (body.getD 8 0).toNat 0 (getU32 body 9).toNat, offset < 2 ^ 64 := fun offset member =>
        lt_of_lt_of_le (fieldsFrom_lt member) (Nat.pow_le_pow_right Nat.two_pos narrow)
      constructor
      · intro all _ _ some' complete offset member
        exact (emit_ok (bound offset member)).mp (all some' complete offset member)
      · intro all some' complete offset member
        exact (emit_ok (bound offset member)).mpr (all enough narrow some' complete offset member)

end DeltaForCodec

end Robustness

variable [Crc32fast]

def BitPackCodec.decode (compressed : List UInt8) (expectedLen : Nat) : Except Halt (List UInt8) := do
  let body ← verifyFrameAt .bitPack compressed expectedLen
  BitPackCodec.decodeBody body expectedLen

def DeltaForCodec.decode (compressed : List UInt8) (expectedLen : Nat) : Except Halt (List UInt8) := do
  let body ← verifyFrameAt .deltaFor compressed expectedLen
  DeltaForCodec.decodeBody body expectedLen

end Temnion.Codec
