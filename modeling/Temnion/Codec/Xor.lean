import Temnion.Codec.BitStream

/-
This file encodes the differences of consecutive words and says which byte strings it gives back.
-/

namespace Temnion.Codec

open LittleEndian Format Bits

/-- A byte cannot hold a negative difference. -/
def subtract (first second : Nat) : Except Halt Nat :=
  if second ≤ first then .ok (first - second) else .error .overflow

def leadingZeros (value : UInt64) : Nat := value.toBitVec.clz.toNat

def trailingZeros (value : UInt64) : Nat := value.toBitVec.ctz.toNat

namespace XorCodec

/-- The whole words of the input, without the remainder. -/
def wordsOf (input : List UInt8) : List UInt64 := (List.range (input.length / 8)).map fun index => getU64 input (8 * index)

def leading (xor : UInt64) : Nat := min (leadingZeros xor) 31

def trailing (xor : UInt64) : Nat := min (trailingZeros xor) 31

def encodeXor (writer : BitWriter) (xor : UInt64) : Except Halt BitWriter :=
  if xor = 0 then .ok (writer.writeBit 0)
  else do
    let writer := writer.writeBit 1
    let length ← subtract (← subtract 64 (leading xor)) (trailing xor)
    let writer ← writer.writeBits (UInt64.ofNat (leading xor)) 5
    let writer ← writer.writeBits (UInt64.ofNat length) 6
    let meaningful ← shiftRight xor (trailing xor)
    writer.writeBits meaningful length

def encodeWords : UInt64 → List UInt64 → BitWriter → Except Halt BitWriter
  | _, [], writer => .ok writer
  | prev, curr :: words, writer => do
      let writer ← encodeXor writer (curr ^^^ prev)
      encodeWords curr words writer

def decodeWord (reader : BitReader) (prev : UInt64) : Except Halt (UInt64 × BitReader) := do
  let (bit, reader) ← reader.readBit
  if bit = 0 then return (prev, reader)
  else
    let (leading, reader) ← reader.readBits 5
    let (length, reader) ← reader.readBits 6
    let (meaningful, reader) ← reader.readBits length.toNat
    let trailing ← subtract (← subtract 64 leading.toNat) length.toNat
    let xor ← shiftLeft meaningful trailing
    return (prev ^^^ xor, reader)

def decodeWords : Nat → UInt64 → BitReader → List UInt8 → Except Halt (List UInt8)
  | 0, _, _, out => .ok out
  | count + 1, prev, reader, out => do
      let (curr, reader) ← decodeWord reader prev
      decodeWords count curr reader (out ++ le64 curr)

section Words

/-- A difference with its highest and its lowest bit fills the whole word. -/
def Spans (xor : UInt64) : Prop := 2 ^ 63 ≤ xor.toNat ∧ xor.toNat.testBit 0 = true

instance (xor : UInt64) : Decidable (Spans xor) := by unfold Spans; infer_instance

/-- The bits of one difference. The field of the length has six bits. -/
def xorBits (xor : UInt64) : List Bool :=
  if xor = 0 then [false]
  else [true] ++ bits 5 (leading xor) ++ bits 6 (64 - leading xor - trailing xor) ++
    bits (64 - leading xor - trailing xor) (xor.toNat >>> trailing xor)

variable {xor : UInt64}

theorem toNat_lt_leading (xor : UInt64) : xor.toNat < 2 ^ (64 - leading xor) := by
  have small : xor.toBitVec.toNat < 2 ^ (64 - leadingZeros xor) := BitVec.toNat_lt_two_pow_sub_clz
  have fewer : leading xor ≤ leadingZeros xor := Nat.min_le_left _ _
  exact lt_of_lt_of_le small (Nat.pow_le_pow_right Nat.two_pos (by omega))

theorem testBit_below_trailing {index : Nat} (below : index < trailing xor) : xor.toNat.testBit index = false := by
  have fewer : index < trailingZeros xor := lt_of_lt_of_le below (Nat.min_le_left _ _)
  have unset : xor.toBitVec.getLsbD index = false := BitVec.getLsbD_false_of_lt_ctz fewer
  exact unset

theorem leading_eq_zero_iff : leading xor = 0 ↔ 2 ^ 63 ≤ xor.toNat := by
  have none' : leadingZeros xor = 0 ↔ 2 ^ 63 ≤ xor.toNat := BitVec.clz_eq_zero_iff (by decide)
  rw [← none', leading]
  omega

theorem trailing_eq_zero_iff (different : xor ≠ 0) : trailing xor = 0 ↔ xor.toNat.testBit 0 = true := by
  have nonzero : xor.toBitVec ≠ 0#64 := fun same => different (UInt64.toBitVec_inj.mp same)
  constructor
  · intro none'
    have exact' : xor.toBitVec.ctz.toNat = 0 := by
      unfold trailing trailingZeros at none'
      omega
    have set : xor.toBitVec.getLsbD xor.toBitVec.ctz.toNat = true := BitVec.getLsbD_true_ctz_of_ne_zero nonzero
    rw [exact'] at set
    exact set
  · intro set
    by_contra some'
    rw [testBit_below_trailing (Nat.pos_of_ne_zero some')] at set
    contradiction

/-- The length of the meaningful bits overflows its field exactly for a difference that fills the word. -/
theorem length_eq_iff (different : xor ≠ 0) : 64 - leading xor - trailing xor = 64 ↔ Spans xor := by
  have first : leading xor ≤ 31 := Nat.min_le_right _ _
  rw [Spans, ← leading_eq_zero_iff, ← trailing_eq_zero_iff different]
  omega

variable {start : List UInt8} {written : List Bool} {writer : BitWriter}

theorem encodeXor_ok (holds : writer.Holds start written) (xor : UInt64) :
    ∃ reached, encodeXor writer xor = .ok reached ∧ reached.Holds start (written ++ xorBits xor) := by
  unfold encodeXor xorBits
  by_cases zero : xor = 0
  · rw [if_pos zero, if_pos zero]
    exact ⟨_, rfl, holds.writeBit 0⟩
  · have first : leading xor ≤ 31 := Nat.min_le_right _ _
    have last : trailing xor ≤ 31 := Nat.min_le_right _ _
    obtain ⟨second, writesSecond, holdsSecond⟩ :=
      (holds.writeBit 1).writeBits (UInt64.ofNat (leading xor)) (by decide : 5 ≤ 64)
    obtain ⟨third, writesThird, holdsThird⟩ :=
      holdsSecond.writeBits (UInt64.ofNat (64 - leading xor - trailing xor)) (by decide : 6 ≤ 64)
    obtain ⟨fourth, writesFourth, holdsFourth⟩ :=
      holdsThird.writeBits (xor >>> UInt64.ofNat (trailing xor)) (by omega : 64 - leading xor - trailing xor ≤ 64)
    have shifted : (xor >>> UInt64.ofNat (trailing xor)).toNat = xor.toNat >>> trailing xor := by
      rw [UInt64.toNat_shiftRight, toNat_ofNat (by omega), Nat.mod_eq_of_lt (by omega : trailing xor < 64)]
    rw [toNat_ofNat (by omega), toNat_ofNat (by omega), shifted] at holdsFourth
    refine ⟨fourth, ?_, ?_⟩
    · rw [if_neg zero, subtract, if_pos (by omega : leading xor ≤ 64), Except.ok_bind, subtract,
        if_pos (by omega : trailing xor ≤ 64 - leading xor), Except.ok_bind, writesSecond, Except.ok_bind, writesThird,
        Except.ok_bind, shiftRight, if_pos (by omega : trailing xor < 64), Except.ok_bind, writesFourth]
    · rw [if_neg zero]
      simp only [← List.append_assoc]
      exact holdsFourth

/-- The bits of the differences of consecutive words. -/
def wordsBits : UInt64 → List UInt64 → List Bool
  | _, [] => []
  | prev, curr :: words => xorBits (curr ^^^ prev) ++ wordsBits curr words

theorem encodeWords_ok (holds : writer.Holds start written) (prev : UInt64) (words : List UInt64) :
    ∃ reached, encodeWords prev words writer = .ok reached ∧ reached.Holds start (written ++ wordsBits prev words) := by
  induction words generalizing prev writer written with
  | nil => exact ⟨writer, rfl, by rw [wordsBits, List.append_nil]; exact holds⟩
  | cons curr words hypothesis =>
      obtain ⟨middle, encodes, held⟩ := encodeXor_ok holds (curr ^^^ prev)
      obtain ⟨reached, encodesRest, heldRest⟩ := hypothesis held curr
      refine ⟨reached, ?_, ?_⟩
      · rw [encodeWords, encodes, Except.ok_bind, encodesRest]
      · rw [wordsBits, ← List.append_assoc]
        exact heldRest

/-- Shifting the meaningful bits back restores the difference. -/
theorem shifted_back (xor : UInt64) :
    UInt64.ofNat ((xor.toNat >>> trailing xor) % 2 ^ (64 - leading xor - trailing xor)) <<<
      UInt64.ofNat (trailing xor) = xor := by
  have first : leading xor ≤ 31 := Nat.min_le_right _ _
  have last : trailing xor ≤ 31 := Nat.min_le_right _ _
  have narrow : xor.toNat >>> trailing xor < 2 ^ (64 - leading xor - trailing xor) := by
    rw [Nat.shiftRight_eq_div_pow, Nat.div_lt_iff_lt_mul (Nat.two_pow_pos _), ← Nat.pow_add,
      Nat.sub_add_cancel (by omega)]
    exact toNat_lt_leading xor
  have small : xor.toNat >>> trailing xor < 2 ^ 64 :=
    lt_of_le_of_lt (Nat.shiftRight_le _ _) xor.toNat_lt
  apply UInt64.toNat_inj.mp
  rw [UInt64.toNat_shiftLeft, toNat_ofNat (by omega : trailing xor < 2 ^ 64), Nat.mod_eq_of_lt narrow, toNat_ofNat small,
    Nat.mod_eq_of_lt (by omega : trailing xor < 64)]
  apply Nat.eq_of_testBit_eq
  intro index
  rw [Nat.testBit_mod_two_pow, Nat.testBit_shiftLeft, Nat.testBit_shiftRight]
  by_cases inside : index < 64
  · rw [decide_eq_true inside, Bool.true_and]
    by_cases above : trailing xor ≤ index
    · rw [decide_eq_true above, Bool.true_and, Nat.add_sub_of_le above]
    · rw [decide_eq_false above, Bool.false_and, testBit_below_trailing (Nat.not_le.mp above)]
  · rw [decide_eq_false inside, Bool.false_and]
    symm
    exact Nat.testBit_lt_two_pow (lt_of_lt_of_le xor.toNat_lt (Nat.pow_le_pow_right Nat.two_pos (Nat.not_lt.mp inside)))

variable {reader : BitReader} {rest : List Bool}

/-- The decoder takes a difference back unless it fills the word. -/
theorem decodeWord_eq (prev : UInt64) (ahead : reader.remaining = xorBits xor ++ rest) :
    if Spans xor then decodeWord reader prev = .error .overflow
    else ∃ reached, decodeWord reader prev = .ok (prev ^^^ xor, reached) ∧ reached.remaining = rest := by
  unfold xorBits at ahead
  by_cases zero : xor = 0
  · subst zero
    rw [if_pos rfl, List.singleton_append] at ahead
    obtain ⟨reached, reads, left⟩ := BitReader.readBit_ok ahead
    rw [if_neg (by decide)]
    refine ⟨reached, ?_, left⟩
    unfold decodeWord
    rw [reads, UInt64.xor_zero]
    rfl
  · rw [if_neg zero] at ahead
    simp only [List.append_assoc, List.singleton_append] at ahead
    have first : leading xor ≤ 31 := Nat.min_le_right _ _
    have last : trailing xor ≤ 31 := Nat.min_le_right _ _
    obtain ⟨second, reads, left⟩ := BitReader.readBit_ok ahead
    obtain ⟨third, readsLeading, left⟩ := BitReader.readBits_ok (by decide) left
    obtain ⟨fourth, readsLength, left⟩ := BitReader.readBits_ok (by decide) left
    rw [Nat.mod_eq_of_lt (by omega : leading xor < 2 ^ 5)] at readsLeading
    have one : ¬UInt8.ofNat true.toNat = 0 := by decide
    unfold decodeWord
    rw [reads, Except.ok_bind]
    dsimp only
    rw [if_neg one, readsLeading, Except.ok_bind]
    dsimp only
    rw [readsLength, Except.ok_bind]
    dsimp only
    rw [toNat_ofNat (by omega : leading xor < 2 ^ 64), toNat_ofNat (by omega)]
    have less : subtract 64 (leading xor) = .ok (64 - leading xor) := if_pos (by omega)
    rw [less]
    by_cases spans : Spans xor
    · have full := (length_eq_iff zero).mpr spans
      have none' : leading xor = 0 := leading_eq_zero_iff.mpr spans.1
      rw [if_pos spans, full, none']
      rfl
    · have short : 64 - leading xor - trailing xor ≠ 64 := fun full => spans ((length_eq_iff zero).mp full)
      rw [if_neg spans, Nat.mod_eq_of_lt (by omega : 64 - leading xor - trailing xor < 2 ^ 6)]
      obtain ⟨reached, readsMeaningful, left⟩ := BitReader.readBits_ok (by omega) left
      refine ⟨reached, ?_, left⟩
      rw [readsMeaningful, Except.ok_bind]
      dsimp only
      rw [Except.ok_bind, subtract, if_pos (by omega : 64 - leading xor - trailing xor ≤ 64 - leading xor), Except.ok_bind,
        Nat.sub_sub_self (by omega : trailing xor ≤ 64 - leading xor), shiftLeft, if_pos (by omega : trailing xor < 64),
        Except.ok_bind, shifted_back]
      rfl

/-- No two consecutive words differ in both their highest and their lowest bit. -/
def Narrow (words : List UInt64) : Prop := words.IsChain fun prev curr => ¬Spans (curr ^^^ prev)

/-- The decoder takes the words back unless one of the differences fills a word. -/
theorem decodeWords_eq (prev : UInt64) (words : List UInt64) (out : List UInt8)
    (ahead : reader.remaining = wordsBits prev words ++ rest) :
    (Narrow (prev :: words) → decodeWords words.length prev reader out = .ok (out ++ words.flatMap le64)) ∧
      (¬Narrow (prev :: words) → decodeWords words.length prev reader out = .error .overflow) := by
  induction words generalizing prev reader out with
  | nil => exact ⟨fun _ => by rw [List.flatMap_nil, List.append_nil]; rfl, fun wide => absurd (List.isChain_singleton _) wide⟩
  | cons curr words hypothesis =>
      rw [wordsBits, List.append_assoc] at ahead
      have decoded := decodeWord_eq prev ahead
      rw [List.length_cons, decodeWords, Narrow, List.isChain_cons_cons]
      by_cases spans : Spans (curr ^^^ prev)
      · rw [if_pos spans] at decoded
        rw [decoded]
        exact ⟨fun narrow => absurd spans narrow.1, fun _ => rfl⟩
      · rw [if_neg spans] at decoded
        obtain ⟨reached, decodes, left⟩ := decoded
        have same : prev ^^^ (curr ^^^ prev) = curr := by
          rw [UInt64.xor_comm curr, ← UInt64.xor_assoc, UInt64.xor_self, UInt64.zero_xor]
        rw [decodes, same, Except.ok_bind]
        dsimp only
        obtain ⟨right, wrong⟩ := hypothesis curr (out ++ le64 curr) left
        refine ⟨fun narrow => ?_, fun wide => wrong fun narrow => wide ⟨spans, narrow⟩⟩
        rw [right narrow.2, List.flatMap_cons, List.append_assoc]

/-- The words of an input are its bytes without the remainder. -/
theorem wordsOf_bytes (input : List UInt8) : (wordsOf input).flatMap le64 = input.take (input.length / 8 * 8) := by
  have grown : ∀ count, count ≤ input.length / 8 →
      ((List.range count).map fun index => getU64 input (8 * index)).flatMap le64 = input.take (count * 8) := by
    intro count
    induction count with
    | zero => exact fun _ => rfl
    | succ count hypothesis =>
        intro inside
        rw [List.range_succ, List.map_append, List.flatMap_append, hypothesis (Nat.le_of_succ_le inside), List.map_singleton,
          List.flatMap_singleton, le64_getU64 (by omega), Nat.add_one_mul count 8, List.take_add, slice, Nat.mul_comm 8 count]
  exact grown _ (Nat.le_refl _)

end Words

/-- The body behind the count and the first word, and the remainder of the input. -/
def encodeBody (input : List UInt8) : Except Halt (List UInt8) := do
  let count := input.length / 8
  let remainder := input.length % 8
  let start := le32 (UInt32.ofNat count)
  let body ← match wordsOf input with
    | [] => pure start
    | first :: words => do
        let writer ← encodeWords first words (BitWriter.new (start ++ le64 first))
        pure writer.flush
  return if 0 < remainder then body ++ input.drop (count * 8) else body

def decodeBody (body : List UInt8) (expectedLen : Nat) : Except Halt (List UInt8) := do
  refuseIf (body.length < 4) (Halt.error (.incomplete 4 body.length))
  let count := (getU32 body 0).toNat
  let remainder := expectedLen - count * 8
  let out ←
    if 0 < count then do
      refuseIf (body.length < 12) (Halt.error (.incomplete 12 body.length))
      let first := getU64 body 4
      decodeWords (count - 1) first (BitReader.new (body.drop 12)) (le64 first)
    else pure []
  let out := if 0 < remainder then out ++ body.drop (body.length - remainder) else out
  refuseIf (out.length ≠ expectedLen) (Halt.error (.lengthMismatch expectedLen out.length))
  return out

section Bodies

variable {input : List UInt8}

theorem wordsOf_length (input : List UInt8) : (wordsOf input).length = input.length / 8 := by
  rw [wordsOf, List.length_map, List.length_range]

/-- An input without a remainder ends with its words. -/
theorem append_remainder (body input : List UInt8) :
    (if 0 < input.length % 8 then body ++ input.drop (input.length / 8 * 8) else body) =
      body ++ input.drop (input.length / 8 * 8) := by
  by_cases some' : 0 < input.length % 8
  · rw [if_pos some']
  · rw [if_neg some', List.drop_eq_nil_of_le (by omega), List.append_nil]

theorem encodeBody_nil (empty : wordsOf input = []) :
    encodeBody input = .ok (le32 (UInt32.ofNat (input.length / 8)) ++ input.drop (input.length / 8 * 8)) := by
  unfold encodeBody
  rw [empty]
  exact congrArg Except.ok (append_remainder _ _)

theorem encodeBody_cons {first : UInt64} {words : List UInt64} (some' : wordsOf input = first :: words) :
    ∃ bytes padding, byteBits bytes = wordsBits first words ++ padding ∧
      encodeBody input = .ok (le32 (UInt32.ofNat (input.length / 8)) ++ le64 first ++ bytes ++
        input.drop (input.length / 8 * 8)) := by
  obtain ⟨writer, encodes, holds⟩ :=
    encodeWords_ok (BitWriter.holds_new (le32 (UInt32.ofNat (input.length / 8)) ++ le64 first)) first words
  obtain ⟨bytes, padding, flushes, same, _⟩ := holds.flush
  refine ⟨bytes, padding, same, ?_⟩
  unfold encodeBody
  rw [some']
  dsimp only
  rw [encodes, Except.ok_bind, flushes]
  exact congrArg Except.ok (append_remainder _ _)

/-- The remainder follows what the words gave back. -/
theorem finish_ok {out before : List UInt8} (words : out = input.take (input.length / 8 * 8)) :
    (if 0 < input.length - input.length / 8 * 8 then out ++ (before ++ input.drop (input.length / 8 * 8)).drop
      ((before ++ input.drop (input.length / 8 * 8)).length - (input.length - input.length / 8 * 8)) else out) = input := by
  have cut : (before ++ input.drop (input.length / 8 * 8)).length - (input.length - input.length / 8 * 8) =
      before.length := by
    rw [List.length_append, List.length_drop, Nat.add_sub_cancel]
  by_cases some' : 0 < input.length - input.length / 8 * 8
  · rw [if_pos some', cut, List.drop_left, words, List.take_append_drop]
  · rw [if_neg some', words, List.take_of_length_le (by omega)]

/-- The decoder gives an input back unless two consecutive words differ in their highest and lowest bits. -/
theorem decodeBody_encodeBody (short : input.length < 2 ^ 32) : ∃ body, encodeBody input = .ok body ∧
    (Narrow (wordsOf input) → decodeBody body input.length = .ok input) ∧
      (¬Narrow (wordsOf input) → decodeBody body input.length = .error .overflow) := by
  have count : (UInt32.ofNat (input.length / 8)).toNat = input.length / 8 :=
    UInt32.toNat_ofNat_of_lt' (lt_of_le_of_lt (Nat.div_le_self _ _) short)
  have length := wordsOf_length input
  have bytes := wordsOf_bytes input
  cases spelled : wordsOf input with
  | nil =>
      rw [spelled, List.length_nil] at length
      rw [spelled, List.flatMap_nil] at bytes
      refine ⟨_, encodeBody_nil spelled, ?_⟩
      have decodes : decodeBody (le32 (UInt32.ofNat (input.length / 8)) ++ input.drop (input.length / 8 * 8))
          input.length = .ok input := by
        unfold decodeBody
        rw [Except.refuseIf_bind (by rw [List.length_append, le32_length]; omega),
          getU32_of_slice (slice_append_left (le32_length _)), count]
        dsimp only
        rw [if_neg (by omega : ¬0 < input.length / 8), pure_bind, finish_ok bytes,
          Except.refuseIf_bind (not_not.mpr rfl)]
        rfl
      exact ⟨fun _ => decodes, fun wide => absurd List.isChain_nil wide⟩
  | cons first words =>
      rw [spelled, List.length_cons] at length
      rw [spelled, List.flatMap_cons] at bytes
      obtain ⟨stream, padding, streamed, encodes⟩ := encodeBody_cons spelled
      have ahead : (BitReader.new (stream ++ input.drop (input.length / 8 * 8))).remaining =
          wordsBits first words ++ (padding ++ byteBits (input.drop (input.length / 8 * 8))) := by
        rw [BitReader.remaining_new, byteBits_append, streamed, List.append_assoc]
      obtain ⟨right, wrong⟩ := decodeWords_eq first words (le64 first) ahead
      have others : input.length / 8 - 1 = words.length := by omega
      have long : 12 ≤ (le32 (UInt32.ofNat (input.length / 8)) ++ le64 first ++ stream ++
          input.drop (input.length / 8 * 8)).length := by
        rw [List.length_append, List.length_append, List.length_append, le32_length, le64_length]
        omega
      have starts : getU32 (le32 (UInt32.ofNat (input.length / 8)) ++ le64 first ++ stream ++
          input.drop (input.length / 8 * 8)) 0 = UInt32.ofNat (input.length / 8) := getU32_of_slice rfl
      have continues : getU64 (le32 (UInt32.ofNat (input.length / 8)) ++ le64 first ++ stream ++
          input.drop (input.length / 8 * 8)) 4 = first := getU64_of_slice rfl
      have leaves : (le32 (UInt32.ofNat (input.length / 8)) ++ le64 first ++ stream ++
          input.drop (input.length / 8 * 8)).drop 12 = stream ++ input.drop (input.length / 8 * 8) := rfl
      refine ⟨_, encodes, fun narrow => ?_, fun wide => ?_⟩
      · unfold decodeBody
        rw [Except.refuseIf_bind (by omega), starts, count]
        dsimp only
        rw [if_pos (by omega : 0 < input.length / 8), Except.refuseIf_bind (by omega), continues, leaves, others,
          right narrow, Except.ok_bind, finish_ok bytes, Except.refuseIf_bind (not_not.mpr rfl)]
        rfl
      · unfold decodeBody
        rw [Except.refuseIf_bind (by omega), starts, count]
        dsimp only
        rw [if_pos (by omega : 0 < input.length / 8), Except.refuseIf_bind (by omega), continues, leaves, others,
          wrong wide, Except.error_bind]

end Bodies

variable [Crc32fast]

def encode (input : List UInt8) : Except Halt (List UInt8) := do
  let body ← encodeBody input
  frameCompressed .xor input.length body

def decode (compressed : List UInt8) (expectedLen : Nat) : Except Halt (List UInt8) := do
  let body ← verifyFrame .xor compressed expectedLen
  decodeBody body expectedLen

/-- What the codec gives back for its own encoding. -/
def roundTrip (input : List UInt8) : Except Halt (List UInt8) := do
  let compressed ← encode input
  decode compressed input.length

theorem roundTrip_cases {input : List UInt8} (short : input.length < 2 ^ 32) :
    (Narrow (wordsOf input) → roundTrip input = .ok input) ∧
      (¬Narrow (wordsOf input) → roundTrip input = .error .overflow) := by
  obtain ⟨body, encodes, outcomes⟩ := decodeBody_encodeBody short
  unfold roundTrip encode decode
  rw [encodes, Except.ok_bind, frameCompressed_ok short, Except.ok_bind, verifyFrame_frameCompressed short,
    Except.ok_bind]
  exact outcomes

/-- An input comes back without an overflow exactly when no two consecutive words differ in both their highest and
their lowest bit. -/
theorem roundTrip_ok_iff {input : List UInt8} (short : input.length < 2 ^ 32) :
    roundTrip input = .ok input ↔ Narrow (wordsOf input) := by
  obtain ⟨right, wrong⟩ := roundTrip_cases short
  constructor
  · intro exact'
    by_contra wide
    rw [wrong wide] at exact'
    contradiction
  · exact right

end XorCodec

theorem XorCodec.roundTrip_ok_iff_sample : letI := Crc32fast.ieee
    XorCodec.roundTrip [1, 2, 3] = .ok [1, 2, 3] ↔ XorCodec.Narrow (XorCodec.wordsOf [1, 2, 3]) := by
  generalize Crc32fast.ieee = checksum
  exact XorCodec.roundTrip_ok_iff (by decide)

/-- The second word differs from the first one in its highest and in its lowest bit. -/
theorem XorCodec.roundTrip_loses_input : letI := Crc32fast.ieee
    ∃ input : List UInt8, input.length < 2 ^ 32 ∧ XorCodec.roundTrip input ≠ .ok input := by
  generalize Crc32fast.ieee = checksum
  have wide : ¬XorCodec.Narrow (XorCodec.wordsOf [0, 0, 0, 0, 0, 0, 0, 0, 1, 0, 0, 0, 0, 0, 0, 0x80]) := by
    unfold XorCodec.Narrow
    decide
  refine ⟨[0, 0, 0, 0, 0, 0, 0, 0, 1, 0, 0, 0, 0, 0, 0, 0x80], by decide, ?_⟩
  rw [(XorCodec.roundTrip_cases (by decide)).2 wide]
  exact nofun

end Temnion.Codec
