import Temnion.Codec.Packed
import Temnion.Codec.Rle
import Temnion.Codec.Xor

/-
This file says on which byte strings the decoders stop with an error of their own or with the expected length.
-/

namespace Temnion.Codec

open LittleEndian Format Bits

/-- When the rest is robust whatever it gets, the first part decides. -/
theorem robust_bind_iff {A : Type} {expectedLen : Nat} {first : Except Halt A} {next : A → Except Halt (List UInt8)}
    (rest : ∀ value, Robust expectedLen (next value)) :
    Robust expectedLen (first >>= next) ↔ first.Ends (fun _ => True) Halt.Reported := by
  cases first with
  | error error => exact ⟨fun robust => Except.Ends.error (robust.2 error rfl), fun ends => Except.Ends.error (ends.2 error rfl)⟩
  | ok value => exact iff_of_true (rest value) (Except.Ends.ok trivial)

namespace XorCodec

/-- The differences of the words leave a shift of less than a word. A difference that is cut off is not decoded. -/
def Fitting : Nat → List Bool → Prop
  | 0, _ => True
  | _ + 1, [] => True
  | count + 1, false :: rest => Fitting count rest
  | count + 1, true :: rest =>
      let leading := numberOf (rest.take 5)
      let length := numberOf ((rest.drop 5).take 6)
      11 + length ≤ rest.length →
        0 < leading + length ∧ leading + length ≤ 64 ∧ Fitting count (rest.drop (11 + length))

section Words

variable {reader : BitReader} {rest : List Bool} {prev : UInt64}

theorem decodeWord_same (ahead : reader.remaining = false :: rest) :
    ∃ reached, decodeWord reader prev = .ok (prev, reached) ∧ reached.remaining = rest := by
  obtain ⟨reached, reads, left⟩ := BitReader.readBit_ok ahead
  refine ⟨reached, ?_, left⟩
  rw [decodeWord, reads]
  rfl

theorem decodeWord_empty (ahead : reader.remaining = []) : ∃ error, decodeWord reader prev = .error (.error error) := by
  refine ⟨.invalidData "unexpected end of bitstream", ?_⟩
  rw [decodeWord, BitReader.readBit_empty ahead]
  rfl

/-- A difference that is cut off is an error, and any other one is decoded when its fields fit. -/
theorem decodeWord_different (ahead : reader.remaining = true :: rest) :
    let leading := numberOf (rest.take 5)
    let length := numberOf ((rest.drop 5).take 6)
    if rest.length < 11 + length then ∃ error, decodeWord reader prev = .error (.error error)
    else if 0 < leading + length ∧ leading + length ≤ 64 then
      ∃ curr reached, decodeWord reader prev = .ok (curr, reached) ∧ reached.remaining = rest.drop (11 + length)
    else decodeWord reader prev = .error .overflow := by
  intro leading length
  obtain ⟨second, reads, left⟩ := BitReader.readBit_ok ahead
  have one : ¬UInt8.ofNat true.toNat = 0 := by decide
  have ended : ∀ {A : Type} (next : UInt64 × BitReader → Except Halt A) (reader : BitReader) (count : Nat),
      count ≤ 64 → reader.remaining.length < count → ∃ error, (reader.readBits count >>= next) = .error (.error error) :=
    fun next reader count narrow short => ⟨_, by rw [BitReader.readBits_short narrow short]; rfl⟩
  unfold decodeWord
  rw [reads, Except.ok_bind]
  dsimp only
  rw [if_neg one]
  by_cases five : rest.length < 5
  · rw [if_pos (by omega)]
    exact ended _ second 5 (by decide) (by rw [left]; exact five)
  · obtain ⟨third, readsLeading, leftThird⟩ :=
      @BitReader.readBits_number second 5 (by decide) (by rw [left]; omega)
    rw [left] at readsLeading leftThird
    rw [readsLeading, Except.ok_bind]
    dsimp only
    by_cases six : (rest.drop 5).length < 6
    · rw [if_pos (by rw [List.length_drop] at six; omega)]
      exact ended _ third 6 (by decide) (by rw [leftThird]; exact six)
    · obtain ⟨fourth, readsLength, leftFourth⟩ :=
        @BitReader.readBits_number third 6 (by decide) (by rw [leftThird]; omega)
      rw [leftThird] at readsLength leftFourth
      have smallLeading : leading < 2 ^ 5 := by
        have small := numberOf_lt (rest.take 5)
        rwa [List.length_take_of_le (by omega)] at small
      have smallLength : length < 2 ^ 6 := by
        have small := numberOf_lt ((rest.drop 5).take 6)
        rwa [List.length_take_of_le (by omega)] at small
      rw [readsLength, Except.ok_bind]
      dsimp only
      rw [toNat_ofNat (by omega : leading < 2 ^ 64), toNat_ofNat (by omega : length < 2 ^ 64)]
      have eleven : (rest.drop 5).drop 6 = rest.drop 11 := by rw [List.drop_drop]
      rw [eleven] at leftFourth
      have total : 11 ≤ rest.length := by
        rw [List.length_drop] at six
        omega
      by_cases cut : rest.length < 11 + length
      · rw [if_pos cut]
        exact ended _ fourth length (by omega) (by rw [leftFourth, List.length_drop]; omega)
      · obtain ⟨fifth, readsMeaningful, leftFifth⟩ :=
          @BitReader.readBits_number fourth length (by omega) (by rw [leftFourth, List.length_drop]; omega)
        rw [leftFourth, List.drop_drop] at leftFifth
        rw [if_neg cut, readsMeaningful, Except.ok_bind]
        dsimp only
        rw [subtract, if_pos (by omega : leading ≤ 64), Except.ok_bind]
        by_cases fits : 0 < leading + length ∧ leading + length ≤ 64
        · rw [if_pos fits, subtract, if_pos (by omega : length ≤ 64 - leading), Except.ok_bind, shiftLeft,
            if_pos (by omega : 64 - leading - length < 64), Except.ok_bind]
          exact ⟨_, fifth, rfl, leftFifth⟩
        · rw [if_neg fits, subtract]
          by_cases long : length ≤ 64 - leading
          · rw [if_pos long, Except.ok_bind, shiftLeft, if_neg (by omega : ¬64 - leading - length < 64)]
            rfl
          · rw [if_neg long]
            rfl

/-- The words are decoded without a halt exactly when their differences fit. -/
theorem decodeWords_reported_iff (count : Nat) (prev : UInt64) (reader : BitReader) (out : List UInt8) :
    (decodeWords count prev reader out).Ends (fun _ => True) Halt.Reported ↔ Fitting count reader.remaining := by
  induction count generalizing prev reader out with
  | zero => exact iff_of_true (Except.Ends.ok trivial) trivial
  | succ count hypothesis =>
      rw [decodeWords]
      have stopped : ∀ (next : UInt64 × BitReader → Except Halt (List UInt8)) (error : CodecError),
          decodeWord reader prev = .error (.error error) →
            (decodeWord reader prev >>= next).Ends (fun _ => True) Halt.Reported := by
        intro next error stops
        rw [stops]
        exact Except.Ends.error trivial
      rcases ahead : reader.remaining with _ | ⟨bit, rest⟩
      · obtain ⟨error, stops⟩ := @decodeWord_empty reader prev ahead
        exact iff_of_true (stopped _ _ stops) trivial
      · cases bit with
        | false =>
            obtain ⟨reached, decodes, left⟩ := @decodeWord_same reader rest prev ahead
            rw [decodes, Except.ok_bind]
            dsimp only
            rw [hypothesis, left, Fitting]
        | true =>
            have outcome := @decodeWord_different reader rest prev ahead
            dsimp only at outcome
            rw [Fitting]
            by_cases cut : rest.length < 11 + numberOf ((rest.drop 5).take 6)
            · rw [if_pos cut] at outcome
              obtain ⟨error, stops⟩ := outcome
              exact iff_of_true (stopped _ _ stops) fun enough => absurd cut (Nat.not_lt.mpr enough)
            · have enough := Nat.not_lt.mp cut
              rw [if_neg cut] at outcome
              by_cases fits : 0 < numberOf (rest.take 5) + numberOf ((rest.drop 5).take 6) ∧
                  numberOf (rest.take 5) + numberOf ((rest.drop 5).take 6) ≤ 64
              · rw [if_pos fits] at outcome
                obtain ⟨curr, reached, decodes, left⟩ := outcome
                rw [decodes, Except.ok_bind]
                dsimp only
                rw [hypothesis, left]
                exact ⟨fun holds _ => ⟨fits.1, fits.2, holds⟩, fun holds => (holds enough).2.2⟩
              · rw [if_neg fits] at outcome
                rw [outcome]
                refine iff_of_false (fun ends => ends.2 _ rfl) fun holds => ?_
                exact fits ⟨(holds enough).1, (holds enough).2.1⟩

end Words

/-- The first word and the differences behind it. -/
def wordsAt (body : List UInt8) (u64Count : Nat) : Except Halt (List UInt8) :=
  if 0 < u64Count then do
    refuseIf (body.length < 12) (Halt.error (.incomplete 12 body.length))
    let first ← u64At body 4
    let stream ← sliceAt body 12 body.length
    decodeWords (u64Count - 1) first (BitReader.new stream) (le64 first)
  else .ok []

/-- The last bytes of the body, or all of them when there are fewer. -/
def withLast (body : List UInt8) (remainderLen : Nat) (out : List UInt8) : Except Halt (List UInt8) :=
  if 0 < remainderLen then do return out ++ (← sliceAt body (body.length - remainderLen) body.length) else .ok out

theorem withLast_eq (body : List UInt8) (remainderLen : Nat) (out : List UInt8) : withLast body remainderLen out =
    .ok (if 0 < remainderLen then out ++ body.drop (body.length - remainderLen) else out) := by
  unfold withLast
  split
  · rw [sliceAt_ok (Nat.sub_le _ _) (Nat.le_refl _), slice, List.take_of_length_le (by rw [List.length_drop])]
    rfl
  · rfl

/-- The body is decoded with every access checked against it. -/
def decodeBodyAt (body : List UInt8) (expectedLen : Nat) : Except Halt (List UInt8) := do
  refuseIf (body.length < 4) (Halt.error (.incomplete 4 body.length))
  let u64Count := (← u32At body 0).toNat
  let wordBytes ← checkedMul .overflow u64Count 8
  let words ← wordsAt body u64Count
  let out ← withLast body (expectedLen - wordBytes) words
  refuseIf (out.length ≠ expectedLen) (Halt.error (.lengthMismatch expectedLen out.length))
  return out

/-- Decoding a body stays within it. -/
theorem decodeBodyAt_eq (body : List UInt8) (expectedLen : Nat) :
    decodeBodyAt body expectedLen = decodeBody body expectedLen := by
  unfold decodeBodyAt decodeBody wordsAt
  by_cases cut : body.length < 4
  · rw [Except.refuseIf_bind_error cut, Except.refuseIf_bind_error cut]
  · have few := (getU32 body 0).toNat_lt
    rw [Except.refuseIf_bind cut, Except.refuseIf_bind cut, u32At_ok (by omega : 0 + 4 ≤ body.length), Except.ok_bind]
    dsimp only
    rw [checkedMul_ok.mpr ⟨by omega, rfl⟩, Except.ok_bind]
    by_cases some' : 0 < (getU32 body 0).toNat
    · rw [if_pos some', if_pos some']
      by_cases short : body.length < 12
      · rw [Except.refuseIf_bind_error short, Except.refuseIf_bind_error short]
        rfl
      · rw [Except.refuseIf_bind short, Except.refuseIf_bind short, u64At_ok (by omega : 4 + 8 ≤ body.length),
          Except.ok_bind, sliceAt_ok (by omega) (Nat.le_refl _), Except.ok_bind, slice,
          List.take_of_length_le (by rw [List.length_drop])]
        simp only [withLast_eq, Except.ok_bind]
    · rw [if_neg some', if_neg some']
      simp only [withLast_eq, Except.ok_bind]
      rfl

/-- The stream of a body with a first word has differences that fit. -/
def Fits (body : List UInt8) : Prop :=
  12 ≤ body.length → Fitting ((getU32 body 0).toNat - 1) (byteBits (body.drop 12))

/-- The decoder halts exactly when a difference does not fit. -/
theorem decodeBody_robust_iff (body : List UInt8) (expectedLen : Nat) :
    Robust expectedLen (decodeBodyAt body expectedLen) ↔ Fits body := by
  have tail : ∀ remainderLen words, Robust expectedLen (do
      let out ← withLast body remainderLen words
      refuseIf (out.length ≠ expectedLen) (Halt.error (.lengthMismatch expectedLen out.length))
      return out) := by
    intro remainderLen words
    rw [withLast_eq, Except.ok_bind]
    apply Except.Ends.refuseIf_bind fun _ => trivial
    intro same
    exact Except.Ends.ok (not_not.mp same)
  unfold decodeBodyAt wordsAt
  by_cases cut : body.length < 4
  · rw [Except.refuseIf_bind_error cut]
    exact iff_of_true (Except.Ends.error trivial) fun long => absurd cut (by omega)
  · have few := (getU32 body 0).toNat_lt
    rw [Except.refuseIf_bind cut, u32At_ok (by omega : 0 + 4 ≤ body.length), Except.ok_bind]
    dsimp only
    rw [checkedMul_ok.mpr ⟨by omega, rfl⟩, Except.ok_bind, Fits]
    by_cases some' : 0 < (getU32 body 0).toNat
    · rw [if_pos some']
      by_cases short : body.length < 12
      · rw [Except.refuseIf_bind_error short]
        exact iff_of_true (Except.Ends.error trivial) fun long => absurd short (Nat.not_lt.mpr long)
      · have long := Nat.not_lt.mp short
        rw [Except.refuseIf_bind short, u64At_ok (by omega : 4 + 8 ≤ body.length), Except.ok_bind,
          sliceAt_ok long (Nat.le_refl _), Except.ok_bind, robust_bind_iff (tail _), decodeWords_reported_iff,
          BitReader.remaining_new, slice, List.take_of_length_le (by rw [List.length_drop])]
        exact ⟨fun fits _ => fits, fun fits => fits long⟩
    · rw [if_neg some', Except.ok_bind]
      refine iff_of_true (tail _ _) fun _ => ?_
      rw [Nat.eq_zero_of_not_pos some']
      trivial

variable [Crc32fast]

def decodeAt (compressed : List UInt8) (expectedLen : Nat) : Except Halt (List UInt8) := do
  let body ← verifyFrameAt .xor compressed expectedLen
  decodeBodyAt body expectedLen

theorem decodeAt_eq (compressed : List UInt8) (expectedLen : Nat) :
    decodeAt compressed expectedLen = decode compressed expectedLen := by
  unfold decodeAt decode
  rw [verifyFrameAt_eq]
  simp only [decodeBodyAt_eq]

end XorCodec

section Decoders

variable [Crc32fast]

def decode : CodecId → List UInt8 → Nat → Except Halt (List UInt8)
  | .raw => RawCodec.decode
  | .rle => RleCodec.decode
  | .bitPack => BitPackCodec.decode
  | .deltaFor => DeltaForCodec.decode
  | .xor => XorCodec.decodeAt

/-- What the body of a frame must be like so that the decoder does not misbehave. -/
def Sound : CodecId → List UInt8 → Nat → Prop
  | .raw, body, expectedLen => body.length = expectedLen
  | .rle, _, _ => True
  | .bitPack, _, _ => True
  | .deltaFor, body, expectedLen => DeltaForCodec.Bounded body expectedLen
  | .xor, body, _ => XorCodec.Fits body

/-- A decoder misbehaves exactly on checked frames with an unsound body. -/
theorem decode_robust_iff (codec : CodecId) (compressed : List UInt8) (expectedLen : Nat) :
    Robust expectedLen (decode codec compressed expectedLen) ↔
      ∀ body, verifyFrame codec compressed expectedLen = .ok body → Sound codec body expectedLen := by
  have framed : ∀ decodeBody : List UInt8 → Except Halt (List UInt8),
      (∀ body, expectedLen < 2 ^ 32 → (Robust expectedLen (decodeBody body) ↔ Sound codec body expectedLen)) →
        (Robust expectedLen (verifyFrameAt codec compressed expectedLen >>= decodeBody) ↔
          ∀ body, verifyFrame codec compressed expectedLen = .ok body → Sound codec body expectedLen) := by
    intro decodeBody sound
    rw [verifyFrameAt_eq]
    have reported := verifyFrame_reported codec compressed expectedLen
    cases verified : verifyFrame codec compressed expectedLen with
    | error error =>
        refine iff_of_true (Except.Ends.error (reported.2 error verified)) fun body other => ?_
        exact absurd other (by nofun)
    | ok body =>
        rw [Except.ok_bind, sound body (verifyFrame_short verified)]
        exact ⟨fun holds _ same => Except.ok.inj same ▸ holds, fun holds => holds body rfl⟩
  cases codec with
  | raw =>
      have raw := framed .ok fun body _ => by
        constructor
        · exact fun robust => robust.1 body rfl
        · exact fun same => Except.Ends.ok same
      have plain : (verifyFrameAt .raw compressed expectedLen >>= .ok) = decode .raw compressed expectedLen := by
        change _ = verifyFrameAt .raw compressed expectedLen
        cases verifyFrameAt .raw compressed expectedLen <;> rfl
      rwa [plain] at raw
  | rle => exact framed _ fun body short => iff_of_true (RleCodec.decodeBody_robust short body) trivial
  | bitPack => exact framed _ fun body short => iff_of_true (BitPackCodec.decodeBody_robust short body) trivial
  | deltaFor => exact framed _ fun body short => DeltaForCodec.decodeBody_robust_iff short body
  | xor => exact framed _ fun body _ => XorCodec.decodeBody_robust_iff body expectedLen

end Decoders

/-- A raw frame may say that it holds no bytes and hold one. -/
theorem raw_ignores_length : letI := Crc32fast.ieee
    ¬∀ (codec : CodecId) (compressed : List UInt8) (expectedLen : Nat),
      Robust expectedLen (decode codec compressed expectedLen) := by
  generalize Crc32fast.ieee = checksum
  intro robust
  have framed := @verifyFrame_frameCompressed checksum .raw 0 [7] (by decide)
  rw [← verifyFrameAt_eq] at framed
  exact absurd ((robust .raw _ 0).1 [7] framed) (by decide)

end Temnion.Codec
