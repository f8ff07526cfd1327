import Temnion.Codec.Frame

/-
This file encodes and decodes the raw codec and the run lengths.
-/

namespace Temnion.Codec

open LittleEndian Format

namespace RawCodec

variable [Crc32fast]

def encode (input : List UInt8) : Except Halt (List UInt8) := frameCompressed .raw input.length input

/-- The length of the body is not compared with the expected length. -/
def decode (compressed : List UInt8) (expectedLen : Nat) : Except Halt (List UInt8) :=
  verifyFrameAt .raw compressed expectedLen

theorem lossless {input : List UInt8} (short : input.length < 2 ^ 32) :
    ∃ compressed, encode input = .ok compressed ∧ decode compressed input.length = .ok input := by
  rw [encode, frameCompressed_ok short]
  refine ⟨_, rfl, ?_⟩
  rw [decode, verifyFrameAt_eq, verifyFrame_frameCompressed short]

end RawCodec

namespace RleCodec

/-- A tag with its highest bit repeats the byte behind it, and any other tag counts the bytes behind it. Positions in
a body stay far below the size of a machine word. -/
def expand (body : List UInt8) (expectedLen position : Nat) (out : List UInt8) : Except Halt (List UInt8) :=
  if position < body.length then do
    let tag ← byteAt body position
    if tag &&& 0x80 ≠ 0 then
      let runLen := (tag &&& 0x7F).toNat + 3
      refuseIf (body.length ≤ position + 1) (Halt.error (.invalidData "truncated RLE run payload"))
      let byte ← byteAt body (position + 1)
      let length ← checkedAdd .overflow out.length runLen
      refuseIf (expectedLen < length) (Halt.error (.invalidData "RLE run exceeds expected length"))
      expand body expectedLen (position + 2) (out ++ List.replicate runLen byte)
    else
      let litLen := tag.toNat + 1
      refuseIf (body.length < position + 1 + litLen) (Halt.error (.invalidData "truncated RLE literal payload"))
      let length ← checkedAdd .overflow out.length litLen
      refuseIf (expectedLen < length) (Halt.error (.invalidData "RLE literals exceed expected length"))
      let literals ← sliceAt body (position + 1) (position + 1 + litLen)
      expand body expectedLen (position + 1 + litLen) (out ++ literals)
  else .ok out
termination_by body.length - position

/-- The runs never leave the body, and their lengths fit a machine word. -/
theorem expand_reported {body : List UInt8} {expectedLen : Nat} (short : expectedLen < 2 ^ 32) (position : Nat)
    (out : List UInt8) (within : out.length ≤ expectedLen) :
    (expand body expectedLen position out).Ends (fun _ => True) Halt.Reported := by
  induction left : body.length - position using Nat.strong_induction_on generalizing position out with
  | _ left hypothesis =>
      rw [expand]
      by_cases more : position < body.length
      · rw [if_pos more, byteAt_ok more, Except.ok_bind]
        have tag := (body.getD position 0).toNat_lt
        split
        · have run : ((body.getD position 0) &&& 0x7F).toNat ≤ 0x7F := by
            rw [UInt8.toNat_and]
            exact Nat.and_le_right
          dsimp only
          apply Except.Ends.refuseIf_bind fun _ => trivial
          intro inside
          rw [byteAt_ok (Nat.not_le.mp inside), Except.ok_bind,
            checkedAdd_ok.mpr ⟨by omega, rfl⟩, Except.ok_bind]
          apply Except.Ends.refuseIf_bind fun _ => trivial
          intro fits
          refine hypothesis _ ?_ _ _ ?_ rfl
          · omega
          · rw [List.length_append, List.length_replicate]
            exact Nat.le_of_not_lt fits
        · dsimp only
          apply Except.Ends.refuseIf_bind fun _ => trivial
          intro inside
          rw [checkedAdd_ok.mpr ⟨by omega, rfl⟩, Except.ok_bind]
          apply Except.Ends.refuseIf_bind fun _ => trivial
          intro fits
          have stop := Nat.not_lt.mp inside
          rw [sliceAt_ok (Nat.le_add_right _ _) stop, Except.ok_bind]
          refine hypothesis _ ?_ _ _ ?_ rfl
          · omega
          · rw [List.length_append, slice_length (by omega)]
            omega
      · rw [if_neg more]
        exact Except.Ends.ok trivial

def decodeBody (body : List UInt8) (expectedLen : Nat) : Except Halt (List UInt8) := do
  let out ← expand body expectedLen 0 []
  refuseIf (out.length ≠ expectedLen) (Halt.error (.lengthMismatch expectedLen out.length))
  return out

theorem decodeBody_robust {expectedLen : Nat} (short : expectedLen < 2 ^ 32) (body : List UInt8) :
    Robust expectedLen (decodeBody body expectedLen) := by
  unfold decodeBody
  apply (expand_reported short 0 [] (Nat.zero_le _)).bind
  intro out _
  apply Except.Ends.refuseIf_bind fun _ => trivial
  intro same
  exact Except.Ends.ok (not_not.mp same)

/-- How often the byte repeats from a position on, up to a hundred and thirty times. -/
def runLength (input : List UInt8) (i : Nat) (byte : UInt8) (runLen : Nat) : Nat :=
  if i + runLen < input.length ∧ input.getD (i + runLen) 0 = byte ∧ runLen < 130 then
    runLength input i byte (runLen + 1)
  else runLen
termination_by 130 - runLen

/-- Three equal bytes follow each other. -/
def RunBegins (input : List UInt8) (i : Nat) : Prop :=
  i + 2 < input.length ∧ input.getD i 0 = input.getD (i + 1) 0 ∧ input.getD i 0 = input.getD (i + 2) 0

instance (input : List UInt8) (i : Nat) : Decidable (RunBegins input i) := by
  unfold RunBegins
  infer_instance

/-- How many bytes stand before the next run, up to a hundred and twenty-eight. -/
def literalLength (input : List UInt8) (i litLen : Nat) : Nat :=
  if i < input.length ∧ litLen < 128 then
    if RunBegins input i then litLen else literalLength input (i + 1) (litLen + 1)
  else litLen
termination_by input.length - i

/-- One is subtracted from the length of the literals, which has no result when there are none. -/
def encodeGroups (input : List UInt8) (i : Nat) (body : List UInt8) : Except Halt (List UInt8) :=
  if i < input.length then
    let byte := input.getD i 0
    let runLen := runLength input i byte 1
    if 3 ≤ runLen then
      encodeGroups input (i + runLen) (body ++ [0x80 ||| UInt8.ofNat (runLen - 3), byte])
    else
      let litLen := literalLength input i 0
      if litLen = 0 then .error .overflow
      else encodeGroups input (i + litLen) (body ++ UInt8.ofNat (litLen - 1) :: slice input i litLen)
  else .ok body
termination_by input.length - i
decreasing_by
  · change input.length - (i + runLen) < input.length - i
    omega
  · change input.length - (i + litLen) < input.length - i
    omega

def encodeBody (input : List UInt8) : Except Halt (List UInt8) := encodeGroups input 0 []

section Groups

variable {input body : List UInt8} {byte : UInt8} {i runLen litLen : Nat}

/-- A byte that repeats, or bytes that are kept as they are. -/
inductive Group where
  | run (length : Nat) (byte : UInt8)
  | literals (bytes : List UInt8)

namespace Group

def contents : Group → List UInt8
  | run length byte => List.replicate length byte
  | literals bytes => bytes

/-- The number that the tag stands for. -/
def code : Group → Nat
  | run length _ => 0x80 + (length - 3)
  | literals bytes => bytes.length - 1

def tag : Group → UInt8
  | run length _ => 0x80 ||| UInt8.ofNat (length - 3)
  | literals bytes => UInt8.ofNat (bytes.length - 1)

def bytes : Group → List UInt8
  | run length byte => [tag (run length byte), byte]
  | literals bytes => tag (literals bytes) :: bytes

def InRange : Group → Prop
  | run length _ => 3 ≤ length ∧ length ≤ 130
  | literals bytes => 1 ≤ bytes.length ∧ bytes.length ≤ 128

/-- The tag of a group in range loses no bit of its number. -/
theorem tag_toNat {group : Group} (inRange : group.InRange) : group.tag.toNat = group.code := by
  cases group with
  | run length byte =>
      have small : length - 3 < 2 ^ 7 := by
        have long := inRange.2
        omega
      rw [tag, code, UInt8.toNat_or, UInt8.toNat_ofNat_of_lt' (lt_trans small (by decide)), Nat.or_comm,
        show (0x80 : UInt8).toNat = 2 ^ 7 * 1 from rfl, Nat.or_comm, ← Nat.two_pow_add_eq_or_of_lt small]
  | literals bytes =>
      have small : bytes.length - 1 < 2 ^ 8 := by
        have long := inRange.2
        omega
      exact UInt8.toNat_ofNat_of_lt' small

theorem contents_ne_nil {group : Group} (inRange : group.InRange) : group.contents ≠ [] := by
  apply List.ne_nil_of_length_pos
  cases group with
  | run length byte =>
      rw [contents, List.length_replicate]
      exact Nat.lt_of_lt_of_le (by decide : 0 < 3) inRange.1
  | literals bytes => exact inRange.1

end Group

/-- The highest bit tells a run from literals, and the others hold the length. -/
theorem marked_bits : ∀ length < 128, ¬(0x80 ||| UInt8.ofNat length) &&& 0x80 = 0 ∧
    ((0x80 ||| UInt8.ofNat length) &&& 0x7F).toNat = length := by decide

theorem unmarked_bits : ∀ length < 128, UInt8.ofNat length &&& 0x80 = 0 := by decide

/-- The byte at a position and the bytes behind it. -/
theorem drop_cons_iff {bytes rest : List UInt8} {position : Nat} (left : bytes.drop position = byte :: rest) :
    position < bytes.length ∧ bytes.getD position 0 = byte ∧ bytes.drop (position + 1) = rest := by
  have inside : position < bytes.length := by
    apply Nat.lt_of_not_le
    intro outside
    rw [List.drop_eq_nil_of_le outside] at left
    exact absurd left.symm (List.cons_ne_nil _ _)
  rw [List.drop_eq_getElem_cons inside, List.cons.injEq] at left
  rw [List.getD_eq_getElem?_getD, List.getElem?_eq_getElem inside, Option.getD_some]
  exact ⟨inside, left.1, left.2⟩

theorem slice_one {bytes : List UInt8} {position : Nat} (inside : position < bytes.length) :
    slice bytes position 1 = [bytes.getD position 0] := by
  rw [slice, List.drop_eq_getElem_cons inside, List.getD_eq_getElem?_getD, List.getElem?_eq_getElem inside]
  rfl

theorem le_runLength (input : List UInt8) (i : Nat) (byte : UInt8) (runLen : Nat) :
    runLen ≤ runLength input i byte runLen := by
  fun_induction runLength with
  | case1 _ _ further => exact Nat.le_of_succ_le further
  | case2 => exact Nat.le_refl _

/-- The counted bytes are all alike and stand in the input. -/
theorem runLength_repeats (counted : slice input i runLen = List.replicate runLen byte)
    (inside : i + runLen ≤ input.length) (short : runLen ≤ 130) :
    slice input i (runLength input i byte runLen) = List.replicate (runLength input i byte runLen) byte ∧
      i + runLength input i byte runLen ≤ input.length ∧ runLength input i byte runLen ≤ 130 := by
  fun_induction runLength with
  | case1 runLen more further =>
      apply further ?_ more.1 more.2.2
      rw [slice_add, counted, slice_one more.1, more.2.1, ← List.replicate_succ']
  | case2 => exact ⟨counted, inside, short⟩

/-- Three equal bytes are counted as a run. -/
theorem runLength_of_begins (begins : RunBegins input i) : 3 ≤ runLength input i (input.getD i 0) 1 := by
  obtain ⟨inside, second, third⟩ := begins
  rw [runLength, if_pos ⟨by omega, second.symm, by decide⟩, runLength, if_pos ⟨inside, third.symm, by decide⟩]
  exact le_runLength _ _ _ _

/-- The literals stand in the input. -/
theorem literalLength_inside (inside : i ≤ input.length) (short : litLen ≤ 128) :
    i + literalLength input i litLen ≤ input.length + litLen ∧ literalLength input i litLen ≤ 128 := by
  fun_induction literalLength with
  | case1 => exact ⟨Nat.add_le_add_right inside _, short⟩
  | case2 i litLen more _ further =>
      have later := further more.1 more.2
      exact ⟨by omega, later.2⟩
  | case3 => exact ⟨Nat.add_le_add_right inside _, short⟩

theorem le_literalLength (input : List UInt8) (i litLen : Nat) : litLen ≤ literalLength input i litLen := by
  fun_induction literalLength with
  | case1 => exact Nat.le_refl _
  | case2 _ _ _ _ further => exact Nat.le_of_succ_le further
  | case3 => exact Nat.le_refl _

/-- Where no run begins there is a literal. -/
theorem literalLength_pos (more : i < input.length) (plain : ¬RunBegins input i) : 0 < literalLength input i 0 := by
  rw [literalLength, if_pos ⟨more, by decide⟩, if_neg plain]
  exact le_literalLength _ _ _

/-- The encoder puts groups behind one another, none of them empty, until it is through the input. -/
theorem encodeGroups_ok (inside : i ≤ input.length) (body : List UInt8) :
    ∃ groups : List Group, (∀ group ∈ groups, group.InRange) ∧
      encodeGroups input i body = .ok (body ++ groups.flatMap Group.bytes) ∧
        groups.flatMap Group.contents = input.drop i := by
  induction left : input.length - i using Nat.strong_induction_on generalizing i body with
  | _ left hypothesis =>
      by_cases more : i < input.length
      · have one : slice input i 1 = List.replicate 1 (input.getD i 0) := slice_one more
        obtain ⟨repeats, stays, short⟩ := runLength_repeats one more (by decide)
        rw [encodeGroups, if_pos more]
        dsimp only
        by_cases long : 3 ≤ runLength input i (input.getD i 0) 1
        · rw [if_pos long]
          obtain ⟨groups, inRange, encoded, contents⟩ := hypothesis _ (by omega) stays
            (body ++ [0x80 ||| UInt8.ofNat (runLength input i (input.getD i 0) 1 - 3), input.getD i 0]) rfl
          refine ⟨.run (runLength input i (input.getD i 0) 1) (input.getD i 0) :: groups, ?_, ?_, ?_⟩
          · exact List.forall_mem_cons.mpr ⟨⟨long, short⟩, inRange⟩
          · rw [encoded, List.append_assoc]
            rfl
          · rw [List.flatMap_cons, contents, drop_eq_slice_append input i, repeats]
            rfl
        · have plain : ¬RunBegins input i := fun begins => long (runLength_of_begins begins)
          have some' := literalLength_pos more plain
          obtain ⟨within, few⟩ := @literalLength_inside input i 0 inside (by decide)
          have width : (slice input i (literalLength input i 0)).length = literalLength input i 0 := slice_length within
          rw [if_neg long, if_neg (Nat.ne_of_gt some')]
          obtain ⟨groups, inRange, encoded, contents⟩ := hypothesis _ (by omega) within
            (body ++ UInt8.ofNat (literalLength input i 0 - 1) :: slice input i (literalLength input i 0)) rfl
          refine ⟨.literals (slice input i (literalLength input i 0)) :: groups, ?_, ?_, ?_⟩
          · refine List.forall_mem_cons.mpr ⟨?_, inRange⟩
            rw [Group.InRange, width]
            exact ⟨some', few⟩
          · rw [encoded, List.append_assoc, List.flatMap_cons, Group.bytes, Group.tag, width]
          · rw [List.flatMap_cons, contents, drop_eq_slice_append input i]
            rfl
      · refine ⟨[], List.forall_mem_nil _, ?_, ?_⟩
        · rw [encodeGroups, if_neg more, List.flatMap_nil, List.append_nil]
        · rw [List.drop_eq_nil_of_le (Nat.not_lt.mp more), List.flatMap_nil]

/-- Reading a group gives its contents. -/
theorem expand_group {group : Group} {rest out : List UInt8} {position expectedLen : Nat} (inRange : group.InRange)
    (behind : body.drop position = group.bytes ++ rest) (short : expectedLen < 2 ^ 32)
    (fits : out.length + group.contents.length ≤ expectedLen) :
    expand body expectedLen position out =
      expand body expectedLen (position + group.bytes.length) (out ++ group.contents) := by
  cases group with
  | run length byte =>
      obtain ⟨inside, tag, after⟩ := drop_cons_iff behind
      obtain ⟨next, value, -⟩ := drop_cons_iff after
      obtain ⟨least, most⟩ := inRange
      rw [Group.contents, List.length_replicate] at fits
      obtain ⟨highest, bits⟩ := marked_bits (length - 3) (by omega)
      have marked : ¬Group.tag (.run length byte) &&& 0x80 = 0 := highest
      have count : (Group.tag (.run length byte) &&& 0x7F).toNat + 3 = length := by
        rw [Group.tag, bits, Nat.sub_add_cancel least]
      rw [expand, if_pos inside, byteAt_ok inside, tag, Except.ok_bind, if_pos marked]
      dsimp only
      rw [Except.refuseIf_bind (by omega), byteAt_ok next, value, Except.ok_bind, count,
        checkedAdd_ok.mpr ⟨by omega, rfl⟩, Except.ok_bind, Except.refuseIf_bind (by omega)]
      rfl
  | literals bytes =>
      rw [Group.bytes, List.cons_append] at behind
      obtain ⟨inside, tag, after⟩ := drop_cons_iff behind
      obtain ⟨least, most⟩ := inRange
      rw [Group.contents] at fits
      have unmarked : ¬¬(Group.tag (.literals bytes) &&& 0x80) = 0 :=
        not_not.mpr (unmarked_bits (bytes.length - 1) (by omega))
      have count : (Group.tag (.literals bytes)).toNat + 1 = bytes.length := by
        rw [@Group.tag_toNat (.literals bytes) ⟨least, most⟩, Group.code, Nat.sub_add_cancel least]
      have enough : position + 1 + bytes.length ≤ body.length := by
        have length := congrArg List.length after
        rw [List.length_drop, List.length_append] at length
        omega
      have taken : slice body (position + 1) bytes.length = bytes := by
        rw [slice, after, List.take_left]
      rw [expand, if_pos inside, byteAt_ok inside, tag, Except.ok_bind, if_neg unmarked]
      dsimp only
      rw [count, Except.refuseIf_bind (by omega), checkedAdd_ok.mpr ⟨by omega, rfl⟩, Except.ok_bind,
        Except.refuseIf_bind (by omega), sliceAt_ok (Nat.le_add_right _ _) enough, Nat.add_sub_cancel_left, taken,
        Except.ok_bind, Group.bytes, List.length_cons, Group.contents, Nat.add_assoc, Nat.add_comm 1]

/-- The decoder gives back the contents of the groups. -/
theorem expand_groups {groups : List Group} {out : List UInt8} {position expectedLen : Nat}
    (inRange : ∀ group ∈ groups, group.InRange) (behind : body.drop position = groups.flatMap Group.bytes)
    (short : expectedLen < 2 ^ 32) (fits : out.length + (groups.flatMap Group.contents).length ≤ expectedLen) :
    expand body expectedLen position out = .ok (out ++ groups.flatMap Group.contents) := by
  induction groups generalizing position out with
  | nil =>
      have finished : body.length ≤ position := List.drop_eq_nil_iff.mp behind
      rw [expand, if_neg (Nat.not_lt.mpr finished), List.flatMap_nil, List.append_nil]
  | cons group groups hypothesis =>
      obtain ⟨first, later⟩ := List.forall_mem_cons.mp inRange
      rw [List.flatMap_cons] at behind fits
      rw [List.length_append] at fits
      rw [expand_group first behind short (by omega), hypothesis later ?_ ?_, List.flatMap_cons, List.append_assoc]
      · rw [← List.drop_drop, behind, List.drop_left]
      · rw [List.length_append]
        omega

end Groups

variable [Crc32fast]

def encode (input : List UInt8) : Except Halt (List UInt8) := do
  let body ← encodeBody input
  frameCompressed .rle input.length body

def decode (compressed : List UInt8) (expectedLen : Nat) : Except Halt (List UInt8) := do
  let body ← verifyFrameAt .rle compressed expectedLen
  decodeBody body expectedLen

/-- Every input that a frame can describe is encoded in groups that are never empty and whose tags hold their lengths,
and it is decoded again. -/
theorem rle_lossless {input : List UInt8} (short : input.length < 2 ^ 32) :
    (∃ groups : List Group, encodeBody input = .ok (groups.flatMap Group.bytes) ∧
      groups.flatMap Group.contents = input ∧
        ∀ group ∈ groups, group.contents ≠ [] ∧ group.InRange ∧ group.tag.toNat = group.code) ∧
      ∃ compressed, encode input = .ok compressed ∧ decode compressed input.length = .ok input := by
  obtain ⟨groups, inRange, encoded, contents⟩ := encodeGroups_ok (Nat.zero_le input.length) []
  rw [List.nil_append] at encoded
  rw [List.drop_zero] at contents
  constructor
  · refine ⟨groups, encoded, contents, fun group member => ?_⟩
    have small := inRange group member
    exact ⟨Group.contents_ne_nil small, small, Group.tag_toNat small⟩
  · have framed : encode input = frameCompressed .rle input.length (groups.flatMap Group.bytes) := by
      rw [encode, encodeBody, encoded, Except.ok_bind]
    rw [framed, frameCompressed_ok short]
    refine ⟨_, rfl, ?_⟩
    have fits : ([] : List UInt8).length + (groups.flatMap Group.contents).length ≤ input.length := by
      rw [contents, List.length_nil, Nat.zero_add]
    rw [decode, verifyFrameAt_eq, verifyFrame_frameCompressed short, Except.ok_bind, decodeBody,
      expand_groups inRange List.drop_zero short fits, List.nil_append, contents, Except.ok_bind,
      Except.refuseIf_bind (not_not.mpr rfl)]
    rfl

omit [Crc32fast] in
theorem rle_lossless_sample : letI := Crc32fast.ieee
    ([7, 7, 7, 7, 1, 2] : List UInt8).length < 2 ^ 32 ∧
      ∃ compressed, encode [7, 7, 7, 7, 1, 2] = .ok compressed ∧ decode compressed 6 = .ok [7, 7, 7, 7, 1, 2] := by
  generalize Crc32fast.ieee = checksum
  exact ⟨by decide, (@rle_lossless checksum [7, 7, 7, 7, 1, 2] (by decide)).2⟩

end RleCodec

end Temnion.Codec
