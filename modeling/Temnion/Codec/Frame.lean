import Temnion.Format.Codec

/-
This file frames the body of a codec behind a checked header.
-/

namespace Temnion.Codec

open LittleEndian Format

inductive CodecId where
  | raw
  | rle
  | bitPack
  | deltaFor
  | xor
  deriving DecidableEq, Repr

def CodecId.byte : CodecId → UInt8
  | .raw => 0
  | .rle => 1
  | .bitPack => 2
  | .deltaFor => 3
  | .xor => 4

inductive CodecError where
  | incomplete (needed available : Nat)
  | invalidMagic
  | unsupportedVersion (version : UInt8)
  | checksumMismatch
  | lengthMismatch (expected actual : Nat)
  | unknownCodec (codec : UInt8)
  | invalidData (reason : String)
  | outputTooLarge (length max : Nat)
  deriving DecidableEq, Repr

/-- A codec stops with one of its errors, in an operation whose result does not fit its machine word, or by reading
outside its input. -/
inductive Halt where
  | error (error : CodecError)
  | overflow
  | outOfRange
  deriving DecidableEq, Repr

/-- The codec reports an error of its own. -/
def Halt.Reported : Halt → Prop
  | .error _ => True
  | .overflow => False
  | .outOfRange => False

def CodecId.fromU8 : UInt8 → Except Halt CodecId
  | 0 => .ok .raw
  | 1 => .ok .rle
  | 2 => .ok .bitPack
  | 3 => .ok .deltaFor
  | 4 => .ok .xor
  | other => .error (.error (.unknownCodec other))

/-- A decoder ends in an error of its own or with as many bytes as are expected. -/
def Robust (expectedLen : Nat) (outcome : Except Halt (List UInt8)) : Prop :=
  outcome.Ends (fun out => out.length = expectedLen) Halt.Reported

theorem CodecId.fromU8_reported (byte : UInt8) : (fromU8 byte).Ends (fun _ => True) Halt.Reported := by
  unfold fromU8
  split
  all_goals first | exact Except.Ends.ok trivial | exact Except.Ends.error trivial

theorem CodecId.fromU8_byte (id : CodecId) : fromU8 id.byte = .ok id := by cases id <;> rfl

def codecMagic : List UInt8 := [0x54, 0x4E, 0x43, 0x58]

def codecVersion : UInt8 := 1

def codecHeaderLen : Nat := 20

section Access

variable {bytes : List UInt8} {start stop position : Nat}

/-- The bytes between two positions, which have to be there. -/
def sliceAt (bytes : List UInt8) (start stop : Nat) : Except Halt (List UInt8) :=
  if start ≤ stop ∧ stop ≤ bytes.length then .ok (slice bytes start (stop - start)) else .error .outOfRange

def byteAt (bytes : List UInt8) (position : Nat) : Except Halt UInt8 :=
  if position < bytes.length then .ok (bytes.getD position 0) else .error .outOfRange

def u32At (bytes : List UInt8) (position : Nat) : Except Halt UInt32 := do
  return UInt32.ofNat (valueOf (← sliceAt bytes position (position + 4)))

def u64At (bytes : List UInt8) (position : Nat) : Except Halt UInt64 := do
  return UInt64.ofNat (valueOf (← sliceAt bytes position (position + 8)))

theorem sliceAt_ok (ordered : start ≤ stop) (inside : stop ≤ bytes.length) :
    sliceAt bytes start stop = .ok (slice bytes start (stop - start)) := if_pos ⟨ordered, inside⟩

theorem byteAt_ok (inside : position < bytes.length) : byteAt bytes position = .ok (bytes.getD position 0) :=
  if_pos inside

theorem u32At_ok (inside : position + 4 ≤ bytes.length) : u32At bytes position = .ok (getU32 bytes position) := by
  rw [u32At, sliceAt_ok (Nat.le_add_right _ _) inside, Except.ok_bind, Nat.add_sub_cancel_left]
  rfl

theorem u64At_ok (inside : position + 8 ≤ bytes.length) : u64At bytes position = .ok (getU64 bytes position) := by
  rw [u64At, sliceAt_ok (Nat.le_add_right _ _) inside, Except.ok_bind, Nat.add_sub_cancel_left]
  rfl

end Access

section

variable [Crc32fast]

/-- The header up to its own checksum. -/
def headerFields (id : CodecId) (originalLen : Nat) (body : List UInt8) : List UInt8 :=
  codecMagic ++ [id.byte, codecVersion] ++ le16 0 ++ le32 (UInt32.ofNat originalLen) ++ le32 (Crc32fast.hash body)

def frameCompressed (id : CodecId) (originalLen : Nat) (body : List UInt8) : Except Halt (List UInt8) := do
  refuseIf (2 ^ 32 - 1 < originalLen) (Halt.error (.outputTooLarge originalLen (2 ^ 32 - 1)))
  let fields := headerFields id originalLen body
  return fields ++ le32 (Crc32fast.hash fields) ++ body

def verifyFrame (expectedId : CodecId) (compressed : List UInt8) (expectedLen : Nat) : Except Halt (List UInt8) := do
  refuseIf (compressed.length < codecHeaderLen) (Halt.error (.incomplete codecHeaderLen compressed.length))
  refuseIf (slice compressed 0 4 ≠ codecMagic) (Halt.error .invalidMagic)
  let id ← CodecId.fromU8 (compressed.getD 4 0)
  refuseIf (id ≠ expectedId) (Halt.error (.invalidData "codec id mismatch in frame header"))
  let version := compressed.getD 5 0
  refuseIf (version ≠ codecVersion) (Halt.error (.unsupportedVersion version))
  refuseIf (Crc32fast.hash (slice compressed 0 16) ≠ getU32 compressed 16) (Halt.error .checksumMismatch)
  let originalLen := (getU32 compressed 8).toNat
  refuseIf (originalLen ≠ expectedLen) (Halt.error (.lengthMismatch expectedLen originalLen))
  let body := compressed.drop codecHeaderLen
  refuseIf (Crc32fast.hash body ≠ getU32 compressed 12) (Halt.error .checksumMismatch)
  return body

/-- The frame is checked with every access checked against the input. -/
def verifyFrameAt (expectedId : CodecId) (compressed : List UInt8) (expectedLen : Nat) : Except Halt (List UInt8) := do
  refuseIf (compressed.length < codecHeaderLen) (Halt.error (.incomplete codecHeaderLen compressed.length))
  let magic ← sliceAt compressed 0 4
  refuseIf (magic ≠ codecMagic) (Halt.error .invalidMagic)
  let id ← CodecId.fromU8 (← byteAt compressed 4)
  refuseIf (id ≠ expectedId) (Halt.error (.invalidData "codec id mismatch in frame header"))
  let version ← byteAt compressed 5
  refuseIf (version ≠ codecVersion) (Halt.error (.unsupportedVersion version))
  let headerCrc ← u32At compressed 16
  let fields ← sliceAt compressed 0 16
  refuseIf (Crc32fast.hash fields ≠ headerCrc) (Halt.error .checksumMismatch)
  let originalLen := (← u32At compressed 8).toNat
  refuseIf (originalLen ≠ expectedLen) (Halt.error (.lengthMismatch expectedLen originalLen))
  let body ← sliceAt compressed codecHeaderLen compressed.length
  let bodyCrc ← u32At compressed 12
  refuseIf (Crc32fast.hash body ≠ bodyCrc) (Halt.error .checksumMismatch)
  return body

/-- Checking a frame stays within the input. -/
theorem verifyFrameAt_eq (expectedId : CodecId) (compressed : List UInt8) (expectedLen : Nat) :
    verifyFrameAt expectedId compressed expectedLen = verifyFrame expectedId compressed expectedLen := by
  unfold verifyFrameAt verifyFrame
  by_cases short : compressed.length < codecHeaderLen
  · rw [Except.refuseIf_bind_error short, Except.refuseIf_bind_error short]
  · have enough : codecHeaderLen ≤ compressed.length := Nat.not_lt.mp short
    have long : 20 ≤ compressed.length := enough
    rw [Except.refuseIf_bind short, Except.refuseIf_bind short]
    rw [sliceAt_ok (by decide) (by omega : 4 ≤ compressed.length), byteAt_ok (by omega : 4 < compressed.length),
      byteAt_ok (by omega : 5 < compressed.length), u32At_ok (by omega : 16 + 4 ≤ compressed.length),
      sliceAt_ok (by decide) (by omega : 16 ≤ compressed.length), u32At_ok (by omega : 8 + 4 ≤ compressed.length),
      sliceAt_ok enough (Nat.le_refl _), u32At_ok (by omega : 12 + 4 ≤ compressed.length)]
    have rest : slice compressed codecHeaderLen (compressed.length - codecHeaderLen) = compressed.drop codecHeaderLen :=
      List.take_of_length_le (by rw [List.length_drop])
    simp only [Except.ok_bind, rest]

/-- A frame is refused with an error, or it gives its body. -/
theorem verifyFrame_reported (id : CodecId) (compressed : List UInt8) (expectedLen : Nat) :
    (verifyFrame id compressed expectedLen).Ends (fun _ => True) Halt.Reported := by
  unfold verifyFrame
  apply Except.Ends.refuseIf_bind fun _ => trivial
  intro _
  apply Except.Ends.refuseIf_bind fun _ => trivial
  intro _
  apply (CodecId.fromU8_reported _).bind
  intro _ _
  apply Except.Ends.refuseIf_bind fun _ => trivial
  intro _
  apply Except.Ends.refuseIf_bind fun _ => trivial
  intro _
  apply Except.Ends.refuseIf_bind fun _ => trivial
  intro _
  apply Except.Ends.refuseIf_bind fun _ => trivial
  intro _
  apply Except.Ends.refuseIf_bind fun _ => trivial
  intro _
  exact Except.Ends.ok trivial

/-- The length of a checked frame was stored in four bytes. -/
theorem verifyFrame_short {id : CodecId} {compressed body : List UInt8} {expectedLen : Nat}
    (verified : verifyFrame id compressed expectedLen = .ok body) : expectedLen < 2 ^ 32 := by
  unfold verifyFrame at verified
  rw [Except.check_bind_ok, Except.check_bind_ok, Except.bind_eq_ok] at verified
  obtain ⟨-, -, _, -, verified⟩ := verified
  rw [Except.check_bind_ok] at verified
  obtain ⟨-, verified⟩ := verified
  dsimp only at verified
  rw [Except.check_bind_ok, Except.check_bind_ok, Except.check_bind_ok] at verified
  obtain ⟨-, -, declared, -⟩ := verified
  rw [Except.refuseIf_ok, not_not] at declared
  rw [← declared]
  exact UInt32.toNat_lt _

theorem headerFields_length (id : CodecId) (originalLen : Nat) (body : List UInt8) :
    (headerFields id originalLen body).length = 16 := by
  simp [headerFields, codecMagic]

theorem frameCompressed_ok {id : CodecId} {originalLen : Nat} {body : List UInt8} (short : originalLen < 2 ^ 32) :
    frameCompressed id originalLen body = .ok (headerFields id originalLen body ++
      le32 (Crc32fast.hash (headerFields id originalLen body)) ++ body) := by
  unfold frameCompressed
  rw [Except.refuseIf_bind (by omega)]
  rfl

/-- A frame gives back the body that it was made of. -/
theorem verifyFrame_frameCompressed {id : CodecId} {originalLen : Nat} {body : List UInt8}
    (short : originalLen < 2 ^ 32) : verifyFrame id (headerFields id originalLen body ++
      le32 (Crc32fast.hash (headerFields id originalLen body)) ++ body) originalLen = .ok body := by
  have long : ¬(headerFields id originalLen body ++ le32 (Crc32fast.hash (headerFields id originalLen body)) ++
      body).length < codecHeaderLen := by
    rw [List.length_append, List.length_append, headerFields_length, le32_length, codecHeaderLen]
    omega
  have exact' : (UInt32.ofNat originalLen).toNat = originalLen := UInt32.toNat_ofNat_of_lt' short
  unfold verifyFrame
  rw [Except.refuseIf_bind long, Except.refuseIf_bind (by exact not_not.mpr rfl)]
  have named : (headerFields id originalLen body ++ le32 (Crc32fast.hash (headerFields id originalLen body)) ++
      body).getD 4 0 = id.byte := rfl
  rw [named, CodecId.fromU8_byte, Except.ok_bind, Except.refuseIf_bind (not_not.mpr rfl)]
  have version : (headerFields id originalLen body ++ le32 (Crc32fast.hash (headerFields id originalLen body)) ++
      body).getD 5 0 = codecVersion := rfl
  rw [version, Except.refuseIf_bind (not_not.mpr rfl), getU32_of_slice (rfl : slice _ 16 4 = le32 _),
    getU32_of_slice (rfl : slice _ 8 4 = le32 _), getU32_of_slice (rfl : slice _ 12 4 = le32 _),
    Except.refuseIf_bind (by exact not_not.mpr rfl)]
  dsimp only
  rw [exact', Except.refuseIf_bind (not_not.mpr rfl), Except.refuseIf_bind (by exact not_not.mpr rfl)]
  rfl

end

end Temnion.Codec
