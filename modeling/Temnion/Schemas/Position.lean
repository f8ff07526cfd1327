import Temnion.Library.Moving
import Temnion.Schemas.Encoding

/-
This file decodes mutations with a position in the bytes, where a place outside them is a panic, and compares this with
the decoder that takes the bytes away.
-/

namespace Temnion.Schemas

open LittleEndian Slices Moving

namespace Position

/-- The end of a part is a machine word. -/
def take (bytes : List UInt8) (len : Nat) : Moving SchemaError (List UInt8) := fun position => do
  let stop ← checkedAdd (Fault.refused (SchemaError.sizeOverflow "decode cursor")) position len
  refuseIf (bytes.length < stop) (.refused (.truncated len (bytes.length - position)))
  let slice ← sliceAt bytes position stop
  return (slice, stop)

def readU8 (bytes : List UInt8) : Moving SchemaError UInt8 := do
  let slice ← take bytes 1
  liftM (byteAt slice 0 : Parse SchemaError UInt8)

def readU16 (bytes : List UInt8) : Moving SchemaError UInt16 := do
  let slice ← take bytes 2
  liftM (u16At slice 0 : Parse SchemaError UInt16)

def readU32 (bytes : List UInt8) : Moving SchemaError UInt32 := do
  let slice ← take bytes 4
  liftM (u32At slice 0 : Parse SchemaError UInt32)

def readU64 (bytes : List UInt8) : Moving SchemaError UInt64 := do
  let slice ← take bytes 8
  liftM (u64At slice 0 : Parse SchemaError UInt64)

def readI64 (bytes : List UInt8) : Moving SchemaError Int64 := do
  let word ← readU64 bytes
  return word.toInt64

def readBool (bytes : List UInt8) : Moving SchemaError Bool := do
  let value ← readU8 bytes
  if value = 0 then return false
  else if value = 1 then return true
  else throw (.refused (.invalidBoolean value))

def readU32LenBounded (bytes : List UInt8) (what : String) (max : Nat) : Moving SchemaError Nat := do
  let raw ← readU32 bytes
  refuseIf (max < raw.toNat) (.refused (.lengthOutOfRange what raw.toNat max))
  return raw.toNat

def ownedUtf8 (bytes : List UInt8) (what : String) : Moving SchemaError Text :=
  liftM ((Cursor.ownedUtf8 bytes what).mapError Fault.refused)

def readValue (bytes : List UInt8) (maxBytes : Nat) : Moving SchemaError Value := do
  let tag ← readU8 bytes
  if tag = 0 then return .null
  else if tag = 1 then do
    let flag ← readBool bytes
    return .bool flag
  else if tag = 2 then do
    let number ← readI64 bytes
    return .i64 number
  else if tag = 3 then do
    let number ← readU64 bytes
    return .u64 number
  else if tag = 4 then do
    let bits ← readU64 bytes
    return .f64Bits bits
  else if tag = 5 then do
    let len ← readU32LenBounded bytes "utf8 value" maxBytes
    let raw ← take bytes len
    let text ← ownedUtf8 raw "utf8 value"
    return .utf8 text
  else if tag = 6 then do
    let len ← readU32LenBounded bytes "byte value" maxBytes
    let contents ← take bytes len
    return .bytes contents
  else throw (.refused (.invalidValueTag tag))

def readUpdates (bytes : List UInt8) (maxBytes : Nat) : Nat → Option FieldId → Moving SchemaError (List FieldUpdate)
  | 0, _ => return []
  | count + 1, previous => do
      let number ← readU16 bytes
      liftM ((checkAscending .duplicateMutationField previous ⟨number⟩).mapError Fault.refused)
      let value ← readValue bytes maxBytes
      let updates ← readUpdates bytes maxBytes count (some ⟨number⟩)
      return ⟨⟨number⟩, value⟩ :: updates

def readMutation (bytes : List UInt8) (maxBytes : Nat) : Moving SchemaError Mutation := do
  let version ← readU8 bytes
  refuseIf (version ≠ mutationEncodingVersion) (.refused (.invalidEncodingVersion "mutation" version))
  let tag ← readU8 bytes
  if tag = 0 then return .delete
  else if tag = 1 then do
    let count ← readU32 bytes
    refuseIf (count = 0) (.refused .emptyUpsert)
    refuseIf (maxMutationFields < count.toNat) (.refused (.tooManyUpdates count.toNat maxMutationFields))
    let updates ← readUpdates bytes maxBytes count.toNat none
    return .upsert updates
  else throw (.refused (.invalidMutationTag tag))

def decodeMutation (bytes : List UInt8) (maxBytes : Nat) : Parse SchemaError Mutation := do
  refuseIf (maxBytes < bytes.length) (.refused (.inputTooLarge bytes.length maxBytes))
  let (mutation, position) ← readMutation bytes maxBytes 0
  refuseIf (position ≠ bytes.length) (.refused (.trailingBytes (bytes.length - position)))
  return mutation

section Agreement

variable {bytes : List UInt8}

/-- Slices are shorter than half of all places, so that the end of a part never overflows. -/
theorem take_follows (short : bytes.length < 2 ^ 63) {len : Nat} (fits : len < 2 ^ 63) :
    Follows bytes (take bytes len) (Cursor.take len) := by
  intro offset inside
  have sum : (checkedAdd (Fault.refused (SchemaError.sizeOverflow "decode cursor")) offset len : Parse SchemaError Nat) =
      .ok (offset + len) := checkedAdd_ok.mpr ⟨by omega, rfl⟩
  have left : (bytes.drop offset).length = bytes.length - offset := List.length_drop
  unfold take Cursor.take Reader.readFixed
  rw [sum, Except.ok_bind, left]
  by_cases enough : bytes.length < offset + len
  · left
    rw [if_neg (by omega), refuseIf_refused enough]
    exact ⟨_, rfl, rfl⟩
  · right
    rw [if_pos (by omega), Except.refuseIf_bind enough, sliceAt_ok (Nat.le_add_right _ _) (Nat.not_lt.mp enough),
      Except.ok_bind]
    refine ⟨(bytes.drop offset).take len, offset + len, Nat.not_lt.mp enough, ?_, ?_⟩
    · rw [List.drop_drop]
    · rw [Nat.add_sub_cancel_left, slice]
      rfl

theorem taken_length {len : Nat} {part : List UInt8}
    (taken : ∃ before after, Cursor.take len before = .ok (part, after)) : part.length = len := by
  obtain ⟨_, _, read⟩ := taken
  exact (take_ok.mp read).1

theorem readU8_follows (short : bytes.length < 2 ^ 63) : Follows bytes (readU8 bytes) Cursor.readU8 := by
  apply (take_follows short (by decide)).bind
  intro part taken
  obtain ⟨byte, rfl⟩ := List.length_eq_one_iff.mp (taken_length taken)
  rw [valueOf, valueOf, Nat.mul_zero, Nat.add_zero, UInt8.ofNat_toNat]
  exact Follows.pure bytes byte

theorem readU16_follows (short : bytes.length < 2 ^ 63) : Follows bytes (readU16 bytes) Cursor.readU16 := by
  apply (take_follows short (by decide)).bind
  intro part taken
  have width := taken_length taken
  rw [u16At_ok width.ge, getU16, slice_all width]
  exact Follows.pure bytes _

theorem readU32_follows (short : bytes.length < 2 ^ 63) : Follows bytes (readU32 bytes) Cursor.readU32 := by
  apply (take_follows short (by decide)).bind
  intro part taken
  have width := taken_length taken
  rw [u32At_ok width.ge, getU32, slice_all width]
  exact Follows.pure bytes _

theorem readU64_follows (short : bytes.length < 2 ^ 63) : Follows bytes (readU64 bytes) Cursor.readU64 := by
  apply (take_follows short (by decide)).bind
  intro part taken
  have width := taken_length taken
  rw [u64At_ok width.ge, getU64, slice_all width]
  exact Follows.pure bytes _

theorem readBool_follows (short : bytes.length < 2 ^ 63) : Follows bytes (readBool bytes) Cursor.readBool := by
  apply (readU8_follows short).bind
  intro value _
  split
  · exact Follows.pure bytes false
  · split
    · exact Follows.pure bytes true
    · exact Follows.fail bytes _

theorem readU32LenBounded_follows (short : bytes.length < 2 ^ 63) (what : String) (max : Nat) :
    Follows bytes (readU32LenBounded bytes what max) (Cursor.readU32LenBounded what max) := by
  apply (readU32_follows short).bind
  intro raw _
  exact (Follows.check bytes _ _).bind fun _ _ => Follows.pure bytes _

theorem bounded_length {what : String} {max len : Nat}
    (read : ∃ before after, Cursor.readU32LenBounded what max before = .ok (len, after)) : len < 2 ^ 63 := by
  obtain ⟨_, _, read⟩ := read
  have fits := (readU32LenBounded_ok.mp read).1.2
  have limit : u32Max = 2 ^ 32 - 1 := rfl
  omega

theorem readValue_follows (short : bytes.length < 2 ^ 63) (maxBytes : Nat) :
    Follows bytes (readValue bytes maxBytes) (Cursor.readValue maxBytes) := by
  apply (readU8_follows short).bind
  intro tag _
  split
  · exact Follows.pure bytes _
  split
  · exact (readBool_follows short).bind fun flag _ => Follows.pure bytes _
  split
  · apply Follows.bind
    · exact (readU64_follows short).bind fun word _ => Follows.pure bytes _
    · exact fun number _ => Follows.pure bytes _
  split
  · exact (readU64_follows short).bind fun number _ => Follows.pure bytes _
  split
  · exact (readU64_follows short).bind fun bits _ => Follows.pure bytes _
  split
  · apply (readU32LenBounded_follows short _ _).bind
    intro len read
    apply (take_follows short (bounded_length read)).bind
    intro raw _
    exact (Follows.lift bytes _).bind fun text _ => Follows.pure bytes _
  split
  · apply (readU32LenBounded_follows short _ _).bind
    intro len read
    exact (take_follows short (bounded_length read)).bind fun contents _ => Follows.pure bytes _
  · exact Follows.fail bytes _

theorem readUpdates_follows (short : bytes.length < 2 ^ 63) (maxBytes count : Nat) (previous : Option FieldId) :
    Follows bytes (readUpdates bytes maxBytes count previous) (Schemas.readUpdates maxBytes count previous) := by
  induction count generalizing previous with
  | zero => exact Follows.pure bytes []
  | succ count hypothesis =>
      apply (readU16_follows short).bind
      intro number _
      apply (Follows.lift bytes _).bind
      intro _ _
      apply (readValue_follows short maxBytes).bind
      intro value _
      exact (hypothesis (some ⟨number⟩)).bind fun updates _ => Follows.pure bytes _

theorem readMutation_follows (short : bytes.length < 2 ^ 63) (maxBytes : Nat) :
    Follows bytes (readMutation bytes maxBytes) (Schemas.readMutation maxBytes) := by
  apply (readU8_follows short).bind
  intro version _
  apply (Follows.check bytes _ _).bind
  intro _ _
  apply (readU8_follows short).bind
  intro tag _
  split
  · exact Follows.pure bytes _
  split
  · apply (readU32_follows short).bind
    intro count _
    apply (Follows.check bytes _ _).bind
    intro _ _
    apply (Follows.check bytes _ _).bind
    intro _ _
    exact (readUpdates_follows short maxBytes count.toNat none).bind fun updates _ => Follows.pure bytes _
  · exact Follows.fail bytes _

/-- The decoder never reads outside of the bytes, and does what the decoder does that takes them away. -/
theorem decodeMutation_eq (short : bytes.length < 2 ^ 63) (maxBytes : Nat) :
    decodeMutation bytes maxBytes = (Schemas.decodeMutation bytes maxBytes).mapError Fault.refused := by
  rw [decodeMutation, Schemas.decodeMutation, Cursor.run]
  by_cases large : maxBytes < bytes.length
  · rw [refuseIf_refused large, Except.refuseIf_bind_error large]
    rfl
  · rw [Except.refuseIf_bind large, Except.refuseIf_bind large]
    rcases readMutation_follows short maxBytes 0 (Nat.zero_le _) with
      ⟨error, refuses, stops⟩ | ⟨mutation, place, reached, gives, moves⟩
    · rw [List.drop_zero] at refuses
      rw [refuses, stops]
      rfl
    · rw [List.drop_zero] at gives
      rw [gives, moves, Except.ok_bind, Except.ok_bind]
      dsimp only
      by_cases last : place = bytes.length
      · rw [Except.refuseIf_bind (not_not.mpr last), Except.refuseIf_bind (by rw [last, List.drop_length]; exact not_not.mpr rfl)]
        rfl
      · have some : bytes.drop place ≠ [] := by
          intro empty
          have length := congrArg List.length empty
          rw [List.length_drop, List.length_nil] at length
          omega
        rw [refuseIf_refused last, Except.refuseIf_bind_error some, List.length_drop]
        rfl

end Agreement

section Safety

variable {bytes : List UInt8}

/-- A part that is taken lies inside the bytes and has its length. -/
theorem take_cases (bytes : List UInt8) (len position : Nat) :
    (∃ error, take bytes len position = .error (.refused error)) ∨
      ∃ part stop, part.length = len ∧ take bytes len position = .ok (part, stop) := by
  unfold take
  cases sum : (checkedAdd (Fault.refused (SchemaError.sizeOverflow "decode cursor")) position len :
      Parse SchemaError Nat) with
  | error fault =>
      rw [checkedAdd_error sum]
      exact .inl ⟨_, rfl⟩
  | ok stop =>
      obtain ⟨_, rfl⟩ := checkedAdd_ok.mp sum
      rw [Except.ok_bind]
      by_cases beyond : bytes.length < position + len
      · rw [refuseIf_refused beyond]
        exact .inl ⟨_, rfl⟩
      · have inside := Nat.not_lt.mp beyond
        rw [Except.refuseIf_bind beyond, sliceAt_ok (Nat.le_add_right _ _) inside, Nat.add_sub_cancel_left]
        exact .inr ⟨_, _, slice_length inside, rfl⟩

theorem careful_take (bytes : List UInt8) (len : Nat) : Careful (take bytes len) := by
  intro position
  rcases take_cases bytes len position with ⟨error, refuses⟩ | ⟨part, stop, _, takes⟩
  · rw [refuses]
    exact safe_refused error
  · rw [takes]
    exact safe_ok _

/-- What is read inside a part of its length is read carefully. -/
theorem careful_fixed {A : Type} {len : Nat} {view : List UInt8 → Parse SchemaError A}
    (inside : ∀ part : List UInt8, part.length = len → Safe (view part)) :
    Careful (take bytes len >>= fun part => liftM (view part)) := by
  intro position
  have run : (take bytes len >>= fun part => liftM (view part) : Moving SchemaError A) position =
      (take bytes len position >>= fun pair => view pair.1 >>= fun value => .ok (value, pair.2)) := rfl
  rw [run]
  rcases take_cases bytes len position with ⟨error, refuses⟩ | ⟨part, stop, width, takes⟩
  · rw [refuses]
    exact safe_refused error
  · rw [takes, Except.ok_bind]
    exact (inside part width).bind fun value _ => safe_ok _

theorem careful_readU8 (bytes : List UInt8) : Careful (readU8 bytes) := by
  apply careful_fixed
  intro part width
  rw [byteAt_ok (width.trans_gt Nat.one_pos)]
  exact safe_ok _

theorem careful_readU16 (bytes : List UInt8) : Careful (readU16 bytes) := by
  apply careful_fixed
  intro part width
  rw [u16At_ok width.ge]
  exact safe_ok _

theorem careful_readU32 (bytes : List UInt8) : Careful (readU32 bytes) := by
  apply careful_fixed
  intro part width
  rw [u32At_ok width.ge]
  exact safe_ok _

theorem careful_readU64 (bytes : List UInt8) : Careful (readU64 bytes) := by
  apply careful_fixed
  intro part width
  rw [u64At_ok width.ge]
  exact safe_ok _

theorem careful_readBool (bytes : List UInt8) : Careful (readBool bytes) := by
  apply (careful_readU8 bytes).bind
  intro value
  split
  · exact Careful.pure false
  · split
    · exact Careful.pure true
    · exact Careful.fail _

theorem careful_bounded (bytes : List UInt8) (what : String) (max : Nat) :
    Careful (readU32LenBounded bytes what max) :=
  (careful_readU32 bytes).bind fun _ => (Careful.check _ _).bind fun _ => Careful.pure _

theorem careful_readValue (bytes : List UInt8) (maxBytes : Nat) : Careful (readValue bytes maxBytes) := by
  apply (careful_readU8 bytes).bind
  intro tag
  split
  · exact Careful.pure _
  split
  · exact (careful_readBool bytes).bind fun flag => Careful.pure _
  split
  · exact ((careful_readU64 bytes).bind fun word => Careful.pure _).bind fun number => Careful.pure _
  split
  · exact (careful_readU64 bytes).bind fun number => Careful.pure _
  split
  · exact (careful_readU64 bytes).bind fun bits => Careful.pure _
  split
  · exact (careful_bounded bytes _ _).bind fun len => (careful_take bytes len).bind fun raw =>
      (Careful.lift _).bind fun text => Careful.pure _
  split
  · exact (careful_bounded bytes _ _).bind fun len => (careful_take bytes len).bind fun contents => Careful.pure _
  · exact Careful.fail _

theorem careful_readUpdates (bytes : List UInt8) (maxBytes count : Nat) (previous : Option FieldId) :
    Careful (readUpdates bytes maxBytes count previous) := by
  induction count generalizing previous with
  | zero => exact Careful.pure []
  | succ count hypothesis =>
      exact (careful_readU16 bytes).bind fun number => (Careful.lift _).bind fun _ =>
        (careful_readValue bytes maxBytes).bind fun value => (hypothesis _).bind fun updates => Careful.pure _

theorem careful_readMutation (bytes : List UInt8) (maxBytes : Nat) : Careful (readMutation bytes maxBytes) := by
  apply (careful_readU8 bytes).bind
  intro version
  apply (Careful.check _ _).bind
  intro _
  apply (careful_readU8 bytes).bind
  intro tag
  split
  · exact Careful.pure _
  split
  · exact (careful_readU32 bytes).bind fun count => (Careful.check _ _).bind fun _ => (Careful.check _ _).bind fun _ =>
      (careful_readUpdates bytes maxBytes count.toNat none).bind fun updates => Careful.pure _
  · exact Careful.fail _

theorem decodeMutation_safe (bytes : List UInt8) (maxBytes : Nat) : Safe (decodeMutation bytes maxBytes) := by
  apply Safe.guard
  intro _
  apply (careful_readMutation bytes maxBytes 0).bind
  intro pair _
  exact Safe.guard fun _ => safe_ok _

end Safety

end Position

section Canonical

variable {mutation : Mutation} {bytes : List UInt8} {maxBytes : Nat}

/-- Sorted updates of an encodable mutation are canonical as soon as their bytes are within the limit. -/
theorem Mutation.Encodable.canonical (encodable : mutation.Encodable)
    (within : mutation.sorted.encoded.length ≤ maxBytes) : mutation.sorted.Canonical maxBytes := by
  cases mutation with
  | delete => trivial
  | upsert updates =>
      obtain ⟨shape, writable⟩ := encodable
      obtain ⟨some, few, apart⟩ := validateUpsertShape_ok.mp shape
      have perm := (Sorting.UnstableSort.stable FieldUpdate.field).perm updates
      refine ⟨⟨?_, perm.length_eq.trans_le few⟩, ⟨by nofun, ascends_sort apart⟩, ?_⟩
      · intro empty
        rw [empty] at perm
        exact some perm.symm.eq_nil
      · intro update member
        apply (writable update (perm.mem_iff.mp member)).fits
        obtain ⟨front, back, split⟩ := List.append_of_mem member
        rw [Mutation.sorted, Mutation.encoded, split, List.flatMap_append, List.flatMap_cons] at within
        simp only [List.length_append, FieldUpdate.encoded_length] at within
        omega

/-- Canonical updates are in order already. -/
theorem Mutation.Canonical.sorted (canonical : mutation.Canonical maxBytes) :
    mutation.Encodable ∧ mutation.sorted = mutation := by
  cases mutation with
  | delete => exact ⟨trivial, rfl⟩
  | upsert updates =>
      obtain ⟨⟨some, few⟩, ⟨_, ascending⟩, fits⟩ := canonical
      refine ⟨⟨validateUpsertShape_ok.mpr ⟨some, few, ascending.imp ne_of_lt⟩, fun update member =>
        (fits update member).writable⟩, ?_⟩
      rw [Mutation.sorted, Sorting.UnstableSort.stable_sort (ascending.imp le_of_lt)]

/-- What the encoder writes is within the limit, has the computed size and is decoded to the mutation in the order of its
fields, and whatever the decoder accepts is written again by the encoder. No bytes lead the decoder outside their
end. -/
theorem mutation_codec_canonical (maxBytes : Nat) :
    (∀ mutation bytes, encodeMutation mutation maxBytes = .ok bytes → bytes.length ≤ maxBytes ∧
      decodeMutation bytes maxBytes = .ok mutation.sorted ∧ mutationEncodedSize mutation = .ok bytes.length) ∧
    (∀ bytes mutation, decodeMutation bytes maxBytes = .ok mutation → encodeMutation mutation maxBytes = .ok bytes) ∧
    ∀ bytes, Safe (Position.decodeMutation bytes maxBytes) ∧ (bytes.length < 2 ^ 63 →
      Position.decodeMutation bytes maxBytes = (decodeMutation bytes maxBytes).mapError Fault.refused) := by
  refine ⟨?_, ?_, ?_⟩
  · intro mutation bytes written
    obtain ⟨encodable, within, rfl⟩ := Mutation.encode_ok.mp written
    exact ⟨within, decodeMutation_ok.mpr ⟨within, encodable.canonical within, rfl⟩,
      Mutation.encodedSize_ok.mpr ⟨encodable, rfl⟩⟩
  · intro bytes mutation decoded
    obtain ⟨within, canonical, rfl⟩ := decodeMutation_ok.mp decoded
    obtain ⟨encodable, same⟩ := canonical.sorted
    rw [Mutation.encode_ok, same]
    exact ⟨encodable, within, rfl⟩
  · exact fun bytes => ⟨Position.decodeMutation_safe bytes maxBytes, fun short => Position.decodeMutation_eq short maxBytes⟩

/-- An upsert of two fields in the wrong order is written in the right one and read back. -/
theorem mutation_codec_canonical_sample :
    ∃ bytes, encodeMutation (.upsert [⟨⟨2⟩, .null⟩, ⟨⟨1⟩, .bool true⟩]) 64 = .ok bytes ∧
      decodeMutation bytes 64 = .ok (Mutation.upsert [⟨⟨2⟩, .null⟩, ⟨⟨1⟩, .bool true⟩]).sorted ∧
      encodeMutation (Mutation.upsert [⟨⟨2⟩, .null⟩, ⟨⟨1⟩, .bool true⟩]).sorted 64 = .ok bytes ∧
      Position.decodeMutation bytes 64 = (decodeMutation bytes 64).mapError Fault.refused := by
  have written : encodeMutation (.upsert [⟨⟨2⟩, .null⟩, ⟨⟨1⟩, .bool true⟩]) 64 =
      .ok [1, 1, 2, 0, 0, 0, 1, 0, 1, 1, 2, 0, 0] := by decide
  have decoded := ((mutation_codec_canonical 64).1 _ _ written).2.1
  exact ⟨_, written, decoded, (mutation_codec_canonical 64).2.1 _ _ decoded,
    ((mutation_codec_canonical 64).2.2 _).2 (by decide)⟩

end Canonical


end Temnion.Schemas
