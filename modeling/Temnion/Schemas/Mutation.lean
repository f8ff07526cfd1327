import Temnion.Library.Reader
import Temnion.Library.Utf8
import Temnion.Schemas.Catalog

/-
This file decodes the canonical bytes of a mutation.
-/

namespace Temnion.Schemas

open LittleEndian

def mutationEncodingVersion : UInt8 := 1

namespace Cursor

def take (len : Nat) : Reader SchemaError (List UInt8) := fun input =>
  Reader.readFixed len (.truncated len input.length) input

def readU8 : Reader SchemaError UInt8 := do return UInt8.ofNat (valueOf (← take 1))

def readU16 : Reader SchemaError UInt16 := do return UInt16.ofNat (valueOf (← take 2))

def readU32 : Reader SchemaError UInt32 := do return UInt32.ofNat (valueOf (← take 4))

def readU64 : Reader SchemaError UInt64 := do return UInt64.ofNat (valueOf (← take 8))

def readI64 : Reader SchemaError Int64 := do return (← readU64).toInt64

def readBool : Reader SchemaError Bool := do
  let value ← readU8
  if value = 0 then return false
  else if value = 1 then return true
  else throw (.invalidBoolean value)

def readU32LenBounded (what : String) (max : Nat) : Reader SchemaError Nat := do
  let raw ← readU32
  refuseIf (max < raw.toNat) (.lengthOutOfRange what raw.toNat max)
  return raw.toNat

def ownedUtf8 (bytes : List UInt8) (what : String) : Except SchemaError Text :=
  match Utf8.decode bytes with
  | some text => .ok text
  | none => .error (.invalidUtf8 what)

/-- The tags of the values are the numbers from zero to six. -/
def readValue (maxBytes : Nat) : Reader SchemaError Value := do
  let tag ← readU8
  if tag = 0 then return .null
  else if tag = 1 then return .bool (← readBool)
  else if tag = 2 then return .i64 (← readI64)
  else if tag = 3 then return .u64 (← readU64)
  else if tag = 4 then return .f64Bits (← readU64)
  else if tag = 5 then do
    let len ← readU32LenBounded "utf8 value" maxBytes
    let text ← ownedUtf8 (← take len) "utf8 value"
    return .utf8 text
  else if tag = 6 then do
    let len ← readU32LenBounded "byte value" maxBytes
    return .bytes (← take len)
  else throw (.invalidValueTag tag)

/-- Reads all of the bytes. -/
def run {A : Type} (read : Reader SchemaError A) (bytes : List UInt8) (maxBytes : Nat) : Except SchemaError A := do
  refuseIf (maxBytes < bytes.length) (.inputTooLarge bytes.length maxBytes)
  let (value, rest) ← read bytes
  refuseIf (rest ≠ []) (.trailingBytes rest.length)
  return value

end Cursor

open Cursor

/-- A field comes behind the one before it. -/
def checkAscending (duplicate : FieldId → SchemaError) (previous : Option FieldId) (field : FieldId) :
    Except SchemaError Unit :=
  match previous with
  | none => .ok ()
  | some previous => do
      refuseIf (field = previous) (duplicate field)
      refuseIf (field < previous) (.nonCanonicalFieldOrder previous field)

def readUpdates (maxBytes : Nat) : Nat → Option FieldId → Reader SchemaError (List FieldUpdate)
  | 0, _ => return []
  | count + 1, previous => do
      let field := FieldId.mk (← readU16)
      checkAscending .duplicateMutationField previous field
      let value ← readValue maxBytes
      let updates ← readUpdates maxBytes count (some field)
      return ⟨field, value⟩ :: updates

def readMutation (maxBytes : Nat) : Reader SchemaError Mutation := do
  let version ← readU8
  refuseIf (version ≠ mutationEncodingVersion) (.invalidEncodingVersion "mutation" version)
  let tag ← readU8
  if tag = 0 then return .delete
  else if tag = 1 then do
    let count ← readU32
    refuseIf (count = 0) .emptyUpsert
    refuseIf (maxMutationFields < count.toNat) (.tooManyUpdates count.toNat maxMutationFields)
    let updates ← readUpdates maxBytes count.toNat none
    return .upsert updates
  else throw (.invalidMutationTag tag)

def decodeMutation (bytes : List UInt8) (maxBytes : Nat) : Except SchemaError Mutation :=
  Cursor.run (readMutation maxBytes) bytes maxBytes

section Shape

variable {maxBytes count : Nat} {previous : Option FieldId} {input rest bytes : List UInt8} {updates : List FieldUpdate}

theorem checkAscending_ok {duplicate : FieldId → SchemaError} {field : FieldId} {done : Unit} :
    checkAscending duplicate previous field = .ok done ↔ ∀ before, previous = some before → before < field := by
  cases previous with
  | none => exact iff_of_true rfl (by nofun)
  | some before =>
      rw [checkAscending, Except.check_bind_ok, Except.refuseIf_ok, Except.refuseIf_ok, not_lt]
      constructor
      · rintro ⟨different, above⟩ other same
        rw [← Option.some.inj same]
        exact lt_of_le_of_ne above (Ne.symm different)
      · intro above
        exact ⟨(above before rfl).ne', (above before rfl).le⟩

/-- The updates ascend from the field before them. -/
theorem readUpdates_shape (read : readUpdates maxBytes count previous input = .ok (updates, rest)) :
    updates.length = count ∧ (updates.Pairwise fun first second => first.field < second.field) ∧
      ∀ before, previous = some before → ∀ update ∈ updates, before < update.field := by
  induction count generalizing previous input updates rest with
  | zero =>
      obtain ⟨rfl, -⟩ := Reader.pure_ok.mp read
      exact ⟨rfl, List.Pairwise.nil, fun _ _ _ member => absurd member List.not_mem_nil⟩
  | succ count hypothesis =>
      rw [readUpdates] at read
      obtain ⟨number, _, -, read⟩ := Reader.bind_ok.mp read
      obtain ⟨_, _, ascends, read⟩ := Reader.bind_ok.mp read
      obtain ⟨value, _, -, read⟩ := Reader.bind_ok.mp read
      obtain ⟨others, _, tail, read⟩ := Reader.bind_ok.mp read
      obtain ⟨rfl, -⟩ := Reader.pure_ok.mp read
      obtain ⟨length, ascending, above⟩ := hypothesis tail
      have behind := checkAscending_ok.mp (Reader.lift_ok.mp ascends).1
      refine ⟨congrArg (· + 1) length, List.pairwise_cons.mpr ⟨above _ rfl, ascending⟩, ?_⟩
      intro before same update member
      rcases List.mem_cons.mp member with rfl | later
      · exact behind before same
      · exact (behind before same).trans (above _ rfl update later)

/-- A decoded upsert has the shape of an upsert. -/
theorem decodeMutation_shape (decoded : decodeMutation bytes maxBytes = .ok (.upsert updates)) :
    validateUpsertShape updates = .ok () := by
  rw [decodeMutation, Cursor.run, Except.check_bind_ok, Except.bind_eq_ok] at decoded
  obtain ⟨-, ⟨mutation, rest⟩, read, finish⟩ := decoded
  rw [Except.check_bind_ok] at finish
  obtain rfl : mutation = .upsert updates := Except.ok.inj finish.2
  obtain ⟨version, _, -, read⟩ := Reader.bind_ok.mp read
  obtain ⟨_, _, -, read⟩ := Reader.bind_ok.mp read
  obtain ⟨tag, _, -, read⟩ := Reader.bind_ok.mp read
  split at read
  · exact absurd (Reader.pure_ok.mp read).1 (by nofun)
  · split at read
    · obtain ⟨number, _, -, read⟩ := Reader.bind_ok.mp read
      obtain ⟨_, _, present, read⟩ := Reader.bind_ok.mp read
      obtain ⟨_, _, bounded, read⟩ := Reader.bind_ok.mp read
      obtain ⟨updates', _, listed, read⟩ := Reader.bind_ok.mp read
      obtain rfl := Mutation.upsert.inj (Reader.pure_ok.mp read).1
      obtain ⟨length, ascending, -⟩ := readUpdates_shape listed
      rw [Reader.refuseIf_ok] at present bounded
      refine validateUpsertShape_ok.mpr ⟨?_, ?_, ascending.imp ne_of_lt⟩
      · rintro rfl
        exact present.1 (UInt32.toNat_inj.mp length.symm)
      · rw [length]
        exact Nat.le_of_not_lt bounded.1
    · exact absurd read (by nofun)

end Shape

end Temnion.Schemas
