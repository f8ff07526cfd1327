import Temnion.Schemas.Mutation

/-
This file encodes mutations, and compares the encoder with the decoder.
-/

namespace Temnion.Schemas

open LittleEndian

section Encoder

def checkedAddSize (total add : Nat) (what : String) : Except SchemaError Nat :=
  checkedAdd (.sizeOverflow what) total add

def u32Max : Nat := 2 ^ 32 - 1

def valueEncodedSize : Value → Except SchemaError Nat
  | .null => .ok 1
  | .bool _ => .ok 2
  | .i64 _ => .ok 9
  | .u64 _ => .ok 9
  | .f64Bits _ => .ok 9
  | .utf8 text => do
      refuseIf (u32Max < text.byteLength) (.lengthOutOfRange "utf8 value" text.byteLength u32Max)
      checkedAddSize 5 text.byteLength "value encoding"
  | .bytes contents => do
      refuseIf (u32Max < contents.length) (.lengthOutOfRange "byte value" contents.length u32Max)
      checkedAddSize 5 contents.length "value encoding"

def mutationEncodedSize : Mutation → Except SchemaError Nat
  | .delete => .ok 2
  | .upsert updates => do
      validateUpsertShape updates
      let size ← checkedAddSize 2 4 "mutation encoding"
      updates.foldlM (fun size update => do
        let size ← checkedAddSize size 2 "mutation encoding"
        let value ← valueEncodedSize update.value
        checkedAddSize size value "mutation encoding") size

/-- A length is written in four bytes, or refused. -/
def writeLength (what : String) (len : Nat) : Except SchemaError (List UInt8) :=
  if len ≤ u32Max then .ok (le32 (UInt32.ofNat len)) else .error (.lengthOutOfRange what len u32Max)

def writeValue : Value → Except SchemaError (List UInt8)
  | .null => .ok [0]
  | .bool value => .ok [1, if value then 1 else 0]
  | .i64 value => .ok (2 :: le64 value.toUInt64)
  | .u64 value => .ok (3 :: le64 value)
  | .f64Bits value => .ok (4 :: le64 value)
  | .utf8 text => do
      let length ← writeLength "utf8 value" text.byteLength
      return 5 :: (length ++ Utf8.encode text)
  | .bytes contents => do
      let length ← writeLength "byte value" contents.length
      return 6 :: (length ++ contents)

/-- The first of the updates with the lowest field behind the previous one. -/
def nextUpdateAfter (updates : List FieldUpdate) (previous : Option FieldId) : Option FieldUpdate :=
  updates.foldl (fun best update =>
    if previous.any fun previous => update.field ≤ previous then best
    else if best.all fun best => update.field < best.field then some update
    else best) none

/-- The lowest field that is left is written next. -/
def writeUpdates (updates : List FieldUpdate) : Nat → Option FieldId → Except SchemaError (List UInt8)
  | 0, _ => .ok []
  | count + 1, previous =>
      match nextUpdateAfter updates previous with
      | none => .error (.sizeOverflow "mutation sort")
      | some update => do
          let value ← writeValue update.value
          let rest ← writeUpdates updates count (some update.field)
          return le16 update.field.value ++ (value ++ rest)

def encodeMutation (mutation : Mutation) (maxBytes : Nat) : Except SchemaError (List UInt8) := do
  let size ← mutationEncodedSize mutation
  refuseIf (maxBytes < size) (.outputTooLarge size maxBytes)
  match mutation with
  | .delete => return [mutationEncodingVersion, 0]
  | .upsert updates => do
      validateUpsertShape updates
      let count ← writeLength "update count" updates.length
      let body ← writeUpdates updates updates.length none
      return [mutationEncodingVersion, 1] ++ (count ++ body)

end Encoder

section Values

/-- A text or some bytes are no longer than the limit, and their length fits into four bytes. -/
def Value.Fits (maxBytes : Nat) : Value → Prop
  | .utf8 text => text.byteLength ≤ maxBytes ∧ text.byteLength ≤ u32Max
  | .bytes contents => contents.length ≤ maxBytes ∧ contents.length ≤ u32Max
  | _ => True

def Value.Writable : Value → Prop
  | .utf8 text => text.byteLength ≤ u32Max
  | .bytes contents => contents.length ≤ u32Max
  | _ => True

/-- The bytes of a value when its length fits. -/
def Value.encoded : Value → List UInt8
  | .null => [0]
  | .bool value => [1, if value then 1 else 0]
  | .i64 value => 2 :: le64 value.toUInt64
  | .u64 value => 3 :: le64 value
  | .f64Bits value => 4 :: le64 value
  | .utf8 text => 5 :: (le32 (UInt32.ofNat text.byteLength) ++ Utf8.encode text)
  | .bytes contents => 6 :: (le32 (UInt32.ofNat contents.length) ++ contents)

def FieldUpdate.encoded (update : FieldUpdate) : List UInt8 := le16 update.field.value ++ update.value.encoded

variable {value : Value} {len : Nat} {what : String} {bytes : List UInt8}

theorem writeLength_ok : writeLength what len = .ok bytes ↔ len ≤ u32Max ∧ bytes = le32 (UInt32.ofNat len) := by
  unfold writeLength
  split
  · next fits => exact ⟨fun same => ⟨fits, (Except.ok.inj same).symm⟩, fun both => by rw [both.2]⟩
  · next fails => exact iff_of_false (by nofun) fun both => fails both.1

theorem writeValue_ok : writeValue value = .ok bytes ↔ value.Writable ∧ bytes = value.encoded := by
  cases value with
  | utf8 text =>
      rw [writeValue, Except.bind_eq_ok]
      simp only [writeLength_ok]
      constructor
      · rintro ⟨length, ⟨fits, rfl⟩, same⟩
        exact ⟨fits, (Except.ok.inj same).symm⟩
      · rintro ⟨fits, rfl⟩
        exact ⟨_, ⟨fits, rfl⟩, rfl⟩
  | bytes contents =>
      rw [writeValue, Except.bind_eq_ok]
      simp only [writeLength_ok]
      constructor
      · rintro ⟨length, ⟨fits, rfl⟩, same⟩
        exact ⟨fits, (Except.ok.inj same).symm⟩
      · rintro ⟨fits, rfl⟩
        exact ⟨_, ⟨fits, rfl⟩, rfl⟩
  | _ => exact ⟨fun same => ⟨trivial, (Except.ok.inj same).symm⟩, fun both => by rw [both.2]; rfl⟩

/-- The size that is computed for a value is the number of its bytes. -/
theorem valueEncodedSize_ok {size : Nat} :
    valueEncodedSize value = .ok size ↔ value.Writable ∧ size = value.encoded.length := by
  have small : u32Max = 2 ^ 32 - 1 := rfl
  cases value with
  | utf8 text =>
      have length : (Value.utf8 text).encoded.length = 5 + text.byteLength := by
        rw [Value.encoded, List.length_cons, List.length_append, le32_length, Utf8.encode_length]
        omega
      rw [valueEncodedSize, Except.check_bind_ok, Except.refuseIf_ok, checkedAddSize, checkedAdd_ok, length, not_lt]
      constructor
      · rintro ⟨fits, _, same⟩
        exact ⟨fits, same.symm⟩
      · rintro ⟨fits, same⟩
        have bound : text.byteLength ≤ u32Max := fits
        exact ⟨fits, by omega, same.symm⟩
  | bytes contents =>
      have length : (Value.bytes contents).encoded.length = 5 + contents.length := by
        rw [Value.encoded, List.length_cons, List.length_append, le32_length]
        omega
      rw [valueEncodedSize, Except.check_bind_ok, Except.refuseIf_ok, checkedAddSize, checkedAdd_ok, length, not_lt]
      constructor
      · rintro ⟨fits, _, same⟩
        exact ⟨fits, same.symm⟩
      · rintro ⟨fits, same⟩
        have bound : contents.length ≤ u32Max := fits
        exact ⟨fits, by omega, same.symm⟩
  | _ => exact ⟨fun same => ⟨trivial, (Except.ok.inj same).symm⟩, fun both => by rw [both.2]; rfl⟩

theorem Value.Fits.writable {maxBytes : Nat} (fits : value.Fits maxBytes) : value.Writable := by
  cases value with
  | utf8 text => exact fits.2
  | bytes bytes => exact fits.2
  | _ => trivial

/-- A value that takes at most so many bytes fits into them. -/
theorem Value.Writable.fits {maxBytes : Nat} (writable : value.Writable) (short : value.encoded.length ≤ maxBytes) :
    value.Fits maxBytes := by
  cases value with
  | utf8 text =>
      rw [Value.encoded, List.length_cons, List.length_append, le32_length, Utf8.encode_length] at short
      exact ⟨by omega, writable⟩
  | bytes bytes =>
      rw [Value.encoded, List.length_cons, List.length_append, le32_length] at short
      exact ⟨by omega, writable⟩
  | _ => trivial

end Values

section Readers

open Cursor

variable {input rest bytes : List UInt8} {maxBytes : Nat}

theorem take_ok {len : Nat} : take len input = .ok (bytes, rest) ↔ bytes.length = len ∧ input = bytes ++ rest :=
  Reader.readFixed_ok

theorem readU8_ok {value : UInt8} : readU8 input = .ok (value, rest) ↔ input = value :: rest := by
  unfold readU8
  simp only [Reader.bind_ok, Reader.pure_ok, take_ok]
  constructor
  · rintro ⟨bytes, _, ⟨width, rfl⟩, rfl, rfl⟩
    obtain ⟨byte, rfl⟩ := List.length_eq_one_iff.mp width
    rw [valueOf, valueOf, Nat.mul_zero, Nat.add_zero, UInt8.ofNat_toNat]
    rfl
  · rintro rfl
    refine ⟨[value], rest, ⟨rfl, rfl⟩, ?_, rfl⟩
    rw [valueOf, valueOf, Nat.mul_zero, Nat.add_zero, UInt8.ofNat_toNat]

theorem readU16_ok {value : UInt16} : readU16 input = .ok (value, rest) ↔ input = le16 value ++ rest := by
  unfold readU16
  simp only [Reader.bind_ok, Reader.pure_ok, take_ok]
  constructor
  · rintro ⟨bytes, _, ⟨width, rfl⟩, rfl, rfl⟩
    rw [le16_ofNat_valueOf width]
  · rintro rfl
    exact ⟨le16 value, rest, ⟨le16_length value, rfl⟩, ofNat_valueOf_le16 value, rfl⟩

theorem readU32_ok {value : UInt32} : readU32 input = .ok (value, rest) ↔ input = le32 value ++ rest := by
  unfold readU32
  simp only [Reader.bind_ok, Reader.pure_ok, take_ok]
  constructor
  · rintro ⟨bytes, _, ⟨width, rfl⟩, rfl, rfl⟩
    rw [le32_ofNat_valueOf width]
  · rintro rfl
    exact ⟨le32 value, rest, ⟨le32_length value, rfl⟩, ofNat_valueOf_le32 value, rfl⟩

theorem readU64_ok {value : UInt64} : readU64 input = .ok (value, rest) ↔ input = le64 value ++ rest := by
  unfold readU64
  simp only [Reader.bind_ok, Reader.pure_ok, take_ok]
  constructor
  · rintro ⟨bytes, _, ⟨width, rfl⟩, rfl, rfl⟩
    rw [le64_ofNat_valueOf width]
  · rintro rfl
    exact ⟨le64 value, rest, ⟨le64_length value, rfl⟩, ofNat_valueOf_le64 value, rfl⟩

theorem readI64_ok {value : Int64} : readI64 input = .ok (value, rest) ↔ input = le64 value.toUInt64 ++ rest := by
  unfold readI64
  simp only [Reader.bind_ok, Reader.pure_ok, readU64_ok]
  constructor
  · rintro ⟨word, _, rfl, rfl, rfl⟩
    rfl
  · rintro rfl
    exact ⟨value.toUInt64, rest, rfl, rfl, rfl⟩

theorem readBool_ok {value : Bool} : readBool input = .ok (value, rest) ↔ input = (if value then 1 else 0) :: rest := by
  unfold readBool
  rw [Reader.bind_ok]
  simp only [readU8_ok]
  constructor
  · rintro ⟨byte, middle, rfl, read⟩
    split at read
    · next zero =>
        obtain ⟨rfl, rfl⟩ := Reader.pure_ok.mp read
        rw [zero]
        rfl
    · split at read
      · next one =>
          obtain ⟨rfl, rfl⟩ := Reader.pure_ok.mp read
          rw [one]
          rfl
      · nomatch read
  · rintro rfl
    cases value with
    | false => exact ⟨0, rest, rfl, rfl⟩
    | true => exact ⟨1, rest, rfl, rfl⟩

/-- A length is followed by what it counts. -/
theorem readU32LenBounded_ok {what : String} {len : Nat} : readU32LenBounded what maxBytes input = .ok (len, rest) ↔
    (len ≤ maxBytes ∧ len ≤ u32Max) ∧ input = le32 (UInt32.ofNat len) ++ rest := by
  unfold readU32LenBounded
  simp only [Reader.bind_ok, Reader.pure_ok, Reader.refuseIf_ok, readU32_ok, not_lt]
  constructor
  · rintro ⟨raw, _, rfl, _, _, ⟨within, rfl⟩, rfl, rfl⟩
    rw [UInt32.ofNat_toNat]
    exact ⟨⟨within, Nat.le_of_lt_succ raw.toNat_lt⟩, rfl⟩
  · rintro ⟨⟨within, fits⟩, rfl⟩
    have same : (UInt32.ofNat len).toNat = len := UInt32.toNat_ofNat_of_lt' (Nat.lt_succ_of_le fits)
    exact ⟨_, _, rfl, (), _, ⟨same.trans_le within, rfl⟩, same, rfl⟩

theorem ownedUtf8_ok {what : String} {text : Text} : ownedUtf8 bytes what = .ok text ↔ Utf8.encode text = bytes := by
  rw [← Utf8.decode_eq_some, ownedUtf8]
  cases Utf8.decode bytes with
  | none => exact iff_of_false (by nofun) (by nofun)
  | some found => exact ⟨fun same => congrArg _ (Except.ok.inj same), fun same => congrArg _ (Option.some.inj same)⟩

/-- A value is read exactly when its bytes come first. -/
theorem readValue_inverts (maxBytes : Nat) : Reader.Inverts (readValue maxBytes) (Value.Fits maxBytes) Value.encoded := by
  intro input value rest
  rw [readValue, Reader.bind_ok]
  simp only [readU8_ok]
  constructor
  · rintro ⟨tag, middle, rfl, body⟩
    split at body
    · next tag =>
        obtain ⟨rfl, rfl⟩ := Reader.pure_ok.mp body
        exact ⟨trivial, by rw [tag]; rfl⟩
    split at body
    · next tag =>
        obtain ⟨flag, _, taken, last⟩ := Reader.bind_ok.mp body
        obtain ⟨rfl, rfl⟩ := Reader.pure_ok.mp last
        exact ⟨trivial, by rw [tag, readBool_ok.mp taken]; rfl⟩
    split at body
    · next tag =>
        obtain ⟨number, _, taken, last⟩ := Reader.bind_ok.mp body
        obtain ⟨rfl, rfl⟩ := Reader.pure_ok.mp last
        exact ⟨trivial, by rw [tag, readI64_ok.mp taken]; rfl⟩
    split at body
    · next tag =>
        obtain ⟨number, _, taken, last⟩ := Reader.bind_ok.mp body
        obtain ⟨rfl, rfl⟩ := Reader.pure_ok.mp last
        exact ⟨trivial, by rw [tag, readU64_ok.mp taken]; rfl⟩
    split at body
    · next tag =>
        obtain ⟨bits, _, taken, last⟩ := Reader.bind_ok.mp body
        obtain ⟨rfl, rfl⟩ := Reader.pure_ok.mp last
        exact ⟨trivial, by rw [tag, readU64_ok.mp taken]; rfl⟩
    split at body
    · next tag =>
        obtain ⟨len, _, length, body⟩ := Reader.bind_ok.mp body
        obtain ⟨raw, _, taken, body⟩ := Reader.bind_ok.mp body
        obtain ⟨text, _, owned, last⟩ := Reader.bind_ok.mp body
        obtain ⟨valid, rfl⟩ := Reader.lift_ok.mp owned
        obtain ⟨rfl, rfl⟩ := Reader.pure_ok.mp last
        obtain ⟨fits, rfl⟩ := readU32LenBounded_ok.mp length
        obtain ⟨rfl, rfl⟩ := take_ok.mp taken
        obtain rfl := ownedUtf8_ok.mp valid
        rw [Utf8.encode_length] at fits ⊢
        exact ⟨fits, by rw [tag, Value.encoded, List.cons_append, List.append_assoc]⟩
    split at body
    · next tag =>
        obtain ⟨len, _, length, body⟩ := Reader.bind_ok.mp body
        obtain ⟨contents, _, taken, last⟩ := Reader.bind_ok.mp body
        obtain ⟨rfl, rfl⟩ := Reader.pure_ok.mp last
        obtain ⟨fits, rfl⟩ := readU32LenBounded_ok.mp length
        obtain ⟨rfl, rfl⟩ := take_ok.mp taken
        exact ⟨fits, by rw [tag, Value.encoded, List.cons_append, List.append_assoc]⟩
    · nomatch body
  · rintro ⟨fits, rfl⟩
    cases value with
    | null => exact ⟨0, rest, rfl, rfl⟩
    | bool flag => exact ⟨1, _, rfl, Reader.bind_ok.mpr ⟨flag, rest, readBool_ok.mpr rfl, rfl⟩⟩
    | i64 number => exact ⟨2, _, rfl, Reader.bind_ok.mpr ⟨number, rest, readI64_ok.mpr rfl, rfl⟩⟩
    | u64 number => exact ⟨3, _, rfl, Reader.bind_ok.mpr ⟨number, rest, readU64_ok.mpr rfl, rfl⟩⟩
    | f64Bits bits => exact ⟨4, _, rfl, Reader.bind_ok.mpr ⟨bits, rest, readU64_ok.mpr rfl, rfl⟩⟩
    | utf8 text =>
        refine ⟨5, _, rfl, Reader.bind_ok.mpr ⟨text.byteLength, Utf8.encode text ++ rest, ?_, ?_⟩⟩
        · exact readU32LenBounded_ok.mpr ⟨fits, List.append_assoc _ _ _⟩
        · refine Reader.bind_ok.mpr ⟨Utf8.encode text, rest, take_ok.mpr ⟨Utf8.encode_length text, rfl⟩, ?_⟩
          exact Reader.bind_ok.mpr ⟨text, rest, Reader.lift_ok.mpr ⟨ownedUtf8_ok.mpr rfl, rfl⟩, rfl⟩
    | bytes contents =>
        refine ⟨6, _, rfl, Reader.bind_ok.mpr ⟨contents.length, contents ++ rest, ?_, ?_⟩⟩
        · exact readU32LenBounded_ok.mpr ⟨fits, List.append_assoc _ _ _⟩
        · exact Reader.bind_ok.mpr ⟨contents, rest, take_ok.mpr ⟨rfl, rfl⟩, rfl⟩

/-- The items ascend by their fields, and all of them come behind the previous field. -/
def Ascends {A : Type} (key : A → FieldId) (previous : Option FieldId) (items : List A) : Prop :=
  (∀ before, previous = some before → ∀ item ∈ items, before < key item) ∧
    items.Pairwise fun first second => key first < key second

theorem ascends_nil {A : Type} (key : A → FieldId) (previous : Option FieldId) : Ascends key previous [] :=
  ⟨fun _ _ _ absent => absurd absent List.not_mem_nil, List.Pairwise.nil⟩

theorem ascends_cons {A : Type} {key : A → FieldId} {previous : Option FieldId} {item : A} {items : List A} :
    Ascends key previous (item :: items) ↔
      (∀ before, previous = some before → before < key item) ∧ Ascends key (some (key item)) items := by
  constructor
  · rintro ⟨above, ascending⟩
    obtain ⟨first, tail⟩ := List.pairwise_cons.mp ascending
    refine ⟨fun before same => above before same item List.mem_cons_self, ?_, tail⟩
    intro before same other member
    rw [← Option.some.inj same]
    exact first other member
  · rintro ⟨first, above, tail⟩
    refine ⟨?_, List.pairwise_cons.mpr ⟨above (key item) rfl, tail⟩⟩
    intro before same other member
    rcases List.mem_cons.mp member with rfl | later
    · exact first before same
    · exact (first before same).trans (above (key item) rfl other later)

/-- Updates are read exactly when they ascend and their bytes come first. -/
theorem readUpdates_ok {count : Nat} {previous : Option FieldId} {updates : List FieldUpdate} :
    readUpdates maxBytes count previous input = .ok (updates, rest) ↔
      (updates.length = count ∧ Ascends FieldUpdate.field previous updates ∧ ∀ update ∈ updates, update.value.Fits maxBytes) ∧
        input = updates.flatMap FieldUpdate.encoded ++ rest := by
  induction count generalizing previous input rest updates with
  | zero =>
      rw [readUpdates, Reader.pure_ok]
      constructor
      · rintro ⟨rfl, rfl⟩
        exact ⟨⟨rfl, ascends_nil _ _, fun _ absent => absurd absent List.not_mem_nil⟩, rfl⟩
      · rintro ⟨⟨empty, _⟩, rfl⟩
        obtain rfl := List.length_eq_zero_iff.mp empty
        exact ⟨rfl, rfl⟩
  | succ count hypothesis =>
      rw [readUpdates]
      simp only [Reader.bind_ok, Reader.pure_ok, Reader.lift_ok, readU16_ok, checkAscending_ok, hypothesis,
        readValue_inverts maxBytes _ _ _]
      constructor
      · rintro ⟨number, _, rfl, _, _, ⟨behind, rfl⟩, value, _, ⟨fits, rfl⟩, others, _, ⟨⟨rfl, ascends, all⟩, rfl⟩, rfl,
          rfl⟩
        refine ⟨⟨rfl, ascends_cons.mpr ⟨behind, ascends⟩, List.forall_mem_cons.mpr ⟨fits, all⟩⟩, ?_⟩
        rw [List.flatMap_cons, FieldUpdate.encoded, List.append_assoc, List.append_assoc]
      · rintro ⟨⟨length, ascends, all⟩, rfl⟩
        cases updates with
        | nil => exact absurd length (Nat.zero_ne_add_one count)
        | cons update updates =>
            obtain ⟨fits, others⟩ := List.forall_mem_cons.mp all
            obtain ⟨behind, tail⟩ := ascends_cons.mp ascends
            refine ⟨update.field.value, update.value.encoded ++ (updates.flatMap FieldUpdate.encoded ++ rest), ?_, (), _,
              ⟨behind, rfl⟩, update.value, _, ⟨fits, rfl⟩, updates, rest, ⟨⟨Nat.succ.inj length, tail, others⟩, rfl⟩, rfl,
              rfl⟩
            rw [List.flatMap_cons, FieldUpdate.encoded, List.append_assoc, List.append_assoc]

end Readers

section Decoder

open Cursor

variable {mutation : Mutation} {bytes : List UInt8} {maxBytes : Nat}

/-- The bytes of a mutation in the order of its updates. -/
def Mutation.encoded : Mutation → List UInt8
  | .delete => [mutationEncodingVersion, 0]
  | .upsert updates => [mutationEncodingVersion, 1] ++
      (le32 (UInt32.ofNat updates.length) ++ updates.flatMap FieldUpdate.encoded)

/-- The updates are some, not too many, in order, and their values fit. -/
def Mutation.Canonical (maxBytes : Nat) : Mutation → Prop
  | .delete => True
  | .upsert updates => (updates ≠ [] ∧ updates.length ≤ maxMutationFields) ∧ Ascends FieldUpdate.field none updates ∧
      ∀ update ∈ updates, update.value.Fits maxBytes

theorem readMutation_inverts (maxBytes : Nat) :
    Reader.Inverts (readMutation maxBytes) (Mutation.Canonical maxBytes) Mutation.encoded := by
  intro input mutation rest
  have room : maxMutationFields < 2 ^ 32 := by decide
  rw [readMutation]
  simp only [Reader.bind_ok, Reader.refuseIf_ok, readU8_ok, not_not]
  constructor
  · rintro ⟨version, _, rfl, _, _, ⟨rfl, rfl⟩, tag, _, rfl, body⟩
    split at body
    · next tag =>
        obtain ⟨rfl, rfl⟩ := Reader.pure_ok.mp body
        exact ⟨trivial, by rw [tag]; rfl⟩
    split at body
    · next tag =>
        simp only [Reader.bind_ok, Reader.refuseIf_ok, Reader.pure_ok, readU32_ok, readUpdates_ok, not_lt] at body
        obtain ⟨count, _, rfl, _, _, ⟨some, rfl⟩, _, _, ⟨few, rfl⟩, updates, _, ⟨⟨length, shape⟩, rfl⟩, rfl, rfl⟩ := body
        have same : UInt32.ofNat updates.length = count := by rw [length, UInt32.ofNat_toNat]
        refine ⟨⟨⟨?_, length.trans_le few⟩, shape⟩, ?_⟩
        · rintro rfl
          exact some same.symm
        · rw [tag, Mutation.encoded, same, List.append_assoc, List.append_assoc]
          rfl
    · nomatch body
  · rintro ⟨canonical, rfl⟩
    cases mutation with
    | delete => exact ⟨mutationEncodingVersion, 0 :: rest, rfl, (), _, ⟨rfl, rfl⟩, 0, rest, rfl, rfl⟩
    | upsert updates =>
        obtain ⟨⟨some, few⟩, shape⟩ := canonical
        have count : (UInt32.ofNat updates.length).toNat = updates.length :=
          UInt32.toNat_ofNat_of_lt' (few.trans_lt room)
        have positive := List.length_pos_of_ne_nil some
        refine ⟨mutationEncodingVersion, 1 :: (le32 (UInt32.ofNat updates.length) ++
          (updates.flatMap FieldUpdate.encoded ++ rest)), ?_, (), _, ⟨rfl, rfl⟩, 1, _, rfl, ?_⟩
        · rw [Mutation.encoded, List.append_assoc, List.append_assoc]
          rfl
        · rw [if_neg (by decide), if_pos rfl]
          simp only [Reader.bind_ok, Reader.refuseIf_ok, Reader.pure_ok, readU32_ok, readUpdates_ok, not_lt]
          refine ⟨_, _, rfl, (), _, ⟨?_, rfl⟩, (), _, ⟨count.trans_le few, rfl⟩, updates, rest,
            ⟨⟨count.symm, shape⟩, rfl⟩, rfl, rfl⟩
          intro zero
          rw [zero] at count
          exact absurd count (Nat.ne_of_lt positive)

/-- The decoder accepts exactly the bytes of the canonical mutations. -/
theorem decodeMutation_ok : decodeMutation bytes maxBytes = .ok mutation ↔
    bytes.length ≤ maxBytes ∧ mutation.Canonical maxBytes ∧ bytes = mutation.encoded := by
  rw [decodeMutation, Cursor.run, Except.check_bind_ok, Except.refuseIf_ok, not_lt, Except.bind_eq_ok]
  apply and_congr_right'
  constructor
  · rintro ⟨⟨found, rest⟩, read, finish⟩
    rw [Except.check_bind_ok, Except.refuseIf_ok, not_not] at finish
    obtain ⟨rfl, same⟩ := finish
    obtain rfl := Except.ok.inj same
    have both := (readMutation_inverts maxBytes _ _ _).mp read
    rwa [List.append_nil] at both
  · rintro ⟨canonical, rfl⟩
    refine ⟨(mutation, []), ?_, ?_⟩
    · rw [readMutation_inverts maxBytes _ _ _, List.append_nil]
      exact ⟨canonical, rfl⟩
    · rw [Except.check_bind_ok, Except.refuseIf_ok, not_not]
      exact ⟨rfl, rfl⟩

end Decoder

section Selection

variable {updates sorted : List FieldUpdate} {previous : Option FieldId}

/-- The field comes behind the previous one. -/
def Behind (previous : Option FieldId) (update : FieldUpdate) : Prop :=
  ∀ before, previous = some before → before < update.field

theorem behind_iff {update : FieldUpdate} :
    previous.any (fun previous => update.field ≤ previous) = false ↔ Behind previous update := by
  cases previous with
  | none => exact iff_of_true rfl (by nofun)
  | some before =>
      rw [Option.any_some, decide_eq_false_iff_not, not_le]
      constructor
      · rintro above other ⟨⟩
        exact above
      · exact fun above => above before rfl

/-- The lowest of the updates behind the previous field, or none when there is none. -/
def Selects (updates : List FieldUpdate) (previous : Option FieldId) : Option FieldUpdate → Prop
  | none => ∀ update ∈ updates, ¬ Behind previous update
  | some best => best ∈ updates ∧ Behind previous best ∧
      ∀ update ∈ updates, Behind previous update → best.field ≤ update.field

theorem nextUpdateAfter_selects (updates : List FieldUpdate) (previous : Option FieldId) :
    Selects updates previous (nextUpdateAfter updates previous) := by
  induction updates using List.reverseRecOn with
  | nil => exact fun _ absent => absurd absent List.not_mem_nil
  | append_singleton updates last hypothesis =>
      rw [nextUpdateAfter, List.foldl_concat, ← nextUpdateAfter]
      by_cases behind : Behind previous last
      · rw [behind_iff.mpr behind, if_neg Bool.false_ne_true]
        cases found : nextUpdateAfter updates previous with
        | none =>
            rw [found] at hypothesis
            refine ⟨List.mem_append_right _ List.mem_cons_self, behind, ?_⟩
            intro update member above
            rcases List.mem_append.mp member with before | here
            · exact absurd above (hypothesis update before)
            · rw [List.mem_singleton.mp here]
        | some best =>
            rw [found] at hypothesis
            obtain ⟨present, above, least⟩ := hypothesis
            rw [Option.all_some]
            by_cases lower : last.field < best.field
            · rw [if_pos (decide_eq_true lower)]
              refine ⟨List.mem_append_right _ List.mem_cons_self, behind, ?_⟩
              intro update member later
              rcases List.mem_append.mp member with before | here
              · exact lower.le.trans (least update before later)
              · rw [List.mem_singleton.mp here]
            · rw [if_neg (by rw [decide_eq_true_eq]; exact lower)]
              refine ⟨List.mem_append_left _ present, above, ?_⟩
              intro update member later
              rcases List.mem_append.mp member with before | here
              · exact least update before later
              · rw [List.mem_singleton.mp here]
                exact not_lt.mp lower
      · rw [if_pos (Bool.of_not_eq_false fun not => behind (behind_iff.mp not))]
        have others : ∀ update ∈ updates ++ [last], Behind previous update → update ∈ updates := by
          intro update member above
          rcases List.mem_append.mp member with before | here
          · exact before
          · rw [List.mem_singleton.mp here] at above
            exact absurd above behind
        cases found : nextUpdateAfter updates previous with
        | none =>
            rw [found] at hypothesis
            exact fun update member above => hypothesis update (others update member above) above
        | some best =>
            rw [found] at hypothesis
            obtain ⟨present, above, least⟩ := hypothesis
            exact ⟨List.mem_append_left _ present, above,
              fun update member later => least update (others update member later) later⟩

/-- What is left of the updates in order starts with the selected one. -/
theorem nextUpdateAfter_head {update : FieldUpdate}
    (left : ∀ other, other ∈ update :: sorted ↔ other ∈ updates ∧ Behind previous other)
    (ascending : (update :: sorted).Pairwise fun first second => first.field < second.field) :
    nextUpdateAfter updates previous = some update := by
  have selects := nextUpdateAfter_selects updates previous
  obtain ⟨member, behind⟩ := (left update).mp List.mem_cons_self
  cases found : nextUpdateAfter updates previous with
  | none =>
      rw [found] at selects
      exact absurd behind (selects update member)
  | some best =>
      rw [found] at selects
      obtain ⟨present, above, least⟩ := selects
      rcases List.mem_cons.mp ((left best).mpr ⟨present, above⟩) with same | later
      · rw [same]
      · have low := least update member behind
        have high := (List.pairwise_cons.mp ascending).1 best later
        exact absurd high (not_lt.mpr low)

/-- The updates that are left are written in order. -/
theorem writeUpdates_ok {bytes : List UInt8}
    (left : ∀ other, other ∈ sorted ↔ other ∈ updates ∧ Behind previous other)
    (ascending : sorted.Pairwise fun first second => first.field < second.field) :
    writeUpdates updates sorted.length previous = .ok bytes ↔
      (∀ update ∈ sorted, update.value.Writable) ∧ bytes = sorted.flatMap FieldUpdate.encoded := by
  induction sorted generalizing previous bytes with
  | nil =>
      constructor
      · intro written
        exact ⟨fun _ absent => absurd absent List.not_mem_nil, (Except.ok.inj written).symm⟩
      · rintro ⟨_, rfl⟩
        rfl
  | cons update sorted hypothesis =>
      obtain ⟨first, tail⟩ := List.pairwise_cons.mp ascending
      have rest : ∀ other, other ∈ sorted ↔ other ∈ updates ∧ Behind (some update.field) other := by
        intro other
        constructor
        · intro member
          refine ⟨((left other).mp (List.mem_cons_of_mem _ member)).1, ?_⟩
          rintro before ⟨⟩
          exact first other member
        · rintro ⟨member, behind⟩
          have later := behind update.field rfl
          have start := ((left update).mp List.mem_cons_self).2
          have present := (left other).mpr ⟨member, fun before same => (start before same).trans later⟩
          rcases List.mem_cons.mp present with rfl | found
          · exact absurd later (lt_irrefl _)
          · exact found
      rw [List.length_cons, writeUpdates, nextUpdateAfter_head left ascending]
      simp only [Except.bind_eq_ok, writeValue_ok, hypothesis rest tail]
      constructor
      · rintro ⟨_, ⟨writable, rfl⟩, _, ⟨others, rfl⟩, same⟩
        refine ⟨List.forall_mem_cons.mpr ⟨writable, others⟩, ?_⟩
        rw [← Except.ok.inj same, List.flatMap_cons, FieldUpdate.encoded, List.append_assoc]
      · rintro ⟨all, rfl⟩
        obtain ⟨writable, others⟩ := List.forall_mem_cons.mp all
        refine ⟨_, ⟨writable, rfl⟩, _, ⟨others, rfl⟩, ?_⟩
        rw [List.flatMap_cons, FieldUpdate.encoded, List.append_assoc]
        rfl

end Selection

section Sizes

variable {updates : List FieldUpdate} {size : Nat}

theorem Value.Writable.length_lt {value : Value} (writable : value.Writable) : value.encoded.length < 2 ^ 33 - 2 := by
  have small : u32Max = 2 ^ 32 - 1 := rfl
  cases value with
  | utf8 text =>
      have bound : text.byteLength ≤ u32Max := writable
      rw [Value.encoded, List.length_cons, List.length_append, le32_length, Utf8.encode_length]
      omega
  | bytes contents =>
      have bound : contents.length ≤ u32Max := writable
      rw [Value.encoded, List.length_cons, List.length_append, le32_length]
      omega
  | null => exact (by decide : 1 < 2 ^ 33 - 2)
  | bool flag => exact (by decide : 2 < 2 ^ 33 - 2)
  | i64 number => rw [Value.encoded, List.length_cons, le64_length]; decide
  | u64 number => rw [Value.encoded, List.length_cons, le64_length]; decide
  | f64Bits bits => rw [Value.encoded, List.length_cons, le64_length]; decide

theorem FieldUpdate.encoded_length (update : FieldUpdate) :
    update.encoded.length = 2 + update.value.encoded.length := by
  rw [FieldUpdate.encoded, List.length_append, le16_length]

/-- Few enough updates never leave the sixty-four bits. -/
theorem foldlM_size_ok {start : Nat} (room : start + updates.length * 2 ^ 33 < 2 ^ 64) :
    updates.foldlM (fun size update => do
        let size ← checkedAddSize size 2 "mutation encoding"
        let value ← valueEncodedSize update.value
        checkedAddSize size value "mutation encoding") start = .ok size ↔
      (∀ update ∈ updates, update.value.Writable) ∧ size = start + (updates.flatMap FieldUpdate.encoded).length := by
  induction updates generalizing start with
  | nil =>
      constructor
      · intro same
        exact ⟨fun _ absent => absurd absent List.not_mem_nil, (Except.ok.inj same).symm⟩
      · rintro ⟨_, rfl⟩
        rfl
  | cons update updates hypothesis =>
      rw [List.length_cons] at room
      rw [List.foldlM_cons]
      simp only [Except.bind_eq_ok, checkedAddSize, checkedAdd_ok, valueEncodedSize_ok]
      rw [List.flatMap_cons, List.length_append, update.encoded_length]
      constructor
      · rintro ⟨_, ⟨_, ⟨_, rfl⟩, _, ⟨writable, rfl⟩, _, rfl⟩, total⟩
        have short := writable.length_lt
        obtain ⟨others, rfl⟩ := (hypothesis (by omega)).mp total
        exact ⟨List.forall_mem_cons.mpr ⟨writable, others⟩, by omega⟩
      · rintro ⟨all, rfl⟩
        obtain ⟨writable, others⟩ := List.forall_mem_cons.mp all
        have short := writable.length_lt
        refine ⟨_, ⟨_, ⟨by omega, rfl⟩, _, ⟨writable, rfl⟩, by omega, rfl⟩, ?_⟩
        exact (hypothesis (by omega)).mpr ⟨others, by omega⟩

end Sizes

namespace Mutation

/-- An upsert that has its shape, and whose values can be written. -/
def Encodable : Mutation → Prop
  | .delete => True
  | .upsert updates => validateUpsertShape updates = .ok () ∧ ∀ update ∈ updates, update.value.Writable

/-- The mutation with its updates in the order of their fields. -/
def sorted : Mutation → Mutation
  | .delete => .delete
  | .upsert updates => .upsert ((Sorting.UnstableSort.stable FieldUpdate.field).sort updates)

variable {mutation : Mutation} {bytes : List UInt8} {maxBytes : Nat}

/-- The computed size is the number of bytes that are written. -/
theorem encodedSize_ok {size : Nat} : mutationEncodedSize mutation = .ok size ↔
    mutation.Encodable ∧ size = mutation.sorted.encoded.length := by
  cases mutation with
  | delete => exact ⟨fun same => ⟨trivial, (Except.ok.inj same).symm⟩, fun both => by rw [both.2]; rfl⟩
  | upsert updates =>
      have perm := (Sorting.UnstableSort.stable FieldUpdate.field).perm updates
      have length : (Mutation.upsert updates).sorted.encoded.length =
          6 + (updates.flatMap FieldUpdate.encoded).length := by
        rw [sorted, encoded, List.length_append, List.length_append, le32_length, (perm.flatMap_right _).length_eq,
          ← Nat.add_assoc]
        rfl
      rw [mutationEncodedSize, Except.check_bind_ok, Except.bind_eq_ok, length]
      simp only [checkedAddSize, checkedAdd_ok]
      have limit : maxMutationFields = 4096 := rfl
      constructor
      · rintro ⟨shape, _, ⟨_, rfl⟩, total⟩
        have few := (validateUpsertShape_ok.mp shape).2.1
        obtain ⟨writable, same⟩ := (foldlM_size_ok (by omega)).mp total
        exact ⟨⟨shape, writable⟩, same⟩
      · rintro ⟨⟨shape, writable⟩, same⟩
        have few := (validateUpsertShape_ok.mp shape).2.1
        exact ⟨shape, 6, ⟨by decide, rfl⟩, (foldlM_size_ok (by omega)).mpr ⟨writable, same⟩⟩

/-- Updates of different fields are in strictly ascending order when they are sorted. -/
theorem ascends_sort {updates : List FieldUpdate} (apart : updates.Pairwise fun first second => first.field ≠ second.field) :
    ((Sorting.UnstableSort.stable FieldUpdate.field).sort updates).Pairwise
      fun first second => first.field < second.field := by
  have different := ((Sorting.UnstableSort.stable FieldUpdate.field).perm updates).pairwise_iff
    (fun {_ _} unequal => Ne.symm unequal) |>.mpr apart
  have ordered := (Sorting.UnstableSort.stable FieldUpdate.field).sorted updates
  exact (ordered.and different).imp fun both => lt_of_le_of_ne both.1 both.2

/-- The encoder writes the bytes of the sorted mutation, as long as they are within the limit. -/
theorem encode_ok : encodeMutation mutation maxBytes = .ok bytes ↔
    mutation.Encodable ∧ bytes.length ≤ maxBytes ∧ bytes = mutation.sorted.encoded := by
  unfold encodeMutation
  rw [Except.bind_eq_ok]
  simp only [encodedSize_ok, Except.check_bind_ok, Except.refuseIf_ok, not_lt]
  cases mutation with
  | delete =>
      constructor
      · rintro ⟨_, ⟨encodable, rfl⟩, within, same⟩
        obtain rfl := Except.ok.inj same
        exact ⟨encodable, within, rfl⟩
      · rintro ⟨encodable, within, rfl⟩
        exact ⟨_, ⟨encodable, rfl⟩, within, rfl⟩
  | upsert updates =>
      have perm := (Sorting.UnstableSort.stable FieldUpdate.field).perm updates
      have written : ∀ body, validateUpsertShape updates = .ok () → (writeUpdates updates updates.length none = .ok body ↔
          (∀ update ∈ updates, update.value.Writable) ∧
            body = ((Sorting.UnstableSort.stable FieldUpdate.field).sort updates).flatMap FieldUpdate.encoded) := by
        intro body shape
        have apart := (validateUpsertShape_ok.mp shape).2.2
        have all : ∀ other, other ∈ (Sorting.UnstableSort.stable FieldUpdate.field).sort updates ↔
            other ∈ updates ∧ Behind none other :=
          fun other => ⟨fun member => ⟨perm.mem_iff.mp member, by nofun⟩, fun both => perm.mem_iff.mpr both.1⟩
        have sorted := @writeUpdates_ok updates _ none body all (ascends_sort apart)
        rw [perm.length_eq] at sorted
        rw [sorted]
        simp only [perm.mem_iff]
      simp only [Except.bind_eq_ok, writeLength_ok]
      constructor
      · rintro ⟨_, ⟨encodable, rfl⟩, within, _, shape, _, ⟨few, rfl⟩, body, lists, same⟩
        obtain ⟨_, rfl⟩ := (written body shape).mp lists
        obtain rfl := Except.ok.inj same
        have whole : (Mutation.upsert updates).sorted.encoded = [mutationEncodingVersion, 1] ++
            (le32 (UInt32.ofNat updates.length) ++
              ((Sorting.UnstableSort.stable FieldUpdate.field).sort updates).flatMap FieldUpdate.encoded) := by
          rw [sorted, encoded, perm.length_eq]
        rw [whole] at within
        exact ⟨encodable, within, whole.symm⟩
      · rintro ⟨encodable, within, rfl⟩
        have few := (validateUpsertShape_ok.mp encodable.1).2.1
        refine ⟨_, ⟨encodable, rfl⟩, within, (), encodable.1, _, ⟨few.trans (by decide), rfl⟩, _,
          (written _ encodable.1).mpr ⟨encodable.2, rfl⟩, ?_⟩
        rw [sorted, encoded, perm.length_eq]
        rfl

end Mutation

end Temnion.Schemas
