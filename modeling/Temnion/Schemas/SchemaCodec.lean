import Temnion.Schemas.Encoding

/-
This file encodes schemas and decodes them again.
-/

namespace Temnion.Schemas

open LittleEndian

def schemaEncodingVersion : UInt8 := 1

namespace FieldType

def tag : FieldType → UInt8
  | .bool => 0
  | .i64 => 1
  | .u64 => 2
  | .f64 => 3
  | .utf8 => 4
  | .bytes => 5

def fromTag (tag : UInt8) : Except SchemaError FieldType :=
  if tag = 0 then .ok .bool
  else if tag = 1 then .ok .i64
  else if tag = 2 then .ok .u64
  else if tag = 3 then .ok .f64
  else if tag = 4 then .ok .utf8
  else if tag = 5 then .ok .bytes
  else .error (.invalidFieldTypeTag tag)

theorem fromTag_ok {byte : UInt8} {kind : FieldType} : fromTag byte = .ok kind ↔ byte = kind.tag := by
  constructor
  · intro known
    unfold fromTag at known
    repeat' split at known
    all_goals cases known
    all_goals assumption
  · rintro rfl
    cases kind <;> rfl

end FieldType

section Encoder

/-- A length is written in two bytes, or refused. -/
def writeShort (what : String) (len : Nat) : Except SchemaError (List UInt8) :=
  if len ≤ 65535 then .ok (le16 (UInt16.ofNat len)) else .error (.lengthOutOfRange what len 65535)

def flag (value : Bool) : UInt8 := if value then 1 else 0

def writeUnit : Option Text → Except SchemaError (List UInt8)
  | none => .ok [0]
  | some unit => do
      let length ← writeShort "field unit" unit.byteLength
      return 1 :: (length ++ Utf8.encode unit)

def writeField (field : Field) : Except SchemaError (List UInt8) := do
  let length ← writeShort "field name" field.name.byteLength
  let unit ← writeUnit field.unit
  return le16 field.id.value ++ (field.kind.tag :: flag field.nullable :: (length ++ (Utf8.encode field.name ++ unit)))

def fieldEncodedSize (size : Nat) (field : Field) : Except SchemaError Nat := do
  let size ← checkedAddSize size 2 "schema encoding"
  let size ← checkedAddSize size 1 "schema encoding"
  let size ← checkedAddSize size 1 "schema encoding"
  let size ← checkedAddSize size 2 "schema encoding"
  let size ← checkedAddSize size field.name.byteLength "schema encoding"
  let size ← checkedAddSize size 1 "schema encoding"
  match field.unit with
  | none => return size
  | some unit => do
      let size ← checkedAddSize size 2 "schema encoding"
      checkedAddSize size unit.byteLength "schema encoding"

def schemaEncodedSize (schema : Schema) : Except SchemaError Nat := do
  refuseIf (maxSchemaFields < schema.fields.length) (.tooManyFields schema.fields.length maxSchemaFields)
  schema.fields.foldlM fieldEncodedSize 13

def encodeSchema (schema : Schema) (maxBytes : Nat) : Except SchemaError (List UInt8) := do
  let size ← schemaEncodedSize schema
  refuseIf (maxBytes < size) (.outputTooLarge size maxBytes)
  let count ← writeLength "field count" schema.fields.length
  let fields ← schema.fields.mapM writeField
  return schemaEncodingVersion :: (le32 schema.id ++ (le32 schema.version ++ (count ++ fields.flatten)))

end Encoder

section Decoder

open Cursor

def readU16LenBounded (what : String) (max : Nat) : Reader SchemaError Nat := do
  let len ← readU16
  refuseIf (max < len.toNat) (.metadataTooLong what len.toNat max)
  return len.toNat

/-- A text behind its length. -/
def readShortText (what : String) (max : Nat) : Reader SchemaError Text := do
  let len ← readU16LenBounded what max
  let raw ← take len
  ownedUtf8 raw what

def readUnit (hasUnit : Bool) : Reader SchemaError (Option Text) :=
  if hasUnit then do
    let unit ← readShortText "field unit" maxFieldUnitBytes
    return some unit
  else return none

def readField (previous : Option FieldId) : Reader SchemaError Field := do
  let id ← readU16
  checkAscending .duplicateFieldId previous ⟨id⟩
  let tag ← readU8
  let kind ← FieldType.fromTag tag
  let nullable ← readBool
  let name ← readShortText "field name" maxFieldNameBytes
  let hasUnit ← readBool
  let unit ← readUnit hasUnit
  return ⟨⟨id⟩, name, kind, nullable, unit⟩

def readFields : Nat → Option FieldId → Reader SchemaError (List Field)
  | 0, _ => return []
  | count + 1, previous => do
      let field ← readField previous
      let fields ← readFields count (some field.id)
      return field :: fields

def readSchema : Reader SchemaError (SchemaId × UInt32 × List Field) := do
  let version ← readU8
  refuseIf (version ≠ schemaEncodingVersion) (.invalidEncodingVersion "schema" version)
  let schemaId ← readU32
  let schemaVersion ← readU32
  let count ← readU32
  refuseIf (maxSchemaFields < count.toNat) (.tooManyFields count.toNat maxSchemaFields)
  let fields ← readFields count.toNat none
  return (schemaId, schemaVersion, fields)

def decodeSchema (bytes : List UInt8) (maxBytes : Nat) : Except SchemaError Schema := do
  let (id, version, fields) ← Cursor.run readSchema bytes maxBytes
  Schema.new id version fields

end Decoder

section Fields

/-- The name and the unit are no longer than they may be. -/
def Field.Fits (field : Field) : Prop :=
  field.name.byteLength ≤ maxFieldNameBytes ∧ ∀ unit, field.unit = some unit → unit.byteLength ≤ maxFieldUnitBytes

def unitBytes : Option Text → List UInt8
  | none => [0]
  | some unit => 1 :: (le16 (UInt16.ofNat unit.byteLength) ++ Utf8.encode unit)

def Field.encoded (field : Field) : List UInt8 :=
  le16 field.id.value ++ (field.kind.tag :: flag field.nullable ::
    (le16 (UInt16.ofNat field.name.byteLength) ++ (Utf8.encode field.name ++ unitBytes field.unit)))

variable {field : Field} {fields : List Field} {input rest bytes : List UInt8}

theorem validateMetadata_fits {done : Unit} (valid : validateMetadata field = .ok done) : field.Fits := by
  rw [validateMetadata, Except.check_bind_ok] at valid
  obtain ⟨name, unit⟩ := valid
  constructor
  · rw [validateFieldName, Except.check_bind_ok, Except.check_bind_ok, Except.refuseIf_ok] at name
    exact Nat.le_of_not_lt (Except.refuseIf_ok.mp name.2.1)
  · intro text same
    rw [same, validateFieldUnit, Except.check_bind_ok, Except.refuseIf_ok, Except.refuseIf_ok] at unit
    exact Nat.le_of_not_lt unit.2

theorem writeShort_ok {what : String} {len : Nat} (short : len ≤ 65535) :
    writeShort what len = .ok (le16 (UInt16.ofNat len)) := if_pos short

theorem writeField_fits (fits : field.Fits) : writeField field = .ok field.encoded := by
  have name : maxFieldNameBytes ≤ 65535 := by decide
  have unit : maxFieldUnitBytes ≤ 65535 := by decide
  have written : writeUnit field.unit = .ok (unitBytes field.unit) := by
    cases same : field.unit with
    | none => rfl
    | some text =>
        rw [writeUnit, writeShort_ok ((fits.2 text same).trans unit)]
        rfl
  rw [writeField, writeShort_ok (fits.1.trans name), Except.ok_bind, written]
  rfl

theorem readU16LenBounded_ok {what : String} {max len : Nat} (small : max ≤ 65535) :
    readU16LenBounded what max input = .ok (len, rest) ↔ len ≤ max ∧ input = le16 (UInt16.ofNat len) ++ rest := by
  unfold readU16LenBounded
  simp only [Reader.bind_ok, Reader.pure_ok, Reader.refuseIf_ok, readU16_ok, not_lt]
  constructor
  · rintro ⟨raw, _, rfl, _, _, ⟨within, rfl⟩, rfl, rfl⟩
    rw [UInt16.ofNat_toNat]
    exact ⟨within, rfl⟩
  · rintro ⟨within, rfl⟩
    have same : (UInt16.ofNat len).toNat = len := UInt16.toNat_ofNat_of_lt' (show _ < 65536 by omega)
    exact ⟨_, _, rfl, (), _, ⟨same.trans_le within, rfl⟩, same, rfl⟩

theorem readShortText_ok {what : String} {max : Nat} {text : Text} (small : max ≤ 65535) :
    readShortText what max input = .ok (text, rest) ↔
      text.byteLength ≤ max ∧ input = le16 (UInt16.ofNat text.byteLength) ++ (Utf8.encode text ++ rest) := by
  unfold readShortText
  simp only [Reader.bind_ok, Reader.lift_ok, readU16LenBounded_ok small, take_ok, ownedUtf8_ok]
  constructor
  · rintro ⟨len, _, ⟨within, rfl⟩, raw, _, ⟨rfl, rfl⟩, rfl, rfl⟩
    rw [Utf8.encode_length] at within ⊢
    exact ⟨within, rfl⟩
  · rintro ⟨within, rfl⟩
    exact ⟨_, _, ⟨within, rfl⟩, _, _, ⟨Utf8.encode_length text, rfl⟩, rfl, rfl⟩

theorem readUnit_ok {hasUnit : Bool} {unit : Option Text} : readUnit hasUnit input = .ok (unit, rest) ↔
    (∀ text, unit = some text → text.byteLength ≤ maxFieldUnitBytes) ∧ flag hasUnit :: input = unitBytes unit ++ rest := by
  have small : maxFieldUnitBytes ≤ 65535 := by decide
  cases hasUnit with
  | false =>
      change (Pure.pure none : Reader SchemaError (Option Text)) input = _ ↔ _
      rw [Reader.pure_ok]
      cases unit with
      | none =>
          constructor
          · rintro ⟨_, rfl⟩
            exact ⟨by nofun, rfl⟩
          · exact fun both => ⟨rfl, List.tail_eq_of_cons_eq both.2⟩
      | some text =>
          refine iff_of_false (by nofun) fun both => ?_
          exact absurd (List.head_eq_of_cons_eq both.2) (by decide)
  | true =>
      change (readShortText "field unit" maxFieldUnitBytes >>= fun unit => Pure.pure (some unit)) input = _ ↔ _
      rw [Reader.bind_ok]
      simp only [Reader.pure_ok, readShortText_ok small]
      cases unit with
      | none =>
          constructor
          · rintro ⟨_, _, _, same, _⟩
            contradiction
          · exact fun both => absurd (List.head_eq_of_cons_eq both.2) (by decide)
      | some text =>
          constructor
          · rintro ⟨found, _, ⟨within, rfl⟩, same, rfl⟩
            obtain rfl := Option.some.inj same
            refine ⟨fun other same => Option.some.inj same ▸ within, ?_⟩
            rw [unitBytes, List.cons_append, List.append_assoc]
            rfl
          · rintro ⟨within, same⟩
            refine ⟨text, rest, ⟨within text rfl, ?_⟩, rfl, rfl⟩
            rw [unitBytes, List.cons_append, List.append_assoc] at same
            exact List.tail_eq_of_cons_eq same

/-- A field is read exactly when it comes behind the one before it and its bytes come first. -/
theorem readField_ok {previous : Option FieldId} : readField previous input = .ok (field, rest) ↔
    ((∀ before, previous = some before → before < field.id) ∧ field.Fits) ∧ input = field.encoded ++ rest := by
  have small : maxFieldNameBytes ≤ 65535 := by decide
  unfold readField
  simp only [Reader.bind_ok, Reader.pure_ok, Reader.lift_ok, readU16_ok, checkAscending_ok, readU8_ok,
    FieldType.fromTag_ok, readBool_ok, readShortText_ok small, readUnit_ok]
  constructor
  · rintro ⟨id, _, rfl, _, _, ⟨behind, rfl⟩, _, _, rfl, kind, _, ⟨rfl, rfl⟩, nullable, _, rfl, name, _, ⟨named, rfl⟩,
      hasUnit, _, rfl, unit, _, ⟨united, last⟩, rfl, rfl⟩
    refine ⟨⟨behind, named, united⟩, ?_⟩
    have unit' : (if hasUnit = true then 1 else 0) = flag hasUnit := rfl
    rw [unit', last, Field.encoded]
    simp only [List.append_assoc, List.cons_append]
    rfl
  · rintro ⟨⟨behind, named, united⟩, rfl⟩
    have last : ∃ middle, unitBytes field.unit ++ rest = flag field.unit.isSome :: middle := by
      cases field.unit with
      | none => exact ⟨_, rfl⟩
      | some text => exact ⟨_, rfl⟩
    obtain ⟨middle, split⟩ := last
    refine ⟨field.id.value, _, ?_, (), _, ⟨behind, rfl⟩, field.kind.tag, _, rfl, field.kind, _, ⟨rfl, rfl⟩,
      field.nullable, _, rfl, field.name, _, ⟨named, rfl⟩, field.unit.isSome, middle, rfl, field.unit, rest,
      ⟨united, split.symm⟩, rfl, rfl⟩
    rw [Field.encoded]
    simp only [List.append_assoc, List.cons_append]
    rw [split]
    rfl

/-- Fields are read exactly when they ascend and their bytes come first. -/
theorem readFields_ok {count : Nat} {previous : Option FieldId} : readFields count previous input = .ok (fields, rest) ↔
    (fields.length = count ∧ Ascends Field.id previous fields ∧ ∀ field ∈ fields, field.Fits) ∧
      input = fields.flatMap Field.encoded ++ rest := by
  induction count generalizing previous input rest fields with
  | zero =>
      rw [readFields, Reader.pure_ok]
      constructor
      · rintro ⟨rfl, rfl⟩
        exact ⟨⟨rfl, ascends_nil _ _, fun _ absent => absurd absent List.not_mem_nil⟩, rfl⟩
      · rintro ⟨⟨empty, _⟩, rfl⟩
        obtain rfl := List.length_eq_zero_iff.mp empty
        exact ⟨rfl, rfl⟩
  | succ count hypothesis =>
      rw [readFields]
      simp only [Reader.bind_ok, Reader.pure_ok, readField_ok, hypothesis]
      constructor
      · rintro ⟨field, _, ⟨⟨behind, fits⟩, rfl⟩, others, _, ⟨⟨rfl, ascends, all⟩, rfl⟩, rfl, rfl⟩
        refine ⟨⟨rfl, ascends_cons.mpr ⟨behind, ascends⟩, List.forall_mem_cons.mpr ⟨fits, all⟩⟩, ?_⟩
        rw [List.flatMap_cons, List.append_assoc]
      · rintro ⟨⟨length, ascends, all⟩, rfl⟩
        cases fields with
        | nil => nomatch length
        | cons field fields =>
            obtain ⟨fits, others⟩ := List.forall_mem_cons.mp all
            obtain ⟨behind, tail⟩ := ascends_cons.mp ascends
            refine ⟨field, fields.flatMap Field.encoded ++ rest, ⟨⟨behind, fits⟩, ?_⟩, fields, rest,
              ⟨⟨Nat.succ.inj length, tail, others⟩, rfl⟩, rfl, rfl⟩
            rw [List.flatMap_cons, List.append_assoc]

end Fields

section Whole

variable {schema : Schema} {bytes input rest : List UInt8} {maxBytes : Nat}

/-- The bytes of a schema with these parts. -/
def partsBytes (id : SchemaId) (version : UInt32) (fields : List Field) : List UInt8 :=
  schemaEncodingVersion :: (le32 id ++ (le32 version ++ (le32 (UInt32.ofNat fields.length) ++
    fields.flatMap Field.encoded)))

theorem readSchema_ok {id : SchemaId} {version : UInt32} {fields : List Field} :
    readSchema input = .ok ((id, version, fields), rest) ↔
      (fields.length ≤ maxSchemaFields ∧ Ascends Field.id none fields ∧ ∀ field ∈ fields, field.Fits) ∧
        input = partsBytes id version fields ++ rest := by
  have room : maxSchemaFields < 2 ^ 32 := by decide
  unfold readSchema
  simp only [Reader.bind_ok, Reader.pure_ok, Reader.refuseIf_ok, readU8_ok, readU32_ok, readFields_ok, not_lt, not_not]
  constructor
  · rintro ⟨_, _, rfl, _, _, ⟨rfl, rfl⟩, id', _, rfl, version', _, rfl, count, _, rfl, _, _, ⟨few, rfl⟩, fields', _,
      ⟨⟨length, shape⟩, rfl⟩, same, rfl⟩
    obtain ⟨rfl, rfl, rfl⟩ : id' = id ∧ version' = version ∧ fields' = fields := by
      rw [Prod.mk.injEq, Prod.mk.injEq] at same
      exact same
    have narrow : UInt32.ofNat fields'.length = count := by rw [length, UInt32.ofNat_toNat]
    refine ⟨⟨length.trans_le few, shape⟩, ?_⟩
    rw [partsBytes, narrow]
    simp only [List.append_assoc, List.cons_append]
  · rintro ⟨⟨few, shape⟩, rfl⟩
    have count : (UInt32.ofNat fields.length).toNat = fields.length := UInt32.toNat_ofNat_of_lt' (few.trans_lt room)
    refine ⟨schemaEncodingVersion, _, ?_, (), _, ⟨rfl, rfl⟩, id, _, rfl, version, _, rfl, UInt32.ofNat fields.length, _, rfl,
      (), _, ⟨count.trans_le few, rfl⟩, fields, rest, ⟨⟨count.symm, shape⟩, rfl⟩, rfl, rfl⟩
    rw [partsBytes]
    simp only [List.append_assoc, List.cons_append]

theorem repeatedNeighbour_of_ascending {A K : Type} [LinearOrder K] {key : A → K} {list : List A}
    (ascending : list.Pairwise fun first second => key first < key second) : repeatedNeighbour key list = none := by
  induction list with
  | nil => rfl
  | cons first rest hypothesis =>
      obtain ⟨below, tail⟩ := List.pairwise_cons.mp ascending
      cases rest with
      | nil => rfl
      | cons second rest =>
          rw [repeatedNeighbour, if_neg (below second List.mem_cons_self).ne]
          exact hypothesis tail

theorem Schema.eq_of_parts {first second : Schema} (id : first.id = second.id) (version : first.version = second.version)
    (fields : first.fields = second.fields) : first = second := by
  cases first
  cases second
  cases id
  cases version
  cases fields
  rfl

/-- The parts of a schema make up this schema. -/
theorem Schema.new_parts (schema : Schema) : Schema.new schema.id schema.version schema.fields = .ok schema := by
  have sorted : sortFields schema.fields = schema.fields :=
    Sorting.UnstableSort.stable_sort (schema.ascending.imp le_of_lt)
  have neighbours : repeatedNeighbour Field.id (sortFields schema.fields) = none := by
    rw [sorted, repeatedNeighbour_of_ascending schema.ascending]
  have names : repeated Field.name (sortFields schema.fields) = none := by
    rw [sorted, repeated_eq_none.mpr schema.apart]
  unfold Schema.new
  rw [dif_neg schema.positive, dif_neg (Nat.not_lt.mpr schema.bounded)]
  split
  · next error failed => cases failed.symm.trans schema.described
  · split
    · next field found => cases found.symm.trans neighbours
    · split
      · next field found => cases found.symm.trans names
      · exact congrArg Except.ok (Schema.eq_of_parts rfl rfl sorted)

/-- Parts whose fields ascend are the parts of the schema that they make up. -/
theorem Schema.new_ok {id : SchemaId} {version : UInt32} {fields : List Field}
    (created : Schema.new id version fields = .ok schema) (ascending : Ascends Field.id none fields) :
    schema.id = id ∧ schema.version = version ∧ schema.fields = fields := by
  have sorted : sortFields fields = fields := Sorting.UnstableSort.stable_sort (ascending.2.imp le_of_lt)
  unfold Schema.new at created
  repeat' split at created
  all_goals cases created
  exact ⟨rfl, rfl, sorted⟩

/-- The fields of a schema fit. -/
theorem Schema.fits (schema : Schema) : ∀ field ∈ schema.fields, field.Fits :=
  fun field member => validateMetadata_fits (Except.forM_ok.mp schema.described field member)

theorem Field.encoded_length (field : Field) : field.encoded.length =
    6 + field.name.byteLength + (unitBytes field.unit).length := by
  simp only [Field.encoded, List.length_append, List.length_cons, le16_length, Utf8.encode_length]
  omega

theorem fieldEncodedSize_ok {field : Field} {size : Nat} (fits : field.Fits) (room : size + 128 < 2 ^ 64) :
    fieldEncodedSize size field = .ok (size + field.encoded.length) := by
  have name : field.name.byteLength ≤ 64 := fits.1
  have add : ∀ total count, total + count < 2 ^ 64 → checkedAddSize total count "schema encoding" = .ok (total + count) :=
    fun total count small => checkedAdd_ok.mpr ⟨small, rfl⟩
  rw [fieldEncodedSize, add _ _ (by omega), Except.ok_bind, add _ _ (by omega), Except.ok_bind, add _ _ (by omega),
    Except.ok_bind, add _ _ (by omega), Except.ok_bind, add _ _ (by omega), Except.ok_bind, add _ _ (by omega),
    Except.ok_bind, field.encoded_length]
  cases same : field.unit with
  | none =>
      have length : (unitBytes none).length = 1 := rfl
      rw [length]
      exact congrArg Except.ok (by omega)
  | some unit =>
      have short : unit.byteLength ≤ 32 := fits.2 unit same
      have length : (unitBytes (some unit)).length = 3 + unit.byteLength := by
        rw [unitBytes, List.length_cons, List.length_append, le16_length, Utf8.encode_length]
        omega
      dsimp only
      rw [add _ _ (by omega), Except.ok_bind, add _ _ (by omega), length]
      exact congrArg Except.ok (by omega)

theorem Field.Fits.length_le {field : Field} (fits : field.Fits) : field.encoded.length ≤ 128 := by
  have name : field.name.byteLength ≤ 64 := fits.1
  rw [field.encoded_length]
  cases same : field.unit with
  | none =>
      have length : (unitBytes none).length = 1 := rfl
      omega
  | some unit =>
      have short : unit.byteLength ≤ 32 := fits.2 unit same
      rw [unitBytes, List.length_cons, List.length_append, le16_length, Utf8.encode_length]
      omega

theorem foldlM_fieldEncodedSize {fields : List Field} {size : Nat} (fits : ∀ field ∈ fields, field.Fits)
    (room : size + 128 * fields.length < 2 ^ 63) :
    fields.foldlM fieldEncodedSize size = .ok (size + (fields.flatMap Field.encoded).length) := by
  induction fields generalizing size with
  | nil => rfl
  | cons field fields hypothesis =>
      obtain ⟨first, others⟩ := List.forall_mem_cons.mp fits
      have short := first.length_le
      rw [List.length_cons] at room
      rw [List.foldlM_cons, fieldEncodedSize_ok first (by omega), Except.ok_bind, hypothesis others (by omega),
        List.flatMap_cons, List.length_append, Nat.add_assoc]

/-- Every schema is encoded when its bytes are within the limit. -/
theorem encodeSchema_ok : encodeSchema schema maxBytes = .ok bytes ↔
    bytes.length ≤ maxBytes ∧ bytes = partsBytes schema.id schema.version schema.fields := by
  have few : schema.fields.length ≤ 4096 := schema.bounded
  have size : schemaEncodedSize schema = .ok (partsBytes schema.id schema.version schema.fields).length := by
    rw [schemaEncodedSize, Except.refuseIf_bind (Nat.not_lt.mpr schema.bounded),
      foldlM_fieldEncodedSize schema.fits (by omega)]
    apply congrArg Except.ok
    simp only [partsBytes, List.length_cons, List.length_append, le32_length]
    omega
  have written : (schema.fields.mapM writeField : Except SchemaError (List (List UInt8))) =
      .ok (schema.fields.map Field.encoded) :=
    Except.mapM_ok fun field member => writeField_fits (schema.fits field member)
  have count : writeLength "field count" schema.fields.length = .ok (le32 (UInt32.ofNat schema.fields.length)) :=
    writeLength_ok.mpr ⟨few.trans (by decide), rfl⟩
  rw [encodeSchema, size, Except.ok_bind, Except.check_bind_ok, Except.refuseIf_ok, not_lt, count, Except.ok_bind, written,
    Except.ok_bind]
  constructor
  · rintro ⟨within, same⟩
    obtain rfl := Except.ok.inj same
    exact ⟨within, rfl⟩
  · rintro ⟨within, rfl⟩
    exact ⟨within, rfl⟩

/-- The decoder accepts exactly the bytes of the schemas. -/
theorem decodeSchema_ok : decodeSchema bytes maxBytes = .ok schema ↔
    bytes.length ≤ maxBytes ∧ bytes = partsBytes schema.id schema.version schema.fields := by
  rw [decodeSchema, Except.bind_eq_ok]
  constructor
  · rintro ⟨⟨id, version, fields⟩, ran, created⟩
    rw [Cursor.run, Except.check_bind_ok, Except.refuseIf_ok, not_lt, Except.bind_eq_ok] at ran
    obtain ⟨within, ⟨parts, rest⟩, read, finish⟩ := ran
    rw [Except.check_bind_ok, Except.refuseIf_ok, not_not] at finish
    obtain ⟨rfl, same⟩ := finish
    obtain rfl := Except.ok.inj same
    obtain ⟨⟨_, ascending, _⟩, layout⟩ := readSchema_ok.mp read
    obtain ⟨rfl, rfl, rfl⟩ := Schema.new_ok created ascending
    rw [List.append_nil] at layout
    exact ⟨within, layout⟩
  · rintro ⟨within, rfl⟩
    refine ⟨(schema.id, schema.version, schema.fields), ?_, schema.new_parts⟩
    rw [Cursor.run, Except.check_bind_ok, Except.refuseIf_ok, not_lt, Except.bind_eq_ok]
    refine ⟨within, ((schema.id, schema.version, schema.fields), []), ?_, ?_⟩
    · rw [readSchema_ok, List.append_nil]
      exact ⟨⟨schema.bounded, ⟨fun _ absent => absurd absent.symm (Option.some_ne_none _), schema.ascending⟩, schema.fits⟩, rfl⟩
    · rw [Except.check_bind_ok, Except.refuseIf_ok, not_not]
      exact ⟨rfl, rfl⟩

/-- What is encoded is decoded to the same schema, and what is decoded is encoded to the same bytes. -/
theorem schema_codec_bijective (maxBytes : Nat) :
    (∀ (schema : Schema) bytes, encodeSchema schema maxBytes = .ok bytes → decodeSchema bytes maxBytes = .ok schema) ∧
      ∀ bytes (schema : Schema), decodeSchema bytes maxBytes = .ok schema → encodeSchema schema maxBytes = .ok bytes :=
  ⟨fun _ _ written => decodeSchema_ok.mpr (encodeSchema_ok.mp written),
    fun _ _ read => encodeSchema_ok.mpr (decodeSchema_ok.mp read)⟩

/-- The schema of a flag with a unit. -/
def flagSchema : Schema where
  id := 3
  version := 1
  fields := [⟨⟨1⟩, "flag".toList, .bool, true, some "on".toList⟩]
  positive := firstVersion_positive
  bounded := by decide
  described := by decide
  ascending := List.pairwise_singleton _ _
  apart := List.pairwise_singleton _ _

theorem schema_codec_bijective_sample : ∃ bytes, encodeSchema flagSchema 64 = .ok bytes ∧
    decodeSchema bytes 64 = .ok flagSchema ∧ encodeSchema flagSchema 64 = .ok bytes := by
  have written : encodeSchema flagSchema 64 =
      .ok [1, 3, 0, 0, 0, 1, 0, 0, 0, 1, 0, 0, 0, 1, 0, 0, 1, 4, 0, 102, 108, 97, 103, 1, 2, 0, 111, 110] := by decide
  have read := (schema_codec_bijective 64).1 flagSchema _ written
  exact ⟨_, written, read, (schema_codec_bijective 64).2 _ flagSchema read⟩

end Whole

end Temnion.Schemas
