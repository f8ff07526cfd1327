import Temnion.Core
import Temnion.Library.Fallible
import Temnion.Library.OrderedMap
import Temnion.Library.Sorting
import Temnion.Library.Text

/-
This file defines schemas of scalar fields and applies sparse mutations to the fields of one entity.
-/

namespace Temnion.Schemas

structure FieldId where
  value : UInt16
  deriving DecidableEq, Repr

theorem FieldId.toNat_injective : Function.Injective fun field : FieldId => field.value.toNat := by
  rintro ⟨first⟩ ⟨second⟩ same
  exact congrArg FieldId.mk (UInt16.toNat_inj.mp same)

instance : LinearOrder FieldId := LinearOrder.lift' _ FieldId.toNat_injective

def maxSchemaFields : Nat := 4096

def maxMutationFields : Nat := maxSchemaFields

def maxFieldNameBytes : Nat := 64

def maxFieldUnitBytes : Nat := 32

inductive Value where
  | bool (value : Bool)
  | i64 (value : Int64)
  | u64 (value : UInt64)
  | f64Bits (bits : UInt64)
  | utf8 (text : Text)
  | bytes (bytes : List UInt8)
  | null
  deriving DecidableEq, Repr

def Value.kindName : Value → String
  | .bool _ => "bool"
  | .i64 _ => "i64"
  | .u64 _ => "u64"
  | .f64Bits _ => "f64 bits"
  | .utf8 _ => "utf8"
  | .bytes _ => "bytes"
  | .null => "null"

inductive FieldType where
  | bool
  | i64
  | u64
  | f64
  | utf8
  | bytes
  deriving DecidableEq, Repr

structure Field where
  id : FieldId
  name : Text
  kind : FieldType
  nullable : Bool
  unit : Option Text
  deriving DecidableEq, Repr

structure FieldUpdate where
  field : FieldId
  value : Value
  deriving DecidableEq, Repr

inductive Mutation where
  | upsert (updates : List FieldUpdate)
  | delete
  deriving DecidableEq, Repr

/-- Failures to allocate are left out. -/
inductive SchemaError where
  | sizeOverflow (what : String)
  | invalidSchemaVersion (version : UInt32)
  | tooManyFields (count max : Nat)
  | tooManyUpdates (count max : Nat)
  | metadataTooLong (what : String) (len max : Nat)
  | lengthOutOfRange (what : String) (len max : Nat)
  | invalidFieldName (name : Text)
  | invalidFieldUnit (unit : Text)
  | duplicateFieldId (field : FieldId)
  | duplicateFieldName (name : Text)
  | unknownField (field : FieldId)
  | duplicateMutationField (field : FieldId)
  | emptyUpsert
  | nullNotAllowed (field : FieldId)
  | typeMismatch (field : FieldId) (expected : FieldType) (actual : String)
  | missingRequiredField (field : FieldId)
  | inputTooLarge (len max : Nat)
  | outputTooLarge (len max : Nat)
  | invalidEncodingVersion (kind : String) (version : UInt8)
  | invalidMutationTag (tag : UInt8)
  | invalidValueTag (tag : UInt8)
  | invalidFieldTypeTag (tag : UInt8)
  | invalidBoolean (value : UInt8)
  | invalidUtf8 (what : String)
  | truncated (needed remaining : Nat)
  | trailingBytes (remaining : Nat)
  | nonCanonicalFieldOrder (previous current : FieldId)
  deriving DecidableEq, Repr

def startsName (character : Char) : Bool := character.isAlpha || character == '_'

def continuesName (character : Char) : Bool :=
  character.isAlphanum || character == '_' || character == '-' || character == '.'

def validateFieldName (name : Text) : Except SchemaError Unit := do
  refuseIf (name = []) (.invalidFieldName name)
  refuseIf (maxFieldNameBytes < name.byteLength) (.metadataTooLong "field name" name.byteLength maxFieldNameBytes)
  refuseIf (!name.head?.any startsName) (.invalidFieldName name)
  refuseIf (!name.tail.all continuesName) (.invalidFieldName name)

/-- The characters of the category of control characters. -/
def isControl (character : Char) : Bool :=
  decide (character.toNat < 32) || decide (127 ≤ character.toNat) && decide (character.toNat < 160)

def validateFieldUnit : Option Text → Except SchemaError Unit
  | none => .ok ()
  | some unit => do
      refuseIf (unit = [] ∨ unit.trim ≠ unit ∨ unit.any isControl) (.invalidFieldUnit unit)
      refuseIf (maxFieldUnitBytes < unit.byteLength) (.metadataTooLong "field unit" unit.byteLength maxFieldUnitBytes)

def validateMetadata (field : Field) : Except SchemaError Unit := do
  validateFieldName field.name
  validateFieldUnit field.unit

/-- The first element that has the key of its predecessor. -/
def repeatedNeighbour {A K : Type} [LinearOrder K] (key : A → K) : List A → Option A
  | first :: second :: rest =>
      if key first = key second then some second else repeatedNeighbour key (second :: rest)
  | _ => none

/-- The first later element that has the key of an earlier one, for the earliest such element. -/
def repeated {A K : Type} [DecidableEq K] (key : A → K) : List A → Option A
  | [] => none
  | first :: rest => (rest.find? fun second => key first = key second).or (repeated key rest)

theorem repeated_eq_none {A K : Type} [DecidableEq K] {key : A → K} {list : List A} :
    repeated key list = none ↔ list.Pairwise fun first second => key first ≠ key second := by
  induction list with
  | nil => exact iff_of_true rfl List.Pairwise.nil
  | cons first rest hypothesis =>
      rw [repeated, Option.or_eq_none_iff, hypothesis, List.pairwise_cons, List.find?_eq_none]
      simp only [decide_eq_true_eq, ne_eq]

/-- In ascending order equal keys are neighbours. -/
theorem repeatedNeighbour_eq_none {A K : Type} [LinearOrder K] {key : A → K} {list : List A}
    (sorted : list.Pairwise fun first second => key first ≤ key second)
    (none' : repeatedNeighbour key list = none) : list.Pairwise fun first second => key first < key second := by
  induction list with
  | nil => exact List.Pairwise.nil
  | cons first rest hypothesis =>
      obtain ⟨below, tail⟩ := List.pairwise_cons.mp sorted
      cases rest with
      | nil => exact List.pairwise_singleton _ _
      | cons second rest =>
          rw [repeatedNeighbour] at none'
          split at none'
          · exact absurd none' (Option.some_ne_none _)
          · next different =>
              have ascending := hypothesis tail none'
              have less := lt_of_le_of_ne (below second List.mem_cons_self) different
              refine List.pairwise_cons.mpr ⟨fun other member => ?_, ascending⟩
              rcases List.mem_cons.mp member with rfl | later
              · exact less
              · exact less.trans ((List.pairwise_cons.mp ascending).1 other later)

/-- The fields ascend by their ids, and no two of them share a name. -/
structure Schema where
  id : SchemaId
  version : UInt32
  fields : List Field
  positive : version ≠ 0
  bounded : fields.length ≤ maxSchemaFields
  described : fields.forM validateMetadata = .ok ()
  ascending : fields.Pairwise fun first second => first.id < second.id
  apart : fields.Pairwise fun first second => first.name ≠ second.name

theorem firstVersion_positive : (1 : UInt32) ≠ 0 := by decide

/-- The order of fields with one id does not matter, as they are refused. -/
def sortFields (fields : List Field) : List Field := (Sorting.UnstableSort.stable Field.id).sort fields

theorem sortFields_perm (fields : List Field) : (sortFields fields).Perm fields :=
  (Sorting.UnstableSort.stable Field.id).perm fields

/-- Every check of metadata is passed in any order of the fields. -/
theorem validateMetadata_perm {first second : List Field} (same : first.Perm second)
    (described : first.forM validateMetadata = .ok ()) : second.forM validateMetadata = .ok () := by
  rw [Except.forM_ok] at described ⊢
  exact fun field member => described field (same.mem_iff.mpr member)

namespace Schema

def new (id : SchemaId) (version : UInt32) (fields : List Field) : Except SchemaError Schema :=
  if unversioned : version = 0 then .error (.invalidSchemaVersion version)
  else if crowded : maxSchemaFields < fields.length then .error (.tooManyFields fields.length maxSchemaFields)
  else
    match metadata : fields.forM validateMetadata with
    | .error error => .error error
    | .ok _ =>
        match neighbours : repeatedNeighbour Field.id (sortFields fields) with
        | some field => .error (.duplicateFieldId field.id)
        | none =>
            match names : repeated Field.name (sortFields fields) with
            | some field => .error (.duplicateFieldName field.name)
            | none => .ok {
                id, version
                fields := sortFields fields
                positive := unversioned
                bounded := (sortFields_perm fields).length_eq.symm ▸ Nat.le_of_not_lt crowded
                described := validateMetadata_perm (sortFields_perm fields).symm metadata
                ascending := repeatedNeighbour_eq_none ((Sorting.UnstableSort.stable Field.id).sorted fields) neighbours
                apart := repeated_eq_none.mp names }

/-- The fields ascend, so that a binary search finds the one with the id. -/
def field (schema : Schema) (id : FieldId) : Option Field := schema.fields.find? fun field => field.id = id

end Schema

/-- The kind of the value is the kind of the field. -/
def FieldType.fits : FieldType → Value → Bool
  | .bool, .bool _ => true
  | .i64, .i64 _ => true
  | .u64, .u64 _ => true
  | .f64, .f64Bits _ => true
  | .utf8, .utf8 _ => true
  | .bytes, .bytes _ => true
  | _, _ => false

def validateFieldValue (field : Field) (value : Value) : Except SchemaError Unit :=
  if value = .null then
    if field.nullable then .ok () else .error (.nullNotAllowed field.id)
  else if field.kind.fits value then .ok ()
  else .error (.typeMismatch field.id field.kind value.kindName)

def validateUpsertShape (updates : List FieldUpdate) : Except SchemaError Unit := do
  refuseIf (updates = []) .emptyUpsert
  refuseIf (maxMutationFields < updates.length) (.tooManyUpdates updates.length maxMutationFields)
  match repeated FieldUpdate.field updates with
  | some update => .error (.duplicateMutationField update.field)
  | none => .ok ()

abbrev FieldMap := OrderedMap FieldId Value

/-- Later updates of a field replace earlier ones. -/
def overwrite (fields : FieldMap) (updates : List FieldUpdate) : FieldMap :=
  updates.foldl (fun fields update => fields.insert update.field update.value) fields

namespace Schema

/-- The field is in the catalog and takes the value. -/
def validateValue (schema : Schema) (id : FieldId) (value : Value) : Except SchemaError Unit :=
  match schema.field id with
  | none => .error (.unknownField id)
  | some field => validateFieldValue field value

def validateMutation (schema : Schema) : Mutation → Except SchemaError Unit
  | .delete => .ok ()
  | .upsert updates => do
      validateUpsertShape updates
      updates.forM fun update => schema.validateValue update.field update.value

def validateCompleteState (schema : Schema) (state : FieldMap) : Except SchemaError Unit := do
  state.toList.forM fun (id, value) => schema.validateValue id value
  schema.fields.forM fun field =>
    refuseIf (field.nullable = false ∧ field.id ∉ state) (.missingRequiredField field.id)

def apply (schema : Schema) : Mutation → Procedure FieldMap SchemaError Unit
  | .delete => .update fun _ => ∅
  | .upsert updates => do
      .lift (schema.validateMutation (.upsert updates))
      let state ← .read
      let next := overwrite state updates
      .lift (schema.validateCompleteState next)
      .update fun _ => next

end Schema

section Rules

variable {schema : Schema} {updates : List FieldUpdate} {fields state reached : FieldMap} {id : FieldId} {done : Unit}

theorem validateUpsertShape_ok : validateUpsertShape updates = .ok done ↔
    updates ≠ [] ∧ updates.length ≤ maxMutationFields ∧
      updates.Pairwise fun first second => first.field ≠ second.field := by
  unfold validateUpsertShape
  rw [Except.check_bind_ok, Except.check_bind_ok, Except.refuseIf_ok, Except.refuseIf_ok, not_lt]
  apply and_congr_right'
  apply and_congr_right'
  cases found : repeated FieldUpdate.field updates with
  | none => exact iff_of_true rfl (repeated_eq_none.mp found)
  | some update =>
      refine iff_of_false (by nofun) fun apart => ?_
      rw [repeated_eq_none.mpr apart] at found
      exact Option.some_ne_none _ found.symm

/-- A field that no update names keeps its value. -/
theorem overwrite_other (untouched : ∀ update ∈ updates, update.field ≠ id) :
    (overwrite fields updates)[id]? = fields[id]? := by
  induction updates generalizing fields with
  | nil => rfl
  | cons update updates hypothesis =>
      obtain ⟨first, others⟩ := List.forall_mem_cons.mp untouched
      rw [overwrite, List.foldl_cons, ← overwrite, hypothesis others, OrderedMap.insert_getElem?, if_neg first]

/-- A field that one update names has the value of the update. -/
theorem overwrite_named (apart : updates.Pairwise fun first second => first.field ≠ second.field)
    {update : FieldUpdate} (member : update ∈ updates) :
    (overwrite fields updates)[update.field]? = some update.value := by
  induction updates generalizing fields with
  | nil => exact absurd member List.not_mem_nil
  | cons first updates hypothesis =>
      obtain ⟨other, rest⟩ := List.pairwise_cons.mp apart
      rw [overwrite, List.foldl_cons, ← overwrite]
      rcases List.mem_cons.mp member with rfl | later
      · rw [overwrite_other fun second present => (other second present).symm, OrderedMap.insert_getElem?, if_pos rfl]
      · exact hypothesis rest later

/-- Every entry of overwritten fields comes from an update or was there before. -/
theorem overwrite_origin {value : Value} (found : (overwrite fields updates)[id]? = some value) :
    (∃ update ∈ updates, update.field = id ∧ update.value = value) ∨
      fields[id]? = some value ∧ ∀ update ∈ updates, update.field ≠ id := by
  induction updates generalizing fields with
  | nil => exact Or.inr ⟨found, fun _ member => absurd member List.not_mem_nil⟩
  | cons update updates hypothesis =>
      rw [overwrite, List.foldl_cons, ← overwrite] at found
      rcases hypothesis found with ⟨later, member, same⟩ | ⟨before, untouched⟩
      · exact Or.inl ⟨later, List.mem_cons_of_mem _ member, same⟩
      · rw [OrderedMap.insert_getElem?] at before
        split at before
        · next same => exact Or.inl ⟨update, List.mem_cons_self, same, Option.some.inj before⟩
        · next different => exact Or.inr ⟨before, List.forall_mem_cons.mpr ⟨different, untouched⟩⟩

/-- Updates that repeat what is stored change nothing, and no others do. -/
theorem overwrite_eq_self (apart : updates.Pairwise fun first second => first.field ≠ second.field) :
    overwrite fields updates = fields ↔ ∀ update ∈ updates, fields[update.field]? = some update.value := by
  constructor
  · intro same update member
    rw [← overwrite_named apart member, same]
  · intro repeats
    apply Std.ExtTreeMap.ext_getElem?
    intro id
    by_cases named : ∃ update ∈ updates, update.field = id
    · obtain ⟨update, member, rfl⟩ := named
      rw [overwrite_named apart member, repeats update member]
    · exact overwrite_other fun update member same => named ⟨update, member, same⟩

namespace Schema

/-- The schema knows the field and takes the value for it. -/
def Admits (schema : Schema) (id : FieldId) (value : Value) : Prop := schema.validateValue id value = .ok ()

/-- The fields hold a value for every required field, and none that the schema does not take. -/
def Complete (schema : Schema) (state : FieldMap) : Prop :=
  (∀ (id : FieldId) value, state[id]? = some value → schema.Admits id value) ∧
    ∀ field ∈ schema.fields, field.nullable = false → field.id ∈ state

theorem validateMutation_upsert_ok : schema.validateMutation (.upsert updates) = .ok done ↔
    validateUpsertShape updates = .ok () ∧ ∀ update ∈ updates, schema.Admits update.field update.value := by
  rw [validateMutation, Except.check_bind_ok, Except.forM_ok]
  rfl

/-- A single update has the shape of an upsert. -/
theorem validateMutation_single (schema : Schema) (update : FieldUpdate) :
    schema.validateMutation (.upsert [update]) = schema.validateValue update.field update.value := by
  have shaped : validateUpsertShape [update] = .ok () :=
    validateUpsertShape_ok.mpr ⟨List.cons_ne_nil _ _, (by decide : 1 ≤ maxMutationFields), List.pairwise_singleton _ _⟩
  rw [validateMutation, shaped, Except.ok_bind]
  change (schema.validateValue update.field update.value >>= fun _ => .ok ()) = _
  cases schema.validateValue update.field update.value <;> rfl

theorem validateCompleteState_ok : schema.validateCompleteState state = .ok done ↔ schema.Complete state := by
  rw [validateCompleteState, Except.check_bind_ok, Except.forM_ok, Except.forM_ok]
  simp only [Except.refuseIf_ok, Complete, Prod.forall, OrderedMap.mem_toList, Admits]
  apply and_congr_right'
  apply forall₂_congr
  intro field _
  rw [not_and, not_not]

theorem apply_upsert_ok : schema.apply (.upsert updates) state = (.ok done, reached) ↔
    schema.validateMutation (.upsert updates) = .ok () ∧ schema.Complete (overwrite state updates) ∧
      reached = overwrite state updates := by
  rw [apply]
  cases valid : schema.validateMutation (.upsert updates) with
  | error error => exact iff_of_false (by nofun) (by nofun)
  | ok value =>
      rw [Procedure.lift_bind_ok, Procedure.bind_of_ok (Procedure.read_apply state)]
      cases complete : schema.validateCompleteState (overwrite state updates) with
      | error error =>
          refine iff_of_false (by nofun) fun all => ?_
          have passes : schema.validateCompleteState (overwrite state updates) = .ok () :=
            validateCompleteState_ok.mpr all.2.1
          exact absurd (complete.symm.trans passes) (by nofun)
      | ok value =>
          rw [Procedure.lift_bind_ok, Procedure.update_apply, Prod.mk.injEq]
          constructor
          · intro both
            exact ⟨rfl, validateCompleteState_ok.mp complete, both.2.symm⟩
          · intro all
            exact ⟨rfl, all.2.2.symm⟩

end Schema

end Rules

end Temnion.Schemas
