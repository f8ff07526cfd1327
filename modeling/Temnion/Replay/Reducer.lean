import Temnion.Replay.Engine
import Temnion.Schemas.Mutation

/-
This file models the reducer that checks mutations against schemas, and compares it with what the schemas do to the
fields of one entity.
-/

namespace Temnion.Replay

open Schemas

abbrev EntityMap := OrderedMap EntityId (SchemaId × FieldMap)

/-- A schema is found under its own id. -/
structure SchemaStateReducer where
  schemas : OrderedMap Nat Schema
  keyed : ∀ (key : Nat) schema, schemas[key]? = some schema → schema.id.toNat = key

/-- Each field is checked and stored for itself, and what was stored stays when a later one is refused. -/
def storeUpdate (schema : Schema) (entity : EntityId) (update : FieldUpdate) : Procedure EntityMap ReplayError Unit := do
  .lift ((schema.validateMutation (.upsert [update])).mapError .schemaError)
  .update (·.modify entity fun entry => (entry.1, entry.2.insert update.field update.value))

namespace SchemaStateReducer

/-- The last of several schemas with one id counts. -/
def new (schemas : List Schema) : SchemaStateReducer :=
  schemas.foldl (fun reducer schema => {
      schemas := reducer.schemas.insert schema.id.toNat schema
      keyed := by
        intro key found present
        rw [OrderedMap.insert_getElem?] at present
        split at present
        · next same => rw [← Option.some.inj present, same]
        · exact reducer.keyed key found present }) {
    schemas := ∅
    keyed := by
      intro key found present
      rw [Std.ExtTreeMap.getElem?_empty] at present
      exact absurd present.symm (Option.some_ne_none found) }

def apply (reducer : SchemaStateReducer) (event : StoredEvent) : Procedure EntityMap ReplayError Unit :=
  match reducer.schemas[event.schema.toNat]? with
  | none => .fail (.schemaMismatch event.schema event.schema)
  | some schema =>
      match decodeMutation event.payload event.payload.length with
      | .error error => .fail (.schemaError error)
      | .ok .delete => .update (·.erase event.entity)
      | .ok (.upsert updates) => do
          .update (·.entry event.entity (event.schema, ∅) id)
          updates.forM (storeUpdate schema event.entity)

/-- The replay drops the map of a call that fails. -/
def toStateReducer (reducer : SchemaStateReducer) : StateReducer EntityMap :=
  .pure fun map event => (reducer.apply event map).1.map fun _ => (reducer.apply event map).2

end SchemaStateReducer

/-- The fields that are recorded for an entity. -/
def fieldsOf (map : EntityMap) (entity : EntityId) : FieldMap := ((map[entity]?).map Prod.snd).getD ∅

/-- A call does to the map what the schema does to the fields of the entity. -/
structure Refines (schema : Schema) (event : StoredEvent) (map : EntityMap)
    (call : Except ReplayError Unit × EntityMap) : Prop where
  accepts : call.1 = .ok () ↔ ∃ mutation fields,
    decodeMutation event.payload event.payload.length = .ok mutation ∧
      schema.apply mutation (fieldsOf map event.entity) = (.ok (), fields)
  stores : call.1 = .ok () → ∀ mutation fields,
    decodeMutation event.payload event.payload.length = .ok mutation →
      schema.apply mutation (fieldsOf map event.entity) = (.ok (), fields) →
        call.2[event.entity]? = some (event.schema, fields) ∨ fields = ∅ ∧ call.2[event.entity]? = none
  frames : call.1 = .ok () → ∀ entity : EntityId, entity ≠ event.entity → call.2[entity]? = map[entity]?
  keeps : call.1 ≠ .ok () → call.2 = map

/-- The fields that stay and the updates together are complete. -/
def CompletedBy (schema : Schema) (fields : FieldMap) (updates : List FieldUpdate) : Prop :=
  (∀ (id : FieldId) value, fields[id]? = some value → (∀ update ∈ updates, update.field ≠ id) → schema.Admits id value) ∧
    ∀ field ∈ schema.fields, field.nullable = false →
      field.id ∈ fields ∨ ∃ update ∈ updates, update.field = field.id

/-- Every single update of the list passes its check. -/
def AllAdmitted (schema : Schema) (updates : List FieldUpdate) : Prop :=
  ∀ update ∈ updates, schema.Admits update.field update.value

/-- The checks that the call leaves out would pass: an upsert of admitted values completes the fields of an entity that
has no other schema, and one that is refused repeats stored values up to its first wrong update. -/
def Harmless (schema : Schema) (event : StoredEvent) (map : EntityMap) : Prop :=
  ∀ updates, decodeMutation event.payload event.payload.length = .ok (.upsert updates) →
    (AllAdmitted schema updates →
      CompletedBy schema (fieldsOf map event.entity) updates ∧
        ∀ recorded, map[event.entity]? = some recorded → recorded.1 = event.schema) ∧
    (¬AllAdmitted schema updates →
      ∃ recorded, map[event.entity]? = some recorded ∧
        ∀ front, front <+: updates → AllAdmitted schema front →
          ∀ update ∈ front, recorded.2[update.field]? = some update.value)

section Store

variable {schema : Schema} {event : StoredEvent} {entity : EntityId} {map : EntityMap} {fields : FieldMap}
  {updates front : List FieldUpdate} {update : FieldUpdate}

/-- The entry with the updates written over its fields. -/
def overwriteEntry (updates : List FieldUpdate) (entry : SchemaId × FieldMap) : SchemaId × FieldMap :=
  (entry.1, overwrite entry.2 updates)

theorem storeUpdate_admitted (admitted : schema.Admits update.field update.value) :
    storeUpdate schema entity update map = (.ok (), map.modify entity (overwriteEntry [update])) := by
  rw [storeUpdate, Schema.validateMutation_single, admitted]
  rfl

theorem storeUpdate_refused (refused : ¬schema.Admits update.field update.value) :
    ∃ error, storeUpdate schema entity update map = (.error error, map) := by
  rw [storeUpdate, Schema.validateMutation_single]
  cases outcome : schema.validateValue update.field update.value with
  | ok done => exact absurd outcome refused
  | error error => exact ⟨.schemaError error, rfl⟩

/-- The call stores the updates before the first one that the schema does not admit. -/
theorem storeUpdates_cases (schema : Schema) (entity : EntityId) (updates : List FieldUpdate) (map : EntityMap) :
    AllAdmitted schema updates ∧
        updates.forM (storeUpdate schema entity) map = (.ok (), map.modify entity (overwriteEntry updates)) ∨
      ∃ front wrong error, front ++ [wrong] <+: updates ∧ AllAdmitted schema front ∧
        ¬schema.Admits wrong.field wrong.value ∧
          updates.forM (storeUpdate schema entity) map = (.error error, map.modify entity (overwriteEntry front)) := by
  induction updates generalizing map with
  | nil =>
      left
      refine ⟨fun update member => absurd member List.not_mem_nil, ?_⟩
      change (Except.ok (), map) = _
      rw [show overwriteEntry [] = fun entry => entry from rfl, OrderedMap.modify_same]
  | cons update updates hypothesis =>
      have step : (update :: updates).forM (storeUpdate schema entity) =
          (storeUpdate schema entity update >>= fun _ => updates.forM (storeUpdate schema entity)) := rfl
      rw [step]
      by_cases admitted : schema.Admits update.field update.value
      · rw [Procedure.bind_of_ok (storeUpdate_admitted admitted)]
        rcases hypothesis (map.modify entity (overwriteEntry [update])) with
          ⟨all, stored⟩ | ⟨front, wrong, error, within, all, refused, stored⟩
        · left
          rw [stored, OrderedMap.modify_modify]
          exact ⟨List.forall_mem_cons.mpr ⟨admitted, all⟩, rfl⟩
        · right
          refine ⟨update :: front, wrong, error, ?_, List.forall_mem_cons.mpr ⟨admitted, all⟩, refused, ?_⟩
          · rw [List.cons_append]
            exact List.cons_prefix_cons.mpr ⟨rfl, within⟩
          · rw [stored, OrderedMap.modify_modify]
            rfl
      · obtain ⟨error, stops⟩ := @storeUpdate_refused schema entity map update admitted
        right
        refine ⟨[], update, error, List.cons_prefix_cons.mpr ⟨rfl, List.nil_prefix⟩,
          fun _ member => absurd member List.not_mem_nil, admitted, ?_⟩
        rw [Procedure.bind_of_error stops, show overwriteEntry [] = fun entry => entry from rfl,
          OrderedMap.modify_same]

theorem completedBy_iff (apart : updates.Pairwise fun first second => first.field ≠ second.field)
    (admitted : AllAdmitted schema updates) :
    schema.Complete (overwrite fields updates) ↔ CompletedBy schema fields updates := by
  have present : ∀ id : FieldId, id ∈ overwrite fields updates ↔
      id ∈ fields ∨ ∃ update ∈ updates, update.field = id := by
    intro id
    rw [Std.ExtTreeMap.mem_iff_isSome_getElem?, Std.ExtTreeMap.mem_iff_isSome_getElem?]
    by_cases named : ∃ update ∈ updates, update.field = id
    · obtain ⟨update, member, rfl⟩ := named
      rw [overwrite_named apart member]
      exact iff_of_true rfl (Or.inr ⟨update, member, rfl⟩)
    · rw [overwrite_other fun update member same => named ⟨update, member, same⟩]
      simp only [named, or_false]
  unfold Schema.Complete CompletedBy
  simp only [present]
  apply and_congr_left'
  constructor
  · intro all id value stored untouched
    exact all id value (by rw [overwrite_other untouched, stored])
  · intro kept id value found
    rcases overwrite_origin found with ⟨update, member, rfl, rfl⟩ | ⟨before, untouched⟩
    · exact admitted update member
    · exact kept id value before untouched

/-- The entry that the updates of an upsert are written over. -/
def entryOf (event : StoredEvent) (map : EntityMap) : SchemaId × FieldMap :=
  (map[event.entity]?).getD (event.schema, ∅)

theorem entryOf_fields (event : StoredEvent) (map : EntityMap) :
    (entryOf event map).2 = fieldsOf map event.entity := by
  unfold entryOf fieldsOf
  cases map[event.entity]? <;> rfl

/-- The map after the updates were written over the entry. -/
def written (event : StoredEvent) (updates : List FieldUpdate) (map : EntityMap) : EntityMap :=
  (map.entry event.entity (event.schema, ∅) id).modify event.entity (overwriteEntry updates)

theorem written_getElem? (event : StoredEvent) (updates : List FieldUpdate) (map : EntityMap) (entity : EntityId) :
    (written event updates map)[entity]? =
      if event.entity = entity then some (overwriteEntry updates (entryOf event map)) else map[entity]? := by
  rw [written, OrderedMap.modify_getElem?, OrderedMap.entry_getElem?, OrderedMap.entry_getElem?, if_pos rfl]
  by_cases same : event.entity = entity
  · rw [if_pos same, if_pos same]
    rfl
  · rw [if_neg same, if_neg same, if_neg same]

/-- Only updates that repeat stored values leave the map as it is. -/
theorem written_eq_self (apart : updates.Pairwise fun first second => first.field ≠ second.field) :
    written event updates map = map ↔ ∃ recorded, map[event.entity]? = some recorded ∧
      ∀ update ∈ updates, recorded.2[update.field]? = some update.value := by
  constructor
  · intro same
    have here := written_getElem? event updates map event.entity
    rw [if_pos rfl, same] at here
    refine ⟨_, here, ?_⟩
    intro update member
    exact overwrite_named apart member
  · rintro ⟨recorded, found, repeats⟩
    apply Std.ExtTreeMap.ext_getElem?
    intro entity
    rw [written_getElem?]
    split
    · next same =>
        rw [entryOf, found, Option.getD_some, ← same, found, overwriteEntry, (overwrite_eq_self apart).mpr repeats]
    · rfl

namespace SchemaStateReducer

variable {reducer : SchemaStateReducer}

theorem apply_undecoded {error : SchemaError} (known : reducer.schemas[event.schema.toNat]? = some schema)
    (fails : decodeMutation event.payload event.payload.length = .error error) :
    reducer.apply event map = (.error (.schemaError error), map) := by
  rw [apply, known]
  dsimp only
  rw [fails]
  rfl

theorem apply_delete (known : reducer.schemas[event.schema.toNat]? = some schema)
    (decoded : decodeMutation event.payload event.payload.length = .ok .delete) :
    reducer.apply event map = (.ok (), map.erase event.entity) := by
  rw [apply, known]
  dsimp only
  rw [decoded]
  rfl

theorem apply_upsert (known : reducer.schemas[event.schema.toNat]? = some schema)
    (decoded : decodeMutation event.payload event.payload.length = .ok (.upsert updates)) :
    AllAdmitted schema updates ∧ reducer.apply event map = (.ok (), written event updates map) ∨
      ∃ front wrong error, front ++ [wrong] <+: updates ∧ AllAdmitted schema front ∧
        ¬schema.Admits wrong.field wrong.value ∧ reducer.apply event map = (.error error, written event front map) := by
  rw [apply, known]
  dsimp only
  rw [decoded]
  exact storeUpdates_cases schema event.entity updates (map.entry event.entity (event.schema, ∅) id)

theorem apply_admitted (known : reducer.schemas[event.schema.toNat]? = some schema)
    (decoded : decodeMutation event.payload event.payload.length = .ok (.upsert updates))
    (admitted : AllAdmitted schema updates) : reducer.apply event map = (.ok (), written event updates map) := by
  rcases apply_upsert known decoded with ⟨-, ran⟩ | ⟨front, wrong, error, within, -, refused, -⟩
  · exact ran
  · have member := within.subset (List.mem_append_right front (List.mem_singleton.mpr rfl))
    exact absurd (admitted wrong member) refused

/-- An upsert of admitted values meets the schema exactly when the fields are complete and the schema stays. -/
theorem refines_admitted
    (decoded : decodeMutation event.payload event.payload.length = .ok (.upsert updates))
    (admitted : AllAdmitted schema updates) (ran : reducer.apply event map = (.ok (), written event updates map)) :
    Refines schema event map (reducer.apply event map) ↔
      CompletedBy schema (fieldsOf map event.entity) updates ∧
        ∀ recorded, map[event.entity]? = some recorded → recorded.1 = event.schema := by
  have shaped := decodeMutation_shape decoded
  have apart := (validateUpsertShape_ok.mp shaped).2.2
  have valid : schema.validateMutation (.upsert updates) = .ok () :=
    Schema.validateMutation_upsert_ok.mpr ⟨shaped, admitted⟩
  have here := written_getElem? event updates map event.entity
  rw [if_pos rfl] at here
  rw [← completedBy_iff apart admitted, ran]
  constructor
  · intro refines
    obtain ⟨mutation, fields, also, accepted⟩ := refines.accepts.mp rfl
    obtain rfl : mutation = .upsert updates := Except.ok.inj (also.symm.trans decoded)
    obtain ⟨-, complete, rfl⟩ := Schema.apply_upsert_ok.mp accepted
    refine ⟨complete, fun recorded found => ?_⟩
    rcases refines.stores rfl _ _ decoded accepted with stored | ⟨-, absent⟩
    · rw [here, entryOf, found] at stored
      exact congrArg Prod.fst (Option.some.inj stored)
    · rw [here] at absent
      exact absurd absent (Option.some_ne_none _)
  · rintro ⟨complete, same⟩
    have accepted : schema.apply (.upsert updates) (fieldsOf map event.entity) =
        (.ok (), overwrite (fieldsOf map event.entity) updates) :=
      Schema.apply_upsert_ok.mpr ⟨valid, complete, rfl⟩
    have schemaOf : (entryOf event map).1 = event.schema := by
      unfold entryOf
      cases found : map[event.entity]? with
      | none => rfl
      | some recorded => exact same recorded found
    exact {
      accepts := iff_of_true rfl ⟨_, _, decoded, accepted⟩
      stores := by
        intro _ mutation fields also result
        obtain rfl : mutation = .upsert updates := Except.ok.inj (also.symm.trans decoded)
        obtain ⟨-, -, rfl⟩ := Schema.apply_upsert_ok.mp result
        left
        rw [here, overwriteEntry, schemaOf, entryOf_fields]
      frames := by
        intro _ entity other
        rw [written_getElem?, if_neg (Ne.symm other)]
      keeps := fun failed => absurd rfl failed }

/-- An upsert with a wrong update meets the schema exactly when the updates before it repeat stored values. -/
theorem refines_refused {front : List FieldUpdate} {wrong : FieldUpdate} {error : ReplayError}
    (decoded : decodeMutation event.payload event.payload.length = .ok (.upsert updates))
    (within : front ++ [wrong] <+: updates) (refused : ¬schema.Admits wrong.field wrong.value)
    (ran : reducer.apply event map = (.error error, written event front map)) :
    Refines schema event map (reducer.apply event map) ↔
      ∃ recorded, map[event.entity]? = some recorded ∧
        ∀ update ∈ front, recorded.2[update.field]? = some update.value := by
  have apart := (validateUpsertShape_ok.mp (decodeMutation_shape decoded)).2.2
  have inside : front <+: updates := (List.prefix_append front [wrong]).trans within
  rw [← written_eq_self (apart.sublist inside.sublist), ran]
  constructor
  · intro refines
    exact refines.keeps (by nofun)
  · intro same
    have rejects : ∀ fields, schema.apply (.upsert updates) (fieldsOf map event.entity) ≠ (.ok (), fields) := by
      intro fields accepted
      have valid := (Schema.apply_upsert_ok.mp accepted).1
      have member := within.subset (List.mem_append_right front (List.mem_singleton.mpr rfl))
      exact refused ((Schema.validateMutation_upsert_ok.mp valid).2 wrong member)
    exact {
      accepts := by
        refine iff_of_false (by nofun) ?_
        rintro ⟨mutation, fields, also, accepted⟩
        obtain rfl : mutation = .upsert updates := Except.ok.inj (also.symm.trans decoded)
        exact rejects fields accepted
      stores := fun done => absurd done (by nofun)
      frames := fun done => absurd done (by nofun)
      keeps := fun _ => same }

/-- The reducer does what the schema does exactly for events that pass the checks it leaves out. -/
theorem apply_refines_iff (known : reducer.schemas[event.schema.toNat]? = some schema) :
    Refines schema event map (reducer.apply event map) ↔ Harmless schema event map := by
  unfold Harmless
  cases decoded : decodeMutation event.payload event.payload.length with
  | error error =>
      refine iff_of_true ?_ (by nofun)
      rw [apply_undecoded known decoded]
      exact {
        accepts := by
          refine iff_of_false (by nofun) ?_
          rintro ⟨_, _, also, _⟩
          exact absurd (also.symm.trans decoded) (by nofun)
        stores := fun done => absurd done (by nofun)
        frames := fun done => absurd done (by nofun)
        keeps := fun _ => rfl }
  | ok mutation =>
      cases mutation with
      | delete =>
          refine iff_of_true ?_ (by nofun)
          rw [apply_delete known decoded]
          exact {
            accepts := iff_of_true rfl ⟨.delete, ∅, decoded, rfl⟩
            stores := by
              intro _ mutation fields also result
              obtain rfl : mutation = .delete := Except.ok.inj (also.symm.trans decoded)
              exact Or.inr ⟨(Prod.mk.inj result).2.symm, Std.ExtTreeMap.getElem?_erase_self⟩
            frames := by
              intro _ entity other
              rw [Std.ExtTreeMap.getElem?_erase, if_neg fun same => other (compare_eq_iff_eq.mp same).symm]
            keeps := fun failed => absurd rfl failed }
      | upsert updates =>
          rcases apply_upsert known decoded with ⟨admitted, ran⟩ | ⟨front, wrong, error, within, all, refused, ran⟩
          · rw [refines_admitted decoded admitted ran]
            constructor
            · intro meets updates' same
              obtain rfl := Mutation.upsert.inj (Except.ok.inj same)
              exact ⟨fun _ => meets, fun wrong => absurd admitted wrong⟩
            · intro harmless
              exact (harmless updates rfl).1 admitted
          · have mixed : ¬AllAdmitted schema updates := fun admitted =>
              refused (admitted wrong (within.subset (List.mem_append_right front (List.mem_singleton.mpr rfl))))
            rw [refines_refused decoded within refused ran]
            constructor
            · intro meets updates' same
              obtain rfl := Mutation.upsert.inj (Except.ok.inj same)
              refine ⟨fun admitted => absurd admitted mixed, fun _ => ?_⟩
              obtain ⟨recorded, found, repeats⟩ := meets
              refine ⟨recorded, found, fun other inside admitted update member => ?_⟩
              -- a longer admitted front would contain the wrong update
              have shorter : other <+: front := by
                rcases List.prefix_or_prefix_of_prefix inside within with below | above
                · rcases List.prefix_concat_iff.mp below with rfl | below
                  · exact absurd (admitted wrong (List.mem_append_right front (List.mem_singleton.mpr rfl))) refused
                  · exact below
                · exact absurd (admitted wrong (above.subset (List.mem_append_right front (List.mem_singleton.mpr rfl))))
                    refused
              exact repeats update (shorter.subset member)
            · intro harmless
              obtain ⟨recorded, found, repeats⟩ := (harmless updates rfl).2 mixed
              exact ⟨recorded, found, repeats front ((List.prefix_append front [wrong]).trans within) all⟩

end SchemaStateReducer

end Store

/-- Both fields are required. -/
def doorSchema : Schema where
  id := 7
  version := 1
  fields := [⟨⟨1⟩, "open".toList, .bool, false, none⟩, ⟨⟨2⟩, "locked".toList, .bool, false, none⟩]
  positive := firstVersion_positive
  bounded := by decide
  described := by decide
  ascending := by decide
  apart := by decide

/-- The first event of a door tells only one of the fields. -/
def doorOpened : StoredEvent where
  id := ⟨1, 1, 0⟩
  entity := ⟨0, 0, 1⟩
  times := ⟨⟨1, 5⟩, none, ⟨1, 5⟩⟩
  schema := 7
  payload := [1, 1, 1, 0, 0, 0, 1, 0, 1, 1]
  causes := []

theorem doorOpened_decoded : decodeMutation doorOpened.payload doorOpened.payload.length =
    .ok (.upsert [⟨⟨1⟩, .bool true⟩]) := by
  decide

theorem doorSchema_known :
    (SchemaStateReducer.new [doorSchema]).schemas[doorOpened.schema.toNat]? = some doorSchema := by
  change ((∅ : OrderedMap Nat Schema).insert doorSchema.id.toNat doorSchema)[doorOpened.schema.toNat]? = _
  rw [OrderedMap.insert_getElem?, if_pos (by decide)]

/-- The incomplete fields of the door are stored. -/
theorem reducer_stores_incomplete : ¬∀ (reducer : SchemaStateReducer) (schema : Schema) (event : StoredEvent)
    (map : EntityMap), reducer.schemas[event.schema.toNat]? = some schema →
      Refines schema event map (reducer.apply event map) := by
  intro refines
  have admitted : AllAdmitted doorSchema [⟨⟨1⟩, .bool true⟩] := by
    intro update member
    rw [List.mem_singleton.mp member]
    rfl
  have ran : (SchemaStateReducer.new [doorSchema]).apply doorOpened ∅ = (.ok (), written doorOpened _ ∅) :=
    SchemaStateReducer.apply_admitted doorSchema_known doorOpened_decoded admitted
  have met := (SchemaStateReducer.refines_admitted doorOpened_decoded admitted ran).mp
    (refines _ _ _ ∅ doorSchema_known)
  rcases met.1.2 ⟨⟨2⟩, "locked".toList, .bool, false, none⟩ (by decide) rfl with stored | ⟨update, member, same⟩
  · exact absurd stored Std.ExtTreeMap.not_mem_empty
  · rw [List.mem_singleton.mp member] at same
    exact absurd same (by decide)

theorem apply_refines_iff_sample :
    Refines doorSchema doorOpened ∅ ((SchemaStateReducer.new [doorSchema]).apply doorOpened ∅) ↔
      Harmless doorSchema doorOpened ∅ :=
  SchemaStateReducer.apply_refines_iff doorSchema_known

end Temnion.Replay
