import Temnion.Library.Moving
import Temnion.Replay.Reducer
import Temnion.Schemas.Encoding

/-
This file saves the maps that the reducers build, and loads them again.
-/

namespace Temnion.Replay

open Format LittleEndian Schemas Slices Storage

abbrev RawEntityMap := OrderedMap EntityId (SchemaId × List UInt8)

section Encoders

def entityFields (entity : EntityId) : List UInt8 := le32 entity.shard ++ (le32 entity.slot ++ le32 entity.generation)

/-- A mutation of a single field must fit into this many bytes. -/
def valueLimit : Nat := 1024 * 1024

/-- The value of a field is encoded as a mutation of this field. -/
def encodeField (entry : FieldId × Value) : Except SchemaError (List UInt8) := do
  let encodedMut ← encodeMutation (.upsert [⟨entry.1, entry.2⟩]) valueLimit
  return le16 entry.1.value ++ counted encodedMut

def encodeRecord (entry : EntityId × SchemaId × FieldMap) : Except SchemaError (List UInt8) := do
  let fields ← entry.2.2.toList.mapM encodeField
  return entityFields entry.1 ++ (le32 entry.2.1 ++ (le32 (UInt32.ofNat entry.2.2.size) ++ fields.flatten))

/-- The program panics when a value cannot be encoded. The number of entities is narrowed to four bytes. -/
def encodeEntityMap (map : EntityMap) : Except SchemaError (List UInt8) := do
  let records ← map.toList.mapM encodeRecord
  return le32 (UInt32.ofNat map.size) ++ records.flatten

def encodeRawEntry (entry : EntityId × SchemaId × List UInt8) : List UInt8 :=
  entityFields entry.1 ++ (le32 entry.2.1 ++ counted entry.2.2)

def encodeRawEntityMap (map : RawEntityMap) : List UInt8 :=
  le32 (UInt32.ofNat map.size) ++ map.toList.flatMap encodeRawEntry

end Encoders

section Decoders

/-- A mutation that updates no field is skipped. -/
def decodeField : Reader ReplayError (Option (FieldId × Value)) := do
  let head ← Reader.readFixed 6 (.format "incomplete field record")
  let mutLen := getU32 head 2
  let payload ← Reader.readFixed mutLen.toNat (.format "incomplete mutation payload")
  let mutation ← liftM ((decodeMutation payload mutLen.toNat).mapError ReplayError.schemaError)
  match mutation with
  | .upsert (update :: _) => return some (⟨getU16 head 0⟩, update.value)
  | _ => return none

def decodeRecord : Reader ReplayError (EntityId × SchemaId × FieldMap) := do
  let head ← Reader.readFixed 20 (.format "incomplete entity record")
  let fields ← Reader.readMany decodeField (getU32 head 16).toNat
  return (⟨getU32 head 0, getU32 head 4, getU32 head 8⟩, getU32 head 12,
    (fields.filterMap id).foldl (fun map entry => Std.ExtTreeMap.insert map entry.1 entry.2) (∅ : FieldMap))

/-- Bytes behind the last entity are not looked at. -/
def decodeEntityMap (bytes : List UInt8) : Except ReplayError EntityMap := do
  let (count, rest) ← Reader.readU32 (.format "incomplete entity map payload") bytes
  let (records, _) ← Reader.readMany decodeRecord count.toNat rest
  return records.foldl (fun map entry => Std.ExtTreeMap.insert map entry.1 entry.2) (∅ : EntityMap)

def readRawEntry (bytes : List UInt8) : Moving ReplayError (EntityId × SchemaId × List UInt8) := fun offset => do
  refuseIf (bytes.length < offset + 20) (.refused (.format "truncated raw entity entry"))
  let shard ← u32At bytes offset
  let slot ← u32At bytes (offset + 4)
  let generation ← u32At bytes (offset + 8)
  let schema ← u32At bytes (offset + 12)
  let pLen ← u32At bytes (offset + 16)
  refuseIf (bytes.length < offset + 20 + pLen.toNat) (.refused (.format "truncated raw entity payload"))
  let payload ← sliceAt bytes (offset + 20) (offset + 20 + pLen.toNat)
  return ((⟨shard, slot, generation⟩, schema, payload), offset + 20 + pLen.toNat)

/-- No bytes stand for no entities. -/
def decodeRawEntityMap (bytes : List UInt8) : Parse ReplayError RawEntityMap :=
  if bytes = [] then .ok ∅
  else do
    refuseIf (bytes.length < 4) (.refused (.format "truncated raw entity map count"))
    let count ← u32At bytes 0
    let (entries, _) ← Moving.many (readRawEntry bytes) count.toNat 4
    return entries.foldl (fun map entry => Std.ExtTreeMap.insert map entry.1 entry.2) (∅ : RawEntityMap)

end Decoders

section Raw

variable {map : RawEntityMap}

theorem readRawEntry_reads (bytes : List UInt8) {entry : EntityId × SchemaId × List UInt8}
    (few : entry.2.2.length < 2 ^ 32) : Moving.Reads bytes (readRawEntry bytes) (encodeRawEntry entry) entry := by
  intro offset rest ahead
  rw [encodeRawEntry, entityFields] at ahead
  simp only [List.append_assoc] at ahead
  obtain ⟨shard, ahead⟩ := ahead.u32 ReplayError rfl
  obtain ⟨slot, ahead⟩ := ahead.u32 ReplayError rfl
  obtain ⟨generation, ahead⟩ := ahead.u32 ReplayError rfl
  obtain ⟨schema, ahead⟩ := ahead.u32 ReplayError rfl
  obtain ⟨count, read, size, ahead⟩ := ahead.counted ReplayError few
  have inside := ahead.1
  obtain ⟨payload, last⟩ := ahead.slice ReplayError rfl
  have reached := last.1
  have length : (encodeRawEntry entry).length = 20 + entry.2.2.length := by
    simp only [encodeRawEntry, entityFields, List.length_append, le32_length, counted_length]
    omega
  rw [readRawEntry, Except.refuseIf_bind (Nat.not_lt.mpr inside), shard, Except.ok_bind, slot, Except.ok_bind, generation,
    Except.ok_bind, schema, Except.ok_bind, read, Except.ok_bind, size, Except.refuseIf_bind (Nat.not_lt.mpr reached),
    payload, Except.ok_bind, length, ← Nat.add_assoc]
  rfl

/-- The narrowed number of entries is the number of those that are read. -/
theorem narrowed_length {K V : Type} [LinearOrder K] (map : OrderedMap K V) :
    (map.toList.take (map.size % 2 ^ 32)).length = (UInt32.ofNat map.size).toNat := by
  rw [List.length_take, Std.ExtTreeMap.length_toList, Nat.min_eq_left (Nat.mod_le _ _)]
  rfl

theorem narrowed_iff {K V : Type} [LinearOrder K] (map : OrderedMap K V) :
    (map.toList.take (map.size % 2 ^ 32)).foldl (fun built entry => built.insert entry.1 entry.2) (∅ : OrderedMap K V) =
      map ↔ map.size < 2 ^ 32 := by
  rw [OrderedMap.foldl_insert_take_iff]
  omega

/-- A raw map is loaded as it was saved exactly when its entries are counted by four bytes. -/
theorem decodeRawEntityMap_iff (few : ∀ entry ∈ map.toList, entry.2.2.length < 2 ^ 32) :
    decodeRawEntityMap (encodeRawEntityMap map) = .ok map ↔ map.size < 2 ^ 32 := by
  obtain ⟨bytes, same⟩ : ∃ bytes, bytes = encodeRawEntityMap map := ⟨_, rfl⟩
  have whole : Ahead bytes 0 (le32 (UInt32.ofNat map.size) ++
      ((map.toList.take (map.size % 2 ^ 32)).flatMap encodeRawEntry ++
        (map.toList.drop (map.size % 2 ^ 32)).flatMap encodeRawEntry)) := by
    rw [← List.flatMap_append, List.take_append_drop, same]
    exact ahead_start _
  obtain ⟨count, ahead⟩ := whole.u32 ReplayError (rfl : _ = 4)
  have inside := ahead.1
  have some : bytes ≠ [] := List.ne_nil_of_length_pos (by omega)
  have entries := Moving.Reads.many (fun entry member =>
    readRawEntry_reads bytes (few entry (List.mem_of_mem_take member))) 4 _ ahead
  rw [narrowed_length] at entries
  rw [← same, decodeRawEntityMap, if_neg some, Except.refuseIf_bind (Nat.not_lt.mpr inside), count, Except.ok_bind, entries,
    ← narrowed_iff]
  exact ⟨Except.ok.inj, congrArg _⟩

end Raw

section Fields

variable {field : FieldId} {value : Value} {fields : FieldMap} {map : EntityMap}

/-- A value that can be written, and fits into the bytes that one field may take. -/
def SmallValue (value : Value) : Prop := value.Writable ∧ value.encoded.length + 8 ≤ valueLimit

/-- All values of the map are small. -/
def SmallValues (map : EntityMap) : Prop :=
  ∀ (entity : EntityId) entry, map[entity]? = some entry → ∀ (field : FieldId) value,
    entry.2[field]? = some value → SmallValue value

def singleMutation (field : FieldId) (value : Value) : Mutation := .upsert [⟨field, value⟩]

theorem single_encoded_length (field : FieldId) (value : Value) :
    (singleMutation field value).encoded.length = value.encoded.length + 8 := by
  rw [singleMutation, Mutation.encoded, List.flatMap_singleton, List.length_append, List.length_append, le32_length,
    FieldUpdate.encoded_length]
  simp only [List.length_cons, List.length_nil]
  omega

theorem single_shape (field : FieldId) (value : Value) : validateUpsertShape [⟨field, value⟩] = .ok () :=
  validateUpsertShape_ok.mpr ⟨List.cons_ne_nil _ _, (by decide : 1 ≤ maxMutationFields), List.pairwise_singleton _ _⟩

/-- The bytes of a field are those of its mutation with their number. -/
def fieldBytes (entry : FieldId × Value) : List UInt8 :=
  le16 entry.1.value ++ counted (singleMutation entry.1 entry.2).encoded

/-- A small value is encoded. -/
theorem encodeField_small {entry : FieldId × Value} (small : SmallValue entry.2) :
    encodeField entry = .ok (fieldBytes entry) := by
  have sorted : (singleMutation entry.1 entry.2).sorted = singleMutation entry.1 entry.2 := by
    rw [singleMutation, Mutation.sorted, List.perm_singleton.mp ((Sorting.UnstableSort.stable FieldUpdate.field).perm _)]
  have written : encodeMutation (singleMutation entry.1 entry.2) valueLimit =
      .ok (singleMutation entry.1 entry.2).encoded := by
    rw [Mutation.encode_ok, sorted, single_encoded_length]
    refine ⟨⟨single_shape _ _, ?_⟩, small.2, rfl⟩
    intro update member
    rw [List.mem_singleton.mp member]
    exact small.1
  rw [encodeField, show Mutation.upsert [⟨entry.1, entry.2⟩] = singleMutation entry.1 entry.2 from rfl, written]
  rfl

/-- The encoded field is read back. -/
theorem decodeField_small {entry : FieldId × Value} (small : SmallValue entry.2) (rest : List UInt8) :
    decodeField (fieldBytes entry ++ rest) = .ok (some entry, rest) := by
  have length := single_encoded_length entry.1 entry.2
  have limit : valueLimit = 2 ^ 20 := rfl
  have bound := small.2
  have count : (UInt32.ofNat (singleMutation entry.1 entry.2).encoded.length).toNat =
      (singleMutation entry.1 entry.2).encoded.length :=
    UInt32.toNat_ofNat_of_lt' (show _ < 2 ^ 32 by omega)
  have head : getU32 (le16 entry.1.value ++ le32 (UInt32.ofNat (singleMutation entry.1 entry.2).encoded.length)) 2 =
      UInt32.ofNat (singleMutation entry.1 entry.2).encoded.length := getU32_of_slice rfl
  have decoded : decodeMutation (singleMutation entry.1 entry.2).encoded (singleMutation entry.1 entry.2).encoded.length =
      .ok (singleMutation entry.1 entry.2) := by
    rw [decodeMutation_ok]
    refine ⟨le_refl _, ⟨⟨List.cons_ne_nil _ _, (by decide : 1 ≤ maxMutationFields)⟩, ⟨by nofun, List.pairwise_singleton _ _⟩,
      ?_⟩, rfl⟩
    intro update member
    rw [List.mem_singleton.mp member]
    exact small.1.fits (by omega)
  rw [decodeField, Reader.bind_ok]
  refine ⟨le16 entry.1.value ++ le32 (UInt32.ofNat (singleMutation entry.1 entry.2).encoded.length),
    (singleMutation entry.1 entry.2).encoded ++ rest, ?_, ?_⟩
  · rw [Reader.readFixed_ok]
    refine ⟨rfl, ?_⟩
    rw [fieldBytes, counted]
    simp only [List.append_assoc]
  · rw [Reader.bind_ok]
    refine ⟨_, rest, Reader.readFixed_ok.mpr ⟨?_, rfl⟩, ?_⟩
    · rw [head, count]
    · rw [Reader.bind_ok]
      refine ⟨singleMutation entry.1 entry.2, rest, Reader.lift_ok.mpr ⟨?_, rfl⟩, ?_⟩
      · rw [head, count, decoded]
        rfl
      · have id : getU16 (le16 entry.1.value ++ le32 (UInt32.ofNat (singleMutation entry.1 entry.2).encoded.length)) 0 =
            entry.1.value := getU16_of_slice rfl
        rw [id]
        rfl

/-- There are no more fields than numbers for them. -/
theorem fields_size_le (fields : FieldMap) : fields.size ≤ 2 ^ 16 := by
  have nodup : ((fields.toList.map Prod.fst).map fun field => field.value.toNat).Nodup :=
    (OrderedMap.keys_nodup fields).map FieldId.toNat_injective
  have inside : ((fields.toList.map Prod.fst).map fun field => field.value.toNat) ⊆ List.range (2 ^ 16) := by
    intro number member
    obtain ⟨field, _, rfl⟩ := List.mem_map.mp member
    exact List.mem_range.mpr field.value.toNat_lt
  have bound := (List.subperm_of_subset nodup inside).length_le
  rwa [List.length_map, List.length_map, Std.ExtTreeMap.length_toList, List.length_range] at bound

end Fields

section Records

variable {map : EntityMap}

def recordBytes (entry : EntityId × SchemaId × FieldMap) : List UInt8 :=
  entityFields entry.1 ++ (le32 entry.2.1 ++ (le32 (UInt32.ofNat entry.2.2.size) ++ entry.2.2.toList.flatMap fieldBytes))

theorem encodeRecord_small {entry : EntityId × SchemaId × FieldMap}
    (small : ∀ field ∈ entry.2.2.toList, SmallValue field.2) : encodeRecord entry = .ok (recordBytes entry) := by
  rw [encodeRecord, Except.mapM_ok fun field member => encodeField_small (small field member)]
  rfl

/-- The fields of a record are read back. -/
theorem readFields_small {fields : FieldMap} (small : ∀ field ∈ fields.toList, SmallValue field.2) (rest : List UInt8) :
    Reader.readMany decodeField fields.toList.length (fields.toList.flatMap fieldBytes ++ rest) =
      .ok (fields.toList.map some, rest) := by
  have read := @Reader.readMany_flatMap _ _ decodeField (fun entry => (entry.map fieldBytes).getD [])
    (fields.toList.map some) ?_ rest
  · rwa [List.length_map, List.flatMap_map] at read
  · intro entry member rest
    obtain ⟨field, present, rfl⟩ := List.mem_map.mp member
    exact decodeField_small (small field present) rest

theorem decodeRecord_small {entry : EntityId × SchemaId × FieldMap}
    (small : ∀ field ∈ entry.2.2.toList, SmallValue field.2) (rest : List UInt8) :
    decodeRecord (recordBytes entry ++ rest) = .ok (entry, rest) := by
  obtain ⟨⟨shard, slot, generation⟩, schema, fields⟩ := entry
  have bound := fields_size_le fields
  have count : (UInt32.ofNat fields.size).toNat = fields.size := UInt32.toNat_ofNat_of_lt' (show _ < 2 ^ 32 by omega)
  obtain ⟨head, same⟩ : ∃ head, head = le32 shard ++ (le32 slot ++ (le32 generation ++ (le32 schema ++
    le32 (UInt32.ofNat fields.size)))) := ⟨_, rfl⟩
  have width : head.length = 20 := by rw [same]; rfl
  have first : getU32 head 0 = shard := by rw [same]; exact getU32_of_slice rfl
  have second : getU32 head 4 = slot := by rw [same]; exact getU32_of_slice rfl
  have third : getU32 head 8 = generation := by rw [same]; exact getU32_of_slice rfl
  have fourth : getU32 head 12 = schema := by rw [same]; exact getU32_of_slice rfl
  have fifth : getU32 head 16 = UInt32.ofNat fields.size := by rw [same]; exact getU32_of_slice rfl
  have listed : (fields.toList.map some).filterMap id = fields.toList := by
    rw [List.filterMap_map]
    exact List.filterMap_some
  rw [decodeRecord, Reader.bind_ok]
  refine ⟨head, fields.toList.flatMap fieldBytes ++ rest, Reader.readFixed_ok.mpr ⟨width, ?_⟩, ?_⟩
  · rw [same, recordBytes, entityFields]
    simp only [List.append_assoc]
  · rw [fifth, count, ← Std.ExtTreeMap.length_toList, Reader.bind_ok]
    refine ⟨_, rest, readFields_small small rest, ?_⟩
    rw [first, second, third, fourth, listed, OrderedMap.foldl_insert_toList]
    rfl

/-- A map of small values is encoded without a panic, and it is loaded as it was saved exactly when its entities are
counted by four bytes. -/
theorem encodeEntityMap_small {map : EntityMap} (small : SmallValues map) :
    ∃ bytes, encodeEntityMap map = .ok bytes ∧ (decodeEntityMap bytes = .ok map ↔ map.size < 2 ^ 32) := by
  have each : ∀ entry ∈ map.toList, ∀ field ∈ entry.2.2.toList, SmallValue field.2 := by
    intro entry member field present
    exact small entry.1 entry.2 (OrderedMap.mem_toList.mp member) field.1 field.2 (OrderedMap.mem_toList.mp present)
  have encoded : encodeEntityMap map = .ok (le32 (UInt32.ofNat map.size) ++ map.toList.flatMap recordBytes) := by
    rw [encodeEntityMap, Except.mapM_ok fun entry member => encodeRecord_small (each entry member)]
    rfl
  refine ⟨_, encoded, ?_⟩
  have read := @Reader.readMany_flatMap _ _ decodeRecord recordBytes (map.toList.take (map.size % 2 ^ 32))
    (fun entry member => decodeRecord_small (each entry (List.mem_of_mem_take member)))
    ((map.toList.drop (map.size % 2 ^ 32)).flatMap recordBytes)
  rw [narrowed_length, ← List.flatMap_append, List.take_append_drop] at read
  have count : Reader.readU32 (ReplayError.format "incomplete entity map payload")
      (le32 (UInt32.ofNat map.size) ++ map.toList.flatMap recordBytes) =
        .ok (UInt32.ofNat map.size, map.toList.flatMap recordBytes) := Reader.readU32_ok.mpr rfl
  rw [decodeEntityMap, count, Except.ok_bind]
  dsimp only
  rw [read, ← narrowed_iff]
  exact ⟨Except.ok.inj, congrArg _⟩

end Records

section Reached

variable {event : StoredEvent} {updates : List FieldUpdate} {map : EntityMap}

/-- The map after the reducer was applied to the events. A refused event may leave a part of its fields. -/
def reached (reducer : SchemaStateReducer) (events : List StoredEvent) : EntityMap :=
  events.foldl (fun map event => (reducer.apply event map).2) ∅

/-- The values of a mutation are smaller than its bytes. -/
theorem decoded_small (decoded : decodeMutation event.payload event.payload.length = .ok (.upsert updates))
    (within : event.payload.length ≤ Limits.default.maxPayloadBytes) : ∀ update ∈ updates, SmallValue update.value := by
  intro update member
  obtain ⟨_, ⟨_, _, fits⟩, bytes⟩ := decodeMutation_ok.mp decoded
  refine ⟨(fits update member).writable, ?_⟩
  obtain ⟨front, back, rfl⟩ := List.append_of_mem member
  have length := congrArg List.length bytes
  have limit : Limits.default.maxPayloadBytes = valueLimit := rfl
  rw [Mutation.encoded, List.flatMap_append, List.flatMap_cons] at length
  simp only [List.length_append, List.length_cons, List.length_nil, le32_length, FieldUpdate.encoded_length] at length
  omega

theorem smallValues_written (small : SmallValues map) (values : ∀ update ∈ updates, SmallValue update.value) :
    SmallValues (written event updates map) := by
  intro entity entry found field value stored
  rw [written_getElem?] at found
  split at found
  · obtain rfl := Option.some.inj found
    rcases overwrite_origin stored with ⟨update, member, rfl, rfl⟩ | ⟨before, _⟩
    · exact values update member
    · unfold entryOf at before
      cases recorded : map[event.entity]? with
      | none =>
          rw [recorded, Option.getD_none, Std.ExtTreeMap.getElem?_empty] at before
          contradiction
      | some entry =>
          rw [recorded, Option.getD_some] at before
          exact small event.entity entry recorded field value before
  · exact small entity entry found field value stored

/-- One event with a payload within the limit brings only small values, whether it is refused or not. -/
theorem smallValues_apply (reducer : SchemaStateReducer) (small : SmallValues map)
    (within : event.payload.length ≤ Limits.default.maxPayloadBytes) : SmallValues (reducer.apply event map).2 := by
  cases known : reducer.schemas[event.schema.toNat]? with
  | none =>
      rw [SchemaStateReducer.apply, known]
      exact small
  | some schema =>
      cases decoded : decodeMutation event.payload event.payload.length with
      | error error =>
          rw [SchemaStateReducer.apply_undecoded known decoded]
          exact small
      | ok mutation =>
          cases mutation with
          | delete =>
              rw [SchemaStateReducer.apply_delete known decoded]
              intro entity entry found
              rw [Std.ExtTreeMap.getElem?_erase] at found
              split at found
              · contradiction
              · exact small entity entry found
          | upsert updates =>
              have values := decoded_small decoded within
              rcases SchemaStateReducer.apply_upsert known decoded with
                ⟨_, ran⟩ | ⟨front, wrong, error, inside, _, _, ran⟩
              · rw [ran]
                exact smallValues_written small values
              · rw [ran]
                apply smallValues_written small
                intro update member
                exact values update (inside.subset (List.mem_append_left _ member))

theorem smallValues_reached (reducer : SchemaStateReducer) {events : List StoredEvent}
    (within : ∀ event ∈ events, event.payload.length ≤ Limits.default.maxPayloadBytes) :
    SmallValues (reached reducer events) := by
  induction events using List.reverseRecOn with
  | nil =>
      intro entity entry found
      rw [reached, List.foldl_nil, Std.ExtTreeMap.getElem?_empty] at found
      contradiction
  | append_singleton events event hypothesis =>
      rw [reached, List.foldl_concat, ← reached]
      apply smallValues_apply reducer
      · exact hypothesis fun other member => within other (List.mem_append_left _ member)
      · exact within event (List.mem_append_right _ List.mem_cons_self)

/-- Checkpoints are loaded as they were saved, and so are the maps of both reducers exactly as long as their entities are
counted by four bytes. -/
theorem state_round_trip_iff [Crc32fast] {checkpoint : Checkpoint}
    (length : checkpoint.header.stateBytesLen.toNat = checkpoint.statePayload.length)
    (reducer : SchemaStateReducer) {events : List StoredEvent}
    (within : ∀ event ∈ events, event.payload.length ≤ Limits.default.maxPayloadBytes)
    {map : RawEntityMap} (few : ∀ entry ∈ map.toList, entry.2.2.length < 2 ^ 32) :
    decodeCheckpoint (encodeCheckpoint checkpoint) = .ok checkpoint ∧
    (∃ bytes, encodeEntityMap (reached reducer events) = .ok bytes ∧
      (decodeEntityMap bytes = .ok (reached reducer events) ↔ (reached reducer events).size < 2 ^ 32)) ∧
    (decodeRawEntityMap (encodeRawEntityMap map) = .ok map ↔ map.size < 2 ^ 32) := by
  refine ⟨?_, ?_, ?_⟩
  · have fits : checkpoint.statePayload.length < 2 ^ 32 := by
      rw [← length]
      exact checkpoint.header.stateBytesLen.toNat_lt
    rw [decodeCheckpoint_encodeCheckpoint fits, ← length, UInt32.ofNat_toNat]
  · exact encodeEntityMap_small (smallValues_reached reducer within)
  · exact decodeRawEntityMap_iff few

end Reached

section Samples

/-- The map of an opened door, a checkpoint of one byte and a raw map of one entity are loaded as they were saved. -/
theorem state_round_trip_iff_sample :
    letI := Crc32fast.ieee
    let checkpoint : Checkpoint := ⟨⟨⟨List.replicate 16 0, rfl⟩, 1, 1, 4, ⟨1, 2⟩, ⟨1, 3⟩, ⟨0, 1, 2⟩, 1⟩, [9]⟩
    let raw : RawEntityMap := (∅ : RawEntityMap).insert ⟨0, 1, 0⟩ (7, [5, 6])
    decodeCheckpoint (encodeCheckpoint checkpoint) = .ok checkpoint ∧
      (∃ bytes, encodeEntityMap (reached (SchemaStateReducer.new [doorSchema]) [doorOpened]) = .ok bytes ∧
        (decodeEntityMap bytes = .ok (reached (SchemaStateReducer.new [doorSchema]) [doorOpened]) ↔
          (reached (SchemaStateReducer.new [doorSchema]) [doorOpened]).size < 2 ^ 32)) ∧
      (decodeRawEntityMap (encodeRawEntityMap raw) = .ok raw ↔ raw.size < 2 ^ 32) := by
  generalize Crc32fast.ieee = checksum
  intro checkpoint raw
  refine @state_round_trip_iff _ checkpoint rfl (SchemaStateReducer.new [doorSchema]) [doorOpened] ?_ raw ?_
  · intro event member
    rw [List.mem_singleton.mp member]
    decide
  · rintro ⟨entity, entry⟩ member
    have found := OrderedMap.mem_toList.mp member
    rw [OrderedMap.insert_getElem?] at found
    split at found
    · rw [← Option.some.inj found]
      exact (by decide : 2 < 2 ^ 32)
    · rw [Std.ExtTreeMap.getElem?_empty] at found
      contradiction

/-- So many entities without a payload, one in each slot. -/
def crowd (count : Nat) : RawEntityMap :=
  (List.range count).foldl (fun map slot => map.insert ⟨0, UInt32.ofNat slot, 0⟩ (0, [])) ∅

theorem crowd_succ (count : Nat) : crowd (count + 1) = (crowd count).insert ⟨0, UInt32.ofNat count, 0⟩ (0, []) := by
  rw [crowd, List.range_succ, List.foldl_concat, ← crowd]

/-- All slots are different as long as there are enough of them. -/
theorem crowd_size {count : Nat} (enough : count ≤ 2 ^ 32) : (crowd count).size = count ∧
    ∀ (entity : EntityId) entry, (crowd count)[entity]? = some entry → entity.slot.toNat < count ∧ entry = (0, []) := by
  induction count with
  | zero =>
      refine ⟨rfl, ?_⟩
      intro entity entry found
      rw [crowd, List.range_zero, List.foldl_nil, Std.ExtTreeMap.getElem?_empty] at found
      contradiction
  | succ count hypothesis =>
      obtain ⟨size, slots⟩ := hypothesis (Nat.le_of_succ_le enough)
      have slot : (UInt32.ofNat count).toNat = count := UInt32.toNat_ofNat_of_lt' enough
      have fresh : (⟨0, UInt32.ofNat count, 0⟩ : EntityId) ∉ crowd count := by
        intro present
        rw [Std.ExtTreeMap.mem_iff_isSome_getElem?] at present
        obtain ⟨entry, found⟩ := Option.isSome_iff_exists.mp present
        have below := (slots _ entry found).1
        rw [slot] at below
        exact absurd below (lt_irrefl _)
      rw [crowd_succ]
      refine ⟨by rw [Std.ExtTreeMap.size_insert, if_neg (fun present => fresh (Std.ExtTreeMap.contains_iff_mem.mp present)), size], ?_⟩
      intro entity entry found
      rw [OrderedMap.insert_getElem?] at found
      split at found
      · next same =>
          rw [← same]
          exact ⟨slot.trans_lt (Nat.lt_succ_self _), (Option.some.inj found).symm⟩
      · have earlier := slots entity entry found
        exact ⟨earlier.1.trans (Nat.lt_succ_self _), earlier.2⟩

/-- A map with an entity in every slot is not loaded again. -/
theorem crowd_is_lost : (∀ entry ∈ (crowd (2 ^ 32)).toList, entry.2.2.length < 2 ^ 32) ∧
    decodeRawEntityMap (encodeRawEntityMap (crowd (2 ^ 32))) ≠ .ok (crowd (2 ^ 32)) := by
  obtain ⟨size, slots⟩ := crowd_size (le_refl (2 ^ 32))
  have few : ∀ entry ∈ (crowd (2 ^ 32)).toList, entry.2.2.length < 2 ^ 32 := by
    intro entry member
    rw [(slots entry.1 entry.2 (OrderedMap.mem_toList.mp member)).2]
    exact Nat.two_pow_pos 32
  refine ⟨few, ?_⟩
  rw [Ne, decodeRawEntityMap_iff few, size]
  exact lt_irrefl _

end Samples

end Temnion.Replay
