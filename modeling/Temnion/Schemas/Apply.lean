import Temnion.Schemas.Position
import Temnion.Schemas.SchemaCodec

/-
This file says what a mutation does to the fields of an entity, in whatever order its updates come.
-/

namespace Temnion.Schemas

variable {schema : Schema} {first second updates : List FieldUpdate} {state reached : FieldMap} {mutation : Mutation}

/-- Both calls succeed or both fail, and they leave the same fields. -/
def SameOutcome (one two : Except SchemaError Unit × FieldMap) : Prop := (one.1 = .ok () ↔ two.1 = .ok ()) ∧ one.2 = two.2

theorem validateUpsertShape_perm (perm : first.Perm second) :
    validateUpsertShape first = .ok () ↔ validateUpsertShape second = .ok () := by
  rw [validateUpsertShape_ok, validateUpsertShape_ok, perm.length_eq,
    perm.pairwise_iff fun {_ _} unequal => Ne.symm unequal]
  apply and_congr_left'
  exact not_congr ⟨fun empty => (empty ▸ perm).symm.eq_nil, fun empty => (empty ▸ perm).eq_nil⟩

/-- Updates of different fields may be written in any order. -/
theorem overwrite_perm (perm : first.Perm second)
    (apart : first.Pairwise fun one two => one.field ≠ two.field) : overwrite state first = overwrite state second := by
  have apart' := (perm.pairwise_iff fun {_ _} unequal => Ne.symm unequal).mp apart
  apply Std.ExtTreeMap.ext_getElem?
  intro id
  by_cases named : ∃ update ∈ first, update.field = id
  · obtain ⟨update, member, rfl⟩ := named
    rw [overwrite_named apart member, overwrite_named apart' (perm.mem_iff.mp member)]
  · rw [overwrite_other fun update member same => named ⟨update, member, same⟩,
      overwrite_other fun update member same => named ⟨update, perm.mem_iff.mpr member, same⟩]

namespace Schema

/-- A mutation that is refused leaves the fields as they were. -/
theorem apply_error {error : SchemaError} (refused : schema.apply mutation state = (.error error, reached)) :
    reached = state := by
  cases mutation with
  | delete => cases (Prod.mk.inj refused).1
  | upsert updates =>
      rw [apply] at refused
      cases valid : schema.validateMutation (.upsert updates) with
      | error wrong =>
          rw [valid, Procedure.lift_bind_error] at refused
          exact (Prod.mk.inj refused).2.symm
      | ok value =>
          rw [valid, Procedure.lift_bind_ok, Procedure.bind_of_ok (Procedure.read_apply state)] at refused
          cases complete : schema.validateCompleteState (overwrite state updates) with
          | error wrong =>
              rw [complete, Procedure.lift_bind_error] at refused
              exact (Prod.mk.inj refused).2.symm
          | ok value =>
              rw [complete, Procedure.lift_bind_ok] at refused
              cases (Prod.mk.inj refused).1

/-- The conditions under which an upsert is taken. -/
def Takes (schema : Schema) (state : FieldMap) (updates : List FieldUpdate) : Prop :=
  schema.validateMutation (.upsert updates) = .ok () ∧ schema.Complete (overwrite state updates)

theorem apply_taken (takes : schema.Takes state updates) :
    schema.apply (.upsert updates) state = (.ok (), overwrite state updates) :=
  apply_upsert_ok.mpr ⟨takes.1, takes.2, rfl⟩

theorem apply_refused (refuses : ¬ schema.Takes state updates) :
    ∃ error, schema.apply (.upsert updates) state = (.error error, state) := by
  cases ran : schema.apply (.upsert updates) state with
  | mk outcome reached =>
      cases outcome with
      | ok done =>
          obtain ⟨valid, complete, _⟩ := apply_upsert_ok.mp ran
          exact absurd ⟨valid, complete⟩ refuses
      | error error => exact ⟨error, by rw [apply_error ran]⟩

theorem takes_perm (perm : first.Perm second) (takes : schema.Takes state first) : schema.Takes state second := by
  obtain ⟨valid, complete⟩ := takes
  obtain ⟨shape, admits⟩ := validateMutation_upsert_ok.mp valid
  have apart := (validateUpsertShape_ok.mp shape).2.2
  refine ⟨validateMutation_upsert_ok.mpr ⟨(validateUpsertShape_perm perm).mp shape, ?_⟩, ?_⟩
  · exact fun update member => admits update (perm.mem_iff.mpr member)
  · rwa [← overwrite_perm perm apart]

/-- The order of the updates decides neither whether they are taken nor what they leave. -/
theorem apply_perm (schema : Schema) (state : FieldMap) (perm : first.Perm second) :
    SameOutcome (schema.apply (.upsert first) state) (schema.apply (.upsert second) state) := by
  by_cases takes : schema.Takes state first
  · have apart := (validateUpsertShape_ok.mp (validateMutation_upsert_ok.mp takes.1).1).2.2
    rw [apply_taken takes, apply_taken (takes_perm perm takes)]
    exact ⟨Iff.rfl, overwrite_perm perm apart⟩
  · have refuses : ¬ schema.Takes state second := fun other => takes (takes_perm perm.symm other)
    obtain ⟨one, here⟩ := apply_refused takes
    obtain ⟨two, there⟩ := apply_refused refuses
    rw [here, there]
    exact ⟨iff_of_false (by nofun) (by nofun), rfl⟩

/-- A mutation does the same in the order of its fields. -/
theorem apply_sorted (schema : Schema) (state : FieldMap) (mutation : Mutation) :
    SameOutcome (schema.apply mutation.sorted state) (schema.apply mutation state) := by
  cases mutation with
  | delete => exact ⟨Iff.rfl, rfl⟩
  | upsert updates => exact apply_perm schema state ((Sorting.UnstableSort.stable FieldUpdate.field).perm updates)

/-- A refused mutation changes nothing. One that is taken leaves no fields, or complete ones in which exactly its own are
overwritten. The order of the updates does not matter, and neither does a detour over the bytes of the mutation. -/
theorem apply_atomic_in_any_order (schema : Schema) (state : FieldMap) :
    (∀ mutation error reached, schema.apply mutation state = (.error error, reached) → reached = state) ∧
    schema.apply .delete state = (.ok (), ∅) ∧
    (∀ updates reached, schema.apply (.upsert updates) state = (.ok (), reached) → schema.Complete reached ∧
      (∀ update ∈ updates, reached[update.field]? = some update.value) ∧
        ∀ id, (∀ update ∈ updates, update.field ≠ id) → reached[id]? = state[id]?) ∧
    (∀ first second, first.Perm second →
      SameOutcome (schema.apply (.upsert first) state) (schema.apply (.upsert second) state)) ∧
    ∀ mutation maxBytes bytes, encodeMutation mutation maxBytes = .ok bytes → ∃ decoded,
      decodeMutation bytes maxBytes = .ok decoded ∧
        SameOutcome (schema.apply decoded state) (schema.apply mutation state) := by
  refine ⟨fun _ _ _ refused => apply_error refused, rfl, ?_, fun _ _ perm => apply_perm schema state perm, ?_⟩
  · intro updates reached taken
    obtain ⟨valid, complete, rfl⟩ := apply_upsert_ok.mp taken
    have apart := (validateUpsertShape_ok.mp (validateMutation_upsert_ok.mp valid).1).2.2
    exact ⟨complete, fun update member => overwrite_named apart member, fun id untouched => overwrite_other untouched⟩
  · intro mutation maxBytes bytes written
    obtain ⟨encodable, within, rfl⟩ := Mutation.encode_ok.mp written
    exact ⟨mutation.sorted, decodeMutation_ok.mpr ⟨within, encodable.canonical within, rfl⟩,
      apply_sorted schema state mutation⟩

/-- A flag is set, an unknown field is refused, and the bytes of the first mutation do what the mutation does. -/
theorem apply_atomic_in_any_order_sample :
    flagSchema.apply (.upsert [⟨⟨1⟩, .bool true⟩]) ∅ = (.ok (), overwrite ∅ [⟨⟨1⟩, .bool true⟩]) ∧
      (overwrite ∅ [⟨⟨1⟩, .bool true⟩])[FieldId.mk 1]? = some (.bool true) ∧
      (∀ error reached, flagSchema.apply (.upsert [⟨⟨2⟩, .null⟩]) ∅ = (.error error, reached) → reached = ∅) ∧
      SameOutcome (flagSchema.apply (.upsert [⟨⟨1⟩, .null⟩, ⟨⟨2⟩, .null⟩]) ∅)
        (flagSchema.apply (.upsert [⟨⟨2⟩, .null⟩, ⟨⟨1⟩, .null⟩]) ∅) ∧
      ∃ decoded, decodeMutation [1, 1, 1, 0, 0, 0, 1, 0, 1, 1] 64 = .ok decoded ∧
        SameOutcome (flagSchema.apply decoded ∅) (flagSchema.apply (.upsert [⟨⟨1⟩, .bool true⟩]) ∅) := by
  obtain ⟨refused, _, taken, ordered, encoded⟩ := apply_atomic_in_any_order flagSchema ∅
  have written : encodeMutation (.upsert [⟨⟨1⟩, .bool true⟩]) 64 = .ok [1, 1, 1, 0, 0, 0, 1, 0, 1, 1] := by decide
  have complete : flagSchema.Complete (overwrite ∅ [⟨⟨1⟩, .bool true⟩]) := by
    constructor
    · intro id value found
      rcases overwrite_origin found with ⟨update, member, rfl, rfl⟩ | ⟨before, _⟩
      · rw [List.mem_singleton.mp member]
        rfl
      · rw [Std.ExtTreeMap.getElem?_empty] at before
        contradiction
    · intro field member required
      rw [List.mem_singleton.mp member] at required
      contradiction
  have set := apply_taken ⟨rfl, complete⟩
  exact ⟨set, (taken _ _ set).2.1 _ List.mem_cons_self, fun error reached => refused _ error reached,
    ordered _ _ (List.Perm.swap _ _ _), encoded _ 64 _ written⟩

end Schema

end Temnion.Schemas
