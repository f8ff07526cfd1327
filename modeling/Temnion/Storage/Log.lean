import Temnion.Storage.Store
import Temnion.Library.Batches

/-
This file states what an accepted sequence of records is, and which checks of the store decide it.
-/

namespace Temnion.Storage

open Format Index LittleEndian

/-- The record may follow at this sequence after this known time. -/
structure Accepts (header : WalHeader) (sequence : Nat) (previous : Option Timestamp) (record : StoredEvent) :
    Prop where
  identity : record.id = ⟨header.source, header.epoch, UInt64.ofNat sequence⟩
  follows : ∀ last, previous = some last →
    last.clock = record.times.known.clock ∧ last.ticks ≤ record.times.known.ticks
  causes : ∀ cause ∈ record.causes, cause.source = header.source → cause.epoch = header.epoch →
    cause.sequence < UInt64.ofNat sequence

theorem checkKnown_ok {record : StoredEvent} {previous : Option Timestamp} {done : Unit} :
    checkKnown record previous = .ok done ↔ ∀ last, previous = some last →
      last.clock = record.times.known.clock ∧ last.ticks ≤ record.times.known.ticks := by
  cases previous with
  | none => simp [checkKnown, pure, Except.pure]
  | some last =>
      simp only [checkKnown, Except.bind_eq_ok, Except.refuseIf_ok, exists_const, not_not, UInt64.not_lt,
        Option.some.injEq, forall_eq']

/-- The validation of the source is the acceptance of one record. -/
theorem validateRecord_ok {header : WalHeader} {sequence : Nat} {previous : Option Timestamp}
    {record : StoredEvent} {done : Unit} :
    validateRecord header (UInt64.ofNat sequence) previous record = .ok done ↔
      Accepts header sequence previous record := by
  unfold validateRecord
  simp only [Except.bind_eq_ok, Except.refuseIf_ok, exists_const, checkKnown_ok, not_or, not_not]
  have causes : (¬record.causes.any fun cause => cause.source == header.source && cause.epoch == header.epoch &&
      decide (UInt64.ofNat sequence ≤ cause.sequence)) ↔ ∀ cause ∈ record.causes, cause.source = header.source →
        cause.epoch = header.epoch → cause.sequence < UInt64.ofNat sequence := by
    simp [UInt64.not_le]
  rw [causes]
  constructor
  · intro steps
    obtain ⟨⟨source, epoch, number⟩, follows, precede⟩ := steps
    refine ⟨?_, follows, precede⟩
    rw [← source, ← epoch, ← number]
  · intro accepts
    rw [accepts.identity]
    exact ⟨⟨rfl, rfl, rfl⟩, accepts.follows, accepts.causes⟩

/-- Every record may follow the one before it. -/
def Accepted (header : WalHeader) : Nat → Option Timestamp → List StoredEvent → Prop
  | _, _, [] => True
  | sequence, previous, record :: records =>
      Accepts header sequence previous record ∧ Accepted header (sequence + 1) (some record.times.known) records

/-- The known time that the next record has to follow. -/
def knownAfter (previous : Option Timestamp) (records : List StoredEvent) : Option Timestamp :=
  records.foldl (fun _ record => some record.times.known) previous

/-- The records carry consecutive sequences of the log. -/
def Numbered (header : WalHeader) (first : Nat) (records : List StoredEvent) : Prop :=
  ∀ (index : Nat) (record : StoredEvent), records[index]? = some record →
    record.id = ⟨header.source, header.epoch, UInt64.ofNat (first + index)⟩

@[simp] theorem knownAfter_nil (previous : Option Timestamp) : knownAfter previous [] = previous := rfl

@[simp] theorem knownAfter_cons (previous : Option Timestamp) (record : StoredEvent) (records : List StoredEvent) :
    knownAfter previous (record :: records) = knownAfter (some record.times.known) records := rfl

theorem knownAfter_append (previous : Option Timestamp) (first second : List StoredEvent) :
    knownAfter previous (first ++ second) = knownAfter (knownAfter previous first) second :=
  List.foldl_append

/-- Only an empty sequence leaves the earlier known time in force. -/
theorem knownAfter_of_ne_nil {records : List StoredEvent} (nonempty : records ≠ []) (first second : Option Timestamp) :
    knownAfter first records = knownAfter second records := by
  cases records with
  | nil => contradiction
  | cons record records => rfl

namespace Accepted

variable {header : WalHeader} {sequence : Nat} {previous : Option Timestamp} {records first second : List StoredEvent}

theorem append_iff : Accepted header sequence previous (first ++ second) ↔
    Accepted header sequence previous first ∧
      Accepted header (sequence + first.length) (knownAfter previous first) second := by
  induction first generalizing sequence previous with
  | nil => simp [Accepted]
  | cons record first ih =>
      simp only [List.cons_append, Accepted, ih, List.length_cons, knownAfter_cons, and_assoc]
      rw [Nat.add_assoc, Nat.add_comm 1]

/-- A sequence that follows a known time also starts a log of its own. -/
theorem forget (accepted : Accepted header sequence previous records) :
    Accepted header sequence none records := by
  cases records with
  | nil => trivial
  | cons record records =>
      obtain ⟨⟨identity, _, causes⟩, rest⟩ := accepted
      exact ⟨⟨identity, fun last absent => (nomatch absent), causes⟩, rest⟩

theorem numbered (accepted : Accepted header sequence previous records) : Numbered header sequence records := by
  induction records generalizing sequence previous with
  | nil =>
      intro index record absent
      simp at absent
  | cons head records ih =>
      intro index record present
      cases index with
      | zero =>
          obtain rfl : head = record := by simpa using present
          exact accepted.1.identity
      | succ index =>
          rw [ih accepted.2 index record (by simpa using present)]
          congr 2
          omega

/-- A record does not leave the clock of the known time before it. -/
theorem clock_eq {last : Timestamp} (accepted : Accepted header sequence (some last) records) {record : StoredEvent}
    (member : record ∈ records) : record.times.known.clock = last.clock := by
  induction records generalizing sequence last with
  | nil => simp at member
  | cons head records ih =>
      have same := (accepted.1.follows last rfl).1
      rcases List.mem_cons.mp member with rfl | member
      · exact same.symm
      · exact (ih accepted.2 member).trans same.symm

/-- All records share the clock of the known time that they leave. -/
theorem clock_eq_after {last : Timestamp} (accepted : Accepted header sequence previous records)
    (after : knownAfter previous records = some last) {record : StoredEvent} (member : record ∈ records) :
    record.times.known.clock = last.clock := by
  induction records generalizing sequence previous record with
  | nil => simp at member
  | cons head records ih =>
      rw [knownAfter_cons] at after
      rcases List.mem_cons.mp member with rfl | member
      · cases records with
        | nil => exact congrArg Timestamp.clock (Option.some.inj after)
        | cons next records =>
            rw [← ih accepted.2 after List.mem_cons_self]
            exact (accepted.2.1.follows _ rfl).1
      · exact ih accepted.2 after member

end Accepted

theorem Numbered.append_iff {header : WalHeader} {first : Nat} {left right : List StoredEvent} :
    Numbered header first (left ++ right) ↔
      Numbered header first left ∧ Numbered header (first + left.length) right := by
  constructor
  · intro numbered
    constructor
    · intro index record present
      have inside := (List.getElem?_eq_some_iff.mp present).1
      exact numbered index record (by rw [List.getElem?_append_left inside]; exact present)
    · intro index record present
      have shifted : (left ++ right)[left.length + index]? = some record := by
        rw [List.getElem?_append_right (Nat.le_add_right _ _), Nat.add_sub_cancel_left]
        exact present
      rw [numbered _ record shifted, Nat.add_assoc]
  · intro both index record present
    by_cases inside : index < left.length
    · rw [List.getElem?_append_left inside] at present
      exact both.1 index record present
    · rw [List.getElem?_append_right (by omega)] at present
      rw [both.2 _ record present]
      congr 2
      omega

section Checks

variable {header : WalHeader}

/-- The recovery loop accepts exactly the accepted sequences whose end is still a sequence. -/
theorem validateNext_ok {records : List StoredEvent} {sequence next : Nat} {previous known : Option Timestamp}
    (start : sequence < 2 ^ 64) :
    records.foldlM (Store.validateNext header) (sequence, previous) = .ok (next, known) ↔
      Accepted header sequence previous records ∧ sequence + records.length = next ∧
        knownAfter previous records = known ∧ next < 2 ^ 64 := by
  induction records generalizing sequence previous with
  | nil =>
      simp only [List.foldlM_nil, pure, Except.pure, Except.ok.injEq, Prod.mk.injEq, Accepted, List.length_nil,
        Nat.add_zero, knownAfter_nil, true_and]
      constructor
      · intro same
        exact ⟨same.1, same.2, same.1 ▸ start⟩
      · intro same
        exact ⟨same.1, same.2.1⟩
  | cons record records ih =>
      simp only [List.foldlM_cons, Store.validateNext, Except.bind_eq_ok, validateRecord_ok, exists_const,
        checkedAdd_ok, pure, Except.pure, Except.ok.injEq, Accepted, knownAfter_cons, List.length_cons]
      constructor
      · intro steps
        obtain ⟨_, ⟨accepts, _, ⟨bound, rfl⟩, rfl⟩, rest⟩ := steps
        obtain ⟨accepted, rfl, known, small⟩ := (ih bound).mp rest
        exact ⟨⟨accepts, accepted⟩, by omega, known, small⟩
      · intro holds
        obtain ⟨⟨accepts, accepted⟩, rfl, known, small⟩ := holds
        have bound : sequence + 1 < 2 ^ 64 := by omega
        exact ⟨_, ⟨accepts, _, ⟨bound, rfl⟩, rfl⟩, (ih bound).mpr ⟨accepted, by omega, known, by omega⟩⟩

/-- A read through the index accepts the accepted sequences on the clock of the handle. -/
theorem validateIndexed_ok [Crc32fast] {store : Store} {records : List StoredEvent} {sequence : Nat}
    {previous : Option Timestamp} (accepted : Accepted store.header sequence previous records)
    (clock : ∀ record ∈ records, ∀ last, store.lastKnown = some last → last.clock = record.times.known.clock) :
    records.foldlM store.validateIndexed (sequence, previous) =
      .ok (sequence + records.length, knownAfter previous records) := by
  induction records generalizing sequence previous with
  | nil => rfl
  | cons record records ih =>
      have same : store.validateIndexed (sequence, previous) record = .ok (sequence + 1, some record.times.known) := by
        unfold Store.validateIndexed
        simp only [Except.bind_eq_ok, validateRecord_ok, Except.refuseIf_ok, exists_const, pure, Except.pure, and_true,
          Bool.not_eq_true, Option.any_eq_false, bne_eq_false_iff_eq]
        exact ⟨accepted.1, clock record List.mem_cons_self⟩
      rw [List.foldlM_cons, same]
      change records.foldlM store.validateIndexed _ = _
      rw [ih accepted.2 fun record member => clock record (List.mem_cons_of_mem _ member), knownAfter_cons,
        List.length_cons, Nat.add_assoc, Nat.add_comm 1]

/-- The input that a record was admitted from. -/
def inputOf (record : StoredEvent) : WriteEvent :=
  ⟨record.entity, record.times, record.schema, record.payload, record.causes⟩

/-- Admission numbers the inputs and accepts exactly the sequences that may follow. -/
theorem appendRecord_ok [Crc32fast] {store : Store} {batch : List WriteEvent} {admitted records : List StoredEvent}
    {previous known : Option Timestamp} :
    batch.foldlM store.appendRecord (admitted, previous) = .ok (records, known) ↔
      ∃ fresh, records = admitted ++ fresh ∧ fresh.map inputOf = batch ∧
        Accepted store.header (store.nextSequence + admitted.length) previous fresh ∧
        knownAfter previous fresh = known := by
  induction batch generalizing admitted previous with
  | nil =>
      simp only [List.foldlM_nil, pure, Except.pure, Except.ok.injEq, Prod.mk.injEq, List.map_eq_nil_iff]
      constructor
      · intro same
        exact ⟨[], by simp [same.1], rfl, trivial, same.2⟩
      · intro holds
        obtain ⟨fresh, rfl, rfl, _, rfl⟩ := holds
        simp
  | cons input batch ih =>
      simp only [List.foldlM_cons, Store.appendRecord, Except.bind_eq_ok, validateRecord_ok, exists_const, pure, Except.pure,
        Except.ok.injEq]
      constructor
      · intro steps
        obtain ⟨_, ⟨accepts, rfl⟩, rest⟩ := steps
        obtain ⟨fresh, rfl, inputs, accepted, known⟩ := ih.mp rest
        refine ⟨_ :: fresh, by rw [List.append_assoc]; rfl, ?_, ⟨accepts, ?_⟩, known⟩
        · rw [List.map_cons, inputs]
          rfl
        · simpa [Nat.add_assoc] using accepted
      · intro holds
        obtain ⟨fresh, rfl, inputs, accepted, rfl⟩ := holds
        cases fresh with
        | nil => simp at inputs
        | cons record fresh =>
            rw [List.map_cons, List.cons.injEq] at inputs
            obtain ⟨rfl, rfl⟩ := inputs
            have same : record = ⟨⟨store.header.source, store.header.epoch,
                UInt64.ofNat (store.nextSequence + admitted.length)⟩, record.entity, record.times, record.schema,
                record.payload, record.causes⟩ := by
              rw [← accepted.1.identity]
            refine ⟨_, ⟨same ▸ accepted.1, rfl⟩, ih.mpr ⟨fresh, ?_, rfl, ?_, rfl⟩⟩
            · rw [List.append_assoc, List.singleton_append]
              exact congrArg (fun head => admitted ++ head :: fresh) same
            · change Accepted store.header (store.nextSequence + (admitted ++ [_]).length) (some record.times.known) fresh
              rw [List.length_append, List.length_singleton, ← Nat.add_assoc]
              exact accepted.2

end Checks

end Temnion.Storage
