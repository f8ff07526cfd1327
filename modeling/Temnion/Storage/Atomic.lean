import Temnion.Storage.Handle

/-
This file shows that an append does everything or nothing.
-/

namespace Temnion.Storage

open Format Index LittleEndian

/-- Records of a numbered sequence that share their id are the same record. -/
theorem Numbered.eq_of_id {header : WalHeader} {first : Nat} {records : List StoredEvent} {record other : StoredEvent}
    (numbered : Numbered header first records) (bound : first + records.length < 2 ^ 64) (member : record ∈ records)
    (member' : other ∈ records) (same : record.id = other.id) : record = other := by
  obtain ⟨index, inside, rfl⟩ := List.mem_iff_getElem.mp member
  obtain ⟨index', inside', rfl⟩ := List.mem_iff_getElem.mp member'
  rw [numbered index _ (List.getElem?_eq_getElem inside), numbered index' _ (List.getElem?_eq_getElem inside')] at same
  have numbers := congrArg (fun id : EventId => id.sequence.toNat) same
  dsimp only at numbers
  rw [toNat_ofNat (by omega), toNat_ofNat (by omega)] at numbers
  obtain rfl : index = index' := by omega
  rfl

/-- A search for the id of a record finds the record. -/
theorem Numbered.find {header : WalHeader} {first : Nat} {records : List StoredEvent} {record : StoredEvent}
    (numbered : Numbered header first records) (bound : first + records.length < 2 ^ 64) (member : record ∈ records) :
    records.find? (·.id = record.id) = some record := by
  cases found : records.find? (·.id = record.id) with
  | none => exact absurd (List.find?_eq_none.mp found record member) (by simp)
  | some other =>
      have same : other.id = record.id := by simpa using List.find?_some found
      rw [numbered.eq_of_id bound (List.mem_of_find?_eq_some found) member same]

section Handle

variable [Crc32fast]

section Publish

variable {store : Store} {disk : Disk} {batch : List WriteEvent} {fresh : List StoredEvent}

/-- The frames of a handle start in front of its next sequence. -/
def Store.Behind (store : Store) : Prop := ∀ frame ∈ store.frames, frame.first ≤ store.nextSequence

omit [Crc32fast] in
theorem Store.Behind.compacted (behind : store.Behind) (retired length : Nat) :
    (store.compacted retired length).Behind := by
  have relocated : ∀ (frames : List FrameLocation) (offset : Nat), (∀ frame ∈ frames, frame.first ≤ store.nextSequence) →
      ∀ frame ∈ Store.relocate offset frames, frame.first ≤ store.nextSequence := by
    intro frames
    induction frames with
    | nil => exact fun _ _ _ absent => absurd absent List.not_mem_nil
    | cons head frames hypothesis =>
        intro offset all frame member
        rcases List.mem_cons.mp member with rfl | member
        · exact all head List.mem_cons_self
        · exact hypothesis _ (fun other inside => all other (List.mem_cons_of_mem _ inside)) frame member
  exact relocated _ _ fun frame member => behind frame (List.mem_of_mem_drop member)

theorem Store.Behind.pushBatch (behind : store.Behind) : (store.pushBatch fresh).Behind := by
  intro frame member
  change frame ∈ store.frames ++ [_] at member
  rw [Store.pushBatch_nextSequence]
  rcases List.mem_append.mp member with member | member
  · exact (behind frame member).trans (Nat.le_add_right _ _)
  · rw [List.mem_singleton.mp member]
    exact Nat.le_add_right _ _

/-- The last frame covers every sequence that it has added. -/
theorem Store.Behind.frameForSequence (behind : store.Behind) {sequence : Nat} (lower : store.nextSequence ≤ sequence) :
    (store.pushBatch fresh).frameForSequence sequence =
      some ⟨store.endOffset, (batchBytes fresh).length, store.nextSequence, fresh.length⟩ := by
  have frames : (store.pushBatch fresh).frames =
      store.frames ++ [⟨store.endOffset, (batchBytes fresh).length, store.nextSequence, fresh.length⟩] := rfl
  have all : (store.pushBatch fresh).framesUpTo sequence = (store.pushBatch fresh).frames := by
    rw [Store.framesUpTo, List.takeWhile_eq_self_iff]
    intro frame member
    rw [frames, List.mem_append, List.mem_singleton] at member
    rcases member with member | rfl
    · exact decide_eq_true ((behind frame member).trans lower)
    · exact decide_eq_true lower
  have index : (store.pushBatch fresh).frameIndexForSequence sequence = some store.frames.length := by
    rw [Store.frameIndexForSequence, all, frames, List.length_append, List.length_singleton]
  rw [Store.frameForSequence, index, Option.bind_some, frames, List.getElem?_append_right (Nat.le_refl _), Nat.sub_self]
  rfl

/-- The bytes that were appended read back as the batch. -/
theorem NextBatch.readIndexedFrame (next : NextBatch store batch fresh) (aligned : disk.wal.length = store.endOffset) :
    (store.pushBatch fresh).readIndexedFrame (disk.wal ++ batchBytes fresh)
      ⟨store.endOffset, (batchBytes fresh).length, store.nextSequence, fresh.length⟩ = .ok fresh := by
  have decoded : decodeFrameAt (disk.wal ++ batchBytes fresh) store.limits store.endOffset (batchBytes fresh).length =
      .ok fresh := by
    unfold decodeFrameAt
    rw [Except.bind_eq_ok]
    refine ⟨batchBytes fresh, readExact_ok.mpr ⟨?_, ?_⟩, asStorage_ok.mpr (decodeBatch_ok.mpr ⟨next.fits, rfl⟩)⟩
    · rw [List.length_append, aligned]
    · rw [slice_append_right aligned.le, aligned, Nat.sub_self, slice_all rfl]
  have clock : ∀ record ∈ fresh, ∀ last, (store.pushBatch fresh).lastKnown = some last →
      last.clock = record.times.known.clock := by
    intro record member last known
    exact (next.accepted.clock_eq_after known member).symm
  have checked : fresh.foldlM (store.pushBatch fresh).validateIndexed (store.nextSequence, none) = _ :=
    validateIndexed_ok next.accepted.forget clock
  unfold Store.readIndexedFrame readFrameAt
  rw [Store.pushBatch_limits, Except.refuseIf_bind (Nat.not_lt.mpr next.fits.length), decoded, Except.ok_bind]
  unfold Store.checkIndexedFrame
  rw [Except.refuseIf_bind (not_not.mpr rfl), checked]
  rfl

/-- Every record of the batch can be read at once. -/
theorem NextBatch.get (next : NextBatch store batch fresh) (behind : store.Behind) (usable : store.poisoned = false)
    (aligned : disk.wal.length = store.endOffset) {record : StoredEvent} (member : record ∈ fresh) :
    (store.pushBatch fresh).get { disk with wal := disk.wal ++ batchBytes fresh } record.id = .ok record := by
  have numbered := next.accepted.numbered
  have bound := next.bound
  obtain ⟨index, inside, rfl⟩ := List.mem_iff_getElem.mp member
  have id := numbered index _ (List.getElem?_eq_getElem inside)
  have sequence : fresh[index].id.sequence.toNat = store.nextSequence + index := by
    rw [id]
    exact toNat_ofNat (by omega)
  have known : ¬(fresh[index].id.source ≠ (store.pushBatch fresh).header.source ∨
      fresh[index].id.epoch ≠ (store.pushBatch fresh).header.epoch ∨
        (store.pushBatch fresh).nextSequence ≤ fresh[index].id.sequence.toNat) := by
    rw [sequence, id, Store.pushBatch_nextSequence]
    simp [inside]
  have open' : ¬(store.pushBatch fresh).poisoned = true := by
    change ¬store.poisoned = true
    rw [usable]
    decide
  unfold Store.get
  rw [Except.refuseIf_bind open', Except.refuseIf_bind known, sequence,
    behind.frameForSequence (Nat.le_add_right _ _)]
  dsimp only
  rw [next.readIndexedFrame aligned, Except.ok_bind, numbered.find bound member]
  rfl

end Publish

section Atomic

variable {allowed : World → Command → Prop} {world : World}

theorem Reached.behind (reached : Reached allowed world) : world.store.Behind := by
  suffices both : world.store.Behind ∧ world.store.nextSequence < 2 ^ 64 from both.1
  refine reached.keeps ?_ ?_ ?_ ?_
  · exact fun _ _ _ _ absent => absurd absent List.not_mem_nil
  · exact fun store fresh behind _ => behind.pushBatch
  · exact fun store behind => behind
  · exact fun world holds length _ behind _ => behind.compacted _ _

/-- The id of a sequence of this source. -/
def Store.idAt (store : Store) (sequence : Nat) : EventId :=
  ⟨store.header.source, store.header.epoch, UInt64.ofNat sequence⟩

/-- An append that fails with a known outcome changes nothing. One that succeeds adds the encoded batch to the log file
and makes its events readable under the ids of the receipt. -/
theorem append_atomic (reached : Reached (fun _ _ => True) world) (usable : world.store.poisoned = false)
    (batch : List WriteEvent) :
    (∀ error after, Store.append batch world = (.error error, after) →
      (∀ cause, error ≠ .commitOutcomeUnknown cause) → after = world) ∧
    ∀ receipt after, Store.append batch world = (.ok receipt, after) → ∃ records encoded,
      records.map inputOf = batch ∧
      records.map (·.id) = (List.range' world.store.nextSequence batch.length).map world.store.idAt ∧
      world.store.nextSequence + batch.length < 2 ^ 64 ∧
      encodeBatch records world.store.limits = .ok encoded ∧
      after.disk = { world.disk with wal := world.disk.wal ++ encoded } ∧
      receipt = ⟨world.store.header.database, world.store.idAt world.store.nextSequence,
        world.store.idAt (world.store.nextSequence + batch.length - 1), batch.length⟩ ∧
      after.store.nextSequence = world.store.nextSequence + batch.length ∧
      after.acknowledged = world.acknowledged ++ records ∧
      ∀ record ∈ records, after.store.get after.disk record.id = .ok record := by
  constructor
  · intro error after failed known
    rcases append_fails failed with same | ⟨⟨cause, unknown⟩, _⟩
    · exact same
    · exact absurd unknown (known cause)
  · intro receipt after done
    obtain ⟨fresh, ⟨_, next, aligned, _⟩, rfl, rfl⟩ := append_eq_ok.mp done
    have length : batch.length = fresh.length := by rw [← next.inputs, List.length_map]
    have numbered := next.accepted.numbered
    refine ⟨fresh, batchBytes fresh, next.inputs, ?_, length ▸ next.bound, encodeBatch_ok.mpr ⟨next.fits, rfl⟩, rfl, ?_,
      ?_, rfl, ?_⟩
    · apply List.ext_getElem
      · rw [List.length_map, List.length_map, List.length_range', length]
      · intro index inside _
        rw [List.length_map] at inside
        rw [List.getElem_map, List.getElem_map, List.getElem_range', Nat.one_mul,
          numbered index _ (List.getElem?_eq_getElem inside)]
        rfl
    · rw [length]
      rfl
    · rw [length]
      rfl
    · exact fun record member => next.get reached.behind usable aligned member

end Atomic

end Handle

theorem append_atomic_sample :
    letI := Crc32fast.ieee
    let start : World := ⟨⟨encodeWalHeader ⟨sampleDatabase, 1, 1⟩, [], none, []⟩,
      startStore ⟨sampleDatabase, 1, 1⟩ Limits.default 0, [], none⟩
    ∃ receipt after records, Store.append [bareInput 1 5] start = (.ok receipt, after) ∧
      records.map inputOf = [bareInput 1 5] ∧ after.acknowledged = records ∧
      ∀ record ∈ records, after.store.get after.disk record.id = .ok record := by
  generalize Crc32fast.ieee = inst
  intro start
  have created : create sampleDatabase 1 1 Limits.default = .ok (start.disk, start.store) :=
    create_ok.mpr ⟨rfl, rfl, rfl⟩
  have aligned : start.disk.wal.length = start.store.endOffset := encodeWalHeader_length _
  have next : NextBatch start.store [bareInput 1 5] [recordOf start.store.header 0 (bareInput 1 5)] :=
    NextBatch.bare rfl (fun _ absent => nomatch absent) (show 0 + 1 < 2 ^ 64 by decide)
      (show walHeaderLen + 92 < 2 ^ 64 by decide)
  have done := append_eq_ok.mpr ⟨_, ⟨rfl, next, aligned, fun _ _ => rfl⟩, rfl, rfl⟩
  obtain ⟨records, _, inputs, _, _, _, _, _, _, acknowledged, reads⟩ :=
    (append_atomic (.created created) rfl [bareInput 1 5]).2 _ _ done
  exact ⟨_, _, records, done, inputs, acknowledged, reads⟩

end Temnion.Storage
