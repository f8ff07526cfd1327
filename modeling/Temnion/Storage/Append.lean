import Temnion.Storage.Recovery

/-
This file shows what an append does to the log.
-/

namespace Temnion.Storage

open Format Index LittleEndian Batches

/-- Writing at the end of the file appends. -/
theorem overwrite_end {offset : Nat} {bytes wal : List UInt8} (exact : wal.length = offset) :
    overwrite offset bytes wal = wal ++ bytes := by
  rw [overwrite, ← exact, List.take_length, List.drop_eq_nil_of_le (Nat.le_add_right _ _), List.append_nil]

theorem writeBatch_ok {world : World} {encoded : List UInt8} (sound : world.fault = none)
    (exact : world.disk.wal.length = world.store.endOffset) :
    world.store.writeBatch encoded world =
      (.ok (), { world with disk := { world.disk with wal := world.disk.wal ++ encoded } }) := by
  unfold Store.writeBatch
  rw [Procedure.bind_of_ok (observe_ok sound), Procedure.bind_of_ok (Procedure.read_apply world)]
  rw [Procedure.refuseIf_bind (not_not.mpr exact), Procedure.bind_of_ok (observe_ok sound),
    Procedure.bind_of_ok (fileOperation_ok sound), overwrite_end exact]
  exact observe_ok sound

namespace Log

/-- The log with one more live batch. -/
def extend (log : Log) (fresh : List StoredEvent) : Log := ⟨log.retired, log.live ++ [fresh]⟩

theorem extend_events (log : Log) (fresh : List StoredEvent) : (log.extend fresh).events = log.events ++ fresh := by
  simp [extend, events, batches]

theorem mem_starts_extend {log : Log} {fresh : List StoredEvent} {first : Nat} {batch : List StoredEvent}
    (member : (first, batch) ∈ starts 0 log.batches) :
    (first, batch) ∈ starts 0 (log.extend fresh).batches := by
  have split : (log.extend fresh).batches = log.batches ++ [fresh] := by simp [extend, batches]
  rw [split, starts_append]
  exact List.mem_append_left _ member

end Log

variable [Crc32fast]

/-- The records that a handle accepts as its next batch. -/
structure NextBatch (store : Store) (batch : List WriteEvent) (fresh : List StoredEvent) : Prop where
  inputs : fresh.map inputOf = batch
  nonempty : fresh ≠ []
  accepted : Accepted store.header store.nextSequence store.lastKnown fresh
  fits : BatchFits store.limits fresh
  bound : store.nextSequence + fresh.length < 2 ^ 64
  offset : store.endOffset + (batchBytes fresh).length < 2 ^ 64

def preparedFor (store : Store) (fresh : List StoredEvent) : Store.Prepared where
  records := fresh
  encoded := batchBytes fresh
  next := store.nextSequence + fresh.length
  known := knownAfter store.lastKnown fresh

/-- Preparation accepts exactly the batches whose records may come next. -/
theorem prepare_ok {store : Store} {batch : List WriteEvent} {prepared : Store.Prepared}
    (usable : store.poisoned = false) :
    store.prepare batch = .ok prepared ↔ ∃ fresh, NextBatch store batch fresh ∧ prepared = preparedFor store fresh := by
  unfold Store.prepare
  simp only [Except.bind_eq_ok, Except.refuseIf_ok, exists_const, checkedAdd_ok, Prod.exists, appendRecord_ok,
    asStorage_ok, encodeBatch_ok, List.nil_append, List.length_nil, Nat.add_zero, usable, pure, Except.pure,
    Except.ok.injEq, Nat.not_lt, Bool.false_eq_true, not_false_eq_true, true_and]
  constructor
  · intro steps
    obtain ⟨nonempty, _, _, ⟨bound, rfl⟩, fresh, _, ⟨_, rfl, inputs, accepted, rfl⟩, _, ⟨fits, rfl⟩, _,
      ⟨offset, rfl⟩, rfl⟩ := steps
    have length : batch.length = fresh.length := by rw [← inputs, List.length_map]
    rw [length] at bound
    refine ⟨fresh, ⟨inputs, ?_, accepted, fits, bound, offset⟩, ?_⟩
    · intro empty
      rw [empty] at inputs
      exact nonempty inputs.symm
    · rw [length]
      rfl
  · intro holds
    obtain ⟨fresh, next, rfl⟩ := holds
    have length : batch.length = fresh.length := by rw [← next.inputs, List.length_map]
    rw [length]
    refine ⟨?_, next.fits.count, _, ⟨next.bound, rfl⟩, fresh, _, ⟨fresh, rfl, next.inputs, next.accepted, rfl⟩, _,
      ⟨next.fits, rfl⟩, _, ⟨next.offset, rfl⟩, rfl⟩
    intro empty
    have none : fresh.map inputOf = [] := next.inputs.trans empty
    exact next.nonempty (List.map_eq_nil_iff.mp none)

/-- The world after a committed batch. -/
def committed (fresh : List StoredEvent) (world : World) : World where
  disk := { world.disk with wal := world.disk.wal ++ batchBytes fresh }
  store := world.store.pushBatch fresh
  acknowledged := world.acknowledged ++ fresh
  fault := world.fault

/-- Without a fault an append commits a batch that may come next, and refuses any other without a change. -/
theorem append_eq {world : World} {batch : List WriteEvent} (sound : world.fault = none)
    (usable : world.store.poisoned = false) (exact : world.disk.wal.length = world.store.endOffset) :
    (∃ fresh, NextBatch world.store batch fresh ∧
      Store.append batch world = (.ok (world.store.receipt fresh), committed fresh world)) ∨
    ∃ error, world.store.prepare batch = .error error ∧ Store.append batch world = (.error error, world) := by
  cases prepared : world.store.prepare batch with
  | error error =>
      right
      refine ⟨error, rfl, ?_⟩
      unfold Store.append
      rw [Procedure.bind_of_ok (Procedure.read_apply world), prepared]
      rfl
  | ok ready =>
      left
      obtain ⟨fresh, next, rfl⟩ := (prepare_ok usable).mp prepared
      refine ⟨fresh, next, ?_⟩
      unfold Store.append
      rw [Procedure.bind_of_ok (Procedure.read_apply world), prepared]
      rw [Procedure.lift_bind_ok, Procedure.bind_of_ok (Procedure.attempt_apply _ _), writeBatch_ok sound exact]
      rfl

/-- Whatever fails, an append that returns an error has poisoned the handle or changed nothing. -/
theorem append_error {world reached : World} {batch : List WriteEvent} {error : StorageError}
    (failed : Store.append batch world = (.error error, reached)) :
    reached.store.poisoned = true ∨ reached = world := by
  unfold Store.append at failed
  rw [Procedure.bind_of_ok (Procedure.read_apply world)] at failed
  cases prepared : world.store.prepare batch with
  | error refused =>
      right
      rw [prepared] at failed
      exact (Prod.mk.inj failed).2.symm
  | ok ready =>
      left
      rw [prepared, Procedure.lift_bind_ok, Procedure.bind_of_ok (Procedure.attempt_apply _ _)] at failed
      cases written : (world.store.writeBatch ready.encoded world).1 with
      | error broken =>
          rw [written] at failed
          rw [← (Prod.mk.inj failed).2]
          rfl
      | ok done =>
          rw [written] at failed
          have impossible := (Prod.mk.inj failed).1
          contradiction

namespace Inv

variable {admits : List StoredEvent → Prop} {log : Log} {disk : Disk} {store : Store} {fresh : List StoredEvent} {batch : List WriteEvent}

theorem walExact (inv : Inv admits log disk store) : disk.wal.length = store.endOffset := by
  rw [inv.stored.walLength, inv.tracks.endOffset]

theorem valid_extend (inv : Inv admits log disk store) (next : NextBatch store batch fresh) :
    (log.extend fresh).Valid store.header where
  retired := inv.valid.retired
  live := by
    have place : log.retiredCount + log.live.flatten.length = store.nextSequence := by
      rw [inv.tracks.nextSequence, log.events_length]
    change Accepted store.header log.retiredCount none (log.live ++ [fresh]).flatten
    rw [List.flatten_append, List.flatten_singleton, Accepted.append_iff, place]
    refine ⟨inv.valid.live, ?_⟩
    by_cases live : log.live = []
    · rw [live]
      exact next.accepted.forget
    · rw [← inv.tracks.lastKnown live]
      exact next.accepted
  nonempty := by
    intro other member
    simp only [Log.extend, Log.batches, ← List.append_assoc, List.mem_append, List.mem_singleton] at member
    rcases member with member | rfl
    · exact inv.valid.nonempty other (List.mem_append.mpr member)
    · exact next.nonempty
  bound := by
    rw [Log.extend_events, List.length_append, ← inv.tracks.nextSequence]
    exact next.bound

/-- A committed batch extends the log. -/
theorem commit (inv : Inv admits log disk store) (next : NextBatch store batch fresh) :
    Inv admits (log.extend fresh) { disk with wal := disk.wal ++ batchBytes fresh } (store.pushBatch fresh) where
  valid := inv.valid_extend next
  stored := {
    wal := by
      change disk.wal ++ batchBytes fresh = encodeWalHeader store.header ++ logBytes (log.live ++ [fresh])
      rw [inv.stored.wal, logBytes_append, logBytes_cons, logBytes_nil, List.append_nil, List.append_assoc]
    walBound := by
      change (disk.wal ++ batchBytes fresh).length < 2 ^ 64
      rw [List.length_append, inv.walExact]
      exact next.offset
    mark := inv.stored.mark
    published := by
      intro first last file firstFits lastFits found
      obtain ⟨other, member, ends, same, admitted⟩ := inv.stored.published first last file firstFits lastFits found
      exact ⟨other, Log.mem_starts_extend member, ends, same, admitted⟩
    registered := by
      intro manifest present entry member
      obtain ⟨first, other, starts, same, found⟩ := inv.stored.registered manifest present entry member
      exact ⟨first, other, Log.mem_starts_extend starts, same, found⟩
    retired := inv.stored.retired }
  tracks := inv.tracks.pushBatch next.nonempty next.fits

end Inv

end Temnion.Storage
