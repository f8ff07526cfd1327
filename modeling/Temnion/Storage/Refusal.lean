import Temnion.Storage.Append

/-
This file says exactly when an append succeeds in a world where any file operation may fail.
-/

namespace Temnion.Storage

open Format

section Faults

variable {operation other : FileOperation} {partly : Nat → Disk → Disk} {fully : Disk → Disk} {world later : World}

/-- An operation has its full effect unless the coming fault strikes it. -/
theorem fileOperation_eq_ok {done : Unit} : fileOperation operation partly fully world = (.ok done, later) ↔
    failNow world operation = none ∧
      later = { world with disk := fully world.disk, fault := world.fault.map (pass operation) } := by
  unfold fileOperation
  cases failNow world operation with
  | some fault => exact iff_of_false nofun nofun
  | none =>
      rw [Prod.mk.injEq]
      constructor
      · intro ends
        exact ⟨rfl, ends.2.symm⟩
      · intro ends
        exact ⟨rfl, ends.2.symm⟩

/-- A fault that waits for another operation is not brought closer. -/
theorem failNow_pass (different : operation ≠ other) (passed : later.fault = world.fault.map (pass operation)) :
    failNow later other = none ↔ failNow world other = none := by
  unfold failNow
  rw [passed]
  cases world.fault with
  | none => exact Iff.rfl
  | some fault =>
      rw [Option.map_some, pass]
      by_cases waiting : fault.operation = operation
      · have elsewhere : fault.operation ≠ other := by
          rw [waiting]
          exact different
        rw [if_pos waiting]
        simp [Option.filter, elsewhere]
      · rw [if_neg waiting]

end Faults

/-- The file operations of an append, each used once. -/
def appendOperations : List FileOperation :=
  [.inspectAppendPosition, .seekAppendPosition, .appendBatch, .synchronizeBatch]

/-- The coming fault strikes no operation of an append. -/
def Spared (world : World) : Prop := ∀ operation ∈ appendOperations, failNow world operation = none

theorem spared_iff {world : World} : Spared world ↔ failNow world .inspectAppendPosition = none ∧
    failNow world .seekAppendPosition = none ∧ failNow world .appendBatch = none ∧
    failNow world .synchronizeBatch = none := by
  simp [Spared, appendOperations]

/-- The bytes are written when the log file has its length and no operation is struck. -/
theorem writeBatch_eq_ok {world reached : World} {store : Store} {encoded : List UInt8} {done : Unit} :
    store.writeBatch encoded world = (.ok done, reached) ↔
      (world.disk.wal.length = store.endOffset ∧ Spared world) ∧
        reached = { world with
          disk := { world.disk with wal := overwrite store.endOffset encoded world.disk.wal }
          fault := appendOperations.foldl (fun fault operation => fault.map (pass operation)) world.fault } := by
  unfold Store.writeBatch observe atomicOperation
  simp only [Procedure.bind_eq_ok, fileOperation_eq_ok, Procedure.read_apply, Procedure.refuseIf_eq_ok, Prod.mk.injEq,
    Except.ok.injEq, ne_eq, not_not, spared_iff]
  constructor
  · intro steps
    obtain ⟨_, _, ⟨inspected, rfl⟩, _, _, ⟨rfl, rfl⟩, _, _, ⟨aligned, rfl⟩, _, _, ⟨sought, rfl⟩, _, _, ⟨written, rfl⟩,
      synced, rfl⟩ := steps
    rw [failNow_pass (by decide) rfl] at sought
    rw [failNow_pass (by decide) rfl, failNow_pass (by decide) rfl] at written
    rw [failNow_pass (by decide) rfl, failNow_pass (by decide) rfl, failNow_pass (by decide) rfl] at synced
    exact ⟨⟨aligned, inspected, sought, written, synced⟩, rfl⟩
  · intro holds
    obtain ⟨⟨aligned, inspected, sought, written, synced⟩, rfl⟩ := holds
    refine ⟨(), _, ⟨inspected, rfl⟩, _, _, ⟨rfl, rfl⟩, (), _, ⟨aligned, rfl⟩, (), _, ⟨?_, rfl⟩, (), _, ⟨?_, rfl⟩, ?_, rfl⟩
    · rw [failNow_pass (by decide) rfl]
      exact sought
    · rw [failNow_pass (by decide) rfl, failNow_pass (by decide) rfl]
      exact written
    · rw [failNow_pass (by decide) rfl, failNow_pass (by decide) rfl, failNow_pass (by decide) rfl]
      exact synced

section Append

variable [Crc32fast] {world reached : World} {batch : List WriteEvent}

/-- An append that succeeds commits a batch that may come next, and nothing else succeeds. -/
theorem append_eq_ok {receipt : DurableReceipt} : Store.append batch world = (.ok receipt, reached) ↔
    ∃ fresh, (world.store.poisoned = false ∧ NextBatch world.store batch fresh ∧
        world.disk.wal.length = world.store.endOffset ∧ Spared world) ∧
      receipt = world.store.receipt fresh ∧
      reached = { committed fresh world with
        fault := appendOperations.foldl (fun fault operation => fault.map (pass operation)) world.fault } := by
  have writes : ∀ fresh between, world.store.writeBatch (batchBytes fresh) world = (.ok (), between) ↔
      (world.disk.wal.length = world.store.endOffset ∧ Spared world) ∧
        between = { world with
          disk := { world.disk with wal := world.disk.wal ++ batchBytes fresh }
          fault := appendOperations.foldl (fun fault operation => fault.map (pass operation)) world.fault } := by
    intro fresh between
    rw [writeBatch_eq_ok]
    constructor
    · intro both
      rw [← overwrite_end both.1.1]
      exact both
    · intro both
      rw [overwrite_end both.1.1]
      exact both
  unfold Store.append
  rw [Procedure.bind_of_ok (Procedure.read_apply world)]
  constructor
  · intro done
    cases prepared : world.store.prepare batch with
    | error error =>
        rw [prepared, Procedure.lift_bind_error] at done
        exact absurd (Prod.mk.inj done).1 nofun
    | ok ready =>
        have usable : world.store.poisoned = false := by
          obtain ⟨_, passed, _⟩ := Except.bind_eq_ok.mp prepared
          exact Bool.eq_false_iff.mpr (Except.refuseIf_ok.mp passed)
        obtain ⟨fresh, next, rfl⟩ := (prepare_ok usable).mp prepared
        rw [prepared, Procedure.lift_bind_ok, Procedure.bind_of_ok (Procedure.attempt_apply _ _), preparedFor] at done
        rcases written : world.store.writeBatch (batchBytes fresh) world with ⟨outcome, between⟩
        rw [written] at done
        cases outcome with
        | error error => exact absurd (Prod.mk.inj done).1 nofun
        | ok value =>
            obtain ⟨⟨aligned, spared⟩, rfl⟩ := (writes fresh between).mp written
            obtain ⟨receipt, reached⟩ := Prod.mk.inj done
            exact ⟨fresh, ⟨usable, next, aligned, spared⟩, (Except.ok.inj receipt).symm, reached.symm⟩
  · intro holds
    obtain ⟨fresh, ⟨usable, next, aligned, spared⟩, rfl, rfl⟩ := holds
    have written := (writes fresh _).mpr ⟨⟨aligned, spared⟩, rfl⟩
    rw [(prepare_ok usable).mpr ⟨fresh, next, rfl⟩, Procedure.lift_bind_ok,
      Procedure.bind_of_ok (Procedure.attempt_apply _ _), preparedFor, written]
    rfl

/-- The world in which an append of the batch succeeds. -/
structure Appendable (world : World) (batch : List WriteEvent) : Prop where
  usable : world.store.poisoned = false
  next : ∃ fresh, NextBatch world.store batch fresh
  aligned : world.disk.wal.length = world.store.endOffset
  spared : Spared world

/-- In such a world an append commits a record for each of its inputs. -/
theorem Appendable.append_ok (ready : Appendable world batch) : ∃ fresh receipt reached, fresh.map inputOf = batch ∧
    Store.append batch world = (.ok receipt, reached) ∧ reached.acknowledged = world.acknowledged ++ fresh := by
  obtain ⟨fresh, next⟩ := ready.next
  have done := append_eq_ok.mpr ⟨fresh, ⟨ready.usable, next, ready.aligned, ready.spared⟩, rfl, rfl⟩
  exact ⟨fresh, _, _, next.inputs, done, rfl⟩

/-- In any other world it fails. -/
theorem appendable_of_ok {receipt : DurableReceipt} (done : Store.append batch world = (.ok receipt, reached)) :
    Appendable world batch := by
  obtain ⟨fresh, ⟨usable, next, aligned, spared⟩, _⟩ := append_eq_ok.mp done
  exact ⟨usable, ⟨fresh, next⟩, aligned, spared⟩

end Append

end Temnion.Storage
