import Temnion.Replay.Checkpoint

/-
This file models the reconstruction of a state from a checkpoint and one page of history.
-/

namespace Temnion.Replay

open Format LittleEndian Storage

/-- A transition draws from the generator that it gets and hands it on, also when it fails. -/
structure StateReducer (S : Type) where
  apply : S → StoredEvent → DeterministicRng → Except ReplayError S × DeterministicRng

/-- A transition that leaves the generator alone. -/
def StateReducer.pure {S : Type} (step : S → StoredEvent → Except ReplayError S) : StateReducer S where
  apply state event rng := (step state event, rng)

/-- The engine with the contents of its store directory and of its checkpoint directory. -/
structure ReplayEngine where
  storeDir : Disk
  checkpoints : CheckpointStore
  rng : DeterministicRng

def ReplayEngine.new (storeDir : Disk) (checkpoints : CheckpointStore) (seed : UInt64) : ReplayEngine where
  storeDir := storeDir
  checkpoints := checkpoints
  rng := .new seed

/-- What the loop over the events carries from event to event. -/
structure Progress (S : Type) where
  state : S
  next : UInt64
  header : CheckpointHeader
  rng : DeterministicRng

/-- An error of the storage is an error of the replay. -/
def asReplay {A : Type} (outcome : Except StorageError A) : Except ReplayError A := outcome.mapError .storage

@[simp] theorem asReplay_ok {A : Type} (value : A) : asReplay (.ok value) = .ok value := rfl

@[simp] theorem asReplay_error {A : Type} (error : StorageError) :
    asReplay (.error error : Except StorageError A) = .error (.storage error) := rfl

def replayBudget (target next : UInt64) : StorageQueryBudget where
  maxResults := target.toNat - next.toNat + 1
  maxScanned := 65536
  maxReadBytes := 64 * 1024 * 1024

/-- The loop stops behind the target, at a gap, or at an event that the reducer refuses. -/
def replayEvents {S : Type} (reducer : StateReducer S) (target : UInt64) :
    List StoredEvent → Progress S → Except ReplayError (Progress S) × DeterministicRng
  | [], progress => (.ok progress, progress.rng)
  | event :: events, progress =>
      if target < event.id.sequence then (.ok progress, progress.rng)
      else if event.id.sequence ≠ progress.next then
        (.error (.discontinuousSequence progress.next event.id.sequence), progress.rng)
      else
        match reducer.apply progress.state event progress.rng with
        | (.error error, rng) => (.error error, rng)
        | (.ok state, rng) => replayEvents reducer target events {
            state, rng
            next := progress.next + 1
            header := { progress.header with
              sequence := event.id.sequence
              validTime := event.times.valid
              knownTime := event.times.known
              rng := rng.snapshot } }

/-- The header of a replay from the beginning. -/
def defaultHeader (store : Store) (rng : DeterministicRng) : CheckpointHeader where
  database := store.header.database
  source := store.header.source
  epoch := store.header.epoch
  sequence := 0
  validTime := ⟨0, 0⟩
  knownTime := ⟨0, 0⟩
  rng := rng.snapshot
  stateBytesLen := 0

section

variable [Crc32fast]

/-- The one page of history that a reconstruction reads. -/
def replayPage (store : Store) (disk : Disk) (target next : UInt64) : Except ReplayError (List StoredEvent) := do
  let cursor ← asReplay (store.cursorFromSequence next.toNat .default)
  let page ← asReplay (store.history disk .default (replayBudget target next) (some cursor))
  return page.events

namespace ReplayEngine

variable {S : Type} [Inhabited S]

/-- The closest checkpoint, or the default state and the generator as it is. -/
def locate (engine : ReplayEngine) (store : Store) (target : UInt64)
    (decodeState : List UInt8 → Except ReplayError S) : Except ReplayError (Progress S) := do
  match ← engine.checkpoints.findLatest target with
  | some checkpoint => do
      let state ← decodeState checkpoint.statePayload
      return ⟨state, checkpoint.header.sequence + 1, checkpoint.header, .restore checkpoint.header.rng⟩
  | none => return ⟨default, 0, defaultHeader store engine.rng, engine.rng⟩

def reconstructAtSequence (engine : ReplayEngine) (target : UInt64) (reducer : StateReducer S)
    (decodeState : List UInt8 → Except ReplayError S) : Except ReplayError (S × CheckpointHeader) × ReplayEngine :=
  match asReplay (Store.openStore Limits.default .rejectIncompleteTail engine.storeDir).1 with
  | .error error => (.error error, engine)
  | .ok (store, _) =>
      if store.nextSequence ≤ target.toNat then (.error (.storage .invalidCursor), engine)
      else
        match engine.locate store target decodeState with
        | .error error => (.error error, engine)
        | .ok start =>
            if start.next ≤ target then
              match replayPage store engine.storeDir target start.next with
              | .error error => (.error error, { engine with rng := start.rng })
              | .ok events =>
                  let (outcome, rng) := replayEvents reducer target events start
                  (outcome.map fun progress => (progress.state, progress.header), { engine with rng := rng })
            else (.ok (start.state, start.header), { engine with rng := start.rng })

end ReplayEngine

/-- Opening a store in this mode leaves its files as they are. -/
theorem openStore_reject_disk (limits : Limits) (disk : Disk) :
    (Store.openStore limits .rejectIncompleteTail disk).2 = disk := by
  have recovered : ∀ (wal : List UInt8) (steps : Nat) (store : Store),
      (Store.recoverFrames .rejectIncompleteTail wal steps store disk).2 = disk := by
    intro wal steps
    induction steps with
    | zero =>
        intro store
        by_cases unread : store.endOffset < wal.length
        · rw [Store.recoverFrames, Procedure.refuseIf_bind_error unread]
        · rw [Store.recoverFrames, Procedure.refuseIf_bind unread]
          rfl
    | succ steps hypothesis =>
        intro store
        rw [Store.recoverFrames]
        split
        · rw [Procedure.bind_apply, Procedure.lift_apply]
          cases store.nextFrame wal with
          | error error => rfl
          | ok next =>
              cases next with
              | none => rfl
              | some frameBytes =>
                  dsimp only
                  rw [Procedure.bind_apply, Procedure.lift_apply]
                  cases store.recoverFrame wal frameBytes with
                  | error error => rfl
                  | ok store => exact hypothesis store
        · rfl
  unfold Store.openStore
  rw [Procedure.bind_of_ok (Procedure.read_apply disk), Procedure.bind_apply, Procedure.lift_apply]
  cases Store.opening disk limits with
  | error error => rfl
  | ok start =>
      dsimp only
      rw [Procedure.bind_apply]
      have kept := recovered disk.wal disk.wal.length start
      revert kept
      rcases Store.recoverFrames .rejectIncompleteTail disk.wal disk.wal.length start disk with ⟨outcome, reached⟩
      cases outcome with
      | error error => exact id
      | ok done => exact id

end

end Temnion.Replay
