import Temnion.Format.RoundTrip
import Temnion.Schemas.Catalog
import Temnion.Storage.Store

/-
This file models the deterministic random numbers and the checkpoints of the replay.
-/

namespace Temnion.Replay

open Format LittleEndian Storage

/-- The operating system is left out, so an input or output error carries only its operation. -/
inductive ReplayError where
  | io (operation : String)
  | storage (error : StorageError)
  | format (message : String)
  | checksumMismatch
  | invalidMagic
  | unsupportedVersion (version : UInt16)
  | discontinuousSequence (expected actual : UInt64)
  | schemaMismatch (expected actual : SchemaId)
  | schemaError (error : Schemas.SchemaError)
  | missingCheckpoint (sequence : UInt64)

structure RngSnapshot where
  seed : UInt64
  state : UInt64
  steps : UInt64
  deriving DecidableEq, Repr

structure DeterministicRng where
  seed : UInt64
  state : UInt64
  steps : UInt64
  deriving DecidableEq, Repr

namespace DeterministicRng

/-- One draw of SplitMix64. The words wrap around. -/
def nextU64 (rng : DeterministicRng) : UInt64 × DeterministicRng :=
  let state := rng.state + 0x9E3779B97F4A7C15
  let first := (state ^^^ (state >>> 30)) * 0xBF58476D1CE4E5B9
  let second := (first ^^^ (first >>> 27)) * 0x94D049BB133111EB
  (second ^^^ (second >>> 31), { rng with state := state, steps := rng.steps + 1 })

/-- The state is warmed up by one draw that does not count. -/
def new (seed : UInt64) : DeterministicRng :=
  { (DeterministicRng.mk seed seed 0).nextU64.2 with steps := 0 }

def snapshot (rng : DeterministicRng) : RngSnapshot := ⟨rng.seed, rng.state, rng.steps⟩

def restore (snapshot : RngSnapshot) : DeterministicRng := ⟨snapshot.seed, snapshot.state, snapshot.steps⟩

@[simp] theorem snapshot_restore (snapshot : RngSnapshot) : (restore snapshot).snapshot = snapshot := rfl

theorem snapshot_injective : Function.Injective snapshot := by
  rintro ⟨seed, state, steps⟩ ⟨seed', state', steps'⟩ same
  obtain ⟨rfl, rfl, rfl⟩ : seed = seed' ∧ state = state' ∧ steps = steps' := by
    simpa [snapshot, RngSnapshot.mk.injEq] using same
  rfl

end DeterministicRng

structure CheckpointHeader where
  database : DatabaseId
  source : SourceId
  epoch : SourceEpoch
  sequence : UInt64
  validTime : Timestamp
  knownTime : Timestamp
  rng : RngSnapshot
  stateBytesLen : UInt32
  deriving DecidableEq

structure Checkpoint where
  header : CheckpointHeader
  statePayload : List UInt8
  deriving DecidableEq

def checkpointMagic : List UInt8 := [0x54, 0x4E, 0x43, 0x50]

@[simp] theorem checkpointMagic_length : checkpointMagic.length = 4 := by simp [checkpointMagic]

def checkpointVersion : UInt16 := 1

def checkpointHeaderLen : Nat := 104

/-- The ninety-six bytes before the two checksums. -/
def checkpointFields (checkpoint : Checkpoint) : List UInt8 :=
  checkpointMagic ++ (le16 checkpointVersion ++ (le16 0 ++ (checkpoint.header.database.bytes ++
    (le32 checkpoint.header.source ++ (le64 checkpoint.header.epoch ++ (le64 checkpoint.header.sequence ++
      (le32 checkpoint.header.validTime.clock ++ (le64 checkpoint.header.validTime.ticks ++
        (le32 checkpoint.header.knownTime.clock ++ (le64 checkpoint.header.knownTime.ticks ++
          (le64 checkpoint.header.rng.seed ++ (le64 checkpoint.header.rng.state ++
            (le64 checkpoint.header.rng.steps ++ le32 (UInt32.ofNat checkpoint.statePayload.length))))))))))))))

theorem checkpointFields_length (checkpoint : Checkpoint) : (checkpointFields checkpoint).length = 96 := by
  simp [checkpointFields, checkpoint.header.database.length]

/-- The higher of two sequences, when the second is within the bound. -/
def raise (maxSequence : UInt64) (highest : Option UInt64) (sequence : UInt64) : Option UInt64 :=
  if sequence ≤ maxSequence then
    match highest with
    | none => some sequence
    | some current => if current < sequence then some sequence else some current
  else highest

/-- Whatever a round keeps or takes lies within the bound. -/
theorem raise_cases {maxSequence sequence : UInt64} {highest : Option UInt64} :
    raise maxSequence highest sequence = highest ∨
      raise maxSequence highest sequence = some sequence ∧ sequence ≤ maxSequence := by
  unfold raise
  split
  · next within =>
      split
      · exact Or.inr ⟨rfl, within⟩
      · split
        · exact Or.inr ⟨rfl, within⟩
        · exact Or.inl rfl
  · exact Or.inl rfl

theorem raise_foldl {maxSequence sequence : UInt64} {names : List UInt64} {start : Option UInt64}
    (within : ∀ name, start = some name → name ≤ maxSequence)
    (chosen : names.foldl (raise maxSequence) start = some sequence) :
    sequence ≤ maxSequence ∧ (start = some sequence ∨ sequence ∈ names) := by
  induction names generalizing start with
  | nil => exact ⟨within sequence chosen, Or.inl chosen⟩
  | cons name names hypothesis =>
      rw [List.foldl_cons] at chosen
      rcases raise_cases with kept | ⟨taken, bound⟩
      · rw [kept] at chosen
        obtain ⟨below, origin⟩ := hypothesis within chosen
        exact ⟨below, origin.imp_right (List.mem_cons_of_mem _)⟩
      · rw [taken] at chosen
        obtain ⟨below, origin⟩ := hypothesis (fun other same => Option.some.inj same ▸ bound) chosen
        refine ⟨below, Or.inr ?_⟩
        rcases origin with same | later
        · exact Option.some.inj same ▸ List.mem_cons_self
        · exact List.mem_cons_of_mem _ later

section

variable [Crc32fast]

/-- The narrowed length of a payload of four gigabytes or more is not refused. -/
def encodeCheckpoint (checkpoint : Checkpoint) : List UInt8 :=
  let checked := checkpointFields checkpoint ++ le32 (Crc32fast.hash checkpoint.statePayload)
  checked ++ le32 (Crc32fast.hash checked) ++ checkpoint.statePayload

def decodeCheckpoint (bytes : List UInt8) : Except ReplayError Checkpoint := do
  refuseIf (bytes.length < checkpointHeaderLen) (.format "incomplete checkpoint header")
  refuseIf (slice bytes 0 4 ≠ checkpointMagic) .invalidMagic
  refuseIf (getU16 bytes 4 ≠ checkpointVersion) (.unsupportedVersion (getU16 bytes 4))
  refuseIf (Crc32fast.hash (slice bytes 0 100) ≠ getU32 bytes 100) .checksumMismatch
  let payloadLen := getU32 bytes 92
  refuseIf (bytes.length ≠ checkpointHeaderLen + payloadLen.toNat) (.format "checkpoint length mismatch")
  let payload := bytes.drop checkpointHeaderLen
  refuseIf (Crc32fast.hash payload ≠ getU32 bytes 96) .checksumMismatch
  return {
    header := {
      database := databaseAt bytes 8
      source := getU32 bytes 24
      epoch := getU64 bytes 28
      sequence := getU64 bytes 36
      validTime := ⟨getU32 bytes 44, getU64 bytes 48⟩
      knownTime := ⟨getU32 bytes 56, getU64 bytes 60⟩
      rng := ⟨getU64 bytes 68, getU64 bytes 76, getU64 bytes 84⟩
      stateBytesLen := payloadLen }
    statePayload := payload }

/-- Decoding gives back the checkpoint with the length of its payload, as long as the length fits its field. -/
theorem decodeCheckpoint_encodeCheckpoint {checkpoint : Checkpoint} (fits : checkpoint.statePayload.length < 2 ^ 32) :
    decodeCheckpoint (encodeCheckpoint checkpoint) = .ok { checkpoint with
      header := { checkpoint.header with stateBytesLen := UInt32.ofNat checkpoint.statePayload.length } } := by
  have size := checkpointFields_length checkpoint
  have layout : encodeCheckpoint checkpoint = checkpointFields checkpoint ++
      (le32 (Crc32fast.hash checkpoint.statePayload) ++
        (le32 (Crc32fast.hash (checkpointFields checkpoint ++ le32 (Crc32fast.hash checkpoint.statePayload))) ++
          checkpoint.statePayload)) := by
    simp only [encodeCheckpoint, List.append_assoc]
  have long : (encodeCheckpoint checkpoint).length = checkpointHeaderLen + checkpoint.statePayload.length := by
    rw [layout]
    simp only [List.length_append, size, le32_length, checkpointHeaderLen]
    omega
  have payload : (encodeCheckpoint checkpoint).drop checkpointHeaderLen = checkpoint.statePayload := by
    rw [encodeCheckpoint, List.drop_append_of_le_length, List.drop_eq_nil_of_le, List.nil_append] <;>
      simp [size, checkpointHeaderLen]
  have checked : slice (encodeCheckpoint checkpoint) 0 100 =
      checkpointFields checkpoint ++ le32 (Crc32fast.hash checkpoint.statePayload) := by
    rw [encodeCheckpoint, List.append_assoc, slice_append_left (by simp [size])]
  have headerSum : getU32 (encodeCheckpoint checkpoint) 100 =
      Crc32fast.hash (checkpointFields checkpoint ++ le32 (Crc32fast.hash checkpoint.statePayload)) := by
    apply getU32_of_slice
    rw [encodeCheckpoint, List.append_assoc, slice_append_right (by simp [size])]
    simp [size, slice_append_left]
  have bodySum : getU32 (encodeCheckpoint checkpoint) 96 = Crc32fast.hash checkpoint.statePayload := by
    apply getU32_of_slice
    rw [layout, slice_append_right size.le, size, slice_append_left (le32_length _)]
  have inner : ∀ offset count, offset + count ≤ 96 →
      slice (encodeCheckpoint checkpoint) offset count = slice (checkpointFields checkpoint) offset count := by
    intro offset count inside
    have front : (encodeCheckpoint checkpoint).take 96 = checkpointFields checkpoint := by
      rw [layout, ← size, List.take_left]
    rw [← front, slice_take inside]
  have word : (UInt32.ofNat checkpoint.statePayload.length).toNat = checkpoint.statePayload.length :=
    UInt32.toNat_ofNat_of_lt' fits
  have fields : slice (encodeCheckpoint checkpoint) 0 4 = checkpointMagic ∧
      getU16 (encodeCheckpoint checkpoint) 4 = checkpointVersion ∧
      databaseAt (encodeCheckpoint checkpoint) 8 = checkpoint.header.database ∧
      getU32 (encodeCheckpoint checkpoint) 24 = checkpoint.header.source ∧
      getU64 (encodeCheckpoint checkpoint) 28 = checkpoint.header.epoch ∧
      getU64 (encodeCheckpoint checkpoint) 36 = checkpoint.header.sequence ∧
      getU32 (encodeCheckpoint checkpoint) 44 = checkpoint.header.validTime.clock ∧
      getU64 (encodeCheckpoint checkpoint) 48 = checkpoint.header.validTime.ticks ∧
      getU32 (encodeCheckpoint checkpoint) 56 = checkpoint.header.knownTime.clock ∧
      getU64 (encodeCheckpoint checkpoint) 60 = checkpoint.header.knownTime.ticks ∧
      getU64 (encodeCheckpoint checkpoint) 68 = checkpoint.header.rng.seed ∧
      getU64 (encodeCheckpoint checkpoint) 76 = checkpoint.header.rng.state ∧
      getU64 (encodeCheckpoint checkpoint) 84 = checkpoint.header.rng.steps ∧
      getU32 (encodeCheckpoint checkpoint) 92 = UInt32.ofNat checkpoint.statePayload.length := by
    refine ⟨?_, getU16_of_slice ?_, databaseAt_bytes ?_, getU32_of_slice ?_, getU64_of_slice ?_, getU64_of_slice ?_,
      getU32_of_slice ?_, getU64_of_slice ?_, getU32_of_slice ?_, getU64_of_slice ?_, getU64_of_slice ?_,
      getU64_of_slice ?_, getU64_of_slice ?_, getU32_of_slice ?_⟩
    all_goals
      rw [inner _ _ (by decide), checkpointFields]
      simp [slice_append_right, slice_append_left, slice_all, checkpoint.header.database.length]
  obtain ⟨magic, version, database, source, epoch, sequence, validClock, validTicks, knownClock, knownTicks, seed,
    state, steps, payloadLen⟩ := fields
  unfold decodeCheckpoint
  simp only [Except.bind_eq_ok, Except.refuseIf_ok, exists_const, pure, Except.pure, magic, version, database, source,
    epoch, sequence, validClock, validTicks, knownClock, knownTicks, seed, state, steps, payloadLen, checked,
    headerSum, bodySum, payload, long, word, ne_eq, not_true_eq_false, not_false_eq_true, true_and, Nat.not_lt,
    Nat.le_add_right]

/-- The published files of the checkpoint directory under the sequences of their names. A later file replaces an
earlier one of its name. -/
structure CheckpointStore where
  files : List (UInt64 × List UInt8)

namespace CheckpointStore

def save (store : CheckpointStore) (checkpoint : Checkpoint) : CheckpointStore :=
  ⟨(checkpoint.header.sequence, encodeCheckpoint checkpoint) :: store.files⟩

def load (store : CheckpointStore) (sequence : UInt64) : Except ReplayError Checkpoint :=
  match store.files.lookup sequence with
  | none => .error (.io "open checkpoint file")
  | some bytes => decodeCheckpoint bytes

omit [Crc32fast] in
/-- The highest sequence of a file name that is not above the bound. -/
def highest (store : CheckpointStore) (maxSequence : UInt64) : Option UInt64 :=
  (store.files.map Prod.fst).foldl (raise maxSequence) none

def findLatest (store : CheckpointStore) (maxSequence : UInt64) : Except ReplayError (Option Checkpoint) :=
  match store.highest maxSequence with
  | none => .ok none
  | some sequence => (store.load sequence).map some

omit [Crc32fast] in
/-- The chosen file has a name within the bound, and without such a name there is none. -/
theorem highest_eq_some {store : CheckpointStore} {maxSequence sequence : UInt64}
    (chosen : store.highest maxSequence = some sequence) :
    sequence ≤ maxSequence ∧ ∃ bytes, store.files.lookup sequence = some bytes := by
  obtain ⟨bound, origin⟩ := raise_foldl (fun name absent => (Option.some_ne_none name absent.symm).elim) chosen
  refine ⟨bound, Option.isSome_iff_exists.mp ?_⟩
  obtain ⟨file, member, rfl⟩ := List.mem_map.mp (origin.resolve_left (Option.some_ne_none _).symm)
  exact List.lookup_isSome_iff.mpr ⟨file, member, beq_self_eq_true _⟩

theorem load_save (store : CheckpointStore) {checkpoint : Checkpoint}
    (fits : checkpoint.statePayload.length < 2 ^ 32) :
    (store.save checkpoint).load checkpoint.header.sequence = .ok { checkpoint with
      header := { checkpoint.header with stateBytesLen := UInt32.ofNat checkpoint.statePayload.length } } := by
  rw [load, save, List.lookup_cons_self]
  exact decodeCheckpoint_encodeCheckpoint fits

end CheckpointStore

end

end Temnion.Replay
