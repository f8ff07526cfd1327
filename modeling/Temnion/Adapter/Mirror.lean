import Temnion.Storage.Run
import Temnion.Storage.Refusal

/-
This file runs the mirror queue in front of a store whose appends may fail.
-/

namespace Temnion.Adapter

open Storage Format

inductive MigrationMode where
  | legacyOnly
  | shadowMirror
  | temnionAuthoritative
  | temnionOnly
  deriving DecidableEq, Repr

structure MirrorStats where
  enqueued : UInt64
  drained : UInt64
  backpressureCount : UInt64
  droppedCount : UInt64
  deriving DecidableEq, Repr

structure MirrorWriter where
  capacity : Nat
  buffer : List WriteEvent
  stats : MirrorStats
  mode : MigrationMode

/-- The text of a storage error stands for the error itself. -/
inductive AdapterError where
  | queueBackpressure (capacity current : Nat)
  | futureKnowledgeLeakage (decisionTime evidenceTime : UInt64)
  | actionNotFound (sequence : UInt64)
  | storageError (error : StorageError)

namespace MirrorWriter

def new (capacity : Nat) : MirrorWriter := ⟨capacity, [], ⟨0, 0, 0, 0⟩, .shadowMirror⟩

def setMode (writer : MirrorWriter) (mode : MigrationMode) : MirrorWriter := { writer with mode := mode }

def enqueue (event : WriteEvent) : Procedure MirrorWriter AdapterError Unit := fun writer =>
  if writer.mode = .legacyOnly then (.ok (), writer)
  else if writer.capacity ≤ writer.buffer.length then
    (.error (.queueBackpressure writer.capacity writer.buffer.length),
      { writer with stats := { writer.stats with backpressureCount := writer.stats.backpressureCount + 1 } })
  else (.ok (), { writer with
    buffer := writer.buffer ++ [event]
    stats := { writer.stats with enqueued := writer.stats.enqueued + 1 } })

/-- The buffer is emptied before the store decides about its events. -/
def drainToStore [Crc32fast] : Procedure (MirrorWriter × World) AdapterError Nat := fun (writer, world) =>
  if writer.buffer = [] then (.ok 0, writer, world)
  else
    let batch := writer.buffer
    let writer := { writer with buffer := [] }
    match Store.append batch world with
    | (.error error, reached) => (.error (.storageError error), writer, reached)
    | (.ok _, reached) => (.ok batch.length,
        { writer with stats := { writer.stats with drained := writer.stats.drained + UInt64.ofNat batch.length } }, reached)

def pendingCount (writer : MirrorWriter) : Nat := writer.buffer.length

end MirrorWriter

/-- A queue with its store, and the events that the queue has accepted so far. -/
structure Mirroring where
  writer : MirrorWriter
  world : World
  accepted : List WriteEvent

/-- A drain meets the file operation that is going to fail, if there is one. -/
inductive Call where
  | enqueue (event : WriteEvent)
  | drain (fault : Option Fault)
  | setMode (mode : MigrationMode)

namespace Mirroring

variable [Crc32fast]

def start (capacity : Nat) (world : World) : Mirroring := ⟨.new capacity, world, []⟩

/-- The world that a drain finds. -/
def facing (state : Mirroring) (fault : Option Fault) : World := { state.world with fault := fault }

def step (state : Mirroring) : Call → Mirroring
  | .enqueue event => {
      writer := (MirrorWriter.enqueue event state.writer).2
      world := state.world
      accepted := state.accepted ++
        if state.writer.mode ≠ .legacyOnly ∧ (MirrorWriter.enqueue event state.writer).1.isOk then [event] else [] }
  | .drain fault =>
      let reached := (MirrorWriter.drainToStore (state.writer, state.facing fault)).2
      ⟨reached.1, reached.2, state.accepted⟩
  | .setMode mode => { state with writer := state.writer.setMode mode }

theorem step_enqueue (state : Mirroring) (event : WriteEvent) : state.step (.enqueue event) =
    ⟨(MirrorWriter.enqueue event state.writer).2, state.world, state.accepted ++
      if state.writer.mode ≠ .legacyOnly ∧ (MirrorWriter.enqueue event state.writer).1.isOk then [event] else []⟩ := rfl

theorem step_drain (state : Mirroring) (fault : Option Fault) : state.step (.drain fault) =
    ⟨(MirrorWriter.drainToStore (state.writer, state.facing fault)).2.1,
      (MirrorWriter.drainToStore (state.writer, state.facing fault)).2.2, state.accepted⟩ := rfl

def run (state : Mirroring) (calls : List Call) : Mirroring := calls.foldl step state

/-- Every accepted event is pending or was appended to the store, in the order of acceptance, and the counters agree. -/
structure Conserves (before : List StoredEvent) (state : Mirroring) : Prop where
  events : ∃ appended, state.world.acknowledged = before ++ appended ∧
    state.accepted = appended.map inputOf ++ state.writer.buffer
  counts : state.writer.stats.enqueued =
    state.writer.stats.drained + UInt64.ofNat state.writer.pendingCount + state.writer.stats.droppedCount

/-- A drain that fails leaves the buffer as it is. -/
def Retains (state : Mirroring) (fault : Option Fault) : Prop :=
  (MirrorWriter.drainToStore (state.writer, state.facing fault)).1.isOk ∨
    (state.step (.drain fault)).writer.buffer = state.writer.buffer

/-- A drain of a queue that is not empty finds a store that can append the pending events. -/
def Drainable (state : Mirroring) (fault : Option Fault) : Prop :=
  state.writer.buffer = [] ∨ Appendable (state.facing fault) state.writer.buffer

/-- Every moment of a run conserves the events, and its failing drains keep the buffer. -/
def ConservesAlways (start : Mirroring) (calls : List Call) : Prop :=
  (∀ done, done <+: calls → (start.run done).Conserves start.world.acknowledged) ∧
    ∀ done fault, done ++ [.drain fault] <+: calls → (start.run done).Retains fault

/-- No drain of a run meets a store that refuses the pending events. -/
def DrainsAlways (start : Mirroring) (calls : List Call) : Prop :=
  ∀ done fault, done ++ [.drain fault] <+: calls → (start.run done).Drainable fault

section Calls

variable {writer : MirrorWriter} {world : World} {event : WriteEvent}

omit [Crc32fast] in
theorem enqueue_legacy (legacy : writer.mode = .legacyOnly) : MirrorWriter.enqueue event writer = (.ok (), writer) :=
  if_pos legacy

omit [Crc32fast] in
theorem enqueue_full (mirrors : writer.mode ≠ .legacyOnly) (full : writer.capacity ≤ writer.buffer.length) :
    MirrorWriter.enqueue event writer = (.error (.queueBackpressure writer.capacity writer.buffer.length),
      { writer with stats := { writer.stats with backpressureCount := writer.stats.backpressureCount + 1 } }) := by
  unfold MirrorWriter.enqueue
  rw [if_neg mirrors, if_pos full]

omit [Crc32fast] in
theorem enqueue_accepted (mirrors : writer.mode ≠ .legacyOnly) (room : ¬writer.capacity ≤ writer.buffer.length) :
    MirrorWriter.enqueue event writer = (.ok (), { writer with
      buffer := writer.buffer ++ [event]
      stats := { writer.stats with enqueued := writer.stats.enqueued + 1 } }) := by
  unfold MirrorWriter.enqueue
  rw [if_neg mirrors, if_neg room]

theorem drainToStore_empty (empty : writer.buffer = []) :
    MirrorWriter.drainToStore (writer, world) = (.ok 0, writer, world) := if_pos empty

/-- A drain that the store accepts moves the whole buffer to the end of the acknowledged events. -/
theorem drainToStore_accepted (ready : Appendable world writer.buffer) (nonempty : writer.buffer ≠ []) :
    ∃ fresh reached, fresh.map inputOf = writer.buffer ∧ reached.acknowledged = world.acknowledged ++ fresh ∧
      MirrorWriter.drainToStore (writer, world) = (.ok writer.buffer.length, { writer with
        buffer := []
        stats := { writer.stats with drained := writer.stats.drained + UInt64.ofNat writer.buffer.length } }, reached) := by
  obtain ⟨fresh, receipt, reached, inputs, appends, acknowledged⟩ := ready.append_ok
  refine ⟨fresh, reached, inputs, acknowledged, ?_⟩
  unfold MirrorWriter.drainToStore
  dsimp only
  rw [if_neg nonempty]
  rw [appends]

/-- A drain that the store refuses has lost the buffer. -/
theorem drainToStore_refused (refuses : ¬Appendable world writer.buffer) (nonempty : writer.buffer ≠ []) :
    ∃ error reached, MirrorWriter.drainToStore (writer, world) = (.error error, { writer with buffer := [] }, reached) := by
  unfold MirrorWriter.drainToStore
  dsimp only
  rw [if_neg nonempty]
  rcases appends : Store.append writer.buffer world with ⟨outcome, reached⟩
  cases outcome with
  | error error => exact ⟨_, _, rfl⟩
  | ok receipt => exact absurd (appendable_of_ok appends) refuses

end Calls

section Steps

variable {state : Mirroring} {before : List StoredEvent} {fault : Option Fault}

theorem retains_iff : state.Retains fault ↔ state.Drainable fault := by
  unfold Retains Drainable
  by_cases empty : state.writer.buffer = []
  · rw [drainToStore_empty empty]
    exact iff_of_true (Or.inl rfl) (Or.inl empty)
  · by_cases ready : Appendable (state.facing fault) state.writer.buffer
    · obtain ⟨fresh, reached, _, _, drains⟩ := drainToStore_accepted ready empty
      rw [drains]
      exact iff_of_true (Or.inl rfl) (Or.inr ready)
    · obtain ⟨error, reached, drains⟩ := drainToStore_refused ready empty
      rw [step, drains]
      constructor
      · intro kept
        rcases kept with finished | same
        · contradiction
        · exact absurd same.symm empty
      · intro drainable
        rcases drainable with gone | appendable
        · exact absurd gone empty
        · exact absurd appendable ready

/-- An accepted event joins the buffer and is counted. -/
theorem Conserves.enqueue (conserves : state.Conserves before) (event : WriteEvent) :
    (state.step (.enqueue event)).Conserves before := by
  obtain ⟨appended, acknowledged, accepted⟩ := conserves.events
  have counts := conserves.counts
  by_cases legacy : state.writer.mode = .legacyOnly
  · rw [step_enqueue, enqueue_legacy legacy, if_neg fun both => both.1 legacy, List.append_nil]
    exact conserves
  · by_cases full : state.writer.capacity ≤ state.writer.buffer.length
    · rw [step_enqueue, enqueue_full legacy full, if_neg fun both => Bool.false_ne_true both.2, List.append_nil]
      exact ⟨⟨appended, acknowledged, accepted⟩, counts⟩
    · rw [step_enqueue, enqueue_accepted legacy full, if_pos ⟨legacy, rfl⟩]
      refine ⟨⟨appended, acknowledged, ?_⟩, ?_⟩
      · rw [accepted, List.append_assoc]
      · dsimp only [MirrorWriter.pendingCount] at counts ⊢
        rw [counts, List.length_append, List.length_singleton, UInt64.ofNat_add, UInt64.ofNat_one]
        ac_rfl

/-- A drain that the store accepts moves the pending events behind the appended ones. -/
theorem Conserves.drain (conserves : state.Conserves before) (drainable : state.Drainable fault) :
    (state.step (.drain fault)).Conserves before := by
  obtain ⟨appended, acknowledged, accepted⟩ := conserves.events
  have counts := conserves.counts
  by_cases empty : state.writer.buffer = []
  · rw [step_drain, drainToStore_empty empty]
    exact ⟨⟨appended, acknowledged, accepted⟩, counts⟩
  · have ready := drainable.resolve_left empty
    obtain ⟨fresh, reached, inputs, extended, drains⟩ := drainToStore_accepted ready empty
    rw [step_drain, drains]
    refine ⟨⟨appended ++ fresh, ?_, ?_⟩, ?_⟩
    · rw [extended, ← List.append_assoc, ← acknowledged]
      rfl
    · rw [accepted, List.map_append, inputs, List.append_nil]
    · dsimp only [MirrorWriter.pendingCount, List.length_nil] at counts ⊢
      rw [counts]
      change _ = _ + UInt64.ofNat state.writer.buffer.length + 0 + _
      rw [UInt64.add_zero]

theorem Conserves.step (conserves : state.Conserves before) (call : Call)
    (drainable : ∀ fault, call = .drain fault → state.Drainable fault) : (state.step call).Conserves before := by
  cases call with
  | enqueue event => exact conserves.enqueue event
  | drain fault => exact conserves.drain (drainable fault rfl)
  | setMode mode => exact ⟨conserves.events, conserves.counts⟩

theorem Conserves.run {calls : List Call} (conserves : state.Conserves before) (drains : state.DrainsAlways calls) :
    (state.run calls).Conserves before := by
  induction calls generalizing state with
  | nil => exact conserves
  | cons call calls hypothesis =>
      apply hypothesis (conserves.step call ?_)
      · intro done fault within
        exact drains (call :: done) fault (List.cons_prefix_cons.mpr ⟨rfl, within⟩)
      · intro fault same
        exact drains [] fault (List.cons_prefix_cons.mpr ⟨same.symm, List.nil_prefix⟩)

end Steps

/-- The queue conserves its events in every moment of a run exactly when no drain meets a store that refuses them. -/
theorem conservesAlways_iff (capacity : Nat) (world : World) (calls : List Call) :
    (start capacity world).ConservesAlways calls ↔ (start capacity world).DrainsAlways calls := by
  constructor
  · intro always done fault within
    exact retains_iff.mp (always.2 done fault within)
  · intro drains
    refine ⟨fun done within => ?_, fun done fault within => retains_iff.mpr (drains done fault within)⟩
    have fresh : (start capacity world).Conserves world.acknowledged := ⟨⟨[], (List.append_nil _).symm, rfl⟩, rfl⟩
    exact fresh.run fun earlier fault reached => drains earlier fault (reached.trans within)

end Mirroring

/-- An event that names itself as its cause once it is the first of a log. -/
def selfCaused : WriteEvent := { bareInput 1 0 with causes := [⟨1, 1, 0⟩] }

/-- The world of a new database. -/
def freshWorld [Crc32fast] : World :=
  (System.fresh sampleDatabase 1 1 .default).world (startStore ⟨sampleDatabase, 1, 1⟩ .default 0)

/-- The store refuses the batch, and its only event is gone. -/
theorem refused_drain_loses_event : letI := Crc32fast.ieee
    ¬(Mirroring.start 1 freshWorld).ConservesAlways [.enqueue selfCaused, .drain none] := by
  generalize Crc32fast.ieee = checksum
  intro always
  rcases always.2 [.enqueue selfCaused] none (List.prefix_refl _) with finished | same
  · exact Bool.false_ne_true finished
  · exact List.cons_ne_nil _ _ same.symm

end Temnion.Adapter
