import Temnion.Core
import Temnion.Library.Fallible
import Temnion.Library.Runs

/-
This file models the volatile log of one source and shows what its appends keep.
-/

namespace Temnion.Events

structure EventInput (T : Type) where
  entity : EntityId
  times : EventTimes
  change : T

structure Event (T : Type) where
  id : EventId
  entity : EntityId
  times : EventTimes
  change : T

/-- The event says what the input said. -/
def Event.Records {T : Type} (event : Event T) (input : EventInput T) : Prop :=
  event.entity = input.entity ∧ event.times = input.times ∧ event.change = input.change

structure VolatileReceipt where
  first : EventId
  last : EventId
  count : Nat
  deriving DecidableEq, Repr

inductive EventError where
  | emptyBatch
  | capacityExceeded (available requested : Nat)
  | knownClockMismatch (expected actual : ClockId)
  | knownTimeRegression (previous actual : UInt64)
  | invalidBudget
  | invalidCursor
  | unknownEvent (id : EventId)
  deriving DecidableEq, Repr

/-- The capacity is a machine word, so that every position in the log is a sequence. -/
structure EventLog (T : Type) where
  source : SourceId
  epoch : SourceEpoch
  capacity : UInt64
  events : List (Event T)

namespace EventLog

variable {T : Type}

def new (source : SourceId) (epoch : SourceEpoch) (capacity : UInt64) : EventLog T := ⟨source, epoch, capacity, []⟩

def remainingCapacity (log : EventLog T) : Nat := log.capacity.toNat - log.events.length

def idAt (log : EventLog T) (index : Nat) : EventId := ⟨log.source, log.epoch, UInt64.ofNat index⟩

def lastKnown (log : EventLog T) : Option Timestamp := log.events.getLast?.map (·.times.known)

def checkCapacity (log : EventLog T) (count : Nat) : Except EventError Unit :=
  refuseIf (log.remainingCapacity < count) (.capacityExceeded log.remainingCapacity count)

def checkKnownTime (previous : Option Timestamp) (actual : Timestamp) : Except EventError Unit :=
  match previous with
  | none => .ok ()
  | some previous => do
      refuseIf (previous.clock ≠ actual.clock) (.knownClockMismatch previous.clock actual.clock)
      refuseIf (actual.ticks < previous.ticks) (.knownTimeRegression previous.ticks actual.ticks)

/-- Every input is checked against the one before it. -/
def checkKnownTimes : Option Timestamp → List (EventInput T) → Except EventError Unit
  | _, [] => .ok ()
  | previous, input :: inputs => do
      checkKnownTime previous input.times.known
      checkKnownTimes (some input.times.known) inputs

def push (log : EventLog T) (input : EventInput T) : EventLog T where
  source := log.source
  epoch := log.epoch
  capacity := log.capacity
  events := log.events ++ [⟨log.idAt log.events.length, input.entity, input.times, input.change⟩]

def pushValidated (input : EventInput T) : Procedure (EventLog T) EventError EventId := do
  let log ← Procedure.read
  Procedure.update fun log => log.push input
  return log.idAt log.events.length

def append (input : EventInput T) : Procedure (EventLog T) EventError VolatileReceipt := do
  let log ← Procedure.read
  Procedure.lift (log.checkCapacity 1)
  Procedure.lift (checkKnownTime log.lastKnown input.times.known)
  let id ← pushValidated input
  return ⟨id, id, 1⟩

/-- Every check comes before the first push. -/
def appendBatch (batch : List (EventInput T)) : Procedure (EventLog T) EventError VolatileReceipt := do
  refuseIf (batch.isEmpty = true) .emptyBatch
  let log ← Procedure.read
  Procedure.lift (log.checkCapacity batch.length)
  Procedure.lift (checkKnownTimes log.lastKnown batch)
  let first := log.idAt log.events.length
  batch.forM fun input => do
    let _ ← pushValidated input
  let log ← Procedure.read
  return ⟨first, log.idAt (log.events.length - 1), batch.length⟩

def get (log : EventLog T) (id : EventId) : Except EventError (Event T) := do
  refuseIf (id.source ≠ log.source ∨ id.epoch ≠ log.epoch) (.unknownEvent id)
  match log.events[id.sequence.toNat]? with
  | some event => return event
  | none => throw (.unknownEvent id)

section Appends

variable {log : EventLog T} {input : EventInput T} {inputs : List (EventInput T)}

/-- The log has room for the inputs, and their known times follow those of the log. -/
structure Admits (log : EventLog T) (inputs : List (EventInput T)) : Prop where
  room : log.events.length + inputs.length ≤ log.capacity.toNat
  known : checkKnownTimes log.lastKnown inputs = .ok ()

def pushAll (log : EventLog T) (inputs : List (EventInput T)) : EventLog T := inputs.foldl push log

@[simp] theorem push_length (log : EventLog T) (input : EventInput T) :
    (log.push input).events.length = log.events.length + 1 := List.length_append

@[simp] theorem push_lastKnown (log : EventLog T) (input : EventInput T) :
    (log.push input).lastKnown = some input.times.known := by
  simp [push, lastKnown]

theorem pushAll_length (log : EventLog T) (inputs : List (EventInput T)) :
    (log.pushAll inputs).events.length = log.events.length + inputs.length := by
  induction inputs generalizing log with
  | nil => rfl
  | cons input inputs hypothesis =>
      change ((log.push input).pushAll inputs).events.length = _
      rw [hypothesis, push_length, List.length_cons, Nat.add_assoc, Nat.add_comm 1]

/-- A push changes neither the identity of the log nor its capacity. -/
theorem pushAll_idAt (log : EventLog T) (inputs : List (EventInput T)) (index : Nat) :
    (log.pushAll inputs).idAt index = log.idAt index := by
  induction inputs generalizing log with
  | nil => rfl
  | cons input inputs hypothesis => exact hypothesis (log.push input)

theorem pushAll_capacity (log : EventLog T) (inputs : List (EventInput T)) :
    (log.pushAll inputs).capacity = log.capacity := by
  induction inputs generalizing log with
  | nil => rfl
  | cons input inputs hypothesis => exact hypothesis (log.push input)

theorem pushAll_concat (log : EventLog T) (inputs : List (EventInput T)) (input : EventInput T) :
    log.pushAll (inputs ++ [input]) = (log.pushAll inputs).push input := Runs.foldl_concat _ _ _ _

theorem checkCapacity_ok {count : Nat} (inside : log.events.length ≤ log.capacity.toNat) :
    log.checkCapacity count = .ok () ↔ log.events.length + count ≤ log.capacity.toNat := by
  rw [checkCapacity, Except.refuseIf_ok, remainingCapacity]
  omega

/-- One input after the other is admitted when all are. -/
theorem admits_cons : log.Admits (input :: inputs) ↔ log.Admits [input] ∧ (log.push input).Admits inputs := by
  have single : checkKnownTimes log.lastKnown [input] = .ok () ↔
      checkKnownTime log.lastKnown input.times.known = .ok () := by
    rw [checkKnownTimes, Except.check_bind_ok]
    exact and_iff_left rfl
  constructor
  · rintro ⟨room, known⟩
    rw [List.length_cons] at room
    rw [checkKnownTimes, Except.check_bind_ok] at known
    refine ⟨⟨by rw [List.length_singleton]; omega, single.mpr known.1⟩, ⟨?_, ?_⟩⟩
    · rw [push_length]
      change _ ≤ log.capacity.toNat
      omega
    · rw [push_lastKnown]
      exact known.2
  · rintro ⟨first, rest⟩
    have room := rest.room
    rw [push_length] at room
    change _ ≤ log.capacity.toNat at room
    have known := rest.known
    rw [push_lastKnown] at known
    refine ⟨by rw [List.length_cons]; omega, ?_⟩
    rw [checkKnownTimes, Except.check_bind_ok]
    exact ⟨single.mp first.known, known⟩

/-- An admitted input is pushed, and any other leaves the log as it is. -/
theorem append_eq (inside : log.events.length ≤ log.capacity.toNat) (input : EventInput T) :
    (log.Admits [input] ∧ append input log =
      (.ok ⟨log.idAt log.events.length, log.idAt log.events.length, 1⟩, log.push input)) ∨
    ¬log.Admits [input] ∧ ∃ error, append input log = (.error error, log) := by
  unfold append
  rw [Procedure.bind_of_ok (Procedure.read_apply log)]
  cases room : log.checkCapacity 1 with
  | error error =>
      refine Or.inr ⟨fun admits => ?_, error, rfl⟩
      have passes := (checkCapacity_ok inside).mpr admits.room
      exact absurd (room.symm.trans passes) (by simp)
  | ok done =>
      rw [Procedure.lift_bind_ok]
      cases known : checkKnownTime log.lastKnown input.times.known with
      | error error =>
          refine Or.inr ⟨fun admits => ?_, error, rfl⟩
          have passes := admits.known
          rw [checkKnownTimes, known] at passes
          exact absurd passes (by simp [Bind.bind, Except.bind])
      | ok done =>
          refine Or.inl ⟨⟨(checkCapacity_ok inside).mp room, ?_⟩, rfl⟩
          rw [checkKnownTimes, known]
          rfl

theorem forM_pushValidated (log : EventLog T) (inputs : List (EventInput T)) :
    (inputs.forM fun input => do let _ ← pushValidated input) log =
      ((.ok (), log.pushAll inputs) : Except EventError Unit × EventLog T) := by
  induction inputs generalizing log with
  | nil => rfl
  | cons input inputs hypothesis => exact hypothesis (log.push input)

/-- An admitted batch is pushed as a whole, and any other leaves the log as it is. -/
theorem appendBatch_eq (inside : log.events.length ≤ log.capacity.toNat) (some' : inputs ≠ []) :
    (log.Admits inputs ∧ appendBatch inputs log =
      (.ok ⟨log.idAt log.events.length, log.idAt (log.events.length + inputs.length - 1), inputs.length⟩,
        log.pushAll inputs)) ∨
    ¬log.Admits inputs ∧ ∃ error, appendBatch inputs log = (.error error, log) := by
  unfold appendBatch
  rw [Procedure.refuseIf_bind (by rw [List.isEmpty_iff]; exact some'), Procedure.bind_of_ok (Procedure.read_apply log)]
  cases room : log.checkCapacity inputs.length with
  | error error =>
      refine Or.inr ⟨fun admits => ?_, error, rfl⟩
      have passes := (checkCapacity_ok inside).mpr admits.room
      exact absurd (room.symm.trans passes) (by simp)
  | ok done =>
      rw [Procedure.lift_bind_ok]
      cases known : checkKnownTimes log.lastKnown inputs with
      | error error =>
          refine Or.inr ⟨fun admits => ?_, error, rfl⟩
          exact absurd (known.symm.trans admits.known) (by simp)
      | ok done =>
          refine Or.inl ⟨⟨(checkCapacity_ok inside).mp room, known⟩, ?_⟩
          have ids : (log.pushAll inputs).idAt ((log.pushAll inputs).events.length - 1) =
              log.idAt (log.events.length + inputs.length - 1) := by
            rw [pushAll_length, pushAll_idAt]
          rw [Procedure.lift_bind_ok, Procedure.bind_of_ok (forM_pushValidated log inputs), Procedure.bind_of_ok (Procedure.read_apply _), ids]
          rfl

/-- A batch does what its inputs would do one after the other, if they are all accepted, and nothing otherwise. -/
theorem batch_refines_appends (inside : log.events.length ≤ log.capacity.toNat) (some' : inputs ≠ []) :
    (∀ reached : EventLog T, (inputs.forM fun input => do let _ ← append input) log = (.ok (), reached) →
      appendBatch inputs log = (.ok ⟨log.idAt log.events.length, log.idAt (reached.events.length - 1), inputs.length⟩,
        reached)) ∧
    ∀ (error : EventError) (partial' : EventLog T),
      (inputs.forM fun input => do let _ ← append input) log = (.error error, partial') →
        ∃ refused, appendBatch inputs log = (.error refused, log) := by
  have appends : (log.Admits inputs ∧ (inputs.forM fun input => do let _ ← append input) log =
      ((.ok (), log.pushAll inputs) : Except EventError Unit × EventLog T)) ∨
      ¬log.Admits inputs ∧ ∃ (error : EventError) (reached : EventLog T),
        (inputs.forM fun input => do let _ ← append input) log = (.error error, reached) := by
    clear some'
    induction inputs generalizing log with
    | nil => exact Or.inl ⟨⟨inside, rfl⟩, rfl⟩
    | cons input inputs hypothesis =>
        have split : ((input :: inputs).forM fun input => do let _ ← append input) log =
            ((do let _ ← append input) >>= fun _ => inputs.forM fun input => do let _ ← append input) log := rfl
        rw [split]
        rcases append_eq inside input with ⟨admits, pushed⟩ | ⟨refused, error, fails⟩
        · have first : (do let _ ← append input) log = ((.ok (), log.push input) : Except EventError Unit × EventLog T) :=
            Procedure.bind_of_ok pushed
          rw [Procedure.bind_of_ok first]
          have room : (log.push input).events.length ≤ (log.push input).capacity.toNat := by
            rw [push_length]
            exact admits.room
          rcases hypothesis room with ⟨rest, ends⟩ | ⟨refused, error, reached, ends⟩
          · exact Or.inl ⟨admits_cons.mpr ⟨admits, rest⟩, ends⟩
          · exact Or.inr ⟨fun all => refused (admits_cons.mp all).2, error, reached, ends⟩
        · have first : (do let _ ← append input) log = ((.error error, log) : Except EventError Unit × EventLog T) :=
            Procedure.bind_of_error fails
          exact Or.inr ⟨fun all => refused (admits_cons.mp all).1, error, log, Procedure.bind_of_error first⟩
  constructor
  · intro reached ends
    rcases appends with ⟨admits, pushed⟩ | ⟨-, error, other, fails⟩
    · rw [pushed, Prod.mk.injEq] at ends
      rcases appendBatch_eq inside some' with ⟨-, batch⟩ | ⟨refused, -⟩
      · rw [batch, ← ends.2, pushAll_length]
      · exact absurd admits refused
    · rw [fails] at ends
      simp at ends
  · intro error reached fails
    rcases appends with ⟨-, pushed⟩ | ⟨refused, -⟩
    · rw [pushed] at fails
      simp at fails
    · rcases appendBatch_eq inside some' with ⟨admits, -⟩ | ⟨-, refuses⟩
      · exact absurd admits refused
      · exact refuses

end Appends

/-- What the owner of the log may ask for. -/
inductive Command (T : Type) where
  | append (input : EventInput T)
  | appendBatch (batch : List (EventInput T))

/-- The inputs of a command. -/
def Command.inputs : Command T → List (EventInput T)
  | .append input => [input]
  | .appendBatch batch => batch

def step (log : EventLog T) : Command T → EventLog T
  | .append input => (EventLog.append input log).2
  | .appendBatch batch => (EventLog.appendBatch batch log).2

def run (log : EventLog T) (commands : List (Command T)) : EventLog T := commands.foldl step log

/-- The log stays within its capacity, its events carry their positions, and no known time precedes an earlier one. -/
structure Well (log : EventLog T) : Prop where
  inside : log.events.length ≤ log.capacity.toNat
  numbered : ∀ (index : Nat) (event : Event T), log.events[index]? = some event → event.id = log.idAt index
  ordered : log.events.Pairwise fun earlier later =>
    earlier.times.known.clock = later.times.known.clock ∧ earlier.times.known.ticks ≤ later.times.known.ticks

/-- The later log has the identity of the earlier one, and its events begin with those of the earlier one. -/
structure Extends (earlier later : EventLog T) : Prop where
  identity : later.source = earlier.source ∧ later.epoch = earlier.epoch ∧ later.capacity = earlier.capacity
  events : earlier.events <+: later.events

section Runs

variable {log : EventLog T} {input : EventInput T} {inputs : List (EventInput T)}

theorem Extends.refl (log : EventLog T) : log.Extends log := ⟨⟨rfl, rfl, rfl⟩, List.prefix_refl _⟩

theorem Extends.trans {first second third : EventLog T} (one : first.Extends second) (two : second.Extends third) :
    first.Extends third where
  identity := ⟨two.identity.1.trans one.identity.1, two.identity.2.1.trans one.identity.2.1,
    two.identity.2.2.trans one.identity.2.2⟩
  events := one.events.trans two.events

theorem Well.new (source : SourceId) (epoch : SourceEpoch) (capacity : UInt64) :
    (EventLog.new source epoch capacity : EventLog T).Well where
  inside := Nat.zero_le _
  numbered := fun _ _ absent => nomatch absent
  ordered := List.Pairwise.nil

/-- The known time of the last event bounds those of all events. -/
theorem Well.lastKnown {known : Timestamp} (well : log.Well) (last : log.lastKnown = some known) :
    ∀ event ∈ log.events, event.times.known.clock = known.clock ∧ event.times.known.ticks ≤ known.ticks := by
  rw [EventLog.lastKnown, Option.map_eq_some_iff] at last
  obtain ⟨final, found, rfl⟩ := last
  obtain ⟨front, split⟩ := List.getLast?_eq_some_iff.mp found
  intro event member
  have ordered := well.ordered
  rw [split, List.pairwise_append] at ordered
  rw [split, List.mem_append, List.mem_singleton] at member
  rcases member with earlier | rfl
  · exact ordered.2.2 event earlier final (List.mem_singleton_self _)
  · exact ⟨rfl, UInt64.le_refl _⟩

/-- An admitted input keeps the log well. -/
theorem Well.push (well : log.Well) (admits : log.Admits [input]) : (log.push input).Well where
  inside := by
    rw [push_length]
    exact admits.room
  numbered := by
    intro index event found
    rw [EventLog.push, List.getElem?_append] at found
    split at found
    · exact well.numbered index event found
    · rename_i behind
      rw [List.getElem?_singleton] at found
      split at found
      · rename_i here
        obtain rfl := Option.some.inj found
        rw [show index = log.events.length by omega]
        rfl
      · contradiction
  ordered := by
    rw [EventLog.push, List.pairwise_append]
    refine ⟨well.ordered, List.pairwise_singleton _ _, fun earlier member later single => ?_⟩
    rw [List.mem_singleton.mp single]
    have known := admits.known
    rw [checkKnownTimes, Except.check_bind_ok] at known
    cases last : log.lastKnown with
    | none =>
        rw [EventLog.lastKnown, Option.map_eq_none_iff, List.getLast?_eq_none_iff] at last
        rw [last] at member
        exact absurd member List.not_mem_nil
    | some previous =>
        have bounded := well.lastKnown last earlier member
        rw [last, checkKnownTime, Except.check_bind_ok, Except.refuseIf_ok, Except.refuseIf_ok, not_not] at known
        exact ⟨bounded.1.trans known.1.1, UInt64.le_trans bounded.2 (UInt64.not_lt.mp known.1.2)⟩

theorem Well.pushAll (well : log.Well) (admits : log.Admits inputs) : (log.pushAll inputs).Well := by
  induction inputs generalizing log with
  | nil => exact well
  | cons input inputs hypothesis =>
      obtain ⟨first, rest⟩ := admits_cons.mp admits
      exact hypothesis (well.push first) rest

theorem push_extends (log : EventLog T) (input : EventInput T) : log.Extends (log.push input) :=
  ⟨⟨rfl, rfl, rfl⟩, List.prefix_append _ _⟩

theorem pushAll_extends (log : EventLog T) (inputs : List (EventInput T)) : log.Extends (log.pushAll inputs) := by
  induction inputs generalizing log with
  | nil => exact Extends.refl log
  | cons input inputs hypothesis => exact (push_extends log input).trans (hypothesis (log.push input))

/-- A command pushes its inputs when they are admitted, or leaves the log as it is. -/
theorem Well.step_cases (well : log.Well) (command : Command T) :
    log.step command = log ∨ log.Admits command.inputs ∧ log.step command = log.pushAll command.inputs := by
  cases command with
  | append input =>
      rcases append_eq well.inside input with ⟨admits, pushed⟩ | ⟨-, error, fails⟩
      · exact Or.inr ⟨admits, congrArg Prod.snd pushed⟩
      · exact Or.inl (congrArg Prod.snd fails)
  | appendBatch batch =>
      by_cases empty : batch = []
      · left
        rw [step, appendBatch, empty, Procedure.refuseIf_bind_error (by rfl)]
      · rcases appendBatch_eq well.inside empty with ⟨admits, pushed⟩ | ⟨-, error, fails⟩
        · exact Or.inr ⟨admits, congrArg Prod.snd pushed⟩
        · exact Or.inl (congrArg Prod.snd fails)

theorem Well.step (well : log.Well) (command : Command T) : (log.step command).Well ∧ log.Extends (log.step command) := by
  rcases well.step_cases command with same | ⟨admits, pushed⟩
  · rw [same]
    exact ⟨well, Extends.refl log⟩
  · rw [pushed]
    exact ⟨well.pushAll admits, pushAll_extends log command.inputs⟩

theorem Well.run (well : log.Well) (commands : List (Command T)) :
    (log.run commands).Well ∧ log.Extends (log.run commands) := by
  induction commands generalizing log with
  | nil => exact ⟨well, Extends.refl log⟩
  | cons command commands hypothesis =>
      obtain ⟨next, grown⟩ := well.step command
      obtain ⟨reached, extended⟩ := hypothesis next
      exact ⟨reached, grown.trans extended⟩

/-- The events behind the earlier ones record the inputs. -/
theorem pushAll_records (log : EventLog T) {index : Nat} (found : inputs[index]? = some input) :
    ∃ event, (log.pushAll inputs).events[log.events.length + index]? = some event ∧ event.Records input := by
  induction inputs generalizing log index with
  | nil => contradiction
  | cons first inputs hypothesis =>
      cases index with
      | zero =>
          obtain rfl := Option.some.inj found
          obtain ⟨rest, split⟩ := (pushAll_extends (log.push first) inputs).events
          have here : (log.push first).events[log.events.length]? =
              some ⟨log.idAt log.events.length, first.entity, first.times, first.change⟩ := by
            rw [push, List.getElem?_append_right (Nat.le_refl _), Nat.sub_self]
            rfl
          refine ⟨⟨log.idAt log.events.length, first.entity, first.times, first.change⟩, ?_, rfl, rfl, rfl⟩
          · change ((log.push first).pushAll inputs).events[log.events.length]? = _
            rw [← split]
            exact (List.getElem?_append_left (List.getElem?_eq_some_iff.mp here).1).trans here
      | succ index =>
          obtain ⟨event, here, records⟩ := hypothesis (log.push first) found
          rw [push_length, Nat.add_assoc, Nat.add_comm 1] at here
          exact ⟨event, here, records⟩

/-- An event is found under the identity of its position, and no other. -/
theorem Well.get_ok {id : EventId} {event : Event T} (well : log.Well) :
    log.get id = .ok event ↔ event ∈ log.events ∧ event.id = id := by
  have small := log.capacity.toNat_lt
  have inside := well.inside
  have found : log.get id = .ok event ↔
      (id.source = log.source ∧ id.epoch = log.epoch) ∧ log.events[id.sequence.toNat]? = some event := by
    unfold get
    rw [Except.check_bind_ok, Except.refuseIf_ok, not_or, not_not, not_not]
    cases log.events[id.sequence.toNat]? with
    | none => exact and_congr_right fun _ => iff_of_false (by nofun) (by nofun)
    | some other => exact and_congr_right fun _ => ⟨fun same => congrArg some (Except.ok.inj same),
        fun same => congrArg Except.ok (Option.some.inj same)⟩
  rw [found]
  constructor
  · rintro ⟨⟨source, epoch⟩, here⟩
    refine ⟨List.mem_of_getElem? here, ?_⟩
    rw [well.numbered _ event here, idAt, ← source, ← epoch, UInt64.ofNat_toNat]
  · rintro ⟨member, rfl⟩
    obtain ⟨index, bound, here⟩ := List.getElem_of_mem member
    have present : log.events[index]? = some event := List.getElem?_eq_some_iff.mpr ⟨bound, here⟩
    have position : (UInt64.ofNat index).toNat = index := UInt64.toNat_ofNat_of_lt' (show index < 2 ^ 64 by omega)
    rw [well.numbered index event present, idAt, position]
    exact ⟨⟨rfl, rfl⟩, present⟩

theorem Well.get_at {index : Nat} {event : Event T} (well : log.Well) (found : log.events[index]? = some event) :
    log.get (log.idAt index) = .ok event :=
  well.get_ok.mpr ⟨List.mem_of_getElem? found, well.numbered index event found⟩

/-- A receipt names the events of its batch, and they are found under these names whatever is appended later. -/
theorem receipts_stay_valid {source : SourceId} {epoch : SourceEpoch} {capacity : UInt64}
    {commands later : List (Command T)} {reached : EventLog T} {receipt : VolatileReceipt}
    (accepted : appendBatch inputs ((new source epoch capacity).run commands) = (.ok receipt, reached)) :
    receipt.count = inputs.length ∧ receipt.first.sequence.toNat + receipt.count = receipt.last.sequence.toNat + 1 ∧
      ∀ (index : Nat) (input : EventInput T), inputs[index]? = some input →
        ∃ event, (reached.run later).get ⟨source, epoch, receipt.first.sequence + UInt64.ofNat index⟩ = .ok event ∧
          event.Records input := by
  obtain ⟨well, grown⟩ := (Well.new source epoch capacity : (new source epoch capacity : EventLog T).Well).run commands
  generalize (new source epoch capacity).run commands = log at accepted well grown
  by_cases empty : inputs = []
  · rw [appendBatch, empty, Procedure.refuseIf_bind_error (by rfl)] at accepted
    simp at accepted
  · rcases appendBatch_eq well.inside empty with ⟨admits, pushed⟩ | ⟨-, error, fails⟩
    · rw [pushed, Prod.mk.injEq, Except.ok.injEq] at accepted
      obtain ⟨rfl, rfl⟩ := accepted
      have small := log.capacity.toNat_lt
      have room := admits.room
      have positive := List.length_pos_of_ne_nil empty
      have first : (UInt64.ofNat log.events.length).toNat = log.events.length :=
        UInt64.toNat_ofNat_of_lt' (show log.events.length < 2 ^ 64 by omega)
      have last : (UInt64.ofNat (log.events.length + inputs.length - 1)).toNat = log.events.length + inputs.length - 1 :=
        UInt64.toNat_ofNat_of_lt' (show log.events.length + inputs.length - 1 < 2 ^ 64 by omega)
      refine ⟨rfl, ?_, fun index input found => ?_⟩
      · dsimp only [idAt]
        rw [first, last]
        omega
      · obtain ⟨event, here, records⟩ := pushAll_records log found
        obtain ⟨final, extended⟩ := (well.pushAll admits).run later
        obtain ⟨rest, split⟩ := extended.events
        have stays : ((log.pushAll inputs).run later).events[log.events.length + index]? = some event := by
          rw [← split]
          exact (List.getElem?_append_left (List.getElem?_eq_some_iff.mp here).1).trans here
        have names : ((log.pushAll inputs).run later).idAt (log.events.length + index) =
            ⟨source, epoch, UInt64.ofNat log.events.length + UInt64.ofNat index⟩ := by
          have whole := ((grown.trans (pushAll_extends log inputs)).trans extended).identity
          rw [idAt, whole.1, whole.2.1, UInt64.ofNat_add]
          rfl
        have gets := final.get_at stays
        rw [names] at gets
        exact ⟨event, gets, records⟩
    · rw [fails] at accepted
      simp at accepted

end Runs

/-- In every run the events stay as they are, carry their positions, and are known in their order. -/
theorem runs_stay_well (source : SourceId) (epoch : SourceEpoch) (capacity : UInt64) (commands later : List (Command T)) :
    ((new source epoch capacity).run commands).Well ∧
      ((new source epoch capacity).run commands).Extends (((new source epoch capacity).run commands).run later) := by
  obtain ⟨well, -⟩ := (Well.new source epoch capacity : (new source epoch capacity : EventLog T).Well).run commands
  exact ⟨well, (well.run later).2⟩

/-- An input that says nothing but its number, known at a tick of clock one. -/
def sampleInput (change : Nat) (ticks : UInt64) : EventInput Nat := ⟨⟨0, 0, 1⟩, ⟨⟨1, ticks⟩, none, ⟨1, ticks⟩⟩, change⟩

theorem batch_refines_appends_sample :
    (new 3 1 2 : EventLog Nat).events.length ≤ (new 3 1 2 : EventLog Nat).capacity.toNat ∧
    [sampleInput 7 5, sampleInput 8 4] ≠ [] ∧
    ∃ refused, appendBatch [sampleInput 7 5, sampleInput 8 4] (new 3 1 2) = (.error refused, new 3 1 2) :=
  ⟨by decide, by decide, (batch_refines_appends (by decide) (by decide)).2 (.knownTimeRegression 5 4)
    ((new 3 1 2).push (sampleInput 7 5)) rfl⟩

theorem receipts_stay_valid_sample :
    appendBatch [sampleInput 7 5, sampleInput 8 6] ((new 3 1 2).run []) =
      (.ok ⟨⟨3, 1, 0⟩, ⟨3, 1, 1⟩, 2⟩, (new 3 1 2).pushAll [sampleInput 7 5, sampleInput 8 6]) ∧
    ∃ event, (((new 3 1 2).pushAll [sampleInput 7 5, sampleInput 8 6]).run [.append (sampleInput 9 6)]).get
      ⟨3, 1, 0 + UInt64.ofNat 1⟩ = .ok event ∧ event.Records (sampleInput 8 6) := by
  have accepted : appendBatch [sampleInput 7 5, sampleInput 8 6] ((new 3 1 2).run []) =
      (.ok ⟨⟨3, 1, 0⟩, ⟨3, 1, 1⟩, 2⟩, (new 3 1 2).pushAll [sampleInput 7 5, sampleInput 8 6]) := rfl
  exact ⟨accepted, (receipts_stay_valid accepted).2.2 1 (sampleInput 8 6) rfl⟩

end EventLog

end Temnion.Events
