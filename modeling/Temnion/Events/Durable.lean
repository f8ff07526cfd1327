import Temnion.Events.Pages
import Temnion.Storage.KnownTime
import Temnion.Storage.Paging

/-
This file shows that a durable store admits, numbers and returns events as a volatile log does.
-/

namespace Temnion.Events

open Storage Format Sweep

/-- What an event says besides its entity and its times. -/
structure Content where
  schema : SchemaId
  payload : List UInt8
  causes : List EventId
  deriving DecidableEq, Repr

def volatileInput (input : WriteEvent) : EventInput Content :=
  ⟨input.entity, input.times, ⟨input.schema, input.payload, input.causes⟩⟩

def volatileEvent (event : StoredEvent) : Event Content :=
  ⟨event.id, event.entity, event.times, ⟨event.schema, event.payload, event.causes⟩⟩

def volatileReceipt (receipt : DurableReceipt) : VolatileReceipt := ⟨receipt.first, receipt.last, receipt.count⟩

/-- A store refuses known times in the words of the log. -/
def volatileRefusal : StorageError → Option EventError
  | .knownClockMismatch expected actual => some (.knownClockMismatch expected actual)
  | .knownTimeRegression previous actual => some (.knownTimeRegression previous actual)
  | _ => none

section Steps

variable {header : WalHeader} {log : EventLog Content} {events fresh : List StoredEvent} {sequence : Nat}
  {previous : Option Timestamp}

/-- The log has the identity of the store and holds its events. -/
structure Mirrors (header : WalHeader) (events : List StoredEvent) (log : EventLog Content) : Prop where
  source : log.source = header.source
  epoch : log.epoch = header.epoch
  events : log.events = events.map volatileEvent

theorem selectedBy_volatileEvent (filter : HistoryFilter) (event : StoredEvent) :
    (volatileEvent event).selectedBy filter = filter.keeps event := by
  change filter.selects event.entity event.times = _
  unfold HistoryFilter.selects HistoryFilter.keeps
  generalize filter.entity.any _ = elsewhere
  generalize filter.knownAsOf.any _ = unknown
  generalize filter.time.any _ = outside
  cases elsewhere with
  | true => rfl
  | false => cases unknown <;> cases outside <;> rfl

/-- The inputs of an accepted batch pass the check of the known times. -/
theorem checkKnownTimes_accepted (accepted : Accepted header sequence previous fresh) :
    EventLog.checkKnownTimes previous ((fresh.map inputOf).map volatileInput) = .ok () := by
  induction fresh generalizing sequence previous with
  | nil => rfl
  | cons record fresh hypothesis =>
      have follows : EventLog.checkKnownTime previous record.times.known = .ok () := by
        cases previous with
        | none => rfl
        | some last =>
            have step := accepted.1.follows last rfl
            rw [EventLog.checkKnownTime, Except.refuseIf_bind (not_not.mpr step.1),
              Except.refuseIf_ok]
            exact UInt64.not_lt.mpr step.2
      rw [List.map_cons, List.map_cons, EventLog.checkKnownTimes]
      change (EventLog.checkKnownTime previous record.times.known >>= _) = _
      rw [follows, Except.ok_bind]
      exact hypothesis accepted.2

theorem Mirrors.lastKnown (mirrors : Mirrors header events log) : log.lastKnown = knownAfter none events := by
  rw [EventLog.lastKnown, mirrors.events]
  induction events using List.reverseRecOn with
  | nil => rfl
  | append_singleton front last _ =>
      rw [List.map_append, List.map_singleton, List.getLast?_concat, knownAfter_append]
      rfl

/-- Pushing the inputs of an accepted batch gives the log its records. -/
theorem Mirrors.pushAll (mirrors : Mirrors header events log)
    (accepted : Accepted header events.length previous fresh) :
    Mirrors header (events ++ fresh) (log.pushAll ((fresh.map inputOf).map volatileInput)) := by
  induction fresh generalizing events log previous with
  | nil =>
      rw [List.append_nil]
      exact mirrors
  | cons record fresh hypothesis =>
      have pushed : Mirrors header (events ++ [record]) (log.push (volatileInput (inputOf record))) := by
        refine ⟨mirrors.source, mirrors.epoch, ?_⟩
        rw [EventLog.push, mirrors.events, List.map_append, List.map_singleton, List.length_map, EventLog.idAt,
          mirrors.source, mirrors.epoch, ← accepted.1.identity]
        rfl
      have rest : Accepted header (events ++ [record]).length (some record.times.known) fresh := by
        rw [List.length_append]
        exact accepted.2
      rw [← List.singleton_append, ← List.append_assoc]
      exact hypothesis pushed rest

theorem checkKnownTime_ok {record : StoredEvent} (passes : checkKnown record previous = .ok ()) :
    EventLog.checkKnownTime previous record.times.known = .ok () := by
  cases previous with
  | none => rfl
  | some last =>
      have follows := checkKnown_ok.mp passes last rfl
      rw [EventLog.checkKnownTime, Except.refuseIf_bind (not_not.mpr follows.1), Except.refuseIf_ok]
      exact UInt64.not_lt.mpr follows.2

theorem checkKnownTime_error {record : StoredEvent} {error : StorageError}
    (failed : checkKnown record previous = .error error) :
    ∃ refusal, volatileRefusal error = some refusal ∧
      EventLog.checkKnownTime previous record.times.known = .error refusal := by
  cases previous with
  | none => contradiction
  | some last =>
      rw [checkKnown] at failed
      rw [EventLog.checkKnownTime]
      by_cases other : last.clock ≠ record.times.known.clock
      · rw [Except.refuseIf_bind_error other, Except.error.injEq] at failed
        rw [Except.refuseIf_bind_error other, ← failed]
        exact ⟨_, rfl, rfl⟩
      · rw [Except.refuseIf_bind other, Except.refuseIf_error] at failed
        rw [Except.refuseIf_bind other, ← failed.2]
        exact ⟨_, rfl, Except.refuseIf_error.mpr ⟨failed.1, rfl⟩⟩

/-- A batch whose known times a store refuses is refused by the log in the same words. -/
theorem checkKnownTimes_refused [Crc32fast] {store : Store} {batch : List WriteEvent} {admitted : List StoredEvent}
    {error : StorageError} {refusal : EventError} (refuses : volatileRefusal error = some refusal)
    (failed : batch.foldlM store.appendRecord (admitted, previous) = .error error) :
    EventLog.checkKnownTimes previous (batch.map volatileInput) = .error refusal := by
  induction batch generalizing admitted previous with
  | nil => contradiction
  | cons input batch hypothesis =>
      rw [List.foldlM_cons] at failed
      rw [List.map_cons, EventLog.checkKnownTimes]
      rcases Except.bind_eq_error.mp failed with broken | ⟨reached, passed, later⟩
      · unfold Store.appendRecord validateRecord at broken
        dsimp only at broken
        rw [Except.refuseIf_bind (by simp)] at broken
        rcases Except.bind_eq_error.mp broken with invalid | ⟨_, _, impossible⟩
        · rcases Except.bind_eq_error.mp invalid with unknown | ⟨_, _, causes⟩
          · obtain ⟨_, same, stops⟩ := checkKnownTime_error unknown
            rw [refuses, Option.some.injEq] at same
            rw [same]
            exact Except.bind_eq_error.mpr (Or.inl stops)
          · rw [← (Except.refuseIf_error.mp causes).2] at refuses
            contradiction
        · contradiction
      · unfold Store.appendRecord validateRecord at passed
        dsimp only at passed
        rw [Except.refuseIf_bind (by simp)] at passed
        obtain ⟨_, valid, same⟩ := Except.bind_eq_ok.mp passed
        obtain ⟨_, known, -⟩ := Except.bind_eq_ok.mp valid
        have passes := checkKnownTime_ok known
        cases same
        change (EventLog.checkKnownTime previous input.times.known >>= _) = _
        rw [passes, Except.ok_bind]
        exact hypothesis later

end Steps

variable [Crc32fast]

/-- The log takes in what the store commits. -/
def mirrored (system : System) : Storage.Command → List (EventLog.Command Content)
  | .append batch =>
      match system.offer batch with
      | some (.ok _) => [.appendBatch (batch.map volatileInput)]
      | _ => []
  | _ => []

/-- What the log takes in during a run of the store. -/
def mirror : System → List Storage.Command → List (EventLog.Command Content)
  | _, [] => []
  | system, command :: commands => mirrored system command ++ mirror (system.step command) commands

section Runs

variable {admits : List StoredEvent → Prop} {log : Log} {store : Store} {system : System}
  {volatile : EventLog Content} {batch : List WriteEvent} {fresh : List StoredEvent}

/-- A handle offers the receipt of the records that come next, or the error of its preparation. -/
theorem offer_cases (consistent : Consistent admits log store system) (present : system.handle = some store)
    (batch : List WriteEvent) :
    (∃ fresh, NextBatch store batch fresh ∧ system.offer batch = some (.ok (store.receipt fresh))) ∨
      ∃ error, store.prepare batch = .error error ∧ system.offer batch = some (.error error) := by
  have sound : (system.world store).fault = none := rfl
  have aligned : (system.world store).disk.wal.length = (system.world store).store.endOffset :=
    consistent.inv.walExact
  unfold System.offer
  rw [present, Option.map_some]
  rcases append_eq sound consistent.inv.tracks.usable aligned with ⟨fresh, next, ends⟩ | ⟨error, failed, ends⟩
  · exact Or.inl ⟨fresh, next, by rw [ends]; rfl⟩
  · exact Or.inr ⟨error, failed, by rw [ends]⟩

/-- The log accepts a batch that the store commits, with the same receipt. -/
theorem Mirrors.append (mirrors : Mirrors store.header log.events volatile) (well : volatile.Well)
    (timed : Timed log store) (next : NextBatch store batch fresh) (whole : store.nextSequence = log.events.length)
    (room : log.events.length + batch.length ≤ volatile.capacity.toNat) :
    volatile.Admits (batch.map volatileInput) ∧
      EventLog.appendBatch (batch.map volatileInput) volatile =
        (.ok (volatileReceipt (store.receipt fresh)), volatile.pushAll (batch.map volatileInput)) := by
  have length : volatile.events.length = log.events.length := by rw [mirrors.events, List.length_map]
  have known : EventLog.checkKnownTimes volatile.lastKnown (batch.map volatileInput) = .ok () := by
    have accepted := next.accepted
    rw [timed.lastKnown, ← mirrors.lastKnown] at accepted
    rw [← next.inputs]
    exact checkKnownTimes_accepted accepted
  have admitted : volatile.Admits (batch.map volatileInput) :=
    ⟨by rw [length, List.length_map]; exact room, known⟩
  have some' : batch.map volatileInput ≠ [] := by
    rw [← next.inputs]
    simp only [ne_eq, List.map_eq_nil_iff]
    exact next.nonempty
  refine ⟨admitted, ?_⟩
  rcases EventLog.appendBatch_eq well.inside some' with ⟨-, ends⟩ | ⟨refused, -⟩
  · have count : batch.length = fresh.length := by rw [← next.inputs, List.length_map]
    rw [ends, List.length_map, length, ← whole, count]
    unfold EventLog.idAt
    rw [mirrors.source, mirrors.epoch]
    rfl
  · exact absurd admitted refused

/-- Every command of a run only appends to the log. -/
theorem events_grow (consistent : Consistent (fun _ => True) log store system) (commands : List Storage.Command) :
    log.events <+: (system.run commands).acknowledged := by
  have kept : ∀ (current : Log) (handle : Store) (system : System) (command : Storage.Command) (later : Log)
      (reached : Store), log.events <+: current.events → Consistent (fun _ => True) current handle system → True →
      Effect current handle command later reached → log.events <+: later.events := by
    intro current handle _ command later reached kept _ _ effect
    cases effect with
    | commit next =>
        rw [Log.extend_events]
        exact kept.trans (List.prefix_append _ _)
    | keep => exact kept
    | retire split =>
        rw [retireLog_events split]
        exact kept
    | reopen => exact kept
  obtain ⟨later, reached, ends, grown⟩ := consistent.run (fun later _ => log.events <+: later.events) kept
    (fun _ _ _ _ _ => trivial) (List.prefix_refl _) (System.follows_always system commands)
  rw [ends.acknowledged]
  exact grown

/-- A state of the store with the log that mirrors it. -/
structure Alike (header : WalHeader) (log : Log) (store : Store) (system : System) (volatile : EventLog Content) :
    Prop where
  consistent : Consistent (fun _ => True) log store system
  identity : store.header = header
  timed : Timed log store
  mirrors : Mirrors header log.events volatile
  well : volatile.Well

variable {header : WalHeader}

/-- A command that commits nothing leaves the events as they are. -/
theorem Alike.quiet {command : Storage.Command} (alike : Alike header log store system volatile)
    (careful : system.Careful command) {later : Log} {reached : Store}
    (effect : Effect log store command later reached)
    (next : Consistent (fun _ => True) later reached (system.step command)) (same : later.events = log.events) :
    Alike header later reached (system.step command) volatile where
  consistent := next
  identity := effect.header.trans alike.identity
  timed := alike.timed.step alike.consistent careful effect
  mirrors := by
    rw [same]
    exact alike.mirrors
  well := alike.well

/-- One careful command of the store is what it commits for the log. -/
theorem Alike.step (alike : Alike header log store system volatile) (command : Storage.Command)
    (careful : system.Careful command)
    (room : (system.step command).acknowledged.length ≤ volatile.capacity.toNat) :
    ∃ later reached, Alike header later reached (system.step command) (volatile.run (mirrored system command)) := by
  have consistent := alike.consistent
  cases command with
  | append batch =>
      cases present : system.handle with
      | none =>
          have same : system.step (.append batch) = system := by rw [System.step, System.perform_none present]
          have nothing : mirrored system (.append batch) = [] := by
            simp only [mirrored, System.offer, present, Option.map_none]
          rw [same, nothing]
          exact ⟨log, store, alike⟩
      | some other =>
          obtain rfl := consistent.handle other present
          rcases offer_cases consistent present batch with ⟨fresh, next, offered⟩ | ⟨error, refused, offered⟩
          · have committed := (consistent.append_next present next).1
            have taken : mirrored system (.append batch) = [.appendBatch (batch.map volatileInput)] := by
              simp only [mirrored, offered]
            have mirrors : Mirrors other.header log.events volatile := by
              rw [alike.identity]
              exact alike.mirrors
            have enough : log.events.length + batch.length ≤ volatile.capacity.toNat := by
              rw [committed.acknowledged, Log.extend_events, List.length_append] at room
              rwa [← next.inputs, List.length_map]
            obtain ⟨admitted, ends⟩ :=
              mirrors.append alike.well alike.timed next consistent.inv.tracks.nextSequence enough
            have reached : volatile.run [.appendBatch (batch.map volatileInput)] =
                volatile.pushAll (batch.map volatileInput) := congrArg Prod.snd ends
            have accepted := next.accepted
            rw [consistent.inv.tracks.nextSequence] at accepted
            have pushed := mirrors.pushAll accepted
            rw [next.inputs] at pushed
            rw [taken, reached]
            refine ⟨_, _, committed, alike.identity, alike.timed.step consistent careful (.commit next), ?_,
              alike.well.pushAll admitted⟩
            rw [Log.extend_events, ← alike.identity]
            exact pushed
          · have nothing : mirrored system (.append batch) = [] := by simp only [mirrored, offered]
            obtain ⟨later, reached, effect, next, -⟩ := consistent.append batch
            have same : later.events = log.events := by
              cases effect with
              | commit first =>
                  have prepared := (prepare_ok consistent.inv.tracks.usable).mpr ⟨_, first, rfl⟩
                  rw [refused] at prepared
                  contradiction
              | keep => rfl
            rw [nothing]
            exact ⟨later, reached, alike.quiet careful effect next same⟩
  | sealFrames => exact ⟨log, store, alike.quiet careful .keep (consistent.seal fun _ _ => trivial) rfl⟩
  | retire holds =>
      obtain ⟨later, reached, effect, next, -⟩ := consistent.retire holds
      have same : later.events = log.events := by
        cases effect with
        | keep => rfl
        | retire split => exact retireLog_events split
      exact ⟨later, reached, alike.quiet careful effect next same⟩
  | reopen limits recovery =>
      obtain ⟨later, reached, effect, next, -⟩ := consistent.reopen limits recovery
      have same : later.events = log.events := by cases effect <;> rfl
      exact ⟨later, reached, alike.quiet careful effect next same⟩

theorem Alike.run {commands : List Storage.Command} (alike : Alike header log store system volatile)
    (careful : system.Follows System.Careful commands)
    (room : (system.run commands).acknowledged.length ≤ volatile.capacity.toNat) :
    ∃ later reached, Alike header later reached (system.run commands) (volatile.run (mirror system commands)) := by
  induction commands generalizing log store system volatile with
  | nil => exact ⟨log, store, alike⟩
  | cons command commands hypothesis =>
      obtain ⟨first, rest⟩ := careful
      obtain ⟨current, handle, -, consistent⟩ := alike.consistent.step (fun _ _ => trivial) command
      have grown := (events_grow consistent commands).length_le
      rw [← consistent.acknowledged] at grown
      obtain ⟨later, reached, next⟩ := alike.step command first (grown.trans room)
      have capacity : (volatile.run (mirrored system command)).capacity = volatile.capacity :=
        (alike.well.run (mirrored system command)).2.identity.2.2
      have split : volatile.run (mirror system (command :: commands)) =
          (volatile.run (mirrored system command)).run (mirror (system.step command) commands) :=
        List.foldl_append
      rw [split]
      exact hypothesis next rest (by rw [capacity]; exact room)

/-- A preparation that refuses known times got as far as their check. -/
theorem prepare_refused {error : StorageError} {refusal : EventError} (usable : store.poisoned = false)
    (refuses : volatileRefusal error = some refusal) (failed : store.prepare batch = .error error) :
    batch ≠ [] ∧ batch.foldlM store.appendRecord ([], store.lastKnown) = .error error := by
  have other : ∀ {stopped : StorageError}, stopped = error → volatileRefusal stopped = none → False := by
    intro stopped same silent
    rw [same, refuses] at silent
    contradiction
  unfold Store.prepare at failed
  rw [Except.refuseIf_bind (by rw [usable]; decide)] at failed
  by_cases empty : batch = []
  · rw [Except.refuseIf_bind_error empty, Except.error.injEq] at failed
    exact (other failed rfl).elim
  · refine ⟨empty, ?_⟩
    rw [Except.refuseIf_bind empty] at failed
    rcases Except.bind_eq_error.mp failed with limit | ⟨_, _, failed⟩
    · exact (other (Except.refuseIf_error.mp limit).2 rfl).elim
    · rcases Except.bind_eq_error.mp failed with exhausted | ⟨_, _, failed⟩
      · exact (other (checkedAdd_error exhausted).symm rfl).elim
      · rcases Except.bind_eq_error.mp failed with refused | ⟨_, _, failed⟩
        · exact refused
        · rcases Except.bind_eq_error.mp failed with encoding | ⟨_, _, failed⟩
          · cases encoded : encodeBatch _ store.limits with
            | ok bytes =>
                rw [encoded] at encoding
                contradiction
            | error broken =>
                rw [encoded] at encoding
                exact (other (Except.error.inj encoding) rfl).elim
          · rcases Except.bind_eq_error.mp failed with exhausted | ⟨_, _, failed⟩
            · exact (other (checkedAdd_error exhausted).symm rfl).elim
            · contradiction

/-- The log refuses known times that the store refuses, in the same words. -/
theorem Alike.refuses {error : StorageError} {refusal : EventError} (alike : Alike header log store system volatile)
    (refuses : volatileRefusal error = some refusal) (refused : store.prepare batch = .error error)
    (room : log.events.length + batch.length ≤ volatile.capacity.toNat) :
    EventLog.appendBatch (batch.map volatileInput) volatile = (.error refusal, volatile) := by
  obtain ⟨nonempty, stopped⟩ := prepare_refused alike.consistent.inv.tracks.usable refuses refused
  have mirrors := alike.mirrors
  have known : EventLog.checkKnownTimes volatile.lastKnown (batch.map volatileInput) = .error refusal := by
    rw [mirrors.lastKnown, ← alike.timed.lastKnown]
    exact checkKnownTimes_refused refuses stopped
  have enough : volatile.events.length + (batch.map volatileInput).length ≤ volatile.capacity.toNat := by
    rw [mirrors.events, List.length_map, List.length_map]
    exact room
  unfold EventLog.appendBatch
  rw [Procedure.refuseIf_bind (by simp [nonempty]), Procedure.bind_of_ok (Procedure.read_apply volatile),
    (EventLog.checkCapacity_ok alike.well.inside).mpr enough, Procedure.lift_bind_ok, known,
    Procedure.lift_bind_error]

theorem run_alike {database : DatabaseId} {source : SourceId} {epoch : SourceEpoch} {limits : Limits}
    {start : System} {commands : List Storage.Command} {capacity : UInt64}
    (created : System.create database source epoch limits = .ok start)
    (careful : start.Follows System.Careful commands)
    (room : (start.run commands).acknowledged.length ≤ capacity.toNat) :
    ∃ log store, Alike ⟨database, source, epoch⟩ log store (start.run commands)
      ((EventLog.new source epoch capacity).run (mirror start commands)) := by
  have fresh : Alike ⟨database, source, epoch⟩ Log.empty (startStore ⟨database, source, epoch⟩ limits 0) start
      (EventLog.new source epoch capacity) :=
    ⟨System.create_consistent (fun _ => True) created, rfl, ⟨trivial, rfl⟩, ⟨rfl, rfl, rfl⟩,
      EventLog.Well.new source epoch capacity⟩
  exact fresh.run careful room

/-- A first input is acknowledged under the first identity. -/
theorem sample_acknowledged :
    ((System.fresh sampleDatabase 1 1 Limits.default).run [.append [bareInput 1 5]]).acknowledged =
      [recordOf ⟨sampleDatabase, 1, 1⟩ 0 (bareInput 1 5)] := by
  have created : System.create sampleDatabase 1 1 Limits.default =
      .ok (System.fresh sampleDatabase 1 1 Limits.default) := System.create_ok.mpr ⟨rfl, rfl⟩
  have next : NextBatch (startStore ⟨sampleDatabase, 1, 1⟩ Limits.default 0) [bareInput 1 5]
      [recordOf ⟨sampleDatabase, 1, 1⟩ 0 (bareInput 1 5)] :=
    NextBatch.bare rfl (fun last absent => nomatch absent) (by decide) (by decide)
  exact ((System.create_settled created).consistent.append_next rfl next).1.acknowledged

/-- A careful run of a store is the run of a log that takes in what the store commits: the log holds the acknowledged
events, and gives the receipts and the refusals of known times that the store gives. -/
theorem store_refines_log {database : DatabaseId} {source : SourceId} {epoch : SourceEpoch} {limits : Limits}
    {start : System} {commands : List Storage.Command} {capacity : UInt64}
    (created : System.create database source epoch limits = .ok start)
    (careful : start.Follows System.Careful commands)
    (room : (start.run commands).acknowledged.length ≤ capacity.toNat) :
    let volatile := (EventLog.new source epoch capacity).run (mirror start commands)
    volatile.events = (start.run commands).acknowledged.map volatileEvent ∧
      ∀ batch, (start.run commands).acknowledged.length + batch.length ≤ capacity.toNat →
        (∀ receipt, (start.run commands).offer batch = some (.ok receipt) →
          (EventLog.appendBatch (batch.map volatileInput) volatile).1 = .ok (volatileReceipt receipt)) ∧
        ∀ error refusal, (start.run commands).offer batch = some (.error error) →
          volatileRefusal error = some refusal →
            EventLog.appendBatch (batch.map volatileInput) volatile = (.error refusal, volatile) := by
  intro volatile
  obtain ⟨log, store, alike⟩ := run_alike created careful room
  have consistent := alike.consistent
  have capacity_kept : volatile.capacity = capacity :=
    ((EventLog.Well.new source epoch capacity).run (mirror start commands)).2.identity.2.2
  refine ⟨by rw [consistent.acknowledged]; exact alike.mirrors.events, fun batch enough => ?_⟩
  rw [consistent.acknowledged, ← capacity_kept] at enough
  have open_handle : ∀ {outcome}, (start.run commands).offer batch = some outcome →
      (start.run commands).handle = some store := by
    intro outcome offered
    apply consistent.present
    intro closed
    rw [System.offer, closed] at offered
    contradiction
  constructor
  · intro receipt offered
    rcases offer_cases consistent (open_handle offered) batch with ⟨fresh, next, given⟩ | ⟨error, -, given⟩
    · rw [offered, Option.some.injEq, Except.ok.injEq] at given
      have mirrors : Mirrors store.header log.events volatile := by
        rw [alike.identity]
        exact alike.mirrors
      rw [given, (mirrors.append alike.well alike.timed next consistent.inv.tracks.nextSequence enough).2]
    · rw [offered] at given
      cases given
  · intro error refusal offered refuses
    exact alike.refuses refuses ((consistent.offer_error (open_handle offered)).mp offered) enough

omit [Crc32fast] in
theorem store_refines_log_sample :
    letI := Crc32fast.ieee
    ((EventLog.new 1 1 8).run
      (mirror (System.fresh sampleDatabase 1 1 Limits.default) [.append [bareInput 1 5]])).events =
        [volatileEvent (recordOf ⟨sampleDatabase, 1, 1⟩ 0 (bareInput 1 5))] := by
  generalize Crc32fast.ieee = checksum
  have acknowledged := sample_acknowledged
  have refines := @store_refines_log checksum sampleDatabase 1 1 Limits.default _ [.append [bareInput 1 5]] 8
    (System.create_ok.mpr ⟨rfl, rfl⟩) ⟨trivial, trivial⟩ (by rw [acknowledged]; decide)
  rw [refines.1, acknowledged]
  rfl

/-- An identity finds an event in the log exactly when the store reads it. -/
theorem get_iff {disk : Disk} (steady : Steady log disk store) (mirrors : Mirrors store.header log.events volatile)
    (id : EventId) (event : Event Content) :
    volatile.get id = .ok event ↔ ∃ stored, store.get disk id = .ok stored ∧ volatileEvent stored = event := by
  have named : ∀ {place : Nat} {stored : StoredEvent}, log.events[place]? = some stored →
      stored.id = ⟨store.header.source, store.header.epoch, UInt64.ofNat place⟩ := by
    intro place stored found
    have identity := steady.valid.numbered place stored found
    rwa [Nat.zero_add] at identity
  have own : ∀ {stored : StoredEvent}, log.events[id.sequence.toNat]? = some stored →
      id.source = store.header.source → id.epoch = store.header.epoch → stored.id = id := by
    intro stored found source epoch
    rw [named found, UInt64.ofNat_toNat, ← source, ← epoch]
  constructor
  · intro got
    unfold EventLog.get at got
    obtain ⟨_, identity, found⟩ := Except.bind_eq_ok.mp got
    rw [Except.refuseIf_ok, mirrors.source, mirrors.epoch, not_or, not_not, not_not] at identity
    rw [mirrors.events, List.getElem?_map] at found
    cases there : log.events[id.sequence.toNat]? with
    | none =>
        rw [there] at found
        contradiction
    | some stored =>
        rw [there] at found
        refine ⟨stored, ?_, Except.ok.inj found⟩
        have read := steady.get there
        rwa [own there identity.1 identity.2] at read
  · rintro ⟨stored, read, rfl⟩
    have known : ¬(id.source ≠ store.header.source ∨ id.epoch ≠ store.header.epoch ∨
        store.nextSequence ≤ id.sequence.toNat) := by
      unfold Store.get at read
      obtain ⟨_, _, read⟩ := Except.bind_eq_ok.mp read
      obtain ⟨_, known, _⟩ := Except.bind_eq_ok.mp read
      exact Except.refuseIf_ok.mp known
    rw [not_or, not_or, not_not, not_not, Nat.not_le, steady.tracks.nextSequence] at known
    obtain ⟨source, epoch, inside⟩ := known
    have there : log.events[id.sequence.toNat]? = some log.events[id.sequence.toNat] :=
      List.getElem?_eq_getElem inside
    have again := steady.get there
    rw [own there source epoch, read, Except.ok.injEq] at again
    unfold EventLog.get
    rw [Except.refuseIf_bind (by simp [mirrors.source, mirrors.epoch, source, epoch]), mirrors.events,
      List.getElem?_map, there, ← again]
    rfl

omit [Crc32fast] in
/-- A cutoff that meets the known clock of the store lies on that of the log. -/
theorem onKnownClock_of_meets {filter : HistoryFilter} {future : WriteEvent → Prop} (timed : Timed log store)
    (mirrors : Mirrors header log.events volatile) (meets : ClockMeets filter store future) :
    EventLog.OnKnownClock filter volatile := by
  intro cutoff first asked found
  have agrees := meets cutoff asked
  rw [mirrors.events, List.head?_map, Option.map_eq_some_iff] at found
  obtain ⟨head, found, rfl⟩ := found
  obtain ⟨rest, split⟩ := List.head?_eq_some_iff.mp found
  have nonempty : log.events ≠ [] := by
    rw [split]
    exact List.cons_ne_nil _ _
  obtain ⟨record, member, last⟩ := knownAfter_mem nonempty none
  rw [timed.lastKnown, last] at agrees
  rw [split, List.mem_cons] at member
  rcases member with rfl | later
  · exact agrees
  · have ordered := timed.accepted.pairwise
    rw [split, List.pairwise_cons] at ordered
    exact agrees.trans (ordered.1 record later).1.symm

/-- After a careful run under fixed limits the store and the log that took in what it committed return the same events,
one by one and page by page, whatever is appended to either between the pages. -/
theorem store_reads_as_log {database : DatabaseId} {source : SourceId} {epoch : SourceEpoch} {limits : Limits}
    {start : System} {commands : List Storage.Command} {capacity : UInt64}
    (created : System.create database source epoch limits = .ok start)
    (careful : start.Follows System.Careful commands) (under : ∀ command ∈ commands, command.Under limits)
    (room : (start.run commands).acknowledged.length ≤ capacity.toNat) :
    let volatile := (EventLog.new source epoch capacity).run (mirror start commands)
    ∃ store, (start.run commands).handle = some store ∧
      (∀ id event, volatile.get id = .ok event ↔
        ∃ stored, store.get (start.run commands).disk id = .ok stored ∧ volatileEvent stored = event) ∧
      ∀ (filter : HistoryFilter) (budget : StorageQueryBudget) (budgets : Nat → QueryBudget)
        (between : Nat → List (List WriteEvent)) (others : Nat → List (EventLog.Command Content)),
        0 < budget.maxResults ∧ 0 < budget.maxScanned ∧ 0 < budget.maxReadBytes →
        (∀ round, 0 < (budgets round).maxResults ∧ 0 < (budgets round).maxScanned) →
        ClockMeets filter store (fun input => ∃ round, ∃ batch ∈ between round, input ∈ batch) →
        AdmitsBlocks budget store.nextSequence (start.run commands).disk store →
          ∃ events, System.follow filter budget between (store.nextSequence + 1) 0 (start.run commands) none =
              some (.ok events) ∧
            EventLog.follow filter budgets others (store.nextSequence + 1) 0 volatile none =
              some (.ok (events.map volatileEvent)) := by
  intro volatile
  obtain ⟨log, handle, alike⟩ := run_alike created careful room
  obtain ⟨other, store, settled⟩ := (System.create_settled created).run under
  obtain rfl : store = handle := alike.consistent.handle store settled.present
  have same : other.events = log.events := by
    rw [← settled.consistent.acknowledged, alike.consistent.acknowledged]
  have mirrors : Mirrors store.header other.events volatile := by
    rw [same, alike.identity]
    exact alike.mirrors
  have whole : store.nextSequence = other.events.length := settled.consistent.inv.tracks.nextSequence
  refine ⟨store, settled.present, get_iff settled.steady mirrors, ?_⟩
  intro filter budget budgets between others positive each meets admits
  have pageable : Pageable ⟨database, source, epoch⟩ limits filter budget _ store.nextSequence other store
      (start.run commands) := ⟨settled, meets, whole.le, admits⟩
  have window : store.window filter none = .ok (0, store.nextSequence) := rfl
  have pages : System.follow filter budget between (store.nextSequence + 1) 0 (start.run commands) none =
      some (.ok (pending filter.keeps other.events store.nextSequence 0)) :=
    pageable.follow positive (fun round batch member input inside => ⟨round, batch, member, inside⟩) window
      (Nat.lt_succ_self _)
  have clock : EventLog.OnKnownClock filter volatile := onKnownClock_of_meets alike.timed alike.mirrors meets
  have snapshot : volatile.window filter none = .ok (volatile.events.length, 0) := rfl
  have collected : EventLog.follow filter budgets others (volatile.events.length + 1) 0 volatile none =
      some (.ok (pending (Event.selectedBy filter) volatile.events volatile.events.length 0)) :=
    alike.well.follow clock each snapshot (Nat.le_refl _) (Nat.lt_succ_self _)
  have chosen : Event.selectedBy filter ∘ volatileEvent = filter.keeps := funext (selectedBy_volatileEvent filter)
  have selected : pending (Event.selectedBy filter) volatile.events volatile.events.length 0 =
      (pending filter.keeps other.events store.nextSequence 0).map volatileEvent := by
    rw [pending_zero, pending_zero, List.take_length, whole, List.take_length, mirrors.events, List.filter_map,
      chosen]
  refine ⟨_, pages, ?_⟩
  rw [← selected, ← collected, whole, mirrors.events, List.length_map]

omit [Crc32fast] in
theorem store_reads_as_log_sample :
    letI := Crc32fast.ieee
    ∃ store, ((System.fresh sampleDatabase 1 1 Limits.default).run [.append [bareInput 1 5]]).handle = some store ∧
      ∃ stored, store.get ((System.fresh sampleDatabase 1 1 Limits.default).run [.append [bareInput 1 5]]).disk
        ⟨1, 1, 0⟩ = .ok stored := by
  generalize Crc32fast.ieee = checksum
  have acknowledged := sample_acknowledged
  have under : ∀ command ∈ [Storage.Command.append [bareInput 1 5]], command.Under Limits.default := by
    intro command member
    rw [List.mem_singleton.mp member]
    trivial
  have room : ((System.fresh sampleDatabase 1 1 Limits.default).run [.append [bareInput 1 5]]).acknowledged.length ≤
      (8 : UInt64).toNat := by
    rw [acknowledged]
    decide
  have created : System.create sampleDatabase 1 1 Limits.default =
      .ok (System.fresh sampleDatabase 1 1 Limits.default) := System.create_ok.mpr ⟨rfl, rfl⟩
  have careful : (System.fresh sampleDatabase 1 1 Limits.default).Follows System.Careful [.append [bareInput 1 5]] :=
    ⟨trivial, trivial⟩
  obtain ⟨store, present, reads, -⟩ := store_reads_as_log created careful under room
  obtain ⟨log, handle, alike⟩ := run_alike created careful room
  have events := alike.mirrors.events
  rw [← alike.consistent.acknowledged, acknowledged] at events
  have got : ((EventLog.new 1 1 8).run (mirror (System.fresh sampleDatabase 1 1 Limits.default)
      [.append [bareInput 1 5]])).get ⟨1, 1, 0⟩ =
        .ok (volatileEvent (recordOf ⟨sampleDatabase, 1, 1⟩ 0 (bareInput 1 5))) := by
    unfold EventLog.get
    rw [Except.refuseIf_bind (by rw [alike.mirrors.source, alike.mirrors.epoch]; decide), events]
    rfl
  obtain ⟨stored, read, -⟩ := (reads _ _).mp got
  exact ⟨store, present, stored, read⟩

end Runs

end Temnion.Events
