import Temnion.Storage.Run

/-
This file shows when the known times of a log stay in order, and a run that forgets the last one.
-/

namespace Temnion.Storage

open Format Index LittleEndian Batches

/-- The second record does not leave the clock of the first or go back on it. -/
def KnownOrder (first second : StoredEvent) : Prop :=
  first.times.known.clock = second.times.known.clock ∧ first.times.known.ticks ≤ second.times.known.ticks

/-- No record goes back on a known time before it. -/
theorem Accepted.after {header : WalHeader} {sequence : Nat} {last : Timestamp} {records : List StoredEvent}
    (accepted : Accepted header sequence (some last) records) :
    ∀ record ∈ records, last.clock = record.times.known.clock ∧ last.ticks ≤ record.times.known.ticks := by
  induction records generalizing sequence last with
  | nil => exact fun record absent => nomatch absent
  | cons head records ih =>
      have step := accepted.1.follows last rfl
      intro record member
      rcases List.mem_cons.mp member with rfl | member
      · exact step
      · have later := ih accepted.2 record member
        exact ⟨step.1.trans later.1, UInt64.le_trans step.2 later.2⟩

/-- An accepted sequence is in the order of its known times. -/
theorem Accepted.pairwise {header : WalHeader} {sequence : Nat} {previous : Option Timestamp}
    {records : List StoredEvent} (accepted : Accepted header sequence previous records) :
    records.Pairwise KnownOrder := by
  induction records generalizing sequence previous with
  | nil => exact List.Pairwise.nil
  | cons head records ih => exact List.Pairwise.cons accepted.2.after (ih accepted.2)

/-- The refusals of a known time. -/
def StorageError.RefusesKnown : StorageError → Prop
  | .knownClockMismatch _ _ => True
  | .knownTimeRegression _ _ => True
  | _ => False

/-- A command is careful unless it opens a directory whose log file has no frame while the log is not empty. -/
def System.Careful (system : System) : Command → Prop
  | .reopen _ _ => walHeaderLen < system.disk.wal.length ∨ system.acknowledged = []
  | _ => True

section Timed

variable [Crc32fast]

/-- What an append would return. -/
def System.offer (system : System) (batch : List WriteEvent) : Option (Except StorageError DurableReceipt) :=
  system.handle.map fun store => (Store.append batch (system.world store)).1

/-- The known times of the whole log are in order, and the handle knows the last one. -/
structure Timed (log : Log) (store : Store) : Prop where
  accepted : Accepted store.header 0 none log.events
  lastKnown : store.lastKnown = knownAfter none log.events

section Steps

variable {admits : List StoredEvent → Prop} {log later : Log} {store reached : Store} {system : System}
  {command : Command}

/-- A log with a live batch tells the last known time by itself. -/
theorem Inv.knownAfter_live {disk : Disk} (inv : Inv admits log disk store) (live : log.live ≠ []) :
    knownAfter none log.live.flatten = knownAfter none log.events := by
  rw [log.events_eq, knownAfter_append]
  apply knownAfter_of_ne_nil
  obtain ⟨batch, rest, split⟩ := List.exists_cons_of_ne_nil live
  have head := inv.live_nonempty (by rw [split]; exact List.mem_cons_self : batch ∈ log.live)
  simp [split, head]

/-- The log file has a frame exactly when a batch is live. -/
theorem Inv.live_iff {disk : Disk} (inv : Inv admits log disk store) :
    walHeaderLen < disk.wal.length ↔ log.live ≠ [] := by
  rw [inv.stored.walLength, ne_eq, ← logBytes_eq_nil, ← ne_eq, ← List.length_pos_iff_ne_nil]
  omega

/-- Opening a careful directory recovers the last known time. -/
theorem Consistent.opened_lastKnown (consistent : Consistent admits log store system)
    (careful : walHeaderLen < system.disk.wal.length ∨ system.acknowledged = []) (limits : Limits) :
    (opened store.header limits log).lastKnown = knownAfter none log.events := by
  rw [Storage.opened_lastKnown]
  by_cases live : log.live = []
  · have nothing : log.events = [] := by
      rw [← consistent.acknowledged]
      rcases careful with frame | nothing
      · exact absurd live (consistent.inv.live_iff.mp frame)
      · exact nothing
    rw [live, nothing]
    rfl
  · exact consistent.inv.knownAfter_live live

/-- Every careful command keeps the known times in order. -/
theorem Timed.step (timed : Timed log store) (consistent : Consistent admits log store system)
    (careful : system.Careful command) (effect : Effect log store command later reached) : Timed later reached := by
  cases effect with
  | keep => exact timed
  | commit next =>
      have accepted := next.accepted
      rw [consistent.inv.tracks.nextSequence, timed.lastKnown] at accepted
      refine ⟨?_, ?_⟩
      · rw [Log.extend_events, Accepted.append_iff, Nat.zero_add]
        exact ⟨timed.accepted, accepted⟩
      · rw [Log.extend_events, knownAfter_append, ← timed.lastKnown]
        rfl
  | retire split =>
      refine ⟨?_, ?_⟩
      · rw [retireLog_events split]
        exact timed.accepted
      · rw [retireLog_events split]
        exact timed.lastKnown
  | reopen =>
      refine ⟨?_, consistent.opened_lastKnown careful _⟩
      rw [opened_header]
      exact timed.accepted

end Steps

section Offers

/-- A refusal of a known time depends on the identity, the next sequence and the last known time alone. -/
theorem prepare_refusesKnown {store other : Store} {batch : List WriteEvent} {error : StorageError}
    (usable : other.poisoned = store.poisoned) (header : other.header = store.header)
    (next : other.nextSequence = store.nextSequence) (known : other.lastKnown = store.lastKnown)
    (count : batch.length ≤ other.limits.maxRecords) (refuses : error.RefusesKnown)
    (failed : store.prepare batch = .error error) : other.prepare batch = .error error := by
  have same : other.appendRecord = store.appendRecord := by
    funext admitted input
    unfold Store.appendRecord
    rw [header, next]
  unfold Store.prepare at failed ⊢
  rw [usable, next, known, same]
  by_cases poisoned : store.poisoned = true
  · rw [Except.refuseIf_bind_error poisoned] at failed ⊢
    exact failed
  by_cases empty : batch = []
  · rw [Except.refuseIf_bind poisoned, Except.refuseIf_bind_error empty] at failed ⊢
    exact failed
  rw [Except.refuseIf_bind poisoned, Except.refuseIf_bind empty] at failed ⊢
  rw [Except.refuseIf_bind (Nat.not_lt.mpr count)]
  by_cases many : store.limits.maxRecords < batch.length
  · rw [Except.refuseIf_bind_error many] at failed
    cases failed
    exact refuses.elim
  rw [Except.refuseIf_bind many] at failed
  cases sum : (checkedAdd .sequenceExhausted store.nextSequence batch.length : Except StorageError Nat) with
  | error refused =>
      rw [sum] at failed
      exact failed
  | ok bound =>
      rw [sum, Except.ok_bind] at failed
      rw [Except.ok_bind]
      cases fold : batch.foldlM store.appendRecord ([], store.lastKnown) with
      | error refused =>
          rw [fold] at failed
          exact failed
      | ok admitted =>
          obtain ⟨records, after⟩ := admitted
          rw [fold, Except.ok_bind] at failed
          dsimp only at failed
          exfalso
          cases encoded : encodeBatch records store.limits with
          | error broken =>
              rw [encoded] at failed
              cases failed
              exact refuses
          | ok bytes =>
              rw [encoded] at failed
              change ((checkedAdd .sequenceExhausted store.endOffset bytes.length : Except StorageError Nat) >>= _) = _
                at failed
              cases offset : (checkedAdd .sequenceExhausted store.endOffset bytes.length : Except StorageError Nat) with
              | error refused =>
                  rw [offset] at failed
                  cases failed
                  rw [checkedAdd_error offset] at refuses
                  exact refuses
              | ok ends =>
                  rw [offset] at failed
                  contradiction

variable {admits : List StoredEvent → Prop} {log : Log} {store : Store} {system : System}

/-- What the handle offers is decided by its preparation. -/
theorem Consistent.offer_error (consistent : Consistent admits log store system) (present : system.handle = some store)
    {batch : List WriteEvent} {error : StorageError} :
    system.offer batch = some (.error error) ↔ store.prepare batch = .error error := by
  have sound : (system.world store).fault = none := rfl
  have aligned : (system.world store).disk.wal.length = (system.world store).store.endOffset :=
    consistent.inv.walExact
  unfold System.offer
  rw [present, Option.map_some, Option.some.injEq]
  rcases append_eq sound consistent.inv.tracks.usable aligned with ⟨fresh, next, ends⟩ | ⟨refused, failed, ends⟩
  · have prepared : store.prepare batch = .ok (preparedFor store fresh) :=
      (prepare_ok consistent.inv.tracks.usable).mpr ⟨fresh, next, rfl⟩
    rw [ends, prepared]
    constructor
    · exact fun impossible => (nomatch impossible)
    · exact fun impossible => (nomatch impossible)
  · have prepared : store.prepare batch = .error refused := failed
    rw [ends, prepared]
    simp

/-- After a careful opening a known time is refused as before. -/
theorem Timed.reopen_offer (timed : Timed log store) (consistent : Consistent admits log store system)
    {limits : Limits} {recovery : RecoveryMode} (careful : system.Careful (.reopen limits recovery))
    {batch : List WriteEvent} (count : batch.length ≤ limits.maxRecords) {error : StorageError}
    (refuses : error.RefusesKnown) (refused : system.offer batch = some (.error error))
    (present : (system.step (.reopen limits recovery)).handle ≠ none) :
    (system.step (.reopen limits recovery)).offer batch = some (.error error) := by
  obtain ⟨handle, was⟩ : ∃ handle, system.handle = some handle := by
    cases was : system.handle with
    | none =>
        rw [System.offer, was] at refused
        contradiction
    | some handle => exact ⟨handle, rfl⟩
  obtain rfl := consistent.handle handle was
  obtain ⟨later, reached, _, next, only⟩ := consistent.reopen limits recovery
  obtain ⟨other, now⟩ := Option.ne_none_iff_exists'.mp present
  obtain rfl := next.handle other now
  have same := only other now
  rw [next.offer_error now]
  have prepared := (consistent.offer_error was).mp refused
  have last : other.lastKnown = handle.lastKnown := by
    rw [same, consistent.opened_lastKnown careful, timed.lastKnown]
  have numbers : other.nextSequence = handle.nextSequence := by
    rw [next.inv.tracks.nextSequence, consistent.inv.tracks.nextSequence, ← next.acknowledged,
      ← consistent.acknowledged]
    rfl
  have usable : other.poisoned = handle.poisoned := by
    rw [next.inv.tracks.usable, consistent.inv.tracks.usable]
  apply prepare_refusesKnown usable _ numbers last _ refuses prepared
  · rw [same, opened_header]
  · rw [same, opened_limits]
    exact count

end Offers

/-- A handle that knows a time refuses a batch on another clock. -/
theorem prepare_clockMismatch {store : Store} {input : WriteEvent} {last : Timestamp}
    (usable : store.poisoned = false) (room : 0 < store.limits.maxRecords) (next : store.nextSequence + 1 < 2 ^ 64)
    (known : store.lastKnown = some last) (other : last.clock ≠ input.times.known.clock) :
    store.prepare [input] = .error (.knownClockMismatch last.clock input.times.known.clock) := by
  have refused : store.appendRecord ([], some last) input =
      .error (.knownClockMismatch last.clock input.times.known.clock) := by
    unfold Store.appendRecord validateRecord checkKnown
    dsimp only
    rw [Except.refuseIf_bind (by simp), Except.refuseIf_bind_error other]
    rfl
  have sum : (checkedAdd .sequenceExhausted store.nextSequence 1 : Except StorageError Nat) =
      .ok (store.nextSequence + 1) := checkedAdd_ok.mpr ⟨next, rfl⟩
  unfold Store.prepare
  rw [Except.refuseIf_bind (by rw [usable]; decide), Except.refuseIf_bind (List.cons_ne_nil _ _),
    List.length_singleton, Except.refuseIf_bind (Nat.not_lt.mpr room), sum, Except.ok_bind, known,
    List.foldlM_cons, refused]
  rfl

/-- In a run of careful commands the acknowledged events carry the sequences from zero on, one clock and known times
in order, and opening the directory again forgets no refusal. -/
theorem careful_run_keeps_known_times {database : DatabaseId} {source : SourceId} {epoch : SourceEpoch}
    {limits : Limits} {start : System} {commands : List Command}
    (created : System.create database source epoch limits = .ok start)
    (careful : start.Follows System.Careful commands) :
    (∀ (index : Nat) (event : StoredEvent), (start.run commands).acknowledged[index]? = some event →
      event.id.source = source ∧ event.id.epoch = epoch ∧ event.id.sequence.toNat = index) ∧
    (start.run commands).acknowledged.Pairwise KnownOrder ∧
    ∀ limits' recovery batch error, (start.run commands).Careful (.reopen limits' recovery) →
      ((start.run commands).step (.reopen limits' recovery)).handle ≠ none →
      batch.length ≤ limits'.maxRecords → error.RefusesKnown →
      (start.run commands).offer batch = some (.error error) →
      ((start.run commands).step (.reopen limits' recovery)).offer batch = some (.error error) := by
  have consistent := System.create_consistent (fun _ => True) created
  have timed : Timed Log.empty (startStore ⟨database, source, epoch⟩ limits 0) := ⟨trivial, rfl⟩
  obtain ⟨later, reached, ends, header, timed⟩ := consistent.run
    (fun log store => store.header = ⟨database, source, epoch⟩ ∧ Timed log store)
    (fun log store system command later reached kept consistent careful effect =>
      ⟨effect.header.trans kept.1, kept.2.step consistent careful effect⟩)
    (fun _ _ _ _ _ => trivial) ⟨rfl, timed⟩ careful
  refine ⟨?_, ?_, ?_⟩
  · intro index event found
    rw [ends.acknowledged] at found
    have identity := timed.accepted.numbered index event found
    have small := (List.getElem?_eq_some_iff.mp found).1.trans ends.inv.valid.bound
    rw [identity, header, Nat.zero_add]
    exact ⟨rfl, rfl, toNat_ofNat small⟩
  · rw [ends.acknowledged]
    exact timed.accepted.pairwise
  · intro limits' recovery batch error careful present count refuses refused
    exact timed.reopen_offer ends careful count refuses refused present

/-- A directory whose log file was emptied forgets the last known time when it is opened again. -/
theorem forgets_known_times :
    let start := (System.fresh sampleDatabase 1 1 Limits.default).step (.append [bareInput 1 5])
    let before := start.run [.sealFrames, .retire []]
    let after := start.run [.sealFrames, .retire [], .reopen Limits.default .rejectIncompleteTail]
    let reached := after.step (.append [bareInput 2 0])
    before.offer [bareInput 2 0] = some (.error (.knownClockMismatch 1 2)) ∧
      after.handle ≠ none ∧
      reached.acknowledged.map (·.times.known) = [⟨1, 5⟩, ⟨2, 0⟩] ∧
      ¬reached.acknowledged.Pairwise KnownOrder := by
  intro start before after reached
  let record := recordOf ⟨sampleDatabase, 1, 1⟩ 0 (bareInput 1 5)
  have empty := System.create_consistent (fun _ => True)
    (System.create_ok.mpr ⟨rfl, rfl⟩ : System.create sampleDatabase 1 1 Limits.default = .ok _)
  have next : NextBatch (startStore ⟨sampleDatabase, 1, 1⟩ Limits.default 0) [bareInput 1 5] [record] :=
    NextBatch.bare rfl (fun last absent => nomatch absent) (by decide) (by decide)
  obtain ⟨first, present⟩ := empty.append_next rfl next
  have fits : ∀ batch ∈ (Log.empty.extend [record]).live,
      SegmentFits ⟨sampleDatabase, 1, 1⟩ Limits.default batch := by
    intro batch member
    rw [List.mem_singleton.mp member]
    exact bare_fits _ _ _ _
  have count : (Log.mk (Log.empty.extend [record]).batches []).events.length = 1 := rfl
  obtain ⟨emptied, _, limits, known, emptiedConsistent, emptiedPresent⟩ :=
    first.empties present (fun _ _ => trivial) fits
  obtain ⟨opened, _, limits', unknown, openedConsistent, openedPresent⟩ :=
    first.forgets present (fun _ _ => trivial) fits .rejectIncompleteTail
  rw [Store.pushBatch_limits, startStore_limits] at openedConsistent openedPresent limits'
  have another : NextBatch opened [bareInput 2 0] [recordOf opened.header opened.nextSequence (bareInput 2 0)] := by
    apply NextBatch.bare limits'
    · rw [unknown]
      exact fun last absent => nomatch absent
    · rw [openedConsistent.inv.tracks.nextSequence, count]
      decide
    · rw [openedConsistent.inv.tracks.endOffset]
      change walHeaderLen + 0 + 92 < 2 ^ 64
      decide
  have ends := (openedConsistent.append_next openedPresent another).1.acknowledged
  have events : reached.acknowledged = [record, recordOf opened.header opened.nextSequence (bareInput 2 0)] :=
    ends.trans rfl
  refine ⟨?_, ?_, ?_, ?_⟩
  · apply (emptiedConsistent.offer_error emptiedPresent).mpr
    have last : emptied.lastKnown = some ⟨1, 5⟩ := known
    have mismatch : (1 : ClockId) ≠ 2 := by decide
    apply prepare_clockMismatch emptiedConsistent.inv.tracks.usable _ _ last mismatch
    · rw [limits]
      change 0 < Limits.default.maxRecords
      decide
    · rw [emptiedConsistent.inv.tracks.nextSequence, count]
      decide
  · exact fun closed => Option.some_ne_none _ (openedPresent.symm.trans closed)
  · rw [events]
    rfl
  · rw [events]
    intro ordered
    have same : (1 : ClockId) = 2 := (List.rel_of_pairwise_cons ordered (List.mem_singleton_self _)).1
    exact absurd same (by decide)

end Timed

theorem careful_run_keeps_known_times_sample :
    letI := Crc32fast.ieee
    ((System.fresh sampleDatabase 1 1 Limits.default).run
      [.reopen Limits.default .rejectIncompleteTail, .append [bareInput 1 5], .append [bareInput 1 7]]).acknowledged.Pairwise
        KnownOrder := by
  let _ := Crc32fast.ieee
  have careful : (System.fresh sampleDatabase 1 1 Limits.default).Follows System.Careful
      [.reopen Limits.default .rejectIncompleteTail, .append [bareInput 1 5], .append [bareInput 1 7]] :=
    ⟨Or.inr rfl, trivial, trivial, trivial⟩
  exact (careful_run_keeps_known_times (System.create_ok.mpr ⟨rfl, rfl⟩) careful).2.1

theorem reopening_forgets_known_times :
    letI := Crc32fast.ieee
    let start := (System.fresh sampleDatabase 1 1 Limits.default).step (.append [bareInput 1 5])
    let before := start.run [.sealFrames, .retire []]
    let after := start.run [.sealFrames, .retire [], .reopen Limits.default .rejectIncompleteTail]
    let reached := after.step (.append [bareInput 2 0])
    before.offer [bareInput 2 0] = some (.error (.knownClockMismatch 1 2)) ∧
      after.handle ≠ none ∧
      reached.acknowledged.map (·.times.known) = [⟨1, 5⟩, ⟨2, 0⟩] ∧
      ¬reached.acknowledged.Pairwise KnownOrder :=
  @forgets_known_times Crc32fast.ieee

end Temnion.Storage
