import Temnion.Storage.Run
import Temnion.Storage.Reading

/-
This file follows the cursors of the history from page to page while the log grows.
-/

namespace Temnion.Storage

open Format Index LittleEndian Batches Sweep

/-- The known time after a batch is that of one of its records. -/
theorem knownAfter_mem {records : List StoredEvent} (nonempty : records ≠ []) (previous : Option Timestamp) :
    ∃ record ∈ records, knownAfter previous records = some record.times.known := by
  induction records generalizing previous with
  | nil => contradiction
  | cons head records ih =>
      by_cases last : records = []
      · exact ⟨head, List.mem_cons_self, by rw [last]; rfl⟩
      · obtain ⟨record, member, known⟩ := ih last (some head.times.known)
        exact ⟨record, List.mem_cons_of_mem _ member, known⟩

/-- The cutoff lies on the known clock of the handle. While the handle knows none, it lies on that of the inputs
to come. -/
def ClockMeets (filter : HistoryFilter) (store : Store) (future : WriteEvent → Prop) : Prop :=
  ∀ cutoff, filter.knownAsOf = some cutoff →
    match store.lastKnown with
    | some last => cutoff.clock = last.clock
    | none => ∀ input, future input → cutoff.clock = input.times.known.clock

theorem ClockMeets.onKnownClock {filter : HistoryFilter} {store : Store} {future : WriteEvent → Prop}
    (meets : ClockMeets filter store future) : OnKnownClock filter store := by
  intro cutoff last asked known
  have agrees := meets cutoff asked
  rw [known] at agrees
  exact agrees

section Paging

variable [Crc32fast]

def System.appends (system : System) (batches : List (List WriteEvent)) : System :=
  system.run (batches.map Command.append)

/-- Asks for page after page until no cursor is left. The batches of each round are appended after its page.
Nothing is returned when the pages run out before the cursors do. -/
def System.follow (filter : HistoryFilter) (budget : StorageQueryBudget) (between : Nat → List (List WriteEvent)) :
    Nat → Nat → System → Option StorageCursor → Option (Except StorageError (List StoredEvent))
  | 0, _, _, _ => none
  | pages + 1, round, system, cursor =>
      match system.handle with
      | none => none
      | some store =>
          match store.history system.disk filter budget cursor with
          | .error error => some (.error error)
          | .ok page =>
              match page.continuation with
              | none => some (.ok page.events)
              | some next =>
                  (System.follow filter budget between pages (round + 1) (system.appends (between round)) (some next)).map
                    fun rest => rest.map (page.events ++ ·)

section Growth

variable {header : WalHeader} {limits : Limits} {log : Log} {store : Store} {system : System}
  {filter : HistoryFilter} {budget : StorageQueryBudget} {future : WriteEvent → Prop} {stop : Nat}

/-- The cutoff stays comparable when a batch of the expected inputs is committed. -/
theorem ClockMeets.commit {batch : List WriteEvent} {fresh : List StoredEvent} (meets : ClockMeets filter store future)
    (next : NextBatch store batch fresh) (expected : ∀ input ∈ batch, future input) :
    ClockMeets filter (store.pushBatch fresh) future := by
  intro cutoff asked
  have agrees := meets cutoff asked
  obtain ⟨record, member, known⟩ := knownAfter_mem next.nonempty store.lastKnown
  rw [Store.pushBatch_lastKnown, known]
  dsimp only
  cases earlier : store.lastKnown with
  | none =>
      rw [earlier] at agrees
      apply agrees (inputOf record)
      apply expected
      rw [← next.inputs]
      exact List.mem_map_of_mem member
  | some last =>
      rw [earlier] at agrees
      have accepted := next.accepted
      rw [earlier] at accepted
      exact agrees.trans (accepted.clock_eq member).symm

/-- A store whose history may be paged up to a stop. -/
structure Pageable (header : WalHeader) (limits : Limits) (filter : HistoryFilter) (budget : StorageQueryBudget)
    (future : WriteEvent → Prop) (stop : Nat) (log : Log) (store : Store) (system : System) : Prop where
  settled : Settled header limits log store system
  clock : ClockMeets filter store future
  inside : stop ≤ log.events.length
  admits : AdmitsBlocks budget stop system.disk store

theorem Settled.steady (settled : Settled header limits log store system) : Steady log system.disk store := by
  have inv := settled.consistent.inv
  rw [← settled.header, ← settled.limits] at inv
  exact inv

/-- An append lengthens the log behind the stop. -/
theorem Pageable.append {batch : List WriteEvent}
    (pageable : Pageable header limits filter budget future stop log store system)
    (expected : ∀ input ∈ batch, future input) :
    ∃ later reached more, Pageable header limits filter budget future stop later reached (system.step (.append batch)) ∧
      later.events = log.events ++ more := by
  have settled := pageable.settled
  obtain ⟨later, reached, effect, next, wal, disk⟩ := settled.consistent.append batch
  have manifest : (system.step (.append batch)).disk.manifest = system.disk.manifest := by rw [disk]
  have present : (system.step (.append batch)).handle = some reached := by
    apply next.present
    intro closed
    rw [System.step, System.perform_closed, settled.present] at closed
    contradiction
  cases effect with
  | keep =>
      refine ⟨log, store, [], ⟨⟨next, present, settled.header, settled.limits⟩, pageable.clock, pageable.inside, ?_⟩, ?_⟩
      · refine ⟨pageable.admits.frames, fun saved same => ?_⟩
        rw [manifest] at same
        exact pageable.admits.segments saved same
      · rw [List.append_nil]
  | commit first =>
      next fresh =>
      refine ⟨log.extend fresh, store.pushBatch fresh, fresh, ⟨⟨next, present, settled.header, settled.limits⟩,
        pageable.clock.commit first expected, ?_, ?_, fun saved same => ?_⟩, Log.extend_events log fresh⟩
      · rw [Log.extend_events, List.length_append]
        exact pageable.inside.trans (Nat.le_add_right _ _)
      · intro frame member before
        rcases List.mem_append.mp member with member | member
        · exact pageable.admits.frames frame member before
        · rw [List.mem_singleton.mp member] at before
          have behind : stop ≤ store.nextSequence := by
            rw [settled.consistent.inv.tracks.nextSequence]
            exact pageable.inside
          exact absurd before (Nat.not_lt.mpr behind)
      · rw [manifest] at same
        exact pageable.admits.segments saved same

theorem Pageable.appends {batches : List (List WriteEvent)}
    (pageable : Pageable header limits filter budget future stop log store system)
    (expected : ∀ batch ∈ batches, ∀ input ∈ batch, future input) :
    ∃ later reached more, Pageable header limits filter budget future stop later reached (system.appends batches) ∧
      later.events = log.events ++ more := by
  induction batches generalizing log store system with
  | nil => exact ⟨log, store, [], pageable, (List.append_nil _).symm⟩
  | cons batch batches ih =>
      obtain ⟨later, reached, more, next, grown⟩ := pageable.append (expected batch List.mem_cons_self)
      obtain ⟨last, ends, rest, final, whole⟩ := ih next fun other member =>
        expected other (List.mem_cons_of_mem _ member)
      exact ⟨last, ends, more ++ rest, final, by rw [whole, grown, List.append_assoc]⟩

/-- A cursor into the log stays valid while the log grows. -/
theorem Pageable.window {earlier : Store} {next : Nat}
    (pageable : Pageable header limits filter budget future stop log store system)
    (same : earlier.header = store.header) (inside : next ≤ stop) :
    store.window filter (some (earlier.cursorAt filter next stop)) = .ok (next, stop) := by
  have behind : stop ≤ store.nextSequence := by
    rw [pageable.settled.consistent.inv.tracks.nextSequence]
    exact pageable.inside
  unfold Store.window Store.cursorAt
  dsimp only
  rw [same, Except.refuseIf_bind]
  · rfl
  · simp [inside, behind]

/-- Following the cursors from a window collects exactly its pending events. -/
theorem Pageable.follow {next round pages : Nat} {cursor : Option StorageCursor} {between : Nat → List (List WriteEvent)}
    (positive : 0 < budget.maxResults ∧ 0 < budget.maxScanned ∧ 0 < budget.maxReadBytes)
    (expected : ∀ round, ∀ batch ∈ between round, ∀ input ∈ batch, future input)
    (pageable : Pageable header limits filter budget future stop log store system)
    (window : store.window filter cursor = .ok (next, stop)) (enough : stop - next < pages) :
    System.follow filter budget between pages round system cursor =
      some (.ok (pending filter.keeps log.events stop next)) := by
  induction pages generalizing next round cursor log store system with
  | zero => omega
  | succ pages ih =>
      have settled := pageable.settled
      obtain ⟨page, reached, got, account, continuation, forward, onward⟩ := settled.steady.history_page
        pageable.clock.onKnownClock positive window pageable.inside pageable.admits
      rw [System.follow, settled.present]
      dsimp only
      rw [got]
      dsimp only
      rw [continuation]
      by_cases more : reached < stop
      · rw [if_pos more]
        dsimp only
        have progress := onward (forward.trans_lt more)
        obtain ⟨later, after, grown, ready, whole⟩ := pageable.appends (expected round)
        have same : store.header = after.header := settled.header.trans ready.settled.header.symm
        have reopened := ready.window same more.le
        rw [ih ready reopened (by omega)]
        rw [whole, pending_append pageable.inside, ← account]
        rfl
      · rw [if_neg more]
        rw [← account, pending_of_le (Nat.not_lt.mp more), List.append_nil]

end Growth

/-- The handle over these files returns exactly these events, one by one and page by page. -/
structure ReadsBack (disk : Disk) (store : Store) (events : List StoredEvent) : Prop where
  length : store.nextSequence = events.length
  get : ∀ (index : Nat) (event : StoredEvent), events[index]? = some event → store.get disk event.id = .ok event
  history : ∀ (filter : HistoryFilter) (budget : StorageQueryBudget), OnKnownClock filter store →
    0 < budget.maxResults ∧ 0 < budget.maxScanned ∧ 0 < budget.maxReadBytes →
    AdmitsBlocks budget events.length disk store →
    System.follow filter budget (fun _ => []) (events.length + 1) 0 ⟨disk, some store, events⟩ none =
      some (.ok (events.filter filter.keeps))

theorem Steady.readsBack {log : Log} {disk : Disk} {store : Store} (steady : Steady log disk store) :
    ReadsBack disk store log.events where
  length := steady.tracks.nextSequence
  get := fun _ _ found => steady.get found
  history := by
    intro filter budget clock positive admits
    have settled : Settled store.header store.limits log store ⟨disk, some store, log.events⟩ :=
      ⟨⟨steady, fun other same => (Option.some.inj same).symm, rfl⟩, rfl, rfl, rfl⟩
    have meets : ClockMeets filter store fun _ => False := by
      intro cutoff asked
      cases known : store.lastKnown with
      | none => exact fun input impossible => impossible.elim
      | some last => exact clock cutoff last asked known
    have pageable : Pageable store.header store.limits filter budget (fun _ => False) log.events.length log store
        ⟨disk, some store, log.events⟩ := ⟨settled, meets, le_refl _, admits⟩
    have window : store.window filter none = .ok (0, log.events.length) := by
      rw [← steady.tracks.nextSequence]
      rfl
    rw [pageable.follow positive (fun round batch absent => absurd absent List.not_mem_nil) window (by omega), pending_zero,
      List.take_length]

/-- After any run under fixed limits the pages of the history are finitely many and concatenate to the acknowledged
events that the filter keeps, whatever is appended between the pages. -/
theorem history_pages_return_the_log {database : DatabaseId} {source : SourceId} {epoch : SourceEpoch}
    {limits : Limits} {start : System} {commands : List Command} (filter : HistoryFilter)
    (budget : StorageQueryBudget) (between : Nat → List (List WriteEvent))
    (created : System.create database source epoch limits = .ok start)
    (under : ∀ command ∈ commands, command.Under limits)
    (positive : 0 < budget.maxResults ∧ 0 < budget.maxScanned ∧ 0 < budget.maxReadBytes) :
    ∃ store, (start.run commands).handle = some store ∧
      (ClockMeets filter store (fun input => ∃ round, ∃ batch ∈ between round, input ∈ batch) →
        AdmitsBlocks budget store.nextSequence (start.run commands).disk store →
        System.follow filter budget between (store.nextSequence + 1) 0 (start.run commands) none =
          some (.ok (((start.run commands).acknowledged.take store.nextSequence).filter filter.keeps))) := by
  obtain ⟨log, store, settled⟩ := (System.create_settled created).run under
  refine ⟨store, settled.present, fun clock admits => ?_⟩
  have whole : store.nextSequence = log.events.length := settled.consistent.inv.tracks.nextSequence
  have pageable : Pageable ⟨database, source, epoch⟩ limits filter budget _ store.nextSequence log store
      (start.run commands) := ⟨settled, clock, whole.le, admits⟩
  have window : store.window filter none = .ok (0, store.nextSequence) := rfl
  rw [pageable.follow positive (fun round batch member input inside => ⟨round, batch, member, inside⟩) window
    (by omega), pending_zero, settled.consistent.acknowledged]

end Paging

theorem history_pages_return_the_log_sample :
    letI := Crc32fast.ieee
    System.follow ⟨none, none, some ⟨1, 6⟩⟩ ⟨1, 1, 92⟩ (fun _ => [[bareInput 1 9]]) 2 0
      ((System.fresh sampleDatabase 1 1 Limits.default).run [.append [bareInput 1 5]]) none =
        some (.ok [recordOf ⟨sampleDatabase, 1, 1⟩ 0 (bareInput 1 5)]) := by
  generalize Crc32fast.ieee = inst
  let record := recordOf ⟨sampleDatabase, 1, 1⟩ 0 (bareInput 1 5)
  have created : System.create sampleDatabase 1 1 Limits.default =
      .ok (System.fresh sampleDatabase 1 1 Limits.default) := System.create_ok.mpr ⟨rfl, rfl⟩
  have empty := System.create_settled created
  have next : NextBatch (startStore ⟨sampleDatabase, 1, 1⟩ Limits.default 0) [bareInput 1 5] [record] :=
    NextBatch.bare rfl (fun last absent => nomatch absent) (by decide) (by decide)
  obtain ⟨first, present⟩ := empty.consistent.append_next rfl next
  obtain ⟨_, _, _, _, wal, disk⟩ := empty.consistent.append [bareInput 1 5]
  have under : ∀ command ∈ [Command.append [bareInput 1 5]], command.Under Limits.default := by
    intro command member
    rw [List.mem_singleton.mp member]
    trivial
  obtain ⟨store, handle, reads⟩ := history_pages_return_the_log ⟨none, none, some ⟨1, 6⟩⟩ ⟨1, 1, 92⟩
    (fun _ => [[bareInput 1 9]]) created under ⟨by decide, by decide, by decide⟩
  obtain rfl : store = (startStore ⟨sampleDatabase, 1, 1⟩ Limits.default 0).pushBatch [record] :=
    Option.some.inj (handle.symm.trans present)
  have clock : ClockMeets ⟨none, none, some ⟨1, 6⟩⟩
      ((startStore ⟨sampleDatabase, 1, 1⟩ Limits.default 0).pushBatch [record])
      (fun input => ∃ round : Nat, ∃ batch ∈ (fun _ => [[bareInput 1 9]] : Nat → List (List WriteEvent)) round,
        input ∈ batch) := by
    intro cutoff asked
    obtain rfl : ⟨1, 6⟩ = cutoff := Option.some.inj asked
    rfl
  have admits : AdmitsBlocks ⟨1, 1, 92⟩ 1
      ((System.fresh sampleDatabase 1 1 Limits.default).run [.append [bareInput 1 5]]).disk
      ((startStore ⟨sampleDatabase, 1, 1⟩ Limits.default 0).pushBatch [record]) := by
    refine ⟨fun frame member _ => ?_, fun saved same => ?_⟩
    · rw [List.mem_singleton.mp member]
      exact ⟨(batchBytes_bare_length _ _ _ _).le, le_refl _⟩
    · have absent := congrArg Disk.manifest disk
      exact absurd (same.symm.trans absent) (Option.some_ne_none saved)
  have pages := reads clock admits
  have events : ((System.fresh sampleDatabase 1 1 Limits.default).run [.append [bareInput 1 5]]).acknowledged =
      [record] := first.acknowledged
  rw [events] at pages
  exact pages

end Temnion.Storage
