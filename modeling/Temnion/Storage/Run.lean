import Temnion.Storage.Append
import Temnion.Storage.Seal
import Temnion.Storage.Retire

/-
This file runs a store through its commands and shows that its log only grows.
-/

namespace Temnion.Storage

open Format Index LittleEndian Batches

/-- One database over its lifetime. The handle is missing after a failed open. -/
structure System where
  disk : Disk
  handle : Option Store
  acknowledged : List StoredEvent

inductive Command where
  | append (batch : List WriteEvent)
  | sealFrames
  | retire (holds : List ReferenceHold)
  | reopen (limits : Limits) (recovery : RecoveryMode)

namespace System

/-- The world of an operation that no fault disturbs. -/
def world (system : System) (store : Store) : World := ⟨system.disk, store, system.acknowledged, none⟩

def perform {A : Type} (system : System) (action : Process A) : System :=
  match system.handle with
  | none => system
  | some store =>
      let reached := (action (system.world store)).2
      ⟨reached.disk, some reached.store, reached.acknowledged⟩

theorem perform_none {A : Type} {system : System} {action : Process A} (closed : system.handle = none) :
    system.perform action = system := by
  unfold perform
  rw [closed]

theorem perform_closed {A : Type} (system : System) (action : Process A) :
    (system.perform action).handle = none ↔ system.handle = none := by
  unfold perform
  cases present : system.handle with
  | none => rw [present]
  | some store => simp

theorem perform_open {A : Type} {system : System} {store : Store} {action : Process A}
    (present : system.handle = some store) :
    system.perform action = ⟨(action (system.world store)).2.disk, some (action (system.world store)).2.store,
      (action (system.world store)).2.acknowledged⟩ := by
  unfold perform
  rw [present]

variable [Crc32fast]

/-- The old handle is dropped before the directory is opened again. -/
def reopen (system : System) (limits : Limits) (recovery : RecoveryMode) : System :=
  let outcome := Store.openStore limits recovery system.disk
  ⟨outcome.2, outcome.1.toOption.map Prod.fst, system.acknowledged⟩

def step (system : System) : Command → System
  | .append batch => system.perform (Store.append batch)
  | .sealFrames => system.perform Store.sealFrames
  | .retire holds => system.perform (Store.retireWal holds)
  | .reopen limits recovery => system.reopen limits recovery

def run (system : System) (commands : List Command) : System := commands.foldl step system

/-- Every command of a run is allowed in the state that it starts from. -/
def Follows (allowed : System → Command → Prop) : System → List Command → Prop
  | _, [] => True
  | system, command :: commands => allowed system command ∧ Follows allowed (system.step command) commands

/-- Without a condition every run is allowed. -/
theorem follows_always (system : System) (commands : List Command) : system.Follows (fun _ _ => True) commands := by
  induction commands generalizing system with
  | nil => trivial
  | cons command commands hypothesis => exact ⟨trivial, hypothesis _⟩

@[simp] theorem run_nil (system : System) : system.run [] = system := rfl

@[simp] theorem run_cons (system : System) (command : Command) (commands : List Command) :
    system.run (command :: commands) = (system.step command).run commands := rfl

theorem run_append (system : System) (first second : List Command) :
    system.run (first ++ second) = (system.run first).run second := List.foldl_append

end System

/-- A new database without any event. -/
def System.create [Crc32fast] (database : DatabaseId) (source : SourceId) (epoch : SourceEpoch) (limits : Limits) :
    Except StorageError System := do
  let (disk, store) ← Storage.create database source epoch limits
  return ⟨disk, some store, []⟩

/-- The log of a new database. -/
def Log.empty : Log := ⟨[], []⟩

theorem Log.Valid.empty (header : WalHeader) : Log.empty.Valid header where
  retired := fun index record absent => by simp [Log.empty] at absent
  live := trivial
  nonempty := fun batch absent => nomatch absent
  bound := by decide

variable [Crc32fast]

/-- The files hold the log of the acknowledged events, and the handle is the one that tracks it. -/
structure Consistent (admits : List StoredEvent → Prop) (log : Log) (store : Store) (system : System) : Prop where
  inv : Inv admits log system.disk store
  handle : ∀ other, system.handle = some other → other = store
  acknowledged : system.acknowledged = log.events

/-- What a command can do: commit a batch that may come next, keep the log and the handle, move the first live
batches out of the log file, or replace the handle by one that was opened from the files. -/
inductive Effect (log : Log) (store : Store) : Command → Log → Store → Prop where
  | commit {batch : List WriteEvent} {fresh : List StoredEvent} (next : NextBatch store batch fresh) :
      Effect log store (.append batch) (log.extend fresh) (store.pushBatch fresh)
  | keep {command : Command} : Effect log store command log store
  | retire {holds : List ReferenceHold} {gone kept : List (List StoredEvent)} (split : log.live = gone ++ kept) :
      Effect log store (.retire holds) (retireLog log gone kept) (cutStore store gone kept)
  | reopen {limits : Limits} {recovery : RecoveryMode} :
      Effect log store (.reopen limits recovery) log (opened store.header limits log)

theorem Effect.header {log later : Log} {store reached : Store} {command : Command}
    (effect : Effect log store command later reached) : reached.header = store.header := by
  cases effect with
  | commit next => rfl
  | keep => rfl
  | retire split => rfl
  | reopen => exact opened_header

/-- A seal under these limits publishes only segments that are admitted. -/
def Admitting (admits : List StoredEvent → Prop) (header : WalHeader) (limits : Limits) : Prop :=
  ∀ batch, SegmentFits header limits batch → admits batch

section Steps

variable {admits : List StoredEvent → Prop} {log : Log} {store : Store} {system : System}

/-- The outcome of an operation on the handle. -/
theorem Consistent.perform {A : Type} {later : Log} {reached : Store} {action : Process A}
    (consistent : Consistent admits log store system)
    (acts : ∀ world, system.world store = world → Inv admits later (action world).2.disk reached ∧
      (action world).2.store = reached ∧ (action world).2.acknowledged = later.events)
    (present : system.handle ≠ none) : Consistent admits later reached (system.perform action) := by
  obtain ⟨other, present⟩ := Option.ne_none_iff_exists'.mp present
  obtain rfl := consistent.handle other present
  obtain ⟨inv, same, acknowledged⟩ := acts _ rfl
  unfold System.perform
  rw [present]
  refine ⟨inv, ?_, acknowledged⟩
  intro handle taken
  rw [← same]
  exact (Option.some.inj taken).symm

/-- Without a fault an append commits its batch or changes nothing, and it never touches the manifest. -/
theorem Consistent.append (consistent : Consistent admits log store system) (batch : List WriteEvent) :
    ∃ later reached, Effect log store (.append batch) later reached ∧
      Consistent admits later reached (system.step (.append batch)) ∧
      ∃ wal, (system.step (.append batch)).disk = { system.disk with wal := wal } := by
  cases present : system.handle with
  | none =>
      have same : system.step (.append batch) = system := by rw [System.step, System.perform_none present]
      exact ⟨log, store, .keep, by rw [same]; exact consistent, system.disk.wal, by rw [same]⟩
  | some other =>
      obtain rfl := consistent.handle other present
      have inv := consistent.inv
      have aligned : (system.world other).disk.wal.length = (system.world other).store.endOffset := inv.walExact
      have sound : (system.world other).fault = none := rfl
      have open' : system.handle ≠ none := by simp [present]
      rw [System.step, System.perform_open present]
      rcases append_eq sound inv.tracks.usable aligned with ⟨fresh, next, ends⟩ | ⟨error, _, ends⟩
      · rw [ends]
        refine ⟨log.extend fresh, other.pushBatch fresh, .commit next, ⟨inv.commit next, ?_, ?_⟩, _, rfl⟩
        · exact fun handle same => (Option.some.inj same).symm
        · rw [Log.extend_events, ← consistent.acknowledged]
          rfl
      · rw [ends]
        exact ⟨log, other, .keep, ⟨inv, fun handle same => (Option.some.inj same).symm, consistent.acknowledged⟩, _, rfl⟩

/-- A seal keeps the log and the handle, whether it succeeds or not. -/
theorem Consistent.seal (consistent : Consistent admits log store system)
    (admitting : Admitting admits store.header store.limits) :
    Consistent admits log store (system.step .sealFrames) := by
  by_cases closed : system.handle = none
  · rw [System.step, System.perform_none closed]
    exact consistent
  · apply consistent.perform _ closed
    intro world same
    subst same
    have inv : Inv admits log (system.world store).disk (system.world store).store := consistent.inv
    have kept : Sealing admits False (system.world store) log (Store.sealFrames (system.world store)).2 := by
      have meets := sealFrames_keeps inv False.elim admitting False.elim (system.world store) rfl
      revert meets
      rcases Store.sealFrames (system.world store) with ⟨outcome, reached⟩
      cases outcome with
      | ok report => exact fun keeps => keeps.1
      | error error => exact fun halted => halted.2
    exact ⟨⟨inv.valid, kept.stored, inv.tracks⟩, kept.store, kept.acknowledged.trans consistent.acknowledged⟩

/-- Without a fault a retirement has nothing to do or cuts the log file. -/
theorem Consistent.retire (consistent : Consistent admits log store system) (holds : List ReferenceHold) :
    ∃ later reached, Effect log store (.retire holds) later reached ∧
      Consistent admits later reached (system.step (.retire holds)) ∧
      (system.handle ≠ none → later = retireLog log
        (log.live.take (store.retirable system.disk.manifest holds).length)
        (log.live.drop (store.retirable system.disk.manifest holds).length)) := by
  by_cases closed : system.handle = none
  · exact ⟨log, store, .keep, by rw [System.step, System.perform_none closed]; exact consistent,
      fun present => absurd closed present⟩
  · have inv : Inv admits log (system.world store).disk (system.world store).store := consistent.inv
    rcases retireWal_cases inv holds with ⟨nothing, meets⟩ | ⟨gone, kept, manifest, retires, split, present, retirable, meets⟩
    · have nothing' : store.retirable system.disk.manifest holds = [] := nothing
      refine ⟨log, store, .keep, consistent.perform ?_ closed, fun _ => ?_⟩
      · intro world same
        subst same
        have ends := meets _ (At.start _)
        revert ends
        rcases Store.retireWal holds (system.world store) with ⟨outcome, reached⟩
        cases outcome with
        | ok report =>
            intro finished
            dsimp only at finished ⊢
            rw [finished.disk, finished.store, finished.acknowledged]
            exact ⟨inv, rfl, consistent.acknowledged⟩
        | error error =>
            intro stopped
            obtain ⟨fault, announced, _⟩ := stopped
            contradiction
      · rw [nothing', List.length_nil, List.take_zero, List.drop_zero, retireLog, List.append_nil]
    · have front : (store.retirable system.disk.manifest holds).length = gone.length := by
        have located : store.retirable system.disk.manifest holds = locate walHeaderLen log.retiredCount gone :=
          retirable
        rw [located, locate_length]
      refine ⟨retireLog log gone kept, cutStore store gone kept, .retire split, consistent.perform ?_ closed,
        fun _ => by rw [front, split, List.take_left, List.drop_left]⟩
      intro world same
      subst same
      have ends := meets _ (At.start _)
      revert ends
      rcases Store.retireWal holds (system.world store) with ⟨outcome, reached⟩
      cases outcome with
      | ok report =>
          intro finished
          dsimp only at finished ⊢
          rw [finished.disk, finished.store, finished.acknowledged, retireLog_events split]
          refine ⟨inv.retire split retires present ?_, rfl, consistent.acknowledged⟩
          exact fun first batch member => inv.registered_of_retirable split present retirable member
      | error error =>
          intro stopped
          obtain ⟨fault, announced, _⟩ := stopped
          contradiction

/-- Opening the directory again takes the whole log in, or leaves no handle. -/
theorem Consistent.reopen (consistent : Consistent admits log store system) (limits : Limits)
    (recovery : RecoveryMode) :
    ∃ later reached, Effect log store (.reopen limits recovery) later reached ∧
      Consistent admits later reached (system.step (.reopen limits recovery)) ∧
      ∀ other, (system.step (.reopen limits recovery)).handle = some other → other = opened store.header limits log := by
  change ∃ later reached, _ ∧ Consistent admits later reached (system.reopen limits recovery) ∧
    ∀ other, (system.reopen limits recovery).handle = some other → _
  unfold System.reopen
  rcases consistent.inv.open_cases limits recovery with ⟨ends, inv⟩ | ⟨error, ends⟩
  · rw [ends]
    refine ⟨log, opened store.header limits log, .reopen, ⟨inv, ?_, consistent.acknowledged⟩, ?_⟩
    · exact fun other same => (Option.some.inj same).symm
    · exact fun other same => (Option.some.inj same).symm
  · rw [ends]
    refine ⟨log, store, .keep, ⟨consistent.inv, ?_, consistent.acknowledged⟩, ?_⟩
    · exact fun other absent => (nomatch absent)
    · exact fun other absent => (nomatch absent)

/-- Every command has one of the listed effects. -/
theorem Consistent.step (consistent : Consistent admits log store system)
    (admitting : Admitting admits store.header store.limits) (command : Command) :
    ∃ later reached, Effect log store command later reached ∧ Consistent admits later reached (system.step command) := by
  cases command with
  | append batch =>
      obtain ⟨later, reached, effect, next, _⟩ := consistent.append batch
      exact ⟨later, reached, effect, next⟩
  | sealFrames => exact ⟨log, store, .keep, consistent.seal admitting⟩
  | retire holds =>
      obtain ⟨later, reached, effect, next, _⟩ := consistent.retire holds
      exact ⟨later, reached, effect, next⟩
  | reopen limits recovery =>
      obtain ⟨later, reached, effect, next, _⟩ := consistent.reopen limits recovery
      exact ⟨later, reached, effect, next⟩

/-- What the effects of the allowed commands preserve holds of the log and the handle that a run ends with. -/
theorem Consistent.run (kept : Log → Store → Prop) {allowed : System → Command → Prop} {commands : List Command}
    (preserves : ∀ log store system command later reached, kept log store → Consistent admits log store system →
      allowed system command → Effect log store command later reached → kept later reached)
    (admitting : ∀ log store, kept log store → Admitting admits store.header store.limits)
    (consistent : Consistent admits log store system) (start : kept log store)
    (follows : system.Follows allowed commands) :
    ∃ later reached, Consistent admits later reached (system.run commands) ∧ kept later reached := by
  induction commands generalizing log store system with
  | nil => exact ⟨log, store, consistent, start⟩
  | cons command commands ih =>
      obtain ⟨permitted, follows⟩ := follows
      obtain ⟨later, reached, effect, next⟩ := consistent.step (admitting log store start) command
      exact ih next (preserves log store system command later reached start consistent permitted effect) follows

end Steps

section Specific

variable {admits : List StoredEvent → Prop} {log : Log} {store : Store} {system : System}

/-- A handle that is present is the one that tracks the log. -/
theorem Consistent.present (consistent : Consistent admits log store system) (open' : system.handle ≠ none) :
    system.handle = some store := by
  obtain ⟨other, same⟩ := Option.ne_none_iff_exists'.mp open'
  rw [same, consistent.handle other same]

/-- An append commits every batch that may come next. -/
theorem Consistent.append_next {batch : List WriteEvent} {fresh : List StoredEvent}
    (consistent : Consistent admits log store system) (present : system.handle = some store)
    (next : NextBatch store batch fresh) :
    Consistent admits (log.extend fresh) (store.pushBatch fresh) (system.step (.append batch)) ∧
      (system.step (.append batch)).handle = some (store.pushBatch fresh) := by
  have inv := consistent.inv
  have prepared := (prepare_ok inv.tracks.usable).mpr ⟨fresh, next, rfl⟩
  have sound : (system.world store).fault = none := rfl
  have aligned : (system.world store).disk.wal.length = (system.world store).store.endOffset := inv.walExact
  have reached : Consistent admits (log.extend fresh) (store.pushBatch fresh) (system.step (.append batch)) := by
    apply consistent.perform _ (by rw [present]; simp)
    intro world same
    subst same
    rcases append_eq sound inv.tracks.usable aligned with ⟨other, next', ends⟩ | ⟨error, failed, _⟩
    · have again := (prepare_ok inv.tracks.usable).mpr ⟨other, next', rfl⟩
      obtain rfl : fresh = other :=
        congrArg Store.Prepared.records (Except.ok.inj (prepared.symm.trans again))
      rw [ends]
      refine ⟨inv.commit next, rfl, ?_⟩
      rw [Log.extend_events, ← consistent.acknowledged]
      rfl
    · have failed' : store.prepare batch = .error error := failed
      rw [prepared] at failed'
      contradiction
  refine ⟨reached, reached.present fun closed => ?_⟩
  rw [System.step, System.perform_closed, present] at closed
  contradiction

/-- A seal of batches that fit a segment registers them all. -/
theorem Consistent.seal_calm (consistent : Consistent admits log store system) (present : system.handle = some store)
    (admitting : Admitting admits store.header store.limits)
    (fits : ∀ batch ∈ log.live, SegmentFits store.header store.limits batch) :
    ∃ manifest, (system.step .sealFrames).disk.manifest = some manifest ∧
      ∀ first batch, (first, batch) ∈ starts 0 log.batches → batchMeta store.header first batch ∈
        manifest.sealedSegments := by
  have inv : Inv admits log (system.world store).disk (system.world store).store := consistent.inv
  have meets := sealFrames_keeps inv (fun _ : True => rfl) admitting (fun _ => fits) (system.world store) rfl
  rw [System.step, System.perform_open present]
  revert meets
  rcases Store.sealFrames (system.world store) with ⟨outcome, reached⟩
  cases outcome with
  | ok report => exact fun keeps => keeps.2
  | error error => exact fun halted => absurd trivial halted.1

/-- A seal and a retirement without holds take every batch out of the log file. -/
theorem Consistent.empties (consistent : Consistent admits log store system) (present : system.handle = some store)
    (admitting : Admitting admits store.header store.limits)
    (fits : ∀ batch ∈ log.live, SegmentFits store.header store.limits batch) :
    ∃ reached, reached.header = store.header ∧ reached.limits = store.limits ∧ reached.lastKnown = store.lastKnown ∧
      Consistent admits ⟨log.batches, []⟩ reached (system.run [.sealFrames, .retire []]) ∧
      (system.run [.sealFrames, .retire []]).handle = some reached := by
  have settled := consistent.seal admitting
  obtain ⟨manifest, saved, entered⟩ := consistent.seal_calm present admitting fits
  have handle : (system.step .sealFrames).handle = some store := by
    apply settled.present
    intro closed
    rw [System.step, System.perform_closed, present] at closed
    contradiction
  have all := settled.inv.retirable_all saved entered
  obtain ⟨later, reached, effect, next, whole⟩ := settled.retire []
  rw [all, settled.inv.tracks.frames, locate_length, List.take_length, List.drop_length] at whole
  have whole := whole (by rw [handle]; simp)
  have kept : reached.header = store.header ∧ reached.limits = store.limits ∧ reached.lastKnown = store.lastKnown := by
    cases effect with
    | keep => exact ⟨rfl, rfl, rfl⟩
    | retire split => exact ⟨rfl, rfl, rfl⟩
  refine ⟨reached, kept.1, kept.2.1, kept.2.2, ?_, ?_⟩
  · rw [whole] at next
    exact next
  · apply next.present
    intro closed
    have before := (System.perform_closed (system.step .sealFrames) (Store.retireWal [])).mp closed
    rw [handle] at before
    contradiction

/-- A directory that is opened again after that knows no earlier time. -/
theorem Consistent.forgets (consistent : Consistent admits log store system) (present : system.handle = some store)
    (admitting : Admitting admits store.header store.limits)
    (fits : ∀ batch ∈ log.live, SegmentFits store.header store.limits batch) (recovery : RecoveryMode) :
    ∃ reached, reached.header = store.header ∧ reached.limits = store.limits ∧ reached.lastKnown = none ∧
      Consistent admits ⟨log.batches, []⟩ reached
        (system.run [.sealFrames, .retire [], .reopen store.limits recovery]) ∧
      (system.run [.sealFrames, .retire [], .reopen store.limits recovery]).handle = some reached := by
  obtain ⟨emptied, header, limits, _, consistent', _⟩ := consistent.empties present admitting fits
  have split : [Command.sealFrames, .retire [], .reopen store.limits recovery] =
      [.sealFrames, .retire []] ++ [.reopen store.limits recovery] := rfl
  rw [split, System.run_append]
  have sound : validateLimits store.limits = .ok () := by
    rw [← limits]
    exact consistent'.inv.tracks.limits
  obtain ⟨ends, inv⟩ := consistent'.inv.reopen recovery sound fun batch absent => (nomatch absent)
  refine ⟨opened emptied.header store.limits ⟨log.batches, []⟩, ?_, opened_limits, opened_lastKnown, ⟨?_, ?_, ?_⟩, ?_⟩
  · rw [opened_header, header]
  all_goals rw [System.run_cons, System.run_nil, System.step, System.reopen, ends]
  · exact inv
  · exact fun other same => (Option.some.inj same).symm
  · exact consistent'.acknowledged
  · rfl

end Specific

/-- The command does not open the directory under other limits. -/
def Command.Under (limits : Limits) : Command → Prop
  | .reopen other _ => other = limits
  | _ => True

/-- The store of a run under fixed limits. It always has a handle. -/
structure Settled (header : WalHeader) (limits : Limits) (log : Log) (store : Store) (system : System) : Prop where
  consistent : Consistent (SegmentFits header limits) log store system
  present : system.handle = some store
  header : store.header = header
  limits : store.limits = limits

section Settled

variable {header : WalHeader} {limits : Limits} {log : Log} {store : Store} {system : System}

theorem Settled.reopen (settled : Settled header limits log store system) (recovery : RecoveryMode) :
    Settled header limits log (opened store.header limits log) (system.step (.reopen limits recovery)) := by
  have inv := settled.consistent.inv
  have sound : validateLimits limits = .ok () := by
    rw [← settled.limits]
    exact inv.tracks.limits
  have fits : ∀ batch ∈ log.live, BatchFits limits batch := by
    rw [← settled.limits]
    exact inv.tracks.fits
  obtain ⟨ends, inv⟩ := inv.reopen recovery sound fits
  have reached : system.step (.reopen limits recovery) =
      ⟨system.disk, some (opened store.header limits log), system.acknowledged⟩ := by
    rw [System.step, System.reopen, ends]
    rfl
  rw [reached]
  exact ⟨⟨inv, fun other same => (Option.some.inj same).symm, settled.consistent.acknowledged⟩, rfl,
    opened_header.trans settled.header, opened_limits⟩

/-- Every command under the same limits has one of the listed effects and keeps a handle. -/
theorem Settled.step (settled : Settled header limits log store system) (command : Command)
    (under : command.Under limits) :
    ∃ later reached, Effect log store command later reached ∧ Settled header limits later reached (system.step command) := by
  have admitting : Admitting (SegmentFits header limits) store.header store.limits := by
    rw [settled.header, settled.limits]
    exact fun batch fits => fits
  have kept : ∀ {A : Type} (action : Process A), (system.perform action).handle ≠ none := by
    intro A action closed
    rw [System.perform_closed, settled.present] at closed
    contradiction
  cases command with
  | reopen other recovery =>
      obtain rfl : other = limits := under
      exact ⟨log, _, .reopen, settled.reopen recovery⟩
  | append batch =>
      obtain ⟨later, reached, effect, next, _⟩ := settled.consistent.append batch
      refine ⟨later, reached, effect, next, next.present (kept _), effect.header.trans settled.header, ?_⟩
      cases effect <;> exact settled.limits
  | sealFrames =>
      have next := settled.consistent.seal admitting
      exact ⟨log, store, .keep, next, next.present (kept _), settled.header, settled.limits⟩
  | retire holds =>
      obtain ⟨later, reached, effect, next, _⟩ := settled.consistent.retire holds
      refine ⟨later, reached, effect, next, next.present (kept _), effect.header.trans settled.header, ?_⟩
      cases effect <;> exact settled.limits

theorem Settled.run {commands : List Command} (settled : Settled header limits log store system)
    (under : ∀ command ∈ commands, command.Under limits) :
    ∃ later reached, Settled header limits later reached (system.run commands) := by
  induction commands generalizing log store system with
  | nil => exact ⟨log, store, settled⟩
  | cons command commands ih =>
      obtain ⟨later, reached, _, next⟩ := settled.step command (under command List.mem_cons_self)
      exact ih next fun other member => under other (List.mem_cons_of_mem _ member)

theorem Settled.append_next {batch : List WriteEvent} {fresh : List StoredEvent}
    (settled : Settled header limits log store system) (next : NextBatch store batch fresh) :
    Settled header limits (log.extend fresh) (store.pushBatch fresh) (system.step (.append batch)) := by
  obtain ⟨consistent, present⟩ := settled.consistent.append_next settled.present next
  exact ⟨consistent, present, settled.header, settled.limits⟩

/-- After a seal of batches that fit a segment nothing but a hold keeps a frame in the log file. -/
theorem Settled.seal_retirable (settled : Settled header limits log store system)
    (fits : ∀ batch ∈ log.live, SegmentFits header limits batch) :
    Settled header limits log store (system.step .sealFrames) ∧
      store.retirable (system.step .sealFrames).disk.manifest [] = store.frames := by
  have admitting : Admitting (SegmentFits header limits) store.header store.limits := by
    rw [settled.header, settled.limits]
    exact fun batch fits => fits
  have calm : ∀ batch ∈ log.live, SegmentFits store.header store.limits batch := by
    rw [settled.header, settled.limits]
    exact fits
  have next := settled.consistent.seal admitting
  obtain ⟨manifest, saved, entered⟩ := settled.consistent.seal_calm settled.present admitting calm
  refine ⟨⟨next, next.present ?_, settled.header, settled.limits⟩, next.inv.retirable_all saved entered⟩
  intro closed
  rw [System.step, System.perform_closed, settled.present] at closed
  contradiction

end Settled

section Create

variable {database : DatabaseId} {source : SourceId} {epoch : SourceEpoch} {limits : Limits}

/-- Creating a database gives a handle that knows no event. -/
theorem create_ok {disk : Disk} {store : Store} : create database source epoch limits = .ok (disk, store) ↔
    validateLimits limits = .ok () ∧ store = startStore ⟨database, source, epoch⟩ limits 0 ∧
      disk = ⟨encodeWalHeader ⟨database, source, epoch⟩, [], none, []⟩ := by
  have start : startStore ⟨database, source, epoch⟩ limits 0 = {
      header := ⟨database, source, epoch⟩, limits, frames := [], summaries := [], nextSequence := 0
      endOffset := (encodeWalHeader ⟨database, source, epoch⟩).length, lastKnown := none, poisoned := false } := by
    rw [encodeWalHeader_length]
    rfl
  unfold create
  simp only [Except.bind_eq_ok, pure, Except.pure, Except.ok.injEq, Prod.mk.injEq, start]
  constructor
  · intro created
    obtain ⟨done, sound, rfl, rfl⟩ := created
    exact ⟨sound, rfl, rfl⟩
  · intro holds
    obtain ⟨sound, rfl, rfl⟩ := holds
    exact ⟨(), sound, rfl, rfl⟩

theorem create_inv (admits : List StoredEvent → Prop) {disk : Disk} {store : Store}
    (created : create database source epoch limits = .ok (disk, store)) : Inv admits Log.empty disk store := by
  obtain ⟨sound, rfl, rfl⟩ := create_ok.mp created
  have header : (encodeWalHeader ⟨database, source, epoch⟩).length = walHeaderLen := encodeWalHeader_length _
  refine ⟨Log.Valid.empty _, ?_, opened_tracks (Log.Valid.empty _) sound fun batch absent => (nomatch absent)⟩
  exact {
    wal := (List.append_nil _).symm
    walBound := by
      change (encodeWalHeader _).length < 2 ^ 64
      rw [header]
      decide
    mark := rfl
    published := fun first last file _ _ absent => (nomatch absent)
    registered := fun manifest absent => (nomatch absent)
    retired := fun first batch absent => (nomatch absent) }

/-- The state of a new database. -/
def System.fresh (database : DatabaseId) (source : SourceId) (epoch : SourceEpoch) (limits : Limits) : System where
  disk := ⟨encodeWalHeader ⟨database, source, epoch⟩, [], none, []⟩
  handle := some (startStore ⟨database, source, epoch⟩ limits 0)
  acknowledged := []

theorem System.create_ok {system : System} : System.create database source epoch limits = .ok system ↔
    validateLimits limits = .ok () ∧ system = System.fresh database source epoch limits := by
  unfold System.create
  simp only [Except.bind_eq_ok, pure, Except.pure, Except.ok.injEq, Prod.exists]
  constructor
  · intro created
    obtain ⟨disk, store, created, rfl⟩ := created
    obtain ⟨sound, rfl, rfl⟩ := Storage.create_ok.mp created
    exact ⟨sound, rfl⟩
  · intro holds
    obtain ⟨sound, rfl⟩ := holds
    refine ⟨_, _, Storage.create_ok.mpr ⟨sound, rfl, rfl⟩, rfl⟩

/-- A new database is consistent with the empty log. -/
theorem System.create_consistent (admits : List StoredEvent → Prop) {system : System}
    (created : System.create database source epoch limits = .ok system) :
    Consistent admits Log.empty (startStore ⟨database, source, epoch⟩ limits 0) system := by
  obtain ⟨sound, rfl⟩ := System.create_ok.mp created
  exact ⟨create_inv admits (Storage.create_ok.mpr ⟨sound, rfl, rfl⟩), fun other same => (Option.some.inj same).symm, rfl⟩

theorem System.create_settled {system : System} (created : System.create database source epoch limits = .ok system) :
    Settled ⟨database, source, epoch⟩ limits Log.empty (startStore ⟨database, source, epoch⟩ limits 0) system := by
  have consistent := System.create_consistent (SegmentFits ⟨database, source, epoch⟩ limits) created
  obtain ⟨_, rfl⟩ := System.create_ok.mp created
  exact ⟨consistent, rfl, rfl, rfl⟩

end Create

section Bare

/-- An event with nothing but its times. -/
def bareInput (clock : ClockId) (ticks : UInt64) : WriteEvent :=
  ⟨⟨0, 0, 0⟩, ⟨⟨clock, ticks⟩, none, ⟨clock, ticks⟩⟩, 0, [], []⟩

/-- The record that an input becomes at a sequence. -/
def recordOf (header : WalHeader) (sequence : Nat) (input : WriteEvent) : StoredEvent :=
  ⟨⟨header.source, header.epoch, UInt64.ofNat sequence⟩, input.entity, input.times, input.schema, input.payload,
    input.causes⟩

/-- The database of the examples. -/
def sampleDatabase : DatabaseId := ⟨List.replicate 16 0, rfl⟩

theorem batchBytes_bare_length (header : WalHeader) (sequence : Nat) (clock : ClockId) (ticks : UInt64) :
    (batchBytes [recordOf header sequence (bareInput clock ticks)]).length = 92 := by
  rw [batchBytes_length, bodyBytes_cons, bodyBytes_nil, List.append_nil, recordBytes_length]
  rfl

theorem bare_fits (header : WalHeader) (sequence : Nat) (clock : ClockId) (ticks : UInt64) :
    SegmentFits header Limits.default [recordOf header sequence (bareInput clock ticks)] where
  identity := by
    intro record member
    rw [List.mem_singleton.mp member]
    exact ⟨rfl, rfl⟩
  batch := {
    count := Nat.le_of_ble_eq_true rfl
    each := by
      intro record member
      rw [List.mem_singleton.mp member]
      exact ⟨Nat.zero_le _, Nat.two_pow_pos _, Nat.zero_le _, Nat.two_pow_pos _⟩
    length := by
      rw [batchBytes_bare_length]
      decide
    lengthWord := by
      rw [batchBytes_bare_length]
      decide }
  room := by
    rw [batchBytes_bare_length]
    decide

/-- A bare event on the known clock may always come next. -/
theorem NextBatch.bare {store : Store} {clock : ClockId} {ticks : UInt64} (limits : store.limits = Limits.default)
    (known : ∀ last, store.lastKnown = some last → last.clock = clock ∧ last.ticks ≤ ticks)
    (sequence : store.nextSequence + 1 < 2 ^ 64) (offset : store.endOffset + 92 < 2 ^ 64) :
    NextBatch store [bareInput clock ticks] [recordOf store.header store.nextSequence (bareInput clock ticks)] where
  inputs := rfl
  nonempty := List.cons_ne_nil _ _
  accepted := ⟨⟨rfl, known, fun cause absent => (nomatch absent)⟩, trivial⟩
  fits := by
    rw [limits]
    exact (bare_fits _ _ _ _).batch
  bound := sequence
  offset := by
    rw [batchBytes_bare_length]
    exact offset

/-- A database with one bare event whose frame is sealed. -/
theorem sealed_sample (clock : ClockId) (ticks : UInt64) :
    let record := recordOf ⟨sampleDatabase, 1, 1⟩ 0 (bareInput clock ticks)
    let store := (startStore ⟨sampleDatabase, 1, 1⟩ Limits.default 0).pushBatch [record]
    let system := (System.fresh sampleDatabase 1 1 Limits.default).run [.append [bareInput clock ticks], .sealFrames]
    Settled ⟨sampleDatabase, 1, 1⟩ Limits.default ⟨[], [[record]]⟩ store system ∧
      store.retirable system.disk.manifest [] = store.frames := by
  have created : System.create sampleDatabase 1 1 Limits.default =
      .ok (System.fresh sampleDatabase 1 1 Limits.default) := System.create_ok.mpr ⟨rfl, rfl⟩
  have next : NextBatch (startStore ⟨sampleDatabase, 1, 1⟩ Limits.default 0) [bareInput clock ticks]
      [recordOf ⟨sampleDatabase, 1, 1⟩ 0 (bareInput clock ticks)] :=
    NextBatch.bare rfl (fun last absent => nomatch absent) (by decide) (by decide)
  apply ((System.create_settled created).append_next next).seal_retirable
  intro batch member
  rw [List.mem_singleton.mp member]
  exact bare_fits _ _ _ _

end Bare

end Temnion.Storage
