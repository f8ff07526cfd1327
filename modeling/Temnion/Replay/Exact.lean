import Temnion.Replay.Engine
import Temnion.Storage.Reach

/-
This file shows when a reconstruction is the fold of its reducer over the events up to the target.
-/

namespace Temnion.Replay

open Format LittleEndian Storage Batches

/-- The events stand at consecutive sequences. -/
def Follow (first : Nat) (events : List StoredEvent) : Prop :=
  ∀ (index : Nat) (event : StoredEvent), events[index]? = some event → event.id.sequence.toNat = first + index

theorem Follow.tail {first : Nat} {event : StoredEvent} {events : List StoredEvent}
    (follow : Follow first (event :: events)) : Follow (first + 1) events := by
  intro index other found
  rw [follow (index + 1) other found]
  omega

/-- The sequence of the last header after the events. -/
def lastSequence (start : UInt64) (events : List StoredEvent) : UInt64 :=
  (events.getLast?.map fun event => event.id.sequence).getD start

theorem lastSequence_cons (start : UInt64) (event : StoredEvent) (events : List StoredEvent) :
    lastSequence start (event :: events) = lastSequence event.id.sequence events := by
  cases events with
  | nil => rfl
  | cons other events => rw [lastSequence, List.getLast?_cons_cons]; rfl

/-- The loop over consecutive events that end with the target is the fold of the transition. -/
theorem replayEvents_pure {S : Type} {step : S → StoredEvent → Except ReplayError S} {target : UInt64}
    {events : List StoredEvent} {progress : Progress S} (follow : Follow progress.next.toNat events)
    (within : progress.next.toNat + events.length ≤ target.toNat + 1) (small : target.toNat + 1 < 2 ^ 64) :
    ((replayEvents (.pure step) target events progress).1.map fun reached => (reached.state, reached.header.sequence)) =
      (events.foldlM step progress.state).map fun state => (state, lastSequence progress.header.sequence events) := by
  induction events generalizing progress with
  | nil => rfl
  | cons event events hypothesis =>
      have number : event.id.sequence.toNat = progress.next.toNat := follow 0 event rfl
      rw [List.length_cons] at within
      have before : ¬ target < event.id.sequence := by
        rw [UInt64.lt_iff_toNat_lt, number]
        omega
      have same : event.id.sequence = progress.next := UInt64.toNat_inj.mp number
      have more : (progress.next + 1).toNat = progress.next.toNat + 1 := by
        rw [UInt64.toNat_add, UInt64.toNat_one]
        omega
      rw [replayEvents, if_neg before, if_neg (not_not.mpr same), List.foldlM_cons]
      cases stepped : step progress.state event with
      | error error => simp [StateReducer.pure, stepped, bind, Except.bind, Except.map]
      | ok state =>
          simp only [StateReducer.pure, stepped, Except.ok_bind]
          rw [lastSequence_cons]
          apply hypothesis
          · rw [more]
            exact follow.tail
          · rw [more]
            omega

section

variable [Crc32fast]

/-- Every file of the directory was published under the sequence of its header. -/
def Published (checkpoints : CheckpointStore) : Prop :=
  ∀ sequence bytes, checkpoints.files.lookup sequence = some bytes →
    ∃ checkpoint, decodeCheckpoint bytes = .ok checkpoint ∧ checkpoint.header.sequence = sequence

/-- Every checkpoint holds the state after the events up to its sequence. -/
def Faithful {S : Type} [Inhabited S] (events : List StoredEvent) (checkpoints : CheckpointStore)
    (step : S → StoredEvent → Except ReplayError S) (decodeState : List UInt8 → Except ReplayError S) : Prop :=
  ∀ sequence bytes checkpoint, checkpoints.files.lookup sequence = some bytes →
    decodeCheckpoint bytes = .ok checkpoint →
    ∃ state, decodeState checkpoint.statePayload = .ok state ∧
      (events.take (sequence.toNat + 1)).foldlM step default = .ok state

/-- The first sequence that is read from the log. -/
def resume (checkpoints : CheckpointStore) (target : UInt64) : Nat :=
  ((checkpoints.highest target).map (·.toNat + 1)).getD 0

/-- Whatever a reconstruction returns is the state after the events up to the target, for every transition and
every decoder that agrees with the checkpoints. -/
def ExactAt (engine : ReplayEngine) (events : List StoredEvent) (target : UInt64) : Prop :=
  ∀ (S : Type) [Inhabited S] (step : S → StoredEvent → Except ReplayError S)
    (decodeState : List UInt8 → Except ReplayError S), Faithful events engine.checkpoints step decodeState →
    ∀ state header, (engine.reconstructAtSequence target (.pure step) decodeState).1 = .ok (state, header) →
      (events.take (target.toNat + 1)).foldlM step default = .ok state ∧ header.sequence = target

/-- The blocks from the resumption to the target fit one page, as far as they can be read. -/
def FitsOnePage (log : Log) (header : WalHeader) (checkpoints : CheckpointStore) (target : UInt64) : Prop :=
  resume checkpoints target ≤ target.toNat →
    OnePage header Limits.default (64 * 1024 * 1024) 65536
      (log.blocksBetween (resume checkpoints target) target.toNat)

/-- The reconstruction starts after the checkpoint that it found, with the state of that checkpoint. -/
theorem locate_ok {S : Type} [Inhabited S] {engine : ReplayEngine} {store : Store} {events : List StoredEvent}
    {target : UInt64} {step : S → StoredEvent → Except ReplayError S}
    {decodeState : List UInt8 → Except ReplayError S} (published : Published engine.checkpoints)
    (faithful : Faithful events engine.checkpoints step decodeState) (small : target.toNat + 1 < 2 ^ 64) :
    ∃ start : Progress S, engine.locate store target decodeState = .ok start ∧
      start.next.toNat = resume engine.checkpoints target ∧ start.next.toNat ≤ target.toNat + 1 ∧
      (events.take start.next.toNat).foldlM step default = .ok start.state ∧
      (start.header.sequence.toNat = start.next.toNat - 1) := by
  unfold ReplayEngine.locate CheckpointStore.findLatest resume
  cases chosen : engine.checkpoints.highest target with
  | none => exact ⟨_, rfl, rfl, Nat.zero_le _, rfl, rfl⟩
  | some sequence =>
      obtain ⟨bound, bytes, file⟩ := CheckpointStore.highest_eq_some chosen
      obtain ⟨checkpoint, decoded, named⟩ := published sequence bytes file
      obtain ⟨state, restored, folded⟩ := faithful sequence bytes checkpoint file decoded
      rw [UInt64.le_iff_toNat_le] at bound
      have next : (checkpoint.header.sequence + 1).toNat = sequence.toNat + 1 := by
        rw [named, UInt64.toNat_add, UInt64.toNat_one]
        omega
      have loaded : engine.checkpoints.load sequence = .ok checkpoint := by
        rw [CheckpointStore.load, file]
        exact decoded
      refine ⟨⟨state, checkpoint.header.sequence + 1, checkpoint.header, .restore checkpoint.header.rng⟩, ?_, next,
        ?_, ?_, ?_⟩
      · dsimp only
        rw [loaded]
        change (decodeState checkpoint.statePayload >>= fun state => _) = _
        rw [restored]
        rfl
      · rw [next]
        omega
      · rw [next]
        exact folded
      · rw [next, named, Nat.add_sub_cancel]

/-- The replay can open the directory. -/
def Openable (disk : Disk) : Prop :=
  ∃ opened, (Store.openStore Limits.default .rejectIncompleteTail disk).1 = .ok opened

omit [Crc32fast] in
/-- Every part of a log stands at its sequences. -/
theorem follow_part {header : WalHeader} {events : List StoredEvent} (numbered : Numbered header 0 events)
    (bound : events.length < 2 ^ 64) (first last : Nat) : Follow first ((events.take last).drop first) := by
  intro index event found
  rw [List.getElem?_drop] at found
  have inside : events[first + index]? = some event := by
    rw [List.getElem?_take] at found
    split at found
    · exact found
    · contradiction
  have small := (List.getElem?_eq_some_iff.mp inside).1.trans bound
  have identity := numbered _ event inside
  rw [Nat.zero_add] at identity
  rw [identity]
  exact toNat_ofNat small

omit [Crc32fast] in
/-- The last header after a part of the log that is not empty. -/
theorem lastSequence_part {header : WalHeader} {events : List StoredEvent} {first last : Nat} {start : UInt64}
    (numbered : Numbered header 0 events) (bound : events.length < 2 ^ 64) (some' : first < last)
    (inside : last ≤ events.length) :
    (lastSequence start ((events.take last).drop first)).toNat = last - 1 := by
  have size : ((events.take last).drop first).length = last - first := by
    rw [List.length_drop, List.length_take, Nat.min_eq_left inside]
  obtain ⟨event, ends⟩ : ∃ event, ((events.take last).drop first)[last - first - 1]? = some event :=
    ⟨_, List.getElem?_eq_getElem (by omega)⟩
  have final : ((events.take last).drop first).getLast? = some event := by
    rw [List.getLast?_eq_getElem?, size, ends]
  rw [lastSequence, final, Option.map_some, Option.getD_some, follow_part numbered bound first last _ _ ends]
  omega

section Directory

variable {log : Log} {disk : Disk} {store : Store} {checkpoints : CheckpointStore} {rng : DeterministicRng}
  {target : UInt64}

/-- A reconstruction over a directory that opens reads the page behind the closest checkpoint. -/
theorem reconstruct_opened {S : Type} [Inhabited S] (engine : ReplayEngine) {report : RecoveryReport}
    {step : S → StoredEvent → Except ReplayError S} {decodeState : List UInt8 → Except ReplayError S}
    {start : Progress S}
    (opens : (Store.openStore Limits.default .rejectIncompleteTail engine.storeDir).1 = .ok (store, report))
    (inside : target.toNat < store.nextSequence) (located : engine.locate store target decodeState = .ok start) :
    (engine.reconstructAtSequence target (.pure step) decodeState).1 =
      if start.next ≤ target then
        replayPage store engine.storeDir target start.next >>= fun events =>
          (replayEvents (.pure step) target events start).1.map fun progress => (progress.state, progress.header)
      else .ok (start.state, start.header) := by
  unfold ReplayEngine.reconstructAtSequence
  rw [opens, asReplay_ok]
  dsimp only
  rw [if_neg (Nat.not_le.mpr inside), located]
  dsimp only
  split
  · cases replayPage store engine.storeDir target start.next with
    | error error => rfl
    | ok events => rfl
  · rfl

/-- The page of a reconstruction is the history from a cursor at its first sequence. -/
theorem replayPage_eq {next : UInt64} (usable : store.poisoned = false) (inside : next.toNat ≤ store.nextSequence) :
    replayPage store disk target next =
      asReplay ((store.history disk .default (replayBudget target next)
        (some (store.cursorAt .default next.toNat store.nextSequence))).map StoragePage.events) := by
  unfold replayPage Store.cursorFromSequence
  rw [Except.refuseIf_bind (by rw [usable]; decide), Except.refuseIf_bind (by omega)]
  change (asReplay (store.history disk .default (replayBudget target next) (some _)) >>= _) = _
  cases store.history disk .default (replayBudget target next)
      (some (store.cursorAt .default next.toNat store.nextSequence)) with
  | error error => rfl
  | ok page => rfl

/-- What the one page brings, when the resumption is not behind the target. -/
theorem replayPage_reaches {next : UInt64} (inv : Inv (SealedOnce store.header) log disk store)
    (limits : store.limits = Limits.default) (upto : next.toNat ≤ target.toNat)
    (inside : target.toNat < log.events.length) :
    let outcome := replayPage store disk target next
    let fits := OnePage store.header Limits.default (64 * 1024 * 1024) 65536 (log.blocksBetween next.toNat target.toNat)
    (fits → (∃ error, outcome = .error error) ∨
        outcome = .ok ((log.events.take (target.toNat + 1)).drop next.toNat)) ∧
      (¬ fits → ∃ last, next.toNat < last ∧ last ≤ target.toNat ∧
        outcome = .ok ((log.events.take last).drop next.toNat)) ∧
      (fits → ((∃ events, outcome = .ok events) ↔ ∀ block ∈ log.blocksBetween next.toNat target.toNat,
        block.Readable store.header Limits.default)) := by
  intro outcome fits
  have length := inv.tracks.nextSequence
  have asked : outcome = asReplay ((store.history disk .default (replayBudget target next)
      (some (store.cursorAt .default next.toNat store.nextSequence))).map StoragePage.events) :=
    replayPage_eq inv.tracks.usable (by omega)
  obtain ⟨whole, part, success⟩ := inv.history_reaches upto inside
    (by decide : 0 < 65536 ∧ 0 < 64 * 1024 * 1024) (by rw [limits]; decide) (by rw [limits]; decide)
    (by rw [limits]; decide)
  rw [limits] at whole part success
  rw [asked]
  refine ⟨?_, ?_, ?_⟩
  · intro page
    rcases whole page with ⟨error, failed⟩ | ⟨page, found, events⟩
    · refine Or.inl ⟨.storage error, ?_⟩
      change asReplay (Except.map _ (store.history disk .default ⟨_, _, _⟩ _)) = _
      rw [failed]
      rfl
    · refine Or.inr ?_
      change asReplay (Except.map _ (store.history disk .default ⟨_, _, _⟩ _)) = _
      rw [found, ← events]
      rfl
  · intro long
    obtain ⟨page, last, found, forward, before, events⟩ := part long
    refine ⟨last, forward, before, ?_⟩
    change asReplay (Except.map _ (store.history disk .default ⟨_, _, _⟩ _)) = _
    rw [found, ← events]
    rfl
  · intro page
    rw [← success page]
    change (∃ events, asReplay (Except.map _ (store.history disk .default ⟨_, _, _⟩ _)) = _) ↔ _
    cases store.history disk .default ⟨target.toNat - next.toNat + 1, 65536, 64 * 1024 * 1024⟩
        (some (store.cursorAt .default next.toNat store.nextSequence)) with
    | error error => exact iff_of_false (fun found => nomatch found.choose_spec) fun found => nomatch found.choose_spec
    | ok page => exact iff_of_true ⟨_, rfl⟩ ⟨page, rfl⟩

/-- A reconstruction that gets a part of the log folds it onto the state that it starts from. -/
theorem reconstruct_part {S : Type} [Inhabited S] (engine : ReplayEngine) {report : RecoveryReport}
    (step : S → StoredEvent → Except ReplayError S) {events : List StoredEvent} {last : Nat}
    {decodeState : List UInt8 → Except ReplayError S} {start : Progress S} (numbered : Numbered store.header 0 events)
    (bound : events.length < 2 ^ 64)
    (opens : (Store.openStore Limits.default .rejectIncompleteTail engine.storeDir).1 = .ok (store, report))
    (inside : target.toNat < store.nextSequence) (located : engine.locate store target decodeState = .ok start)
    (upto : start.next.toNat ≤ target.toNat) (forward : start.next.toNat < last) (before : last ≤ target.toNat + 1)
    (whole : target.toNat < events.length)
    (page : replayPage store engine.storeDir target start.next = .ok ((events.take last).drop start.next.toNat)) :
    ((engine.reconstructAtSequence target (.pure step) decodeState).1.map fun found => (found.1, found.2.sequence)) =
      (((events.take last).drop start.next.toNat).foldlM step start.state).map fun state =>
        (state, UInt64.ofNat (last - 1)) := by
  rw [reconstruct_opened engine opens inside located, if_pos (UInt64.le_iff_toNat_le.mpr upto), page, Except.ok_bind]
  have final : lastSequence start.header.sequence ((events.take last).drop start.next.toNat) =
      UInt64.ofNat (last - 1) := by
    rw [← UInt64.toNat_inj, lastSequence_part numbered bound forward (by omega), toNat_ofNat (by omega)]
  have size : start.next.toNat + ((events.take last).drop start.next.toNat).length ≤ target.toNat + 1 := by
    rw [List.length_drop, List.length_take]
    omega
  rw [← final, ← replayEvents_pure (follow_part numbered bound _ _) size (by omega)]
  cases (replayEvents (.pure step) target ((events.take last).drop start.next.toNat) start).1 with
  | error error => rfl
  | ok reached => rfl

omit [Crc32fast] in
/-- A transition that carries nothing always ends well. -/
theorem foldlM_unit (events : List StoredEvent) :
    events.foldlM (fun (_ : Unit) _ => (.ok () : Except ReplayError Unit)) () = .ok () := by
  induction events with
  | nil => rfl
  | cons event events hypothesis => exact hypothesis

/-- Over a log that is held by the files a reconstruction is exact if and only if one page takes in the blocks. -/
theorem exactAt_iff (inv : Inv (SealedOnce store.header) log disk store) (openable : Openable disk)
    (published : Published checkpoints) (inside : target.toNat < log.events.length) :
    ExactAt ⟨disk, checkpoints, rng⟩ log.events target ↔ FitsOnePage log store.header checkpoints target := by
  obtain ⟨report, ends, again⟩ : ∃ report,
      Store.openStore Limits.default .rejectIncompleteTail disk =
        (.ok (opened store.header Limits.default log, report), disk) ∧
      Inv (SealedOnce store.header) log disk (opened store.header Limits.default log) := by
    rcases inv.open_cases Limits.default .rejectIncompleteTail with ⟨ends, again⟩ | ⟨error, ends⟩
    · exact ⟨_, ends, again⟩
    · obtain ⟨opened, same⟩ := openable
      rw [ends] at same
      contradiction
  have header : (opened store.header Limits.default log).header = store.header := opened_header
  have limits : (opened store.header Limits.default log).limits = Limits.default := opened_limits
  generalize opened store.header Limits.default log = reader at ends again header limits
  rw [← header] at again ⊢
  have bound := again.valid.bound
  have small : target.toNat + 1 < 2 ^ 64 := by omega
  have length := again.tracks.nextSequence
  have opens := congrArg Prod.fst ends
  have numbered := again.valid.numbered
  constructor
  · intro reaches below
    by_contra long
    have faithful : @Faithful _ Unit _ log.events checkpoints (fun _ _ => .ok ()) (fun _ => .ok ()) :=
      fun sequence bytes checkpoint _ _ => ⟨(), rfl, foldlM_unit _⟩
    obtain ⟨start, located, next, upto, -, -⟩ : ∃ start : Progress Unit,
        ReplayEngine.locate ⟨disk, checkpoints, rng⟩ reader target (fun _ => .ok ()) = .ok start ∧ _ :=
      locate_ok published faithful small
    rw [← next] at below long
    obtain ⟨-, short, -⟩ := replayPage_reaches again limits below inside
    obtain ⟨last, forward, before, page⟩ := short long
    have outcome := reconstruct_part ⟨disk, checkpoints, rng⟩ (fun (_ : Unit) _ => .ok ()) numbered bound opens
      (by omega) located below forward (by omega) inside page
    rw [foldlM_unit] at outcome
    obtain ⟨⟨state, reported⟩, returned, named⟩ := Except.map_eq_ok.mp outcome
    obtain ⟨-, wrong⟩ := reaches Unit _ _ faithful state reported returned
    have named : reported.sequence = UInt64.ofNat (last - 1) := congrArg Prod.snd named
    rw [named, ← UInt64.toNat_inj, toNat_ofNat (by omega)] at wrong
    omega
  · intro fits S _ step decodeState faithful state reported returned
    obtain ⟨start, located, next, upto, folded, named⟩ : ∃ start : Progress S,
        ReplayEngine.locate ⟨disk, checkpoints, rng⟩ reader target decodeState = .ok start ∧ _ :=
      locate_ok published faithful small
    by_cases below : start.next.toNat ≤ target.toNat
    · have page := fits (by rw [← next]; exact below)
      rw [← next] at page
      obtain ⟨whole, -⟩ := replayPage_reaches again limits below inside
      rcases whole page with ⟨error, failed⟩ | page
      · rw [reconstruct_opened ⟨disk, checkpoints, rng⟩ opens (by omega) located, if_pos (UInt64.le_iff_toNat_le.mpr below), failed] at returned
        contradiction
      · have outcome := reconstruct_part ⟨disk, checkpoints, rng⟩ step numbered bound opens (by omega) located
          below (by omega) (le_refl _) inside page
        rw [returned] at outcome
        obtain ⟨final, reached, same⟩ := Except.map_eq_ok.mp outcome.symm
        obtain ⟨rfl, sequence⟩ := Prod.mk.inj same
        have split : log.events.take (target.toNat + 1) =
            log.events.take start.next.toNat ++ (log.events.take (target.toNat + 1)).drop start.next.toNat := by
          have front : log.events.take start.next.toNat = (log.events.take (target.toNat + 1)).take start.next.toNat := by
            rw [List.take_take, Nat.min_eq_left upto]
          rw [front, List.take_append_drop]
        refine ⟨?_, ?_⟩
        · rw [split]
          exact Except.foldlM_append_ok.mpr ⟨start.state, folded, reached⟩
        · rw [← sequence, Nat.add_sub_cancel]
          exact UInt64.ofNat_toNat
    · have ended : start.next.toNat = target.toNat + 1 := by omega
      rw [reconstruct_opened ⟨disk, checkpoints, rng⟩ opens (by omega) located, if_neg (by rw [UInt64.le_iff_toNat_le]; exact below)] at returned
      obtain ⟨rfl, rfl⟩ := Prod.mk.inj (Except.ok.inj returned)
      rw [ended] at folded named
      refine ⟨folded, UInt64.toNat_inj.mp ?_⟩
      rw [named, Nat.add_sub_cancel]

end Directory

section Runs

variable {database : DatabaseId} {source : SourceId} {epoch : SourceEpoch} {limits : Limits} {start : System}

/-- In every directory that a run leaves behind, a reconstruction is exact if and only if one page takes in the
blocks from its resumption to its target. -/
theorem reconstruction_exact_iff (created : System.create database source epoch limits = .ok start)
    (commands : List Command) :
    (∃ log store, Consistent (SealedOnce store.header) log store (start.run commands)) ∧
      ∀ log store, Consistent (SealedOnce store.header) log store (start.run commands) →
        Openable (start.run commands).disk → ∀ checkpoints rng target, Published checkpoints →
        target.toNat < (start.run commands).acknowledged.length →
        (ExactAt ⟨(start.run commands).disk, checkpoints, rng⟩ (start.run commands).acknowledged target ↔
          FitsOnePage log store.header checkpoints target) := by
  constructor
  · have first := System.create_consistent (SealedOnce ⟨database, source, epoch⟩) created
    obtain ⟨log, store, consistent, header⟩ := first.run (fun _ store => store.header = ⟨database, source, epoch⟩)
      (fun log store system command later reached same _ _ effect => effect.header.trans same)
      (fun log store same batch fits => ⟨_, same ▸ fits⟩) rfl (System.follows_always start commands)
    exact ⟨log, store, header ▸ consistent⟩
  · intro log store consistent openable checkpoints rng target published inside
    rw [consistent.acknowledged] at inside ⊢
    exact exactAt_iff consistent.inv openable published inside

end Runs

section Long

/-- The events of a database into which one bare event was appended after the other. -/
def bareEvents (count : Nat) : List StoredEvent :=
  (List.range count).map fun sequence => recordOf ⟨sampleDatabase, 1, 1⟩ sequence (bareInput 1 0)

/-- One command for each bare event. -/
def bareCommands (count : Nat) : List Command := List.replicate count (.append [bareInput 1 0])

/-- Bare events that are appended one by one get a frame each. -/
theorem bareCommands_consistent {count : Nat} (small : count < 2 ^ 32) :
    ∃ store : Store, store.header = ⟨sampleDatabase, 1, 1⟩ ∧ store.limits = Limits.default ∧
      store.nextSequence = count ∧ store.endOffset = walHeaderLen + 92 * count ∧
      (∀ last, store.lastKnown = some last → last = ⟨1, 0⟩) ∧
      Consistent (SealedOnce ⟨sampleDatabase, 1, 1⟩) ⟨[], (bareEvents count).map fun event => [event]⟩ store
        ((System.fresh sampleDatabase 1 1 Limits.default).run (bareCommands count)) ∧
      ((System.fresh sampleDatabase 1 1 Limits.default).run (bareCommands count)).handle = some store := by
  induction count with
  | zero =>
      have created : System.create sampleDatabase 1 1 Limits.default =
          .ok (System.fresh sampleDatabase 1 1 Limits.default) := System.create_ok.mpr ⟨rfl, rfl⟩
      refine ⟨_, rfl, rfl, rfl, rfl, fun last known => ?_, System.create_consistent _ created, rfl⟩
      exact absurd known (Option.some_ne_none last).symm
  | succ count hypothesis =>
      obtain ⟨store, header, limits, sequence, offset, known, consistent, present⟩ := hypothesis (by omega)
      have head : walHeaderLen = 40 := rfl
      have next : NextBatch store [bareInput 1 0] [recordOf store.header store.nextSequence (bareInput 1 0)] := by
        apply NextBatch.bare limits _ (by omega) (by omega)
        intro last same
        rw [known last same]
        exact ⟨rfl, UInt64.le_iff_toNat_le.mpr (le_refl _)⟩
      obtain ⟨later, handle⟩ := consistent.append_next present next
      have events : (bareEvents (count + 1)).map (fun event => [event]) =
          (bareEvents count).map (fun event => [event]) ++
            [[recordOf store.header store.nextSequence (bareInput 1 0)]] := by
        rw [bareEvents, List.range_succ, List.map_append, List.map_append, header, sequence]
        rfl
      have commands : bareCommands (count + 1) = bareCommands count ++ [.append [bareInput 1 0]] :=
        List.replicate_succ'
      rw [commands, System.run_append, events]
      refine ⟨store.pushBatch [recordOf store.header store.nextSequence (bareInput 1 0)], header, limits, ?_, ?_, ?_, later,
        handle⟩
      · rw [Store.pushBatch_nextSequence, sequence]
        rfl
      · rw [Store.pushBatch_endOffset, offset, batchBytes_bare_length]
        omega
      · intro last same
        exact (Option.some.inj same).symm

omit [Crc32fast] in
theorem bareEvents_length (count : Nat) : (bareEvents count).length = count := by
  rw [bareEvents, List.length_map, List.length_range]

omit [Crc32fast] in
/-- The blocks hold as many records as the log. -/
theorem sum_consecutive {items : List StoredEvent} {blocks : List Block} {position : Nat}
    (consecutive : Consecutive items position blocks) :
    position + (blocks.map (·.records.length)).sum = items.length := by
  induction blocks generalizing position with
  | nil => exact consecutive
  | cons block blocks hypothesis =>
      obtain ⟨rfl, -, -, rest⟩ := consecutive
      have whole := hypothesis rest
      rw [Block.stop] at whole
      rw [List.map_cons, List.sum_cons]
      omega

/-- More frames than a page takes events do not fit the page of their last event. -/
theorem bareCommands_exceeds {checkpoints : CheckpointStore} {header : WalHeader} {store : Store} {disk : Disk}
    {admits : List StoredEvent → Prop} {count : Nat} {target : UInt64}
    (inv : Storage.Inv admits ⟨[], (bareEvents count).map fun event => [event]⟩ disk store)
    (absent : checkpoints.highest target = none) (last : count = target.toNat + 1) (many : 65536 < count) :
    ¬ FitsOnePage ⟨[], (bareEvents count).map fun event => [event]⟩ header checkpoints target := by
  intro fits
  let log : Log := ⟨[], (bareEvents count).map fun event => [event]⟩
  have first : resume checkpoints target = 0 := by
    rw [resume, absent]
    rfl
  have flat : log.events = bareEvents count := by
    rw [Log.events, Log.batches, List.nil_append, ← List.flatMap_def, List.flatMap_singleton']
  have whole := sum_consecutive inv.blocks_consecutive
  change 0 + (log.blocks.map _).sum = log.events.length at whole
  rw [flat, bareEvents_length] at whole
  have all : log.blocksBetween 0 target.toNat = log.blocks := by
    apply List.filter_eq_self.mpr
    intro block member
    rw [Log.blocks] at member
    obtain ⟨⟨first, batch⟩, inside, rfl⟩ := List.mem_map.mp ((List.mem_append.mp member).resolve_left (by simp [log]))
    obtain ⟨event, -, rfl⟩ := List.mem_map.mp (mem_of_mem_starts inside)
    have bound := (bounds_of_mem inside).2
    rw [← List.flatMap_def, List.flatMap_singleton', bareEvents_length] at bound
    change _ ≤ 0 + count at bound
    rw [List.length_singleton] at bound
    have ends : 0 < first + [event].length ∧ first ≤ target.toNat := by
      rw [List.length_singleton]
      omega
    exact Bool.and_eq_true_iff.mpr ⟨decide_eq_true ends.1, decide_eq_true ends.2⟩
  have page := fits (by rw [first]; exact Nat.zero_le _)
  rw [first] at page
  change OnePage _ _ _ _ (log.blocksBetween 0 target.toNat) at page
  rw [all] at page
  have sum := (page log.blocks [] (List.append_nil _).symm fun block member retired => by
    obtain ⟨⟨first, batch⟩, inside, rfl⟩ := List.mem_map.mp ((List.mem_append.mp member).resolve_left (by simp [log]))
    exact absurd retired Bool.false_ne_true).2
  omega

/-- The directory of bare events opens. -/
theorem bareCommands_openable {store : Store} {disk : Disk} {admits : List StoredEvent → Prop} {count : Nat}
    (inv : Storage.Inv admits ⟨[], (bareEvents count).map fun event => [event]⟩ disk store) : Openable disk := by
  obtain ⟨ends, -⟩ := inv.reopen .rejectIncompleteTail (rfl : validateLimits Limits.default = .ok ()) fun batch member => by
    obtain ⟨event, inside, rfl⟩ := List.mem_map.mp member
    obtain ⟨sequence, -, rfl⟩ := List.mem_map.mp inside
    exact (bare_fits _ _ _ _).batch
  exact ⟨_, congrArg Prod.fst ends⟩

omit [Crc32fast] in
/-- A directory without files has no checkpoint. -/
theorem published_empty [Crc32fast] : Published ⟨[]⟩ := fun _ _ absent => nomatch absent

/-- Over more frames than a page takes events the reconstruction of the last event misses it. -/
theorem bareCommands_stop_short {count : Nat} {target : UInt64} (last : count = target.toNat + 1)
    (many : 65536 < count) (small : count < 2 ^ 32) :
    let system := (System.fresh sampleDatabase 1 1 Limits.default).run (bareCommands count)
    System.create sampleDatabase 1 1 Limits.default = .ok (System.fresh sampleDatabase 1 1 Limits.default) ∧
      Openable system.disk ∧ Published ⟨[]⟩ ∧ system.acknowledged.length = count ∧
      ¬ ExactAt ⟨system.disk, ⟨[]⟩, .new 0⟩ system.acknowledged target := by
  intro system
  obtain ⟨store, header, -, -, -, -, consistent, -⟩ := bareCommands_consistent small
  have openable := bareCommands_openable consistent.inv
  have size : system.acknowledged.length = count := by
    rw [consistent.acknowledged, Log.events, Log.batches, List.nil_append, ← List.flatMap_def, List.flatMap_singleton',
      bareEvents_length]
  refine ⟨System.create_ok.mpr ⟨rfl, rfl⟩, openable, published_empty, size, fun reaches => ?_⟩
  rw [← header] at consistent
  rw [consistent.acknowledged] at reaches size
  exact bareCommands_exceeds consistent.inv rfl last many
    ((exactAt_iff consistent.inv openable published_empty (by omega)).mp reaches)

end Long

end

/-- A reconstruction at the last of 65,537 frames stops one event short of it. -/
theorem reconstruction_stops_short :
    letI := Crc32fast.ieee
    let system := (System.fresh sampleDatabase 1 1 Limits.default).run (bareCommands 65537)
    System.create sampleDatabase 1 1 Limits.default = .ok (System.fresh sampleDatabase 1 1 Limits.default) ∧
      Openable system.disk ∧ Published ⟨[]⟩ ∧ system.acknowledged.length = 65537 ∧
      ¬ ExactAt ⟨system.disk, ⟨[]⟩, .new 0⟩ system.acknowledged 65536 := by
  generalize Crc32fast.ieee = inst
  exact bareCommands_stop_short (by decide) (by decide) (by decide)

/-- The reconstruction of the only event of a database. -/
theorem reconstruction_exact_iff_sample :
    letI := Crc32fast.ieee
    let system := (System.fresh sampleDatabase 1 1 Limits.default).run (bareCommands 1)
    ExactAt ⟨system.disk, ⟨[]⟩, .new 0⟩ system.acknowledged 0 := by
  generalize Crc32fast.ieee = inst
  intro system
  have created : System.create sampleDatabase 1 1 Limits.default =
      .ok (System.fresh sampleDatabase 1 1 Limits.default) := System.create_ok.mpr ⟨rfl, rfl⟩
  obtain ⟨store, header, -, -, -, -, consistent, -⟩ := bareCommands_consistent (by decide : 1 < 2 ^ 32)
  rw [← header] at consistent
  have inside : (0 : UInt64).toNat < system.acknowledged.length := by
    rw [consistent.acknowledged]
    decide
  apply ((reconstruction_exact_iff created (bareCommands 1)).2 _ store consistent
    (bareCommands_openable consistent.inv) ⟨[]⟩ (.new 0) 0 published_empty inside).mpr
  intro below
  have only : Log.blocksBetween ⟨[], (bareEvents 1).map fun event => [event]⟩ 0 0 =
      [⟨0, [recordOf ⟨sampleDatabase, 1, 1⟩ 0 (bareInput 1 0)], false⟩] := rfl
  change OnePage _ _ _ _ (Log.blocksBetween _ 0 0)
  rw [only, onePage_cons]
  refine fun readable => ⟨?_, by decide, onePage_nil⟩
  change (batchBytes _).length ≤ _
  rw [batchBytes_bare_length]
  decide

end Temnion.Replay
