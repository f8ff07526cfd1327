import Temnion.Branch.Isolation

/-
This file compares a reconstruction on a branch with the fold over the timeline of the branch.
-/

namespace Temnion.Branch

open Format LittleEndian Storage Replay

/-- The fold of a reducer over the events. The reducer draws from the generator as it goes. -/
def foldEvents {S : Type} (reducer : StateReducer S) :
    List StoredEvent → S → DeterministicRng → Except ReplayError S
  | [], state, _ => .ok state
  | event :: events, state, rng =>
      match reducer.apply state event rng with
      | (.error error, _) => .error error
      | (.ok state, rng) => foldEvents reducer events state rng

/-- The events of a timeline up to a position. -/
def prefixAt (contents : BranchId → List StoredEvent) (segments : List TimelineSegment) (position : UInt64) :
    List StoredEvent :=
  (List.range (position.toNat + 1)).filterMap fun place => eventAt contents segments (UInt64.ofNat place)

section Folds

variable {S : Type} {reducer : StateReducer S}

/-- The loop over consecutive events that end with the target is the fold of the reducer. -/
theorem replayEvents_fold {target : UInt64} {events : List StoredEvent} {progress : Progress S}
    (follow : Follow progress.next.toNat events)
    (within : progress.next.toNat + events.length ≤ target.toNat + 1) (small : target.toNat + 1 < 2 ^ 64) :
    ((replayEvents reducer target events progress).1.map fun reached => reached.state) =
      foldEvents reducer events progress.state progress.rng := by
  induction events generalizing progress with
  | nil => rfl
  | cons event events hypothesis =>
      have number : event.id.sequence.toNat = progress.next.toNat := follow 0 event rfl
      rw [List.length_cons] at within
      have before : ¬ target < event.id.sequence := by
        rw [UInt64.lt_iff_toNat_lt, number]
        omega
      have same : event.id.sequence = progress.next := UInt64.toNat_inj.mp number
      have more : (progress.next + 1).toNat = progress.next.toNat + 1 := by
        rw [UInt64.toNat_add, UInt64.toNat_one]
        omega
      rw [replayEvents, if_neg before, if_neg (not_not.mpr same), foldEvents]
      rcases reducer.apply progress.state event progress.rng with ⟨outcome, rng⟩
      cases outcome with
      | error error => rfl
      | ok state =>
          apply hypothesis
          · rw [more]
            exact follow.tail
          · rw [more]
            omega

/-- A reducer that collects the events. -/
def collecting : StateReducer (List StoredEvent) := .pure fun state event => .ok (state ++ [event])

theorem foldEvents_collecting (events state : List StoredEvent) (rng : DeterministicRng) :
    foldEvents collecting events state rng = .ok (state ++ events) := by
  induction events generalizing state with
  | nil => rw [foldEvents, List.append_nil]
  | cons event events hypothesis =>
      change foldEvents collecting events (state ++ [event]) rng = _
      rw [hypothesis, List.append_assoc, List.singleton_append]

end Folds

section Prefixes

variable {contents : BranchId → List StoredEvent} {segments : List TimelineSegment} {position : UInt64}

/-- A timeline without a gap has one event for each position. -/
theorem prefixAt_length (filled : ∀ place, place ≤ position → (eventAt contents segments place).isSome) :
    (prefixAt contents segments position).length = position.toNat + 1 := by
  rw [prefixAt, List.length_filterMap_eq_countP, List.countP_eq_length.mpr, List.length_range]
  intro place member
  have bound := position.toNat_lt
  have inside := List.mem_range.mp member
  apply filled
  rw [UInt64.le_iff_toNat_le, toNat_ofNat (by omega)]
  omega

/-- The last event of the prefix is the event at the position. -/
theorem prefixAt_getLast (present : (eventAt contents segments position).isSome) :
    (prefixAt contents segments position).getLast? = eventAt contents segments position := by
  obtain ⟨event, found⟩ := Option.isSome_iff_exists.mp present
  rw [prefixAt, List.range_succ, List.filterMap_append]
  simp [found]

/-- A list is read position by position. -/
theorem filterMap_range_getElem {A : Type} (items : List A) (count : Nat) :
    (List.range count).filterMap (fun place => items[place]?) = items.take count := by
  induction count with
  | zero => rfl
  | succ count hypothesis =>
      rw [List.range_succ, List.filterMap_append, hypothesis, List.take_add_one, List.filterMap_cons]
      cases items[count]? with
      | none => rfl
      | some item => rfl

/-- Where the first segment owns the position, the prefix lies in its branch. -/
theorem prefixAt_main {stop : Option UInt64} {rest : List TimelineSegment}
    (owns : TimelineSegment.Owns ⟨0, 0, stop⟩ position) :
    prefixAt contents (⟨0, 0, stop⟩ :: rest) position = (contents 0).take (position.toNat + 1) := by
  rw [prefixAt, ← filterMap_range_getElem]
  apply List.filterMap_congr
  intro place member
  have bound := position.toNat_lt
  have inside := List.mem_range.mp member
  have number : (UInt64.ofNat place).toNat = place := toNat_ofNat (by omega)
  have within : TimelineSegment.Owns ⟨0, 0, stop⟩ (UInt64.ofNat place) := by
    refine ⟨UInt64.zero_le, fun last same => UInt64.le_trans ?_ (owns.2 last same)⟩
    rw [UInt64.le_iff_toNat_le, number]
    omega
  rw [eventAt_cons, if_pos within, number]
  rfl

end Prefixes

section Local

variable [Crc32fast] {log : Log} {disk : Disk} {store : Store} {target : UInt64}

/-- The blocks up to the target can be read and fit one page together. -/
def FrontFits (log : Log) (header : WalHeader) (target : UInt64) : Prop :=
  (∀ block ∈ log.blocksBetween 0 target.toNat, block.Readable header Limits.default) ∧
    OnePage header Limits.default (64 * 1024 * 1024) 65536 (log.blocksBetween 0 target.toNat)

/-- The state that an engine without checkpoints reconstructs from a store. -/
def localState {S : Type} [Inhabited S] (disk : Disk) (target : UInt64) (reducer : StateReducer S)
    (decodeState : List UInt8 → Except ReplayError S) : Except ReplayError S :=
  ((ReplayEngine.new disk ⟨[]⟩ 0).reconstructAtSequence target reducer decodeState).1.map Prod.fst

/-- An engine without checkpoints replays its page from the beginning. -/
theorem localState_eq {S : Type} [Inhabited S] {reducer : StateReducer S}
    {decodeState : List UInt8 → Except ReplayError S} {report : RecoveryReport}
    (opens : (Store.openStore Limits.default .rejectIncompleteTail disk).1 = .ok (store, report))
    (inside : target.toNat < store.nextSequence) :
    localState disk target reducer decodeState = replayPage store disk target 0 >>= fun events =>
      (replayEvents reducer target events ⟨default, 0, defaultHeader store (.new 0), .new 0⟩).1.map fun reached =>
        reached.state := by
  let engine := ReplayEngine.new disk ⟨[]⟩ 0
  have opened : (Store.openStore Limits.default .rejectIncompleteTail engine.storeDir).1 = .ok (store, report) := opens
  have located : engine.locate store target decodeState = .ok ⟨default, 0, defaultHeader store (.new 0), .new 0⟩ := rfl
  change (engine.reconstructAtSequence target reducer decodeState).1.map Prod.fst = _
  rw [ReplayEngine.reconstructAtSequence, opened, asReplay_ok]
  dsimp only
  rw [if_neg (Nat.not_le.mpr inside), located]
  dsimp only
  rw [if_pos UInt64.zero_le]
  have page : replayPage store engine.storeDir target 0 = replayPage store disk target 0 := rfl
  rw [page]
  cases replayPage store disk target 0 with
  | error error => rfl
  | ok events =>
      dsimp only
      rw [Except.ok_bind]
      rcases replayEvents reducer target events ⟨default, 0, defaultHeader store (.new 0), .new 0⟩ with ⟨outcome, rng⟩
      cases outcome with
      | error error => rfl
      | ok reached => rfl

/-- What an engine reconstructs that gets a part of the log. -/
theorem localState_part {S : Type} [Inhabited S] {reducer : StateReducer S}
    {decodeState : List UInt8 → Except ReplayError S} {last : Nat} {report : RecoveryReport}
    (inv : Inv (SealedOnce store.header) log disk store)
    (opens : (Store.openStore Limits.default .rejectIncompleteTail disk).1 = .ok (store, report))
    (inside : target.toNat < log.events.length) (before : last ≤ target.toNat + 1)
    (page : replayPage store disk target 0 = .ok (log.events.take last)) :
    localState disk target reducer decodeState = foldEvents reducer (log.events.take last) default (.new 0) := by
  have bound := inv.valid.bound
  have follow : Follow 0 (log.events.take last) := by
    have part := follow_part inv.valid.numbered bound 0 last
    rw [List.drop_zero] at part
    exact part
  have size : 0 + (log.events.take last).length ≤ target.toNat + 1 := by
    rw [List.length_take]
    omega
  have folded := @replayEvents_fold S reducer target (log.events.take last)
    ⟨default, 0, defaultHeader store (.new 0), .new 0⟩ follow size (by omega)
  rw [localState_eq opens (by rw [inv.tracks.nextSequence]; exact inside), page, Except.ok_bind, folded]

/-- A reconstruction on one store folds the events up to the target when their blocks fit. Otherwise it fails, or it
folds only a front part of them. -/
theorem localState_cases (inv : Inv (SealedOnce store.header) log disk store)
    (live : ∀ batch ∈ log.live, BatchFits Limits.default batch) (target : UInt64) :
    (target.toNat < log.events.length → FrontFits log store.header target →
      ∀ (S : Type) [Inhabited S] (reducer : StateReducer S) (decodeState : List UInt8 → Except ReplayError S),
        localState disk target reducer decodeState =
          foldEvents reducer (log.events.take (target.toNat + 1)) default (.new 0)) ∧
      (target.toNat < log.events.length → ¬ FrontFits log store.header target →
        (∀ (S : Type) [Inhabited S] (reducer : StateReducer S) (decodeState : List UInt8 → Except ReplayError S),
          ∃ error, localState disk target reducer decodeState = .error error) ∨
        ∃ last, last ≤ target.toNat ∧ ∀ (S : Type) [Inhabited S] (reducer : StateReducer S)
          (decodeState : List UInt8 → Except ReplayError S),
          localState disk target reducer decodeState = foldEvents reducer (log.events.take last) default (.new 0)) ∧
      (log.events.length ≤ target.toNat →
        ∀ (S : Type) [Inhabited S] (reducer : StateReducer S) (decodeState : List UInt8 → Except ReplayError S),
          ∃ error, localState disk target reducer decodeState = .error error) := by
  obtain ⟨ends, again⟩ := inv.reopen .rejectIncompleteTail (rfl : validateLimits Limits.default = .ok ()) live
  have header : (opened store.header Limits.default log).header = store.header := opened_header
  have limits : (opened store.header Limits.default log).limits = Limits.default := opened_limits
  generalize opened store.header Limits.default log = reader at ends again header limits
  rw [← header] at again ⊢
  have opens := congrArg Prod.fst ends
  let outcome := replayPage reader disk target 0
  let page := OnePage reader.header Limits.default (64 * 1024 * 1024) 65536 (log.blocksBetween 0 target.toNat)
  have reaches : target.toNat < log.events.length →
      (page → (∃ error, outcome = .error error) ∨ outcome = .ok ((log.events.take (target.toNat + 1)).drop 0)) ∧
      (¬ page → ∃ last, 0 < last ∧ last ≤ target.toNat ∧ outcome = .ok ((log.events.take last).drop 0)) ∧
      (page → ((∃ events, outcome = .ok events) ↔ ∀ block ∈ log.blocksBetween 0 target.toNat,
        block.Readable reader.header Limits.default)) :=
    fun inside => @replayPage_reaches _ log disk reader target 0 again limits (Nat.zero_le _) inside
  have failing : ∀ error, outcome = .error error → target.toNat < log.events.length →
      ∀ (S : Type) [Inhabited S] (reducer : StateReducer S) (decodeState : List UInt8 → Except ReplayError S),
        ∃ error, localState disk target reducer decodeState = .error error := by
    intro error failed inside S _ reducer decodeState
    refine ⟨error, ?_⟩
    rw [localState_eq opens (by rw [again.tracks.nextSequence]; exact inside)]
    change (outcome >>= _) = _
    rw [failed]
    rfl
  refine ⟨fun inside fits S _ reducer decodeState => ?_, fun inside large => ?_, fun beyond S _ reducer decodeState => ?_⟩
  · obtain ⟨whole, _, success⟩ := reaches inside
    obtain ⟨events, read⟩ := (success fits.2).mpr fits.1
    rcases whole fits.2 with ⟨error, failed⟩ | same
    · rw [failed] at read
      contradiction
    · rw [List.drop_zero] at same
      exact localState_part again opens inside (le_refl _) same
  · obtain ⟨whole, part, success⟩ := reaches inside
    by_cases fits : page
    · rcases whole fits with ⟨error, failed⟩ | same
      · exact Or.inl (failing error failed inside)
      · exact absurd ⟨(success fits).mp ⟨_, same⟩, fits⟩ large
    · obtain ⟨last, _, before, same⟩ := part fits
      rw [List.drop_zero] at same
      refine Or.inr ⟨last, before, fun S _ reducer decodeState => ?_⟩
      exact localState_part again opens inside (before.trans (Nat.le_succ _)) same
  · have missing : reader.nextSequence ≤ target.toNat := by
      rw [again.tracks.nextSequence]
      exact beyond
    refine ⟨.storage .invalidCursor, ?_⟩
    have opened : (Store.openStore Limits.default .rejectIncompleteTail
        (ReplayEngine.new disk ⟨[]⟩ 0).storeDir).1 = .ok (reader, _) := opens
    rw [localState, ReplayEngine.reconstructAtSequence, opened, asReplay_ok]
    dsimp only
    rw [if_pos missing]
    rfl

end Local

section Owners

variable {branches : Branches} {count : Nat} {id : BranchId} {ancestors : List Stretch} {start : UInt64}

/-- A timeline begins with a segment of the main branch. -/
theorem Resolves.head (resolves : Resolves branches id ancestors start) (tree : Tree branches count) :
    ∃ stop rest, timelineOf ancestors id start = ⟨0, 0, stop⟩ :: rest := by
  induction resolves with
  | root found alone =>
      next id branch =>
      by_cases first : id = 0
      · exact ⟨none, [], by rw [first]; rfl⟩
      · obtain ⟨parent, sequence, forked, _⟩ := tree.parents id (tree.present found) first
        rw [parentOf_eq found, alone] at forked
        contradiction
  | child found forked rest hypothesis =>
      next id parent branch forkSeq start ancestors =>
      obtain ⟨stop, others, same⟩ := hypothesis
      cases ancestors with
      | nil =>
          obtain ⟨rfl, rfl, -⟩ := TimelineSegment.mk.inj (List.cons.inj same).1
          exact ⟨some forkSeq, [⟨id, forkSeq + 1, none⟩], rfl⟩
      | cons first ancestors =>
          have front : first.segment = ⟨0, 0, stop⟩ := (List.cons.inj same).1
          refine ⟨stop, timelineOf (ancestors ++ [⟨parent, start, forkSeq⟩]) id (forkSeq + 1), ?_⟩
          rw [← front]
          rfl

theorem Resolves.members (resolves : Resolves branches id ancestors start) (tree : Tree branches count) :
    ∀ segment ∈ timelineOf ancestors id start, segment.branchId.toNat < count := by
  induction resolves with
  | root found alone =>
      intro segment member
      rw [List.mem_singleton.mp member]
      exact tree.present found
  | child found forked rest hypothesis =>
      next id parent branch forkSeq start ancestors =>
      intro segment member
      rw [timelineOf, List.map_append, List.append_assoc] at member
      rcases List.mem_append.mp member with earlier | later
      · exact hypothesis segment (List.mem_append_left _ earlier)
      · rcases List.mem_cons.mp later with rfl | last
        · exact hypothesis ⟨parent, start, none⟩ (List.mem_append_right _ (List.mem_singleton_self _))
        · rw [List.mem_singleton.mp last]
          exact tree.present found

/-- The first segment that owns a position is the one of the main branch, or it does not start at 0. -/
theorem Resolves.owner (resolves : Resolves branches id ancestors start) (position : UInt64) :
    ∃ segment, ((timelineOf ancestors id start).find? fun segment => segment.Owns position) = some segment ∧
      ((timelineOf ancestors id start).head? = some segment ∨ segment.startSeq ≠ 0) := by
  induction resolves with
  | root found alone =>
      next id branch =>
      have owns : TimelineSegment.Owns ⟨id, 0, none⟩ position := ⟨UInt64.zero_le, fun stop absent => absurd absent (Option.not_mem_none stop)⟩
      exact ⟨⟨id, 0, none⟩, List.find?_cons_of_pos (decide_eq_true owns), Or.inl rfl⟩
  | child found forked rest hypothesis =>
      next id parent branch forkSeq start ancestors =>
      have layout : timelineOf (ancestors ++ [⟨parent, start, forkSeq⟩]) id (forkSeq + 1) =
          ancestors.map Stretch.segment ++ [⟨parent, start, some forkSeq⟩, ⟨id, forkSeq + 1, none⟩] := by
        rw [timelineOf, List.map_append, List.append_assoc]
        rfl
      obtain ⟨segment, first, place⟩ := hypothesis
      rw [timelineOf, List.find?_append] at first
      rw [timelineOf, List.head?_append] at place
      rw [layout, List.find?_append, List.head?_append]
      cases earlier : (ancestors.map Stretch.segment).find? fun segment => segment.Owns position with
      | some other =>
          rw [earlier, Option.some_or] at first
          obtain ⟨front, filled⟩ := List.exists_cons_of_ne_nil (List.ne_nil_of_mem (List.mem_of_find?_eq_some earlier))
          obtain ⟨others, filled⟩ := filled
          rw [filled] at place ⊢
          exact ⟨segment, first, place⟩
      | none =>
          rw [earlier, Option.none_or] at first
          obtain rfl := List.mem_singleton.mp (List.mem_of_find?_eq_some first)
          have chosen := List.find?_some first
          have lower : start ≤ position := (of_decide_eq_true chosen : TimelineSegment.Owns ⟨parent, start, none⟩ position).1
          rw [Option.none_or]
          by_cases below : position ≤ forkSeq
          · have owns : TimelineSegment.Owns ⟨parent, start, some forkSeq⟩ position :=
              ⟨lower, fun stop same => Option.some.inj same ▸ below⟩
            refine ⟨⟨parent, start, some forkSeq⟩, List.find?_cons_of_pos (decide_eq_true owns), ?_⟩
            rcases place with head | positive
            · cases ancestors with
              | nil => exact Or.inl rfl
              | cons front others =>
                  have absurd := congrArg TimelineSegment.endSeq (Option.some.inj head)
                  contradiction
            · exact Or.inr positive
          · have above := UInt64.lt_iff_toNat_lt.mp (UInt64.not_le.mp below)
            have limit := position.toNat_lt
            have next : (forkSeq + 1).toNat = forkSeq.toNat + 1 := toNat_succ (by omega)
            have skipped : ¬ TimelineSegment.Owns ⟨parent, start, some forkSeq⟩ position :=
              fun owns => below (owns.2 forkSeq rfl)
            have owns : TimelineSegment.Owns ⟨id, forkSeq + 1, none⟩ position := by
              refine ⟨?_, fun stop absent => absurd absent (Option.not_mem_none stop)⟩
              rw [UInt64.le_iff_toNat_le, next]
              exact above
            refine ⟨⟨id, forkSeq + 1, none⟩, ?_, Or.inr fun zero => ?_⟩
            · rw [List.find?_cons_of_neg (by simpa using skipped)]
              exact List.find?_cons_of_pos (decide_eq_true owns)
            · have number := congrArg UInt64.toNat (zero : forkSeq + 1 = 0)
              rw [next] at number
              exact absurd number (Nat.succ_ne_zero _)

end Owners

namespace BranchSystem

variable [Crc32fast]

/-- A reconstruction on the branch is the fold over its timeline up to the target, for every reducer and decoder. -/
def ExactOn (system : BranchSystem) (id : BranchId) (target : UInt64) : Prop :=
  ∀ (S : Type) [Inhabited S] (reducer : StateReducer S) (decodeState : List UInt8 → Except ReplayError S) segments,
    system.manager.resolveTimeline id = .ok segments →
    (system.manager.reconstructAt id target reducer decodeState).map Prod.fst =
      (foldEvents reducer (prefixAt system.acknowledged segments target) default (.new 0)).mapError .replay

/-- The first segment of the timeline, which is the one of the main branch, owns the target. -/
def FromMain (system : BranchSystem) (id : BranchId) (target : UInt64) : Prop :=
  ∃ segments first, system.manager.resolveTimeline id = .ok segments ∧ segments.head? = some first ∧ first.Owns target

/-- The log in the files of the main branch. -/
structure MainLog (system : BranchSystem) (log : Log) (disk : Disk) (store : Store) : Prop where
  folder : system.manager.rootDir.folders 0 = some ⟨some disk, ⟨[]⟩⟩
  inv : Inv (SealedOnce store.header) log disk store
  acknowledged : system.acknowledged 0 = log.events

end BranchSystem

section Numbers

theorem getLast?_take_succ {A : Type} {items : List A} {count : Nat} (inside : count < items.length) :
    (items.take (count + 1)).getLast? = items[count]? := by
  rw [List.take_add_one, List.getElem?_eq_getElem inside]
  exact List.getLast?_concat

/-- Two places of a log hold different events. -/
theorem numbered_apart [Crc32fast] {log : Log} {disk : Disk} {store : Store} {segment : TimelineSegment}
    {target : UInt64} (inv : Inv (SealedOnce store.header) log disk store) (owns : segment.Owns target)
    (later : segment.startSeq ≠ 0) (long : target.toNat < log.events.length) :
    log.events[target.toNat]? ≠ log.events[target.toNat - segment.startSeq.toNat]? := by
  intro same
  have bound := inv.valid.bound
  obtain ⟨event, found⟩ : ∃ event, log.events[target.toNat]? = some event := ⟨_, List.getElem?_eq_getElem long⟩
  have here := inv.valid.numbered _ event found
  have there := inv.valid.numbered _ event (same ▸ found)
  have numbers := congrArg (fun identity => identity.sequence.toNat) (here.symm.trans there)
  have lower := UInt64.le_iff_toNat_le.mp owns.1
  have positive : segment.startSeq.toNat ≠ 0 := fun zero => later (UInt64.toNat_inj.mp zero)
  dsimp only at numbers
  rw [toNat_ofNat (by omega), toNat_ofNat (by omega)] at numbers
  omega

end Numbers

section Timelines

variable [Crc32fast] {system : BranchSystem} {count : Nat} {logs : BranchId → Log} {id : BranchId}
  {ancestors : List Stretch} {start target : UInt64}

/-- A reconstruction is one on the store of the branch that owns the target. -/
theorem Holds.reconstructAt_eq {S : Type} [Inhabited S] {reducer : StateReducer S}
    {decodeState : List UInt8 → Except ReplayError S} (holds : Holds system count logs)
    (resolves : Resolves system.manager.manifest.branches id ancestors start) {segment : TimelineSegment}
    (owner : ((timelineOf ancestors id start).find? fun segment => segment.Owns target) = some segment) {disk : Disk}
    (folder : system.manager.rootDir.folders segment.branchId = some ⟨some disk, ⟨[]⟩⟩) :
    (system.manager.reconstructAt id target reducer decodeState).map Prod.fst =
      (localState disk target reducer decodeState).mapError .replay := by
  have files : system.manager.rootDir.storeFiles segment.branchId = .ok disk := by
    rw [RootDir.storeFiles, folder]
  unfold BranchManager.reconstructAt
  rw [holds.resolveTimeline_eq resolves, Except.ok_bind]
  rw [owner]
  dsimp only
  rw [files, asBranch_ok, Except.ok_bind, folder, Option.map_some, Option.getD_some, localState]
  cases ((ReplayEngine.new disk ⟨[]⟩ 0).reconstructAtSequence target reducer decodeState).1 with
  | error error => rfl
  | ok found => rfl

/-- Where every position up to the target has its event, a reconstruction follows the timeline if and only if the main
branch owns the target and the front of its log fits. -/
theorem Holds.exactOn_iff (holds : Holds system count logs) (inside : id.toNat < count)
    (filled : ∀ place, place ≤ target → (system.viewAt id place).isSome) {log : Log} {disk : Disk} {store : Store}
    (main : system.MainLog log disk store) (live : ∀ batch ∈ log.live, BatchFits Limits.default batch) :
    system.ExactOn id target ↔ system.FromMain id target ∧ FrontFits log store.header target := by
  obtain ⟨ancestors, start, resolves, _⟩ := holds.tree.resolves inside
  have resolved := holds.resolveTimeline_eq resolves
  obtain ⟨stop, rest, layout⟩ := resolves.head holds.tree
  have filled : ∀ place, place ≤ target →
      (eventAt system.acknowledged (timelineOf ancestors id start) place).isSome := by
    intro place below
    rw [← holds.viewAt_eq resolves]
    exact filled place below
  have length := prefixAt_length filled
  have final := prefixAt_getLast (filled target (UInt64.le_refl _))
  -- What the collecting reducer gets from the store that owns the target.
  have collected : ∀ {segment : TimelineSegment} {disk : Disk},
      ((timelineOf ancestors id start).find? fun segment => segment.Owns target) = some segment →
      system.manager.rootDir.folders segment.branchId = some ⟨some disk, ⟨[]⟩⟩ → system.ExactOn id target →
      localState disk target collecting (fun _ => .ok []) =
        .ok (prefixAt system.acknowledged (timelineOf ancestors id start) target) := by
    intro segment disk owner folder exact
    have whole := exact (List StoredEvent) collecting (fun _ => .ok []) _ resolved
    rw [holds.reconstructAt_eq resolves owner folder, foldEvents_collecting] at whole
    cases outcome : localState disk target collecting (fun _ => .ok []) with
    | error error =>
        rw [outcome] at whole
        contradiction
    | ok state =>
        rw [outcome] at whole
        exact congrArg Except.ok (Except.ok.inj whole)
  by_cases first : TimelineSegment.Owns ⟨0, 0, stop⟩ target
  · have owner : ((timelineOf ancestors id start).find? fun segment => segment.Owns target) = some ⟨0, 0, stop⟩ := by
      rw [layout]
      exact List.find?_cons_of_pos (decide_eq_true first)
    have front : prefixAt system.acknowledged (timelineOf ancestors id start) target =
        log.events.take (target.toNat + 1) := by
      rw [layout, prefixAt_main first, main.acknowledged]
    have long : target.toNat < log.events.length := by
      rw [front, List.length_take] at length
      omega
    have fromMain : system.FromMain id target := ⟨_, ⟨0, 0, stop⟩, resolved, by rw [layout]; rfl, first⟩
    obtain ⟨fitting, large, _⟩ := localState_cases main.inv live target
    rw [and_iff_right fromMain]
    constructor
    · intro exact
      by_contra unfit
      have whole := collected owner main.folder exact
      rcases large long unfit with failing | ⟨last, before, short⟩
      · obtain ⟨error, failed⟩ := failing (List StoredEvent) collecting (fun _ => .ok [])
        rw [failed] at whole
        contradiction
      · rw [short, foldEvents_collecting] at whole
        have size := congrArg List.length (Except.ok.inj whole)
        rw [length] at size
        change (List.length (List.take last log.events)) = _ at size
        rw [List.length_take] at size
        omega
    · intro fits S _ reducer decodeState segments again
      rw [resolved] at again
      rw [← Except.ok.inj again, front, holds.reconstructAt_eq resolves owner main.folder, fitting long fits]
  · refine iff_of_false (fun exact => ?_) fun both => ?_
    · obtain ⟨segment, owner, place⟩ := resolves.owner target
      have chosen := List.find?_some owner
      have owns : segment.Owns target := of_decide_eq_true chosen
      have later : segment.startSeq ≠ 0 := by
        rcases place with head | later
        · rw [layout] at head
          exact absurd (Option.some.inj head ▸ owns) first
        · exact later
      have member := resolves.members holds.tree segment (List.mem_of_find?_eq_some owner)
      obtain ⟨disk', store', folder, inv⟩ := holds.stores segment.branchId member
      have whole := collected owner folder exact
      obtain ⟨fitting, large, missing⟩ := localState_cases inv (holds.live segment.branchId member) target
      by_cases long : target.toNat < (logs segment.branchId).events.length
      · by_cases fits : FrontFits (logs segment.branchId) store'.header target
        · rw [fitting long fits, foldEvents_collecting] at whole
          have ends := congrArg List.getLast? (Except.ok.inj whole)
          change List.getLast? (List.take _ _) = _ at ends
          rw [final, getLast?_take_succ long, eventAt, owner, Option.bind_some, holds.acknowledged _ member] at ends
          exact numbered_apart inv owns later long ends
        · rcases large long fits with failing | ⟨last, before, short⟩
          · obtain ⟨error, failed⟩ := failing (List StoredEvent) collecting (fun _ => .ok [])
            rw [failed] at whole
            contradiction
          · rw [short, foldEvents_collecting] at whole
            have size := congrArg List.length (Except.ok.inj whole)
            rw [length] at size
            change (List.length (List.take last (logs segment.branchId).events)) = _ at size
            rw [List.length_take] at size
            omega
      · obtain ⟨error, failed⟩ := missing (Nat.not_lt.mp long) (List StoredEvent) collecting (fun _ => .ok [])
        rw [failed] at whole
        contradiction
    · obtain ⟨segments, head, again, front, owns⟩ := both.1
      rw [resolved] at again
      rw [← Except.ok.inj again, layout] at front
      exact first (Option.some.inj front ▸ owns)

/-- In every run, wherever each position up to the target has its event, a reconstruction is the fold over the timeline
if and only if the main branch owns the target and the blocks of its log up to there can be read and fit one page. -/
theorem reconstruction_follows_timeline_iff {database : DatabaseId} {source : SourceId} {epoch : SourceEpoch}
    {limits : Limits} {root : System} (created : System.create database source epoch limits = .ok root)
    (commands : List Command) (started : BranchSystem.start (root.run commands) = .ok system)
    (later : List BranchCommand) (listed : id ∈ (system.run later).manager.manifest.branches) :
    (∃ log disk store, (system.run later).MainLog log disk store) ∧
      ∀ log disk store, (system.run later).MainLog log disk store → ∀ target,
        (∀ place, place ≤ target → ((system.run later).viewAt id place).isSome) →
        ((system.run later).ExactOn id target ↔
          (system.run later).FromMain id target ∧ FrontFits log store.header target) := by
  obtain ⟨log, store, consistent⟩ := exists_start created commands
  obtain ⟨count, logs, holds⟩ := (start_holds consistent started).run_always later
  obtain ⟨disk, store, folder, inv⟩ := holds.stores 0 holds.tree.positive
  refine ⟨⟨logs 0, disk, store, folder, inv, holds.acknowledged 0 holds.tree.positive⟩, ?_⟩
  intro log' disk' store' main target filled
  apply holds.exactOn_iff ((holds.tree.keys id).mp listed) filled main
  obtain ⟨ends, _⟩ := inv.reopen .rejectIncompleteTail (rfl : validateLimits Limits.default = .ok ())
    (holds.live 0 holds.tree.positive)
  obtain rfl : disk = disk' := Option.some.inj (congrArg Folder.store (Option.some.inj (folder.symm.trans main.folder)))
  rcases main.inv.open_cases Limits.default .rejectIncompleteTail with ⟨_, again⟩ | ⟨error, failed⟩
  · have limits : (opened store'.header Limits.default log').limits = Limits.default := opened_limits
    exact limits ▸ again.tracks.fits
  · rw [failed] at ends
    exact absurd (congrArg Prod.fst ends) nofun

end Timelines

section Samples

/-- A fork at the only event of a database, and an event behind it. -/
def forkAndAppend : List BranchCommand :=
  [.fork sampleDatabase 0 "a" 0 .active, .append 1 [bareInput 1 0]]

variable [Crc32fast]

/-- Both commands succeed, and the child has an event at the sequence 1. -/
theorem forkAndAppend_reached :
    ∃ system, BranchSystem.start ((System.fresh sampleDatabase 1 1 Limits.default).run (bareCommands 1)) = .ok system ∧
      ∃ logs, Holds (system.run forkAndAppend) 2 logs ∧
        logs 0 = ⟨[], (bareEvents 1).map fun event => [event]⟩ ∧ (logs 1).events.length = 1 ∧
        Resolves (system.run forkAndAppend).manager.manifest.branches 1 [⟨0, 0, 0⟩] 1 := by
  obtain ⟨system, started, passed, holds⟩ := bareStart_passes
  obtain ⟨manifest, forked⟩ := holds.forked passed rfl sampleDatabase "a" .active
  have child : (system.step (.fork sampleDatabase 0 "a" 0 .active)).manager.manifest.branches[(1 : BranchId)]? =
      some ⟨1, "a", some (0, 0), .active, 0⟩ := by
    rw [manifest, BranchManager.withBranch, getElem?_insert, if_pos rfl]
  have main : parentOf (system.step (.fork sampleDatabase 0 "a" 0 .active)).manager.manifest.branches 0 = none :=
    forked.tree.root
  obtain ⟨disk, store, folder, inv⟩ := forked.stores 1 (by decide)
  rw [Function.update_self] at inv
  have next : NextBatch (opened store.header Limits.default Log.empty) [bareInput 1 0] _ :=
    NextBatch.bare rfl (fun last absent => absurd absent.symm (Option.some_ne_none last)) (by
      change 0 + 1 < 2 ^ 64
      decide)
      (by change walHeaderLen + 92 < 2 ^ 64; decide)
  obtain ⟨kept, appended⟩ := forked.append_next child (by dsimp only; decide) folder
    (by rw [Function.update_self]; exact inv) (by rw [Function.update_self]; exact next)
  refine ⟨system, started, _, appended, ?_, ?_, ?_⟩
  · rw [Function.update_of_ne (by decide), Function.update_of_ne (by decide), Function.update_self]
  · rw [Function.update_self, Function.update_self, Log.extend_events]
    rfl
  · rw [forkAndAppend, BranchSystem.run_cons, BranchSystem.run_cons, BranchSystem.run_nil, kept]
    obtain ⟨branch, found⟩ : ∃ branch,
        (system.step (.fork sampleDatabase 0 "a" 0 .active)).manager.manifest.branches[(0 : BranchId)]? = some branch :=
      Option.isSome_iff_exists.mp (Std.ExtTreeMap.mem_iff_isSome_getElem?.mp ((forked.tree.keys 0).mpr (by decide)))
    exact Resolves.child child rfl (.root found ((parentOf_eq found).symm.trans main))

/-- Every position of the child up to 1 has its event. -/
theorem forkAndAppend_filled {system : BranchSystem} {logs : BranchId → Log}
    (holds : Holds (system.run forkAndAppend) 2 logs) (main : (logs 0).events.length = 1) (child : (logs 1).events.length = 1)
    (resolves : Resolves (system.run forkAndAppend).manager.manifest.branches 1 [⟨0, 0, 0⟩] 1) (place : UInt64)
    (below : place ≤ 1) : ((system.run forkAndAppend).viewAt 1 place).isSome := by
  have first := holds.acknowledged 0 (by decide)
  have second := holds.acknowledged 1 (by decide)
  rw [holds.viewAt_eq resolves, timelineOf, List.map_singleton, List.singleton_append, Stretch.segment, eventAt_cons,
    eventAt_cons, first, second]
  rcases Nat.le_one_iff_eq_zero_or_eq_one.mp (UInt64.le_iff_toNat_le.mp below) with zero | one
  · obtain rfl : place = 0 := UInt64.toNat_inj.mp zero
    have own : TimelineSegment.Owns ⟨0, 0, some 0⟩ 0 := ⟨UInt64.le_refl 0, fun stop member => Option.some.inj member ▸ UInt64.le_refl 0⟩
    have inside : 0 < (logs 0).events.length := main.symm ▸ Nat.one_pos
    rw [if_pos own]
    change (logs 0).events[0]?.isSome = true
    rw [List.getElem?_eq_getElem inside]
    rfl
  · obtain rfl : place = 1 := UInt64.toNat_inj.mp one
    have beyond : ¬ TimelineSegment.Owns ⟨0, 0, some 0⟩ 1 := fun owns => absurd (owns.2 0 rfl) (by decide)
    have own : TimelineSegment.Owns ⟨1, 1, none⟩ 1 := ⟨UInt64.le_refl 1, fun stop absent => absurd absent (Option.not_mem_none stop)⟩
    have inside : 0 < (logs 1).events.length := child.symm ▸ Nat.one_pos
    rw [if_neg beyond, if_pos own]
    change (logs 1).events[0]?.isSome = true
    rw [List.getElem?_eq_getElem inside]
    rfl

end Samples

/-- A reconstruction at the first event that a child appended is not the fold over its timeline. -/
theorem reconstruction_leaves_timeline :
    letI := Crc32fast.ieee
    ∃ system, BranchSystem.start ((System.fresh sampleDatabase 1 1 Limits.default).run (bareCommands 1)) = .ok system ∧
      (∀ place, place ≤ 1 → ((system.run forkAndAppend).viewAt 1 place).isSome) ∧
      ¬ (system.run forkAndAppend).ExactOn 1 1 := by
  generalize Crc32fast.ieee = inst
  obtain ⟨system, started, logs, holds, main, child, resolves⟩ := forkAndAppend_reached
  have length : (logs 0).events.length = 1 := by
    rw [main, bareLog_events, bareEvents_length]
  have filled := forkAndAppend_filled holds length child resolves
  refine ⟨system, started, filled, fun exact => ?_⟩
  obtain ⟨disk, store, folder, inv⟩ := holds.stores 0 (by decide)
  obtain ⟨⟨segments, first, resolved, head, owns⟩, _⟩ := (holds.exactOn_iff (by decide) filled
    ⟨folder, inv, holds.acknowledged 0 (by decide)⟩ (holds.live 0 (by decide))).mp exact
  rw [holds.resolveTimeline_eq resolves] at resolved
  rw [← Except.ok.inj resolved] at head
  rw [← Option.some.inj head] at owns
  exact absurd (owns.2 0 rfl) (by decide)

/-- A reconstruction on a child at the event that it inherits. -/
theorem reconstruction_follows_timeline_iff_sample :
    letI := Crc32fast.ieee
    ∃ system, BranchSystem.start ((System.fresh sampleDatabase 1 1 Limits.default).run (bareCommands 1)) = .ok system ∧
      (system.run forkAndAppend).ExactOn 1 0 := by
  generalize Crc32fast.ieee = inst
  obtain ⟨system, started, logs, holds, main, child, resolves⟩ := forkAndAppend_reached
  have created : System.create sampleDatabase 1 1 Limits.default = .ok (System.fresh sampleDatabase 1 1 Limits.default) :=
    System.create_ok.mpr ⟨rfl, rfl⟩
  have length : (logs 0).events.length = 1 := by
    rw [main, bareLog_events, bareEvents_length]
  have filled := forkAndAppend_filled holds length child resolves
  obtain ⟨disk, store, folder, inv⟩ := holds.stores 0 (by decide)
  refine ⟨system, started, ((reconstruction_follows_timeline_iff created (bareCommands 1) started forkAndAppend
    ((holds.tree.keys 1).mpr (by decide))).2 (logs 0) disk store ⟨folder, inv, holds.acknowledged 0 (by decide)⟩ 0
    fun place below => filled place (UInt64.le_trans below (by decide))).mpr ⟨?_, ?_⟩⟩
  · refine ⟨_, ⟨0, 0, some 0⟩, holds.resolveTimeline_eq resolves, rfl, UInt64.le_refl 0, fun stop same => ?_⟩
    exact Option.some.inj same ▸ UInt64.le_refl 0
  · have only : (logs 0).blocksBetween 0 0 = [⟨0, [recordOf ⟨sampleDatabase, 1, 1⟩ 0 (bareInput 1 0)], false⟩] := by
      rw [main]
      rfl
    change (∀ block ∈ (logs 0).blocksBetween 0 0, _) ∧ OnePage _ _ _ _ ((logs 0).blocksBetween 0 0)
    rw [only, onePage_cons, List.forall_mem_singleton]
    refine ⟨nofun, fun readable => ⟨?_, by decide, onePage_nil⟩⟩
    change (batchBytes _).length ≤ _
    rw [batchBytes_bare_length]
    decide

end Temnion.Branch
