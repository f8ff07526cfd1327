import Temnion.Storage.Failure

/-
This file says which frames a retirement takes out of the log file and shows that no event is lost.
-/

namespace Temnion.Storage

open Format Index LittleEndian Batches Procedure

/-- The frame contains the sequence. -/
def FrameLocation.Contains (frame : FrameLocation) (sequence : Nat) : Prop :=
  frame.first ≤ sequence ∧ sequence < frame.first + frame.count

/-- The manifest has an entry for exactly the sequences of the frame. -/
def RegistersFrame (manifest : Option SegmentManifest) (frame : FrameLocation) : Prop :=
  ∃ listed, manifest = some listed ∧ ∃ entry ∈ listed.sealedSegments,
    entry.firstSequence.toNat = frame.first ∧ entry.lastSequence.toNat = frame.last

/-- No sequence of the frame is held. -/
def Unheld (holds : List ReferenceHold) (frame : FrameLocation) : Prop :=
  ∀ hold ∈ holds, ∀ sequence, frame.Contains sequence → UInt64.ofNat sequence ∉ hold.heldSequences

/-- The frame is sealed and not held. -/
def Releasable (manifest : Option SegmentManifest) (holds : List ReferenceHold) (frame : FrameLocation) : Prop :=
  RegistersFrame manifest frame ∧ Unheld holds frame

/-- The log file loses the longest front of releasable frames, and the others move up to the header. -/
structure Releases (holds : List ReferenceHold) (before after : World) (gone kept : List FrameLocation) : Prop where
  split : before.store.frames = gone ++ kept
  released : ∀ frame ∈ gone, Releasable before.disk.manifest holds frame
  stops : ∀ frame ∈ kept.head?, ¬Releasable before.disk.manifest holds frame
  frames : after.store.frames = Store.relocate walHeaderLen kept
  summaries : after.store.summaries = before.store.summaries.drop gone.length
  wal : after.disk.wal = before.disk.wal.take walHeaderLen ++
    before.disk.wal.drop (walHeaderLen + (gone.map (·.length)).sum)

/-- Moving a frame keeps its sequences. -/
theorem mem_relocate {frames : List FrameLocation} {frame : FrameLocation} (offset : Nat) (member : frame ∈ frames) :
    ∃ moved ∈ Store.relocate offset frames, moved.first = frame.first ∧ moved.count = frame.count := by
  induction frames generalizing offset with
  | nil => exact absurd member List.not_mem_nil
  | cons head frames hypothesis =>
      rcases List.mem_cons.mp member with rfl | member
      · exact ⟨_, List.mem_cons_self, rfl, rfl⟩
      · obtain ⟨moved, inside, same⟩ := hypothesis (offset + head.length) member
        exact ⟨moved, List.mem_cons_of_mem _ inside, same⟩

/-- A held sequence of the log file stays in it. -/
theorem Releases.keeps_held {holds : List ReferenceHold} {before after : World} {gone kept : List FrameLocation}
    (releases : Releases holds before after gone kept) {hold : ReferenceHold} {sequence : Nat} (held : hold ∈ holds)
    (named : UInt64.ofNat sequence ∈ hold.heldSequences) {frame : FrameLocation} (member : frame ∈ before.store.frames)
    (contains : frame.Contains sequence) : ∃ frame ∈ after.store.frames, frame.Contains sequence := by
  rw [releases.split] at member
  rcases List.mem_append.mp member with member | member
  · exact absurd named ((releases.released frame member).2 hold held sequence contains)
  · obtain ⟨moved, inside, first, count⟩ := mem_relocate walHeaderLen member
    rw [releases.frames]
    refine ⟨moved, inside, ?_⟩
    unfold FrameLocation.Contains at contains ⊢
    rw [first, count]
    exact contains

theorem isHeld_false {holds : List ReferenceHold} {frame : FrameLocation} :
    (!Store.isHeld holds frame) = true ↔ Unheld holds frame := by
  rw [Bool.not_eq_true', ← Bool.not_eq_true]
  unfold Store.isHeld Unheld FrameLocation.Contains ReferenceHold.isSequenceHeld
  simp only [List.any_eq_true, List.mem_range'_1, decide_eq_true_eq, not_exists, not_and, and_imp]

section Release

variable [Crc32fast] {header : WalHeader} {limits : Limits} {log : Log} {disk : Disk} {store : Store}
  {system : System} {holds : List ReferenceHold}

/-- The check of both ends of a frame finds the entry of the frame. -/
theorem eligible_iff {admits : List StoredEvent → Prop} (inv : Inv admits log disk store) {manifest : SegmentManifest}
    (present : disk.manifest = some manifest) {frame : FrameLocation} (member : frame ∈ store.frames) :
    Store.eligible manifest holds frame = true ↔ Releasable disk.manifest holds frame := by
  rw [inv.tracks.frames] at member
  obtain ⟨batch, starting, count⟩ := exists_batch_of_mem_locate member
  have listed : (frame.first, batch) ∈ starts 0 log.batches := by
    rw [log.starts_batches]
    exact List.mem_append_right _ starting
  have bound := inv.valid.bound
  obtain ⟨size, inside⟩ := inv.valid.place listed
  have last : frame.last = frame.first + batch.length - 1 := by rw [FrameLocation.last, count]
  have fits : frame.first < 2 ^ 64 ∧ frame.last < 2 ^ 64 := by omega
  rw [Store.eligible, Bool.and_eq_true, isHeld_false, Releasable]
  refine and_congr_left fun _ => ?_
  rw [Bool.and_eq_true]
  constructor
  · intro both
    have entry := (inv.stored.registered manifest present).of_isSequenceSealed inv.valid listed both.1
    refine ⟨manifest, present, _, entry, toNat_ofNat fits.1, ?_⟩
    rw [last]
    change (UInt64.ofNat (frame.first + batch.length - 1)).toNat = _
    exact toNat_ofNat (by omega)
  · intro registers
    obtain ⟨other, same, entry, there, first, final⟩ := registers
    obtain rfl : manifest = other := Option.some.inj (present.symm.trans same)
    have covers : ∀ place, frame.first ≤ place → place ≤ frame.last → manifest.isSequenceSealed (UInt64.ofNat place) := by
      intro place lower upper
      apply List.any_eq_true.mpr
      refine ⟨entry, there, ?_⟩
      rw [SealedSegmentMeta.covers, Bool.and_eq_true, decide_eq_true_eq, decide_eq_true_eq, UInt64.le_iff_toNat_le,
        UInt64.le_iff_toNat_le, toNat_ofNat (by omega), first, final]
      exact ⟨lower, upper⟩
    exact ⟨covers _ (Nat.le_refl _) (by omega), covers _ (by omega) (Nat.le_refl _)⟩

/-- The frames to retire are the longest front of releasable frames. -/
theorem Inv.retirable_front {admits : List StoredEvent → Prop} (inv : Inv admits log disk store)
    (holds : List ReferenceHold) : ∃ kept, store.frames = store.retirable disk.manifest holds ++ kept ∧
      (∀ frame ∈ store.retirable disk.manifest holds, Releasable disk.manifest holds frame) ∧
      ∀ frame ∈ kept.head?, ¬Releasable disk.manifest holds frame := by
  cases present : disk.manifest with
  | none =>
      refine ⟨store.frames, rfl, fun frame absent => absurd absent List.not_mem_nil, ?_⟩
      intro frame _ releasable
      obtain ⟨⟨manifest, absent, _⟩, _⟩ := releasable
      contradiction
  | some manifest =>
      have member : ∀ frame ∈ store.frames, Store.eligible manifest holds frame = true ↔
          Releasable (some manifest) holds frame := by
        intro frame inside
        rw [← present]
        exact eligible_iff inv present inside
      refine ⟨store.frames.dropWhile (Store.eligible manifest holds), List.takeWhile_append_dropWhile.symm, ?_, ?_⟩
      · intro frame inside
        exact (member frame (List.takeWhile_subset _ inside)).mp (List.mem_takeWhile_imp inside)
      · intro frame first releasable
        have inside := List.dropWhile_subset _ (List.mem_of_mem_head? first)
        have refused := List.head?_dropWhile_not (Store.eligible manifest holds) store.frames
        rw [Option.mem_def.mp first] at refused
        have passes := (member frame inside).mpr releasable
        exact Bool.noConfusion (refused.symm.trans passes)

/-- Two handles over the same events answer every request alike. -/
theorem Steady.get_agrees {later : Log} {disk' : Disk} {store' : Store} (steady : Steady log disk store)
    (steady' : Steady later disk' store') (events : later.events = log.events) (header : store'.header = store.header)
    (id : EventId) : store'.get disk' id = store.get disk id := by
  by_cases unknown : id.source ≠ store.header.source ∨ id.epoch ≠ store.header.epoch ∨
      store.nextSequence ≤ id.sequence.toNat
  · have unknown' : id.source ≠ store'.header.source ∨ id.epoch ≠ store'.header.epoch ∨
        store'.nextSequence ≤ id.sequence.toNat := by
      rw [header, steady'.tracks.nextSequence, events, ← steady.tracks.nextSequence]
      exact unknown
    have refused : ∀ (store : Store) (disk : Disk), store.poisoned = false →
        (id.source ≠ store.header.source ∨ id.epoch ≠ store.header.epoch ∨ store.nextSequence ≤ id.sequence.toNat) →
          store.get disk id = .error (.unknownEvent id) := by
      intro store disk usable unknown
      unfold Store.get
      rw [Except.refuseIf_bind (by rw [usable]; decide), Except.refuseIf_bind_error unknown]
    rw [refused store disk steady.tracks.usable unknown, refused store' disk' steady'.tracks.usable unknown']
  · obtain ⟨source, known⟩ := not_or.mp unknown
    obtain ⟨epoch, inside⟩ := not_or.mp known
    rw [steady.tracks.nextSequence, Nat.not_le] at inside
    have found : log.events[id.sequence.toNat]? = some log.events[id.sequence.toNat] := List.getElem?_eq_getElem inside
    have identity := steady.valid.numbered _ _ found
    rw [Nat.zero_add, UInt64.ofNat_toNat, ← not_not.mp source, ← not_not.mp epoch] at identity
    have first := steady.get found
    have found' : later.events[id.sequence.toNat]? = some log.events[id.sequence.toNat] := by
      rw [events]
      exact found
    have second := steady'.get found'
    rw [identity] at first second
    rw [first, second]

/-- A retirement ends, takes out the longest front of releasable frames and keeps the answer to every request. -/
theorem Settled.releases (settled : Settled header limits log store system) (holds : List ReferenceHold) :
    ∃ report after gone kept, Store.retireWal holds (system.world store) = (.ok report, after) ∧
      Releases holds (system.world store) after gone kept := by
  have inv : Inv (SegmentFits header limits) log (system.world store).disk (system.world store).store :=
    settled.consistent.inv
  obtain ⟨kept, split, released, stops⟩ := inv.retirable_front holds
  have ran : ∀ {disk : Disk} {store' : Store} {passed : List FileOperation} {outcome : FileOperation → Nat → Disk × Store},
      Meets (At (system.world store) [] system.disk store) (Store.retireWal holds)
        (fun _ => At (system.world store) passed disk store') (Interrupted (system.world store) outcome) →
      ∃ report after, Store.retireWal holds (system.world store) = (.ok report, after) ∧ after.disk = disk ∧
        after.store = store' := by
    intro disk store' passed outcome meets
    have ends := meets _ (At.start _)
    rcases ran : Store.retireWal holds (system.world store) with ⟨result, after⟩
    rw [ran] at ends
    cases result with
    | ok report => exact ⟨report, after, rfl, ends.disk, ends.store⟩
    | error error =>
        obtain ⟨fault, announced, _⟩ := ends
        exact absurd announced nofun
  have header' : (encodeWalHeader store.header).length = walHeaderLen := encodeWalHeader_length _
  rcases retireWal_cases inv holds with ⟨nothing, meets⟩ | ⟨gone, rest, manifest, retires, live, _, retirable, meets⟩
  · obtain ⟨report, after, done, disk, store'⟩ := ran meets
    rw [nothing] at split released
    refine ⟨report, after, [], kept, done, split, released, stops, ?_, ?_, ?_⟩
    · rw [store', ← List.nil_append kept, ← split, inv.tracks.frames, relocate_locate]
    · rw [store']
      rfl
    · rw [disk, List.map_nil, List.sum_nil, Nat.add_zero]
      exact (List.take_append_drop _ _).symm
  · obtain ⟨report, after, done, disk, store'⟩ := ran meets
    have rest' : kept = locate (walHeaderLen + (logBytes gone).length) (log.retiredCount + gone.flatten.length) rest := by
      rw [retirable, inv.tracks.frames, live, locate_append] at split
      exact (List.append_cancel_left split).symm
    refine ⟨report, after, _, kept, done, split, released, stops, ?_, ?_, ?_⟩
    · rw [store']
      change Store.relocate walHeaderLen (store.frames.drop gone.length) = _
      have drop : store.frames.drop gone.length = kept := by
        have frames : store.frames = _ := split
        rw [frames, retirable, ← locate_length walHeaderLen log.retiredCount gone, List.drop_left]
      rw [drop]
    · rw [store', retirable, locate_length]
      rfl
    · rw [disk, retirable, locate_lengths, inv.stored.drop_wal live]
      change (cutDisk (system.world store).disk rest).wal = _
      have wal : (system.world store).disk.wal = _ := inv.stored.wal
      rw [inv.stored.cut_wal, wal, ← header']
      change _ = (encodeWalHeader store.header ++ logBytes log.live).take (encodeWalHeader store.header).length ++ _
      rw [List.take_left]
      rfl

/-- After any run under fixed limits a retirement takes exactly the longest front of sealed and unheld frames out of
the log file. Held sequences stay there, and every event is read as before, also from a directory opened again. -/
theorem retirement_loses_nothing {database : DatabaseId} {source : SourceId} {epoch : SourceEpoch} {start : System}
    {commands : List Command} (created : System.create database source epoch limits = .ok start)
    (under : ∀ command ∈ commands, command.Under limits) :
    ∃ store, (start.run commands).handle = some store ∧ ∀ holds, ∃ report after gone kept,
      Store.retireWal holds ((start.run commands).world store) = (.ok report, after) ∧
      Releases holds ((start.run commands).world store) after gone kept ∧
      (∀ hold ∈ holds, ∀ sequence, UInt64.ofNat sequence ∈ hold.heldSequences →
        (∃ frame ∈ store.frames, frame.Contains sequence) → ∃ frame ∈ after.store.frames, frame.Contains sequence) ∧
      after.store.nextSequence = store.nextSequence ∧
      (∀ id, after.store.get after.disk id = store.get (start.run commands).disk id) ∧
      ∀ recovery, ∃ opened report reached, Store.openStore limits recovery after.disk = (.ok (opened, report), reached) ∧
        opened.nextSequence = store.nextSequence ∧ ∀ id, opened.get reached id = store.get (start.run commands).disk id := by
  obtain ⟨log, store, settled⟩ := (System.create_settled created).run under
  refine ⟨store, settled.present, fun holds => ?_⟩
  obtain ⟨report, after, gone, kept, done, releases⟩ := settled.releases holds
  have effect := settled.step (.retire holds) trivial
  rw [System.step, System.perform_open settled.present, done] at effect
  obtain ⟨later, reached, effect, next⟩ := effect
  have events : later.events = log.events := by
    cases effect with
    | keep => rfl
    | retire split => exact retireLog_events split
  obtain rfl : after.store = reached := Option.some.inj next.present
  have header : after.store.header = store.header := next.header.trans settled.header.symm
  have steady : Steady later after.disk after.store := next.steady
  refine ⟨report, after, gone, kept, done, releases, ?_, ?_, ?_, ?_⟩
  · intro hold member sequence held frame
    obtain ⟨frame, inside, contains⟩ := frame
    exact releases.keeps_held member held inside contains
  · rw [steady.tracks.nextSequence, events, settled.steady.tracks.nextSequence]
  · exact settled.steady.get_agrees steady events header
  · intro recovery
    obtain ⟨ends, inv⟩ := steady.reopen recovery steady.tracks.limits steady.tracks.fits
    have again : Steady later after.disk (opened after.store.header after.store.limits later) := by
      unfold Steady
      rw [opened_header, opened_limits]
      exact inv
    rw [next.limits] at ends again
    refine ⟨_, _, _, ends, ?_, ?_⟩
    · rw [again.tracks.nextSequence, events, settled.steady.tracks.nextSequence]
    · exact settled.steady.get_agrees again events (opened_header.trans header)

end Release

theorem retirement_loses_nothing_sample :
    letI := Crc32fast.ieee
    ∃ store, ((System.fresh sampleDatabase 1 1 Limits.default).run
        [.append [bareInput 1 5], .sealFrames]).handle = some store ∧
      ∃ report after, Store.retireWal []
          (((System.fresh sampleDatabase 1 1 Limits.default).run [.append [bareInput 1 5], .sealFrames]).world store) =
        (.ok report, after) ∧ after.store.nextSequence = store.nextSequence := by
  generalize Crc32fast.ieee = inst
  have created : System.create sampleDatabase 1 1 Limits.default =
      .ok (System.fresh sampleDatabase 1 1 Limits.default) := System.create_ok.mpr ⟨rfl, rfl⟩
  have under : ∀ command ∈ [Command.append [bareInput 1 5], .sealFrames], command.Under Limits.default := by
    intro command member
    rcases List.mem_pair.mp member with rfl | rfl <;> trivial
  obtain ⟨store, handle, retires⟩ := retirement_loses_nothing created under
  obtain ⟨report, after, _, _, done, _, _, next, _⟩ := retires []
  exact ⟨store, handle, report, after, done, next⟩

end Temnion.Storage
