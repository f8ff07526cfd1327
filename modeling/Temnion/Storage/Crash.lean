import Temnion.Storage.Paging

/-
This file stops a retirement between its durable effects and opens what it leaves.
-/

namespace Temnion.Storage

open Format Index LittleEndian Batches Procedure

/-- The moments at which a crash may hit a retirement: before the overwriting of the log file, after it and so before
the cut, after the cut, before the rename of the manifest, and after the rename. -/
inductive CrashPoint where
  | beforeOverwrite
  | beforeCut
  | afterCut
  | beforeRename
  | afterRename
  deriving DecidableEq, Repr

/-- The first operation that the crash no longer lets happen. -/
def CrashPoint.fault : CrashPoint → Option Fault
  | .beforeOverwrite => some ⟨.seekCompaction, 0, 0⟩
  | .beforeCut => some ⟨.truncateCompacted, 0, 0⟩
  | .afterCut => some ⟨.synchronizeCompacted, 0, 0⟩
  | .beforeRename => some ⟨.replaceManifest, 0, 0⟩
  | .afterRename => none

section Crash

/-- The world of an operation that a fault awaits. -/
def System.faulty (system : System) (store : Store) (fault : Option Fault) : World :=
  ⟨system.disk, store, system.acknowledged, fault⟩

/-- The files after a retirement that a crash cut short. -/
def System.crashed (system : System) (store : Store) (holds : List ReferenceHold) (crash : CrashPoint) : Disk :=
  (Store.retireWal holds (system.faulty store crash.fault)).2.disk

section Stopped

variable {store : Store} {system : System} {holds : List ReferenceHold} {crash : CrashPoint}

/-- A retirement without a frame to retire leaves the files alone wherever it stops. -/
theorem crashed_idle
    (meets : Meets (At (system.faulty store crash.fault) [] system.disk store) (Store.retireWal holds)
      (fun _ => At (system.faulty store crash.fault) [] system.disk store)
      (Interrupted (system.faulty store crash.fault) fun _ _ => (system.disk, store))) :
    system.crashed store holds crash = system.disk := by
  have ends := meets _ (At.start _)
  unfold System.crashed
  revert ends
  rcases Store.retireWal holds (system.faulty store crash.fault) with ⟨outcome, reached⟩
  cases outcome with
  | ok report => exact fun finished => finished.disk
  | error error =>
      intro stopped
      obtain ⟨fault, _, same, _⟩ := stopped
      exact (Prod.mk.inj same).1

/-- A retirement that a crash stops leaves the files of the operation that did not happen any more. -/
theorem crashed_stopped {fault : Fault} {passed : List FileOperation} {outcome : FileOperation → Nat → Disk × Store}
    {finalDisk : Disk} {finalStore : Store} (announced : crash.fault = some fault) (now : fault.skipped = 0)
    (listed : fault.operation ∈ passed)
    (meets : Meets (At (system.faulty store crash.fault) [] system.disk store) (Store.retireWal holds)
      (fun _ => At (system.faulty store crash.fault) passed finalDisk finalStore)
      (Interrupted (system.faulty store crash.fault) outcome)) :
    system.crashed store holds crash = (outcome fault.operation fault.written).1 := by
  have ends := meets _ (At.start _)
  unfold System.crashed
  revert ends
  rcases Store.retireWal holds (system.faulty store crash.fault) with ⟨result, reached⟩
  cases result with
  | ok report => exact fun done => absurd now (done.passed _ listed fault announced rfl)
  | error error =>
      intro stopped
      obtain ⟨other, same, left, _⟩ := stopped
      obtain rfl := Option.some.inj (same.symm.trans announced)
      exact congrArg Prod.fst left

end Stopped

variable [Crc32fast]

section Misnumbered

variable {header : WalHeader} {limits : Limits} {batch : List StoredEvent} {more : List UInt8}

/-- A frame whose records may not come next is refused. -/
theorem recoverFrame_misnumbered {store : Store} {wal : List UInt8} (fits : BatchFits store.limits batch)
    (ahead : wal.drop store.endOffset = batchBytes batch ++ more) (start : store.nextSequence < 2 ^ 64)
    (wrong : ¬Accepted store.header store.nextSequence store.lastKnown batch) :
    ∃ error, store.recoverFrame wal (batchBytes batch).length = .error error := by
  cases recovered : store.recoverFrame wal (batchBytes batch).length with
  | error error => exact ⟨error, rfl⟩
  | ok reached =>
      exfalso
      unfold Store.recoverFrame readFrameAt decodeFrameAt at recovered
      simp only [Except.bind_eq_ok, readExact_ok, asStorage_ok, decodeBatch_ok, Except.refuseIf_ok, exists_const,
        Prod.exists] at recovered
      obtain ⟨records, ⟨_, bytes, ⟨_, read⟩, fits', same⟩, _, next, known, checked, _⟩ := recovered
      rw [slice, ahead, List.take_left] at read
      rw [← read] at same
      obtain rfl := batchBytes_injective fits' fits same
      exact wrong ((validateNext_ok start).mp checked).1

/-- A log file whose first frame does not start at the mark of the manifest does not open. -/
theorem openStore_misnumbered {disk : Disk} (recovery : RecoveryMode)
    (wal : disk.wal = encodeWalHeader header ++ (batchBytes batch ++ more))
    (sound : validateLimits limits = .ok ()) (fits : BatchFits limits batch)
    (start : retirementMark disk.manifest < 2 ^ 64)
    (wrong : ¬Accepted header (retirementMark disk.manifest) none batch) :
    ∃ error, Store.openStore limits recovery disk = (.error error, disk) := by
  have opening := opening_ok wal sound
  have size := congrArg List.length wal
  rw [List.length_append, List.length_append, encodeWalHeader_length, batchBytes_length] at size
  have long : batchHeaderLen = 24 := rfl
  have ahead : disk.wal.drop (startStore header limits (retirementMark disk.manifest)).endOffset =
      batchBytes batch ++ more := by
    change disk.wal.drop walHeaderLen = _
    rw [wal, ← encodeWalHeader_length header, List.drop_left]
  obtain ⟨error, refused⟩ : ∃ error, (startStore header limits (retirementMark disk.manifest)).recoverFrame disk.wal
      (batchBytes batch).length = .error error := recoverFrame_misnumbered fits ahead start wrong
  obtain ⟨steps, positive⟩ : ∃ steps, disk.wal.length = steps + 1 := ⟨disk.wal.length - 1, by omega⟩
  have before : (startStore header limits (retirementMark disk.manifest)).endOffset < disk.wal.length := by
    change walHeaderLen < _
    omega
  have scan : Store.recoverFrames recovery disk.wal disk.wal.length
      (startStore header limits (retirementMark disk.manifest)) disk = (.error error, disk) := by
    rw [positive, Store.recoverFrames, if_pos (positive ▸ before), nextFrame_whole fits ahead, Procedure.lift_bind_ok]
    dsimp only
    rw [refused]
    rfl
  refine ⟨error, ?_⟩
  unfold Store.openStore
  rw [Procedure.bind_of_ok (Procedure.read_apply disk), opening, Procedure.lift_bind_ok, Procedure.bind_of_error scan]

end Misnumbered

/-- The directory opens in every mode and the handle returns exactly these events. -/
def Reopens (limits : Limits) (disk : Disk) (events : List StoredEvent) : Prop :=
  ∀ recovery, ∃ opened report reached, Store.openStore limits recovery disk = (.ok (opened, report), reached) ∧
    ReadsBack reached opened events

section Reopening

variable {limits : Limits} {log : Log} {disk : Disk} {store : Store} {gone kept : List (List StoredEvent)}

/-- A directory in good order opens again. -/
theorem Steady.reopens (steady : Steady log disk store) : Reopens store.limits disk log.events := by
  intro recovery
  obtain ⟨ends, inv⟩ := steady.reopen recovery steady.tracks.limits steady.tracks.fits
  have again : Steady log disk (opened store.header store.limits log) := by
    unfold Steady
    rw [opened_header, opened_limits]
    exact inv
  exact ⟨_, _, _, ends, again.readsBack⟩

/-- A log file whose first frame is not the first live one does not open while the manifest keeps its old mark. -/
theorem Inv.misplaced_refused {admits : List StoredEvent → Prop} (inv : Inv admits log disk store)
    (recovery : RecoveryMode) {next : List StoredEvent} {more : List UInt8} {misplaced : Disk}
    (split : log.live = gone ++ next :: kept) (retires : gone ≠ [])
    (wal : misplaced.wal = encodeWalHeader store.header ++ (batchBytes next ++ more))
    (manifest : misplaced.manifest = disk.manifest) :
    ∃ error, Store.openStore store.limits recovery misplaced = (.error error, misplaced) := by
  have mark : retirementMark misplaced.manifest = log.retiredCount := by rw [manifest, inv.stored.mark]
  have bound := inv.valid.bound
  obtain ⟨batch, rest, rfl⟩ := List.exists_cons_of_ne_nil retires
  have size := List.length_pos_of_ne_nil (inv.live_nonempty (by rw [split]; simp : batch ∈ log.live))
  rw [log.events_length, split, List.flatten_append, List.length_append, List.flatten_cons, List.length_append] at bound
  have wrong : ¬Accepted store.header (retirementMark misplaced.manifest) none next := by
    intro accepted
    obtain ⟨record, others, rfl⟩ := List.exists_cons_of_ne_nil
      (inv.live_nonempty (by rw [split]; simp : next ∈ log.live))
    have there := (inv.batch_accepted split).1.identity
    have here := accepted.1.identity
    have numbers := congrArg (fun id => id.sequence.toNat) (here.symm.trans there)
    rw [mark] at numbers
    dsimp only at numbers
    rw [toNat_ofNat (by omega), toNat_ofNat (by rw [List.flatten_cons, List.length_append]; omega),
      List.flatten_cons, List.length_append] at numbers
    omega
  exact openStore_misnumbered recovery wal inv.tracks.limits (inv.tracks.fits next (by rw [split]; simp))
    (by rw [mark]; omega) wrong

theorem Inv.misplaced_not_reopens {admits : List StoredEvent → Prop} (inv : Inv admits log disk store)
    {next : List StoredEvent} {more : List UInt8} {misplaced : Disk} {events : List StoredEvent}
    (split : log.live = gone ++ next :: kept) (retires : gone ≠ [])
    (wal : misplaced.wal = encodeWalHeader store.header ++ (batchBytes next ++ more))
    (manifest : misplaced.manifest = disk.manifest) : ¬Reopens store.limits misplaced events := by
  intro reopens
  obtain ⟨opened, report, reached, ends, _⟩ := reopens .rejectIncompleteTail
  obtain ⟨error, refused⟩ := inv.misplaced_refused .rejectIncompleteTail split retires wal manifest
  rw [refused] at ends
  exact absurd (Prod.mk.inj ends).1 (by simp)

/-- A log file that lost all its frames while the manifest keeps its old mark opens with a shorter log. -/
theorem Inv.emptied_not_reopens {admits : List StoredEvent → Prop} (inv : Inv admits log disk store)
    (retires : log.live ≠ []) {emptied : Disk} (wal : emptied.wal = encodeWalHeader store.header)
    (manifest : emptied.manifest = disk.manifest) : ¬Reopens store.limits emptied log.events := by
  intro reopens
  obtain ⟨opened, report, reached, ends, reads⟩ := reopens .rejectIncompleteTail
  have mark : retirementMark emptied.manifest = log.retiredCount := by rw [manifest, inv.stored.mark]
  have bound := inv.valid.bound
  rw [log.events_length] at bound
  obtain ⟨batch, rest, split⟩ := List.exists_cons_of_ne_nil retires
  have size := List.length_pos_of_ne_nil (inv.live_nonempty (by rw [split]; simp : batch ∈ log.live))
  have valid : (Log.mk log.retired []).Valid store.header := {
    retired := inv.valid.retired
    live := trivial
    nonempty := fun other member => inv.valid.nonempty other (List.mem_append_left _ (by simpa [Log.batches] using member))
    bound := by
      rw [Log.events_length]
      change log.retiredCount + 0 < 2 ^ 64
      omega }
  have whole : emptied.wal = encodeWalHeader store.header ++ (logBytes (Log.mk log.retired []).live ++ []) := by
    rw [wal]
    exact (List.append_nil _).symm
  have short : emptied.wal.length < 2 ^ 64 := by
    rw [wal, encodeWalHeader_length]
    decide
  have torn : TornTail store.limits [] := Or.inl (by decide)
  have same : Store.openStore store.limits .rejectIncompleteTail emptied =
      (.ok (Storage.opened store.header store.limits ⟨log.retired, []⟩,
        ⟨(Storage.opened store.header store.limits ⟨log.retired, []⟩).nextSequence, 0⟩), emptied) := by
    rw [openStore_eq whole short mark valid inv.tracks.limits (fun _ absent => absurd absent List.not_mem_nil) torn]
    rfl
  rw [ends] at same
  obtain ⟨rfl, _⟩ := Prod.mk.inj (Except.ok.inj (Prod.mk.inj same).1)
  have tracks : Tracks ⟨log.retired, []⟩ (Storage.opened store.header store.limits ⟨log.retired, []⟩) :=
    opened_tracks valid inv.tracks.limits fun _ absent => absurd absent List.not_mem_nil
  have counted := reads.length
  rw [tracks.nextSequence, Log.events_length, log.events_length, split] at counted
  simp only [List.flatten_nil, List.length_nil, List.flatten_cons, List.length_append] at counted
  have retired : (Log.mk log.retired []).retiredCount = log.retiredCount := rfl
  omega

/-- A log file that was cut while the manifest keeps its old mark does not bring the log back. -/
theorem Inv.cut_not_reopens {admits : List StoredEvent → Prop} (inv : Inv admits log disk store)
    (split : log.live = gone ++ kept) (retires : gone ≠ []) : ¬Reopens store.limits (cutDisk disk kept) log.events := by
  have wal := inv.stored.cut_wal kept
  cases kept with
  | nil =>
      have live : log.live ≠ [] := by
        rw [split]
        exact List.append_ne_nil_of_left_ne_nil retires _
      rw [logBytes_nil, List.append_nil] at wal
      exact inv.emptied_not_reopens live wal rfl
  | cons next kept =>
      rw [logBytes_cons] at wal
      exact inv.misplaced_not_reopens split retires wal rfl

/-- A log file that was overwritten but not cut brings the log back only when nothing was written. -/
theorem Inv.overwritten_reopens {admits : List StoredEvent → Prop} (inv : Inv admits log disk store)
    (steady : Steady log disk store) (split : log.live = gone ++ kept) (retires : gone ≠ []) :
    Reopens store.limits { disk with wal := overwrite walHeaderLen (logBytes kept) disk.wal } log.events ↔
      kept = [] := by
  constructor
  · intro reopens
    cases kept with
    | nil => rfl
    | cons next kept =>
        have wal := inv.stored.overwrite_wal (logBytes (next :: kept))
        rw [logBytes_cons, List.append_assoc, ← logBytes_cons] at wal
        exact absurd reopens (inv.misplaced_not_reopens split retires wal rfl)
  · intro nothing
    rw [nothing, logBytes_nil, overwrite_nil]
    exact steady.reopens

end Reopening

theorem locate_ne_nil (offset first : Nat) {batches : List (List StoredEvent)} (some' : batches ≠ []) :
    locate offset first batches ≠ [] := by
  intro empty
  have size := congrArg List.length empty
  rw [locate_length] at size
  exact some' (List.length_eq_zero_iff.mp size)

/-- The frames to retire are all frames when no batch is kept. -/
theorem Inv.locate_eq_frames_iff {admits : List StoredEvent → Prop} {log : Log} {disk : Disk} {store : Store}
    {gone kept : List (List StoredEvent)} (inv : Inv admits log disk store) (split : log.live = gone ++ kept) :
    locate walHeaderLen log.retiredCount gone = store.frames ↔ kept = [] := by
  rw [inv.tracks.frames, split, locate_append, List.self_eq_append_right, ← List.length_eq_zero_iff, locate_length,
    List.length_eq_zero_iff]

/-- Whether the crash leaves a log file that the manifest in the directory describes. -/
def CrashPoint.Agrees (retirable frames : List FrameLocation) : CrashPoint → Prop
  | .beforeOverwrite | .afterRename => True
  | .beforeCut => retirable = [] ∨ retirable = frames
  | .afterCut | .beforeRename => retirable = []

section Retirement

variable {header : WalHeader} {limits : Limits} {log : Log} {store : Store} {system : System}
  {holds : List ReferenceHold}

/-- A retirement that runs to its end leaves the acknowledged events in place. -/
theorem Settled.finished_reopens (settled : Settled header limits log store system) :
    Reopens limits (system.crashed store holds .afterRename) system.acknowledged := by
  obtain ⟨later, reached, effect, next⟩ := settled.step (.retire holds) trivial
  have same : later.events = log.events := by
    cases effect with
    | keep => rfl
    | retire split => exact retireLog_events split
  have disk : (system.step (.retire holds)).disk = system.crashed store holds .afterRename := by
    rw [System.step, System.perform_open settled.present]
    rfl
  have reopens := next.steady.reopens
  rw [next.limits, disk, same, ← settled.consistent.acknowledged] at reopens
  exact reopens

/-- The directory that a crash leaves brings the log back when the crash point agrees, and only then. -/
theorem Settled.crashed_reopens_iff (settled : Settled header limits log store system) (holds : List ReferenceHold)
    (crash : CrashPoint) : Reopens limits (system.crashed store holds crash) system.acknowledged ↔
      crash.Agrees (store.retirable system.disk.manifest holds) store.frames := by
  have steady := settled.steady
  have inv : Inv (SegmentFits header limits) log system.disk store := settled.consistent.inv
  have reopens := steady.reopens
  rw [settled.limits] at reopens
  rw [settled.consistent.acknowledged]
  have stopping : Inv (SegmentFits header limits) log (system.faulty store crash.fault).disk
      (system.faulty store crash.fault).store := inv
  rcases retireWal_cases stopping holds with ⟨nothing, meets⟩ | ⟨gone, kept, manifest, retires, split, _, retirable, meets⟩
  · have idle : store.retirable system.disk.manifest holds = [] := nothing
    rw [crashed_idle meets, idle]
    refine iff_of_true reopens ?_
    cases crash with
    | beforeOverwrite | afterRename => trivial
    | beforeCut => exact Or.inl rfl
    | afterCut | beforeRename => rfl
  · have located : store.retirable system.disk.manifest holds = locate walHeaderLen log.retiredCount gone := retirable
    have some' := locate_ne_nil walHeaderLen log.retiredCount retires
    have whole := inv.locate_eq_frames_iff split
    have cut := settled.consistent.inv.cut_not_reopens split retires
    have overwritten := settled.consistent.inv.overwritten_reopens steady split retires
    rw [settled.limits] at cut overwritten
    have stops : ∀ fault, crash.fault = some fault → fault.skipped = 0 → fault.operation ∈ retirementOperations →
        system.crashed store holds crash =
          (interruptedRetirement system.disk store gone kept fault.operation fault.written).1 :=
      fun fault announced now listed => crashed_stopped announced now listed meets
    rw [located]
    cases crash with
    | beforeOverwrite =>
        rw [stops _ rfl rfl (by decide)]
        exact iff_of_true reopens trivial
    | beforeCut =>
        rw [stops _ rfl rfl (by decide)]
        change Reopens limits { system.disk with wal := overwrite walHeaderLen (logBytes kept) system.disk.wal } _ ↔ _ ∨ _
        rw [overwritten, whole]
        exact (or_iff_right some').symm
    | afterCut =>
        rw [stops _ rfl rfl (by decide)]
        exact iff_of_false cut some'
    | beforeRename =>
        rw [stops _ rfl rfl (by decide)]
        exact iff_of_false cut some'
    | afterRename =>
        have final : Reopens limits (system.crashed store holds .afterRename) system.acknowledged :=
          settled.finished_reopens
        rw [settled.consistent.acknowledged] at final
        exact iff_of_true final trivial

/-- After any run the directory that a crash during a retirement leaves opens with the same history exactly when the
crash point agrees with the frames to retire. -/
theorem retirement_survives_crash {database : DatabaseId} {source : SourceId} {epoch : SourceEpoch}
    {start : System} {commands : List Command} (created : System.create database source epoch limits = .ok start)
    (under : ∀ command ∈ commands, command.Under limits) :
    ∃ store, (start.run commands).handle = some store ∧ ∀ holds crash,
      (Reopens limits ((start.run commands).crashed store holds crash) (start.run commands).acknowledged ↔
        crash.Agrees (store.retirable (start.run commands).disk.manifest holds) store.frames) := by
  obtain ⟨log, store, settled⟩ := (System.create_settled created).run under
  exact ⟨store, settled.present, settled.crashed_reopens_iff⟩

end Retirement

end Crash

/-- The crash after the cut loses the one event of a sealed log. -/
theorem retirement_loses_sealed_event :
    letI := Crc32fast.ieee
    ∃ store start, System.create sampleDatabase 1 1 Limits.default = .ok start ∧
      (start.run [.append [bareInput 1 5], .sealFrames]).handle = some store ∧
      ¬Reopens Limits.default ((start.run [.append [bareInput 1 5], .sealFrames]).crashed store [] .afterCut)
        (start.run [.append [bareInput 1 5], .sealFrames]).acknowledged := by
  generalize Crc32fast.ieee = inst
  obtain ⟨settled, retirable⟩ := sealed_sample 1 5
  refine ⟨_, _, System.create_ok.mpr ⟨rfl, rfl⟩, settled.present, ?_⟩
  rw [settled.crashed_reopens_iff, retirable]
  exact List.cons_ne_nil _ _

theorem retirement_survives_crash_sample :
    letI := Crc32fast.ieee
    ∃ store, ((System.fresh sampleDatabase 1 1 Limits.default).run
        [.append [bareInput 1 5], .sealFrames]).handle = some store ∧
      Reopens Limits.default
        (((System.fresh sampleDatabase 1 1 Limits.default).run [.append [bareInput 1 5], .sealFrames]).crashed store []
          .afterRename)
        ((System.fresh sampleDatabase 1 1 Limits.default).run [.append [bareInput 1 5], .sealFrames]).acknowledged := by
  generalize Crc32fast.ieee = inst
  have created : System.create sampleDatabase 1 1 Limits.default =
      .ok (System.fresh sampleDatabase 1 1 Limits.default) := System.create_ok.mpr ⟨rfl, rfl⟩
  have under : ∀ command ∈ [Command.append [bareInput 1 5], .sealFrames], command.Under Limits.default := by
    intro command member
    rcases List.mem_pair.mp member with rfl | rfl <;> trivial
  obtain ⟨store, handle, survives⟩ := retirement_survives_crash created under
  exact ⟨store, handle, (survives [] .afterRename).mpr trivial⟩

end Temnion.Storage
