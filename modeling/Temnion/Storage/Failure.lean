import Temnion.Storage.Crash

/-
This file lets one file operation fail and shows when the handle or the files still tell the truth.
-/

namespace Temnion.Storage

open Format Index LittleEndian Batches Procedure

/-- Bytes that replace others inside the file keep its length. -/
theorem overwrite_length {offset : Nat} {bytes wal : List UInt8} (inside : offset + bytes.length ≤ wal.length) :
    (overwrite offset bytes wal).length = wal.length := by
  rw [overwrite, List.length_append, List.length_append, List.length_take, List.length_drop]
  omega

/-- The events of a frame are its batch. -/
theorem Log.events_of_split {log : Log} {before after : List (List StoredEvent)} {batch : List StoredEvent}
    (split : log.live = before ++ batch :: after) :
    (log.events.drop (log.retiredCount + before.flatten.length)).take batch.length = batch := by
  have front : log.events = (log.retired.flatten ++ before.flatten) ++ (batch ++ after.flatten) := by
    rw [log.events_eq, split, List.flatten_append, List.flatten_cons, List.append_assoc]
  have size : log.retiredCount + before.flatten.length = (log.retired.flatten ++ before.flatten).length := by
    rw [List.length_append]
    rfl
  rw [front, size, List.drop_left, List.take_left]

section Failure

variable [Crc32fast]

/-- Every later use of the handle is refused. -/
structure Refuses (store : Store) : Prop where
  append : ∀ batch world, world.store = store → (Store.append batch world).1 = .error .poisoned
  get : ∀ disk id, store.get disk id = .error .poisoned
  history : ∀ disk filter budget cursor, store.history disk filter budget cursor = .error .poisoned
  sealFrames : ∀ world, world.store = store → (Store.sealFrames world).1 = .error .poisoned
  retireWal : ∀ holds world, world.store = store → (Store.retireWal holds world).1 = .error .poisoned

/-- A handle is refused everywhere exactly when it is poisoned. -/
theorem refuses_iff {store : Store} : Refuses store ↔ store.poisoned = true := by
  constructor
  · intro refuses
    by_contra usable
    have prepared : store.prepare [] = .error .emptyBatch := by
      unfold Store.prepare
      rw [Except.refuseIf_bind usable, Except.refuseIf_bind_error rfl]
    have refused := refuses.append [] ⟨⟨[], [], none, []⟩, store, [], none⟩ rfl
    unfold Store.append at refused
    rw [Procedure.bind_of_ok (Procedure.read_apply _), prepared] at refused
    have impossible := Except.error.inj refused
    contradiction
  · intro poisoned
    refine ⟨?_, fun disk id => ?_, fun disk filter budget cursor => ?_, ?_, ?_⟩
    · intro batch world same
      subst same
      have prepared : world.store.prepare batch = .error .poisoned := by
        unfold Store.prepare
        rw [Except.refuseIf_bind_error poisoned]
      unfold Store.append
      rw [Procedure.bind_of_ok (Procedure.read_apply _), prepared]
      rfl
    · unfold Store.get
      rw [Except.refuseIf_bind_error poisoned]
    · unfold Store.history
      rw [Except.refuseIf_bind_error poisoned]
    · intro world same
      subst same
      unfold Store.sealFrames
      rw [Procedure.bind_of_ok (Procedure.read_apply _), refuseIf_bind_error poisoned]
    · intro holds world same
      subst same
      unfold Store.retireWal
      rw [Procedure.bind_of_ok (Procedure.read_apply _), refuseIf_bind_error poisoned]

/-- Every frame of the handle decodes to its events, and the directory opens with the whole history. -/
structure Represents (limits : Limits) (disk : Disk) (store : Store) (events : List StoredEvent) : Prop where
  frames : ∀ frame ∈ store.frames, decodeFrameAt disk.wal store.limits frame.offset frame.length =
    .ok ((events.drop frame.first).take frame.count)
  reopens : Reopens limits disk events

/-- What a failure may leave behind: a handle that refuses everything, or a handle and files that agree. -/
def Contained (limits : Limits) (events : List StoredEvent) (world : World) : Prop :=
  Refuses world.store ∨ Represents limits world.disk world.store events

section Frames

variable {offset first : Nat} {batches : List (List StoredEvent)}

/-- Every frame has a place among the batches. -/
theorem exists_split_of_mem_locate {frame : FrameLocation} (member : frame ∈ locate offset first batches) :
    ∃ before batch after, batches = before ++ batch :: after ∧
      frame = ⟨offset + (logBytes before).length, (batchBytes batch).length, first + before.flatten.length,
        batch.length⟩ := by
  induction batches generalizing offset first with
  | nil => simp at member
  | cons head batches ih =>
      rw [locate_cons, List.mem_cons] at member
      rcases member with rfl | member
      · exact ⟨[], head, batches, rfl, rfl⟩
      · obtain ⟨before, batch, after, split, rfl⟩ := ih member
        refine ⟨head :: before, batch, after, by rw [split]; rfl, ?_⟩
        rw [logBytes_cons, List.length_append, List.flatten_cons, List.length_append, Nat.add_assoc, Nat.add_assoc]

theorem mem_locate_of_split {before after : List (List StoredEvent)} {batch : List StoredEvent}
    (split : batches = before ++ batch :: after) :
    ⟨offset + (logBytes before).length, (batchBytes batch).length, first + before.flatten.length, batch.length⟩ ∈
      locate offset first batches := by
  rw [split, locate_append, locate_cons]
  exact List.mem_append_right _ List.mem_cons_self

/-- Bytes that hold every batch at the offset of its frame hold the whole log. -/
theorem slice_of_frames {wal : List UInt8}
    (holds : ∀ before batch after, batches = before ++ batch :: after →
      slice wal (offset + (logBytes before).length) (batchBytes batch).length = batchBytes batch) :
    slice wal offset (logBytes batches).length = logBytes batches := by
  induction batches generalizing offset with
  | nil => rw [logBytes_nil, List.length_nil, slice, List.take_zero]
  | cons head batches ih =>
      have front := holds [] head batches rfl
      rw [logBytes_nil, List.length_nil, Nat.add_zero] at front
      have rest : slice wal (offset + (batchBytes head).length) (logBytes batches).length = logBytes batches := by
        apply ih
        intro before batch after split
        have there := holds (head :: before) batch after (by rw [split]; rfl)
        rw [logBytes_cons, List.length_append, ← Nat.add_assoc] at there
        exact there
      rw [logBytes_cons, List.length_append]
      unfold slice at front rest ⊢
      rw [List.take_add, front, List.drop_drop, rest]

end Frames

section Files

variable {log : Log} {disk : Disk} {store : Store} {gone kept : List (List StoredEvent)}

/-- A directory in good order represents its log. -/
theorem Steady.represents (steady : Steady log disk store) : Represents store.limits disk store log.events where
  frames := by
    intro frame member
    rw [steady.tracks.frames] at member
    obtain ⟨before, batch, after, split, rfl⟩ := exists_split_of_mem_locate member
    rw [steady.decodeFrameAt_ok split, Log.events_of_split split]
  reopens := steady.reopens

/-- A log file of the same length whose header and frames are all in place is the old one. -/
theorem Steady.wal_of_frames (steady : Steady log disk store) {wal : List UInt8} (size : wal.length = disk.wal.length)
    (front : wal.take walHeaderLen = encodeWalHeader store.header)
    (frames : ∀ frame ∈ store.frames, decodeFrameAt wal store.limits frame.offset frame.length =
      .ok ((log.events.drop frame.first).take frame.count)) : wal = disk.wal := by
  have whole : slice wal walHeaderLen (logBytes log.live).length = logBytes log.live := by
    apply slice_of_frames
    intro before batch after split
    have decoded := frames _ (by rw [steady.tracks.frames]; exact mem_locate_of_split split)
    rw [Log.events_of_split split] at decoded
    unfold decodeFrameAt at decoded
    obtain ⟨bytes, read, decoded⟩ := Except.bind_eq_ok.mp decoded
    rw [asStorage_ok, decodeBatch_ok] at decoded
    rw [(readExact_ok.mp read).2, decoded.2]
  have rest : wal.drop walHeaderLen = logBytes log.live := by
    rw [← whole, slice, List.take_of_length_le]
    rw [List.length_drop, size, steady.stored.walLength]
    omega
  rw [← List.take_append_drop walHeaderLen wal, front, rest, ← steady.stored.wal]

/-- An overwritten log file still represents the log when the bytes were there already, and only then. -/
theorem Steady.overwritten_represents_iff (steady : Steady log disk store) {bytes : List UInt8}
    (inside : walHeaderLen + bytes.length ≤ disk.wal.length) :
    Represents store.limits { disk with wal := overwrite walHeaderLen bytes disk.wal } store log.events ↔
      overwrite walHeaderLen bytes disk.wal = disk.wal := by
  constructor
  · intro represents
    apply steady.wal_of_frames (overwrite_length inside) _ represents.frames
    rw [steady.stored.overwrite_wal, ← encodeWalHeader_length store.header, List.take_left]
  · intro same
    rw [same]
    exact steady.represents

/-- An overwritten log file that was not cut represents the log when no frame was kept, and only then. -/
theorem Steady.unshortened_represents_iff (steady : Steady log disk store) (split : log.live = gone ++ kept)
    (retires : gone ≠ []) :
    Represents store.limits { disk with wal := overwrite walHeaderLen (logBytes kept) disk.wal } store log.events ↔
      kept = [] := by
  constructor
  · intro represents
    exact (Inv.overwritten_reopens steady steady split retires).mp represents.reopens
  · intro nothing
    rw [nothing, logBytes_nil, overwrite_nil]
    exact steady.represents

/-- The bytes behind the retired frames are the frames that are kept. -/
theorem Stored.drop_wal {admits : List StoredEvent → Prop} {header : WalHeader} (stored : Stored admits header log disk)
    (split : log.live = gone ++ kept) : disk.wal.drop (walHeaderLen + (logBytes gone).length) = logBytes kept := by
  have whole := stored.wal
  rw [split, logBytes_append, ← List.append_assoc] at whole
  have size : walHeaderLen + (logBytes gone).length = (encodeWalHeader header ++ logBytes gone).length := by
    rw [List.length_append, encodeWalHeader_length]
  rw [whole, size, List.drop_left]

end Files

theorem locate_lengths (offset first : Nat) (batches : List (List StoredEvent)) :
    ((locate offset first batches).map (·.length)).sum = (logBytes batches).length := by
  induction batches generalizing offset first with
  | nil => rfl
  | cons batch batches ih =>
      rw [locate_cons, List.map_cons, List.sum_cons, ih, logBytes_cons, List.length_append]

/-- Whether a retirement that stops at the fault has not yet changed what the log file says. -/
def Fault.Harmless (fault : Fault) (wal : List UInt8) (retirable frames : List FrameLocation) : Prop :=
  retirable = [] ∨ match fault.operation with
    | .writeCompacted =>
        let remaining := wal.drop (walHeaderLen + (retirable.map (·.length)).sum)
        overwrite walHeaderLen (remaining.take fault.written) wal = wal
    | .truncateCompacted => retirable = frames
    | .synchronizeCompacted | .createManifestDirectory | .createTemporaryManifest | .writeTemporaryManifest
    | .synchronizeTemporaryManifest | .replaceManifest => False
    | _ => True

section Settled

variable {header : WalHeader} {limits : Limits} {log : Log} {store : Store} {system : System} {fault : Fault}
  {error : StorageError} {reached : World}

/-- A failing append poisons the handle or changes nothing. -/
theorem Settled.append_contained (settled : Settled header limits log store system) {batch : List WriteEvent}
    (failed : Store.append batch (system.faulty store (some fault)) = (.error error, reached)) :
    Contained limits system.acknowledged reached := by
  rcases append_error failed with poisoned | rfl
  · exact Or.inl (refuses_iff.mpr poisoned)
  · right
    have represents := settled.steady.represents
    rw [settled.limits, ← settled.consistent.acknowledged] at represents
    exact represents

/-- A failing seal keeps the log and the handle. -/
theorem Settled.seal_contained (settled : Settled header limits log store system)
    (failed : Store.sealFrames (system.faulty store (some fault)) = (.error error, reached)) :
    Contained limits system.acknowledged reached := by
  have steady := settled.steady
  have inv : Inv (SegmentFits store.header store.limits) log (system.faulty store (some fault)).disk
      (system.faulty store (some fault)).store := steady
  have halted := sealFrames_keeps inv False.elim (fun _ fits => fits) False.elim _ rfl
  rw [failed] at halted
  obtain ⟨_, sealing⟩ := halted
  have kept : Steady log reached.disk reached.store := by
    rw [sealing.store]
    exact ⟨steady.valid, sealing.stored, steady.tracks⟩
  have represents := kept.represents
  rw [← settled.consistent.acknowledged] at represents
  have same : reached.store.limits = limits := by
    rw [sealing.store]
    exact settled.limits
  rw [same] at represents
  exact Or.inr represents

/-- A failing retirement is contained when its fault is harmless, and only then. -/
theorem Settled.retirement_contained_iff (settled : Settled header limits log store system)
    {holds : List ReferenceHold}
    (failed : Store.retireWal holds (system.faulty store (some fault)) = (.error error, reached)) :
    Contained limits system.acknowledged reached ↔
      fault.Harmless system.disk.wal (store.retirable system.disk.manifest holds) store.frames := by
  have steady := settled.steady
  have inv : Inv (SegmentFits header limits) log (system.faulty store (some fault)).disk
      (system.faulty store (some fault)).store := settled.consistent.inv
  have represents := steady.represents
  rw [settled.limits] at represents
  rw [settled.consistent.acknowledged]
  rcases retireWal_cases inv holds with ⟨nothing, meets⟩ | ⟨gone, kept, manifest, retires, split, _, retirable, meets⟩
  · have idle : store.retirable system.disk.manifest holds = [] := nothing
    have stopped := meets _ (At.start _)
    rw [failed] at stopped
    obtain ⟨_, _, same, _⟩ := stopped
    obtain ⟨disk, handle⟩ := Prod.mk.inj same
    refine iff_of_true (Or.inr ?_) (Or.inl idle)
    rw [disk, handle]
    exact represents
  · have located : store.retirable system.disk.manifest holds = locate walHeaderLen log.retiredCount gone := retirable
    have some' := locate_ne_nil walHeaderLen log.retiredCount retires
    have stopped := meets _ (At.start _)
    rw [failed] at stopped
    obtain ⟨announced, same, left, _⟩ := stopped
    obtain rfl : fault = announced := Option.some.inj same
    have usable : ∀ handle, handle.poisoned = store.poisoned → ¬Refuses handle := by
      intro handle kind
      rw [refuses_iff, kind, steady.tracks.usable]
      decide
    have cut : ∀ handle, handle.poisoned = store.poisoned → reached.disk = cutDisk system.disk kept →
        reached.store = handle → ¬Contained limits log.events reached := by
      intro handle kind disk same' contained
      rcases contained with refuses | represents
      · rw [same'] at refuses
        exact usable handle kind refuses
      · have reopens := represents.reopens
        rw [disk, ← settled.limits] at reopens
        exact settled.consistent.inv.cut_not_reopens split retires reopens
    unfold Fault.Harmless
    rw [located, or_iff_right some', locate_lengths, steady.stored.drop_wal split]
    cases operation : fault.operation with
    | writeCompacted =>
        rw [operation] at left
        obtain ⟨disk, handle⟩ := Prod.mk.inj left
        have room : walHeaderLen + ((logBytes kept).take fault.written).length ≤ system.disk.wal.length := by
          rw [steady.stored.walLength, split, logBytes_append, List.length_append, List.length_take]
          omega
        have overwritten := steady.overwritten_represents_iff room
        rw [settled.limits] at overwritten
        unfold Contained
        rw [disk, handle]
        exact (or_iff_right (usable store rfl)).trans overwritten
    | truncateCompacted =>
        rw [operation] at left
        obtain ⟨disk, handle⟩ := Prod.mk.inj left
        unfold Contained
        rw [disk, handle]
        have overwritten := steady.unshortened_represents_iff split retires
        rw [settled.limits] at overwritten
        dsimp only
        rw [settled.consistent.inv.locate_eq_frames_iff split]
        exact (or_iff_right (usable store rfl)).trans overwritten
    | synchronizeCompacted =>
        rw [operation] at left
        obtain ⟨disk, handle⟩ := Prod.mk.inj left
        exact iff_of_false (cut store rfl disk handle) id
    | createManifestDirectory | createTemporaryManifest | writeTemporaryManifest | synchronizeTemporaryManifest
    | replaceManifest =>
        rw [operation] at left
        obtain ⟨disk, handle⟩ := Prod.mk.inj left
        exact iff_of_false (cut (cutStore store gone kept) rfl disk handle) id
    | _ =>
        rw [operation] at left
        obtain ⟨disk, handle⟩ := Prod.mk.inj left
        refine iff_of_true (Or.inr ?_) trivial
        rw [disk, handle]
        exact represents

/-- A retirement of some frames stops at a fault of an operation that it passes. -/
theorem Settled.retirement_stops (settled : Settled header limits log store system) (fault : Fault)
    (holds : List ReferenceHold) (some' : store.retirable system.disk.manifest holds ≠ []) (now : fault.skipped = 0)
    (listed : fault.operation ∈ retirementOperations) :
    ∃ error reached, Store.retireWal holds (system.faulty store (some fault)) = (.error error, reached) := by
  have inv : Inv (SegmentFits header limits) log (system.faulty store (some fault)).disk
      (system.faulty store (some fault)).store := settled.consistent.inv
  rcases retireWal_cases inv holds with ⟨nothing, _⟩ | ⟨gone, kept, manifest, _, _, _, _, meets⟩
  · exact absurd nothing some'
  · have ends := meets _ (At.start _)
    revert ends
    rcases Store.retireWal holds (system.faulty store (some fault)) with ⟨outcome, reached⟩
    cases outcome with
    | ok report => exact fun finished => absurd now (finished.passed _ listed fault rfl rfl)
    | error error => exact fun _ => ⟨error, reached, rfl⟩

/-- After any run a single failing file operation is contained in an append and in a seal, and in a retirement exactly
when it is harmless. -/
theorem failures_are_contained {database : DatabaseId} {source : SourceId} {epoch : SourceEpoch}
    {start : System} {commands : List Command} (created : System.create database source epoch limits = .ok start)
    (under : ∀ command ∈ commands, command.Under limits) :
    ∃ store, (start.run commands).handle = some store ∧ ∀ fault error reached,
      (∀ batch, Store.append batch ((start.run commands).faulty store (some fault)) = (.error error, reached) →
        Contained limits (start.run commands).acknowledged reached) ∧
      (Store.sealFrames ((start.run commands).faulty store (some fault)) = (.error error, reached) →
        Contained limits (start.run commands).acknowledged reached) ∧
      ∀ holds, Store.retireWal holds ((start.run commands).faulty store (some fault)) = (.error error, reached) →
        (Contained limits (start.run commands).acknowledged reached ↔
          fault.Harmless (start.run commands).disk.wal (store.retirable (start.run commands).disk.manifest holds)
            store.frames) := by
  obtain ⟨log, store, settled⟩ := (System.create_settled created).run under
  refine ⟨store, settled.present, fun fault error reached => ⟨fun batch failed => ?_, fun failed => ?_, fun holds failed => ?_⟩⟩
  · exact settled.append_contained failed
  · exact settled.seal_contained failed
  · exact settled.retirement_contained_iff failed

end Settled

end Failure

/-- A retirement whose synchronization fails leaves a usable handle over a log file that it does not describe. -/
theorem failed_retirement_stays_usable :
    letI := Crc32fast.ieee
    ∃ store start error reached, System.create sampleDatabase 1 1 Limits.default = .ok start ∧
      (start.run [.append [bareInput 1 5], .sealFrames]).handle = some store ∧
      Store.retireWal [] ((start.run [.append [bareInput 1 5], .sealFrames]).faulty store
        (some ⟨.synchronizeCompacted, 0, 0⟩)) = (.error error, reached) ∧
      ¬Contained Limits.default (start.run [.append [bareInput 1 5], .sealFrames]).acknowledged reached := by
  generalize Crc32fast.ieee = inst
  obtain ⟨settled, retirable⟩ := sealed_sample 1 5
  have some' := List.cons_ne_nil (FrameLocation.mk walHeaderLen
    (batchBytes [recordOf ⟨sampleDatabase, 1, 1⟩ 0 (bareInput 1 5)]).length 0 1) []
  obtain ⟨error, reached, failed⟩ := settled.retirement_stops ⟨.synchronizeCompacted, 0, 0⟩ []
    (by rw [retirable]; exact some') rfl (by decide)
  refine ⟨_, _, error, reached, System.create_ok.mpr ⟨rfl, rfl⟩, settled.present, failed, ?_⟩
  rw [settled.retirement_contained_iff failed, retirable]
  exact fun harmless => harmless.elim some' id

theorem failures_are_contained_sample :
    letI := Crc32fast.ieee
    ∃ store error reached, ((System.fresh sampleDatabase 1 1 Limits.default).run
        [.append [bareInput 1 5], .sealFrames]).handle = some store ∧
      Store.retireWal [] (((System.fresh sampleDatabase 1 1 Limits.default).run
        [.append [bareInput 1 5], .sealFrames]).faulty store (some ⟨.seekCompaction, 0, 0⟩)) = (.error error, reached) ∧
      Contained Limits.default ((System.fresh sampleDatabase 1 1 Limits.default).run
        [.append [bareInput 1 5], .sealFrames]).acknowledged reached := by
  generalize Crc32fast.ieee = inst
  obtain ⟨settled, retirable⟩ := sealed_sample 1 5
  have created : System.create sampleDatabase 1 1 Limits.default =
      .ok (System.fresh sampleDatabase 1 1 Limits.default) := System.create_ok.mpr ⟨rfl, rfl⟩
  have under : ∀ command ∈ [Command.append [bareInput 1 5], .sealFrames], command.Under Limits.default := by
    intro command member
    rcases List.mem_pair.mp member with rfl | rfl <;> trivial
  obtain ⟨store, handle, contained⟩ := failures_are_contained created under
  obtain rfl := Option.some.inj (settled.present.symm.trans handle)
  obtain ⟨error, reached, failed⟩ := settled.retirement_stops ⟨.seekCompaction, 0, 0⟩ []
    (by rw [retirable]; exact List.cons_ne_nil _ _) rfl (by decide)
  exact ⟨_, error, reached, handle, failed, ((contained _ error reached).2.2 [] failed).mpr (Or.inr trivial)⟩

end Temnion.Storage
