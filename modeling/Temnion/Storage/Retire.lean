import Temnion.Storage.Recovery
import Mathlib.Data.List.TakeWhile

/-
This file shows what a retirement leaves behind, whether it ends or stops at one of its file operations.
-/

namespace Temnion.Storage

open Format Index LittleEndian Batches Procedure

/-- The fault to come is the one that the base world announced, perhaps a few uses closer. -/
def Ages (first later : Option Fault) : Prop :=
  match first, later with
  | none, none => True
  | some fault, some closer =>
      closer.operation = fault.operation ∧ closer.written = fault.written ∧ closer.skipped ≤ fault.skipped
  | _, _ => False

theorem Ages.refl (fault : Option Fault) : Ages fault fault := by
  cases fault with
  | none => trivial
  | some fault => exact ⟨rfl, rfl, le_refl _⟩

theorem Ages.pass {first later : Option Fault} (ages : Ages first later) (operation : FileOperation) :
    Ages first (later.map (pass operation)) := by
  cases first <;> cases later
  · trivial
  · exact ages
  · exact ages
  · next fault closer =>
      obtain ⟨same, written, skipped⟩ := ages
      unfold Storage.pass
      simp only [Option.map_some]
      split
      · exact ⟨same, written, by dsimp only; omega⟩
      · exact ⟨same, written, skipped⟩

/-- The world of a retirement that has reached these files and this handle and has passed these operations. -/
structure At (base : World) (passed : List FileOperation) (disk : Disk) (store : Store) (world : World) : Prop where
  disk : world.disk = disk
  store : world.store = store
  acknowledged : world.acknowledged = base.acknowledged
  ages : Ages base.fault world.fault
  passed : ∀ operation ∈ passed, ∀ fault, base.fault = some fault → fault.operation = operation → fault.skipped ≠ 0

theorem At.start (base : World) : At base [] base.disk base.store base :=
  ⟨rfl, rfl, rfl, Ages.refl _, fun _ absent => nomatch absent⟩

/-- A retirement that was stopped by the announced fault leaves what the outcome tells of it. -/
def Interrupted (base : World) (outcome : FileOperation → Nat → Disk × Store) (_ : StorageError) (world : World) :
    Prop :=
  ∃ fault, base.fault = some fault ∧ (world.disk, world.store) = outcome fault.operation fault.written ∧
    world.acknowledged = base.acknowledged

theorem overwrite_nil (offset : Nat) (wal : List UInt8) : overwrite offset [] wal = wal := by
  simp [overwrite]

theorem setLen_exact {length : Nat} {bytes rest : List UInt8} (exact : bytes.length = length) :
    setLen length (bytes ++ rest) = bytes := by
  rw [setLen, ← exact, List.take_left, List.rightpad, Nat.sub_self, List.replicate_zero, List.append_nil]

section Steps

variable {base : World} {passed : List FileOperation} {disk : Disk} {store : Store}
  {outcome : FileOperation → Nat → Disk × Store} {operation : FileOperation}

/-- A file operation goes on from its full effect, or stops with its partial one. -/
theorem fileOperation_at {partly : Nat → Disk → Disk} {fully : Disk → Disk}
    (stops : ∀ written, outcome operation written = (partly written disk, store)) :
    Meets (At base passed disk store) (fileOperation operation partly fully)
      (fun _ => At base (operation :: passed) (fully disk) store) (Interrupted base outcome) := by
  intro world start
  unfold fileOperation
  cases broken : failNow world operation with
  | none =>
      refine ⟨by rw [start.disk], start.store, start.acknowledged, start.ages.pass operation, ?_⟩
      intro other member fault announced same
      rcases List.mem_cons.mp member with rfl | member
      · intro first
        have ages := start.ages
        rw [announced] at ages
        cases later : world.fault with
        | none =>
            rw [later] at ages
            exact ages
        | some closer =>
            rw [later] at ages
            obtain ⟨sameOperation, _, skipped⟩ := ages
            have due : closer.skipped = 0 := by omega
            unfold failNow at broken
            rw [later] at broken
            simp [Option.filter, sameOperation.trans same, due] at broken
      · exact start.passed other member fault announced same
  | some fault =>
      obtain ⟨later, now⟩ := Option.filter_eq_some_iff.mp broken
      simp only [Bool.and_eq_true, decide_eq_true_eq] at now
      have ages := start.ages
      rw [later] at ages
      cases first : base.fault with
      | none =>
          rw [first] at ages
          exact ages.elim
      | some announced =>
          rw [first] at ages
          obtain ⟨same, written, _⟩ := ages
          refine ⟨announced, first, ?_, start.acknowledged⟩
          rw [← same, ← written, now.1, stops, ← start.disk, ← start.store]

theorem observe_at (stops : ∀ written, outcome operation written = (disk, store)) :
    Meets (At base passed disk store) (observe operation) (fun _ => At base (operation :: passed) disk store)
      (Interrupted base outcome) := by
  have step : Meets (At base passed disk store) (fileOperation operation (fun _ disk => disk) id)
      (fun _ => At base (operation :: passed) (id disk) store) (Interrupted base outcome) := fileOperation_at stops
  exact step

/-- The operations of a loop need not be remembered. -/
theorem At.forget {world : World} (reached : At base (operation :: passed) disk store world) :
    At base passed disk store world :=
  ⟨reached.disk, reached.store, reached.acknowledged, reached.ages,
    fun other member => reached.passed other (List.mem_cons_of_mem _ member)⟩

theorem observe_at_forget (stops : ∀ written, outcome operation written = (disk, store)) :
    Meets (At base passed disk store) (observe operation) (fun _ => At base passed disk store)
      (Interrupted base outcome) :=
  (observe_at stops).consequence (fun _ start => start) (fun _ _ reached => reached.forget) fun _ _ stopped => stopped

theorem read_at {B : Type} {next : World → Process B} {after : B → World → Prop}
    {failed : StorageError → World → Prop}
    (tail : ∀ world, At base passed disk store world → Meets (At base passed disk store) (next world) after failed) :
    Meets (At base passed disk store) (Procedure.read >>= next) after failed := by
  intro world start
  exact tail world start world start

theorem loadIfExists_at (stopsInspect : ∀ written, outcome .inspectManifest written = (disk, store))
    (stopsRead : ∀ written, outcome .readManifest written = (disk, store)) :
    Meets (At base passed disk store) SegmentManifest.loadIfExists
      (fun result world => result = disk.manifest ∧ At base passed disk store world)
      (Interrupted base outcome) := by
  unfold SegmentManifest.loadIfExists
  apply (observe_at_forget stopsInspect).bind
  intro _
  apply read_at
  intro world here
  rw [here.disk]
  cases disk.manifest with
  | none => exact Meets.pure fun reached there => ⟨rfl, there⟩
  | some manifest =>
      apply (observe_at_forget stopsRead).bind
      intro _
      exact Meets.pure fun reached there => ⟨rfl, there⟩

/-- The remaining bytes overwrite the retired ones. -/
theorem writeCompacted_at (bytes : List UInt8)
    (stops : ∀ written, outcome .writeCompacted written =
      ({ disk with wal := overwrite walHeaderLen (bytes.take written) disk.wal }, store)) :
    Meets (At base passed disk store) (Store.writeCompacted bytes)
      (fun _ => At base passed { disk with wal := overwrite walHeaderLen bytes disk.wal } store)
      (Interrupted base outcome) := by
  unfold Store.writeCompacted
  split
  · next empty =>
      rw [empty, overwrite_nil]
      exact Meets.pure fun world here => here
  · exact (fileOperation_at stops).consequence (fun _ start => start) (fun _ _ reached => reached.forget)
      fun _ _ stopped => stopped

theorem save_at {saved : SegmentManifest} {stopped : Disk × Store}
    (there : stopped = (disk, store))
    (stops : ∀ operation ∈ [FileOperation.replaceManifest, .synchronizeTemporaryManifest, .writeTemporaryManifest,
      .createTemporaryManifest, .createManifestDirectory], ∀ written, outcome operation written = stopped) :
    Meets (At base passed disk store) saved.save
      (fun _ => At base (.replaceManifest :: .synchronizeTemporaryManifest :: .writeTemporaryManifest ::
        .createTemporaryManifest :: .createManifestDirectory :: passed) { disk with manifest := some saved } store)
      (Interrupted base outcome) := by
  subst there
  unfold SegmentManifest.save
  apply (observe_at (stops _ (by simp))).bind
  intro _
  apply (observe_at (stops _ (by simp))).bind
  intro _
  apply (observe_at (stops _ (by simp))).bind
  intro _
  apply (observe_at (stops _ (by simp))).bind
  intro _
  exact fileOperation_at (stops _ (by simp))

end Steps

/-- The log after its first live batches have left the log file. -/
def retireLog (log : Log) (gone kept : List (List StoredEvent)) : Log := ⟨log.retired ++ gone, kept⟩

theorem retireLog_batches {log : Log} {gone kept : List (List StoredEvent)} (split : log.live = gone ++ kept) : (retireLog log gone kept).batches = log.batches := by
  rw [retireLog, Log.batches, Log.batches, split, List.append_assoc]

theorem retireLog_events {log : Log} {gone kept : List (List StoredEvent)} (split : log.live = gone ++ kept) : (retireLog log gone kept).events = log.events := by
  rw [Log.events, retireLog_batches split, Log.events]

theorem retireLog_retiredCount (log : Log) (gone kept : List (List StoredEvent)) :
    (retireLog log gone kept).retiredCount = log.retiredCount + gone.flatten.length := by
  rw [retireLog, Log.retiredCount, Log.retiredCount, List.flatten_append, List.length_append]

/-- A log whose first live batches are called retired is as valid as before. -/
theorem Log.Valid.retire {header : WalHeader} {log : Log} {gone kept : List (List StoredEvent)}
    (valid : log.Valid header) (split : log.live = gone ++ kept) : (retireLog log gone kept).Valid header where
  retired := by
    have live := valid.live
    rw [split, List.flatten_append, Accepted.append_iff] at live
    change Numbered header 0 (log.retired ++ gone).flatten
    rw [List.flatten_append, Numbered.append_iff, Nat.zero_add]
    exact ⟨valid.retired, live.1.numbered⟩
  live := by
    have live := valid.live
    rw [split, List.flatten_append, Accepted.append_iff] at live
    rw [retireLog_retiredCount]
    exact live.2.forget
  nonempty := by
    rw [retireLog_batches split]
    exact valid.nonempty
  bound := by
    rw [retireLog_events split]
    exact valid.bound

variable [Crc32fast]

theorem relocate_locate (offset offset' first : Nat) (batches : List (List StoredEvent)) :
    Store.relocate offset (locate offset' first batches) = locate offset first batches := by
  induction batches generalizing offset offset' first with
  | nil => rfl
  | cons batch batches ih =>
      rw [locate_cons, Store.relocate, ih, locate_cons]

/-- The last frame ends where the batches end. -/
theorem getLast_locate {offset first : Nat} {batches : List (List StoredEvent)} {frame : FrameLocation}
    (nonempty : ∀ batch ∈ batches, batch ≠ []) (last : (locate offset first batches).getLast? = some frame) :
    frame.last + 1 = first + batches.flatten.length := by
  rcases List.eq_nil_or_concat' batches with rfl | ⟨before, batch, rfl⟩
  · simp at last
  · rw [locate_append, locate_cons, locate_nil, List.getLast?_concat, Option.some.injEq] at last
    have size := List.length_pos_of_ne_nil (nonempty batch (by simp))
    rw [← last, FrameLocation.last, List.flatten_append, List.flatten_singleton, List.length_append]
    dsimp only
    omega

namespace Store

/-- The frames that a retirement takes out of the log. -/
def retirable (store : Store) (manifest : Option SegmentManifest) (holds : List ReferenceHold) :
    List FrameLocation :=
  match manifest with
  | none => []
  | some manifest => store.frames.takeWhile (eligible manifest holds)

end Store

/-- The files once the log file has been cut. -/
def cutDisk (disk : Disk) (kept : List (List StoredEvent)) : Disk :=
  { disk with wal := setLen (walHeaderLen + (logBytes kept).length) (overwrite walHeaderLen (logBytes kept) disk.wal) }

/-- The handle once it has dropped the retired frames. -/
def cutStore (store : Store) (gone kept : List (List StoredEvent)) : Store :=
  store.compacted gone.length (walHeaderLen + (logBytes kept).length)

/-- The manifest that a finished retirement saves. -/
def retiredManifest (log : Log) (gone : List (List StoredEvent)) (manifest : SegmentManifest) : SegmentManifest :=
  { manifest with retiredUpToSequence := some (UInt64.ofNat (log.retiredCount + gone.flatten.length - 1)) }

/-- What a retirement leaves behind when it stops at an operation. -/
def interruptedRetirement (disk : Disk) (store : Store) (gone kept : List (List StoredEvent))
    (operation : FileOperation) (written : Nat) : Disk × Store :=
  match operation with
  | .writeCompacted =>
      ({ disk with wal := overwrite walHeaderLen ((logBytes kept).take written) disk.wal }, store)
  | .truncateCompacted => ({ disk with wal := overwrite walHeaderLen (logBytes kept) disk.wal }, store)
  | .synchronizeCompacted => (cutDisk disk kept, store)
  | .createManifestDirectory | .createTemporaryManifest | .writeTemporaryManifest | .synchronizeTemporaryManifest
  | .replaceManifest => (cutDisk disk kept, cutStore store gone kept)
  | _ => (disk, store)

/-- Overwriting behind the header keeps the header in front. -/
theorem Stored.overwrite_wal {admits : List StoredEvent → Prop} {header : WalHeader} {log : Log} {disk : Disk}
    (stored : Stored admits header log disk) (bytes : List UInt8) :
    overwrite walHeaderLen bytes disk.wal =
      encodeWalHeader header ++ (bytes ++ disk.wal.drop (walHeaderLen + bytes.length)) := by
  have front : disk.wal.take walHeaderLen = encodeWalHeader header := by
    rw [stored.wal, ← encodeWalHeader_length header, List.take_left]
  rw [overwrite, front, List.append_assoc]

theorem Stored.cut_wal {admits : List StoredEvent → Prop} {header : WalHeader} {log : Log} {disk : Disk}
    (stored : Stored admits header log disk) (kept : List (List StoredEvent)) :
    (cutDisk disk kept).wal = encodeWalHeader header ++ logBytes kept := by
  change setLen _ (overwrite walHeaderLen (logBytes kept) disk.wal) = _
  rw [stored.overwrite_wal, ← List.append_assoc]
  apply setLen_exact
  rw [List.length_append, encodeWalHeader_length]

section Retirement

variable {admits : List StoredEvent → Prop} {log : Log} {base : World} {gone kept : List (List StoredEvent)}
  {manifest : SegmentManifest} {outcome : FileOperation → Nat → Disk × Store} {passed : List FileOperation}

/-- Reading the remaining frames collects their bytes. -/
theorem readRemaining_at (inv : Inv admits log base.disk base.store) {done rest : List (List StoredEvent)}
    (split : log.live = done ++ rest) (bytes : List UInt8)
    (stopsSeek : ∀ written, outcome .seekRemainingFrame written = (base.disk, base.store))
    (stopsRead : ∀ written, outcome .readRemainingFrame written = (base.disk, base.store)) :
    Meets (At base passed base.disk base.store)
      ((locate (walHeaderLen + (logBytes done).length) (log.retiredCount + done.flatten.length) rest).foldlM
        Store.readRemaining bytes)
      (fun result world => result = bytes ++ logBytes rest ∧ At base passed base.disk base.store world)
      (Interrupted base outcome) := by
  induction rest generalizing done bytes with
  | nil =>
      rw [locate_nil, List.foldlM_nil]
      exact Meets.pure fun world start => ⟨(List.append_nil _).symm, start⟩
  | cons batch rest ih =>
      have one : Meets (At base passed base.disk base.store)
          (Store.readRemaining bytes ⟨walHeaderLen + (logBytes done).length, (batchBytes batch).length,
            log.retiredCount + done.flatten.length, batch.length⟩)
          (fun result world => result = bytes ++ batchBytes batch ∧ At base passed base.disk base.store world)
          (Interrupted base outcome) := by
        unfold Store.readRemaining
        apply (observe_at_forget stopsSeek).bind
        intro _
        apply (observe_at_forget stopsRead).bind
        intro _
        apply read_at
        intro world here
        have inside : walHeaderLen + (logBytes done).length + (batchBytes batch).length ≤ base.disk.wal.length := by
          rw [inv.stored.walLength, split, logBytes_append, logBytes_cons, List.length_append, List.length_append]
          omega
        have read : readExact .readRemainingFrame base.disk.wal (walHeaderLen + (logBytes done).length)
            (batchBytes batch).length = .ok (batchBytes batch) :=
          readExact_ok.mpr ⟨inside, inv.stored.slice_wal split⟩
        rw [here.disk]
        dsimp only
        rw [read]
        exact Meets.pure fun reached start => ⟨rfl, start⟩
      rw [locate_cons, List.foldlM_cons]
      apply one.bind_value
      have split' : log.live = (done ++ [batch]) ++ rest := by
        rw [split, List.append_assoc]
        rfl
      have offset : walHeaderLen + (logBytes (done ++ [batch])).length =
          walHeaderLen + (logBytes done).length + (batchBytes batch).length := by
        simp [Nat.add_assoc]
      have place : log.retiredCount + (done ++ [batch]).flatten.length =
          log.retiredCount + done.flatten.length + batch.length := by
        simp [Nat.add_assoc]
      have next := ih split' (bytes ++ batchBytes batch)
      rw [List.append_assoc, ← logBytes_cons, offset, place] at next
      exact next

theorem logBytes_eq_nil {batches : List (List StoredEvent)} : logBytes batches = [] ↔ batches = [] := by
  cases batches with
  | nil => simp
  | cons batch batches =>
      have long : 24 ≤ (batchBytes batch).length := by
        rw [batchBytes_length]
        exact Nat.le_add_right _ _
      constructor
      · intro empty
        have size := congrArg List.length empty
        rw [logBytes_cons, List.length_append, List.length_nil] at size
        omega
      · intro empty
        contradiction

/-- The operations that every finished retirement has passed. -/
def retirementOperations : List FileOperation :=
  [.replaceManifest, .synchronizeTemporaryManifest, .writeTemporaryManifest, .createTemporaryManifest,
    .createManifestDirectory, .synchronizeCompacted, .truncateCompacted, .seekCompaction]

/-- A retirement of some frames ends with the cut log and the new mark, or stops where its fault says. -/
theorem retireFrames_at (inv : Inv admits log base.disk base.store) (split : log.live = gone ++ kept)
    {highest : FrameLocation} (ends : highest.last = log.retiredCount + gone.flatten.length - 1) :
    Meets (At base [] base.disk base.store)
      (base.store.retireFrames manifest (locate walHeaderLen log.retiredCount gone) highest)
      (fun _ => At base retirementOperations
        { cutDisk base.disk kept with manifest := some (retiredManifest log gone manifest) }
        (cutStore base.store gone kept))
      (Interrupted base (interruptedRetirement base.disk base.store gone kept)) := by
  have remaining : base.store.frames.drop (locate walHeaderLen log.retiredCount gone).length =
      locate (walHeaderLen + (logBytes gone).length) (log.retiredCount + gone.flatten.length) kept := by
    rw [inv.tracks.frames, split, locate_append, List.drop_left]
  unfold Store.retireFrames
  rw [remaining]
  apply (readRemaining_at inv split [] (fun _ => rfl) fun _ => rfl).bind_value
  rw [List.nil_append]
  apply (observe_at fun _ => rfl).bind
  intro _
  apply (writeCompacted_at (logBytes kept) fun _ => rfl).bind
  intro _
  unfold atomicOperation
  apply (fileOperation_at fun _ => rfl).bind
  intro _
  apply (observe_at fun _ => rfl).bind
  intro _
  have dropped : Meets
      (At base [.synchronizeCompacted, .truncateCompacted, .seekCompaction] (cutDisk base.disk kept) base.store)
      (Procedure.update fun world => { world with
        store := (world.store.compacted (locate walHeaderLen log.retiredCount gone).length
          (walHeaderLen + (logBytes kept).length)) })
      (fun _ => At base [.synchronizeCompacted, .truncateCompacted, .seekCompaction] (cutDisk base.disk kept)
        (cutStore base.store gone kept))
      (Interrupted base (interruptedRetirement base.disk base.store gone kept)) := by
    apply Meets.update
    intro world here
    refine ⟨here.disk, ?_, here.acknowledged, here.ages, here.passed⟩
    rw [here.store, locate_length]
    rfl
  apply dropped.bind
  intro _
  rw [ends]
  have saved : Meets
      (At base [.synchronizeCompacted, .truncateCompacted, .seekCompaction] (cutDisk base.disk kept)
        (cutStore base.store gone kept))
      (retiredManifest log gone manifest).save
      (fun _ => At base retirementOperations
        { cutDisk base.disk kept with manifest := some (retiredManifest log gone manifest) }
        (cutStore base.store gone kept))
      (Interrupted base (interruptedRetirement base.disk base.store gone kept)) := by
    apply save_at rfl
    intro operation member written
    simp only [List.mem_cons, List.not_mem_nil, or_false] at member
    rcases member with rfl | rfl | rfl | rfl | rfl <;> rfl
  apply saved.bind
  intro _
  exact Meets.pure fun world here => here

/-- A retirement has nothing to do, or it takes the first live batches out of the log. -/
theorem retireWal_cases (inv : Inv admits log base.disk base.store) (holds : List ReferenceHold) :
    (base.store.retirable base.disk.manifest holds = [] ∧
      Meets (At base [] base.disk base.store) (Store.retireWal holds) (fun _ => At base [] base.disk base.store)
        (Interrupted base fun _ _ => (base.disk, base.store))) ∨
    ∃ gone kept manifest, gone ≠ [] ∧ log.live = gone ++ kept ∧ base.disk.manifest = some manifest ∧
      base.store.retirable base.disk.manifest holds = locate walHeaderLen log.retiredCount gone ∧
      Meets (At base [] base.disk base.store) (Store.retireWal holds)
        (fun _ => At base retirementOperations
          { cutDisk base.disk kept with manifest := some (retiredManifest log gone manifest) }
          (cutStore base.store gone kept))
        (Interrupted base (interruptedRetirement base.disk base.store gone kept)) := by
  have usable : ¬base.store.poisoned = true := by
    rw [inv.tracks.usable]
    decide
  cases present : base.disk.manifest with
  | none =>
      left
      refine ⟨rfl, ?_⟩
      unfold Store.retireWal
      apply read_at
      intro world here
      rw [here.store]
      intro reached there
      rw [refuseIf_bind usable]
      refine (loadIfExists_at (fun _ => rfl) fun _ => rfl).bind_value ?_ reached there
      rw [present]
      exact Meets.pure fun _ last => last
  | some manifest =>
      obtain ⟨gone, kept, split, front, _⟩ := takeWhile_locate_split (Store.eligible manifest holds) walHeaderLen
        log.retiredCount log.live
      have retirable : base.store.retirable (some manifest) holds = locate walHeaderLen log.retiredCount gone := by
        rw [Store.retirable, inv.tracks.frames, front]
      have frames : base.store.frames.takeWhile (Store.eligible manifest holds) =
          locate walHeaderLen log.retiredCount gone := retirable
      by_cases nothing : gone = []
      · left
        rw [retirable, nothing]
        refine ⟨rfl, ?_⟩
        unfold Store.retireWal
        apply read_at
        intro world here
        rw [here.store]
        intro reached there
        rw [refuseIf_bind usable]
        refine (loadIfExists_at (fun _ => rfl) fun _ => rfl).bind_value ?_ reached there
        rw [present]
        dsimp only
        rw [frames, nothing]
        exact Meets.pure fun _ last => last
      · right
        refine ⟨gone, kept, manifest, nothing, split, rfl, retirable, ?_⟩
        have nonempty : ∀ batch ∈ gone, batch ≠ [] := fun batch member =>
          inv.live_nonempty (by rw [split]; exact List.mem_append_left _ member)
        cases last : (locate walHeaderLen log.retiredCount gone).getLast? with
        | none =>
            have size := congrArg List.length (List.getLast?_eq_none_iff.mp last)
            rw [locate_length] at size
            exact absurd (List.length_eq_zero_iff.mp size) nothing
        | some highest =>
            have ends := getLast_locate nonempty last
            unfold Store.retireWal
            apply read_at
            intro world here
            rw [here.store]
            intro reached there
            rw [refuseIf_bind usable]
            refine (loadIfExists_at (fun _ => rfl) fun _ => rfl).bind_value ?_ reached there
            rw [present]
            dsimp only
            rw [frames, last]
            exact retireFrames_at inv split (by omega)

end Retirement

section Invariant

variable {admits : List StoredEvent → Prop} {log : Log} {disk : Disk} {store : Store}
  {gone kept : List (List StoredEvent)} {manifest : SegmentManifest} {holds : List ReferenceHold}

/-- A sequence that the manifest calls sealed belongs to a batch with an entry of its own. -/
theorem Registered.of_isSequenceSealed {header : WalHeader} {segments : Directory} {first : Nat}
    {batch : List StoredEvent} (registered : Registered header log segments manifest) (valid : log.Valid header)
    (member : (first, batch) ∈ starts 0 log.batches) (isSealed : manifest.isSequenceSealed (UInt64.ofNat first)) :
    batchMeta header first batch ∈ manifest.sealedSegments := by
  obtain ⟨entry, listed, covers⟩ := List.any_eq_true.mp isSealed
  obtain ⟨start, other, member', rfl, _⟩ := registered entry listed
  have bound := valid.bound
  obtain ⟨size, inside⟩ := valid.place member
  obtain ⟨size', inside'⟩ := valid.place member'
  obtain ⟨lower, upper⟩ := (batchMeta_covers (by omega) size' (by omega)).mp covers
  obtain ⟨rfl, rfl⟩ := eq_of_mem_of_position member (le_refl _) (by omega) member' lower upper
  exact listed

/-- Only batches with an entry leave the log. -/
theorem Inv.registered_of_retirable (inv : Inv admits log disk store) (split : log.live = gone ++ kept)
    (present : disk.manifest = some manifest)
    (retirable : store.retirable disk.manifest holds = locate walHeaderLen log.retiredCount gone) {first : Nat}
    {batch : List StoredEvent} (member : (first, batch) ∈ starts log.retiredCount gone) :
    batchMeta store.header first batch ∈ manifest.sealedSegments := by
  obtain ⟨frame, listed, rfl, _⟩ := exists_frame_of_mem_starts walHeaderLen member
  rw [present, Store.retirable] at retirable
  rw [← retirable] at listed
  have eligible := List.mem_takeWhile_imp listed
  rw [Store.eligible, Bool.and_eq_true, Bool.and_eq_true] at eligible
  apply (inv.stored.registered manifest present).of_isSequenceSealed inv.valid _ eligible.1.1
  rw [log.starts_batches, split, starts_append]
  exact List.mem_append_right _ (List.mem_append_left _ member)

/-- Once every batch has an entry, nothing but a hold keeps a frame in the log. -/
theorem Inv.retirable_all (inv : Inv admits log disk store) (present : disk.manifest = some manifest)
    (entered : ∀ first batch, (first, batch) ∈ starts 0 log.batches →
      batchMeta store.header first batch ∈ manifest.sealedSegments) :
    store.retirable disk.manifest [] = store.frames := by
  rw [present, Store.retirable, List.takeWhile_eq_self_iff]
  intro frame member
  rw [inv.tracks.frames] at member
  obtain ⟨batch, starting, count⟩ := exists_batch_of_mem_locate member
  have listed : (frame.first, batch) ∈ starts 0 log.batches := by
    rw [log.starts_batches]
    exact List.mem_append_right _ starting
  have bound := inv.valid.bound
  obtain ⟨size, inside⟩ := inv.valid.place listed
  have last : frame.last = frame.first + batch.length - 1 := by rw [FrameLocation.last, count]
  have covered : ∀ place, frame.first ≤ place → place < frame.first + batch.length →
      manifest.isSequenceSealed (UInt64.ofNat place) := by
    intro place lower upper
    apply List.any_eq_true.mpr
    exact ⟨_, entered _ _ listed, (batchMeta_covers (by omega) size (by omega)).mpr ⟨lower, upper⟩⟩
  have first := covered frame.first (le_refl _) (by omega)
  have final := covered frame.last (by omega) (by omega)
  simp [Store.eligible, Store.isHeld, first, final]

theorem Tracks.retire (tracks : Tracks log store) (nonempty : ∀ batch ∈ kept, batch ≠ [])
    (split : log.live = gone ++ kept) : Tracks (retireLog log gone kept) (cutStore store gone kept) where
  frames := by
    change Store.relocate walHeaderLen (store.frames.drop gone.length) = _
    have drop : store.frames.drop gone.length =
        locate (walHeaderLen + (logBytes gone).length) (log.retiredCount + gone.flatten.length) kept := by
      rw [tracks.frames, split, locate_append, ← locate_length walHeaderLen log.retiredCount gone, List.drop_left]
    rw [drop, relocate_locate, retireLog_retiredCount]
    rfl
  summaries := by
    have drop := List.forall₂_drop gone.length tracks.summaries
    rw [split, List.drop_left] at drop
    exact drop
  nextSequence := by
    rw [retireLog_events split]
    exact tracks.nextSequence
  endOffset := rfl
  lastKnown := by
    intro live
    have left : kept.flatten ≠ [] := by
      obtain ⟨batch, rest, rfl⟩ := List.exists_cons_of_ne_nil live
      have head := nonempty batch List.mem_cons_self
      simp [head]
    have before : log.live ≠ [] := by
      rw [split]
      exact List.append_ne_nil_of_right_ne_nil _ live
    change store.lastKnown = knownAfter none kept.flatten
    rw [tracks.lastKnown before, split, List.flatten_append, knownAfter_append]
    exact knownAfter_of_ne_nil left _ _
  usable := tracks.usable
  limits := tracks.limits
  fits := by
    intro batch member
    apply tracks.fits batch
    rw [split]
    exact List.mem_append_right _ member

/-- A finished retirement keeps the log and moves the mark. -/
theorem Inv.retire (inv : Inv admits log disk store) (split : log.live = gone ++ kept) (retires : gone ≠ [])
    (present : disk.manifest = some manifest)
    (entered : ∀ first batch, (first, batch) ∈ starts log.retiredCount gone →
      batchMeta store.header first batch ∈ manifest.sealedSegments) :
    Inv admits (retireLog log gone kept)
      { cutDisk disk kept with manifest := some (retiredManifest log gone manifest) }
      (cutStore store gone kept) where
  valid := inv.valid.retire split
  stored := {
    wal := inv.stored.cut_wal kept
    walBound := by
      change (cutDisk disk kept).wal.length < 2 ^ 64
      have bound := inv.stored.walBound
      rw [inv.stored.walLength, split, logBytes_append, List.length_append] at bound
      rw [inv.stored.cut_wal, List.length_append, encodeWalHeader_length]
      omega
    mark := by
      have bound := inv.valid.bound
      rw [log.events_length, split, List.flatten_append, List.length_append] at bound
      obtain ⟨batch, rest, rfl⟩ := List.exists_cons_of_ne_nil retires
      have member : batch ∈ log.live := by simp [split]
      have size := List.length_pos_of_ne_nil (inv.live_nonempty member)
      rw [retireLog_retiredCount]
      change (UInt64.ofNat (log.retiredCount + _ - 1)).toNat + 1 = _
      rw [List.flatten_cons, List.length_append] at bound ⊢
      rw [toNat_ofNat (by omega)]
      omega
    published := by
      intro first last file firstFits lastFits found
      rw [retireLog_batches split]
      exact inv.stored.published first last file firstFits lastFits found
    registered := by
      intro saved same
      cases same
      intro entry member
      rw [retireLog_batches split]
      exact inv.stored.registered manifest present entry member
    retired := by
      intro first batch member
      refine ⟨_, rfl, ?_⟩
      change _ ∈ manifest.sealedSegments
      rw [retireLog, starts_append, List.mem_append, Nat.zero_add] at member
      rcases member with member | member
      · obtain ⟨other, same, listed⟩ := inv.stored.retired first batch member
        obtain rfl : other = manifest := Option.some.inj (same.symm.trans present)
        exact listed
      · exact entered first batch member }
  tracks := inv.tracks.retire (fun batch member => inv.live_nonempty (by
    rw [split]
    exact List.mem_append_right _ member)) split

end Invariant

end Temnion.Storage
