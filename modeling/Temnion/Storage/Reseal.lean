import Temnion.Storage.Failure

/-
This file stops seals at any of their file operations and shows that a later seal ends where an undisturbed one does.
-/

namespace Temnion.Storage

open Format Index LittleEndian Batches Procedure

section Reseal

variable [Crc32fast]

/-- A seal with a fault on its way, after which the directory is opened again. -/
def System.interruptSeal (limits : Limits) (recovery : RecoveryMode) (system : System) (fault : Fault) : System :=
  match system.handle with
  | none => system
  | some store =>
      let reached := (Store.sealFrames (system.faulty store (some fault))).2
      System.reopen ⟨reached.disk, some reached.store, reached.acknowledged⟩ limits recovery

/-- The directory has the segment and the entry of every batch, and no others. -/
structure Complete (header : WalHeader) (log : Log) (disk : Disk) (manifest : SegmentManifest) : Prop where
  saved : disk.manifest = some manifest
  wal : disk.wal = encodeWalHeader header ++ logBytes log.live
  mark : retirementMark (some manifest) = log.retiredCount
  entries : ∀ entry, entry ∈ manifest.sealedSegments ↔
    ∃ first batch, (first, batch) ∈ starts 0 log.batches ∧ entry = batchMeta header first batch
  files : ∀ (first last : UInt64) (file : List UInt8),
    disk.segments.lookup (segmentFilename first.toNat last.toNat) = some file ↔
      ∃ batch, (first.toNat, batch) ∈ starts 0 log.batches ∧ last.toNat + 1 = first.toNat + batch.length ∧
        file = sealedBytes header batch

section Complete

variable {header : WalHeader} {log : Log} {disk other : Disk} {manifest changed : SegmentManifest}

/-- The entry of a batch names the batch. -/
theorem eq_of_batchMeta_eq {first second : Nat} {batch others : List StoredEvent} (valid : log.Valid header)
    (starting : (first, batch) ∈ starts 0 log.batches) (also : (second, others) ∈ starts 0 log.batches)
    (same : batchMeta header first batch = batchMeta header second others) : first = second ∧ batch = others := by
  have bound := valid.bound
  have inside := (bounds_of_mem starting).2
  have inside' := (bounds_of_mem also).2
  rw [Nat.zero_add, ← Log.events] at inside inside'
  have size := List.length_pos_of_ne_nil (valid.nonempty _ (mem_of_mem_starts starting))
  have size' := List.length_pos_of_ne_nil (valid.nonempty _ (mem_of_mem_starts also))
  have firsts : UInt64.ofNat first = UInt64.ofNat second := congrArg SealedSegmentMeta.firstSequence same
  have positions := congrArg UInt64.toNat firsts
  rw [toNat_ofNat (by omega), toNat_ofNat (by omega)] at positions
  exact eq_of_mem_of_position starting (le_refl _) (by omega) also (by omega) (by omega)

/-- The segment of a batch with an entry is there, and it was admitted. -/
theorem Stored.lookup_of_entry {admits : List StoredEvent → Prop} (stored : Stored admits header log disk)
    (valid : log.Valid header) (saved : disk.manifest = some manifest) {first : Nat} {batch : List StoredEvent}
    (starting : (first, batch) ∈ starts 0 log.batches)
    (entry : batchMeta header first batch ∈ manifest.sealedSegments) :
    disk.segments.lookup (segmentFilename first (first + batch.length - 1)) = some (sealedBytes header batch) ∧
      admits batch := by
  obtain ⟨second, others, also, same, found⟩ := stored.registered manifest saved _ entry
  obtain ⟨rfl, rfl⟩ := eq_of_batchMeta_eq valid starting also same
  have bound := valid.bound
  have inside := (bounds_of_mem starting).2
  rw [Nat.zero_add, ← Log.events] at inside
  have size := List.length_pos_of_ne_nil (valid.nonempty _ (mem_of_mem_starts starting))
  obtain ⟨published, there, ends, -, admitted⟩ := stored.published _ _ _ (by omega) (by omega) found
  obtain ⟨-, rfl⟩ := eq_of_mem_of_position starting (le_refl _) (by omega) there (le_refl _) (by omega)
  exact ⟨found, admitted⟩

/-- A directory that holds the log is complete as soon as every batch has an entry. -/
theorem Stored.complete {admits : List StoredEvent → Prop} (stored : Stored admits header log disk)
    (valid : log.Valid header) (saved : disk.manifest = some manifest)
    (entered : ∀ first batch, (first, batch) ∈ starts 0 log.batches → batchMeta header first batch ∈
      manifest.sealedSegments) : Complete header log disk manifest where
  saved := saved
  wal := stored.wal
  mark := saved ▸ stored.mark
  entries := by
    intro entry
    constructor
    · intro member
      obtain ⟨first, batch, starting, same, -⟩ := stored.registered manifest saved entry member
      exact ⟨first, batch, starting, same⟩
    · rintro ⟨first, batch, starting, rfl⟩
      exact entered first batch starting
  files := by
    intro first last file
    constructor
    · intro found
      obtain ⟨batch, starting, ends, same, -⟩ := stored.published _ _ file first.toNat_lt last.toNat_lt found
      exact ⟨batch, starting, ends, same⟩
    · rintro ⟨batch, starting, ends, rfl⟩
      have final : last.toNat = first.toNat + batch.length - 1 := by omega
      rw [final]
      exact (stored.lookup_of_entry valid saved starting (entered _ _ starting)).1

/-- Two complete directories of one log have the same segments. -/
theorem Complete.lookup_eq (complete : Complete header log disk manifest) (also : Complete header log other changed)
    (first last : UInt64) : disk.segments.lookup (segmentFilename first.toNat last.toNat) =
      other.segments.lookup (segmentFilename first.toNat last.toNat) := by
  apply Option.ext
  intro file
  rw [complete.files, also.files]

/-- The mark tells the last retired sequence. -/
theorem Complete.retired_eq (complete : Complete header log disk manifest) (also : Complete header log other changed) :
    manifest.retiredUpToSequence = changed.retiredUpToSequence := by
  have same := complete.mark.trans also.mark.symm
  simp only [retirementMark, Option.bind_some] at same
  cases one : manifest.retiredUpToSequence with
  | none =>
      cases two : changed.retiredUpToSequence with
      | none => rfl
      | some sequence => simp [one, two] at same
  | some sequence =>
      cases two : changed.retiredUpToSequence with
      | none => simp [one, two] at same
      | some later =>
          simp only [one, two, Option.map_some, Option.getD_some, Nat.add_right_cancel_iff] at same
          rw [UInt64.toNat_inj.mp same]

end Complete

section Interrupted

variable {header : WalHeader} {limits : Limits} {log : Log} {store : Store} {system : System} {report : SealReport}
  {reached : World}

/-- A seal that succeeds leaves a complete directory, and all live batches fit their segments. -/
theorem Settled.sealed_complete (settled : Settled header limits log store system) (fault : Option Fault)
    (succeeds : Store.sealFrames (system.faulty store fault) = (.ok report, reached)) :
    (∃ manifest, Complete header log reached.disk manifest) ∧ (∀ batch ∈ log.live, SegmentFits header limits batch) ∧
      Settled header limits log store ⟨reached.disk, some reached.store, reached.acknowledged⟩ := by
  have inv := settled.consistent.inv
  have fine : Inv (SegmentFits header limits) log (system.faulty store fault).disk (system.faulty store fault).store := inv
  have admitting : ∀ batch, SegmentFits (system.faulty store fault).store.header
      (system.faulty store fault).store.limits batch → SegmentFits header limits batch := by
    intro batch fits
    rw [← settled.header, ← settled.limits]
    exact fits
  have keeps := sealFrames_keeps fine False.elim admitting False.elim _ rfl
  rw [succeeds] at keeps
  obtain ⟨sealing, manifest, saved, entered⟩ := keeps
  have stored : Stored (SegmentFits header limits) store.header log reached.disk := sealing.stored
  refine ⟨⟨manifest, ?_⟩, fun batch live => ?_, ⟨⟨inv.valid, stored, inv.tracks⟩, ?_, ?_⟩, ?_, settled.header,
    settled.limits⟩
  · rw [← settled.header]
    exact stored.complete inv.valid saved entered
  · obtain ⟨before, after, split⟩ := List.append_of_mem live
    have starting : (log.retiredCount + before.flatten.length, batch) ∈ starts 0 log.batches := by
      rw [log.starts_batches, split]
      exact List.mem_append_right _ (mem_starts_of_append _ _ _ _)
    exact (stored.lookup_of_entry inv.valid saved starting (entered _ _ starting)).2
  · intro handle taken
    rw [← Option.some.inj taken]
    exact sealing.store
  · exact sealing.acknowledged.trans settled.consistent.acknowledged
  · exact congrArg some sealing.store

/-- An interrupted seal leaves a directory that opens again with the whole log. -/
theorem Settled.interruptSeal (settled : Settled header limits log store system) (recovery : RecoveryMode)
    (fault : Fault) : ∃ reopened, Settled header limits log reopened (system.interruptSeal limits recovery fault) := by
  have inv := settled.consistent.inv
  have fine : Inv (SegmentFits header limits) log (system.faulty store (some fault)).disk
      (system.faulty store (some fault)).store := inv
  have admitting : ∀ batch, SegmentFits (system.faulty store (some fault)).store.header
      (system.faulty store (some fault)).store.limits batch → SegmentFits header limits batch := by
    intro batch fits
    rw [← settled.header, ← settled.limits]
    exact fits
  have meets := sealFrames_keeps fine False.elim admitting False.elim _ rfl
  rw [System.interruptSeal, settled.present]
  change ∃ reopened, Settled header limits log reopened (System.reopen
    ⟨(Store.sealFrames (system.faulty store (some fault))).2.disk,
      some (Store.sealFrames (system.faulty store (some fault))).2.store,
      (Store.sealFrames (system.faulty store (some fault))).2.acknowledged⟩ limits recovery)
  revert meets
  rcases Store.sealFrames (system.faulty store (some fault)) with ⟨outcome, reached⟩
  intro meets
  have sealing : Sealing (SegmentFits header limits) False (system.faulty store (some fault)) log reached := by
    cases outcome with
    | ok report => exact meets.1
    | error error => exact meets.2
  have again : Settled header limits log store ⟨reached.disk, some reached.store, reached.acknowledged⟩ :=
    ⟨⟨⟨inv.valid, sealing.stored, inv.tracks⟩, fun handle taken => (Option.some.inj taken).symm.trans sealing.store,
      sealing.acknowledged.trans settled.consistent.acknowledged⟩, congrArg some sealing.store, settled.header,
      settled.limits⟩
  exact ⟨_, again.reopen recovery⟩

theorem Settled.interruptSeals (settled : Settled header limits log store system) (recovery : RecoveryMode)
    (faults : List Fault) :
    ∃ reopened, Settled header limits log reopened (faults.foldl (System.interruptSeal limits recovery) system) := by
  induction faults generalizing store system with
  | nil => exact ⟨store, settled⟩
  | cons fault faults hypothesis =>
      obtain ⟨reopened, next⟩ := settled.interruptSeal recovery fault
      exact hypothesis next

/-- Without a fault a seal of batches that fit their segments succeeds. -/
theorem Settled.seal_succeeds (settled : Settled header limits log store system)
    (fits : ∀ batch ∈ log.live, SegmentFits header limits batch) :
    ∃ report reached, Store.sealFrames (system.world store) = (.ok report, reached) := by
  have fine : Inv (SegmentFits header limits) log (system.world store).disk (system.world store).store :=
    settled.consistent.inv
  have same : ∀ batch, SegmentFits (system.world store).store.header (system.world store).store.limits batch ↔
      SegmentFits header limits batch := by
    intro batch
    rw [← settled.header, ← settled.limits]
    exact Iff.rfl
  have meets := sealFrames_keeps fine (fun _ : True => rfl) (fun batch => (same batch).mp)
    (fun _ batch live => (same batch).mpr (fits batch live)) _ rfl
  revert meets
  rcases Store.sealFrames (system.world store) with ⟨outcome, reached⟩
  cases outcome with
  | ok report => exact fun _ => ⟨report, reached, rfl⟩
  | error error => exact fun halted => absurd trivial halted.1

end Interrupted

/-- Whatever interrupts the seals of a directory that can be sealed, the log opens again, and the next undisturbed seal
leaves the same log file, the same segments and the same manifest entries as a seal that was never interrupted. -/
theorem interrupted_seals_complete {database : DatabaseId} {source : SourceId} {epoch : SourceEpoch} {limits : Limits}
    {start : System} {commands : List Command} {store : Store} {report : SealReport} {finished : World}
    (created : System.create database source epoch limits = .ok start)
    (under : ∀ command ∈ commands, command.Under limits) (present : (start.run commands).handle = some store)
    (succeeds : Store.sealFrames ((start.run commands).world store) = (.ok report, finished))
    (recovery : RecoveryMode) (faults : List Fault) :
    ∃ manifest reopened again resealed changed,
      (faults.foldl (System.interruptSeal limits recovery) (start.run commands)).handle = some reopened ∧
      Store.sealFrames ((faults.foldl (System.interruptSeal limits recovery) (start.run commands)).world reopened) =
        (.ok again, resealed) ∧
      ReadsBack resealed.disk resealed.store (start.run commands).acknowledged ∧
      resealed.disk.wal = finished.disk.wal ∧
      (∀ first last : UInt64, resealed.disk.segments.lookup (segmentFilename first.toNat last.toNat) =
        finished.disk.segments.lookup (segmentFilename first.toNat last.toNat)) ∧
      finished.disk.manifest = some manifest ∧ resealed.disk.manifest = some changed ∧
      changed.retiredUpToSequence = manifest.retiredUpToSequence ∧
      ∀ entry, entry ∈ changed.sealedSegments ↔ entry ∈ manifest.sealedSegments := by
  obtain ⟨log, other, settled⟩ := (System.create_settled created).run under
  obtain rfl := Option.some.inj (settled.present.symm.trans present)
  obtain ⟨⟨manifest, complete⟩, fits, -⟩ := settled.sealed_complete none succeeds
  obtain ⟨reopened, interrupted⟩ := settled.interruptSeals recovery faults
  obtain ⟨again, resealed, repeated⟩ := interrupted.seal_succeeds fits
  obtain ⟨⟨changed, recompleted⟩, -, final⟩ := interrupted.sealed_complete none repeated
  have reads := final.steady.readsBack
  rw [← settled.consistent.acknowledged] at reads
  obtain rfl := Option.some.inj final.present
  refine ⟨manifest, _, again, resealed, changed, interrupted.present, repeated, reads,
    recompleted.wal.trans complete.wal.symm, recompleted.lookup_eq complete, complete.saved, recompleted.saved,
    recompleted.retired_eq complete, fun entry => ?_⟩
  rw [recompleted.entries, complete.entries]

end Reseal

/-- A torn temporary segment and a missing rename of the manifest do not matter to the next seal. -/
theorem interrupted_seals_complete_sample :
    letI := Crc32fast.ieee
    ∃ (store reopened : Store) (report again : SealReport) (finished resealed : World)
      (manifest changed : SegmentManifest),
      Store.sealFrames (((System.fresh sampleDatabase 1 1 Limits.default).run [.append [bareInput 1 5]]).world store) =
        (.ok report, finished) ∧
      ([⟨.writeTemporarySegment, 0, 5⟩, ⟨.replaceManifest, 0, 0⟩].foldl
        (System.interruptSeal Limits.default .rejectIncompleteTail)
        ((System.fresh sampleDatabase 1 1 Limits.default).run [.append [bareInput 1 5]])).handle = some reopened ∧
      Store.sealFrames (([⟨.writeTemporarySegment, 0, 5⟩, ⟨.replaceManifest, 0, 0⟩].foldl
        (System.interruptSeal Limits.default .rejectIncompleteTail)
        ((System.fresh sampleDatabase 1 1 Limits.default).run [.append [bareInput 1 5]])).world reopened) =
          (.ok again, resealed) ∧
      finished.disk.manifest = some manifest ∧ resealed.disk.manifest = some changed ∧
      ∀ entry, entry ∈ changed.sealedSegments ↔ entry ∈ manifest.sealedSegments := by
  generalize Crc32fast.ieee = inst
  have created : System.create sampleDatabase 1 1 Limits.default =
      .ok (System.fresh sampleDatabase 1 1 Limits.default) := System.create_ok.mpr ⟨rfl, rfl⟩
  have next : NextBatch (startStore ⟨sampleDatabase, 1, 1⟩ Limits.default 0) [bareInput 1 5]
      [recordOf ⟨sampleDatabase, 1, 1⟩ 0 (bareInput 1 5)] :=
    NextBatch.bare rfl (fun last absent => nomatch absent) (by decide) (by decide)
  have settled := (System.create_settled created).append_next next
  have under : ∀ command ∈ [Command.append [bareInput 1 5]], command.Under Limits.default := by
    intro command member
    rw [List.mem_singleton.mp member]
    trivial
  have fits : ∀ batch ∈ (Log.empty.extend [recordOf ⟨sampleDatabase, 1, 1⟩ 0 (bareInput 1 5)]).live,
      SegmentFits ⟨sampleDatabase, 1, 1⟩ Limits.default batch := by
    intro batch member
    rw [List.mem_singleton.mp member]
    exact bare_fits _ _ _ _
  obtain ⟨report, finished, succeeds⟩ := settled.seal_succeeds fits
  obtain ⟨manifest, reopened, again, resealed, changed, handle, repeated, -, -, -, saved, resaved, -, entries⟩ :=
    interrupted_seals_complete created under settled.present succeeds .rejectIncompleteTail
      [⟨.writeTemporarySegment, 0, 5⟩, ⟨.replaceManifest, 0, 0⟩]
  exact ⟨_, reopened, report, again, finished, resealed, manifest, changed, succeeds, handle, repeated, saved, resaved,
    entries⟩

end Temnion.Storage
