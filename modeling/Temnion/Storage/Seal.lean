import Temnion.Storage.Recovery

/-
This file shows that sealing keeps the log and registers every live batch, whatever file operation fails.
-/

namespace Temnion.Storage

open Format Index LittleEndian Batches Procedure

/-- Every file of the old directory is still there. -/
def Extends (old new : Directory) : Prop :=
  ∀ name file, old.lookup name = some file → new.lookup name = some file

theorem extends_cons {directory : Directory} {name : String} (file : List UInt8)
    (absent : directory.lookup name = none) : Extends directory ((name, file) :: directory) := by
  intro other content found
  rw [List.lookup_cons]
  by_cases same : other = name
  · rw [same, absent] at found
    contradiction
  · rw [beq_eq_false_iff_ne.mpr same]
    exact found

variable [Crc32fast]

theorem Registered.extends {header : WalHeader} {log : Log} {old new : Directory} {manifest : SegmentManifest}
    (registered : Registered header log old manifest) (extension : Extends old new) :
    Registered header log new manifest := by
  intro entry member
  obtain ⟨first, batch, starts, same, found⟩ := registered entry member
  exact ⟨first, batch, starts, same, extension _ _ found⟩

/-- The segment of a batch may be published. -/
theorem Published.addSegment {admits : List StoredEvent → Prop} {header : WalHeader} {log : Log} {directory : Directory} {first : Nat}
    {batch : List StoredEvent} (published : Published admits header log directory) (bound : log.events.length < 2 ^ 64)
    (nonempty : batch ≠ []) (member : (first, batch) ∈ starts 0 log.batches) (admitted : admits batch) :
    Published admits header log ((segmentFilename first (first + batch.length - 1), sealedBytes header batch) :: directory) := by
  intro start last file startFits lastFits found
  have inside := (bounds_of_mem member).2
  have size := List.length_pos_of_ne_nil nonempty
  rw [Nat.zero_add, ← Log.events] at inside
  rw [List.lookup_cons] at found
  by_cases same : segmentFilename start last = segmentFilename first (first + batch.length - 1)
  · obtain ⟨rfl, rfl⟩ := segmentFilename_injective startFits lastFits (by omega) (by omega) same
    rw [beq_self_eq_true] at found
    exact ⟨batch, member, by omega, (Option.some.inj found).symm, admitted⟩
  · rw [beq_eq_false_iff_ne.mpr same] at found
    exact published start last file startFits lastFits found

theorem Published.addSummary {admits : List StoredEvent → Prop} {header : WalHeader} {log : Log} {directory : Directory} {first last : Nat}
    {content : List UInt8} (published : Published admits header log directory) :
    Published admits header log ((summaryFilename first last, content) :: directory) := by
  intro start stop file startFits stopFits found
  rw [List.lookup_cons, beq_eq_false_iff_ne.mpr (segmentFilename_ne_summaryFilename _ _ _ _)] at found
  exact published start stop file startFits stopFits found

theorem Stored.withSegments {admits : List StoredEvent → Prop} {header : WalHeader} {log : Log} {disk : Disk} {new : Directory}
    (stored : Stored admits header log disk) (published : Published admits header log new) (extension : Extends disk.segments new) :
    Stored admits header log { disk with segments := new } where
  wal := stored.wal
  walBound := stored.walBound
  mark := stored.mark
  published := published
  registered := fun manifest present => (stored.registered manifest present).extends extension
  retired := stored.retired

theorem Stored.withTemporaries {admits : List StoredEvent → Prop} {header : WalHeader} {log : Log} {disk : Disk} (temporaries : List (List UInt8))
    (stored : Stored admits header log disk) : Stored admits header log { disk with temporaries := temporaries } where
  wal := stored.wal
  walBound := stored.walBound
  mark := stored.mark
  published := stored.published
  registered := stored.registered
  retired := stored.retired

/-- The manifest that a seal is building up. Only the batches done so far need an entry. -/
structure Entered (header : WalHeader) (log : Log) (done : List (List StoredEvent)) (manifest : SegmentManifest)
    (segments : Directory) : Prop where
  mark : retirementMark (some manifest) = log.retiredCount
  registered : Registered header log segments manifest
  retired : ∀ first batch, (first, batch) ∈ starts 0 log.retired →
    batchMeta header first batch ∈ manifest.sealedSegments
  done : ∀ first batch, (first, batch) ∈ starts log.retiredCount done →
    batchMeta header first batch ∈ manifest.sealedSegments

theorem Entered.extends {header : WalHeader} {log : Log} {done : List (List StoredEvent)}
    {manifest : SegmentManifest} {old new : Directory} (entered : Entered header log done manifest old)
    (extension : Extends old new) : Entered header log done manifest new where
  mark := entered.mark
  registered := entered.registered.extends extension
  retired := entered.retired
  done := entered.done

theorem Stored.withManifest {admits : List StoredEvent → Prop} {header : WalHeader} {log : Log} {disk : Disk} {manifest : SegmentManifest}
    {done : List (List StoredEvent)} (stored : Stored admits header log disk)
    (entered : Entered header log done manifest disk.segments) :
    Stored admits header log { disk with manifest := some manifest } where
  wal := stored.wal
  walBound := stored.walBound
  mark := entered.mark
  published := stored.published
  registered := by
    intro other present
    cases present
    exact entered.registered
  retired := fun first batch member => ⟨manifest, rfl, entered.retired first batch member⟩

/-- Two batches with an entry of the same range are one batch. -/
theorem batchMeta_sameRange {header : WalHeader} {log : Log} {first second : Nat} {batch other : List StoredEvent}
    (bound : log.events.length < 2 ^ 64) (nonempty : ∀ batch ∈ log.batches, batch ≠ [])
    (member : (first, batch) ∈ starts 0 log.batches) (member' : (second, other) ∈ starts 0 log.batches)
    (same : (batchMeta header first batch).sameRange (batchMeta header second other)) :
    batchMeta header first batch = batchMeta header second other := by
  have inside := (bounds_of_mem member).2
  have inside' := (bounds_of_mem member').2
  rw [Nat.zero_add, ← Log.events] at inside inside'
  have size := List.length_pos_of_ne_nil (nonempty _ (mem_of_mem_starts member))
  have size' := List.length_pos_of_ne_nil (nonempty _ (mem_of_mem_starts member'))
  have firsts : UInt64.ofNat first = UInt64.ofNat second :=
    eq_of_beq (Bool.and_eq_true _ _ |>.mp same).1
  have starts := congrArg UInt64.toNat firsts
  rw [toNat_ofNat (by omega), toNat_ofNat (by omega)] at starts
  obtain ⟨rfl, rfl⟩ := eq_of_mem_of_position member (le_refl _) (by omega) member' (by omega) (by omega)
  rfl

/-- Registering the entry of the next batch keeps the others. -/
theorem Entered.register {header : WalHeader} {log : Log} {done : List (List StoredEvent)}
    {manifest : SegmentManifest} {segments : Directory} {batch : List StoredEvent}
    {after : List (List StoredEvent)} (entered : Entered header log done manifest segments)
    (bound : log.events.length < 2 ^ 64) (nonempty : ∀ batch ∈ log.batches, batch ≠ [])
    (split : log.live = done ++ batch :: after)
    (found : segments.lookup (segmentFilename (log.retiredCount + done.flatten.length)
      (log.retiredCount + done.flatten.length + batch.length - 1)) = some (sealedBytes header batch)) :
    Entered header log (done ++ [batch])
      (manifest.registerSegment (batchMeta header (log.retiredCount + done.flatten.length) batch)) segments := by
  have starting : (log.retiredCount + done.flatten.length, batch) ∈ starts 0 log.batches := by
    rw [log.starts_batches, split]
    exact List.mem_append_right _ (mem_starts_of_append _ _ _ _)
  have keep : ∀ first other, (first, other) ∈ starts 0 log.batches →
      batchMeta header first other ∈ manifest.sealedSegments →
        batchMeta header first other ∈
          (manifest.registerSegment (batchMeta header (log.retiredCount + done.flatten.length) batch)).sealedSegments := by
    intro first other member entry
    rcases SegmentManifest.mem_registerSegment entry with same | kept
    · rw [batchMeta_sameRange bound nonempty member starting same]
      exact SegmentManifest.mem_registerSegment_self _ _
    · exact kept
  refine ⟨?_, ?_, ?_, ?_⟩
  · rw [← entered.mark]
    simp [retirementMark]
  · intro entry member
    rcases SegmentManifest.mem_of_mem_registerSegment member with rfl | member
    · exact ⟨_, batch, starting, rfl, found⟩
    · exact entered.registered entry member
  · intro first other member
    apply keep first other _ (entered.retired first other member)
    rw [log.starts_batches]
    exact List.mem_append_left _ member
  · intro first other member
    rw [starts_append, List.mem_append] at member
    rcases member with member | member
    · apply keep first other _ (entered.done first other member)
      rw [log.starts_batches, split, starts_append]
      exact List.mem_append_right _ (List.mem_append_left _ member)
    · rw [starts_cons, starts_nil, List.mem_singleton, Prod.mk.injEq] at member
      obtain ⟨rfl, rfl⟩ := member
      exact SegmentManifest.mem_registerSegment_self _ _

/-- A seal in progress: the handle is the old one, the files hold the log, and a calm seal has no fault ahead. -/
structure Sealing (admits : List StoredEvent → Prop) (calm : Prop) (base : World) (log : Log) (world : World) : Prop where
  store : world.store = base.store
  acknowledged : world.acknowledged = base.acknowledged
  stored : Stored admits base.store.header log world.disk
  calm : calm → world.fault = none

/-- A seal in progress together with a fact about the files. -/
def Keeps (admits : List StoredEvent → Prop) (calm : Prop) (base : World) (log : Log) (known : Disk → Prop)
    (world : World) : Prop :=
  Sealing admits calm base log world ∧ known world.disk

/-- A seal that stopped was not calm and still keeps the log. -/
def Halted (admits : List StoredEvent → Prop) (calm : Prop) (base : World) (log : Log) (_ : StorageError)
    (world : World) : Prop :=
  ¬calm ∧ Sealing admits False base log world

section Steps

variable {admits : List StoredEvent → Prop} {calm : Prop} {base : World} {log : Log} {known : Disk → Prop}

theorem Sealing.stop {world : World} (sealing : Sealing admits calm base log world) : Sealing admits False base log world :=
  ⟨sealing.store, sealing.acknowledged, sealing.stored, False.elim⟩

theorem Keeps.strengthen {B : Type} {action : Process B} {weaker : Disk → Prop} {after : B → World → Prop}
    {failed : StorageError → World → Prop} (implies : ∀ disk, known disk → weaker disk)
    (meets : Meets (Keeps admits calm base log weaker) action after failed) :
    Meets (Keeps admits calm base log known) action after failed :=
  meets.consequence (fun _ start => ⟨start.1, implies _ start.2⟩) (fun _ _ holds => holds) fun _ _ holds => holds

/-- A file operation that keeps the log leads from one fact about the files to another. -/
theorem fileOperation_keeps {operation : FileOperation} {partly : Nat → Disk → Disk} {fully : Disk → Disk}
    (after : Disk → Prop)
    (whole : ∀ disk, Stored admits base.store.header log disk → known disk →
      Stored admits base.store.header log (fully disk) ∧ after (fully disk))
    (part : ∀ written disk, Stored admits base.store.header log disk → known disk →
      Stored admits base.store.header log (partly written disk)) :
    Meets (Keeps admits calm base log known) (fileOperation operation partly fully) (fun _ => Keeps admits calm base log after)
      (Halted admits calm base log) := by
  apply fileOperation_meets
  · intro world start
    obtain ⟨sealing, holds⟩ := start
    obtain ⟨stored, reached⟩ := whole world.disk sealing.stored holds
    refine ⟨⟨sealing.store, sealing.acknowledged, stored, fun quiet => ?_⟩, reached⟩
    rw [sealing.calm quiet]
    rfl
  · intro world fault start broken
    obtain ⟨sealing, holds⟩ := start
    refine ⟨fun quiet => ?_, sealing.store, sealing.acknowledged, part _ _ sealing.stored holds, False.elim⟩
    rw [sealing.calm quiet] at broken
    contradiction

theorem observe_keeps {operation : FileOperation} :
    Meets (Keeps admits calm base log known) (observe operation) (fun _ => Keeps admits calm base log known)
      (Halted admits calm base log) :=
  fileOperation_keeps known (fun _ stored holds => ⟨stored, holds⟩) fun _ _ stored _ => stored

/-- Reading the world pins the files down. -/
theorem read_keeps {B : Type} {next : World → Process B} {after : B → World → Prop}
    {failed : StorageError → World → Prop}
    (tail : ∀ world, Sealing admits calm base log world → known world.disk →
      Meets (Keeps admits calm base log fun disk => disk = world.disk) (next world) after failed) :
    Meets (Keeps admits calm base log known) (Procedure.read >>= next) after failed := by
  intro world start
  exact tail world start.1 start.2 world ⟨start.1, rfl⟩

/-- A pure step that a calm seal passes hands on the value that it must have. -/
theorem lift_keeps {A : Type} {outcome : Except StorageError A} {value : A}
    (passes : ∀ result, outcome = .ok result → result = value) (quiet : calm → outcome = .ok value) :
    Meets (Keeps admits calm base log known) (Procedure.lift outcome)
      (fun result world => result = value ∧ Keeps admits calm base log known world) (Halted admits calm base log) := by
  apply Meets.lift
  · intro result right world start
    exact ⟨passes result right, start⟩
  · intro error wrong world start
    refine ⟨fun still => ?_, start.1.stop⟩
    rw [quiet still] at wrong
    contradiction

theorem refuseIf_keeps {condition : Prop} [Decidable condition] {error : StorageError} (passes : ¬condition) :
    Meets (Keeps admits calm base log known) (refuseIf condition error) (fun _ => Keeps admits calm base log known)
      (Halted admits calm base log) :=
  Meets.refuseIf (fun _ _ start => start) fun refuses => absurd refuses passes

/-- A bounded read returns the file. -/
theorem readBounded_keeps {bytes : List UInt8} {maxBytes : Nat} (fits : bytes.length ≤ maxBytes) :
    Meets (Keeps admits calm base log known) (readBounded (some bytes) maxBytes)
      (fun result world => result = bytes ∧ Keeps admits calm base log known world) (Halted admits calm base log) := by
  unfold readBounded
  apply observe_keeps.bind
  intro _
  apply observe_keeps.bind
  intro _
  have read : readBoundedFile (some bytes) maxBytes = .ok bytes := readBoundedFile_ok.mpr ⟨rfl, fits⟩
  rw [read]
  apply (lift_keeps (fun result right => (Except.ok.inj right).symm) fun _ => rfl).bind_value
  apply observe_keeps.bind
  intro _
  apply observe_keeps.bind
  intro _
  exact Meets.pure fun world start => ⟨rfl, start⟩

/-- Reading a frame returns its batch. -/
theorem readIndexed_keeps (inv : Inv admits log base.disk base.store) {before after : List (List StoredEvent)}
    {batch : List StoredEvent} (split : log.live = before ++ batch :: after) :
    Meets (Keeps admits calm base log known)
      (readIndexed base.store ⟨walHeaderLen + (logBytes before).length, (batchBytes batch).length,
        log.retiredCount + before.flatten.length, batch.length⟩)
      (fun result world => result = batch ∧ Keeps admits calm base log known world) (Halted admits calm base log) := by
  have fits := inv.tracks.fits batch (by rw [split]; simp)
  unfold readIndexed
  apply (refuseIf_keeps (Nat.not_lt.mpr fits.length)).bind
  intro _
  apply observe_keeps.bind
  intro _
  apply observe_keeps.bind
  intro _
  apply read_keeps
  intro world sealing holds
  have here : Inv admits log world.disk base.store := ⟨inv.valid, sealing.stored, inv.tracks⟩
  dsimp only
  rw [here.decodeFrameAt_ok split]
  apply (lift_keeps (fun result right => (Except.ok.inj right).symm) fun _ => rfl).bind_value
  rw [here.checkIndexedFrame_ok split rfl rfl]
  have still : ∀ disk, disk = world.disk → known disk := by
    intro disk same
    rw [same]
    exact holds
  exact Keeps.strengthen still (lift_keeps (fun result right => (Except.ok.inj right).symm) fun _ => rfl)

end Steps

section Frames

variable {admits : List StoredEvent → Prop} {calm : Prop} {base : World} {log : Log}
  {done : List (List StoredEvent)} {manifest : SegmentManifest} {first : Nat} {batch : List StoredEvent}

/-- The files know the manifest so far. -/
def Registering (base : World) (log : Log) (done : List (List StoredEvent)) (manifest : SegmentManifest)
    (disk : Disk) : Prop := Entered base.store.header log done manifest disk.segments

/-- In addition the segment of a batch is there, or is not. -/
def Publishing (base : World) (log : Log) (done : List (List StoredEvent)) (manifest : SegmentManifest) (first : Nat)
    (batch : List StoredEvent) (file : Option (List UInt8)) (disk : Disk) : Prop :=
  Registering base log done manifest disk ∧
    disk.segments.lookup (segmentFilename first (first + batch.length - 1)) = file

/-- The segment that a seal finds already holds the encoding of the batch. -/
theorem compareSegment_keeps {B : Type} {next : Process B} {after : B → World → Prop}
    (fits : SegmentFits base.store.header base.store.limits batch) {known : Disk → Prop}
    (tail : Meets (Keeps admits calm base log known) next after (Halted admits calm base log)) :
    Meets (Keeps admits calm base log known)
      (do
        let existing ← readBounded (some (sealedBytes base.store.header batch)) base.store.limits.maxSegmentBytes
        refuseIf (existing ≠ sealedBytes base.store.header batch)
          (.invalidRecord "existing immutable segment differs from WAL")
        let _ ← Procedure.lift (asStorage (decodeSegment existing base.store.limits))
        next) after (Halted admits calm base log) := by
  have room : (sealedBytes base.store.header batch).length ≤ base.store.limits.maxSegmentBytes := by
    rw [sealedBytes, segmentBytes_length]
    exact fits.room
  have decoded : asStorage (decodeSegment (sealedBytes base.store.header batch) base.store.limits) =
      .ok ⟨base.store.header, batch⟩ := asStorage_ok.mpr (decodeSegment_segmentBytes fits)
  apply (readBounded_keeps room).bind_value
  apply (refuseIf_keeps (not_not.mpr rfl)).bind
  intro _
  rw [decoded]
  exact (lift_keeps (fun result right => (Except.ok.inj right).symm) fun _ => rfl).bind_value tail

/-- A new segment is written under a temporary name, read back, and then published. -/
theorem publishSegment_keeps (inv : Inv admits log base.disk base.store) (member : (first, batch) ∈ starts 0 log.batches)
    (nonempty : batch ≠ []) (fits : SegmentFits base.store.header base.store.limits batch) (admitted : admits batch) :
    Meets (Keeps admits calm base log (Registering base log done manifest))
      (base.store.publishSegment (segmentFilename first (first + batch.length - 1)) batch
        (sealedBytes base.store.header batch))
      (fun _ => Keeps admits calm base log (Publishing base log done manifest first batch
        (some (sealedBytes base.store.header batch)))) (Halted admits calm base log) := by
  have inside := (bounds_of_mem member).2
  have size := List.length_pos_of_ne_nil nonempty
  have bound := inv.valid.bound
  rw [Nat.zero_add, ← Log.events] at inside
  unfold Store.publishSegment
  apply observe_keeps.bind
  intro _
  apply read_keeps
  intro world sealing entered
  cases found : world.disk.segments.lookup (segmentFilename first (first + batch.length - 1)) with
  | some file =>
      obtain ⟨other, member', ends, same, _⟩ := sealing.stored.published _ _ file (by omega) (by omega) found
      obtain ⟨_, rfl⟩ := eq_of_mem_of_position member (le_refl _) (by omega) member' (le_refl _) (by omega)
      subst same
      have here : ∀ disk, disk = world.disk → Publishing base log done manifest first batch
          (some (sealedBytes base.store.header batch)) disk := by
        intro disk same
        rw [same]
        exact ⟨entered, found⟩
      apply Keeps.strengthen here
      exact compareSegment_keeps fits (Meets.pure fun world holds => holds)
  | none =>
      have here : ∀ disk, disk = world.disk → Publishing base log done manifest first batch none disk := by
        intro disk same
        rw [same]
        exact ⟨entered, found⟩
      apply Keeps.strengthen here
      dsimp only
      refine (fileOperation_keeps (Publishing base log done manifest first batch none) ?_ ?_).bind ?_
      · exact fun disk stored holds => ⟨stored.withTemporaries _, holds⟩
      · exact fun _ _ stored _ => stored
      intro _
      refine (fileOperation_keeps (fun disk => Publishing base log done manifest first batch none disk ∧
        disk.temporaries.head? = some (sealedBytes base.store.header batch)) ?_ ?_).bind ?_
      · exact fun disk stored holds => ⟨stored.withTemporaries _, holds, rfl⟩
      · exact fun _ _ stored _ => stored.withTemporaries _
      intro _
      apply observe_keeps.bind
      intro _
      apply read_keeps
      intro written sealing' holds
      have still : ∀ disk, disk = written.disk → Publishing base log done manifest first batch none disk ∧
          disk.temporaries.head? = some (sealedBytes base.store.header batch) := by
        intro disk same
        rw [same]
        exact holds
      apply Keeps.strengthen still
      rw [holds.2]
      have room : (sealedBytes base.store.header batch).length ≤ base.store.limits.maxSegmentBytes := by
        rw [sealedBytes, segmentBytes_length]
        exact fits.room
      have decoded : asStorage (decodeSegment (sealedBytes base.store.header batch) base.store.limits) =
          .ok ⟨base.store.header, batch⟩ := asStorage_ok.mpr (decodeSegment_segmentBytes fits)
      apply (readBounded_keeps room).bind_value
      rw [decoded]
      apply (lift_keeps (fun result right => (Except.ok.inj right).symm) fun _ => rfl).bind_value
      apply (refuseIf_keeps (by simp)).bind
      intro _
      refine (fileOperation_keeps (Publishing base log done manifest first batch
        (some (sealedBytes base.store.header batch))) ?_ ?_).bind ?_
      · intro disk stored holds
        obtain ⟨⟨registering, absent⟩, top⟩ := holds
        have content : disk.temporaries.headD [] = sealedBytes base.store.header batch := by
          rw [List.headD_eq_head?_getD, top]
          rfl
        rw [content]
        refine ⟨stored.withSegments (stored.published.addSegment bound nonempty member admitted) (extends_cons _ absent), ?_, ?_⟩
        · exact Entered.extends registering (extends_cons _ absent)
        · exact List.lookup_cons_self
      · exact fun _ _ stored _ => stored
      intro _
      apply observe_keeps.bind
      intro _
      refine (fileOperation_keeps (Publishing base log done manifest first batch
        (some (sealedBytes base.store.header batch))) ?_ ?_).bind ?_
      · exact fun disk stored holds => ⟨stored.withTemporaries _, holds⟩
      · exact fun _ _ stored _ => stored
      intro _
      apply observe_keeps.bind
      intro _
      exact Meets.pure fun world holds => holds

/-- Writing the summary file, whole or in part, disturbs no segment. -/
theorem writeSummary_keeps {frame : FrameLocation} {index : Nat} {file : List UInt8}
    (summary : base.store.summaries[index]?.isSome) :
    Meets (Keeps admits calm base log (Publishing base log done manifest first batch (some file)))
      (base.store.writeSummary frame index)
      (fun _ => Keeps admits calm base log (Publishing base log done manifest first batch (some file)))
      (Halted admits calm base log) := by
  unfold Store.writeSummary
  apply observe_keeps.bind
  intro _
  apply read_keeps
  intro world sealing publishing
  have still : ∀ disk, disk = world.disk → Publishing base log done manifest first batch (some file) disk ∧
      disk.segments.lookup (summaryFilename frame.first frame.last) =
        world.disk.segments.lookup (summaryFilename frame.first frame.last) := by
    intro disk same
    rw [same]
    exact ⟨publishing, rfl⟩
  apply Keeps.strengthen still
  obtain ⟨block, present⟩ := Option.isSome_iff_exists.mp summary
  cases found : world.disk.segments.lookup (summaryFilename frame.first frame.last) with
  | some existing =>
      exact Meets.pure fun reached holds => ⟨holds.1, holds.2.1⟩
  | none =>
      rw [present]
      dsimp only
      apply (lift_keeps (fun result right => (Except.ok.inj right).symm) fun _ => rfl).bind_value
      have add : ∀ content disk, Stored admits base.store.header log disk →
          Publishing base log done manifest first batch (some file) disk ∧
            disk.segments.lookup (summaryFilename frame.first frame.last) = none →
          Stored admits base.store.header log
              { disk with segments := (summaryFilename frame.first frame.last, content) :: disk.segments } ∧
            Publishing base log done manifest first batch (some file)
              { disk with segments := (summaryFilename frame.first frame.last, content) :: disk.segments } := by
        intro content disk stored holds
        obtain ⟨⟨registering, there⟩, absent⟩ := holds
        have extension := extends_cons content absent
        exact ⟨stored.withSegments stored.published.addSummary extension,
          Entered.extends registering extension, extension _ _ there⟩
      exact fileOperation_keeps _ (fun disk stored holds => add _ disk stored holds)
        fun _ disk stored holds => (add _ disk stored holds).1

/-- Sealing one frame enters its batch into the manifest. -/
theorem sealFrame_keeps (inv : Inv admits log base.disk base.store) {after : List (List StoredEvent)}
    (split : log.live = done ++ batch :: after) (report : SealReport)
    (admitted : ∀ batch, SegmentFits base.store.header base.store.limits batch → admits batch)
    (quiet : calm → ∀ batch ∈ log.live, SegmentFits base.store.header base.store.limits batch) :
    Meets (Keeps admits calm base log (Registering base log done manifest))
      (base.store.sealFrame (manifest, report) (⟨walHeaderLen + (logBytes done).length, (batchBytes batch).length,
        log.retiredCount + done.flatten.length, batch.length⟩, done.length))
      (fun result => Keeps admits calm base log (Registering base log (done ++ [batch]) result.1))
      (Halted admits calm base log) := by
  have live : batch ∈ log.live := by
    rw [split]
    simp
  have member : (log.retiredCount + done.flatten.length, batch) ∈ starts 0 log.batches := by
    rw [log.starts_batches, split]
    exact List.mem_append_right _ (mem_starts_of_append _ _ _ _)
  have nonempty := inv.live_nonempty live
  have summary : base.store.summaries[done.length]?.isSome := by
    have size := inv.tracks.summaries.length_eq
    rw [split] at size
    rw [List.getElem?_eq_getElem (by simp at size; omega)]
    rfl
  unfold Store.sealFrame
  apply (readIndexed_keeps inv split).bind_value
  by_cases fits : SegmentFits base.store.header base.store.limits batch
  · rw [asStorage_ok.mpr (encodeSegment_ok.mpr ⟨fits, rfl⟩)]
    apply (lift_keeps (fun result right => (Except.ok.inj right).symm) fun _ => rfl).bind_value
    apply (publishSegment_keeps inv member nonempty fits (admitted batch fits)).bind
    intro created
    apply (writeSummary_keeps summary).bind
    intro _
    apply Meets.pure
    intro world holds
    exact ⟨holds.1, Entered.register holds.2.1 inv.valid.bound inv.valid.nonempty split holds.2.2⟩
  · cases encoded : encodeSegment base.store.header batch base.store.limits with
    | ok bytes => exact absurd (encodeSegment_ok.mp encoded).1 fits
    | error error =>
        intro world start
        rw [asStorage, Except.mapError, lift_bind_error]
        exact ⟨fun still => fits (quiet still batch live), start.1.stop⟩

/-- Sealing the frames one after the other enters every batch. -/
theorem sealLoop_keeps (inv : Inv admits log base.disk base.store) {rest : List (List StoredEvent)}
    (split : log.live = done ++ rest) (progress : SegmentManifest × SealReport)
    (admitted : ∀ batch, SegmentFits base.store.header base.store.limits batch → admits batch)
    (quiet : calm → ∀ batch ∈ log.live, SegmentFits base.store.header base.store.limits batch) :
    Meets (Keeps admits calm base log (Registering base log done progress.1))
      (((locate (walHeaderLen + (logBytes done).length) (log.retiredCount + done.flatten.length) rest).zipIdx
        done.length).foldlM base.store.sealFrame progress)
      (fun result => Keeps admits calm base log (Registering base log log.live result.1)) (Halted admits calm base log) := by
  induction rest generalizing done progress with
  | nil =>
      rw [List.append_nil] at split
      rw [locate_nil, List.zipIdx_nil, List.foldlM_nil, split]
      exact Meets.pure fun world holds => holds
  | cons batch rest ih =>
      rw [locate_cons, List.zipIdx_cons, List.foldlM_cons]
      apply (sealFrame_keeps inv split progress.2 admitted quiet).bind
      intro result
      have split' : log.live = (done ++ [batch]) ++ rest := by
        rw [split, List.append_assoc]
        rfl
      have next := ih split' result
      simpa [Nat.add_assoc] using next

end Frames

/-- Loading returns the manifest that the files hold. -/
theorem loadIfExists_keeps {admits : List StoredEvent → Prop} {calm : Prop} {base : World} {log : Log} {disk : Disk}
    {manifest : Option SegmentManifest} (present : disk.manifest = manifest) :
    Meets (Keeps admits calm base log fun files => files = disk) SegmentManifest.loadIfExists
      (fun result world => result = manifest ∧ Keeps admits calm base log (fun files => files = disk) world)
      (Halted admits calm base log) := by
  unfold SegmentManifest.loadIfExists
  apply observe_keeps.bind
  intro _
  apply read_keeps
  intro world sealing same
  rw [same, present]
  cases manifest with
  | none => exact Meets.pure fun reached holds => ⟨rfl, holds⟩
  | some manifest =>
      apply observe_keeps.bind
      intro _
      exact Meets.pure fun reached holds => ⟨rfl, holds⟩

/-- Before the first frame the manifest only has the entries of earlier seals. -/
theorem Inv.entered_nil {admits : List StoredEvent → Prop} {log : Log} {disk : Disk} {store : Store} (inv : Inv admits log disk store) :
    Entered store.header log [] (disk.manifest.getD
      (.new store.header.database store.header.source store.header.epoch)) disk.segments := by
  have mark := inv.stored.mark
  cases present : disk.manifest with
  | none =>
      rw [present] at mark
      refine ⟨mark, ?_, ?_, ?_⟩
      · intro entry member
        simp [SegmentManifest.new] at member
      · intro first batch member
        obtain ⟨manifest, found, _⟩ := inv.stored.retired first batch member
        rw [present] at found
        contradiction
      · intro first batch member
        simp at member
  | some manifest =>
      rw [present] at mark
      refine ⟨mark, inv.stored.registered manifest present, ?_, ?_⟩
      · intro first batch member
        obtain ⟨other, found, entry⟩ := inv.stored.retired first batch member
        rw [present, Option.some.injEq] at found
        exact found ▸ entry
      · intro first batch member
        simp at member

/-- Saving makes the manifest of the seal the manifest of the store. -/
theorem save_keeps {admits : List StoredEvent → Prop} {calm : Prop} {base : World} {log : Log} {manifest : SegmentManifest} :
    Meets (Keeps admits calm base log (Registering base log log.live manifest)) manifest.save
      (fun _ => Keeps admits calm base log fun disk => ∃ manifest, disk.manifest = some manifest ∧
        ∀ first batch, (first, batch) ∈ starts 0 log.batches → batchMeta base.store.header first batch ∈
          manifest.sealedSegments) (Halted admits calm base log) := by
  unfold SegmentManifest.save
  apply observe_keeps.bind
  intro _
  apply observe_keeps.bind
  intro _
  apply observe_keeps.bind
  intro _
  apply observe_keeps.bind
  intro _
  apply fileOperation_keeps
  · intro disk stored registering
    refine ⟨stored.withManifest registering, manifest, rfl, ?_⟩
    intro first batch member
    rw [log.starts_batches, List.mem_append] at member
    rcases member with member | member
    · exact registering.retired first batch member
    · exact registering.done first batch member
  · exact fun _ _ stored _ => stored

/-- A seal keeps the handle and the log, whatever fails. A calm one succeeds and registers every batch. -/
theorem sealFrames_keeps {admits : List StoredEvent → Prop} {calm : Prop} {base : World} {log : Log} (inv : Inv admits log base.disk base.store)
    (sound : calm → base.fault = none)
    (admitted : ∀ batch, SegmentFits base.store.header base.store.limits batch → admits batch)
    (quiet : calm → ∀ batch ∈ log.live, SegmentFits base.store.header base.store.limits batch) :
    Meets (fun world => world = base) Store.sealFrames
      (fun _ => Keeps admits calm base log fun disk => ∃ manifest, disk.manifest = some manifest ∧
        ∀ first batch, (first, batch) ∈ starts 0 log.batches → batchMeta base.store.header first batch ∈
          manifest.sealedSegments) (Halted admits calm base log) := by
  have start : ∀ world, world = base → Keeps admits calm base log (fun disk => disk = base.disk) world := by
    intro world same
    rw [same]
    exact ⟨⟨rfl, rfl, inv.stored, sound⟩, rfl⟩
  intro world same
  subst same
  unfold Store.sealFrames
  rw [bind_of_ok (read_apply world)]
  dsimp only
  rw [refuseIf_bind (by rw [inv.tracks.usable]; decide)]
  refine (?_ : Meets (Keeps admits calm world log fun disk => disk = world.disk) _ _ _) world (start world rfl)
  apply observe_keeps.bind
  intro _
  apply observe_keeps.bind
  intro _
  apply (loadIfExists_keeps rfl).bind_value
  have entered : ∀ disk, disk = world.disk → Registering world log [] (world.disk.manifest.getD
      (.new world.store.header.database world.store.header.source world.store.header.epoch)) disk := by
    intro disk same
    rw [same]
    exact inv.entered_nil
  apply Keeps.strengthen entered
  have frames : world.store.frames = locate (walHeaderLen + (logBytes []).length)
      (log.retiredCount + ([] : List (List StoredEvent)).flatten.length) log.live := inv.tracks.frames
  rw [frames]
  apply (sealLoop_keeps inv (List.nil_append _).symm (_, ⟨0, 0, 0⟩) admitted quiet).bind
  intro result
  apply (save_keeps).bind
  intro _
  exact Meets.pure fun reached holds => holds

end Temnion.Storage
