import Temnion.Storage.Backup
import Temnion.Storage.Outcome

/-
This file says for which stores a backup that is restored gives the store back.
-/

namespace Temnion.Storage

open Format Index LittleEndian Batches

variable [Crc32fast]

/-- The files below the directory of a store. Any further file of the directory may hold anything. -/
structure Lays (files : Files) (disk : Disk) : Prop where
  distinct : (files.map Prod.fst).Nodup
  wal : files.lookup walPath = some disk.wal
  manifest : files.lookup segmentManifestPath = disk.manifest.map SegmentManifest.encode
  segments : ∀ first last, files.lookup (segmentPath (segmentFilename first last)) =
    disk.segments.lookup (segmentFilename first last)
  foreign : files.lookup backupManifestPath = none
  counted : files.length < 2 ^ 32
  short : ∀ file ∈ files, (Utf8.encode file.1).length < 2 ^ 32
  registered : ∀ manifest, disk.manifest = some manifest → manifest.sealedSegments.length < 2 ^ 32

/-- Every large enough budget brings the whole unfiltered history in one page. -/
def ReturnsAll (store : Store) (disk : Disk) (events : List StoredEvent) : Prop :=
  ∃ enough, ∀ budget : StorageQueryBudget, enough ≤ budget.maxResults → enough ≤ budget.maxScanned →
    enough ≤ budget.maxReadBytes → ∃ page, store.history disk HistoryFilter.default budget none = .ok page ∧
      page.events = events ∧ page.continuation = none

/-- A backup into an empty directory and its restoration into another one give the store back. -/
def RoundTrips (timestampNs : BitVec 128) (files : Files) (system : System) : Prop :=
  ∃ store manifest backup restored disk, system.handle = some store ∧
    createBackup timestampNs (some files) none = .ok (manifest, backup) ∧
    restoreBackup backup none = .ok (restored, disk) ∧
    restored.header = store.header ∧ restored.nextSequence = store.nextSequence ∧
    ReturnsAll restored disk system.acknowledged

/-- The default limits admit the frames of the log file and the segments of the retired frames. -/
structure WithinDefaults (header : WalHeader) (log : Log) : Prop where
  frames : ∀ batch ∈ log.live, BatchFits Limits.default batch
  segments : ∀ batch ∈ log.retired, SegmentFits header Limits.default batch

section Blocks

variable {log : Log} {disk : Disk} {store : Store}

theorem readable_iff {header : WalHeader} {limits : Limits} :
    (∀ block ∈ log.blocks, block.Readable header limits) ↔ ∀ batch ∈ log.retired, SegmentFits header limits batch := by
  constructor
  · intro readable batch member
    obtain ⟨before, after, split⟩ := List.append_of_mem member
    have place := mem_starts_of_append 0 before after batch
    rw [← split] at place
    exact readable _ (List.mem_append_left _ (List.mem_map_of_mem place)) rfl
  · intro fits block member retired
    rcases List.mem_append.mp member with gone | live
    · obtain ⟨place, inside, rfl⟩ := List.mem_map.mp gone
      exact fits _ (mem_of_mem_starts inside)
    · obtain ⟨place, inside, rfl⟩ := List.mem_map.mp live
      contradiction

/-- The whole history can be read exactly when each retired segment can. -/
theorem Inv.returnsAll_iff (inv : Inv (SealedOnce store.header) log disk store) :
    ReturnsAll store disk log.events ↔ ∀ batch ∈ log.retired, SegmentFits store.header store.limits batch := by
  have all : log.events.filter HistoryFilter.default.keeps = log.events :=
    List.filter_eq_self.mpr fun record _ => HistoryFilter.default_keeps record
  rw [← readable_iff]
  constructor
  · rintro ⟨enough, reads⟩ block member
    let budget : StorageQueryBudget := ⟨enough + 1, enough + 1, enough + 1⟩
    obtain ⟨page, done, events, ended⟩ := reads budget (Nat.le_succ _) (Nat.le_succ _) (Nat.le_succ _)
    have positive : 0 < budget.maxResults ∧ 0 < budget.maxScanned ∧ 0 < budget.maxReadBytes :=
      ⟨Nat.succ_pos _, Nat.succ_pos _, Nat.succ_pos _⟩
    have within : WithinBudget budget (store.history disk HistoryFilter.default budget none) := by
      rw [done]
      exact .inr ended
    have serviceable := (inv.history_ok_iff positive within).mp ⟨page, done⟩
    have taken := inv.history_events positive within done
    rw [events, all] at taken
    have fewer := congrArg List.length taken
    rw [List.length_take] at fewer
    have inside := inv.blocks_consecutive.stop_le block member
    have size := List.length_pos_of_ne_nil (inv.blocks_consecutive.nonempty block member)
    change block.first + block.records.length ≤ _ at inside
    apply serviceable.2 block member
    have front := List.length_filter_le HistoryFilter.default.keeps (log.events.take block.first)
    rw [List.length_take] at front
    omega
  · intro readable
    let bytes := (log.blocks.map (Block.length store.header)).sum
    let count := (log.blocks.map (·.records.length)).sum
    refine ⟨log.events.length + bytes + count + 1, ?_⟩
    intro budget results scanned readBytes
    have positive : 0 < budget.maxResults ∧ 0 < budget.maxScanned ∧ 0 < budget.maxReadBytes := by omega
    have within := inv.withinBudget HistoryFilter.default positive (fun block member _ => readable block member)
      (by omega) (by omega)
    have clock : OnKnownClock HistoryFilter.default store := fun cutoff last absent => nomatch absent
    obtain ⟨page, done⟩ := (inv.history_ok_iff positive within).mpr ⟨clock, fun block member _ => readable block member⟩
    have events := inv.history_events positive within done
    rw [all, List.take_of_length_le (by omega)] at events
    refine ⟨page, done, events, ?_⟩
    rw [done] at within
    refine within.resolve_left ?_
    rw [events]
    omega

end Blocks

section Laid

variable {admits : List StoredEvent → Prop} {log : Log} {disk : Disk} {store : Store} {files : Files}

/-- The files that a handle on copies of the files works on. -/
def copiedDisk (files : Files) (disk : Disk) : Disk := ⟨disk.wal, segmentsOf files.reverse, disk.manifest, []⟩

theorem Lays.lookup_reverse (lays : Lays files disk) (path : Text) : files.reverse.lookup path = files.lookup path :=
  (Listing.lookup_perm lays.distinct (List.reverse_perm files).symm).symm

/-- The name of a segment is short. -/
theorem segmentFilename_named (header : WalHeader) (first : Nat) (batch : List StoredEvent) :
    SegmentManifest.Named (batchMeta header first batch) := by
  change (Utf8.encode (segmentFilename first (first + batch.length - 1)).toList).length < 2 ^ 16
  have characters : (segmentFilename first (first + batch.length - 1)).toList.length = 45 := by
    rw [segmentFilename, String.toList_ofList, segmentStem]
    simp only [List.length_append, List.length_cons, List.length_nil, decimalDigits_length]
  have width : ∀ text : Text, text.byteLength ≤ text.length * 4 := by
    intro text
    have bound : ∀ size ∈ text.map Char.utf8Size, size ≤ 4 := by
      intro size member
      obtain ⟨character, _, rfl⟩ := List.mem_map.mp member
      exact Char.utf8Size_le_four character
    have sum := List.sum_le_card_nsmul _ 4 bound
    rwa [List.length_map, smul_eq_mul] at sum
  have bytes := width (segmentFilename first (first + batch.length - 1)).toList
  rw [← Utf8.encode_length, characters] at bytes
  omega

theorem Lays.loadIfExists (lays : Lays files disk) (stored : Stored admits store.header log disk) :
    loadIfExists files.reverse = .ok disk.manifest := by
  rw [Storage.loadIfExists, lays.lookup_reverse, lays.manifest]
  cases present : disk.manifest with
  | none => rfl
  | some manifest =>
      have named : ∀ entry ∈ manifest.sealedSegments, SegmentManifest.Named entry := by
        intro entry member
        obtain ⟨first, batch, _, rfl, _⟩ := stored.registered manifest present entry member
        exact segmentFilename_named _ _ _
      rw [Option.map_some]
      dsimp only
      rw [SegmentManifest.decode_encode named (lays.registered manifest present)]
      rfl

/-- The copies hold the same log. -/
theorem Lays.stored {header : WalHeader} (lays : Lays files disk) (stored : Stored admits header log disk)
    (weaker : ∀ batch, admits batch → SealedOnce header batch) :
    Stored (SealedOnce header) header log (copiedDisk files disk) := by
  have same : ∀ first last, (segmentsOf files.reverse).lookup (segmentFilename first last) =
      disk.segments.lookup (segmentFilename first last) := by
    intro first last
    rw [lookup_segmentsOf, lays.lookup_reverse, lays.segments]
  exact {
    wal := stored.wal
    walBound := stored.walBound
    mark := stored.mark
    published := by
      intro first last file small small' found
      obtain ⟨batch, member, length, bytes, admitted⟩ :=
        stored.published first last file small small' ((same first last).symm.trans found)
      exact ⟨batch, member, length, bytes, weaker batch admitted⟩
    registered := by
      intro manifest present entry member
      obtain ⟨first, batch, inside, entered, found⟩ := stored.registered manifest present entry member
      exact ⟨first, batch, inside, entered, (same _ _).trans found⟩
    retired := stored.retired }

/-- A handle on the copies is a handle on the log, unless a frame exceeds the limits. -/
theorem Lays.openDirectory (lays : Lays files disk) (stored : Stored admits store.header log disk) {limits : Limits}
    (recovery : RecoveryMode) (sound : validateLimits limits = .ok ()) :
    openDirectory files.reverse limits recovery =
      match Store.openStore limits recovery (copiedDisk files disk) with
      | (.ok (reached, _), disk) => .ok (reached, disk)
      | (.error error, _) => .error (.refused error) := by
  have front : disk.wal.take walHeaderLen = encodeWalHeader store.header := by
    rw [stored.wal, ← encodeWalHeader_length store.header, List.take_left]
  rw [Storage.openDirectory, sound, openFile, lays.lookup_reverse, lays.wal]
  change (refusing (asStorage (decodeWalHeader (disk.wal.take walHeaderLen))) >>= _) = _
  rw [front, decodeWalHeader_encodeWalHeader]
  change (Storage.loadIfExists files.reverse >>= _) = _
  rw [lays.loadIfExists stored]
  rfl

omit [Crc32fast] in
theorem default_limits_sound : validateLimits Limits.default = .ok () := rfl

/-- A backup of the files of a handle gives the store back if and only if the default limits admit its log. -/
theorem Settled.roundTrips_iff {header : WalHeader} {limits : Limits} {system : System}
    (settled : Settled header limits log store system) (lays : Lays files system.disk) (timestampNs : BitVec 128) :
    RoundTrips timestampNs files system ↔ WithinDefaults header log := by
  obtain rfl := settled.header
  have inv := settled.consistent.inv
  have stored := lays.stored inv.stored fun batch fits => ⟨limits, fits⟩
  have copies : Inv (SealedOnce store.header) log (copiedDisk files system.disk) store :=
    ⟨inv.valid, stored, inv.tracks⟩
  have restored := @restoreBackup_created _ files timestampNs lays.distinct lays.foreign lays.counted lays.short
  rw [lays.openDirectory inv.stored .rejectIncompleteTail default_limits_sound] at restored
  constructor
  · rintro ⟨_, manifest, backup, reached, disk, present, created, done, same, length, all⟩
    rw [createBackup_eq] at created
    obtain ⟨rfl, rfl⟩ := Prod.mk.inj (Except.ok.inj created)
    rw [restored] at done
    rcases copies.open_cases Limits.default .rejectIncompleteTail with ⟨opens, inv'⟩ | ⟨error, fails⟩
    · rw [opens] at done
      obtain ⟨rfl, rfl⟩ := Prod.mk.inj (Except.ok.inj done)
      rw [settled.consistent.acknowledged] at all
      have frames := inv'.tracks.fits
      have header : (opened store.header Limits.default log).header = store.header := opened_header
      have segments := (@Inv.returnsAll_iff _ log _ (opened store.header Limits.default log)
        (by rw [header]; exact inv')).mp all
      rw [opened_limits] at frames segments
      rw [opened_header] at segments
      exact ⟨frames, segments⟩
    · rw [fails] at done
      contradiction
  · rintro ⟨frames, segments⟩
    obtain ⟨opens, inv'⟩ := copies.reopen .rejectIncompleteTail default_limits_sound frames
    rw [opens] at restored
    have header : (opened store.header Limits.default log).header = store.header := opened_header
    refine ⟨store, _, _, _, _, settled.present, createBackup_eq files timestampNs, restored, header, ?_, ?_⟩
    · rw [inv'.tracks.nextSequence, inv.tracks.nextSequence]
    · rw [settled.consistent.acknowledged]
      apply (@Inv.returnsAll_iff _ log _ (opened store.header Limits.default log) (by rw [header]; exact inv')).mpr
      rw [opened_limits, header]
      exact segments

omit [Crc32fast] in
theorem head?_append_of_some {A : Type} {front rest : List A} {first : A} (head : front.head? = some first) :
    (front ++ rest).head? = some first := by
  rw [List.head?_append, head]
  rfl

omit [Crc32fast] in
theorem segmentPath_ne_walPath (name : String) : segmentPath name ≠ walPath := by
  intro same
  have below : "segments/".toList.head? = some 's' := by decide
  have first : (segmentPath name).head? = some 's' := head?_append_of_some below
  have beside : walPath.head? ≠ some 's' := by decide
  rw [same] at first
  exact beside first

/-- The listing of a store that has never sealed a frame. -/
theorem lays_log (manifest : disk.manifest = none) (segments : disk.segments = []) :
    Lays [(walPath, disk.wal)] disk where
  distinct := List.nodup_singleton _
  wal := List.lookup_cons_self
  manifest := by
    have other : (segmentManifestPath == walPath) = false := beq_false_of_ne (segmentPath_ne_walPath _)
    rw [manifest, List.lookup_cons, other]
    rfl
  segments := by
    intro first last
    have other := beq_false_of_ne (segmentPath_ne_walPath (segmentFilename first last))
    rw [segments, List.lookup_cons, other]
    rfl
  foreign := by
    rw [List.lookup_cons, show (backupManifestPath == walPath) = false by decide]
    rfl
  counted := Nat.one_lt_two_pow (by decide)
  short := by
    intro file member
    rw [List.mem_singleton.mp member]
    change (Utf8.encode walPath).length < 2 ^ 32
    decide
  registered := fun saved present => by
    rw [manifest] at present
    contradiction

end Laid

/-- A backup of the files of a store, whatever commands it has run under its own limits, restores to the same header,
length and history if and only if the default limits admit the frames and the segments that hold its log. -/
theorem backup_restores_iff {database : DatabaseId} {source : SourceId} {epoch : SourceEpoch} {limits : Limits}
    {start : System} {commands : List Command} {files : Files} (timestampNs : BitVec 128)
    (created : System.create database source epoch limits = .ok start)
    (under : ∀ command ∈ commands, command.Under limits) (lays : Lays files (start.run commands).disk) :
    (∃ log store, Settled ⟨database, source, epoch⟩ limits log store (start.run commands)) ∧
      ∀ log store, Settled ⟨database, source, epoch⟩ limits log store (start.run commands) →
        (RoundTrips timestampNs files (start.run commands) ↔ WithinDefaults ⟨database, source, epoch⟩ log) :=
  ⟨(System.create_settled created).run under, fun _ _ settled => settled.roundTrips_iff lays timestampNs⟩

section Samples

/-- The first append to a store that is otherwise empty. -/
theorem first_append {limits : Limits} {input : WriteEvent} (sound : validateLimits limits = .ok ())
    (next : NextBatch (startStore ⟨sampleDatabase, 1, 1⟩ limits 0) [input] [recordOf ⟨sampleDatabase, 1, 1⟩ 0 input]) :
    let system := (System.fresh sampleDatabase 1 1 limits).run [.append [input]]
    Settled ⟨sampleDatabase, 1, 1⟩ limits ⟨[], [[recordOf ⟨sampleDatabase, 1, 1⟩ 0 input]]⟩
        ((startStore ⟨sampleDatabase, 1, 1⟩ limits 0).pushBatch [recordOf ⟨sampleDatabase, 1, 1⟩ 0 input]) system ∧
      Lays [(walPath, system.disk.wal)] system.disk := by
  have created : System.create sampleDatabase 1 1 limits = .ok (System.fresh sampleDatabase 1 1 limits) :=
    System.create_ok.mpr ⟨sound, rfl⟩
  have empty := System.create_settled created
  obtain ⟨_, _, _, _, wal, disk⟩ := empty.consistent.append [input]
  refine ⟨empty.append_next next, lays_log ?_ ?_⟩
  · exact congrArg Disk.manifest disk
  · exact congrArg Disk.segments disk

omit [Crc32fast] in
theorem backup_restores_iff_sample :
    letI := Crc32fast.ieee
    let system := (System.fresh sampleDatabase 1 1 Limits.default).run [.append [bareInput 1 5]]
    RoundTrips 0 [(walPath, system.disk.wal)] system := by
  generalize Crc32fast.ieee = checksum
  have created : System.create sampleDatabase 1 1 Limits.default =
      .ok (System.fresh sampleDatabase 1 1 Limits.default) := System.create_ok.mpr ⟨rfl, rfl⟩
  have under : ∀ command ∈ [Command.append [bareInput 1 5]], command.Under Limits.default := by
    intro command member
    rw [List.mem_singleton.mp member]
    trivial
  have next : NextBatch (startStore ⟨sampleDatabase, 1, 1⟩ Limits.default 0) [bareInput 1 5]
      [recordOf ⟨sampleDatabase, 1, 1⟩ 0 (bareInput 1 5)] :=
    NextBatch.bare rfl (fun last absent => nomatch absent) (by decide) (by decide)
  obtain ⟨settled, lays⟩ := first_append rfl next
  refine ((backup_restores_iff 0 created under lays).2 _ _ settled).mpr ⟨?_, fun batch absent => nomatch absent⟩
  intro batch member
  rw [List.mem_singleton.mp member]
  exact (bare_fits _ _ _ _).batch

/-- One cause more than the default limits admit. -/
def widerLimits : Limits := { Limits.default with maxCauses := 65 }

def entangledInput : WriteEvent :=
  { bareInput 1 5 with causes := List.replicate 65 ⟨2, 1, 0⟩ }

theorem entangled_length : (batchBytes [recordOf ⟨sampleDatabase, 1, 1⟩ 0 entangledInput]).length = 1392 := by
  rw [batchBytes_length, bodyBytes_cons, bodyBytes_nil, List.append_nil, recordBytes_length]
  decide

theorem entangled_fits : BatchFits widerLimits [recordOf ⟨sampleDatabase, 1, 1⟩ 0 entangledInput] where
  count := Nat.le_of_ble_eq_true rfl
  each := by
    intro record member
    rw [List.mem_singleton.mp member]
    exact ⟨Nat.zero_le _, Nat.two_pow_pos _, by decide, by decide⟩
  length := by
    rw [entangled_length]
    decide
  lengthWord := by
    rw [entangled_length]
    decide

omit [Crc32fast] in
/-- The backup of a store with an event of 65 causes cannot be restored. -/
theorem wider_store_is_not_restored :
    letI := Crc32fast.ieee
    let system := (System.fresh sampleDatabase 1 1 widerLimits).run [.append [entangledInput]]
    System.create sampleDatabase 1 1 widerLimits = .ok (System.fresh sampleDatabase 1 1 widerLimits) ∧
      Lays [(walPath, system.disk.wal)] system.disk ∧ ¬ RoundTrips 0 [(walPath, system.disk.wal)] system := by
  generalize Crc32fast.ieee = checksum
  have created : System.create sampleDatabase 1 1 widerLimits =
      .ok (System.fresh sampleDatabase 1 1 widerLimits) := System.create_ok.mpr ⟨rfl, rfl⟩
  have next : NextBatch (startStore ⟨sampleDatabase, 1, 1⟩ widerLimits 0) [entangledInput]
      [recordOf ⟨sampleDatabase, 1, 1⟩ 0 entangledInput] := {
    inputs := rfl
    nonempty := List.cons_ne_nil _ _
    accepted := by
      refine ⟨⟨rfl, (fun last absent => nomatch absent), ?_⟩, trivial⟩
      intro cause member same
      rw [List.eq_of_mem_replicate member] at same
      exact absurd same (by decide)
    fits := entangled_fits
    bound := by decide
    offset := by
      rw [entangled_length]
      decide }
  obtain ⟨settled, lays⟩ := first_append rfl next
  refine ⟨created, lays, ?_⟩
  intro trips
  have within := (settled.roundTrips_iff lays 0).mp trips
  have fits := (within.frames _ (List.mem_singleton_self _)).each _ (List.mem_singleton_self _)
  exact absurd fits.causes (by decide)

end Samples

end Temnion.Storage
