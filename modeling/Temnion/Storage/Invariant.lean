import Temnion.Storage.Log

/-
This file states what the files and the handle of a store hold when no operation is in progress.
-/

namespace Temnion.Storage

open Format Index LittleEndian Batches

/-- The committed batches. The retired ones have left the log file, the live ones are in it. -/
structure Log where
  retired : List (List StoredEvent)
  live : List (List StoredEvent)

namespace Log

def batches (log : Log) : List (List StoredEvent) := log.retired ++ log.live

def events (log : Log) : List StoredEvent := log.batches.flatten

/-- The first sequence that is still in the log file. -/
def retiredCount (log : Log) : Nat := log.retired.flatten.length

theorem events_eq (log : Log) : log.events = log.retired.flatten ++ log.live.flatten := List.flatten_append

theorem events_length (log : Log) : log.events.length = log.retiredCount + log.live.flatten.length := by
  rw [events_eq, List.length_append, retiredCount]

theorem starts_batches (log : Log) :
    starts 0 log.batches = starts 0 log.retired ++ starts log.retiredCount log.live := by
  rw [batches, starts_append, Nat.zero_add, retiredCount]

/-- The sequences run through both parts. The known times are checked only within the live part,
because a handle that opens a log without frames knows no earlier time. -/
structure Valid (header : WalHeader) (log : Log) : Prop where
  retired : Numbered header 0 log.retired.flatten
  live : Accepted header log.retiredCount none log.live.flatten
  nonempty : ∀ batch ∈ log.batches, batch ≠ []
  bound : log.events.length < 2 ^ 64

theorem Valid.numbered {header : WalHeader} {log : Log} (valid : log.Valid header) :
    Numbered header 0 log.events := by
  rw [events_eq, Numbered.append_iff, Nat.zero_add]
  exact ⟨valid.retired, valid.live.numbered⟩

/-- A batch is not empty and ends within the log. -/
theorem Valid.place {header : WalHeader} {log : Log} {first : Nat} {batch : List StoredEvent}
    (valid : log.Valid header) (member : (first, batch) ∈ starts 0 log.batches) :
    0 < batch.length ∧ first + batch.length ≤ log.events.length := by
  have inside := (bounds_of_mem member).2
  rw [Nat.zero_add] at inside
  exact ⟨List.length_pos_of_ne_nil (valid.nonempty _ (mem_of_mem_starts member)), inside⟩

end Log

variable [Crc32fast]

/-- The bytes of the frames, one after the other. -/
def logBytes (batches : List (List StoredEvent)) : List UInt8 := batches.flatMap batchBytes

@[simp] theorem logBytes_nil : logBytes [] = [] := rfl

@[simp] theorem logBytes_cons (batch : List StoredEvent) (batches : List (List StoredEvent)) :
    logBytes (batch :: batches) = batchBytes batch ++ logBytes batches := rfl

@[simp] theorem logBytes_append (first second : List (List StoredEvent)) :
    logBytes (first ++ second) = logBytes first ++ logBytes second := List.flatMap_append

/-- Where the frames of the batches lie. -/
def locate : Nat → Nat → List (List StoredEvent) → List FrameLocation
  | _, _, [] => []
  | offset, first, batch :: batches =>
      ⟨offset, (batchBytes batch).length, first, batch.length⟩ ::
        locate (offset + (batchBytes batch).length) (first + batch.length) batches

@[simp] theorem locate_nil (offset first : Nat) : locate offset first [] = [] := rfl

@[simp] theorem locate_cons (offset first : Nat) (batch : List StoredEvent) (batches : List (List StoredEvent)) :
    locate offset first (batch :: batches) =
      ⟨offset, (batchBytes batch).length, first, batch.length⟩ ::
        locate (offset + (batchBytes batch).length) (first + batch.length) batches := rfl

theorem locate_append (offset first : Nat) (before after : List (List StoredEvent)) :
    locate offset first (before ++ after) = locate offset first before ++
      locate (offset + (logBytes before).length) (first + before.flatten.length) after := by
  induction before generalizing offset first with
  | nil => simp
  | cons batch before ih => simp [ih, Nat.add_assoc]

theorem locate_length (offset first : Nat) (batches : List (List StoredEvent)) :
    (locate offset first batches).length = batches.length := by
  induction batches generalizing offset first with
  | nil => rfl
  | cons batch batches ih => simp [ih]

/-- Every batch has a frame of its own. -/
theorem exists_frame_of_mem_starts (offset : Nat) {first place : Nat} {batch : List StoredEvent}
    {batches : List (List StoredEvent)} (member : (place, batch) ∈ starts first batches) :
    ∃ frame ∈ locate offset first batches, frame.first = place ∧ frame.count = batch.length ∧
      frame.length = (batchBytes batch).length := by
  induction batches generalizing offset first with
  | nil => simp at member
  | cons head batches ih =>
      rw [starts_cons, List.mem_cons] at member
      rcases member with same | member
      · obtain ⟨rfl, rfl⟩ := Prod.mk.inj same
        exact ⟨_, List.mem_cons_self, rfl, rfl, rfl⟩
      · obtain ⟨frame, inside, facts⟩ := ih (offset + (batchBytes head).length) member
        exact ⟨frame, List.mem_cons_of_mem _ inside, facts⟩

/-- Every frame has a batch of its own. -/
theorem exists_batch_of_mem_locate {offset first : Nat} {frame : FrameLocation} {batches : List (List StoredEvent)}
    (member : frame ∈ locate offset first batches) :
    ∃ batch, (frame.first, batch) ∈ starts first batches ∧ frame.count = batch.length := by
  induction batches generalizing offset first with
  | nil => simp at member
  | cons head batches ih =>
      rw [locate_cons, List.mem_cons] at member
      rcases member with rfl | member
      · exact ⟨head, List.mem_cons_self, rfl⟩
      · obtain ⟨batch, inside, count⟩ := ih member
        exact ⟨batch, List.mem_cons_of_mem _ inside, count⟩

/-- The frames at the front of a log that satisfy a condition are the frames of its first batches. -/
theorem takeWhile_locate_split (condition : FrameLocation → Bool) (offset first : Nat)
    (batches : List (List StoredEvent)) :
    ∃ gone kept, batches = gone ++ kept ∧
      (locate offset first batches).takeWhile condition = locate offset first gone ∧
      ∀ batch ∈ kept.head?, condition ⟨offset + (logBytes gone).length, (batchBytes batch).length,
        first + gone.flatten.length, batch.length⟩ = false := by
  induction batches generalizing offset first with
  | nil => exact ⟨[], [], rfl, rfl, fun batch absent => by simp at absent⟩
  | cons batch batches ih =>
      rw [locate_cons, List.takeWhile_cons]
      by_cases holds : condition ⟨offset, (batchBytes batch).length, first, batch.length⟩
      · obtain ⟨gone, kept, split, front, next⟩ := ih (offset + (batchBytes batch).length) (first + batch.length)
        refine ⟨batch :: gone, kept, by rw [split]; rfl, ?_, ?_⟩
        · rw [if_pos holds, front, locate_cons]
        · rw [logBytes_cons, List.length_append, List.flatten_cons, List.length_append, ← Nat.add_assoc, ← Nat.add_assoc]
          exact next
      · refine ⟨[], batch :: batches, rfl, if_neg holds, fun other same => ?_⟩
        cases same
        simpa using holds

/-- The frames up to a position end with the one that covers it. -/
theorem takeWhile_locate {offset first place : Nat} {before after : List (List StoredEvent)}
    {batch : List StoredEvent} (lower : first + before.flatten.length ≤ place)
    (upper : place < first + before.flatten.length + batch.length) :
    ((locate offset first (before ++ batch :: after)).takeWhile fun frame => frame.first ≤ place).length =
      before.length + 1 := by
  induction before generalizing offset first with
  | nil =>
      rw [List.nil_append, locate_cons, List.takeWhile_cons]
      rw [List.flatten_nil, List.length_nil, Nat.add_zero] at lower upper
      rw [if_pos (decide_eq_true lower), List.length_cons]
      cases after with
      | nil => rfl
      | cons next after =>
          rw [locate_cons, List.takeWhile_cons, if_neg]
          · rfl
          · simpa using upper
  | cons head before ih =>
      rw [List.flatten_cons, List.length_append, ← Nat.add_assoc] at lower upper
      have earlier : first ≤ place := by omega
      rw [List.cons_append, locate_cons, List.takeWhile_cons, if_pos (decide_eq_true earlier), List.length_cons,
        ih lower upper, List.length_cons]

/-- The file of a sealed batch. -/
def sealedBytes (header : WalHeader) (batch : List StoredEvent) : List UInt8 :=
  segmentBytes header batch.length (batchBytes batch)

/-- The manifest entry of a batch that starts at a sequence. -/
def batchMeta (header : WalHeader) (first : Nat) (batch : List StoredEvent) : SealedSegmentMeta :=
  Store.sealedMeta ⟨0, 0, first, batch.length⟩ batch (sealedBytes header batch)

/-- The entry of a batch covers the sequences of the batch. -/
theorem batchMeta_covers {header : WalHeader} {first place : Nat} {batch : List StoredEvent}
    (bound : first + batch.length < 2 ^ 64) (nonempty : 0 < batch.length) (small : place < 2 ^ 64) :
    (batchMeta header first batch).covers (UInt64.ofNat place) ↔ first ≤ place ∧ place < first + batch.length := by
  change (decide (UInt64.ofNat first ≤ UInt64.ofNat place) &&
    decide (UInt64.ofNat place ≤ UInt64.ofNat (first + batch.length - 1))) = true ↔ _
  rw [Bool.and_eq_true, decide_eq_true_eq, decide_eq_true_eq, UInt64.le_iff_toNat_le, UInt64.le_iff_toNat_le,
    toNat_ofNat (by omega), toNat_ofNat small, toNat_ofNat (by omega)]
  omega

/-- The summary was taken over the records of the batch. -/
def Summarizes (summary : BlockSummary) (batch : List StoredEvent) : Prop :=
  ∃ index offset length first rest, batch = first :: rest ∧ summary = frameSummary index offset length first rest

/-- Every segment file belongs to a batch, holds its encoding, and was admitted when it was sealed. -/
def Published (admits : List StoredEvent → Prop) (header : WalHeader) (log : Log) (segments : Directory) : Prop :=
  ∀ first last file, first < 2 ^ 64 → last < 2 ^ 64 → segments.lookup (segmentFilename first last) = some file →
    ∃ batch, (first, batch) ∈ starts 0 log.batches ∧ last + 1 = first + batch.length ∧
      file = sealedBytes header batch ∧ admits batch

/-- Every entry of the manifest belongs to a batch whose segment is published. -/
def Registered (header : WalHeader) (log : Log) (segments : Directory) (manifest : SegmentManifest) : Prop :=
  ∀ entry ∈ manifest.sealedSegments, ∃ first batch, (first, batch) ∈ starts 0 log.batches ∧
    entry = batchMeta header first batch ∧
    segments.lookup (segmentFilename first (first + batch.length - 1)) = some (sealedBytes header batch)

/-- The sequences below the mark have left the log file. -/
def retirementMark (manifest : Option SegmentManifest) : Nat :=
  ((manifest.bind (·.retiredUpToSequence)).map (·.toNat + 1)).getD 0

/-- The files hold the log: the live batches in the log file, the retired ones in segments. -/
structure Stored (admits : List StoredEvent → Prop) (header : WalHeader) (log : Log) (disk : Disk) : Prop where
  wal : disk.wal = encodeWalHeader header ++ logBytes log.live
  walBound : disk.wal.length < 2 ^ 64
  mark : retirementMark disk.manifest = log.retiredCount
  published : Published admits header log disk.segments
  registered : ∀ manifest, disk.manifest = some manifest → Registered header log disk.segments manifest
  retired : ∀ first batch, (first, batch) ∈ starts 0 log.retired →
    ∃ manifest, disk.manifest = some manifest ∧ batchMeta header first batch ∈ manifest.sealedSegments

/-- The handle agrees with the log. -/
structure Tracks (log : Log) (store : Store) : Prop where
  frames : store.frames = locate walHeaderLen log.retiredCount log.live
  summaries : List.Forall₂ Summarizes store.summaries log.live
  nextSequence : store.nextSequence = log.events.length
  endOffset : store.endOffset = walHeaderLen + (logBytes log.live).length
  lastKnown : log.live ≠ [] → store.lastKnown = knownAfter none log.live.flatten
  usable : store.poisoned = false
  limits : validateLimits store.limits = .ok ()
  fits : ∀ batch ∈ log.live, BatchFits store.limits batch

/-- The representation invariant of an open store. -/
structure Inv (admits : List StoredEvent → Prop) (log : Log) (disk : Disk) (store : Store) : Prop where
  valid : log.Valid store.header
  stored : Stored admits store.header log disk
  tracks : Tracks log store

theorem Stored.walLength {admits : List StoredEvent → Prop} {header : WalHeader} {log : Log} {disk : Disk} (stored : Stored admits header log disk) :
    disk.wal.length = walHeaderLen + (logBytes log.live).length := by
  rw [stored.wal, List.length_append, encodeWalHeader_length]

/-- The bytes at the offset of a frame are the encoded batch. -/
theorem Stored.slice_wal {admits : List StoredEvent → Prop} {header : WalHeader} {log : Log} {disk : Disk} (stored : Stored admits header log disk)
    {before after : List (List StoredEvent)} {batch : List StoredEvent} (split : log.live = before ++ batch :: after) :
    slice disk.wal (walHeaderLen + (logBytes before).length) (batchBytes batch).length = batchBytes batch := by
  have size := encodeWalHeader_length header
  rw [stored.wal, split, logBytes_append, logBytes_cons, slice_append_right (by omega), size, Nat.add_sub_cancel_left,
    slice_append_right (le_refl _), Nat.sub_self, slice_append_left rfl]

namespace Inv

variable {admits : List StoredEvent → Prop} {log : Log} {disk : Disk} {store : Store}

theorem live_nonempty (inv : Inv admits log disk store) {batch : List StoredEvent} (member : batch ∈ log.live) :
    batch ≠ [] := inv.valid.nonempty batch (List.mem_append_right _ member)

/-- Every live record is on the clock that the handle knows. -/
theorem clock (inv : Inv admits log disk store) {record : StoredEvent} (member : record ∈ log.live.flatten) :
    ∀ last, store.lastKnown = some last → last.clock = record.times.known.clock := by
  intro last known
  have live : log.live ≠ [] := by
    intro empty
    rw [empty] at member
    simp at member
  rw [inv.tracks.lastKnown live] at known
  exact (inv.valid.live.clock_eq_after known member).symm

theorem batch_accepted (inv : Inv admits log disk store) {before after : List (List StoredEvent)}
    {batch : List StoredEvent} (split : log.live = before ++ batch :: after) :
    Accepted store.header (log.retiredCount + before.flatten.length) none batch := by
  have live := inv.valid.live
  rw [split, List.flatten_append, List.flatten_cons, Accepted.append_iff, Accepted.append_iff] at live
  exact live.2.1.forget

/-- Decoding the bytes of a frame gives its batch. -/
theorem decodeFrameAt_ok (inv : Inv admits log disk store) {before after : List (List StoredEvent)}
    {batch : List StoredEvent} (split : log.live = before ++ batch :: after) :
    decodeFrameAt disk.wal store.limits (walHeaderLen + (logBytes before).length) (batchBytes batch).length =
      .ok batch := by
  have inside : walHeaderLen + (logBytes before).length + (batchBytes batch).length ≤ disk.wal.length := by
    rw [inv.stored.walLength, split, logBytes_append, logBytes_cons, List.length_append, List.length_append]
    omega
  have fits := inv.tracks.fits batch (by rw [split]; simp)
  unfold decodeFrameAt
  rw [Except.bind_eq_ok]
  refine ⟨batchBytes batch, readExact_ok.mpr ⟨inside, inv.stored.slice_wal split⟩, ?_⟩
  rw [asStorage_ok, decodeBatch_ok]
  exact ⟨fits, rfl⟩

theorem checkIndexedFrame_ok (inv : Inv admits log disk store) {before after : List (List StoredEvent)}
    {batch : List StoredEvent} (split : log.live = before ++ batch :: after) {frame : FrameLocation}
    (first : frame.first = log.retiredCount + before.flatten.length) (count : frame.count = batch.length) :
    store.checkIndexedFrame frame batch = .ok batch := by
  have clock : ∀ record ∈ batch, ∀ last, store.lastKnown = some last → last.clock = record.times.known.clock := by
    intro record member
    apply inv.clock
    rw [split, List.flatten_append, List.flatten_cons]
    simp [member]
  have checked := validateIndexed_ok (inv.batch_accepted split) clock
  unfold Store.checkIndexedFrame
  rw [Except.refuseIf_bind (not_not.mpr count.symm), first, checked]
  rfl

/-- A live frame reads back as its batch. -/
theorem readIndexedFrame_ok (inv : Inv admits log disk store) {before after : List (List StoredEvent)}
    {batch : List StoredEvent} (split : log.live = before ++ batch :: after) :
    store.readIndexedFrame disk.wal ⟨walHeaderLen + (logBytes before).length, (batchBytes batch).length,
      log.retiredCount + before.flatten.length, batch.length⟩ = .ok batch := by
  have fits := inv.tracks.fits batch (by rw [split]; simp)
  unfold Store.readIndexedFrame readFrameAt
  rw [Except.refuseIf_bind (Nat.not_lt.mpr fits.length), Except.bind_eq_ok]
  exact ⟨batch, inv.decodeFrameAt_ok split, inv.checkIndexedFrame_ok split rfl rfl⟩

/-- The index finds the frame that covers a live sequence. -/
theorem frameIndexForSequence_live (inv : Inv admits log disk store) {before after : List (List StoredEvent)}
    {batch : List StoredEvent} {place : Nat} (split : log.live = before ++ batch :: after)
    (lower : log.retiredCount + before.flatten.length ≤ place)
    (upper : place < log.retiredCount + before.flatten.length + batch.length) :
    store.frameIndexForSequence place = some before.length := by
  unfold Store.frameIndexForSequence Store.framesUpTo
  rw [inv.tracks.frames, split, takeWhile_locate lower upper]

theorem frameForSequence_live (inv : Inv admits log disk store) {before after : List (List StoredEvent)}
    {batch : List StoredEvent} {place : Nat} (split : log.live = before ++ batch :: after)
    (lower : log.retiredCount + before.flatten.length ≤ place)
    (upper : place < log.retiredCount + before.flatten.length + batch.length) :
    store.frameForSequence place = some ⟨walHeaderLen + (logBytes before).length, (batchBytes batch).length,
      log.retiredCount + before.flatten.length, batch.length⟩ := by
  unfold Store.frameForSequence
  rw [inv.frameIndexForSequence_live split lower upper, Option.bind_some, inv.tracks.frames, split, locate_append,
    List.getElem?_append_right (locate_length _ _ _).le, locate_length, Nat.sub_self, locate_cons]
  rfl

/-- No frame covers a retired sequence. -/
theorem frameIndexForSequence_retired (inv : Inv admits log disk store) {place : Nat} (below : place < log.retiredCount) :
    store.frameIndexForSequence place = none := by
  unfold Store.frameIndexForSequence Store.framesUpTo
  rw [inv.tracks.frames]
  cases log.live with
  | nil => rfl
  | cons batch batches =>
      rw [locate_cons, List.takeWhile_cons, if_neg]
      · rfl
      · simpa using below

theorem frameForSequence_retired (inv : Inv admits log disk store) {place : Nat} (below : place < log.retiredCount) :
    store.frameForSequence place = none := by
  rw [Store.frameForSequence, inv.frameIndexForSequence_retired below, Option.bind_none]

end Inv

end Temnion.Storage
