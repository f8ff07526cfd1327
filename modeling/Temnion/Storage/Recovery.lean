import Temnion.Storage.Invariant

/-
This file runs the recovery scan over whole frames and over a torn tail.
-/

namespace Temnion.Storage

open Format Index LittleEndian Batches

/-- The handle before the scan of the log. -/
def startStore (header : WalHeader) (limits : Limits) (first : Nat) : Store where
  header := header
  limits := limits
  frames := []
  summaries := []
  nextSequence := first
  endOffset := walHeaderLen
  lastKnown := none
  poisoned := false

@[simp] theorem startStore_limits (header : WalHeader) (limits : Limits) (first : Nat) :
    (startStore header limits first).limits = limits := rfl

variable [Crc32fast]

/-- The encoding of a batch determines the batch. -/
theorem batchBytes_injective {limits limits' : Limits} {batch other : List StoredEvent}
    (fits : BatchFits limits batch) (fits' : BatchFits limits' other) (same : batchBytes batch = batchBytes other) :
    batch = other := by
  let wide : Limits := {
    maxFrameBytes := max limits.maxFrameBytes limits'.maxFrameBytes
    maxRecords := max limits.maxRecords limits'.maxRecords
    maxPayloadBytes := max limits.maxPayloadBytes limits'.maxPayloadBytes
    maxCauses := max limits.maxCauses limits'.maxCauses
    maxSegmentBytes := max limits.maxSegmentBytes limits'.maxSegmentBytes }
  have first : BatchFits wide batch := ⟨fits.count.trans (le_max_left _ _), fun record member =>
    ⟨(fits.each record member).payload.trans (le_max_left _ _), (fits.each record member).payloadWord,
      (fits.each record member).causes.trans (le_max_left _ _), (fits.each record member).causesWord⟩,
    fits.length.trans (le_max_left _ _), fits.lengthWord⟩
  have second : BatchFits wide other := ⟨fits'.count.trans (le_max_right _ _), fun record member =>
    ⟨(fits'.each record member).payload.trans (le_max_right _ _), (fits'.each record member).payloadWord,
      (fits'.each record member).causes.trans (le_max_right _ _), (fits'.each record member).causesWord⟩,
    fits'.length.trans (le_max_right _ _), fits'.lengthWord⟩
  have decoded : decodeBatch (batchBytes batch) wide = .ok batch := decodeBatch_ok.mpr ⟨first, rfl⟩
  have decoded' : decodeBatch (batchBytes batch) wide = .ok other := decodeBatch_ok.mpr ⟨second, same.symm⟩
  exact Except.ok.inj (decoded.symm.trans decoded')

/-- What remains of a log after its last whole frame. -/
def TornTail (limits : Limits) (tail : List UInt8) : Prop :=
  tail.length < batchHeaderLen ∨
    ∃ frameBytes, frameLength (tail.take batchHeaderLen) limits = .ok frameBytes ∧ tail.length < frameBytes

/-- A frame that is cut anywhere leaves a torn tail. -/
theorem tornTail_take {limits : Limits} {batch : List StoredEvent} {count : Nat} (fits : BatchFits limits batch)
    (short : count < (batchBytes batch).length) : TornTail limits ((batchBytes batch).take count) := by
  have size : ((batchBytes batch).take count).length = count := List.length_take_of_le short.le
  by_cases header : count < batchHeaderLen
  · exact Or.inl (by rw [size]; exact header)
  · right
    refine ⟨(batchBytes batch).length, ?_, by rw [size]; exact short⟩
    have announced : frameLength (batchBytes batch ++ []) limits = .ok (batchBytes batch).length :=
      frameLength_batchBytes fits
    rw [List.append_nil, ← frameLength_take (by rw [batchBytes_length]; omega)] at announced
    rw [List.take_take, Nat.min_eq_left (Nat.not_lt.mp header)]
    exact announced

namespace Store

/-- The handle after a whole frame. -/
def pushBatch (store : Store) (batch : List StoredEvent) : Store :=
  store.pushFrame batch (batchBytes batch).length (store.nextSequence + batch.length)
    (knownAfter store.lastKnown batch)

@[simp] theorem pushBatch_header (store : Store) (batch : List StoredEvent) :
    (store.pushBatch batch).header = store.header := rfl

@[simp] theorem pushBatch_limits (store : Store) (batch : List StoredEvent) :
    (store.pushBatch batch).limits = store.limits := rfl

@[simp] theorem pushBatch_nextSequence (store : Store) (batch : List StoredEvent) :
    (store.pushBatch batch).nextSequence = store.nextSequence + batch.length := rfl

@[simp] theorem pushBatch_endOffset (store : Store) (batch : List StoredEvent) :
    (store.pushBatch batch).endOffset = store.endOffset + (batchBytes batch).length := rfl

@[simp] theorem pushBatch_lastKnown (store : Store) (batch : List StoredEvent) :
    (store.pushBatch batch).lastKnown = knownAfter store.lastKnown batch := rfl

end Store

/-- A handle that takes in one more batch agrees with the longer log. -/
theorem Tracks.pushBatch {log : Log} {store : Store} {batch : List StoredEvent} (tracks : Tracks log store)
    (nonempty : batch ≠ []) (fits : BatchFits store.limits batch) :
    Tracks ⟨log.retired, log.live ++ [batch]⟩ (store.pushBatch batch) where
  frames := by
    have next : store.nextSequence = log.retiredCount + log.live.flatten.length := by
      rw [tracks.nextSequence, log.events_length]
    change store.frames ++ [_] = _
    rw [locate_append, locate_cons, locate_nil, tracks.frames, tracks.endOffset, next]
    rfl
  summaries := by
    obtain ⟨first, rest, rfl⟩ := List.exists_cons_of_ne_nil nonempty
    change List.Forall₂ Summarizes (store.summaries ++ [_]) (log.live ++ [_])
    apply List.rel_append tracks.summaries
    exact List.Forall₂.cons ⟨_, _, _, first, rest, rfl, rfl⟩ List.Forall₂.nil
  nextSequence := by
    rw [Store.pushBatch_nextSequence, tracks.nextSequence, Log.events_length, Log.events_length]
    simp [Log.retiredCount, Nat.add_assoc]
  endOffset := by
    rw [Store.pushBatch_endOffset, tracks.endOffset]
    simp [Nat.add_assoc]
  lastKnown := by
    intro _
    rw [Store.pushBatch_lastKnown, List.flatten_append, knownAfter_append, List.flatten_singleton]
    exact knownAfter_of_ne_nil nonempty _ _
  usable := tracks.usable
  limits := tracks.limits
  fits := by
    intro other member
    rcases List.mem_append.mp member with member | member
    · exact tracks.fits other member
    · rw [List.mem_singleton.mp member]
      exact fits

section Scan

variable {store : Store} {wal tail : List UInt8} {batch : List StoredEvent} {rest : List (List StoredEvent)}

/-- The scan recognizes a whole frame by its header. -/
theorem nextFrame_whole {more : List UInt8} (fits : BatchFits store.limits batch)
    (ahead : wal.drop store.endOffset = batchBytes batch ++ more) :
    store.nextFrame wal = .ok (some (batchBytes batch).length) := by
  have size := congrArg List.length ahead
  rw [List.length_drop, List.length_append] at size
  have long := batchBytes_length batch
  have announced : frameLength (slice wal store.endOffset batchHeaderLen) store.limits =
      .ok (batchBytes batch).length := by
    rw [slice, ahead, frameLength_take (by rw [List.length_append]; omega)]
    exact frameLength_batchBytes fits
  unfold Store.nextFrame
  rw [if_neg (by omega), Except.bind_eq_ok]
  refine ⟨_, asStorage_ok.mpr announced, ?_⟩
  rw [if_neg (by omega)]
  rfl

theorem nextFrame_torn (torn : TornTail store.limits (wal.drop store.endOffset)) :
    store.nextFrame wal = .ok none := by
  unfold Store.nextFrame
  rw [← List.length_drop]
  rcases torn with short | ⟨frameBytes, announced, short⟩
  · rw [if_pos short]
  · split
    · rfl
    · rw [Except.bind_eq_ok]
      refine ⟨frameBytes, asStorage_ok.mpr announced, ?_⟩
      rw [if_pos short]
      rfl

/-- Recovering a whole frame takes its batch in. -/
theorem recoverFrame_whole {more : List UInt8} (fits : BatchFits store.limits batch) (nonempty : batch ≠ [])
    (ahead : wal.drop store.endOffset = batchBytes batch ++ more)
    (accepted : Accepted store.header store.nextSequence store.lastKnown batch)
    (bound : store.nextSequence + batch.length < 2 ^ 64) (walBound : wal.length < 2 ^ 64) :
    store.recoverFrame wal (batchBytes batch).length = .ok (store.pushBatch batch) := by
  have size := congrArg List.length ahead
  rw [List.length_drop, List.length_append, batchBytes_length] at size
  have header : batchHeaderLen = 24 := rfl
  have read : readFrameAt wal store.limits store.endOffset (batchBytes batch).length = .ok batch := by
    unfold readFrameAt decodeFrameAt
    rw [Except.refuseIf_bind (Nat.not_lt.mpr fits.length), Except.bind_eq_ok]
    refine ⟨batchBytes batch, readExact_ok.mpr ⟨?_, ?_⟩, asStorage_ok.mpr (decodeBatch_ok.mpr ⟨fits, rfl⟩)⟩
    · rw [batchBytes_length]
      omega
    · rw [slice, ahead, List.take_left]
  have checked : batch.foldlM (Store.validateNext store.header) (store.nextSequence, store.lastKnown) =
      .ok (store.nextSequence + batch.length, knownAfter store.lastKnown batch) :=
    (validateNext_ok (by omega)).mpr ⟨accepted, rfl, rfl, bound⟩
  unfold Store.recoverFrame
  rw [Except.bind_eq_ok]
  refine ⟨batch, read, ?_⟩
  rw [Except.refuseIf_bind nonempty, Except.bind_eq_ok]
  refine ⟨_, checked, ?_⟩
  rw [Except.bind_eq_ok]
  refine ⟨_, checkedAdd_ok.mpr ⟨?_, rfl⟩, rfl⟩
  rw [batchBytes_length]
  omega

/-- What the scan does once no whole frame is left. -/
def finishRecovery (recovery : RecoveryMode) (store : Store) (tail : List UInt8) :
    Procedure Disk StorageError (Store × Nat) :=
  if tail = [] then pure (store, 0) else store.recoverTail tail.length recovery

/-- The scan takes in every whole frame and then meets the tail. -/
theorem recoverFrames_whole {recovery : RecoveryMode} {steps : Nat}
    (ahead : wal.drop store.endOffset = logBytes rest ++ tail) (inside : store.endOffset ≤ wal.length)
    (fits : ∀ batch ∈ rest, BatchFits store.limits batch) (nonempty : ∀ batch ∈ rest, batch ≠ [])
    (accepted : Accepted store.header store.nextSequence store.lastKnown rest.flatten)
    (bound : store.nextSequence + rest.flatten.length < 2 ^ 64) (walBound : wal.length < 2 ^ 64)
    (torn : TornTail store.limits tail) (enough : wal.length ≤ steps + store.endOffset) :
    Store.recoverFrames recovery wal steps store = finishRecovery recovery (rest.foldl Store.pushBatch store) tail := by
  induction rest generalizing store steps with
  | nil =>
      rw [logBytes_nil, List.nil_append] at ahead
      have size := congrArg List.length ahead
      rw [List.length_drop] at size
      rw [List.foldl_nil, finishRecovery]
      by_cases done : tail = []
      · have exhausted : ¬store.endOffset < wal.length := by
          rw [done, List.length_nil] at size
          omega
        rw [if_pos done]
        cases steps with
        | zero =>
            funext disk
            rw [Store.recoverFrames]
            exact Procedure.bind_of_ok (by rw [Procedure.refuseIf_apply, if_neg exhausted])
        | succ steps => rw [Store.recoverFrames, if_neg exhausted]
      · have positive := List.length_pos_of_ne_nil done
        rw [if_neg done]
        cases steps with
        | zero => omega
        | succ steps =>
            rw [Store.recoverFrames, if_pos (by omega), nextFrame_torn (ahead ▸ torn), size]
            rfl
  | cons batch rest ih =>
      rw [logBytes_cons, List.append_assoc] at ahead
      have size := congrArg List.length ahead
      rw [List.length_drop, List.length_append, batchBytes_length] at size
      have header : batchHeaderLen = 24 := rfl
      have batchFits := fits batch List.mem_cons_self
      rw [List.flatten_cons, Accepted.append_iff] at accepted
      rw [List.flatten_cons, List.length_append] at bound
      cases steps with
      | zero => omega
      | succ steps =>
          rw [Store.recoverFrames, if_pos (by omega), nextFrame_whole batchFits ahead]
          change (Procedure.lift (store.recoverFrame wal (batchBytes batch).length) >>= _) = _
          rw [recoverFrame_whole batchFits (nonempty batch List.mem_cons_self) ahead accepted.1 (by omega) walBound]
          change Store.recoverFrames recovery wal steps (store.pushBatch batch) = _
          rw [List.foldl_cons]
          apply ih
          · rw [Store.pushBatch_endOffset, ← List.drop_drop, ahead, List.drop_left]
          · rw [Store.pushBatch_endOffset, batchBytes_length]
            omega
          · exact fun other member => fits other (List.mem_cons_of_mem _ member)
          · exact fun other member => nonempty other (List.mem_cons_of_mem _ member)
          · exact accepted.2
          · rw [Store.pushBatch_nextSequence]
            omega
          · exact torn
          · rw [Store.pushBatch_endOffset, batchBytes_length]
            omega

/-- A frame that the limits refuse is still recognized by its header, or refused there. -/
theorem nextFrame_refused {limits : Limits} {more : List UInt8} (encoded : BatchFits limits batch)
    (ahead : wal.drop store.endOffset = batchBytes batch ++ more) :
    (∃ error, store.nextFrame wal = .error error) ∨ store.nextFrame wal = .ok (some (batchBytes batch).length) := by
  have size := congrArg List.length ahead
  rw [List.length_drop, List.length_append] at size
  have long := batchBytes_length batch
  have start : slice wal store.endOffset batchHeaderLen = (batchBytes batch ++ more).take batchHeaderLen := by
    rw [slice, ahead]
  cases read : frameLength (slice wal store.endOffset batchHeaderLen) store.limits with
  | error error =>
      left
      refine ⟨.format error, ?_⟩
      unfold Store.nextFrame
      rw [if_neg (by omega), read]
      rfl
  | ok frameBytes =>
      right
      have announced := read
      rw [start, frameLength_take (by rw [List.length_append]; omega)] at announced
      obtain ⟨_, _, _, _, _, lengthEq, _⟩ := frameLength_ok announced
      obtain ⟨_, _, _, stored, _⟩ := frameBytes_header (rfl : batchBytes batch ++ more = _)
      rw [stored, ← batchBytes_length, UInt32.toNat_ofNat_of_lt' encoded.lengthWord] at lengthEq
      unfold Store.nextFrame
      rw [if_neg (by omega), Except.bind_eq_ok]
      refine ⟨_, asStorage_ok.mpr read, ?_⟩
      rw [if_neg (by omega), lengthEq]
      rfl

theorem recoverFrame_refused {limits : Limits} {more : List UInt8} (encoded : BatchFits limits batch)
    (refused : ¬BatchFits store.limits batch)
    (ahead : wal.drop store.endOffset = batchBytes batch ++ more) :
    ∃ error, store.recoverFrame wal (batchBytes batch).length = .error error := by
  cases recovered : store.recoverFrame wal (batchBytes batch).length with
  | error error => exact ⟨error, rfl⟩
  | ok reached =>
      exfalso
      unfold Store.recoverFrame readFrameAt decodeFrameAt at recovered
      simp only [Except.bind_eq_ok, readExact_ok, asStorage_ok, decodeBatch_ok] at recovered
      obtain ⟨records, ⟨_, _, bytes, ⟨_, read⟩, fits, same⟩, _⟩ := recovered
      rw [slice, ahead, List.take_left] at read
      rw [← read] at same
      exact refused (batchBytes_injective fits encoded same ▸ fits)

/-- A log with a frame that the limits refuse does not open. -/
theorem recoverFrames_refused {recovery : RecoveryMode} {steps : Nat} {limits : Limits} {disk : Disk}
    (ahead : wal.drop store.endOffset = logBytes rest) (inside : store.endOffset ≤ wal.length)
    (encoded : ∀ batch ∈ rest, BatchFits limits batch) (nonempty : ∀ batch ∈ rest, batch ≠ [])
    (accepted : Accepted store.header store.nextSequence store.lastKnown rest.flatten)
    (bound : store.nextSequence + rest.flatten.length < 2 ^ 64) (walBound : wal.length < 2 ^ 64)
    (refused : ¬∀ batch ∈ rest, BatchFits store.limits batch) :
    ∃ error, Store.recoverFrames recovery wal steps store disk = (.error error, disk) := by
  induction rest generalizing store steps with
  | nil => simp at refused
  | cons batch rest ih =>
      rw [logBytes_cons] at ahead
      have size := congrArg List.length ahead
      rw [List.length_drop, List.length_append, batchBytes_length] at size
      have header : batchHeaderLen = 24 := rfl
      rw [List.flatten_cons, Accepted.append_iff] at accepted
      rw [List.flatten_cons, List.length_append] at bound
      cases steps with
      | zero =>
          refine ⟨.outOfSteps, ?_⟩
          rw [Store.recoverFrames]
          apply Procedure.bind_of_error
          rw [Procedure.refuseIf_apply, if_pos (by omega)]
      | succ steps =>
          rw [Store.recoverFrames, if_pos (by omega)]
          rcases nextFrame_refused (encoded batch List.mem_cons_self) ahead with ⟨error, failed⟩ | found
          · refine ⟨error, ?_⟩
            rw [failed]
            rfl
          · rw [found]
            change ∃ error, (Procedure.lift (store.recoverFrame wal (batchBytes batch).length) >>= _) disk = _
            by_cases fits : BatchFits store.limits batch
            · rw [recoverFrame_whole fits (nonempty batch List.mem_cons_self) ahead accepted.1 (by omega) walBound]
              change ∃ error, Store.recoverFrames recovery wal steps (store.pushBatch batch) disk = _
              apply ih
              · rw [Store.pushBatch_endOffset, ← List.drop_drop, ahead, List.drop_left]
              · rw [Store.pushBatch_endOffset, batchBytes_length]
                omega
              · exact fun other member => encoded other (List.mem_cons_of_mem _ member)
              · exact fun other member => nonempty other (List.mem_cons_of_mem _ member)
              · exact accepted.2
              · rw [Store.pushBatch_nextSequence]
                omega
              · intro others
                apply refused
                intro other member
                rcases List.mem_cons.mp member with rfl | member
                · exact fits
                · exact others other member
            · obtain ⟨error, failed⟩ := recoverFrame_refused (encoded batch List.mem_cons_self) fits ahead
              refine ⟨error, ?_⟩
              rw [failed]
              rfl

end Scan

section Open

variable {admits : List StoredEvent → Prop} {header : WalHeader} {limits : Limits} {log : Log} {disk : Disk}

/-- The handle after the scan of the log. -/
def opened (header : WalHeader) (limits : Limits) (log : Log) : Store :=
  log.live.foldl Store.pushBatch (startStore header limits log.retiredCount)

theorem foldl_pushBatch_header (store : Store) (batches : List (List StoredEvent)) :
    (batches.foldl Store.pushBatch store).header = store.header := by
  induction batches generalizing store with
  | nil => rfl
  | cons batch batches ih => rw [List.foldl_cons, ih, Store.pushBatch_header]

theorem foldl_pushBatch_limits (store : Store) (batches : List (List StoredEvent)) :
    (batches.foldl Store.pushBatch store).limits = store.limits := by
  induction batches generalizing store with
  | nil => rfl
  | cons batch batches ih => rw [List.foldl_cons, ih, Store.pushBatch_limits]

theorem foldl_pushBatch_lastKnown (store : Store) (batches : List (List StoredEvent)) :
    (batches.foldl Store.pushBatch store).lastKnown = knownAfter store.lastKnown batches.flatten := by
  induction batches generalizing store with
  | nil => rfl
  | cons batch batches ih =>
      rw [List.foldl_cons, ih, Store.pushBatch_lastKnown, List.flatten_cons, knownAfter_append]

@[simp] theorem opened_header : (opened header limits log).header = header := foldl_pushBatch_header _ _

@[simp] theorem opened_limits : (opened header limits log).limits = limits := foldl_pushBatch_limits _ _

theorem opened_lastKnown : (opened header limits log).lastKnown = knownAfter none log.live.flatten :=
  foldl_pushBatch_lastKnown _ _

/-- Taking the batches in one by one agrees with the log that holds them. -/
theorem Tracks.foldl_pushBatch {store : Store} {retired done rest : List (List StoredEvent)}
    (tracks : Tracks ⟨retired, done⟩ store) (nonempty : ∀ batch ∈ rest, batch ≠ [])
    (fits : ∀ batch ∈ rest, BatchFits store.limits batch) :
    Tracks ⟨retired, done ++ rest⟩ (rest.foldl Store.pushBatch store) := by
  induction rest generalizing store done with
  | nil => simpa using tracks
  | cons batch rest ih =>
      have next := tracks.pushBatch (nonempty batch List.mem_cons_self) (fits batch List.mem_cons_self)
      have whole := ih next (fun other member => nonempty other (List.mem_cons_of_mem _ member))
        (fun other member => fits other (List.mem_cons_of_mem _ member))
      rwa [List.append_assoc, List.singleton_append] at whole

theorem opened_tracks (valid : log.Valid header) (sound : validateLimits limits = .ok ())
    (fits : ∀ batch ∈ log.live, BatchFits limits batch) : Tracks log (opened header limits log) := by
  have start : Tracks ⟨log.retired, []⟩ (startStore header limits log.retiredCount) := {
    frames := rfl
    summaries := List.Forall₂.nil
    nextSequence := by simp [startStore, Log.events, Log.batches, Log.retiredCount]
    endOffset := rfl
    lastKnown := fun absent => absurd rfl absent
    usable := rfl
    limits := sound
    fits := fun batch member => nomatch member }
  exact start.foldl_pushBatch (fun batch member => valid.nonempty batch (List.mem_append_right _ member)) fits

theorem opening_ok {more : List UInt8} (wal : disk.wal = encodeWalHeader header ++ more)
    (sound : validateLimits limits = .ok ()) :
    Store.opening disk limits = .ok (startStore header limits (retirementMark disk.manifest)) := by
  have front : disk.wal.take walHeaderLen = encodeWalHeader header := by
    rw [wal, ← encodeWalHeader_length header, List.take_left]
  unfold Store.opening
  rw [sound, front, decodeWalHeader_encodeWalHeader]
  rfl

/-- Opening takes in every whole frame and then meets what the log ends with. -/
theorem openStore_eq {recovery : RecoveryMode} {tail : List UInt8}
    (wal : disk.wal = encodeWalHeader header ++ (logBytes log.live ++ tail)) (walBound : disk.wal.length < 2 ^ 64)
    (marked : retirementMark disk.manifest = log.retiredCount)
    (valid : log.Valid header) (sound : validateLimits limits = .ok ())
    (fits : ∀ batch ∈ log.live, BatchFits limits batch) (torn : TornTail limits tail) :
    Store.openStore limits recovery disk =
      (do
        let recovered ← finishRecovery recovery (opened header limits log) tail
        return (recovered.1, RecoveryReport.mk recovered.1.nextSequence recovered.2)) disk := by
  have opening := opening_ok wal sound
  rw [marked] at opening
  have size := congrArg List.length wal
  rw [List.length_append, encodeWalHeader_length] at size
  have live := valid.live
  have bound := valid.bound
  rw [log.events_length] at bound
  have ahead : disk.wal.drop (startStore header limits log.retiredCount).endOffset = logBytes log.live ++ tail := by
    change disk.wal.drop walHeaderLen = _
    rw [wal, ← encodeWalHeader_length header, List.drop_left]
  have inside : (startStore header limits log.retiredCount).endOffset ≤ disk.wal.length := by
    change walHeaderLen ≤ _
    omega
  have scanned : Store.recoverFrames recovery disk.wal disk.wal.length (startStore header limits log.retiredCount) =
      finishRecovery recovery (opened header limits log) tail :=
    recoverFrames_whole ahead inside fits (fun batch member => valid.nonempty batch (List.mem_append_right _ member))
      live bound walBound torn (Nat.le_add_right _ _)
  unfold Store.openStore
  rw [Procedure.bind_of_ok (Procedure.read_apply disk), opening]
  change (Store.recoverFrames recovery disk.wal disk.wal.length (startStore header limits log.retiredCount) >>= _) disk = _
  rw [scanned]

/-- A log of whole frames opens without a change, whatever the recovery mode. -/
theorem openStore_whole {recovery : RecoveryMode} (stored : Stored admits header log disk) (valid : log.Valid header)
    (sound : validateLimits limits = .ok ()) (fits : ∀ batch ∈ log.live, BatchFits limits batch) :
    Store.openStore limits recovery disk =
      (.ok (opened header limits log, ⟨log.events.length, 0⟩), disk) := by
  have wal : disk.wal = encodeWalHeader header ++ (logBytes log.live ++ []) := by
    rw [List.append_nil]
    exact stored.wal
  rw [openStore_eq wal stored.walBound stored.mark valid sound fits (Or.inl (by decide)),
    ← (opened_tracks valid sound fits).nextSequence]
  rfl

end Open

section Reopen

variable {admits : List StoredEvent → Prop} {log : Log} {disk : Disk} {store : Store} {limits : Limits}

/-- The log opens again under any limits that admit its frames. -/
theorem Inv.reopen (inv : Inv admits log disk store) (recovery : RecoveryMode) (sound : validateLimits limits = .ok ())
    (fits : ∀ batch ∈ log.live, BatchFits limits batch) :
    Store.openStore limits recovery disk =
        (.ok (opened store.header limits log, ⟨log.events.length, 0⟩), disk) ∧
      Inv admits log disk (opened store.header limits log) := by
  refine ⟨openStore_whole inv.stored inv.valid sound fits, ?_⟩
  have tracks := opened_tracks inv.valid sound fits
  exact ⟨by rw [opened_header]; exact inv.valid, by rw [opened_header]; exact inv.stored, tracks⟩

/-- Opening with any limits takes the whole log in or leaves the files as they are. -/
theorem Inv.open_cases (inv : Inv admits log disk store) (limits : Limits) (recovery : RecoveryMode) :
    (Store.openStore limits recovery disk =
        (.ok (opened store.header limits log, ⟨log.events.length, 0⟩), disk) ∧
      Inv admits log disk (opened store.header limits log)) ∨
    ∃ error, Store.openStore limits recovery disk = (.error error, disk) := by
  cases sound : validateLimits limits with
  | error error =>
      right
      refine ⟨error, ?_⟩
      unfold Store.openStore Store.opening
      rw [Procedure.bind_of_ok (Procedure.read_apply disk), sound]
      rfl
  | ok done =>
      by_cases fits : ∀ batch ∈ log.live, BatchFits limits batch
      · exact Or.inl (inv.reopen recovery sound fits)
      · right
        have opening := opening_ok inv.stored.wal sound
        rw [inv.stored.mark] at opening
        have bound := inv.valid.bound
        rw [log.events_length] at bound
        have ahead : disk.wal.drop walHeaderLen = logBytes log.live := by
          rw [inv.stored.wal, ← encodeWalHeader_length store.header, List.drop_left]
        have inside : walHeaderLen ≤ disk.wal.length := by
          rw [inv.stored.walLength]
          exact Nat.le_add_right _ _
        have refused : ∃ error, Store.recoverFrames recovery disk.wal disk.wal.length
            (startStore store.header limits log.retiredCount) disk = (.error error, disk) :=
          recoverFrames_refused ahead inside inv.tracks.fits (fun batch member => inv.live_nonempty member)
            inv.valid.live bound inv.stored.walBound fits
        obtain ⟨error, failed⟩ := refused
        refine ⟨error, ?_⟩
        unfold Store.openStore
        rw [Procedure.bind_of_ok (Procedure.read_apply disk), opening]
        change (Store.recoverFrames recovery disk.wal disk.wal.length _ >>= _) disk = _
        rw [Procedure.bind_of_error failed]

end Reopen

end Temnion.Storage
