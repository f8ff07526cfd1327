import Temnion.Storage.Paging

/-
This file opens a log file that was cut at an arbitrary byte.
-/

namespace Temnion.Storage

open Format Index LittleEndian Batches

/-- The frames that end within the first bytes of the log file. -/
def wholeFrames (frames : List FrameLocation) (count : Nat) : List FrameLocation :=
  frames.takeWhile fun frame => frame.offset + frame.length ≤ count

/-- Where the last frame ends. Without a frame that is behind the header. -/
def framesEnd (frames : List FrameLocation) : Nat :=
  (frames.getLast?.map fun frame => frame.offset + frame.length).getD walHeaderLen

def framesCount (frames : List FrameLocation) : Nat := (frames.map (·.count)).sum

/-- A frame ends here, or the first one starts here. -/
def FrameBoundary (frames : List FrameLocation) (count : Nat) : Prop :=
  count = walHeaderLen ∨ ∃ frame ∈ frames, frame.offset + frame.length = count

/-- The whole frames end within the bytes that are there. -/
theorem framesEnd_wholeFrames_le {frames : List FrameLocation} {count : Nat} (header : walHeaderLen ≤ count) :
    framesEnd (wholeFrames frames count) ≤ count := by
  unfold framesEnd
  cases last : (wholeFrames frames count).getLast? with
  | none => exact header
  | some frame =>
      have inside : frame ∈ wholeFrames frames count := List.mem_of_getLast? last
      have holds := List.mem_takeWhile_imp inside
      exact of_decide_eq_true holds

/-- The front of a log is a log. -/
theorem Log.Valid.front {header : WalHeader} {log : Log} {whole rest : List (List StoredEvent)} (valid : log.Valid header)
    (retired : log.retired = []) (split : log.live = whole ++ rest) : (Log.mk [] whole).Valid header where
  retired := fun index record absent => by simp at absent
  live := by
    have live := valid.live
    rw [split, List.flatten_append, Accepted.append_iff, Log.retiredCount, retired] at live
    exact live.1
  nonempty := by
    intro batch member
    apply valid.nonempty batch
    rw [Log.batches, split]
    exact List.mem_append_right _ (List.mem_append_left _ member)
  bound := by
    have bound := valid.bound
    rw [log.events_length, split, List.flatten_append, List.length_append] at bound
    change whole.flatten.length < 2 ^ 64
    omega

section Cutting

variable [Crc32fast]

theorem framesEnd_locate (first : Nat) (batches : List (List StoredEvent)) :
    framesEnd (locate walHeaderLen first batches) = walHeaderLen + (logBytes batches).length := by
  rcases List.eq_nil_or_concat' batches with rfl | ⟨before, batch, rfl⟩
  · rfl
  · rw [locate_append, locate_cons, locate_nil, framesEnd, List.getLast?_concat, logBytes_append, List.length_append,
      logBytes_cons, logBytes_nil, List.append_nil, ← Nat.add_assoc]
    rfl

theorem framesCount_locate (offset first : Nat) (batches : List (List StoredEvent)) :
    framesCount (locate offset first batches) = batches.flatten.length := by
  induction batches generalizing offset first with
  | nil => rfl
  | cons batch batches ih =>
      rw [locate_cons, List.flatten_cons, List.length_append, ← ih (offset + (batchBytes batch).length)
        (first + batch.length)]
      rfl

/-- The ends of the frames are the ends of the prefixes of the batches. -/
theorem exists_end_of_mem_locate {offset first : Nat} {frame : FrameLocation} {batches : List (List StoredEvent)}
    (member : frame ∈ locate offset first batches) :
    ∃ before after, batches = before ++ after ∧ before ≠ [] ∧
      frame.offset + frame.length = offset + (logBytes before).length := by
  induction batches generalizing offset first with
  | nil => simp at member
  | cons batch batches ih =>
      rw [locate_cons, List.mem_cons] at member
      rcases member with rfl | member
      · exact ⟨[batch], batches, rfl, List.cons_ne_nil _ _, by simp⟩
      · obtain ⟨before, after, rfl, _, ends⟩ := ih member
        refine ⟨batch :: before, after, rfl, List.cons_ne_nil _ _, ?_⟩
        rw [ends, logBytes_cons, List.length_append, Nat.add_assoc]

/-- What an append to these files does next: it commits at the next sequence, or refuses and changes nothing. -/
def Continues (disk : Disk) (store : Store) (events : List StoredEvent) : Prop :=
  ∀ batch,
    (∃ fresh receipt reached, NextBatch store batch fresh ∧
      Store.append batch ⟨disk, store, events, none⟩ = (.ok receipt, reached) ∧
      receipt.first = ⟨store.header.source, store.header.epoch, UInt64.ofNat events.length⟩ ∧
      receipt.count = batch.length ∧ reached.acknowledged = events ++ fresh ∧
      ReadsBack reached.disk reached.store (events ++ fresh)) ∨
    ∃ error, store.prepare batch = .error error ∧
      Store.append batch ⟨disk, store, events, none⟩ = (.error error, ⟨disk, store, events, none⟩)

theorem Steady.continues {log : Log} {disk : Disk} {store : Store} (steady : Steady log disk store) :
    Continues disk store log.events := by
  intro batch
  let world : World := ⟨disk, store, log.events, none⟩
  have sound : world.fault = none := rfl
  rcases append_eq sound steady.tracks.usable steady.walExact with ⟨fresh, next, ends⟩ | ⟨error, refused, ends⟩
  · left
    have grown : Steady (log.extend fresh) { disk with wal := disk.wal ++ batchBytes fresh } (store.pushBatch fresh) :=
      steady.commit next
    have reads := grown.readsBack
    rw [Log.extend_events] at reads
    refine ⟨fresh, store.receipt fresh, committed fresh world, next, ends, ?_, ?_, rfl, reads⟩
    · rw [← steady.tracks.nextSequence]
      rfl
    · rw [← next.inputs, List.length_map]
      rfl
  · exact Or.inr ⟨error, refused, ends⟩

/-- A database whose batches are all in the log file. -/
structure Unsealed (header : WalHeader) (limits : Limits) (log : Log) (store : Store) (system : System) : Prop where
  settled : Settled header limits log store system
  retired : log.retired = []
  manifest : system.disk.manifest = none
  segments : system.disk.segments = []

section Unsealed

variable {header : WalHeader} {limits : Limits} {log : Log} {store : Store} {system : System}

theorem Unsealed.append (unsealed : Unsealed header limits log store system) (batch : List WriteEvent) :
    ∃ later reached, Unsealed header limits later reached (system.step (.append batch)) := by
  have settled := unsealed.settled
  obtain ⟨later, reached, effect, next, wal, disk⟩ := settled.consistent.append batch
  have present : (system.step (.append batch)).handle = some reached := by
    apply next.present
    intro closed
    rw [System.step, System.perform_closed, settled.present] at closed
    exact Option.some_ne_none _ closed
  have same : reached.limits = store.limits ∧ later.retired = log.retired := by
    cases effect <;> exact ⟨rfl, rfl⟩
  refine ⟨later, reached, ⟨next, present, effect.header.trans settled.header, same.1.trans settled.limits⟩,
    same.2.trans unsealed.retired, ?_, ?_⟩
  · rw [disk]
    exact unsealed.manifest
  · rw [disk]
    exact unsealed.segments

theorem Unsealed.appends {batches : List (List WriteEvent)} (unsealed : Unsealed header limits log store system) :
    ∃ later reached, Unsealed header limits later reached (system.appends batches) := by
  induction batches generalizing log store system with
  | nil => exact ⟨log, store, unsealed⟩
  | cons batch batches ih =>
      obtain ⟨later, reached, next⟩ := unsealed.append batch
      exact ih next

/-- What a cut leaves: whole batches in front, and a torn tail behind them. -/
structure Cut (header : WalHeader) (limits : Limits) (log : Log) (store : Store) (system : System) (count : Nat)
    (whole : List (List StoredEvent)) (tail : List UInt8) : Prop where
  ends : framesEnd (wholeFrames store.frames count) = walHeaderLen + (logBytes whole).length
  events : system.acknowledged.take (framesCount (wholeFrames store.frames count)) = (Log.mk [] whole).events
  wal : system.disk.wal.take count = encodeWalHeader header ++ (logBytes whole ++ tail)
  front : system.disk.wal.take (walHeaderLen + (logBytes whole).length) = encodeWalHeader header ++ logBytes whole
  length : tail.length = count - (walHeaderLen + (logBytes whole).length)
  bounded : walHeaderLen + (logBytes whole).length ≤ count
  torn : TornTail limits tail
  next : ∃ rest, log.live = whole ++ rest ∧
    ∀ batch ∈ rest.head?, count < walHeaderLen + (logBytes whole).length + (batchBytes batch).length
  valid : (Log.mk [] whole).Valid header
  fits : ∀ batch ∈ whole, BatchFits limits batch

theorem Unsealed.cut (unsealed : Unsealed header limits log store system) {count : Nat}
    (lower : walHeaderLen ≤ count) (upper : count ≤ system.disk.wal.length) :
    ∃ whole tail, Cut header limits log store system count whole tail := by
  have settled := unsealed.settled
  have inv := settled.consistent.inv
  have wal : system.disk.wal = encodeWalHeader header ++ logBytes log.live := by
    rw [inv.stored.wal, settled.header]
  have first : log.retiredCount = 0 := by rw [Log.retiredCount, unsealed.retired]; rfl
  have frames : store.frames = locate walHeaderLen 0 log.live := by rw [inv.tracks.frames, first]
  obtain ⟨whole, rest, split, front, next⟩ :=
    takeWhile_locate_split (fun frame => frame.offset + frame.length ≤ count) walHeaderLen 0 log.live
  have found : wholeFrames store.frames count = locate walHeaderLen 0 whole := by rw [wholeFrames, frames, front]
  have ends : framesEnd (wholeFrames store.frames count) = walHeaderLen + (logBytes whole).length := by
    rw [found, framesEnd_locate]
  have bounded : walHeaderLen + (logBytes whole).length ≤ count := by
    rw [← ends]
    exact framesEnd_wholeFrames_le lower
  have fits : ∀ batch ∈ log.live, BatchFits limits batch := by
    rw [← settled.limits]
    exact inv.tracks.fits
  have headerSize : (encodeWalHeader header ++ logBytes whole).length = walHeaderLen + (logBytes whole).length := by
    rw [List.length_append, encodeWalHeader_length]
  have whole' : system.disk.wal = (encodeWalHeader header ++ logBytes whole) ++ logBytes rest := by
    rw [wal, split, logBytes_append, List.append_assoc]
  refine ⟨whole, (logBytes rest).take (count - (walHeaderLen + (logBytes whole).length)), ends, ?_, ?_, ?_, ?_, bounded,
    ?_, ⟨rest, split, fun batch same => Nat.not_le.mp (of_decide_eq_false (next batch same))⟩,
    inv.valid.front unsealed.retired split |> (settled.header ▸ ·), ?_⟩
  · rw [found, framesCount_locate, settled.consistent.acknowledged, log.events_eq, unsealed.retired, split,
      List.flatten_append]
    exact List.take_left
  · rw [whole', List.take_append, headerSize, List.take_of_length_le (by rw [headerSize]; exact bounded),
      List.append_assoc]
  · rw [whole', ← headerSize, List.take_left]
  · rw [whole', List.length_append, headerSize] at upper
    rw [List.length_take]
    omega
  · cases rest with
    | nil => exact Or.inl (by simp [batchHeaderLen])
    | cons batch rest =>
        have short : ¬walHeaderLen + (logBytes whole).length + (batchBytes batch).length ≤ count :=
          of_decide_eq_false (next batch rfl)
        rw [logBytes_cons, List.take_append_of_le_length (by omega)]
        exact tornTail_take (fits batch (by rw [split]; simp)) (by omega)
  · intro batch member
    apply fits batch
    rw [split]
    exact List.mem_append_left _ member

/-- Opening a cut: it takes the whole batches in, and the torn tail is cut off or refused. -/
theorem Cut.openStore {count : Nat} {whole : List (List StoredEvent)} {tail : List UInt8}
    (unsealed : Unsealed header limits log store system)
    (cut : Cut header limits log store system count whole tail) (recovery : RecoveryMode) :
    Store.openStore limits recovery { system.disk with wal := system.disk.wal.take count } =
      (do
        let recovered ← finishRecovery recovery (opened header limits ⟨[], whole⟩) tail
        return (recovered.1, RecoveryReport.mk recovered.1.nextSequence recovered.2))
        { system.disk with wal := system.disk.wal.take count } := by
  have sound : validateLimits limits = .ok () := by
    rw [← unsealed.settled.limits]
    exact unsealed.settled.consistent.inv.tracks.limits
  have short : (system.disk.wal.take count).length < 2 ^ 64 :=
    (List.length_take_le' _ _).trans_lt unsealed.settled.consistent.inv.stored.walBound
  have mark : retirementMark system.disk.manifest = (Log.mk [] whole).retiredCount := by
    rw [unsealed.manifest]
    rfl
  exact openStore_eq cut.wal short mark cut.valid sound cut.fits cut.torn

/-- The whole batches are what a log file that ends behind them holds. -/
theorem Cut.steady {count : Nat} {whole : List (List StoredEvent)} {tail : List UInt8}
    (unsealed : Unsealed header limits log store system)
    (cut : Cut header limits log store system count whole tail) :
    Steady ⟨[], whole⟩
      { system.disk with wal := system.disk.wal.take (framesEnd (wholeFrames store.frames count)) }
      (opened header limits ⟨[], whole⟩) := by
  have sound : validateLimits limits = .ok () := by
    rw [← unsealed.settled.limits]
    exact unsealed.settled.consistent.inv.tracks.limits
  have tracks := opened_tracks cut.valid sound cut.fits
  rw [cut.ends, cut.front]
  refine ⟨by rw [opened_header]; exact cut.valid, ?_, tracks⟩
  rw [opened_header]
  exact {
    wal := rfl
    walBound := by
      have bound := unsealed.settled.consistent.inv.stored.walBound
      change (encodeWalHeader header ++ logBytes whole).length < 2 ^ 64
      rw [← cut.front]
      exact (List.length_take_le' _ _).trans_lt bound
    mark := by
      change retirementMark system.disk.manifest = _
      rw [unsealed.manifest]
      rfl
    published := by
      intro first last file _ _ found
      have absent : system.disk.segments.lookup (segmentFilename first last) = some file := found
      rw [unsealed.segments] at absent
      exact absurd absent.symm (Option.some_ne_none file)
    registered := by
      intro manifest present
      have absent : system.disk.manifest = some manifest := present
      rw [unsealed.manifest] at absent
      exact absurd absent.symm (Option.some_ne_none manifest)
    retired := fun first batch absent => (nomatch absent) }

theorem Cut.boundary {count : Nat} {whole : List (List StoredEvent)} {tail : List UInt8}
    (unsealed : Unsealed header limits log store system)
    (cut : Cut header limits log store system count whole tail) :
    FrameBoundary store.frames count ↔ count = framesEnd (wholeFrames store.frames count) := by
  have inv := unsealed.settled.consistent.inv
  have first : log.retiredCount = 0 := by rw [Log.retiredCount, unsealed.retired]; rfl
  constructor
  · intro boundary
    rcases boundary with header | ⟨frame, member, ends⟩
    · have bounded := cut.bounded
      rw [cut.ends]
      omega
    · rw [inv.tracks.frames, first] at member
      obtain ⟨before, after, split, _, place⟩ := exists_end_of_mem_locate member
      obtain ⟨rest, split', next⟩ := cut.next
      have bounded := cut.bounded
      rw [cut.ends]
      rcases List.append_eq_append_iff.mp (split.symm.trans split') with ⟨more, rfl, _⟩ | ⟨more, rfl, rfl⟩
      · rw [logBytes_append, List.length_append] at bounded ⊢
        omega
      · cases more with
        | nil =>
            rw [List.append_nil] at place
            omega
        | cons batch more =>
            have short := next batch rfl
            rw [logBytes_append, logBytes_cons, List.length_append, List.length_append] at place
            omega
  · intro same
    cases last : (wholeFrames store.frames count).getLast? with
    | none =>
        rw [framesEnd, last] at same
        exact Or.inl same
    | some frame =>
        rw [framesEnd, last] at same
        have inside := List.mem_of_getLast? last
        exact Or.inr ⟨frame, List.takeWhile_subset _ inside, same.symm⟩

/-- A new database and appends leave every batch in the log file. -/
theorem System.create_unsealed {database : DatabaseId} {source : SourceId} {epoch : SourceEpoch}
    (created : System.create database source epoch limits = .ok system) :
    Unsealed ⟨database, source, epoch⟩ limits Log.empty (startStore ⟨database, source, epoch⟩ limits 0) system := by
  have settled := System.create_settled created
  obtain ⟨_, rfl⟩ := System.create_ok.mp created
  exact ⟨settled, rfl, rfl, rfl⟩

end Unsealed

/-- A log file that was cut at any byte behind its header opens with exactly the batches whose frames are whole. The
torn tail is cut off in the one mode and refused in the other, and appends go on at the next sequence. -/
theorem open_after_cut {database : DatabaseId} {source : SourceId} {epoch : SourceEpoch} {limits : Limits}
    {start : System} (created : System.create database source epoch limits = .ok start)
    (batches : List (List WriteEvent)) :
    ∃ store, (start.appends batches).handle = some store ∧
      ∀ count, walHeaderLen ≤ count → count ≤ (start.appends batches).disk.wal.length →
        let reached := start.appends batches
        let frames := wholeFrames store.frames count
        let events := reached.acknowledged.take (framesCount frames)
        let cut := { reached.disk with wal := reached.disk.wal.take count }
        let recovered := { reached.disk with wal := reached.disk.wal.take (framesEnd frames) }
        ∃ opened, opened.header = ⟨database, source, epoch⟩ ∧
          Store.openStore limits .truncateIncompleteTail cut =
            (.ok (opened, ⟨events.length, count - framesEnd frames⟩), recovered) ∧
          ReadsBack recovered opened events ∧ Continues recovered opened events ∧
          (FrameBoundary store.frames count → cut = recovered ∧
            Store.openStore limits .rejectIncompleteTail cut = (.ok (opened, ⟨events.length, 0⟩), cut)) ∧
          (¬FrameBoundary store.frames count → Store.openStore limits .rejectIncompleteTail cut =
            (.error (.incompleteTail (framesEnd frames) (count - framesEnd frames)), cut)) := by
  obtain ⟨log, store, unsealed⟩ : ∃ log store, Unsealed ⟨database, source, epoch⟩ limits log store (start.appends batches) :=
    (System.create_unsealed created).appends
  refine ⟨store, unsealed.settled.present, fun count lower upper => ?_⟩
  intro reached frames events cut recovered
  obtain ⟨whole, tail, parts⟩ := unsealed.cut lower upper
  have steady := parts.steady unsealed
  have same : events = (Log.mk [] whole).events := parts.events
  have number : (opened ⟨database, source, epoch⟩ limits ⟨[], whole⟩).nextSequence = events.length := by
    rw [same]
    exact steady.tracks.nextSequence
  have offset : (opened ⟨database, source, epoch⟩ limits ⟨[], whole⟩).endOffset = framesEnd frames :=
    steady.tracks.endOffset.trans parts.ends.symm
  have length : tail.length = count - framesEnd frames := by rw [parts.length, ← parts.ends]
  have reads := steady.readsBack
  have continues := steady.continues
  rw [← same] at reads continues
  have boundary : FrameBoundary store.frames count ↔ tail = [] := by
    rw [parts.boundary unsealed, ← List.length_eq_zero_iff, length]
    have bounded : framesEnd frames ≤ count := framesEnd_wholeFrames_le lower
    have same : framesEnd (wholeFrames store.frames count) = framesEnd frames := rfl
    omega
  have whole' : tail = [] → cut = recovered := by
    intro empty
    have exact' := (parts.boundary unsealed).mp (boundary.mpr empty)
    change { reached.disk with wal := reached.disk.wal.take count } =
      { reached.disk with wal := reached.disk.wal.take (framesEnd frames) }
    rw [← exact']
  have trimmed : setLen (framesEnd frames) (reached.disk.wal.take count) = reached.disk.wal.take (framesEnd frames) := by
    change setLen _ ((start.appends batches).disk.wal.take count) = (start.appends batches).disk.wal.take (framesEnd
      (wholeFrames store.frames count))
    rw [parts.ends, parts.wal, parts.front, ← List.append_assoc]
    apply setLen_exact
    rw [List.length_append, encodeWalHeader_length, ← parts.ends]
  refine ⟨opened ⟨database, source, epoch⟩ limits ⟨[], whole⟩, opened_header, ?_, reads, continues, ?_, ?_⟩
  · have ends := parts.openStore unsealed .truncateIncompleteTail
    rw [finishRecovery] at ends
    by_cases empty : tail = []
    · rw [if_pos empty, Procedure.bind_of_ok (Procedure.pure_apply _ _), Procedure.pure_apply, number] at ends
      rw [← length, empty, ← whole' empty]
      exact ends
    · rw [if_neg empty] at ends
      have cutOff : (Store.recoverTail (opened ⟨database, source, epoch⟩ limits ⟨[], whole⟩) tail.length
          .truncateIncompleteTail) cut = (.ok (opened ⟨database, source, epoch⟩ limits ⟨[], whole⟩, tail.length),
            recovered) := by
        unfold Store.recoverTail
        dsimp only
        rw [Procedure.bind_of_ok (Procedure.update_apply _ _), Procedure.pure_apply, offset]
        exact congrArg (fun wal => (_, { reached.disk with wal := wal })) trimmed
      rw [Procedure.bind_of_ok cutOff, Procedure.pure_apply, number, length] at ends
      exact ends
  · intro here
    have empty := boundary.mp here
    have ends := parts.openStore unsealed .rejectIncompleteTail
    rw [finishRecovery, if_pos empty, Procedure.bind_of_ok (Procedure.pure_apply _ _), Procedure.pure_apply, number] at ends
    exact ⟨whole' empty, ends⟩
  · intro inside
    have ends := parts.openStore unsealed .rejectIncompleteTail
    rw [finishRecovery, if_neg fun empty => inside (boundary.mpr empty)] at ends
    have refused : (Store.recoverTail (opened ⟨database, source, epoch⟩ limits ⟨[], whole⟩) tail.length
        .rejectIncompleteTail) cut = (.error (.incompleteTail (framesEnd frames) (count - framesEnd frames)), cut) := by
      unfold Store.recoverTail
      dsimp only
      rw [Procedure.fail_apply, offset, length]
    rw [Procedure.bind_of_error refused] at ends
    exact ends

end Cutting

/-- A frame that lacks its last bytes is cut off. -/
theorem open_after_cut_sample :
    letI := Crc32fast.ieee
    ∃ reached opened, (System.fresh sampleDatabase 1 1 Limits.default).appends [[bareInput 1 5]] = reached ∧
      Store.openStore Limits.default .truncateIncompleteTail
          { reached.disk with wal := reached.disk.wal.take 100 } =
        (.ok (opened, ⟨0, 60⟩), { reached.disk with wal := reached.disk.wal.take 40 }) := by
  generalize Crc32fast.ieee = inst
  let record := recordOf ⟨sampleDatabase, 1, 1⟩ 0 (bareInput 1 5)
  have created : System.create sampleDatabase 1 1 Limits.default =
      .ok (System.fresh sampleDatabase 1 1 Limits.default) := System.create_ok.mpr ⟨rfl, rfl⟩
  have empty := System.create_settled created
  have next : NextBatch (startStore ⟨sampleDatabase, 1, 1⟩ Limits.default 0) [bareInput 1 5] [record] :=
    NextBatch.bare rfl (fun last absent => nomatch absent) (by decide) (by decide)
  obtain ⟨first, present⟩ := empty.consistent.append_next rfl next
  obtain ⟨store, handle, opens⟩ := open_after_cut created [[bareInput 1 5]]
  have stepped : (System.fresh sampleDatabase 1 1 Limits.default).appends [[bareInput 1 5]] =
      (System.fresh sampleDatabase 1 1 Limits.default).step (.append [bareInput 1 5]) := rfl
  rw [stepped] at handle opens
  obtain rfl : store = (startStore ⟨sampleDatabase, 1, 1⟩ Limits.default 0).pushBatch [record] :=
    Option.some.inj (handle.symm.trans present)
  have size := first.inv.walExact
  rw [Store.pushBatch_endOffset, batchBytes_bare_length] at size
  have frames : wholeFrames ((startStore ⟨sampleDatabase, 1, 1⟩ Limits.default 0).pushBatch [record]).frames 100 =
      [] := by
    change ([⟨walHeaderLen, (batchBytes [record]).length, 0, 1⟩] : List FrameLocation).takeWhile _ = []
    rw [batchBytes_bare_length]
    decide
  have cut := opens 100 (by decide)
  rw [size, frames] at cut
  obtain ⟨opened, _, ends, _⟩ := cut (by decide)
  exact ⟨_, opened, stepped, ends⟩

end Temnion.Storage
