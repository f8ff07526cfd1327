import Temnion.Storage.Run
import Temnion.Storage.Reading

/-
This file says how far one page of the unfiltered history goes, whatever limits the segments were sealed under.
-/

namespace Temnion.Storage

open Format Index LittleEndian Batches Sweep

/-- One frame or segment of the log with its first sequence. -/
structure Block where
  first : Nat
  records : List StoredEvent
  retired : Bool

namespace Block

def stop (block : Block) : Nat := block.first + block.records.length

variable [Crc32fast]

/-- The bytes that a budget is charged for the block. -/
def length (header : WalHeader) (block : Block) : Nat :=
  if block.retired then (sealedBytes header block.records).length else (batchBytes block.records).length

/-- A handle always reads its frames, and a segment only within its own limits. -/
def Readable (header : WalHeader) (limits : Limits) (block : Block) : Prop :=
  block.retired = true → SegmentFits header limits block.records

end Block

/-- The segments of the retired batches and the frames of the others, in the order of the log. -/
def Log.blocks (log : Log) : List Block :=
  (starts 0 log.retired).map (fun place => ⟨place.1, place.2, true⟩) ++
    (starts log.retiredCount log.live).map fun place => ⟨place.1, place.2, false⟩

/-- The blocks that hold the sequences from one to another. -/
def Log.blocksBetween (log : Log) (next target : Nat) : List Block :=
  log.blocks.filter fun block => next < block.stop && block.first ≤ target

/-- The blocks follow each other without a gap and hold the items. -/
def Consecutive (items : List StoredEvent) : Nat → List Block → Prop
  | position, [] => position = items.length
  | position, block :: blocks => block.first = position ∧ block.records ≠ [] ∧
      Placed items block.first block.records ∧ Consecutive items block.stop blocks

/-- Every front part of the blocks that can be read fits one page together. -/
def OnePage [Crc32fast] (header : WalHeader) (limits : Limits) (bytes count : Nat) (blocks : List Block) : Prop :=
  ∀ front rest, blocks = front ++ rest → (∀ block ∈ front, block.Readable header limits) →
    (front.map (Block.length header)).sum ≤ bytes ∧ (front.map (·.records.length)).sum ≤ count

/-- The batch was sealed under some limits. -/
def SealedOnce [Crc32fast] (header : WalHeader) (batch : List StoredEvent) : Prop :=
  ∃ limits, SegmentFits header limits batch

section Blocks

theorem consecutive_starts {items : List StoredEvent} {batches : List (List StoredEvent)} {position : Nat}
    {retired : Bool} {rest : List Block} (nonempty : ∀ batch ∈ batches, batch ≠ [])
    (placed : ∀ first batch, (first, batch) ∈ starts position batches → Placed items first batch)
    (after : Consecutive items (position + batches.flatten.length) rest) :
    Consecutive items position ((starts position batches).map (fun place => ⟨place.1, place.2, retired⟩) ++ rest) := by
  induction batches generalizing position with
  | nil => simpa using after
  | cons batch batches hypothesis =>
      rw [starts_cons, List.map_cons, List.cons_append]
      refine ⟨rfl, nonempty batch List.mem_cons_self, placed position batch List.mem_cons_self, ?_⟩
      apply hypothesis
      · exact fun other member => nonempty other (List.mem_cons_of_mem _ member)
      · exact fun first other member => placed first other (List.mem_cons_of_mem _ member)
      · rw [List.flatten_cons, List.length_append, ← Nat.add_assoc] at after
        exact after

theorem Consecutive.first_le {items : List StoredEvent} {blocks : List Block} {position : Nat}
    (consecutive : Consecutive items position blocks) : ∀ block ∈ blocks, position ≤ block.first := by
  induction blocks generalizing position with
  | nil => exact nofun
  | cons head blocks hypothesis =>
      obtain ⟨rfl, nonempty, placed, rest⟩ := consecutive
      intro block member
      rcases List.mem_cons.mp member with rfl | member
      · exact le_refl _
      · exact (Nat.le_add_right _ _).trans (hypothesis rest block member)

/-- A position splits the blocks at the one that holds it. -/
theorem Consecutive.split {items : List StoredEvent} {blocks : List Block} {position place : Nat}
    (consecutive : Consecutive items position blocks) (lower : position ≤ place) (upper : place < items.length) :
    ∃ before after start, blocks = before ++ after ∧ Consecutive items start after ∧ start ≤ place ∧
      (∀ block ∈ before, block.stop ≤ place) ∧ ∀ block ∈ after, place < block.stop := by
  induction blocks generalizing position with
  | nil =>
      obtain rfl : position = items.length := consecutive
      omega
  | cons block blocks hypothesis =>
      have whole := consecutive
      obtain ⟨first, nonempty, placed, rest⟩ := consecutive
      by_cases here : place < block.stop
      · refine ⟨[], block :: blocks, position, rfl, whole, lower, nofun, fun other member => ?_⟩
        rcases List.mem_cons.mp member with rfl | member
        · exact here
        · have later := rest.first_le other member
          exact here.trans_le (later.trans (Nat.le_add_right _ _))
      · obtain ⟨before, after, start, rfl, consecutive, bound, past, ahead⟩ := hypothesis rest (Nat.not_lt.mp here)
        refine ⟨block :: before, after, start, rfl, consecutive, bound, ?_, ahead⟩
        intro other member
        rcases List.mem_cons.mp member with rfl | member
        · exact Nat.not_lt.mp here
        · exact past other member

theorem Consecutive.nonempty {items : List StoredEvent} {blocks : List Block} {position : Nat}
    (consecutive : Consecutive items position blocks) : ∀ block ∈ blocks, block.records ≠ [] := by
  induction blocks generalizing position with
  | nil => exact nofun
  | cons head blocks hypothesis =>
      obtain ⟨-, nonempty, -, rest⟩ := consecutive
      intro block member
      rcases List.mem_cons.mp member with rfl | member
      · exact nonempty
      · exact hypothesis rest block member

variable [Crc32fast]

theorem onePage_cons {header : WalHeader} {limits : Limits} {bytes count : Nat} {block : Block} {blocks : List Block} :
    OnePage header limits bytes count (block :: blocks) ↔
      (block.Readable header limits → block.length header ≤ bytes ∧ block.records.length ≤ count ∧
        OnePage header limits (bytes - block.length header) (count - block.records.length) blocks) := by
  constructor
  · intro fits readable
    obtain ⟨byte, one⟩ := fits [block] blocks rfl fun other member => List.mem_singleton.mp member ▸ readable
    simp only [List.map_cons, List.map_nil, List.sum_cons, List.sum_nil, add_zero] at byte one
    refine ⟨byte, one, fun front rest split each => ?_⟩
    have both := fits (block :: front) rest (congrArg (block :: ·) split) fun other member =>
      (List.mem_cons.mp member).elim (fun same => same ▸ readable) (each other)
    simp only [List.map_cons, List.sum_cons] at both
    omega
  · intro fits front rest split each
    cases front with
    | nil => simp
    | cons head front =>
        obtain ⟨rfl, rfl⟩ := List.cons.inj split
        obtain ⟨byte, one, others⟩ := fits (each _ List.mem_cons_self)
        have more := others front rest rfl fun other member => each other (List.mem_cons_of_mem _ member)
        simp only [List.map_cons, List.sum_cons]
        omega

@[simp] theorem onePage_nil {header : WalHeader} {limits : Limits} {bytes count : Nat} :
    OnePage header limits bytes count [] := by
  intro front rest split _
  obtain ⟨rfl, -⟩ := List.append_eq_nil_iff.mp split.symm
  simp

end Blocks

section Offers

variable [Crc32fast] {log : Log} {disk : Disk} {store : Store}

/-- The handle reads the block at each of its sequences, or at none of them. -/
structure Offers (store : Store) (disk : Disk) (block : Block) : Prop where
  reads : block.Readable store.header store.limits → ∀ next, block.first ≤ next → next < block.stop →
    store.visit disk .default next = .ok (.block block.records (block.length store.header) block.records.length)
  refuses : ¬ block.Readable store.header store.limits → ∀ next, block.first ≤ next → next < block.stop →
    ∃ error, store.visit disk .default next = .error error

/-- A segment that does not fit the limits of the handle is refused. -/
theorem Inv.visit_refused (inv : Inv (SealedOnce store.header) log disk store) {first place : Nat}
    {batch : List StoredEvent} (member : (first, batch) ∈ starts 0 log.retired) (lower : first ≤ place)
    (upper : place < first + batch.length) (large : ¬ SegmentFits store.header store.limits batch) :
    ∃ error, store.visit disk .default place = .error error := by
  obtain ⟨search, file, other, fits⟩ := inv.findSegment member lower upper
  have below : place < log.retiredCount := by
    have inside := (bounds_of_mem member).2
    rw [Nat.zero_add] at inside
    exact upper.trans_le inside
  cases outcome : store.visit disk .default place with
  | error error => exact ⟨error, rfl⟩
  | ok visit =>
      unfold Store.visit at outcome
      rw [inv.frameIndexForSequence_retired below] at outcome
      unfold Store.visitSegment at outcome
      rw [search] at outcome
      dsimp only at outcome
      rw [file, Except.bind_eq_ok] at outcome
      obtain ⟨bytes, read, rest⟩ := outcome
      obtain ⟨segment, decoded, -⟩ := Except.bind_eq_ok.mp rest
      obtain ⟨same, -⟩ := readBoundedFile_ok.mp read
      obtain rfl := Option.some.inj same
      exact absurd (fits.decodeSegment_ok (asStorage_ok.mp decoded)) large

/-- A handle offers every block of its log. -/
theorem Inv.offers (inv : Inv (SealedOnce store.header) log disk store) : ∀ block ∈ log.blocks, Offers store disk block := by
  intro block member
  rcases List.mem_append.mp member with member | member
  · obtain ⟨⟨first, batch⟩, inside, rfl⟩ := List.mem_map.mp member
    refine ⟨fun readable next lower upper => ?_, fun refused next lower upper => ?_⟩
    · have fits : SegmentFits store.header store.limits batch := readable rfl
      exact inv.visit_retired inside lower upper fits
    · exact inv.visit_refused inside lower upper fun fits => refused fun _ => fits
  · obtain ⟨⟨first, batch⟩, inside, rfl⟩ := List.mem_map.mp member
    refine ⟨fun _ next lower upper => ?_, fun refused => (refused nofun).elim⟩
    obtain ⟨before, after, split, rfl⟩ := exists_split_of_mem inside
    have bound : before.length < store.summaries.length := by
      rw [inv.tracks.summaries.length_eq, split, List.length_append, List.length_cons]
      omega
    exact inv.visit_live split (List.getElem?_eq_getElem bound) lower upper

theorem Inv.blocks_consecutive {admits : List StoredEvent → Prop} (inv : Inv admits log disk store) :
    Consecutive log.events 0 log.blocks := by
  have placed : ∀ first batch, (first, batch) ∈ starts 0 log.batches → Placed log.events first batch :=
    fun first batch member => placed_of_mem inv.valid.numbered inv.valid.bound member rfl
  rw [Log.blocks, ← List.append_nil ((starts log.retiredCount log.live).map _)]
  apply consecutive_starts
  · exact fun batch member => inv.valid.nonempty batch (List.mem_append_left _ member)
  · exact fun first batch member => placed first batch (log.starts_batches ▸ List.mem_append_left _ member)
  · rw [Nat.zero_add]
    apply consecutive_starts
    · exact fun batch member => inv.valid.nonempty batch (List.mem_append_right _ member)
    · exact fun first batch member => placed first batch (log.starts_batches ▸ List.mem_append_right _ member)
    · exact log.events_length.symm

end Offers

section Scan

variable [Crc32fast] {items : List StoredEvent}

omit [Crc32fast] in
/-- A scan of the unfiltered history has collected exactly what it moved over. -/
theorem moves_default {next next' : Nat} {events events' : List StoredEvent}
    (moves : Moves HistoryFilter.default.keeps items items.length (next, events) (next', events')) :
    events' = events ++ (items.take next').drop next := by
  have account := moves.account
  have whole : ∀ place, pending HistoryFilter.default.keeps items items.length place = items.drop place := by
    intro place
    rw [pending, List.take_length, List.filter_eq_self]
    exact fun record _ => HistoryFilter.default_keeps record
  rw [whole, whole] at account
  have forward : next ≤ next' := moves.forward
  have between : items.drop next = (items.take next').drop next ++ items.drop next' := by
    rw [List.drop_take, ← Nat.add_sub_cancel' forward, ← List.drop_drop, Nat.add_sub_cancel', List.take_append_drop]
    omega
  dsimp only at account
  rw [between, ← List.append_assoc] at account
  exact List.append_cancel_right account

/-- How a page ends: with an error, or with the events up to a place. -/
inductive Ends (items : List StoredEvent) (scan : Store.Scan) : Nat → Except StorageError Store.Scan → Prop where
  | fails (last : Nat) (error : StorageError) : Ends items scan last (.error error)
  | stops {last : Nat} {reached : Store.Scan} (forward : scan.next ≤ last)
      (collected : reached.events = scan.events ++ (items.take last).drop scan.next) : Ends items scan last (.ok reached)

omit [Crc32fast] in
/-- The end of a scan that goes on from where another one has come to. -/
theorem Ends.trans {scan middle : Store.Scan} {last : Nat} {outcome : Except StorageError Store.Scan}
    (forward : scan.next ≤ middle.next)
    (collected : middle.events = scan.events ++ (items.take middle.next).drop scan.next)
    (ends : Ends items middle last outcome) : Ends items scan last outcome := by
  cases ends with
  | fails error => exact .fails last error
  | stops onward rest =>
      refine .stops (forward.trans onward) ?_
      rw [rest, collected, List.append_assoc, List.append_cancel_left_eq]
      have front : items.take middle.next = (items.take last).take middle.next := by
        rw [List.take_take, Nat.min_eq_left onward]
      rw [front, List.drop_take, ← Nat.add_sub_cancel' forward, ← List.drop_drop, Nat.add_sub_cancel',
        List.take_append_drop]
      omega

omit [Crc32fast] in
theorem Consecutive.position_le {blocks : List Block} {position : Nat}
    (consecutive : Consecutive items position blocks) : position ≤ items.length := by
  induction blocks generalizing position with
  | nil => exact (consecutive : position = items.length).le
  | cons block blocks hypothesis =>
      obtain ⟨rfl, -, -, rest⟩ := consecutive
      exact (Nat.le_add_right _ _).trans (hypothesis rest)

/-- A scan for everything up to a target takes the blocks one by one while the page has room for them. -/
theorem scanBlocks_reaches {store : Store} {disk : Disk} {budget : StorageQueryBudget} {blocks : List Block}
    {scan : Store.Scan} {position target steps bytes count : Nat}
    (each : ∀ block ∈ blocks, block.Readable store.header store.limits →
      block.length store.header ≤ budget.maxReadBytes ∧ block.records.length ≤ budget.maxScanned)
    (consecutive : Consecutive items position blocks) (offers : ∀ block ∈ blocks, Offers store disk block)
    (start : position ≤ scan.next) (upto : scan.next ≤ target) (inside : target < items.length)
    (head : ∀ block ∈ blocks.head?, scan.next < block.stop)
    (room : budget.maxResults = scan.events.length + (target + 1 - scan.next))
    (bytesLeft : budget.maxReadBytes = scan.bytesRead + bytes) (countLeft : budget.maxScanned = scan.scanned + count)
    (enough : items.length - scan.next ≤ steps) :
    let outcome := store.scanBlocks disk .default budget items.length steps scan
    let due := blocks.filter fun block => block.first ≤ target
    (OnePage store.header store.limits bytes count due → Ends items scan (target + 1) outcome) ∧
      (¬ OnePage store.header store.limits bytes count due → ∃ last reached, outcome = .ok reached ∧ last ≤ target ∧
        Ends items scan last outcome ∧
        ((∀ block ∈ blocks.head?, block.length store.header ≤ bytes ∧ block.records.length ≤ count) →
          scan.next < last)) ∧
      (OnePage store.header store.limits bytes count due →
        ((∃ reached, outcome = .ok reached) ↔ ∀ block ∈ due, block.Readable store.header store.limits)) := by
  intro outcome due
  induction blocks generalizing position scan steps bytes count with
  | nil =>
      obtain rfl : position = items.length := consecutive
      omega
  | cons block blocks hypothesis =>
      obtain ⟨rfl, nonempty, placed, rest⟩ := consecutive
      have here := head block rfl
      obtain ⟨steps, rfl⟩ : ∃ fewer, steps = fewer + 1 := ⟨steps - 1, by omega⟩
      have unread : scan.next < items.length := by omega
      have first : due = block :: blocks.filter fun block => block.first ≤ target :=
        List.filter_cons_of_pos (decide_eq_true (start.trans upto))
      rw [first, onePage_cons]
      by_cases readable : block.Readable store.header store.limits
      · have visit := (offers block List.mem_cons_self).reads readable scan.next start here
        obtain ⟨byte, one⟩ := each block List.mem_cons_self readable
        have entered : outcome = if budget.maxReadBytes - scan.bytesRead < block.length store.header ∨
              budget.maxScanned - scan.scanned < block.records.length then .ok scan
            else
              let reached := Store.scanRecords .default items.length budget.maxResults block.records { scan with
                scanned := scan.scanned + block.records.length
                bytesRead := scan.bytesRead + block.length store.header }
              if reached.events.length = budget.maxResults then .ok reached
              else store.scanBlocks disk .default budget items.length steps reached := by
          change store.scanBlocks disk .default budget items.length (steps + 1) scan = _
          rw [Store.scanBlocks, if_pos unread, visit, Except.ok_bind]
          dsimp only
          rw [if_neg (by omega)]
        by_cases affords : block.length store.header ≤ bytes ∧ block.records.length ≤ count
        · rw [if_neg (by omega)] at entered
          dsimp only at entered
          let charged : Store.Scan := { scan with
            scanned := scan.scanned + block.records.length
            bytesRead := scan.bytesRead + block.length store.header }
          have bound := rest.position_le
          have size : block.stop = block.first + block.records.length := rfl
          have within : charged.next ≤ min items.length (block.first + block.records.length) :=
            Nat.le_min.mpr ⟨unread.le, here.le⟩
          let reached := Store.scanRecords .default items.length budget.maxResults block.records charged
          have scans : ScansRecords .default items items.length budget.maxResults
              (block.first + block.records.length) charged reached := scanRecords_scans charged placed start within
          have collected : reached.events = scan.events ++ (items.take reached.next).drop scan.next :=
            moves_default scans.moves
          have advanced := scans.moves.forward
          have limited := scans.within
          have some := scans.room (by change scan.events.length < _; omega)
          have taken : reached.events.length = scan.events.length + (reached.next - scan.next) := by
            rw [collected, List.length_append, List.length_drop, List.length_take]
            omega
          have entered : outcome = if reached.events.length = budget.maxResults then .ok reached
              else store.scanBlocks disk .default budget items.length steps reached := entered
          dsimp only [charged] at advanced
          by_cases full : reached.events.length = budget.maxResults
          · rw [if_pos full] at entered
            obtain ended : reached.next = target + 1 := by omega
            have nothing : (blocks.filter fun block => block.first ≤ target) = [] := by
              rw [List.filter_eq_nil_iff]
              intro other member
              have later := rest.first_le other member
              simp only [decide_eq_true_eq]
              omega
            rw [nothing, entered]
            refine ⟨fun _ => .stops (by omega) (ended ▸ collected), fun large => ?_, fun _ => ?_⟩
            · exact absurd (fun _ => ⟨affords.1, affords.2, onePage_nil⟩) large
            · exact iff_of_true ⟨reached, rfl⟩ fun other member => List.mem_singleton.mp member ▸ readable
          · rw [if_neg full] at entered
            have ended : reached.next = block.stop := by
              have stopped := scans.full.resolve_left full
              omega
            have ahead : ∀ other ∈ blocks.head?, reached.next < other.stop := by
              intro other next
              have member := List.mem_of_mem_head? next
              have later := rest.first_le other member
              have some := List.length_pos_of_ne_nil (rest.nonempty other member)
              change _ < other.first + other.records.length
              omega
            have bytesRead : reached.bytesRead = scan.bytesRead + block.length store.header := scans.bytesRead
            have scanned : reached.scanned = scan.scanned + block.records.length := scans.scanned
            obtain ⟨fits, large, whole⟩ := hypothesis (fun other member => each other (List.mem_cons_of_mem _ member)) rest
              (fun other member => offers other (List.mem_cons_of_mem _ member)) ended.ge (by omega) ahead (by omega)
              (by omega : budget.maxReadBytes = reached.bytesRead + (bytes - block.length store.header))
              (by omega : budget.maxScanned = reached.scanned + (count - block.records.length))
              (by omega : items.length - reached.next ≤ steps)
            rw [entered]
            refine ⟨fun page => (fits (page readable).2.2).trans advanced collected, fun long => ?_, fun page => ?_⟩
            · obtain ⟨last, end', same, bound, ends, -⟩ := large fun page => long fun _ => ⟨affords.1, affords.2, page⟩
              refine ⟨last, end', same, bound, ends.trans advanced collected, fun _ => ?_⟩
              rw [same] at ends
              cases ends with
              | stops forward _ => omega
            · rw [whole (page readable).2.2, List.forall_mem_cons, and_iff_right readable]
        · rw [if_pos (by omega)] at entered
          rw [entered]
          refine ⟨fun fits => absurd ⟨(fits readable).1, (fits readable).2.1⟩ affords, fun _ => ?_,
            fun fits => absurd ⟨(fits readable).1, (fits readable).2.1⟩ affords⟩
          refine ⟨scan.next, scan, rfl, upto, .stops (le_refl _) ?_, fun able => absurd (able block rfl) affords⟩
          rw [List.drop_take, Nat.sub_self, List.take_zero, List.append_nil]
      · obtain ⟨error, visit⟩ := (offers block List.mem_cons_self).refuses readable scan.next start here
        have failed : outcome = .error error := by
          change store.scanBlocks disk .default budget items.length (steps + 1) scan = _
          rw [Store.scanBlocks, if_pos unread, visit]
          rfl
        rw [failed]
        refine ⟨fun _ => .fails _ error, fun large => (large fun fits => (readable fits).elim).elim, fun _ => ?_⟩
        exact iff_of_false (by simp) fun all => readable (all block List.mem_cons_self)

end Scan

section Page

variable [Crc32fast] {log : Log} {disk : Disk} {store : Store}

/-- A block that can be read lies within the limits of the handle. -/
theorem Inv.block_le {admits : List StoredEvent → Prop} (inv : Inv admits log disk store) {block : Block}
    (member : block ∈ log.blocks) (readable : block.Readable store.header store.limits) :
    block.length store.header ≤ max store.limits.maxFrameBytes store.limits.maxSegmentBytes ∧
      block.records.length ≤ store.limits.maxRecords := by
  rcases List.mem_append.mp member with member | member
  · obtain ⟨⟨first, batch⟩, inside, rfl⟩ := List.mem_map.mp member
    have fits : SegmentFits store.header store.limits batch := readable rfl
    refine ⟨?_, fits.batch.count⟩
    have room := fits.room
    rw [Block.length, if_pos rfl, sealedBytes, segmentBytes_length]
    exact room.trans (Nat.le_max_right _ _)
  · obtain ⟨⟨first, batch⟩, inside, rfl⟩ := List.mem_map.mp member
    have fits := inv.tracks.fits batch (mem_of_mem_starts inside)
    exact ⟨fits.length.trans (Nat.le_max_left _ _), fits.count⟩

/-- A page for everything up to a target brings all of it or fails when the blocks up to there fit a page,
and otherwise it brings a part that ends before the target. -/
theorem Inv.history_reaches (inv : Inv (SealedOnce store.header) log disk store) {next target bytes count : Nat}
    (upto : next ≤ target) (inside : target < log.events.length) (positive : 0 < count ∧ 0 < bytes)
    (frames : store.limits.maxFrameBytes ≤ bytes) (segments : store.limits.maxSegmentBytes ≤ bytes)
    (records : store.limits.maxRecords ≤ count) :
    let outcome := store.history disk .default ⟨target - next + 1, count, bytes⟩
      (some (store.cursorAt .default next store.nextSequence))
    (OnePage store.header store.limits bytes count (log.blocksBetween next target) →
        (∃ error, outcome = .error error) ∨
          ∃ page, outcome = .ok page ∧ page.events = (log.events.take (target + 1)).drop next) ∧
      (¬ OnePage store.header store.limits bytes count (log.blocksBetween next target) →
        ∃ page last, outcome = .ok page ∧ next < last ∧ last ≤ target ∧
          page.events = (log.events.take last).drop next) ∧
      (OnePage store.header store.limits bytes count (log.blocksBetween next target) →
        ((∃ page, outcome = .ok page) ↔
          ∀ block ∈ log.blocksBetween next target, block.Readable store.header store.limits)) := by
  intro outcome
  let budget : StorageQueryBudget := ⟨target - next + 1, count, bytes⟩
  let scan : Store.Scan := ⟨next, [], 0, 0⟩
  obtain ⟨before, after, start, split, consecutive, lower, past, ahead⟩ :=
    inv.blocks_consecutive.split (Nat.zero_le next) (upto.trans_lt inside)
  have listed : ∀ block ∈ after, block ∈ log.blocks := fun block member => split ▸ List.mem_append_right _ member
  have due : log.blocksBetween next target = after.filter fun block => block.first ≤ target := by
    have skipped : before.filter (fun block => next < block.stop && block.first ≤ target) = [] := by
      rw [List.filter_eq_nil_iff]
      intro block member
      have ended := past block member
      simp only [Bool.and_eq_true, decide_eq_true_eq, not_and]
      omega
    rw [Log.blocksBetween, split, List.filter_append, skipped, List.nil_append]
    apply List.filter_congr
    intro block member
    rw [decide_eq_true (ahead block member), Bool.true_and]
  have each : ∀ block ∈ after, block.Readable store.header store.limits →
      block.length store.header ≤ budget.maxReadBytes ∧ block.records.length ≤ budget.maxScanned := by
    intro block member readable
    obtain ⟨byte, one⟩ := inv.block_le (listed block member) readable
    exact ⟨byte.trans (Nat.max_le.mpr ⟨frames, segments⟩), one.trans records⟩
  have room : budget.maxResults = scan.events.length + (target + 1 - scan.next) := by
    simp only [budget, scan, List.length_nil]
    omega
  obtain ⟨fits, large, whole⟩ := scanBlocks_reaches each consecutive
    (fun block member => inv.offers block (listed block member)) lower upto inside
    (fun block first => ahead block (List.mem_of_mem_head? first)) room
    (Nat.zero_add bytes).symm (Nat.zero_add count).symm (le_refl (log.events.length - scan.next))
  have paged : outcome = (store.scanBlocks disk .default budget log.events.length (log.events.length - next) scan).map
      fun scan => {
        events := scan.events
        scanned := scan.scanned
        bytesRead := scan.bytesRead
        continuation := if scan.next < log.events.length then some (store.cursorAt .default scan.next log.events.length)
          else none } := by
    have usable : ¬store.poisoned = true := by
      rw [inv.tracks.usable]
      decide
    have window : store.window .default (some (store.cursorAt .default next store.nextSequence)) =
        .ok (next, log.events.length) := by
      have bound : next ≤ store.nextSequence := by
        rw [inv.tracks.nextSequence]
        omega
      rw [Store.window, Except.refuseIf_bind, ← inv.tracks.nextSequence]
      · rfl
      · simp [Store.cursorAt, bound]
    have cutoff : Store.checkCutoff .default store.lastKnown = .ok () := checkCutoff_ok.mpr fun cutoff last absent => nomatch absent
    change store.history disk .default budget _ = _
    rw [Store.history, Except.refuseIf_bind usable, Except.refuseIf_bind (by simp only [budget]; omega), cutoff,
      Except.ok_bind, window, Except.ok_bind]
    change (store.scanBlocks disk .default budget log.events.length (log.events.length - next) scan >>= _) = _
    cases store.scanBlocks disk .default budget log.events.length (log.events.length - next) scan with
    | error error => rfl
    | ok reached => rfl
  rw [due, paged]
  refine ⟨?_, ?_, ?_⟩
  · intro page
    have ends := fits page
    revert ends
    generalize store.scanBlocks disk .default budget log.events.length (log.events.length - scan.next) scan = result
    intro ends
    cases ends with
    | fails error => exact Or.inl ⟨error, rfl⟩
    | stops forward collected => exact Or.inr ⟨_, rfl, collected⟩
  · intro long
    obtain ⟨last, reached, same, bound, ends, forward⟩ := large long
    rw [same] at ends ⊢
    cases ends with
    | stops _ collected =>
        refine ⟨_, last, rfl, forward ?_, bound, collected⟩
        intro block first
        have member := List.mem_of_mem_head? first
        by_contra unable
        apply long
        obtain ⟨rest, rfl⟩ : ∃ rest, after = block :: rest := by
          cases after with
          | nil => exact absurd first nofun
          | cons other rest => exact ⟨rest, by rw [Option.some.inj first]⟩
        have reached' : block.first ≤ target := (consecutive.1.le.trans lower).trans upto
        rw [List.filter_cons, if_pos (decide_eq_true reached'), onePage_cons]
        exact fun readable => absurd (each block member readable) unable
  · intro page
    rw [← whole page]
    constructor
    · intro success
      obtain ⟨reached, same⟩ := success
      obtain ⟨scan, done, -⟩ := Except.map_eq_ok.mp same
      exact ⟨scan, done⟩
    · intro success
      obtain ⟨scan, done⟩ := success
      exact ⟨_, Except.map_eq_ok.mpr ⟨scan, done, rfl⟩⟩

end Page

end Temnion.Storage
