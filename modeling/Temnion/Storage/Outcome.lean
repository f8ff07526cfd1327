import Temnion.Storage.Reach

/-
This file says what the first page of any history brings, whatever limits the segments were sealed under.
-/

namespace Temnion.Storage

open Format Index LittleEndian Batches Sweep

section Answers

variable [Crc32fast] {log : Log} {disk : Disk} {store : Store} {filter : HistoryFilter}

/-- A block is charged for its own length. -/
def Charged (header : WalHeader) (block : Block) : Store.Visit → Prop
  | .skip _ => True
  | .block _ frameLength _ => frameLength = block.length header

/-- The handle has one answer for all sequences of a block that it can read, and refuses the others. -/
structure Answers (store : Store) (disk : Disk) (filter : HistoryFilter) (block : Block) : Prop where
  reads : block.Readable store.header store.limits → ∃ visit, Shows filter (block.first, block.records) visit ∧
    Charged store.header block visit ∧ ∀ next, block.first ≤ next → next < block.stop → store.visit disk filter next = .ok visit
  refuses : ¬ block.Readable store.header store.limits → ∀ next, block.first ≤ next → next < block.stop →
    ∃ error, store.visit disk filter next = .error error

/-- What the scan finds for a retired sequence does not depend on the filter. -/
theorem Inv.visit_filter {admits : List StoredEvent → Prop} (inv : Inv admits log disk store) {place : Nat}
    (below : place < log.retiredCount) (other : HistoryFilter) :
    store.visit disk filter place = store.visit disk other place := by
  unfold Store.visit
  rw [inv.frameIndexForSequence_retired below]

theorem Inv.answers (inv : Inv (SealedOnce store.header) log disk store) (filter : HistoryFilter) :
    ∀ block ∈ log.blocks, Answers store disk filter block := by
  intro block member
  rcases List.mem_append.mp member with member | member
  · obtain ⟨⟨first, batch⟩, inside, rfl⟩ := List.mem_map.mp member
    have below : ∀ next < first + batch.length, next < log.retiredCount := by
      intro next upper
      have bound := (bounds_of_mem inside).2
      rw [Nat.zero_add] at bound
      exact upper.trans_le bound
    refine ⟨fun readable => ?_, fun refused next lower upper => ?_⟩
    · have fits : SegmentFits store.header store.limits batch := readable rfl
      exact ⟨retiredVisit store.header (first, batch), ⟨rfl, rfl⟩, (if_pos rfl).symm,
        fun next lower upper => inv.visit_retired inside lower upper fits⟩
    · rw [inv.visit_filter (below next upper) .default]
      exact inv.visit_refused inside lower upper fun fits => refused fun _ => fits
  · obtain ⟨⟨first, batch⟩, inside, rfl⟩ := List.mem_map.mp member
    refine ⟨fun _ => ?_, fun refused => (refused nofun).elim⟩
    obtain ⟨before, after, split, rfl⟩ := exists_split_of_mem inside
    have bound : before.length < store.summaries.length := by
      rw [inv.tracks.summaries.length_eq, split, List.length_append, List.length_cons]
      omega
    have summarizes : Summarizes store.summaries[before.length] batch := by
      have aligned := inv.tracks.summaries
      have inside : before.length < log.live.length := by
        rw [split, List.length_append, List.length_cons]
        omega
      have here := aligned.get bound inside
      have same : log.live[before.length] = batch := by simp [split]
      rw [List.get_eq_getElem, List.get_eq_getElem] at here
      exact same ▸ here
    refine ⟨_, ?_, ?_, fun next lower upper => inv.visit_live split (List.getElem?_eq_getElem bound) lower upper⟩
    · unfold liveVisit
      split
      · next skipped => exact ⟨rfl, summarizes.dropped (inv.batch_accepted split) skipped⟩
      · exact ⟨rfl, rfl⟩
    · unfold liveVisit
      split
      · trivial
      · exact (if_neg Bool.false_ne_true).symm

end Answers

theorem Consecutive.stop_le {items : List StoredEvent} {blocks : List Block} {position : Nat}
    (consecutive : Consecutive items position blocks) : ∀ block ∈ blocks, block.stop ≤ items.length := by
  induction blocks generalizing position with
  | nil => exact nofun
  | cons head blocks hypothesis =>
      obtain ⟨-, -, -, rest⟩ := consecutive
      intro block member
      rcases List.mem_cons.mp member with rfl | member
      · exact rest.position_le
      · exact hypothesis rest block member

section Outcome

variable [Crc32fast] {items : List StoredEvent} {store : Store} {disk : Disk} {filter : HistoryFilter}
  {budget : StorageQueryBudget}

omit [Crc32fast] in
/-- A reader from the front has collected what it keeps of the part behind it. -/
theorem moves_collected {keeps : StoredEvent → Bool} {next : Nat} {reached : Nat × List StoredEvent}
    (moves : Moves keeps items items.length (next, (items.take next).filter keeps) reached) :
    reached.2 = (items.take reached.1).filter keeps := by
  have account := moves.account
  have whole : ∀ place, (items.take place).filter keeps ++ pending keeps items items.length place = items.filter keeps := by
    intro place
    rw [pending, List.take_length, ← List.filter_append, List.take_append_drop]
  dsimp only at account
  rw [whole, ← whole reached.1] at account
  exact List.append_cancel_right account

/-- How a scan may end: as far as the page or the blocks go, or at a block that is too large or refused. -/
def Outcome (store : Store) (filter : HistoryFilter) (budget : StorageQueryBudget) (items : List StoredEvent)
    (blocks : List Block) (next : Nat) : Except StorageError Store.Scan → Prop
  | .ok reached => next ≤ reached.next ∧ reached.events = (items.take reached.next).filter filter.keeps ∧
      reached.events.length ≤ budget.maxResults ∧
      ∀ block ∈ blocks, block.first < reached.next → block.Readable store.header store.limits
  | .error error => (∃ bytes count, error = .budgetTooSmall bytes count) ∨
      ∃ block ∈ blocks, ¬ block.Readable store.header store.limits ∧
        ((items.take block.first).filter filter.keeps).length < budget.maxResults

omit [Crc32fast] in
theorem filter_take_length_mono {keeps : StoredEvent → Bool} {lower upper : Nat} (below : lower ≤ upper) :
    ((items.take lower).filter keeps).length ≤ ((items.take upper).filter keeps).length := by
  have front : items.take lower = (items.take upper).take lower := by
    rw [List.take_take, Nat.min_eq_left below]
  rw [front]
  exact ((List.take_sublist _ _).filter _).length_le

omit [Crc32fast] in
/-- A skipped block adds nothing to what has been collected. -/
theorem collected_skip {block : Block} {next place : Nat} {events : List StoredEvent}
    (placed : Placed items block.first block.records) (start : block.first ≤ next) (here : next < block.stop)
    (shown : Shows filter (block.first, block.records) (.skip place))
    (collected : events = (items.take next).filter filter.keeps) :
    events = (items.take block.stop).filter filter.keeps := by
  obtain ⟨-, dropped⟩ := shown
  have moves : Moves filter.keeps items items.length (next, events) (block.stop, events) := by
    apply Moves.leap here.le
    intro place item lower upper stands
    obtain ⟨index, rfl⟩ := Nat.exists_eq_add_of_le (start.trans lower)
    have short : index < block.records.length := by
      change _ < block.first + _ at upper
      omega
    have same := (placed index block.records[index] (List.getElem?_eq_getElem short)).1
    obtain rfl := Option.some.inj (same.symm.trans stands)
    exact dropped _ (List.getElem_mem short)
  rw [collected] at moves
  exact collected.trans (moves_collected moves)

theorem Outcome.tail {block : Block} {blocks : List Block} {next middle : Nat} {outcome : Except StorageError Store.Scan}
    (ends : Outcome store filter budget items blocks middle outcome) (forward : next ≤ middle)
    (readable : block.Readable store.header store.limits) :
    Outcome store filter budget items (block :: blocks) next outcome := by
  cases outcome with
  | ok reached =>
      obtain ⟨onward, collected, bounded, others⟩ := ends
      exact ⟨forward.trans onward, collected, bounded, List.forall_mem_cons.mpr ⟨fun _ => readable, others⟩⟩
  | error error =>
      rcases ends with small | ⟨other, member, refused⟩
      · exact .inl small
      · exact .inr ⟨other, List.mem_cons_of_mem _ member, refused⟩

/-- A scan that has collected what is behind it ends in one of the ways above. -/
theorem scanBlocks_outcome {blocks : List Block} {scan : Store.Scan} {position steps : Nat}
    (consecutive : Consecutive items position blocks) (answers : ∀ block ∈ blocks, Answers store disk filter block)
    (start : position ≤ scan.next) (inside : scan.next ≤ items.length)
    (head : ∀ block ∈ blocks.head?, scan.next < block.stop)
    (collected : scan.events = (items.take scan.next).filter filter.keeps)
    (room : scan.events.length < budget.maxResults) (enough : items.length - scan.next ≤ steps) :
    Outcome store filter budget items blocks scan.next (store.scanBlocks disk filter budget items.length steps scan) := by
  induction blocks generalizing position scan steps with
  | nil =>
      obtain rfl : position = items.length := consecutive
      have finished : ¬ scan.next < items.length := Nat.not_lt.mpr start
      have ends : store.scanBlocks disk filter budget items.length steps scan = .ok scan := by
        cases steps with
        | zero =>
            rw [Store.scanBlocks, Except.refuseIf_bind finished]
            rfl
        | succ steps => rw [Store.scanBlocks, if_neg finished]
      rw [ends]
      exact ⟨le_refl _, collected, room.le, by simp⟩
  | cons block blocks hypothesis =>
      obtain ⟨rfl, nonempty, placed, rest⟩ := consecutive
      have here := head block rfl
      have bound := rest.position_le
      obtain ⟨steps, rfl⟩ : ∃ fewer, steps = fewer + 1 := ⟨steps - 1, by omega⟩
      have unread : scan.next < items.length := here.trans_le bound
      have later : ∀ other ∈ blocks, block.stop ≤ other.first := rest.first_le
      have next : ∀ other ∈ blocks.head?, block.stop < other.stop := by
        intro other first
        have member := List.mem_of_mem_head? first
        have size := List.length_pos_of_ne_nil (rest.nonempty other member)
        have after := later other member
        change _ < other.first + other.records.length
        omega
      rw [Store.scanBlocks, if_pos unread]
      by_cases readable : block.Readable store.header store.limits
      · obtain ⟨visit, shown, -, found⟩ := (answers block List.mem_cons_self).reads readable
        rw [found scan.next start here, Except.ok_bind]
        cases visit with
        | skip place =>
            have collected' := collected_skip placed start here shown collected
            obtain ⟨rfl, _⟩ := shown
            have more := @hypothesis { scan with next := block.stop } block.stop steps rest
              (fun other member => answers other (List.mem_cons_of_mem _ member)) (le_refl _) bound next
              collected' room (by dsimp only; omega)
            exact more.tail here.le readable
        | block records frameLength frameCount =>
            obtain ⟨rfl, rfl⟩ := shown
            have stays : Outcome store filter budget items (block :: blocks) scan.next (.ok scan) := by
              refine ⟨le_refl _, collected, room.le, List.forall_mem_cons.mpr ⟨fun _ => readable, ?_⟩⟩
              intro other member before
              have after := later other member
              omega
            dsimp only
            by_cases large : budget.maxReadBytes < frameLength ∨ budget.maxScanned < block.records.length
            · rw [if_pos large]
              by_cases read : scan.bytesRead ≠ 0
              · rw [if_pos read]
                exact stays
              · rw [if_neg read]
                exact .inl ⟨_, _, rfl⟩
            · rw [if_neg large]
              by_cases spent : budget.maxReadBytes - scan.bytesRead < frameLength ∨
                  budget.maxScanned - scan.scanned < block.records.length
              · rw [if_pos spent]
                exact stays
              · rw [if_neg spent]
                let charged : Store.Scan := { scan with
                  scanned := scan.scanned + block.records.length
                  bytesRead := scan.bytesRead + frameLength }
                have within : charged.next ≤ min items.length (block.first + block.records.length) :=
                  Nat.le_min.mpr ⟨unread.le, here.le⟩
                have scans : ScansRecords filter items items.length budget.maxResults
                    (block.first + block.records.length) charged
                    (Store.scanRecords filter items.length budget.maxResults block.records charged) :=
                  scanRecords_scans charged placed start within
                have forward := @scanRecords_forward filter items block.records items.length budget.maxResults
                  block.first charged placed start here unread
                generalize Store.scanRecords filter items.length budget.maxResults block.records charged = reached at *
                have moves : Moves filter.keeps items items.length (scan.next, scan.events) (reached.next, reached.events) :=
                  scans.moves
                rw [collected] at moves
                have collected' := moves_collected moves
                have limit := scans.within
                have size := scans.room room
                by_cases full : reached.events.length = budget.maxResults
                · rw [if_pos full]
                  refine ⟨moves.forward, collected', size, List.forall_mem_cons.mpr ⟨fun _ => readable, ?_⟩⟩
                  intro other member before
                  have after := later other member
                  change block.first + _ ≤ _ at after
                  omega
                · rw [if_neg full]
                  have ended : reached.next = block.stop := by
                    have stopped := scans.full.resolve_left full
                    change _ = block.first + _
                    change block.first + _ ≤ _ at bound
                    omega
                  have more := @hypothesis reached block.stop steps rest
                    (fun other member => answers other (List.mem_cons_of_mem _ member)) ended.ge (ended ▸ bound)
                    (ended ▸ next) collected' (lt_of_le_of_ne size full) (by
                      change scan.next < _ at forward
                      omega)
                  exact more.tail moves.forward readable
      · obtain ⟨error, refused⟩ := (answers block List.mem_cons_self).refuses readable scan.next start here
        rw [refused]
        refine .inr ⟨block, List.mem_cons_self, readable, ?_⟩
        rw [collected] at room
        exact (filter_take_length_mono start).trans_lt room

/-- A scan whose budget covers all blocks ahead ends with a full page or behind the last item, when the blocks up to the
end of the page can be read. -/
theorem scanBlocks_within {blocks : List Block} {scan : Store.Scan} {position steps : Nat}
    (consecutive : Consecutive items position blocks) (answers : ∀ block ∈ blocks, Answers store disk filter block)
    (readable : ∀ block ∈ blocks, ((items.take block.first).filter filter.keeps).length < budget.maxResults →
      block.Readable store.header store.limits)
    (start : position ≤ scan.next) (inside : scan.next ≤ items.length)
    (head : ∀ block ∈ blocks.head?, scan.next < block.stop)
    (collected : scan.events = (items.take scan.next).filter filter.keeps)
    (room : scan.events.length < budget.maxResults)
    (bytes : scan.bytesRead + (blocks.map (Block.length store.header)).sum ≤ budget.maxReadBytes)
    (count : scan.scanned + (blocks.map (·.records.length)).sum ≤ budget.maxScanned)
    (enough : items.length - scan.next ≤ steps) :
    ∃ reached, store.scanBlocks disk filter budget items.length steps scan = .ok reached ∧
      (reached.events.length = budget.maxResults ∨ items.length ≤ reached.next) := by
  induction blocks generalizing position scan steps with
  | nil =>
      obtain rfl : position = items.length := consecutive
      have finished : ¬ scan.next < items.length := Nat.not_lt.mpr start
      refine ⟨scan, ?_, .inr start⟩
      cases steps with
      | zero =>
          rw [Store.scanBlocks, Except.refuseIf_bind finished]
          rfl
      | succ steps => rw [Store.scanBlocks, if_neg finished]
  | cons block blocks hypothesis =>
      obtain ⟨rfl, nonempty, placed, rest⟩ := consecutive
      have here := head block rfl
      have bound := rest.position_le
      obtain ⟨steps, rfl⟩ : ∃ fewer, steps = fewer + 1 := ⟨steps - 1, by omega⟩
      have unread : scan.next < items.length := here.trans_le bound
      have next : ∀ other ∈ blocks.head?, block.stop < other.stop := by
        intro other first
        have member := List.mem_of_mem_head? first
        have size := List.length_pos_of_ne_nil (rest.nonempty other member)
        have after := rest.first_le other member
        change _ < other.first + other.records.length
        omega
      rw [List.map_cons, List.sum_cons] at bytes count
      have before : ((items.take block.first).filter filter.keeps).length < budget.maxResults := by
        rw [collected] at room
        exact (filter_take_length_mono start).trans_lt room
      obtain ⟨visit, shown, charged, found⟩ :=
        (answers block List.mem_cons_self).reads (readable block List.mem_cons_self before)
      rw [Store.scanBlocks, if_pos unread, found scan.next start here, Except.ok_bind]
      cases visit with
      | skip place =>
          have collected' := collected_skip placed start here shown collected
          obtain ⟨rfl, _⟩ := shown
          exact @hypothesis { scan with next := block.stop } block.stop steps rest
            (fun other member => answers other (List.mem_cons_of_mem _ member))
            (fun other member => readable other (List.mem_cons_of_mem _ member)) (le_refl _) bound next collected' room
            (by dsimp only; omega) (by dsimp only; omega) (by dsimp only; omega)
      | block records frameLength frameCount =>
          obtain ⟨rfl, rfl⟩ := shown
          obtain rfl : frameLength = block.length store.header := charged
          dsimp only
          rw [if_neg (by omega), if_neg (by omega)]
          let charged : Store.Scan := { scan with
            scanned := scan.scanned + block.records.length
            bytesRead := scan.bytesRead + block.length store.header }
          have within : charged.next ≤ min items.length (block.first + block.records.length) :=
            Nat.le_min.mpr ⟨unread.le, here.le⟩
          have scans : ScansRecords filter items items.length budget.maxResults
              (block.first + block.records.length) charged
              (Store.scanRecords filter items.length budget.maxResults block.records charged) :=
            scanRecords_scans charged placed start within
          have forward := @scanRecords_forward filter items block.records items.length budget.maxResults
            block.first charged placed start here unread
          generalize Store.scanRecords filter items.length budget.maxResults block.records charged = reached at *
          by_cases full : reached.events.length = budget.maxResults
          · rw [if_pos full]
            exact ⟨reached, rfl, .inl full⟩
          · rw [if_neg full]
            have ended : reached.next = block.stop := by
              have stopped := scans.full.resolve_left full
              change _ = block.first + _
              change block.first + _ ≤ _ at bound
              omega
            have bytesRead : reached.bytesRead = scan.bytesRead + block.length store.header := scans.bytesRead
            have scanned : reached.scanned = scan.scanned + block.records.length := scans.scanned
            have moves : Moves filter.keeps items items.length (scan.next, scan.events) (reached.next, reached.events) :=
              scans.moves
            rw [collected] at moves
            exact @hypothesis reached block.stop steps rest
              (fun other member => answers other (List.mem_cons_of_mem _ member))
              (fun other member => readable other (List.mem_cons_of_mem _ member)) ended.ge (ended ▸ bound)
              (ended ▸ next) (moves_collected moves) (lt_of_le_of_ne (scans.room room) full) (by omega) (by omega) (by
                change scan.next < _ at forward
                omega)

end Outcome

section FirstPage

variable [Crc32fast] {log : Log} {disk : Disk} {store : Store} {filter : HistoryFilter} {budget : StorageQueryBudget}
  {page : StoragePage}

/-- The page ends with its last place or with the log, and no failure is due to the budget. -/
def WithinBudget (budget : StorageQueryBudget) : Except StorageError StoragePage → Prop
  | .ok page => page.events.length = budget.maxResults ∨ page.continuation = none
  | .error error => ∀ bytes count, error ≠ .budgetTooSmall bytes count

/-- The cutoff is on the known clock, and each segment up to the end of the page can be read. -/
def Serviceable (log : Log) (store : Store) (filter : HistoryFilter) (maxResults : Nat) : Prop :=
  OnKnownClock filter store ∧ ∀ block ∈ log.blocks,
    ((log.events.take block.first).filter filter.keeps).length < maxResults → block.Readable store.header store.limits

/-- The first page is the scan from the front, once the cutoff has been accepted. -/
theorem Inv.history_first {admits : List StoredEvent → Prop} (inv : Inv admits log disk store)
    (clock : OnKnownClock filter store)
    (positive : 0 < budget.maxResults ∧ 0 < budget.maxScanned ∧ 0 < budget.maxReadBytes) :
    store.history disk filter budget none =
      (store.scanBlocks disk filter budget log.events.length log.events.length ⟨0, [], 0, 0⟩).map fun scan => {
        events := scan.events
        scanned := scan.scanned
        bytesRead := scan.bytesRead
        continuation := if scan.next < log.events.length then some (store.cursorAt filter scan.next log.events.length)
          else none } := by
  have usable : ¬store.poisoned = true := by
    rw [inv.tracks.usable]
    decide
  have window : store.window filter none = .ok (0, log.events.length) := by
    rw [← inv.tracks.nextSequence]
    rfl
  rw [Store.history, Except.refuseIf_bind usable, Except.refuseIf_bind (by omega), checkCutoff_ok.mpr clock,
    Except.ok_bind, window, Except.ok_bind]
  change (store.scanBlocks disk filter budget log.events.length log.events.length ⟨0, [], 0, 0⟩ >>= _) = _
  cases store.scanBlocks disk filter budget log.events.length log.events.length ⟨0, [], 0, 0⟩ with
  | error error => rfl
  | ok reached => rfl

theorem Inv.blocks_head {admits : List StoredEvent → Prop} (inv : Inv admits log disk store) :
    ∀ block ∈ log.blocks.head?, 0 < block.stop := by
  intro block first
  have member := List.mem_of_mem_head? first
  have size := List.length_pos_of_ne_nil (inv.blocks_consecutive.nonempty block member)
  change 0 < block.first + block.records.length
  omega

theorem Inv.scan_outcome (inv : Inv (SealedOnce store.header) log disk store) (filter : HistoryFilter)
    (positive : 0 < budget.maxResults) :
    Outcome store filter budget log.events log.blocks 0
      (store.scanBlocks disk filter budget log.events.length log.events.length ⟨0, [], 0, 0⟩) := by
  exact @scanBlocks_outcome _ log.events store disk filter budget log.blocks ⟨0, [], 0, 0⟩ 0 log.events.length
    inv.blocks_consecutive (inv.answers filter) (le_refl _) (Nat.zero_le _) inv.blocks_head rfl positive (Nat.le_refl _)

theorem history_clock {admits : List StoredEvent → Prop} (inv : Inv admits log disk store)
    (positive : 0 < budget.maxResults ∧ 0 < budget.maxScanned ∧ 0 < budget.maxReadBytes)
    (done : store.history disk filter budget none = .ok page) : OnKnownClock filter store := by
  have usable : ¬store.poisoned = true := by
    rw [inv.tracks.usable]
    decide
  rw [Store.history, Except.refuseIf_bind usable, Except.refuseIf_bind (by omega), Except.bind_eq_ok] at done
  obtain ⟨_, accepted, _⟩ := done
  exact checkCutoff_ok.mp accepted

/-- The first page holds what the filter keeps of a front part of the log, whatever its budget. -/
theorem Inv.history_front (inv : Inv (SealedOnce store.header) log disk store)
    (positive : 0 < budget.maxResults ∧ 0 < budget.maxScanned ∧ 0 < budget.maxReadBytes)
    (done : store.history disk filter budget none = .ok page) :
    ∃ next, page.events = (log.events.take next).filter filter.keeps ∧ page.events.length ≤ budget.maxResults ∧
      (∀ block ∈ log.blocks, block.first < next → block.Readable store.header store.limits) ∧
      (page.continuation = none → log.events.length ≤ next) := by
  have clock := history_clock inv positive done
  rw [inv.history_first clock positive, Except.map_eq_ok] at done
  obtain ⟨reached, ends, rfl⟩ := done
  have outcome := inv.scan_outcome filter positive.1
  rw [ends] at outcome
  obtain ⟨-, collected, bounded, readable⟩ := outcome
  refine ⟨reached.next, collected, bounded, readable, ?_⟩
  intro finished
  by_contra before
  dsimp only at finished
  rw [if_pos (Nat.lt_of_not_le before)] at finished
  contradiction

/-- A page within its budget holds the first kept events of the log. -/
theorem Inv.history_events (inv : Inv (SealedOnce store.header) log disk store)
    (positive : 0 < budget.maxResults ∧ 0 < budget.maxScanned ∧ 0 < budget.maxReadBytes)
    (within : WithinBudget budget (store.history disk filter budget none))
    (done : store.history disk filter budget none = .ok page) :
    page.events = (log.events.filter filter.keeps).take budget.maxResults := by
  rw [done] at within
  obtain ⟨next, collected, bounded, _, finished⟩ := inv.history_front positive done
  have front : log.events.filter filter.keeps = page.events ++ (log.events.drop next).filter filter.keeps := by
    rw [collected, ← List.filter_append, List.take_append_drop]
  rcases within with full | ended
  · rw [front, ← full, List.take_left]
  · rw [front, List.drop_eq_nil_of_le (finished ended), List.filter_nil, List.append_nil,
      List.take_of_length_le bounded]

/-- Within its budget the first page is brought exactly when nothing on its way is refused. -/
theorem Inv.history_ok_iff (inv : Inv (SealedOnce store.header) log disk store)
    (positive : 0 < budget.maxResults ∧ 0 < budget.maxScanned ∧ 0 < budget.maxReadBytes)
    (within : WithinBudget budget (store.history disk filter budget none)) :
    (∃ page, store.history disk filter budget none = .ok page) ↔ Serviceable log store filter budget.maxResults := by
  constructor
  · intro success
    obtain ⟨page, done⟩ := success
    have events := inv.history_events positive within done
    have clock := history_clock inv positive done
    refine ⟨clock, ?_⟩
    intro block member before
    rw [done] at within
    rw [inv.history_first clock positive, Except.map_eq_ok] at done
    obtain ⟨reached, ends, rfl⟩ := done
    have outcome := inv.scan_outcome filter positive.1
    rw [ends] at outcome
    obtain ⟨-, collected, -, readable⟩ := outcome
    apply readable block member
    by_contra past
    rcases within with full | finished
    · have more := @filter_take_length_mono log.events filter.keeps _ _ (Nat.le_of_not_lt past)
      rw [← collected, full] at more
      omega
    · have inside := inv.blocks_consecutive.stop_le block member
      have size := List.length_pos_of_ne_nil (inv.blocks_consecutive.nonempty block member)
      have stops : ¬ reached.next < log.events.length := by
        intro before
        dsimp only at finished
        rw [if_pos before] at finished
        contradiction
      change block.first + block.records.length ≤ _ at inside
      omega
  · rintro ⟨clock, readable⟩
    cases done : store.history disk filter budget none with
    | ok page => exact ⟨page, rfl⟩
    | error error =>
        rw [done] at within
        rw [inv.history_first clock positive] at done
        have outcome := inv.scan_outcome filter positive.1
        cases ends : store.scanBlocks disk filter budget log.events.length log.events.length ⟨0, [], 0, 0⟩ with
        | ok reached =>
            rw [ends] at done
            contradiction
        | error error' =>
            rw [ends] at done outcome
            obtain rfl : error' = error := Except.error.inj done
            rcases outcome with ⟨bytes, count, same⟩ | ⟨block, member, refused, before⟩
            · exact absurd same (within bytes count)
            · exact absurd (readable block member before) refused

/-- A budget for all blocks of the log is not exceeded. -/
theorem Inv.withinBudget (inv : Inv (SealedOnce store.header) log disk store) (filter : HistoryFilter)
    (positive : 0 < budget.maxResults ∧ 0 < budget.maxScanned ∧ 0 < budget.maxReadBytes)
    (readable : ∀ block ∈ log.blocks, ((log.events.take block.first).filter filter.keeps).length < budget.maxResults →
      block.Readable store.header store.limits)
    (bytes : (log.blocks.map (Block.length store.header)).sum ≤ budget.maxReadBytes)
    (count : (log.blocks.map (·.records.length)).sum ≤ budget.maxScanned) :
    WithinBudget budget (store.history disk filter budget none) := by
  by_cases clock : OnKnownClock filter store
  · rw [inv.history_first clock positive]
    obtain ⟨reached, ends, finished⟩ := @scanBlocks_within _ log.events store disk filter budget log.blocks
      ⟨0, [], 0, 0⟩ 0 log.events.length inv.blocks_consecutive (inv.answers filter) readable (le_refl _)
      (Nat.zero_le _) inv.blocks_head rfl positive.1 (by rwa [Nat.zero_add]) (by rwa [Nat.zero_add]) (Nat.le_refl _)
    rw [ends]
    refine finished.imp id fun past => ?_
    exact if_neg (Nat.not_lt.mpr past)
  · cases done : store.history disk filter budget none with
    | ok page => exact absurd (history_clock inv positive done) clock
    | error error =>
        have usable : ¬store.poisoned = true := by
          rw [inv.tracks.usable]
          decide
        rw [Store.history, Except.refuseIf_bind usable, Except.refuseIf_bind (by omega)] at done
        intro bytes count same
        subst same
        rcases Except.bind_eq_error.mp done with refused | ⟨_, accepted, _⟩
        · unfold Store.checkCutoff at refused
          split at refused
          · rw [Except.refuseIf_error] at refused
            exact absurd refused.2 (by simp)
          · contradiction
        · exact clock (checkCutoff_ok.mp accepted)

end FirstPage

end Temnion.Storage
