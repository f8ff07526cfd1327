import Temnion.Storage.Invariant
import Temnion.Library.Sweep

/-
This file shows what a point read and a page of history return.
-/

namespace Temnion.Storage

open Format Index LittleEndian Batches Sweep

/-- The records carry the places at which they stand among the items. -/
def Placed (items : List StoredEvent) (first : Nat) (records : List StoredEvent) : Prop :=
  ∀ index record, records[index]? = some record →
    items[first + index]? = some record ∧ record.id.sequence.toNat = first + index

theorem Placed.tail {items records : List StoredEvent} {first : Nat} {record : StoredEvent}
    (placed : Placed items first (record :: records)) : Placed items (first + 1) records := by
  intro index other found
  obtain ⟨here, number⟩ := placed (index + 1) other (by simpa using found)
  rw [Nat.add_assoc, Nat.add_comm 1]
  exact ⟨here, number⟩

theorem Placed.head {items records : List StoredEvent} {first : Nat} {record : StoredEvent}
    (placed : Placed items first (record :: records)) :
    items[first]? = some record ∧ record.id.sequence.toNat = first := placed 0 record rfl

theorem placed_of_mem {header : WalHeader} {items : List StoredEvent} {first : Nat}
    {batch : List StoredEvent} {batches : List (List StoredEvent)} (numbered : Numbered header 0 items)
    (bound : items.length < 2 ^ 64) (member : (first, batch) ∈ starts 0 batches) (whole : batches.flatten = items) :
    Placed items first batch := by
  intro index record found
  have inside := (List.getElem?_eq_some_iff.mp found).1
  have here := getElem?_of_mem member inside
  rw [Nat.sub_zero, whole, found] at here
  refine ⟨here, ?_⟩
  have small := (List.getElem?_eq_some_iff.mp here).1
  rw [numbered _ record here, Nat.zero_add]
  exact toNat_ofNat (small.trans bound)

/-- A search that recognizes one place finds the item that stands there. -/
theorem Placed.find {items records : List StoredEvent} {first place : Nat} {wanted : StoredEvent → Bool}
    (placed : Placed items first records) (lower : first ≤ place) (upper : place < first + records.length)
    (decides : ∀ record ∈ records, wanted record = true ↔ record.id.sequence.toNat = place) :
    records.find? wanted = items[place]? := by
  induction records generalizing first with
  | nil =>
      rw [List.length_nil] at upper
      omega
  | cons record records ih =>
      obtain ⟨here, number⟩ := placed.head
      rw [List.find?_cons]
      by_cases same : first = place
      · subst same
        rw [(decides record List.mem_cons_self).mpr number, here]
      · have other : wanted record = false := by
          rw [← Bool.not_eq_true, decides record List.mem_cons_self, number]
          exact same
        rw [List.length_cons] at upper
        rw [other]
        exact ih placed.tail (by omega) (by omega) fun record member => decides record (List.mem_cons_of_mem _ member)

/-- What a scan over the records of one block ends with. -/
structure ScansRecords (filter : HistoryFilter) (items : List StoredEvent) (stop maxResults last : Nat)
    (scan reached : Store.Scan) : Prop where
  moves : Moves filter.keeps items stop (scan.next, scan.events) (reached.next, reached.events)
  full : reached.events.length = maxResults ∨ reached.next = min stop last
  within : reached.next ≤ min stop last
  scanned : reached.scanned = scan.scanned
  bytesRead : reached.bytesRead = scan.bytesRead
  room : scan.events.length < maxResults → reached.events.length ≤ maxResults

/-- The scan takes the records of a block one by one until the stop or until the page is full. -/
theorem scanRecords_scans {filter : HistoryFilter} {items records : List StoredEvent} {stop maxResults first : Nat}
    (scan : Store.Scan) (placed : Placed items first records) (start : first ≤ scan.next)
    (within : scan.next ≤ min stop (first + records.length)) :
    ScansRecords filter items stop maxResults (first + records.length) scan
      (Store.scanRecords filter stop maxResults records scan) := by
  induction records generalizing first scan with
  | nil =>
      rw [List.length_nil, Nat.add_zero] at within ⊢
      exact ⟨Moves.refl _, Or.inr (by simp only [Store.scanRecords]; omega), within, rfl, rfl, fun room => room.le⟩
  | cons record records ih =>
      obtain ⟨here, number⟩ := placed.head
      rw [List.length_cons, Nat.add_comm records.length, ← Nat.add_assoc] at within ⊢
      unfold Store.scanRecords
      rw [number]
      by_cases behind : first < scan.next
      · rw [if_pos behind]
        exact ih scan placed.tail behind within
      · obtain rfl : scan.next = first := by omega
        rw [if_neg behind]
        by_cases stopped : stop ≤ scan.next
        · rw [if_pos stopped]
          exact ⟨Moves.refl _, Or.inr (by omega), within, rfl, rfl, fun room => room.le⟩
        · rw [if_neg stopped]
          have move : Moves filter.keeps items stop (scan.next, scan.events)
              (scan.next + 1, scan.events ++ if filter.keeps record then [record] else []) :=
            Moves.take here (Nat.not_le.mp stopped)
          by_cases kept : filter.keeps record
          · rw [if_pos kept] at move ⊢
            dsimp only
            by_cases full : (scan.events ++ [record]).length = maxResults
            · rw [if_pos full]
              exact ⟨move, Or.inl full, by dsimp only; omega, rfl, rfl, fun _ => full.le⟩
            · rw [if_neg full]
              have rest := ih { scan with next := scan.next + 1, events := scan.events ++ [record] }
                placed.tail (le_refl _) (by dsimp only; omega)
              refine ⟨move.trans rest.moves, rest.full, rest.within, rest.scanned, rest.bytesRead, fun room => ?_⟩
              apply rest.room
              rw [List.length_append, List.length_singleton] at full ⊢
              omega
          · rw [if_neg kept, List.append_nil] at move
            rw [if_neg kept]
            have rest := ih { scan with next := scan.next + 1 } placed.tail (le_refl _)
              (by dsimp only; omega)
            exact ⟨move.trans rest.moves, rest.full, rest.within, rest.scanned, rest.bytesRead, rest.room⟩

/-- A scan that starts inside the block and before the stop moves on. -/
theorem scanRecords_forward {filter : HistoryFilter} {items records : List StoredEvent}
    {stop maxResults first : Nat} (scan : Store.Scan) (placed : Placed items first records)
    (start : first ≤ scan.next) (inside : scan.next < first + records.length) (before : scan.next < stop) :
    scan.next < (Store.scanRecords filter stop maxResults records scan).next := by
  induction records generalizing first with
  | nil =>
      rw [List.length_nil] at inside
      omega
  | cons record records ih =>
      obtain ⟨here, number⟩ := placed.head
      rw [List.length_cons, Nat.add_comm records.length, ← Nat.add_assoc] at inside
      unfold Store.scanRecords
      rw [number]
      by_cases behind : first < scan.next
      · rw [if_pos behind]
        exact ih placed.tail behind inside
      · obtain rfl : scan.next = first := by omega
        rw [if_neg behind, if_neg (Nat.not_le.mpr before)]
        split
        · dsimp only
          split
          · exact Nat.lt_succ_self _
          · exact (scanRecords_scans { scan with next := scan.next + 1, events := scan.events ++ [record] }
              placed.tail (le_refl _) (by dsimp only; omega)).moves.forward
        · exact (scanRecords_scans { scan with next := scan.next + 1 } placed.tail (le_refl _)
            (by dsimp only; omega)).moves.forward

/-- A summary covers every record that it was taken over. -/
theorem Summarizes.covers {summary : BlockSummary} {batch : List StoredEvent} {record : StoredEvent}
    (summarizes : Summarizes summary batch) (member : record ∈ batch) : summary.Covers record := by
  obtain ⟨index, offset, length, first, rest, rfl, rfl⟩ := summarizes
  have fold : ∀ (records : List StoredEvent) (summary : BlockSummary),
      record ∈ records ∨ summary.Covers record →
        (records.foldl (fun summary record => summary.update record.id.sequence record.entity record.schema
          record.times) summary).Covers record := by
    intro records
    induction records with
    | nil =>
        intro summary held
        exact held.resolve_left List.not_mem_nil
    | cons head records ih =>
        intro summary held
        apply ih
        rcases held with held | held
        · rcases List.mem_cons.mp held with rfl | held
          · exact Or.inr (BlockSummary.covers_update (Or.inl rfl))
          · exact Or.inl held
        · exact Or.inr (BlockSummary.covers_update (Or.inr held))
  apply fold
  rcases List.mem_cons.mp member with rfl | member
  · exact Or.inr (BlockSummary.covers_new _ _ _ _)
  · exact Or.inl member

/-- The zone of the known times lies on the clock of the first record. -/
theorem frameSummary_clock (index offset length : Nat) (first : StoredEvent) (rest : List StoredEvent) :
    (frameSummary index offset length first rest).knownTimeRange.clock = first.times.known.clock := by
  have fold : ∀ (records : List StoredEvent) (summary : BlockSummary),
      (records.foldl (fun summary record => summary.update record.id.sequence record.entity record.schema
        record.times) summary).knownTimeRange.clock = summary.knownTimeRange.clock := by
    intro records
    induction records with
    | nil => exact fun _ => rfl
    | cons head records ih =>
        intro summary
        rw [List.foldl_cons, ih]
        exact TimestampZoneMap.update_clock _ _
  exact fold rest _

/-- A block that its summary skips holds no record that the filter keeps. -/
theorem Summarizes.dropped {summary : BlockSummary} {batch : List StoredEvent} {filter : HistoryFilter}
    {header : WalHeader} {sequence : Nat} (summarizes : Summarizes summary batch)
    (accepted : Accepted header sequence none batch) (skipped : summary.matchesFilter filter = .skip) :
    ∀ record ∈ batch, filter.keeps record = false := by
  intro record member
  apply BlockSummary.keeps_of_skip (summarizes.covers member) _ skipped
  obtain ⟨index, offset, length, first, rest, rfl, rfl⟩ := summarizes
  rw [frameSummary_clock]
  rcases List.mem_cons.mp member with rfl | member
  · rfl
  · exact accepted.2.clock_eq member

/-- The batches from a position on cover what a scan has still to read before its stop. -/
structure Ahead (items : List StoredEvent) (stop position : Nat) (batches : List (List StoredEvent)) (next : Nat) :
    Prop where
  placed : ∀ first batch, (first, batch) ∈ starts position batches → Placed items first batch
  nonempty : ∀ batch ∈ batches, batch ≠ []
  inside : stop ≤ position + batches.flatten.length
  start : min stop position ≤ next
  head : ∀ batch ∈ batches.head?, next < position + batch.length ∨ stop ≤ next

section Ahead

variable {filter : HistoryFilter} {items batch : List StoredEvent} {stop position next : Nat}
  {batches : List (List StoredEvent)}

theorem Ahead.finished (ahead : Ahead items stop position [] next) : stop ≤ next := by
  have inside := ahead.inside
  have start := ahead.start
  rw [List.flatten_nil, List.length_nil, Nat.add_zero] at inside
  omega

theorem Ahead.within (ahead : Ahead items stop position (batch :: batches) next) (before : next < stop) :
    position ≤ next ∧ next < position + batch.length := by
  have start := ahead.start
  rcases ahead.head batch rfl with here | past <;> omega

/-- A scan that is through with a batch has the other batches ahead. -/
theorem Ahead.tail {reached : Nat} (ahead : Ahead items stop position (batch :: batches) next)
    (ends : reached = min stop (position + batch.length)) :
    Ahead items stop (position + batch.length) batches reached where
  placed := fun first other member => ahead.placed first other (List.mem_cons_of_mem _ member)
  nonempty := fun other member => ahead.nonempty other (List.mem_cons_of_mem _ member)
  inside := by
    have inside := ahead.inside
    rw [List.flatten_cons, List.length_append, ← Nat.add_assoc] at inside
    exact inside
  start := ends.ge
  head := by
    intro other first
    have size := List.length_pos_of_ne_nil
      (ahead.nonempty other (List.mem_cons_of_mem _ (List.mem_of_mem_head? first)))
    omega

theorem Ahead.leap (ahead : Ahead items stop position (batch :: batches) next) :
    Ahead items stop (position + batch.length) batches (position + batch.length) where
  placed := (ahead.tail rfl).placed
  nonempty := (ahead.tail rfl).nonempty
  inside := (ahead.tail rfl).inside
  start := Nat.min_le_right _ _
  head := by
    intro other first
    have size := List.length_pos_of_ne_nil ((ahead.tail rfl).nonempty other (List.mem_of_mem_head? first))
    omega

/-- Scanning the records of the next batch moves the scan on. -/
theorem Ahead.scanRecords {scan : Store.Scan} (ahead : Ahead items stop position (batch :: batches) scan.next)
    (before : scan.next < stop) (filter : HistoryFilter) (maxResults : Nat) :
    ScansRecords filter items stop maxResults (position + batch.length) scan
        (Store.scanRecords filter stop maxResults batch scan) ∧
      scan.next < (Store.scanRecords filter stop maxResults batch scan).next := by
  obtain ⟨start, here⟩ := ahead.within before
  have mine := ahead.placed position batch List.mem_cons_self
  exact ⟨scanRecords_scans scan mine start (by omega), scanRecords_forward scan mine start here before⟩

/-- A batch without kept records may be left out. -/
theorem Ahead.moves_leap {collected : List StoredEvent} (ahead : Ahead items stop position (batch :: batches) next)
    (before : next < stop) (dropped : ∀ record ∈ batch, filter.keeps record = false) :
    Moves filter.keeps items stop (next, collected) (position + batch.length, collected) := by
  obtain ⟨start, here⟩ := ahead.within before
  apply Moves.leap here.le
  intro place item lower upper found
  obtain ⟨index, rfl⟩ := Nat.exists_eq_add_of_le (start.trans lower)
  have inside : index < batch.length := by omega
  have stands := (ahead.placed position batch List.mem_cons_self index batch[index]
    (List.getElem?_eq_getElem inside)).1
  obtain rfl : batch[index] = item := Option.some.inj (stands.symm.trans found)
  exact dropped _ (List.getElem_mem inside)

end Ahead

/-- The cutoff of a filter lies on the clock that the handle knows, when it knows one. -/
def OnKnownClock (filter : HistoryFilter) (store : Store) : Prop :=
  ∀ cutoff last, filter.knownAsOf = some cutoff → store.lastKnown = some last → cutoff.clock = last.clock

theorem checkCutoff_ok {filter : HistoryFilter} {store : Store} : Store.checkCutoff filter store.lastKnown = .ok () ↔ OnKnownClock filter store := by
  unfold Store.checkCutoff OnKnownClock
  cases filter.knownAsOf with
  | none => simp [pure, Except.pure]
  | some cutoff =>
      cases store.lastKnown with
      | none => simp [pure, Except.pure]
      | some last =>
          rw [Except.refuseIf_ok, not_not]
          constructor
          · intro same other known one two
            cases one
            cases two
            exact same
          · exact fun agrees => agrees cutoff last rfl rfl

section Scan

/-- The scan over blocks that are given in a list instead of found by position. -/
def scanVisits (filter : HistoryFilter) (budget : StorageQueryBudget) (stop : Nat) :
    List Store.Visit → Store.Scan → Except StorageError Store.Scan
  | [], scan => .ok scan
  | visit :: visits, scan =>
      if scan.next < stop then
        match visit with
        | .skip next => scanVisits filter budget stop visits { scan with next := next }
        | .block records frameLength frameCount =>
            if budget.maxReadBytes < frameLength ∨ budget.maxScanned < frameCount then
              if scan.bytesRead ≠ 0 then .ok scan else .error (.budgetTooSmall frameLength frameCount)
            else if budget.maxReadBytes - scan.bytesRead < frameLength ∨
                budget.maxScanned - scan.scanned < frameCount then .ok scan
            else
              let reached := Store.scanRecords filter stop budget.maxResults records { scan with
                scanned := scan.scanned + records.length
                bytesRead := scan.bytesRead + frameLength }
              if reached.events.length = budget.maxResults then .ok reached
              else scanVisits filter budget stop visits reached
      else .ok scan

/-- What a visit may be for a batch: the whole batch, or a leap over a batch without kept records. -/
def Shows (filter : HistoryFilter) (place : Nat × List StoredEvent) : Store.Visit → Prop
  | .skip next => next = place.1 + place.2.length ∧ ∀ record ∈ place.2, filter.keeps record = false
  | .block records _ frameCount => records = place.2 ∧ frameCount = place.2.length

/-- A scan that ends well has collected what it moved over, and no more than the page holds. -/
theorem scanVisits_moves {filter : HistoryFilter} {budget : StorageQueryBudget} {items : List StoredEvent}
    {stop position : Nat} {batches : List (List StoredEvent)} {visits : List Store.Visit} {scan reached : Store.Scan}
    (shown : List.Forall₂ (Shows filter) (starts position batches) visits)
    (ahead : Ahead items stop position batches scan.next) (room : scan.events.length < budget.maxResults)
    (ends : scanVisits filter budget stop visits scan = .ok reached) :
    Moves filter.keeps items stop (scan.next, scan.events) (reached.next, reached.events) ∧
      reached.events.length ≤ budget.maxResults := by
  induction batches generalizing position visits scan with
  | nil =>
      cases shown
      rw [scanVisits, Except.ok.injEq] at ends
      subst ends
      exact ⟨Moves.refl _, room.le⟩
  | cons batch batches ih =>
      rw [starts_cons] at shown
      cases shown with
      | cons this rest =>
          next visit visits =>
          unfold scanVisits at ends
          dsimp only at ends
          by_cases before : scan.next < stop
          · rw [if_pos before] at ends
            cases visit with
            | skip next =>
                obtain ⟨rfl, dropped⟩ := this
                let leapt : Store.Scan := { scan with next := position + batch.length }
                have there : Ahead items stop (position + batch.length) batches leapt.next := ahead.leap
                have more : scanVisits filter budget stop visits leapt = .ok reached := ends
                obtain ⟨moves, bounded⟩ := ih rest there room more
                exact ⟨(ahead.moves_leap before dropped).trans moves, bounded⟩
            | block records frameLength frameCount =>
                obtain ⟨rfl, rfl⟩ := this
                dsimp only at ends
                split at ends
                · split at ends
                  · cases ends
                    exact ⟨Moves.refl _, room.le⟩
                  · contradiction
                · split at ends
                  · cases ends
                    exact ⟨Moves.refl _, room.le⟩
                  · let charged : Store.Scan := { scan with
                      scanned := scan.scanned + records.length, bytesRead := scan.bytesRead + frameLength }
                    have there : Ahead items stop position (records :: batches) charged.next := ahead
                    obtain ⟨scans, forward⟩ := there.scanRecords before filter budget.maxResults
                    have bounded := scans.room room
                    split at ends
                    · cases ends
                      exact ⟨scans.moves, bounded⟩
                    · next unfilled =>
                        obtain ⟨moves, still⟩ := ih rest (ahead.tail (scans.full.resolve_left unfilled))
                          (lt_of_le_of_ne bounded unfilled) ends
                        exact ⟨scans.moves.trans moves, still⟩
          · rw [if_neg before, Except.ok.injEq] at ends
            subst ends
            exact ⟨Moves.refl _, room.le⟩

/-- The budget admits the block of a batch that lies before the stop. -/
def Affords (budget : StorageQueryBudget) (stop : Nat) (place : Nat × List StoredEvent) : Store.Visit → Prop
  | .skip _ => True
  | .block _ frameLength frameCount =>
      place.1 < stop → frameLength ≤ budget.maxReadBytes ∧ frameCount ≤ budget.maxScanned

/-- A scan under a budget that admits every single block ends well. From a fresh start it moves on. -/
theorem scanVisits_ok {filter : HistoryFilter} {budget : StorageQueryBudget} {items : List StoredEvent}
    {stop position : Nat} {batches : List (List StoredEvent)} {visits : List Store.Visit} (scan : Store.Scan)
    (shown : List.Forall₂ (Shows filter) (starts position batches) visits)
    (afforded : List.Forall₂ (Affords budget stop) (starts position batches) visits)
    (ahead : Ahead items stop position batches scan.next) :
    ∃ reached, scanVisits filter budget stop visits scan = .ok reached ∧ scan.next ≤ reached.next ∧
      (scan.next < stop → scan.scanned = 0 → scan.bytesRead = 0 → scan.next < reached.next) := by
  induction batches generalizing position visits scan with
  | nil =>
      cases shown
      have finished := ahead.finished
      exact ⟨scan, rfl, le_refl _, fun before => absurd before (Nat.not_lt.mpr finished)⟩
  | cons batch batches ih =>
      rw [starts_cons] at shown afforded
      cases shown with
      | cons this rest =>
          next visit visits =>
          obtain ⟨affords, others⟩ := List.forall₂_cons.mp afforded
          unfold scanVisits
          dsimp only
          by_cases before : scan.next < stop
          · rw [if_pos before]
            obtain ⟨start, here⟩ := ahead.within before
            cases visit with
            | skip next =>
                obtain ⟨rfl, _⟩ := this
                let leapt : Store.Scan := { scan with next := position + batch.length }
                have there : Ahead items stop (position + batch.length) batches leapt.next := ahead.leap
                obtain ⟨reached, ends, forward, _⟩ := ih leapt rest others there
                exact ⟨reached, ends, here.le.trans forward, fun _ _ _ => here.trans_le forward⟩
            | block records frameLength frameCount =>
                obtain ⟨rfl, rfl⟩ := this
                obtain ⟨bytes, count⟩ : frameLength ≤ budget.maxReadBytes ∧ records.length ≤ budget.maxScanned :=
                  affords (start.trans_lt before)
                dsimp only
                rw [if_neg (not_or.mpr ⟨Nat.not_lt.mpr bytes, Nat.not_lt.mpr count⟩)]
                split
                · next spent =>
                    refine ⟨scan, rfl, le_refl _, fun _ fresh clean => ?_⟩
                    rw [fresh, clean] at spent
                    omega
                · let charged : Store.Scan := { scan with
                    scanned := scan.scanned + records.length, bytesRead := scan.bytesRead + frameLength }
                  have there : Ahead items stop position (records :: batches) charged.next := ahead
                  obtain ⟨scans, forward⟩ := there.scanRecords before filter budget.maxResults
                  split
                  · exact ⟨_, rfl, forward.le, fun _ _ _ => forward⟩
                  · next unfilled =>
                      obtain ⟨reached, ends, onward, _⟩ :=
                        ih _ rest others (ahead.tail (scans.full.resolve_left unfilled))
                      exact ⟨reached, ends, forward.le.trans onward, fun _ _ _ => forward.trans_le onward⟩
          · rw [if_neg before]
            exact ⟨scan, rfl, le_refl _, fun later => absurd later before⟩

end Scan

section Blocks

variable [Crc32fast] {log : Log} {disk : Disk} {store : Store} {filter : HistoryFilter}

/-- The store finds the visit at every sequence of the batch. -/
def Serves (store : Store) (disk : Disk) (filter : HistoryFilter) (place : Nat × List StoredEvent)
    (visit : Store.Visit) : Prop :=
  Shows filter place visit ∧
    ∀ next, place.1 ≤ next → next < place.1 + place.2.length → store.visit disk filter next = .ok visit

/-- The scan that finds its blocks by position is the scan over the list of the blocks ahead. -/
theorem scanBlocks_eq {budget : StorageQueryBudget}
    {items : List StoredEvent} {stop steps position : Nat} {batches : List (List StoredEvent)}
    {visits : List Store.Visit} {scan : Store.Scan}
    (served : List.Forall₂ (Serves store disk filter) (starts position batches) visits)
    (ahead : Ahead items stop position batches scan.next) (enough : stop - scan.next ≤ steps) :
    store.scanBlocks disk filter budget stop steps scan = scanVisits filter budget stop visits scan := by
  induction batches generalizing position visits scan steps with
  | nil =>
      cases served
      have finished := ahead.finished
      rw [scanVisits]
      cases steps with
      | zero =>
          rw [Store.scanBlocks, Except.refuseIf_bind (Nat.not_lt.mpr finished)]
          rfl
      | succ steps => rw [Store.scanBlocks, if_neg (Nat.not_lt.mpr finished)]
  | cons batch batches ih =>
      rw [starts_cons] at served
      cases served with
      | cons this rest =>
          next visit visits =>
          unfold scanVisits
          dsimp only
          by_cases before : scan.next < stop
          · obtain ⟨steps, rfl⟩ : ∃ fewer, steps = fewer + 1 := ⟨steps - 1, by omega⟩
            obtain ⟨start, here⟩ := ahead.within before
            rw [Store.scanBlocks, if_pos before, if_pos before, this.2 scan.next start here]
            cases visit with
            | skip next =>
                obtain ⟨rfl, _⟩ := this.1
                exact ih rest ahead.leap (by dsimp only; omega)
            | block records frameLength frameCount =>
                obtain ⟨rfl, rfl⟩ := this.1
                dsimp only [bind, Except.bind]
                split
                · rfl
                · split
                  · rfl
                  · let charged : Store.Scan := { scan with
                      scanned := scan.scanned + records.length, bytesRead := scan.bytesRead + frameLength }
                    have there : Ahead items stop position (records :: batches) charged.next := ahead
                    obtain ⟨scans, forward⟩ := there.scanRecords before filter budget.maxResults
                    split
                    · rfl
                    · next unfilled =>
                        have ends := scans.full.resolve_left unfilled
                        dsimp only [charged] at ends forward
                        exact ih rest (ahead.tail ends) (by omega)
          · rw [if_neg before]
            cases steps with
            | zero =>
                rw [Store.scanBlocks, Except.refuseIf_bind before]
                rfl
            | succ steps => rw [Store.scanBlocks, if_neg before]

/-- The invariant of a store whose segments were all sealed under its own limits. -/
abbrev Steady (log : Log) (disk : Disk) (store : Store) : Prop :=
  Inv (SegmentFits store.header store.limits) log disk store

/-- Every sequence of a retired batch leads to the segment of the batch. -/
theorem Inv.findSegment {admits : List StoredEvent → Prop} {first place : Nat} {batch : List StoredEvent}
    (inv : Inv admits log disk store)
    (member : (first, batch) ∈ starts 0 log.retired) (lower : first ≤ place) (upper : place < first + batch.length) :
    disk.manifest.bind (·.findSegmentForSequence (UInt64.ofNat place)) = some (batchMeta store.header first batch) ∧
      disk.segments.lookup (batchMeta store.header first batch).filename = some (sealedBytes store.header batch) ∧
      admits batch := by
  have bound := inv.valid.bound
  have listed : (first, batch) ∈ starts 0 log.batches := by
    rw [log.starts_batches]
    exact List.mem_append_left _ member
  obtain ⟨size, inside⟩ := inv.valid.place listed
  obtain ⟨manifest, present, entry⟩ := inv.stored.retired first batch member
  have covers : (batchMeta store.header first batch).covers (UInt64.ofNat place) :=
    (batchMeta_covers (by omega) size (by omega)).mpr ⟨lower, upper⟩
  obtain ⟨found, search⟩ : ∃ found, manifest.findSegmentForSequence (UInt64.ofNat place) = some found := by
    apply Option.isSome_iff_exists.mp
    exact List.find?_isSome.mpr ⟨_, entry, covers⟩
  have hit := List.find?_some search
  obtain ⟨start, other, member', rfl, file⟩ :=
    inv.stored.registered manifest present found (List.mem_of_find?_eq_some search)
  obtain ⟨size', inside'⟩ := inv.valid.place member'
  obtain ⟨lower', upper'⟩ := (batchMeta_covers (by omega) size' (by omega)).mp hit
  obtain ⟨rfl, rfl⟩ := eq_of_mem_of_position listed lower upper member' lower' upper'
  refine ⟨by rw [present]; exact search, file, ?_⟩
  obtain ⟨again, member'', ends, _, admitted⟩ :=
    inv.stored.published first (first + batch.length - 1) _ (by omega) (by omega) file
  obtain ⟨_, rfl⟩ := eq_of_mem_of_position listed (le_refl _) (by omega) member'' (le_refl _) (by omega)
  exact admitted

theorem Steady.findSegment {first place : Nat} {batch : List StoredEvent} (steady : Steady log disk store)
    (member : (first, batch) ∈ starts 0 log.retired) (lower : first ≤ place) (upper : place < first + batch.length) :
    disk.manifest.bind (·.findSegmentForSequence (UInt64.ofNat place)) = some (batchMeta store.header first batch) ∧
      disk.segments.lookup (batchMeta store.header first batch).filename = some (sealedBytes store.header batch) ∧
      SegmentFits store.header store.limits batch := Inv.findSegment steady member lower upper

theorem readBoundedFile_sealedBytes {header : WalHeader} {limits : Limits} {batch : List StoredEvent}
    (fits : SegmentFits header limits batch) :
    readBoundedFile (some (sealedBytes header batch)) limits.maxSegmentBytes = .ok (sealedBytes header batch) := by
  rw [readBoundedFile_ok]
  refine ⟨rfl, ?_⟩
  rw [sealedBytes, segmentBytes_length]
  exact fits.room

theorem decodeSegment_sealedBytes {header : WalHeader} {limits : Limits} {batch : List StoredEvent}
    (fits : SegmentFits header limits batch) :
    asStorage (decodeSegment (sealedBytes header batch) limits) = .ok ⟨header, batch⟩ :=
  asStorage_ok.mpr (decodeSegment_segmentBytes fits)

/-- The manifest entry tells the length of the segment. -/
theorem batchMeta_byteLength {header : WalHeader} {limits : Limits} {first : Nat} {batch : List StoredEvent}
    (fits : SegmentFits header limits batch) :
    (batchMeta header first batch).byteLength.toNat = (sealedBytes header batch).length := by
  apply toNat_ofNat
  have word := fits.batch.lengthWord
  rw [sealedBytes, segmentBytes_length]
  simp only [segmentHeaderLen, segmentFooterLen]
  omega

/-- A retired batch is read from its segment, when the segment fits the limits of the handle. -/
theorem Inv.visit_retired {admits : List StoredEvent → Prop} {first place : Nat} {batch : List StoredEvent}
    (inv : Inv admits log disk store) (member : (first, batch) ∈ starts 0 log.retired) (lower : first ≤ place)
    (upper : place < first + batch.length) (fits : SegmentFits store.header store.limits batch) :
    store.visit disk filter place = .ok (.block batch (sealedBytes store.header batch).length batch.length) := by
  obtain ⟨search, file, -⟩ := inv.findSegment member lower upper
  have below : place < log.retiredCount := by
    have inside := (bounds_of_mem member).2
    rw [Nat.zero_add] at inside
    exact upper.trans_le inside
  unfold Store.visit
  rw [inv.frameIndexForSequence_retired below]
  unfold Store.visitSegment
  rw [search]
  dsimp only
  rw [file, readBoundedFile_sealedBytes fits]
  change (do
    let segment ← asStorage (decodeSegment (sealedBytes store.header batch) store.limits)
    return Store.Visit.block segment.records (batchMeta store.header first batch).byteLength.toNat
      segment.records.length) = _
  rw [decodeSegment_sealedBytes fits, batchMeta_byteLength fits]
  rfl

theorem Steady.visit_retired {first place : Nat} {batch : List StoredEvent} (steady : Steady log disk store)
    (member : (first, batch) ∈ starts 0 log.retired) (lower : first ≤ place) (upper : place < first + batch.length) :
    store.visit disk filter place = .ok (.block batch (sealedBytes store.header batch).length batch.length) :=
  Inv.visit_retired steady member lower upper (steady.findSegment member lower upper).2.2

/-- What the scan visits for a retired batch. -/
def retiredVisit (header : WalHeader) (place : Nat × List StoredEvent) : Store.Visit :=
  .block place.2 (sealedBytes header place.2).length place.2.length

/-- What the scan visits for a live batch. -/
def liveVisit (filter : HistoryFilter) (summary : BlockSummary) (place : Nat × List StoredEvent) : Store.Visit :=
  if summary.matchesFilter filter = .skip then .skip (place.1 + place.2.length)
  else .block place.2 (batchBytes place.2).length place.2.length

/-- What the scan visits on its way through the whole log. -/
def visits (store : Store) (filter : HistoryFilter) (log : Log) : List Store.Visit :=
  (starts 0 log.retired).map (retiredVisit store.header) ++
    List.zipWith (liveVisit filter) store.summaries (starts log.retiredCount log.live)

/-- A live batch is read from its frame, unless its summary rules it out. -/
theorem Inv.visit_live {admits : List StoredEvent → Prop} {place : Nat} {batch : List StoredEvent}
    {before after : List (List StoredEvent)} {summary : BlockSummary} (inv : Inv admits log disk store)
    (split : log.live = before ++ batch :: after) (summarized : store.summaries[before.length]? = some summary)
    (lower : log.retiredCount + before.flatten.length ≤ place)
    (upper : place < log.retiredCount + before.flatten.length + batch.length) :
    store.visit disk filter place =
      .ok (liveVisit filter summary (log.retiredCount + before.flatten.length, batch)) := by
  unfold Store.visit liveVisit
  rw [inv.frameIndexForSequence_live split lower upper, inv.frameForSequence_live split lower upper]
  dsimp only
  rw [summarized, Option.any_some, inv.readIndexedFrame_ok split]
  by_cases skipped : summary.matchesFilter filter = .skip
  · rw [if_pos (decide_eq_true skipped), if_pos skipped]
  · rw [if_neg (by simpa using skipped), if_neg skipped]
    rfl

/-- Every batch of the log is served by its visit. -/
theorem Steady.serves (steady : Steady log disk store) (filter : HistoryFilter) :
    List.Forall₂ (Serves store disk filter) (starts 0 log.batches) (visits store filter log) := by
  rw [log.starts_batches, visits]
  apply List.rel_append
  · rw [List.forall₂_map_right_iff, List.forall₂_same]
    intro place member
    exact ⟨⟨rfl, rfl⟩, fun next lower upper => steady.visit_retired member lower upper⟩
  · have live : ∀ (rest before : List (List StoredEvent)) (summaries earlier : List BlockSummary),
        log.live = before ++ rest → store.summaries = earlier ++ summaries → earlier.length = before.length →
        List.Forall₂ Summarizes summaries rest →
        List.Forall₂ (Serves store disk filter) (starts (log.retiredCount + before.flatten.length) rest)
          (List.zipWith (liveVisit filter) summaries (starts (log.retiredCount + before.flatten.length) rest)) := by
      intro rest
      induction rest with
      | nil =>
          intro before summaries earlier _ _ _ summarized
          cases summarized
          exact List.Forall₂.nil
      | cons batch rest ih =>
          intro before summaries earlier split taken aligned summarized
          cases summarized with
          | cons this others =>
              next summary summaries =>
              rw [starts_cons, List.zipWith_cons_cons]
              refine List.Forall₂.cons ⟨?_, ?_⟩ ?_
              · unfold liveVisit
                split
                · next skipped => exact ⟨rfl, this.dropped (steady.batch_accepted split) skipped⟩
                · exact ⟨rfl, rfl⟩
              · intro next lower upper
                apply steady.visit_live split _ lower upper
                rw [taken, ← aligned, List.getElem?_append_right (le_refl _), Nat.sub_self]
                rfl
              · have more := ih (before ++ [batch]) summaries (earlier ++ [summary]) (by simp [split])
                  (by simp [taken]) (by simp [aligned]) others
                rw [List.flatten_append, List.length_append, List.flatten_singleton, ← Nat.add_assoc] at more
                exact more
    exact live log.live [] store.summaries [] rfl rfl rfl steady.tracks.summaries

end Blocks

/-- A list is related to its combination with another list as its elements are. -/
theorem forall₂_zipWith {A B C : Type} {relation : A → C → Prop} {combine : B → A → C} {others : List B}
    {items : List A} (lengths : others.length = items.length)
    (holds : ∀ other item, item ∈ items → relation item (combine other item)) :
    List.Forall₂ relation items (List.zipWith combine others items) := by
  induction items generalizing others with
  | nil => rw [List.zipWith_nil_right]; exact List.Forall₂.nil
  | cons item items ih =>
      cases others with
      | nil => simp at lengths
      | cons other others =>
          rw [List.zipWith_cons_cons]
          exact List.Forall₂.cons (holds other item List.mem_cons_self)
            (ih (by simpa using lengths) fun other item member => holds other item (List.mem_cons_of_mem _ member))

section Get

variable [Crc32fast] {log : Log} {disk : Disk} {store : Store}

theorem Steady.placed {first : Nat} {batch : List StoredEvent} (steady : Steady log disk store)
    (member : (first, batch) ∈ starts 0 log.batches) : Placed log.events first batch :=
  placed_of_mem steady.valid.numbered steady.valid.bound member rfl

/-- Within one batch the whole identity says as much as the sequence. -/
theorem Steady.sameId {first place : Nat} {batch : List StoredEvent} {record event : StoredEvent}
    (steady : Steady log disk store) (member : (first, batch) ∈ starts 0 log.batches)
    (found : log.events[place]? = some event) (inside : record ∈ batch) :
    record.id = event.id ↔ record.id.sequence.toNat = place := by
  have small := (List.getElem?_eq_some_iff.mp found).1.trans steady.valid.bound
  have identity := steady.valid.numbered place event found
  rw [Nat.zero_add] at identity
  obtain ⟨index, bound, rfl⟩ := List.getElem_of_mem inside
  obtain ⟨here, number⟩ := steady.placed member index _ (List.getElem?_eq_getElem bound)
  constructor
  · intro same
    rw [same, identity]
    exact toNat_ofNat small
  · intro same
    obtain rfl : first + index = place := number.symm.trans same
    rw [Option.some.inj (here.symm.trans found)]

/-- Every event of the log reads back under its identity. -/
theorem Steady.get (steady : Steady log disk store) {place : Nat} {event : StoredEvent}
    (found : log.events[place]? = some event) : store.get disk event.id = .ok event := by
  have inside := (List.getElem?_eq_some_iff.mp found).1
  have small := inside.trans steady.valid.bound
  have identity := steady.valid.numbered place event found
  rw [Nat.zero_add] at identity
  have sequence : event.id.sequence.toNat = place := by
    rw [identity]
    exact toNat_ofNat small
  have usable : ¬store.poisoned = true := by
    rw [steady.tracks.usable]
    decide
  have known : ¬(event.id.source ≠ store.header.source ∨ event.id.epoch ≠ store.header.epoch ∨
      store.nextSequence ≤ event.id.sequence.toNat) := by
    rw [sequence, identity, steady.tracks.nextSequence]
    simpa using inside
  unfold Store.get
  rw [Except.refuseIf_bind usable, Except.refuseIf_bind known, sequence]
  by_cases gone : place < log.retiredCount
  · obtain ⟨first, batch, member, lower, upper⟩ :=
      exists_mem_of_position (Nat.zero_le place) (by rw [Nat.zero_add]; exact gone)
    have listed : (first, batch) ∈ starts 0 log.batches := by
      rw [log.starts_batches]
      exact List.mem_append_left _ member
    obtain ⟨search, file, fits⟩ := steady.findSegment member lower upper
    have numberOf : event.id.sequence = UInt64.ofNat place := by rw [identity]
    have hit : batch.find? (·.id.sequence = UInt64.ofNat place) = some event := by
      rw [← found]
      apply (steady.placed listed).find lower upper
      intro record inBatch
      rw [decide_eq_true_eq, ← steady.sameId listed found inBatch, ← numberOf]
      constructor
      · intro same
        exact (steady.sameId listed found inBatch).mpr (by rw [same, sequence])
      · exact fun same => by rw [same]
    have read : store.readEventFromSegment disk (UInt64.ofNat place) = .ok (some event) := by
      unfold Store.readEventFromSegment
      rw [search]
      dsimp only
      rw [file]
      dsimp only
      rw [readBoundedFile_sealedBytes fits, Except.ok_bind, decodeSegment_sealedBytes fits, Except.ok_bind, hit]
      rfl
    rw [steady.frameForSequence_retired gone, numberOf]
    dsimp only
    rw [read, Except.ok_bind, Option.filter_some, if_pos (decide_eq_true rfl)]
    rfl
  · rw [log.events_length] at inside
    obtain ⟨before, batch, after, split, lower, upper⟩ :=
      exists_split_of_position (Nat.not_lt.mp gone) inside
    have listed : (log.retiredCount + before.flatten.length, batch) ∈ starts 0 log.batches := by
      rw [log.starts_batches, split]
      exact List.mem_append_right _ (mem_starts_of_append _ _ _ _)
    have hit : batch.find? (·.id = event.id) = some event := by
      rw [← found]
      apply (steady.placed listed).find lower upper
      intro record inBatch
      rw [decide_eq_true_eq]
      exact steady.sameId listed found inBatch
    rw [steady.frameForSequence_live split lower upper]
    dsimp only
    rw [steady.readIndexedFrame_ok split, Except.ok_bind, hit]
    rfl

end Get

section Page

variable [Crc32fast] {log : Log} {disk : Disk} {store : Store} {filter : HistoryFilter}
  {budget : StorageQueryBudget} {next stop : Nat}

/-- The scan of a window runs over the visits from some batch on. -/
theorem Steady.scan (steady : Steady log disk store) (filter : HistoryFilter) (budget : StorageQueryBudget)
    (next : Nat) (inside : stop ≤ log.events.length) :
    ∃ before batches, log.batches = before ++ batches ∧
      Ahead log.events stop before.flatten.length batches next ∧
      store.scanBlocks disk filter budget stop (stop - next) ⟨next, [], 0, 0⟩ =
        scanVisits filter budget stop ((visits store filter log).drop before.length) ⟨next, [], 0, 0⟩ := by
  obtain ⟨before, batches, split, start, head⟩ : ∃ before batches, log.batches = before ++ batches ∧
      min stop before.flatten.length ≤ next ∧
      ∀ batch ∈ batches.head?, next < before.flatten.length + batch.length ∨ stop ≤ next := by
    by_cases ahead : next < stop
    · obtain ⟨before, batch, after, split, lower, upper⟩ :=
        exists_split_of_position (Nat.zero_le next) (by rw [Nat.zero_add]; exact ahead.trans_le inside)
      rw [Nat.zero_add] at lower upper
      refine ⟨before, batch :: after, split, by omega, ?_⟩
      intro other first
      cases first
      exact Or.inl upper
    · exact ⟨log.batches, [], (List.append_nil _).symm, by omega, fun batch absent => by simp at absent⟩
  have ahead : Ahead log.events stop before.flatten.length batches next := by
    refine ⟨?_, ?_, ?_, start, head⟩
    · intro first batch member
      apply steady.placed
      rw [split, starts_append, Nat.zero_add]
      exact List.mem_append_right _ member
    · intro batch member
      apply steady.valid.nonempty batch
      rw [split]
      exact List.mem_append_right _ member
    · rw [Log.events, split, List.flatten_append, List.length_append] at inside
      exact inside
  refine ⟨before, batches, split, ahead, ?_⟩
  have served := List.forall₂_drop before.length (steady.serves filter)
  rw [split, starts_append, Nat.zero_add, ← length_starts 0 before, List.drop_left, length_starts] at served
  exact scanBlocks_eq served ahead (le_refl _)

/-- The budget admits every frame and every sealed segment that starts before the stop. -/
structure AdmitsBlocks (budget : StorageQueryBudget) (stop : Nat) (disk : Disk) (store : Store) : Prop where
  frames : ∀ frame ∈ store.frames, frame.first < stop →
    frame.length ≤ budget.maxReadBytes ∧ frame.count ≤ budget.maxScanned
  segments : ∀ manifest, disk.manifest = some manifest → ∀ entry ∈ manifest.sealedSegments,
    entry.firstSequence.toNat < stop → entry.byteLength.toNat ≤ budget.maxReadBytes ∧
      entry.lastSequence.toNat + 1 - entry.firstSequence.toNat ≤ budget.maxScanned

/-- A budget that admits every file block admits every visit. -/
theorem Steady.affords (steady : Steady log disk store) (filter : HistoryFilter)
    (admits : AdmitsBlocks budget stop disk store) :
    List.Forall₂ (Affords budget stop) (starts 0 log.batches) (visits store filter log) := by
  rw [log.starts_batches, visits]
  apply List.rel_append
  · rw [List.forall₂_map_right_iff, List.forall₂_same]
    intro place member before
    obtain ⟨first, batch⟩ := place
    have listed : (first, batch) ∈ starts 0 log.batches := by
      rw [log.starts_batches]
      exact List.mem_append_left _ member
    have bound := steady.valid.bound
    obtain ⟨size, inside⟩ := steady.valid.place listed
    obtain ⟨manifest, present, entry⟩ := steady.stored.retired first batch member
    have fits := (steady.findSegment member (le_refl _) (by omega)).2.2
    have small : first < 2 ^ 64 ∧ first + batch.length - 1 < 2 ^ 64 := by omega
    have start : (batchMeta store.header first batch).firstSequence.toNat = first := toNat_ofNat small.1
    have ends : (batchMeta store.header first batch).lastSequence.toNat = first + batch.length - 1 :=
      toNat_ofNat small.2
    have admitted := admits.segments manifest present _ entry (by rw [start]; exact before)
    rw [start, ends, batchMeta_byteLength fits] at admitted
    exact ⟨admitted.1, by dsimp only; omega⟩
  · apply forall₂_zipWith
    · rw [length_starts]
      exact steady.tracks.summaries.length_eq
    · intro summary place member
      unfold liveVisit
      split
      · trivial
      · intro before
        obtain ⟨frame, listed, first, count, length⟩ := exists_frame_of_mem_starts walHeaderLen member
        rw [← steady.tracks.frames] at listed
        have admitted := admits.frames frame listed (by rw [first]; exact before)
        rw [count, length] at admitted
        exact admitted

/-- A page of history accounts for the kept events of its window and leaves a cursor for the others. -/
theorem Steady.history_page (steady : Steady log disk store) (clock : OnKnownClock filter store)
    (positive : 0 < budget.maxResults ∧ 0 < budget.maxScanned ∧ 0 < budget.maxReadBytes)
    {cursor : Option StorageCursor} (window : store.window filter cursor = .ok (next, stop))
    (inside : stop ≤ log.events.length) (admits : AdmitsBlocks budget stop disk store) :
    ∃ page reached, store.history disk filter budget cursor = .ok page ∧
      page.events ++ pending filter.keeps log.events stop reached = pending filter.keeps log.events stop next ∧
      page.continuation = (if reached < stop then some (store.cursorAt filter reached stop) else none) ∧
      next ≤ reached ∧ (next < stop → next < reached) := by
  obtain ⟨before, batches, split, ahead, scan⟩ := steady.scan filter budget next inside
  have served := List.forall₂_drop before.length (steady.serves filter)
  have afforded := List.forall₂_drop before.length (steady.affords filter admits)
  rw [split, starts_append, Nat.zero_add, ← length_starts 0 before, List.drop_left, length_starts] at served afforded
  have shown := served.imp fun _ _ serves => serves.1
  obtain ⟨reached, ends, forward, onward⟩ := scanVisits_ok ⟨next, [], 0, 0⟩ shown afforded ahead
  have room : (Store.Scan.mk next [] 0 0).events.length < budget.maxResults := positive.1
  obtain ⟨moves, _⟩ := scanVisits_moves shown ahead room ends
  let page : StoragePage := {
    events := reached.events
    scanned := reached.scanned
    bytesRead := reached.bytesRead
    continuation := if reached.next < stop then some (store.cursorAt filter reached.next stop) else none }
  refine ⟨page, reached.next, ?_, moves.account, rfl, forward, fun unread => onward unread rfl rfl⟩
  unfold Store.history
  have usable : ¬store.poisoned = true := by
    rw [steady.tracks.usable]
    decide
  rw [Except.refuseIf_bind usable, Except.refuseIf_bind (by omega), checkCutoff_ok.mpr clock, window]
  change (store.scanBlocks disk filter budget stop (stop - next) ⟨next, [], 0, 0⟩ >>= _) = _
  rw [scan, ends]
  rfl

end Page

end Temnion.Storage
