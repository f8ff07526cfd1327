import Temnion.Events.Log
import Temnion.Library.Sweep

/-
This file follows the cursors of the volatile log from page to page while it grows.
-/

namespace Temnion

/-- The scan passes an event that a clause of the filter drops. -/
def HistoryFilter.selects (filter : HistoryFilter) (entity : EntityId) (times : EventTimes) : Bool :=
  if filter.entity.any (· != entity) then false
  else if filter.knownAsOf.any fun cutoff => decide (cutoff.ticks < times.known.ticks) then false
  else if filter.time.any fun (axis, range) => !(times.on axis).any range.contains then false
  else true

namespace Events

open Sweep

structure QueryBudget where
  maxResults : Nat
  maxScanned : Nat
  deriving DecidableEq, Repr

/-- The cursor is pinned to the events that were there when the first page was read. -/
structure HistoryCursor where
  source : SourceId
  epoch : SourceEpoch
  snapshotLen : Nat
  nextOffset : Nat
  filter : HistoryFilter
  deriving DecidableEq

structure HistoryPage (T : Type) where
  events : List (Event T)
  scanned : Nat
  continuation : Option HistoryCursor

/-- The position of the scan, the number of scanned events and the events it has kept. -/
structure Scan (T : Type) where
  offset : Nat
  scanned : Nat
  events : List (Event T)

variable {T : Type}

def Event.selectedBy (filter : HistoryFilter) (event : Event T) : Bool := filter.selects event.entity event.times

namespace EventLog

/-- A cutoff lies on the known clock of the first event, when there is one. -/
def checkCutoff (log : EventLog T) (filter : HistoryFilter) : Except EventError Unit :=
  match filter.knownAsOf, log.events.head? with
  | some cutoff, some first =>
      refuseIf (cutoff.clock ≠ first.times.known.clock) (.knownClockMismatch first.times.known.clock cutoff.clock)
  | _, _ => .ok ()

/-- The length of the snapshot and the position in it. -/
def window (log : EventLog T) (filter : HistoryFilter) : Option HistoryCursor → Except EventError (Nat × Nat)
  | some cursor => do
      refuseIf (cursor.source ≠ log.source ∨ cursor.epoch ≠ log.epoch ∨ cursor.filter ≠ filter ∨
        log.events.length < cursor.snapshotLen ∨ cursor.snapshotLen < cursor.nextOffset) .invalidCursor
      return (cursor.snapshotLen, cursor.nextOffset)
  | none => .ok (log.events.length, 0)

/-- The loop over the events from the position to the end of the snapshot. -/
def scan (filter : HistoryFilter) (budget : QueryBudget) : List (Event T) → Scan T → Scan T
  | [], state => state
  | event :: rest, state =>
      if state.scanned < budget.maxScanned ∧ state.events.length < budget.maxResults then
        scan filter budget rest ⟨state.offset + 1, state.scanned + 1,
          state.events ++ if Event.selectedBy filter event then [event] else []⟩
      else state

def cursorAt (log : EventLog T) (filter : HistoryFilter) (offset snapshotLen : Nat) : HistoryCursor :=
  ⟨log.source, log.epoch, snapshotLen, offset, filter⟩

def history (log : EventLog T) (filter : HistoryFilter) (budget : QueryBudget) (cursor : Option HistoryCursor) :
    Except EventError (HistoryPage T) := do
  refuseIf (budget.maxResults = 0 ∨ budget.maxScanned = 0) .invalidBudget
  log.checkCutoff filter
  let (snapshotLen, offset) ← log.window filter cursor
  let reached := scan filter budget ((log.events.take snapshotLen).drop offset) ⟨offset, 0, []⟩
  return ⟨reached.events, reached.scanned,
    if reached.offset < snapshotLen then some (log.cursorAt filter reached.offset snapshotLen) else none⟩

section Scanning

variable {filter : HistoryFilter} {budget : QueryBudget} {items rest : List (Event T)} {stop : Nat}

/-- The scan accounts for the kept events of the snapshot and stays within the budget. -/
theorem scan_moves (state : Scan T) (ahead : (items.take stop).drop state.offset = rest)
    (results : state.events.length ≤ budget.maxResults) (scanned : state.scanned ≤ budget.maxScanned) :
    Moves (Event.selectedBy filter) items stop (state.offset, state.events)
      ((scan filter budget rest state).offset, (scan filter budget rest state).events) ∧
    (scan filter budget rest state).events.length ≤ budget.maxResults ∧
    (scan filter budget rest state).scanned ≤ budget.maxScanned := by
  induction rest generalizing state with
  | nil => exact ⟨Moves.refl _, results, scanned⟩
  | cons event rest hypothesis =>
      rw [scan]
      split
      · rename_i room
        have inside : state.offset < (items.take stop).length := by
          apply Nat.lt_of_not_le
          intro outside
          rw [List.drop_eq_nil_of_le outside] at ahead
          exact absurd ahead.symm (List.cons_ne_nil _ _)
        have before : state.offset < stop := inside.trans_le (List.length_take_le _ _)
        have split := ahead
        rw [List.drop_eq_getElem_cons inside, List.cons.injEq] at split
        have here : items[state.offset]? = some event := by
          rw [← List.getElem?_take_of_lt before, List.getElem?_eq_getElem inside, split.1]
        have more : (state.events ++ if Event.selectedBy filter event then [event] else []).length ≤
            budget.maxResults := by
          rw [List.length_append]
          split
          · exact room.2
          · exact results
        obtain ⟨moves, within⟩ := hypothesis
          ⟨state.offset + 1, state.scanned + 1, state.events ++ if Event.selectedBy filter event then [event] else []⟩
          split.2 more room.1
        exact ⟨(Moves.take here before).trans moves, within⟩
      · exact ⟨Moves.refl _, results, scanned⟩

theorem scan_forward (state : Scan T) (rest : List (Event T)) : state.offset ≤ (scan filter budget rest state).offset := by
  induction rest generalizing state with
  | nil => exact Nat.le_refl _
  | cons event rest hypothesis =>
      rw [scan]
      split
      · refine le_trans ?_ (hypothesis _)
        exact Nat.le_succ _
      · exact Nat.le_refl _

end Scanning

section Paging

variable {log : EventLog T} {filter : HistoryFilter} {budget : QueryBudget} {stop next : Nat}

/-- The cutoff lies on the known clock of the log. -/
def OnKnownClock (filter : HistoryFilter) (log : EventLog T) : Prop :=
  ∀ cutoff first, filter.knownAsOf = some cutoff → log.events.head? = some first →
    cutoff.clock = first.times.known.clock

theorem checkCutoff_ok : log.checkCutoff filter = .ok () ↔ OnKnownClock filter log := by
  unfold checkCutoff OnKnownClock
  cases filter.knownAsOf with
  | none => exact iff_of_true rfl fun _ _ absent => nomatch absent
  | some cutoff =>
      cases log.events.head? with
      | none => exact iff_of_true rfl fun _ _ _ absent => nomatch absent
      | some first =>
          dsimp only
          rw [Except.refuseIf_ok, not_not]
          constructor
          · intro same other head asked found
            obtain rfl := Option.some.inj asked
            obtain rfl := Option.some.inj found
            exact same
          · exact fun all => all cutoff first rfl rfl

/-- A page holds the kept events up to where its cursor continues, and it takes a step. -/
theorem history_page {cursor : Option HistoryCursor} (clock : OnKnownClock filter log)
    (positive : 0 < budget.maxResults ∧ 0 < budget.maxScanned) (window : log.window filter cursor = .ok (stop, next))
    (inside : stop ≤ log.events.length) :
    ∃ page reached, log.history filter budget cursor = .ok page ∧
      page.events ++ pending (Event.selectedBy filter) log.events stop reached =
        pending (Event.selectedBy filter) log.events stop next ∧
      page.continuation = (if reached < stop then some (log.cursorAt filter reached stop) else none) ∧
      next ≤ reached ∧ (next < stop → next < reached) ∧
      page.events.length ≤ budget.maxResults ∧ page.scanned ≤ budget.maxScanned := by
  obtain ⟨moves, results, scanned⟩ := @scan_moves T filter budget log.events _ stop ⟨next, 0, []⟩ rfl
    (Nat.zero_le _) (Nat.zero_le _)
  have forward := @scan_forward T filter budget ⟨next, 0, []⟩ ((log.events.take stop).drop next)
  have onward : next < stop →
      next < (scan filter budget ((log.events.take stop).drop next) ⟨next, 0, []⟩).offset := by
    intro before
    have more : next < (log.events.take stop).length := by
      rw [List.length_take]
      omega
    rw [List.drop_eq_getElem_cons more, scan, if_pos ⟨positive.2, positive.1⟩]
    refine lt_of_lt_of_le ?_ (scan_forward _ _)
    exact Nat.lt_succ_self next
  dsimp only at moves results scanned forward
  obtain ⟨reached, scans⟩ : ∃ reached, scan filter budget ((log.events.take stop).drop next) ⟨next, 0, []⟩ = reached :=
    ⟨_, rfl⟩
  rw [scans] at moves results scanned forward onward
  refine ⟨⟨reached.events, reached.scanned, if reached.offset < stop then some (log.cursorAt filter reached.offset stop)
    else none⟩, reached.offset, ?_, moves.account, rfl, forward, onward, results, scanned⟩
  unfold history
  rw [Except.refuseIf_bind (by omega), checkCutoff_ok.mpr clock, Except.ok_bind, window, Except.ok_bind]
  dsimp only
  rw [scans]
  rfl

/-- Asks for page after page until no cursor is left. The commands of each round run after its page. Nothing is returned
when the pages run out before the cursors do. -/
def follow (filter : HistoryFilter) (budgets : Nat → QueryBudget) (between : Nat → List (Command T)) :
    Nat → Nat → EventLog T → Option HistoryCursor → Option (Except EventError (List (Event T)))
  | 0, _, _, _ => none
  | pages + 1, round, log, cursor =>
      match log.history filter (budgets round) cursor with
      | .error error => some (.error error)
      | .ok page =>
          match page.continuation with
          | none => some (.ok page.events)
          | some next =>
              (follow filter budgets between pages (round + 1) (log.run (between round)) (some next)).map
                fun rest => rest.map (page.events ++ ·)

/-- A cursor into the log stays valid while the log grows. -/
theorem Extends.window {later : EventLog T} (extended : log.Extends later) (inside : stop ≤ log.events.length)
    (before : next ≤ stop) : later.window filter (some (log.cursorAt filter next stop)) = .ok (stop, next) := by
  have longer := extended.events.length_le
  unfold EventLog.window cursorAt
  dsimp only
  rw [extended.identity.1, extended.identity.2.1, Except.refuseIf_bind]
  · rfl
  · simp only [ne_eq, not_true_eq_false, false_or, not_or, Nat.not_lt]
    exact ⟨inside.trans longer, before⟩

theorem Extends.onKnownClock {later : EventLog T} (extended : log.Extends later) (some' : log.events ≠ [])
    (clock : OnKnownClock filter log) : OnKnownClock filter later := by
  obtain ⟨rest, split⟩ := extended.events
  intro cutoff first asked found
  rw [← split, List.head?_append_of_ne_nil _ some'] at found
  exact clock cutoff first asked found

/-- Following the cursors from a window collects exactly its pending events. -/
theorem Well.follow {cursor : Option HistoryCursor} {budgets : Nat → QueryBudget} {between : Nat → List (Command T)}
    {pages round : Nat} (well : log.Well) (clock : OnKnownClock filter log)
    (positive : ∀ round, 0 < (budgets round).maxResults ∧ 0 < (budgets round).maxScanned)
    (window : log.window filter cursor = .ok (stop, next)) (inside : stop ≤ log.events.length)
    (enough : stop - next < pages) :
    EventLog.follow filter budgets between pages round log cursor =
      some (.ok (pending (Event.selectedBy filter) log.events stop next)) := by
  induction pages generalizing next round cursor log with
  | zero => exact absurd enough (Nat.not_lt_zero _)
  | succ pages hypothesis =>
      obtain ⟨page, reached, got, account, continuation, forward, onward, -⟩ :=
        history_page clock (positive round) window inside
      rw [EventLog.follow, got]
      dsimp only
      rw [continuation]
      by_cases more : reached < stop
      · rw [if_pos more]
        dsimp only
        have progress := onward (forward.trans_lt more)
        obtain ⟨later, extended⟩ := well.run (between round)
        have some' : log.events ≠ [] := List.ne_nil_of_length_pos (by omega)
        obtain ⟨rest, split⟩ := extended.events
        rw [hypothesis later (extended.onKnownClock some' clock) (extended.window inside more.le)
          (inside.trans extended.events.length_le) (by omega), ← split, pending_append inside, ← account]
        rfl
      · rw [if_neg more]
        rw [← account, pending_of_le (Nat.not_lt.mp more), List.append_nil]

end Paging

/-- After any run the pages are finitely many and concatenate to the events of the log that the filter keeps, whatever is
appended between the pages and however the budgets change. -/
theorem pages_return_the_snapshot {source : SourceId} {epoch : SourceEpoch} {capacity : UInt64}
    {commands : List (Command T)} {filter : HistoryFilter} {budgets : Nat → QueryBudget}
    {between : Nat → List (Command T)}
    (clock : OnKnownClock filter ((new source epoch capacity).run commands))
    (positive : ∀ round, 0 < (budgets round).maxResults ∧ 0 < (budgets round).maxScanned) :
    follow filter budgets between (((new source epoch capacity).run commands).events.length + 1) 0
        ((new source epoch capacity).run commands) none =
      some (.ok (((new source epoch capacity).run commands).events.filter (Event.selectedBy filter))) := by
  obtain ⟨well, -⟩ := (Well.new source epoch capacity : (new source epoch capacity : EventLog T).Well).run commands
  rw [well.follow clock positive rfl (Nat.le_refl _) (by omega), pending_zero, List.take_length]

theorem pages_return_the_snapshot_sample :
    OnKnownClock ⟨none, none, some ⟨1, 6⟩⟩ ((new 3 1 3).run [.append (sampleInput 7 5), .append (sampleInput 8 7)]) ∧
    (∀ _ : Nat, 0 < (⟨1, 1⟩ : QueryBudget).maxResults ∧ 0 < (⟨1, 1⟩ : QueryBudget).maxScanned) ∧
    follow ⟨none, none, some ⟨1, 6⟩⟩ (fun _ => ⟨1, 1⟩) (fun _ => [.append (sampleInput 9 7)]) 3 0
      ((new 3 1 3).run [.append (sampleInput 7 5), .append (sampleInput 8 7)]) none =
        some (.ok [⟨⟨3, 1, 0⟩, ⟨0, 0, 1⟩, ⟨⟨1, 5⟩, none, ⟨1, 5⟩⟩, 7⟩]) := by
  have clock : OnKnownClock ⟨none, none, some ⟨1, 6⟩⟩
      ((new 3 1 3).run [.append (sampleInput 7 5), .append (sampleInput 8 7)]) := by
    intro cutoff first asked found
    obtain rfl := Option.some.inj asked
    obtain rfl := Option.some.inj found
    rfl
  refine ⟨clock, fun _ => by decide, ?_⟩
  exact @pages_return_the_snapshot Nat 3 1 3 [.append (sampleInput 7 5), .append (sampleInput 8 7)]
    ⟨none, none, some ⟨1, 6⟩⟩ (fun _ => ⟨1, 1⟩) (fun _ => [.append (sampleInput 9 7)]) clock fun _ => by decide

end EventLog

end Events

end Temnion
