import Temnion.Branch.Restart

/-
This file reads the events of a timeline at their positions.
-/

namespace Temnion.Branch

open Format LittleEndian Intervals Storage

/-- The event at a position of a timeline. The first segment that owns the position numbers its own events from its
start on. -/
def eventAt (contents : BranchId → List StoredEvent) (segments : List TimelineSegment) (position : UInt64) :
    Option StoredEvent :=
  (segments.find? fun segment => segment.Owns position).bind fun segment =>
    (contents segment.branchId)[position.toNat - segment.startSeq.toNat]?

/-- An ancestor holds the position on the timeline of a branch. -/
def Inherits (segments : List TimelineSegment) (position : UInt64) : Prop :=
  ∃ segment ∈ segments, segment.endSeq.isSome ∧ segment.Owns position

section Events

variable {contents more : BranchId → List StoredEvent} {segments others : List TimelineSegment} {id : BranchId}
  {ancestors : List Stretch} {start position : UInt64}

/-- Events stay where they are when branches only grow. -/
theorem eventAt_grows {event : StoredEvent} (grows : ∀ place, contents place <+: more place)
    (present : eventAt contents segments position = some event) : eventAt more segments position = some event := by
  obtain ⟨segment, found, read⟩ := Option.bind_eq_some_iff.mp present
  rw [eventAt, found, Option.bind_some]
  obtain ⟨rest, same⟩ := grows segment.branchId
  rw [← same, List.getElem?_append_left (List.getElem?_eq_some_iff.mp read).1]
  exact read

theorem eventAt_cons (segment : TimelineSegment) :
    eventAt contents (segment :: others) position =
      if segment.Owns position then (contents segment.branchId)[position.toNat - segment.startSeq.toNat]?
      else eventAt contents others position := by
  by_cases owns : segment.Owns position
  · have first : ((segment :: others).find? fun segment => segment.Owns position) = some segment :=
      List.find?_cons_of_pos (decide_eq_true owns)
    rw [if_pos owns, eventAt, first, Option.bind_some]
  · have later : ((segment :: others).find? fun segment => segment.Owns position) =
        others.find? fun segment => segment.Owns position :=
      List.find?_cons_of_neg (by simpa using owns)
    rw [if_neg owns, eventAt, later, eventAt]

/-- Behind a segment that owns the position nothing counts. -/
theorem eventAt_append (owner : ∃ segment ∈ segments, segment.Owns position) :
    eventAt contents (segments ++ others) position = eventAt contents segments position := by
  have found : (segments.find? fun segment => segment.Owns position).isSome := by
    rw [List.find?_isSome]
    obtain ⟨segment, member, owns⟩ := owner
    exact ⟨segment, member, decide_eq_true owns⟩
  rw [eventAt, List.find?_append, Option.or_of_isSome found, eventAt]

theorem eventAt_skip (nowhere : ∀ segment ∈ segments, ¬ segment.Owns position) :
    eventAt contents (segments ++ others) position = eventAt contents others position := by
  have absent : (segments.find? fun segment => segment.Owns position) = none := by
    rw [List.find?_eq_none]
    intro segment member
    rw [decide_eq_true_eq]
    exact nowhere segment member
  rw [eventAt, List.find?_append, absent, Option.none_or, eventAt]

theorem inherits_timelineOf :
    Inherits (timelineOf ancestors id start) position ↔ ∃ stretch ∈ ancestors, stretch.segment.Owns position := by
  constructor
  · intro inherits
    obtain ⟨segment, member, bounded, owns⟩ := inherits
    rcases List.mem_append.mp member with inside | last
    · obtain ⟨stretch, listed, rfl⟩ := List.mem_map.mp inside
      exact ⟨stretch, listed, owns⟩
    · rw [List.mem_singleton.mp last] at bounded
      contradiction
  · intro owner
    obtain ⟨stretch, listed, owns⟩ := owner
    exact ⟨stretch.segment, List.mem_append_left _ (List.mem_map_of_mem listed), rfl, owns⟩

/-- Where no ancestor holds the position, the branch itself does from its start on. -/
theorem eventAt_own (nowhere : ¬ Inherits (timelineOf ancestors id start) position) :
    eventAt contents (timelineOf ancestors id start) position =
      if start ≤ position then (contents id)[position.toNat - start.toNat]? else none := by
  rw [inherits_timelineOf] at nowhere
  rw [timelineOf, eventAt_skip]
  · rw [eventAt_cons]
    exact if_congr (and_iff_left fun stop absent => absurd absent (Option.not_mem_none stop)) rfl rfl
  · intro segment member owns
    obtain ⟨stretch, listed, rfl⟩ := List.mem_map.mp member
    exact nowhere ⟨stretch, listed, owns⟩

/-- Up to the fork the timeline of a child is the timeline of its parent. -/
theorem eventAt_child {child parent : BranchId} {forkSeq : UInt64} (room : forkSeq.toNat + 1 < 2 ^ 64)
    (below : position ≤ forkSeq) :
    eventAt contents (timelineOf (ancestors ++ [⟨parent, start, forkSeq⟩]) child (forkSeq + 1)) position =
      eventAt contents (timelineOf ancestors parent start) position := by
  by_cases inherits : Inherits (timelineOf ancestors parent start) position
  · rw [inherits_timelineOf] at inherits
    have owner : ∃ segment ∈ ancestors.map Stretch.segment, segment.Owns position := by
      obtain ⟨stretch, listed, owns⟩ := inherits
      exact ⟨stretch.segment, List.mem_map_of_mem listed, owns⟩
    rw [timelineOf, List.map_append, List.append_assoc, eventAt_append owner, timelineOf, eventAt_append owner]
  · have skip : ∀ segment ∈ ancestors.map Stretch.segment, ¬ segment.Owns position := by
      intro segment member owns
      obtain ⟨stretch, listed, rfl⟩ := List.mem_map.mp member
      exact inherits (inherits_timelineOf.mpr ⟨stretch, listed, owns⟩)
    have beyond : ¬ TimelineSegment.Owns ⟨child, forkSeq + 1, none⟩ position := by
      intro owns
      have lower := UInt64.le_iff_toNat_le.mp owns.1
      have upper := UInt64.le_iff_toNat_le.mp below
      rw [toNat_succ room] at lower
      omega
    have cut : TimelineSegment.Owns ⟨parent, start, some forkSeq⟩ position ↔ start ≤ position :=
      and_iff_left fun stop last => Option.some.inj last ▸ below
    rw [eventAt_own inherits, timelineOf, List.map_append, List.append_assoc, eventAt_skip skip, List.map_singleton,
      List.singleton_append, eventAt_cons, eventAt_cons, if_neg beyond]
    exact if_congr cut rfl rfl

end Events

end Temnion.Branch
