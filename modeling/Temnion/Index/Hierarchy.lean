import Temnion.Index.Summary

/-
This file decides when the summary of a segment may skip the blocks below it.
-/

namespace Temnion.Index

namespace SegmentSummary

def overlapsAxis (summary : SegmentSummary) (range : TimeRange) : TimeAxis → Bool
  | .valid => summary.validTimeRange.overlapsRange range
  | .known => summary.knownTimeRange.overlapsRange range
  | .observed => true

def matchesFilter (summary : SegmentSummary) (filter : HistoryFilter) : SkipDecision :=
  if filter.entity.any (fun entity => !summary.entityRange.contains entity) then .skip
  else if filter.knownAsOf.any (fun cutoff => !summary.knownTimeRange.canContainKnown cutoff) then .skip
  else if filter.time.any (fun (axis, range) => !summary.overlapsAxis range axis) then .skip
  else .mustScan

end SegmentSummary

/-- The records of one block, which has at least one, and where the block lies. -/
structure RecordBlock where
  batchIndex : UInt32
  byteOffset : UInt64
  byteLength : UInt32
  first : StoredEvent
  rest : List StoredEvent

namespace RecordBlock

def records (block : RecordBlock) : List StoredEvent := block.first :: block.rest

/-- The summary is created from the first record and extended by the others. -/
def summary (block : RecordBlock) : BlockSummary :=
  block.rest.foldl (fun summary record => summary.update record.id.sequence record.entity record.schema record.times)
    (.new block.batchIndex block.byteOffset block.byteLength block.first.id.sequence block.first.entity
      block.first.schema block.first.times)

end RecordBlock

namespace TimestampZoneMap

/-- The zone is the smallest one around those of the timestamps that lie on its clock. -/
structure Spans (zone : TimestampZoneMap) (timestamps : List Timestamp) : Prop where
  covers : ∀ timestamp ∈ timestamps, zone.Covers timestamp
  least : ∃ timestamp ∈ timestamps, timestamp.clock = zone.clock ∧ timestamp.ticks = zone.minTicks
  greatest : ∃ timestamp ∈ timestamps, timestamp.clock = zone.clock ∧ timestamp.ticks = zone.maxTicks

theorem spans_new (timestamp : Timestamp) : (new timestamp).Spans [timestamp] where
  covers := by
    intro other member
    rw [List.mem_singleton.mp member]
    exact covers_new timestamp
  least := ⟨timestamp, List.mem_singleton_self _, rfl, rfl⟩
  greatest := ⟨timestamp, List.mem_singleton_self _, rfl, rfl⟩

theorem update_other {zone : TimestampZoneMap} {timestamp : Timestamp} (other : timestamp.clock ≠ zone.clock) :
    zone.update timestamp = zone := if_neg other

theorem Spans.update {zone : TimestampZoneMap} {timestamps : List Timestamp} (spans : zone.Spans timestamps)
    (timestamp : Timestamp) : (zone.update timestamp).Spans (timestamps ++ [timestamp]) := by
  obtain ⟨low, lowIn, lowClock, lowTicks⟩ := spans.least
  obtain ⟨high, highIn, highClock, highTicks⟩ := spans.greatest
  have covers : ∀ other ∈ timestamps ++ [timestamp], (zone.update timestamp).Covers other := by
    intro other member
    apply covers_update
    rcases List.mem_append.mp member with member | member
    · exact Or.inr (spans.covers other member)
    · exact Or.inl (List.mem_singleton.mp member)
  by_cases same : timestamp.clock = zone.clock
  · refine ⟨covers, ?_, ?_⟩
    · by_cases below : timestamp.ticks < zone.minTicks
      · refine ⟨timestamp, by simp, by rw [update_clock, same], ?_⟩
        rw [TimestampZoneMap.update, if_pos same, if_pos below]
      · refine ⟨low, by simp [lowIn], by rw [update_clock, lowClock], ?_⟩
        rw [TimestampZoneMap.update, if_pos same, if_neg below, lowTicks]
    · by_cases above : zone.maxTicks < timestamp.ticks
      · refine ⟨timestamp, by simp, by rw [update_clock, same], ?_⟩
        rw [TimestampZoneMap.update, if_pos same, if_pos above]
      · refine ⟨high, by simp [highIn], by rw [update_clock, highClock], ?_⟩
        rw [TimestampZoneMap.update, if_pos same, if_neg above, highTicks]
  · rw [update_other same] at covers ⊢
    exact ⟨covers, ⟨low, by simp [lowIn], lowClock, lowTicks⟩, ⟨high, by simp [highIn], highClock, highTicks⟩⟩

/-- The zone of the timestamps of a block. -/
theorem spans_foldl {zone : TimestampZoneMap} {before after : List Timestamp} (spans : zone.Spans before) :
    (after.foldl TimestampZoneMap.update zone).Spans (before ++ after) := by
  induction after generalizing zone before with
  | nil =>
      rw [List.append_nil]
      exact spans
  | cons timestamp after hypothesis =>
      rw [List.foldl_cons, List.append_cons]
      exact hypothesis (spans.update timestamp)

/-- A range misses the zone only when it misses all the timestamps on the clock on one of its sides. -/
theorem Spans.overlapsRange_iff {zone : TimestampZoneMap} {timestamps : List Timestamp} (spans : zone.Spans timestamps)
    (range : TimeRange) : zone.overlapsRange range = true ↔ (range.clock = zone.clock →
      (∃ timestamp ∈ timestamps, timestamp.clock = zone.clock ∧ timestamp.ticks < range.stop) ∧
        ∃ timestamp ∈ timestamps, timestamp.clock = zone.clock ∧ range.start ≤ timestamp.ticks) := by
  unfold overlapsRange
  by_cases same : zone.clock = range.clock
  · rw [if_neg (not_not.mpr same), Bool.and_eq_true, decide_eq_true_eq, decide_eq_true_eq]
    constructor
    · intro bounds _
      obtain ⟨low, lowIn, lowClock, lowTicks⟩ := spans.least
      obtain ⟨high, highIn, highClock, highTicks⟩ := spans.greatest
      exact ⟨⟨low, lowIn, lowClock, lowTicks ▸ bounds.1⟩, ⟨high, highIn, highClock, highTicks ▸ bounds.2⟩⟩
    · intro reaches
      obtain ⟨⟨low, lowIn, lowClock, below⟩, high, highIn, highClock, above⟩ := reaches same.symm
      have lower := (spans.covers low lowIn lowClock).1
      have upper := (spans.covers high highIn highClock).2
      exact ⟨UInt64.lt_of_le_of_lt lower below, UInt64.le_trans above upper⟩
  · rw [if_pos same]
    exact iff_of_true rfl fun equal => absurd equal.symm same

end TimestampZoneMap

namespace RecordBlock

/-- What the summary says about one axis comes from the timestamps of the records on it. -/
theorem summary_spans (block : RecordBlock) (zone : BlockSummary → TimestampZoneMap) (axis : EventTimes → Timestamp)
    (starts : ∀ batchIndex byteOffset byteLength sequence entity schema times,
      zone (.new batchIndex byteOffset byteLength sequence entity schema times) = .new (axis times))
    (goesOn : ∀ (summary : BlockSummary) sequence entity schema times,
      zone (summary.update sequence entity schema times) = (zone summary).update (axis times)) :
    (zone block.summary).Spans (block.records.map fun record => axis record.times) := by
  have fold : ∀ (rest : List StoredEvent) (summary : BlockSummary),
      zone (rest.foldl (fun summary record => summary.update record.id.sequence record.entity record.schema
        record.times) summary) = (rest.map fun record => axis record.times).foldl TimestampZoneMap.update (zone summary) := by
    intro rest
    induction rest with
    | nil => exact fun _ => rfl
    | cons record rest hypothesis =>
        intro summary
        rw [List.foldl_cons, hypothesis, goesOn, List.map_cons, List.foldl_cons]
  rw [summary, fold, starts]
  exact TimestampZoneMap.spans_foldl (TimestampZoneMap.spans_new _)

theorem summary_valid (block : RecordBlock) :
    block.summary.validTimeRange.Spans (block.records.map fun record => record.times.valid) :=
  block.summary_spans BlockSummary.validTimeRange EventTimes.valid (fun _ _ _ _ _ _ _ => rfl) fun _ _ _ _ _ => rfl

theorem summary_known (block : RecordBlock) :
    block.summary.knownTimeRange.Spans (block.records.map fun record => record.times.known) :=
  block.summary_spans BlockSummary.knownTimeRange EventTimes.known (fun _ _ _ _ _ _ _ => rfl) fun _ _ _ _ _ => rfl

/-- The records of the blocks whose first record lies on a clock. -/
def anchored (axis : EventTimes → Timestamp) (clock : ClockId) (blocks : List RecordBlock) : List StoredEvent :=
  (blocks.filter fun block => (axis block.first.times).clock = clock).flatMap records

theorem anchored_cons (axis : EventTimes → Timestamp) (clock : ClockId) (block : RecordBlock)
    (blocks : List RecordBlock) : anchored axis clock (block :: blocks) =
      if (axis block.first.times).clock = clock then block.records ++ anchored axis clock blocks
      else anchored axis clock blocks := by
  unfold anchored
  rw [List.filter_cons]
  simp only [decide_eq_true_eq]
  split <;> rfl

theorem mem_anchored {axis : EventTimes → Timestamp} {clock : ClockId} {blocks : List RecordBlock}
    {record : StoredEvent} : record ∈ anchored axis clock blocks ↔
      ∃ block ∈ blocks, (axis block.first.times).clock = clock ∧ record ∈ block.records := by
  simp only [anchored, List.mem_flatMap, List.mem_filter, decide_eq_true_eq, and_assoc]

end RecordBlock

namespace SegmentSummary

open RecordBlock

theorem updateZone_other {zone block : TimestampZoneMap} (other : block.clock ≠ zone.clock) :
    updateZone zone block = zone := by
  have low : zone.update ⟨block.clock, block.minTicks⟩ = zone := TimestampZoneMap.update_other other
  have high : zone.update ⟨block.clock, block.maxTicks⟩ = zone := TimestampZoneMap.update_other other
  rw [updateZone, low, high]

theorem updateZone_clock (zone block : TimestampZoneMap) : (updateZone zone block).clock = zone.clock := by
  rw [updateZone, TimestampZoneMap.update_clock, TimestampZoneMap.update_clock]

/-- The bounds of a block on the same clock stand for all its timestamps. -/
theorem updateZone_spans {zone block : TimestampZoneMap} {timestamps others : List Timestamp}
    (spans : zone.Spans timestamps) (spans' : block.Spans others) (same : block.clock = zone.clock) :
    (updateZone zone block).Spans (timestamps ++ others) := by
  obtain ⟨low, lowIn, lowClock, lowTicks⟩ := spans'.least
  obtain ⟨high, highIn, highClock, highTicks⟩ := spans'.greatest
  have lowest : (⟨block.clock, block.minTicks⟩ : Timestamp) = low := by rw [← lowClock, ← lowTicks]
  have highest : (⟨block.clock, block.maxTicks⟩ : Timestamp) = high := by rw [← highClock, ← highTicks]
  have whole := (spans.update low).update high
  have clock := updateZone_clock zone block
  rw [updateZone, lowest, highest] at clock ⊢
  have within : ∀ timestamp ∈ timestamps ++ [low] ++ [high], timestamp ∈ timestamps ++ others := by
    intro timestamp member
    simp only [List.append_assoc, List.mem_append, List.mem_singleton] at member ⊢
    rcases member with member | rfl | rfl
    · exact Or.inl member
    · exact Or.inr lowIn
    · exact Or.inr highIn
  refine ⟨?_, ?_, ?_⟩
  · intro timestamp member onClock
    rcases List.mem_append.mp member with member | member
    · exact whole.covers timestamp (by simp [member]) onClock
    · have there := spans'.covers timestamp member (onClock.trans (clock.trans same.symm))
      have lower := (whole.covers low (by simp) ((lowClock.trans same).trans clock.symm)).1
      have upper := (whole.covers high (by simp) ((highClock.trans same).trans clock.symm)).2
      rw [lowTicks] at lower
      rw [highTicks] at upper
      exact ⟨UInt64.le_trans lower there.1, UInt64.le_trans there.2 upper⟩
  · obtain ⟨timestamp, member, facts⟩ := whole.least
    exact ⟨timestamp, within timestamp member, facts⟩
  · obtain ⟨timestamp, member, facts⟩ := whole.greatest
    exact ⟨timestamp, within timestamp member, facts⟩

/-- The zone of a segment spans the records of the blocks that lie on its clock, and no others. -/
theorem foldl_updateZone {zoneOf : BlockSummary → TimestampZoneMap} {axis : EventTimes → Timestamp}
    (spans : ∀ block : RecordBlock, (zoneOf block.summary).Spans (block.records.map fun record => axis record.times))
    (clock : ∀ block : RecordBlock, (zoneOf block.summary).clock = (axis block.first.times).clock)
    {zone : TimestampZoneMap} {timestamps : List Timestamp} (start : zone.Spans timestamps) (blocks : List RecordBlock) :
    ((blocks.map RecordBlock.summary).foldl (fun zone block => updateZone zone (zoneOf block)) zone).Spans
        (timestamps ++ (anchored axis zone.clock blocks).map fun record => axis record.times) ∧
      ((blocks.map RecordBlock.summary).foldl (fun zone block => updateZone zone (zoneOf block)) zone).clock =
        zone.clock := by
  induction blocks generalizing zone timestamps with
  | nil =>
      have nothing : anchored axis zone.clock [] = [] := rfl
      rw [nothing, List.map_nil, List.map_nil, List.append_nil]
      exact ⟨start, rfl⟩
  | cons block blocks hypothesis =>
      rw [List.map_cons, List.foldl_cons]
      by_cases same : (axis block.first.times).clock = zone.clock
      · obtain ⟨more, kept⟩ := hypothesis (updateZone_spans start (spans block) ((clock block).trans same))
        rw [updateZone_clock] at more kept
        refine ⟨?_, kept⟩
        rw [anchored_cons, if_pos same, List.map_append, ← List.append_assoc]
        exact more
      · rw [updateZone_other fun equal => same ((clock block).symm.trans equal), anchored_cons, if_neg same]
        exact hypothesis start

/-- A zone that contains the bounds of a block contains what lies between them. -/
theorem foldl_entity {entity : EntityId} {blocks : List BlockSummary} {zone : ZoneMap EntityId}
    (held : zone.contains entity ∨ ∃ block ∈ blocks, block.entityRange.contains entity) :
    (blocks.foldl (fun zone block => (zone.update block.entityRange.min).update block.entityRange.max) zone).contains
      entity := by
  induction blocks generalizing zone with
  | nil => exact held.resolve_right fun absent => List.not_mem_nil absent.choose_spec.1
  | cons block blocks hypothesis =>
      rw [List.foldl_cons]
      apply hypothesis
      rcases held with held | ⟨other, member, inside⟩
      · exact Or.inl (ZoneMap.contains_update (Or.inr (ZoneMap.contains_update (Or.inr held))))
      · rcases List.mem_cons.mp member with rfl | member
        · left
          let wider := (zone.update other.entityRange.min).update other.entityRange.max
          have low : wider.contains other.entityRange.min :=
            ZoneMap.contains_update (Or.inr (ZoneMap.contains_update (Or.inl rfl)))
          have high : wider.contains other.entityRange.max := ZoneMap.contains_update (Or.inl rfl)
          simp only [ZoneMap.contains, Bool.and_eq_true, decide_eq_true_eq] at low high inside ⊢
          exact ⟨low.1.trans inside.1, inside.2.trans high.2⟩
        · exact Or.inr ⟨other, member, inside⟩

end SegmentSummary

namespace RecordBlock

theorem summary_covers (block : RecordBlock) {record : StoredEvent} (member : record ∈ block.records) :
    block.summary.Covers record := by
  have fold : ∀ (rest : List StoredEvent) (summary : BlockSummary), record ∈ rest ∨ summary.Covers record →
      (rest.foldl (fun summary record => summary.update record.id.sequence record.entity record.schema record.times)
        summary).Covers record := by
    intro rest
    induction rest with
    | nil => exact fun summary held => held.resolve_left List.not_mem_nil
    | cons head rest hypothesis =>
        intro summary held
        apply hypothesis
        rcases held with held | held
        · rcases List.mem_cons.mp held with rfl | held
          · exact Or.inr (BlockSummary.covers_update (Or.inl rfl))
          · exact Or.inl held
        · exact Or.inr (BlockSummary.covers_update (Or.inr held))
  apply fold
  rcases List.mem_cons.mp member with rfl | member
  · exact Or.inr (BlockSummary.covers_new _ _ _ _)
  · exact Or.inl member

theorem summary_clock (block : RecordBlock) (zone : BlockSummary → TimestampZoneMap) (axis : EventTimes → Timestamp)
    (starts : ∀ batchIndex byteOffset byteLength sequence entity schema times,
      zone (.new batchIndex byteOffset byteLength sequence entity schema times) = .new (axis times))
    (goesOn : ∀ (summary : BlockSummary) sequence entity schema times,
      zone (summary.update sequence entity schema times) = (zone summary).update (axis times)) :
    (zone block.summary).clock = (axis block.first.times).clock := by
  have fold : ∀ (rest : List StoredEvent) (summary : BlockSummary),
      (zone (rest.foldl (fun summary record => summary.update record.id.sequence record.entity record.schema
        record.times) summary)).clock = (zone summary).clock := by
    intro rest
    induction rest with
    | nil => exact fun _ => rfl
    | cons record rest hypothesis =>
        intro summary
        rw [List.foldl_cons, hypothesis, goesOn, TimestampZoneMap.update_clock]
  rw [summary, fold, starts]
  rfl

theorem valid_clock (block : RecordBlock) : block.summary.validTimeRange.clock = block.first.times.valid.clock :=
  block.summary_clock BlockSummary.validTimeRange EventTimes.valid (fun _ _ _ _ _ _ _ => rfl) fun _ _ _ _ _ => rfl

theorem known_clock (block : RecordBlock) : block.summary.knownTimeRange.clock = block.first.times.known.clock :=
  block.summary_clock BlockSummary.knownTimeRange EventTimes.known (fun _ _ _ _ _ _ _ => rfl) fun _ _ _ _ _ => rfl

end RecordBlock

open RecordBlock

/-- A skip at either level leaves out no record that the filter keeps. -/
def SkipsNothing (segment : SegmentSummary) (blocks : List RecordBlock) (filter : HistoryFilter) : Prop :=
  (segment.matchesFilter filter = .skip → ∀ block ∈ blocks, ∀ record ∈ block.records, filter.keeps record = false) ∧
    ∀ block ∈ blocks, block.summary.matchesFilter filter = .skip → ∀ record ∈ block.records, filter.keeps record = false

/-- A range of valid times on the clock of the first record is not missed on one side by the records of all the blocks
that start on this clock, when some record satisfies the filter. -/
def ReachesAnchored (blocks : List RecordBlock) (filter : HistoryFilter) : Prop :=
  ∀ first ∈ blocks.head?, ∀ range, filter.time = some (.valid, range) →
    range.clock = first.first.times.valid.clock →
    (∃ block ∈ blocks, ∃ record ∈ block.records, filter.keeps record = true) →
      (∃ record ∈ anchored EventTimes.valid range.clock blocks,
        record.times.valid.clock = range.clock ∧ record.times.valid.ticks < range.stop) ∧
      ∃ record ∈ anchored EventTimes.valid range.clock blocks,
        record.times.valid.clock = range.clock ∧ range.start ≤ record.times.valid.ticks

section Skipping

variable {database : DatabaseId} {source : SourceId} {epoch : SourceEpoch} {first : RecordBlock}
  {rest : List RecordBlock} {segment : SegmentSummary}

/-- A segment zone spans the records of the blocks that start on the clock of the first record. -/
theorem segment_spans {zoneOf : BlockSummary → TimestampZoneMap} {axis : EventTimes → Timestamp}
    (spans : ∀ block : RecordBlock, (zoneOf block.summary).Spans (block.records.map fun record => axis record.times))
    (clock : ∀ block : RecordBlock, (zoneOf block.summary).clock = (axis block.first.times).clock) :
    let zone := (first.summary :: rest.map RecordBlock.summary).foldl
      (fun zone block => SegmentSummary.updateZone zone (zoneOf block)) (zoneOf first.summary)
    zone.clock = (axis first.first.times).clock ∧ zone.Spans
      ((anchored axis (axis first.first.times).clock (first :: rest)).map fun record => axis record.times) := by
  intro zone
  obtain ⟨whole, kept⟩ := SegmentSummary.foldl_updateZone spans clock (spans first) (first :: rest)
  rw [clock first] at whole kept
  refine ⟨kept, ?_⟩
  have inside : ∀ timestamp, timestamp ∈ first.records.map (fun record => axis record.times) ++
      (anchored axis (axis first.first.times).clock (first :: rest)).map (fun record => axis record.times) →
        timestamp ∈ (anchored axis (axis first.first.times).clock (first :: rest)).map fun record => axis record.times := by
    intro timestamp member
    rcases List.mem_append.mp member with member | member
    · rw [anchored_cons, if_pos rfl, List.map_append]
      exact List.mem_append_left _ member
    · exact member
  obtain ⟨low, lowIn, lowFacts⟩ := whole.least
  obtain ⟨high, highIn, highFacts⟩ := whole.greatest
  exact ⟨fun timestamp member => whole.covers timestamp (List.mem_append_right _ member),
    ⟨low, inside low lowIn, lowFacts⟩, ⟨high, inside high highIn, highFacts⟩⟩

/-- A kept record keeps its segment from being skipped, except by its valid time. -/
theorem matchesFilter_of_kept {clock : ClockId} {filter : HistoryFilter} {block : RecordBlock} {record : StoredEvent}
    (built : SegmentSummary.new database source epoch ((first :: rest).map RecordBlock.summary) = .ok segment)
    (known : ∀ block ∈ first :: rest, ∀ record ∈ block.records, record.times.known.clock = clock)
    (member : block ∈ first :: rest) (inside : record ∈ block.records) (kept : filter.keeps record = true)
    (overlaps : ∀ range, filter.time = some (.valid, range) → segment.validTimeRange.overlapsRange range = true) :
    segment.matchesFilter filter = .mustScan := by
  obtain ⟨entity, knownAsOf, time⟩ := HistoryFilter.keeps_iff.mp kept
  have same := (Except.ok.inj built).symm
  obtain ⟨zoneClock, spans⟩ : segment.knownTimeRange.clock = first.first.times.known.clock ∧
      segment.knownTimeRange.Spans ((anchored EventTimes.known first.first.times.known.clock (first :: rest)).map
        fun record => record.times.known) := by
    rw [same]
    exact segment_spans summary_known known_clock
  have start : first.first.times.known.clock = clock := known first List.mem_cons_self _ List.mem_cons_self
  have recordClock : record.times.known.clock = segment.knownTimeRange.clock := by
    rw [zoneClock, start, known block member record inside]
  have covered : segment.knownTimeRange.Covers record.times.known := by
    apply spans.covers
    apply List.mem_map_of_mem
    exact mem_anchored.mpr ⟨block, member, (known block member _ List.mem_cons_self).trans start.symm, inside⟩
  have entities : segment.entityRange.contains record.entity := by
    rw [same]
    exact SegmentSummary.foldl_entity (Or.inr ⟨block.summary, List.mem_map_of_mem member,
      (block.summary_covers inside).entity⟩)
  unfold SegmentSummary.matchesFilter
  rw [if_neg, if_neg, if_neg]
  · intro misses
    obtain ⟨⟨axis, range⟩, named, outside⟩ := (Option.any_eq_true _ _).mp misses
    obtain ⟨timestamp, present, within⟩ := time axis range named
    have miss : segment.overlapsAxis range axis = false := by simpa using outside
    cases axis with
    | valid => exact absurd ((overlaps range named).symm.trans miss) (by decide)
    | observed => contradiction
    | known =>
        obtain rfl : record.times.known = timestamp := Option.some.inj present
        rw [TimestampZoneMap.overlapsRange_false covered miss] at within
        contradiction
  · intro misses
    obtain ⟨cutoff, named, outside⟩ := (Option.any_eq_true _ _).mp misses
    have early := TimestampZoneMap.canContainKnown_false covered recordClock (by simpa using outside)
    exact absurd early (UInt64.not_lt.mpr (knownAsOf cutoff named))
  · intro misses
    obtain ⟨wanted, named, outside⟩ := (Option.any_eq_true _ _).mp misses
    rw [entity wanted named, entities] at outside
    contradiction

/-- No record that satisfies a filter is skipped exactly when a range of valid times on the clock of the first record
is reached, from both sides, by the records of the blocks that start on this clock. -/
theorem skipping_sound_iff {blocks : List RecordBlock} {clock : ClockId} (filter : HistoryFilter)
    (built : SegmentSummary.new database source epoch (blocks.map RecordBlock.summary) = .ok segment)
    (known : ∀ block ∈ blocks, ∀ record ∈ block.records, record.times.known.clock = clock) :
    SkipsNothing segment blocks filter ↔ ReachesAnchored blocks filter := by
  cases blocks with
  | nil => contradiction
  | cons first rest =>
      have same := (Except.ok.inj built).symm
      obtain ⟨zoneClock, spans⟩ : segment.validTimeRange.clock = first.first.times.valid.clock ∧
          segment.validTimeRange.Spans ((anchored EventTimes.valid first.first.times.valid.clock (first :: rest)).map
            fun record => record.times.valid) := by
        rw [same]
        exact segment_spans summary_valid valid_clock
      have overlaps : ∀ range, segment.validTimeRange.overlapsRange range = true ↔
          (range.clock = first.first.times.valid.clock →
            (∃ record ∈ anchored EventTimes.valid range.clock (first :: rest),
              record.times.valid.clock = range.clock ∧ record.times.valid.ticks < range.stop) ∧
            ∃ record ∈ anchored EventTimes.valid range.clock (first :: rest),
              record.times.valid.clock = range.clock ∧ range.start ≤ record.times.valid.ticks) := by
        intro range
        rw [spans.overlapsRange_iff, zoneClock]
        simp only [List.mem_map, exists_exists_and_eq_and]
        constructor
        · intro reaches onClock
          rw [onClock]
          exact reaches onClock
        · intro reaches onClock
          have both := reaches onClock
          rw [onClock] at both
          exact both
      constructor
      · intro sound head isHead range named onClock present
        obtain rfl := Option.some.inj isHead
        obtain ⟨block, member, record, inside, kept⟩ := present
        apply (overlaps range).mp _ onClock
        by_contra misses
        have missed : filter.time.any (fun (axis, range) => !segment.overlapsAxis range axis) = true := by
          rw [named, Option.any_some]
          exact Bool.not_eq_true' _ |>.mpr (Bool.eq_false_iff.mpr misses)
        have skipped : segment.matchesFilter filter = .skip := by
          unfold SegmentSummary.matchesFilter
          rw [if_pos missed]
          split
          · rfl
          · exact ite_self _
        rw [sound.1 skipped block member record inside] at kept
        contradiction
      · intro reaches
        refine ⟨fun skipped block member record inside => ?_, fun block member skipped record inside => ?_⟩
        · by_contra kept
          have kept : filter.keeps record = true := by simpa using kept
          have scanned := matchesFilter_of_kept built known member inside kept fun range named =>
            (overlaps range).mpr fun onClock =>
              reaches first rfl range named onClock ⟨block, member, record, inside, kept⟩
          rw [scanned] at skipped
          contradiction
        · apply BlockSummary.keeps_of_skip (block.summary_covers inside) _ skipped
          rw [block.known_clock, known block member record inside, known block member _ List.mem_cons_self]

end Skipping

/-- A record at a valid time, with known times on one clock. -/
def validAt (clock : ClockId) (ticks : UInt64) : StoredEvent :=
  ⟨⟨1, 1, 0⟩, ⟨0, 0, 1⟩, ⟨⟨clock, ticks⟩, none, ⟨1, 0⟩⟩, 0, [], []⟩

theorem skipping_sound_iff_sample : SkipsNothing
    ⟨⟨List.replicate 16 0, rfl⟩, 1, 1, ⟨0, 0⟩, ⟨1, 10, 10⟩, ⟨1, 0, 0⟩, ⟨⟨0, 0, 1⟩, ⟨0, 0, 1⟩⟩, 1,
      [(RecordBlock.mk 0 0 0 (validAt 1 10) []).summary]⟩
    [⟨0, 0, 0, validAt 1 10, []⟩] ⟨none, some (.valid, ⟨1, 5, 20, by decide⟩), none⟩ := by
  refine (@skipping_sound_iff ⟨List.replicate 16 0, rfl⟩ 1 1 _ [⟨0, 0, 0, validAt 1 10, []⟩] 1 _ rfl ?_).mpr ?_
  · intro block member record inside
    rw [List.mem_singleton.mp member] at inside
    rw [List.mem_singleton.mp inside]
    rfl
  · intro first isHead range named _ _
    obtain rfl := (Prod.mk.inj (Option.some.inj named)).2
    have reached : validAt 1 10 ∈ anchored EventTimes.valid 1 [⟨0, 0, 0, validAt 1 10, []⟩] := List.mem_singleton_self _
    exact ⟨⟨_, reached, rfl, by decide⟩, ⟨_, reached, rfl, by decide⟩⟩

/-- The second block starts on another clock than the first, so the segment does not count its second record. -/
theorem segment_skips_record :
    ∃ (segment : SegmentSummary) (blocks : List RecordBlock) (filter : HistoryFilter),
      SegmentSummary.new ⟨List.replicate 16 0, rfl⟩ 1 1 (blocks.map RecordBlock.summary) = .ok segment ∧
        (∀ block ∈ blocks, ∀ record ∈ block.records, record.times.known.clock = 1) ∧
        segment.matchesFilter filter = .skip ∧
        ∃ block ∈ blocks, ∃ record ∈ block.records, filter.keeps record = true := by
  refine ⟨_, [⟨0, 0, 0, validAt 1 10, []⟩, ⟨1, 0, 0, validAt 2 0, [validAt 1 100]⟩],
    ⟨none, some (.valid, ⟨1, 100, 101, by decide⟩), none⟩, rfl, ?_, rfl,
    ⟨1, 0, 0, validAt 2 0, [validAt 1 100]⟩, by simp, validAt 1 100, by simp [RecordBlock.records], by decide⟩
  intro block member record inside
  rcases List.mem_cons.mp member with rfl | member
  · rw [List.mem_singleton.mp inside]
    rfl
  · rw [List.mem_singleton.mp member] at inside
    rcases List.mem_cons.mp inside with rfl | inside
    · rfl
    · rw [List.mem_singleton.mp inside]
      rfl

end Temnion.Index
