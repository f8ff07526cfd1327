import Temnion.Index.Projection
import Temnion.Library.Fallible

/-
This file says which events the projections find together and when they answer at all.
-/

namespace Temnion.Index

namespace Postings

variable {K : Type} [LinearOrder K] {entries : Postings K} {key other first last : K} {sequence found : UInt64}

/-- The sequence numbers are inserted one after the other. -/
def ofList (pairs : List (K × UInt64)) : Postings K :=
  pairs.foldl (fun entries (key, sequence) => entries.insert key sequence) ∅

theorem ofList_concat (pairs : List (K × UInt64)) (key : K) (sequence : UInt64) :
    ofList (pairs ++ [(key, sequence)]) = (ofList pairs).insert key sequence := by
  rw [ofList, List.foldl_concat]
  rfl

theorem sequencesFor_empty (key : K) : sequencesFor (∅ : Postings K) key = [] := by
  rw [sequencesFor, Std.ExtTreeMap.getElem?_empty]
  rfl

theorem sequencesFor_insert (entries : Postings K) (key : K) (sequence : UInt64) (other : K) :
    (entries.insert key sequence).sequencesFor other =
      if key = other then
        if (entries.sequencesFor key).getLast? = some sequence then entries.sequencesFor key
        else entries.sequencesFor key ++ [sequence]
      else entries.sequencesFor other := by
  unfold sequencesFor insert
  rw [OrderedMap.entry_getElem?]
  by_cases same : key = other
  · rw [if_pos same, if_pos same]
    rfl
  · rw [if_neg same, if_neg same]

theorem mem_insert : found ∈ (entries.insert key sequence).sequencesFor other ↔
    found ∈ entries.sequencesFor other ∨ key = other ∧ found = sequence := by
  rw [sequencesFor_insert]
  by_cases same : key = other
  · subst same
    rw [if_pos rfl]
    split
    · next repeated =>
        have present := List.mem_of_getLast? repeated
        constructor
        · exact Or.inl
        · rintro (member | ⟨-, rfl⟩)
          · exact member
          · exact present
    · rw [List.mem_append, List.mem_singleton]
      simp only [true_and]
  · rw [if_neg same]
    simp only [same, false_and, or_false]

/-- A key has the sequence numbers that were inserted for it. -/
theorem mem_ofList {pairs : List (K × UInt64)} : found ∈ (ofList pairs).sequencesFor key ↔ (key, found) ∈ pairs := by
  induction pairs using List.reverseRecOn with
  | nil =>
      rw [ofList, List.foldl_nil, sequencesFor_empty]
      exact iff_of_false List.not_mem_nil List.not_mem_nil
  | append_singleton pairs pair hypothesis =>
      obtain ⟨added, sequence⟩ := pair
      rw [ofList_concat, mem_insert, hypothesis, List.mem_append, List.mem_singleton, Prod.mk.injEq]
      exact or_congr Iff.rfl (and_congr eq_comm Iff.rfl)

/-- Ascending sequence numbers are ascending at every key. -/
theorem ofList_ascending {pairs : List (K × UInt64)} (ascending : pairs.Pairwise (·.2 < ·.2)) :
    ((ofList pairs).sequencesFor key).Pairwise (· < ·) := by
  induction pairs using List.reverseRecOn with
  | nil =>
      rw [ofList, List.foldl_nil, sequencesFor_empty]
      exact List.Pairwise.nil
  | append_singleton pairs pair hypothesis =>
      obtain ⟨added, sequence⟩ := pair
      obtain ⟨before, -, later⟩ := List.pairwise_append.mp ascending
      rw [ofList_concat, sequencesFor_insert]
      split
      · next same =>
          split
          · rw [same]
            exact hypothesis before
          · refine List.pairwise_append.mpr ⟨same ▸ hypothesis before, List.pairwise_singleton _ _, ?_⟩
            intro earlier member last single
            rw [List.mem_singleton.mp single]
            exact later _ (mem_ofList.mp member) _ List.mem_cons_self
      · exact hypothesis before

theorem mem_sequencesFor : found ∈ entries.sequencesFor key ↔ ∃ list, entries[key]? = some list ∧ found ∈ list := by
  rw [sequencesFor]
  cases entries[key]? with
  | none => simp only [Option.getD_none, List.not_mem_nil, reduceCtorEq, false_and, exists_false]
  | some list => simp only [Option.getD_some, Option.some.injEq, exists_eq_left']

variable [ReversedRange]

theorem range_ordered (entries : Postings K) (ordered : first ≤ last) : entries.range first last =
    .ok (entries.toList.filter fun (key, _) => first ≤ key ∧ key ≤ last) :=
  if_neg fun reversed => absurd reversed.1 (not_lt.mpr ordered)

/-- A range that answers has the entries between its bounds. -/
theorem mem_range {selected : List (K × List UInt64)} (answered : entries.range first last = .ok selected)
    {chosen : K → Bool} :
    found ∈ (selected.filter fun (key, _) => chosen key).flatMap Prod.snd ↔
      ∃ key, first ≤ key ∧ key ≤ last ∧ chosen key = true ∧ found ∈ entries.sequencesFor key := by
  unfold range at answered
  split at answered
  · contradiction
  · obtain rfl := Except.ok.inj answered
    simp only [List.mem_flatMap, List.mem_filter, decide_eq_true_eq, Prod.exists, OrderedMap.mem_toList, mem_sequencesFor]
    constructor
    · rintro ⟨key, list, ⟨⟨entry, least, most⟩, picked⟩, member⟩
      exact ⟨key, least, most, picked, list, entry, member⟩
    · rintro ⟨key, least, most, picked, list, entry, member⟩
      exact ⟨key, list, ⟨⟨entry, least, most⟩, picked⟩, member⟩

/-- A range panics exactly when it is reversed, where an empty map may answer all the same. -/
theorem range_error : entries.range first last = .error .rangeStart ↔
    last < first ∧ (entries.isEmpty = false ∨ ReversedRange.panicsOnEmpty) := by
  unfold range
  split
  · next reversed => exact iff_of_true rfl reversed
  · next reversed => exact iff_of_false nofun reversed

theorem range_cases (entries : Postings K) (first last : K) :
    entries.range first last = .error .rangeStart ∨ ∃ selected, entries.range first last = .ok selected := by
  unfold range
  split
  · exact Or.inl rfl
  · exact Or.inr ⟨_, rfl⟩

end Postings

/-- The list has in ascending order exactly the sequence numbers that are wanted. -/
def Finds (wanted : UInt64 → Prop) (found : List UInt64) : Prop :=
  found.Pairwise (· < ·) ∧ ∀ sequence, sequence ∈ found ↔ wanted sequence

theorem Finds.sorted {wanted : UInt64 → Prop} {found : List UInt64} (exact : ∀ sequence, sequence ∈ found ↔ wanted sequence) :
    Finds wanted (Ascending.sorted found) := by
  refine ⟨Ascending.sorted_pairwise found, fun sequence => ?_⟩
  rw [Ascending.mem_sorted, exact]

theorem Finds.congr {wanted other : UInt64 → Prop} {found : List UInt64} (finds : Finds wanted found)
    (same : ∀ sequence, wanted sequence ↔ other sequence) : Finds other found :=
  ⟨finds.1, fun sequence => (finds.2 sequence).trans (same sequence)⟩

theorem Finds.intersect {wanted other : UInt64 → Prop} {first second : List UInt64} (one : Finds wanted first)
    (two : Finds other second) : Finds (fun sequence => wanted sequence ∧ other sequence) (intersectSorted first second) := by
  refine ⟨one.1.sublist (Ascending.intersect_sublist first second), fun sequence => ?_⟩
  rw [intersectSorted, Ascending.mem_intersect one.1 two.1, one.2, two.2]

theorem toLex_lt_iff {clock : ClockId} {one two : UInt64} :
    toLex (clock, one) < toLex (clock, two) ↔ one < two := by
  rw [Prod.Lex.toLex_lt_toLex]
  exact ⟨fun less => (less.resolve_left (lt_irrefl _)).2, fun less => Or.inr ⟨rfl, less⟩⟩

section Searches

variable [ReversedRange] {found sequence : UInt64}

/-- A range of ticks that answers finds what was inserted on the clock between them. -/
theorem TemporalProjection.sequencesInRange_ok {projection : TemporalProjection} {clock : ClockId}
    {minTicks maxTicks : UInt64} {found : List UInt64}
    (answered : projection.sequencesInRange clock minTicks maxTicks = .ok found) :
    Finds (fun sequence => ∃ ticks, minTicks ≤ ticks ∧ ticks ≤ maxTicks ∧
      sequence ∈ projection.entries.sequencesFor (toLex (clock, ticks))) found := by
  obtain ⟨entries, range, sorted⟩ := Except.bind_eq_ok.mp answered
  obtain rfl := Except.ok.inj sorted
  apply Finds.sorted
  intro sequence
  have member := @Postings.mem_range _ _ _ _ _ sequence _ _ range fun key => decide ((ofLex key).1 = clock)
  rw [member]
  constructor
  · rintro ⟨key, least, most, picked, inserted⟩
    obtain ⟨⟨one, ticks⟩, rfl⟩ := toLex.surjective key
    obtain rfl : one = clock := of_decide_eq_true picked
    rw [Prod.Lex.toLex_le_toLex] at least most
    exact ⟨ticks, (least.resolve_left (lt_irrefl _)).2, (most.resolve_left (lt_irrefl _)).2, inserted⟩
  · rintro ⟨ticks, least, most, inserted⟩
    refine ⟨toLex (clock, ticks), ?_, ?_, decide_eq_true rfl, inserted⟩
    · exact Prod.Lex.toLex_le_toLex.mpr (Or.inr ⟨rfl, least⟩)
    · exact Prod.Lex.toLex_le_toLex.mpr (Or.inr ⟨rfl, most⟩)

/-- A search for the sequence numbers of a range panics exactly when the range is reversed. -/
theorem TemporalProjection.sequencesInRange_error (projection : TemporalProjection) (clock : ClockId)
    (minTicks maxTicks : UInt64) : projection.sequencesInRange clock minTicks maxTicks = .error .rangeStart ↔
      maxTicks < minTicks ∧ (projection.entries.isEmpty = false ∨ ReversedRange.panicsOnEmpty) := by
  rw [← toLex_lt_iff, ← Postings.range_error, sequencesInRange, Except.bind_eq_error]
  constructor
  · rintro (reversed | ⟨_, _, sorted⟩)
    · exact reversed
    · cases sorted
  · exact Or.inl

/-- Intervals that answer find what was inserted for the codes in one of them. -/
theorem SpatialMortonProjection.sequencesInIntervals_ok {projection : SpatialMortonProjection}
    {intervals : List (UInt64 × UInt64)} {found : List UInt64}
    (answered : projection.sequencesInIntervals intervals = .ok found) :
    Finds (fun sequence => ∃ code, (∃ interval ∈ intervals, interval.1 ≤ code ∧ code ≤ interval.2) ∧
      sequence ∈ projection.entries.sequencesFor code) found := by
  obtain ⟨results, ranges, sorted⟩ := Except.bind_eq_ok.mp answered
  obtain rfl := Except.ok.inj sorted
  apply Finds.sorted
  intro sequence
  clear answered sorted
  induction intervals generalizing results with
  | nil =>
      obtain rfl := Except.ok.inj ranges
      exact iff_of_false List.not_mem_nil fun ⟨_, ⟨_, absent, _⟩, _⟩ => absurd absent List.not_mem_nil
  | cons interval intervals hypothesis =>
      rw [List.mapM_cons, Except.bind_eq_ok] at ranges
      obtain ⟨selected, range, others⟩ := ranges
      obtain ⟨rest, tail, whole⟩ := Except.bind_eq_ok.mp others
      obtain rfl := Except.ok.inj whole
      have head := @Postings.mem_range _ _ _ _ _ sequence _ _ range fun _ => true
      rw [List.filter_true] at head
      rw [List.flatten_cons, List.flatMap_append, List.mem_append, hypothesis rest tail, head]
      constructor
      · rintro (⟨code, least, most, -, inserted⟩ | ⟨code, ⟨other, member, inside⟩, inserted⟩)
        · exact ⟨code, ⟨interval, List.mem_cons_self, least, most⟩, inserted⟩
        · exact ⟨code, ⟨other, List.mem_cons_of_mem _ member, inside⟩, inserted⟩
      · rintro ⟨code, ⟨other, member, least, most⟩, inserted⟩
        rcases List.mem_cons.mp member with rfl | behind
        · exact Or.inl ⟨code, least, most, rfl, inserted⟩
        · exact Or.inr ⟨code, ⟨other, behind, least, most⟩, inserted⟩

/-- A search of intervals panics exactly when one of them is reversed. -/
theorem SpatialMortonProjection.sequencesInIntervals_error (projection : SpatialMortonProjection)
    (intervals : List (UInt64 × UInt64)) : projection.sequencesInIntervals intervals = .error .rangeStart ↔
      (∃ interval ∈ intervals, interval.2 < interval.1) ∧
        (projection.entries.isEmpty = false ∨ ReversedRange.panicsOnEmpty) := by
  rw [sequencesInIntervals, Except.bind_eq_error]
  rcases Except.mapM_cases (fun interval : UInt64 × UInt64 => projection.entries.range interval.1 interval.2) intervals
    with ⟨values, all, each⟩ | ⟨error, stops, interval, member, fails⟩
  · refine iff_of_false ?_ ?_
    · rintro (failed | ⟨_, _, sorted⟩)
      · cases all.symm.trans failed
      · cases sorted
    · rintro ⟨⟨interval, member, reversed⟩, refused⟩
      obtain ⟨selected, range⟩ := each interval member
      cases range.symm.trans (Postings.range_error.mpr ⟨reversed, refused⟩)
  · have kind : error = .rangeStart := by
      rcases Postings.range_cases projection.entries interval.1 interval.2 with reversed | ⟨selected, range⟩
      · exact Except.error.inj (fails.symm.trans reversed)
      · cases fails.symm.trans range
    rw [kind] at stops fails
    obtain ⟨reversed, refused⟩ := Postings.range_error.mp fails
    exact iff_of_true (Or.inl stops) ⟨⟨interval, member, reversed⟩, refused⟩

theorem TemporalProjection.sequencesInRange_cases (projection : TemporalProjection) (clock : ClockId)
    (minTicks maxTicks : UInt64) : projection.sequencesInRange clock minTicks maxTicks = .error .rangeStart ∨
      ∃ found, projection.sequencesInRange clock minTicks maxTicks = .ok found := by
  unfold sequencesInRange
  rcases Postings.range_cases projection.entries (toLex (clock, minTicks)) (toLex (clock, maxTicks)) with
    reversed | ⟨selected, range⟩
  · exact Or.inl (by rw [reversed, Except.error_bind])
  · exact Or.inr ⟨_, by rw [range, Except.ok_bind]; rfl⟩

theorem SpatialMortonProjection.sequencesInIntervals_cases (projection : SpatialMortonProjection)
    (intervals : List (UInt64 × UInt64)) : projection.sequencesInIntervals intervals = .error .rangeStart ∨
      ∃ found, projection.sequencesInIntervals intervals = .ok found := by
  unfold sequencesInIntervals
  rcases Except.mapM_cases (fun interval : UInt64 × UInt64 => projection.entries.range interval.1 interval.2) intervals
    with ⟨values, all, -⟩ | ⟨error, stops, interval, -, fails⟩
  · exact Or.inr ⟨_, by rw [all, Except.ok_bind]; rfl⟩
  · rcases Postings.range_cases projection.entries interval.1 interval.2 with reversed | ⟨selected, range⟩
    · obtain rfl := Except.error.inj (fails.symm.trans reversed)
      exact Or.inl (by rw [stops, Except.error_bind])
    · cases fails.symm.trans range

end Searches

/-- One call that indexes an event. -/
structure IndexedEvent where
  sequence : UInt64
  entity : EntityId
  schema : SchemaId
  validTime : Timestamp
  spatialCoords : Option (UInt32 × UInt32)
  chunker : Option GridChunker2D

/-- The code of the chunk in which the event is placed. -/
def IndexedEvent.code (event : IndexedEvent) : Option UInt64 :=
  match event.spatialCoords, event.chunker with
  | some (x, y), some chunker => some (chunker.chunkMorton x y)
  | _, _ => none

namespace ProjectionIndex

def index (index : ProjectionIndex) (event : IndexedEvent) : ProjectionIndex :=
  index.indexEvent event.sequence event.entity event.schema event.validTime event.spatialCoords event.chunker

/-- The events are indexed one after the other. -/
def ofEvents (events : List IndexedEvent) : ProjectionIndex := events.foldl index new

theorem ofEvents_concat (events : List IndexedEvent) (event : IndexedEvent) :
    ofEvents (events ++ [event]) = (ofEvents events).index event := List.foldl_concat _ _ _ _

theorem ofEvents_entities (events : List IndexedEvent) : (ofEvents events).entities.entries =
    Postings.ofList (events.map fun event => (event.entity, event.sequence)) := by
  induction events using List.reverseRecOn with
  | nil => rfl
  | append_singleton events event hypothesis =>
      rw [ofEvents_concat, List.map_append, List.map_singleton, Postings.ofList_concat, ← hypothesis]
      rfl

theorem ofEvents_schemas (events : List IndexedEvent) : (ofEvents events).schemas.entries =
    Postings.ofList (events.map fun event => (event.schema, event.sequence)) := by
  induction events using List.reverseRecOn with
  | nil => rfl
  | append_singleton events event hypothesis =>
      rw [ofEvents_concat, List.map_append, List.map_singleton, Postings.ofList_concat, ← hypothesis]
      rfl

theorem ofEvents_temporal (events : List IndexedEvent) : (ofEvents events).temporal.entries =
    Postings.ofList (events.map fun event =>
      (toLex (event.validTime.clock, event.validTime.ticks), event.sequence)) := by
  induction events using List.reverseRecOn with
  | nil => rfl
  | append_singleton events event hypothesis =>
      rw [ofEvents_concat, List.map_append, List.map_singleton, Postings.ofList_concat, ← hypothesis]
      rfl

theorem ofEvents_spatial (events : List IndexedEvent) : (ofEvents events).spatial.entries =
    Postings.ofList (events.filterMap fun event => event.code.map (·, event.sequence)) := by
  induction events using List.reverseRecOn with
  | nil => rfl
  | append_singleton events event hypothesis =>
      rw [ofEvents_concat, List.filterMap_append]
      obtain ⟨sequence, entity, schema, validTime, coords, chunker⟩ := event
      rcases coords with _ | ⟨x, y⟩
      · exact hypothesis.trans (congrArg _ (List.append_nil _).symm)
      · cases chunker with
        | none => exact hypothesis.trans (congrArg _ (List.append_nil _).symm)
        | some chunker =>
            refine Eq.trans ?_ (Postings.ofList_concat _ _ _).symm
            rw [← hypothesis]
            rfl

end ProjectionIndex

/-- The conditions of a query. Those that are left out hold of every event. -/
structure Predicates where
  entity : Option EntityId
  schema : Option SchemaId
  timeRange : Option (ClockId × UInt64 × UInt64)
  spatialIntervals : Option (List (UInt64 × UInt64))

namespace Predicates

/-- At least one condition is given. -/
def Given (predicates : Predicates) : Prop := predicates.entity.isSome ∨ predicates.schema.isSome ∨
  predicates.timeRange.isSome ∨ predicates.spatialIntervals.isSome

/-- No range of the query is reversed. -/
def Ordered (predicates : Predicates) : Prop :=
  (∀ clock low high, predicates.timeRange = some (clock, low, high) → low ≤ high) ∧
    ∀ intervals, predicates.spatialIntervals = some intervals → ∀ interval ∈ intervals, interval.1 ≤ interval.2

def HoldsTime (event : IndexedEvent) : ClockId × UInt64 × UInt64 → Prop
  | (clock, low, high) => event.validTime.clock = clock ∧ low ≤ event.validTime.ticks ∧ event.validTime.ticks ≤ high

/-- An event without a place is in no interval. -/
def HoldsPlace (event : IndexedEvent) (intervals : List (UInt64 × UInt64)) : Prop :=
  ∃ code, event.code = some code ∧ ∃ interval ∈ intervals, interval.1 ≤ code ∧ code ≤ interval.2

/-- The event meets every condition that is given. -/
def Holds (predicates : Predicates) (event : IndexedEvent) : Prop :=
  (∀ entity, predicates.entity = some entity → event.entity = entity) ∧
    (∀ schema, predicates.schema = some schema → event.schema = schema) ∧
      (∀ range, predicates.timeRange = some range → HoldsTime event range) ∧
        ∀ intervals, predicates.spatialIntervals = some intervals → HoldsPlace event intervals

end Predicates

namespace ProjectionIndex

section Exact

variable {events : List IndexedEvent}

/-- The sequence numbers of the events with a property. -/
def Among (events : List IndexedEvent) (holds : IndexedEvent → Prop) (sequence : UInt64) : Prop :=
  ∃ event ∈ events, event.sequence = sequence ∧ holds event

theorem finds_entity (ascending : events.Pairwise (·.sequence < ·.sequence)) (entity : EntityId) :
    Finds (Among events (·.entity = entity)) ((ofEvents events).entities.sequencesForEntity entity) := by
  unfold EntityProjection.sequencesForEntity
  rw [ofEvents_entities]
  refine ⟨Postings.ofList_ascending (List.pairwise_map.mpr ascending), fun sequence => ?_⟩
  rw [Postings.mem_ofList, List.mem_map]
  simp only [Prod.mk.injEq, and_comm, Among]

theorem finds_schema (ascending : events.Pairwise (·.sequence < ·.sequence)) (schema : SchemaId) :
    Finds (Among events (·.schema = schema)) ((ofEvents events).schemas.sequencesForSchema schema) := by
  unfold SchemaBitmapProjection.sequencesForSchema
  rw [ofEvents_schemas]
  refine ⟨Postings.ofList_ascending (List.pairwise_map.mpr ascending), fun sequence => ?_⟩
  rw [Postings.mem_ofList, List.mem_map]
  simp only [Prod.mk.injEq, and_comm, Among]

variable [ReversedRange]

theorem finds_time {clock : ClockId} {low high : UInt64} {found : List UInt64}
    (answered : (ofEvents events).temporal.sequencesInRange clock low high = .ok found) :
    Finds (Among events (Predicates.HoldsTime · (clock, low, high))) found := by
  apply (TemporalProjection.sequencesInRange_ok answered).congr
  intro sequence
  simp only [ofEvents_temporal, Postings.mem_ofList, List.mem_map, Prod.mk.injEq, toLex_inj]
  constructor
  · rintro ⟨ticks, least, most, event, member, ⟨rfl, rfl⟩, rfl⟩
    exact ⟨event, member, rfl, rfl, least, most⟩
  · rintro ⟨event, member, rfl, rfl, least, most⟩
    exact ⟨_, least, most, event, member, ⟨rfl, rfl⟩, rfl⟩

theorem finds_place {intervals : List (UInt64 × UInt64)} {found : List UInt64}
    (answered : (ofEvents events).spatial.sequencesInIntervals intervals = .ok found) :
    Finds (Among events (Predicates.HoldsPlace · intervals)) found := by
  apply (SpatialMortonProjection.sequencesInIntervals_ok answered).congr
  intro sequence
  simp only [ofEvents_spatial, Postings.mem_ofList, List.mem_filterMap, Option.map_eq_some_iff, Prod.mk.injEq]
  constructor
  · rintro ⟨code, inside, event, member, code', placed, rfl, rfl⟩
    exact ⟨event, member, rfl, code', placed, inside⟩
  · rintro ⟨event, member, rfl, code, placed, inside⟩
    exact ⟨code, inside, event, member, code, placed, rfl, rfl⟩

/-- The candidates are the events with the property. Without candidates every event has it. -/
def Represents (events : List IndexedEvent) (holds : IndexedEvent → Prop) : Option (List UInt64) → Prop
  | none => ∀ event, holds event
  | some candidates => Finds (Among events holds) candidates

omit [ReversedRange] in
/-- Two events with one sequence number are the same. -/
theorem among_and (ascending : events.Pairwise (·.sequence < ·.sequence)) {holds other : IndexedEvent → Prop}
    (sequence : UInt64) : Among events holds sequence ∧ Among events other sequence ↔
      Among events (fun event => holds event ∧ other event) sequence := by
  constructor
  · rintro ⟨⟨event, member, rfl, one⟩, event', member', same, two⟩
    have apart : (events.map IndexedEvent.sequence).Nodup :=
      List.pairwise_map.mpr (ascending.imp fun less => ne_of_lt less)
    have equal : event' = event := List.inj_on_of_nodup_map apart member' member same
    exact ⟨event, member, rfl, one, equal ▸ two⟩
  · rintro ⟨event, member, same, one, two⟩
    exact ⟨⟨event, member, same, one⟩, event, member, same, two⟩

omit [ReversedRange] in
theorem Represents.start : Represents events (fun _ => True) none := fun _ => trivial

omit [ReversedRange] in
/-- No event is left for a stronger property when there is no candidate. -/
theorem Represents.exhausted {holds wanted : IndexedEvent → Prop} (represents : Represents events holds (some []))
    (stronger : ∀ event, wanted event → holds event) : Finds (Among events wanted) [] := by
  refine ⟨List.Pairwise.nil, fun sequence => iff_of_false List.not_mem_nil ?_⟩
  rintro ⟨event, member, same, holds⟩
  exact absurd ((represents.2 sequence).mpr ⟨event, member, same, stronger event holds⟩) List.not_mem_nil

omit [ReversedRange] in
/-- A condition leaves the candidates that meet it. -/
theorem restrict_ok {P : Type} {predicate : Option P} {search : P → Except Panic (List UInt64)}
    {candidates next : Option (List UInt64)} {holds : IndexedEvent → Prop} (meets : P → IndexedEvent → Prop)
    (ascending : events.Pairwise (·.sequence < ·.sequence)) (represents : Represents events holds candidates)
    (finds : ∀ wanted found, predicate = some wanted → search wanted = .ok found → Finds (Among events (meets wanted)) found)
    (answered : restrict predicate search candidates = .ok next) :
    Represents events (fun event => holds event ∧ ∀ wanted, predicate = some wanted → meets wanted event) next ∧
      (next = none → predicate = none ∧ candidates = none) := by
  cases predicate with
  | none =>
      obtain rfl := Except.ok.inj answered
      refine ⟨?_, fun absent => ⟨rfl, absent⟩⟩
      simpa only [reduceCtorEq, false_implies, implies_true, and_true] using represents
  | some wanted =>
      obtain ⟨found, searched, rfl⟩ := Except.map_eq_ok.mp answered
      have meeting := finds wanted found rfl searched
      refine ⟨?_, nofun⟩
      simp only [Option.some.injEq, forall_eq']
      cases candidates with
      | none =>
          apply meeting.congr
          intro sequence
          have every : ∀ event, holds event ∧ meets wanted event ↔ meets wanted event := fun event =>
            and_iff_right (represents event)
          simp only [Among, every]
      | some candidates => exact (Finds.intersect represents meeting).congr (among_and ascending)

/-- A query that answers finds the events that meet its conditions. -/
theorem queryIntersect_ok (ascending : events.Pairwise (·.sequence < ·.sequence)) {predicates : Predicates}
    (given : predicates.Given) {found : List UInt64}
    (answered : (ofEvents events).queryIntersect predicates.entity predicates.schema predicates.timeRange
      predicates.spatialIntervals = .ok found) : Finds (Among events predicates.Holds) found := by
  unfold queryIntersect at answered
  obtain ⟨first, entity, answered⟩ := Except.bind_eq_ok.mp answered
  obtain ⟨one, absent⟩ := restrict_ok (fun wanted event => event.entity = wanted) ascending Represents.start
    (fun wanted _ _ same => Except.ok.inj same ▸ finds_entity ascending wanted) entity
  split at answered
  · next empty =>
      obtain rfl := Except.ok.inj answered
      exact (empty ▸ one).exhausted fun event holds => ⟨trivial, holds.1⟩
  obtain ⟨second, schema, answered⟩ := Except.bind_eq_ok.mp answered
  obtain ⟨two, schemas⟩ := restrict_ok (fun wanted event => event.schema = wanted) ascending one
    (fun wanted _ _ same => Except.ok.inj same ▸ finds_schema ascending wanted) schema
  split at answered
  · next empty =>
      obtain rfl := Except.ok.inj answered
      exact (empty ▸ two).exhausted fun event holds => ⟨⟨trivial, holds.1⟩, holds.2.1⟩
  obtain ⟨third, time, answered⟩ := Except.bind_eq_ok.mp answered
  obtain ⟨three, timed⟩ := restrict_ok (fun wanted event => Predicates.HoldsTime event wanted) ascending two
    (fun _ _ _ searched => finds_time searched) time
  split at answered
  · next empty =>
      obtain rfl := Except.ok.inj answered
      exact (empty ▸ three).exhausted fun event holds => ⟨⟨⟨trivial, holds.1⟩, holds.2.1⟩, holds.2.2.1⟩
  obtain ⟨last, place, answered⟩ := Except.bind_eq_ok.mp answered
  obtain ⟨four, placed⟩ := restrict_ok (fun wanted event => Predicates.HoldsPlace event wanted) ascending three
    (fun _ _ _ searched => finds_place searched) place
  obtain rfl := Except.ok.inj answered
  cases last with
  | none =>
      obtain ⟨noPlace, noThird⟩ := placed rfl
      obtain ⟨noTime, noSecond⟩ := timed noThird
      obtain ⟨noSchema, noFirst⟩ := schemas noSecond
      simp [Predicates.Given, (absent noFirst).1, noSchema, noTime, noPlace] at given
  | some candidates =>
      apply Finds.congr four
      intro sequence
      simp only [Among, Predicates.Holds, true_and, and_assoc]

omit [ReversedRange] in
/-- A condition answers when its search does. -/
theorem restrict_answers {P : Type} {predicate : Option P} {search : P → Except Panic (List UInt64)}
    (candidates : Option (List UInt64))
    (answers : ∀ wanted, predicate = some wanted → ∃ found, search wanted = .ok found) :
    ∃ next, restrict predicate search candidates = .ok next := by
  cases predicate with
  | none => exact ⟨candidates, rfl⟩
  | some wanted =>
      obtain ⟨found, searched⟩ := answers wanted rfl
      exact ⟨_, Except.map_eq_ok.mpr ⟨found, searched, rfl⟩⟩

/-- A query without reversed ranges answers. -/
theorem queryIntersect_answers (index : ProjectionIndex) {predicates : Predicates} (ordered : predicates.Ordered) :
    ∃ found, index.queryIntersect predicates.entity predicates.schema predicates.timeRange
      predicates.spatialIntervals = .ok found := by
  obtain ⟨first, entity⟩ := restrict_answers none fun wanted (_ : predicates.entity = some wanted) =>
    ⟨index.entities.sequencesForEntity wanted, rfl⟩
  obtain ⟨second, schema⟩ := restrict_answers first fun wanted (_ : predicates.schema = some wanted) =>
    ⟨index.schemas.sequencesForSchema wanted, rfl⟩
  have times : ∀ range, predicates.timeRange = some range →
      ∃ found, index.temporal.sequencesInRange range.1 range.2.1 range.2.2 = .ok found := by
    rintro ⟨clock, low, high⟩ range
    rcases index.temporal.sequencesInRange_cases clock low high with panics | answers
    · have reversed := ((index.temporal.sequencesInRange_error clock low high).mp panics).1
      exact absurd reversed (not_lt.mpr (ordered.1 clock low high range))
    · exact answers
  have places : ∀ intervals, predicates.spatialIntervals = some intervals →
      ∃ found, index.spatial.sequencesInIntervals intervals = .ok found := by
    intro intervals given
    rcases index.spatial.sequencesInIntervals_cases intervals with panics | answers
    · obtain ⟨⟨interval, member, reversed⟩, -⟩ := (index.spatial.sequencesInIntervals_error intervals).mp panics
      exact absurd reversed (not_lt.mpr (ordered.2 intervals given interval member))
    · exact answers
  obtain ⟨third, time⟩ := restrict_answers second times
  obtain ⟨last, place⟩ := restrict_answers third places
  unfold queryIntersect
  rw [entity, Except.ok_bind]
  split
  · exact ⟨[], rfl⟩
  rw [schema, Except.ok_bind]
  split
  · exact ⟨[], rfl⟩
  rw [time, Except.ok_bind]
  split
  · exact ⟨[], rfl⟩
  rw [place, Except.ok_bind]
  exact ⟨last.getD [], rfl⟩

/-- A query finds, in ascending order, exactly the events that meet its conditions. -/
theorem query_intersect_exact (ascending : events.Pairwise (·.sequence < ·.sequence)) {predicates : Predicates}
    (given : predicates.Given) (ordered : predicates.Ordered) :
    ∃ found, (ofEvents events).queryIntersect predicates.entity predicates.schema predicates.timeRange
        predicates.spatialIntervals = .ok found ∧ found.Pairwise (· < ·) ∧
      ∀ sequence, sequence ∈ found ↔ ∃ event ∈ events, event.sequence = sequence ∧ predicates.Holds event := by
  obtain ⟨found, answered⟩ := queryIntersect_answers (ofEvents events) ordered
  obtain ⟨sorted, exactly⟩ := queryIntersect_ok ascending given answered
  exact ⟨found, answered, sorted, exactly⟩

end Exact

/-- Of two events the second one has the entity that is asked for. -/
theorem query_intersect_exact_sample :
    ∃ found, @queryIntersect ⟨true⟩ (ofEvents [⟨0, ⟨0, 0, 0⟩, 1, ⟨1, 7⟩, none, none⟩, ⟨1, ⟨0, 1, 0⟩, 1, ⟨1, 8⟩, none, none⟩])
        (some ⟨0, 1, 0⟩) none (some (1, 5, 9)) none = .ok found ∧ found.Pairwise (· < ·) ∧
      ∀ sequence, sequence ∈ found ↔ ∃ event ∈ [(⟨0, ⟨0, 0, 0⟩, 1, ⟨1, 7⟩, none, none⟩ : IndexedEvent),
        ⟨1, ⟨0, 1, 0⟩, 1, ⟨1, 8⟩, none, none⟩], event.sequence = sequence ∧
          Predicates.Holds ⟨some ⟨0, 1, 0⟩, none, some (1, 5, 9), none⟩ event := by
  refine @query_intersect_exact _ ⟨true⟩ (by decide) ⟨some ⟨0, 1, 0⟩, none, some (1, 5, 9), none⟩ (Or.inl rfl) ⟨?_, nofun⟩
  intro clock low high same
  cases same
  decide

end ProjectionIndex

end Temnion.Index
