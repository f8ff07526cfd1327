import Temnion.Library.Runs
import Temnion.Library.Words
import Temnion.Storage.ManifestCodec

/-
This file says which segments a manifest holds after any run of registrations and of retirements.
-/

namespace Temnion.Storage

namespace SealedSegmentMeta

/-- The sequences that the segment covers. The first one decides the order, and then the last one. -/
def range (segment : SealedSegmentMeta) : UInt64 ×ₗ UInt64 := toLex (segment.firstSequence, segment.lastSequence)

variable {first second : SealedSegmentMeta}

theorem range_eq_iff :
    first.range = second.range ↔
      first.firstSequence = second.firstSequence ∧ first.lastSequence = second.lastSequence := by
  rw [range, range, toLex.injective.eq_iff, Prod.mk.injEq]

theorem sameRange_iff : first.sameRange second = true ↔ first.range = second.range := by
  rw [sameRange, Bool.and_eq_true, beq_iff_eq, beq_iff_eq, range_eq_iff]

theorem before_iff : before first second = true ↔ first.range ≤ second.range := by
  simp only [before, Bool.or_eq_true, Bool.and_eq_true, decide_eq_true_eq, beq_iff_eq, range, Prod.Lex.toLex_le_toLex]

/-- Segments of one range cover the same sequences. -/
theorem covers_eq (same : first.range = second.range) (sequence : UInt64) :
    first.covers sequence = second.covers sequence := by
  obtain ⟨start, stop⟩ := range_eq_iff.mp same
  rw [covers, covers, start, stop]

end SealedSegmentMeta

open Format SealedSegmentMeta

namespace SegmentManifest

/-- What the store changes in its manifest. -/
inductive Update where
  | register (segment : SealedSegmentMeta)
  | retire (upToSequence : Option UInt64)
  deriving DecidableEq

def update (manifest : SegmentManifest) : Update → SegmentManifest
  | .register segment => manifest.registerSegment segment
  | .retire upToSequence => { manifest with retiredUpToSequence := upToSequence }

/-- The segment is the last one of its range that was registered. -/
def Latest (updates : List Update) (segment : SealedSegmentMeta) : Prop :=
  ∃ earlier later, updates = earlier ++ Update.register segment :: later ∧
    ∀ other, Update.register other ∈ later → other.range ≠ segment.range

section Latest

variable {updates : List Update} {segment other : SealedSegmentMeta}

theorem latest_register (updates : List Update) (segment : SealedSegmentMeta) :
    Latest (updates ++ [.register segment]) segment :=
  ⟨updates, [], rfl, fun _ member => absurd member List.not_mem_nil⟩

theorem Latest.mem (latest : Latest updates segment) : Update.register segment ∈ updates := by
  obtain ⟨earlier, later, rfl, -⟩ := latest
  exact List.mem_append_right _ List.mem_cons_self

/-- Of the segments before the last update those remain that it does not replace. -/
theorem latest_concat {update : Update} :
    Latest (updates ++ [update]) segment ↔
      update = .register segment ∨
        Latest updates segment ∧ ∀ other, update = .register other → other.range ≠ segment.range := by
  constructor
  · rintro ⟨earlier, later, split, free⟩
    rcases List.eq_nil_or_concat later with rfl | ⟨front, final, rfl⟩
    · left
      exact (List.append_inj' split rfl).2 |> List.cons.inj |>.1
    · rw [List.concat_eq_append, ← List.cons_append, ← List.append_assoc] at split
      rw [List.concat_eq_append] at free
      obtain ⟨rfl, final⟩ := List.append_inj' split rfl
      obtain rfl := (List.cons.inj final).1
      right
      refine ⟨⟨earlier, front, rfl, fun other member => free other (List.mem_append_left _ member)⟩, ?_⟩
      rintro other rfl
      exact free other (List.mem_append_right _ List.mem_cons_self)
  · rintro (rfl | ⟨⟨earlier, later, rfl, free⟩, other⟩)
    · exact latest_register updates segment
    · refine ⟨earlier, later ++ [update], by rw [List.append_assoc, List.cons_append], fun changed member => ?_⟩
      rcases List.mem_append.mp member with behind | final
      · exact free changed behind
      · exact other changed (List.mem_singleton.mp final).symm

end Latest

section Registered

variable {manifest : SegmentManifest} {segment other : SealedSegmentMeta} {updates : List Update}

def ranges (manifest : SegmentManifest) : List (UInt64 ×ₗ UInt64) := manifest.sealedSegments.map range

/-- The segments are in the order of their ranges, and no two of them have the same one. -/
def Ordered (manifest : SegmentManifest) : Prop := manifest.ranges.Pairwise (· < ·)

theorem Ordered.eq_of_range (ordered : manifest.Ordered) (one : segment ∈ manifest.sealedSegments)
    (two : other ∈ manifest.sealedSegments) (same : segment.range = other.range) : segment = other :=
  List.inj_on_of_nodup_map (ordered.imp ne_of_lt) one two same

theorem findIdx?_sameRange {position : Nat}
    (found : manifest.sealedSegments.findIdx? (·.sameRange segment) = some position) :
    manifest.ranges[position]? = some segment.range := by
  obtain ⟨inside, same, -⟩ := List.findIdx?_eq_some_iff_getElem.mp found
  rw [ranges, List.getElem?_map, List.getElem?_eq_getElem inside, Option.map_some, sameRange_iff.mp same]

theorem Ordered.registerSegment (ordered : manifest.Ordered) (segment : SealedSegmentMeta) :
    (manifest.registerSegment segment).Ordered := by
  unfold SegmentManifest.registerSegment
  split
  · next position found =>
      have kept : (manifest.sealedSegments.set position segment).map range = manifest.ranges := by
        obtain ⟨inside, here⟩ := List.getElem?_eq_some_iff.mp (findIdx?_sameRange found)
        rw [List.map_set, ← here]
        exact List.set_getElem_self inside
      change List.Pairwise (· < ·) ((manifest.sealedSegments.set position segment).map range)
      rw [kept]
      exact ordered
  · next fresh =>
      have absent : segment.range ∉ manifest.ranges := by
        intro member
        obtain ⟨other, inside, same⟩ := List.mem_map.mp member
        exact Bool.false_ne_true ((List.findIdx?_eq_none_iff.mp fresh other inside).symm.trans (sameRange_iff.mpr same))
      have weak : ((manifest.sealedSegments ++ [segment]).mergeSort before).Pairwise
          fun first second => first.range ≤ second.range := by
        refine (List.pairwise_mergeSort (fun first second third one two => ?_) (fun first second => ?_) _).imp
          before_iff.mp
        · exact before_iff.mpr ((before_iff.mp one).trans (before_iff.mp two))
        · rw [Bool.or_eq_true, before_iff, before_iff]
          exact le_total _ _
      have different : (((manifest.sealedSegments ++ [segment]).mergeSort before).map range).Nodup := by
        rw [((List.mergeSort_perm _ _).map range).nodup_iff, List.map_append, List.map_singleton]
        refine List.nodup_append.mpr ⟨ordered.imp ne_of_lt, List.nodup_singleton _, ?_⟩
        rintro one member two single rfl
        exact absent (List.mem_singleton.mp single ▸ member)
      exact ((List.pairwise_map.mpr weak).and different).imp fun both => lt_of_le_of_ne both.1 both.2

/-- The new segment takes the place of the one of its range. -/
theorem Ordered.mem_registerSegment_iff (ordered : manifest.Ordered) :
    other ∈ (manifest.registerSegment segment).sealedSegments ↔
      other = segment ∨ other ∈ manifest.sealedSegments ∧ other.range ≠ segment.range := by
  constructor
  · intro member
    by_cases same : other.range = segment.range
    · exact Or.inl ((ordered.registerSegment segment).eq_of_range member (mem_registerSegment_self manifest segment) same)
    · rcases mem_of_mem_registerSegment member with equal | old
      · exact Or.inl equal
      · exact Or.inr ⟨old, same⟩
  · rintro (rfl | ⟨old, different⟩)
    · exact mem_registerSegment_self manifest other
    · exact (mem_registerSegment old).resolve_left fun same => different (sameRange_iff.mp same)

/-- The manifest holds the latest segment of every range, in the order of the ranges. -/
theorem updates_hold_latest (database : DatabaseId) (source : SourceId) (epoch : SourceEpoch) (updates : List Update) :
    (updates.foldl update (new database source epoch)).Ordered ∧ ∀ segment,
      segment ∈ (updates.foldl update (new database source epoch)).sealedSegments ↔ Latest updates segment := by
  induction updates using List.reverseRecOn with
  | nil =>
      refine ⟨List.Pairwise.nil, fun segment => ⟨fun member => absurd member List.not_mem_nil, ?_⟩⟩
      exact fun latest => absurd latest.mem List.not_mem_nil
  | append_singleton updates final hypothesis =>
      obtain ⟨ordered, latest⟩ := hypothesis
      rw [Runs.foldl_concat]
      generalize updates.foldl update (new database source epoch) = manifest at ordered latest
      cases final with
      | register added =>
          refine ⟨ordered.registerSegment added, fun segment => ?_⟩
          rw [latest_concat, ← latest, Update.register.injEq]
          refine ordered.mem_registerSegment_iff.trans (or_congr eq_comm (and_congr_right fun _ => ?_))
          constructor
          · rintro different other same
            rw [← Update.register.inj same]
            exact different.symm
          · exact fun different => (different added rfl).symm
      | retire upToSequence =>
          refine ⟨ordered, fun segment => (latest segment).trans ?_⟩
          rw [latest_concat]
          simp only [reduceCtorEq, false_or, false_imp_iff, implies_true, and_true]

theorem isSequenceSealed_iff {sequence : UInt64} :
    manifest.isSequenceSealed sequence = true ↔
      ∃ segment ∈ manifest.sealedSegments, segment.covers sequence = true := by
  rw [isSequenceSealed, List.any_eq_true]

theorem mem_of_findSegmentForSequence {sequence : UInt64}
    (hit : manifest.findSegmentForSequence sequence = some segment) :
    segment ∈ manifest.sealedSegments ∧ segment.covers sequence = true := by
  rw [findSegmentForSequence] at hit
  exact ⟨List.mem_of_find?_eq_some hit, by simpa using List.find?_some hit⟩

theorem exists_findSegmentForSequence {sequence : UInt64} (inside : segment ∈ manifest.sealedSegments)
    (covered : segment.covers sequence = true) : ∃ found, manifest.findSegmentForSequence sequence = some found := by
  rw [findSegmentForSequence]
  refine Option.isSome_iff_exists.mp (List.find?_isSome.mpr ?_)
  exact ⟨segment, inside, covered⟩

/-- The segment that is found for a sequence is the one in front of all others that cover it. -/
theorem Ordered.findSegmentForSequence_iff (ordered : manifest.Ordered) {sequence : UInt64} :
    manifest.findSegmentForSequence sequence = some segment ↔
      segment ∈ manifest.sealedSegments ∧ segment.covers sequence = true ∧
        ∀ other ∈ manifest.sealedSegments, other.covers sequence = true → segment.range ≤ other.range := by
  have first : ∀ found, manifest.findSegmentForSequence sequence = some found →
      ∀ other ∈ manifest.sealedSegments, other.covers sequence = true → found.range ≤ other.range := by
    intro found hit other inside covered
    obtain ⟨-, front, back, split, uncovered⟩ := List.find?_eq_some_iff_append.mp hit
    have after := List.pairwise_map.mp ordered
    rw [split, List.pairwise_append] at after
    rw [split, List.mem_append] at inside
    rcases inside with before | behind
    · exact absurd covered (by simpa using uncovered other before)
    · rcases List.mem_cons.mp behind with rfl | behind
      · exact le_refl _
      · exact le_of_lt ((List.pairwise_cons.mp after.2.1).1 other behind)
  constructor
  · intro hit
    obtain ⟨inside, covered⟩ := mem_of_findSegmentForSequence hit
    exact ⟨inside, covered, first segment hit⟩
  · rintro ⟨inside, covered, least⟩
    obtain ⟨found, hit⟩ := exists_findSegmentForSequence inside covered
    obtain ⟨inside', covered'⟩ := mem_of_findSegmentForSequence hit
    have same := le_antisymm (first found hit segment inside covered) (least found inside' covered')
    rw [hit, ordered.eq_of_range inside' inside same]

/-- After any run of updates the manifest holds the latest segment of every range in ascending order, finds for every
sequence the first segment that covers it, and reads back from its bytes. -/
theorem updates_round_trip [Crc32fast] (database : DatabaseId) (source : SourceId) (epoch : SourceEpoch)
    {updates : List Update} (named : ∀ segment, Update.register segment ∈ updates → Named segment)
    (counted : (updates.foldl update (new database source epoch)).sealedSegments.length < 2 ^ 32) :
    let manifest := updates.foldl update (new database source epoch)
    decode manifest.encode = .ok manifest ∧ manifest.Ordered ∧
      (∀ segment, segment ∈ manifest.sealedSegments ↔ Latest updates segment) ∧
      ∀ sequence,
        (manifest.isSequenceSealed sequence = true ↔ ∃ segment, Latest updates segment ∧ segment.covers sequence = true) ∧
        ∀ segment, manifest.findSegmentForSequence sequence = some segment ↔
          Latest updates segment ∧ segment.covers sequence = true ∧
            ∀ other, Latest updates other → other.covers sequence = true → segment.range ≤ other.range := by
  intro manifest
  obtain ⟨ordered, latest⟩ := updates_hold_latest database source epoch updates
  refine ⟨decode_encode (fun segment member => named segment ((latest segment).mp member).mem) counted, ordered, latest,
    fun sequence => ⟨?_, fun segment => ?_⟩⟩
  · rw [isSequenceSealed_iff]
    exact exists_congr fun segment => and_congr_left fun _ => latest segment
  · rw [ordered.findSegmentForSequence_iff, latest]
    exact and_congr_right fun _ => and_congr_right fun _ => forall_congr' fun other => imp_congr_left (latest other)

end Registered

/-- A segment of two sequences. -/
def sampleSegment (byteLength : UInt64) : SealedSegmentMeta := ⟨3, 4, "a", byteLength, 7, 9⟩

def sampleUpdates : List Update := [.register (sampleSegment 1), .retire (some 3), .register (sampleSegment 2)]

theorem sampleUpdates_result : sampleUpdates.foldl update (new ⟨List.replicate 16 0, rfl⟩ 1 1) =
    ⟨⟨List.replicate 16 0, rfl⟩, 1, 1, [sampleSegment 2], some 3⟩ := by
  have first : (new ⟨List.replicate 16 0, rfl⟩ 1 1).registerSegment (sampleSegment 1) =
      ⟨⟨List.replicate 16 0, rfl⟩, 1, 1, [sampleSegment 1], none⟩ := by
    simp [registerSegment, new]
  change (SegmentManifest.update ((new ⟨List.replicate 16 0, rfl⟩ 1 1).registerSegment (sampleSegment 1))
    (.retire (some 3))).registerSegment (sampleSegment 2) = _
  rw [first]
  rfl

theorem updates_round_trip_sample :
    letI := Crc32fast.ieee
    (∀ segment, Update.register segment ∈ sampleUpdates → Named segment) ∧
      (sampleUpdates.foldl update (new ⟨List.replicate 16 0, rfl⟩ 1 1)).sealedSegments.length < 2 ^ 32 ∧
      decode (encode ⟨⟨List.replicate 16 0, rfl⟩, 1, 1, [sampleSegment 2], some 3⟩) =
        .ok ⟨⟨List.replicate 16 0, rfl⟩, 1, 1, [sampleSegment 2], some 3⟩ := by
  generalize Crc32fast.ieee = checksum
  have named : ∀ segment, Update.register segment ∈ sampleUpdates → Named segment := by
    intro segment member
    simp only [sampleUpdates, List.mem_cons, Update.register.injEq, reduceCtorEq, List.not_mem_nil, or_false,
      false_or] at member
    rcases member with rfl | rfl
    · change (Utf8.encode "a".toList).length < 2 ^ 16
      decide
    · change (Utf8.encode "a".toList).length < 2 ^ 16
      decide
  have counted : (sampleUpdates.foldl update (new ⟨List.replicate 16 0, rfl⟩ 1 1)).sealedSegments.length < 2 ^ 32 := by
    rw [sampleUpdates_result]
    decide
  refine ⟨named, counted, ?_⟩
  rw [← sampleUpdates_result]
  exact (updates_round_trip ⟨List.replicate 16 0, rfl⟩ 1 1 named counted).1

end SegmentManifest

end Temnion.Storage
