import Temnion.Core

/-
This file defines the manifest of the sealed segments.
-/

namespace Temnion.Storage

structure SealedSegmentMeta where
  firstSequence : UInt64
  lastSequence : UInt64
  filename : String
  byteLength : UInt64
  crc32 : UInt32
  sealedAtTicks : UInt64
  deriving DecidableEq, Repr

structure SegmentManifest where
  database : DatabaseId
  source : SourceId
  epoch : SourceEpoch
  sealedSegments : List SealedSegmentMeta
  retiredUpToSequence : Option UInt64
  deriving DecidableEq

namespace SealedSegmentMeta

def covers (segment : SealedSegmentMeta) (sequence : UInt64) : Bool :=
  decide (segment.firstSequence ≤ sequence) && decide (sequence ≤ segment.lastSequence)

def sameRange (first second : SealedSegmentMeta) : Bool :=
  first.firstSequence == second.firstSequence && first.lastSequence == second.lastSequence

/-- The sort key compares the first and then the last sequence. -/
def before (first second : SealedSegmentMeta) : Bool :=
  decide (first.firstSequence < second.firstSequence) ||
    (first.firstSequence == second.firstSequence && decide (first.lastSequence ≤ second.lastSequence))

end SealedSegmentMeta

namespace SegmentManifest

def new (database : DatabaseId) (source : SourceId) (epoch : SourceEpoch) : SegmentManifest where
  database := database
  source := source
  epoch := epoch
  sealedSegments := []
  retiredUpToSequence := none

/-- A segment of the same range is replaced, and a new one is sorted in. -/
def registerSegment (manifest : SegmentManifest) (segment : SealedSegmentMeta) : SegmentManifest :=
  match manifest.sealedSegments.findIdx? (·.sameRange segment) with
  | some position => { manifest with sealedSegments := manifest.sealedSegments.set position segment }
  | none => { manifest with
      sealedSegments := (manifest.sealedSegments ++ [segment]).mergeSort SealedSegmentMeta.before }

def isSequenceSealed (manifest : SegmentManifest) (sequence : UInt64) : Bool :=
  manifest.sealedSegments.any (·.covers sequence)

def findSegmentForSequence (manifest : SegmentManifest) (sequence : UInt64) : Option SealedSegmentMeta :=
  manifest.sealedSegments.find? (·.covers sequence)

@[simp] theorem registerSegment_retired (manifest : SegmentManifest) (segment : SealedSegmentMeta) :
    (manifest.registerSegment segment).retiredUpToSequence = manifest.retiredUpToSequence := by
  unfold registerSegment
  split <;> rfl

/-- The new segment is registered. -/
theorem mem_registerSegment_self (manifest : SegmentManifest) (segment : SealedSegmentMeta) :
    segment ∈ (manifest.registerSegment segment).sealedSegments := by
  unfold registerSegment
  split
  · next position found =>
      obtain ⟨inside, _⟩ := List.findIdx?_eq_some_iff_getElem.mp found
      exact List.mem_set inside segment
  · simp

/-- Registration adds no other segment. -/
theorem mem_of_mem_registerSegment {manifest : SegmentManifest} {segment other : SealedSegmentMeta}
    (member : other ∈ (manifest.registerSegment segment).sealedSegments) :
    other = segment ∨ other ∈ manifest.sealedSegments := by
  unfold registerSegment at member
  split at member
  · exact (List.mem_or_eq_of_mem_set member).symm
  · simp only [List.mem_mergeSort, List.mem_append, List.mem_singleton] at member
    exact member.symm

/-- Registration drops a segment only for one of the same range. -/
theorem mem_registerSegment {manifest : SegmentManifest} {segment other : SealedSegmentMeta}
    (member : other ∈ manifest.sealedSegments) :
    other.sameRange segment ∨ other ∈ (manifest.registerSegment segment).sealedSegments := by
  unfold registerSegment
  split
  · next position found =>
      obtain ⟨inside, same, _⟩ := List.findIdx?_eq_some_iff_getElem.mp found
      obtain ⟨index, bound, rfl⟩ := List.getElem_of_mem member
      by_cases here : index = position
      · subst here
        exact Or.inl same
      · right
        rw [List.mem_iff_getElem]
        refine ⟨index, by simpa using bound, ?_⟩
        rw [List.getElem_set_ne (fun equal => here equal.symm)]
  · right
    simp [member]

end SegmentManifest

/-- The lowest decimal digits of a number, padded with zeros. -/
def decimalDigits : Nat → Nat → List Char
  | 0, _ => []
  | width + 1, value => decimalDigits width (value / 10) ++ [Nat.digitChar (value % 10)]

/-- Twenty digits hold every sequence. -/
def segmentStem (first last : Nat) : List Char :=
  decimalDigits 20 first ++ '-' :: decimalDigits 20 last

def segmentFilename (first last : Nat) : String := String.ofList (segmentStem first last ++ ['.', 't', 's', 'f'])

def summaryFilename (first last : Nat) : String := String.ofList (segmentStem first last ++ ['.', 't', 's', 'm'])

example : segmentFilename 7 12 = "00000000000000000007-00000000000000000012.tsf" := by decide

theorem decimalDigits_length (width value : Nat) : (decimalDigits width value).length = width := by
  induction width generalizing value with
  | zero => rfl
  | succ width ih => simp [decimalDigits, ih]

theorem digitChar_injective {first second : Nat} (small : first < 10) (other : second < 10)
    (same : Nat.digitChar first = Nat.digitChar second) : first = second := by
  have digits : ∀ first second : Fin 10, Nat.digitChar first = Nat.digitChar second → first = second := by decide
  exact congrArg Fin.val (digits ⟨first, small⟩ ⟨second, other⟩ same)

/-- Numbers that fit the width have different digits. -/
theorem decimalDigits_injective {width first second : Nat} (fits : first < 10 ^ width)
    (other : second < 10 ^ width) (same : decimalDigits width first = decimalDigits width second) :
    first = second := by
  induction width generalizing first second with
  | zero => omega
  | succ width ih =>
      obtain ⟨high, low⟩ := List.append_inj' same rfl
      have quotient := ih (by omega) (by omega) high
      have digit := digitChar_injective (Nat.mod_lt _ (by decide)) (Nat.mod_lt _ (by decide)) (List.singleton_inj.mp low)
      omega

/-- Two segments share a name only when they share their range. -/
theorem segmentStem_injective {first last first' last' : Nat} (firstFits : first < 2 ^ 64)
    (lastFits : last < 2 ^ 64) (firstFits' : first' < 2 ^ 64) (lastFits' : last' < 2 ^ 64)
    (same : segmentStem first last = segmentStem first' last') : first = first' ∧ last = last' := by
  obtain ⟨head, tail⟩ := List.append_inj same (by rw [decimalDigits_length, decimalDigits_length])
  have room : 2 ^ 64 < 10 ^ 20 := by decide
  exact ⟨decimalDigits_injective (by omega) (by omega) head,
    decimalDigits_injective (by omega) (by omega) (List.cons.inj tail).2⟩

theorem segmentFilename_injective {first last first' last' : Nat} (firstFits : first < 2 ^ 64)
    (lastFits : last < 2 ^ 64) (firstFits' : first' < 2 ^ 64) (lastFits' : last' < 2 ^ 64)
    (same : segmentFilename first last = segmentFilename first' last') : first = first' ∧ last = last' :=
  segmentStem_injective firstFits lastFits firstFits' lastFits'
    (List.append_cancel_right (String.ofList_injective same))

/-- A summary never takes the name of a segment. -/
theorem segmentFilename_ne_summaryFilename (first last first' last' : Nat) :
    segmentFilename first last ≠ summaryFilename first' last' := by
  intro same
  have endings := (List.append_inj' (String.ofList_injective same) rfl).2
  revert endings
  decide

end Temnion.Storage
