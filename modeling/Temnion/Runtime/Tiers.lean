import Temnion.Library.OrderedMap
import Temnion.Library.Runs
import Mathlib.Data.List.MinMax

/-
This file moves segments between storage tiers and says which calls keep the tiers within their budgets.
-/

namespace Temnion.Runtime

inductive StorageTier where
  | hotDram
  | warmMapped
  | coldMedia
  deriving DecidableEq, Repr

abbrev SegmentId := Nat

/-- The counters do not end. -/
structure TieredSegment where
  segmentId : SegmentId
  byteSize : UInt64
  tier : StorageTier
  accessCount : Nat
  lastAccessStep : Nat
  deriving DecidableEq, Repr

abbrev Segments := OrderedMap SegmentId TieredSegment

structure TieredStorageManager where
  hotCapacityBytes : UInt64
  warmCapacityBytes : UInt64
  currentStep : Nat
  segments : Segments

/-- The segment is not known. -/
inductive TierError where
  | segmentNotFound (segmentId : SegmentId)
  deriving DecidableEq, Repr

namespace Segments

/-- The segments of a tier in the order of their ids. -/
def inTier (segments : Segments) (tier : StorageTier) : List TieredSegment :=
  (segments.toList.map Prod.snd).filter fun segment => segment.tier = tier

/-- The sum wraps around. -/
def totalBytesInTier (segments : Segments) (tier : StorageTier) : UInt64 :=
  ((segments.inTier tier).map TieredSegment.byteSize).foldr (· + ·) 0

def place (tier : StorageTier) (segment : TieredSegment) : TieredSegment := { segment with tier := tier }

/-- Demotes the segment that was not accessed for the longest time until the upper tier is within its capacity. -/
def demote (upper lower : StorageTier) (capacity : UInt64) : Nat → Segments → Segments
  | 0, segments => segments
  | steps + 1, segments =>
      if capacity < segments.totalBytesInTier upper then
        match (segments.inTier upper).argmin TieredSegment.lastAccessStep with
        | some segment => demote upper lower capacity steps (segments.modify segment.segmentId (place lower))
        | none => segments
      else segments

end Segments

namespace TieredStorageManager

def new (hotCapacityBytes warmCapacityBytes : UInt64) : TieredStorageManager :=
  ⟨hotCapacityBytes, warmCapacityBytes, 0, ∅⟩

def registerSegment (manager : TieredStorageManager) (segmentId : SegmentId) (byteSize : UInt64) (initialTier : StorageTier) :
    TieredStorageManager := { manager with
  segments := manager.segments.insert segmentId ⟨segmentId, byteSize, initialTier, 0, manager.currentStep⟩ }

def tierOf (manager : TieredStorageManager) (id : SegmentId) : Option StorageTier :=
  (manager.segments[id]?).map TieredSegment.tier

/-- Each round demotes one segment. -/
def enforceCapacity (manager : TieredStorageManager) : TieredStorageManager :=
  let hot := manager.segments.demote .hotDram .warmMapped manager.hotCapacityBytes manager.segments.size
  { manager with segments := hot.demote .warmMapped .coldMedia manager.warmCapacityBytes hot.size }

/-- An access in this step. The second one brings a segment from the cold tier to the warm one. -/
def accessed (step : Nat) (segment : TieredSegment) : TieredSegment :=
  let counted := { segment with accessCount := segment.accessCount + 1, lastAccessStep := step }
  if counted.tier = .coldMedia ∧ 2 ≤ counted.accessCount then { counted with tier := .warmMapped } else counted

def recordAccess (manager : TieredStorageManager) (segmentId : SegmentId) :
    Except TierError StorageTier × TieredStorageManager :=
  let stepped := { manager with currentStep := manager.currentStep + 1 }
  match manager.segments[segmentId]? with
  | none => (.error (.segmentNotFound segmentId), stepped)
  | some segment =>
      let segment := accessed stepped.currentStep segment
      (.ok segment.tier, { stepped with segments := manager.segments.insert segmentId segment }.enforceCapacity)

def migrate (manager : TieredStorageManager) (segmentId : SegmentId) (targetTier : StorageTier) :
    Except TierError Unit × TieredStorageManager :=
  match manager.segments[segmentId]? with
  | none => (.error (.segmentNotFound segmentId), manager)
  | some segment =>
      (.ok (), { manager with segments := manager.segments.insert segmentId (Segments.place targetTier segment) }.enforceCapacity)

end TieredStorageManager

namespace Segments

section Bytes

variable {segments : Segments} {id : SegmentId} {segment : TieredSegment} {tier : StorageTier}

/-- The bytes that the segments of a tier really have. -/
def bytesHeld (segments : Segments) (tier : StorageTier) : Nat :=
  ((segments.inTier tier).map fun segment => segment.byteSize.toNat).sum

/-- The bytes that a segment has in a tier. -/
def share (tier : StorageTier) (segment : TieredSegment) : Nat := if segment.tier = tier then segment.byteSize.toNat else 0

theorem mem_inTier : segment ∈ segments.inTier tier ↔ (∃ id : SegmentId, segments[id]? = some segment) ∧ segment.tier = tier := by
  unfold inTier
  simp only [List.mem_filter, List.mem_map, Prod.exists, OrderedMap.mem_toList, exists_eq_right, decide_eq_true_eq]

/-- The segments of a tier are those that an insertion leaves alone and perhaps the inserted one. -/
theorem inTier_insert (segments : Segments) (id : SegmentId) (segment : TieredSegment) (tier : StorageTier) :
    (inTier (segments.insert id segment) tier).Perm
      ([segment].filter (fun segment => segment.tier = tier) ++ inTier (segments.erase id) tier) := by
  have permuted := ((@OrderedMap.toList_insert _ _ _ segments id segment).map Prod.snd).filter
    fun segment => decide (segment.tier = tier)
  rw [List.map_cons, ← List.singleton_append, List.filter_append] at permuted
  exact permuted

theorem insert_found (found : segments[id]? = some segment) : segments.insert id segment = segments := by
  ext other value
  rw [OrderedMap.insert_getElem?]
  by_cases same : id = other
  · rw [if_pos same, ← same, found]
  · rw [if_neg same]

/-- What a sum over a tier has from one segment and from the others. -/
theorem sum_insert (measure : TieredSegment → Nat) (segments : Segments) (id : SegmentId) (segment : TieredSegment)
    (tier : StorageTier) : ((inTier (segments.insert id segment) tier).map measure).sum =
      (if segment.tier = tier then measure segment else 0) + ((inTier (segments.erase id) tier).map measure).sum := by
  rw [((inTier_insert segments id segment tier).map _).sum_eq, List.map_append, List.sum_append]
  congr 1
  by_cases here : segment.tier = tier
  · rw [if_pos here, List.filter_singleton, decide_eq_true here]
    exact Nat.add_zero _
  · rw [if_neg here, List.filter_singleton, decide_eq_false here]
    rfl

theorem bytesHeld_insert (segments : Segments) (id : SegmentId) (segment : TieredSegment) (tier : StorageTier) :
    bytesHeld (segments.insert id segment) tier = share tier segment + bytesHeld (segments.erase id) tier :=
  sum_insert _ segments id segment tier

theorem bytesHeld_found (found : segments[id]? = some segment) (tier : StorageTier) :
    bytesHeld segments tier = share tier segment + bytesHeld (segments.erase id) tier := by
  rw [← bytesHeld_insert, insert_found found]

/-- How many segments a tier has. -/
def countIn (segments : Segments) (tier : StorageTier) : Nat := ((segments.inTier tier).map fun _ => 1).sum

theorem countIn_insert (segments : Segments) (id : SegmentId) (segment : TieredSegment) (tier : StorageTier) :
    countIn (segments.insert id segment) tier =
      (if segment.tier = tier then 1 else 0) + countIn (segments.erase id) tier :=
  sum_insert _ segments id segment tier

theorem countIn_found (found : segments[id]? = some segment) (tier : StorageTier) :
    countIn segments tier = (if segment.tier = tier then 1 else 0) + countIn (segments.erase id) tier := by
  rw [← countIn_insert, insert_found found]

theorem countIn_le_size (segments : Segments) (tier : StorageTier) : countIn segments tier ≤ segments.size := by
  have within := List.length_filter_le (fun segment => decide (TieredSegment.tier segment = tier))
    (segments.toList.map Prod.snd)
  rw [List.length_map, Std.ExtTreeMap.length_toList] at within
  rw [countIn, List.map_const', List.sum_replicate, smul_eq_mul, mul_one]
  exact within

/-- The sum that the manager computes is the real one up to the size of its integers. -/
theorem totalBytesInTier_toNat (segments : Segments) (tier : StorageTier) :
    (segments.totalBytesInTier tier).toNat = segments.bytesHeld tier % 2 ^ 64 := by
  unfold totalBytesInTier bytesHeld
  induction segments.inTier tier with
  | nil => rfl
  | cons segment rest hypothesis =>
      rw [List.map_cons, List.map_cons, List.foldr_cons, List.sum_cons, UInt64.toNat_add, hypothesis, Nat.add_mod_mod]

end Bytes

section Demotion

variable {upper lower : StorageTier} {capacity : UInt64} {steps : Nat} {segments between after : Segments}

/-- Each segment is stored under its own id. -/
def Keyed (segments : Segments) : Prop :=
  ∀ (id : SegmentId) (segment : TieredSegment), segments[id]? = some segment → segment.segmentId = id

/-- Some segments of the upper tier have moved to the lower one, and nothing else has changed. -/
structure Demoted (upper lower : StorageTier) (segments after : Segments) : Prop where
  kept : ∀ (id : SegmentId) (segment : TieredSegment), segments[id]? = some segment →
    after[id]? = some segment ∨ segment.tier = upper ∧ after[id]? = some (place lower segment)
  added : ∀ id : SegmentId, segments[id]? = none → after[id]? = none
  moved : bytesHeld after upper + bytesHeld after lower = bytesHeld segments upper + bytesHeld segments lower
  other : ∀ tier, tier ≠ upper → tier ≠ lower → bytesHeld after tier = bytesHeld segments tier

theorem Demoted.refl (segments : Segments) : Demoted upper lower segments segments :=
  ⟨fun _ _ found => Or.inl found, fun _ absent => absent, rfl, fun _ _ _ => rfl⟩

theorem Demoted.trans (differ : upper ≠ lower) (first : Demoted upper lower segments between)
    (second : Demoted upper lower between after) : Demoted upper lower segments after where
  kept id segment found := by
    rcases first.kept id segment found with same | ⟨above, moved⟩
    · exact second.kept id segment same
    · rcases second.kept id _ moved with same | ⟨again, -⟩
      · exact Or.inr ⟨above, same⟩
      · exact absurd again.symm differ
  added id absent := second.added id (first.added id absent)
  moved := second.moved.trans first.moved
  other tier notUpper notLower := (second.other tier notUpper notLower).trans (first.other tier notUpper notLower)

theorem modify_found {id : SegmentId} {segment : TieredSegment} (found : segments[id]? = some segment)
    (change : TieredSegment → TieredSegment) : segments.modify id change = segments.insert id (change segment) := by
  ext other value
  rw [OrderedMap.modify_getElem?, OrderedMap.insert_getElem?]
  by_cases same : id = other
  · rw [if_pos same, if_pos same, found, Option.map_some]
  · rw [if_neg same, if_neg same]

/-- One segment has moved. -/
theorem demoted_insert (differ : upper ≠ lower) {id : SegmentId} {segment : TieredSegment}
    (found : segments[id]? = some segment) (above : segment.tier = upper) :
    Demoted upper lower segments (segments.insert id (place lower segment)) where
  kept other existing present := by
    rw [OrderedMap.insert_getElem?]
    by_cases same : id = other
    · rw [← same, found] at present
      obtain rfl := Option.some.inj present
      exact Or.inr ⟨above, if_pos same⟩
    · exact Or.inl ((if_neg same).trans present)
  added other absent := by
    rw [OrderedMap.insert_getElem?, if_neg]
    · exact absent
    · rintro rfl
      rw [found] at absent
      contradiction
  moved := by
    rw [bytesHeld_insert, bytesHeld_insert, bytesHeld_found found upper, bytesHeld_found found lower]
    have gone : share upper (place lower segment) = 0 := if_neg (Ne.symm differ)
    have come : share lower (place lower segment) = segment.byteSize.toNat := if_pos rfl
    have was : share upper segment = segment.byteSize.toNat := if_pos above
    have wasNot : share lower segment = 0 := if_neg (above.trans_ne differ)
    omega
  other tier notUpper notLower := by
    rw [bytesHeld_insert, bytesHeld_found found]
    congr 1
    have one : share tier (place lower segment) = 0 := if_neg (Ne.symm notLower)
    have two : share tier segment = 0 := if_neg (above.trans_ne (Ne.symm notUpper))
    rw [one, two]

theorem Demoted.keyed (demoted : Demoted upper lower segments after) (keyed : segments.Keyed) : after.Keyed := by
  intro id segment found
  cases before : segments[id]? with
  | none =>
      rw [demoted.added id before] at found
      contradiction
  | some existing =>
      rcases demoted.kept id existing before with same | ⟨-, moved⟩
      · rw [same] at found
        rw [← Option.some.inj found]
        exact keyed id existing before
      · rw [moved] at found
        rw [← Option.some.inj found]
        exact keyed id existing before

theorem demote_idle (within : segments.totalBytesInTier upper ≤ capacity) :
    demote upper lower capacity steps segments = segments := by
  cases steps with
  | zero => rfl
  | succ steps => rw [demote, if_neg (UInt64.not_lt.mpr within)]

/-- A round demotes a segment of the upper tier that was accessed before all others there. -/
theorem demote_exceeding (keyed : segments.Keyed) (exceeds : capacity < segments.totalBytesInTier upper) :
    ∃ segment, segments[segment.segmentId]? = some segment ∧ segment.tier = upper ∧
      (∀ other ∈ segments.inTier upper, segment.lastAccessStep ≤ other.lastAccessStep) ∧
      demote upper lower capacity (steps + 1) segments =
        demote upper lower capacity steps (segments.insert segment.segmentId (place lower segment)) := by
  cases oldest : (segments.inTier upper).argmin TieredSegment.lastAccessStep with
  | none =>
      rw [totalBytesInTier, List.argmin_eq_none.mp oldest] at exceeds
      exact absurd exceeds (UInt64.not_lt.mpr (UInt64.zero_le))
  | some segment =>
      obtain ⟨⟨id, found⟩, above⟩ := mem_inTier.mp (List.argmin_mem oldest)
      have same := keyed id segment found
      rw [← same] at found
      refine ⟨segment, found, above, fun other member => List.le_of_mem_argmin member oldest, ?_⟩
      rw [demote, if_pos exceeds, oldest]
      dsimp only
      rw [modify_found found]

theorem demote_demoted (differ : upper ≠ lower) (keyed : segments.Keyed) :
    Demoted upper lower segments (demote upper lower capacity steps segments) := by
  induction steps generalizing segments with
  | zero => exact .refl segments
  | succ steps hypothesis =>
      by_cases exceeds : capacity < segments.totalBytesInTier upper
      · obtain ⟨segment, found, above, -, next⟩ := @demote_exceeding upper lower capacity steps segments keyed exceeds
        have one := demoted_insert differ found above
        rw [next]
        exact one.trans differ (hypothesis (one.keyed keyed))
      · rw [demote_idle (UInt64.not_lt.mp exceeds)]
        exact .refl segments

/-- With a round for each segment the upper tier ends within its capacity, as long as its bytes can be counted. -/
theorem demote_within (differ : upper ≠ lower) (keyed : segments.Keyed) (narrow : segments.bytesHeld upper < 2 ^ 64)
    (enough : segments.countIn upper ≤ steps) :
    bytesHeld (demote upper lower capacity steps segments) upper ≤ capacity.toNat := by
  have total : (segments.totalBytesInTier upper).toNat = segments.bytesHeld upper := by
    rw [totalBytesInTier_toNat, Nat.mod_eq_of_lt narrow]
  induction steps generalizing segments with
  | zero =>
      have nothing : segments.inTier upper = [] := by
        have length : (segments.inTier upper).length = countIn segments upper := by
          rw [countIn, List.map_const', List.sum_replicate, smul_eq_mul, mul_one]
        exact List.eq_nil_of_length_eq_zero (length.trans (Nat.le_zero.mp enough))
      rw [demote, bytesHeld, nothing]
      exact Nat.zero_le _
  | succ steps hypothesis =>
      by_cases exceeds : capacity < segments.totalBytesInTier upper
      · obtain ⟨segment, found, above, -, next⟩ := @demote_exceeding upper lower capacity steps segments keyed exceeds
        have one := demoted_insert differ found above
        have gone : share upper (place lower segment) = 0 := if_neg (Ne.symm differ)
        have fewer : bytesHeld (segments.insert segment.segmentId (place lower segment)) upper < 2 ^ 64 := by
          rw [bytesHeld_found found] at narrow
          rw [bytesHeld_insert, gone]
          omega
        have left : countIn (segments.insert segment.segmentId (place lower segment)) upper ≤ steps := by
          rw [countIn_found found, if_pos above] at enough
          rw [countIn_insert, if_neg (show (place lower segment).tier ≠ upper from Ne.symm differ)]
          omega
        rw [next]
        apply hypothesis (one.keyed keyed) fewer left
        rw [totalBytesInTier_toNat, Nat.mod_eq_of_lt fewer]
      · rw [demote_idle (UInt64.not_lt.mp exceeds), ← total]
        exact UInt64.le_iff_toNat_le.mp (UInt64.not_lt.mp exceeds)

/-- Without other segments in the tier nothing of it is left when one is taken out. -/
theorem inTier_erase_eq_nil {id : SegmentId} (keyed : segments.Keyed)
    (alone : ∀ other ∈ segments.inTier upper, ¬ other.segmentId ≠ id) : inTier (segments.erase id) upper = [] := by
  rw [List.eq_nil_iff_forall_not_mem]
  intro other member
  obtain ⟨⟨key, stored⟩, tier⟩ := mem_inTier.mp member
  rw [Std.ExtTreeMap.getElem?_erase] at stored
  by_cases same : id = key
  · rw [if_pos (compare_eq_iff_eq.mpr same)] at stored
    contradiction
  · rw [if_neg fun equal => same (compare_eq_iff_eq.mp equal)] at stored
    apply alone other (mem_inTier.mpr ⟨⟨key, stored⟩, tier⟩)
    rw [keyed key other stored]
    exact Ne.symm same

/-- The segment that was accessed last stays in the upper tier when it fits there alone. -/
theorem demote_latest (differ : upper ≠ lower) (keyed : segments.Keyed) (narrow : segments.bytesHeld upper < 2 ^ 64)
    {id : SegmentId} {latest : TieredSegment} (found : segments[id]? = some latest) (here : latest.tier = upper)
    (last : ∀ other ∈ segments.inTier upper, other.segmentId ≠ id → other.lastAccessStep < latest.lastAccessStep)
    (fits : latest.byteSize ≤ capacity) : (demote upper lower capacity steps segments)[id]? = some latest := by
  induction steps generalizing segments with
  | zero => exact found
  | succ steps hypothesis =>
      by_cases exceeds : capacity < segments.totalBytesInTier upper
      · obtain ⟨segment, present, above, oldest, next⟩ := @demote_exceeding upper lower capacity steps segments keyed exceeds
        have total : (segments.totalBytesInTier upper).toNat = segments.bytesHeld upper := by
          rw [totalBytesInTier_toNat, Nat.mod_eq_of_lt narrow]
        have elsewhere : segment.segmentId ≠ id := by
          intro same
          rw [same, found] at present
          obtain rfl := Option.some.inj present
          have alone := inTier_erase_eq_nil keyed fun other member differs =>
            Nat.not_lt.mpr (oldest other member) (last other member differs)
          rw [bytesHeld_found found, bytesHeld, alone] at total
          have size : share upper latest = latest.byteSize.toNat := if_pos here
          rw [UInt64.lt_iff_toNat_lt, total, size] at exceeds
          exact Nat.not_lt.mpr (UInt64.le_iff_toNat_le.mp fits) exceeds
        have gone : share upper (place lower segment) = 0 := if_neg (Ne.symm differ)
        rw [next]
        apply hypothesis ((demoted_insert differ present above).keyed keyed)
        · rw [bytesHeld_found present] at narrow
          rw [bytesHeld_insert, gone]
          omega
        · rw [OrderedMap.insert_getElem?, if_neg elsewhere, found]
        · intro other member differs
          obtain ⟨⟨key, stored⟩, tier⟩ := mem_inTier.mp member
          apply last other _ differs
          rw [OrderedMap.insert_getElem?] at stored
          by_cases same : segment.segmentId = key
          · rw [if_pos same] at stored
            rw [← Option.some.inj stored] at tier
            exact absurd tier.symm differ
          · rw [if_neg same] at stored
            exact mem_inTier.mpr ⟨⟨key, stored⟩, tier⟩
      · rw [demote_idle (UInt64.not_lt.mp exceeds)]
        exact found

end Demotion

section Whole

variable {segments : Segments} {id : SegmentId} {segment : TieredSegment}

/-- The bytes of all segments. -/
def bytes (segments : Segments) : Nat :=
  segments.bytesHeld .hotDram + segments.bytesHeld .warmMapped + segments.bytesHeld .coldMedia

theorem bytesHeld_le_bytes (segments : Segments) (tier : StorageTier) : segments.bytesHeld tier ≤ segments.bytes := by
  unfold bytes
  cases tier <;> omega

theorem bytes_insert (segments : Segments) (id : SegmentId) (segment : TieredSegment) :
    bytes (segments.insert id segment) = segment.byteSize.toNat + bytes (segments.erase id) := by
  have whole : share .hotDram segment + share .warmMapped segment + share .coldMedia segment =
      segment.byteSize.toNat := by
    unfold share
    cases segment.tier <;> simp
  unfold bytes
  rw [bytesHeld_insert, bytesHeld_insert, bytesHeld_insert]
  omega

/-- A segment of the same size in the place of another keeps the bytes of all segments. -/
theorem bytes_replace (found : segments[id]? = some segment) {other : TieredSegment}
    (same : other.byteSize = segment.byteSize) : bytes (segments.insert id other) = bytes segments := by
  rw [bytes_insert, same, ← bytes_insert, insert_found found]

theorem Keyed.insert (keyed : segments.Keyed) (own : segment.segmentId = id) : Keyed (segments.insert id segment) := by
  intro other existing found
  rw [OrderedMap.insert_getElem?] at found
  by_cases same : id = other
  · rw [if_pos same] at found
    rw [← Option.some.inj found, own, same]
  · rw [if_neg same] at found
    exact keyed other existing found

end Whole

end Segments

namespace TieredStorageManager

section Calls

inductive Call where
  | registerSegment (segmentId : SegmentId) (byteSize : UInt64) (initialTier : StorageTier)
  | recordAccess (segmentId : SegmentId)
  | migrate (segmentId : SegmentId) (targetTier : StorageTier)

def perform (manager : TieredStorageManager) : Call → TieredStorageManager
  | .registerSegment segmentId byteSize initialTier => manager.registerSegment segmentId byteSize initialTier
  | .recordAccess segmentId => (manager.recordAccess segmentId).2
  | .migrate segmentId targetTier => (manager.migrate segmentId targetTier).2

/-- The state after some calls on a new manager. -/
def run (hotCapacityBytes warmCapacityBytes : UInt64) (calls : List Call) : TieredStorageManager :=
  calls.foldl perform (new hotCapacityBytes warmCapacityBytes)

def capacity (manager : TieredStorageManager) : StorageTier → Option UInt64
  | .hotDram => some manager.hotCapacityBytes
  | .warmMapped => some manager.warmCapacityBytes
  | .coldMedia => none

/-- Each tier with a capacity holds at most that many bytes. -/
def WithinBudgets (manager : TieredStorageManager) : Prop :=
  ∀ tier capacity, manager.capacity tier = some capacity → manager.segments.bytesHeld tier ≤ capacity.toNat

/-- An access that succeeds returns the tier in which the segment is afterwards. -/
def TellsTier (before : TieredStorageManager) : Call → Prop
  | .recordAccess segmentId => ∀ tier, (before.recordAccess segmentId).1 = .ok tier →
      (before.recordAccess segmentId).2.tierOf segmentId = some tier
  | _ => True

/-- After the call the tiers are within their budgets, and an access has returned the right tier. -/
def Honours (before : TieredStorageManager) (call : Call) : Prop :=
  (before.perform call).WithinBudgets ∧ before.TellsTier call

/-- A new segment leaves its tier within the capacity, and a segment that an access promotes fits into the warm tier. -/
def Fits (before : TieredStorageManager) : Call → Prop
  | .registerSegment segmentId byteSize initialTier => ∀ capacity, before.capacity initialTier = some capacity →
      byteSize.toNat + Segments.bytesHeld (before.segments.erase segmentId) initialTier ≤ capacity.toNat
  | .recordAccess segmentId => ∀ segment, before.segments[segmentId]? = some segment → segment.tier = .coldMedia →
      1 ≤ segment.accessCount → segment.byteSize ≤ before.warmCapacityBytes
  | .migrate _ _ => True

/-- The bytes of all segments can be counted. -/
def Narrow (manager : TieredStorageManager) : Prop := manager.segments.bytes < 2 ^ 64

instance (manager : TieredStorageManager) : Decidable manager.Narrow := inferInstanceAs (Decidable (_ < _))

/-- The segments are stored under their ids, and no access lies ahead. -/
structure Valid (manager : TieredStorageManager) : Prop where
  keyed : manager.segments.Keyed
  past : ∀ (id : SegmentId) (segment : TieredSegment), manager.segments[id]? = some segment →
    segment.lastAccessStep ≤ manager.currentStep

variable {manager : TieredStorageManager} {call : Call} {id : SegmentId} {segment : TieredSegment}

theorem within_iff : manager.WithinBudgets ↔ manager.segments.bytesHeld .hotDram ≤ manager.hotCapacityBytes.toNat ∧
    manager.segments.bytesHeld .warmMapped ≤ manager.warmCapacityBytes.toNat := by
  constructor
  · intro within
    exact ⟨within .hotDram _ rfl, within .warmMapped _ rfl⟩
  · rintro ⟨hot, warm⟩ tier capacity same
    cases tier with
    | hotDram => rwa [← Option.some.inj same]
    | warmMapped => rwa [← Option.some.inj same]
    | coldMedia => contradiction

/-- A tier that holds no more than its capacity is left alone. -/
theorem demote_of_held {upper lower : StorageTier} {capacity : UInt64} {steps : Nat} {segments : Segments}
    (within : segments.bytesHeld upper ≤ capacity.toNat) : segments.demote upper lower capacity steps = segments := by
  apply Segments.demote_idle
  rw [UInt64.le_iff_toNat_le, Segments.totalBytesInTier_toNat]
  exact (Nat.mod_le _ _).trans within

theorem enforceCapacity_idle (within : manager.WithinBudgets) : manager.enforceCapacity = manager := by
  obtain ⟨hot, warm⟩ := within_iff.mp within
  unfold enforceCapacity
  dsimp only
  rw [demote_of_held hot, demote_of_held warm]

/-- What the enforcement of the capacities leaves, as long as the bytes can be counted. -/
theorem enforceCapacity_within (keyed : manager.segments.Keyed) (narrow : manager.Narrow) :
    manager.enforceCapacity.WithinBudgets := by
  have differ : StorageTier.hotDram ≠ .warmMapped := by decide
  have differ' : StorageTier.warmMapped ≠ .coldMedia := by decide
  have narrowHot := (manager.segments.bytesHeld_le_bytes .hotDram).trans_lt narrow
  have first := @Segments.demote_demoted _ _ manager.hotCapacityBytes manager.segments.size _ differ keyed
  have hot := @Segments.demote_within _ _ manager.hotCapacityBytes _ _ differ keyed narrowHot
    (manager.segments.countIn_le_size .hotDram)
  unfold enforceCapacity
  dsimp only
  generalize manager.segments.demote .hotDram .warmMapped manager.hotCapacityBytes manager.segments.size = between
    at first hot ⊢
  have keyed' := first.keyed keyed
  have narrowWarm : between.bytesHeld .warmMapped < 2 ^ 64 := by
    have moved := first.moved
    unfold Narrow Segments.bytes at narrow
    omega
  have second := @Segments.demote_demoted _ _ manager.warmCapacityBytes between.size _ differ' keyed'
  have warm := @Segments.demote_within _ _ manager.warmCapacityBytes _ _ differ' keyed' narrowWarm
    (between.countIn_le_size .warmMapped)
  exact within_iff.mpr ⟨(second.other .hotDram differ (by decide)).trans_le hot, warm⟩

/-- The enforcement keeps what the states of a run have in common. -/
theorem Valid.enforceCapacity (valid : manager.Valid) : manager.enforceCapacity.Valid := by
  have first := @Segments.demote_demoted .hotDram .warmMapped manager.hotCapacityBytes manager.segments.size _
    (by decide) valid.keyed
  have past : ∀ {upper lower : StorageTier} {before after : Segments}, Segments.Demoted upper lower before after →
      (∀ (id : SegmentId) (segment : TieredSegment), before[id]? = some segment →
        segment.lastAccessStep ≤ manager.currentStep) →
      ∀ (id : SegmentId) (segment : TieredSegment), after[id]? = some segment →
        segment.lastAccessStep ≤ manager.currentStep := by
    intro upper lower before after demoted earlier id segment found
    cases present : before[id]? with
    | none =>
        rw [demoted.added id present] at found
        contradiction
    | some existing =>
        have old := earlier id existing present
        rcases demoted.kept id existing present with same | ⟨-, moved⟩
        · rw [same] at found
          rwa [← Option.some.inj found]
        · rw [moved] at found
          rw [← Option.some.inj found]
          exact old
  unfold TieredStorageManager.enforceCapacity
  dsimp only
  generalize manager.segments.demote .hotDram .warmMapped manager.hotCapacityBytes manager.segments.size = between
    at first ⊢
  have second := @Segments.demote_demoted .warmMapped .coldMedia manager.warmCapacityBytes between.size _
    (by decide) (first.keyed valid.keyed)
  exact ⟨second.keyed (first.keyed valid.keyed), past second (past first valid.past)⟩

/-- A segment that is put in its place and was not accessed later keeps what the states of a run have in common. -/
theorem Valid.insert (valid : manager.Valid) (own : segment.segmentId = id) {step : Nat}
    (later : manager.currentStep ≤ step) (past : segment.lastAccessStep ≤ step) :
    Valid { manager with currentStep := step, segments := manager.segments.insert id segment } where
  keyed := valid.keyed.insert own
  past other existing found := by
    change (manager.segments.insert id segment)[other]? = some existing at found
    rw [OrderedMap.insert_getElem?] at found
    by_cases same : id = other
    · rw [if_pos same] at found
      rwa [← Option.some.inj found]
    · rw [if_neg same] at found
      exact (valid.past other existing found).trans later

theorem accessed_segmentId (step : Nat) (segment : TieredSegment) :
    (accessed step segment).segmentId = segment.segmentId := by
  unfold accessed
  dsimp only
  split <;> rfl

theorem accessed_byteSize (step : Nat) (segment : TieredSegment) :
    (accessed step segment).byteSize = segment.byteSize := by
  unfold accessed
  dsimp only
  split <;> rfl

theorem accessed_lastAccessStep (step : Nat) (segment : TieredSegment) :
    (accessed step segment).lastAccessStep = step := by
  unfold accessed
  dsimp only
  split <;> rfl

theorem accessed_tier (step : Nat) (segment : TieredSegment) : (accessed step segment).tier =
    if segment.tier = .coldMedia ∧ 1 ≤ segment.accessCount then .warmMapped else segment.tier := by
  unfold accessed
  dsimp only
  by_cases promoted : segment.tier = .coldMedia ∧ 1 ≤ segment.accessCount
  · rw [if_pos promoted, if_pos ⟨promoted.1, Nat.succ_le_succ promoted.2⟩]
  · rw [if_neg promoted, if_neg fun both => promoted ⟨both.1, Nat.le_of_succ_le_succ both.2⟩]

theorem Valid.perform (valid : manager.Valid) (call : Call) : (manager.perform call).Valid := by
  cases call with
  | registerSegment segmentId byteSize initialTier =>
      let added : TieredSegment := ⟨segmentId, byteSize, initialTier, 0, manager.currentStep⟩
      exact @Valid.insert manager segmentId added valid rfl _ (le_refl _) (le_refl _)
  | recordAccess segmentId =>
      unfold TieredStorageManager.perform recordAccess
      dsimp only
      cases found : manager.segments[segmentId]? with
      | none => exact ⟨valid.keyed, fun id segment present => (valid.past id segment present).trans (Nat.le_succ _)⟩
      | some segment =>
          refine (valid.insert ?_ (Nat.le_succ _) (accessed_lastAccessStep _ segment).le).enforceCapacity
          exact (accessed_segmentId _ segment).trans (valid.keyed segmentId segment found)
  | migrate segmentId targetTier =>
      unfold TieredStorageManager.perform migrate
      dsimp only
      cases found : manager.segments[segmentId]? with
      | none => exact valid
      | some segment =>
          have own := valid.keyed segmentId segment found
          have past := valid.past segmentId segment found
          exact (@Valid.insert manager segmentId (Segments.place targetTier segment) valid own _ (le_refl _)
            past).enforceCapacity

theorem bytesHeld_erase_le (segments : Segments) (id : SegmentId) (tier : StorageTier) :
    Segments.bytesHeld (segments.erase id) tier ≤ segments.bytesHeld tier := by
  cases found : segments[id]? with
  | none =>
      have same : segments.erase id = segments := by
        ext other value
        rw [Std.ExtTreeMap.getElem?_erase]
        by_cases equal : id = other
        · rw [if_pos (compare_eq_iff_eq.mpr equal), ← equal, found]
        · rw [if_neg fun both => equal (compare_eq_iff_eq.mp both)]
      rw [same]
  | some segment =>
      rw [Segments.bytesHeld_found found]
      exact Nat.le_add_left _ _

theorem honours_registerSegment_iff (within : manager.WithinBudgets) {byteSize : UInt64} {initialTier : StorageTier} :
    manager.Honours (.registerSegment id byteSize initialTier) ↔
      manager.Fits (.registerSegment id byteSize initialTier) := by
  let added : TieredSegment := ⟨id, byteSize, initialTier, 0, manager.currentStep⟩
  have here : Segments.bytesHeld (manager.segments.insert id added) initialTier =
      byteSize.toNat + Segments.bytesHeld (manager.segments.erase id) initialTier := by
    rw [Segments.bytesHeld_insert]
    congr 1
    exact if_pos rfl
  constructor
  · intro honours capacity limited
    have held := honours.1 initialTier capacity limited
    change Segments.bytesHeld (manager.segments.insert id added) initialTier ≤ capacity.toNat at held
    rwa [here] at held
  · intro fits
    refine ⟨fun tier capacity limited => ?_, trivial⟩
    change Segments.bytesHeld (manager.segments.insert id added) tier ≤ capacity.toNat
    by_cases same : tier = initialTier
    · rw [same, here]
      exact fits capacity (same ▸ limited)
    · have nothing : Segments.share tier added = 0 := if_neg (Ne.symm same)
      rw [Segments.bytesHeld_insert, nothing, Nat.zero_add]
      exact (bytesHeld_erase_le _ id tier).trans (within tier capacity limited)

theorem honours_migrate (valid : manager.Valid) (within : manager.WithinBudgets) (narrow : manager.Narrow)
    (targetTier : StorageTier) : manager.Honours (.migrate id targetTier) := by
  refine ⟨?_, trivial⟩
  unfold perform migrate
  dsimp only
  cases found : manager.segments[id]? with
  | none => exact within
  | some segment =>
      have own := valid.keyed id segment found
      have keyed : Segments.Keyed (manager.segments.insert id (Segments.place targetTier segment)) :=
        valid.keyed.insert own
      have counted : Segments.bytes (manager.segments.insert id (Segments.place targetTier segment)) < 2 ^ 64 :=
        (@Segments.bytes_replace _ _ _ found (Segments.place targetTier segment) rfl).trans_lt narrow
      exact @enforceCapacity_within { manager with segments := _ } keyed counted

/-- The state of an access before the capacities are enforced. -/
def touched (manager : TieredStorageManager) (id : SegmentId) (segment : TieredSegment) : TieredStorageManager :=
  { manager with
    currentStep := manager.currentStep + 1
    segments := manager.segments.insert id (accessed (manager.currentStep + 1) segment) }

theorem recordAccess_found (found : manager.segments[id]? = some segment) : manager.recordAccess id =
    (.ok (accessed (manager.currentStep + 1) segment).tier, (manager.touched id segment).enforceCapacity) := by
  unfold recordAccess
  dsimp only
  rw [found]
  rfl

theorem recordAccess_absent (absent : manager.segments[id]? = none) : manager.recordAccess id =
    (.error (.segmentNotFound id), { manager with currentStep := manager.currentStep + 1 }) := by
  unfold recordAccess
  dsimp only
  rw [absent]

theorem touched_getElem? : (manager.touched id segment).segments[id]? =
    some (accessed (manager.currentStep + 1) segment) := by
  unfold touched
  rw [OrderedMap.insert_getElem?, if_pos rfl]

theorem Valid.touched (valid : manager.Valid) (found : manager.segments[id]? = some segment) :
    (manager.touched id segment).Valid :=
  valid.insert ((accessed_segmentId _ segment).trans (valid.keyed id segment found)) (Nat.le_succ _)
    (accessed_lastAccessStep _ segment).le

theorem Narrow.touched (narrow : manager.Narrow) (found : manager.segments[id]? = some segment) :
    (manager.touched id segment).Narrow :=
  (Segments.bytes_replace found (accessed_byteSize (manager.currentStep + 1) segment)).trans_lt narrow

/-- An access without promotion moves no bytes. -/
theorem touched_within (within : manager.WithinBudgets) (found : manager.segments[id]? = some segment)
    (stays : ¬ (segment.tier = .coldMedia ∧ 1 ≤ segment.accessCount)) : (manager.touched id segment).WithinBudgets := by
  intro tier capacity limited
  have same : Segments.share tier (accessed (manager.currentStep + 1) segment) = Segments.share tier segment := by
    unfold Segments.share
    rw [accessed_tier, if_neg stays, accessed_byteSize]
  change Segments.bytesHeld (manager.segments.insert id _) tier ≤ capacity.toNat
  rw [Segments.bytesHeld_insert, same, ← Segments.bytesHeld_found found]
  exact within tier capacity limited

/-- A promoted segment is in the warm tier afterwards exactly when it fits there. -/
theorem promoted_tierOf_iff (valid : manager.Valid) (within : manager.WithinBudgets) (narrow : manager.Narrow)
    (found : manager.segments[id]? = some segment) (promoted : segment.tier = .coldMedia ∧ 1 ≤ segment.accessCount) :
    (manager.touched id segment).enforceCapacity.tierOf id = some .warmMapped ↔
      segment.byteSize ≤ manager.warmCapacityBytes := by
  have differ : StorageTier.warmMapped ≠ .coldMedia := by decide
  have keyed := (valid.touched found).keyed
  have counted := narrow.touched found
  have tier : (accessed (manager.currentStep + 1) segment).tier = .warmMapped := by rw [accessed_tier, if_pos promoted]
  have hot : (manager.touched id segment).segments.bytesHeld .hotDram ≤ manager.hotCapacityBytes.toNat := by
    have before := (within_iff.mp within).1
    have gone : Segments.share .hotDram (accessed (manager.currentStep + 1) segment) = 0 := by
      unfold Segments.share
      rw [tier]
      exact if_neg (by decide)
    change Segments.bytesHeld (manager.segments.insert id _) .hotDram ≤ _
    rw [Segments.bytesHeld_insert, gone, Nat.zero_add]
    exact (bytesHeld_erase_le _ id _).trans before
  have here := @touched_getElem? manager id segment
  have narrowWarm := (Segments.bytesHeld_le_bytes _ .warmMapped).trans_lt counted
  have budgets := (within_iff.mp (enforceCapacity_within keyed counted)).2
  unfold enforceCapacity tierOf at *
  dsimp only at budgets ⊢
  rw [show (manager.touched id segment).hotCapacityBytes = manager.hotCapacityBytes from rfl,
    demote_of_held hot] at budgets ⊢
  rw [show (manager.touched id segment).warmCapacityBytes = manager.warmCapacityBytes from rfl] at budgets ⊢
  have moved := @Segments.demote_demoted _ _ manager.warmCapacityBytes (manager.touched id segment).segments.size _
    differ keyed
  constructor
  · intro held
    obtain ⟨last, present, stays⟩ := Option.map_eq_some_iff.mp held
    rcases moved.kept id _ here with same | ⟨-, demoted⟩
    · rw [Segments.bytesHeld_found same] at budgets
      have size : Segments.share .warmMapped (accessed (manager.currentStep + 1) segment) = segment.byteSize.toNat := by
        rw [Segments.share, if_pos tier, accessed_byteSize]
      rw [size] at budgets
      exact UInt64.le_iff_toNat_le.mpr ((Nat.le_add_right _ _).trans budgets)
    · rw [demoted] at present
      rw [← Option.some.inj present] at stays
      contradiction
  · intro fits
    rw [Segments.demote_latest differ keyed narrowWarm here tier _ (by rw [accessed_byteSize]; exact fits)]
    · exact congrArg some tier
    · intro other member differs
      obtain ⟨⟨key, stored⟩, -⟩ := Segments.mem_inTier.mp member
      have own := keyed key other stored
      rw [accessed_lastAccessStep]
      change (manager.segments.insert id _)[key]? = some other at stored
      rw [OrderedMap.insert_getElem?, if_neg fun same => differs (own.trans same.symm)] at stored
      exact Nat.lt_succ_of_le (valid.past key other stored)

theorem honours_recordAccess_iff (valid : manager.Valid) (within : manager.WithinBudgets) (narrow : manager.Narrow) :
    manager.Honours (.recordAccess id) ↔ manager.Fits (.recordAccess id) := by
  unfold Honours perform TellsTier Fits
  dsimp only
  cases found : manager.segments[id]? with
  | none =>
      rw [recordAccess_absent found]
      exact iff_of_true ⟨within, fun _ same => by contradiction⟩ fun _ same => by contradiction
  | some segment =>
      rw [recordAccess_found found]
      by_cases promoted : segment.tier = .coldMedia ∧ 1 ≤ segment.accessCount
      · have budgets := enforceCapacity_within (valid.touched found).keyed (narrow.touched found)
        have stays := promoted_tierOf_iff valid within narrow found promoted
        have tier : (accessed (manager.currentStep + 1) segment).tier = .warmMapped := by
          rw [accessed_tier, if_pos promoted]
        rw [tier]
        constructor
        · rintro ⟨-, tells⟩ other same - -
          rw [← Option.some.inj same]
          exact stays.mp (tells _ rfl)
        · intro fits
          refine ⟨budgets, fun returned same => ?_⟩
          rw [← Except.ok.inj same]
          exact stays.mpr (fits segment rfl promoted.1 promoted.2)
      · have idle := enforceCapacity_idle (touched_within within found promoted)
        rw [idle]
        refine iff_of_true ⟨touched_within within found promoted, fun returned same => ?_⟩ ?_
        · rw [← Except.ok.inj same, tierOf, touched_getElem?]
          rfl
        · intro other same cold twice
          rw [← Option.some.inj same] at cold twice
          exact absurd ⟨cold, twice⟩ promoted

theorem honours_iff (valid : manager.Valid) (within : manager.WithinBudgets) (narrow : manager.Narrow) :
    manager.Honours call ↔ manager.Fits call := by
  cases call with
  | registerSegment segmentId byteSize initialTier => exact honours_registerSegment_iff within
  | recordAccess segmentId => exact honours_recordAccess_iff valid within narrow
  | migrate segmentId targetTier => exact iff_of_true (honours_migrate valid within narrow targetTier) trivial

theorem bytesHeld_empty (tier : StorageTier) : Segments.bytesHeld ∅ tier = 0 := rfl

theorem new_valid (hotCapacityBytes warmCapacityBytes : UInt64) : (new hotCapacityBytes warmCapacityBytes).Valid :=
  ⟨fun _ _ found => by contradiction, fun _ _ found => by contradiction⟩

theorem new_within (hotCapacityBytes warmCapacityBytes : UInt64) :
    (new hotCapacityBytes warmCapacityBytes).WithinBudgets := by
  intro tier capacity limited
  rw [new, bytesHeld_empty]
  exact Nat.zero_le _

/-- As long as the bytes of all segments can be counted, every call of a run keeps the budgets and an access tells the
right tier exactly when every new segment and every promoted one fits. -/
theorem budgets_hold_iff (hotCapacityBytes warmCapacityBytes : UInt64) (calls : List Call)
    (narrow : ∀ done, done <+: calls → (run hotCapacityBytes warmCapacityBytes done).Narrow) :
    (∀ done call, done ++ [call] <+: calls → (run hotCapacityBytes warmCapacityBytes done).Honours call) ↔
      ∀ done call, done ++ [call] <+: calls → (run hotCapacityBytes warmCapacityBytes done).Fits call := by
  have valid : ∀ done, (run hotCapacityBytes warmCapacityBytes done).Valid := by
    intro done
    induction done using List.reverseRecOn with
    | nil => exact new_valid _ _
    | append_singleton done call hypothesis =>
        rw [run, Runs.foldl_concat]
        exact hypothesis.perform call
  have earlier : ∀ {done : List Call} {call : Call}, done ++ [call] <+: calls → done <+: calls :=
    fun inside => (List.prefix_append _ _).trans inside
  constructor
  · intro honours done call inside
    have within : (run hotCapacityBytes warmCapacityBytes done).WithinBudgets := by
      rcases List.eq_nil_or_concat' done with rfl | ⟨before, last, rfl⟩
      · exact new_within _ _
      · rw [run, Runs.foldl_concat]
        exact (honours before last (earlier inside)).1
    exact (honours_iff (valid done) within (narrow done (earlier inside))).mp (honours done call inside)
  · intro fits
    have within : ∀ done, done <+: calls → (run hotCapacityBytes warmCapacityBytes done).WithinBudgets := by
      intro done inside
      induction done using List.reverseRecOn with
      | nil => exact new_within _ _
      | append_singleton done call hypothesis =>
          have before := hypothesis (earlier inside)
          have honours := (honours_iff (valid done) before (narrow done (earlier inside))).mpr (fits done call inside)
          rw [run, Runs.foldl_concat]
          exact honours.1
    intro done call inside
    exact (honours_iff (valid done) (within done (earlier inside)) (narrow done (earlier inside))).mpr
      (fits done call inside)

theorem budgets_hold_iff_sample : (run 10 20 [.registerSegment 1 8 .hotDram]).WithinBudgets := by
  have narrow : ∀ done, done <+: [Call.registerSegment 1 8 .hotDram] → (run 10 20 done).Narrow := by
    intro done inside
    rcases List.prefix_cons_iff.mp inside with rfl | ⟨rest, rfl, nothing⟩
    · decide
    · rw [List.prefix_nil.mp nothing]
      decide
  have fits : ∀ done call, done ++ [call] <+: [Call.registerSegment 1 8 .hotDram] → (run 10 20 done).Fits call := by
    intro done call inside
    rcases List.eq_nil_or_concat' done with rfl | ⟨before, last, rfl⟩
    · obtain rfl := (List.cons_prefix_cons.mp inside).1
      intro capacity limited
      rw [← Option.some.inj limited]
      decide
    · have length := inside.length_le
      simp at length
  exact ((budgets_hold_iff 10 20 _ narrow).mpr fits [] _ (List.prefix_refl _)).1

/-- A new segment is larger than its tier, and a promoted one is told to be in the tier that it has just left. -/
theorem registration_ignores_budget_and_access_tells_old_tier :
    ¬ (run 10 20 [.registerSegment 1 11 .hotDram]).WithinBudgets ∧
      let before := run 10 20 [.registerSegment 1 21 .coldMedia, .recordAccess 1]
      (before.recordAccess 1).1 = .ok .warmMapped ∧ (before.recordAccess 1).2.tierOf 1 = some .coldMedia := by
  refine ⟨fun within => absurd (within .hotDram 10 rfl) (by decide), rfl, rfl⟩

end Calls

end TieredStorageManager

end Temnion.Runtime
