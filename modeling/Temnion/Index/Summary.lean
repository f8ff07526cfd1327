import Temnion.Core
import Temnion.Library.Fallible
import Temnion.Format.Codec

/-
This file summarizes blocks of records and decides which blocks a filter may skip.
-/

namespace Temnion.Index

open Format LittleEndian

inductive IndexError where
  | io (message : String)
  | format (message : String)
  | checksumMismatch
  | invalidMagic
  | unsupportedVersion (version : UInt16)
  deriving DecidableEq, Repr

structure ZoneMap (T : Type) where
  min : T
  max : T
  deriving DecidableEq, Repr

namespace ZoneMap

variable {T : Type} [LT T] [DecidableLT T]

def new (value : T) : ZoneMap T := ⟨value, value⟩

def update (zone : ZoneMap T) (value : T) : ZoneMap T where
  min := if value < zone.min then value else zone.min
  max := if zone.max < value then value else zone.max

def contains [LE T] [DecidableLE T] (zone : ZoneMap T) (value : T) : Bool :=
  decide (zone.min ≤ value) && decide (value ≤ zone.max)

end ZoneMap

/-- The interval covers the ticks of one clock domain. -/
structure TimestampZoneMap where
  clock : ClockId
  minTicks : UInt64
  maxTicks : UInt64
  deriving DecidableEq, Repr

namespace TimestampZoneMap

def new (timestamp : Timestamp) : TimestampZoneMap :=
  ⟨timestamp.clock, timestamp.ticks, timestamp.ticks⟩

def update (zone : TimestampZoneMap) (timestamp : Timestamp) : TimestampZoneMap :=
  if timestamp.clock = zone.clock then
    { zone with
      minTicks := if timestamp.ticks < zone.minTicks then timestamp.ticks else zone.minTicks
      maxTicks := if zone.maxTicks < timestamp.ticks then timestamp.ticks else zone.maxTicks }
  else zone

/-- A range on another clock never prunes. -/
def overlapsRange (zone : TimestampZoneMap) (range : TimeRange) : Bool :=
  if zone.clock ≠ range.clock then true
  else decide (zone.minTicks < range.stop) && decide (range.start ≤ zone.maxTicks)

def canContainKnown (zone : TimestampZoneMap) (cutoff : Timestamp) : Bool :=
  if zone.clock ≠ cutoff.clock then true else decide (zone.minTicks ≤ cutoff.ticks)

end TimestampZoneMap

structure EntityBloomFilter where
  bits : Vector UInt8 64
  deriving DecidableEq, Repr

namespace EntityBloomFilter

def new : EntityBloomFilter := ⟨Vector.replicate 64 0⟩

def seeds : List UInt64 :=
  [0x517cc1b727220a95, 0x6e3a39e7b401e62a, 0x9b6b79f324e93081, 0xc6a4a7935bd1e995]

def hashEntity (entity : EntityId) (seed : UInt64) : Fin 512 :=
  let start := seed + 0x9e3779b97f4a7c15
  let place := (start ^^^ (entity.shard.toUInt64 <<< 32 ||| entity.slot.toUInt64)) * 0xbf58476d1ce4e5b9
  let mixed := place ^^^ place >>> 30
  let whole := (mixed ^^^ entity.generation.toUInt64 * 0x94d049bb133111eb) * 0xbf58476d1ce4e5b9
  let last := whole ^^^ whole >>> 32
  ⟨last.toNat % 512, Nat.mod_lt _ (by decide)⟩

/-- The byte that holds a bit and the mask of the bit inside it. -/
def byteIndex (bit : Fin 512) : Fin 64 := ⟨bit / 8, by omega⟩

def bitMask (bit : Fin 512) : UInt8 := 1 <<< UInt8.ofNat (bit % 8)

def setBit (filter : EntityBloomFilter) (bit : Fin 512) : EntityBloomFilter :=
  ⟨filter.bits.set (byteIndex bit) (filter.bits.get (byteIndex bit) ||| bitMask bit)⟩

def testBit (filter : EntityBloomFilter) (bit : Fin 512) : Bool :=
  filter.bits.get (byteIndex bit) &&& bitMask bit != 0

def insert (filter : EntityBloomFilter) (entity : EntityId) : EntityBloomFilter :=
  seeds.foldl (fun filter seed => filter.setBit (hashEntity entity seed)) filter

def mayContain (filter : EntityBloomFilter) (entity : EntityId) : Bool :=
  seeds.all fun seed => filter.testBit (hashEntity entity seed)

end EntityBloomFilter

inductive SkipDecision where
  | skip
  | mustScan
  deriving DecidableEq, Repr

section Soundness

variable {T : Type} [LinearOrder T]

/-- An updated zone still contains what it contained and the new value. -/
theorem ZoneMap.contains_update {zone : ZoneMap T} {value other : T} :
    (other = value ∨ zone.contains other) → (zone.update value).contains other := by
  intro held
  simp only [contains, Bool.and_eq_true, decide_eq_true_eq] at held ⊢
  dsimp only [update]
  rcases held with rfl | held
  · constructor <;> split <;> order
  · constructor <;> split <;> order

theorem ZoneMap.contains_new (value : T) : (ZoneMap.new value).contains value := by
  simp [contains, new]

end Soundness

namespace TimestampZoneMap

/-- The zone bounds every timestamp of its own clock. -/
def Covers (zone : TimestampZoneMap) (timestamp : Timestamp) : Prop :=
  timestamp.clock = zone.clock → zone.minTicks ≤ timestamp.ticks ∧ timestamp.ticks ≤ zone.maxTicks

@[simp] theorem update_clock (zone : TimestampZoneMap) (timestamp : Timestamp) :
    (zone.update timestamp).clock = zone.clock := by
  unfold update
  split <;> rfl

theorem covers_new (timestamp : Timestamp) : (new timestamp).Covers timestamp :=
  fun _ => ⟨UInt64.le_refl _, UInt64.le_refl _⟩

/-- An updated zone still covers what it covered and the new timestamp. -/
theorem covers_update {zone : TimestampZoneMap} {timestamp other : Timestamp}
    (held : other = timestamp ∨ zone.Covers other) : (zone.update timestamp).Covers other := by
  intro clock
  rw [update_clock] at clock
  unfold update
  by_cases same : timestamp.clock = zone.clock
  · rw [if_pos same]
    rcases held with rfl | held
    · dsimp only
      constructor <;> split <;> grind
    · have bounds := held clock
      dsimp only
      constructor <;> split <;> grind
  · rw [if_neg same]
    rcases held with rfl | held
    · exact absurd clock same
    · exact held clock

/-- A range that misses the zone contains no covered timestamp. -/
theorem overlapsRange_false {zone : TimestampZoneMap} {range : TimeRange} {timestamp : Timestamp}
    (covers : zone.Covers timestamp) (misses : zone.overlapsRange range = false) :
    range.contains timestamp = false := by
  unfold overlapsRange at misses
  by_cases clock : zone.clock = range.clock
  · rw [if_neg (not_not.mpr clock)] at misses
    by_contra inside
    obtain ⟨same, lower, upper⟩ := TimeRange.contains_iff.mp (Bool.not_eq_false _ ▸ inside)
    have bounds := covers (same.trans clock.symm)
    grind
  · rw [if_pos clock] at misses
    contradiction

/-- A cutoff before the zone comes before every covered timestamp of the clock. -/
theorem canContainKnown_false {zone : TimestampZoneMap} {cutoff timestamp : Timestamp}
    (covers : zone.Covers timestamp) (clock : timestamp.clock = zone.clock)
    (early : zone.canContainKnown cutoff = false) : cutoff.ticks < timestamp.ticks := by
  unfold canContainKnown at early
  have bounds := covers clock
  split at early
  · contradiction
  · grind

end TimestampZoneMap

namespace EntityBloomFilter

theorem bitMask_ne_zero (bit : Fin 512) : bitMask bit ≠ 0 := by
  have masks : ∀ place : Fin 8, (1 : UInt8) <<< UInt8.ofNat place.val ≠ 0 := by decide
  exact masks ⟨bit % 8, Nat.mod_lt _ (by decide)⟩

/-- A mask that meets a byte also meets the byte with more bits set. -/
theorem and_ne_zero_of_or {byte more mask : UInt8} (meets : byte &&& mask ≠ 0 ∨ more &&& mask ≠ 0) :
    (byte ||| more) &&& mask ≠ 0 := by
  have split : (byte ||| more) &&& mask = byte &&& mask ||| more &&& mask := by
    apply UInt8.toBitVec_inj.mp
    ext place
    simp [Bool.and_or_distrib_right]
  rw [split, Ne, UInt8.or_eq_zero_iff, not_and_or]
  exact meets

theorem testBit_setBit_self (filter : EntityBloomFilter) (bit : Fin 512) :
    (filter.setBit bit).testBit bit := by
  have stored : (filter.setBit bit).bits.get (byteIndex bit) =
      filter.bits.get (byteIndex bit) ||| bitMask bit := Vector.getElem_set_self _
  rw [testBit, bne_iff_ne, stored]
  apply and_ne_zero_of_or
  right
  rw [UInt8.and_self]
  exact bitMask_ne_zero bit

theorem testBit_setBit {filter : EntityBloomFilter} {bit other : Fin 512} (held : filter.testBit bit) :
    (filter.setBit other).testBit bit := by
  rw [testBit, bne_iff_ne] at held ⊢
  by_cases same : byteIndex other = byteIndex bit
  · have stored : (filter.setBit other).bits.get (byteIndex other) =
        filter.bits.get (byteIndex other) ||| bitMask other := Vector.getElem_set_self _
    rw [← same] at held ⊢
    rw [stored]
    exact and_ne_zero_of_or (Or.inl held)
  · have kept : (filter.setBit other).bits.get (byteIndex bit) = filter.bits.get (byteIndex bit) :=
      Vector.getElem_set_ne (byteIndex other).isLt (byteIndex bit).isLt (fun equal => same (Fin.ext equal))
    rw [kept]
    exact held

theorem testBit_foldl {bits : List UInt64} {place : UInt64 → Fin 512} {filter : EntityBloomFilter} {bit : Fin 512}
    (held : filter.testBit bit ∨ ∃ seed ∈ bits, place seed = bit) :
    (bits.foldl (fun filter seed => filter.setBit (place seed)) filter).testBit bit := by
  induction bits generalizing filter with
  | nil => simpa using held
  | cons seed bits ih =>
      rw [List.foldl_cons]
      apply ih
      rcases held with held | ⟨other, member, rfl⟩
      · exact Or.inl (testBit_setBit held)
      · rcases List.mem_cons.mp member with rfl | member
        · exact Or.inl (testBit_setBit_self _ _)
        · exact Or.inr ⟨other, member, rfl⟩

theorem mayContain_insert_self (filter : EntityBloomFilter) (entity : EntityId) :
    (filter.insert entity).mayContain entity := by
  rw [mayContain, List.all_eq_true]
  intro seed member
  exact testBit_foldl (Or.inr ⟨seed, member, rfl⟩)

theorem mayContain_insert {filter : EntityBloomFilter} {entity other : EntityId}
    (held : filter.mayContain entity) : (filter.insert other).mayContain entity := by
  rw [mayContain, List.all_eq_true] at held ⊢
  intro seed member
  exact testBit_foldl (Or.inl (held seed member))

end EntityBloomFilter

structure BlockSummary where
  batchIndex : UInt32
  recordCount : UInt32
  byteOffset : UInt64
  byteLength : UInt32
  sequenceRange : ZoneMap UInt64
  validTimeRange : TimestampZoneMap
  knownTimeRange : TimestampZoneMap
  entityRange : ZoneMap EntityId
  entityBloom : EntityBloomFilter
  schemaMask : UInt64
  deriving DecidableEq

namespace BlockSummary

/-- Schemas from sixty-four on have no bit of their own. -/
def schemaBit (schema : SchemaId) : UInt64 :=
  if schema < 64 then 1 <<< schema.toUInt64 else 0

def new (batchIndex : UInt32) (byteOffset : UInt64) (byteLength : UInt32) (sequence : UInt64)
    (entity : EntityId) (schema : SchemaId) (times : EventTimes) : BlockSummary where
  batchIndex := batchIndex
  recordCount := 1
  byteOffset := byteOffset
  byteLength := byteLength
  sequenceRange := .new sequence
  validTimeRange := .new times.valid
  knownTimeRange := .new times.known
  entityRange := .new entity
  entityBloom := EntityBloomFilter.new.insert entity
  schemaMask := schemaBit schema

def update (summary : BlockSummary) (sequence : UInt64) (entity : EntityId) (schema : SchemaId)
    (times : EventTimes) : BlockSummary where
  batchIndex := summary.batchIndex
  recordCount := summary.recordCount + 1
  byteOffset := summary.byteOffset
  byteLength := summary.byteLength
  sequenceRange := summary.sequenceRange.update sequence
  validTimeRange := summary.validTimeRange.update times.valid
  knownTimeRange := summary.knownTimeRange.update times.known
  entityRange := summary.entityRange.update entity
  entityBloom := summary.entityBloom.insert entity
  schemaMask := summary.schemaMask ||| schemaBit schema

/-- Observed times may be absent, so that axis never skips. -/
def overlapsAxis (summary : BlockSummary) (range : TimeRange) : TimeAxis → Bool
  | .valid => summary.validTimeRange.overlapsRange range
  | .known => summary.knownTimeRange.overlapsRange range
  | .observed => true

def matchesFilter (summary : BlockSummary) (filter : HistoryFilter) : SkipDecision :=
  if filter.entity.any (fun entity => !summary.entityRange.contains entity) then .skip
  else if filter.entity.any (fun entity => !summary.entityBloom.mayContain entity) then .skip
  else if filter.knownAsOf.any (fun cutoff => !summary.knownTimeRange.canContainKnown cutoff) then .skip
  else if filter.time.any (fun (axis, range) => !summary.overlapsAxis range axis) then .skip
  else .mustScan

/-- The summary accounts for a record of its block. -/
structure Covers (summary : BlockSummary) (record : StoredEvent) : Prop where
  entity : summary.entityRange.contains record.entity
  bloom : summary.entityBloom.mayContain record.entity
  valid : summary.validTimeRange.Covers record.times.valid
  known : summary.knownTimeRange.Covers record.times.known

theorem covers_new (batchIndex : UInt32) (byteOffset : UInt64) (byteLength : UInt32) (record : StoredEvent) :
    (new batchIndex byteOffset byteLength record.id.sequence record.entity record.schema record.times).Covers
      record where
  entity := ZoneMap.contains_new _
  bloom := EntityBloomFilter.mayContain_insert_self _ _
  valid := TimestampZoneMap.covers_new _
  known := TimestampZoneMap.covers_new _

theorem covers_update {summary : BlockSummary} {record other : StoredEvent}
    (held : other = record ∨ summary.Covers other) :
    (summary.update record.id.sequence record.entity record.schema record.times).Covers other where
  entity := ZoneMap.contains_update (held.imp (congrArg StoredEvent.entity) Covers.entity)
  bloom := by
    rcases held with rfl | held
    · exact EntityBloomFilter.mayContain_insert_self _ _
    · exact EntityBloomFilter.mayContain_insert held.bloom
  valid := TimestampZoneMap.covers_update
    (held.imp (congrArg fun record : StoredEvent => record.times.valid) Covers.valid)
  known := TimestampZoneMap.covers_update
    (held.imp (congrArg fun record : StoredEvent => record.times.known) Covers.known)

/-- A skipped block holds no record that the filter keeps. -/
theorem keeps_of_skip {summary : BlockSummary} {record : StoredEvent} {filter : HistoryFilter}
    (covers : summary.Covers record) (clock : record.times.known.clock = summary.knownTimeRange.clock)
    (skipped : summary.matchesFilter filter = .skip) : filter.keeps record = false := by
  by_contra kept
  obtain ⟨entity, knownAsOf, time⟩ := HistoryFilter.keeps_iff.mp (Bool.not_eq_false _ ▸ kept)
  unfold matchesFilter at skipped
  split at skipped
  · next misses =>
      obtain ⟨wanted, named, outside⟩ := Option.any_eq_true _ _ |>.mp misses
      rw [entity wanted named, covers.entity] at outside
      contradiction
  split at skipped
  · next misses =>
      obtain ⟨wanted, named, outside⟩ := Option.any_eq_true _ _ |>.mp misses
      rw [entity wanted named, covers.bloom] at outside
      contradiction
  split at skipped
  · next misses =>
      obtain ⟨cutoff, named, outside⟩ := Option.any_eq_true _ _ |>.mp misses
      have early := TimestampZoneMap.canContainKnown_false covers.known clock (by simpa using outside)
      have inside := knownAsOf cutoff named
      grind
  split at skipped
  · next misses =>
      obtain ⟨⟨axis, range⟩, named, outside⟩ := Option.any_eq_true _ _ |>.mp misses
      obtain ⟨timestamp, present, inside⟩ := time axis range named
      have miss : summary.overlapsAxis range axis = false := by simpa using outside
      cases axis with
      | valid =>
          obtain rfl : record.times.valid = timestamp := Option.some.inj present
          rw [TimestampZoneMap.overlapsRange_false covers.valid miss] at inside
          contradiction
      | observed => contradiction
      | known =>
          obtain rfl : record.times.known = timestamp := Option.some.inj present
          rw [TimestampZoneMap.overlapsRange_false covers.known miss] at inside
          contradiction
  · contradiction

end BlockSummary

structure SegmentSummary where
  database : DatabaseId
  source : SourceId
  epoch : SourceEpoch
  sequenceRange : ZoneMap UInt64
  validTimeRange : TimestampZoneMap
  knownTimeRange : TimestampZoneMap
  entityRange : ZoneMap EntityId
  totalRecords : UInt64
  blocks : List BlockSummary
  deriving DecidableEq

namespace SegmentSummary

def updateZone (zone : TimestampZoneMap) (block : TimestampZoneMap) : TimestampZoneMap :=
  (zone.update ⟨block.clock, block.minTicks⟩).update ⟨block.clock, block.maxTicks⟩

def new (database : DatabaseId) (source : SourceId) (epoch : SourceEpoch) :
    List BlockSummary → Except IndexError SegmentSummary
  | [] => .error (.format "cannot create segment summary from empty blocks")
  | first :: rest => .ok {
      database, source, epoch
      sequenceRange := (first :: rest).foldl (fun zone block =>
        (zone.update block.sequenceRange.min).update block.sequenceRange.max) first.sequenceRange
      validTimeRange := (first :: rest).foldl (fun zone block => updateZone zone block.validTimeRange)
        first.validTimeRange
      knownTimeRange := (first :: rest).foldl (fun zone block => updateZone zone block.knownTimeRange)
        first.knownTimeRange
      entityRange := (first :: rest).foldl (fun zone block =>
        (zone.update block.entityRange.min).update block.entityRange.max) first.entityRange
      totalRecords := (first :: rest).foldl (fun total block => total + block.recordCount.toUInt64) 0
      blocks := first :: rest }

def zoneBytes (zone : TimestampZoneMap) : List UInt8 :=
  le32 zone.clock ++ le64 zone.minTicks ++ le64 zone.maxTicks

def entityBytes (entity : EntityId) : List UInt8 :=
  le32 entity.shard ++ le32 entity.slot ++ le32 entity.generation

def blockBytes (block : BlockSummary) : List UInt8 :=
  le32 block.batchIndex ++ le32 block.recordCount ++ le64 block.byteOffset ++ le32 block.byteLength ++
    le64 block.sequenceRange.min ++ le64 block.sequenceRange.max ++ zoneBytes block.validTimeRange ++
    zoneBytes block.knownTimeRange ++ entityBytes block.entityRange.min ++ entityBytes block.entityRange.max ++
    le64 block.schemaMask ++ block.entityBloom.bits.toList

def summaryMagic : List UInt8 := [0x54, 0x4E, 0x53, 0x4D]

def summaryVersion : UInt16 := 1

def encode [Crc32fast] (summary : SegmentSummary) : List UInt8 :=
  let body := summary.database.bytes ++ le32 summary.source ++ le64 summary.epoch ++ le64 summary.totalRecords ++
    le32 (UInt32.ofNat summary.blocks.length) ++ summary.blocks.flatMap blockBytes
  summaryMagic ++ le16 summaryVersion ++ le32 (Crc32fast.hash body) ++ body

end SegmentSummary

end Temnion.Index
