import Temnion.Index.Intersection
import Temnion.Library.Moving

/-
This file saves a projection index and loads it again.
-/

namespace Temnion.Index

open Format LittleEndian Slices Moving

def projectionMagic : List UInt8 := [84, 78, 80, 82]

def projectionVersion : UInt16 := 1

/-- The lists of a projection keep their order, and their numbers are narrowed to four bytes. -/
def encodeSequences (seqs : List UInt64) : List UInt8 := le32 (UInt32.ofNat seqs.length) ++ seqs.flatMap le64

def readCount (body : List UInt8) : Moving IndexError UInt32 := readU32 body (.format "unexpected EOF reading u32")

def readWord (body : List UInt8) : Moving IndexError UInt64 := readU64 body (.format "unexpected EOF reading u64")

def readSequences (body : List UInt8) : Moving IndexError (List UInt64) := do
  let seqCount ← readCount body
  many (readWord body) seqCount.toNat

namespace Postings

variable {K : Type} [LinearOrder K]

/-- The entries in the order of their keys, and their number in front of them. -/
def encode (encodeKey : K → List UInt8) (entries : Postings K) : List UInt8 :=
  le32 (UInt32.ofNat entries.size) ++ entries.toList.flatMap fun entry => encodeKey entry.1 ++ encodeSequences entry.2

/-- Of two entries with one key the later one stays. -/
def decode (body : List UInt8) (readKey : Moving IndexError K) : Moving IndexError (Postings K) := do
  let count ← readCount body
  let entries ← many (do
    let key ← readKey
    let seqs ← readSequences body
    return (key, seqs)) count.toNat
  return entries.foldl (fun map entry => Std.ExtTreeMap.insert map entry.1 entry.2) (∅ : OrderedMap K (List UInt64))

end Postings

def encodeEntity (entity : EntityId) : List UInt8 := le32 entity.shard ++ (le32 entity.slot ++ le32 entity.generation)

def readEntity (body : List UInt8) : Moving IndexError EntityId := do
  let shard ← readCount body
  let slot ← readCount body
  let generation ← readCount body
  return ⟨shard, slot, generation⟩

def encodeTime (time : ClockId ×ₗ UInt64) : List UInt8 := le32 (ofLex time).1 ++ le64 (ofLex time).2

def readTime (body : List UInt8) : Moving IndexError (ClockId ×ₗ UInt64) := do
  let clock ← readCount body
  let ticks ← readWord body
  return toLex (clock, ticks)

section RoundTrip

variable {body : List UInt8}

theorem reads_count (body : List UInt8) (value : UInt32) : Reads body (readCount body) (le32 value) value :=
  reads_u32 body _ value

theorem reads_word (body : List UInt8) (value : UInt64) : Reads body (readWord body) (le64 value) value :=
  reads_u64 body _ value

theorem reads_entity (body : List UInt8) (entity : EntityId) :
    Reads body (readEntity body) (encodeEntity entity) entity :=
  (reads_count body entity.shard).bind ((reads_count body entity.slot).bind (reads_count body entity.generation).bind_pure)

theorem reads_time (body : List UInt8) (time : ClockId ×ₗ UInt64) : Reads body (readTime body) (encodeTime time) time :=
  (reads_count body (ofLex time).1).bind (reads_word body (ofLex time).2).bind_pure

theorem reads_sequences (body : List UInt8) {seqs : List UInt64} (few : seqs.length < 2 ^ 32) :
    Reads body (readSequences body) (encodeSequences seqs) seqs := by
  apply (reads_count body _).bind
  rw [UInt32.toNat_ofNat_of_lt' few]
  exact Reads.many fun word _ => reads_word body word

/-- The number of entries and the length of every list fit into four bytes. -/
structure Postings.Counted {K : Type} [LinearOrder K] (entries : Postings K) : Prop where
  keys : entries.size < 2 ^ 32
  lists : ∀ entry ∈ entries.toList, entry.2.length < 2 ^ 32

namespace Postings

variable {K : Type} [LinearOrder K]

end Postings

/-- The entries of a projection are read back when its keys are. -/
theorem Postings.reads {K : Type} [LinearOrder K] {entries : Postings K} {encodeKey : K → List UInt8}
    {readKey : Moving IndexError K} (counted : entries.Counted) (key : ∀ key, Reads body readKey (encodeKey key) key) :
    Reads body (Postings.decode body readKey) (entries.encode encodeKey) entries := by
  apply (reads_count body _).bind
  rw [UInt32.toNat_ofNat_of_lt' counted.keys, ← Std.ExtTreeMap.length_toList]
  have single : ∀ entry ∈ entries.toList, Reads body (do
      let key ← readKey
      let seqs ← readSequences body
      return (key, seqs)) (encodeKey entry.1 ++ encodeSequences entry.2) entry := by
    intro entry member
    apply (key entry.1).bind
    exact (reads_sequences body (counted.lists entry member)).bind_pure
  have built := @Reads.bind_pure _ _ _ body _ _ _ (fun entries =>
    entries.foldl (fun map entry => Std.ExtTreeMap.insert map entry.1 entry.2) (∅ : OrderedMap K (List UInt64)))
    (Reads.many single)
  rwa [OrderedMap.foldl_insert_toList] at built

/-- No bytes lead the reader of a projection outside their end. -/
theorem Postings.careful {K : Type} [LinearOrder K] (body : List UInt8) {readKey : Moving IndexError K}
    (key : Careful readKey) : Careful (Postings.decode body readKey) := by
  have count := careful_u32 body (IndexError.format "unexpected EOF reading u32")
  have word := careful_u64 body (IndexError.format "unexpected EOF reading u64")
  apply count.bind
  intro entries
  apply Careful.bind
  · apply Careful.many
    apply key.bind
    intro key
    exact (count.bind fun seqCount => word.many seqCount.toNat).bind fun seqs => Careful.pure (key, seqs)
  · exact fun entries => Careful.pure _

end RoundTrip

namespace ProjectionIndex

def body (index : ProjectionIndex) : List UInt8 :=
  le64 index.totalIndexed ++ (index.entities.entries.encode encodeEntity ++ (index.temporal.entries.encode encodeTime ++
    (index.spatial.entries.encode le64 ++ index.schemas.entries.encode le32)))

def decodeBody (body : List UInt8) : Moving IndexError ProjectionIndex := do
  let totalIndexed ← readWord body
  let entities ← Postings.decode body (readEntity body)
  let temporal ← Postings.decode body (readTime body)
  let spatial ← Postings.decode body (readWord body)
  let schemas ← Postings.decode body (readCount body)
  return ⟨⟨entities⟩, ⟨temporal⟩, ⟨spatial⟩, ⟨schemas⟩, totalIndexed⟩

variable [Crc32fast]

/-- The flags are zero. -/
def encode (index : ProjectionIndex) : List UInt8 :=
  projectionMagic ++ (le16 projectionVersion ++ (le16 0 ++ (le32 (Crc32fast.hash index.body) ++ index.body)))

/-- Bytes behind the last entry are not looked at. -/
def decode (bytes : List UInt8) : Parse IndexError ProjectionIndex := do
  refuseIf (bytes.length < 12) (.refused (.format "projection index truncated"))
  let magic ← sliceAt bytes 0 4
  refuseIf (magic ≠ projectionMagic) (.refused .invalidMagic)
  let version ← u16At bytes 4
  refuseIf (version ≠ projectionVersion) (.refused (.unsupportedVersion version))
  let expected ← u32At bytes 8
  let body ← sliceAt bytes 12 bytes.length
  refuseIf (Crc32fast.hash body ≠ expected) (.refused .checksumMismatch)
  let (index, _) ← decodeBody body 0
  return index

/-- All counts of the index fit into four bytes. -/
structure Counted (index : ProjectionIndex) : Prop where
  entities : index.entities.entries.Counted
  temporal : index.temporal.entries.Counted
  spatial : index.spatial.entries.Counted
  schemas : index.schemas.entries.Counted

omit [Crc32fast] in
/-- The four projections are read one behind the other. -/
theorem reads_body {index : ProjectionIndex} (counted : index.Counted) (bytes : List UInt8) :
    Reads bytes (decodeBody bytes) index.body index := by
  apply (reads_word bytes index.totalIndexed).bind
  apply (Postings.reads counted.entities (reads_entity bytes)).bind
  apply (Postings.reads counted.temporal (reads_time bytes)).bind
  apply (Postings.reads counted.spatial (reads_word bytes)).bind
  exact (Postings.reads counted.schemas (reads_count bytes)).bind_pure

theorem decode_encode {index : ProjectionIndex} (counted : index.Counted) : decode index.encode = .ok index := by
  have length : index.encode.length = 12 + index.body.length := by
    have magic : projectionMagic.length = 4 := rfl
    simp only [encode, List.length_append, le16_length, le32_length, magic]
    omega
  obtain ⟨checksum, hashed⟩ : ∃ checksum, Crc32fast.hash index.body = checksum := ⟨_, rfl⟩
  have whole : Ahead index.encode 0 (projectionMagic ++ (le16 projectionVersion ++ (le16 0 ++ (le32 checksum ++
      (index.body ++ []))))) := by
    rw [List.append_nil, ← hashed]
    exact ahead_start index.encode
  obtain ⟨magic, ahead⟩ := whole.slice IndexError (rfl : _ = 4)
  obtain ⟨version, ahead⟩ := ahead.u16 IndexError rfl
  obtain ⟨_, ahead⟩ := ahead.u16 IndexError (rfl : _ = 8)
  obtain ⟨expected, ahead⟩ := ahead.u32 IndexError (rfl : _ = 12)
  obtain ⟨body, _⟩ := ahead.slice IndexError length.symm
  have loaded := reads_body counted index.body 0 [] (ahead_start index.body).last
  rw [decode, Except.refuseIf_bind (by omega), magic, Except.ok_bind, Except.refuseIf_bind (not_not.mpr rfl), version,
    Except.ok_bind, Except.refuseIf_bind (not_not.mpr rfl), expected, Except.ok_bind, body, Except.ok_bind,
    Except.refuseIf_bind (not_not.mpr hashed), loaded]
  rfl

omit [Crc32fast] in
theorem careful_body (body : List UInt8) : Careful (decodeBody body) := by
  have count := careful_u32 body (IndexError.format "unexpected EOF reading u32")
  have word := careful_u64 body (IndexError.format "unexpected EOF reading u64")
  apply word.bind
  intro totalIndexed
  apply (Postings.careful body (count.bind fun _ => count.bind fun _ => count.bind fun _ => Careful.pure _)).bind
  intro entities
  apply (Postings.careful body (count.bind fun _ => word.bind fun _ => Careful.pure _)).bind
  intro temporal
  apply (Postings.careful body word).bind
  intro spatial
  apply (Postings.careful body count).bind
  exact fun schemas => Careful.pure _

theorem decode_safe (bytes : List UInt8) : Safe (decode bytes) := by
  apply Safe.guard
  intro long
  rw [sliceAt_ok (Nat.zero_le _) (by omega), Except.ok_bind]
  apply Safe.guard
  intro _
  rw [u16At_ok (by omega), Except.ok_bind]
  apply Safe.guard
  intro _
  rw [u32At_ok (by omega), Except.ok_bind, sliceAt_ok (by omega) (le_refl _), Except.ok_bind]
  apply Safe.guard
  intro _
  exact (careful_body _ 0).bind fun pair _ => safe_ok _

end ProjectionIndex

end Temnion.Index
