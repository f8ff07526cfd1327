import Temnion.Codec.Frame
import Temnion.Library.Bits

/-
This file writes and reads single bits of a byte string, the lowest bit of a byte first.
-/

namespace Temnion.Codec

open Bits

/-- The bits that do not fill a byte yet are kept apart from the finished bytes. -/
structure BitWriter where
  buf : List UInt8
  bitBuf : UInt64
  bitCount : Nat
  pending : bitCount < 8
  small : bitBuf.toNat < 2 ^ bitCount

/-- A shift of a word by its whole width or more has no result. -/
def shiftLeft (value : UInt64) (amount : Nat) : Except Halt UInt64 :=
  if amount < 64 then .ok (value <<< UInt64.ofNat amount) else .error .overflow

def shiftRight (value : UInt64) (amount : Nat) : Except Halt UInt64 :=
  if amount < 64 then .ok (value >>> UInt64.ofNat amount) else .error .overflow

/-- The buffered word after one more bit. -/
def pushed (bitBuf : UInt64) (bitCount : Nat) (bit : UInt8) : UInt64 :=
  bitBuf ||| (bit.toUInt64 &&& 1) <<< UInt64.ofNat bitCount

theorem pushed_toNat {bitBuf : UInt64} {bitCount : Nat} {bit : UInt8} (pending : bitCount < 8) :
    (pushed bitBuf bitCount bit).toNat = bitBuf.toNat ||| (bit.toNat % 2) <<< bitCount := by
  have amount : (UInt64.ofNat bitCount).toNat = bitCount := LittleEndian.toNat_ofNat (by omega)
  have single : bit.toNat % 2 < 2 ^ 1 := Nat.mod_lt _ Nat.two_pos
  have within : (bit.toNat % 2) <<< bitCount < 2 ^ 64 := by
    apply lt_of_lt_of_le (Nat.shiftLeft_lt single)
    exact Nat.pow_le_pow_right Nat.two_pos (by omega)
  unfold pushed
  rw [UInt64.toNat_or, UInt64.toNat_shiftLeft, amount, Nat.mod_eq_of_lt (by omega : bitCount < 64), UInt64.toNat_and,
    UInt8.toNat_toUInt64, UInt64.toNat_one, Nat.and_one_is_mod, Nat.mod_eq_of_lt within]

theorem pushed_lt {bitBuf : UInt64} {bitCount : Nat} {bit : UInt8} (pending : bitCount < 8)
    (small : bitBuf.toNat < 2 ^ bitCount) : (pushed bitBuf bitCount bit).toNat < 2 ^ (bitCount + 1) := by
  rw [pushed_toNat pending]
  exact or_shiftLeft_lt small (Nat.mod_lt _ Nat.two_pos)

namespace BitWriter

def new (buf : List UInt8) : BitWriter := ⟨buf, 0, 0, by decide, by decide⟩

def writeBit (writer : BitWriter) (bit : UInt8) : BitWriter :=
  if full : writer.bitCount + 1 = 8 then
    ⟨writer.buf ++ [(pushed writer.bitBuf writer.bitCount bit).toUInt8], 0, 0, by decide, by decide⟩
  else
    ⟨writer.buf, pushed writer.bitBuf writer.bitCount bit, writer.bitCount + 1, by have := writer.pending; omega,
      pushed_lt writer.pending writer.small⟩

def writeBits (writer : BitWriter) (value : UInt64) (count : Nat) : Except Halt BitWriter :=
  (List.range count).foldlM (fun writer index => do
    let shifted ← shiftRight value index
    return writer.writeBit (shifted &&& 1).toUInt8) writer

/-- The finished bytes. A last byte is filled up with zeros. -/
def flush (writer : BitWriter) : List UInt8 :=
  if 0 < writer.bitCount then writer.buf ++ [writer.bitBuf.toUInt8] else writer.buf

/-- The writer has put these bits behind its first bytes. -/
def Holds (start : List UInt8) (written : List Bool) (writer : BitWriter) : Prop :=
  ∃ bytes, writer.buf = start ++ bytes ∧ byteBits bytes ++ bits writer.bitCount writer.bitBuf.toNat = written

variable {start : List UInt8} {written : List Bool} {writer : BitWriter}

theorem holds_new (start : List UInt8) : (new start).Holds start [] := ⟨[], (List.append_nil _).symm, rfl⟩

theorem Holds.writeBit (holds : writer.Holds start written) (bit : UInt8) :
    (writer.writeBit bit).Holds start (written ++ [bit.toNat.testBit 0]) := by
  obtain ⟨bytes, buf, same⟩ := holds
  have grown : bits (writer.bitCount + 1) (pushed writer.bitBuf writer.bitCount bit).toNat =
      bits writer.bitCount writer.bitBuf.toNat ++ [bit.toNat.testBit 0] := by
    rw [pushed_toNat writer.pending, bits_or_shiftLeft writer.small, Nat.testBit_zero, Nat.testBit_zero, Nat.mod_mod]
  unfold BitWriter.writeBit
  by_cases full : writer.bitCount + 1 = 8
  · rw [dif_pos full]
    refine ⟨bytes ++ [(pushed writer.bitBuf writer.bitCount bit).toUInt8], ?_, ?_⟩
    · rw [buf, List.append_assoc]
    · rw [full] at grown
      rw [byteBits_append, byteBits_cons, byteBits_nil, UInt64.toNat_toUInt8, bits_mod 8, grown, ← same, bits_zero,
        List.append_nil, List.append_nil, List.append_assoc]
  · rw [dif_neg full]
    refine ⟨bytes, buf, ?_⟩
    dsimp only
    rw [grown, ← List.append_assoc, same]

theorem Holds.writeBits (holds : writer.Holds start written) (value : UInt64) {count : Nat} (narrow : count ≤ 64) :
    ∃ reached, writer.writeBits value count = .ok reached ∧
      reached.Holds start (written ++ bits count value.toNat) := by
  induction count with
  | zero =>
      rw [bits_zero, List.append_nil]
      exact ⟨writer, rfl, holds⟩
  | succ count hypothesis =>
      obtain ⟨reached, earlier, held⟩ := hypothesis (Nat.le_of_succ_le narrow)
      have bit : (value >>> UInt64.ofNat count &&& 1).toUInt8.toNat.testBit 0 = value.toNat.testBit count := by
        have amount : (UInt64.ofNat count).toNat = count := LittleEndian.toNat_ofNat (by omega)
        rw [UInt64.toNat_toUInt8, UInt64.toNat_and, UInt64.toNat_shiftRight, amount, UInt64.toNat_one,
          Nat.mod_eq_of_lt (by omega : count < 64), Nat.testBit_mod_two_pow, Nat.testBit_and, Nat.testBit_shiftRight]
        simp
      refine ⟨reached.writeBit (value >>> UInt64.ofNat count &&& 1).toUInt8, ?_, ?_⟩
      · unfold BitWriter.writeBits at earlier ⊢
        rw [List.range_succ, List.foldlM_append, earlier, Except.ok_bind, List.foldlM_cons, shiftRight,
          if_pos (by omega : count < 64)]
        rfl
      · rw [bits_succ, ← List.append_assoc, ← bit]
        exact held.writeBit _

/-- Flushing fills up the last byte. -/
theorem Holds.flush (holds : writer.Holds start written) : ∃ bytes padding,
    writer.flush = start ++ bytes ∧ byteBits bytes = written ++ padding ∧ padding.length < 8 := by
  obtain ⟨bytes, buf, same⟩ := holds
  unfold BitWriter.flush
  by_cases some' : 0 < writer.bitCount
  · refine ⟨bytes ++ [writer.bitBuf.toUInt8], bits (8 - writer.bitCount) (writer.bitBuf.toNat >>> writer.bitCount), ?_, ?_, ?_⟩
    · rw [if_pos some', buf, List.append_assoc]
    · have split : bits 8 writer.bitBuf.toNat = bits writer.bitCount writer.bitBuf.toNat ++
          bits (8 - writer.bitCount) (writer.bitBuf.toNat >>> writer.bitCount) := by
        rw [← bits_add, Nat.add_sub_of_le (Nat.le_of_lt writer.pending)]
      rw [byteBits_append, byteBits_cons, byteBits_nil, UInt64.toNat_toUInt8, bits_mod 8, split, ← same,
        List.append_nil, List.append_assoc]
    · rw [bits_length]
      omega
  · have none' : writer.bitCount = 0 := Nat.eq_zero_of_not_pos some'
    refine ⟨bytes, [], ?_, ?_, Nat.zero_lt_succ 7⟩
    · rw [if_neg some', buf]
    · rw [none', bits_zero, List.append_nil] at same
      rw [same, List.append_nil]

end BitWriter

structure BitReader where
  slice : List UInt8
  byteIdx : Nat
  bitBuf : UInt64
  bitCount : Nat

namespace BitReader

def new (slice : List UInt8) : BitReader := ⟨slice, 0, 0, 0⟩

/-- The next byte replaces a buffer without bits. -/
def load (reader : BitReader) : Except Halt BitReader :=
  if reader.bitCount = 0 then
    match reader.slice[reader.byteIdx]? with
    | none => .error (.error (.invalidData "unexpected end of bitstream"))
    | some byte => .ok { reader with bitBuf := byte.toUInt64, byteIdx := reader.byteIdx + 1, bitCount := 8 }
  else .ok reader

def readBit (reader : BitReader) : Except Halt (UInt8 × BitReader) := do
  let reader ← reader.load
  let bit := (reader.bitBuf &&& 1).toUInt8
  return (bit, { reader with bitBuf := reader.bitBuf >>> 1, bitCount := reader.bitCount - 1 })

def readBits (reader : BitReader) (count : Nat) : Except Halt (UInt64 × BitReader) :=
  (List.range count).foldlM (fun (res, reader) index => do
    let (bit, reader) ← BitReader.readBit reader
    let shifted ← shiftLeft bit.toUInt64 index
    return (res ||| shifted, reader)) (0, reader)

/-- The bits that are still to be read. -/
def remaining (reader : BitReader) : List Bool :=
  bits reader.bitCount reader.bitBuf.toNat ++ byteBits (reader.slice.drop reader.byteIdx)

variable {reader : BitReader} {bit : Bool} {rest : List Bool}

theorem remaining_new (slice : List UInt8) : (new slice).remaining = byteBits slice := by
  rw [remaining, new, bits_zero, List.nil_append, List.drop_zero]

/-- Loading a byte keeps what is to be read and leaves a bit in the buffer. -/
theorem load_ok (ahead : reader.remaining = bit :: rest) : ∃ loaded count, reader.load = .ok loaded ∧
    loaded.bitCount = count + 1 ∧ loaded.remaining = bit :: rest := by
  unfold load
  by_cases empty : reader.bitCount = 0
  · rw [if_pos empty]
    have left : byteBits (reader.slice.drop reader.byteIdx) = bit :: rest := by
      rw [remaining, empty, bits_zero, List.nil_append] at ahead
      exact ahead
    cases following : reader.slice[reader.byteIdx]? with
    | none =>
        rw [List.drop_eq_nil_of_le (List.getElem?_eq_none_iff.mp following)] at left
        contradiction
    | some byte =>
        have cut : reader.slice.drop reader.byteIdx = byte :: reader.slice.drop (reader.byteIdx + 1) := by
          obtain ⟨inside, same⟩ := List.getElem?_eq_some_iff.mp following
          rw [← same]
          exact List.drop_eq_getElem_cons inside
        refine ⟨_, 7, rfl, rfl, ?_⟩
        rw [remaining, ← left, cut, byteBits_cons, UInt8.toNat_toUInt64]
  · rw [if_neg empty]
    obtain ⟨count, same⟩ := Nat.exists_eq_succ_of_ne_zero empty
    exact ⟨reader, count, rfl, same, ahead⟩

/-- The next bit is read and removed. -/
theorem readBit_ok (ahead : reader.remaining = bit :: rest) : ∃ reached,
    reader.readBit = .ok (UInt8.ofNat bit.toNat, reached) ∧ reached.remaining = rest := by
  obtain ⟨loaded, count, loads, filled, same⟩ := load_ok ahead
  rw [remaining, filled, bits_cons, List.cons_append] at same
  obtain ⟨head, tail⟩ := List.cons.inj same
  unfold readBit
  rw [loads, Except.ok_bind]
  refine ⟨{ loaded with bitBuf := loaded.bitBuf >>> 1, bitCount := loaded.bitCount - 1 }, ?_, ?_⟩
  · have value : (loaded.bitBuf &&& 1).toUInt8 = UInt8.ofNat bit.toNat := by
      apply UInt8.toNat_inj.mp
      rw [UInt64.toNat_toUInt8, UInt64.toNat_and, UInt64.toNat_one, Nat.and_one_is_mod, ← head, Nat.toNat_testBit,
        UInt8.toNat_ofNat', Nat.pow_zero, Nat.div_one]
    rw [value]
    rfl
  · rw [remaining, filled, Nat.add_sub_cancel, UInt64.toNat_shiftRight]
    exact tail

/-- A field of bits is read as the number that it was written for. -/
theorem readBits_ok {count value : Nat} (narrow : count ≤ 64) (ahead : reader.remaining = bits count value ++ rest) :
    ∃ reached, reader.readBits count = .ok (UInt64.ofNat (value % 2 ^ count), reached) ∧ reached.remaining = rest := by
  induction count generalizing rest with
  | zero =>
      rw [bits_zero, List.nil_append] at ahead
      refine ⟨reader, ?_, ahead⟩
      rw [Nat.pow_zero, Nat.mod_one]
      rfl
  | succ count hypothesis =>
      rw [bits_succ, List.append_assoc] at ahead
      obtain ⟨middle, earlier, left⟩ := hypothesis (Nat.le_of_succ_le narrow) ahead
      obtain ⟨reached, reads, last⟩ := readBit_ok left
      refine ⟨reached, ?_, last⟩
      unfold readBits at earlier ⊢
      rw [List.range_succ, List.foldlM_append, earlier, Except.ok_bind, List.foldlM_cons]
      dsimp only
      rw [reads, Except.ok_bind]
      dsimp only
      rw [shiftLeft, if_pos (by omega : count < 64), Except.ok_bind]
      have joined : UInt64.ofNat (value % 2 ^ count) ||| (UInt8.ofNat (value.testBit count).toNat).toUInt64 <<<
          UInt64.ofNat count = UInt64.ofNat (value % 2 ^ (count + 1)) := by
        have bound : ∀ {width : Nat}, width ≤ 64 → value % 2 ^ width < 2 ^ 64 := fun below =>
          lt_of_lt_of_le (Nat.mod_lt _ (Nat.two_pow_pos _)) (Nat.pow_le_pow_right Nat.two_pos below)
        have single : (value.testBit count).toNat < 2 ^ 1 := Bool.toNat_lt _
        have within : (value.testBit count).toNat <<< count < 2 ^ 64 := by
          apply lt_of_lt_of_le (Nat.shiftLeft_lt single)
          exact Nat.pow_le_pow_right Nat.two_pos (by omega)
        apply UInt64.toNat_inj.mp
        rw [UInt64.toNat_or, UInt64.toNat_shiftLeft, LittleEndian.toNat_ofNat (bound (by omega)),
          LittleEndian.toNat_ofNat (bound narrow), LittleEndian.toNat_ofNat (by omega : count < 2 ^ 64),
          Nat.mod_eq_of_lt (by omega : count < 64), UInt8.toNat_toUInt64, UInt8.toNat_ofNat',
          Nat.mod_eq_of_lt (by omega : (value.testBit count).toNat < 2 ^ 8), Nat.mod_eq_of_lt within, mod_or_shiftLeft]
      rw [joined]
      rfl

/-- A stream without bits ends the reading. -/
theorem readBit_empty (none' : reader.remaining = []) :
    reader.readBit = .error (.error (.invalidData "unexpected end of bitstream")) := by
  rw [remaining, List.append_eq_nil_iff] at none'
  have empty : reader.bitCount = 0 := by
    have length := congrArg List.length none'.1
    rwa [bits_length] at length
  have behind : reader.slice[reader.byteIdx]? = none := by
    cases following : reader.slice[reader.byteIdx]? with
    | none => rfl
    | some byte =>
        obtain ⟨inside, same⟩ := List.getElem?_eq_some_iff.mp following
        have left := congrArg List.length none'.2
        rw [List.drop_eq_getElem_cons inside, byteBits_cons, List.length_append, bits_length, List.length_nil] at left
        omega
  rw [readBit, load, if_pos empty, behind]
  rfl

/-- A field that is there is read as the number of its bits. -/
theorem readBits_number {count : Nat} (narrow : count ≤ 64) (enough : count ≤ reader.remaining.length) :
    ∃ reached, reader.readBits count = .ok (UInt64.ofNat (numberOf (reader.remaining.take count)), reached) ∧
      reached.remaining = reader.remaining.drop count := by
  have length : (reader.remaining.take count).length = count := List.length_take_of_le enough
  have ahead : reader.remaining =
      bits count (numberOf (reader.remaining.take count)) ++ reader.remaining.drop count := by
    have spelled := bits_numberOf (reader.remaining.take count)
    rw [length] at spelled
    rw [spelled, List.take_append_drop]
  obtain ⟨reached, reads, left⟩ := readBits_ok narrow ahead
  have small := numberOf_lt (reader.remaining.take count)
  rw [length] at small
  rw [Nat.mod_eq_of_lt small] at reads
  exact ⟨reached, reads, left⟩

/-- A field that is cut off ends the reading. -/
theorem readBits_short {count : Nat} (narrow : count ≤ 64) (short : reader.remaining.length < count) :
    reader.readBits count = .error (.error (.invalidData "unexpected end of bitstream")) := by
  obtain ⟨further, rfl⟩ := Nat.exists_eq_add_of_le (Nat.succ_le_of_lt short)
  obtain ⟨reached, reads, left⟩ := readBits_number (by omega) (Nat.le_refl reader.remaining.length)
  rw [List.drop_length] at left
  unfold readBits at reads ⊢
  rw [Nat.succ_add_eq_add_succ, List.range_add, List.foldlM_append, reads, Except.ok_bind, List.range_succ_eq_map,
    List.map_cons, List.foldlM_cons]
  dsimp only
  rw [readBit_empty left]
  rfl

end BitReader

section Fields

/-- A number and the count of the bits that it is written with. -/
abbrev Field := UInt64 × Nat

/-- The number needs no more bits than it is given. -/
def Field.Fits (field : Field) : Prop := field.2 ≤ 64 ∧ field.1.toNat < 2 ^ field.2

instance (field : Field) : Decidable field.Fits := inferInstanceAs (Decidable (_ ∧ _))

def Field.bits (field : Field) : List Bool := Bits.bits field.2 field.1.toNat

def BitWriter.writeFields (writer : BitWriter) (fields : List Field) : Except Halt BitWriter :=
  fields.foldlM (fun writer field => writer.writeBits field.1 field.2) writer

def BitReader.readFields : BitReader → List Nat → Except Halt (List UInt64 × BitReader)
  | reader, [] => .ok ([], reader)
  | reader, count :: counts => do
      let (value, reader) ← reader.readBits count
      let (values, reader) ← readFields reader counts
      return (value :: values, reader)

/-- The fields stand behind the bits that were there. -/
theorem BitWriter.Holds.writeFields {start : List UInt8} {written : List Bool} {writer : BitWriter}
    (holds : writer.Holds start written) {fields : List Field} (fits : ∀ field ∈ fields, field.Fits) :
    ∃ reached, writer.writeFields fields = .ok reached ∧ reached.Holds start (written ++ fields.flatMap Field.bits) := by
  induction fields generalizing writer written with
  | nil =>
      rw [List.flatMap_nil, List.append_nil]
      exact ⟨writer, rfl, holds⟩
  | cons field fields hypothesis =>
      obtain ⟨first, others⟩ := List.forall_mem_cons.mp fits
      obtain ⟨middle, writes, held⟩ := holds.writeBits field.1 first.1
      obtain ⟨reached, later, all⟩ := hypothesis held others
      refine ⟨reached, ?_, ?_⟩
      · rw [BitWriter.writeFields, List.foldlM_cons, writes, Except.ok_bind]
        exact later
      · rw [List.flatMap_cons, ← List.append_assoc]
        exact all

/-- The fields are read one after the other as they were written. -/
theorem BitReader.readFields_ok {reader : BitReader} {fields : List Field} {rest : List Bool}
    (fits : ∀ field ∈ fields, field.Fits) (ahead : reader.remaining = fields.flatMap Field.bits ++ rest) :
    ∃ reached, reader.readFields (fields.map Prod.snd) = .ok (fields.map Prod.fst, reached) ∧
      reached.remaining = rest := by
  induction fields generalizing reader with
  | nil => exact ⟨reader, rfl, ahead⟩
  | cons field fields hypothesis =>
      obtain ⟨⟨narrow, small⟩, others⟩ := List.forall_mem_cons.mp fits
      rw [List.flatMap_cons, List.append_assoc] at ahead
      obtain ⟨middle, reads, left⟩ := readBits_ok narrow ahead
      rw [Nat.mod_eq_of_lt small, UInt64.ofNat_toNat] at reads
      obtain ⟨reached, later, last⟩ := hypothesis others left
      refine ⟨reached, ?_, last⟩
      rw [List.map_cons, BitReader.readFields, reads, Except.ok_bind]
      dsimp only
      rw [later]
      rfl

theorem flatMap_bits_length (fields : List Field) :
    (fields.flatMap Field.bits).length = (fields.map Prod.snd).sum := by
  rw [List.length_flatMap]
  congr 1
  exact List.map_congr_left fun field _ => bits_length field.2 field.1.toNat

/-- Fields are read back as they were written, whatever bytes stand before and behind them, and they take no byte more
than their bits need. -/
theorem fields_round_trip (start more : List UInt8) {fields : List Field} (fits : ∀ field ∈ fields, field.Fits) :
    ∃ writer bytes, (BitWriter.new start).writeFields fields = .ok writer ∧ writer.flush = start ++ bytes ∧
      bytes.length = ((fields.map Prod.snd).sum + 7) / 8 ∧
      ∃ reader, (BitReader.new (bytes ++ more)).readFields (fields.map Prod.snd) = .ok (fields.map Prod.fst, reader) := by
  obtain ⟨writer, writes, held⟩ := (BitWriter.holds_new start).writeFields fits
  rw [List.nil_append] at held
  obtain ⟨bytes, padding, flushed, spelled, short⟩ := held.flush
  refine ⟨writer, bytes, writes, flushed, ?_, ?_⟩
  · have length := congrArg List.length spelled
    rw [byteBits_length, List.length_append, flatMap_bits_length] at length
    omega
  · have ahead : (BitReader.new (bytes ++ more)).remaining = fields.flatMap Field.bits ++ (padding ++ byteBits more) := by
      rw [BitReader.remaining_new, byteBits_append, spelled, List.append_assoc]
    obtain ⟨reader, reads, _⟩ := BitReader.readFields_ok fits ahead
    exact ⟨reader, reads⟩

/-- Three fields of one bit, of all bits and of three bits. -/
theorem fields_round_trip_sample :
    let fields : List Field := [(1, 1), (0xffffffffffffffff, 64), (5, 3)]
    ∃ writer bytes, (BitWriter.new [7]).writeFields fields = .ok writer ∧ writer.flush = [7] ++ bytes ∧
      bytes.length = 9 ∧
      ∃ reader, (BitReader.new (bytes ++ [255])).readFields [1, 64, 3] = .ok ([1, 0xffffffffffffffff, 5], reader) := by
  intro fields
  have fits : ∀ field ∈ fields, field.Fits := by decide
  obtain ⟨writer, bytes, writes, flushed, length, reads⟩ := fields_round_trip [7] [255] fits
  have total : ((fields.map Prod.snd).sum + 7) / 8 = 9 := by decide
  exact ⟨writer, bytes, writes, flushed, length.trans total, reads⟩

end Fields

end Temnion.Codec
