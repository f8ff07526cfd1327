import Mathlib.Data.Nat.Basic
import Mathlib.Tactic

/-
This file converts naturals to little-endian bytes and back.
-/

namespace LittleEndian

/-- The first byte holds the lowest eight bits. -/
def bytesOf : Nat → Nat → List UInt8
  | 0, _ => []
  | width + 1, value => UInt8.ofNat value :: bytesOf width (value / 256)

/-- This is the natural that the bytes spell. -/
def valueOf : List UInt8 → Nat
  | [] => 0
  | byte :: bytes => byte.toNat + 256 * valueOf bytes

@[simp] theorem bytesOf_length (width value : Nat) : (bytesOf width value).length = width := by
  induction width generalizing value with
  | zero => rfl
  | succ width ih => simp [bytesOf, ih]

/-- Reading back keeps the value modulo the width. -/
theorem valueOf_bytesOf_mod (width value : Nat) :
    valueOf (bytesOf width value) = value % 256 ^ width := by
  induction width generalizing value with
  | zero => simp [bytesOf, valueOf, Nat.mod_one]
  | succ width ih =>
      have low : (UInt8.ofNat value).toNat = value % 256 := UInt8.toNat_ofNat'
      rw [bytesOf, valueOf, ih, low, Nat.pow_succ', Nat.mod_mul]

/-- A value that fits its width reads back exactly. -/
theorem valueOf_bytesOf {width value : Nat} (fits : value < 256 ^ width) :
    valueOf (bytesOf width value) = value :=
  (valueOf_bytesOf_mod width value).trans (Nat.mod_eq_of_lt fits)

/-- The bytes of their own value are the bytes. -/
theorem bytesOf_valueOf (bytes : List UInt8) : bytesOf bytes.length (valueOf bytes) = bytes := by
  induction bytes with
  | nil => rfl
  | cons byte bytes ih =>
      have small : byte.toNat < 256 := byte.toNat_lt
      have quotient : (byte.toNat + 256 * valueOf bytes) / 256 = valueOf bytes := by omega
      have low : UInt8.ofNat (byte.toNat + 256 * valueOf bytes) = byte := by
        apply UInt8.toNat_inj.mp
        rw [UInt8.toNat_ofNat']
        omega
      rw [List.length_cons, valueOf, bytesOf, quotient, low, ih]

theorem valueOf_append (first second : List UInt8) :
    valueOf (first ++ second) = valueOf first + 256 ^ first.length * valueOf second := by
  induction first with
  | nil => rw [List.nil_append, valueOf, List.length_nil, Nat.pow_zero, Nat.one_mul, Nat.zero_add]
  | cons byte first ih =>
      rw [List.cons_append, valueOf, ih, valueOf, List.length_cons, Nat.pow_succ']
      ring

/-- Any bytes of a given width spell a value below its bound. -/
theorem valueOf_lt (bytes : List UInt8) : valueOf bytes < 256 ^ bytes.length := by
  induction bytes with
  | nil => simp [valueOf]
  | cons byte bytes ih =>
      have small : byte.toNat < 256 := byte.toNat_lt
      rw [valueOf, List.length_cons, Nat.pow_succ]
      omega

/-- The three fixed widths of the persistent formats. -/
def le16 (value : UInt16) : List UInt8 := bytesOf 2 value.toNat

def le32 (value : UInt32) : List UInt8 := bytesOf 4 value.toNat

def le64 (value : UInt64) : List UInt8 := bytesOf 8 value.toNat

@[simp] theorem le16_length (value : UInt16) : (le16 value).length = 2 := bytesOf_length 2 _

@[simp] theorem le32_length (value : UInt32) : (le32 value).length = 4 := bytesOf_length 4 _

@[simp] theorem le64_length (value : UInt64) : (le64 value).length = 8 := bytesOf_length 8 _

@[simp] theorem ofNat_valueOf_le16 (value : UInt16) : UInt16.ofNat (valueOf (le16 value)) = value := by
  rw [le16, valueOf_bytesOf value.toNat_lt, UInt16.ofNat_toNat]

@[simp] theorem ofNat_valueOf_le32 (value : UInt32) : UInt32.ofNat (valueOf (le32 value)) = value := by
  rw [le32, valueOf_bytesOf value.toNat_lt, UInt32.ofNat_toNat]

@[simp] theorem ofNat_valueOf_le64 (value : UInt64) : UInt64.ofNat (valueOf (le64 value)) = value := by
  rw [le64, valueOf_bytesOf value.toNat_lt, UInt64.ofNat_toNat]

/-- Every string of the right width is the encoding of the word it spells. -/
theorem le16_ofNat_valueOf {bytes : List UInt8} (width : bytes.length = 2) :
    le16 (UInt16.ofNat (valueOf bytes)) = bytes := by
  have bound := valueOf_lt bytes
  rw [width] at bound
  rw [le16, UInt16.toNat_ofNat_of_lt' bound, ← width, bytesOf_valueOf]

theorem le32_ofNat_valueOf {bytes : List UInt8} (width : bytes.length = 4) :
    le32 (UInt32.ofNat (valueOf bytes)) = bytes := by
  have bound := valueOf_lt bytes
  rw [width] at bound
  rw [le32, UInt32.toNat_ofNat_of_lt' bound, ← width, bytesOf_valueOf]

theorem le64_ofNat_valueOf {bytes : List UInt8} (width : bytes.length = 8) :
    le64 (UInt64.ofNat (valueOf bytes)) = bytes := by
  have bound := valueOf_lt bytes
  rw [width] at bound
  rw [le64, UInt64.toNat_ofNat_of_lt' bound, ← width, bytesOf_valueOf]

/-- A number that fits sixty-four bits keeps its value as a word. -/
theorem toNat_ofNat {value : Nat} (fits : value < 2 ^ 64) : (UInt64.ofNat value).toNat = value :=
  UInt64.toNat_ofNat_of_lt' fits

/-- The part of a byte string that starts at an offset. -/
def slice (bytes : List UInt8) (offset count : Nat) : List UInt8 := (bytes.drop offset).take count

def getU16 (bytes : List UInt8) (offset : Nat) : UInt16 := UInt16.ofNat (valueOf (slice bytes offset 2))

def getU32 (bytes : List UInt8) (offset : Nat) : UInt32 := UInt32.ofNat (valueOf (slice bytes offset 4))

def getU64 (bytes : List UInt8) (offset : Nat) : UInt64 := UInt64.ofNat (valueOf (slice bytes offset 8))

theorem slice_length {bytes : List UInt8} {offset count : Nat} (inside : offset + count ≤ bytes.length) :
    (slice bytes offset count).length = count := by
  rw [slice, List.length_take, List.length_drop]
  omega

/-- A slice does not see what a truncation cuts off. -/
theorem slice_take {bytes : List UInt8} {offset count length : Nat} (inside : offset + count ≤ length) :
    slice (bytes.take length) offset count = slice bytes offset count := by
  rw [slice, slice, List.drop_take, List.take_take, Nat.min_eq_left (by omega)]

/-- A slice past the first part lies in the second part. -/
theorem slice_append_right {first second : List UInt8} {offset count : Nat}
    (past : first.length ≤ offset) :
    slice (first ++ second) offset count = slice second (offset - first.length) count := by
  rw [slice, slice, List.drop_append, List.drop_eq_nil_of_le past, List.nil_append]

/-- The slice that has the length of the first part is the first part. -/
theorem slice_append_left {first second : List UInt8} {count : Nat} (exact : first.length = count) :
    slice (first ++ second) 0 count = first := by
  rw [slice, List.drop_zero, ← exact, List.take_left]

theorem slice_all {bytes : List UInt8} {count : Nat} (exact : bytes.length = count) :
    slice bytes 0 count = bytes := by
  rw [slice, List.drop_zero, ← exact, List.take_length]

/-- A byte string is a slice followed by what comes after it. -/
theorem drop_eq_slice_append (bytes : List UInt8) (offset count : Nat) :
    bytes.drop offset = slice bytes offset count ++ bytes.drop (offset + count) := by
  rw [slice, ← List.drop_drop, List.take_append_drop]

/-- Two adjacent slices form one slice. -/
theorem slice_add (bytes : List UInt8) (offset first second : Nat) :
    slice bytes offset (first + second) = slice bytes offset first ++ slice bytes (offset + first) second := by
  rw [slice, slice, slice, List.take_add, List.drop_drop]

/-- A word that is read back encodes to the slice it was read from. -/
theorem le16_getU16 {bytes : List UInt8} {offset : Nat} (inside : offset + 2 ≤ bytes.length) :
    le16 (getU16 bytes offset) = slice bytes offset 2 := le16_ofNat_valueOf (slice_length inside)

theorem le32_getU32 {bytes : List UInt8} {offset : Nat} (inside : offset + 4 ≤ bytes.length) :
    le32 (getU32 bytes offset) = slice bytes offset 4 := le32_ofNat_valueOf (slice_length inside)

theorem le64_getU64 {bytes : List UInt8} {offset : Nat} (inside : offset + 8 ≤ bytes.length) :
    le64 (getU64 bytes offset) = slice bytes offset 8 := le64_ofNat_valueOf (slice_length inside)

/-- Reading at the offset of an encoded word gives the word. -/
theorem getU16_of_slice {bytes : List UInt8} {offset : Nat} {value : UInt16}
    (stored : slice bytes offset 2 = le16 value) : getU16 bytes offset = value := by
  rw [getU16, stored, ofNat_valueOf_le16]

theorem getU32_of_slice {bytes : List UInt8} {offset : Nat} {value : UInt32}
    (stored : slice bytes offset 4 = le32 value) : getU32 bytes offset = value := by
  rw [getU32, stored, ofNat_valueOf_le32]

theorem getU64_of_slice {bytes : List UInt8} {offset : Nat} {value : UInt64}
    (stored : slice bytes offset 8 = le64 value) : getU64 bytes offset = value := by
  rw [getU64, stored, ofNat_valueOf_le64]

end LittleEndian
