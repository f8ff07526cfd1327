import Temnion.Library.Fallible
import Temnion.Library.LittleEndian

/-
This file reads values at places of a byte string, where a place beyond its end is a fault of the program.
-/

open LittleEndian

/-- A program stops with an error of its own, or with a panic. -/
inductive Fault (E : Type) where
  | panicked
  | refused (error : E)
  deriving DecidableEq, Repr

abbrev Parse (E A : Type) := Except (Fault E) A

namespace Slices

variable {E : Type} {bytes : List UInt8} {offset count start stop : Nat}

def byteAt (bytes : List UInt8) (offset : Nat) : Parse E UInt8 :=
  match bytes[offset]? with
  | some byte => .ok byte
  | none => .error .panicked

/-- The bytes from the start to before the end. -/
def sliceAt (bytes : List UInt8) (start stop : Nat) : Parse E (List UInt8) :=
  if start ≤ stop ∧ stop ≤ bytes.length then .ok (slice bytes start (stop - start)) else .error .panicked

def u16At (bytes : List UInt8) (offset : Nat) : Parse E UInt16 :=
  if offset + 2 ≤ bytes.length then .ok (getU16 bytes offset) else .error .panicked

def u32At (bytes : List UInt8) (offset : Nat) : Parse E UInt32 :=
  if offset + 4 ≤ bytes.length then .ok (getU32 bytes offset) else .error .panicked

def u64At (bytes : List UInt8) (offset : Nat) : Parse E UInt64 :=
  if offset + 8 ≤ bytes.length then .ok (getU64 bytes offset) else .error .panicked

/-- So many words, one after the other. -/
def wordsAt (bytes : List UInt8) (offset : Nat) : Nat → Parse E (List UInt32)
  | 0 => .ok []
  | count + 1 => do
      let word ← u32At bytes offset
      let words ← wordsAt bytes (offset + 4) count
      return word :: words

theorem byteAt_ok (inside : offset < bytes.length) : (byteAt bytes offset : Parse E UInt8) = .ok bytes[offset] := by
  rw [byteAt, List.getElem?_eq_getElem inside]

theorem byteAt_panics (outside : bytes.length ≤ offset) : (byteAt bytes offset : Parse E UInt8) = .error .panicked := by
  rw [byteAt, List.getElem?_eq_none outside]

theorem sliceAt_ok (ordered : start ≤ stop) (inside : stop ≤ bytes.length) :
    (sliceAt bytes start stop : Parse E (List UInt8)) = .ok (slice bytes start (stop - start)) :=
  if_pos ⟨ordered, inside⟩

theorem u16At_ok (inside : offset + 2 ≤ bytes.length) : (u16At bytes offset : Parse E UInt16) = .ok (getU16 bytes offset) :=
  if_pos inside

theorem u32At_ok (inside : offset + 4 ≤ bytes.length) : (u32At bytes offset : Parse E UInt32) = .ok (getU32 bytes offset) :=
  if_pos inside

theorem u64At_ok (inside : offset + 8 ≤ bytes.length) : (u64At bytes offset : Parse E UInt64) = .ok (getU64 bytes offset) :=
  if_pos inside

/-- Inside the bytes every word is read. -/
theorem wordsAt_ok (inside : offset + 4 * count ≤ bytes.length) :
    (wordsAt bytes offset count : Parse E (List UInt32)) =
      .ok ((List.range count).map fun index => getU32 bytes (offset + 4 * index)) := by
  induction count generalizing offset with
  | zero => rfl
  | succ count hypothesis =>
      have first : offset + 4 ≤ bytes.length := by omega
      have rest : offset + 4 + 4 * count ≤ bytes.length := by omega
      have shift : ∀ index, offset + 4 + 4 * index = offset + 4 * (index + 1) := fun index => by omega
      rw [wordsAt, u32At_ok first, Except.ok_bind, hypothesis rest, Except.ok_bind, List.range_succ_eq_map, List.map_cons,
        List.map_map]
      simp only [shift]
      rfl

section Split

variable {front back : List UInt8}

/-- The part that stands at its place. -/
theorem slice_of_split {middle : List UInt8} (split : bytes = front ++ (middle ++ back))
    (place : front.length = offset) (width : middle.length = count) : slice bytes offset count = middle := by
  rw [split, slice_append_right (le_of_eq place), place, Nat.sub_self]
  exact slice_append_left width

theorem length_of_split {middle : List UInt8} (split : bytes = front ++ (middle ++ back))
    (place : front.length = offset) (width : middle.length = count) : offset + count ≤ bytes.length := by
  rw [split, List.length_append, List.length_append]
  omega

theorem byteAt_of_split {byte : UInt8} (split : bytes = front ++ ([byte] ++ back)) (place : front.length = offset) :
    (byteAt bytes offset : Parse E UInt8) = .ok byte := by
  rw [byteAt, split, List.getElem?_append_right (le_of_eq place), place, Nat.sub_self]
  rfl

theorem u16At_of_split {value : UInt16} (split : bytes = front ++ (le16 value ++ back))
    (place : front.length = offset) : (u16At bytes offset : Parse E UInt16) = .ok value := by
  rw [u16At_ok (length_of_split split place (le16_length value)),
    getU16_of_slice (slice_of_split split place (le16_length value))]

theorem u32At_of_split {value : UInt32} (split : bytes = front ++ (le32 value ++ back))
    (place : front.length = offset) : (u32At bytes offset : Parse E UInt32) = .ok value := by
  rw [u32At_ok (length_of_split split place (le32_length value)),
    getU32_of_slice (slice_of_split split place (le32_length value))]

theorem u64At_of_split {value : UInt64} (split : bytes = front ++ (le64 value ++ back))
    (place : front.length = offset) : (u64At bytes offset : Parse E UInt64) = .ok value := by
  rw [u64At_ok (length_of_split split place (le64_length value)),
    getU64_of_slice (slice_of_split split place (le64_length value))]

theorem sliceAt_of_split {middle : List UInt8} (split : bytes = front ++ (middle ++ back))
    (place : front.length = start) (width : start + middle.length = stop) :
    (sliceAt bytes start stop : Parse E (List UInt8)) = .ok middle := by
  have inside := length_of_split split place rfl
  have length : stop - start = middle.length := by omega
  rw [sliceAt_ok (by omega) (by omega), length, slice_of_split split place rfl]

end Split

section Ahead

variable {rest middle : List UInt8} {next : Nat}

/-- What lies ahead of a place of the bytes. -/
def Ahead (bytes : List UInt8) (offset : Nat) (rest : List UInt8) : Prop :=
  offset ≤ bytes.length ∧ bytes.drop offset = rest

theorem ahead_start (bytes : List UInt8) : Ahead bytes 0 bytes := ⟨Nat.zero_le _, rfl⟩

theorem Ahead.last (ahead : Ahead bytes offset rest) : Ahead bytes offset (rest ++ []) := by
  rwa [List.append_nil]

theorem Ahead.part (ahead : Ahead bytes offset (middle ++ rest)) (place : offset + middle.length = next) :
    next ≤ bytes.length ∧ slice bytes offset middle.length = middle ∧ Ahead bytes next rest := by
  obtain ⟨inside, part⟩ := ahead
  have lengths := congrArg List.length part
  rw [List.length_drop, List.length_append] at lengths
  have reached : next ≤ bytes.length := by omega
  refine ⟨reached, ?_, reached, ?_⟩
  · rw [slice, part, List.take_left]
  · rw [← place, ← List.drop_drop, part, List.drop_left]

theorem Ahead.byte {byte : UInt8} (E : Type) (ahead : Ahead bytes offset ([byte] ++ rest))
    (place : offset + 1 = next) :
    (byteAt bytes offset : Parse E UInt8) = .ok byte ∧ Ahead bytes next rest := by
  obtain ⟨_, _, further⟩ := ahead.part place
  refine ⟨?_, further⟩
  have found := congrArg List.head? ahead.2
  rw [List.head?_drop] at found
  rw [byteAt, found]
  rfl

theorem Ahead.u16 {value : UInt16} (E : Type) (ahead : Ahead bytes offset (le16 value ++ rest))
    (place : offset + 2 = next) :
    (u16At bytes offset : Parse E UInt16) = .ok value ∧ Ahead bytes next rest := by
  obtain ⟨inside, same, further⟩ := ahead.part place
  rw [u16At_ok (place.trans_le inside), getU16_of_slice same]
  exact ⟨rfl, further⟩

theorem Ahead.u32 {value : UInt32} (E : Type) (ahead : Ahead bytes offset (le32 value ++ rest))
    (place : offset + 4 = next) :
    (u32At bytes offset : Parse E UInt32) = .ok value ∧ Ahead bytes next rest := by
  obtain ⟨inside, same, further⟩ := ahead.part place
  rw [u32At_ok (place.trans_le inside), getU32_of_slice same]
  exact ⟨rfl, further⟩

theorem Ahead.u64 {value : UInt64} (E : Type) (ahead : Ahead bytes offset (le64 value ++ rest))
    (place : offset + 8 = next) :
    (u64At bytes offset : Parse E UInt64) = .ok value ∧ Ahead bytes next rest := by
  obtain ⟨inside, same, further⟩ := ahead.part place
  rw [u64At_ok (place.trans_le inside), getU64_of_slice same]
  exact ⟨rfl, further⟩

theorem Ahead.slice (E : Type) (ahead : Ahead bytes offset (middle ++ rest)) (place : offset + middle.length = next) :
    (sliceAt bytes offset next : Parse E (List UInt8)) = .ok middle ∧ Ahead bytes next rest := by
  obtain ⟨inside, same, further⟩ := ahead.part place
  have length : next - offset = middle.length := by omega
  rw [sliceAt_ok (by omega) inside, length, same]
  exact ⟨rfl, further⟩

/-- The bytes with their number in front of them. -/
def counted (part : List UInt8) : List UInt8 := le32 (UInt32.ofNat part.length) ++ part

theorem counted_length (part : List UInt8) : (counted part).length = 4 + part.length := by
  rw [counted, List.length_append, le32_length]

theorem Ahead.counted (E : Type) (ahead : Ahead bytes offset (counted middle ++ rest))
    (few : middle.length < 2 ^ 32) : ∃ count : UInt32, (u32At bytes offset : Parse E UInt32) = .ok count ∧
      count.toNat = middle.length ∧ Ahead bytes (offset + 4) (middle ++ rest) := by
  rw [Slices.counted, List.append_assoc] at ahead
  obtain ⟨first, further⟩ := ahead.u32 E rfl
  exact ⟨_, first, UInt32.toNat_ofNat_of_lt' few, further⟩

/-- Words that lie ahead are read one after the other. -/
theorem Ahead.words {words : List UInt32} (E : Type) (ahead : Ahead bytes offset (words.flatMap le32 ++ rest))
    (place : offset + 4 * words.length = next) :
    (wordsAt bytes offset words.length : Parse E (List UInt32)) = .ok words ∧ Ahead bytes next rest := by
  induction words generalizing offset with
  | nil =>
      obtain rfl : offset = next := place
      exact ⟨rfl, ahead⟩
  | cons word words hypothesis =>
      rw [List.flatMap_cons, List.append_assoc] at ahead
      rw [List.length_cons] at place
      obtain ⟨first, further⟩ := ahead.u32 E rfl
      obtain ⟨others, last⟩ := hypothesis further (by omega)
      refine ⟨?_, last⟩
      rw [List.length_cons, wordsAt, first, Except.ok_bind, others, Except.ok_bind]
      rfl

end Ahead

section Safe

variable {A B : Type}

/-- The program does not panic. -/
def Safe (outcome : Parse E A) : Prop := outcome ≠ .error .panicked

theorem safe_ok (value : A) : Safe (.ok value : Parse E A) := nofun

theorem safe_refused (error : E) : Safe (.error (.refused error) : Parse E A) := nofun

theorem Safe.bind {first : Parse E A} {next : A → Parse E B} (safe : Safe first)
    (then' : ∀ value, first = .ok value → Safe (next value)) : Safe (first >>= next) := by
  cases first with
  | ok value => exact then' value rfl
  | error fault =>
      intro panics
      obtain rfl := Except.error.inj panics
      exact safe rfl

/-- Behind a check the rest knows that it passed. -/
theorem Safe.guard {condition : Prop} [Decidable condition] {error : E} {next : Unit → Parse E A}
    (then' : ¬ condition → Safe (next ())) : Safe (refuseIf condition (Fault.refused error) >>= next) := by
  unfold refuseIf
  split
  · exact nofun
  · rename_i passes
    exact then' passes

end Safe

/-- A check that refuses stops the rest. -/
theorem refuseIf_refused {A : Type} {condition : Prop} [Decidable condition] {error : E} {next : Unit → Parse E A}
    (holds : condition) : (refuseIf condition (Fault.refused error) >>= next) = .error (.refused error) := by
  unfold refuseIf
  rw [if_pos holds]
  rfl

end Slices
