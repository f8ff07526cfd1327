import Temnion.Library.LittleEndian
import Temnion.Library.Fallible

/-
This file reads values from the front of a byte string.
A reader inverts an encoder when it accepts exactly the encoder's output and leaves the rest.
-/

open LittleEndian

/-- A reader consumes a prefix of the bytes or fails. -/
abbrev Reader (E A : Type) := StateT (List UInt8) (Except E) A

namespace Reader

variable {E A B : Type}

/-- The next `count` bytes, or the error when fewer remain. -/
def readFixed (count : Nat) (error : E) : Reader E (List UInt8) := fun input =>
  if count ≤ input.length then .ok (input.take count, input.drop count) else .error error

def readU16 (error : E) : Reader E UInt16 := do
  return UInt16.ofNat (valueOf (← readFixed 2 error))

def readU32 (error : E) : Reader E UInt32 := do
  return UInt32.ofNat (valueOf (← readFixed 4 error))

def readU64 (error : E) : Reader E UInt64 := do
  return UInt64.ofNat (valueOf (← readFixed 8 error))

/-- The same reader runs a fixed number of times. -/
def readMany (reader : Reader E A) : Nat → Reader E (List A)
  | 0 => return []
  | count + 1 => do
      let value ← reader
      let values ← readMany reader count
      return value :: values

/-- A sequence succeeds when the second reader accepts what the first one left. -/
theorem bind_ok {first : Reader E A} {next : A → Reader E B} {input rest : List UInt8} {result : B} :
    (first >>= next) input = .ok (result, rest) ↔
      ∃ value middle, first input = .ok (value, middle) ∧ next value middle = .ok (result, rest) := by
  simp only [bind, StateT.bind]
  rcases first input with _ | ⟨value, middle⟩ <;> simp [Except.bind]

theorem pure_ok {value result : A} {input rest : List UInt8} :
    (pure value : Reader E A) input = .ok (result, rest) ↔ value = result ∧ input = rest := by
  simp [pure, StateT.pure, Except.pure]

theorem refuseIf_ok {condition : Prop} [Decidable condition] {error : E} {input rest : List UInt8} {done : Unit} :
    (refuseIf condition error : Reader E Unit) input = .ok (done, rest) ↔ ¬condition ∧ input = rest := by
  unfold refuseIf
  split
  · next holds => exact ⟨fun refused => (nomatch refused), fun passed => absurd holds passed.1⟩
  · next fails =>
      rw [pure_ok]
      simp [fails]

/-- A computation without input leaves all of it. -/
theorem lift_ok {outcome : Except E A} {input rest : List UInt8} {result : A} :
    (liftM outcome : Reader E A) input = .ok (result, rest) ↔ outcome = .ok result ∧ input = rest := by
  cases outcome with
  | error error => exact iff_of_false (by nofun) (by nofun)
  | ok value => exact ⟨fun same => by cases same; exact ⟨rfl, rfl⟩, by rintro ⟨⟨⟩, rfl⟩; rfl⟩

theorem readFixed_ok {count : Nat} {error : E} {input bytes rest : List UInt8} :
    readFixed count error input = .ok (bytes, rest) ↔ bytes.length = count ∧ input = bytes ++ rest := by
  unfold readFixed
  constructor
  · intro read
    split at read
    · next enough =>
        simp only [Except.ok.injEq, Prod.mk.injEq] at read
        rw [← read.1, ← read.2]
        exact ⟨List.length_take_of_le enough, (List.take_append_drop count input).symm⟩
    · contradiction
  · rintro ⟨rfl, rfl⟩
    simp

theorem readU16_ok {error : E} {input rest : List UInt8} {value : UInt16} :
    readU16 error input = .ok (value, rest) ↔ input = le16 value ++ rest := by
  unfold readU16
  simp only [bind_ok, pure_ok, readFixed_ok]
  constructor
  · rintro ⟨bytes, _, ⟨width, rfl⟩, rfl, rfl⟩
    rw [le16_ofNat_valueOf width]
  · rintro rfl
    exact ⟨le16 value, rest, ⟨by simp, rfl⟩, by simp, rfl⟩

theorem readU32_ok {error : E} {input rest : List UInt8} {value : UInt32} :
    readU32 error input = .ok (value, rest) ↔ input = le32 value ++ rest := by
  unfold readU32
  simp only [bind_ok, pure_ok, readFixed_ok]
  constructor
  · rintro ⟨bytes, _, ⟨width, rfl⟩, rfl, rfl⟩
    rw [le32_ofNat_valueOf width]
  · rintro rfl
    exact ⟨le32 value, rest, ⟨by simp, rfl⟩, by simp, rfl⟩

theorem readU64_ok {error : E} {input rest : List UInt8} {value : UInt64} :
    readU64 error input = .ok (value, rest) ↔ input = le64 value ++ rest := by
  unfold readU64
  simp only [bind_ok, pure_ok, readFixed_ok]
  constructor
  · rintro ⟨bytes, _, ⟨width, rfl⟩, rfl, rfl⟩
    rw [le64_ofNat_valueOf width]
  · rintro rfl
    exact ⟨le64 value, rest, ⟨by simp, rfl⟩, by simp, rfl⟩

/-- The reader accepts a value exactly when the input starts with its encoding. -/
def Inverts (reader : Reader E A) (accepted : A → Prop) (encode : A → List UInt8) : Prop :=
  ∀ input value rest, reader input = .ok (value, rest) ↔ accepted value ∧ input = encode value ++ rest

/-- Repeating a reader inverts the concatenation of its encodings. -/
theorem Inverts.readMany {reader : Reader E A} {accepted : A → Prop} {encode : A → List UInt8}
    (inverts : Inverts reader accepted encode) (count : Nat) (input : List UInt8) (values : List A)
    (rest : List UInt8) :
    Reader.readMany reader count input = .ok (values, rest) ↔
      values.length = count ∧ (∀ value ∈ values, accepted value) ∧ input = values.flatMap encode ++ rest := by
  induction count generalizing input values rest with
  | zero =>
      simp only [Reader.readMany, pure_ok, List.length_eq_zero_iff]
      constructor
      · rintro ⟨rfl, rfl⟩
        simp
      · rintro ⟨rfl, _, rfl⟩
        simp
  | succ count ih =>
      simp only [Reader.readMany, bind_ok, pure_ok, ih, inverts _ _ _]
      constructor
      · rintro ⟨value, _, ⟨fits, rfl⟩, tail, _, ⟨length, all, rfl⟩, rfl, rfl⟩
        simp only [List.length_cons, length, List.flatMap_cons, List.append_assoc, true_and, and_true]
        intro other member
        rcases List.mem_cons.mp member with rfl | member
        · exact fits
        · exact all other member
      · rintro ⟨length, all, rfl⟩
        cases values with
        | nil => simp at length
        | cons value values =>
            refine ⟨value, values.flatMap encode ++ rest, ⟨all value List.mem_cons_self, ?_⟩, values, rest, ?_, rfl, rfl⟩
            · simp
            · exact ⟨by simpa using length, fun other member => all other (List.mem_cons_of_mem _ member), rfl⟩

/-- Repeating a reader reads a concatenation that it reads piece by piece. -/
theorem readMany_flatMap {reader : Reader E A} {encode : A → List UInt8} {values : List A}
    (reads : ∀ value ∈ values, ∀ rest, reader (encode value ++ rest) = .ok (value, rest)) (rest : List UInt8) :
    Reader.readMany reader values.length (values.flatMap encode ++ rest) = .ok (values, rest) := by
  induction values with
  | nil => rfl
  | cons value values hypothesis =>
      rw [List.length_cons, Reader.readMany, List.flatMap_cons, List.append_assoc, bind_ok]
      refine ⟨value, _, reads value List.mem_cons_self _, ?_⟩
      rw [bind_ok]
      exact ⟨values, rest, hypothesis fun other member => reads other (List.mem_cons_of_mem _ member), rfl⟩

/-- A repeated reader gives as many values as it was told, each of them read once. -/
theorem readMany_origin {reader : Reader E A} {count : Nat} {input rest : List UInt8} {values : List A}
    (read : Reader.readMany reader count input = .ok (values, rest)) :
    values.length = count ∧ ∀ value ∈ values, ∃ before after, reader before = .ok (value, after) := by
  induction count generalizing input values rest with
  | zero =>
      obtain ⟨rfl, -⟩ := pure_ok.mp read
      exact ⟨rfl, nofun⟩
  | succ count hypothesis =>
      obtain ⟨first, middle, head, read⟩ := bind_ok.mp read
      obtain ⟨others, _, tail, read⟩ := bind_ok.mp read
      obtain ⟨rfl, -⟩ := pure_ok.mp read
      obtain ⟨length, each⟩ := hypothesis tail
      refine ⟨congrArg (· + 1) length, fun value member => ?_⟩
      rcases List.mem_cons.mp member with rfl | member
      · exact ⟨input, middle, head⟩
      · exact each value member

end Reader
