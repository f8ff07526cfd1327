import Temnion.Library.Slices
import Temnion.Library.Text

/-
This file gives a text its bytes, and reads it back, also from a part of other bytes.
-/

open LittleEndian

namespace Utf8

def encode (text : Text) : List UInt8 := text.flatMap String.utf8EncodeChar

/-- The text with these bytes, unless they are none. -/
def decode (bytes : List UInt8) : Option Text := (ByteArray.utf8Decode? ⟨bytes.toArray⟩).map Array.toList

theorem decode_encode (text : Text) : decode (encode text) = some text := by
  have same : (⟨(encode text).toArray⟩ : ByteArray) = text.utf8Encode := by
    apply ByteArray.ext
    rw [List.utf8Encode, List.data_toByteArray, encode]
  rw [decode, same, List.utf8Decode?_utf8Encode, Option.map_some, List.toList_toArray]

/-- Only the bytes of a text are read as this text. -/
theorem encode_of_decode {bytes : List UInt8} {text : Text} (decoded : decode bytes = some text) :
    encode text = bytes := by
  obtain ⟨characters, found, rfl⟩ := Option.map_eq_some_iff.mp decoded
  have present : (ByteArray.utf8Decode? ⟨bytes.toArray⟩).isSome := by rw [found]; rfl
  have same := @ByteArray.utf8Encode_get_utf8Decode? ⟨bytes.toArray⟩ present
  simp only [found, Option.get_some] at same
  have listed := congrArg (fun array : ByteArray => array.data.toList) same
  rw [List.utf8Encode, List.data_toByteArray, List.toList_toArray, List.toList_toArray] at listed
  exact listed

theorem decode_eq_some {bytes : List UInt8} {text : Text} : decode bytes = some text ↔ encode text = bytes := by
  constructor
  · exact encode_of_decode
  · rintro rfl
    exact decode_encode text

/-- A character takes its number of bytes. -/
theorem encode_length (text : Text) : (encode text).length = text.byteLength := by
  rw [encode, List.length_flatMap, Text.byteLength]
  simp only [String.length_utf8EncodeChar]

end Utf8

namespace Slices

variable {E : Type} {bytes rest : List UInt8} {offset next : Nat} {value : Text} {invalid : E}

/-- The text in a part of the bytes. -/
def textAt (invalid : E) (bytes : List UInt8) (start stop : Nat) : Parse E Text := do
  let raw ← sliceAt bytes start stop
  match Utf8.decode raw with
  | none => .error (.refused invalid)
  | some text => return text

theorem Ahead.text (invalid : E) (ahead : Ahead bytes offset (Utf8.encode value ++ rest))
    (place : offset + (Utf8.encode value).length = next) :
    textAt invalid bytes offset next = .ok value ∧ Ahead bytes next rest := by
  obtain ⟨raw, further⟩ := ahead.slice E place
  refine ⟨?_, further⟩
  rw [textAt, raw, Except.ok_bind, Utf8.decode_encode]
  rfl

theorem textAt_safe {start stop : Nat} (ordered : start ≤ stop) (inside : stop ≤ bytes.length) :
    Safe (textAt invalid bytes start stop) := by
  rw [textAt, sliceAt_ok ordered inside, Except.ok_bind]
  cases Utf8.decode (slice bytes start (stop - start)) with
  | none => exact safe_refused _
  | some text => exact safe_ok text

end Slices
