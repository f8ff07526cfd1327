import Temnion.Library.Fallible
import Temnion.Library.Text

/-
This file models the JSON values of the control plane: how they are written, how they are read, and the responses.
-/

namespace Temnion.Mcp

/-- The numbers of the type `f64` as far as they are written and read. -/
class JsonNumber where
  Carrier : Type
  /-- The number has no fraction. -/
  isWhole : Carrier → Bool
  toI64 : Carrier → Int64
  display : Carrier → Text
  parse : Text → Option Carrier
  ofInt : Int → Carrier
  isWhole_ofInt : ∀ number : Int, number.natAbs < 2 ^ 53 → isWhole (ofInt number) = true
  toI64_ofInt : ∀ number : Int, number.natAbs < 2 ^ 53 → toI64 (ofInt number) = Int64.ofInt number
  parse_signed : ∀ number : Int, number.natAbs < 2 ^ 53 → parse (Text.signed number) = some (ofInt number)

/-- The integer that a sign and decimal digits spell. -/
def readInteger (text : Text) : Option Int :=
  let digits := if text.head? = some '-' then text.tail else text
  if digits.all Char.isDigit && !digits.isEmpty then
    some (if text.head? = some '-' then -(Nat.ofDigitChars 10 digits 0 : Int) else Nat.ofDigitChars 10 digits 0)
  else none

theorem readInteger_signed (number : Int) : readInteger (Text.signed number) = some number := by
  have digits : (Text.decimal number.natAbs).all Char.isDigit && !(Text.decimal number.natAbs).isEmpty := by
    rw [Bool.and_eq_true, List.all_eq_true, Bool.not_eq_true', List.isEmpty_eq_false_iff]
    exact ⟨fun _ member => Text.isDigit_of_mem_decimal member, Text.decimal_ne_nil⟩
  have value : Nat.ofDigitChars 10 (Text.decimal number.natAbs) 0 = number.natAbs := Nat.ofDigitChars_ten_toDigits
  have unsigned : (Text.decimal number.natAbs).head? ≠ some '-' := by
    intro first
    have digit := Text.isDigit_of_mem_decimal (List.mem_of_mem_head? first)
    exact absurd digit (by decide)
  unfold readInteger Text.signed
  dsimp only
  by_cases negative : number < 0
  · rw [if_pos negative, List.head?_cons, if_pos rfl, if_pos rfl, List.tail_cons, if_pos digits, value]
    exact congrArg some (by omega)
  · rw [if_neg negative, if_neg unsigned, if_neg unsigned, if_pos digits, value]
    exact congrArg some (by omega)

/-- Numbers without fractions. -/
@[reducible] def JsonNumber.integers : JsonNumber where
  Carrier := Int
  isWhole _ := true
  toI64 := Int64.ofInt
  display := Text.signed
  parse := readInteger
  ofInt := id
  isWhole_ofInt _ _ := rfl
  toI64_ofInt _ _ := rfl
  parse_signed number _ := readInteger_signed number

inductive JsonValue [JsonNumber] where
  | null
  | bool (value : Bool)
  | number (value : JsonNumber.Carrier)
  | string (value : Text)
  | array (items : List JsonValue)
  | object (entries : List (Text × JsonValue))

/-- Why a text is not read as a value. -/
inductive JsonError where
  | arrayEnd
  | colon
  | objectEnd
  | invalidNumber
  | unexpectedCharacter (character : Option Char)
  | expectedWord (word : Text)
  | expectedQuote
  | unterminatedEscape
  | unterminatedString
  | outOfSteps
  deriving DecidableEq, Repr

section Strings

/-- The characters that stand for one character of a string. -/
def escape (character : Char) : Text :=
  if character = '"' then ['\\', '"']
  else if character = '\\' then ['\\', '\\']
  else if character = '\n' then ['\\', 'n']
  else if character = '\r' then ['\\', 'r']
  else if character = '\t' then ['\\', 't']
  else [character]

/-- The character that an escaped one stands for. -/
def unescape (character : Char) : Char :=
  if character = 'n' then '\n' else if character = 'r' then '\r' else if character = 't' then '\t' else character

/-- Reads the characters of a string up to its closing quote. -/
def parseStringBody : Text → Except JsonError (Text × Text)
  | [] => .error .unterminatedString
  | character :: rest =>
      if character = '"' then .ok ([], rest)
      else if character = '\\' then
        match rest with
        | [] => .error .unterminatedEscape
        | escaped :: rest => (parseStringBody rest).map fun (read, after) => (unescape escaped :: read, after)
      else (parseStringBody rest).map fun (read, after) => (character :: read, after)

def parseString (chars : Text) : Except JsonError (Text × Text) :=
  if chars.head? = some '"' then parseStringBody chars.tail else .error .expectedQuote

def skipWs (chars : Text) : Text := chars.dropWhile Text.isWhitespace

def consumeStr (chars expected : Text) : Except JsonError Text :=
  match Text.stripPrefix chars expected with
  | some rest => .ok rest
  | none => .error (.expectedWord expected)

def isNumberChar (character : Char) : Bool :=
  character == '-' || character == '+' || character == '.' || character == 'e' || character == 'E' || character.isDigit

end Strings

section Values

variable [JsonNumber]

/-- Reads a value from the front of the characters and returns those behind it. -/
abbrev Reader (A : Type) := Text → Except JsonError (A × Text)

/-- The loop over the elements of an array or an object. Every round takes a character. -/
def parseSequence {A : Type} (close : Char) (error : JsonError) (element : Reader A) :
    Nat → List A → Reader (List A)
  | 0, _, _ => .error .outOfSteps
  | steps + 1, items, chars =>
      let here := skipWs chars
      if here.head? = some close then .ok (items, here.tail)
      else do
        let (item, after) ← element here
        let next := skipWs after
        if next.head? = some ',' then parseSequence close error element steps (items ++ [item]) next.tail
        else if next.head? = some close then .ok (items ++ [item], next.tail)
        else .error error

omit [JsonNumber] in
theorem parseSequence_succ {A : Type} (close : Char) (error : JsonError) (element : Reader A) (steps : Nat)
    (items : List A) (chars : Text) : parseSequence close error element (steps + 1) items chars =
      if (skipWs chars).head? = some close then .ok (items, (skipWs chars).tail)
      else element (skipWs chars) >>= fun (item, after) =>
        if (skipWs after).head? = some ',' then
          parseSequence close error element steps (items ++ [item]) (skipWs after).tail
        else if (skipWs after).head? = some close then .ok (items ++ [item], (skipWs after).tail)
        else .error error := rfl

def parseEntry (element : Reader JsonValue) : Reader (Text × JsonValue) := fun chars => do
  let (key, after) ← parseString chars
  let next := skipWs after
  if next.head? = some ':' then (element next.tail).map fun (value, last) => ((key, value), last)
  else .error .colon

def parseNumber (chars : Text) : Except JsonError (JsonValue × Text) :=
  match JsonNumber.parse (chars.takeWhile isNumberChar) with
  | some value => .ok (.number value, chars.dropWhile isNumberChar)
  | none => .error .invalidNumber

/-- The depth bounds the nesting. Every level takes a character. -/
def parseValue : Nat → Reader JsonValue
  | 0, _ => .error .outOfSteps
  | depth + 1, chars =>
      match skipWs chars with
      | [] => .error (.unexpectedCharacter none)
      | character :: rest =>
          if character = 'n' then (consumeStr (character :: rest) "null".toList).map fun after => (.null, after)
          else if character = 't' then
            (consumeStr (character :: rest) "true".toList).map fun after => (.bool true, after)
          else if character = 'f' then
            (consumeStr (character :: rest) "false".toList).map fun after => (.bool false, after)
          else if character = '"' then
            (parseString (character :: rest)).map fun (value, after) => (.string value, after)
          else if character = '[' then
            (parseSequence ']' .arrayEnd (parseValue depth) (rest.length + 1) [] rest).map
              fun (items, after) => (.array items, after)
          else if character = '\x7b' then
            (parseSequence '\x7d' .objectEnd (parseEntry (parseValue depth)) (rest.length + 1) [] rest).map
              fun (entries, after) => (.object entries, after)
          else if character = '-' ∨ character.isDigit then parseNumber (character :: rest)
          else .error (.unexpectedCharacter (some character))

namespace JsonValue

/-- What stands behind the value is not looked at. -/
def parse (input : Text) : Except JsonError JsonValue :=
  (parseValue ((Text.trim input).length + 1) (Text.trim input)).map Prod.fst

/-- The value of the first entry with the key. -/
def get (key : Text) : JsonValue → Option JsonValue
  | .object entries => entries.lookup key
  | _ => none

/-- The elements with commas between them. -/
def joined : List Text → Text
  | [] => []
  | [text] => text
  | text :: texts => text ++ ',' :: joined texts

def quoted (text : Text) : Text := '"' :: (text.flatMap escape ++ ['"'])

def numberText (value : JsonNumber.Carrier) : Text :=
  if JsonNumber.isWhole value then Text.signed (JsonNumber.toI64 value).toInt else JsonNumber.display value

mutual

/-- The key of an entry is written as it is. -/
def serialize : JsonValue → Text
  | .null => "null".toList
  | .bool value => if value then "true".toList else "false".toList
  | .number value => numberText value
  | .string value => quoted value
  | .array items => '[' :: (joined (serializeItems items) ++ [']'])
  | .object entries => '\x7b' :: (joined (serializeEntries entries) ++ ['\x7d'])

def serializeItems : List JsonValue → List Text
  | [] => []
  | item :: items => serialize item :: serializeItems items

def serializeEntries : List (Text × JsonValue) → List Text
  | [] => []
  | (key, value) :: entries => ('"' :: (key ++ '"' :: ':' :: serialize value)) :: serializeEntries entries

end

theorem serialize_array (items : List JsonValue) :
    serialize (.array items) = '[' :: (joined (serializeItems items) ++ [']']) := rfl

theorem serialize_object (entries : List (Text × JsonValue)) :
    serialize (.object entries) = '\x7b' :: (joined (serializeEntries entries) ++ ['\x7d']) := rfl

theorem serialize_number (value : JsonNumber.Carrier) : serialize (.number value) = numberText value := rfl

theorem serialize_string (value : Text) : serialize (.string value) = quoted value := rfl

end JsonValue

end Values

section Responses

variable [JsonNumber]

open JsonValue

/-- A response with one more entry behind the id of the request. -/
def response (id : JsonValue) (key : Text) (body : JsonValue) : JsonValue :=
  .object [("jsonrpc".toList, .string "2.0".toList), ("id".toList, id), (key, body)]

def errorBody (code : Int64) (message : Text) : JsonValue :=
  .object [("code".toList, .number (JsonNumber.ofInt code.toInt)), ("message".toList, .string message)]

def makeErrorResponse (id : JsonValue) (code : Int64) (message : Text) : Text :=
  (response id "error".toList (errorBody code message)).serialize

def makeResultResponse (id result : JsonValue) : Text := (response id "result".toList result).serialize

end Responses

end Temnion.Mcp
