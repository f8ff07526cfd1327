import Mathlib

/-
This file works on texts as lists of characters: white space, separators and decimal numbers.
-/

/-- A text is the list of its characters. -/
abbrev Text := List Char

namespace Text

/-- The characters with the property `White_Space`. -/
def isWhitespace (character : Char) : Bool :=
  let code := character.toNat
  decide (9 ≤ code ∧ code ≤ 13) || code == 32 || code == 133 || code == 160 || code == 5760 ||
    decide (8192 ≤ code ∧ code ≤ 8202) || code == 8232 || code == 8233 || code == 8239 || code == 8287 ||
    code == 12288

def trimStart (text : Text) : Text := text.dropWhile isWhitespace

def trimEnd (text : Text) : Text := text.rdropWhile isWhitespace

def trim (text : Text) : Text := trimEnd (trimStart text)

/-- Removes the characters that match from both ends. -/
def trimMatches (wanted : Char) (text : Text) : Text := (text.dropWhile (· == wanted)).rdropWhile (· == wanted)

def startsWith (text front : Text) : Bool := front.isPrefixOf text

/-- What follows the front of a text, when the text has that front. -/
def stripPrefix (text front : Text) : Option Text :=
  if front.isPrefixOf text then some (text.drop front.length) else none

theorem stripPrefix_append (front rest : Text) : stripPrefix (front ++ rest) front = some rest := by
  rw [stripPrefix, if_pos (List.isPrefixOf_iff_prefix.mpr (List.prefix_append _ _)), List.drop_left]

/-- The parts before and behind the first occurrence of a separator. -/
def splitOnce (separator : Text) : Text → Option (Text × Text)
  | [] => if separator = [] then some ([], []) else none
  | character :: rest =>
      if separator.isPrefixOf (character :: rest) then some ([], (character :: rest).drop separator.length)
      else (splitOnce separator rest).map fun parts => (character :: parts.1, parts.2)

/-- The parts between the occurrences of a separator, at most one more than the number given. -/
def splitAtMost (separator : Text) : Nat → Text → List Text
  | 0, text => [text]
  | splits + 1, text =>
      match splitOnce separator text with
      | none => [text]
      | some (front, rest) => front :: splitAtMost separator splits rest

/-- A separator occurs at most once for each character. -/
def splitAll (separator text : Text) : List Text := splitAtMost separator text.length text

/-- The words between white space. -/
def splitWhitespace (text : Text) : List Text := (text.splitOnP isWhitespace).filter (· ≠ [])

/-- The number of bytes of a text in UTF-8. -/
def byteLength (text : Text) : Nat := (text.map Char.utf8Size).sum

/-- The byte offset of the first occurrence. -/
def find (text wanted : Text) : Option Nat := (splitOnce wanted text).map fun parts => byteLength parts.1

/-- The parts before and from a byte offset. Nothing is returned for an offset within a character or behind the text. -/
def splitAtByte : Nat → Text → Option (Text × Text)
  | 0, text => some ([], text)
  | _ + 1, [] => none
  | offset + 1, character :: rest =>
      if character.utf8Size ≤ offset + 1 then
        (splitAtByte (offset + 1 - character.utf8Size) rest).map fun parts => (character :: parts.1, parts.2)
      else none

inductive NumberError where
  | empty
  | invalidDigit
  | overflow
  deriving DecidableEq, Repr

/-- Takes the digits from left to right. The first that does not belong there decides about the error. -/
def readDigits (bound : Nat) : Nat → Text → Except NumberError Nat
  | value, [] => .ok value
  | value, character :: rest =>
      if character.isDigit then
        let next := 10 * value + (character.toNat - '0'.toNat)
        if next < bound then readDigits bound next rest else .error .overflow
      else .error .invalidDigit

/-- Reads an unsigned number below a bound. One leading plus sign is allowed. -/
def parseUnsigned (bound : Nat) : Text → Except NumberError Nat
  | [] => .error .empty
  | ['+'] => .error .invalidDigit
  | '+' :: digits => readDigits bound 0 digits
  | digits => readDigits bound 0 digits

/-- The decimal digits of a number. -/
def decimal (number : Nat) : Text := Nat.toDigits 10 number

/-- The decimal digits of a number behind the sign of a negative one. -/
def signed (number : Int) : Text := if number < 0 then '-' :: decimal number.natAbs else decimal number.natAbs

theorem isDigit_of_mem_decimal {number : Nat} {character : Char} (member : character ∈ decimal number) :
    character.isDigit = true := Nat.isDigit_of_mem_toDigits (by decide) (by decide) member

theorem not_mem_decimal {number : Nat} {mark : Char} (unlike : mark.isDigit = false) : mark ∉ decimal number := by
  intro member
  rw [isDigit_of_mem_decimal member] at unlike
  contradiction

/-- A digit is no white space. -/
theorem isWhitespace_of_digit {digit : Char} (plain : digit.isDigit = true) : isWhitespace digit = false := by
  rw [Char.isDigit, Bool.and_eq_true, decide_eq_true_eq, decide_eq_true_eq] at plain
  obtain ⟨lower, upper⟩ : 48 ≤ digit.toNat ∧ digit.toNat ≤ 57 := plain
  unfold isWhitespace
  simp only [Bool.or_eq_false_iff, decide_eq_false_iff_not, beq_eq_false_iff_ne]
  omega

theorem decimal_ne_nil {number : Nat} : decimal number ≠ [] := Nat.toDigits_ne_nil

theorem le_ofDigitChars (digits : Text) (value : Nat) : value ≤ Nat.ofDigitChars 10 digits value := by
  induction digits generalizing value with
  | nil => exact Nat.ofDigitChars_nil.ge
  | cons digit digits hypothesis =>
      rw [Nat.ofDigitChars_cons]
      have onward := hypothesis (10 * value + (digit.toNat - '0'.toNat))
      omega

/-- Digits are read as their number as long as it stays below the bound. -/
theorem readDigits_ofDigitChars {bound : Nat} {digits : Text} {value : Nat}
    (plain : ∀ digit ∈ digits, digit.isDigit = true) (below : Nat.ofDigitChars 10 digits value < bound) :
    readDigits bound value digits = .ok (Nat.ofDigitChars 10 digits value) := by
  induction digits generalizing value with
  | nil => rw [readDigits, Nat.ofDigitChars_nil]
  | cons digit digits hypothesis =>
      rw [Nat.ofDigitChars_cons] at below ⊢
      have next : 10 * value + (digit.toNat - '0'.toNat) < bound := (le_ofDigitChars digits _).trans_lt below
      rw [readDigits, if_pos (plain digit List.mem_cons_self)]
      dsimp only
      rw [if_pos next]
      exact hypothesis (fun other member => plain other (List.mem_cons_of_mem _ member)) below

theorem readDigits_lt {bound : Nat} {text : Text} {value number : Nat} (start : value < bound)
    (read : readDigits bound value text = .ok number) : number < bound := by
  induction text generalizing value with
  | nil =>
      rw [readDigits] at read
      rwa [← Except.ok.inj read]
  | cons character rest hypothesis =>
      rw [readDigits] at read
      dsimp only at read
      split at read
      · split at read
        · next next => exact hypothesis next read
        · contradiction
      · contradiction

theorem parseUnsigned_lt {bound : Nat} {text : Text} {number : Nat} (positive : 0 < bound)
    (read : parseUnsigned bound text = .ok number) : number < bound := by
  unfold parseUnsigned at read
  split at read
  · contradiction
  · contradiction
  · exact readDigits_lt positive read
  · exact readDigits_lt positive read

/-- Only digits are read as a number. -/
theorem readDigits_plain {bound : Nat} {text : Text} {value number : Nat} (read : readDigits bound value text = .ok number) :
    ∀ character ∈ text, character.isDigit = true := by
  induction text generalizing value with
  | nil => exact fun _ absent => absurd absent List.not_mem_nil
  | cons character rest hypothesis =>
      rw [readDigits] at read
      dsimp only at read
      split at read
      · next digit =>
          split at read
          · exact List.forall_mem_cons.mpr ⟨digit, hypothesis read⟩
          · contradiction
      · contradiction

/-- A number is read from digits and a plus sign only. -/
theorem parseUnsigned_plain {bound : Nat} {text : Text} {number : Nat} (read : parseUnsigned bound text = .ok number) :
    ∀ character ∈ text, character = '+' ∨ character.isDigit = true := by
  unfold parseUnsigned at read
  split at read
  · contradiction
  · contradiction
  · exact List.forall_mem_cons.mpr ⟨.inl rfl, fun other member => .inr (readDigits_plain read other member)⟩
  · exact fun other member => .inr (readDigits_plain read other member)

theorem parseUnsigned_digit {bound : Nat} {digit : Char} {rest : Text} (plain : digit.isDigit = true) :
    parseUnsigned bound (digit :: rest) = readDigits bound 0 (digit :: rest) := by
  have sign : digit ≠ '+' := by
    rintro rfl
    exact absurd plain (by decide)
  rw [parseUnsigned]
  · exact List.cons_ne_nil digit rest
  · exact fun same => sign (List.cons.inj same).1
  · exact fun _ same => sign (List.cons.inj same).1

/-- The decimal digits of a number are read back. -/
theorem parseUnsigned_decimal {bound number : Nat} (below : number < bound) :
    parseUnsigned bound (decimal number) = .ok number := by
  have value : Nat.ofDigitChars 10 (decimal number) 0 = number := Nat.ofDigitChars_ten_toDigits
  have read : readDigits bound 0 (decimal number) = .ok number := by
    have digits := @readDigits_ofDigitChars bound (decimal number) 0 (fun digit member => isDigit_of_mem_decimal member)
    rw [value] at digits
    exact digits below
  cases spelled : decimal number with
  | nil => exact absurd spelled decimal_ne_nil
  | cons digit rest =>
      rw [spelled] at read
      rw [parseUnsigned_digit (isDigit_of_mem_decimal (spelled ▸ List.mem_cons_self)), read]

end Text
