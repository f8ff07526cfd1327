import Temnion.Mcp.Responses

/-
This file shows that the reader of values ends on every text, and models the dispatch of a message to its response.
-/

namespace Temnion.Mcp

section Termination

variable {A B : Type} {size : Nat} {outcome : Except JsonError (A × Text)}

/-- The reading has ended, and fewer characters than before are left. -/
def Within (size : Nat) (outcome : Except JsonError (A × Text)) : Prop :=
  outcome ≠ .error .outOfSteps ∧ ∀ item after, outcome = .ok (item, after) → after.length < size

/-- The reader ends on every text below the bound, and takes at least one character of it. -/
def Progresses (reader : Reader A) (bound : Nat) : Prop :=
  ∀ chars : Text, chars.length < bound → Within chars.length (reader chars)

theorem Within.ok {item : A} {after : Text} (fewer : after.length < size) : Within size (.ok (item, after)) := by
  refine ⟨by simp, fun item' after' same => ?_⟩
  obtain ⟨rfl, rfl⟩ := Prod.mk.inj (Except.ok.inj same)
  exact fewer

theorem Within.error {error : JsonError} (other : error ≠ .outOfSteps) :
    Within size (.error error : Except JsonError (A × Text)) :=
  ⟨fun same => other (Except.error.inj same), by simp⟩

theorem Within.mono {less : Nat} (within : Within less outcome) (fewer : less ≤ size) : Within size outcome :=
  ⟨within.1, fun item after read => (within.2 item after read).trans_le fewer⟩

theorem Within.map (within : Within size outcome) (change : A → B) :
    Within size (outcome.map fun (item, after) => (change item, after)) := by
  cases outcome with
  | error error => exact .error fun same => within.1 (congrArg _ same)
  | ok result => exact .ok (within.2 result.1 result.2 rfl)

theorem skipWs_length (chars : Text) : (skipWs chars).length ≤ chars.length := (List.dropWhile_suffix _).length_le

theorem parseStringBody_within (chars : Text) : Within chars.length (parseStringBody chars) := by
  induction size : chars.length using Nat.strong_induction_on generalizing chars with
  | _ length hypothesis =>
  subst size
  rw [parseStringBody.eq_def]
  cases chars with
  | nil => exact .error (by decide)
  | cons character rest =>
      have rests := hypothesis rest.length (Nat.lt_succ_self _) rest rfl
      dsimp only
      split_ifs
      · exact .ok (Nat.lt_succ_self _)
      · cases rest with
        | nil => exact .error (by decide)
        | cons escaped rest =>
            have shorter : rest.length < (character :: escaped :: rest).length := by
              rw [List.length_cons, List.length_cons]
              omega
            exact (hypothesis rest.length shorter rest rfl |>.map (unescape escaped :: ·)).mono shorter.le
      · exact (rests.map (character :: ·)).mono (Nat.le_succ _)

theorem parseString_within (chars : Text) : Within chars.length (parseString chars) := by
  unfold parseString
  split
  · next quoted =>
      obtain ⟨tail, rfl⟩ := List.head?_eq_some_iff.mp quoted
      exact (parseStringBody_within tail).mono (Nat.le_succ _)
  · exact .error (by decide)

/-- A loop with a step for each character ends. -/
theorem parseSequence_within {close : Char} {error : JsonError} {element : Reader A} {bound steps : Nat} {before : List A}
    (known : error ≠ .outOfSteps) (progresses : Progresses element bound) {chars : Text} (short : chars.length < bound)
    (enough : chars.length < steps) : Within chars.length (parseSequence close error element steps before chars) := by
  induction steps generalizing before chars with
  | zero => exact absurd enough (Nat.not_lt_zero _)
  | succ steps hypothesis =>
      have skipped := skipWs_length chars
      rw [parseSequence]
      dsimp only
      split
      · next closed =>
          obtain ⟨tail, same⟩ := List.head?_eq_some_iff.mp closed
          rw [same, List.length_cons] at skipped
          rw [same]
          exact .ok (Nat.lt_of_succ_le skipped)
      · have read := progresses (skipWs chars) (skipped.trans_lt short)
        cases found : element (skipWs chars) with
        | error failure =>
            rw [found] at read
            exact .error fun same => read.1 (congrArg _ same)
        | ok result =>
            obtain ⟨item, after⟩ := result
            have taken := read.2 item after found
            have skipped' := skipWs_length after
            rw [Except.ok_bind]
            dsimp only
            split
            · next comma =>
                obtain ⟨tail, same⟩ := List.head?_eq_some_iff.mp comma
                rw [same, List.length_cons] at skipped'
                rw [same, List.tail_cons]
                exact (@hypothesis (before ++ [item]) tail (by omega) (by omega)).mono (by omega)
            · split
              · next closed =>
                  obtain ⟨tail, same⟩ := List.head?_eq_some_iff.mp closed
                  rw [same, List.length_cons] at skipped'
                  rw [same, List.tail_cons]
                  exact .ok (by omega)
              · exact .error known

variable [JsonNumber]

theorem parseEntry_progresses {element : Reader JsonValue} {bound : Nat} (progresses : Progresses element bound) :
    Progresses (parseEntry element) bound := by
  intro chars short
  have read := parseString_within chars
  unfold parseEntry
  cases found : parseString chars with
  | error failure =>
      rw [found] at read
      exact .error fun same => read.1 (congrArg _ same)
  | ok result =>
      obtain ⟨key, after⟩ := result
      have taken := read.2 key after found
      have skipped := skipWs_length after
      rw [Except.ok_bind]
      dsimp only
      split
      · next colon =>
          obtain ⟨tail, same⟩ := List.head?_eq_some_iff.mp colon
          rw [same, List.length_cons] at skipped
          rw [same, List.tail_cons]
          exact ((progresses tail (by omega)).map fun value => (key, value)).mono (by omega)
      · exact .error (by decide)

omit [JsonNumber] in
theorem consumeStr_within {chars expected : Text} (word : expected ≠ []) (value : A) :
    Within chars.length ((consumeStr chars expected).map fun after => (value, after)) := by
  unfold consumeStr Text.stripPrefix
  split
  · next rest found =>
      split at found
      · next leads =>
          obtain rfl := Option.some.inj found
          have bound := (List.isPrefixOf_iff_prefix.mp leads).length_le
          have size := List.length_pos_of_ne_nil word
          refine .ok ?_
          rw [List.length_drop]
          omega
      · contradiction
  · exact .error (by simp)

theorem parseNumber_within {character : Char} (digit : character = '-' ∨ character.isDigit = true) (rest : Text) :
    Within (character :: rest).length (parseNumber (character :: rest)) := by
  unfold parseNumber
  split
  · refine .ok ?_
    rw [List.dropWhile_cons_of_pos (isNumberChar_of_digit digit), List.length_cons]
    exact Nat.lt_succ_of_le (List.dropWhile_suffix _).length_le
  · exact .error (by decide)

theorem parseValue_progresses (depth : Nat) : Progresses (parseValue depth) depth := by
  induction depth with
  | zero => exact fun chars short => absurd short (Nat.not_lt_zero _)
  | succ depth hypothesis =>
      intro chars short
      have skipped := skipWs_length chars
      rw [parseValue]
      generalize skipWs chars = here at skipped
      cases here with
      | nil => exact .error (by simp)
      | cons character rest =>
          rw [List.length_cons] at skipped
          have nested : rest.length < depth := by omega
          apply Within.mono _ skipped
          dsimp only
          split_ifs with n t f quote bracket brace digit
          · exact consumeStr_within (by decide) _
          · exact consumeStr_within (by decide) _
          · exact consumeStr_within (by decide) _
          · exact (parseString_within _).map JsonValue.string
          · exact ((parseSequence_within (by decide) hypothesis nested (Nat.lt_succ_self _)).mono (Nat.le_succ _)).map
              JsonValue.array
          · exact ((parseSequence_within (by decide) (parseEntry_progresses hypothesis) nested
              (Nat.lt_succ_self _)).mono (Nat.le_succ _)).map JsonValue.object
          · exact parseNumber_within digit rest
          · exact .error (by simp)

/-- The steps of the reader suffice for every text. -/
theorem parse_ne_outOfSteps (input : Text) : JsonValue.parse input ≠ .error .outOfSteps := by
  have within := parseValue_progresses ((Text.trim input).length + 1) (Text.trim input) (Nat.lt_succ_self _)
  unfold JsonValue.parse
  intro same
  cases read : parseValue ((Text.trim input).length + 1) (Text.trim input) with
  | ok result =>
      rw [read] at same
      contradiction
  | error error =>
      rw [read] at same within
      exact within.1 (congrArg _ (Except.error.inj same))

end Termination

section Dispatch

variable [JsonNumber]

/-- The text of an error. The argument shows a character in its debug form. -/
def JsonError.message (debug : Option Char → Text) : JsonError → Text
  | .arrayEnd => "Expected ',' or ']' in array".toList
  | .colon => "Expected ':' after object key".toList
  | .objectEnd => "Expected ',' or '\x7d' in object".toList
  | .invalidNumber => "Invalid number: invalid float literal".toList
  | .unexpectedCharacter character => "Unexpected character: ".toList ++ debug character
  | .expectedWord word => "Expected '".toList ++ word ++ "'".toList
  | .expectedQuote => "Expected '\"'".toList
  | .unterminatedEscape => "Unterminated string escape".toList
  | .unterminatedString => "Unterminated string".toList
  | .outOfSteps => []

/-- What the handler of a method answers. -/
inductive Reply where
  | result (value : JsonValue)
  | failure (code : Int64) (message : Text)

def Reply.text (id : JsonValue) : Reply → Text
  | .result value => makeResultResponse id value
  | .failure code message => makeErrorResponse id code message

def JsonValue.asStr : JsonValue → Option Text
  | .string value => some value
  | _ => none

/-- A request without an id has the id null. -/
def JsonValue.requestId (request : JsonValue) : JsonValue := (request.get "id".toList).getD .null

/-- The handlers of the methods are the rest of the server. -/
def handleMessage (debug : Option Char → Text) (handlers : Text → Option (JsonValue → Reply)) (line : Text) :
    Option Text :=
  let trimmed := Text.trim line
  if trimmed = [] then none
  else
    match JsonValue.parse trimmed with
    | .error error => some (makeErrorResponse .null (-32700) ("Parse error: ".toList ++ error.message debug))
    | .ok request =>
        match (request.get "method".toList).bind JsonValue.asStr with
        | none => some (makeErrorResponse request.requestId (-32600) "Invalid Request: missing method".toList)
        | some method =>
            if method = "notifications/initialized".toList then none
            else
              match handlers method with
              | some handler =>
                  some ((handler ((request.get "params".toList).getD (.object []))).text request.requestId)
              | none =>
                  some (makeErrorResponse request.requestId (-32601) ("Method not found: ".toList ++ method))

/-- Integers and plain keys are all that a handler puts into its answers. -/
def Reply.Simple : Reply → Prop
  | .result value => value.Whole ∧ value.PlainKeys
  | .failure code _ => code.toInt.natAbs < 2 ^ 53

theorem Reply.carries_iff {reply : Reply} {id : JsonValue} (simple : reply.Simple) (whole : id.Whole) :
    Carries (reply.text id) id ↔ id.PlainKeys := by
  cases reply with
  | result value => exact response_carries_iff whole simple.1 (by decide) simple.2
  | failure code message =>
      exact response_carries_iff whole (errorBody_whole simple message) (by decide) (errorBody_plain code message)

/-- The response to a request carries its id if and only if no key in the id has a quote or a backslash. -/
theorem handleMessage_carries_iff {debug : Option Char → Text} {handlers : Text → Option (JsonValue → Reply)}
    {line answer : Text} {request : JsonValue}
    (simple : ∀ method handler params, handlers method = some handler → (handler params).Simple)
    (parsed : JsonValue.parse (Text.trim line) = .ok request) (whole : request.requestId.Whole)
    (answered : handleMessage debug handlers line = some answer) :
    Carries answer request.requestId ↔ request.requestId.PlainKeys := by
  unfold handleMessage at answered
  dsimp only at answered
  rw [parsed] at answered
  dsimp only at answered
  split at answered
  · contradiction
  · split at answered
    · rw [← Option.some.inj answered]
      have small : (-32600 : Int64).toInt.natAbs < 2 ^ 53 := by decide
      exact @Reply.carries_iff _ (.failure (-32600) _) _ small whole
    · split at answered
      · contradiction
      · split at answered
        · next handler found =>
            rw [← Option.some.inj answered]
            exact Reply.carries_iff (simple _ handler _ found) whole
        · rw [← Option.some.inj answered]
          have small : (-32601 : Int64).toInt.natAbs < 2 ^ 53 := by decide
          exact @Reply.carries_iff _ (.failure (-32601) _) _ small whole

end Dispatch

end Temnion.Mcp
