import Temnion.Mcp.RoundTrip

/-
This file says when a value and a response of the server are read back, and models the dispatch of a message.
-/

namespace Temnion.Mcp

variable [JsonNumber]

open JsonValue

section Trim

variable {text : Text}

omit [JsonNumber] in
/-- A text between two visible characters is not trimmed. -/
theorem trim_eq_self {first last : Char} {front tail : Text} (starts : text = first :: tail) (ends : text = front ++ [last])
    (visible : Text.isWhitespace first = false) (visible' : Text.isWhitespace last = false) : Text.trim text = text := by
  have start : Text.trimStart text = text := by
    rw [starts]
    exact List.dropWhile_cons_of_neg (Bool.eq_false_iff.mp visible)
  rw [Text.trim, start, ends]
  exact List.rdropWhile_concat_neg _ _ _ (Bool.eq_false_iff.mp visible')

omit [JsonNumber] in
theorem signed_ends {number : Int} :
    ∃ front last, Text.signed number = front ++ [last] ∧ Text.isWhitespace last = false := by
  rcases List.eq_nil_or_concat' (Text.signed number) with empty | ⟨front, last, same⟩
  · exact absurd empty signed_ne_nil
  · refine ⟨front, last, same, digit_visible (@signed_chars number last ?_)⟩
    rw [same]
    exact List.mem_append_right _ List.mem_cons_self

theorem serialize_ends {value : JsonValue} (whole : value.Whole) :
    ∃ front last, value.serialize = front ++ [last] ∧ Text.isWhitespace last = false := by
  cases value with
  | null => exact ⟨"nul".toList, 'l', rfl, by decide⟩
  | bool value =>
      cases value with
      | false => exact ⟨"fals".toList, 'e', rfl, by decide⟩
      | true => exact ⟨"tru".toList, 'e', rfl, by decide⟩
  | number value =>
      obtain ⟨number, small, rfl⟩ : ∃ number : Int, number.natAbs < 2 ^ 53 ∧ value = JsonNumber.ofInt number := whole
      rw [serialize, numberText_ofInt small]
      exact signed_ends
  | string value => exact ⟨'"' :: value.flatMap escape, '"', by rw [serialize]; rfl, by decide⟩
  | array items => exact ⟨'[' :: joined (serializeItems items), ']', by rw [serialize]; rfl, by decide⟩
  | object entries => exact ⟨'\x7b' :: joined (serializeEntries entries), '\x7d', by rw [serialize]; rfl, by decide⟩

theorem trim_serialize {value : JsonValue} (whole : value.Whole) : Text.trim value.serialize = value.serialize := by
  obtain ⟨first, tail, starts, visible, _⟩ := serialize_starts whole
  obtain ⟨front, last, ends, visible'⟩ := serialize_ends whole
  exact trim_eq_self starts ends visible visible'

end Trim

section RoundTrip

/-- A value is read back from its text if and only if none of its keys has a quote or a backslash. -/
theorem parse_serialize_iff {value : JsonValue} (whole : value.Whole) :
    JsonValue.parse value.serialize = .ok value ↔ value.PlainKeys := by
  have both := parseValue_serialize value whole (Nat.le_succ value.serialize.length)
  unfold JsonValue.parse
  rw [trim_serialize whole]
  constructor
  · intro read
    by_contra special
    obtain ⟨⟨found, rest⟩, done, same⟩ := Except.map_eq_ok.mp read
    rw [← List.append_nil value.serialize] at done
    exact both.2 special [] found rest (by simpa using done) same
  · intro plain
    have read := both.1 plain [] fun _ absent => absurd absent (Option.not_mem_none _)
    rw [List.append_nil] at read
    rw [read]
    rfl

/-- The response that the text spells has this id. -/
def Carries (text : Text) (id : JsonValue) : Prop :=
  ∃ read, JsonValue.parse text = .ok read ∧ read.get "id".toList = some id

variable {id body : JsonValue} {key : Text}

theorem response_whole (whole : id.Whole) (whole' : body.Whole) : (response id key body).Whole := by
  apply holds_object.mpr
  intro entry member
  fin_cases member
  · exact ⟨trivial, trivial⟩
  · exact ⟨trivial, whole⟩
  · exact ⟨trivial, whole'⟩

omit [JsonNumber] in
theorem plainKey_jsonrpc : PlainKey "jsonrpc".toList := by decide

omit [JsonNumber] in
theorem plainKey_id : PlainKey "id".toList := by decide

theorem response_plain_iff (plain : PlainKey key) :
    (response id key body).PlainKeys ↔ id.PlainKeys ∧ body.PlainKeys := by
  rw [PlainKeys, response, holds_object]
  constructor
  · intro all
    exact ⟨(all ("id".toList, id) (by simp)).2, (all (key, body) (by simp)).2⟩
  · rintro ⟨first, second⟩ entry member
    fin_cases member
    · exact ⟨plainKey_jsonrpc, trivial⟩
    · exact ⟨plainKey_id, first⟩
    · exact ⟨plain, second⟩

theorem response_get (id : JsonValue) (key : Text) (body : JsonValue) : (response id key body).get "id".toList = some id :=
  rfl

/-- The texts of the first two entries of a response stand one behind the other. -/
theorem response_entries (id : JsonValue) (key : Text) (body : JsonValue) :
    ∃ more, joined ([("jsonrpc".toList, .string "2.0".toList), ("id".toList, id), (key, body)].map entryText) =
      entryText ("jsonrpc".toList, .string "2.0".toList) ++ ',' :: (entryText ("id".toList, id) ++ ',' :: more) :=
  ⟨_, rfl⟩

theorem response_length (id : JsonValue) (key : Text) (body : JsonValue) :
    id.serialize.length + 5 ≤ (response id key body).serialize.length := by
  obtain ⟨more, split⟩ := response_entries id key body
  have version : (entryText ("jsonrpc".toList, JsonValue.string "2.0".toList)).length = 15 := rfl
  have shorter : id.serialize.length ≤ (entryText ("id".toList, id)).length := by
    rw [entryText, List.length_cons, List.length_append, List.length_cons, List.length_cons]
    dsimp only
    omega
  rw [response, serialize, serializeEntries_eq, split, List.length_cons, List.length_append, List.length_append,
    List.length_cons, List.length_append, version]
  omega

/-- No response in which the id is misread carries it. -/
theorem response_misread {depth : Nat} {after : Text} {found : JsonValue} (whole : id.Whole)
    (deep : id.serialize.length ≤ depth) (deep' : 5 ≤ depth) (special : ¬ id.PlainKeys)
    (done : parseValue (depth + 1) (response id key body).serialize = .ok (found, after)) :
    found.get "id".toList ≠ some id := by
  have version : (JsonValue.string "2.0".toList).serialize.length ≤ depth := by
    rw [serialize]
    exact deep'
  have version_read : Reads (parseEntry (parseValue depth)) ("jsonrpc".toList, .string "2.0".toList)
      (entryText ("jsonrpc".toList, .string "2.0".toList)) :=
    parseEntry_reads plainKey_jsonrpc ((parseValue_serialize (.string _) trivial version).1 trivial)
  have id_misread : Misreads (parseValue depth) id id.serialize := (parseValue_serialize id whole deep).2 special
  rw [← List.append_nil (response id key body).serialize, response, parseValue_object, Except.map_eq_ok] at done
  obtain ⟨⟨entries, last⟩, loop, same⟩ := done
  obtain ⟨rfl, rfl⟩ := Prod.mk.inj same
  obtain ⟨more, split⟩ := response_entries id key body
  rw [split, List.append_assoc, List.cons_append, List.append_assoc, List.cons_append,
    parseSequence_comma (entryText_starts _) version_read] at loop
  obtain ⟨entry, behind, read, leads⟩ := parseSequence_next (entryText_starts _) loop
  rw [entryText, parseEntry_key plainKey_id, Except.map_eq_ok] at read
  obtain ⟨⟨value, left⟩, read, same⟩ := read
  obtain ⟨rfl, rfl⟩ := Prod.mk.inj same
  obtain ⟨others, rfl⟩ := leads
  intro carried
  exact id_misread _ value left read (Option.some.inj carried)

/-- A response carries the id if and only if no key in the id has a quote or a backslash. -/
theorem response_carries_iff (whole : id.Whole) (whole' : body.Whole) (plain : PlainKey key) (plain' : body.PlainKeys) :
    Carries (response id key body).serialize id ↔ id.PlainKeys := by
  have wholes : (response id key body).Whole := response_whole whole whole'
  constructor
  · rintro ⟨read, done, carried⟩
    by_contra special
    unfold JsonValue.parse at done
    rw [trim_serialize wholes] at done
    obtain ⟨⟨found, rest⟩, value, rfl⟩ := Except.map_eq_ok.mp done
    have long := response_length id key body
    exact response_misread whole ((Nat.le_add_right _ 5).trans long) ((Nat.le_add_left 5 _).trans long) special value
      carried
  · intro plains
    exact ⟨_, (parse_serialize_iff wholes).mpr ((response_plain_iff plain).mpr ⟨plains, plain'⟩), response_get _ _ _⟩

theorem errorBody_whole {code : Int64} (small : code.toInt.natAbs < 2 ^ 53) (message : Text) :
    (errorBody code message).Whole := by
  apply holds_object.mpr
  intro entry member
  fin_cases member
  · exact ⟨trivial, code.toInt, small, rfl⟩
  · exact ⟨trivial, trivial⟩

omit [JsonNumber] in
theorem plainKey_code : PlainKey "code".toList := by decide

omit [JsonNumber] in
theorem plainKey_message : PlainKey "message".toList := by decide

theorem errorBody_plain (code : Int64) (message : Text) : (errorBody code message).PlainKeys := by
  apply holds_object.mpr
  intro entry member
  fin_cases member
  · exact ⟨plainKey_code, trivial⟩
  · exact ⟨plainKey_message, trivial⟩

/-- Values and responses are read back, and responses carry the id of the request, if and only if no key among them has
a quote or a backslash. -/
theorem json_round_trip_iff :
    (∀ value : JsonValue, value.Whole → (JsonValue.parse value.serialize = .ok value ↔ value.PlainKeys)) ∧
      (∀ id result : JsonValue, id.Whole → result.Whole →
        (JsonValue.parse (makeResultResponse id result) = .ok (response id "result".toList result) ↔
          id.PlainKeys ∧ result.PlainKeys) ∧
        (result.PlainKeys → (Carries (makeResultResponse id result) id ↔ id.PlainKeys))) ∧
      ∀ (id : JsonValue) (code : Int64) (message : Text), id.Whole → code.toInt.natAbs < 2 ^ 53 →
        (JsonValue.parse (makeErrorResponse id code message) = .ok (response id "error".toList (errorBody code message)) ↔
          id.PlainKeys) ∧
        (Carries (makeErrorResponse id code message) id ↔ id.PlainKeys) := by
  have result_plain : PlainKey "result".toList := by decide
  have error_plain : PlainKey "error".toList := by decide
  refine ⟨fun value whole => parse_serialize_iff whole, ?_, ?_⟩
  · intro id result whole whole'
    refine ⟨?_, fun plain => response_carries_iff whole whole' result_plain plain⟩
    exact (parse_serialize_iff (response_whole whole whole')).trans (response_plain_iff result_plain)
  · intro id code message whole small
    have whole' := errorBody_whole small message
    have plain := errorBody_plain code message
    refine ⟨?_, response_carries_iff whole whole' error_plain plain⟩
    rw [makeErrorResponse, parse_serialize_iff (response_whole whole whole'), response_plain_iff error_plain]
    exact and_iff_left plain

end RoundTrip

section Samples

omit [JsonNumber]

/-- A value of several levels, and the responses to a request with an integer as its id. -/
theorem json_round_trip_iff_sample :
    letI := JsonNumber.integers
    let value : JsonValue := .object [("text".toList, .array [.string "a\"b".toList, .number (-7 : Int)])]
    JsonValue.parse value.serialize = .ok value ∧
      Carries (makeResultResponse (.number (5 : Int)) (.object [])) (.number (5 : Int)) ∧
      Carries (makeErrorResponse (.number (5 : Int)) (-32600) "missing method".toList) (.number (5 : Int)) := by
  let := JsonNumber.integers
  have five : (JsonValue.number (5 : Int)).Whole := ⟨5, by decide, rfl⟩
  obtain ⟨values, results, errors⟩ := json_round_trip_iff
  have nothing : (JsonValue.object []).Whole := trivial
  have plain : (JsonValue.object []).PlainKeys := trivial
  refine ⟨(values _ ?_).mpr ?_, ((results _ _ five nothing).2 plain).mpr trivial,
    ((errors _ _ _ five (by decide)).2).mpr trivial⟩
  · exact ⟨trivial, ⟨trivial, ⟨-7, by decide, rfl⟩, trivial⟩, trivial⟩
  · exact ⟨by decide, ⟨trivial, trivial, trivial⟩, trivial⟩

/-- An object with a quote as its key is not read back, and no response carries it as its id. -/
theorem quote_in_key_is_not_escaped :
    letI := JsonNumber.integers
    let id : JsonValue := .object [(['"'], .number (1 : Int))]
    JsonValue.parse id.serialize ≠ .ok id ∧ ¬ Carries (makeResultResponse id (.object [])) id := by
  let := JsonNumber.integers
  intro id
  have whole : id.Whole := ⟨trivial, ⟨1, by decide, rfl⟩, trivial⟩
  have nothing : (JsonValue.object []).Whole := trivial
  have plain : (JsonValue.object []).PlainKeys := trivial
  have special : ¬ id.PlainKeys := fun plain => plain.1.1 List.mem_cons_self
  refine ⟨fun same => special ((parse_serialize_iff whole).mp same), ?_⟩
  intro carries
  exact special ((response_carries_iff whole nothing (by decide) plain).mp carries)

end Samples

end Temnion.Mcp
