import Temnion.Mcp.Json

/-
This file says which values are read back as they were written.
-/

namespace Temnion.Mcp

section Strings

/-- The text can stand between quotes without escapes. -/
def PlainKey (key : Text) : Prop := '"' ∉ key ∧ '\\' ∉ key

instance (key : Text) : Decidable (PlainKey key) := inferInstanceAs (Decidable (_ ∧ _))

theorem parseStringBody_quote (rest : Text) : parseStringBody ('"' :: rest) = .ok ([], rest) := by
  rw [parseStringBody.eq_def]
  exact if_pos rfl

theorem parseStringBody_plain {character : Char} (quote : character ≠ '"') (slash : character ≠ '\\') (rest : Text) :
    parseStringBody (character :: rest) =
      (parseStringBody rest).map fun (read, after) => (character :: read, after) := by
  rw [parseStringBody.eq_def]
  dsimp only
  rw [if_neg quote, if_neg slash]

theorem parseStringBody_escaped (escaped : Char) (rest : Text) : parseStringBody ('\\' :: escaped :: rest) =
    (parseStringBody rest).map fun (read, after) => (unescape escaped :: read, after) := by
  rw [parseStringBody, if_neg (by decide), if_pos rfl]

/-- An escaped character is read as what it stands for. -/
theorem parseStringBody_escape (character : Char) (rest : Text) : parseStringBody (escape character ++ rest) =
    (parseStringBody rest).map fun (read, after) => (character :: read, after) := by
  unfold escape
  by_cases quote : character = '"'
  · rw [if_pos quote, quote]
    exact parseStringBody_escaped '"' rest
  by_cases slash : character = '\\'
  · rw [if_neg quote, if_pos slash, slash]
    exact parseStringBody_escaped '\\' rest
  by_cases line : character = '\n'
  · rw [if_neg quote, if_neg slash, if_pos line, line]
    exact parseStringBody_escaped 'n' rest
  by_cases back : character = '\r'
  · rw [if_neg quote, if_neg slash, if_neg line, if_pos back, back]
    exact parseStringBody_escaped 'r' rest
  by_cases tab : character = '\t'
  · rw [if_neg quote, if_neg slash, if_neg line, if_neg back, if_pos tab, tab]
    exact parseStringBody_escaped 't' rest
  · rw [if_neg quote, if_neg slash, if_neg line, if_neg back, if_neg tab]
    exact parseStringBody_plain quote slash rest

/-- A string is read back as it was written. -/
theorem parseString_quoted (text rest : Text) : parseString (JsonValue.quoted text ++ rest) = .ok (text, rest) := by
  have body : parseStringBody (text.flatMap escape ++ '"' :: rest) = .ok (text, rest) := by
    induction text with
    | nil => exact parseStringBody_quote rest
    | cons character text hypothesis =>
        rw [List.flatMap_cons, List.append_assoc, parseStringBody_escape, hypothesis]
        rfl
  rw [JsonValue.quoted, List.cons_append, List.append_assoc]
  exact body

/-- A plain key is read back as it was written. -/
theorem parseStringBody_key {key : Text} (plain : PlainKey key) (rest : Text) :
    parseStringBody (key ++ '"' :: rest) = .ok (key, rest) := by
  induction key with
  | nil => exact parseStringBody_quote rest
  | cons character key hypothesis =>
      obtain ⟨quote, slash⟩ := plain
      rw [List.mem_cons, not_or] at quote slash
      rw [List.cons_append, parseStringBody_plain (Ne.symm quote.1) (Ne.symm slash.1), hypothesis ⟨quote.2, slash.2⟩]
      rfl

theorem unescape_ne_slash {character : Char} (other : character ≠ '\\') : unescape character ≠ '\\' := by
  unfold unescape
  split_ifs <;> first | decide | exact other

/-- A text with a quote or a backslash is not read back, nor is any text together with backslashes in front of it. -/
theorem parseStringBody_ne {count : Nat} {text rest read after : Text} (special : 0 < count ∨ ¬ PlainKey text)
    (done : parseStringBody (text ++ '"' :: rest) = .ok (read, after)) : read ≠ List.replicate count '\\' ++ text := by
  induction size : text.length using Nat.strong_induction_on generalizing text read count with
  | _ length hypothesis =>
  cases text with
  | nil =>
      have positive := special.resolve_right fun marked => marked ⟨List.not_mem_nil, List.not_mem_nil⟩
      rw [List.nil_append, parseStringBody_quote] at done
      obtain ⟨rfl, rfl⟩ := Prod.mk.inj (Except.ok.inj done)
      rw [← Nat.succ_pred_eq_of_pos positive, List.replicate_succ, List.cons_append]
      exact (List.cons_ne_nil _ _).symm
  | cons character text =>
      by_cases quote : character = '"'
      · rw [quote, List.cons_append, parseStringBody_quote] at done
        obtain ⟨rfl, rfl⟩ := Prod.mk.inj (Except.ok.inj done)
        exact (List.append_ne_nil_of_right_ne_nil _ (List.cons_ne_nil _ _)).symm
      by_cases slash : character = '\\'
      · subst slash
        rw [List.append_cons, ← List.replicate_succ', List.replicate_succ, List.cons_append]
        cases text with
        | nil =>
            rw [List.cons_append, List.nil_append, parseStringBody_escaped, Except.map_eq_ok] at done
            obtain ⟨⟨read', after'⟩, _, same⟩ := done
            obtain ⟨rfl, rfl⟩ := Prod.mk.inj same
            intro same
            exact absurd (List.cons.inj same).1 (by decide)
        | cons escaped text =>
            rw [List.cons_append, List.cons_append, parseStringBody_escaped, Except.map_eq_ok] at done
            obtain ⟨⟨read', after'⟩, inner, same⟩ := done
            obtain ⟨rfl, rfl⟩ := Prod.mk.inj same
            intro same
            obtain ⟨first, others⟩ := List.cons.inj same
            by_cases again : escaped = '\\'
            · subst again
              have shorter : text.length < length := by
                rw [← size, List.length_cons, List.length_cons]
                omega
              apply hypothesis text.length shorter (.inl (Nat.succ_pos count)) inner rfl
              rw [others, List.append_cons, ← List.replicate_succ']
            · exact unescape_ne_slash again first
      · rw [List.cons_append, parseStringBody_plain quote slash, Except.map_eq_ok] at done
        obtain ⟨⟨read', after'⟩, inner, same⟩ := done
        obtain ⟨rfl, rfl⟩ := Prod.mk.inj same
        intro same
        cases count with
        | succ count => exact slash (List.cons.inj same).1
        | zero =>
            have marked : ¬ PlainKey text := by
              intro plain
              apply special.resolve_left (Nat.lt_irrefl 0)
              refine ⟨?_, ?_⟩
              · rw [List.mem_cons, not_or]
                exact ⟨Ne.symm quote, plain.1⟩
              · rw [List.mem_cons, not_or]
                exact ⟨Ne.symm slash, plain.2⟩
            have shorter : text.length < length := by
              rw [← size, List.length_cons]
              exact Nat.lt_succ_self _
            have others : read' ≠ List.replicate 0 '\\' ++ text :=
              hypothesis text.length shorter (.inr marked) inner rfl
            exact others (List.cons.inj same).2

end Strings

section Sequences

open JsonValue

/-- No number goes on into the text. -/
def Ends (rest : Text) : Prop := ∀ character ∈ rest.head?, isNumberChar character = false

/-- The text starts with neither white space nor the end of a sequence. -/
def Starts (close : Char) (text : Text) : Prop :=
  ∃ character tail, text = character :: tail ∧ Text.isWhitespace character = false ∧ character ≠ close

/-- The character ends a sequence, and neither a number nor an element. -/
structure Closes (close : Char) : Prop where
  visible : Text.isWhitespace close = false
  mark : isNumberChar close = false
  comma : close ≠ ','

theorem closes_array : Closes ']' := ⟨by decide, by decide, by decide⟩

theorem closes_object : Closes '\x7d' := ⟨by decide, by decide, by decide⟩

theorem ends_cons {character : Char} (mark : isNumberChar character = false) (rest : Text) : Ends (character :: rest) := by
  intro other first
  obtain rfl := Option.some.inj first
  exact mark

variable {A : Type} {close : Char} {error : JsonError} {element : Reader A} {item : A} {text rest : Text} {steps : Nat}
  {before : List A}

/-- The item is read back from its text, wherever that stands. -/
def Reads (element : Reader A) (item : A) (text : Text) : Prop :=
  ∀ rest, Ends rest → element (text ++ rest) = .ok (item, rest)

/-- Whatever is read from the text is another item. -/
def Misreads (element : Reader A) (item : A) (text : Text) : Prop :=
  ∀ rest read after, element (text ++ rest) = .ok (read, after) → read ≠ item

theorem Reads.not_misreads (reads : Reads element item text) : ¬ Misreads element item text :=
  fun misreads => misreads [] item [] (reads [] fun _ absent => absurd absent (Option.not_mem_none _)) rfl

theorem skipWs_cons {character : Char} (visible : Text.isWhitespace character = false) (rest : Text) :
    skipWs (character :: rest) = character :: rest :=
  List.dropWhile_cons_of_neg (Bool.eq_false_iff.mp visible)

theorem Starts.skipWs (starts : Starts close text) (rest : Text) : skipWs (text ++ rest) = text ++ rest := by
  obtain ⟨character, tail, rfl, visible, _⟩ := starts
  exact skipWs_cons visible _

theorem Starts.head (starts : Starts close text) (rest : Text) : (text ++ rest).head? ≠ some close := by
  obtain ⟨character, tail, rfl, _, other⟩ := starts
  exact fun same => other (Option.some.inj same)

/-- A round of the loop whose element is read before a comma. -/
theorem parseSequence_comma (starts : Starts close text) (reads : Reads element item text) :
    parseSequence close error element (steps + 1) before (text ++ ',' :: rest) =
      parseSequence close error element steps (before ++ [item]) rest := by
  have read := reads (',' :: rest) (ends_cons (by decide) rest)
  rw [parseSequence_succ]
  dsimp only
  rw [starts.skipWs, if_neg (starts.head _), read, Except.ok_bind, skipWs_cons (by decide)]
  exact if_pos rfl

/-- The last round of the loop. -/
theorem parseSequence_close (closes : Closes close) (starts : Starts close text) (reads : Reads element item text) :
    parseSequence close error element (steps + 1) before (text ++ close :: rest) = .ok (before ++ [item], rest) := by
  have read := reads (close :: rest) (ends_cons closes.mark rest)
  have other : (close :: rest).head? ≠ some ',' := fun same => closes.comma (Option.some.inj same)
  rw [parseSequence_succ]
  dsimp only
  rw [starts.skipWs, if_neg (starts.head _), read, Except.ok_bind, skipWs_cons closes.visible]
  dsimp only
  rw [if_neg other]
  exact if_pos rfl

/-- A sequence without elements ends at once. -/
theorem parseSequence_empty (closes : Closes close) :
    parseSequence close error element (steps + 1) before (close :: rest) = .ok (before, rest) := by
  rw [parseSequence_succ]
  dsimp only
  rw [skipWs_cons closes.visible]
  exact if_pos rfl

/-- What has been read stays in front. -/
theorem parseSequence_prefix {read : List A} {after chars : Text}
    (done : parseSequence close error element steps before chars = .ok (read, after)) : before <+: read := by
  induction steps generalizing before chars with
  | zero => contradiction
  | succ steps hypothesis =>
      rw [parseSequence_succ] at done
      dsimp only at done
      split at done
      · obtain ⟨rfl, rfl⟩ := Prod.mk.inj (Except.ok.inj done)
        exact List.prefix_rfl
      · rw [Except.bind_eq_ok] at done
        obtain ⟨⟨item, rest⟩, _, done⟩ := done
        dsimp only at done
        split at done
        · exact (List.prefix_append before [item]).trans (hypothesis done)
        · split at done
          · obtain ⟨rfl, rfl⟩ := Prod.mk.inj (Except.ok.inj done)
            exact List.prefix_append before [item]
          · contradiction

/-- A loop that ends well has read an element from the text in front. -/
theorem parseSequence_next {read : List A} {after : Text} (starts : Starts close text)
    (done : parseSequence close error element steps before (text ++ rest) = .ok (read, after)) :
    ∃ item last, element (text ++ rest) = .ok (item, last) ∧ before ++ [item] <+: read := by
  cases steps with
  | zero => contradiction
  | succ steps =>
      rw [parseSequence_succ] at done
      dsimp only at done
      rw [starts.skipWs, if_neg (starts.head _), Except.bind_eq_ok] at done
      obtain ⟨⟨item, last⟩, found, done⟩ := done
      refine ⟨item, last, found, ?_⟩
      dsimp only at done
      split at done
      · exact parseSequence_prefix done
      · split at done
        · obtain ⟨rfl, rfl⟩ := Prod.mk.inj (Except.ok.inj done)
          exact List.prefix_rfl
        · contradiction

theorem length_le_joined (texts : List Text) : texts.length ≤ (joined texts).length + 1 := by
  induction texts with
  | nil => exact Nat.zero_le _
  | cons text texts hypothesis =>
      cases texts with
      | nil => exact Nat.le_add_left 1 _
      | cons next texts =>
          have split : joined (text :: next :: texts) = text ++ ',' :: joined (next :: texts) := rfl
          have comma : (',' :: joined (next :: texts)).length = (joined (next :: texts)).length + 1 := List.length_cons
          rw [List.length_cons, split, List.length_append, comma]
          omega

theorem length_le_of_mem_joined {texts : List Text} {text : Text} (member : text ∈ texts) :
    text.length ≤ (joined texts).length := by
  induction texts with
  | nil => exact absurd member List.not_mem_nil
  | cons head texts hypothesis =>
      cases texts with
      | nil => rw [List.mem_singleton.mp member, joined]
      | cons next texts =>
          have split : joined (head :: next :: texts) = head ++ ',' :: joined (next :: texts) := rfl
          rw [split, List.length_append, List.length_cons]
          rcases List.mem_cons.mp member with rfl | member
          · omega
          · have bound := hypothesis member
            omega

variable {write : A → Text} {items : List A}

/-- The elements of a sequence are read back when each of them is. -/
theorem parseSequence_reads (closes : Closes close) (starts : ∀ item ∈ items, Starts close (write item))
    (reads : ∀ item ∈ items, Reads element item (write item)) (enough : items.length < steps) :
    parseSequence close error element steps before (joined (items.map write) ++ close :: rest) =
      .ok (before ++ items, rest) := by
  induction items generalizing before steps with
  | nil =>
      obtain ⟨steps, rfl⟩ := Nat.exists_eq_add_one_of_ne_zero (Nat.ne_of_gt enough)
      rw [List.append_nil]
      exact parseSequence_empty closes
  | cons item items hypothesis =>
      rw [List.length_cons] at enough
      obtain ⟨steps, rfl⟩ := Nat.exists_eq_add_one_of_ne_zero (Nat.ne_of_gt (Nat.zero_lt_of_lt enough))
      have start := starts item List.mem_cons_self
      have read := reads item List.mem_cons_self
      cases items with
      | nil => exact parseSequence_close closes start read
      | cons next items =>
          have others : parseSequence close error element steps (before ++ [item])
              (joined ((next :: items).map write) ++ close :: rest) = .ok (before ++ [item] ++ next :: items, rest) :=
            hypothesis (fun other member => starts other (List.mem_cons_of_mem _ member))
              (fun other member => reads other (List.mem_cons_of_mem _ member)) (Nat.lt_of_succ_lt_succ enough)
          change parseSequence close error element (steps + 1) before
            ((write item ++ ',' :: joined ((next :: items).map write)) ++ close :: _) = _
          rw [List.append_assoc, List.cons_append, parseSequence_comma start read, others, List.append_assoc]
          rfl

/-- The elements of a sequence are not read back when one of them is not. -/
theorem parseSequence_misreads (starts : ∀ item ∈ items, Starts close (write item))
    (each : ∀ item ∈ items, Reads element item (write item) ∨ Misreads element item (write item))
    (some : ∃ item ∈ items, Misreads element item (write item)) {read : List A} {after : Text}
    (done : parseSequence close error element steps before (joined (items.map write) ++ close :: rest) =
      .ok (read, after)) : read ≠ before ++ items := by
  induction items generalizing before steps with
  | nil =>
      obtain ⟨item, member, _⟩ := some
      exact absurd member List.not_mem_nil
  | cons item items hypothesis =>
      have start := starts item List.mem_cons_self
      have front : ∃ tail, joined ((item :: items).map write) ++ close :: rest = write item ++ tail := by
        cases items with
        | nil => exact ⟨_, rfl⟩
        | cons next items => exact ⟨_, List.append_assoc _ _ _⟩
      rcases each item List.mem_cons_self with reads | misreads
      · have later : ∃ other ∈ items, Misreads element other (write other) := by
          obtain ⟨other, member, misread⟩ := some
          rcases List.mem_cons.mp member with rfl | member
          · exact absurd misread reads.not_misreads
          · exact ⟨other, member, misread⟩
        cases items with
        | nil =>
            obtain ⟨other, member, _⟩ := later
            exact absurd member List.not_mem_nil
        | cons next items =>
            cases steps with
            | zero => contradiction
            | succ steps =>
                change parseSequence close error element (steps + 1) before
                  ((write item ++ ',' :: joined ((next :: items).map write)) ++ close :: _) = _ at done
                rw [List.append_assoc, List.cons_append, parseSequence_comma start reads] at done
                have less := hypothesis (fun other member => starts other (List.mem_cons_of_mem _ member))
                  (fun other member => each other (List.mem_cons_of_mem _ member)) later done
                rwa [List.append_assoc] at less
      · obtain ⟨tail, same⟩ := front
        rw [same] at done
        obtain ⟨found, last, taken, leads⟩ := parseSequence_next start done
        rintro rfl
        rw [List.prefix_append_right_inj, List.cons_prefix_cons] at leads
        exact misreads tail found last taken leads.1

/-- When plain elements are read back and others are not, a sequence is read back exactly if all of it is plain. -/
theorem parseSequence_elements (closes : Closes close) {plain : A → Prop}
    (starts : ∀ item ∈ items, Starts close (write item))
    (each : ∀ item ∈ items, (plain item → Reads element item (write item)) ∧
      (¬ plain item → Misreads element item (write item))) :
    let text := joined (items.map write) ++ close :: rest
    ((∀ item ∈ items, plain item) →
        parseSequence close error element (text.length + 1) [] text = .ok (items, rest)) ∧
      ((¬ ∀ item ∈ items, plain item) → ∀ read after,
        parseSequence close error element (text.length + 1) [] text = .ok (read, after) → read ≠ items) := by
  intro text
  constructor
  · intro plains
    have enough : items.length < text.length + 1 := by
      have bound := length_le_joined (items.map write)
      rw [List.length_map] at bound
      change _ < (joined (items.map write) ++ close :: rest).length + 1
      rw [List.length_append, List.length_cons]
      omega
    exact parseSequence_reads closes starts (fun item member => (each item member).1 (plains item member)) enough
  · intro special read after done
    apply parseSequence_misreads starts _ _ done
    · exact fun item member => (em (plain item)).imp (each item member).1 (each item member).2
    · push Not at special
      obtain ⟨item, member, marked⟩ := special
      exact ⟨item, member, (each item member).2 marked⟩

end Sequences

section Values

variable [JsonNumber]

namespace JsonValue

/-- A property of all values is proved for the elements of an array and an object first. -/
theorem induct {P : JsonValue → Prop} (null : P .null) (bool : ∀ value, P (.bool value))
    (number : ∀ value, P (.number value)) (string : ∀ value, P (.string value))
    (array : ∀ items, (∀ item ∈ items, P item) → P (.array items))
    (object : ∀ entries, (∀ entry ∈ entries, P entry.2) → P (.object entries)) (value : JsonValue) : P value := by
  refine @JsonValue.rec _ P (fun items => ∀ item ∈ items, P item) (fun entries => ∀ entry ∈ entries, P entry.2)
    (fun entry => P entry.2) null bool number string array object ?_ ?_ ?_ ?_ ?_ value
  · exact fun _ absent => absurd absent List.not_mem_nil
  · exact fun item items first others => List.forall_mem_cons.mpr ⟨first, others⟩
  · exact fun _ absent => absurd absent List.not_mem_nil
  · exact fun entry entries first others => List.forall_mem_cons.mpr ⟨first, others⟩
  · exact fun key value holds => holds

mutual

/-- Every key and every number of the value is admitted, however deep it stands. -/
def Holds (keys : Text → Prop) (numbers : JsonNumber.Carrier → Prop) : JsonValue → Prop
  | .number value => numbers value
  | .array items => HoldsItems keys numbers items
  | .object entries => HoldsEntries keys numbers entries
  | _ => True

def HoldsItems (keys : Text → Prop) (numbers : JsonNumber.Carrier → Prop) : List JsonValue → Prop
  | [] => True
  | item :: items => Holds keys numbers item ∧ HoldsItems keys numbers items

def HoldsEntries (keys : Text → Prop) (numbers : JsonNumber.Carrier → Prop) : List (Text × JsonValue) → Prop
  | [] => True
  | (key, value) :: entries => keys key ∧ Holds keys numbers value ∧ HoldsEntries keys numbers entries

end

/-- No key of the value has a quote or a backslash. -/
def PlainKeys : JsonValue → Prop := Holds PlainKey fun _ => True

/-- Every number of the value is an integer of a magnitude below 2^53. -/
def Whole : JsonValue → Prop :=
  Holds (fun _ => True) fun value => ∃ number : Int, number.natAbs < 2 ^ 53 ∧ value = JsonNumber.ofInt number

variable {keys : Text → Prop} {numbers : JsonNumber.Carrier → Prop}

theorem holds_array {items : List JsonValue} :
    (JsonValue.array items).Holds keys numbers ↔ ∀ item ∈ items, item.Holds keys numbers := by
  rw [Holds]
  induction items with
  | nil => exact iff_of_true trivial fun _ absent => absurd absent List.not_mem_nil
  | cons item items hypothesis => rw [HoldsItems, hypothesis, List.forall_mem_cons]

theorem holds_object {entries : List (Text × JsonValue)} : (JsonValue.object entries).Holds keys numbers ↔
    ∀ entry ∈ entries, keys entry.1 ∧ entry.2.Holds keys numbers := by
  rw [Holds]
  induction entries with
  | nil => exact iff_of_true trivial fun _ absent => absurd absent List.not_mem_nil
  | cons entry entries hypothesis => rw [HoldsEntries, hypothesis, List.forall_mem_cons, and_assoc]

end JsonValue

open JsonValue

section Characters

omit [JsonNumber] in
theorem signed_chars {number : Int} {character : Char} (member : character ∈ Text.signed number) :
    character = '-' ∨ character.isDigit = true := by
  unfold Text.signed at member
  split at member
  · exact (List.mem_cons.mp member).imp id Text.isDigit_of_mem_decimal
  · exact .inr (Text.isDigit_of_mem_decimal member)

omit [JsonNumber] in
theorem signed_ne_nil {number : Int} : Text.signed number ≠ [] := by
  unfold Text.signed
  split
  · exact List.cons_ne_nil _ _
  · exact Text.decimal_ne_nil

omit [JsonNumber] in
theorem isNumberChar_of_digit {character : Char} (digit : character = '-' ∨ character.isDigit = true) :
    isNumberChar character = true := by
  unfold isNumberChar
  rcases digit with rfl | digit
  · rfl
  · rw [digit, Bool.or_true]

omit [JsonNumber] in
/-- A digit is no white space, and it starts nothing but a number. -/
theorem digit_ne {character other : Char} (digit : character = '-' ∨ character.isDigit = true)
    (mark : other ∈ ['n', 't', 'f', '"', '[', ']', '\x7b']) : character ≠ other := by
  rintro rfl
  rcases digit with rfl | digit
  · revert mark
    decide
  · fin_cases mark <;> exact absurd digit (by decide)

omit [JsonNumber] in
theorem digit_visible {character : Char} (digit : character = '-' ∨ character.isDigit = true) :
    Text.isWhitespace character = false := by
  rcases digit with rfl | digit
  · rfl
  · exact Text.isWhitespace_of_digit digit

end Characters

/-- An integer is written with its sign and its digits. -/
theorem numberText_ofInt {number : Int} (small : number.natAbs < 2 ^ 53) :
    numberText (JsonNumber.ofInt number) = Text.signed number := by
  have below : number < 2 ^ 63 := by omega
  have above : -2 ^ 63 ≤ number := by omega
  rw [numberText, if_pos (JsonNumber.isWhole_ofInt number small), JsonNumber.toI64_ofInt number small,
    Int64.toInt_ofInt_of_le above below]

theorem parseNumber_signed {number : Int} (small : number.natAbs < 2 ^ 53) {rest : Text} (ends : Ends rest) :
    parseNumber (Text.signed number ++ rest) = .ok (.number (JsonNumber.ofInt number), rest) := by
  have all : ∀ character ∈ Text.signed number, isNumberChar character = true :=
    fun character member => isNumberChar_of_digit (signed_chars member)
  have stops : rest.takeWhile isNumberChar = [] ∧ rest.dropWhile isNumberChar = rest := by
    cases rest with
    | nil => exact ⟨rfl, rfl⟩
    | cons character rest =>
        have mark := Bool.eq_false_iff.mp (ends character rfl)
        exact ⟨List.takeWhile_cons_of_neg mark, List.dropWhile_cons_of_neg mark⟩
  unfold parseNumber
  rw [List.takeWhile_append_of_pos all, List.dropWhile_append_of_pos all, stops.1, stops.2, List.append_nil,
    JsonNumber.parse_signed number small]

theorem serializeItems_eq (items : List JsonValue) : serializeItems items = items.map serialize := by
  induction items with
  | nil => rfl
  | cons item items hypothesis => rw [serializeItems, hypothesis, List.map_cons]

/-- The text of an entry of an object. -/
def entryText (entry : Text × JsonValue) : Text := '"' :: (entry.1 ++ '"' :: ':' :: entry.2.serialize)

theorem entryText_starts (entry : Text × JsonValue) : Starts '\x7d' (entryText entry) :=
  ⟨'"', _, rfl, by decide, by decide⟩

theorem serializeEntries_eq (entries : List (Text × JsonValue)) : serializeEntries entries = entries.map entryText := by
  induction entries with
  | nil => rfl
  | cons entry entries hypothesis => rw [serializeEntries, hypothesis, List.map_cons, entryText]

/-- The text of a value starts with neither white space nor a closing bracket. -/
theorem serialize_starts {value : JsonValue} (whole : value.Whole) : Starts ']' value.serialize := by
  cases value with
  | null => exact ⟨'n', _, rfl, by decide, by decide⟩
  | bool value => cases value <;> exact ⟨_, _, rfl, by decide, by decide⟩
  | string value => exact ⟨'"', _, rfl, by decide, by decide⟩
  | array items => exact ⟨'[', _, serialize_array items, by decide, by decide⟩
  | object entries => exact ⟨'\x7b', _, serialize_object entries, by decide, by decide⟩
  | number value =>
      obtain ⟨number, small, rfl⟩ : ∃ number : Int, number.natAbs < 2 ^ 53 ∧ value = JsonNumber.ofInt number := whole
      rw [serialize_number, numberText_ofInt small]
      obtain ⟨character, tail, same⟩ := List.exists_cons_of_ne_nil (@signed_ne_nil number)
      have digit : character = '-' ∨ character.isDigit = true := by
        apply @signed_chars number
        rw [same]
        exact List.mem_cons_self
      exact ⟨character, tail, same, digit_visible digit, digit_ne digit (by decide)⟩

variable {element : Reader JsonValue} {depth : Nat}

theorem parseEntry_key {key : Text} (plain : PlainKey key) (text rest : Text) :
    parseEntry element ('"' :: (key ++ '"' :: ':' :: text) ++ rest) =
      (element (text ++ rest)).map fun (value, last) => ((key, value), last) := by
  have whole : '"' :: (key ++ '"' :: ':' :: text) ++ rest = '"' :: (key ++ '"' :: ':' :: (text ++ rest)) := by
    rw [List.cons_append, List.append_assoc]
    rfl
  have read : parseString ('"' :: (key ++ '"' :: ':' :: (text ++ rest))) = .ok (key, ':' :: (text ++ rest)) :=
    parseStringBody_key plain _
  unfold parseEntry
  rw [whole, read, Except.ok_bind]
  dsimp only
  rw [skipWs_cons (by decide)]
  exact if_pos rfl

/-- An entry is read back when its key is plain and its value is read back. -/
theorem parseEntry_reads {entry : Text × JsonValue} (plain : PlainKey entry.1)
    (reads : Reads element entry.2 entry.2.serialize) : Reads (parseEntry element) entry (entryText entry) := by
  intro rest ends
  rw [entryText, parseEntry_key plain, reads rest ends]
  rfl

/-- An entry is not read back when its value is not. -/
theorem parseEntry_misreads {entry : Text × JsonValue} (plain : PlainKey entry.1)
    (misreads : Misreads element entry.2 entry.2.serialize) : Misreads (parseEntry element) entry (entryText entry) := by
  intro rest read after done
  rw [entryText, parseEntry_key plain, Except.map_eq_ok] at done
  obtain ⟨⟨value, last⟩, found, same⟩ := done
  obtain ⟨rfl, rfl⟩ := Prod.mk.inj same
  intro same
  exact misreads rest value last found (congrArg Prod.snd same)

/-- An entry is not read back when its key is not plain. -/
theorem parseEntry_misreads_key {entry : Text × JsonValue} (special : ¬ PlainKey entry.1) :
    Misreads (parseEntry element) entry (entryText entry) := by
  intro rest read after done
  have whole : entryText entry ++ rest = '"' :: (entry.1 ++ '"' :: (':' :: entry.2.serialize ++ rest)) := by
    rw [entryText, List.cons_append, List.append_assoc]
    rfl
  unfold parseEntry at done
  rw [whole, Except.bind_eq_ok] at done
  obtain ⟨⟨key, last⟩, found, done⟩ := done
  have found' : parseStringBody (entry.1 ++ '"' :: (':' :: entry.2.serialize ++ rest)) = .ok (key, last) := found
  have other : key ≠ List.replicate 0 '\\' ++ entry.1 := parseStringBody_ne (.inr special) found'
  dsimp only at done
  split at done
  · rw [Except.map_eq_ok] at done
    obtain ⟨⟨value, last⟩, _, same⟩ := done
    obtain ⟨rfl, rfl⟩ := Prod.mk.inj same
    intro same
    exact other (congrArg Prod.fst same)
  · contradiction

theorem parseValue_array (items : List JsonValue) (rest : Text) :
    parseValue (depth + 1) ((JsonValue.array items).serialize ++ rest) =
      (parseSequence ']' .arrayEnd (parseValue depth) ((joined (items.map serialize) ++ ']' :: rest).length + 1) []
        (joined (items.map serialize) ++ ']' :: rest)).map fun (items, after) => (.array items, after) := by
  have whole : (JsonValue.array items).serialize ++ rest = '[' :: (joined (items.map serialize) ++ ']' :: rest) := by
    rw [serialize_array, serializeItems_eq, List.cons_append, List.append_assoc]
    rfl
  rw [whole, parseValue]
  dsimp only
  rw [skipWs_cons (by decide)]
  rfl

theorem parseValue_object (entries : List (Text × JsonValue)) (rest : Text) :
    parseValue (depth + 1) ((JsonValue.object entries).serialize ++ rest) =
      (parseSequence '\x7d' .objectEnd (parseEntry (parseValue depth))
        ((joined (entries.map entryText) ++ '\x7d' :: rest).length + 1) []
        (joined (entries.map entryText) ++ '\x7d' :: rest)).map fun (entries, after) => (.object entries, after) := by
  have whole : (JsonValue.object entries).serialize ++ rest =
      '\x7b' :: (joined (entries.map entryText) ++ '\x7d' :: rest) := by
    rw [serialize_object, serializeEntries_eq, List.cons_append, List.append_assoc]
    rfl
  rw [whole, parseValue]
  dsimp only
  rw [skipWs_cons (by decide)]
  rfl

theorem parseValue_number {number : Int} (small : number.natAbs < 2 ^ 53) {rest : Text} (ends : Ends rest) :
    parseValue (depth + 1) (Text.signed number ++ rest) = .ok (.number (JsonNumber.ofInt number), rest) := by
  have read := parseNumber_signed small ends
  obtain ⟨character, tail, same⟩ := List.exists_cons_of_ne_nil (@signed_ne_nil number)
  have digit : character = '-' ∨ character.isDigit = true := by
    apply @signed_chars number
    rw [same]
    exact List.mem_cons_self
  rw [same, List.cons_append] at read ⊢
  rw [parseValue, skipWs_cons (digit_visible digit)]
  dsimp only
  rw [if_neg (digit_ne digit (by decide)), if_neg (digit_ne digit (by decide)), if_neg (digit_ne digit (by decide)),
    if_neg (digit_ne digit (by decide)), if_neg (digit_ne digit (by decide)), if_neg (digit_ne digit (by decide)),
    if_pos digit, read]

theorem parseValue_string (text rest : Text) :
    parseValue (depth + 1) (quoted text ++ rest) = .ok (.string text, rest) := by
  have read := parseString_quoted text rest
  rw [quoted, List.cons_append] at read ⊢
  rw [parseValue, skipWs_cons (by decide)]
  change (parseString _).map _ = _
  rw [read]
  rfl

theorem exists_depth {value : JsonValue} (whole : value.Whole) (deep : value.serialize.length ≤ depth) :
    ∃ less, depth = less + 1 := by
  obtain ⟨character, tail, same, _⟩ := serialize_starts whole
  rw [same, List.length_cons] at deep
  exact ⟨depth - 1, by omega⟩

/-- A value is read back when its keys are plain, and another one is read when they are not. -/
theorem parseValue_serialize (value : JsonValue) (whole : value.Whole) (deep : value.serialize.length ≤ depth) :
    (value.PlainKeys → Reads (parseValue depth) value value.serialize) ∧
      (¬ value.PlainKeys → Misreads (parseValue depth) value value.serialize) := by
  induction value using JsonValue.induct generalizing depth with
  | null =>
      obtain ⟨depth, rfl⟩ := exists_depth whole deep
      exact ⟨fun _ rest _ => rfl, fun special => absurd trivial special⟩
  | bool value =>
      obtain ⟨depth, rfl⟩ := exists_depth whole deep
      cases value <;> exact ⟨fun _ rest _ => rfl, fun special => absurd trivial special⟩
  | number value =>
      obtain ⟨depth, rfl⟩ := exists_depth whole deep
      obtain ⟨number, small, rfl⟩ : ∃ number : Int, number.natAbs < 2 ^ 53 ∧ value = JsonNumber.ofInt number := whole
      refine ⟨fun _ rest ends => ?_, fun special => absurd trivial special⟩
      rw [serialize_number, numberText_ofInt small]
      exact parseValue_number small ends
  | string value =>
      obtain ⟨depth, rfl⟩ := exists_depth whole deep
      refine ⟨fun _ rest _ => ?_, fun special => absurd trivial special⟩
      rw [serialize_string]
      exact parseValue_string value rest
  | array items hypothesis =>
      obtain ⟨depth, rfl⟩ := exists_depth whole deep
      have wholes := holds_array.mp whole
      have starts : ∀ item ∈ items, Starts ']' item.serialize := fun item member => serialize_starts (wholes item member)
      have each : ∀ item ∈ items, (item.PlainKeys → Reads (parseValue depth) item item.serialize) ∧
          (¬ item.PlainKeys → Misreads (parseValue depth) item item.serialize) := by
        intro item member
        have listed : item.serialize ∈ items.map serialize := List.mem_map_of_mem member
        have inside := length_le_of_mem_joined listed
        rw [serialize_array, serializeItems_eq, List.length_cons, List.length_append] at deep
        exact hypothesis item member (wholes item member) (by omega)
      refine ⟨fun plain rest _ => ?_, fun special rest read after done => ?_⟩
      · rw [parseValue_array, (parseSequence_elements closes_array starts each).1 (holds_array.mp plain)]
        rfl
      · rw [parseValue_array, Except.map_eq_ok] at done
        obtain ⟨⟨items', last⟩, found, same⟩ := done
        obtain ⟨rfl, rfl⟩ := Prod.mk.inj same
        have other := (parseSequence_elements closes_array starts each).2 (special ∘ holds_array.mpr) _ _ found
        exact fun same => other (JsonValue.array.inj same)
  | object entries hypothesis =>
      obtain ⟨depth, rfl⟩ := exists_depth whole deep
      have wholes := holds_object.mp whole
      have starts : ∀ entry ∈ entries, Starts '\x7d' (entryText entry) := fun entry _ => entryText_starts entry
      have each : ∀ entry ∈ entries,
          (PlainKey entry.1 ∧ entry.2.PlainKeys → Reads (parseEntry (parseValue depth)) entry (entryText entry)) ∧
          (¬ (PlainKey entry.1 ∧ entry.2.PlainKeys) →
            Misreads (parseEntry (parseValue depth)) entry (entryText entry)) := by
        intro entry member
        have listed : entryText entry ∈ entries.map entryText := List.mem_map_of_mem member
        have inside := length_le_of_mem_joined listed
        rw [entryText, List.length_cons, List.length_append, List.length_cons, List.length_cons] at inside
        rw [serialize_object, serializeEntries_eq, List.length_cons, List.length_append] at deep
        have value := @hypothesis entry member depth (wholes entry member).2 (by omega)
        refine ⟨fun plain => parseEntry_reads plain.1 (value.1 plain.2), fun special => ?_⟩
        by_cases plain : PlainKey entry.1
        · exact parseEntry_misreads plain (value.2 fun plains => special ⟨plain, plains⟩)
        · exact parseEntry_misreads_key plain
      refine ⟨fun plain rest _ => ?_, fun special rest read after done => ?_⟩
      · rw [parseValue_object, (parseSequence_elements closes_object starts each).1 (holds_object.mp plain)]
        rfl
      · rw [parseValue_object, Except.map_eq_ok] at done
        obtain ⟨⟨entries', last⟩, found, same⟩ := done
        obtain ⟨rfl, rfl⟩ := Prod.mk.inj same
        have other := (parseSequence_elements closes_object starts each).2 (special ∘ holds_object.mpr) _ _ found
        exact fun same => other (JsonValue.object.inj same)

end Values

end Temnion.Mcp
