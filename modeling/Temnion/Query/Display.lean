import Temnion.Query.Boundary

/-
This file writes scalar expressions as texts and says which tokens the tokenizer finds there.
-/

namespace Temnion.Query

/-- The decimal texts of the numbers of the type `f64`. -/
class Binary64.Display [Binary64] where
  display : Binary64.Carrier → Text

/-- Numbers that are not written at all. -/
@[reducible] def Binary64.Display.blank [Binary64] : Binary64.Display where
  display _ := []

variable [Binary64]

/-- A string is written as it is between two quotes. -/
def Literal.display [Binary64.Display] : Literal → Text
  | .int value => Text.signed value.toInt
  | .float value => Binary64.Display.display value
  | .string value => '"' :: (value ++ ['"'])
  | .bool value => if value then "true".toList else "false".toList

def BinaryOp.display : BinaryOp → Text
  | .eq => "==".toList
  | .notEq => "!=".toList
  | .lt => "<".toList
  | .lte => "<=".toList
  | .gt => ">".toList
  | .gte => ">=".toList
  | .and => "AND".toList
  | .or => "OR".toList

namespace Expr

def display [Binary64.Display] : Expr → Text
  | .literal value => value.display
  | .field name => name
  | .not inner => "NOT".toList ++ '(' :: (display inner ++ [')'])
  | .binary op left right =>
      '(' :: (display left ++ ' ' :: (op.display ++ ' ' :: (display right ++ [')'])))

end Expr

/-- The token that stands for a literal. -/
def Literal.token : Literal → ExprToken
  | .int value => .int value
  | .float value => .float value
  | .string value => .stringLit value
  | .bool value => .bool value

namespace Expr

/-- The tokens of an expression with parentheses around every operator. -/
def tokens : Expr → List ExprToken
  | .literal value => [value.token]
  | .field name => [.ident name]
  | .not inner => .not :: .lparen :: (tokens inner ++ [.rparen])
  | .binary op left right => .lparen :: (tokens left ++ .op op :: (tokens right ++ [.rparen]))

/-- The literals and the fields of an expression from left to right. -/
def leaves : Expr → List ExprToken
  | .literal value => [value.token]
  | .field name => [.ident name]
  | .not inner => leaves inner
  | .binary _ left right => leaves left ++ leaves right

/-- Some string of the expression contains a double quote. -/
def Quoted (expr : Expr) : Prop := ∃ text, .stringLit text ∈ expr.leaves ∧ '"' ∈ text

theorem quoted_binary {op : BinaryOp} {left right : Expr} :
    (Expr.binary op left right).Quoted ↔ left.Quoted ∨ right.Quoted := by
  constructor
  · rintro ⟨text, member, quote⟩
    exact (List.mem_append.mp member).imp (fun here => ⟨text, here, quote⟩) fun here => ⟨text, here, quote⟩
  · rintro (⟨text, member, quote⟩ | ⟨text, member, quote⟩)
    · exact ⟨text, List.mem_append_left _ member, quote⟩
    · exact ⟨text, List.mem_append_right _ member, quote⟩

end Expr

/-- The token is a literal or a field. -/
def ExprToken.isLeaf : ExprToken → Bool
  | .ident _ | .int _ | .float _ | .stringLit _ | .bool _ => true
  | .op _ | .not | .lparen | .rparen => false

theorem Literal.token_isLeaf (value : Literal) : value.token.isLeaf = true := by cases value <;> rfl

/-- The leaves of an expression are the leaves among its tokens. -/
theorem Expr.tokens_leaves (expr : Expr) : expr.tokens.filter ExprToken.isLeaf = expr.leaves := by
  induction expr with
  | literal value =>
      rw [tokens, List.filter_cons_of_pos value.token_isLeaf]
      rfl
  | field name => rfl
  | not inner hypothesis =>
      rw [tokens, List.filter_cons_of_neg Bool.false_ne_true, List.filter_cons_of_neg Bool.false_ne_true,
        List.filter_append, hypothesis, leaves]
      exact List.append_nil _
  | binary op left right first second =>
      rw [tokens, List.filter_cons_of_neg Bool.false_ne_true, List.filter_append,
        List.filter_cons_of_neg Bool.false_ne_true,
        List.filter_append, first, second, leaves]
      exact congrArg (left.leaves ++ ·) (List.append_nil _)

section Tokens

variable [Unicode]

/-- The text is one word. -/
def IsWord (word : Text) : Prop :=
  ∃ first rest, word = first :: rest ∧ isWordStart first = true ∧ ∀ character ∈ rest, isWordChar character = true

omit [Binary64] in
theorem toLowercase_ascii {word : Text} (ascii : ∀ character ∈ word, character.toNat < 128) :
    Unicode.toLowercase word = word.map Char.toLower := by
  obtain ⟨tail, lowered, nothing⟩ := Unicode.lowercase_caseless word [] fun character member =>
    Or.inl (ascii character member)
  rw [nothing rfl, List.append_nil, List.append_nil] at lowered
  exact lowered

omit [Binary64] in
/-- No character below 128 starts a word unless it is a letter or an underscore. -/
theorem isWordStart_ne {first other : Char} (start : isWordStart first = true) (ascii : other.toNat < 128)
    (plain : other.isAlpha = false) (special : other ≠ '_') : first ≠ other := by
  rintro rfl
  rw [isWordStart, Unicode.alphabetic_ascii first ascii, plain, beq_eq_false_iff_ne.mpr special] at start
  contradiction

omit [Binary64] in
theorem isWordStart_not_whitespace {first : Char} (start : isWordStart first = true) :
    Text.isWhitespace first = false := by
  rw [Bool.eq_false_iff]
  intro blank
  have plain := Unicode.whitespace_not_alphanumeric first blank
  rw [isWordStart, Bool.or_eq_true] at start
  rcases start with alphabetic | under
  · rw [Unicode.alphabetic_alphanumeric first alphabetic] at plain
    contradiction
  · rw [beq_iff_eq.mp under] at blank
    exact absurd blank (by decide)

omit [Binary64] [Unicode] in
theorem isDigit_bounds {digit : Char} (plain : digit.isDigit = true) : 48 ≤ digit.toNat ∧ digit.toNat ≤ 57 := by
  rw [Char.isDigit, Bool.and_eq_true, decide_eq_true_eq, decide_eq_true_eq] at plain
  exact plain

omit [Binary64] in
theorem isWordStart_not_digit {first : Char} (start : isWordStart first = true) : first.isDigit = false := by
  rw [Bool.eq_false_iff]
  intro digit
  obtain ⟨lower, upper⟩ := isDigit_bounds digit
  refine isWordStart_ne start (by omega) ?_ ?_ rfl
  · simp only [Char.isAlpha, Char.isUpper, Char.isLower, Bool.or_eq_false_iff, Bool.and_eq_false_iff,
      decide_eq_false_iff_not, ge_iff_le, UInt32.le_iff_toNat_le]
    have same : first.toNat = first.val.toNat := rfl
    simp
    omega
  · rintro rfl
    exact absurd digit (by decide)

/-- The characters that stand for themselves or open a string. -/
def marks : Text := ['(', ')', '!', '=', '<', '>', '&', '|', '\'', '"']

/-- Every other visible character starts a number or a word. -/
theorem nextToken_plain {first : Char} (visible : Text.isWhitespace first = false) (plain : first ∉ marks)
    (rest : Text) : nextToken first rest =
      if first.isDigit then
        (numberToken (first :: (takeNumber false rest).1) (takeNumber false rest).2).map fun token =>
          (some token, (takeNumber false rest).1.length)
      else if isWordStart first then
        .ok (some (wordToken (first :: rest.takeWhile isWordChar)), (rest.takeWhile isWordChar).length)
      else .error (.unexpectedCharacter first) := by
  simp only [marks, List.mem_cons, List.not_mem_nil, or_false, not_or] at plain
  obtain ⟨c0, c1, c2, c3, c4, c5, c6, c7, c8, c9⟩ := plain
  rw [nextToken, visible, if_neg Bool.false_ne_true, if_neg c0, if_neg c1, if_neg c2, if_neg c3, if_neg c4, if_neg c5,
    if_neg fun both => c6 both.1, if_neg fun both => c7 both.1, if_neg fun either => either.elim c8 c9]
  dsimp only
  congr 1
  cases numberToken (first :: (takeNumber false rest).1) (takeNumber false rest).2 with
  | ok token => rfl
  | error error => rfl

/-- A word runs as far as its characters go. -/
theorem nextToken_word {first : Char} (start : isWordStart first = true) (rest : Text) : nextToken first rest =
    .ok (some (wordToken (first :: rest.takeWhile isWordChar)), (rest.takeWhile isWordChar).length) := by
  have plain : first ∉ marks := by
    intro member
    have ascii : marks.all fun mark => mark.toNat < 128 && !mark.isAlpha && mark != '_' := by decide
    have here := List.all_eq_true.mp ascii first member
    simp only [Bool.and_eq_true, decide_eq_true_eq, Bool.not_eq_true', bne_iff_ne] at here
    exact isWordStart_ne start here.1.1 here.1.2 here.2 rfl
  rw [nextToken_plain (isWordStart_not_whitespace start) plain, isWordStart_not_digit start,
    if_neg Bool.false_ne_true, if_pos start]

theorem tokensFrom_drop (skipped : Nat) (text : Text) : tokensFrom skipped text = tokensFrom 0 (text.drop skipped) := by
  induction skipped generalizing text with
  | zero => rfl
  | succ skipped hypothesis =>
      cases text with
      | nil => rw [tokensFrom, List.drop_nil, tokensFrom]
      | cons character rest => exact hypothesis rest

/-- The tokens of a text are its first token and those of what follows. -/
theorem tokensFrom_next {character : Char} {rest : Text} {token : ExprToken} {consumed : Nat}
    (next : nextToken character rest = .ok (some token, consumed)) :
    tokensFrom 0 (character :: rest) = (tokensFrom 0 (rest.drop consumed)).map (token :: ·) := by
  rw [tokensFrom, next, ← tokensFrom_drop]
  change (tokensFrom consumed rest >>= _) = _
  cases tokensFrom consumed rest with
  | error error => rfl
  | ok tokens => rfl

theorem tokensFrom_word {word : Text} (spelled : IsWord word) : tokensFrom 0 word = .ok [wordToken word] := by
  obtain ⟨first, rest, rfl, start, inside⟩ := spelled
  have next := nextToken_word start rest
  rw [List.takeWhile_eq_self_iff.mpr inside] at next
  rw [tokensFrom_next next, List.drop_length]
  rfl

/-- The tokens of a text that is followed by another one at a boundary. -/
theorem tokensFrom_front {front text : Text} {tokens : List ExprToken} (breaks : Breaks text)
    (read : tokensFrom 0 front = .ok tokens) :
    tokensFrom 0 (front ++ text) = (tokensFrom 0 text).map (tokens ++ ·) := by
  rw [tokensFrom_append breaks (Nat.zero_le _) (Or.inl (by rw [read]; exact nofun)), read]
  change (tokensFrom 0 text >>= _) = _
  cases tokensFrom 0 text with
  | error error => rfl
  | ok more => rfl

/-- The tokens of a number without sign. -/
theorem tokensFrom_decimal {number : Nat} (below : number < 2 ^ 63) :
    tokensFrom 0 (Text.decimal number) = .ok [.int (Int64.ofNat number)] := by
  have value := Text.parseUnsigned_decimal below
  have plain : ∀ digit ∈ Text.decimal number, digit.isDigit = true := fun _ member => Text.isDigit_of_mem_decimal member
  cases spelled : Text.decimal number with
  | nil => exact absurd spelled Text.decimal_ne_nil
  | cons first rest =>
      rw [spelled] at value plain
      have whole : takeNumber false rest = (rest, false) := by
        have inside := fun digit member => plain digit (List.mem_cons_of_mem first member)
        clear value plain spelled
        induction rest with
        | nil => rfl
        | cons digit rest hypothesis =>
            rw [takeNumber, if_pos (inside digit List.mem_cons_self),
              hypothesis fun other member => inside other (List.mem_cons_of_mem _ member)]
      have digit := plain first List.mem_cons_self
      have next : nextToken first rest = .ok (some (.int (Int64.ofNat number)), rest.length) := by
        obtain ⟨lower, upper⟩ := isDigit_bounds digit
        have visible : Text.isWhitespace first = false := by
          simp only [Text.isWhitespace, Bool.or_eq_false_iff, decide_eq_false_iff_not, beq_eq_false_iff_ne]
          omega
        have unmarked : first ∉ marks := by
          intro member
          have others : marks.all fun mark => !mark.isDigit := by decide
          have here := List.all_eq_true.mp others first member
          rw [digit] at here
          contradiction
        rw [nextToken_plain visible unmarked, if_pos digit, whole]
        dsimp only
        rw [numberToken, if_neg Bool.false_ne_true, value]
        rfl
      rw [tokensFrom_next next, List.drop_length]
      rfl

/-- A string of the tokenizer ends at the first quote. -/
theorem nextToken_string (value rest : Text) : nextToken '"' (value ++ '"' :: rest) =
    .ok (some (.stringLit (value.takeWhile (· ≠ '"'))), (value.takeWhile (· ≠ '"')).length + 1) := by
  have stops : ∀ character ∈ ('"' :: rest).head?, decide (character ≠ '"') = false := by
    intro character same
    rw [← Option.some.inj same]
    rfl
  have within : (value.takeWhile (· ≠ '"')).length ≤ value.length := (List.takeWhile_prefix _).length_le
  rw [nextToken_quote (Or.inr rfl), takeWhile_append_of_stops stops, if_pos]
  rw [List.length_append, List.length_cons]
  omega

/-- The character is a letter below 128. -/
def isLetter (character : Char) : Bool := decide (character.toNat < 128) && character.isAlpha

/-- A word of letters gives the token of its lower-case form. -/
theorem tokensFrom_letters {word : Text} (spelled : word ≠ []) (letters : word.all isLetter = true) :
    tokensFrom 0 word = .ok [wordToken word] ∧ Unicode.toLowercase word = word.map Char.toLower := by
  have each : ∀ character ∈ word, character.toNat < 128 ∧ character.isAlpha = true := by
    intro character member
    have here := List.all_eq_true.mp letters character member
    rwa [isLetter, Bool.and_eq_true, decide_eq_true_eq] at here
  refine ⟨tokensFrom_word ?_, toLowercase_ascii fun character member => (each character member).1⟩
  cases word with
  | nil => exact absurd rfl spelled
  | cons first rest =>
      refine ⟨first, rest, rfl, ?_, ?_⟩
      · obtain ⟨ascii, letter⟩ := each first List.mem_cons_self
        rw [isWordStart, Unicode.alphabetic_ascii first ascii, letter, Bool.true_or]
      · intro character member
        obtain ⟨ascii, letter⟩ := each character (List.mem_cons_of_mem _ member)
        rw [isWordChar, Unicode.alphanumeric_ascii character ascii, Char.isAlphanum, letter]
        rfl

theorem tokensFrom_not : tokensFrom 0 "NOT".toList = .ok [.not] := by
  obtain ⟨read, lowered⟩ := @tokensFrom_letters _ _ "NOT".toList (List.cons_ne_nil _ _) rfl
  rw [read, wordToken, lowered]
  rfl

theorem tokensFrom_op (op : BinaryOp) : tokensFrom 0 op.display = .ok [.op op] := by
  cases op with
  | and =>
      obtain ⟨read, lowered⟩ := @tokensFrom_letters _ _ "AND".toList (List.cons_ne_nil _ _) rfl
      rw [BinaryOp.display, read, wordToken, lowered]
      rfl
  | or =>
      obtain ⟨read, lowered⟩ := @tokensFrom_letters _ _ "OR".toList (List.cons_ne_nil _ _) rfl
      rw [BinaryOp.display, read, wordToken, lowered]
      rfl
  | _ => rfl

theorem tokensFrom_bool [Binary64.Display] (value : Bool) :
    tokensFrom 0 (Literal.bool value).display = .ok [.bool value] := by
  cases value with
  | true =>
      obtain ⟨read, lowered⟩ := @tokensFrom_letters _ _ "true".toList (List.cons_ne_nil _ _) rfl
      rw [Literal.display, if_pos rfl, read, wordToken, lowered]
      rfl
  | false =>
      obtain ⟨read, lowered⟩ := @tokensFrom_letters _ _ "false".toList (List.cons_ne_nil _ _) rfl
      rw [Literal.display, if_neg Bool.false_ne_true, read, wordToken, lowered]
      rfl

omit [Binary64] in
/-- No word and no operator goes on with a parenthesis or a blank. -/
theorem breaks_mark {mark : Char} (special : mark ∈ ['(', ')', ' ']) (rest : Text) : Breaks (mark :: rest) := by
  intro other same
  obtain rfl := Option.some.inj same
  fin_cases special
  · exact ⟨Unicode.alphanumeric_ascii '(' (by decide), by decide⟩
  · exact ⟨Unicode.alphanumeric_ascii ')' (by decide), by decide⟩
  · exact ⟨Unicode.alphanumeric_ascii ' ' (by decide), by decide⟩

/-- What the tokenizer makes of the pieces of a text that are neither strings nor floats. -/
def Scanned : ExprToken → Prop
  | .int value => 0 ≤ value.toInt
  | .float _ => False
  | .ident name => IsWord name ∧ wordToken name = .ident name
  | _ => True

variable [Binary64.Display]

theorem tokensFrom_int {value : Int64} (natural : 0 ≤ value.toInt) :
    tokensFrom 0 (Literal.int value).display = .ok [.int value] := by
  have below : value.toInt.natAbs < 2 ^ 63 := by
    have upper := value.toInt_lt
    omega
  have same : Int64.ofNat value.toInt.natAbs = value := by
    rw [← Int64.ofInt_eq_ofNat, Int.natAbs_of_nonneg natural, Int64.ofInt_toInt]
  rw [Literal.display, Text.signed, if_neg (Int.not_lt.mpr natural), tokensFrom_decimal below, same]

/-- A literal is read back as it was written. -/
theorem tokensFrom_literal {value : Literal} (scanned : Scanned value.token)
    (plain : ∀ text, value = .string text → '"' ∉ text) : tokensFrom 0 value.display = .ok [value.token] := by
  cases value with
  | int value => exact tokensFrom_int scanned
  | float value => exact scanned.elim
  | bool value => exact tokensFrom_bool value
  | string value =>
      have whole : value.takeWhile (· ≠ '"') = value := by
        rw [List.takeWhile_eq_self_iff]
        intro character member
        exact decide_eq_true fun same => plain value rfl (same ▸ member)
      have next := nextToken_string value []
      rw [whole] at next
      rw [Literal.display, tokensFrom_next next, List.drop_of_length_le (by rw [List.length_append]; exact le_refl _)]
      rfl

theorem tokensFrom_display_not (inner : Expr) (rest : Text) : tokensFrom 0 ((Expr.not inner).display ++ rest) =
    (tokensFrom 0 (inner.display ++ ')' :: rest)).map fun tokens => .not :: .lparen :: tokens := by
  have shape : (Expr.not inner).display ++ rest = "NOT".toList ++ '(' :: (inner.display ++ ')' :: rest) := by
    rw [Expr.display, List.append_assoc, List.cons_append, List.append_assoc]
    rfl
  rw [shape, tokensFrom_front (breaks_mark List.mem_cons_self _) tokensFrom_not, tokensFrom_next rfl]
  change Except.map _ (Except.map _ (tokensFrom 0 (inner.display ++ ')' :: rest))) = _
  cases tokensFrom 0 (inner.display ++ ')' :: rest) with
  | error error => rfl
  | ok tokens => rfl

theorem tokensFrom_display_binary (op : BinaryOp) (left right : Expr) (rest : Text) :
    tokensFrom 0 ((Expr.binary op left right).display ++ rest) =
      (tokensFrom 0 (left.display ++ ' ' :: (op.display ++ ' ' :: (right.display ++ ')' :: rest)))).map
        fun tokens => .lparen :: tokens := by
  have shape : (Expr.binary op left right).display ++ rest =
      '(' :: (left.display ++ ' ' :: (op.display ++ ' ' :: (right.display ++ ')' :: rest))) := by
    rw [Expr.display]
    simp only [List.cons_append, List.append_assoc, List.nil_append]
  rw [shape, tokensFrom_next rfl]
  rfl

omit [Binary64.Display] in
theorem tokensFrom_operator (op : BinaryOp) (rest : Text) :
    tokensFrom 0 (' ' :: (op.display ++ ' ' :: rest)) = (tokensFrom 0 rest).map fun tokens => .op op :: tokens := by
  rw [tokensFrom_blank rfl, tokensFrom_front (breaks_mark (by decide) _) (tokensFrom_op op), tokensFrom_blank rfl]
  rfl

/-- An expression without quotes in its strings gives its own tokens. -/
theorem tokensFrom_display {expr : Expr} (scanned : ∀ leaf ∈ expr.leaves, Scanned leaf)
    (plain : ¬ expr.Quoted) : tokensFrom 0 expr.display = .ok expr.tokens := by
  induction expr with
  | literal value =>
      refine tokensFrom_literal (scanned _ List.mem_cons_self) ?_
      rintro text rfl quote
      exact plain ⟨text, List.mem_cons_self, quote⟩
  | field name =>
      obtain ⟨spelled, keyword⟩ := scanned (.ident name) List.mem_cons_self
      rw [Expr.display, tokensFrom_word spelled, keyword]
      rfl
  | not inner hypothesis =>
      have read := tokensFrom_display_not inner []
      rw [List.append_nil, tokensFrom_front (breaks_mark (by decide) _) (hypothesis scanned plain)] at read
      exact read
  | binary op left right first second =>
      rw [Expr.quoted_binary, not_or] at plain
      have one := first (fun leaf member => scanned leaf (List.mem_append_left _ member)) plain.1
      have two := second (fun leaf member => scanned leaf (List.mem_append_right _ member)) plain.2
      have read := tokensFrom_display_binary op left right []
      rw [List.append_nil, tokensFrom_front (breaks_mark (by decide) _) one, tokensFrom_operator,
        tokensFrom_front (breaks_mark (by decide) _) two] at read
      exact read

/-- A quote in a string changes the literals that the tokenizer finds, whatever follows. -/
theorem tokensFrom_display_quoted {expr : Expr} (scanned : ∀ leaf ∈ expr.leaves, Scanned leaf)
    (quoted : expr.Quoted) {rest : Text} {tokens : List ExprToken} (read : tokensFrom 0 (expr.display ++ rest) = .ok tokens) (more : List ExprToken) :
    tokens.filter ExprToken.isLeaf ≠ expr.leaves ++ more := by
  induction expr generalizing rest tokens more with
  | literal value =>
      obtain ⟨text, inside, quote⟩ := quoted
      have shown := List.mem_singleton.mp inside
      obtain rfl : value = .string text := by
        cases value with
        | string value => rw [ExprToken.stringLit.inj shown]
        | _ => contradiction
      have shape : (Expr.literal (.string text)).display ++ rest = '"' :: (text ++ '"' :: rest) := by
        rw [Expr.display, Literal.display, List.cons_append, List.append_assoc]
        rfl
      rw [shape, tokensFrom_next (nextToken_string text rest)] at read
      obtain ⟨others, -, rfl⟩ := Except.map_eq_ok.mp read
      intro same
      have front := (List.cons.inj same).1
      have whole := List.takeWhile_eq_self_iff.mp (ExprToken.stringLit.inj front)
      exact of_decide_eq_true (whole '"' quote) rfl
  | field name =>
      obtain ⟨text, inside, -⟩ := quoted
      exact absurd (List.mem_singleton.mp inside) nofun
  | not inner hypothesis =>
      rw [tokensFrom_display_not] at read
      obtain ⟨others, there, rfl⟩ := Except.map_eq_ok.mp read
      exact hypothesis scanned quoted there more
  | binary op left right first second =>
      rw [tokensFrom_display_binary] at read
      obtain ⟨others, there, rfl⟩ := Except.map_eq_ok.mp read
      have scannedLeft := fun leaf member => scanned leaf (List.mem_append_left right.leaves member)
      have scannedRight := fun leaf member => scanned leaf (List.mem_append_right left.leaves member)
      change others.filter _ ≠ (left.leaves ++ right.leaves) ++ more
      rw [List.append_assoc]
      by_cases marked : left.Quoted
      · exact first scannedLeft marked there (right.leaves ++ more)
      · rw [tokensFrom_front (breaks_mark (by decide) _) (tokensFrom_display scannedLeft marked),
          tokensFrom_operator] at there
        obtain ⟨behind, operator, rfl⟩ := Except.map_eq_ok.mp there
        obtain ⟨last, final, rfl⟩ := Except.map_eq_ok.mp operator
        rw [List.filter_append, Expr.tokens_leaves, List.filter_cons_of_neg Bool.false_ne_true, ne_eq,
          List.append_cancel_left_eq]
        exact second scannedRight ((Expr.quoted_binary.mp quoted).resolve_left marked) final more

end Tokens

end Temnion.Query
