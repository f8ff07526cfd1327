import Temnion.Query.Syntax
import Temnion.Library.Fallible

/-
This file says what reading the front of a text tells about reading the whole text.
-/

namespace Temnion.Query

section Boundary

variable [Unicode]

/-- No token of a text in front goes on ended the first character of this one. -/
def Breaks (text : Text) : Prop :=
  ∀ character ∈ text.head?, Unicode.isAlphanumeric character = false ∧
    character ∉ ['_', '.', '=', '>', '&', '|']

/-- The text closes no string. -/
def Unquoted (text : Text) : Prop := ∀ character ∈ text, character ≠ '\'' ∧ character ≠ '"'

theorem Breaks.nil : Breaks [] := nofun

theorem breaks_of_whitespace {character : Char} {rest : Text} (blank : Text.isWhitespace character) :
    Breaks (character :: rest) := by
  intro other same
  obtain rfl := Option.some.inj same
  refine ⟨Unicode.whitespace_not_alphanumeric _ blank, ?_⟩
  intro special
  fin_cases special <;> exact absurd blank (by decide)

theorem isDigit_alphanumeric {character : Char} (digit : character.isDigit) :
    Unicode.isAlphanumeric character = true := by
  have bounds := digit
  rw [Char.isDigit, Bool.and_eq_true, decide_eq_true_eq, decide_eq_true_eq] at bounds
  have code : character.toNat < 128 := by
    have upper : character.val.toNat ≤ 57 := bounds.2
    exact upper.trans_lt (by decide)
  rw [Unicode.alphanumeric_ascii _ code, Char.isAlphanum, digit, Bool.or_true]

theorem Breaks.head_ne {text : Text} {character : Char} (breaks : Breaks text)
    (special : character ∈ ['_', '.', '=', '>', '&', '|']) : text.head? ≠ some character :=
  fun same => (breaks character same).2 special

/-- The head of a text decides as before whether it is one of the characters that go on. -/
theorem Breaks.head_append {text : Text} {character : Char} (breaks : Breaks text)
    (special : character ∈ ['_', '.', '=', '>', '&', '|']) (rest : Text) :
    (rest ++ text).head? = some character ↔ rest.head? = some character := by
  cases rest with
  | nil => exact ⟨fun same => absurd same (breaks.head_ne special), fun absent => nomatch absent⟩
  | cons head rest => rfl

omit [Unicode] in
theorem takeWhile_append_of_stops {A : Type} {wanted : A → Bool} {items more : List A}
    (stops : ∀ item ∈ more.head?, wanted item = false) : (items ++ more).takeWhile wanted = items.takeWhile wanted := by
  have nothing : more.takeWhile wanted = [] := by
    cases more with
    | nil => rfl
    | cons item more => rw [List.takeWhile_cons_of_neg]; rw [stops item rfl]; decide
  rw [List.takeWhile_append, nothing, List.append_nil]
  split
  · next whole => exact ((List.takeWhile_prefix wanted).eq_of_length whole).symm
  · rfl

theorem Breaks.not_word {text : Text} (breaks : Breaks text) : ∀ character ∈ text.head?, isWordChar character = false := by
  intro character same
  obtain ⟨plain, special⟩ := breaks character same
  simp only [List.mem_cons, not_or] at special
  rw [isWordChar, plain, beq_eq_false_iff_ne.mpr special.1, beq_eq_false_iff_ne.mpr special.2.1]
  rfl

theorem Breaks.takeNumber_append {text : Text} (breaks : Breaks text) (hasDot : Bool) (rest : Text) :
    takeNumber hasDot (rest ++ text) = takeNumber hasDot rest := by
  induction rest generalizing hasDot with
  | nil =>
      cases text with
      | nil => rfl
      | cons character text =>
          obtain ⟨plain, special⟩ := breaks character rfl
          have digit : ¬ character.isDigit = true := fun digit => by
            rw [isDigit_alphanumeric digit] at plain
            contradiction
          have dot : character ≠ '.' := fun same => special (by rw [same]; decide)
          have stop : takeNumber hasDot [] = ([], hasDot) := rfl
          rw [stop, List.nil_append, takeNumber, if_neg digit, if_neg fun both => dot both.1]
  | cons head rest hypothesis =>
      rw [List.cons_append, takeNumber, takeNumber, hypothesis, hypothesis]

end Boundary

section Tokens

variable [Binary64] [Unicode]

/-- A string runs up to the next occurrence of its own quote. -/
theorem nextToken_quote {character : Char} {rest : Text} (quote : character = '\'' ∨ character = '"') :
    nextToken character rest =
      if (rest.takeWhile (· ≠ character)).length < rest.length then
        .ok (some (.stringLit (rest.takeWhile (· ≠ character))), (rest.takeWhile (· ≠ character)).length + 1)
      else .error .unterminatedString := by
  rcases quote with rfl | rfl <;> rfl

/-- The token at the front stays the same when a text that breaks follows. -/
theorem nextToken_append {character : Char} {rest text : Text} (breaks : Breaks text)
    (closed : nextToken character rest ≠ .error .unterminatedString ∨ Unquoted text) :
    nextToken character (rest ++ text) = nextToken character rest := by
  by_cases quote : character = '\'' ∨ character = '"'
  · rw [nextToken_quote quote] at closed ⊢
    rw [nextToken_quote quote]
    by_cases ends : (rest.takeWhile (· ≠ character)).length < rest.length
    · have same : (rest ++ text).takeWhile (· ≠ character) = rest.takeWhile (· ≠ character) := by
        rw [List.takeWhile_append, if_neg ends.ne]
      rw [same, if_pos ends, if_pos]
      rw [List.length_append]
      exact ends.trans_le (Nat.le_add_right _ _)
    · rw [if_neg ends] at closed ⊢
      have unquoted := closed.resolve_left fun refused => refused rfl
      have whole : rest.takeWhile (· ≠ character) = rest :=
        (List.takeWhile_prefix _).eq_of_length
          (le_antisymm (List.takeWhile_prefix _).length_le (Nat.not_lt.mp ends))
      have others : text.takeWhile (· ≠ character) = text := by
        rw [List.takeWhile_eq_self_iff]
        intro other member
        obtain ⟨single, double⟩ := unquoted other member
        rcases quote with rfl | rfl
        · exact decide_eq_true single
        · exact decide_eq_true double
      rw [List.takeWhile_append, whole, if_pos rfl, others, if_neg (Nat.lt_irrefl _)]
  · have eq : (rest ++ text).head? = some '=' ↔ _ := breaks.head_append (by decide) rest
    have gt : (rest ++ text).head? = some '>' ↔ _ := breaks.head_append (by decide) rest
    have amp : (rest ++ text).head? = some '&' ↔ _ := breaks.head_append (by decide) rest
    have bar : (rest ++ text).head? = some '|' ↔ _ := breaks.head_append (by decide) rest
    unfold nextToken
    simp only [eq, gt, amp, bar, breaks.takeNumber_append, takeWhile_append_of_stops breaks.not_word, if_neg quote]

omit [Binary64] [Unicode] in
theorem takeNumber_length (hasDot : Bool) (rest : Text) : (takeNumber hasDot rest).1.length ≤ rest.length := by
  induction rest generalizing hasDot with
  | nil => exact le_refl _
  | cons head rest hypothesis =>
      rw [takeNumber]
      split
      · exact Nat.succ_le_succ (hypothesis hasDot)
      · split
        · exact Nat.succ_le_succ (hypothesis true)
        · exact Nat.zero_le _

/-- The token takes at most so many characters behind its first. -/
def Takes (length : Nat) (outcome : Except ParseError (Option ExprToken × Nat)) : Prop :=
  ∀ token consumed, outcome = .ok (token, consumed) → consumed ≤ length

omit [Unicode] in
theorem Takes.ite {length : Nat} {condition : Prop} [Decidable condition]
    {first second : Except ParseError (Option ExprToken × Nat)} (holds : condition → Takes length first)
    (fails : Takes length second) : Takes length (if condition then first else second) := by
  split
  · next here => exact holds here
  · exact fails

omit [Unicode] in
theorem Takes.ok {length consumed : Nat} {token : Option ExprToken} (within : consumed ≤ length) :
    Takes length (.ok (token, consumed)) := by
  intro other taken same
  obtain ⟨-, rfl⟩ := Prod.mk.inj (Except.ok.inj same)
  exact within

omit [Unicode] in
theorem Takes.error {length : Nat} {error : ParseError} : Takes length (.error error) := nofun

/-- A token takes only characters that are there. -/
theorem nextToken_takes (character : Char) (rest : Text) : Takes rest.length (nextToken character rest) := by
  have one : ∀ {other : Char}, rest.head? = some other → 1 ≤ rest.length := by
    intro other here
    cases rest with
    | nil => contradiction
    | cons head rest => exact Nat.succ_le_succ (Nat.zero_le _)
  have zero : ∀ token, Takes rest.length (.ok (token, 0)) := fun token => .ok (Nat.zero_le _)
  unfold nextToken
  apply Takes.ite fun _ => zero _
  apply Takes.ite fun _ => zero _
  apply Takes.ite fun _ => zero _
  apply Takes.ite fun _ => .ite (fun here => .ok (one here)) (zero _)
  apply Takes.ite fun _ => .ite (fun here => .ok (one here)) (zero _)
  apply Takes.ite fun _ => .ite (fun here => .ok (one here)) (.ite (fun here => .ok (one here)) (zero _))
  apply Takes.ite fun _ => .ite (fun here => .ok (one here)) (zero _)
  apply Takes.ite fun here => .ok (one here.2)
  apply Takes.ite fun here => .ok (one here.2)
  apply Takes.ite fun _ => .ite (fun here => .ok here) .error
  apply Takes.ite
  · intro _
    dsimp only
    cases numberToken (character :: (takeNumber false rest).1) (takeNumber false rest).2 with
    | ok token => exact .ok (takeNumber_length false rest)
    | error error => exact .error
  · exact .ite (fun _ => .ok (List.takeWhile_prefix _).length_le) .error

/-- Reading on behind a text gives its tokens and then those of what follows. -/
theorem tokensFrom_append {front text : Text} {skipped : Nat} (breaks : Breaks text) (inside : skipped ≤ front.length)
    (closed : tokensFrom skipped front ≠ .error .unterminatedString ∨ Unquoted text) :
    tokensFrom skipped (front ++ text) = do
      let first ← tokensFrom skipped front
      let second ← tokensFrom 0 text
      return first ++ second := by
  induction front generalizing skipped with
  | nil =>
      obtain rfl : skipped = 0 := Nat.le_zero.mp inside
      change tokensFrom 0 text = _
      cases tokensFrom 0 text with
      | error error => rfl
      | ok tokens => rfl
  | cons character rest hypothesis =>
      cases skipped with
      | succ skipped =>
          change tokensFrom skipped (rest ++ text) = _
          exact hypothesis (Nat.le_of_succ_le_succ inside) closed
      | zero =>
          have closing : nextToken character rest ≠ .error .unterminatedString ∨ Unquoted text := by
            refine closed.imp_left fun read refused => read ?_
            rw [tokensFrom, refused]
            rfl
          rw [List.cons_append, tokensFrom, tokensFrom, nextToken_append breaks closing]
          cases next : nextToken character rest with
          | error error => rfl
          | ok step =>
              obtain ⟨token, consumed⟩ := step
              have within := nextToken_takes character rest token consumed next
              have later : tokensFrom consumed rest ≠ .error .unterminatedString ∨ Unquoted text := by
                refine closed.imp_left fun read refused => read ?_
                rw [tokensFrom, next]
                change (tokensFrom consumed rest >>= _) = _
                rw [refused]
                rfl
              change (tokensFrom consumed (rest ++ text) >>= _) = _
              rw [hypothesis within later]
              change _ = ((tokensFrom consumed rest >>= _) >>= _)
              cases tokensFrom consumed rest with
              | error error => rfl
              | ok tokens =>
                  change ((tokensFrom 0 text >>= _) >>= _) = (tokensFrom 0 text >>= _)
                  cases tokensFrom 0 text with
                  | error error => rfl
                  | ok more => exact congrArg Except.ok (List.append_assoc _ _ _).symm

theorem tokensFrom_blank {character : Char} {rest : Text} (blank : Text.isWhitespace character) :
    tokensFrom 0 (character :: rest) = tokensFrom 0 rest := by
  rw [tokensFrom, nextToken, if_pos blank]
  change (tokensFrom 0 rest >>= _) = _
  cases tokensFrom 0 rest with
  | error error => rfl
  | ok tokens => rfl

/-- White space in front of a text does not matter. -/
theorem tokenizeExpr_blanks {blanks : Text} (blank : ∀ character ∈ blanks, Text.isWhitespace character = true)
    (rest : Text) : tokenizeExpr (blanks ++ rest) = tokenizeExpr rest := by
  induction blanks with
  | nil => rfl
  | cons character blanks hypothesis =>
      rw [tokenizeExpr, List.cons_append, tokensFrom_blank (blank character List.mem_cons_self)]
      exact hypothesis fun other member => blank other (List.mem_cons_of_mem _ member)

/-- White space behind a text does not matter. -/
theorem tokenizeExpr_append_blanks {blanks : Text}
    (blank : ∀ character ∈ blanks, Text.isWhitespace character = true) (text : Text) :
    tokenizeExpr (text ++ blanks) = tokenizeExpr text := by
  have breaks : Breaks blanks := by
    cases blanks with
    | nil => exact Breaks.nil
    | cons character blanks => exact breaks_of_whitespace (blank character List.mem_cons_self)
  have unquoted : Unquoted blanks := by
    intro character member
    have here := blank character member
    constructor <;> rintro rfl <;> exact absurd here (by decide)
  have nothing : tokensFrom 0 blanks = .ok [] := by
    have read := tokenizeExpr_blanks blank []
    rw [List.append_nil] at read
    exact read
  rw [tokenizeExpr, tokensFrom_append breaks (Nat.zero_le _) (Or.inr unquoted), nothing, ← tokenizeExpr]
  cases tokenizeExpr text with
  | error error => rfl
  | ok tokens => exact congrArg Except.ok (List.append_nil _)

end Tokens

section Descent

variable [Binary64] {op : BinaryOp} {operand operand' nested nested' : Parser} {more : List ExprToken}

/-- The parser takes at least one token. -/
def Shrinks (parser : Parser) : Prop :=
  ∀ tokens expr after, parser tokens = .ok (expr, after) → after.length < tokens.length

theorem Shrinks.primary (shrinks : Shrinks nested) : Shrinks (parsePrimaryExpr nested) := by
  intro tokens expr after read
  cases tokens with
  | nil => contradiction
  | cons token rest =>
      cases token with
      | lparen =>
          obtain ⟨⟨inner, left⟩, inside, closing⟩ := Except.bind_eq_ok.mp read
          have shorter := shrinks rest inner left inside
          cases left with
          | nil => contradiction
          | cons token left =>
              cases token with
              | rparen =>
                  obtain ⟨-, rfl⟩ := Prod.mk.inj (Except.ok.inj closing)
                  exact (Nat.lt_succ_self _).trans (shorter.trans (Nat.lt_succ_self _))
              | _ => contradiction
      | op op => contradiction
      | not => contradiction
      | rparen => contradiction
      | _ =>
          obtain ⟨-, rfl⟩ := Prod.mk.inj (Except.ok.inj read)
          exact Nat.lt_succ_self _

theorem parseUnaryExpr_not (nested : Parser) (rest : List ExprToken) : parseUnaryExpr nested (.not :: rest) = do
    let (inner, after) ← parseUnaryExpr nested rest
    return (.not inner, after) := by rw [parseUnaryExpr]

theorem parseUnaryExpr_other {tokens : List ExprToken} (other : tokens.head? ≠ some .not) (nested : Parser) :
    parseUnaryExpr nested tokens = parsePrimaryExpr nested tokens := by
  cases tokens with
  | nil => rw [parseUnaryExpr]; exact nofun
  | cons token rest =>
      rw [parseUnaryExpr]
      rintro more same
      exact other (by rw [same]; rfl)

theorem Shrinks.unary (shrinks : Shrinks nested) : Shrinks (parseUnaryExpr nested) := by
  intro tokens
  induction tokens with
  | nil =>
      intro expr after read
      have other : ([] : List ExprToken).head? ≠ some .not := (Option.some_ne_none _).symm
      rw [parseUnaryExpr_other other] at read
      exact shrinks.primary [] expr after read
  | cons token rest hypothesis =>
      intro expr after read
      by_cases not : token = .not
      · subst not
        rw [parseUnaryExpr_not] at read
        obtain ⟨⟨inner, left⟩, inside, same⟩ := Except.bind_eq_ok.mp read
        obtain ⟨-, rfl⟩ := Prod.mk.inj (Except.ok.inj same)
        exact (hypothesis inner left inside).trans (Nat.lt_succ_self _)
      · have other : (token :: rest).head? ≠ some .not := fun same => not (Option.some.inj same)
        rw [parseUnaryExpr_other other] at read
        exact shrinks.primary _ expr after read

/-- What the comparison level reads: one operand, or two with a comparison between them. -/
theorem parseCmpExpr_ok {tokens after : List ExprToken} {expr : Expr} :
    parseCmpExpr nested tokens = .ok (expr, after) ↔
      (parseUnaryExpr nested tokens = .ok (expr, after) ∧
        ∀ op, after.head? = some (.op op) → op = .and ∨ op = .or) ∨
      ∃ op left right rest, (op ≠ .and ∧ op ≠ .or) ∧ expr = .binary op left right ∧
        parseUnaryExpr nested tokens = .ok (left, .op op :: rest) ∧
        parseUnaryExpr nested rest = .ok (right, after) := by
  unfold parseCmpExpr
  constructor
  · intro read
    obtain ⟨⟨left, middle⟩, first, second⟩ := Except.bind_eq_ok.mp read
    dsimp only at second
    split at second
    · next op rest =>
        split at second
        · next comparison =>
            obtain ⟨⟨right, last⟩, operand, same⟩ := Except.bind_eq_ok.mp second
            obtain ⟨rfl, rfl⟩ := Prod.mk.inj (Except.ok.inj same)
            exact Or.inr ⟨op, left, right, rest, comparison, rfl, first, operand⟩
        · next connective =>
            obtain ⟨rfl, rfl⟩ := Prod.mk.inj (Except.ok.inj second)
            refine Or.inl ⟨first, fun other same => ?_⟩
            obtain rfl := ExprToken.op.inj (Option.some.inj same)
            by_contra neither
            exact connective (not_or.mp neither)
    · next ended =>
        obtain ⟨rfl, rfl⟩ := Prod.mk.inj (Except.ok.inj second)
        refine Or.inl ⟨first, fun other same => ?_⟩
        cases middle with
        | nil => contradiction
        | cons token rest => exact absurd (congrArg (· :: rest) (Option.some.inj same)) (ended other rest)
  · intro either
    rcases either with ⟨first, ended⟩ | ⟨op, left, right, rest, comparison, rfl, first, second⟩
    · rw [first, Except.ok_bind]
      dsimp only
      split
      · next op rest =>
          rw [if_neg]
          · rfl
          · exact not_and_or.mpr ((ended op rfl).imp (fun same => not_not.mpr same) fun same => not_not.mpr same)
      · rfl
    · rw [first, Except.ok_bind]
      dsimp only
      rw [if_pos comparison, second]
      rfl

theorem Shrinks.cmp (shrinks : Shrinks nested) : Shrinks (parseCmpExpr nested) := by
  intro tokens expr after read
  rcases parseCmpExpr_ok.mp read with ⟨first, -⟩ | ⟨op, left, right, rest, -, -, first, second⟩
  · exact shrinks.unary tokens expr after first
  · have one := shrinks.unary tokens left _ first
    have two := shrinks.unary rest right after second
    exact two.trans ((Nat.lt_succ_self _).trans one)

/-- The operands that follow one operator, taken up from left to right. -/
inductive Chain (op : BinaryOp) (operand : Parser) : Expr → List ExprToken → Expr → List ExprToken → Prop where
  | stop {left : Expr} {tokens : List ExprToken} (ended : tokens.head? ≠ some (.op op)) :
      Chain op operand left tokens left tokens
  | more {left right expr : Expr} {rest after last : List ExprToken} (read : operand rest = .ok (right, after))
      (onward : Chain op operand (.binary op left right) after expr last) :
      Chain op operand left (.op op :: rest) expr last

theorem Chain.length_le (shrinks : Shrinks operand) {left expr : Expr} {tokens last : List ExprToken}
    (chained : Chain op operand left tokens expr last) : last.length ≤ tokens.length := by
  induction chained with
  | stop ended => exact le_refl _
  | more read onward hypothesis =>
      exact hypothesis.trans ((shrinks _ _ _ read).le.trans (Nat.le_succ _))

/-- With a step for every token the loop runs to its end. -/
theorem chain_ok (shrinks : Shrinks operand) {steps : Nat} {left expr : Expr} {tokens last : List ExprToken}
    (enough : tokens.length ≤ steps) :
    chain op operand steps left tokens = .ok (expr, last) ↔ Chain op operand left tokens expr last := by
  induction steps generalizing left tokens with
  | zero =>
      obtain rfl := List.eq_nil_of_length_eq_zero (Nat.le_zero.mp enough)
      rw [chain]
      constructor
      · intro same
        obtain ⟨rfl, rfl⟩ := Prod.mk.inj (Except.ok.inj same)
        exact .stop (Option.some_ne_none _).symm
      · intro chained
        cases chained
        rfl
  | succ steps hypothesis =>
      cases tokens with
      | nil =>
          rw [chain]
          constructor
          · intro same
            obtain ⟨rfl, rfl⟩ := Prod.mk.inj (Except.ok.inj same)
            exact .stop (Option.some_ne_none _).symm
          · intro chained
            cases chained
            rfl
      | cons token rest =>
          rw [chain]
          by_cases here : token = .op op
          · subst here
            rw [if_pos rfl, Except.bind_eq_ok]
            constructor
            · intro read
              obtain ⟨⟨right, after⟩, first, onward⟩ := read
              have shorter := shrinks _ _ _ first
              exact .more first ((hypothesis (shorter.le.trans (Nat.le_of_succ_le_succ enough))).mp onward)
            · intro chained
              cases chained with
              | stop ended => exact absurd rfl ended
              | more read onward =>
                  have shorter := shrinks _ _ _ read
                  exact ⟨_, read, (hypothesis (shorter.le.trans (Nat.le_of_succ_le_succ enough))).mpr onward⟩
          · rw [if_neg here]
            constructor
            · intro same
              obtain ⟨rfl, rfl⟩ := Prod.mk.inj (Except.ok.inj same)
              exact .stop fun same => here (Option.some.inj same)
            · intro chained
              cases chained with
              | stop ended => rfl
              | more read onward => exact absurd rfl here

theorem parseChain_ok (shrinks : Shrinks operand) {expr : Expr} {tokens last : List ExprToken} :
    parseChain op operand tokens = .ok (expr, last) ↔
      ∃ left after, operand tokens = .ok (left, after) ∧ Chain op operand left after expr last := by
  unfold parseChain
  rw [Except.bind_eq_ok, Prod.exists]
  exact exists_congr fun left => exists_congr fun after =>
    and_congr_right fun _ => chain_ok shrinks (le_refl _)

theorem Shrinks.chained (shrinks : Shrinks operand) : Shrinks (parseChain op operand) := by
  intro tokens expr after read
  obtain ⟨left, middle, first, chained⟩ := (parseChain_ok shrinks).mp read
  exact (chained.length_le shrinks).trans_lt (shrinks _ _ _ first)

theorem Shrinks.or (depth : Nat) : Shrinks (parseOrExpr depth) := by
  induction depth with
  | zero => exact fun tokens expr after read => nomatch read
  | succ depth hypothesis => exact hypothesis.cmp.chained.chained

/-- The second parser reads with more tokens behind what the first one reads without them. Where the first one takes
all its tokens, this may depend on a condition on the others. -/
def Extends (condition : Prop) (more : List ExprToken) (parser parser' : Parser) : Prop :=
  ∀ tokens expr after, parser tokens = .ok (expr, after) → (after ≠ [] ∨ condition) →
    parser' (tokens ++ more) = .ok (expr, after ++ more)

theorem Extends.weaken {condition stronger : Prop} {parser parser' : Parser}
    (extended : Extends condition more parser parser') (weaker : stronger → condition) :
    Extends stronger more parser parser' :=
  fun tokens expr after read free => extended tokens expr after read (free.imp_right weaker)

theorem Extends.primary (extended : Extends False more nested nested') :
    Extends True more (parsePrimaryExpr nested) (parsePrimaryExpr nested') := by
  intro tokens expr after read _
  cases tokens with
  | nil => contradiction
  | cons token rest =>
      cases token with
      | lparen =>
          obtain ⟨⟨inner, left⟩, inside, closing⟩ := Except.bind_eq_ok.mp read
          cases left with
          | nil => contradiction
          | cons token left =>
              cases token with
              | rparen =>
                  obtain ⟨rfl, rfl⟩ := Prod.mk.inj (Except.ok.inj closing)
                  have there := extended rest inner (.rparen :: left) inside (Or.inl (List.cons_ne_nil _ _))
                  rw [List.cons_append, parsePrimaryExpr, there]
                  rfl
              | _ => contradiction
      | op op => contradiction
      | not => contradiction
      | rparen => contradiction
      | _ =>
          obtain ⟨rfl, rfl⟩ := Prod.mk.inj (Except.ok.inj read)
          rfl

theorem Extends.unary (extended : Extends False more nested nested') :
    Extends True more (parseUnaryExpr nested) (parseUnaryExpr nested') := by
  intro tokens
  induction tokens with
  | nil =>
      intro expr after read _
      have other : ([] : List ExprToken).head? ≠ some .not := (Option.some_ne_none _).symm
      rw [parseUnaryExpr_other other] at read
      contradiction
  | cons token rest hypothesis =>
      intro expr after read free
      by_cases not : token = .not
      · subst not
        rw [parseUnaryExpr_not] at read
        obtain ⟨⟨inner, left⟩, inside, same⟩ := Except.bind_eq_ok.mp read
        obtain ⟨rfl, rfl⟩ := Prod.mk.inj (Except.ok.inj same)
        rw [List.cons_append, parseUnaryExpr_not, hypothesis inner left inside free]
        rfl
      · have other : (token :: rest).head? ≠ some .not := fun same => not (Option.some.inj same)
        have other' : (token :: rest ++ more).head? ≠ some .not := other
        rw [parseUnaryExpr_other other] at read
        rw [parseUnaryExpr_other other']
        exact extended.primary _ expr after read free

/-- The tokens do not start with a comparison. -/
def NoComparison (tokens : List ExprToken) : Prop := ∀ op, tokens.head? = some (.op op) → op = .and ∨ op = .or

theorem Extends.cmp (extended : Extends False more nested nested') :
    Extends (NoComparison more) more (parseCmpExpr nested) (parseCmpExpr nested') := by
  intro tokens expr after read free
  rw [parseCmpExpr_ok] at read ⊢
  rcases read with ⟨first, ended⟩ | ⟨op, left, right, rest, comparison, rfl, first, second⟩
  · refine Or.inl ⟨extended.unary _ _ _ first (Or.inr trivial), fun op here => ?_⟩
    cases after with
    | nil => exact free.resolve_left (fun full => full rfl) op here
    | cons token after => exact ended op here
  · refine Or.inr ⟨op, left, right, rest ++ more, comparison, rfl, ?_, ?_⟩
    · exact extended.unary _ _ _ first (Or.inr trivial)
    · exact extended.unary _ _ _ second (Or.inr trivial)

theorem Chain.extend {condition : Prop} {left expr : Expr} {tokens last : List ExprToken}
    (extended : Extends condition more operand operand') (chained : Chain op operand left tokens expr last)
    (free : last ≠ [] ∨ condition) (ended : last = [] → more.head? ≠ some (.op op)) (shrinks : Shrinks operand) :
    Chain op operand' left (tokens ++ more) expr (last ++ more) := by
  induction chained with
  | stop elsewhere =>
      next left tokens =>
      apply Chain.stop
      cases tokens with
      | nil => exact ended rfl
      | cons token tokens => exact elsewhere
  | more read onward hypothesis =>
      next left right expr rest after last =>
      refine .more (extended _ _ _ read ?_) (hypothesis free ended)
      refine free.imp_left fun remains => ?_
      rintro rfl
      have within := onward.length_le shrinks
      exact remains (List.eq_nil_of_length_eq_zero (Nat.le_zero.mp within))

theorem Extends.chained {condition stronger : Prop} (extended : Extends condition more operand operand')
    (weaker : stronger → condition) (ended : stronger → more.head? ≠ some (.op op)) (shrinks : Shrinks operand)
    (shrinks' : Shrinks operand') :
    Extends stronger more (parseChain op operand) (parseChain op operand') := by
  intro tokens expr after read free
  obtain ⟨left, middle, first, chained⟩ := (parseChain_ok shrinks).mp read
  have within := chained.length_le shrinks
  have remains : middle ≠ [] ∨ condition := by
    refine free.imp (fun remains => ?_) weaker
    rintro rfl
    exact remains (List.eq_nil_of_length_eq_zero (Nat.le_zero.mp within))
  have onward := chained.extend extended (free.imp_right weaker)
    (fun none => ended (free.resolve_left fun full => full none)) shrinks
  exact (parseChain_ok shrinks').mpr ⟨left, middle ++ more, extended _ _ _ first remains, onward⟩

/-- The tokens do not start with an operator. -/
def NoOperator (tokens : List ExprToken) : Prop := ∀ op, tokens.head? ≠ some (.op op)

theorem Extends.or {depth depth' : Nat} (deeper : depth ≤ depth') :
    Extends (NoOperator more) more (parseOrExpr depth) (parseOrExpr depth') := by
  induction depth generalizing depth' with
  | zero => exact fun tokens expr after read => nomatch read
  | succ depth hypothesis =>
      obtain ⟨depth', rfl⟩ : ∃ other, depth' = other + 1 := ⟨depth' - 1, by omega⟩
      have inner := (hypothesis (Nat.le_of_succ_le_succ deeper)).weaken False.elim
      have here := Shrinks.or depth
      have there := Shrinks.or depth'
      have conjunction : Extends (NoOperator more) more (parseAndExpr (parseOrExpr depth))
          (parseAndExpr (parseOrExpr depth')) :=
        inner.cmp.chained (fun plain op same => absurd same (plain op)) (fun plain => plain .and) here.cmp there.cmp
      exact conjunction.chained id (fun plain => plain .or) here.cmp.chained there.cmp.chained

theorem parseTokens_ok {tokens : List ExprToken} {expr : Expr} :
    parseTokens tokens = .ok expr ↔ parseOrExpr tokens.length tokens = .ok (expr, []) := by
  unfold parseTokens
  cases tokens with
  | nil => exact iff_of_false nofun nofun
  | cons token rest =>
      rw [if_neg (List.cons_ne_nil token rest)]
      change (parseOrExpr (token :: rest).length (token :: rest) >>= _) = _ ↔ _
      rw [Except.bind_eq_ok, Prod.exists]
      constructor
      · intro read
        obtain ⟨expr, after, first, ends⟩ := read
        cases after with
        | nil => rw [first, Except.ok.inj ends]
        | cons token after => contradiction
      · exact fun read => ⟨expr, [], read, rfl⟩

/-- An expression that takes all the tokens is no expression any more in front of tokens that do not go on with it. -/
theorem parseTokens_trailing {tokens rest : List ExprToken} {token : ExprToken} {expr : Expr}
    (read : parseTokens tokens = .ok expr) (plain : NoOperator (token :: rest)) (expr' : Expr) :
    parseTokens (tokens ++ token :: rest) ≠ .ok expr' := by
  intro whole
  rw [parseTokens_ok] at read whole
  have deeper : tokens.length ≤ (tokens ++ token :: rest).length := (List.prefix_append _ _).length_le
  have front := Extends.or deeper tokens expr [] read (Or.inr plain)
  obtain ⟨-, absent⟩ := Prod.mk.inj (Except.ok.inj (front.symm.trans whole))
  exact List.cons_ne_nil token rest absent

end Descent

theorem parseExpr_ok [Binary64] [Unicode] {input : Text} {expr : Expr} :
    parseExpr input = .ok expr ↔ ∃ tokens, tokenizeExpr input = .ok tokens ∧ parseTokens tokens = .ok expr :=
  Except.bind_eq_ok

end Temnion.Query
