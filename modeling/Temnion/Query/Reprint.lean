import Temnion.Query.Display

/-
This file proves which expressions are read back as they were written.
-/

namespace Temnion.Query

section Scanning

variable [Binary64]

theorem numberToken_scanned {digits : Text} {hasDot : Bool} {token : ExprToken} [Unicode]
    (made : numberToken digits hasDot = .ok token) (integral : ∀ value, token ≠ .float value) : Scanned token := by
  unfold numberToken at made
  split at made
  · split at made
    · next value _ => exact absurd (Except.ok.inj made).symm (integral value)
    · contradiction
  · split at made
    · next number read =>
        obtain rfl := Except.ok.inj made
        have below : number < 2 ^ 63 := Text.parseUnsigned_lt (by decide) read
        change 0 ≤ (Int64.ofNat number).toInt
        rw [Int64.toInt_ofNat_of_lt below]
        exact Int.natCast_nonneg number
    · contradiction

variable [Unicode]

theorem wordToken_scanned {word : Text} (spelled : IsWord word) : Scanned (wordToken word) := by
  by_cases name : wordToken word = .ident word
  · rw [name]
    exact ⟨spelled, name⟩
  · unfold wordToken at name ⊢
    dsimp only at name ⊢
    split_ifs at name ⊢
    all_goals trivial

/-- If this is a token and no float, it was scanned. -/
def Makes (outcome : Except ParseError (Option ExprToken × Nat)) : Prop :=
  ∀ token consumed, outcome = .ok (some token, consumed) → (∀ value, token ≠ .float value) → Scanned token

theorem Makes.token {token : ExprToken} {consumed : Nat} (scanned : (∀ value, token ≠ .float value) → Scanned token) :
    Makes (.ok (some token, consumed)) := by
  intro other taken same integral
  obtain ⟨found, -⟩ := Prod.mk.inj (Except.ok.inj same)
  obtain rfl := Option.some.inj found
  exact scanned integral

theorem nextToken_makes (first : Char) (rest : Text) : Makes (nextToken first rest) := by
  have mark : ∀ {token consumed}, Scanned token → Makes (.ok (some token, consumed)) :=
    fun scanned => .token fun _ => scanned
  have failed : ∀ error, Makes (.error error) := fun _ => nofun
  unfold nextToken
  refine iteInduction (fun _ => nofun) fun _ => ?_
  refine iteInduction (fun _ => mark trivial) fun _ => ?_
  refine iteInduction (fun _ => mark trivial) fun _ => ?_
  refine iteInduction (fun _ => iteInduction (fun _ => mark trivial) fun _ => mark trivial) fun _ => ?_
  refine iteInduction (fun _ => iteInduction (fun _ => mark trivial) fun _ => mark trivial) fun _ => ?_
  refine iteInduction (fun _ => iteInduction (fun _ => mark trivial) fun _ =>
    iteInduction (fun _ => mark trivial) fun _ => mark trivial) fun _ => ?_
  refine iteInduction (fun _ => iteInduction (fun _ => mark trivial) fun _ => mark trivial) fun _ => ?_
  refine iteInduction (fun _ => mark trivial) fun _ => ?_
  refine iteInduction (fun _ => mark trivial) fun _ => ?_
  refine iteInduction (fun _ => iteInduction (fun _ => mark trivial) fun _ => failed _) fun _ => ?_
  refine iteInduction (fun _ => ?_) fun _ => iteInduction (fun start => .token fun _ => ?_) fun _ => failed _
  · dsimp only
    cases made : numberToken (first :: (takeNumber false rest).1) (takeNumber false rest).2 with
    | ok token => exact .token (numberToken_scanned made)
    | error error => exact failed error
  · refine wordToken_scanned ⟨first, _, rfl, start, fun character member => ?_⟩
    exact List.mem_takeWhile_imp member

/-- The tokens of a text that are no floats were scanned. -/
theorem tokensFrom_scanned {skipped : Nat} {text : Text} {tokens : List ExprToken}
    (read : tokensFrom skipped text = .ok tokens) {token : ExprToken} (member : token ∈ tokens)
    (integral : ∀ value, token ≠ .float value) : Scanned token := by
  induction text generalizing skipped tokens with
  | nil =>
      rw [tokensFrom] at read
      rw [← Except.ok.inj read] at member
      exact absurd member List.not_mem_nil
  | cons first rest hypothesis =>
      cases skipped with
      | succ skipped => exact hypothesis read member
      | zero =>
          rw [tokensFrom] at read
          obtain ⟨⟨made, consumed⟩, next, onward⟩ := Except.bind_eq_ok.mp read
          obtain ⟨others, later, same⟩ := Except.bind_eq_ok.mp onward
          rw [← Except.ok.inj same, List.mem_append, Option.mem_toList] at member
          rcases member with here | there
          · obtain rfl := here
            exact nextToken_makes first rest token consumed next integral
          · exact hypothesis later there

/-- The string that the token is. -/
def ExprToken.string? : ExprToken → Option Text
  | .stringLit value => some value
  | _ => none

/-- What stands in a text between two equal quotes, behind the characters that belong to the token before. -/
def quotedTexts : Nat → Text → List Text
  | _, [] => []
  | skipped + 1, _ :: rest => quotedTexts skipped rest
  | 0, character :: rest =>
      if character = '\'' ∨ character = '"' then
        let inside := rest.takeWhile (· ≠ character)
        inside :: quotedTexts (inside.length + 1) rest
      else quotedTexts 0 rest

omit [Binary64] [Unicode] in
/-- Characters that are no quotes can be skipped. -/
theorem quotedTexts_skip {skipped : Nat} {text : Text} (plain : Unquoted (text.take skipped)) :
    quotedTexts skipped text = quotedTexts 0 text := by
  induction text generalizing skipped with
  | nil => rw [quotedTexts, quotedTexts]
  | cons character rest hypothesis =>
      cases skipped with
      | zero => rfl
      | succ skipped =>
          obtain ⟨single, double⟩ := plain character List.mem_cons_self
          rw [quotedTexts, quotedTexts, if_neg (not_or.mpr ⟨single, double⟩)]
          exact hypothesis fun other member => plain other (List.mem_cons_of_mem _ member)

/-- This is no string, and no quote is among the characters behind the first that it takes. -/
def Skims (rest : Text) (outcome : Except ParseError (Option ExprToken × Nat)) : Prop :=
  ∀ token consumed, outcome = .ok (token, consumed) →
    token.bind ExprToken.string? = none ∧ Unquoted (rest.take consumed)

omit [Unicode] in
theorem Skims.token {rest : Text} {token : Option ExprToken} {consumed : Nat}
    (other : token.bind ExprToken.string? = none) (plain : Unquoted (rest.take consumed)) :
    Skims rest (.ok (token, consumed)) := by
  intro made taken same
  obtain ⟨rfl, rfl⟩ := Prod.mk.inj (Except.ok.inj same)
  exact ⟨other, plain⟩

omit [Binary64] [Unicode] in
theorem takeNumber_unquoted (hasDot : Bool) (rest : Text) :
    Unquoted (rest.take (takeNumber hasDot rest).1.length) := by
  induction rest generalizing hasDot with
  | nil => exact fun _ member => absurd member List.not_mem_nil
  | cons character rest hypothesis =>
      have digits : ∀ dotted, character ≠ '\'' ∧ character ≠ '"' →
          Unquoted ((character :: rest).take ((takeNumber dotted rest).1.length + 1)) := by
        intro dotted plain other member
        rcases List.mem_cons.mp member with rfl | later
        · exact plain
        · exact hypothesis dotted other later
      rw [takeNumber]
      split
      · next digit =>
          apply digits
          constructor <;> rintro rfl <;> exact absurd digit (by decide)
      · split
        · next dot =>
            apply digits
            rw [dot.1]
            decide
        · exact fun _ member => absurd member List.not_mem_nil

omit [Binary64] in
theorem isWordChar_ne_quote {character : Char} (inside : isWordChar character = true) :
    character ≠ '\'' ∧ character ≠ '"' := by
  constructor
  · rintro rfl
    rw [isWordChar, Unicode.alphanumeric_ascii '\'' (by decide)] at inside
    exact absurd inside (by decide)
  · rintro rfl
    rw [isWordChar, Unicode.alphanumeric_ascii '"' (by decide)] at inside
    exact absurd inside (by decide)

omit [Unicode] in
theorem numberToken_string {digits : Text} {hasDot : Bool} {token : ExprToken}
    (made : numberToken digits hasDot = .ok token) : token.string? = none := by
  unfold numberToken at made
  split at made
  · split at made
    · rw [← Except.ok.inj made]
      rfl
    · contradiction
  · split at made
    · rw [← Except.ok.inj made]
      rfl
    · contradiction

theorem wordToken_string (word : Text) : (wordToken word).string? = none := by
  unfold wordToken
  dsimp only
  split_ifs <;> rfl

/-- Outside of strings the tokenizer takes no quotes. -/
theorem nextToken_skims {first : Char} (plain : ¬ (first = '\'' ∨ first = '"')) (rest : Text) :
    Skims rest (nextToken first rest) := by
  have alone : ∀ {token}, token.bind ExprToken.string? = none → Skims rest (.ok (token, 0)) :=
    fun other => .token other fun _ member => absurd member List.not_mem_nil
  have double : ∀ {token mark}, token.bind ExprToken.string? = none → rest.head? = some mark →
      mark ≠ '\'' ∧ mark ≠ '"' → Skims rest (.ok (token, 1)) := by
    intro token mark other here unquoted
    refine .token other ?_
    cases rest with
    | nil => contradiction
    | cons head rest =>
        intro character member
        rw [List.mem_singleton.mp member, Option.some.inj here]
        exact unquoted
  unfold nextToken
  refine iteInduction (fun _ => alone rfl) fun _ => ?_
  refine iteInduction (fun _ => alone rfl) fun _ => ?_
  refine iteInduction (fun _ => alone rfl) fun _ => ?_
  refine iteInduction (fun _ => iteInduction (fun here => double rfl here (by decide)) fun _ => alone rfl) fun _ => ?_
  refine iteInduction (fun _ => iteInduction (fun here => double rfl here (by decide)) fun _ => alone rfl) fun _ => ?_
  refine iteInduction (fun _ => iteInduction (fun here => double rfl here (by decide)) fun _ =>
    iteInduction (fun here => double rfl here (by decide)) fun _ => alone rfl) fun _ => ?_
  refine iteInduction (fun _ => iteInduction (fun here => double rfl here (by decide)) fun _ => alone rfl) fun _ => ?_
  refine iteInduction (fun here => double rfl here.2 (by decide)) fun _ => ?_
  refine iteInduction (fun here => double rfl here.2 (by decide)) fun _ => ?_
  refine iteInduction (fun quote => absurd quote plain) fun _ => ?_
  refine iteInduction (fun _ => ?_) fun _ => iteInduction (fun _ => ?_) fun _ => nofun
  · dsimp only
    cases made : numberToken (first :: (takeNumber false rest).1) (takeNumber false rest).2 with
    | ok token => exact .token (numberToken_string made) (takeNumber_unquoted false rest)
    | error error => exact nofun
  · refine .token (wordToken_string _) fun character member => ?_
    rw [← List.prefix_iff_eq_take.mp (List.takeWhile_prefix _)] at member
    exact isWordChar_ne_quote (List.mem_takeWhile_imp member)

/-- The strings among the tokens are what stands between quotes. -/
theorem tokensFrom_strings {skipped : Nat} {text : Text} {tokens : List ExprToken}
    (read : tokensFrom skipped text = .ok tokens) :
    tokens.filterMap ExprToken.string? = quotedTexts skipped text := by
  induction text generalizing skipped tokens with
  | nil =>
      rw [tokensFrom] at read
      rw [← Except.ok.inj read, quotedTexts]
      rfl
  | cons first rest hypothesis =>
      cases skipped with
      | succ skipped => exact hypothesis read
      | zero =>
          rw [tokensFrom] at read
          obtain ⟨⟨made, consumed⟩, next, onward⟩ := Except.bind_eq_ok.mp read
          obtain ⟨others, later, same⟩ := Except.bind_eq_ok.mp onward
          rw [← Except.ok.inj same, List.filterMap_append, hypothesis later, quotedTexts]
          by_cases quote : first = '\'' ∨ first = '"'
          · rw [nextToken_quote quote] at next
            rw [if_pos quote]
            split at next
            · obtain ⟨rfl, rfl⟩ := Prod.mk.inj (Except.ok.inj next)
              rfl
            · contradiction
          · obtain ⟨other, plain⟩ := nextToken_skims quote rest made consumed next
            rw [if_neg quote, quotedTexts_skip plain]
            cases made with
            | none => rfl
            | some token =>
                have absent : token.string? = none := other
                rw [Option.toList_some, List.filterMap_cons_none absent]
                rfl

end Scanning

section Reading

variable [Binary64] {op : BinaryOp} {operand nested : Parser}

/-- An expression that is read keeps the leaves of the tokens that it takes. -/
def Keeps (parser : Parser) : Prop := ∀ tokens expr after, parser tokens = .ok (expr, after) →
  tokens.filter ExprToken.isLeaf = expr.leaves ++ after.filter ExprToken.isLeaf

theorem Keeps.primary (keeps : Keeps nested) : Keeps (parsePrimaryExpr nested) := by
  intro tokens expr after read
  cases tokens with
  | nil => contradiction
  | cons token rest =>
      cases token with
      | lparen =>
          obtain ⟨⟨inner, left⟩, inside, closing⟩ := Except.bind_eq_ok.mp read
          have kept := keeps rest inner left inside
          cases left with
          | nil => contradiction
          | cons token left =>
              cases token with
              | rparen =>
                  obtain ⟨rfl, rfl⟩ := Prod.mk.inj (Except.ok.inj closing)
                  exact kept
              | _ => contradiction
      | op op => contradiction
      | not => contradiction
      | rparen => contradiction
      | _ =>
          obtain ⟨rfl, rfl⟩ := Prod.mk.inj (Except.ok.inj read)
          rfl

theorem Keeps.unary (keeps : Keeps nested) : Keeps (parseUnaryExpr nested) := by
  intro tokens
  induction tokens with
  | nil =>
      intro expr after read
      have other : ([] : List ExprToken).head? ≠ some .not := (Option.some_ne_none _).symm
      rw [parseUnaryExpr_other other] at read
      exact keeps.primary [] expr after read
  | cons token rest hypothesis =>
      intro expr after read
      by_cases not : token = .not
      · subst not
        rw [parseUnaryExpr_not] at read
        obtain ⟨⟨inner, left⟩, inside, same⟩ := Except.bind_eq_ok.mp read
        obtain ⟨rfl, rfl⟩ := Prod.mk.inj (Except.ok.inj same)
        exact hypothesis inner left inside
      · have other : (token :: rest).head? ≠ some .not := fun same => not (Option.some.inj same)
        rw [parseUnaryExpr_other other] at read
        exact keeps.primary _ expr after read

theorem Keeps.cmp (keeps : Keeps nested) : Keeps (parseCmpExpr nested) := by
  intro tokens expr after read
  rcases parseCmpExpr_ok.mp read with ⟨first, -⟩ | ⟨op, left, right, rest, -, rfl, first, second⟩
  · exact keeps.unary tokens expr after first
  · calc tokens.filter ExprToken.isLeaf
        = left.leaves ++ rest.filter ExprToken.isLeaf := keeps.unary tokens left (.op op :: rest) first
      _ = left.leaves ++ (right.leaves ++ after.filter ExprToken.isLeaf) := by rw [keeps.unary rest right after second]
      _ = (left.leaves ++ right.leaves) ++ after.filter ExprToken.isLeaf := (List.append_assoc _ _ _).symm

theorem Chain.keeps (keeps : Keeps operand) {left expr : Expr} {tokens last : List ExprToken}
    (chained : Chain op operand left tokens expr last) :
    left.leaves ++ tokens.filter ExprToken.isLeaf = expr.leaves ++ last.filter ExprToken.isLeaf := by
  induction chained with
  | stop ended => rfl
  | more read onward hypothesis =>
      next left right expr rest after last =>
      calc left.leaves ++ rest.filter ExprToken.isLeaf
          = left.leaves ++ (right.leaves ++ after.filter ExprToken.isLeaf) := by rw [keeps rest right after read]
        _ = (left.leaves ++ right.leaves) ++ after.filter ExprToken.isLeaf := (List.append_assoc _ _ _).symm
        _ = expr.leaves ++ last.filter ExprToken.isLeaf := hypothesis

theorem Keeps.chained (keeps : Keeps operand) (shrinks : Shrinks operand) : Keeps (parseChain op operand) := by
  intro tokens expr after read
  obtain ⟨left, middle, first, chained⟩ := (parseChain_ok shrinks).mp read
  exact (keeps tokens left middle first).trans (chained.keeps keeps)

theorem Keeps.or (depth : Nat) : Keeps (parseOrExpr depth) := by
  induction depth with
  | zero => exact fun tokens expr after read => nomatch read
  | succ depth hypothesis =>
      have shrinks := Shrinks.or depth
      exact (hypothesis.cmp.chained shrinks.cmp).chained shrinks.cmp.chained

/-- The leaves of an expression are those of its tokens. -/
theorem parseTokens_leaves {tokens : List ExprToken} {expr : Expr} (read : parseTokens tokens = .ok expr) :
    tokens.filter ExprToken.isLeaf = expr.leaves := by
  have kept := Keeps.or _ _ _ _ (parseTokens_ok.mp read)
  exact kept.trans (List.append_nil _)

/-- What one operand reads, the whole descent reads too, when no operator goes on with it. -/
theorem parseOrExpr_of_unary {depth : Nat} {tokens after : List ExprToken} {expr : Expr}
    (read : parseUnaryExpr (parseOrExpr depth) tokens = .ok (expr, after)) (ended : NoOperator after) :
    parseOrExpr (depth + 1) tokens = .ok (expr, after) := by
  have shrinks := Shrinks.or depth
  have compared : parseCmpExpr (parseOrExpr depth) tokens = .ok (expr, after) :=
    parseCmpExpr_ok.mpr (Or.inl ⟨read, fun op same => absurd same (ended op)⟩)
  have conjunction : parseAndExpr (parseOrExpr depth) tokens = .ok (expr, after) :=
    (parseChain_ok shrinks.cmp).mpr ⟨expr, after, compared, .stop (ended .and)⟩
  exact (parseChain_ok shrinks.cmp.chained).mpr ⟨expr, after, conjunction, .stop (ended .or)⟩

/-- Two operands with an operator between them are one expression. -/
theorem parseOrExpr_of_binary {depth : Nat} {tokens rest after : List ExprToken} {left right : Expr}
    (first : parseUnaryExpr (parseOrExpr depth) tokens = .ok (left, .op op :: rest))
    (second : parseUnaryExpr (parseOrExpr depth) rest = .ok (right, after)) (ended : NoOperator after) :
    parseOrExpr (depth + 1) tokens = .ok (.binary op left right, after) := by
  have shrinks := Shrinks.or depth
  have alone : ∀ {op : BinaryOp}, op = .and ∨ op = .or → ∀ other, (ExprToken.op op :: rest).head? = some (.op other) →
      other = .and ∨ other = .or := by
    intro op connective other same
    rwa [← ExprToken.op.inj (Option.some.inj same)]
  have last : parseCmpExpr (parseOrExpr depth) rest = .ok (right, after) :=
    parseCmpExpr_ok.mpr (Or.inl ⟨second, fun op same => absurd same (ended op)⟩)
  by_cases conjunction : op = .and
  · subst conjunction
    have start := parseCmpExpr_ok.mpr (Or.inl ⟨first, alone (Or.inl rfl)⟩)
    have whole : parseAndExpr (parseOrExpr depth) tokens = .ok (.binary .and left right, after) :=
      (parseChain_ok shrinks.cmp).mpr ⟨left, _, start, .more last (.stop (ended .and))⟩
    exact (parseChain_ok shrinks.cmp.chained).mpr ⟨_, after, whole, .stop (ended .or)⟩
  by_cases disjunction : op = .or
  · subst disjunction
    have start := parseCmpExpr_ok.mpr (Or.inl ⟨first, alone (Or.inr rfl)⟩)
    have one : parseAndExpr (parseOrExpr depth) tokens = .ok (left, .op .or :: rest) :=
      (parseChain_ok shrinks.cmp).mpr ⟨left, _, start, .stop fun same => absurd (Option.some.inj same) nofun⟩
    have two : parseAndExpr (parseOrExpr depth) rest = .ok (right, after) :=
      (parseChain_ok shrinks.cmp).mpr ⟨right, after, last, .stop (ended .and)⟩
    exact (parseChain_ok shrinks.cmp.chained).mpr ⟨left, _, one, .more two (.stop (ended .or))⟩
  · have compared : parseCmpExpr (parseOrExpr depth) tokens = .ok (.binary op left right, after) :=
      parseCmpExpr_ok.mpr (Or.inr ⟨op, left, right, rest, ⟨conjunction, disjunction⟩, rfl, first, second⟩)
    have whole : parseAndExpr (parseOrExpr depth) tokens = .ok (.binary op left right, after) :=
      (parseChain_ok shrinks.cmp).mpr ⟨_, after, compared, .stop (ended .and)⟩
    exact (parseChain_ok shrinks.cmp.chained).mpr ⟨_, after, whole, .stop (ended .or)⟩

theorem noOperator_rparen (rest : List ExprToken) : NoOperator (.rparen :: rest) :=
  fun _ same => absurd (Option.some.inj same) nofun

/-- What stands between parentheses is one operand. -/
theorem parsePrimaryExpr_parentheses {tokens rest : List ExprToken} {expr : Expr}
    (inside : nested tokens = .ok (expr, .rparen :: rest)) :
    parsePrimaryExpr nested (.lparen :: tokens) = .ok (expr, rest) := by
  rw [parsePrimaryExpr, inside]
  rfl

theorem lparen_ne_not (rest : List ExprToken) : (.lparen :: rest).head? ≠ some ExprToken.not :=
  fun same => absurd (Option.some.inj same) nofun

/-- The tokens of an expression are read as one operand. -/
theorem parseUnaryExpr_tokens {expr : Expr} {depth : Nat} (enough : expr.tokens.length ≤ depth + 1)
    (rest : List ExprToken) : parseUnaryExpr (parseOrExpr depth) (expr.tokens ++ rest) = .ok (expr, rest) := by
  induction expr generalizing depth rest with
  | literal value => cases value <;> rfl
  | field name => rfl
  | not inner hypothesis =>
      rw [Expr.tokens] at enough ⊢
      simp only [List.length_cons, List.length_append, List.length_nil] at enough
      obtain ⟨depth, rfl⟩ : ∃ other, depth = other + 1 := ⟨depth - 1, by omega⟩
      have within : inner.tokens.length ≤ depth + 1 := by omega
      have inside := parseOrExpr_of_unary (hypothesis within (.rparen :: rest)) (noOperator_rparen rest)
      have closed := parsePrimaryExpr_parentheses inside
      have other : (.lparen :: (inner.tokens ++ .rparen :: rest)).head? ≠ some ExprToken.not := lparen_ne_not _
      rw [List.cons_append, List.cons_append, List.append_assoc, parseUnaryExpr_not]
      change (parseUnaryExpr _ (.lparen :: (inner.tokens ++ .rparen :: rest)) >>= _) = _
      rw [parseUnaryExpr_other other, closed]
      rfl
  | binary op left right first second =>
      rw [Expr.tokens] at enough ⊢
      simp only [List.length_cons, List.length_append, List.length_nil] at enough
      obtain ⟨depth, rfl⟩ : ∃ other, depth = other + 1 := ⟨depth - 1, by omega⟩
      have firstWithin : left.tokens.length ≤ depth + 1 := by omega
      have secondWithin : right.tokens.length ≤ depth + 1 := by omega
      have one := first firstWithin (.op op :: (right.tokens ++ .rparen :: rest))
      have two := second secondWithin (.rparen :: rest)
      have inside := parseOrExpr_of_binary one two (noOperator_rparen rest)
      have closed := parsePrimaryExpr_parentheses inside
      have shape : .lparen :: (left.tokens ++ .op op :: (right.tokens ++ [.rparen])) ++ rest =
          .lparen :: (left.tokens ++ .op op :: (right.tokens ++ .rparen :: rest)) := by
        simp only [List.cons_append, List.append_assoc, List.nil_append]
      have other : (.lparen :: (left.tokens ++ .op op :: (right.tokens ++ .rparen :: rest))).head? ≠
          some ExprToken.not := lparen_ne_not _
      rw [shape, parseUnaryExpr_other other, closed]

theorem Expr.tokens_length_pos (expr : Expr) : 0 < expr.tokens.length := by
  cases expr <;> exact Nat.succ_pos _

/-- The tokens of an expression are read as the expression. -/
theorem parseTokens_tokens (expr : Expr) : parseTokens expr.tokens = .ok expr := by
  obtain ⟨depth, same⟩ := Nat.exists_eq_succ_of_ne_zero expr.tokens_length_pos.ne'
  have read := parseUnaryExpr_tokens same.le []
  rw [List.append_nil] at read
  rw [parseTokens_ok, same]
  exact parseOrExpr_of_unary read fun _ => (Option.some_ne_none _).symm

end Reading

section Expressions

variable [Binary64] [Binary64.Display] [Unicode]

/-- An expression of scanned leaves is read back as it was written unless one of its strings contains a quote. -/
theorem parseExpr_display_iff {expr : Expr} (scanned : ∀ leaf ∈ expr.leaves, Scanned leaf) :
    parseExpr expr.display = .ok expr ↔ ¬ expr.Quoted := by
  rw [parseExpr_ok]
  constructor
  · rintro ⟨tokens, read, parsed⟩ quoted
    rw [tokenizeExpr, ← List.append_nil expr.display] at read
    have same := parseTokens_leaves parsed
    rw [← List.append_nil expr.leaves] at same
    exact tokensFrom_display_quoted scanned quoted read [] same
  · intro plain
    exact ⟨expr.tokens, tokensFrom_display scanned plain, parseTokens_tokens expr⟩

omit [Binary64.Display] in
/-- The leaves of an expression that was read and has no float were scanned. -/
theorem parseExpr_scanned {text : Text} {expr : Expr} (read : parseExpr text = .ok expr)
    (integral : ∀ value, .float value ∉ expr.leaves) : ∀ leaf ∈ expr.leaves, Scanned leaf := by
  obtain ⟨tokens, scanned, parsed⟩ := parseExpr_ok.mp read
  intro leaf member
  have present := member
  rw [← parseTokens_leaves parsed] at present
  apply tokensFrom_scanned scanned (List.mem_filter.mp present).1
  rintro value rfl
  exact integral value member

omit [Binary64.Display] in
/-- An expression that was read has a quote in one of its strings when the text has one between two others. -/
theorem parseExpr_quoted {text : Text} {expr : Expr} (read : parseExpr text = .ok expr) :
    expr.Quoted ↔ ∃ inside ∈ quotedTexts 0 text, '"' ∈ inside := by
  obtain ⟨tokens, scanned, parsed⟩ := parseExpr_ok.mp read
  have strings : ∀ inside, .stringLit inside ∈ expr.leaves ↔ inside ∈ quotedTexts 0 text := by
    intro inside
    rw [← tokensFrom_strings scanned, ← parseTokens_leaves parsed, List.mem_filter, List.mem_filterMap]
    constructor
    · exact fun member => ⟨_, member.1, rfl⟩
    · rintro ⟨token, member, same⟩
      cases token with
      | stringLit value => rw [← Option.some.inj same]; exact ⟨member, rfl⟩
      | _ => contradiction
  constructor
  · rintro ⟨inside, member, quote⟩
    exact ⟨inside, (strings inside).mp member, quote⟩
  · rintro ⟨inside, member, quote⟩
    exact ⟨inside, (strings inside).mpr member, quote⟩

end Expressions

end Temnion.Query
