import Temnion.Query.Descent

/-
This file reads expressions from a position in the tokens, as the source does, and says that the position stays inside.
-/

namespace Temnion.Query.Cursor

variable [Binary64]

section Functions

variable (tokens : List ExprToken) (nested : Procedure Nat ParseError Expr)

def parsePrimaryExpr : Procedure Nat ParseError Expr := fun pos =>
  match tokens[pos]? with
  | none => (.error .endOfExpression, pos)
  | some .lparen =>
      nested.bind (fun expr pos =>
        if tokens[pos]? = some .rparen then (.ok expr, pos + 1) else (.error .missingParenthesis, pos)) (pos + 1)
  | some (.bool value) => (.ok (.literal (.bool value)), pos + 1)
  | some (.int value) => (.ok (.literal (.int value)), pos + 1)
  | some (.float value) => (.ok (.literal (.float value)), pos + 1)
  | some (.stringLit value) => (.ok (.literal (.string value)), pos + 1)
  | some (.ident name) => (.ok (.field name), pos + 1)
  | some token => (.error (.unexpectedToken token), pos)

/-- Every negation takes a token. -/
def parseUnaryExpr (pos : Nat) : Except ParseError Expr × Nat :=
  if _ : tokens[pos]? = some .not then
    let (outcome, pos) := parseUnaryExpr (pos + 1)
    (outcome.map .not, pos)
  else parsePrimaryExpr tokens nested pos
termination_by tokens.length - pos
decreasing_by exact Nat.sub_lt_sub_left (List.getElem?_eq_some_iff.mp ‹_›).1 (Nat.lt_succ_self pos)

def parseCmpExpr : Procedure Nat ParseError Expr :=
  Procedure.bind (parseUnaryExpr tokens nested) fun left pos =>
    match tokens[pos]? with
    | some (.op op) =>
        if op ≠ .and ∧ op ≠ .or then
          let (outcome, pos) := parseUnaryExpr tokens nested (pos + 1)
          (outcome.map (.binary op left), pos)
        else (.ok left, pos)
    | _ => (.ok left, pos)

/-- Every round takes a token. -/
def chain (op : BinaryOp) (operand : Procedure Nat ParseError Expr) : Nat → Expr → Nat → Except ParseError Expr × Nat
  | 0, left, pos => (.ok left, pos)
  | steps + 1, left, pos =>
      if tokens[pos]? = some (.op op) then
        operand.bind (fun right => chain op operand steps (.binary op left right)) (pos + 1)
      else (.ok left, pos)

def parseChain (op : BinaryOp) (operand : Procedure Nat ParseError Expr) : Procedure Nat ParseError Expr :=
  operand.bind fun left pos => chain tokens op operand (tokens.length - pos) left pos

def parseAndExpr : Procedure Nat ParseError Expr := parseChain tokens .and (parseCmpExpr tokens nested)

/-- The depth bounds the nesting of parentheses. -/
def parseOrExpr : Nat → Procedure Nat ParseError Expr
  | 0 => fun pos => (.error .endOfExpression, pos)
  | depth + 1 => parseChain tokens .or (parseAndExpr tokens (parseOrExpr depth))

def parseTokens : Except ParseError Expr :=
  if tokens = [] then .error .emptyExpression
  else
    match parseOrExpr tokens tokens.length 0 with
    | (.error error, _) => .error error
    | (.ok expr, pos) =>
        match tokens[pos]? with
        | some token => .error (.trailingToken pos token)
        | none => .ok expr

end Functions

section Matching

variable {tokens : List ExprToken} {pos stop : Nat} {token : ExprToken} {expr : Expr}
  {run nested operand : Procedure Nat ParseError Expr} {parser nestedParser operandParser : Parser} {op : BinaryOp}
  {result : Except ParseError Expr × Nat} {read : Except ParseError (Expr × List ExprToken)}

/-- The result is what was read from the tokens, and the position did not go back and is inside the tokens. -/
inductive Matches (tokens : List ExprToken) (pos : Nat) :
    Except ParseError Expr × Nat → Except ParseError (Expr × List ExprToken) → Prop where
  | ok (expr : Expr) {stop : Nat} (onward : pos ≤ stop) (inside : stop ≤ tokens.length) :
      Matches tokens pos (.ok expr, stop) (.ok (expr, tokens.drop stop))
  | error (error : ParseError) {stop : Nat} (onward : pos ≤ stop) (inside : stop ≤ tokens.length) :
      Matches tokens pos (.error error, stop) (.error error)

/-- From every position the run does what the parser does with the tokens from there on. -/
def Follows (tokens : List ExprToken) (run : Procedure Nat ParseError Expr) (parser : Parser) : Prop :=
  ∀ pos ≤ tokens.length, Matches tokens pos (run pos) (parser (tokens.drop pos))

theorem Matches.stays (matched : Matches tokens pos result read) : pos ≤ result.2 ∧ result.2 ≤ tokens.length := by
  cases matched with
  | ok expr onward inside => exact ⟨onward, inside⟩
  | error error onward inside => exact ⟨onward, inside⟩

theorem Matches.back (matched : Matches tokens stop result read) (before : pos ≤ stop) : Matches tokens pos result read := by
  cases matched with
  | ok expr onward inside => exact .ok expr (before.trans onward) inside
  | error error onward inside => exact .error error (before.trans onward) inside

theorem Matches.bind {next : Expr → Procedure Nat ParseError Expr}
    {onward : Expr × List ExprToken → Except ParseError (Expr × List ExprToken)}
    (matched : Matches tokens pos (run stop) read)
    (continues : ∀ expr stop, pos ≤ stop → stop ≤ tokens.length →
      Matches tokens pos (next expr stop) (onward (expr, tokens.drop stop))) :
    Matches tokens pos (run.bind next stop) (read >>= onward) := by
  unfold Procedure.bind
  generalize run stop = result at matched
  cases matched with
  | ok expr before inside => exact continues expr _ before inside
  | error error before inside => exact .error error before inside

theorem Matches.map (matched : Matches tokens pos result read) (change : Expr → Expr) :
    Matches tokens pos (result.1.map change, result.2) (read >>= fun (expr, after) => pure (change expr, after)) := by
  cases matched with
  | ok expr onward inside => exact .ok (change expr) onward inside
  | error error onward inside => exact .error error onward inside

theorem drop_eq_cons (found : tokens[pos]? = some token) : tokens.drop pos = token :: tokens.drop (pos + 1) := by
  obtain ⟨inside, rfl⟩ := List.getElem?_eq_some_iff.mp found
  exact List.drop_eq_getElem_cons inside

theorem succ_le (found : tokens[pos]? = some token) : pos + 1 ≤ tokens.length :=
  (List.getElem?_eq_some_iff.mp found).1

theorem drop_eq_nil (ended : tokens[pos]? = none) : tokens.drop pos = [] :=
  List.drop_eq_nil_of_le (List.getElem?_eq_none_iff.mp ended)

theorem Follows.primary (follows : Follows tokens nested nestedParser) :
    Follows tokens (parsePrimaryExpr tokens nested) (Query.parsePrimaryExpr nestedParser) := by
  intro pos inside
  unfold parsePrimaryExpr
  cases found : tokens[pos]? with
  | none =>
      rw [drop_eq_nil found]
      exact .error _ (le_refl _) inside
  | some token =>
      have next := succ_le found
      rw [drop_eq_cons found]
      cases token with
      | lparen =>
          rw [Query.parsePrimaryExpr]
          refine ((follows (pos + 1) next).back (Nat.le_succ pos)).bind fun expr stop onward inside => ?_
          dsimp only
          cases closing : tokens[stop]? with
          | none =>
              rw [drop_eq_nil closing, if_neg (Option.some_ne_none _).symm]
              exact .error _ onward inside
          | some token =>
              rw [drop_eq_cons closing]
              by_cases closed : token = .rparen
              · subst closed
                rw [if_pos rfl]
                exact .ok expr (onward.trans (Nat.le_succ stop)) (succ_le closing)
              · rw [if_neg fun same => closed (Option.some.inj same)]
                cases token <;> first | exact .error _ onward inside | exact absurd rfl closed
      | op op => exact .error _ (le_refl _) inside
      | not => exact .error _ (le_refl _) inside
      | rparen => exact .error _ (le_refl _) inside
      | _ => exact .ok _ (Nat.le_succ pos) next

theorem parseUnaryExpr_negated (negated : tokens[pos]? = some .not) : parseUnaryExpr tokens nested pos =
    ((parseUnaryExpr tokens nested (pos + 1)).1.map .not, (parseUnaryExpr tokens nested (pos + 1)).2) := by
  rw [parseUnaryExpr, dif_pos negated]

theorem parseUnaryExpr_plain (plain : tokens[pos]? ≠ some .not) :
    parseUnaryExpr tokens nested pos = parsePrimaryExpr tokens nested pos := by
  rw [parseUnaryExpr, dif_neg plain]

theorem Follows.unary (follows : Follows tokens nested nestedParser) :
    Follows tokens (parseUnaryExpr tokens nested) (Query.parseUnaryExpr nestedParser) := by
  intro pos inside
  induction remaining : tokens.length - pos generalizing pos with
  | zero =>
      have ended : tokens[pos]? = none := List.getElem?_eq_none_iff.mpr (by omega)
      rw [parseUnaryExpr_plain (by rw [ended]; exact (Option.some_ne_none _).symm), parseUnaryExpr_other]
      · exact follows.primary pos inside
      · rw [drop_eq_nil ended]
        exact (Option.some_ne_none _).symm
  | succ remaining hypothesis =>
      by_cases negated : tokens[pos]? = some .not
      · have next := hypothesis (pos + 1) (succ_le negated) (by omega)
        rw [parseUnaryExpr_negated negated, drop_eq_cons negated, parseUnaryExpr_not]
        exact (next.back (Nat.le_succ pos)).map .not
      · rw [parseUnaryExpr_plain negated, parseUnaryExpr_other]
        · exact follows.primary pos inside
        · rwa [List.head?_drop]

theorem Follows.cmp (follows : Follows tokens nested nestedParser) :
    Follows tokens (parseCmpExpr tokens nested) (Query.parseCmpExpr nestedParser) := by
  intro pos inside
  refine (follows.unary pos inside).bind fun left stop onward inside => ?_
  dsimp only
  cases found : tokens[stop]? with
  | none =>
      have here : Matches tokens pos (.ok left, stop) (.ok (left, [])) := drop_eq_nil found ▸ .ok left onward inside
      rw [drop_eq_nil found]
      exact here
  | some token =>
      have next := succ_le found
      have here : Matches tokens pos (.ok left, stop) (.ok (left, token :: tokens.drop (stop + 1))) :=
        drop_eq_cons found ▸ .ok left onward inside
      rw [drop_eq_cons found]
      cases token with
      | op op =>
          dsimp only
          split
          · exact ((follows.unary (stop + 1) next).back (onward.trans (Nat.le_succ stop))).map (.binary op left)
          · exact here
      | _ => exact here

theorem Follows.chain (follows : Follows tokens operand operandParser) (steps : Nat) (left : Expr) {start : Nat}
    (onward : start ≤ pos) (inside : pos ≤ tokens.length) :
    Matches tokens start (chain tokens op operand steps left pos)
      (Query.chain op operandParser steps left (tokens.drop pos)) := by
  induction steps generalizing left pos with
  | zero => exact .ok left onward inside
  | succ steps hypothesis =>
      rw [chain]
      cases found : tokens[pos]? with
      | none =>
          have here : Matches tokens start (.ok left, pos) (.ok (left, [])) := drop_eq_nil found ▸ .ok left onward inside
          rw [drop_eq_nil found, if_neg (Option.some_ne_none _).symm]
          exact here
      | some token =>
          have here : Matches tokens start (.ok left, pos) (.ok (left, token :: tokens.drop (pos + 1))) :=
            drop_eq_cons found ▸ .ok left onward inside
          rw [drop_eq_cons found, Query.chain]
          by_cases same : token = .op op
          · rw [if_pos (congrArg some same), if_pos same]
            have next := (follows (pos + 1) (succ_le found)).back (onward.trans (Nat.le_succ pos))
            exact next.bind fun right stop before within => hypothesis (.binary op left right) before within
          · rw [if_neg fun equal => same (Option.some.inj equal), if_neg same]
            exact here

theorem Follows.chained (follows : Follows tokens operand operandParser) :
    Follows tokens (parseChain tokens op operand) (Query.parseChain op operandParser) := by
  intro pos inside
  refine (follows pos inside).bind fun left stop onward inside => ?_
  dsimp only
  rw [List.length_drop]
  exact follows.chain _ left onward inside

/-- The cursor reads what the parser of token lists reads. -/
theorem Follows.or (tokens : List ExprToken) (depth : Nat) :
    Follows tokens (parseOrExpr tokens depth) (Query.parseOrExpr depth) := by
  induction depth with
  | zero => exact fun pos inside => .error _ (le_refl _) inside
  | succ depth hypothesis => exact hypothesis.cmp.chained.chained

theorem parseTokens_eq (tokens : List ExprToken) : parseTokens tokens = Query.parseTokens tokens := by
  unfold parseTokens Query.parseTokens
  cases tokens with
  | nil => rfl
  | cons token rest =>
      have matched := Follows.or (token :: rest) (token :: rest).length 0 (Nat.zero_le _)
      rw [List.drop_zero] at matched
      rw [if_neg (List.cons_ne_nil _ _), if_neg (List.cons_ne_nil _ _)]
      change _ = (Query.parseOrExpr (token :: rest).length (token :: rest) >>= _)
      generalize parseOrExpr (token :: rest) (token :: rest).length 0 = result at matched ⊢
      generalize Query.parseOrExpr (token :: rest).length (token :: rest) = read at matched ⊢
      cases matched with
      | error error onward inside => rfl
      | @ok expr stop onward inside =>
          rw [Except.ok_bind]
          dsimp only
          cases found : (token :: rest)[stop]? with
          | none =>
              rw [drop_eq_nil found]
              rfl
          | some next =>
              have left : ((token :: rest).drop stop).length = (token :: rest).length - stop := List.length_drop
              rw [drop_eq_cons found] at left
              have before := succ_le found
              have place : stop = (token :: rest).length - (next :: (token :: rest).drop (stop + 1)).length := by
                rw [left]
                omega
              rw [drop_eq_cons found]
              exact congrArg (fun place => Except.error (ParseError.trailingToken place next)) place

end Matching

section Termination

variable {tokens : List ExprToken} {limit : Nat} {run run' nested nested' operand operand' : Procedure Nat ParseError Expr}
  {op : BinaryOp}

/-- The position never goes back and never leaves the tokens. -/
def Stays (tokens : List ExprToken) (run : Procedure Nat ParseError Expr) : Prop :=
  ∀ pos ≤ tokens.length, pos ≤ (run pos).2 ∧ (run pos).2 ≤ tokens.length

theorem Follows.stays {parser : Parser} (follows : Follows tokens run parser) : Stays tokens run :=
  fun pos inside => (follows pos inside).stays

/-- The two runs do the same where at most so many tokens are left. -/
def Agrees (tokens : List ExprToken) (limit : Nat) (run run' : Procedure Nat ParseError Expr) : Prop :=
  ∀ pos ≤ tokens.length, tokens.length - pos ≤ limit → run pos = run' pos

theorem bind_congr {next next' : Expr → Procedure Nat ParseError Expr} {pos : Nat} (same : run pos = run' pos)
    (onward : ∀ expr stop, (run' pos).2 = stop → next expr stop = next' expr stop) :
    run.bind next pos = run'.bind next' pos := by
  unfold Procedure.bind
  rw [same]
  generalize run' pos = result at onward
  obtain ⟨outcome, stop⟩ := result
  cases outcome with
  | error error => rfl
  | ok expr => exact onward expr stop rfl

theorem Agrees.primary (agrees : Agrees tokens limit nested nested') :
    Agrees tokens (limit + 1) (parsePrimaryExpr tokens nested) (parsePrimaryExpr tokens nested') := by
  intro pos inside few
  unfold parsePrimaryExpr
  cases found : tokens[pos]? with
  | none => rfl
  | some token =>
      have next := succ_le found
      cases token with
      | lparen => exact bind_congr (agrees (pos + 1) next (by omega)) fun _ _ _ => rfl
      | _ => rfl

theorem Agrees.unary (agrees : Agrees tokens limit (parsePrimaryExpr tokens nested) (parsePrimaryExpr tokens nested')) :
    Agrees tokens limit (parseUnaryExpr tokens nested) (parseUnaryExpr tokens nested') := by
  intro pos inside few
  induction remaining : tokens.length - pos generalizing pos with
  | zero =>
      have ended : tokens[pos]? ≠ some .not := by
        rw [List.getElem?_eq_none_iff.mpr (by omega)]
        exact (Option.some_ne_none _).symm
      rw [parseUnaryExpr_plain ended, parseUnaryExpr_plain ended]
      exact agrees pos inside few
  | succ remaining hypothesis =>
      by_cases negated : tokens[pos]? = some .not
      · rw [parseUnaryExpr_negated negated, parseUnaryExpr_negated negated,
          hypothesis (pos + 1) (succ_le negated) (by omega) (by omega)]
      · rw [parseUnaryExpr_plain negated, parseUnaryExpr_plain negated]
        exact agrees pos inside few

theorem Agrees.cmp (agrees : Agrees tokens limit (parseUnaryExpr tokens nested) (parseUnaryExpr tokens nested'))
    (stays : Stays tokens (parseUnaryExpr tokens nested')) :
    Agrees tokens limit (parseCmpExpr tokens nested) (parseCmpExpr tokens nested') := by
  intro pos inside few
  refine bind_congr (agrees pos inside few) fun left stop reached => ?_
  have bounds := stays pos inside
  dsimp only
  split
  · next op found =>
      split
      · have next := succ_le found
        rw [agrees (stop + 1) next (by omega)]
      · rfl
  · rfl

theorem Agrees.chain (agrees : Agrees tokens limit operand operand') (stays : Stays tokens operand') (steps : Nat)
    (left : Expr) : Agrees tokens limit (chain tokens op operand steps left) (chain tokens op operand' steps left) := by
  induction steps generalizing left with
  | zero => exact fun _ _ _ => rfl
  | succ steps hypothesis =>
      intro pos inside few
      rw [Cursor.chain, Cursor.chain]
      split
      · next found =>
          have next := succ_le found
          have bounds := stays (pos + 1) next
          exact bind_congr (agrees (pos + 1) next (by omega)) fun right stop reached =>
            hypothesis (.binary op left right) stop (by omega) (by omega)
      · rfl

theorem Agrees.chained (agrees : Agrees tokens limit operand operand') (stays : Stays tokens operand') :
    Agrees tokens limit (parseChain tokens op operand) (parseChain tokens op operand') := by
  intro pos inside few
  have bounds := stays pos inside
  exact bind_congr (agrees pos inside few) fun left stop reached =>
    agrees.chain stays _ left stop (by omega) (by omega)

theorem bind_error {next : Expr → Procedure Nat ParseError Expr} {pos stop : Nat} {error : ParseError}
    (failed : run pos = (.error error, stop)) : run.bind next pos = (.error error, stop) := by
  unfold Procedure.bind
  rw [failed]

/-- Behind the last token every level fails. -/
theorem parseOrExpr_end (depth : Nat) {pos : Nat} (ended : tokens.length ≤ pos) :
    parseOrExpr tokens depth pos = (.error .endOfExpression, pos) := by
  cases depth with
  | zero => rfl
  | succ depth =>
      have none' : tokens[pos]? = none := List.getElem?_eq_none_iff.mpr ended
      have primary : parsePrimaryExpr tokens (parseOrExpr tokens depth) pos = (.error .endOfExpression, pos) := by
        rw [parsePrimaryExpr, none']
      have unary : parseUnaryExpr tokens (parseOrExpr tokens depth) pos = (.error .endOfExpression, pos) := by
        rw [parseUnaryExpr_plain (by rw [none']; exact (Option.some_ne_none _).symm), primary]
      have compared : parseCmpExpr tokens (parseOrExpr tokens depth) pos = (.error .endOfExpression, pos) :=
        bind_error unary
      have conjunction : parseAndExpr tokens (parseOrExpr tokens depth) pos = (.error .endOfExpression, pos) :=
        bind_error compared
      exact bind_error conjunction

/-- With a depth for every token that is left the depth does not matter. -/
theorem Agrees.or (depth depth' : Nat) :
    Agrees tokens (min depth depth') (parseOrExpr tokens depth) (parseOrExpr tokens depth') := by
  induction depth generalizing depth' with
  | zero =>
      intro pos inside few
      rw [parseOrExpr_end 0 (by omega), parseOrExpr_end depth' (by omega)]
  | succ depth hypothesis =>
      cases depth' with
      | zero =>
          intro pos inside few
          rw [parseOrExpr_end _ (by omega), parseOrExpr_end 0 (by omega)]
      | succ depth' =>
          rw [Nat.succ_min_succ]
          have nested := Follows.or tokens depth'
          have unary := (hypothesis depth').primary.unary
          have compared := unary.cmp nested.unary.stays
          exact (compared.chained nested.cmp.stays).chained nested.cmp.chained.stays

end Termination

section Grammar

variable (tokens : List ExprToken)

/-- The token lists with a derivation are the expressions, with its tree as the value. -/
theorem parseTokens_ok_iff (expr : Expr) :
    parseTokens tokens = .ok expr ↔ ∃ tree : OrTree, tree.tokens = tokens ∧ tree.expr = expr := by
  rw [parseTokens_eq, parseTokens_ok]
  constructor
  · intro read
    obtain ⟨tree, spelled, same⟩ := Sound.or _ _ _ _ read
    exact ⟨tree, (spelled.trans (List.append_nil _)).symm, same⟩
  · rintro ⟨tree, rfl, rfl⟩
    have read := Reads.or tree.tokens.length tree [] (le_refl _) fun _ => (Option.some_ne_none _).symm
    rwa [List.append_nil] at read

/-- What the descent consumes is a derivation, with its tree as the value. -/
theorem parseOrExpr_consumes {expr : Expr} {stop : Nat} (read : parseOrExpr tokens tokens.length 0 = (.ok expr, stop)) :
    stop ≤ tokens.length ∧ ∃ tree : OrTree, tree.tokens = tokens.take stop ∧ tree.expr = expr := by
  have matched := Follows.or tokens tokens.length 0 (Nat.zero_le _)
  rw [read, List.drop_zero] at matched
  generalize whole : Query.parseOrExpr tokens.length tokens = outcome at matched
  cases matched with
  | ok expr onward inside =>
      obtain ⟨tree, spelled, same⟩ := Sound.or _ _ _ _ whole
      exact ⟨inside, tree, List.append_cancel_right (spelled.symm.trans (List.take_append_drop stop tokens).symm), same⟩

/-- The parser accepts exactly its grammar, whose derivations are unique. It ends at a position inside the tokens, as
soon as the depth is not smaller than the number of tokens that are left. -/
theorem parser_accepts_grammar [Unicode] :
    (∀ tree other : OrTree, tree.tokens = tokens → other.tokens = tokens → tree = other) ∧
    (∀ expr, parseTokens tokens = .ok expr ↔ ∃ tree : OrTree, tree.tokens = tokens ∧ tree.expr = expr) ∧
    (∀ input, tokenizeExpr input = .ok tokens → parseExpr input = parseTokens tokens) ∧
    (∀ expr stop, parseOrExpr tokens tokens.length 0 = (.ok expr, stop) →
      stop ≤ tokens.length ∧ ∃ tree : OrTree, tree.tokens = tokens.take stop ∧ tree.expr = expr) ∧
    (∀ depth pos, pos ≤ tokens.length → tokens.length - pos ≤ depth →
      parseOrExpr tokens depth pos = parseOrExpr tokens (tokens.length - pos) pos) ∧
    ∀ depth, Stays tokens (parseOrExpr tokens depth) ∧
      Stays tokens (parseAndExpr tokens (parseOrExpr tokens depth)) ∧
      Stays tokens (parseCmpExpr tokens (parseOrExpr tokens depth)) ∧
      Stays tokens (parseUnaryExpr tokens (parseOrExpr tokens depth)) ∧
      Stays tokens (parsePrimaryExpr tokens (parseOrExpr tokens depth)) := by
  refine ⟨fun tree other spelled spelled' => OrTree.tokens_injective (spelled.trans spelled'.symm),
    parseTokens_ok_iff tokens, ?_, fun expr stop => parseOrExpr_consumes tokens, ?_, ?_⟩
  · intro input tokenized
    rw [parseExpr, tokenized, parseTokens_eq]
    rfl
  · intro depth pos inside enough
    exact Agrees.or depth (tokens.length - pos) pos inside (le_min enough (le_refl _))
  · intro depth
    have follows := Follows.or tokens depth
    exact ⟨follows.stays, follows.cmp.chained.stays, follows.cmp.stays, follows.unary.stays, follows.primary.stays⟩

end Grammar

end Temnion.Query.Cursor
