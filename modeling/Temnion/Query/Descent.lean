import Temnion.Query.Grammar

/-
This file says that the recursive descent reads exactly the derivations of the grammar.
-/

namespace Temnion.Query

variable [Binary64] {T : Type} {op : BinaryOp} {operand nested : Parser} {yield : T → List ExprToken} {value : T → Expr}
  {follow stop : List ExprToken → Prop} {bound : Nat}

section Soundness

/-- What the parser takes has a derivation with the expression as its tree. -/
def Sound (parser : Parser) (yield : T → List ExprToken) (value : T → Expr) : Prop :=
  ∀ tokens expr after, parser tokens = .ok (expr, after) → ∃ tree, tokens = yield tree ++ after ∧ value tree = expr

theorem Sound.primary (sound : Sound nested OrTree.tokens OrTree.expr) :
    Sound (parsePrimaryExpr nested) PrimaryTree.tokens PrimaryTree.expr := by
  have leaf : ∀ (value : Literal) {rest after : List ExprToken} {expr : Expr},
      (.ok (.literal value, rest) : Except ParseError (Expr × List ExprToken)) = .ok (expr, after) →
      ∃ tree : PrimaryTree, value.token :: rest = tree.tokens ++ after ∧ tree.expr = expr := by
    intro value rest after expr read
    obtain ⟨rfl, rfl⟩ := Prod.mk.inj (Except.ok.inj read)
    exact ⟨.literal value, rfl, rfl⟩
  intro tokens expr after read
  cases tokens with
  | nil => contradiction
  | cons token rest =>
      cases token with
      | lparen =>
          obtain ⟨⟨inner, left⟩, inside, closing⟩ := Except.bind_eq_ok.mp read
          obtain ⟨tree, rfl, rfl⟩ := sound rest inner left inside
          cases left with
          | nil => contradiction
          | cons token left =>
              cases token with
              | rparen =>
                  obtain ⟨rfl, rfl⟩ := Prod.mk.inj (Except.ok.inj closing)
                  refine ⟨.parentheses tree, ?_, rfl⟩
                  rw [PrimaryTree.tokens, List.cons_append, List.append_assoc]
                  rfl
              | _ => contradiction
      | bool truth => exact leaf (.bool truth) read
      | int number => exact leaf (.int number) read
      | float number => exact leaf (.float number) read
      | stringLit text => exact leaf (.string text) read
      | ident name =>
          obtain ⟨rfl, rfl⟩ := Prod.mk.inj (Except.ok.inj read)
          exact ⟨.field name, rfl, rfl⟩
      | op op => contradiction
      | not => contradiction
      | rparen => contradiction

theorem Sound.unary (sound : Sound nested OrTree.tokens OrTree.expr) :
    Sound (parseUnaryExpr nested) UnaryTree.tokens UnaryTree.expr := by
  have direct : ∀ tokens expr after, tokens.head? ≠ some .not → parseUnaryExpr nested tokens = .ok (expr, after) →
      ∃ tree : UnaryTree, tokens = tree.tokens ++ after ∧ tree.expr = expr := by
    intro tokens expr after other read
    rw [parseUnaryExpr_other other] at read
    obtain ⟨tree, spelled, same⟩ := sound.primary tokens expr after read
    exact ⟨.primary tree, spelled, same⟩
  intro tokens
  induction tokens with
  | nil => exact fun expr after => direct [] expr after (Option.some_ne_none _).symm
  | cons token rest hypothesis =>
      intro expr after read
      by_cases negation : token = .not
      · subst negation
        rw [parseUnaryExpr_not] at read
        obtain ⟨⟨inner, left⟩, inside, same⟩ := Except.bind_eq_ok.mp read
        obtain ⟨rfl, rfl⟩ := Prod.mk.inj (Except.ok.inj same)
        obtain ⟨tree, rfl, rfl⟩ := hypothesis inner left inside
        exact ⟨.not tree, rfl, rfl⟩
      · exact direct _ expr after (fun same => negation (Option.some.inj same)) read

theorem Sound.cmp (sound : Sound nested OrTree.tokens OrTree.expr) :
    Sound (parseCmpExpr nested) CmpTree.tokens CmpTree.expr := by
  intro tokens expr after read
  rcases parseCmpExpr_ok.mp read with ⟨first, -⟩ | ⟨op, left, right, rest, comparison, rfl, first, second⟩
  · obtain ⟨tree, spelled, same⟩ := sound.unary tokens expr after first
    exact ⟨.operand tree, spelled, same⟩
  · obtain ⟨tree, rfl, rfl⟩ := sound.unary _ _ _ first
    obtain ⟨tree', rfl, rfl⟩ := sound.unary _ _ _ second
    refine ⟨.comparison op comparison tree tree', ?_, rfl⟩
    rw [CmpTree.tokens, List.append_assoc]
    rfl

/-- What a loop takes up are derivations behind its operator. -/
theorem Chain.sound (sound : Sound operand yield value) {left expr : Expr} {tokens last : List ExprToken}
    (chained : Chain op operand left tokens expr last) :
    ∃ items, tokens = Grammar.separated (.op op) yield items ++ last ∧
      items.foldl (fun left item => .binary op left (value item)) left = expr := by
  induction chained with
  | stop ended => exact ⟨[], rfl, rfl⟩
  | more read onward hypothesis =>
      obtain ⟨items, rfl, rfl⟩ := hypothesis
      obtain ⟨item, rfl, rfl⟩ := sound _ _ _ read
      refine ⟨item :: items, ?_, rfl⟩
      rw [Grammar.separated, List.cons_append, List.append_assoc]

theorem Sound.and (sound : Sound nested OrTree.tokens OrTree.expr) (shrinks : Shrinks nested) :
    Sound (parseAndExpr nested) AndTree.tokens AndTree.expr := by
  intro tokens expr after read
  obtain ⟨left, middle, first, chained⟩ := (parseChain_ok shrinks.cmp).mp read
  obtain ⟨tree, rfl, rfl⟩ := sound.cmp _ _ _ first
  obtain ⟨items, rfl, rfl⟩ := chained.sound sound.cmp
  refine ⟨.chain tree items, ?_, ?_⟩
  · rw [AndTree.tokens, CmpTree.restTokens_eq, List.append_assoc]
  · rw [AndTree.expr, CmpTree.restExpr_eq]

theorem Sound.or (depth : Nat) : Sound (parseOrExpr depth) OrTree.tokens OrTree.expr := by
  induction depth with
  | zero => exact fun tokens expr after read => nomatch read
  | succ depth hypothesis =>
      have shrinks := Shrinks.or depth
      intro tokens expr after read
      obtain ⟨left, middle, first, chained⟩ := (parseChain_ok shrinks.cmp.chained).mp read
      obtain ⟨tree, rfl, rfl⟩ := hypothesis.and shrinks _ _ _ first
      obtain ⟨items, rfl, rfl⟩ := chained.sound (hypothesis.and shrinks)
      refine ⟨.chain tree items, ?_, ?_⟩
      · rw [OrTree.tokens, AndTree.restTokens_eq, List.append_assoc]
      · rw [OrTree.expr, AndTree.restExpr_eq]

end Soundness

section Completeness

/-- The parser reads a short derivation in front of what may follow it. -/
def Reads (bound : Nat) (parser : Parser) (yield : T → List ExprToken) (value : T → Expr)
    (follow : List ExprToken → Prop) : Prop :=
  ∀ tree rest, (yield tree).length ≤ bound → follow rest → parser (yield tree ++ rest) = .ok (value tree, rest)

theorem Reads.primary (reads : Reads bound nested OrTree.tokens OrTree.expr NoOperator) :
    Reads (bound + 1) (parsePrimaryExpr nested) PrimaryTree.tokens PrimaryTree.expr fun _ => True := by
  intro tree rest short _
  cases tree with
  | parentheses inside =>
      rw [PrimaryTree.tokens, List.length_cons, List.length_append] at short
      have read := reads inside (.rparen :: rest) (by omega) (noOperator_rparen rest)
      rw [PrimaryTree.tokens, List.cons_append, List.append_assoc, PrimaryTree.expr]
      exact parsePrimaryExpr_parentheses read
  | literal value => cases value <;> rfl
  | field name => rfl

theorem Reads.unary (reads : Reads bound (parsePrimaryExpr nested) PrimaryTree.tokens PrimaryTree.expr fun _ => True) :
    Reads bound (parseUnaryExpr nested) UnaryTree.tokens UnaryTree.expr fun _ => True := by
  induction bound with
  | zero => exact fun tree _ short => absurd tree.tokens_pos (Nat.not_lt.mpr short)
  | succ bound hypothesis =>
      intro tree rest short _
      cases tree with
      | not inner =>
          rw [UnaryTree.tokens, List.length_cons] at short
          have inside := hypothesis (fun tree rest short => reads tree rest (Nat.le_succ_of_le short)) inner rest
            (by omega) trivial
          rw [UnaryTree.tokens, List.cons_append, parseUnaryExpr_not, inside]
          rfl
      | primary inner =>
          rw [UnaryTree.tokens, parseUnaryExpr_other (inner.tokens_head rest)]
          exact reads inner rest short trivial

theorem Reads.cmp (reads : Reads bound (parseUnaryExpr nested) UnaryTree.tokens UnaryTree.expr fun _ => True) :
    Reads bound (parseCmpExpr nested) CmpTree.tokens CmpTree.expr NoComparison := by
  intro tree rest short free
  rw [parseCmpExpr_ok]
  cases tree with
  | operand operand => exact .inl ⟨reads operand rest short trivial, free⟩
  | comparison op comparison left right =>
      rw [CmpTree.tokens, List.length_append, List.length_cons] at short
      have first := reads left (.op op :: (right.tokens ++ rest)) (by omega) trivial
      have second := reads right rest (by omega) trivial
      refine .inr ⟨op, left.expr, right.expr, right.tokens ++ rest, comparison, rfl, ?_, second⟩
      rw [CmpTree.tokens, List.append_assoc]
      exact first

/-- A loop takes up the derivations behind its operator and stops behind the last one. -/
theorem Reads.chain (reads : Reads bound operand yield value follow) (between : ∀ rest, follow (.op op :: rest))
    (weaker : ∀ rest, stop rest → follow rest) (apart : ∀ rest, stop rest → rest.head? ≠ some (.op op))
    (items : List T) {rest : List ExprToken} (left : Expr)
    (short : (Grammar.separated (.op op) yield items).length ≤ bound) (stops : stop rest) :
    Chain op operand left (Grammar.separated (.op op) yield items ++ rest)
      (items.foldl (fun left item => .binary op left (value item)) left) rest := by
  induction items generalizing left with
  | nil => exact .stop (apart rest stops)
  | cons item items hypothesis =>
      rw [Grammar.separated, List.length_cons, List.length_append] at short
      have read := reads item (Grammar.separated (.op op) yield items ++ rest) (by omega)
        (Grammar.follow_separated between weaker items stops)
      rw [Grammar.separated, List.cons_append, List.append_assoc, List.foldl_cons]
      exact .more read (hypothesis _ (by omega))

theorem Reads.and (reads : Reads bound (parseCmpExpr nested) CmpTree.tokens CmpTree.expr NoComparison)
    (shrinks : Shrinks nested) : Reads bound (parseAndExpr nested) AndTree.tokens AndTree.expr NoConjunction := by
  have weaker : ∀ rest, NoConjunction rest → NoComparison rest := fun _ free => free.noComparison
  have apart : ∀ rest, NoConjunction rest → rest.head? ≠ some (.op .and) := fun rest free same =>
    absurd (free .and same) (by decide)
  rintro ⟨first, items⟩ rest short free
  rw [AndTree.tokens, CmpTree.restTokens_eq, List.length_append] at short
  have start := reads first (Grammar.separated (.op .and) CmpTree.tokens items ++ rest) (by omega)
    (Grammar.follow_separated noComparison_and weaker items free)
  have onward := reads.chain noComparison_and weaker apart items first.expr (by omega) free
  rw [AndTree.tokens, CmpTree.restTokens_eq, List.append_assoc, AndTree.expr, CmpTree.restExpr_eq]
  exact (parseChain_ok shrinks.cmp).mpr ⟨_, _, start, onward⟩

theorem Reads.or (depth : Nat) : Reads depth (parseOrExpr depth) OrTree.tokens OrTree.expr NoOperator := by
  have weaker : ∀ rest, NoOperator rest → NoConjunction rest := fun _ free => free.noConjunction
  have apart : ∀ rest, NoOperator rest → rest.head? ≠ some (.op .or) := fun rest free => free .or
  induction depth with
  | zero => exact fun tree _ short => absurd tree.tokens_pos (Nat.not_lt.mpr short)
  | succ depth hypothesis =>
      have shrinks := Shrinks.or depth
      have reads := hypothesis.primary.unary.cmp.and shrinks
      rintro ⟨first, items⟩ rest short free
      rw [OrTree.tokens, AndTree.restTokens_eq, List.length_append] at short
      have start := reads first (Grammar.separated (.op .or) AndTree.tokens items ++ rest) (by omega)
        (Grammar.follow_separated noConjunction_or weaker items free)
      have onward := reads.chain noConjunction_or weaker apart items first.expr (by omega) free
      rw [OrTree.tokens, AndTree.restTokens_eq, List.append_assoc, OrTree.expr, AndTree.restExpr_eq]
      exact (parseChain_ok shrinks.cmp.chained).mpr ⟨_, _, start, onward⟩

end Completeness

end Temnion.Query
