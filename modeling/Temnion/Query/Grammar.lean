import Temnion.Library.Grammar
import Temnion.Query.Reprint

/-
This file gives the grammar of expressions and says that its derivations are unique.
-/

namespace Temnion.Query

variable [Binary64]

section Trees

mutual

inductive OrTree where
  | chain (first : AndTree) (rest : List AndTree)

inductive AndTree where
  | chain (first : CmpTree) (rest : List CmpTree)

inductive CmpTree where
  | operand (operand : UnaryTree)
  | comparison (op : BinaryOp) (comparison : op ≠ .and ∧ op ≠ .or) (left right : UnaryTree)

inductive UnaryTree where
  | not (inner : UnaryTree)
  | primary (inner : PrimaryTree)

inductive PrimaryTree where
  | parentheses (inside : OrTree)
  | literal (value : Literal)
  | field (name : Text)

end

mutual

def OrTree.tokens : OrTree → List ExprToken
  | .chain first rest => first.tokens ++ AndTree.restTokens rest

def AndTree.restTokens : List AndTree → List ExprToken
  | [] => []
  | next :: rest => .op .or :: (next.tokens ++ AndTree.restTokens rest)

def AndTree.tokens : AndTree → List ExprToken
  | .chain first rest => first.tokens ++ CmpTree.restTokens rest

def CmpTree.restTokens : List CmpTree → List ExprToken
  | [] => []
  | next :: rest => .op .and :: (next.tokens ++ CmpTree.restTokens rest)

def CmpTree.tokens : CmpTree → List ExprToken
  | .operand operand => operand.tokens
  | .comparison op _ left right => left.tokens ++ .op op :: right.tokens

def UnaryTree.tokens : UnaryTree → List ExprToken
  | .not inner => .not :: inner.tokens
  | .primary inner => inner.tokens

def PrimaryTree.tokens : PrimaryTree → List ExprToken
  | .parentheses inside => .lparen :: (inside.tokens ++ [.rparen])
  | .literal value => [value.token]
  | .field name => [.ident name]

end

mutual

def OrTree.expr : OrTree → Expr
  | .chain first rest => AndTree.restExpr first.expr rest

def AndTree.restExpr (left : Expr) : List AndTree → Expr
  | [] => left
  | next :: rest => AndTree.restExpr (.binary .or left next.expr) rest

def AndTree.expr : AndTree → Expr
  | .chain first rest => CmpTree.restExpr first.expr rest

def CmpTree.restExpr (left : Expr) : List CmpTree → Expr
  | [] => left
  | next :: rest => CmpTree.restExpr (.binary .and left next.expr) rest

def CmpTree.expr : CmpTree → Expr
  | .operand operand => operand.expr
  | .comparison op _ left right => .binary op left.expr right.expr

def UnaryTree.expr : UnaryTree → Expr
  | .not inner => .not inner.expr
  | .primary inner => inner.expr

def PrimaryTree.expr : PrimaryTree → Expr
  | .parentheses inside => inside.expr
  | .literal value => .literal value
  | .field name => .field name

end
end Trees

section Shapes

theorem AndTree.restTokens_eq (rest : List AndTree) :
    AndTree.restTokens rest = Grammar.separated (.op .or) AndTree.tokens rest := by
  induction rest with
  | nil => rfl
  | cons next rest hypothesis => rw [AndTree.restTokens, hypothesis, Grammar.separated]

theorem CmpTree.restTokens_eq (rest : List CmpTree) :
    CmpTree.restTokens rest = Grammar.separated (.op .and) CmpTree.tokens rest := by
  induction rest with
  | nil => rfl
  | cons next rest hypothesis => rw [CmpTree.restTokens, hypothesis, Grammar.separated]

theorem AndTree.restExpr_eq (left : Expr) (rest : List AndTree) :
    AndTree.restExpr left rest = rest.foldl (fun left next => .binary .or left next.expr) left := by
  induction rest generalizing left with
  | nil => rfl
  | cons next rest hypothesis => rw [AndTree.restExpr, hypothesis, List.foldl_cons]

theorem CmpTree.restExpr_eq (left : Expr) (rest : List CmpTree) :
    CmpTree.restExpr left rest = rest.foldl (fun left next => .binary .and left next.expr) left := by
  induction rest generalizing left with
  | nil => rfl
  | cons next rest hypothesis => rw [CmpTree.restExpr, hypothesis, List.foldl_cons]

theorem Literal.token_injective {value other : Literal} (same : value.token = other.token) : value = other := by
  cases value <;> cases other <;> simp_all [Literal.token]

theorem Literal.token_ne {value : Literal} : value.token ≠ .lparen ∧ value.token ≠ .not ∧ ∀ name, value.token ≠ .ident name := by
  cases value <;> simp [Literal.token]

/-- The tokens of a primary expression do not start with a negation. -/
theorem PrimaryTree.tokens_head (tree : PrimaryTree) (rest : List ExprToken) : (tree.tokens ++ rest).head? ≠ some .not := by
  cases tree with
  | parentheses inside => exact fun same => absurd (Option.some.inj same) nofun
  | literal value => exact fun same => Literal.token_ne.2.1 (Option.some.inj same)
  | field name => exact fun same => absurd (Option.some.inj same) nofun

theorem UnaryTree.tokens_pos (tree : UnaryTree) : 0 < tree.tokens.length := by
  cases tree with
  | not inner => exact Nat.succ_pos _
  | primary inner => cases inner <;> exact Nat.succ_pos _

theorem CmpTree.tokens_pos (tree : CmpTree) : 0 < tree.tokens.length := by
  cases tree with
  | operand operand => exact operand.tokens_pos
  | comparison op comparison left right =>
      rw [CmpTree.tokens, List.length_append]
      exact Nat.add_pos_left left.tokens_pos _

theorem AndTree.tokens_pos (tree : AndTree) : 0 < tree.tokens.length := by
  obtain ⟨first, rest⟩ := tree
  rw [AndTree.tokens, List.length_append]
  exact Nat.add_pos_left first.tokens_pos _

theorem OrTree.tokens_pos (tree : OrTree) : 0 < tree.tokens.length := by
  obtain ⟨first, rest⟩ := tree
  rw [OrTree.tokens, List.length_append]
  exact Nat.add_pos_left first.tokens_pos _

end Shapes

section Unique

open Grammar

variable {bound : Nat}

/-- The tokens start with no operator but a disjunction. -/
def NoConjunction (tokens : List ExprToken) : Prop := ∀ op, tokens.head? = some (.op op) → op = .or

theorem noComparison_and (rest : List ExprToken) : NoComparison (.op .and :: rest) := fun _ same =>
  .inl (ExprToken.op.inj (Option.some.inj same)).symm

theorem noConjunction_or (rest : List ExprToken) : NoConjunction (.op .or :: rest) := fun _ same =>
  (ExprToken.op.inj (Option.some.inj same)).symm

theorem NoConjunction.noComparison {tokens : List ExprToken} (free : NoConjunction tokens) : NoComparison tokens :=
  fun op same => .inr (free op same)

theorem NoOperator.noConjunction {tokens : List ExprToken} (free : NoOperator tokens) : NoConjunction tokens :=
  fun op same => absurd same (free op)

theorem PrimaryTree.decomposes (nested : Decomposes bound OrTree.tokens NoOperator) :
    Decomposes (bound + 1) PrimaryTree.tokens fun _ => True := by
  intro first second rest rest' short _ _ same
  cases first with
  | parentheses inside =>
      cases second with
      | parentheses inside' =>
          rw [PrimaryTree.tokens, List.length_cons, List.length_append] at short
          rw [PrimaryTree.tokens, PrimaryTree.tokens, List.cons_append, List.cons_append, List.append_assoc,
            List.append_assoc] at same
          obtain ⟨rfl, closed⟩ := nested inside inside' _ _ (by omega) (noOperator_rparen rest) (noOperator_rparen rest')
            (List.cons.inj same).2
          exact ⟨rfl, (List.cons.inj closed).2⟩
      | literal value => exact absurd (List.cons.inj same).1.symm Literal.token_ne.1
      | field name => exact absurd (List.cons.inj same).1 nofun
  | literal value =>
      cases second with
      | parentheses inside => exact absurd (List.cons.inj same).1 Literal.token_ne.1
      | literal other =>
          obtain rfl := Literal.token_injective (List.cons.inj same).1
          exact ⟨rfl, (List.cons.inj same).2⟩
      | field name => exact absurd (List.cons.inj same).1 (Literal.token_ne.2.2 name)
  | field name =>
      cases second with
      | parentheses inside => exact absurd (List.cons.inj same).1 nofun
      | literal value => exact absurd (List.cons.inj same).1.symm (Literal.token_ne.2.2 name)
      | field other =>
          obtain rfl := ExprToken.ident.inj (List.cons.inj same).1
          exact ⟨rfl, (List.cons.inj same).2⟩

theorem UnaryTree.decomposes (inner : Decomposes bound PrimaryTree.tokens fun _ => True) :
    Decomposes bound UnaryTree.tokens fun _ => True := by
  induction bound with
  | zero => exact fun first _ _ _ short => absurd first.tokens_pos (Nat.not_lt.mpr short)
  | succ bound hypothesis =>
      have fewer : Decomposes bound PrimaryTree.tokens fun _ => True :=
        fun first second rest rest' short => inner first second rest rest' (Nat.le_succ_of_le short)
      intro first second rest rest' short _ _ same
      cases first with
      | not negated =>
          cases second with
          | not negated' =>
              rw [UnaryTree.tokens, List.length_cons] at short
              obtain ⟨rfl, rfl⟩ := hypothesis fewer negated negated' rest rest' (by omega) trivial trivial (List.cons.inj same).2
              exact ⟨rfl, rfl⟩
          | primary tree =>
              have head := tree.tokens_head rest'
              change .not :: (negated.tokens ++ rest) = tree.tokens ++ rest' at same
              rw [← same] at head
              exact absurd rfl head
      | primary tree =>
          cases second with
          | not negated =>
              have head := tree.tokens_head rest
              change tree.tokens ++ rest = .not :: (negated.tokens ++ rest') at same
              rw [same] at head
              exact absurd rfl head
          | primary tree' =>
              obtain ⟨rfl, rfl⟩ := inner tree tree' rest rest' short trivial trivial same
              exact ⟨rfl, rfl⟩

theorem CmpTree.decomposes (inner : Decomposes bound UnaryTree.tokens fun _ => True) :
    Decomposes bound CmpTree.tokens NoComparison := by
  have stops : ∀ {op : BinaryOp} {rest : List ExprToken}, op ≠ .and ∧ op ≠ .or → ¬NoComparison (.op op :: rest) :=
    fun comparison free => (free _ rfl).elim comparison.1 comparison.2
  intro first second rest rest' short free free' same
  cases first with
  | operand operand =>
      cases second with
      | operand operand' =>
          obtain ⟨rfl, rfl⟩ := inner operand operand' rest rest' short trivial trivial same
          exact ⟨rfl, rfl⟩
      | comparison op comparison left right =>
          rw [CmpTree.tokens, CmpTree.tokens, List.append_assoc] at same
          obtain ⟨rfl, rfl⟩ := inner operand left _ _ short trivial trivial same
          exact absurd free (stops comparison)
  | comparison op comparison left right =>
      rw [CmpTree.tokens, List.length_append, List.length_cons] at short
      rw [CmpTree.tokens, List.append_assoc] at same
      cases second with
      | operand operand =>
          obtain ⟨rfl, onward⟩ := inner left operand _ _ (by omega) trivial trivial same
          obtain rfl : rest' = _ := onward.symm
          exact absurd free' (stops comparison)
      | comparison op' comparison' left' right' =>
          rw [CmpTree.tokens, List.append_assoc] at same
          obtain ⟨rfl, onward⟩ := inner left left' _ _ (by omega) trivial trivial same
          obtain ⟨head, tail⟩ := List.cons.inj onward
          obtain rfl := ExprToken.op.inj head
          obtain ⟨rfl, rfl⟩ := inner right right' rest rest' (by omega) trivial trivial tail
          exact ⟨rfl, rfl⟩

theorem AndTree.decomposes (inner : Decomposes bound CmpTree.tokens NoComparison) :
    Decomposes bound AndTree.tokens NoConjunction := by
  have apart : ∀ rest, ¬NoConjunction (.op .and :: rest) := fun rest free => absurd (free .and rfl) (by decide)
  have chains := inner.chain noComparison_and (fun _ free => free.noComparison) apart
  rintro ⟨first, items⟩ ⟨second, items'⟩ rest rest' short free free' same
  rw [AndTree.tokens, CmpTree.restTokens_eq] at short same
  rw [AndTree.tokens, CmpTree.restTokens_eq] at same
  obtain ⟨chain, rfl⟩ := chains (first, items) (second, items') rest rest' short free free' same
  obtain ⟨rfl, rfl⟩ := Prod.mk.inj chain
  exact ⟨rfl, rfl⟩

theorem OrTree.decomposes_of (inner : Decomposes bound AndTree.tokens NoConjunction) :
    Decomposes bound OrTree.tokens NoOperator := by
  have apart : ∀ rest, ¬NoOperator (.op .or :: rest) := fun rest free => free .or rfl
  have chains := inner.chain noConjunction_or (fun _ free => free.noConjunction) apart
  rintro ⟨first, items⟩ ⟨second, items'⟩ rest rest' short free free' same
  rw [OrTree.tokens, AndTree.restTokens_eq] at short same
  rw [OrTree.tokens, AndTree.restTokens_eq] at same
  obtain ⟨chain, rfl⟩ := chains (first, items) (second, items') rest rest' short free free' same
  obtain ⟨rfl, rfl⟩ := Prod.mk.inj chain
  exact ⟨rfl, rfl⟩

theorem OrTree.decomposes (bound : Nat) : Decomposes bound OrTree.tokens NoOperator := by
  induction bound with
  | zero => exact fun first _ _ _ short => absurd first.tokens_pos (Nat.not_lt.mpr short)
  | succ bound hypothesis =>
      exact OrTree.decomposes_of (AndTree.decomposes (CmpTree.decomposes (UnaryTree.decomposes
        (PrimaryTree.decomposes hypothesis))))

/-- Tokens have at most one derivation. -/
theorem OrTree.tokens_injective {tree other : OrTree} (same : tree.tokens = other.tokens) : tree = other :=
  (OrTree.decomposes tree.tokens.length tree other [] [] (le_refl _) (fun _ => (Option.some_ne_none _).symm)
    (fun _ => (Option.some_ne_none _).symm) (by rw [same])).1

end Unique

end Temnion.Query
