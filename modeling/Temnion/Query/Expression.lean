import Temnion.Core
import Temnion.Library.Text

/-
This file defines the scalar expressions of a query and their evaluation over the fields of an event.
-/

namespace Temnion.Query

/-- The numbers of the type `f64` as far as a query reads and compares them. -/
class Binary64 where
  Carrier : Type
  decidable : DecidableEq Carrier
  parse : Text → Option Carrier
  eq : Carrier → Carrier → Bool
  lt : Carrier → Carrier → Bool
  le : Carrier → Carrier → Bool

instance [Binary64] : DecidableEq Binary64.Carrier := Binary64.decidable

/-- The character classes and the case mapping that the standard library takes from Unicode. -/
class Unicode where
  isAlphabetic : Char → Bool
  isAlphanumeric : Char → Bool
  toLowercase : Text → Text
  alphabetic_alphanumeric : ∀ character, isAlphabetic character → isAlphanumeric character
  alphabetic_ascii : ∀ character : Char, character.toNat < 128 → isAlphabetic character = character.isAlpha
  alphanumeric_ascii : ∀ character : Char, character.toNat < 128 → isAlphanumeric character = character.isAlphanum
  whitespace_not_alphanumeric : ∀ character, Text.isWhitespace character → isAlphanumeric character = false
  lowercase_caseless : ∀ front rest : Text,
    (∀ character ∈ front, character.toNat < 128 ∨ Text.isWhitespace character) →
      ∃ tail, toLowercase (front ++ rest) = front.map Char.toLower ++ tail ∧ (rest = [] → tail = [])

theorem isAlphanum_bound {character : Char} (holds : character.isAlphanum = true) :
    48 ≤ character.toNat ∧ character.toNat < 123 := by
  simp only [Char.isAlphanum, Char.isAlpha, Char.isUpper, Char.isLower, Char.isDigit, Bool.or_eq_true,
    Bool.and_eq_true, decide_eq_true_eq, ge_iff_le, UInt32.le_iff_toNat_le] at holds
  have same : character.toNat = character.val.toNat := rfl
  simp at holds
  omega

/-- The classes and the case mapping of the characters below 128, which no other character takes part in. -/
@[reducible] def Unicode.ascii : Unicode where
  isAlphabetic := Char.isAlpha
  isAlphanumeric := Char.isAlphanum
  toLowercase := List.map Char.toLower
  alphabetic_alphanumeric character alphabetic := by
    rw [Char.isAlphanum, alphabetic, Bool.true_or]
  alphabetic_ascii _ _ := rfl
  alphanumeric_ascii _ _ := rfl
  whitespace_not_alphanumeric character white := by
    rw [Bool.eq_false_iff]
    intro alphanumeric
    have bound := isAlphanum_bound alphanumeric
    simp only [Text.isWhitespace, Bool.or_eq_true, decide_eq_true_eq, beq_iff_eq] at white
    omega
  lowercase_caseless front rest _ := ⟨rest.map Char.toLower, List.map_append, fun empty => by rw [empty, List.map_nil]⟩

/-- The number that a decimal fraction spells. -/
def fraction (text : Text) : Option ℚ :=
  match Text.splitOnce ".".toList text with
  | none => none
  | some (whole, part) =>
      if (whole ++ part).all Char.isDigit && !whole.isEmpty then
        some ((Nat.ofDigitChars 10 (whole ++ part) 0 : ℚ) / 10 ^ part.length)
      else none

/-- Numbers that are kept and compared exactly. -/
@[reducible] def Binary64.exact : Binary64 where
  Carrier := ℚ
  decidable := inferInstance
  parse := fraction
  eq first second := decide (first = second)
  lt first second := decide (first < second)
  le first second := decide (first ≤ second)

section Types

variable [Binary64]

inductive Literal where
  | int (value : Int64)
  | float (value : Binary64.Carrier)
  | string (value : Text)
  | bool (value : Bool)
  deriving DecidableEq

inductive BinaryOp where
  | eq
  | notEq
  | lt
  | lte
  | gt
  | gte
  | and
  | or
  deriving DecidableEq, Repr

inductive Expr where
  | literal (value : Literal)
  | field (name : Text)
  | binary (op : BinaryOp) (left right : Expr)
  | not (inner : Expr)
  deriving DecidableEq

/-- Why an expression has no value. -/
inductive EvaluationError where
  | fieldNotFound (name : Text)
  | comparisonOperands
  | andOperands
  | orOperands
  | notOperand
  deriving DecidableEq, Repr

/-- The values of the named fields. -/
abbrev Fields := List (Text × Literal)

namespace BinaryOp

/-- Values of different types are never equal. -/
def equal : Literal → Literal → Bool
  | .int left, .int right => left == right
  | .float left, .float right => Binary64.eq left right
  | .string left, .string right => left == right
  | .bool left, .bool right => left == right
  | _, _ => false

/-- Only two integers or two floats are compared. -/
def compare (ints : Int64 → Int64 → Bool) (floats : Binary64.Carrier → Binary64.Carrier → Bool) :
    Literal → Literal → Except EvaluationError Literal
  | .int left, .int right => .ok (.bool (ints left right))
  | .float left, .float right => .ok (.bool (floats left right))
  | _, _ => .error .comparisonOperands

def connect (error : EvaluationError) (connective : Bool → Bool → Bool) :
    Literal → Literal → Except EvaluationError Literal
  | .bool left, .bool right => .ok (.bool (connective left right))
  | _, _ => .error error

def apply (left right : Literal) : BinaryOp → Except EvaluationError Literal
  | .eq => .ok (.bool (equal left right))
  | .notEq => .ok (.bool (!equal left right))
  | .lt => compare (fun left right => decide (left < right)) Binary64.lt left right
  | .lte => compare (fun left right => decide (left ≤ right)) Binary64.le left right
  | .gt => compare (fun left right => decide (right < left)) (fun left right => Binary64.lt right left) left right
  | .gte => compare (fun left right => decide (right ≤ left)) (fun left right => Binary64.le right left) left right
  | .and => connect .andOperands (· && ·) left right
  | .or => connect .orOperands (· || ·) left right

end BinaryOp

namespace Expr

/-- Both operands are evaluated before the operator looks at them. -/
def evaluate (fields : Fields) : Expr → Except EvaluationError Literal
  | .literal value => .ok value
  | .field name =>
      match fields.lookup name with
      | some value => .ok value
      | none => .error (.fieldNotFound name)
  | .not inner => do
      match ← evaluate fields inner with
      | .bool value => .ok (.bool !value)
      | _ => .error .notOperand
  | .binary op left right => do
      let first ← evaluate fields left
      let second ← evaluate fields right
      op.apply first second

end Expr

end Types

/-- An entity as it is written in a query. -/
def entityText (entity : EntityId) : Text :=
  Text.decimal entity.shard.toNat ++ ':' :: Text.decimal entity.slot.toNat ++
    ':' :: Text.decimal entity.generation.toNat

section Fields

variable [Binary64]

/-- The fields of an event that a query can name. -/
def eventFields (event : StoredEvent) : Fields := [
  ("entity".toList, .string (entityText event.entity)),
  ("schema".toList, .int event.schema.toUInt64.toInt64),
  ("valid_time".toList, .int event.times.valid.ticks.toInt64),
  ("known_time".toList, .int event.times.known.ticks.toInt64),
  ("sequence".toList, .int event.id.sequence.toInt64)]

end Fields

section Static

variable [Binary64]

inductive Kind where
  | int
  | float
  | string
  | bool
  deriving DecidableEq, Repr

def Literal.kind : Literal → Kind
  | .int _ => .int
  | .float _ => .float
  | .string _ => .string
  | .bool _ => .bool

/-- The type of the value of an operator over operands of these types. -/
def BinaryOp.resultKind (left right : Kind) : BinaryOp → Except EvaluationError Kind
  | .eq | .notEq => .ok .bool
  | .lt | .lte | .gt | .gte =>
      if left = right ∧ (left = .int ∨ left = .float) then .ok .bool else .error .comparisonOperands
  | .and => if left = .bool ∧ right = .bool then .ok .bool else .error .andOperands
  | .or => if left = .bool ∧ right = .bool then .ok .bool else .error .orOperands

/-- Whether an operator fails and what it returns depends only on the types of its operands. -/
theorem BinaryOp.apply_kind (op : BinaryOp) (left right : Literal) :
    (op.apply left right).map Literal.kind = resultKind left.kind right.kind op := by
  cases op <;> cases left <;> cases right <;> rfl

theorem lookup_kind {one other : Fields}
    (same : List.Forall₂ (fun here there => here.1 = there.1 ∧ here.2.kind = there.2.kind) one other) (name : Text) :
    (one.lookup name).map Literal.kind = (other.lookup name).map Literal.kind := by
  induction same with
  | nil => rfl
  | cons both rest hypothesis =>
      next here there one other =>
      rw [List.lookup_cons, List.lookup_cons, ← both.1]
      by_cases found : name = here.1
      · rw [beq_iff_eq.mpr found]
        exact congrArg some both.2
      · rw [beq_eq_false_iff_ne.mpr found]
        exact hypothesis

/-- The fields of all events have the same names and types. -/
theorem eventFields_kind (one other : StoredEvent) (name : Text) :
    ((eventFields one).lookup name).map Literal.kind = ((eventFields other).lookup name).map Literal.kind := by
  apply lookup_kind
  exact .cons ⟨rfl, rfl⟩ (.cons ⟨rfl, rfl⟩ (.cons ⟨rfl, rfl⟩ (.cons ⟨rfl, rfl⟩ (.cons ⟨rfl, rfl⟩ .nil))))

/-- Whether an expression fails, and the type of its value, are the same for all events. -/
theorem Expr.evaluate_static (expr : Expr) (one other : StoredEvent) :
    (expr.evaluate (eventFields one)).map Literal.kind = (expr.evaluate (eventFields other)).map Literal.kind := by
  induction expr with
  | literal value => rfl
  | field name =>
      have same := eventFields_kind one other name
      unfold evaluate
      cases here : (eventFields one).lookup name with
      | none =>
          rw [here] at same
          rw [Option.map_eq_none_iff.mp same.symm]
      | some value =>
          rw [here] at same
          obtain ⟨value', there, kind⟩ := Option.map_eq_some_iff.mp same.symm
          rw [there]
          exact congrArg Except.ok kind.symm
  | not inner hypothesis =>
      unfold evaluate
      generalize inner.evaluate (eventFields one) = here at hypothesis ⊢
      generalize inner.evaluate (eventFields other) = there at hypothesis ⊢
      cases here with
      | error error =>
          cases there with
          | error error' => exact hypothesis
          | ok value' => contradiction
      | ok value =>
          cases there with
          | error error' => contradiction
          | ok value' =>
              have kind : value.kind = value'.kind := Except.ok.inj hypothesis
              cases value <;> cases value' <;> cases kind <;> rfl
  | binary op left right first second =>
      unfold evaluate
      generalize left.evaluate (eventFields one) = here at first ⊢
      generalize left.evaluate (eventFields other) = there at first ⊢
      generalize right.evaluate (eventFields one) = near at second ⊢
      generalize right.evaluate (eventFields other) = far at second ⊢
      cases here with
      | error error =>
          cases there with
          | error error' => exact first
          | ok value' => contradiction
      | ok value =>
          cases there with
          | error error' => contradiction
          | ok value' =>
              cases near with
              | error error =>
                  cases far with
                  | error error' => exact second
                  | ok other' => contradiction
              | ok other =>
                  cases far with
                  | error error' => contradiction
                  | ok other' =>
                      have kind : value.kind = value'.kind := Except.ok.inj first
                      have kind' : other.kind = other'.kind := Except.ok.inj second
                      change (op.apply value other).map Literal.kind = (op.apply value' other').map Literal.kind
                      rw [op.apply_kind, op.apply_kind, kind, kind']

end Static

end Temnion.Query
