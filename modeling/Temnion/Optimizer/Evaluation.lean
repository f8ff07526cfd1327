import Temnion.Optimizer.Extract
import Temnion.Optimizer.Saturate

/-
This file proves that optimization through the e-graph keeps the values of expressions.
-/

namespace Temnion.Optimizer

open Query

variable [Binary64]

section Denotation

variable {Value : Type} {meaning : Meaning Value} {value : EClassId → Value} {graph : EGraph} {id : EClassId} {expr : Expr}

/-- An expression that a class represents denotes the value of the class. -/
theorem Represents.denote (represents : Represents graph id expr) (models : Models meaning graph value) :
    meaning.denote expr = some (value id) := by
  have denotes : ∀ {id place node}, node ∈ graph.nodes place → graph.findConst place = graph.findConst id →
      node.denote meaning value = some (value id) := by
    intro id place node member same
    rw [models.nodes place node member, ← models.constant, same, models.constant]
  induction represents with
  | literal member place => exact denotes member place
  | field member place => exact denotes member place
  | not member place _ hypothesis =>
      rw [Meaning.denote, hypothesis]
      exact denotes member place
  | binary member place _ _ left right =>
      rw [Meaning.denote, left, right]
      exact denotes member place

/-- An expression with a value can be added to a graph with a model. -/
theorem addExpr_models {denoted : Value} (wellFormed : EGraph.WellFormed graph) (models : Models meaning graph value)
    (denotes : meaning.denote expr = some denoted) :
    ∃ extended : EClassId → Value, (∀ id < graph.size, extended id = value id) ∧
      Models meaning (graph.addExpr expr).2 extended ∧ extended (graph.addExpr expr).1 = denoted := by
  induction expr generalizing graph value denoted with
  | literal literal => exact EGraph.add_models wellFormed EGraph.literal_within models denotes
  | field name => exact EGraph.add_models wellFormed (fun _ listed => absurd listed List.not_mem_nil) models denotes
  | not inner hypothesis =>
      obtain ⟨operand, innerDenotes, result⟩ := Option.bind_eq_some_iff.mp denotes
      obtain ⟨between, same, models, operand_eq⟩ := hypothesis wellFormed models innerDenotes
      obtain ⟨grows, present, _⟩ := EGraph.addExpr_represents wellFormed inner
      obtain ⟨extended, same', after, denoted_eq⟩ := @EGraph.add_models _ _ (.not (graph.addExpr inner).1) _ _ _ _
        grows.wellFormed (fun child listed => by rwa [List.mem_singleton.mp listed]) models (by rwa [← operand_eq] at result)
      exact ⟨extended, fun id inside => (same' id (lt_of_lt_of_le inside grows.size)).trans (same id inside), after,
        denoted_eq⟩
  | binary op left right leftHypothesis rightHypothesis =>
      obtain ⟨first, leftDenotes, rest⟩ := Option.bind_eq_some_iff.mp denotes
      obtain ⟨second, rightDenotes, result⟩ := Option.bind_eq_some_iff.mp rest
      obtain ⟨between, same, models, left_eq⟩ := leftHypothesis wellFormed models leftDenotes
      obtain ⟨grows, present, _⟩ := EGraph.addExpr_represents wellFormed left
      obtain ⟨between', same', models, right_eq⟩ := rightHypothesis grows.wellFormed models rightDenotes
      obtain ⟨grows', present', _⟩ := EGraph.addExpr_represents grows.wellFormed right
      have applied : (ENode.binary op (graph.addExpr left).1 ((graph.addExpr left).2.addExpr right).1).denote
          meaning between' = some denoted := by
        change meaning.binary op (between' (graph.addExpr left).1) _ = _
        rw [same' _ present, left_eq, right_eq]
        exact result
      obtain ⟨extended, same'', after, denoted_eq⟩ := EGraph.add_models grows'.wellFormed
        (fun child listed => by
          rcases List.mem_cons.mp listed with rfl | listed
          · exact lt_of_lt_of_le present grows'.size
          · rwa [List.mem_singleton.mp listed]) models applied
      refine ⟨extended, ?_, after, denoted_eq⟩
      intro id inside
      rw [same'' id (lt_of_lt_of_le (lt_of_lt_of_le inside grows.size) grows'.size),
        same' id (lt_of_lt_of_le inside grows.size), same id inside]

end Denotation

/-- The literal is a float that does not equal itself. -/
def isNan : Literal → Bool
  | .float value => !Binary64.eq value value
  | _ => false

def literals : Expr → List Literal
  | .literal value => [value]
  | .field _ => []
  | .not inner => literals inner
  | .binary _ left right => literals left ++ literals right

/-- The values of an expression over numbers. -/
abbrev Scalar := {value : Literal // isNan value = false}

/-- The value, unless it is not a number. -/
def scalar (value : Literal) : Option Scalar :=
  if number : isNan value = false then some ⟨value, number⟩ else none

theorem scalar_of_number {value : Literal} (number : isNan value = false) : scalar value = some ⟨value, number⟩ :=
  dif_pos number

theorem scalar_eq_some {value : Literal} {result : Scalar} : scalar value = some result ↔ value = result.val := by
  unfold scalar
  by_cases number : isNan value = false
  · rw [dif_pos number, Option.some.injEq]
    exact Subtype.ext_iff
  · rw [dif_neg number]
    refine iff_of_false nofun ?_
    rintro rfl
    exact number result.property

/-- The result of an operator, unless it fails. -/
def scalarBinary (op : BinaryOp) (left right : Scalar) : Option Scalar :=
  (op.apply left.val right.val).toOption.bind scalar

def scalarNot (operand : Scalar) : Option Scalar :=
  match operand.val with
  | .bool value => some ⟨.bool !value, rfl⟩
  | _ => none

theorem scalarBinary_eq_some {op : BinaryOp} {left right result : Scalar} :
    scalarBinary op left right = some result ↔ op.apply left.val right.val = .ok result.val := by
  unfold scalarBinary
  cases op.apply left.val right.val with
  | error error => exact iff_of_false nofun nofun
  | ok value =>
      change scalar value = some result ↔ _
      rw [scalar_eq_some, Except.ok.injEq]

theorem scalarNot_eq_some {operand result : Scalar} :
    scalarNot operand = some result ↔ ∃ value, operand.val = .bool value ∧ result.val = .bool !value := by
  obtain ⟨operand, number⟩ := operand
  unfold scalarNot
  cases operand with
  | bool value =>
      constructor
      · intro same
        obtain rfl := Option.some.inj same
        exact ⟨value, rfl, rfl⟩
      · rintro ⟨value', same, result_eq⟩
        obtain rfl := Literal.bool.inj same
        exact congrArg some (Subtype.ext result_eq.symm)
  | _ =>
      refine iff_of_false nofun ?_
      rintro ⟨value, same, _⟩
      nomatch same

/-- A connective has a value exactly on booleans. -/
theorem connective_apply_eq_ok {truth : Bool} {left right result : Literal} :
    (connective truth).apply left right = .ok result ↔
      ∃ first second, left = .bool first ∧ right = .bool second ∧
        result = .bool (if truth then first || second else first && second) := by
  constructor
  · intro applied
    cases truth <;> cases left <;> cases right <;>
      first | exact ⟨_, _, rfl, rfl, (Except.ok.inj applied).symm⟩ | contradiction
  · rintro ⟨first, second, rfl, rfl, rfl⟩
    cases truth <;> rfl

theorem foldLiterals_apply {op : BinaryOp} {left right folded : Literal}
    (folds : EGraph.foldLiterals op left right = some folded) : op.apply left right = .ok folded := by
  cases op <;> cases left <;> cases right <;>
    first | contradiction | exact congrArg Except.ok (Option.some.inj folds)

theorem equal_self {value : Literal} (number : isNan value = false) : BinaryOp.equal value value = true := by
  cases value with
  | int value => exact beq_self_eq_true value
  | float value =>
      have number : (!Binary64.eq value value) = false := number
      change Binary64.eq value value = true
      rwa [Bool.not_eq_eq_eq_not, Bool.not_false] at number
  | string value => exact beq_self_eq_true value
  | bool value => exact beq_self_eq_true value

/-- Expressions over these fields respect the rewrite rules. -/
def expressions (fields : Fields) : Meaning Scalar where
  literal := scalar
  field name := (fields.lookup name).bind scalar
  binary := scalarBinary
  not := scalarNot
  scan _ _ _ := none
  emptyRelation := none
  literal_bool truth := ⟨⟨.bool truth, rfl⟩, rfl⟩
  not_not := by
    intro first second third once twice
    obtain ⟨value, first_eq, second_eq⟩ := scalarNot_eq_some.mp once
    obtain ⟨value', second_eq', third_eq⟩ := scalarNot_eq_some.mp twice
    obtain rfl := Literal.bool.inj (second_eq.symm.trans second_eq')
    apply Subtype.ext
    rw [third_eq, first_eq, Bool.not_not]
  not_bool := by
    intro truth first second isTruth negated
    obtain ⟨value, first_eq, second_eq⟩ := scalarNot_eq_some.mp negated
    obtain rfl := Literal.bool.inj ((scalar_eq_some.mp isTruth).trans first_eq)
    exact scalar_eq_some.mpr second_eq.symm
  neutral_right := by
    intro truth neutral first second isNeutral result
    obtain ⟨left, right, left_eq, right_eq, total⟩ := connective_apply_eq_ok.mp (scalarBinary_eq_some.mp result)
    obtain rfl := Literal.bool.inj ((scalar_eq_some.mp isNeutral).trans right_eq)
    apply Subtype.ext
    rw [total, left_eq]
    cases truth <;> cases left <;> rfl
  neutral_left := by
    intro truth neutral first second isNeutral result
    obtain ⟨left, right, left_eq, right_eq, total⟩ := connective_apply_eq_ok.mp (scalarBinary_eq_some.mp result)
    obtain rfl := Literal.bool.inj ((scalar_eq_some.mp isNeutral).trans left_eq)
    apply Subtype.ext
    rw [total, right_eq]
    cases truth <;> cases right <;> rfl
  absorbing_right := by
    intro truth absorbing first second isAbsorbing result
    obtain ⟨left, right, left_eq, right_eq, total⟩ := connective_apply_eq_ok.mp (scalarBinary_eq_some.mp result)
    obtain rfl := Literal.bool.inj ((scalar_eq_some.mp isAbsorbing).trans right_eq)
    apply Subtype.ext
    rw [total, right_eq]
    cases truth <;> cases left <;> rfl
  absorbing_left := by
    intro truth absorbing first second isAbsorbing result
    obtain ⟨left, right, left_eq, right_eq, total⟩ := connective_apply_eq_ok.mp (scalarBinary_eq_some.mp result)
    obtain rfl := Literal.bool.inj ((scalar_eq_some.mp isAbsorbing).trans left_eq)
    apply Subtype.ext
    rw [total, left_eq]
    cases truth <;> cases right <;> rfl
  idempotent := by
    intro truth first second result
    obtain ⟨left, right, left_eq, right_eq, total⟩ := connective_apply_eq_ok.mp (scalarBinary_eq_some.mp result)
    obtain rfl := Literal.bool.inj (left_eq.symm.trans right_eq)
    apply Subtype.ext
    rw [total, left_eq]
    cases truth <;> cases left <;> rfl
  eq_self := by
    intro first second result
    have applied := Except.ok.inj (scalarBinary_eq_some.mp result)
    rw [equal_self first.property] at applied
    exact scalar_eq_some.mpr applied
  fold := by
    intro op left right folded first second result folds left_eq right_eq applied
    rw [scalarBinary_eq_some, ← scalar_eq_some.mp left_eq, ← scalar_eq_some.mp right_eq, foldLiterals_apply folds] at applied
    exact scalar_eq_some.mpr (Except.ok.inj applied)
  scan_true := nofun
  scan_false := nofun

variable {fields : Fields} {expr : Expr}

/-- The result of an operator is a boolean. -/
theorem apply_bool {op : BinaryOp} {left right result : Literal} (applied : op.apply left right = .ok result) :
    ∃ truth, result = .bool truth := by
  cases op <;> cases left <;> cases right <;>
    first | exact ⟨_, (Except.ok.inj applied).symm⟩ | contradiction

theorem evaluate_not_eq_ok {inner : Expr} {result : Literal} : (Expr.not inner).evaluate fields = .ok result ↔
    ∃ truth, inner.evaluate fields = .ok (.bool truth) ∧ result = .bool !truth := by
  rw [Expr.evaluate]
  cases inner.evaluate fields with
  | error error => exact iff_of_false nofun nofun
  | ok value =>
      cases value with
      | bool truth =>
          constructor
          · exact fun same => ⟨truth, rfl, (Except.ok.inj same).symm⟩
          · rintro ⟨_, same, rfl⟩
            obtain rfl := Literal.bool.inj (Except.ok.inj same)
            rfl
      | _ =>
          refine iff_of_false nofun ?_
          rintro ⟨_, same, _⟩
          nomatch Except.ok.inj same

theorem evaluate_binary_eq_ok {op : BinaryOp} {left right : Expr} {result : Literal} :
    (Expr.binary op left right).evaluate fields = .ok result ↔
      ∃ first second, left.evaluate fields = .ok first ∧ right.evaluate fields = .ok second ∧
        op.apply first second = .ok result := by
  rw [Expr.evaluate]
  cases left.evaluate fields with
  | error error => exact iff_of_false nofun nofun
  | ok first =>
      cases right.evaluate fields with
      | error error => exact iff_of_false nofun nofun
      | ok second =>
          constructor
          · exact fun applied => ⟨first, second, rfl, rfl, applied⟩
          · rintro ⟨_, _, leftSame, rightSame, applied⟩
            obtain rfl := Except.ok.inj leftSame
            obtain rfl := Except.ok.inj rightSame
            exact applied

/-- What an expression denotes over the fields is what it evaluates to. -/
theorem denote_evaluate {denoted : Scalar} (denotes : (expressions fields).denote expr = some denoted) :
    expr.evaluate fields = .ok denoted.val := by
  induction expr generalizing denoted with
  | literal literal => exact congrArg Except.ok (scalar_eq_some.mp denotes)
  | field name =>
      obtain ⟨found, present, same⟩ := Option.bind_eq_some_iff.mp denotes
      rw [Expr.evaluate, present, scalar_eq_some.mp same]
  | not inner hypothesis =>
      obtain ⟨operand, innerDenotes, result⟩ := Option.bind_eq_some_iff.mp denotes
      obtain ⟨truth, operand_eq, result_eq⟩ := scalarNot_eq_some.mp result
      exact evaluate_not_eq_ok.mpr ⟨truth, by rw [hypothesis innerDenotes, operand_eq], result_eq⟩
  | binary op left right leftHypothesis rightHypothesis =>
      obtain ⟨first, leftDenotes, rest⟩ := Option.bind_eq_some_iff.mp denotes
      obtain ⟨second, rightDenotes, result⟩ := Option.bind_eq_some_iff.mp rest
      exact evaluate_binary_eq_ok.mpr ⟨first.val, second.val, leftHypothesis leftDenotes,
        rightHypothesis rightDenotes, scalarBinary_eq_some.mp result⟩

/-- An expression that evaluates denotes its value, as long as only numbers occur. -/
theorem evaluate_denote {result : Literal} (evaluates : expr.evaluate fields = .ok result)
    (fieldNumbers : ∀ name field, fields.lookup name = some field → isNan field = false)
    (literalNumbers : ∀ literal ∈ literals expr, isNan literal = false) :
    ∃ denoted : Scalar, (expressions fields).denote expr = some denoted ∧ denoted.val = result := by
  induction expr generalizing result with
  | literal literal =>
      have number := literalNumbers literal List.mem_cons_self
      exact ⟨⟨literal, number⟩, scalar_of_number number, Except.ok.inj evaluates⟩
  | field name =>
      rw [Expr.evaluate] at evaluates
      cases found : fields.lookup name with
      | none =>
          rw [found] at evaluates
          contradiction
      | some field =>
          rw [found] at evaluates
          have number := fieldNumbers name field found
          exact ⟨⟨field, number⟩, Option.bind_eq_some_iff.mpr ⟨field, found, scalar_of_number number⟩,
            Except.ok.inj evaluates⟩
  | not inner hypothesis =>
      obtain ⟨truth, operand, rfl⟩ := evaluate_not_eq_ok.mp evaluates
      obtain ⟨denoted, denotes, same⟩ := hypothesis operand literalNumbers
      exact ⟨⟨.bool !truth, rfl⟩,
        Option.bind_eq_some_iff.mpr ⟨denoted, denotes, scalarNot_eq_some.mpr ⟨truth, same, rfl⟩⟩, rfl⟩
  | binary op left right leftHypothesis rightHypothesis =>
      obtain ⟨first, second, leftEvaluates, rightEvaluates, applied⟩ := evaluate_binary_eq_ok.mp evaluates
      obtain ⟨truth, rfl⟩ := apply_bool applied
      obtain ⟨leftDenoted, leftDenotes, rfl⟩ := leftHypothesis leftEvaluates
        fun literal member => literalNumbers literal (List.mem_append_left _ member)
      obtain ⟨rightDenoted, rightDenotes, rfl⟩ := rightHypothesis rightEvaluates
        fun literal member => literalNumbers literal (List.mem_append_right _ member)
      exact ⟨⟨.bool truth, rfl⟩, Option.bind_eq_some_iff.mpr ⟨leftDenoted, leftDenotes,
        Option.bind_eq_some_iff.mpr ⟨rightDenoted, rightDenotes, scalarBinary_eq_some.mpr applied⟩⟩, rfl⟩

/-- The expression that is extracted after saturation has the value of the one that was added. -/
theorem extractBestExpr_saturate_evaluate [HashOrder ENode] (expr : Expr) (maxIterations : Nat) :
    ∃ best cost enough, (∀ fuel, enough ≤ fuel →
        ((EGraph.new.addExpr expr).2.saturate maxIterations).2.extractBestExpr fuel (EGraph.new.addExpr expr).1 =
          some (.ok (best, cost))) ∧
      ∀ (fields : Fields) (result : Literal), expr.evaluate fields = .ok result →
        (∀ name field, fields.lookup name = some field → isNan field = false) →
        (∀ literal ∈ literals expr, isNan literal = false) → best.evaluate fields = .ok result := by
  obtain ⟨grows, present, represents⟩ := EGraph.addExpr_represents EGraph.new_wellFormed expr
  have derives := EGraph.saturate_derives grows.wellFormed maxIterations
  obtain ⟨best, represents', _, returned⟩ := EGraph.extractBestExpr_spec (derives.represents represents)
  refine ⟨best, cost best, cost best, returned, ?_⟩
  intro fields result evaluates fieldNumbers literalNumbers
  have start : Models (expressions fields) EGraph.new fun _ => ⟨.bool true, rfl⟩ := EGraph.new_models
  obtain ⟨denoted, denotes, rfl⟩ := evaluate_denote evaluates fieldNumbers literalNumbers
  obtain ⟨value, _, models, value_eq⟩ := addExpr_models EGraph.new_wellFormed start denotes
  obtain ⟨extended, same, after⟩ := derives.models models
  apply denote_evaluate
  rw [represents'.denote after, same _ present, value_eq]

/-- `NOT(NOT((f AND (1 < 2))))` -/
def doubleNegation : Expr :=
  .not (.not (.binary .and (.field "f".toList) (.binary .lt (.literal (.int 1)) (.literal (.int 2)))))

omit [Binary64] in
/-- The double negation is extracted in a form that is true where the field is. -/
theorem extractBestExpr_saturate_evaluate_doubleNegation :
    letI := Binary64.exact
    letI := HashOrder.latest ENode
    ∃ best cost enough, (∀ fuel, enough ≤ fuel →
        ((EGraph.new.addExpr doubleNegation).2.saturate 5).2.extractBestExpr fuel
          (EGraph.new.addExpr doubleNegation).1 = some (.ok (best, cost))) ∧
      best.evaluate [("f".toList, .bool true)] = .ok (.bool true) := by
  let := Binary64.exact
  let := HashOrder.latest ENode
  obtain ⟨best, cost, enough, returned, evaluates⟩ := extractBestExpr_saturate_evaluate doubleNegation 5
  refine ⟨best, cost, enough, returned, evaluates [("f".toList, .bool true)] (.bool true) rfl ?_ ?_⟩
  · intro name field found
    obtain ⟨before, after, same, _⟩ := List.lookup_eq_some_iff.mp found
    have member : (name, field) ∈ [("f".toList, Literal.bool true)] := by
      rw [same]
      exact List.mem_append_right before List.mem_cons_self
    rw [(Prod.mk.inj (List.mem_singleton.mp member)).2]
    rfl
  · decide

end Temnion.Optimizer
