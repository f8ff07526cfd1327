import Temnion.Optimizer.Evaluation
import Temnion.Query.Reprint

/-
This file proves which expressions can be printed and read again, before and after their optimization.
-/

namespace Temnion.Optimizer

open Query

variable [Binary64]

section Leaves

theorem foldLiterals_bool {op : BinaryOp} {left right folded : Literal}
    (folds : EGraph.foldLiterals op left right = some folded) : ∃ truth, folded = .bool truth := by
  unfold EGraph.foldLiterals at folds
  split at folds
  all_goals first | exact ⟨_, (Option.some.inj folds).symm⟩ | contradiction

open Classical in
/-- An interpretation that only asks whether the leaves of an expression are admitted. -/
noncomputable def admission (admits : ExprToken → Prop) (bools : ∀ truth, admits (.bool truth)) : Meaning Unit where
  literal value := if admits value.token then some () else none
  field name := if admits (.ident name) then some () else none
  binary _ _ _ := some ()
  not _ := some ()
  scan _ _ _ := some ()
  emptyRelation := some ()
  literal_bool truth := ⟨(), if_pos (bools truth)⟩
  not_not _ _ := rfl
  not_bool _ _ := if_pos (bools _)
  neutral_right _ _ := rfl
  neutral_left _ _ := rfl
  absorbing_right _ _ := rfl
  absorbing_left _ _ := rfl
  idempotent _ := rfl
  eq_self _ := if_pos (bools true)
  fold folds _ _ _ := by
    obtain ⟨truth, rfl⟩ := foldLiterals_bool folds
    exact if_pos (bools truth)
  scan_true _ _ := rfl
  scan_false _ _ := rfl

variable {admits : ExprToken → Prop} {bools : ∀ truth, admits (.bool truth)}

theorem admission_denote {expr : Expr} :
    (admission admits bools).denote expr = some () ↔ ∀ leaf ∈ expr.leaves, admits leaf := by
  classical
  have single : ∀ leaf, (if admits leaf then some () else none) = some () ↔ ∀ other ∈ [leaf], admits other := by
    intro leaf
    rw [List.forall_mem_singleton]
    by_cases holds : admits leaf
    · rw [if_pos holds]
      exact iff_of_true rfl holds
    · rw [if_neg holds]
      exact iff_of_false (Option.some_ne_none ()).symm holds
  induction expr with
  | literal value => exact single value.token
  | field name => exact single (.ident name)
  | not inner hypothesis =>
      have first : (admission admits bools).denote (.not inner) = some () ↔
          (admission admits bools).denote inner = some () := by
        rw [Meaning.denote, Option.bind_eq_some_iff]
        constructor
        · rintro ⟨_, denotes, -⟩
          exact denotes
        · exact fun denotes => ⟨(), denotes, rfl⟩
      exact first.trans hypothesis
  | binary op left right first second =>
      have both : (admission admits bools).denote (.binary op left right) = some () ↔
          (admission admits bools).denote left = some () ∧ (admission admits bools).denote right = some () := by
        rw [Meaning.denote, Option.bind_eq_some_iff]
        simp only [Option.bind_eq_some_iff]
        constructor
        · rintro ⟨_, one, _, two, -⟩
          exact ⟨one, two⟩
        · rintro ⟨one, two⟩
          exact ⟨(), one, (), two, rfl⟩
      exact both.trans ((and_congr first second).trans List.forall_mem_append.symm)

end Leaves

/-- What the tool `rewrite_expr` extracts for an expression. -/
def executeRewriteExpr [HashOrder ENode] (fuel : Nat) (expr : Expr) : ExceptT ExtractionError Option (Expr × Nat) :=
  let added := EGraph.new.addExpr expr
  let rebuilt := added.2.rebuild
  let saturated := rebuilt.2.saturate 10
  saturated.2.extractBestExpr fuel added.1

/-- The extracted expression has no leaves but those of the given one and truth values. -/
theorem executeRewriteExpr_leaves [HashOrder ENode] (expr : Expr) : ∃ best cost enough,
    (∀ fuel, enough ≤ fuel → executeRewriteExpr fuel expr = some (.ok (best, cost))) ∧
      ∀ admits : ExprToken → Prop, (∀ truth, admits (.bool truth)) → (∀ leaf ∈ expr.leaves, admits leaf) →
        ∀ leaf ∈ best.leaves, admits leaf := by
  obtain ⟨grows, present, represents⟩ := EGraph.addExpr_represents EGraph.new_wellFormed expr
  have rebuilt := EGraph.rebuild_derives grows.wellFormed
  have derives := rebuilt.trans (EGraph.saturate_derives rebuilt.wellFormed 10)
  obtain ⟨best, represents', _, returned⟩ := EGraph.extractBestExpr_spec (derives.represents represents)
  refine ⟨best, cost best, cost best, returned, ?_⟩
  intro admits bools admitted
  have start : Models (admission admits bools) EGraph.new fun _ => () := EGraph.new_models
  obtain ⟨value, -, models, -⟩ := addExpr_models EGraph.new_wellFormed start (admission_denote.mpr admitted)
  obtain ⟨extended, -, after⟩ := derives.models models
  exact admission_denote.mp (represents'.denote after)

section Printing

variable [Binary64.Display] [Unicode] [HashOrder ENode]

/-- An expression without floats that was read can be printed and read again, and so can its optimized form, exactly
when no quote stands between two others in the text. -/
theorem printed_expressions_read_back_iff {text : Text} {expr : Expr} (read : parseExpr text = .ok expr)
    (integral : ∀ value, .float value ∉ expr.leaves) :
    (parseExpr expr.display = .ok expr ∧ ∃ best cost enough,
      (∀ fuel, enough ≤ fuel → executeRewriteExpr fuel expr = some (.ok (best, cost))) ∧
        ∃ reread, parseExpr best.display = .ok reread ∧ ∀ fields, reread.evaluate fields = best.evaluate fields) ↔
      ∀ inside ∈ quotedTexts 0 text, '"' ∉ inside := by
  have scanned := parseExpr_scanned read integral
  have plain : ¬ expr.Quoted ↔ ∀ inside ∈ quotedTexts 0 text, '"' ∉ inside := by
    rw [parseExpr_quoted read]
    exact ⟨fun none inside member quote => none ⟨inside, member, quote⟩,
      fun each ⟨inside, member, quote⟩ => each inside member quote⟩
  rw [parseExpr_display_iff scanned, ← plain]
  refine ⟨And.left, fun unquoted => ⟨unquoted, ?_⟩⟩
  obtain ⟨best, cost, enough, returned, kept⟩ := executeRewriteExpr_leaves expr
  refine ⟨best, cost, enough, returned, best, ?_, fun _ => rfl⟩
  have still : ¬ best.Quoted := by
    rintro ⟨inside, member, quote⟩
    have free : ∀ leaf ∈ expr.leaves, ∀ text, leaf = .stringLit text → '"' ∉ text := by
      rintro leaf present text rfl marked
      exact unquoted ⟨text, present, marked⟩
    exact kept (fun leaf => ∀ text, leaf = .stringLit text → '"' ∉ text) (fun _ => nofun) free _ member inside rfl quote
  exact (parseExpr_display_iff (kept Scanned (fun _ => trivial) scanned)).mpr still

/-- `NOT (name = "it's")` -/
def quotedComparison : Expr :=
  .not (.binary .eq (.field "name".toList) (.literal (.string "it's".toList)))

omit [Binary64] [Binary64.Display] [Unicode] [HashOrder ENode] in
theorem quotedComparison_read :
    letI := Binary64.exact
    letI := Unicode.ascii
    parseExpr "! (name = \"it's\")".toList = .ok quotedComparison := by decide +kernel

omit [Binary64] [Binary64.Display] [Unicode] [HashOrder ENode] in
/-- A comparison with a string that contains another quote is printed and read again. -/
theorem printed_expressions_read_back_iff_sample :
    letI := Binary64.exact
    letI := Binary64.Display.blank
    letI := Unicode.ascii
    parseExpr "! (name = \"it's\")".toList = .ok quotedComparison ∧
      parseExpr quotedComparison.display = .ok quotedComparison := by
  let := Binary64.exact
  let := Binary64.Display.blank
  let := Unicode.ascii
  let := HashOrder.latest ENode
  have texts : quotedTexts 0 "! (name = \"it's\")".toList = ["it's".toList] := by decide +kernel
  refine ⟨quotedComparison_read, ((printed_expressions_read_back_iff quotedComparison_read ?_).mpr ?_).1⟩
  · intro value member
    rw [quotedComparison, Expr.leaves, Expr.leaves, Expr.leaves, Expr.leaves] at member
    simp [Literal.token] at member
  · intro inside member
    rw [texts] at member
    rw [List.mem_singleton.mp member]
    decide

omit [Binary64] [Binary64.Display] [Unicode] [HashOrder ENode] in
/-- A string with a quote in it is printed as a text that is no expression. -/
theorem quote_in_string_is_not_escaped :
    letI := Binary64.exact
    letI := Binary64.Display.blank
    letI := Unicode.ascii
    letI expr : Expr := .literal (.string "a\"b".toList)
    parseExpr "'a\"b'".toList = .ok expr ∧ expr.leaves = [.stringLit "a\"b".toList] ∧
      expr.display = "\"a\"b\"".toList ∧ parseExpr expr.display = .error .unterminatedString :=
  ⟨by decide +kernel, by decide +kernel, by decide +kernel, by decide +kernel⟩

end Printing

end Temnion.Optimizer
