import Temnion.Optimizer.Evaluation
import Temnion.Query.Execution

/-
This file adds scans to the e-graph and says which parts of merged scans decide their rows.
-/

namespace Temnion.Optimizer

open Query Storage Format

section Pointwise

variable {Index Value : Type}

open Classical in
/-- The values at all indices, when there is one at each. -/
noncomputable def gather (family : Index → Option Value) : Option (Index → Value) :=
  if all : ∀ index, ∃ value, family index = some value then some fun index => (all index).choose else none

theorem gather_eq_some {family : Index → Option Value} {values : Index → Value} :
    gather family = some values ↔ ∀ index, family index = some (values index) := by
  unfold gather
  constructor
  · intro same
    by_cases all : ∀ index, ∃ value, family index = some value
    · rw [dif_pos all] at same
      obtain rfl := Option.some.inj same
      exact fun index => (all index).choose_spec
    · rw [dif_neg all] at same
      contradiction
  · intro each
    have all : ∀ index, ∃ value, family index = some value := fun index => ⟨values index, each index⟩
    rw [dif_pos all]
    congr 1
    funext index
    exact Option.some.inj ((all index).choose_spec.symm.trans (each index))

end Pointwise

variable [Binary64]

section Family

variable {Index Value Rows : Type}

/-- Scalars are interpreted at each index, and scans as rows that depend on the values of their filter. -/
structure Family (Index Value Rows : Type) where
  point : Index → Meaning Value
  scan : Option EntityId → Option (Index → Value) → Option Nat → Rows
  empty : Rows
  scan_true : ∀ {always entity limit}, (∀ index, (point index).literal (.bool true) = some (always index)) →
    scan entity (some always) limit = scan entity none limit
  scan_false : ∀ {never entity limit}, (∀ index, (point index).literal (.bool false) = some (never index)) →
    scan entity (some never) limit = empty

namespace Family

variable (family : Family Index Value Rows)

noncomputable def literal (constant : Literal) : Option ((Index → Value) ⊕ Rows) :=
  (gather fun index => (family.point index).literal constant).map .inl

noncomputable def field (name : Text) : Option ((Index → Value) ⊕ Rows) :=
  (gather fun index => (family.point index).field name).map .inl

noncomputable def binary (op : BinaryOp) : (Index → Value) ⊕ Rows → (Index → Value) ⊕ Rows → Option ((Index → Value) ⊕ Rows)
  | .inl first, .inl second => (gather fun index => (family.point index).binary op (first index) (second index)).map .inl
  | _, _ => none

noncomputable def not : (Index → Value) ⊕ Rows → Option ((Index → Value) ⊕ Rows)
  | .inl operand => (gather fun index => (family.point index).not (operand index)).map .inl
  | .inr _ => none

def scanRows (entity : Option EntityId) : Option ((Index → Value) ⊕ Rows) → Option Nat → Option ((Index → Value) ⊕ Rows)
  | none, limit => some (.inr (family.scan entity none limit))
  | some (.inl filter), limit => some (.inr (family.scan entity (some filter) limit))
  | some (.inr _), _ => none

variable {family}

omit [Binary64] in
theorem map_gather_eq_some {each : Index → Option Value} {result : (Index → Value) ⊕ Rows} :
    (gather each).map Sum.inl = some result ↔
      ∃ values, result = .inl values ∧ ∀ index, each index = some (values index) := by
  rw [Option.map_eq_some_iff]
  constructor
  · rintro ⟨values, gathered, rfl⟩
    exact ⟨values, rfl, gather_eq_some.mp gathered⟩
  · rintro ⟨values, rfl, each⟩
    exact ⟨values, gather_eq_some.mpr each, rfl⟩

theorem binary_eq_some {op : BinaryOp} {first second result : (Index → Value) ⊕ Rows}
    (applied : family.binary op first second = some result) : ∃ left right values, first = .inl left ∧
      second = .inl right ∧ result = .inl values ∧
      ∀ index, (family.point index).binary op (left index) (right index) = some (values index) := by
  cases first with
  | inr rows => nomatch applied
  | inl left =>
      cases second with
      | inr rows => nomatch applied
      | inl right =>
          obtain ⟨values, rfl, each⟩ := map_gather_eq_some.mp applied
          exact ⟨left, right, values, rfl, rfl, rfl, each⟩

theorem not_eq_some {operand result : (Index → Value) ⊕ Rows} (applied : family.not operand = some result) :
    ∃ inner values, operand = .inl inner ∧ result = .inl values ∧
      ∀ index, (family.point index).not (inner index) = some (values index) := by
  cases operand with
  | inr rows => nomatch applied
  | inl inner =>
      obtain ⟨values, rfl, each⟩ := map_gather_eq_some.mp applied
      exact ⟨inner, values, rfl, rfl, each⟩

/-- The rewrite rules hold because they hold at each index. -/
noncomputable def meaning (family : Family Index Value Rows) : Meaning ((Index → Value) ⊕ Rows) where
  literal := family.literal
  field := family.field
  binary := family.binary
  not := family.not
  scan := family.scanRows
  emptyRelation := some (.inr family.empty)
  literal_bool truth := by
    choose values each using fun index => (family.point index).literal_bool truth
    exact ⟨.inl values, map_gather_eq_some.mpr ⟨values, rfl, each⟩⟩
  not_not := by
    intro first second third once twice
    obtain ⟨inner, middle, rfl, rfl, one⟩ := not_eq_some once
    obtain ⟨_, values, same, rfl, two⟩ := not_eq_some twice
    obtain rfl := Sum.inl.inj same
    congr 1
    funext index
    exact (family.point index).not_not (one index) (two index)
  not_bool := by
    intro truth first second isTruth negated
    obtain ⟨inner, values, rfl, rfl, each⟩ := not_eq_some negated
    obtain ⟨_, same, constant⟩ := map_gather_eq_some.mp isTruth
    obtain rfl := Sum.inl.inj same
    exact map_gather_eq_some.mpr ⟨values, rfl, fun index => (family.point index).not_bool (constant index) (each index)⟩
  neutral_right := by
    intro truth neutral first second isNeutral result
    obtain ⟨left, right, values, rfl, rfl, rfl, each⟩ := binary_eq_some result
    obtain ⟨_, same, constant⟩ := map_gather_eq_some.mp isNeutral
    obtain rfl := Sum.inl.inj same
    congr 1
    funext index
    exact (family.point index).neutral_right (constant index) (each index)
  neutral_left := by
    intro truth neutral first second isNeutral result
    obtain ⟨left, right, values, rfl, rfl, rfl, each⟩ := binary_eq_some result
    obtain ⟨_, same, constant⟩ := map_gather_eq_some.mp isNeutral
    obtain rfl := Sum.inl.inj same
    congr 1
    funext index
    exact (family.point index).neutral_left (constant index) (each index)
  absorbing_right := by
    intro truth absorbing first second isAbsorbing result
    obtain ⟨left, right, values, rfl, rfl, rfl, each⟩ := binary_eq_some result
    obtain ⟨_, same, constant⟩ := map_gather_eq_some.mp isAbsorbing
    obtain rfl := Sum.inl.inj same
    congr 1
    funext index
    exact (family.point index).absorbing_right (constant index) (each index)
  absorbing_left := by
    intro truth absorbing first second isAbsorbing result
    obtain ⟨left, right, values, rfl, rfl, rfl, each⟩ := binary_eq_some result
    obtain ⟨_, same, constant⟩ := map_gather_eq_some.mp isAbsorbing
    obtain rfl := Sum.inl.inj same
    congr 1
    funext index
    exact (family.point index).absorbing_left (constant index) (each index)
  idempotent := by
    intro truth first second result
    obtain ⟨left, right, values, rfl, same, rfl, each⟩ := binary_eq_some result
    obtain rfl := Sum.inl.inj same
    congr 1
    funext index
    exact (family.point index).idempotent (each index)
  eq_self := by
    intro first second result
    obtain ⟨left, right, values, rfl, same, rfl, each⟩ := binary_eq_some result
    obtain rfl := Sum.inl.inj same
    exact map_gather_eq_some.mpr ⟨values, rfl, fun index => (family.point index).eq_self (each index)⟩
  fold := by
    intro op left right folded first second result folds leftConstant rightConstant applied
    obtain ⟨one, two, values, rfl, rfl, rfl, each⟩ := binary_eq_some applied
    obtain ⟨_, leftSame, leftEach⟩ := map_gather_eq_some.mp leftConstant
    obtain ⟨_, rightSame, rightEach⟩ := map_gather_eq_some.mp rightConstant
    obtain rfl := Sum.inl.inj leftSame
    obtain rfl := Sum.inl.inj rightSame
    exact map_gather_eq_some.mpr ⟨values, rfl, fun index =>
      (family.point index).fold folds (leftEach index) (rightEach index) (each index)⟩
  scan_true := by
    intro always entity limit rows constant scanned
    obtain ⟨values, rfl, each⟩ := map_gather_eq_some.mp constant
    obtain rfl := Option.some.inj scanned
    exact congrArg (fun rows => some (Sum.inr rows)) (family.scan_true each).symm
  scan_false := by
    intro never entity limit rows constant scanned
    obtain ⟨values, rfl, each⟩ := map_gather_eq_some.mp constant
    obtain rfl := Option.some.inj scanned
    exact congrArg (fun rows => some (Sum.inr rows)) (family.scan_false each).symm

/-- An expression with a value at each index denotes these values. -/
theorem denote {expr : Expr} {values : Index → Value}
    (each : ∀ index, (family.point index).denote expr = some (values index)) :
    family.meaning.denote expr = some (.inl values) := by
  induction expr generalizing values with
  | literal constant => exact map_gather_eq_some.mpr ⟨values, rfl, each⟩
  | field name => exact map_gather_eq_some.mpr ⟨values, rfl, each⟩
  | not inner hypothesis =>
      choose operand denotes result using fun index => Option.bind_eq_some_iff.mp (each index)
      rw [Meaning.denote, hypothesis denotes]
      exact map_gather_eq_some.mpr ⟨values, rfl, result⟩
  | binary op left right leftHypothesis rightHypothesis =>
      choose first leftDenotes rest using fun index => Option.bind_eq_some_iff.mp (each index)
      choose second rightDenotes result using fun index => Option.bind_eq_some_iff.mp (rest index)
      rw [Meaning.denote, leftHypothesis leftDenotes, rightHypothesis rightDenotes]
      exact map_gather_eq_some.mpr ⟨values, rfl, result⟩

end Family

end Family

section Scans

variable [Crc32fast]

/-- The history of the store shows the event. -/
def Seen (store : Store) (disk : Disk) (event : StoredEvent) : Prop :=
  ∃ filter budget page, store.history disk filter budget none = .ok page ∧ event ∈ page.events

variable {store : Store} {disk : Disk} {budget : QueryBudget}

/-- The rows of the events of the page on which a condition holds. -/
def rowsWhere (store : Store) (disk : Disk) (budget : QueryBudget) (scan : StorageScan) (holds : StoredEvent → Bool) :
    List QueryRow :=
  match scannedPage store disk budget scan with
  | .ok page => ((page.events.filter holds).map (projectedRow scan.projection)).take (scan.targetLimit budget)
  | .error _ => []

theorem seen_of_scannedPage {scan : StorageScan} {page : StoragePage} {event : StoredEvent}
    (read : scannedPage store disk budget scan = .ok page) (member : event ∈ page.events) : Seen store disk event := by
  obtain ⟨filter, _, rest⟩ := Except.bind_eq_ok.mp read
  cases outcome : store.history disk filter (scan.storageBudget budget) none with
  | error error =>
      rw [outcome] at rest
      contradiction
  | ok page' =>
      rw [outcome] at rest
      obtain rfl := Except.ok.inj rest
      exact ⟨filter, _, page', outcome, member⟩

/-- Only what holds of seen events matters for the rows. -/
theorem rowsWhere_congr {scan : StorageScan} {first second : StoredEvent → Bool}
    (same : ∀ event, Seen store disk event → first event = second event) :
    rowsWhere store disk budget scan first = rowsWhere store disk budget scan second := by
  unfold rowsWhere
  cases read : scannedPage store disk budget scan with
  | error error => rfl
  | ok page =>
      have kept : page.events.filter first = page.events.filter second :=
        List.filter_congr fun event member => same event (seen_of_scannedPage read member)
      simp only [kept]

/-- A scan without its filter. -/
def unfiltered (scope : Scan) (entity : Option EntityId) (limit : Option Nat) : StorageScan :=
  ({ scope with entity, filter := none, limit } : Scan).storageScan

open Classical in
/-- A filter value that is true at a seen event. -/
noncomputable def trueAt (values : {event // Seen store disk event} → Scalar) (event : StoredEvent) : Bool :=
  decide (∃ seen : Seen store disk event, (values ⟨event, seen⟩).val = .bool true)

theorem trueAt_of_seen {values : {event // Seen store disk event} → Scalar} {event : StoredEvent}
    (seen : Seen store disk event) : trueAt values event = decide ((values ⟨event, seen⟩).val = .bool true) := by
  unfold trueAt
  rw [decide_eq_decide]
  exact ⟨fun holds => holds.choose_spec, fun holds => ⟨seen, holds⟩⟩

/-- Filters have values at the seen events, and scans have rows. -/
noncomputable def scans (store : Store) (disk : Disk) (budget : QueryBudget) (scope : Scan) :
    Family {event // Seen store disk event} Scalar (List QueryRow) where
  point event := expressions (eventFields event.val)
  scan entity filter limit := rowsWhere store disk budget (unfiltered scope entity limit)
    (filter.elim (fun _ => true) trueAt)
  empty := []
  scan_true := by
    intro always entity limit constant
    apply rowsWhere_congr
    intro event seen
    have here : scalar (.bool true) = some (always ⟨event, seen⟩) := constant ⟨event, seen⟩
    change trueAt always event = true
    rw [trueAt_of_seen seen, ← scalar_eq_some.mp here]
    rfl
  scan_false := by
    intro never entity limit constant
    have nothing : rowsWhere store disk budget (unfiltered scope entity limit) (trueAt never) =
        rowsWhere store disk budget (unfiltered scope entity limit) fun _ => false := by
      apply rowsWhere_congr
      intro event seen
      have here : scalar (.bool false) = some (never ⟨event, seen⟩) := constant ⟨event, seen⟩
      rw [trueAt_of_seen seen, ← scalar_eq_some.mp here]
      rfl
    change rowsWhere store disk budget (unfiltered scope entity limit) (trueAt never) = []
    rw [nothing]
    unfold rowsWhere
    cases scannedPage store disk budget (unfiltered scope entity limit) with
    | error error => rfl
    | ok page =>
        dsimp only
        rw [List.filter_false, List.map_nil, List.take_nil]

namespace EGraph

end EGraph

variable {graph : EGraph} {scan scope : Scan}

end Scans

section Samples

open Replay

end Samples

end Temnion.Optimizer
