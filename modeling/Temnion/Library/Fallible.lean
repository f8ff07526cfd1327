import Mathlib

/-
This file gives the rules of computations that may fail, with and without a state.
-/

/-- A sequence succeeds exactly when both of its parts do. -/
theorem Except.bind_eq_ok {E A B : Type} {first : Except E A} {next : A → Except E B} {result : B} :
    (first >>= next) = .ok result ↔ ∃ value, first = .ok value ∧ next value = .ok result := by
  cases first <;> simp [bind, Except.bind]

/-- A sequence fails exactly when one of its parts does. -/
theorem Except.bind_eq_error {E A B : Type} {first : Except E A} {next : A → Except E B} {error : E} :
    (first >>= next) = .error error ↔
      first = .error error ∨ ∃ value, first = .ok value ∧ next value = .error error := by
  cases first <;> simp [bind, Except.bind]

/-- A successful first part hands its value to the second. -/
theorem Except.ok_bind {E A B : Type} (value : A) (next : A → Except E B) : (Except.ok value >>= next) = next value :=
  rfl

theorem Except.map_eq_ok {E A B : Type} {change : A → B} {outcome : Except E A} {result : B} :
    outcome.map change = .ok result ↔ ∃ value, outcome = .ok value ∧ change value = result := by
  cases outcome with
  | error error => simp [Except.map]
  | ok value => simp [Except.map]

/-- A changed error does not change a success. -/
theorem Except.mapError_eq_ok {E F A : Type} {change : E → F} {outcome : Except E A} {value : A} :
    outcome.mapError change = .ok value ↔ outcome = .ok value := by
  cases outcome with
  | error error => exact ⟨nofun, nofun⟩
  | ok value' => exact ⟨fun same => congrArg _ (Except.ok.inj same), fun same => congrArg _ (Except.ok.inj same)⟩

theorem Except.error_bind {E A B : Type} (error : E) (next : A → Except E B) :
    (Except.error error >>= next) = .error error := rfl

/-- A fold over an appended list runs the second part after the first. -/
theorem Except.foldlM_append_ok {E A B : Type} {step : B → A → Except E B} {first second : List A}
    {start result : B} :
    (first ++ second).foldlM step start = .ok result ↔
      ∃ middle, first.foldlM step start = .ok middle ∧ second.foldlM step middle = .ok result := by
  rw [List.foldlM_append, Except.bind_eq_ok]

/-- The values of a list are all computed, or the first failure decides. -/
theorem Except.mapM_cases {E A B : Type} (compute : A → Except E B) (items : List A) :
    (∃ values, items.mapM compute = .ok values ∧ ∀ item ∈ items, ∃ value, compute item = .ok value) ∨
      ∃ error, items.mapM compute = .error error ∧ ∃ item ∈ items, compute item = .error error := by
  induction items with
  | nil => exact Or.inl ⟨[], rfl, nofun⟩
  | cons item items hypothesis =>
      rw [List.mapM_cons]
      cases first : compute item with
      | error error => exact Or.inr ⟨error, rfl, item, List.mem_cons_self, first⟩
      | ok value =>
          rw [Except.ok_bind]
          rcases hypothesis with ⟨values, all, each⟩ | ⟨error, stops, failing, member, fails⟩
          · left
            refine ⟨value :: values, by rw [all]; rfl, ?_⟩
            intro other present
            rcases List.mem_cons.mp present with rfl | present
            · exact ⟨value, first⟩
            · exact each other present
          · exact Or.inr ⟨error, by rw [stops]; rfl, failing, List.mem_cons_of_mem _ member, fails⟩

/-- Computations that all succeed give the list of their values. -/
theorem Except.mapM_ok {E A B : Type} {compute : A → Except E B} {image : A → B} {items : List A}
    (each : ∀ item ∈ items, compute item = .ok (image item)) : items.mapM compute = .ok (items.map image) := by
  induction items with
  | nil => rfl
  | cons item items hypothesis =>
      rw [List.mapM_cons, each item List.mem_cons_self, Except.ok_bind,
        hypothesis fun other member => each other (List.mem_cons_of_mem _ member)]
      rfl

/-- What follows a check runs when the check passes. -/
theorem Except.check_bind_ok {E A : Type} {check : Except E Unit} {next : Except E A} {result : A} :
    (check >>= fun _ => next) = .ok result ↔ check = .ok () ∧ next = .ok result := by
  cases check with
  | error error => exact iff_of_false (by nofun) (by nofun)
  | ok done => exact ⟨fun rest => ⟨rfl, rest⟩, And.right⟩

/-- Checks pass on a list when each of them does. -/
theorem Except.forM_ok {E A : Type} {check : A → Except E Unit} {items : List A} {done : Unit} :
    items.forM check = .ok done ↔ ∀ item ∈ items, check item = .ok () := by
  induction items with
  | nil => exact iff_of_true rfl nofun
  | cons item items hypothesis =>
      change (check item >>= fun _ => items.forM check) = .ok () ↔ _
      rw [Except.check_bind_ok, hypothesis, List.forall_mem_cons]

/-- The computation stops with the error when the condition holds. -/
def refuseIf {E : Type} {M : Type → Type} [Monad M] [MonadExcept E M] (condition : Prop) [Decidable condition]
    (error : E) : M Unit :=
  if condition then throw error else pure ()

theorem Except.refuseIf_ok {E : Type} {condition : Prop} [Decidable condition] {error : E} {done : Unit} :
    (refuseIf condition error : Except E Unit) = .ok done ↔ ¬condition := by
  unfold refuseIf
  split <;> simp_all [throw, throwThe, MonadExceptOf.throw, MonadExcept.throw, pure, Except.pure]

theorem Except.refuseIf_error {E : Type} {condition : Prop} [Decidable condition] {error refused : E} :
    (refuseIf condition error : Except E Unit) = .error refused ↔ condition ∧ error = refused := by
  unfold refuseIf
  split <;> simp_all [throw, throwThe, MonadExceptOf.throw, MonadExcept.throw, pure, Except.pure]

/-- A check that passes leaves the rest of the computation. -/
theorem Except.refuseIf_bind {E A : Type} {condition : Prop} [Decidable condition] {error : E}
    {next : Unit → Except E A} (passes : ¬condition) : (refuseIf condition error >>= next) = next () := by
  unfold refuseIf
  rw [if_neg passes]
  rfl

/-- A check that fails decides the computation. -/
theorem Except.refuseIf_bind_error {E A : Type} {condition : Prop} [Decidable condition] {error : E}
    {next : Unit → Except E A} (refuses : condition) : (refuseIf condition error >>= next) = .error error := by
  unfold refuseIf
  rw [if_pos refuses]
  rfl

/-- The sum of two machine words, or the error when it leaves the sixty-four bits. -/
def checkedAdd {E : Type} (error : E) (first second : Nat) : Except E Nat :=
  if first + second < 2 ^ 64 then .ok (first + second) else .error error

theorem checkedAdd_error {E : Type} {error refused : E} {first second : Nat}
    (failed : checkedAdd error first second = .error refused) : refused = error := by
  unfold checkedAdd at failed
  split at failed
  · contradiction
  · exact (Except.error.inj failed).symm

def checkedMul {E : Type} (error : E) (first second : Nat) : Except E Nat :=
  if first * second < 2 ^ 64 then .ok (first * second) else .error error

theorem checkedAdd_ok {E : Type} {error : E} {first second sum : Nat} :
    checkedAdd error first second = .ok sum ↔ first + second < 2 ^ 64 ∧ first + second = sum := by
  unfold checkedAdd
  split <;> simp_all

theorem checkedMul_ok {E : Type} {error : E} {first second product : Nat} :
    checkedMul error first second = .ok product ↔ first * second < 2 ^ 64 ∧ first * second = product := by
  unfold checkedMul
  split <;> simp_all

/-- A success meets one condition and a failure the other. -/
def Except.Ends {E A : Type} (outcome : Except E A) (after : A → Prop) (failed : E → Prop) : Prop :=
  (∀ value, outcome = .ok value → after value) ∧ ∀ error, outcome = .error error → failed error

section Ends

variable {E A B : Type} {after : A → Prop} {failed : E → Prop}

theorem Except.Ends.ok {value : A} (holds : after value) : (Except.ok value : Except E A).Ends after failed :=
  ⟨fun _ same => Except.ok.inj same ▸ holds, fun _ other => absurd other (by nofun)⟩

theorem Except.Ends.error {error : E} (holds : failed error) : (Except.error error : Except E A).Ends after failed :=
  ⟨fun _ other => absurd other (by nofun), fun _ same => Except.error.inj same ▸ holds⟩

/-- The second part starts from what the first part ensures. -/
theorem Except.Ends.bind {first : Except E A} {next : A → Except E B} {last : B → Prop}
    (head : first.Ends after failed) (tail : ∀ value, after value → (next value).Ends last failed) :
    (first >>= next).Ends last failed := by
  cases first with
  | error error => exact Except.Ends.error (head.2 error rfl)
  | ok value => exact tail value (head.1 value rfl)

theorem Except.Ends.refuseIf_bind {condition : Prop} [Decidable condition] {error : E} {next : Unit → Except E A}
    (refuses : condition → failed error) (passes : ¬condition → (next ()).Ends after failed) :
    (refuseIf condition error >>= next).Ends after failed := by
  by_cases holds : condition
  · rw [Except.refuseIf_bind_error holds]
    exact Except.Ends.error (refuses holds)
  · rw [Except.refuseIf_bind holds]
    exact passes holds

end Ends

/-- An action changes its state step by step and keeps the state it reached when it fails. -/
def Procedure (S E A : Type) := S → Except E A × S

namespace Procedure

variable {S E A B : Type}

def pure (value : A) : Procedure S E A := fun state => (.ok value, state)

def bind (first : Procedure S E A) (next : A → Procedure S E B) : Procedure S E B := fun state =>
  match first state with
  | (.ok value, reached) => next value reached
  | (.error error, reached) => (.error error, reached)

instance : Monad (Procedure S E) where
  pure := Procedure.pure
  bind := Procedure.bind

/-- The action stops with an error and leaves the state as it is. -/
def fail (error : E) : Procedure S E A := fun state => (.error error, state)

instance : MonadExcept E (Procedure S E) where
  throw := fail
  tryCatch action handler := fun state =>
    match action state with
    | (.error error, reached) => handler error reached
    | done => done

def read : Procedure S E S := fun state => (.ok state, state)

def update (change : S → S) : Procedure S E Unit := fun state => (.ok (), change state)

/-- A pure computation runs without touching the state. -/
def lift (outcome : Except E A) : Procedure S E A := fun state => (outcome, state)

/-- The outcome of the action becomes a value, so that the caller can react to a failure. -/
def attempt (action : Procedure S E A) : Procedure S E (Except E A) := fun state =>
  (.ok (action state).1, (action state).2)

@[simp] theorem pure_apply (value : A) (state : S) :
    (Pure.pure value : Procedure S E A) state = (.ok value, state) := rfl

@[simp] theorem fail_apply (error : E) (state : S) :
    (fail error : Procedure S E A) state = (.error error, state) := rfl

/-- A refused action leaves the state as it is. -/
theorem refuseIf_apply (condition : Prop) [Decidable condition] (error : E) (state : S) :
    (refuseIf condition error : Procedure S E Unit) state =
      (if condition then .error error else .ok (), state) := by
  unfold refuseIf
  split <;> rfl

@[simp] theorem read_apply (state : S) : (read : Procedure S E S) state = (.ok state, state) := rfl

@[simp] theorem update_apply (change : S → S) (state : S) :
    (update change : Procedure S E Unit) state = (.ok (), change state) := rfl

@[simp] theorem lift_apply (outcome : Except E A) (state : S) :
    (lift outcome : Procedure S E A) state = (outcome, state) := rfl

@[simp] theorem attempt_apply (action : Procedure S E A) (state : S) :
    attempt action state = (.ok (action state).1, (action state).2) := rfl

theorem bind_apply (first : Procedure S E A) (next : A → Procedure S E B) (state : S) :
    (first >>= next) state =
      match first state with
      | (.ok value, reached) => next value reached
      | (.error error, reached) => (.error error, reached) := rfl

/-- A successful first part hands its value and state to the second. -/
theorem bind_of_ok {first : Procedure S E A} {next : A → Procedure S E B} {state reached : S} {value : A}
    (ran : first state = (.ok value, reached)) : (first >>= next) state = next value reached := by
  rw [bind_apply, ran]

/-- A failed first part decides the whole sequence. -/
theorem bind_of_error {first : Procedure S E A} {next : A → Procedure S E B} {state reached : S} {error : E}
    (ran : first state = (.error error, reached)) : (first >>= next) state = (.error error, reached) := by
  rw [bind_apply, ran]

/-- A sequence succeeds when both of its parts do. -/
theorem bind_eq_ok {first : Procedure S E A} {next : A → Procedure S E B} {state reached : S} {value : B} :
    (first >>= next) state = (.ok value, reached) ↔
      ∃ middle between, first state = (.ok middle, between) ∧ next middle between = (.ok value, reached) := by
  rw [bind_apply]
  rcases ran : first state with ⟨outcome, between⟩
  cases outcome with
  | error error => exact iff_of_false nofun nofun
  | ok middle =>
      constructor
      · intro ends
        exact ⟨middle, between, rfl, ends⟩
      · intro parts
        obtain ⟨_, _, same, ends⟩ := parts
        obtain ⟨value, rfl⟩ := Prod.mk.inj same
        obtain rfl := Except.ok.inj value
        exact ends

theorem refuseIf_eq_ok {condition : Prop} [Decidable condition] {error : E} {done : Unit} {state reached : S} :
    (refuseIf condition error : Procedure S E Unit) state = (.ok done, reached) ↔ ¬condition ∧ reached = state := by
  rw [refuseIf_apply, Prod.mk.injEq]
  by_cases holds : condition
  · rw [if_pos holds]
    exact iff_of_false (by nofun) fun both => both.1 holds
  · rw [if_neg holds]
    exact ⟨fun both => ⟨holds, both.2.symm⟩, fun both => ⟨rfl, both.2.symm⟩⟩

/-- A pure computation hands its value on, or stops the sequence with its error. -/
theorem lift_bind_ok (value : A) (next : A → Procedure S E B) (state : S) :
    ((lift (.ok value) : Procedure S E A) >>= next) state = next value state := rfl

theorem lift_bind_error (error : E) (next : A → Procedure S E B) (state : S) :
    ((lift (.error error) : Procedure S E A) >>= next) state = (.error error, state) := rfl

/-- A check that passes leaves the rest of the sequence. -/
theorem refuseIf_bind {condition : Prop} [Decidable condition] {error : E} {next : Unit → Procedure S E B}
    (passes : ¬condition) (state : S) :
    ((refuseIf condition error : Procedure S E Unit) >>= next) state = next () state := by
  apply bind_of_ok
  rw [refuseIf_apply, if_neg passes]

theorem refuseIf_bind_error {condition : Prop} [Decidable condition] {error : E} {next : Unit → Procedure S E B}
    (refuses : condition) (state : S) :
    ((refuseIf condition error : Procedure S E Unit) >>= next) state = (.error error, state) := by
  apply bind_of_error
  rw [refuseIf_apply, if_pos refuses]

/-- From any state of `before` the action ends in `after` or, when it fails, in `failed`. -/
def Meets (before : S → Prop) (action : Procedure S E A) (after : A → S → Prop)
    (failed : E → S → Prop) : Prop :=
  ∀ state, before state →
    match action state with
    | (.ok value, reached) => after value reached
    | (.error error, reached) => failed error reached

section Rules

variable {before : S → Prop} {after : A → S → Prop} {failed : E → S → Prop}

theorem Meets.pure {value : A} (holds : ∀ state, before state → after value state) :
    Meets before (Pure.pure value : Procedure S E A) after failed := holds

theorem Meets.fail {error : E} (holds : ∀ state, before state → failed error state) :
    Meets before (Procedure.fail error : Procedure S E A) after failed := holds

/-- The second part starts from what the first part ensures. -/
theorem Meets.bind {first : Procedure S E A} {next : A → Procedure S E B} {last : B → S → Prop}
    (head : Meets before first after failed)
    (tail : ∀ value, Meets (after value) (next value) last failed) :
    Meets before (first >>= next) last failed := by
  intro state start
  have reached := head state start
  rw [bind_apply]
  rcases ran : first state with ⟨outcome, middle⟩
  rw [ran] at reached
  cases outcome with
  | ok value => exact tail value middle reached
  | error error => exact reached

/-- When the value of the first part is known, the second part need be proved for this value alone. -/
theorem Meets.bind_value {first : Procedure S E A} {next : A → Procedure S E B} {value : A} {middle : S → Prop}
    {last : B → S → Prop} (head : Meets before first (fun result state => result = value ∧ middle state) failed)
    (tail : Meets middle (next value) last failed) : Meets before (first >>= next) last failed := by
  apply head.bind
  intro result state reached
  obtain ⟨rfl, holds⟩ := reached
  exact tail state holds

/-- Reading the state tells the rest which state it is. -/
theorem Meets.read {next : S → Procedure S E B} {last : B → S → Prop}
    (tail : ∀ state, before state → Meets (fun reached => reached = state) (next state) last failed) :
    Meets before (Procedure.read >>= next) last failed := fun state start =>
  tail state start state rfl

theorem Meets.refuseIf {condition : Prop} [Decidable condition] {error : E} {after : Unit → S → Prop}
    (passes : ¬condition → ∀ state, before state → after () state)
    (refuses : condition → ∀ state, before state → failed error state) :
    Meets before (refuseIf condition error : Procedure S E Unit) after failed := by
  intro state start
  rw [refuseIf_apply]
  by_cases holds : condition
  · simpa only [if_pos holds] using refuses holds state start
  · simpa only [if_neg holds] using passes holds state start

theorem Meets.update {change : S → S} {after : Unit → S → Prop}
    (holds : ∀ state, before state → after () (change state)) :
    Meets before (Procedure.update change : Procedure S E Unit) after failed := holds

theorem Meets.lift {outcome : Except E A}
    (right : ∀ value, outcome = .ok value → ∀ state, before state → after value state)
    (wrong : ∀ error, outcome = .error error → ∀ state, before state → failed error state) :
    Meets before (Procedure.lift outcome : Procedure S E A) after failed := by
  intro state start
  cases outcome with
  | ok value => exact right value rfl state start
  | error error => exact wrong error rfl state start

theorem Meets.consequence {action : Procedure S E A} {earlier : S → Prop} {later : A → S → Prop}
    {worse : E → S → Prop} (meets : Meets before action after failed)
    (start : ∀ state, earlier state → before state)
    (finish : ∀ value state, after value state → later value state)
    (stop : ∀ error state, failed error state → worse error state) :
    Meets earlier action later worse := by
  intro state holds
  have reached := meets state (start state holds)
  rcases ran : action state with ⟨outcome, middle⟩
  rw [ran] at reached
  cases outcome with
  | ok value => exact finish value middle reached
  | error error => exact stop error middle reached

/-- A loop that keeps its invariant at every round ends with it. -/
theorem Meets.foldlM {step : B → A → Procedure S E B} {invariant : B → S → Prop} {items : List A} {start : B}
    (round : ∀ value item, item ∈ items → Meets (invariant value) (step value item) invariant failed) :
    Meets (invariant start) (items.foldlM step start) invariant failed := by
  induction items generalizing start with
  | nil => exact Meets.pure fun _ holds => holds
  | cons item items ih =>
      rw [List.foldlM_cons]
      exact (round start item List.mem_cons_self).bind fun value =>
        ih fun value item member => round value item (List.mem_cons_of_mem _ member)

end Rules

/-- The action leaves this part of the state as it is, whether it succeeds or not. -/
def Preserves {B : Type} (view : S → B) (action : Procedure S E A) : Prop :=
  ∀ state, view (action state).2 = view state

section Preserves

variable {C : Type} {view : S → C}

theorem Preserves.pure (value : A) : Preserves view (Pure.pure value : Procedure S E A) := fun _ => rfl

theorem Preserves.read : Preserves view (Procedure.read : Procedure S E S) := fun _ => rfl

theorem Preserves.lift (outcome : Except E A) : Preserves view (Procedure.lift outcome : Procedure S E A) := fun _ => rfl

theorem Preserves.refuseIf (condition : Prop) [Decidable condition] (error : E) :
    Preserves view (refuseIf condition error : Procedure S E Unit) := fun state => by rw [refuseIf_apply]

theorem Preserves.bind {first : Procedure S E A} {next : A → Procedure S E B} (head : Preserves view first)
    (tail : ∀ value, Preserves view (next value)) : Preserves view (first >>= next) := by
  intro state
  have reached := head state
  rw [bind_apply]
  rcases ran : first state with ⟨outcome, middle⟩
  rw [ran] at reached
  cases outcome with
  | ok value => exact (tail value middle).trans reached
  | error error => exact reached

theorem Preserves.foldlM {step : B → A → Procedure S E B} {items : List A}
    (round : ∀ value item, Preserves view (step value item)) (start : B) :
    Preserves view (items.foldlM step start) := by
  induction items generalizing start with
  | nil => exact Preserves.pure start
  | cons item items hypothesis =>
      rw [List.foldlM_cons]
      exact (round start item).bind hypothesis

/-- What holds of the preserved part holds in every outcome. -/
theorem Preserves.meets {action : Procedure S E A} (preserves : Preserves view action) (holds : C → Prop) :
    Meets (fun state => holds (view state)) action (fun _ state => holds (view state))
      fun _ state => holds (view state) := by
  intro state start
  have reached := preserves state
  rcases ran : action state with ⟨outcome, middle⟩
  rw [ran] at reached
  rw [← reached] at start
  cases outcome <;> exact start

end Preserves

end Procedure

theorem Option.mapM_congr {A B : Type} {first second : A → Option B} {items : List A}
    (same : ∀ item ∈ items, first item = second item) : items.mapM first = items.mapM second := by
  induction items with
  | nil => rfl
  | cons item items hypothesis =>
      rw [List.mapM_cons, List.mapM_cons, same item List.mem_cons_self,
        hypothesis fun other member => same other (List.mem_cons_of_mem item member)]

/-- A list that is read at all its indices is the list. -/
theorem Option.mapM_range {A : Type} (items : List A) : (List.range items.length).mapM (fun i => items[i]?) = some items := by
  induction items using List.reverseRecOn with
  | nil => rfl
  | append_singleton items item hypothesis =>
      have front : (List.range items.length).mapM (fun i => (items ++ [item])[i]?) =
          (List.range items.length).mapM fun i => items[i]? :=
        Option.mapM_congr fun i inside => List.getElem?_append_left (List.mem_range.mp inside)
      rw [List.length_append, List.length_singleton, List.range_succ, List.mapM_append, front, hypothesis]
      simp
