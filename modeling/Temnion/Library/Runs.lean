import Mathlib.Data.List.Induction

/-
This file carries an invariant through a run in which every action is allowed where it happens.
-/

namespace Runs

variable {S A : Type} {step : S → A → S} {start : S} {actions done : List A}

theorem foldl_concat (step : S → A → S) (start : S) (done : List A) (action : A) :
    (done ++ [action]).foldl step start = step (done.foldl step start) action := by
  rw [List.foldl_append]
  rfl

/-- What every allowed action keeps holds in every state of a run of allowed actions. -/
theorem foldl_invariant {holds : S → Prop} {allowed : S → A → Prop} (initial : holds start)
    (keeps : ∀ state action, holds state → allowed state action → holds (step state action))
    (all : ∀ done action, done ++ [action] <+: actions → allowed (done.foldl step start) action)
    (within : done <+: actions) : holds (done.foldl step start) := by
  induction done using List.reverseRecOn with
  | nil => exact initial
  | append_singleton done action hypothesis =>
      rw [foldl_concat]
      exact keeps _ _ (hypothesis ((List.prefix_append done [action]).trans within)) (all done action within)

/-- An action of a run and what was done before it are found by the position of the action. -/
theorem forall_prefix (allowed : List A → A → Prop)
    (each : ∀ position (inside : position < actions.length), allowed (actions.take position) actions[position])
    {action : A} (within : done ++ [action] <+: actions) : allowed done action := by
  obtain ⟨rest, rfl⟩ := within
  have inside : done.length < (done ++ [action] ++ rest).length := by
    simp only [List.length_append, List.length_singleton]
    omega
  have front : (done ++ [action] ++ rest).take done.length = done := by
    rw [List.append_assoc, List.take_left]
  have here : (done ++ [action] ++ rest)[done.length] = action := by simp
  have found := each done.length inside
  rwa [front, here] at found

end Runs
