import Mathlib.Data.List.Destutter

/-!
# Debounced inputs

A machine remembers its last input and does nothing when it comes again; and from some states it
does nothing any more.  Its runs depend on the inputs without their repeats only.

* `Debounced.foldl_destutter`: a run is that of the collapsed inputs.
-/

namespace Debounce

variable {σ α : Type} [DecidableEq α]

/-- The inputs after `a`, with every run of equal ones collapsed to one. -/
def collapsed (a : α) (inputs : List α) : List α := (a :: inputs).destutter (· ≠ ·)

theorem collapsed_cons_self (a : α) (inputs : List α) :
    collapsed a (a :: inputs) = collapsed a inputs := by
  rw [collapsed, collapsed, List.destutter_cons', List.destutter_cons']
  exact List.destutter'_cons_neg _ (not_not.mpr rfl)

theorem collapsed_cons_of_ne {a b : α} (h : a ≠ b) (inputs : List α) :
    collapsed a (b :: inputs) = a :: collapsed b inputs := by
  rw [collapsed, collapsed, List.destutter_cons', List.destutter_cons']
  exact List.destutter'_cons_pos _ h

theorem head_collapsed (a : α) (inputs : List α) :
    collapsed a inputs = a :: (collapsed a inputs).tail := by
  induction inputs with
  | nil => rfl
  | cons b inputs ih =>
    by_cases hab : a = b
    · rw [← hab, collapsed_cons_self]
      exact ih
    · rw [collapsed_cons_of_ne hab]
      rfl

/-- A machine that ignores the input it saw last, and every input in a state where it is stuck. -/
structure Debounced (step : σ → α → σ) (last : σ → α) (stuck : σ → Prop) : Prop where
  repeated : ∀ s, step s (last s) = s
  stuck_step : ∀ s a, stuck s → step s a = s
  seen : ∀ s a, ¬ stuck s → last (step s a) = a

namespace Debounced

variable {step : σ → α → σ} {last : σ → α} {stuck : σ → Prop}

omit [DecidableEq α] in
theorem foldl_stuck (D : Debounced step last stuck) {s : σ} (h : stuck s) (inputs : List α) :
    inputs.foldl step s = s := by
  induction inputs with
  | nil => rfl
  | cons a inputs ih =>
    rw [List.foldl_cons, D.stuck_step s a h]
    exact ih

/-- **The run of the collapsed inputs.** -/
theorem foldl_destutter (D : Debounced step last stuck) (s : σ) (inputs : List α) :
    inputs.foldl step s = (collapsed (last s) inputs).tail.foldl step s := by
  by_cases hstuck : stuck s
  · rw [D.foldl_stuck hstuck, D.foldl_stuck hstuck]
  · induction inputs generalizing s with
    | nil => rfl
    | cons a inputs ih =>
      rw [List.foldl_cons]
      by_cases ha : last s = a
      · rw [← ha, D.repeated, collapsed_cons_self]
        exact ih s hstuck
      · have hlast := D.seen s a hstuck
        rw [collapsed_cons_of_ne ha, List.tail_cons, head_collapsed a inputs, List.foldl_cons]
        by_cases hnext : stuck (step s a)
        · rw [D.foldl_stuck hnext, D.foldl_stuck hnext]
        · have hrest := ih (step s a) hnext
          rw [hlast] at hrest
          exact hrest

/-- Inputs that collapse to the same lead to the same state. -/
theorem foldl_eq (D : Debounced step last stuck) (s : σ) {inputs inputs' : List α}
    (h : collapsed (last s) inputs = collapsed (last s) inputs') :
    inputs.foldl step s = inputs'.foldl step s := by
  rw [D.foldl_destutter s inputs, D.foldl_destutter s inputs', h]

end Debounced

end Debounce
