import Mathlib.Data.List.Count
import Mathlib.Logic.Function.Basic
import Mathlib.Logic.Function.Iterate

/-!
# Accumulators by key

A loop over a list of keys, each of which changes the accumulator of its own key only.  Nothing is
assumed of the change, so it cannot be summed up; but the order of different keys does not matter.

* `foldl_bump`: an accumulator is changed as often as its key occurs.
-/

namespace Tally

variable {κ α : Type} [DecidableEq κ]

def bump (change : κ → α → α) (acc : κ → α) (k : κ) : κ → α :=
  Function.update acc k (change k (acc k))

/-- **Each accumulator for itself.** -/
theorem foldl_bump (change : κ → α → α) (keys : List κ) (acc : κ → α) (k : κ) :
    keys.foldl (bump change) acc k = (change k)^[keys.count k] (acc k) := by
  induction keys generalizing acc with
  | nil => rfl
  | cons j keys ih =>
    rw [List.foldl_cons, ih, List.count_cons]
    by_cases hj : j = k
    · rw [hj, if_pos (beq_self_eq_true k), Function.iterate_succ_apply, bump, Function.update_self]
    · rw [if_neg (by rw [beq_iff_eq]; exact hj), bump, Function.update_of_ne (Ne.symm hj),
        Nat.add_zero]

end Tally
