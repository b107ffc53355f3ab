import Mathlib.Logic.Function.Iterate
import Mathlib.Order.Bounds.Basic

/-!
# Searches along a path

A loop that goes from state to state and ends at the first one that stops it.  The path does not
know what stops it.  So one path can be searched for different things, and where the searches end
compares as the least elements of two sets do (`IsLeast`).

* `search_eq_some_iff`: **where a search ends**.
* `mem_diff_of_lt`: what has to be gone for it to end later.
-/

namespace Search

/-! ### The loop -/

section

variable {σ : Type} (stop : σ → Prop) (next : σ → σ)

/-- The first state behind `s` that stops, if it comes within `fuel` rounds. -/
def search [DecidablePred stop] : Nat → σ → Option σ
  | 0, _ => none
  | fuel + 1, s => if stop (next s) then some (next s) else search fuel (next s)

/-- The rounds that lead to a state that stops, the first of them being round 0. -/
def Stops (s : σ) : Set Nat := {n | stop (next^[n + 1] s)}

variable {stop next}

theorem isLeast_stops_zero {s : σ} (h : stop (next s)) : IsLeast (Stops stop next s) 0 :=
  ⟨h, fun n _ => Nat.zero_le n⟩

theorem isLeast_stops_succ {s : σ} (h : ¬ stop (next s)) (n : Nat) :
    IsLeast (Stops stop next s) (n + 1) ↔ IsLeast (Stops stop next (next s)) n := by
  refine ⟨?_, ?_⟩
  · rintro ⟨hstop, hleast⟩
    refine ⟨hstop, ?_⟩
    intro k hk
    exact Nat.le_of_succ_le_succ (hleast (show k + 1 ∈ Stops stop next s from hk))
  · rintro ⟨hstop, hleast⟩
    refine ⟨hstop, ?_⟩
    intro k hk
    cases k with
    | zero => exact absurd hk h
    | succ k => exact Nat.succ_le_succ (hleast (show k ∈ Stops stop next (next s) from hk))

/-- **Where a search ends**: after the least number of rounds that leads to a state that stops. -/
theorem search_eq_some_iff [DecidablePred stop] {fuel : Nat} {s t : σ} :
    search stop next fuel s = some t ↔
      ∃ n < fuel, IsLeast (Stops stop next s) n ∧ t = next^[n + 1] s := by
  induction fuel generalizing s with
  | zero =>
    refine ⟨fun h => absurd h.symm (Option.some_ne_none t), ?_⟩
    rintro ⟨n, hn, -⟩
    exact absurd hn (Nat.not_lt_zero n)
  | succ fuel ih =>
    rw [search]
    by_cases hstop : stop (next s)
    · rw [if_pos hstop, Option.some_inj]
      refine ⟨?_, ?_⟩
      · rintro rfl
        exact ⟨0, Nat.succ_pos fuel, isLeast_stops_zero hstop, rfl⟩
      · rintro ⟨n, -, hn, rfl⟩
        rw [hn.unique (isLeast_stops_zero hstop)]
        rfl
    · rw [if_neg hstop, ih]
      refine ⟨?_, ?_⟩
      · rintro ⟨n, hn, hleast, rfl⟩
        exact ⟨n + 1, Nat.succ_lt_succ hn, (isLeast_stops_succ hstop n).mpr hleast, rfl⟩
      · rintro ⟨n, hn, hleast, rfl⟩
        cases n with
        | zero => exact absurd hleast.1 hstop
        | succ n =>
          exact ⟨n, Nat.lt_of_succ_lt_succ hn, (isLeast_stops_succ hstop n).mp hleast, rfl⟩

end

/-! ### Least elements -/

section

variable {α : Type} [LinearOrder α] {S S' : Set α} {a a' : α}

theorem mem_diff_of_lt (h : IsLeast S a) (h' : IsLeast S' a') (hlt : a < a') : a ∈ S \ S' :=
  ⟨h.1, fun ha => not_le.mpr hlt (h'.2 ha)⟩

end

end Search
