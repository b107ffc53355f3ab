import Antagonist.Lib.Lts
import Mathlib.Data.Finset.Max
import Mathlib.Data.Finset.Card

/-!
# A pool that hands out its least free element

The elements of a finite set `U` are handed out one at a time, the least free
one first, and given back in any order.  The state is the set of those that are
out.

* `Take`: what one request does; `Take.unique`: it does nothing else.
* `TakeMany.eq_min`: of `k` requests in a row, as many succeed as there are free
  elements, up to `k`.
* `out_subset`: in every run only elements of `U` are out.
-/

namespace Pool

variable {α : Type} [LinearOrder α] {U out out' : Finset α} {a b : α}

/-- One request: the least free element goes out, or nothing is free. -/
inductive Take (U : Finset α) : Finset α → Option α → Finset α → Prop
  | least {out : Finset α} {a : α} : a ∈ U → a ∉ out → (∀ b ∈ U, b ∉ out → a ≤ b) →
      Take U out (some a) (insert a out)
  | empty {out : Finset α} : U ⊆ out → Take U out none out

theorem Take.unique {r r' : Option α} {out'' : Finset α} (h : Take U out r out')
    (h' : Take U out r' out'') : r = r' ∧ out' = out'' := by
  cases h with
  | least hU hout hmin =>
    cases h' with
    | least hU' hout' hmin' =>
      rw [le_antisymm (hmin _ hU' hout') (hmin' _ hU hout)]
      exact ⟨rfl, rfl⟩
    | empty hsub => exact absurd (hsub hU) hout
  | empty hsub =>
    cases h' with
    | least hU' hout' _ => exact absurd (hsub hU') hout'
    | empty _ => exact ⟨rfl, rfl⟩

theorem Take.eq_none_iff {r : Option α} (h : Take U out r out') : r = none ↔ U ⊆ out := by
  cases h with
  | least hU hout _ => exact ⟨fun h => absurd h (Option.some_ne_none _), fun h => absurd (h hU) hout⟩
  | empty hsub => exact ⟨fun _ => hsub, fun _ => rfl⟩

theorem card_free_insert (hU : a ∈ U) (hout : a ∉ out) :
    (U \ insert a out).card + 1 = (U \ out).card := by
  have hmem : a ∈ U \ out := Finset.mem_sdiff.mpr ⟨hU, hout⟩
  rw [Finset.sdiff_insert, Finset.card_erase_add_one hmem]

/-- `k` requests in a row, of which `n` succeed. -/
inductive TakeMany (U : Finset α) : Nat → Finset α → Nat → Prop
  | zero {out : Finset α} : TakeMany U 0 out 0
  | some {k n : Nat} {out out' : Finset α} {a : α} : Take U out (some a) out' →
      TakeMany U k out' n → TakeMany U (k + 1) out (n + 1)
  | none {k n : Nat} {out out' : Finset α} : Take U out none out' →
      TakeMany U k out' n → TakeMany U (k + 1) out n

/-- **As many requests succeed as there are free elements.** -/
theorem TakeMany.eq_min {k n : Nat} (h : TakeMany U k out n) : n = min k (U \ out).card := by
  induction h with
  | zero => rw [Nat.zero_min]
  | some ht _ ih =>
    cases ht with
    | least hU hout _ =>
      have hcard := card_free_insert hU hout
      omega
  | none ht _ ih =>
    cases ht with
    | empty hsub =>
      rw [Finset.sdiff_eq_empty_iff_subset.mpr hsub, Finset.card_empty] at ih ⊢
      omega

/-! ### Runs -/

inductive Op (α : Type)
  | take (r : Option α)
  | give (a : α)

/-- One step: a request, or an element that is out comes back. -/
inductive Step (U : Finset α) : Finset α → Op α → Finset α → Prop
  | take {out out' : Finset α} {r : Option α} : Take U out r out' → Step U out (.take r) out'
  | give {out : Finset α} {a : α} : a ∈ out → Step U out (.give a) (out.erase a)

/-- All runs of the pool, with nothing out at the start. -/
def lts (U : Finset α) : Lts (Finset α) (Op α) where
  init out := out = ∅
  step := Step U

/-- **Only elements of the pool are ever out.** -/
theorem out_subset (h : (lts U).Reachable out) : out ⊆ U := by
  refine h.invariant (I := fun out => out ⊆ U) ?_ ?_
  · rintro _ rfl
    exact Finset.empty_subset U
  · intro out a out' ih hs
    cases hs with
    | take ht =>
      cases ht with
      | least hU _ _ => exact Finset.insert_subset hU ih
      | empty _ => exact ih
    | give _ => exact (Finset.erase_subset _ _).trans ih

theorem card_free (h : out ⊆ U) : (U \ out).card + out.card = U.card :=
  Finset.card_sdiff_add_card_eq_card h

end Pool
