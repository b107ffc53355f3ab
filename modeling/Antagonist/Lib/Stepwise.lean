import Mathlib.Logic.Function.Iterate
import Mathlib.Data.List.Basic

/-!
# Code that runs step by step

An instruction takes one step at a time: `step i s` is the state after it and
what is left of `i` then.  `exec i s` is the state when all of `i` is done.  Under
`Stepwise.Lawful` the two agree.

* `Lawful.reaches`: the code comes to its end, and there is what `execAll` says.
* `Lawful.iterate_plain`: a prefix of instructions of one step each.
-/

structure Stepwise (ι σ : Type) where
  step : ι → σ → σ × List ι
  exec : ι → σ → σ

namespace Stepwise

variable {ι σ : Type} (M : Stepwise ι σ)

def execAll (code : List ι) (s : σ) : σ := code.foldl (fun s i => M.exec i s) s

def next : σ × List ι → σ × List ι
  | (s, []) => (s, [])
  | (s, i :: code) => ((M.step i s).1, (M.step i s).2 ++ code)

/-- What a step leaves of an instruction is smaller, and leads to the same state. -/
structure Lawful (size : ι → Nat) : Prop where
  exec : ∀ i s, M.exec i s = M.execAll (M.step i s).2 (M.step i s).1
  size : ∀ i s, ∀ j ∈ (M.step i s).2, size j < size i

variable {M} {size : ι → Nat}

@[simp] theorem execAll_nil (s : σ) : M.execAll [] s = s := rfl

@[simp] theorem execAll_cons (i : ι) (code : List ι) (s : σ) :
    M.execAll (i :: code) s = M.execAll code (M.exec i s) := rfl

theorem execAll_append (code code' : List ι) (s : σ) :
    M.execAll (code ++ code') s = M.execAll code' (M.execAll code s) :=
  List.foldl_append

@[simp] theorem next_nil (s : σ) : M.next (s, []) = (s, []) := rfl

@[simp] theorem next_cons (i : ι) (code : List ι) (s : σ) :
    M.next (s, i :: code) = ((M.step i s).1, (M.step i s).2 ++ code) := rfl

theorem Lawful.finishes (L : M.Lawful size) : ∀ (m : Nat) (code rest : List ι) (s : σ),
    (∀ i ∈ code, size i < m) →
    ∃ n, M.next^[n] (s, code ++ rest) = (M.execAll code s, rest) := by
  intro m
  induction m with
  | zero =>
    intro code rest s hcode
    cases code with
    | nil => exact ⟨0, rfl⟩
    | cons i code => exact absurd (hcode i List.mem_cons_self) (Nat.not_lt_zero _)
  | succ m ihm =>
    intro code
    induction code with
    | nil => exact fun rest s _ => ⟨0, rfl⟩
    | cons i code ih =>
      intro rest s hcode
      have hi : size i < m + 1 := hcode i List.mem_cons_self
      -- first what the step leaves of `i`, then the rest of the code
      obtain ⟨p, hp⟩ := ihm (M.step i s).2 (code ++ rest) (M.step i s).1 fun j hj => by
        have hlt := L.size i s j hj
        omega
      obtain ⟨q, hq⟩ := ih rest (M.exec i s) fun j hj => hcode j (List.mem_cons_of_mem _ hj)
      refine ⟨q + (p + 1), ?_⟩
      rw [Function.iterate_add_apply, Function.iterate_succ_apply, List.cons_append, next_cons, hp,
        ← L.exec, hq, execAll_cons]

theorem exists_size_lt (size : ι → Nat) (code : List ι) : ∃ m, ∀ i ∈ code, size i < m := by
  induction code with
  | nil => exact ⟨0, fun i hi => absurd hi List.not_mem_nil⟩
  | cons j code ih =>
    obtain ⟨m, hm⟩ := ih
    refine ⟨max m (size j + 1), ?_⟩
    intro i hi
    rcases List.mem_cons.mp hi with rfl | hi
    · omega
    · have hlt := hm i hi
      omega

/-- **The code comes to its end.** -/
theorem Lawful.reaches (L : M.Lawful size) (code : List ι) (s : σ) :
    ∃ n, M.next^[n] (s, code) = (M.execAll code s, []) := by
  obtain ⟨m, hm⟩ := exists_size_lt size code
  obtain ⟨n, hn⟩ := L.finishes m code [] s hm
  rw [List.append_nil] at hn
  exact ⟨n, hn⟩

theorem iterate_done (n : Nat) (s : σ) : M.next^[n] (s, []) = (s, []) := by
  induction n with
  | zero => rfl
  | succ n ih => rw [Function.iterate_succ_apply, next_nil, ih]

/-- **Instructions of one step each.** -/
theorem Lawful.iterate_plain (L : M.Lawful size) : ∀ (n : Nat) (code : List ι) (s : σ),
    (∀ i ∈ code.take n, ∀ s, (M.step i s).2 = []) →
    M.next^[n] (s, code) = (M.execAll (code.take n) s, code.drop n) := by
  intro n
  induction n with
  | zero => exact fun _ _ _ => rfl
  | succ n ih =>
    intro code s hplain
    cases code with
    | nil => exact iterate_done (n + 1) s
    | cons i code =>
      rw [List.take_succ_cons] at hplain ⊢
      have hnil : (M.step i s).2 = [] := hplain i List.mem_cons_self s
      have hexec : M.exec i s = (M.step i s).1 := by rw [L.exec, hnil, execAll_nil]
      rw [Function.iterate_succ_apply, next_cons, hnil, List.nil_append,
        ih _ _ fun j hj => hplain j (List.mem_cons_of_mem _ hj), execAll_cons, hexec,
        List.drop_succ_cons]

end Stepwise
