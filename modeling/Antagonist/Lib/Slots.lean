import Mathlib.Data.List.Nodup
import Mathlib.Data.List.Perm.Basic

/-!
# Calls that each fill one slot

A state with slots, and calls on it.  A call fills the slot that it names with what depends on the
call alone, and leaves the other slots as they are.

* `SlotCalls.read_run_apart`: a slot that no call names is as before.
* `SlotCalls.read_run_last`: a slot holds what the last call that names it has put there.
* `SlotCalls.sum`: two kinds of calls, on slots of their own.
-/

variable {σ γ γ' κ κ' β : Type*}

/-- The calls `γ` on the state `σ`, whose slots `κ` are seen through `read`. -/
structure SlotCalls (σ γ κ β : Type*) where
  call : σ → γ → σ
  slot : γ → κ
  read : σ → κ → β
  frame : ∀ s c k, slot c ≠ k → read (call s c) k = read s k
  overwrite : ∀ s t c, read (call s c) (slot c) = read (call t c) (slot c)

namespace SlotCalls

variable (T : SlotCalls σ γ κ β)

def run (s : σ) (calls : List γ) : σ := calls.foldl T.call s

theorem run_cons (s : σ) (c : γ) (calls : List γ) :
    T.run s (c :: calls) = T.run (T.call s c) calls := rfl

theorem run_append (s : σ) (calls calls' : List γ) :
    T.run s (calls ++ calls') = T.run (T.run s calls) calls' := List.foldl_append

/-- **A slot that no call names** keeps what it holds. -/
theorem read_run_apart {calls : List γ} {k : κ} (h : ∀ c ∈ calls, T.slot c ≠ k) (s : σ) :
    T.read (T.run s calls) k = T.read s k := by
  induction calls generalizing s with
  | nil => rfl
  | cons c calls ih =>
    have hrest : ∀ d ∈ calls, T.slot d ≠ k := by
      intro d hd
      exact h d (List.mem_cons_of_mem c hd)
    rw [run_cons, ih hrest, T.frame s c k (h c List.mem_cons_self)]

/-- **The last call on a slot** decides what it holds, whatever was there before. -/
theorem read_run_last (before : List γ) {c : γ} {after : List γ}
    (h : ∀ d ∈ after, T.slot d ≠ T.slot c) (s t : σ) :
    T.read (T.run s (before ++ c :: after)) (T.slot c) = T.read (T.call t c) (T.slot c) := by
  rw [run_append, run_cons, T.read_run_apart h, T.overwrite _ t c]

theorem read_run_mem {calls : List γ} (hnodup : (calls.map T.slot).Nodup) {c : γ} (hc : c ∈ calls)
    (s t : σ) : T.read (T.run s calls) (T.slot c) = T.read (T.call t c) (T.slot c) := by
  obtain ⟨before, after, rfl⟩ := List.append_of_mem hc
  rw [List.map_append, List.map_cons] at hnodup
  have hafter := (List.nodup_cons.mp hnodup.of_append_right).1
  refine T.read_run_last before ?_ s t
  intro d hd heq
  exact hafter (heq ▸ List.mem_map_of_mem hd)

/-- Two kinds of calls on one state, neither of which touches the slots of the other. -/
def sum (T' : SlotCalls σ γ' κ' β) (h : ∀ s c k, T.read (T'.call s c) k = T.read s k)
    (h' : ∀ s c k, T'.read (T.call s c) k = T'.read s k) :
    SlotCalls σ (γ ⊕ γ') (κ ⊕ κ') β where
  call s := Sum.elim (T.call s) (T'.call s)
  slot := Sum.map T.slot T'.slot
  read s := Sum.elim (T.read s) (T'.read s)
  frame
    | s, .inl c, .inl k, hne => T.frame s c k fun heq => hne (congrArg Sum.inl heq)
    | s, .inl c, .inr k, _ => h' s c k
    | s, .inr c, .inl k, _ => h s c k
    | s, .inr c, .inr k, hne => T'.frame s c k fun heq => hne (congrArg Sum.inr heq)
  overwrite
    | s, t, .inl c => T.overwrite s t c
    | s, t, .inr c => T'.overwrite s t c

end SlotCalls
