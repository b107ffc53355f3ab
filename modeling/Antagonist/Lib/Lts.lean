import Mathlib.Data.List.Basic
import Mathlib.Data.List.Induction

/-!
# Labelled transition systems

Runs are kept with the list of their labels, oldest first.  `Run.invariant` is
the one induction over runs: what holds at the start and survives every step
holds in every state reached.  `Simulation.run` carries a run over to the runs
of a more abstract system, and `Run.left` to the left one of the two systems
that an interleaving is made of.
-/

structure Lts (σ ι : Type) where
  init : σ → Prop
  step : σ → ι → σ → Prop

namespace Lts

variable {σ ι : Type} {T : Lts σ ι}

/-- From `s`, the steps labelled `tr` lead to `s'`. -/
inductive Exec (T : Lts σ ι) : σ → List ι → σ → Prop
  | nil (s : σ) : Exec T s [] s
  | snoc {s t u : σ} {tr : List ι} {a : ι} : Exec T s tr t → T.step t a u →
      Exec T s (tr ++ [a]) u

def Run (T : Lts σ ι) (tr : List ι) (s : σ) : Prop := ∃ s₀, T.init s₀ ∧ T.Exec s₀ tr s

def Reachable (T : Lts σ ι) (s : σ) : Prop := ∃ tr, T.Run tr s

theorem Run.start {s : σ} (h : T.init s) : T.Run [] s := ⟨s, h, .nil s⟩

theorem Run.snoc {tr : List ι} {s t : σ} {a : ι} (h : T.Run tr s) (hs : T.step s a t) :
    T.Run (tr ++ [a]) t := by
  obtain ⟨s₀, h0, he⟩ := h
  exact ⟨s₀, h0, .snoc he hs⟩

theorem Reachable.start {s : σ} (h : T.init s) : T.Reachable s := ⟨[], Run.start h⟩

theorem Reachable.step {s t : σ} {a : ι} (h : T.Reachable s) (hs : T.step s a t) :
    T.Reachable t := by
  obtain ⟨tr, hr⟩ := h
  exact ⟨tr ++ [a], hr.snoc hs⟩

theorem Exec.snoc_inv {s u : σ} {tr tr' : List ι} {a : ι} (h : T.Exec s tr' u)
    (he : tr' = tr ++ [a]) : ∃ t, T.Exec s tr t ∧ T.step t a u := by
  cases h with
  | nil => exact absurd he (by simp)
  | snoc h' hs =>
    obtain ⟨rfl, hab⟩ := List.append_inj' he rfl
    obtain rfl := List.cons.inj hab |>.1
    exact ⟨_, h', hs⟩

theorem Exec.preserves {I : σ → Prop} (hstep : ∀ s a t, I s → T.step s a t → I t)
    {s t : σ} {tr : List ι} (h : T.Exec s tr t) (h0 : I s) : I t := by
  induction h with
  | nil => exact h0
  | snoc _ hs ih => exact hstep _ _ _ ih hs

/-- **The invariant rule.** -/
theorem Run.invariant {I : σ → Prop} (hinit : ∀ s, T.init s → I s)
    (hstep : ∀ s a t, I s → T.step s a t → I t) {tr : List ι} {s : σ} (h : T.Run tr s) :
    I s := by
  obtain ⟨s₀, h0, he⟩ := h
  exact he.preserves hstep (hinit s₀ h0)

theorem Reachable.invariant {I : σ → Prop} (hinit : ∀ s, T.init s → I s)
    (hstep : ∀ s a t, I s → T.step s a t → I t) {s : σ} (h : T.Reachable s) : I s := by
  obtain ⟨tr, hr⟩ := h
  exact hr.invariant hinit hstep

/-- The invariant rule for an invariant that speaks of the labels too. -/
theorem Run.traceInvariant {I : List ι → σ → Prop} (hinit : ∀ s, T.init s → I [] s)
    (hstep : ∀ tr s a t, T.Run tr s → I tr s → T.step s a t → I (tr ++ [a]) t)
    {tr : List ι} {s : σ} (h : T.Run tr s) : I tr s := by
  obtain ⟨s₀, h0, he⟩ := h
  induction he with
  | nil => exact hinit _ h0
  | snoc he hs ih => exact hstep _ _ _ _ ⟨_, h0, he⟩ ih hs

theorem Exec.split {s u : σ} {tr tr' : List ι} (h : T.Exec s (tr ++ tr') u) :
    ∃ t, T.Exec s tr t ∧ T.Exec t tr' u := by
  induction tr' using List.reverseRecOn generalizing u with
  | nil =>
    rw [List.append_nil] at h
    exact ⟨u, h, .nil u⟩
  | append_singleton tr' a ih =>
    obtain ⟨w, hw, hs⟩ := h.snoc_inv (List.append_assoc tr tr' [a]).symm
    obtain ⟨t, ht, htw⟩ := ih hw
    exact ⟨t, ht, .snoc htw hs⟩

theorem Exec.cons_inv {s u : σ} {tr : List ι} {a : ι} (h : T.Exec s (a :: tr) u) :
    ∃ t, T.step s a t ∧ T.Exec t tr u := by
  rw [← List.singleton_append] at h
  obtain ⟨t, hone, hrest⟩ := h.split
  obtain ⟨s', hnil, hs⟩ := hone.snoc_inv (List.nil_append [a]).symm
  have hss : ∀ {l : List ι}, T.Exec s l s' → l = [] → s = s' := by
    intro l hl he
    cases hl with
    | nil => rfl
    | snoc => exact absurd he (by simp)
  rw [← hss hnil rfl] at hs
  exact ⟨t, hs, hrest⟩

/-- Where the labels split at one of them, that one is the last, or the rest ends with the last. -/
theorem snoc_eq_split {tr pre post : List ι} {a b : ι} (h : tr ++ [b] = pre ++ a :: post) :
    (pre = tr ∧ a = b ∧ post = []) ∨ ∃ post', tr = pre ++ a :: post' ∧ post = post' ++ [b] := by
  rcases List.eq_nil_or_concat' post with rfl | ⟨post, last, rfl⟩
  · obtain ⟨rfl, hab⟩ := List.append_inj' h rfl
    exact Or.inl ⟨rfl, (List.cons.inj hab).1.symm, rfl⟩
  · rw [← List.cons_append, ← List.append_assoc] at h
    obtain ⟨htr, hlast⟩ := List.append_inj' h rfl
    exact Or.inr ⟨post, htr, by rw [(List.cons.inj hlast).1]⟩

/-- A condition on the labels of one form, each judged by those before it: one more label. -/
theorem forall_split_snoc {β : Type} (f : β → ι) {P : List ι → β → Prop} {tr : List ι} {a : ι} :
    (∀ pre b post, tr ++ [a] = pre ++ f b :: post → P pre b) ↔
      (∀ pre b post, tr = pre ++ f b :: post → P pre b) ∧ ∀ b, a = f b → P tr b := by
  refine ⟨fun h => ⟨?_, ?_⟩, ?_⟩
  · rintro pre b post rfl
    exact h pre b (post ++ [a]) (by rw [List.append_assoc, List.cons_append])
  · rintro b rfl
    exact h tr b [] rfl
  · rintro ⟨hold, hnew⟩ pre b post hsplit
    rcases snoc_eq_split hsplit with ⟨rfl, hlast, _⟩ | ⟨post', htr, _⟩
    · exact hnew b hlast.symm
    · exact hold pre b post' htr

/-! ### Some of the steps -/

def restrict (T : Lts σ ι) (ok : σ → ι → Prop) : Lts σ ι where
  init := T.init
  step s a t := ok s a ∧ T.step s a t

theorem Run.of_restrict {ok : σ → ι → Prop} {tr : List ι} {s : σ} (h : (T.restrict ok).Run tr s) :
    T.Run tr s := by
  refine h.traceInvariant (I := fun tr s => T.Run tr s) ?_ ?_
  · exact fun s h0 => Run.start h0
  · exact fun tr s a t _ ih hs => ih.snoc hs.2

/-! ### Systems that are functions -/

/-- **The exact invariant rule**: where `ok` tells the steps that keep `I`, a run is in `I` all
along if and only if all of its steps are `ok`. -/
theorem foldl_invariant_iff {step : σ → ι → σ} {I : σ → Prop} {ok : σ → ι → Prop}
    (hstep : ∀ s a, I s → (I (step s a) ↔ ok s a)) {s : σ} (h0 : I s) (tr : List ι) :
    (∀ tr', tr' <+: tr → I (tr'.foldl step s)) ↔
      ∀ tr₁ a tr₂, tr = tr₁ ++ a :: tr₂ → ok (tr₁.foldl step s) a := by
  refine ⟨?_, ?_⟩
  · rintro h tr₁ a tr₂ rfl
    have hbefore : I (tr₁.foldl step s) := h tr₁ (List.prefix_append tr₁ _)
    have hafter := h (tr₁ ++ [a]) ⟨tr₂, by rw [List.append_assoc, List.singleton_append]⟩
    rw [List.foldl_concat] at hafter
    exact (hstep _ _ hbefore).mp hafter
  · intro h tr'
    induction tr' using List.reverseRecOn with
    | nil => exact fun _ => h0
    | append_singleton tr₁ a ih =>
      rintro ⟨tr₂, rfl⟩
      have hbefore : I (tr₁.foldl step s) :=
        ih ((List.prefix_append tr₁ [a]).trans (List.prefix_append _ tr₂))
      have hok := h tr₁ a tr₂ (by rw [List.append_assoc, List.singleton_append])
      rw [List.foldl_concat]
      exact (hstep _ _ hbefore).mpr hok

/-! ### Simulation -/

/-- `A` follows `T`: a step of `T` whose label `f` translates is a step of `A`,
and any other is none.  The states are kept in the relation `R`. -/
structure Simulation {τ κ : Type} (T : Lts σ ι) (A : Lts τ κ) (f : ι → Option κ)
    (R : σ → τ → Prop) : Prop where
  init : ∀ s, T.init s → ∃ t, A.init t ∧ R s t
  step : ∀ s a s' t, A.Reachable t → R s t → T.step s a s' →
    (f a = none ∧ R s' t) ∨ ∃ b t', f a = some b ∧ A.step t b t' ∧ R s' t'

/-- **A run of `T` is a run of `A`.** -/
theorem Simulation.run {τ κ : Type} {A : Lts τ κ} {f : ι → Option κ} {R : σ → τ → Prop}
    (S : Simulation T A f R) {tr : List ι} {s : σ} (h : T.Run tr s) :
    ∃ t, A.Run (tr.filterMap f) t ∧ R s t := by
  refine h.traceInvariant (I := fun tr s => ∃ t, A.Run (tr.filterMap f) t ∧ R s t) ?_ ?_
  · intro s h0
    obtain ⟨t, ht, hR⟩ := S.init s h0
    exact ⟨t, Run.start ht, hR⟩
  · intro tr s a s' _ ih hs
    obtain ⟨t, ht, hR⟩ := ih
    rw [List.filterMap_append]
    rcases S.step s a s' t ⟨_, ht⟩ hR hs with ⟨hf, hR'⟩ | ⟨b, t', hf, hst, hR'⟩
    · refine ⟨t, ?_, hR'⟩
      rw [List.filterMap_cons_none hf, List.filterMap_nil, List.append_nil]
      exact ht
    · refine ⟨t', ?_, hR'⟩
      rw [List.filterMap_cons_some hf, List.filterMap_nil]
      exact ht.snoc hst

/-! ### Interleaving -/

/-- Two systems side by side, one of them moving at a time. -/
def interleave {τ κ : Type} (T : Lts σ ι) (U : Lts τ κ) : Lts (σ × τ) (ι ⊕ κ) where
  init s := T.init s.1 ∧ U.init s.2
  step
    | s, .inl a, s' => T.step s.1 a s'.1 ∧ s'.2 = s.2
    | s, .inr b, s' => s'.1 = s.1 ∧ U.step s.2 b s'.2

variable {τ κ : Type} {U : Lts τ κ}

/-- **A run of the interleaving is a run of its left half.** -/
theorem Run.left {tr : List (ι ⊕ κ)} {s : σ × τ} (h : (T.interleave U).Run tr s) :
    T.Run (tr.filterMap Sum.getLeft?) s.1 := by
  refine h.traceInvariant (I := fun tr s => T.Run (tr.filterMap Sum.getLeft?) s.1) ?_ ?_
  · exact fun s h0 => Run.start h0.1
  · intro tr s a s' _ ih hs
    rw [List.filterMap_append]
    cases a with
    | inl a => exact ih.snoc hs.1
    | inr b =>
      have hnil : [Sum.inr b].filterMap (Sum.getLeft? : ι ⊕ κ → Option ι) = [] := rfl
      rw [hs.1, hnil, List.append_nil]
      exact ih

end Lts
