import Mathlib.Data.List.Induction

/-!
# A canvas that is painted over

Strokes put cells of any type on a canvas, one after another, and the last one to cover a place is
what is seen there.

* `paint_apply`: a place shows the last stroke over it, or what was there before.
* `paint_repaint`: where the last strokes cover all that any stroke covers, the ones before them
  are not seen.
* `Lays`: a routine that draws the same whatever is on the canvas lays a film over it.
  `lays_foldl`: a loop of such routines lays a stack of films.
-/

namespace Canvas

variable {α : Type}

/-- Cells in a row, from a place on. -/
structure Stroke (α : Type) where
  start : Nat
  cells : List α

/-- The cells are stored one at a time. -/
def write (c : Nat → α) (start : Nat) : List α → (Nat → α)
  | [] => c
  | a :: cells => write (Function.update c start a) (start + 1) cells

def paint (strokes : List (Stroke α)) (c : Nat → α) : Nat → α :=
  strokes.foldl (fun c st => write c st.start st.cells) c

namespace Stroke

/-- What a stroke puts at a place. -/
def at? (st : Stroke α) (p : Nat) : Option α :=
  if st.start ≤ p then st.cells[p - st.start]? else none

def Covers (st : Stroke α) (p : Nat) : Prop := st.start ≤ p ∧ p < st.start + st.cells.length

theorem at?_eq_none_iff {st : Stroke α} {p : Nat} : st.at? p = none ↔ ¬ st.Covers p := by
  rw [at?, Covers]
  by_cases hstart : st.start ≤ p
  · rw [if_pos hstart, List.getElem?_eq_none_iff]
    omega
  · rw [if_neg hstart]
    exact iff_of_true rfl fun hcovers => hstart hcovers.1

end Stroke

theorem write_apply (cells : List α) (c : Nat → α) (start p : Nat) :
    write c start cells p = ((⟨start, cells⟩ : Stroke α).at? p).getD (c p) := by
  induction cells generalizing c start with
  | nil =>
    show c p = (if start ≤ p then ([] : List α)[p - start]? else none).getD (c p)
    rw [List.getElem?_nil, ite_self]
    rfl
  | cons a cells ih =>
    rw [write, ih]
    unfold Stroke.at?
    simp only
    rcases Nat.lt_trichotomy p start with hlt | rfl | hgt
    · rw [if_neg (by omega), if_neg (by omega), Option.getD_none, Option.getD_none,
        Function.update_of_ne (by omega)]
    · rw [if_neg (by omega), if_pos (Nat.le_refl p), Option.getD_none, Function.update_self,
        Nat.sub_self]
      rfl
    · rw [if_pos (by omega), if_pos (Nat.le_of_lt hgt), Function.update_of_ne (by omega)]
      obtain ⟨k, rfl⟩ := Nat.exists_eq_add_of_lt hgt
      have hnext : start + k + 1 - (start + 1) = k := by omega
      have hthis : start + k + 1 - start = k + 1 := by omega
      rw [hnext, hthis, List.getElem?_cons_succ]

/-! ### The last stroke -/

/-- What the last stroke over a place puts there. -/
def top? (strokes : List (Stroke α)) (p : Nat) : Option α :=
  strokes.foldl (fun below st => (st.at? p).or below) none

theorem foldl_at? (strokes : List (Stroke α)) (p : Nat) (below : Option α) :
    strokes.foldl (fun below st => (st.at? p).or below) below = (top? strokes p).or below := by
  induction strokes generalizing below with
  | nil => rfl
  | cons st strokes ih =>
    rw [top?, List.foldl_cons, List.foldl_cons, ih, ih, Option.or_none, Option.or_assoc]

theorem top?_append (strokes strokes' : List (Stroke α)) (p : Nat) :
    top? (strokes ++ strokes') p = (top? strokes' p).or (top? strokes p) := by
  rw [top?, List.foldl_append, foldl_at?]
  rfl

theorem top?_singleton (st : Stroke α) (p : Nat) : top? [st] p = st.at? p := Option.or_none

theorem top?_eq_none_iff {strokes : List (Stroke α)} {p : Nat} :
    top? strokes p = none ↔ ∀ st ∈ strokes, ¬ st.Covers p := by
  induction strokes with
  | nil => exact iff_of_true rfl fun st hst => absurd hst List.not_mem_nil
  | cons st strokes ih =>
    rw [← List.singleton_append, top?_append, top?_singleton, Option.or_eq_none_iff, ih,
      Stroke.at?_eq_none_iff]
    refine ⟨?_, ?_⟩
    · rintro ⟨hrest, hst⟩ st' hmem
      rcases List.mem_cons.mp hmem with rfl | hmem
      · exact hst
      · exact hrest st' hmem
    · intro h
      exact ⟨fun st' hmem => h st' (List.mem_cons_of_mem st hmem), h st List.mem_cons_self⟩

/-- **A place shows** the last stroke over it. -/
theorem paint_apply (strokes : List (Stroke α)) (c : Nat → α) (p : Nat) :
    paint strokes c p = (top? strokes p).getD (c p) := by
  induction strokes generalizing c with
  | nil => rfl
  | cons st strokes ih =>
    have hwrite := write_apply st.cells c st.start p
    rw [paint, List.foldl_cons, ← paint, ih, hwrite, ← List.singleton_append, top?_append,
      top?_singleton]
    cases top? strokes p with
    | none => rfl
    | some a => rfl

/-- **Painted over**: if the last strokes cover the place, or no stroke does, the others are not
seen. -/
theorem paint_repaint {strokes strokes' : List (Stroke α)} {p : Nat}
    (h : top? strokes' p = none → top? strokes p = none) (c : Nat → α) :
    paint (strokes ++ strokes') c p = (top? strokes' p).getD (c p) := by
  rw [paint_apply, top?_append]
  cases hlast : top? strokes' p with
  | none => rw [h hlast]; rfl
  | some a => rfl

/-! ### Films -/

section

variable {P ι : Type}

/-- What is drawn at each place, if anything. -/
abbrev Film (P α : Type) := P → Option α

/-- The routine draws the film, whatever is on the canvas. -/
def Lays (draw : (P → α) → P → α) (film : Film P α) : Prop :=
  ∀ c p, draw c p = (film p).getD (c p)

def Film.over (film below : Film P α) : Film P α := fun p => (film p).or (below p)

/-- Films on top of each other, the last one on top. -/
def stack (films : List (Film P α)) : Film P α := fun p => films.reverse.findSome? fun film => film p

theorem stack_append (films films' : List (Film P α)) (p : P) :
    stack (films ++ films') p = (stack films' p).or (stack films p) := by
  rw [stack, List.reverse_append, List.findSome?_append]
  rfl

theorem stack_singleton (film : Film P α) (p : P) : stack [film] p = film p := by
  rw [stack, List.reverse_singleton, List.findSome?_singleton]

theorem stack_concat (films : List (Film P α)) (film : Film P α) (p : P) :
    stack (films ++ [film]) p = (film p).or (stack films p) := by
  rw [stack_append, stack_singleton]

theorem stack_eq_none {films : List (Film P α)} {p : P} (h : ∀ film ∈ films, film p = none) :
    stack films p = none := by
  rw [stack, List.findSome?_eq_none_iff]
  intro film hfilm
  exact h film (List.mem_reverse.mp hfilm)

theorem stack_map_eq {film : ι → Film P α} {l : List ι} {i : ι} {p : P} (hi : i ∈ l)
    (hothers : ∀ j ∈ l, j ≠ i → film j p = none) : stack (l.map film) p = film i p := by
  induction l using List.reverseRecOn with
  | nil => exact absurd hi List.not_mem_nil
  | append_singleton l j ih =>
    rw [List.map_append, List.map_singleton, stack_concat]
    by_cases hl : i ∈ l
    · rw [ih hl fun k hk => hothers k (List.mem_append_left _ hk)]
      by_cases hj : j = i
      · rw [hj, Option.or_self]
      · rw [hothers j (by simp) hj, Option.none_or]
    · have hij : i = j := by simpa [hl] using hi
      have hrest : stack (l.map film) p = none := by
        refine stack_eq_none ?_
        intro f hf
        obtain ⟨k, hk, rfl⟩ := List.mem_map.mp hf
        exact hothers k (List.mem_append_left _ hk) fun hki => hl (hki ▸ hk)
      rw [hrest, Option.or_none, hij]

/-- Films of one color: the place shows it if any of them does. -/
theorem stack_uniform {films : List (Film P α)} {a : α} {p : P}
    (h : ∀ film ∈ films, film p = none ∨ film p = some a) [Decidable (∃ film ∈ films, film p = some a)] :
    stack films p = if ∃ film ∈ films, film p = some a then some a else none := by
  by_cases hany : ∃ film ∈ films, film p = some a
  · rw [if_pos hany]
    induction films using List.reverseRecOn with
    | nil =>
      obtain ⟨film, hfilm, -⟩ := hany
      exact absurd hfilm List.not_mem_nil
    | append_singleton films film ih =>
      rw [stack_concat]
      rcases h film (by simp) with hnone | hsome
      · obtain ⟨f, hf, hshows⟩ := hany
        have hfilms : f ∈ films := by
          rcases List.mem_append.mp hf with hf | hf
          · exact hf
          · rw [List.mem_singleton.mp hf, hnone] at hshows
            cases hshows
        rw [hnone, Option.none_or]
        classical
        exact ih (fun g hg => h g (List.mem_append_left _ hg)) ⟨f, hfilms, hshows⟩
      · rw [hsome, Option.some_or]
  · rw [if_neg hany]
    refine stack_eq_none ?_
    intro film hfilm
    exact (h film hfilm).resolve_right fun hshows => hany ⟨film, hfilm, hshows⟩

theorem stack_map_color (l : List ι) (Q : ι → P → Prop) [∀ i p, Decidable (Q i p)] (a : α) (p : P)
    [Decidable (∃ i ∈ l, Q i p)] : stack (l.map fun i p => if Q i p then some a else none) p =
      if ∃ i ∈ l, Q i p then some a else none := by
  classical
  rw [stack_uniform (a := a)]
  · refine if_congr ?_ rfl rfl
    simp only [List.mem_map]
    refine ⟨?_, ?_⟩
    · rintro ⟨film, ⟨i, hi, rfl⟩, hshows⟩
      refine ⟨i, hi, ?_⟩
      by_contra hnot
      simp only [if_neg hnot] at hshows
      cases hshows
    · rintro ⟨i, hi, hQ⟩
      exact ⟨_, ⟨i, hi, rfl⟩, if_pos hQ⟩
  · intro film hfilm
    obtain ⟨i, -, rfl⟩ := List.mem_map.mp hfilm
    by_cases hQ : Q i p
    · exact .inr (if_pos hQ)
    · exact .inl (if_neg hQ)

theorem lays_self : Lays (fun c : P → α => c) fun _ => none := fun _ _ => rfl

/-- **One routine after another.** -/
theorem Lays.comp {draw draw' : (P → α) → P → α} {film film' : Film P α} (h : Lays draw film)
    (h' : Lays draw' film') : Lays (fun c => draw' (draw c)) (film'.over film) := by
  intro c p
  show draw' (draw c) p = _
  rw [h' (draw c) p, h c p, Film.over]
  cases film' p with
  | none => rfl
  | some a => rfl

/-- **A loop** lays the films of its rounds. -/
theorem lays_foldl {draw : ι → (P → α) → P → α} {film : ι → Film P α} {l : List ι}
    (h : ∀ i ∈ l, Lays (draw i) (film i)) :
    Lays (fun c => l.foldl (fun c i => draw i c) c) (stack (l.map film)) := by
  induction l using List.reverseRecOn with
  | nil => exact lays_self
  | append_singleton l i ih =>
    intro c p
    have hrest := ih fun j hj => h j (List.mem_append_left _ hj)
    have hboth := hrest.comp (h i (by simp)) c p
    simp only [List.foldl_append, List.foldl_cons, List.foldl_nil, List.map_append,
      List.map_singleton, stack_concat]
    exact hboth

end

end Canvas
