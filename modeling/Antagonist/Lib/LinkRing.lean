import Mathlib.Data.List.Chain
import Mathlib.Data.List.Perm.Basic

/-!
# Singly linked rings

`IsRing next l`: following `next` from the first element of `l` visits the
elements of `l` in turn and comes back to the first.

* `IsRing.rotate`: a ring may be read from any of its elements.
* `IsRing.insert`: a new element put after the first one.
-/

namespace LinkRing

variable {α : Type} {next next' : α → α} {a b t : α} {l : List α}

def IsRing (next : α → α) : List α → Prop
  | [] => False
  | a :: l => (a :: (l ++ [a])).IsChain fun x y => next x = y

theorem isRing_singleton : IsRing next [a] ↔ next a = a := by
  show (a :: ([] ++ [a])).IsChain _ ↔ _
  rw [List.nil_append, List.isChain_cons_cons, and_iff_left (List.isChain_singleton a)]

theorem IsRing.next_head (h : IsRing next (a :: b :: l)) : next a = b :=
  (List.isChain_cons_cons.mp h).1

theorem IsRing.rotate_one (h : IsRing next (a :: l)) : IsRing next (l ++ [a]) := by
  cases l with
  | nil => exact h
  | cons b l =>
    obtain ⟨hab, hrest⟩ := List.isChain_cons_cons.mp h
    show (b :: ((l ++ [a]) ++ [b])).IsChain _
    rw [← List.cons_append, List.isChain_append]
    refine ⟨hrest, List.isChain_singleton b, ?_⟩
    intro x hx y hy
    rw [← List.cons_append, List.getLast?_concat] at hx
    obtain rfl := Option.some.inj hx
    obtain rfl := Option.some.inj hy
    exact hab

/-- **A ring may be read from any of its elements.** -/
theorem IsRing.rotate : ∀ {v w : List α}, IsRing next (v ++ w) → IsRing next (w ++ v) := by
  intro v
  induction v with
  | nil =>
    intro w h
    rw [List.append_nil]
    exact h
  | cons a v ih =>
    intro w h
    have hone : IsRing next (v ++ (w ++ [a])) := by
      rw [← List.append_assoc]
      exact h.rotate_one
    rw [List.append_cons]
    exact ih hone

theorem IsRing.next_mem (h : IsRing next l) (ha : a ∈ l) : next a ∈ l := by
  obtain ⟨v, w, rfl⟩ := List.append_of_mem ha
  have hring : IsRing next (a :: (w ++ v)) := h.rotate
  cases hwv : w ++ v with
  | nil =>
    rw [hwv] at hring
    rw [isRing_singleton.mp hring]
    exact ha
  | cons b l =>
    rw [hwv] at hring
    have hb : b ∈ w ++ v := by
      rw [hwv]
      exact List.mem_cons_self
    rw [hring.next_head]
    simp only [List.mem_append, List.mem_cons] at hb ⊢
    exact hb.elim (fun h => Or.inr (Or.inr h)) Or.inl

theorem IsRing.next_ne (h : IsRing next l) (hl : l.Nodup) (hlen : 1 < l.length) (ha : a ∈ l) :
    next a ≠ a := by
  obtain ⟨v, w, rfl⟩ := List.append_of_mem ha
  have hring : IsRing next (a :: (w ++ v)) := h.rotate
  have hnd : (a :: (w ++ v)).Nodup := by
    rw [← List.cons_append]
    exact List.perm_append_comm.nodup_iff.mp hl
  cases hwv : w ++ v with
  | nil =>
    obtain ⟨rfl, rfl⟩ := List.append_eq_nil_iff.mp hwv
    exact absurd hlen (by simp)
  | cons b l =>
    rw [hwv] at hring hnd
    rw [hring.next_head]
    exact fun he => (List.nodup_cons.mp hnd).1 (he ▸ List.mem_cons_self)

theorem isChain_congr (hnext : ∀ x ∈ l, next' x = next x)
    (h : (l ++ [a]).IsChain fun x y => next x = y) : (l ++ [a]).IsChain fun x y => next' x = y := by
  induction l with
  | nil => exact List.isChain_singleton a
  | cons b l ih =>
    have hb := hnext b List.mem_cons_self
    have hl := fun x hx => hnext x (List.mem_cons_of_mem b hx)
    cases l with
    | nil =>
      have hlink := (List.isChain_cons_cons.mp h).1
      exact List.isChain_cons_cons.mpr ⟨hb.trans hlink, List.isChain_singleton a⟩
    | cons c l =>
      obtain ⟨hlink, hrest⟩ := List.isChain_cons_cons.mp h
      exact List.isChain_cons_cons.mpr ⟨hb.trans hlink, ih hl hrest⟩

theorem IsRing.congr (hnext : ∀ x ∈ l, next' x = next x) (h : IsRing next l) : IsRing next' l := by
  cases l with
  | nil => exact h
  | cons a l => exact isChain_congr (l := a :: l) hnext h

/-- **A new element after the first one.** -/
theorem IsRing.insert (h : IsRing next (a :: l)) (hl : ∀ x ∈ l, next' x = next x)
    (ha : next' a = t) (ht : next' t = next a) : IsRing next' (a :: t :: l) := by
  refine List.isChain_cons_cons.mpr ⟨ha, ?_⟩
  cases l with
  | nil =>
    have hself := isRing_singleton.mp h
    exact List.isChain_cons_cons.mpr ⟨ht.trans hself, List.isChain_singleton a⟩
  | cons b l =>
    obtain ⟨hlink, hrest⟩ := List.isChain_cons_cons.mp h
    exact List.isChain_cons_cons.mpr ⟨ht.trans hlink, isChain_congr hl hrest⟩

end LinkRing
