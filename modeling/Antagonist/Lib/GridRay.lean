import Mathlib.Algebra.Order.Field.Basic
import Mathlib.Logic.Function.Iterate
import Mathlib.Order.Monotone.Basic
import Mathlib.Tactic.Linarith
import Mathlib.Tactic.Ring

/-!
# Rays over the unit grid

A ray passes from cell to cell of the unit grid.  Along one axis (`GridAxis`) there are the
coordinate at each time, the times at which a line of the grid is crossed, and the cell after each
crossing.  The digital differential analysis merges the crossings of two axes: `Passed.next` takes
the earlier one of those that come next.

The invariant is `InOrder`: no crossing that lies behind is later than one that is still to come.
So there is a time at which the ray is in the cell of each state, and before the next crossing
it has been in no other cells than those of the states so far (`during_of_le`).

* `follows_uniform`, `follows_still`: a coordinate that moves with a constant speed, and one that
  does not move.
* `firstBlocked_of_path`: **where the path comes to a blocked cell** the ray meets it, and it has
  met none before.
-/

namespace GridRay

variable {K : Type}

/-! ### One axis -/

structure GridAxis (K : Type) where
  coord : K → K
  cell : Nat → Int
  crossing : Nat → K

section

variable [Field K] [LinearOrder K]

/-- At the time `t` the coordinate is in the closed cell `c`. -/
def GridAxis.Touches (A : GridAxis K) (t : K) (c : Int) : Prop :=
  (c : K) ≤ A.coord t ∧ A.coord t ≤ c + 1

/-- At the time `t` the coordinate is in the open cell `c`. -/
def GridAxis.Inside (A : GridAxis K) (t : K) (c : Int) : Prop :=
  (c : K) < A.coord t ∧ A.coord t < c + 1

/-- Up to the time `last` the coordinate is in cell `k` between the crossings `k - 1` and `k`. -/
def GridAxis.Follows (A : GridAxis K) (last : K) : Prop :=
  ∀ k t, 0 ≤ t → t ≤ last → (∀ i < k, A.crossing i ≤ t) → t ≤ A.crossing k → A.Touches t (A.cell k)

variable [IsStrictOrderedRing K]

theorem GridAxis.Inside.eq {A : GridAxis K} {t : K} {c c' : Int} (h : A.Inside t c)
    (h' : A.Touches t c') : c' = c := by
  have hlo : (c' : K) < (c : K) + 1 := h'.1.trans_lt h.2
  have hhi : (c : K) < (c' : K) + 1 := h.1.trans_le h'.2
  have hlo' : c' < c + 1 := by exact_mod_cast hlo
  have hhi' : c < c' + 1 := by exact_mod_cast hhi
  omega

/-- A coordinate that moves with the speed `dir`, from `pos` in the cell `cell`.  From line to line
it takes the time `delta`. -/
def GridAxis.uniform (pos dir : K) (cell : Int) (delta : K) : GridAxis K where
  coord t := pos + t * dir
  cell k := if dir < 0 then cell - k else cell + k
  crossing k := (if dir < 0 then pos - cell else cell + 1 - pos) * delta + k * delta

def uniformLine (dir : K) (cell : Int) (k : Nat) : Int := if dir < 0 then cell - k else cell + k + 1

variable {pos dir delta : K} {cell : Int}

variable (pos cell) in
/-- **At a crossing** the coordinate is on its line. -/
theorem coord_crossing (hdelta : delta * |dir| = 1) (k : Nat) :
    (GridAxis.uniform pos dir cell delta).coord ((GridAxis.uniform pos dir cell delta).crossing k) =
      uniformLine dir cell k := by
  simp only [GridAxis.uniform, uniformLine]
  by_cases hdir : dir < 0
  · rw [abs_of_neg hdir] at hdelta
    have hscale : delta * dir = -1 := by linarith
    rw [if_pos hdir, if_pos hdir]
    push_cast
    calc pos + ((pos - cell) * delta + k * delta) * dir
        = pos + (pos - cell + k) * (delta * dir) := by ring
      _ = cell - k := by rw [hscale]; ring
  · rw [abs_of_nonneg (not_lt.mp hdir)] at hdelta
    rw [if_neg hdir, if_neg hdir]
    push_cast
    calc pos + ((cell + 1 - pos) * delta + k * delta) * dir
        = pos + (cell + 1 - pos + k) * (delta * dir) := by ring
      _ = cell + k + 1 := by rw [hdelta]; ring

theorem monotone_crossing (hdelta : 0 ≤ delta) :
    Monotone (GridAxis.uniform pos dir cell delta).crossing := by
  refine monotone_nat_of_le_succ ?_
  intro k
  simp only [GridAxis.uniform]
  push_cast
  linarith

theorem crossing_nonneg (hdelta : 0 ≤ delta) (hlo : (cell : K) ≤ pos) (hhi : pos ≤ cell + 1)
    (k : Nat) : 0 ≤ (GridAxis.uniform pos dir cell delta).crossing k := by
  simp only [GridAxis.uniform]
  have hk : (0 : K) ≤ k * delta := mul_nonneg (Nat.cast_nonneg k) hdelta
  refine add_nonneg (mul_nonneg ?_ hdelta) hk
  split
  · linarith
  · linarith

/-- **A coordinate that moves** goes through its cells. -/
theorem follows_uniform (hdelta : delta * |dir| = 1) (hdir : dir ≠ 0) (hlo : (cell : K) ≤ pos)
    (hhi : pos ≤ cell + 1) (last : K) : (GridAxis.uniform pos dir cell delta).Follows last := by
  intro k t ht _ hbehind hahead
  have hline := coord_crossing pos cell hdelta k
  have hback : ∀ i, k = i + 1 → (GridAxis.uniform pos dir cell delta).crossing i ≤ t :=
    fun i hi => hbehind i (by omega)
  have hbackLine := fun i => coord_crossing pos cell hdelta i
  simp only [GridAxis.Touches, GridAxis.uniform, uniformLine] at *
  rcases lt_or_gt_of_ne hdir with hneg | hpos
  · simp only [if_pos hneg] at *
    have hfar := mul_le_mul_of_nonpos_right hahead hneg.le
    push_cast at *
    refine ⟨by linarith, ?_⟩
    cases k with
    | zero =>
      have hmove : t * dir ≤ 0 := mul_nonpos_of_nonneg_of_nonpos ht hneg.le
      push_cast
      linarith
    | succ k =>
      have hnear := mul_le_mul_of_nonpos_right (hback k rfl) hneg.le
      have hk := hbackLine k
      push_cast at *
      linarith
  · simp only [if_neg (not_lt.mpr hpos.le)] at *
    have hfar := mul_le_mul_of_nonneg_right hahead hpos.le
    push_cast at *
    refine ⟨?_, by linarith⟩
    cases k with
    | zero =>
      have hmove : 0 ≤ t * dir := mul_nonneg ht hpos.le
      push_cast
      linarith
    | succ k =>
      have hnear := mul_le_mul_of_nonneg_right (hback k rfl) hpos.le
      have hk := hbackLine k
      push_cast at *
      linarith

omit [IsStrictOrderedRing K] in
/-- **A coordinate that does not move** stays in its cell, for as long as no crossing is due. -/
theorem follows_still (hlo : (cell : K) ≤ pos) (hhi : pos ≤ cell + 1) {last : K}
    (hlast : last < (GridAxis.uniform pos 0 cell delta).crossing 0) :
    (GridAxis.uniform pos 0 cell delta).Follows last := by
  intro k t _ hle hbehind _
  cases k with
  | zero =>
    simp only [GridAxis.Touches, GridAxis.uniform, lt_self_iff_false, if_false, mul_zero, add_zero,
      Nat.cast_zero]
    exact ⟨hlo, hhi⟩
  | succ k =>
    have hdue := hbehind 0 (Nat.zero_lt_succ k)
    exact absurd (hdue.trans hle) (not_le.mpr hlast)

end

/-! ### Two axes -/

/-- How many crossings of each axis lie behind. -/
structure Passed where
  x : Nat
  y : Nat

section

variable [LinearOrder K] (A B : GridAxis K)

/-- The earlier one of the crossings that come next lies behind too; of two at once, the one of the
second axis. -/
def Passed.next (s : Passed) : Passed :=
  if A.crossing s.x < B.crossing s.y then ⟨s.x + 1, s.y⟩ else ⟨s.x, s.y + 1⟩

def Passed.after (n : Nat) : Passed := (Passed.next A B)^[n] ⟨0, 0⟩

def Passed.upcoming (s : Passed) : K := min (A.crossing s.x) (B.crossing s.y)

/-- At the time `t` the crossings behind are over, and no other one is. -/
structure Passed.During (s : Passed) (t : K) : Prop where
  overX : ∀ i < s.x, A.crossing i ≤ t
  overY : ∀ j < s.y, B.crossing j ≤ t
  dueX : t ≤ A.crossing s.x
  dueY : t ≤ B.crossing s.y

/-- No crossing behind is later than one to come. -/
structure Passed.InOrder (s : Passed) : Prop where
  x : ∀ i < s.x, A.crossing i ≤ B.crossing s.y
  y : ∀ j < s.y, B.crossing j ≤ A.crossing s.x

variable {A B} {s : Passed}

theorem Passed.after_succ (n : Nat) : Passed.after A B (n + 1) = (Passed.after A B n).next A B :=
  Function.iterate_succ_apply' _ n _

theorem Passed.next_cases (s : Passed) :
    (A.crossing s.x < B.crossing s.y ∧ s.next A B = ⟨s.x + 1, s.y⟩ ∧
        s.upcoming A B = A.crossing s.x) ∨
      (B.crossing s.y ≤ A.crossing s.x ∧ s.next A B = ⟨s.x, s.y + 1⟩ ∧
        s.upcoming A B = B.crossing s.y) := by
  rw [Passed.next, Passed.upcoming]
  by_cases hcloser : A.crossing s.x < B.crossing s.y
  · exact .inl ⟨hcloser, if_pos hcloser, min_eq_left hcloser.le⟩
  · exact .inr ⟨not_lt.mp hcloser, if_neg hcloser, min_eq_right (not_lt.mp hcloser)⟩

/-- **The order is kept** from crossing to crossing. -/
theorem Passed.InOrder.next (hA : Monotone A.crossing) (hB : Monotone B.crossing)
    (h : s.InOrder A B) : (s.next A B).InOrder A B := by
  rcases s.next_cases (A := A) (B := B) with ⟨hcloser, hnext, -⟩ | ⟨hcloser, hnext, -⟩
  · rw [hnext]
    refine ⟨fun i hi => ?_, fun j hj => ?_⟩
    · exact (hA (Nat.le_of_lt_succ hi)).trans hcloser.le
    · exact (h.y j hj).trans (hA (Nat.le_succ s.x))
  · rw [hnext]
    refine ⟨fun i hi => ?_, fun j hj => ?_⟩
    · exact (h.x i hi).trans (hB (Nat.le_succ s.y))
    · exact (hB (Nat.le_of_lt_succ hj)).trans hcloser

theorem Passed.inOrder_after (hA : Monotone A.crossing) (hB : Monotone B.crossing) (n : Nat) :
    (Passed.after A B n).InOrder A B := by
  induction n with
  | zero =>
    exact ⟨fun i hi => absurd hi (Nat.not_lt_zero i), fun j hj => absurd hj (Nat.not_lt_zero j)⟩
  | succ n ih =>
    rw [Passed.after_succ]
    exact ih.next hA hB

/-- The crossing ends the time of one state and begins the time of the next one. -/
theorem Passed.InOrder.during_next (hA : Monotone A.crossing) (hB : Monotone B.crossing)
    (h : s.InOrder A B) : (s.next A B).During A B (s.upcoming A B) := by
  rcases s.next_cases (A := A) (B := B) with ⟨hcloser, hnext, htime⟩ | ⟨hcloser, hnext, htime⟩
  · rw [hnext, htime]
    exact ⟨fun i hi => hA (Nat.le_of_lt_succ hi), h.y, hA (Nat.le_succ s.x), hcloser.le⟩
  · rw [hnext, htime]
    exact ⟨h.x, fun j hj => hB (Nat.le_of_lt_succ hj), hcloser, hB (Nat.le_succ s.y)⟩

/-- **Each time until the next crossing** belongs to a state so far. -/
theorem Passed.during_of_le (hA : Monotone A.crossing) (hB : Monotone B.crossing) (n : Nat) {t : K}
    (ht : t ≤ (Passed.after A B n).upcoming A B) : ∃ m ≤ n, (Passed.after A B m).During A B t := by
  induction n with
  | zero =>
    refine ⟨0, le_refl 0, ?_⟩
    have hx : ∀ i < (0 : Nat), A.crossing i ≤ t := fun i hi => absurd hi (Nat.not_lt_zero i)
    have hy : ∀ j < (0 : Nat), B.crossing j ≤ t := fun j hj => absurd hj (Nat.not_lt_zero j)
    exact ⟨hx, hy, ht.trans (min_le_left _ _), ht.trans (min_le_right _ _)⟩
  | succ n ih =>
    by_cases hbefore : t ≤ (Passed.after A B n).upcoming A B
    · obtain ⟨m, hm, hduring⟩ := ih hbefore
      exact ⟨m, Nat.le_succ_of_le hm, hduring⟩
    · have hlate := (not_le.mp hbefore).le
      have hentry := (Passed.inOrder_after hA hB n).during_next hA hB
      rw [← Passed.after_succ] at hentry
      refine ⟨n + 1, le_refl _, fun i hi => (hentry.overX i hi).trans hlate,
        fun j hj => (hentry.overY j hj).trans hlate, ?_, ?_⟩
      · exact ht.trans (min_le_left _ _)
      · exact ht.trans (min_le_right _ _)

end

/-! ### Blocked cells -/

section

variable [Field K] [LinearOrder K] {A B : GridAxis K} {blocked : Int → Int → Prop}

/-- At the time `T` the ray meets the blocked cell `(a, b)`, and up to then it has been inside of no
blocked cell but, it may be, the one that it starts in. -/
structure FirstBlocked (A B : GridAxis K) (blocked : Int → Int → Prop) (T : K)
    (a b : Int) : Prop where
  hit : blocked a b
  touches : A.Touches T a ∧ B.Touches T b
  free : ∀ t, 0 ≤ t → t ≤ T → ∀ a' b', A.Inside t a' → B.Inside t b' →
    (a' = A.cell 0 ∧ b' = B.cell 0) ∨ ¬ blocked a' b'

/-- **The path of the crossings** meets the first blocked cell of the ray. -/
theorem firstBlocked_of_path [IsStrictOrderedRing K] (hA : Monotone A.crossing)
    (hB : Monotone B.crossing) (hfirstA : 0 ≤ A.crossing 0) (hfirstB : 0 ≤ B.crossing 0) (n : Nat)
    (hA' : A.Follows ((Passed.after A B n).upcoming A B))
    (hB' : B.Follows ((Passed.after A B n).upcoming A B))
    (hfree : ∀ m, 0 < m → m ≤ n →
      ¬ blocked (A.cell (Passed.after A B m).x) (B.cell (Passed.after A B m).y))
    (hblocked : blocked (A.cell (Passed.after A B (n + 1)).x) (B.cell (Passed.after A B (n + 1)).y)) :
    FirstBlocked A B blocked ((Passed.after A B n).upcoming A B)
      (A.cell (Passed.after A B (n + 1)).x) (B.cell (Passed.after A B (n + 1)).y) := by
  refine ⟨hblocked, ?_, ?_⟩
  · have hpos : 0 ≤ (Passed.after A B n).upcoming A B := by
      refine le_min ?_ ?_
      · exact hfirstA.trans (hA (Nat.zero_le _))
      · exact hfirstB.trans (hB (Nat.zero_le _))
    have hentry := (Passed.inOrder_after hA hB n).during_next hA hB
    rw [← Passed.after_succ] at hentry
    exact ⟨hA' _ _ hpos (le_refl _) hentry.overX hentry.dueX,
      hB' _ _ hpos (le_refl _) hentry.overY hentry.dueY⟩
  · intro t ht hT a b ha hb
    obtain ⟨m, hm, hduring⟩ := Passed.during_of_le hA hB n hT
    have hx := ha.eq (hA' _ t ht hT hduring.overX hduring.dueX)
    have hy := hb.eq (hB' _ t ht hT hduring.overY hduring.dueY)
    rw [← hx, ← hy]
    cases m with
    | zero => exact .inl ⟨rfl, rfl⟩
    | succ m => exact .inr (hfree (m + 1) (Nat.zero_lt_succ m) hm)

end

end GridRay
