import Antagonist.Sandbox.Selection
import Antagonist.Sandbox.Edge

/-!
# How far the selection reaches

The loop of `trace_selection_ray` counts `RAY_STEP_SIZE` for a step.  The direction is
`(1 - a² / 2, a)` for the angle `a`, whose length squared is `1 + a⁴ / 4`: so a step is longer than
what is counted for it, unless the angle is 0.

* `ray_viewOf`: the samples are 80 points on a line.
* `traceSelectionRay_range`: the selection is the first solid tile, with empty ones before it.
* `selectionReached_iff`: when it is within `MAX_SELECTION_DISTANCE`.
-/

namespace Antagonist

/-! ### Samples -/

/-- The point that the ray comes to with step `n`. -/
def sampleX (pos : Vec3) (angle : ℚ) (n : Nat) : ℚ := pos.x + n * (cosA angle * rayStepSize)

def sampleY (pos : Vec3) (angle : ℚ) (n : Nat) : ℚ := pos.y + n * (angle * rayStepSize)

def sampleStep (pos : Vec3) (angle : ℚ) (n : Nat) : RayStep :=
  ⟨truncate (sampleX pos angle n), truncate (sampleY pos angle n),
    faceAxis (sampleX pos angle n) (sampleY pos angle n)⟩

theorem sampleX_succ (pos : Vec3) (angle : ℚ) (n : Nat) :
    sampleX pos angle (n + 1) = sampleX pos angle n + cosA angle * rayStepSize := by
  rw [sampleX, sampleX]
  push_cast
  ring

theorem sampleY_succ (pos : Vec3) (angle : ℚ) (n : Nat) :
    sampleY pos angle (n + 1) = sampleY pos angle n + angle * rayStepSize := by
  rw [sampleY, sampleY]
  push_cast
  ring

theorem raySamples_eq (pos : Vec3) (angle : ℚ) {n fuel : Nat} (h : n + fuel = 80) :
    raySamples (cosA angle) angle fuel (sampleX pos angle n) (sampleY pos angle n)
      (n * rayStepSize) = (List.range' (n + 1) fuel).map (sampleStep pos angle) := by
  induction fuel generalizing n with
  | zero => rfl
  | succ fuel ih =>
    have hnear : (n : ℚ) * rayStepSize < maxSelectionDistance := by
      have hn : (n : ℚ) ≤ 79 := by exact_mod_cast (by omega : n ≤ 79)
      rw [rayStepSize, maxSelectionDistance]
      linarith
    have hdistance : (n : ℚ) * rayStepSize + rayStepSize = ((n + 1 : Nat) : ℚ) * rayStepSize := by
      push_cast
      ring
    have hrest := ih (n := n + 1) (by omega)
    rw [raySamples, if_pos hnear, ← sampleX_succ, ← sampleY_succ, hdistance, List.range'_succ,
      List.map_cons, ← hrest]
    rfl

/-- **The samples** of a view. -/
theorem ray_viewOf (pos : Vec3) (angle : ℚ) :
    (viewOf pos angle).ray = (List.range' 1 80).map (sampleStep pos angle) := by
  have h := raySamples_eq pos angle (show 0 + 80 = 80 by norm_num)
  simp only [sampleX, sampleY, Nat.cast_zero, zero_mul, add_zero, Nat.zero_add] at h
  exact h

/-! ### The first solid tile -/

def RayStep.Empty (world : WorldMap) (r : RayStep) : Prop :=
  ∃ k, tileIndex r.checkX r.checkY = some k ∧ world k = 0

def RayStep.Solid (world : WorldMap) (r : RayStep) : Prop :=
  ∃ k, tileIndex r.checkX r.checkY = some k ∧ world k ≠ 0

instance (world : WorldMap) (r : RayStep) : Decidable (r.Empty world) :=
  decidable_of_iff (((tileIndex r.checkX r.checkY).any fun k => decide (world k = 0)) = true)
    (by rw [Option.any_eq_true]; simp only [decide_eq_true_eq]; rfl)

instance (world : WorldMap) (r : RayStep) : Decidable (r.Solid world) :=
  decidable_of_iff (((tileIndex r.checkX r.checkY).any fun k => decide (world k ≠ 0)) = true)
    (by rw [Option.any_eq_true]; simp only [decide_eq_true_eq]; rfl)

theorem RayStep.Empty.not_solid {world : WorldMap} {r : RayStep} (h : r.Empty world) :
    ¬ r.Solid world := by
  rintro ⟨j, hj, hsolid⟩
  obtain ⟨k, hk, hempty⟩ := h
  rw [hk] at hj
  exact hsolid (Option.some.inj hj ▸ hempty)

theorem traceSelectionRay_cons_empty {world : WorldMap} {r : RayStep} (h : r.Empty world)
    (ray : List RayStep) : traceSelectionRay world (r :: ray) = traceSelectionRay world ray := by
  obtain ⟨k, hk, hempty⟩ := h
  rw [traceSelectionRay, hk]
  exact if_neg (by rw [hempty]; decide)

theorem traceSelectionRay_cons_solid {world : WorldMap} {r : RayStep} (h : r.Solid world)
    (ray : List RayStep) :
    traceSelectionRay world (r :: ray) = ⟨true, r.checkX, r.checkY, r.faceAxis⟩ := by
  obtain ⟨k, hk, hsolid⟩ := h
  have hpos : 0 < (world k).toNat := Nat.pos_of_ne_zero fun h0 => hsolid (BitVec.eq_of_toNat_eq h0)
  rw [traceSelectionRay, hk]
  exact if_pos hpos

theorem traceSelectionRay_cons_out {world : WorldMap} {r : RayStep} (hempty : ¬ r.Empty world)
    (hsolid : ¬ r.Solid world) (ray : List RayStep) :
    traceSelectionRay world (r :: ray) = ⟨false, -1, -1, 0⟩ := by
  rw [traceSelectionRay]
  cases hk : tileIndex r.checkX r.checkY with
  | none => rfl
  | some k =>
    by_cases h0 : world k = 0
    · exact absurd ⟨k, hk, h0⟩ hempty
    · exact absurd ⟨k, hk, h0⟩ hsolid

/-- The first step that comes to a block is `n`, through empty tiles, counted from `a`. -/
structure FirstSolid (world : WorldMap) (step : Nat → RayStep) (a n : Nat) : Prop where
  le : a ≤ n
  before : ∀ m, a ≤ m → m < n → (step m).Empty world
  solid : (step n).Solid world

theorem FirstSolid.unique {world : WorldMap} {step : Nat → RayStep} {a n n' : Nat}
    (h : FirstSolid world step a n) (h' : FirstSolid world step a n') : n = n' := by
  rcases Nat.lt_trichotomy n n' with hlt | heq | hgt
  · exact absurd h.solid (h'.before n h.le hlt).not_solid
  · exact heq
  · exact absurd h'.solid (h.before n' h'.le hgt).not_solid

/-- **The selection** is the first solid tile, if there is one. -/
theorem traceSelectionRay_range (world : WorldMap) (step : Nat → RayStep) (a len : Nat) :
    (∃ n, n < a + len ∧ FirstSolid world step a n ∧
      traceSelectionRay world ((List.range' a len).map step) =
        ⟨true, (step n).checkX, (step n).checkY, (step n).faceAxis⟩) ∨
    (traceSelectionRay world ((List.range' a len).map step) = ⟨false, -1, -1, 0⟩ ∧
      ∀ n, n < a + len → ¬ FirstSolid world step a n) := by
  induction len generalizing a with
  | zero => exact .inr ⟨rfl, fun n hn hfirst => absurd hfirst.le (by omega)⟩
  | succ len ih =>
    rw [List.range'_succ, List.map_cons]
    by_cases hempty : (step a).Empty world
    · rw [traceSelectionRay_cons_empty hempty]
      rcases ih (a + 1) with ⟨n, hn, hfirst, htrace⟩ | ⟨htrace, hnone⟩
      · refine .inl ⟨n, by omega, ⟨by have := hfirst.le; omega, fun m hm hmn => ?_, hfirst.solid⟩,
          htrace⟩
        rcases Nat.eq_or_lt_of_le hm with rfl | hlt
        · exact hempty
        · exact hfirst.before m hlt hmn
      · refine .inr ⟨htrace, ?_⟩
        intro n hn hfirst
        rcases Nat.eq_or_lt_of_le hfirst.le with rfl | hlt
        · exact hempty.not_solid hfirst.solid
        · have hbefore : ∀ m, a + 1 ≤ m → m < n → (step m).Empty world := fun m hm hmn =>
            hfirst.before m (by omega) hmn
          exact hnone n (by omega) ⟨hlt, hbefore, hfirst.solid⟩
    · by_cases hsolid : (step a).Solid world
      · exact .inl ⟨a, by omega, ⟨le_refl a, fun m hm hlt => absurd hm (by omega), hsolid⟩,
          traceSelectionRay_cons_solid hsolid _⟩
      · refine .inr ⟨traceSelectionRay_cons_out hempty hsolid _, ?_⟩
        intro n _ hfirst
        rcases Nat.eq_or_lt_of_le hfirst.le with rfl | hlt
        · exact hsolid hfirst.solid
        · exact hempty (hfirst.before a (le_refl a) hlt)

/-! ### Distance -/

/-- The square of the distance of a sample from the player. -/
def distanceSq (pos : Vec3) (angle : ℚ) (n : Nat) : ℚ :=
  (sampleX pos angle n - pos.x) ^ 2 + (sampleY pos angle n - pos.y) ^ 2

theorem distanceSq_eq (pos : Vec3) (angle : ℚ) (n : Nat) :
    distanceSq pos angle n = (n : ℚ) ^ 2 * (4 + angle ^ 4) / 1600 := by
  rw [distanceSq, sampleX, sampleY, cosA, rayStepSize]
  ring

theorem distanceSq_le_iff (pos : Vec3) (angle : ℚ) (n : Nat) :
    distanceSq pos angle n ≤ maxSelectionDistance ^ 2 ↔
      (n : ℚ) ^ 2 * (4 + angle ^ 4) ≤ 25600 := by
  rw [distanceSq_eq, maxSelectionDistance, div_le_iff₀ (by norm_num)]
  norm_num

/-- What a selection should be: the loop ends by itself; a hit is the first block on the way, with
empty tiles of the map before it, and within reach; and without a hit there is none. -/
structure SelectionReached (world : WorldMap) (pos : Vec3) (angle : ℚ) : Prop where
  ends : ∀ extra,
    raySamples (cosA angle) angle (80 + extra) pos.x pos.y 0 = (viewOf pos angle).ray
  hit : (traceSelectionRay world (viewOf pos angle).ray).hitDetected = true →
    ∃ n, n ≤ 80 ∧ FirstSolid world (sampleStep pos angle) 1 n ∧
      (traceSelectionRay world (viewOf pos angle).ray).targetX = truncate (sampleX pos angle n) ∧
      (traceSelectionRay world (viewOf pos angle).ray).targetY = truncate (sampleY pos angle n) ∧
      distanceSq pos angle n ≤ maxSelectionDistance ^ 2
  miss : (traceSelectionRay world (viewOf pos angle).ray).hitDetected = false →
    ∀ n, n ≤ 80 → ¬ FirstSolid world (sampleStep pos angle) 1 n

theorem ray_ends (pos : Vec3) (angle : ℚ) (extra : Nat) :
    raySamples (cosA angle) angle (80 + extra) pos.x pos.y 0 = (viewOf pos angle).ray := by
  have h := raySamples_fuel (cosA angle) angle (show 80 ≤ 0 + 80 by norm_num) extra pos.x pos.y
  rw [Nat.cast_zero, zero_mul] at h
  exact h

theorem traceSelectionRay_viewOf (world : WorldMap) (pos : Vec3) (angle : ℚ) :
    (∃ n, n ≤ 80 ∧ FirstSolid world (sampleStep pos angle) 1 n ∧
      traceSelectionRay world (viewOf pos angle).ray =
        ⟨true, truncate (sampleX pos angle n), truncate (sampleY pos angle n),
          faceAxis (sampleX pos angle n) (sampleY pos angle n)⟩) ∨
    (traceSelectionRay world (viewOf pos angle).ray = ⟨false, -1, -1, 0⟩ ∧
      ∀ n, n ≤ 80 → ¬ FirstSolid world (sampleStep pos angle) 1 n) := by
  rw [ray_viewOf]
  rcases traceSelectionRay_range world (sampleStep pos angle) 1 80 with
    ⟨n, hn, hfirst, htrace⟩ | ⟨htrace, hnone⟩
  · exact .inl ⟨n, by omega, hfirst, htrace⟩
  · exact .inr ⟨htrace, fun n hn => hnone n (by omega)⟩

/-- **The selection is within reach** exactly when the first block is met with a step `n` for
which `n² (4 + a⁴)` is at most 25600. -/
theorem selectionReached_iff (world : WorldMap) (pos : Vec3) (angle : ℚ) :
    SelectionReached world pos angle ↔
      ∀ n, n ≤ 80 → FirstSolid world (sampleStep pos angle) 1 n →
        (n : ℚ) ^ 2 * (4 + angle ^ 4) ≤ 25600 := by
  have htrace := traceSelectionRay_viewOf world pos angle
  refine ⟨?_, ?_⟩
  · intro hreached n hn hfirst
    rw [← distanceSq_le_iff pos]
    rcases htrace with ⟨m, _, _, heq⟩ | ⟨_, hnone⟩
    · obtain ⟨n', _, hfirst', _, _, hdistance⟩ := hreached.hit (by rw [heq])
      rw [hfirst.unique hfirst']
      exact hdistance
    · exact absurd hfirst (hnone n hn)
  · intro hlimit
    refine ⟨ray_ends pos angle, fun hhit => ?_, fun hmiss => ?_⟩
    · rcases htrace with ⟨n, hn, hfirst, heq⟩ | ⟨heq, _⟩
      · rw [heq]
        exact ⟨n, hn, hfirst, rfl, rfl, (distanceSq_le_iff pos angle n).mpr (hlimit n hn hfirst)⟩
      · rw [heq] at hhit
        exact absurd hhit Bool.false_ne_true
    · rcases htrace with ⟨n, _, _, heq⟩ | ⟨_, hnone⟩
      · rw [heq] at hmiss
        exact absurd hmiss.symm Bool.false_ne_true
      · exact hnone

/-- One block at (4, 2). -/
def farBlock : WorldMap := fun k => if k.val = 36 then 1 else 0

theorem farBlock_first :
    FirstSolid farBlock (sampleStep ⟨1 / 2, 1 / 2, 0⟩ (1 / 2)) 1 80 := by
  refine ⟨by norm_num, fun m _ hm => ?_, by decide +kernel⟩
  have hbefore : ∀ m, m < 80 → (sampleStep ⟨1 / 2, 1 / 2, 0⟩ (1 / 2) m).Empty farBlock := by
    decide +kernel
  exact hbefore m hm

/-- At angle 1/2 the last sample is farther away than 4, and a block that only this one meets is
selected. -/
theorem not_selectionReached : InMap ⟨1 / 2, 1 / 2, 0⟩ ∧
    ¬ SelectionReached farBlock ⟨1 / 2, 1 / 2, 0⟩ (1 / 2) := by
  refine ⟨by decide +kernel, ?_⟩
  intro hreached
  cases hhit : (traceSelectionRay farBlock (viewOf ⟨1 / 2, 1 / 2, 0⟩ (1 / 2)).ray).hitDetected with
  | false => exact hreached.miss hhit 80 (le_refl 80) farBlock_first
  | true =>
    obtain ⟨n, _, hfirst, _, _, hdistance⟩ := hreached.hit hhit
    rw [hfirst.unique farBlock_first] at hdistance
    revert hdistance
    decide +kernel

end Antagonist
