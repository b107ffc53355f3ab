import Antagonist.Sandbox.Collision

/-!
# The ray of the player

`trace_selection_ray` of `src/selection.cpp` over exact rationals: the samples of the ray
do not depend on the world, and `Disk.World` goes through them.

* `raySamples_fuel`: the loop ends at the distance bound, after 80 samples.
-/

namespace Antagonist

def rayStepSize : ℚ := 1 / 20

def maxSelectionDistance : ℚ := 4

def cosA (playerAngle : ℚ) : ℚ := 1 - playerAngle * playerAngle * (1 / 2)

def faceAxis (currentX currentY : ℚ) : Nat :=
  let remX := currentX - truncate currentX
  let remY := currentY - truncate currentY
  if remX < 1 / 20 ∨ remX > 19 / 20 then 0
  else if remY < 1 / 20 ∨ remY > 19 / 20 then 1
  else 0

/-- The loop of `trace_selection_ray`: the samples from a point on. -/
def raySamples (cosA sinA : ℚ) : Nat → ℚ → ℚ → ℚ → List RayStep
  | 0, _, _, _ => []
  | fuel + 1, currentX, currentY, currentDistance =>
      if currentDistance < maxSelectionDistance then
        let x := currentX + cosA * rayStepSize
        let y := currentY + sinA * rayStepSize
        ⟨truncate x, truncate y, faceAxis x y⟩ ::
          raySamples cosA sinA fuel x y (currentDistance + rayStepSize)
      else []

/-- From distance `n / 20` on, `80 - n` samples are left, and any more fuel is not used. -/
theorem raySamples_fuel (cosA sinA : ℚ) {n fuel : Nat} (hfuel : 80 ≤ n + fuel) (extra : Nat)
    (x y : ℚ) : raySamples cosA sinA (fuel + extra) x y (n * rayStepSize) =
      raySamples cosA sinA fuel x y (n * rayStepSize) := by
  induction fuel generalizing n x y with
  | zero =>
    have hfar : ¬ (n : ℚ) * rayStepSize < maxSelectionDistance := by
      have hn : (80 : ℚ) ≤ n := by exact_mod_cast hfuel
      rw [rayStepSize, maxSelectionDistance]
      linarith
    cases extra with
    | zero => rfl
    | succ extra => rw [Nat.zero_add, raySamples, raySamples, if_neg hfar]
  | succ fuel ih =>
    have hnext : (n : ℚ) * rayStepSize + rayStepSize = ((n + 1 : Nat) : ℚ) * rayStepSize := by
      push_cast
      ring
    rw [Nat.succ_add, raySamples, raySamples]
    simp only [hnext]
    rw [ih (by omega)]

/-- What `trace_selection_ray` and `execute_voxel_mutation` see of the player. -/
def viewOf (playerPos : Vec3) (playerAngle : ℚ) : View where
  ray := raySamples (cosA playerAngle) playerAngle 80 playerPos.x playerPos.y 0
  cosPositive := decide (0 < cosA playerAngle)
  anglePositive := decide (0 < playerAngle)

end Antagonist
