import Antagonist.Sandbox.Edits
import Antagonist.Sandbox.Reach

/-!
# The face that was struck

A new block should be where the ray came from.  `trace_selection_ray` guesses the face from how
near to a grid line the sample is that hit, and the sides from the signs of the direction.  The
signs are right: a coordinate goes one way only along the ray.  The axis is right when the last
step crossed one grid line, of that axis.

* `newBlock_eq_iff`: the guess against the last step.
* `placedFlush_iff`: when a new block is where the ray came from.
-/

namespace Antagonist

/-! ### The last step -/

theorem tileIndex_inj {x y x' y' : Int} {k : Fin 256} (h : tileIndex x y = some k)
    (h' : tileIndex x' y' = some k) : x = x' ∧ y = y' := by
  rw [tileIndex] at h h'
  split at h
  · split at h'
    · have heq := congrArg Fin.val (Option.some.inj (h.trans h'.symm))
      simp only at heq
      omega
    · exact absurd h' (by simp)
  · exact absurd h (by simp)

/-- A coordinate that goes one way crosses its grid lines that way. -/
theorem truncate_step {c d : ℚ} :
    (0 < d → truncate c ≤ truncate (c + d * rayStepSize)) ∧
      (¬ 0 < d → truncate (c + d * rayStepSize) ≤ truncate c) := by
  have hsize : (0 : ℚ) < rayStepSize := by decide +kernel
  refine ⟨?_, ?_⟩
  · intro hd
    have hup : 0 ≤ d * rayStepSize := (mul_pos hd hsize).le
    exact truncate_mono (by linarith)
  · intro hd
    have hdown : d * rayStepSize ≤ 0 := mul_nonpos_of_nonpos_of_nonneg (not_lt.mp hd) hsize.le
    exact truncate_mono (by linarith)

/-- Between step `n` and the next one the ray crosses one grid line, of the axis that the remainders
there name. -/
def FaceCrossed (pos : Vec3) (angle : ℚ) (n : Nat) : Prop :=
  let last := sampleStep pos angle n
  let next := sampleStep pos angle (n + 1)
  if next.faceAxis = 0 then (next.checkX - last.checkX).natAbs = 1 ∧ next.checkY = last.checkY
  else next.checkX = last.checkX ∧ (next.checkY - last.checkY).natAbs = 1

def selectAt (pos : Vec3) (angle : ℚ) (n : Nat) : SelectionResult :=
  ⟨true, (sampleStep pos angle n).checkX, (sampleStep pos angle n).checkY,
    (sampleStep pos angle n).faceAxis⟩

/-- **The guess is right** exactly when the last step crossed a grid line of the axis that it
names, and no other. -/
theorem newBlock_eq_iff (pos : Vec3) (angle : ℚ) (n : Nat) :
    newBlock (viewOf pos angle) (selectAt pos angle (n + 1)) =
        ((sampleStep pos angle n).checkX, (sampleStep pos angle n).checkY) ↔
      FaceCrossed pos angle n := by
  have hx : (sampleStep pos angle (n + 1)).checkX =
      truncate (sampleX pos angle n + cosA angle * rayStepSize) := by
    rw [← sampleX_succ]
    rfl
  have hy : (sampleStep pos angle (n + 1)).checkY =
      truncate (sampleY pos angle n + angle * rayStepSize) := by
    rw [← sampleY_succ]
    rfl
  have hxlast : (sampleStep pos angle n).checkX = truncate (sampleX pos angle n) := rfl
  have hylast : (sampleStep pos angle n).checkY = truncate (sampleY pos angle n) := rfl
  obtain ⟨hxup, hxdown⟩ := truncate_step (c := sampleX pos angle n) (d := cosA angle)
  obtain ⟨hyup, hydown⟩ := truncate_step (c := sampleY pos angle n) (d := angle)
  rw [← hx, ← hxlast] at hxup hxdown
  rw [← hy, ← hylast] at hyup hydown
  simp only [newBlock, selectAt, viewOf, FaceCrossed, decide_eq_true_eq]
  by_cases haxis : (sampleStep pos angle (n + 1)).faceAxis = 0
  · rw [if_pos haxis, if_pos haxis, Prod.mk.injEq]
    by_cases hcos : 0 < cosA angle
    · have := hxup hcos
      rw [if_pos hcos]
      omega
    · have := hxdown hcos
      rw [if_neg hcos]
      omega
  · rw [if_neg haxis, if_neg haxis, Prod.mk.injEq]
    by_cases hangle : 0 < angle
    · have := hyup hangle
      rw [if_pos hangle]
      omega
    · have := hydown hangle
      rw [if_neg hangle]
      omega

/-! ### Placements -/

/-- A tile that a placement fills is that of the last sample before the hit, or of the player. -/
def PlacedFlush (world : WorldMap) (pos : Vec3) (angle : ℚ) : Prop :=
  ∀ k, world k = 0 → executeVoxelMutation (viewOf pos angle) 1 world k ≠ 0 →
    ∃ n, n < 80 ∧ FirstSolid world (sampleStep pos angle) 1 (n + 1) ∧
      tileIndex (truncate (sampleX pos angle n)) (truncate (sampleY pos angle n)) = some k

/-- The ray strikes a block with step `n + 1`, and the tile that the guess is for is empty. -/
def Places (world : WorldMap) (pos : Vec3) (angle : ℚ) (n : Nat) : Prop :=
  FirstSolid world (sampleStep pos angle) 1 (n + 1) ∧
    ∃ k, placementTile (viewOf pos angle) (selectAt pos angle (n + 1)) = some k ∧ world k = 0

theorem place_iff {world : WorldMap} {pos : Vec3} {angle : ℚ} {k : Fin 256} (h : world k = 0) :
    executeVoxelMutation (viewOf pos angle) 1 world k ≠ 0 ↔
      ∃ n, n < 80 ∧ FirstSolid world (sampleStep pos angle) 1 (n + 1) ∧
        placementTile (viewOf pos angle) (selectAt pos angle (n + 1)) = some k := by
  rw [Ne, executeVoxelMutation_empty_iff h]
  rcases traceSelectionRay_viewOf world pos angle with ⟨m, hm, hfirst, htrace⟩ | ⟨htrace, hnone⟩
  · have hselect : traceSelectionRay world (viewOf pos angle).ray = selectAt pos angle m := htrace
    obtain ⟨n, rfl⟩ : ∃ n, m = n + 1 := ⟨m - 1, by have := hfirst.le; omega⟩
    rw [hselect]
    refine ⟨?_, ?_⟩
    · intro hplaced
      refine ⟨n, by omega, hfirst, ?_⟩
      by_contra hne
      exact hplaced fun _ _ => hne
    · rintro ⟨n', _, hfirst', hk⟩ hall
      obtain rfl : n = n' := by have := hfirst.unique hfirst'; omega
      exact hall rfl rfl hk
  · rw [htrace]
    refine ⟨?_, ?_⟩
    · intro hplaced
      exact absurd (fun _ hhit => absurd hhit Bool.false_ne_true) hplaced
    · rintro ⟨n, hn, hfirst, _⟩
      exact absurd hfirst (hnone (n + 1) (by omega))

/-- **A new block is flush** with the one that was struck, toward the player, exactly when the last
step of the ray crossed the face that the code takes it to have crossed, or nothing is placed. -/
theorem placedFlush_iff (world : WorldMap) (pos : Vec3) (angle : ℚ) :
    PlacedFlush world pos angle ↔
      ∀ n, n < 80 → Places world pos angle n → FaceCrossed pos angle n := by
  refine ⟨?_, ?_⟩
  · rintro hflush n hn ⟨hfirst, k, hk, hempty⟩
    obtain ⟨n', _, hfirst', hlast⟩ := hflush k hempty ((place_iff hempty).mpr ⟨n, hn, hfirst, hk⟩)
    obtain rfl : n = n' := by have := hfirst.unique hfirst'; omega
    rw [placementTile_eq] at hk
    obtain ⟨hx, hy⟩ := tileIndex_inj hk hlast
    exact (newBlock_eq_iff pos angle n).mp (Prod.ext hx hy)
  · intro hcrossed k hempty hplaced
    obtain ⟨n, hn, hfirst, hk⟩ := (place_iff hempty).mp hplaced
    have hguess := (newBlock_eq_iff pos angle n).mpr (hcrossed n hn ⟨hfirst, k, hk, hempty⟩)
    rw [placementTile_eq, hguess] at hk
    exact ⟨n, hn, hfirst, hk⟩

/-- One block at (5, 6). -/
def aboveBlock : WorldMap := fun k => if k.val = 101 then 1 else 0

/-- The player is below the block and near the next column.  The first sample is in the block; it
is still closer to that column, and the new block is put beside the block on the other side. -/
theorem not_placedFlush : checkWallCollision aboveBlock (1189 / 200) (299 / 50) = false ∧
    InMap ⟨1189 / 200, 299 / 50, 0⟩ ∧
    ¬ PlacedFlush aboveBlock ⟨1189 / 200, 299 / 50, 0⟩ 1 := by
  refine ⟨by decide +kernel, by decide +kernel, fun hflush => ?_⟩
  obtain ⟨n, _, hfirst, hlast⟩ := hflush 100 (by decide) (by decide +kernel)
  have hstruck : FirstSolid aboveBlock (sampleStep ⟨1189 / 200, 299 / 50, 0⟩ 1) 1 1 :=
    ⟨le_refl 1, fun m hm hlt => absurd hm (by omega), by decide +kernel⟩
  obtain rfl : n = 0 := by have := hfirst.unique hstruck; omega
  revert hlast
  decide +kernel

end Antagonist
