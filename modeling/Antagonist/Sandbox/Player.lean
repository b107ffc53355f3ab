import Antagonist.Sandbox.Selection
import Antagonist.Lib.Lts

/-!
# The player among the blocks

Moves change the position and placements change the map, and neither side looks at
the other one: a move tests the leading edge of the box only, and a placement
only that the tile is empty.  So the player is inside of a block after a long enough
move, or after a placement on the tile where they stand.

* `moveClear_of_short`: moves of at most 4/5 along each axis are fine.
* `player_onEmptyTile_iff`: what the steps of a run must be like for the player to be
  on an empty tile all along.
-/

namespace Antagonist

open ByteMem

/-- `world_map` and the position of the player. -/
structure Player where
  worldMap : WorldMap
  pos : Vec3

inductive PlayerAct
  | applyAabbClipping (movementDelta : Vec3)
  | executeVoxelMutation (playerAngle : ℚ) (actionType : Byte)

namespace Player

def step (s : Player) : PlayerAct → Player
  | .applyAabbClipping movementDelta =>
      { s with pos := applyAabbClipping s.worldMap s.pos movementDelta }
  | .executeVoxelMutation playerAngle actionType =>
      { s with worldMap :=
          executeVoxelMutation (viewOf s.pos playerAngle) actionType s.worldMap }

def runAll (s : Player) (acts : List PlayerAct) : Player := acts.foldl step s

def tile (s : Player) : Option (Fin 256) := tileIndex (truncate s.pos.x) (truncate s.pos.y)

def OnEmptyTile (s : Player) : Prop := checkWallCollision s.worldMap s.pos.x s.pos.y = false

instance (s : Player) : Decidable s.OnEmptyTile := inferInstanceAs (Decidable (_ = _))

theorem onEmptyTile_iff {s : Player} : s.OnEmptyTile ↔ ∃ k, s.tile = some k ∧ s.worldMap k = 0 := by
  rw [OnEmptyTile, checkWallCollision, tile]
  cases h : tileIndex (truncate s.pos.x) (truncate s.pos.y) with
  | none => simp
  | some k => simp [BitVec.toNat_eq]

end Player

/-! ### Moves -/

/-- Wherever the leading edges let the centre go, there is no wall. -/
def MoveClear (world : WorldMap) (pos delta : Vec3) : Prop :=
  let edgeX := EdgeClear (fun x => checkWallCollision world x pos.y) pos.x delta.x
  let edgeY x := EdgeClear (fun y => checkWallCollision world x y) pos.y delta.y
  (edgeX → edgeY (pos.x + delta.x) →
    checkWallCollision world (pos.x + delta.x) (pos.y + delta.y) = false) ∧
  (edgeX → ¬ edgeY (pos.x + delta.x) →
    checkWallCollision world (pos.x + delta.x) pos.y = false) ∧
  (¬ edgeX → edgeY pos.x → checkWallCollision world pos.x (pos.y + delta.y) = false)

theorem move_onEmptyTile_iff {s : Player} (h : s.OnEmptyTile) (delta : Vec3) :
    (s.step (.applyAabbClipping delta)).OnEmptyTile ↔ MoveClear s.worldMap s.pos delta := by
  have hstay : checkWallCollision s.worldMap s.pos.x s.pos.y = false := h
  show checkWallCollision s.worldMap (applyAabbClipping s.worldMap s.pos delta).x
    (applyAabbClipping s.worldMap s.pos delta).y = false ↔ _
  simp only [applyAabbClipping, clipAxis_eq, MoveClear]
  by_cases hx : EdgeClear (fun x => checkWallCollision s.worldMap x s.pos.y) s.pos.x delta.x
  · simp only [hx, if_true]
    by_cases hy : EdgeClear (fun y => checkWallCollision s.worldMap (s.pos.x + delta.x) y)
        s.pos.y delta.y <;> simp [hy]
  · simp only [hx, if_false]
    by_cases hy : EdgeClear (fun y => checkWallCollision s.worldMap s.pos.x y) s.pos.y delta.y <;>
      simp [hy, hstay]

/-- **Short moves are fine.** -/
theorem moveClear_of_short {s : Player} (h : s.OnEmptyTile) {delta : Vec3}
    (hx : |delta.x| ≤ 4 / 5) (hy : |delta.y| ≤ 4 / 5) : MoveClear s.worldMap s.pos delta := by
  have hstay : checkWallCollision s.worldMap s.pos.x s.pos.y = false := h
  have hmoveX : EdgeClear (fun x => checkWallCollision s.worldMap x s.pos.y) s.pos.x delta.x →
      checkWallCollision s.worldMap (s.pos.x + delta.x) s.pos.y = false := fun hedge =>
    clear_of_edgeClear (fun x => checkWallCollision s.worldMap x s.pos.y)
      (fun a b hab => by simp only [checkWallCollision, hab]) hstay hx hedge
  have hmoveY : ∀ x, checkWallCollision s.worldMap x s.pos.y = false →
      EdgeClear (fun y => checkWallCollision s.worldMap x y) s.pos.y delta.y →
      checkWallCollision s.worldMap x (s.pos.y + delta.y) = false := fun x h0 hedge =>
    clear_of_edgeClear (fun y => checkWallCollision s.worldMap x y)
      (fun a b hab => by simp only [checkWallCollision, hab]) h0 hy hedge
  exact ⟨fun hedgeX hedgeY => hmoveY _ (hmoveX hedgeX) hedgeY, fun hedgeX _ => hmoveX hedgeX,
    fun _ hedgeY => hmoveY _ hstay hedgeY⟩

/-! ### Placements -/

/-- The tile of the block that the placement mode spawns. -/
def placementTile (view : View) (select : SelectionResult) : Option (Fin 256) :=
  tileIndex
    (if select.faceAxis = 0 then select.targetX + (if view.cosPositive then -1 else 1)
      else select.targetX)
    (if select.faceAxis = 0 then select.targetY
      else select.targetY + (if view.anglePositive then -1 else 1))

theorem placeVoxel_eq (world : WorldMap) (view : View) (select : SelectionResult) :
    placeVoxel world view select =
      match placementTile view select with
      | none => world
      | some k => if world k = 0 then Function.update world k 1 else world := rfl

/-- No block is placed on the tile of the player. -/
def MutationClear (s : Player) (playerAngle : ℚ) (actionType : Byte) : Prop :=
  let view := viewOf s.pos playerAngle
  let select := traceSelectionRay s.worldMap view.ray
  actionType = 1 → select.hitDetected = true → placementTile view select ≠ s.tile

theorem destroyVoxel_empty {world : WorldMap} {k : Fin 256} (h : world k = 0)
    (select : SelectionResult) : destroyVoxel world select k = 0 := by
  rw [destroyVoxel]
  cases tileIndex select.targetX select.targetY with
  | none => exact h
  | some j =>
    by_cases hj : k = j
    · rw [hj]
      exact Function.update_self j 0 world
    · exact (Function.update_of_ne hj 0 world).trans h

/-- The placement mode fills the empty tile that it goes for. -/
theorem placeVoxel_empty_iff {world : WorldMap} {k : Fin 256} (h : world k = 0) (view : View)
    (select : SelectionResult) :
    placeVoxel world view select k = 0 ↔ placementTile view select ≠ some k := by
  rw [placeVoxel_eq]
  cases placementTile view select with
  | none => simp [h]
  | some j =>
    by_cases hj : k = j
    · subst hj
      simp [h]
    · have hne : some j ≠ some k := fun heq => hj (Option.some.inj heq).symm
      refine iff_of_true ?_ hne
      by_cases hempty : world j = 0
      · simp only [hempty, if_true]
        exact (Function.update_of_ne hj 1 world).trans h
      · simp only [hempty, if_false]
        exact h

theorem executeVoxelMutation_empty_iff {world : WorldMap} {k : Fin 256} (h : world k = 0)
    (view : View) (actionType : Byte) :
    executeVoxelMutation view actionType world k = 0 ↔
      (actionType = 1 → (traceSelectionRay world view.ray).hitDetected = true →
        placementTile view (traceSelectionRay world view.ray) ≠ some k) := by
  rw [executeVoxelMutation]
  generalize traceSelectionRay world view.ray = select
  cases hhit : select.hitDetected with
  | false => simp [h]
  | true =>
    simp only [Bool.not_true, Bool.false_eq_true, if_false, forall_const]
    by_cases hdestroy : actionType = 0
    · rw [if_pos hdestroy, hdestroy]
      exact iff_of_true (destroyVoxel_empty h select) fun hne => absurd hne (by decide)
    · rw [if_neg hdestroy]
      by_cases hplace : actionType = 1
      · rw [if_pos hplace, placeVoxel_empty_iff h]
        exact ⟨fun hne _ => hne, fun hne => hne hplace⟩
      · rw [if_neg hplace]
        exact iff_of_true h fun heq => absurd heq hplace

theorem mutation_onEmptyTile_iff {s : Player} (h : s.OnEmptyTile) (playerAngle : ℚ)
    (actionType : Byte) : (s.step (.executeVoxelMutation playerAngle actionType)).OnEmptyTile ↔
      MutationClear s playerAngle actionType := by
  obtain ⟨k, hk, hempty⟩ := Player.onEmptyTile_iff.mp h
  have htile : (s.step (.executeVoxelMutation playerAngle actionType)).tile = some k := hk
  have hafter : (s.step (.executeVoxelMutation playerAngle actionType)).OnEmptyTile ↔
      executeVoxelMutation (viewOf s.pos playerAngle) actionType s.worldMap k = 0 := by
    rw [Player.onEmptyTile_iff, htile]
    exact ⟨fun ⟨j, hj, hzero⟩ => Option.some.inj hj ▸ hzero, fun hzero => ⟨k, rfl, hzero⟩⟩
  rw [hafter, executeVoxelMutation_empty_iff hempty, MutationClear, hk]

/-! ### Runs -/

/-- What a step must be like, in a state. -/
def StepClear (s : Player) : PlayerAct → Prop
  | .applyAabbClipping movementDelta => MoveClear s.worldMap s.pos movementDelta
  | .executeVoxelMutation playerAngle actionType => MutationClear s playerAngle actionType

theorem step_onEmptyTile_iff (s : Player) (act : PlayerAct) (h : s.OnEmptyTile) :
    (s.step act).OnEmptyTile ↔ StepClear s act := by
  cases act with
  | applyAabbClipping movementDelta => exact move_onEmptyTile_iff h movementDelta
  | executeVoxelMutation playerAngle actionType =>
    exact mutation_onEmptyTile_iff h playerAngle actionType

/-- **The player stays out of the blocks** as long as every step is clear, and no longer. -/
theorem player_onEmptyTile_iff (s : Player) (h : s.OnEmptyTile) (acts : List PlayerAct) :
    (∀ acts', acts' <+: acts → (s.runAll acts').OnEmptyTile) ↔
      ∀ before act after, acts = before ++ act :: after → StepClear (s.runAll before) act :=
  Lts.foldl_invariant_iff step_onEmptyTile_iff h acts

/-- One block at (6, 5), and the player on the tile next to it. -/
def besideBlock : Player := ⟨fun k => if k.val = 86 then 1 else 0, ⟨11 / 2, 11 / 2, 0⟩⟩

/-- The player steps up to the block, destroys it, walks onto its tile, and places another one. -/
def throughBlock : List PlayerAct :=
  [.applyAabbClipping ⟨1 / 5, 0, 0⟩, .executeVoxelMutation 0 0, .applyAabbClipping ⟨4 / 5, 0, 0⟩,
    .executeVoxelMutation 0 1]

theorem player_onEmptyTile_besideBlock : besideBlock.OnEmptyTile ∧
    (besideBlock.runAll throughBlock).tile = some 86 ∧
    ((∀ acts', acts' <+: throughBlock → (besideBlock.runAll acts').OnEmptyTile) ↔
      ∀ before act after, throughBlock = before ++ act :: after →
        StepClear (besideBlock.runAll before) act) :=
  ⟨by decide +kernel, by decide +kernel,
    player_onEmptyTile_iff besideBlock (by decide +kernel) throughBlock⟩

/-- A move of 7/5 ends inside of the block, its edge being behind it; and a placement at
angle 0 puts a block on the tile of the player. -/
theorem player_inside_block : besideBlock.OnEmptyTile ∧
    ¬ (besideBlock.runAll [.applyAabbClipping ⟨7 / 5, 0, 0⟩]).OnEmptyTile ∧
    ¬ (besideBlock.runAll [.executeVoxelMutation 0 1]).OnEmptyTile := by
  decide +kernel

end Antagonist
