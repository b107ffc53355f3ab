import Antagonist.Lib.Lts
import Antagonist.Sandbox.Collision

/-!
# The edge of the map

`check_wall_collision` means the space outside of the map to be solid.  The cast toward zero puts
everything between -1 and 0 into tile 0, so on the low side of the map a strip as wide as a tile
is as open as the tiles next to it; on the high side there is none.

* `clipAxis_inside_iff`: when one axis of a move stays on the map.
* `player_inMap_iff`: which moves keep the player there, in every run.
-/

namespace Antagonist

def InMap (pos : Vec3) : Prop := (0 ≤ pos.x ∧ pos.x < 16) ∧ 0 ≤ pos.y ∧ pos.y < 16

instance (pos : Vec3) : Decidable (InMap pos) := inferInstanceAs (Decidable (_ ∧ _))

/-- A call of `apply_aabb_clipping`, with the map at that time. -/
structure ClipCall where
  worldMap : WorldMap
  movementDelta : Vec3

namespace ClipCall

def run (pos : Vec3) (c : ClipCall) : Vec3 := applyAabbClipping c.worldMap pos c.movementDelta

def runAll (pos : Vec3) (calls : List ClipCall) : Vec3 := calls.foldl run pos

end ClipCall

/-! ### Walls along an axis -/

/-- The walls along an axis of the map: those of a tile are those of a point of it, and beyond the
map everything is solid. -/
structure MapWall (wall : ℚ → Bool) : Prop where
  same : ∀ a b, truncate a = truncate b → wall a = wall b
  low : ∀ t ≤ -1, wall t = true
  high : ∀ t, 16 ≤ t → wall t = true

theorem truncate_of_le {t : ℚ} (h : t ≤ -1) : truncate t ≤ -1 := by
  have hcast : truncate (-1) = -1 := by decide +kernel
  rw [← hcast]
  exact truncate_mono h

theorem truncate_of_ge {t : ℚ} (h : 16 ≤ t) : 16 ≤ truncate t := by
  have hcast : truncate 16 = 16 := by decide +kernel
  rw [← hcast]
  exact truncate_mono h

/-- **The strip** below the map is in tile 0. -/
theorem truncate_of_strip {t : ℚ} (hlow : -1 < t) (hhigh : t < 0) : truncate t = truncate 0 := by
  have hzero : truncate 0 = 0 := by decide +kernel
  unfold truncate
  rw [if_neg (not_le.mpr hhigh), ← truncate, hzero, Int.ceil_eq_zero_iff]
  exact ⟨hlow, hhigh.le⟩

theorem checkWallCollision_of_out (world : WorldMap) {x y : ℚ}
    (hout : ¬ (0 ≤ truncate x ∧ truncate x < 16 ∧ 0 ≤ truncate y ∧ truncate y < 16)) :
    checkWallCollision world x y = true := by
  rw [checkWallCollision, tileIndex]
  rw [dif_neg hout]

theorem mapWall_x (world : WorldMap) (y : ℚ) : MapWall fun x => checkWallCollision world x y where
  same a b hab := by simp only [checkWallCollision, hab]
  low t ht := checkWallCollision_of_out world (by have := truncate_of_le ht; omega)
  high t ht := checkWallCollision_of_out world (by have := truncate_of_ge ht; omega)

theorem mapWall_y (world : WorldMap) (x : ℚ) : MapWall fun y => checkWallCollision world x y where
  same a b hab := by simp only [checkWallCollision, hab]
  low t ht := checkWallCollision_of_out world (by have := truncate_of_le ht; omega)
  high t ht := checkWallCollision_of_out world (by have := truncate_of_ge ht; omega)

/-! ### One move -/

/-- The target of a move along an axis is not in the strip below the map, or the tile next to it
is solid. -/
def AxisInside (wall : ℚ → Bool) (target : ℚ) : Prop :=
  -4 / 5 < target → target < 0 → wall 0 = true

/-- **One axis** stays on the map exactly when it does not go for the strip. -/
theorem clipAxis_inside_iff {wall : ℚ → Bool} (H : MapWall wall) {current : ℚ}
    (h0 : 0 ≤ current) (h16 : current < 16) (delta : ℚ) :
    (0 ≤ clipAxis wall current delta ∧ clipAxis wall current delta < 16) ↔
      AxisInside wall (current + delta) := by
  have hradius : playerRadius = 1 / 5 := rfl
  rw [clipAxis_eq]
  by_cases hedge : EdgeClear wall current delta
  · rw [if_pos hedge]
    rcases hedge with ⟨hpos, hclear⟩ | ⟨hneg, hclear⟩
    · have hhigh : current + delta + playerRadius < 16 := by
        by_contra hge
        rw [H.high _ (not_lt.mp hge)] at hclear
        exact Bool.noConfusion hclear
      exact iff_of_true ⟨by linarith, by linarith⟩ fun _ hlt => absurd hlt (by linarith)
    · have hlow : -1 < current + delta - playerRadius := by
        by_contra hle
        rw [H.low _ (not_lt.mp hle)] at hclear
        exact Bool.noConfusion hclear
      refine ⟨?_, ?_⟩
      · rintro ⟨hge, -⟩ - hlt
        linarith
      · intro hinside
        refine ⟨?_, by linarith⟩
        by_contra hlt
        have hlt' : current + delta < 0 := not_le.mp hlt
        -- the leading edge is in the strip as well
        have hstrip := truncate_of_strip hlow (by linarith)
        rw [H.same _ _ hstrip, hinside (by linarith) hlt'] at hclear
        exact Bool.noConfusion hclear
  · rw [if_neg hedge]
    refine iff_of_true ⟨h0, h16⟩ ?_
    intro hlow hlt
    by_contra hopen
    rw [Bool.not_eq_true] at hopen
    have hstrip : truncate (current + delta - playerRadius) = truncate 0 :=
      truncate_of_strip (by linarith) (by linarith)
    exact hedge (.inr ⟨by linarith, (H.same _ _ hstrip).trans hopen⟩)

/-- Neither axis goes for the strip: the second one from where the first one leads to. -/
def MoveInside (world : WorldMap) (pos delta : Vec3) : Prop :=
  let edgeX := EdgeClear (fun x => checkWallCollision world x pos.y) pos.x delta.x
  let insideY x := AxisInside (fun y => checkWallCollision world x y) (pos.y + delta.y)
  AxisInside (fun x => checkWallCollision world x pos.y) (pos.x + delta.x) ∧
    (edgeX → insideY (pos.x + delta.x)) ∧ (¬ edgeX → insideY pos.x)

theorem clip_inMap_iff (pos : Vec3) (c : ClipCall) (h : InMap pos) :
    InMap (c.run pos) ↔ MoveInside c.worldMap pos c.movementDelta := by
  obtain ⟨⟨hx0, hx16⟩, hy0, hy16⟩ := h
  have hx := clipAxis_inside_iff (mapWall_x c.worldMap pos.y) hx0 hx16 c.movementDelta.x
  have hy : ∀ x, _ := fun x =>
    clipAxis_inside_iff (mapWall_y c.worldMap x) hy0 hy16 c.movementDelta.y
  show (0 ≤ clipAxis _ pos.x c.movementDelta.x ∧ clipAxis _ pos.x c.movementDelta.x < 16) ∧
    (0 ≤ clipAxis (fun y => checkWallCollision c.worldMap (clipAxis _ pos.x _) y) pos.y _ ∧
      clipAxis (fun y => checkWallCollision c.worldMap (clipAxis _ pos.x _) y) pos.y _ < 16) ↔ _
  rw [hx, hy, clipAxis_eq, MoveInside]
  refine and_congr_right ?_
  intro _
  by_cases hedge : EdgeClear (fun x => checkWallCollision c.worldMap x pos.y) pos.x
      c.movementDelta.x
  · simp only [hedge, if_true, not_true, true_imp_iff, false_imp_iff, and_true]
  · simp only [hedge, if_false, not_false_iff, true_imp_iff, false_imp_iff, true_and]

/-! ### Runs -/

/-- **The player stays on the map** as long as no move goes for the strip, and no longer.  The
map may change between the moves. -/
theorem player_inMap_iff (pos : Vec3) (h : InMap pos) (calls : List ClipCall) :
    (∀ calls', calls' <+: calls → InMap (ClipCall.runAll pos calls')) ↔
      ∀ before c after, calls = before ++ c :: after →
        MoveInside c.worldMap (ClipCall.runAll pos before) c.movementDelta :=
  Lts.foldl_invariant_iff clip_inMap_iff h calls

/-- An empty map, and a player at its low edge. -/
def emptyWorld : WorldMap := fun _ => 0

def lowEdge : Vec3 := ⟨1 / 10, 1 / 2, 0⟩

/-- A block in the corner comes and goes between the moves: it stops the one toward the edge. -/
def besideCorner : List ClipCall :=
  [⟨emptyWorld, ⟨1 / 5, 0, 0⟩⟩, ⟨Function.update emptyWorld 0 1, ⟨-2 / 5, 0, 0⟩⟩,
    ⟨emptyWorld, ⟨0, 3 / 10, 0⟩⟩]

theorem player_inMap_lowEdge : InMap lowEdge ∧
    (ClipCall.runAll lowEdge besideCorner).x = 3 / 10 ∧
    ((∀ calls', calls' <+: besideCorner → InMap (ClipCall.runAll lowEdge calls')) ↔
      ∀ before c after, besideCorner = before ++ c :: after →
        MoveInside c.worldMap (ClipCall.runAll lowEdge before) c.movementDelta) :=
  ⟨by decide +kernel, by decide +kernel, player_inMap_iff lowEdge (by decide +kernel) besideCorner⟩

/-- A step of 1/5 toward the edge ends at -1/10. -/
theorem not_player_inMap : InMap lowEdge ∧
    ¬ InMap (ClipCall.runAll lowEdge [⟨emptyWorld, ⟨-1 / 5, 0, 0⟩⟩]) := by
  decide +kernel

end Antagonist
