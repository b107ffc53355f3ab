import Antagonist.Disk.World
import Mathlib.Data.Rat.Floor

/-!
# Walls

`src/collision.cpp` over exact rationals: `check_wall_collision` looks up the tile of
a point, and `apply_aabb_clipping` moves the player along one axis and then along
the other one, each time if the leading edge of the player's box meets no wall.

* `clipAxis_eq`: a move along an axis is made in full or not at all.
* `clear_of_edgeClear`: a move of at most 4/5 past a clear edge ends on a clear tile.
-/

namespace Antagonist

/-- A cast from `float` to `int`: toward zero. -/
def truncate (x : ℚ) : Int := if 0 ≤ x then ⌊x⌋ else ⌈x⌉

theorem truncate_mono {a b : ℚ} (h : a ≤ b) : truncate a ≤ truncate b := by
  unfold truncate
  by_cases ha : 0 ≤ a
  · rw [if_pos ha, if_pos (ha.trans h)]
    exact Int.floor_mono h
  · rw [if_neg ha]
    by_cases hb : 0 ≤ b
    · rw [if_pos hb]
      have hceil : ⌈a⌉ ≤ 0 := Int.ceil_le.mpr (by push_cast; linarith)
      exact hceil.trans (Int.floor_nonneg.mpr hb)
    · rw [if_neg hb]
      exact Int.ceil_mono h

theorem truncate_add_one (a : ℚ) : truncate (a + 1) ≤ truncate a + 1 := by
  unfold truncate
  by_cases ha : 0 ≤ a
  · rw [if_pos ha, if_pos (by linarith), Int.floor_add_one]
  · rw [if_neg ha]
    by_cases hb : 0 ≤ a + 1
    · rw [if_pos hb, Int.floor_add_one]
      exact add_le_add (Int.floor_le_ceil a) (le_refl 1)
    · rw [if_neg hb, Int.ceil_add_one]

/-- What is at most a tile apart has no other tile in between. -/
theorem truncate_between (lo t hi : ℚ) (hlo : lo ≤ t) (hhi : t ≤ hi) (htile : hi ≤ lo + 1) :
    truncate t = truncate lo ∨ truncate t = truncate hi := by
  have h1 := truncate_mono hlo
  have h2 := truncate_mono hhi
  have h3 : truncate hi ≤ truncate lo + 1 := (truncate_mono htile).trans (truncate_add_one lo)
  omega

structure Vec3 where
  x : ℚ
  y : ℚ
  z : ℚ

def playerRadius : ℚ := 1 / 5

/-- `check_wall_collision`.  Outside the map everything is solid. -/
def checkWallCollision (world : WorldMap) (checkX checkY : ℚ) : Bool :=
  match tileIndex (truncate checkX) (truncate checkY) with
  | none => true
  | some k => decide (0 < (world k).toNat)

/-- One axis of `apply_aabb_clipping`: the coordinate after the move, with `wall` for the
walls along the axis. -/
def clipAxis (wall : ℚ → Bool) (current delta : ℚ) : ℚ :=
  let target := current + delta
  if 0 < delta then
    if !wall (target + playerRadius) then target else current
  else if delta < 0 then
    if !wall (target - playerRadius) then target else current
  else current

def applyAabbClipping (world : WorldMap) (currentPos movementDelta : Vec3) : Vec3 :=
  let finalX := clipAxis (fun x => checkWallCollision world x currentPos.y) currentPos.x
    movementDelta.x
  let finalY := clipAxis (fun y => checkWallCollision world finalX y) currentPos.y movementDelta.y
  ⟨finalX, finalY, currentPos.z⟩

def EdgeClear (wall : ℚ → Bool) (current delta : ℚ) : Prop :=
  (0 < delta ∧ wall (current + delta + playerRadius) = false) ∨
    (delta < 0 ∧ wall (current + delta - playerRadius) = false)

instance (wall : ℚ → Bool) (current delta : ℚ) : Decidable (EdgeClear wall current delta) :=
  inferInstanceAs (Decidable (_ ∨ _))

/-- **One axis**: the whole way when the leading edge is clear, and no way otherwise. -/
theorem clipAxis_eq (wall : ℚ → Bool) (current delta : ℚ) :
    clipAxis wall current delta =
      if EdgeClear wall current delta then current + delta else current := by
  unfold clipAxis EdgeClear
  rcases lt_trichotomy delta 0 with hneg | hzero | hpos
  · have hnot : ¬ 0 < delta := not_lt.mpr hneg.le
    simp [hneg, hnot]
  · simp [hzero]
  · have hnot : ¬ delta < 0 := not_lt.mpr hpos.le
    simp [hpos, hnot]

/-- The far edge of the box is less than a tile away from where a short move starts. -/
theorem clear_of_edgeClear (wall : ℚ → Bool)
    (hwall : ∀ a b, truncate a = truncate b → wall a = wall b) {x delta : ℚ}
    (h0 : wall x = false) (hshort : |delta| ≤ 4 / 5) (hedge : EdgeClear wall x delta) :
    wall (x + delta) = false := by
  obtain ⟨hge, hle⟩ := abs_le.mp hshort
  rcases hedge with ⟨hpos, hclear⟩ | ⟨hneg, hclear⟩
  · rcases truncate_between x (x + delta) (x + delta + playerRadius)
      (by linarith) (by rw [playerRadius]; linarith) (by rw [playerRadius]; linarith) with h | h
    · rw [hwall _ _ h, h0]
    · rw [hwall _ _ h, hclear]
  · rcases truncate_between (x + delta - playerRadius) (x + delta) x
      (by rw [playerRadius]; linarith) (by linarith) (by rw [playerRadius]; linarith) with h | h
    · rw [hwall _ _ h, hclear]
    · rw [hwall _ _ h, h0]

end Antagonist
