import Antagonist.Sandbox.Collision

/-!
# The box of the player

The box reaches `PLAYER_RADIUS` to every side of the position.  `apply_aabb_clipping` looks at one
point of its leading side, the one in the middle; so a tile that only a corner of the box comes to
is not seen.

* `tile_of_newly`: what a short move reaches for the first time is the tile of the leading edge.
* `boxClear_iff`: which moves keep the box out of the blocks.
-/

namespace Antagonist

/-! ### Tiles under the box -/

/-- The column and the row of a tile. -/
def tileX (k : Fin 256) : Int := k.val % 16

def tileY (k : Fin 256) : Int := k.val / 16

/-- The open interval of the box around `c` has a point in common with tile `i`. -/
def Reaches (c : ℚ) (i : Int) : Prop := ∃ t : ℚ, |t - c| < playerRadius ∧ i ≤ t ∧ t < i + 1

theorem reaches_iff {c : ℚ} {i : Int} :
    Reaches c i ↔ (i : ℚ) < c + playerRadius ∧ c - playerRadius < i + 1 := by
  have hradius : playerRadius = 1 / 5 := rfl
  refine ⟨?_, ?_⟩
  · rintro ⟨t, hnear, hlow, hhigh⟩
    obtain ⟨hleft, hright⟩ := abs_lt.mp hnear
    exact ⟨by linarith, by linarith⟩
  · rintro ⟨hright, hleft⟩
    by_cases hstart : c - playerRadius < i
    · exact ⟨i, abs_lt.mpr ⟨by linarith, by linarith⟩, le_refl _, by linarith⟩
    · -- the interval starts inside of the tile
      have hend : c - playerRadius < min (c + playerRadius) (i + 1) :=
        lt_min (by rw [hradius]; linarith) hleft
      obtain ⟨t, hlow, hhigh⟩ := exists_between hend
      obtain ⟨hbox, htile⟩ := lt_min_iff.mp hhigh
      exact ⟨t, abs_lt.mpr ⟨by linarith, by linarith⟩, by linarith, htile⟩

instance (c : ℚ) (i : Int) : Decidable (Reaches c i) := decidable_of_iff _ reaches_iff.symm

/-- The open square around a position meets a tile. -/
def BoxMeets (x y : ℚ) (k : Fin 256) : Prop := Reaches x (tileX k) ∧ Reaches y (tileY k)

instance (x y : ℚ) (k : Fin 256) : Decidable (BoxMeets x y k) :=
  inferInstanceAs (Decidable (_ ∧ _))

def BoxClear (world : WorldMap) (x y : ℚ) : Prop := ∀ k, BoxMeets x y k → world k = 0

instance (world : WorldMap) (x y : ℚ) : Decidable (BoxClear world x y) :=
  inferInstanceAs (Decidable (∀ _, _ → _))

/-! ### The leading side -/

/-- Where the leading side of the box is, after a move. -/
def leadingEdge (current delta : ℚ) : ℚ :=
  if 0 < delta then current + delta + playerRadius else current + delta - playerRadius

theorem clear_leadingEdge {wall : ℚ → Bool} {current delta : ℚ}
    (h : EdgeClear wall current delta) : wall (leadingEdge current delta) = false := by
  rw [leadingEdge]
  rcases h with ⟨hpos, hclear⟩ | ⟨hneg, hclear⟩
  · rw [if_pos hpos]
    exact hclear
  · rw [if_neg (not_lt.mpr hneg.le)]
    exact hclear

theorem truncate_eq {t : ℚ} {i : Int} (h0 : 0 ≤ t) (hlow : i ≤ t) (hhigh : t < i + 1) :
    truncate t = i := by
  rw [truncate]
  rw [if_pos h0, Int.floor_eq_iff]
  exact ⟨hlow, hhigh⟩

/-- **A tile that a short move reaches for the first time** is that of the leading edge. -/
theorem tile_of_newly {current delta : ℚ} {i : Int} (hlow : 1 ≤ current) (hshort : |delta| ≤ 1 / 5)
    (hnew : Reaches (current + delta) i) (hold : ¬ Reaches current i) :
    i = truncate (leadingEdge current delta) := by
  have hradius : playerRadius = 1 / 5 := rfl
  rw [reaches_iff] at hnew hold
  obtain ⟨hright, hleft⟩ := hnew
  obtain ⟨hge, hle⟩ := abs_le.mp hshort
  rw [leadingEdge]
  by_cases hpos : 0 < delta
  · have hbeyond : current + playerRadius ≤ i := by
      by_contra hlt
      exact hold ⟨not_le.mp hlt, by linarith⟩
    rw [if_pos hpos]
    exact (truncate_eq (by linarith) hright.le (by linarith)).symm
  · have hbeyond : (i : ℚ) + 1 ≤ current - playerRadius := by
      by_contra hlt
      exact hold ⟨by linarith, not_le.mp hlt⟩
    rw [if_neg hpos]
    exact (truncate_eq (by linarith) (by linarith) hleft).symm

theorem empty_of_clear {world : WorldMap} {x y : ℚ} (h : checkWallCollision world x y = false)
    {k : Fin 256} (hx : tileX k = truncate x) (hy : tileY k = truncate y) : world k = 0 := by
  have hindex : tileIndex (truncate x) (truncate y) = some k := by
    rw [← hx, ← hy, tileIndex, tileX, tileY, dif_pos (by omega)]
    exact congrArg some (Fin.ext (by simp only; omega))
  unfold checkWallCollision at h
  rw [hindex] at h
  have hnonpos : ¬ 0 < (world k).toNat := of_decide_eq_false h
  exact BitVec.eq_of_toNat_eq (by show (world k).toNat = 0; omega)

/-! ### One move -/

/-- The `x` side of the box comes to no block outside of the row of the player. -/
def SideClearX (world : WorldMap) (pos delta : Vec3) (y : ℚ) : Prop :=
  ∀ k, BoxMeets (pos.x + delta.x) y k → tileX k = truncate (leadingEdge pos.x delta.x) →
    tileY k ≠ truncate pos.y → world k = 0

/-- The `y` side of the box comes to no block outside of the column that the player is in by
then. -/
def SideClearY (world : WorldMap) (pos delta : Vec3) (x : ℚ) : Prop :=
  ∀ k, BoxMeets x (pos.y + delta.y) k → tileY k = truncate (leadingEdge pos.y delta.y) →
    tileX k ≠ truncate x → world k = 0

theorem empty_of_sideX {world : WorldMap} {pos delta : Vec3} {y : ℚ} {k : Fin 256}
    (hlow : 1 ≤ pos.x) (hshort : |delta.x| ≤ 1 / 5)
    (hedge : EdgeClear (fun x => checkWallCollision world x pos.y) pos.x delta.x)
    (hside : SideClearX world pos delta y) (hmeets : BoxMeets (pos.x + delta.x) y k)
    (hold : ¬ Reaches pos.x (tileX k)) : world k = 0 := by
  have htile := tile_of_newly hlow hshort hmeets.1 hold
  by_cases hrow : tileY k = truncate pos.y
  · have hclear : checkWallCollision world (leadingEdge pos.x delta.x) pos.y = false :=
      clear_leadingEdge hedge
    exact empty_of_clear hclear htile hrow
  · exact hside k hmeets htile hrow

theorem empty_of_sideY {world : WorldMap} {pos delta : Vec3} {x : ℚ} {k : Fin 256}
    (hlow : 1 ≤ pos.y) (hshort : |delta.y| ≤ 1 / 5)
    (hedge : EdgeClear (fun y => checkWallCollision world x y) pos.y delta.y)
    (hside : SideClearY world pos delta x) (hmeets : BoxMeets x (pos.y + delta.y) k)
    (hold : ¬ Reaches pos.y (tileY k)) : world k = 0 := by
  have htile := tile_of_newly hlow hshort hmeets.2 hold
  by_cases hcolumn : tileX k = truncate x
  · have hclear : checkWallCollision world x (leadingEdge pos.y delta.y) = false :=
      clear_leadingEdge hedge
    exact empty_of_clear hclear hcolumn htile
  · exact hside k hmeets htile hcolumn

/-- Wherever the tests let the box go, its leading sides come to no block outside of the row or
column that was tested. -/
def CornersClear (world : WorldMap) (pos delta : Vec3) : Prop :=
  let edgeX := EdgeClear (fun x => checkWallCollision world x pos.y) pos.x delta.x
  let edgeY x := EdgeClear (fun y => checkWallCollision world x y) pos.y delta.y
  (edgeX → edgeY (pos.x + delta.x) → SideClearX world pos delta (pos.y + delta.y) ∧
    SideClearY world pos delta (pos.x + delta.x)) ∧
  (edgeX → ¬ edgeY (pos.x + delta.x) → SideClearX world pos delta pos.y) ∧
  (¬ edgeX → edgeY pos.x → SideClearY world pos delta pos.x)

/-- **The box stays out of the blocks** exactly when its leading sides do so at the corners that
nobody looks at. -/
theorem boxClear_iff (world : WorldMap) (pos delta : Vec3) (hx : 1 ≤ pos.x) (hy : 1 ≤ pos.y)
    (hdx : |delta.x| ≤ 1 / 5) (hdy : |delta.y| ≤ 1 / 5) (h : BoxClear world pos.x pos.y) :
    BoxClear world (applyAabbClipping world pos delta).x (applyAabbClipping world pos delta).y ↔
      CornersClear world pos delta := by
  simp only [applyAabbClipping, clipAxis_eq, CornersClear]
  by_cases hedgeX : EdgeClear (fun x => checkWallCollision world x pos.y) pos.x delta.x
  · simp only [hedgeX, if_true, true_imp_iff, not_true, false_imp_iff, and_true]
    by_cases hedgeY : EdgeClear (fun y => checkWallCollision world (pos.x + delta.x) y) pos.y
        delta.y
    · simp only [hedgeY, if_true, true_imp_iff, not_true, false_imp_iff, and_true]
      refine ⟨?_, ?_⟩
      · exact fun hbox => ⟨fun k hmeets _ _ => hbox k hmeets, fun k hmeets _ _ => hbox k hmeets⟩
      · rintro ⟨hsideX, hsideY⟩ k hmeets
        by_cases holdX : Reaches pos.x (tileX k)
        · by_cases holdY : Reaches pos.y (tileY k)
          · exact h k ⟨holdX, holdY⟩
          · exact empty_of_sideY hy hdy hedgeY hsideY hmeets holdY
        · exact empty_of_sideX hx hdx hedgeX hsideX hmeets holdX
    · simp only [hedgeY, if_false, true_imp_iff, not_false_iff, false_imp_iff, true_and]
      refine ⟨?_, ?_⟩
      · exact fun hbox k hmeets _ _ => hbox k hmeets
      · intro hsideX k hmeets
        by_cases holdX : Reaches pos.x (tileX k)
        · exact h k ⟨holdX, hmeets.2⟩
        · exact empty_of_sideX hx hdx hedgeX hsideX hmeets holdX
  · simp only [hedgeX, if_false, true_imp_iff, not_false_iff, false_imp_iff, true_and]
    by_cases hedgeY : EdgeClear (fun y => checkWallCollision world pos.x y) pos.y delta.y
    · simp only [hedgeY, if_true, true_imp_iff]
      refine ⟨?_, ?_⟩
      · exact fun hbox k hmeets _ _ => hbox k hmeets
      · intro hsideY k hmeets
        by_cases holdY : Reaches pos.y (tileY k)
        · exact h k ⟨hmeets.1, holdY⟩
        · exact empty_of_sideY hy hdy hedgeY hsideY hmeets holdY
    · simp only [hedgeY, if_false, false_imp_iff]
      exact iff_of_true h trivial

/-- One block at (6, 6). -/
def cornerBlock : WorldMap := fun k => if k.val = 102 then 1 else 0

theorem boxClear_level : BoxClear cornerBlock (23 / 4) (11 / 2) ∧
    (BoxClear cornerBlock (applyAabbClipping cornerBlock ⟨23 / 4, 11 / 2, 0⟩ ⟨1 / 5, 0, 0⟩).x
        (applyAabbClipping cornerBlock ⟨23 / 4, 11 / 2, 0⟩ ⟨1 / 5, 0, 0⟩).y ↔
      CornersClear cornerBlock ⟨23 / 4, 11 / 2, 0⟩ ⟨1 / 5, 0, 0⟩) :=
  ⟨by decide +kernel,
    boxClear_iff cornerBlock ⟨23 / 4, 11 / 2, 0⟩ ⟨1 / 5, 0, 0⟩ (by norm_num) (by norm_num)
      (by norm_num) (by norm_num) (by decide +kernel)⟩

/-- With the middle of the side below the block, a corner comes into it. -/
theorem not_boxClear : BoxClear cornerBlock (23 / 4) (59 / 10) ∧
    ¬ BoxClear cornerBlock (applyAabbClipping cornerBlock ⟨23 / 4, 59 / 10, 0⟩ ⟨1 / 5, 0, 0⟩).x
      (applyAabbClipping cornerBlock ⟨23 / 4, 59 / 10, 0⟩ ⟨1 / 5, 0, 0⟩).y := by
  decide +kernel

end Antagonist
