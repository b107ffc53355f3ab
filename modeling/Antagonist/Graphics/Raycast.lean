import Antagonist.Graphics.Buffer
import Antagonist.Sandbox.Edits

/-!
# The ray caster

`render_voxel_world` of `src/raycast.cpp`.  For each column of the screen its DDA loop goes from
tile to tile, along `x` or along `y` as two distances compare.  Nothing counts the rounds.  Each
round takes a coordinate one tile further in its direction, and the loop is left with the map; so
the tiles that are left in both directions are a measure, whatever the comparisons yield.

* `ddaLoop_onMap`: from a tile of the map.
* `ddaLoop_ends`: from any tile, after 32 rounds at most, and with no read outside of `world_map`.
* `renderColumn_ends`: each column comes to its end.
-/

namespace Antagonist

open ByteMem Logged

/-! ### The loop -/

/-- The distances of the loop: the comparison `side_dist_x < side_dist_y`, and what a step along
`x` or along `y` does to them.  Of numbers that count the rounds, `closerX` may be any sequence of
outcomes. -/
structure Distances (δ : Type) where
  closerX : δ → Bool
  passX : δ → δ
  passY : δ → δ

/-- The variables of the loop. -/
structure Dda (δ : Type) where
  distances : δ
  mapX : Int
  mapY : Int
  side : Nat

/-- A tile that the loop comes to, and an index at which it reads `world_map`. -/
inductive DdaEvent
  | tile (mapX mapY : Int)
  | read (index : Int)

section

variable {δ : Type} (cells : Cells) (D : Distances δ) (stepX stepY : Int)

def Dda.jump (s : Dda δ) : Dda δ :=
  if D.closerX s.distances then
    { distances := D.passX s.distances, mapX := s.mapX + stepX, mapY := s.mapY, side := 0 }
  else { distances := D.passY s.distances, mapX := s.mapX, mapY := s.mapY + stepY, side := 1 }

/-- The loop, for `fuel` rounds at most; `none` when it goes on. -/
def ddaLoop : Nat → Dda δ → Logged DdaEvent (Option (Dda δ))
  | 0, _ => return none
  | fuel + 1, s => do
      let s ← entry (.tile (s.jump D stepX stepY).mapX (s.jump D stepX stepY).mapY)
        (s.jump D stepX stepY)
      if ¬ OnMap s.mapX s.mapY then return some s
      else do
        let cell ← entry (.read (cellIndex s.mapX s.mapY)) (cells (cellIndex s.mapX s.mapY))
        if 0 < cell.toNat then return some s else ddaLoop fuel s

end

/-! ### The columns -/

section

variable {φ : Type} (F : FloatOps φ)

/-- The distances in `float`s, `side_dist_x` and `side_dist_y`. -/
def floatDistances (deltaDistX deltaDistY : φ) : Distances (φ × φ) where
  closerX d := F.lt d.1 d.2
  passX d := (F.add d.1 deltaDistX, d.2)
  passY d := (d.1, F.add d.2 deltaDistY)

/-- `delta_dist_x` or `delta_dist_y`, of the direction along its axis. -/
def deltaDist (rayDir : φ) : φ :=
  let delta := if F.eq rayDir (F.ofInt 0) then F.lit (10 ^ 30) else F.div (F.lit 1) rayDir
  if F.lt delta (F.ofInt 0) then F.neg delta else delta

/-- `step_x` and `side_dist_x`, or those of `y`. -/
def firstStep (rayDir pos : φ) (map : Int) (delta : φ) : Int × φ :=
  if F.lt rayDir (F.ofInt 0) then (-1, F.mul (F.sub pos (F.ofInt map)) delta)
  else (1, F.mul (F.sub (F.add (F.ofInt map) (F.lit 1)) pos) delta)

/-- The column of pixels for the distance of a wall. -/
def drawColumn (backBuffer : BackBuffer) (x : Nat) (side : Nat) (distance : φ) : BackBuffer :=
  let perpWallDist := if F.le distance (F.lit (1 / 10)) then F.lit (1 / 10) else distance
  let lineHeight := F.toInt (F.div (F.ofInt screenHeight) perpWallDist)
  let drawStart := max 0 ((-lineHeight).tdiv 2 + 300)
  let drawEnd := min 599 (lineHeight.tdiv 2 + 300)
  let wallColor : BitVec 32 := if side = 1 then 0x00B5A200 else 0x00FFD700
  (List.range (drawEnd + 1 - drawStart).toNat).foldl (fun backBuffer k =>
    putPixelBuffer backBuffer (BitVec.ofNat 32 x) (BitVec.ofInt 32 (drawStart + k)) wallColor)
    backBuffer

/-- The round of `render_voxel_world` for column `x`; `none` when its loop goes on after `fuel`
rounds. -/
def renderColumn (fuel : Nat) (cells : Cells) (playerPos : FloatVec φ) (backBuffer : BackBuffer)
    (x : Nat) : Option BackBuffer :=
  let cameraX := F.sub (F.div (F.mul (F.lit 2) (F.ofInt x)) (F.ofInt screenWidth)) (F.lit 1)
  let rayDirX := F.mul (F.lit 1) (F.sub (F.lit 1) (F.mul cameraX cameraX))
  let rayDirY := cameraX
  let mapX := F.toInt playerPos.x
  let mapY := F.toInt playerPos.y
  let deltaDistX := deltaDist F rayDirX
  let deltaDistY := deltaDist F rayDirY
  let (stepX, sideDistX) := firstStep F rayDirX playerPos.x mapX deltaDistX
  let (stepY, sideDistY) := firstStep F rayDirY playerPos.y mapY deltaDistY
  let D := floatDistances F deltaDistX deltaDistY
  (ddaLoop cells D stepX stepY fuel ⟨(sideDistX, sideDistY), mapX, mapY, 0⟩).val.map fun s =>
    drawColumn F backBuffer x s.side
      (if s.side = 0 then F.sub s.distances.1 deltaDistX else F.sub s.distances.2 deltaDistY)

def renderVoxelWorld (fuel : Nat) (cells : Cells) (playerPos : FloatVec φ)
    (backBuffer : BackBuffer) : Option BackBuffer :=
  (List.range screenWidth).foldlM (renderColumn F fuel cells playerPos) backBuffer

end

/-! ### The loop ends -/

/-- A direction along an axis. -/
def IsStep (step : Int) : Prop := step = -1 ∨ step = 1

instance (step : Int) : Decidable (IsStep step) := inferInstanceAs (Decidable (_ ∨ _))

/-- The tiles that are left along an axis, the one at `c` among them. -/
def tilesLeft (step c : Int) : Nat := if step = 1 then (16 - c).toNat else (c + 1).toNat

/-- A `c` that a 32-bit `int` can hold. -/
def IsInt32 (c : Int) : Prop := -2 ^ 31 ≤ c ∧ c < 2 ^ 31

instance (c : Int) : Decidable (IsInt32 c) := inferInstanceAs (Decidable (_ ∧ _))

/-- What happens in the loop stays in the range of its type and of its array. -/
def DdaEvent.InBounds : DdaEvent → Prop
  | tile mapX mapY => IsInt32 mapX ∧ IsInt32 mapY
  | read index => 0 ≤ index ∧ index < 256

section

variable {δ : Type} {cells : Cells} {D : Distances δ} {stepX stepY : Int} {s : Dda δ}

theorem Dda.jump_cases (D : Distances δ) (stepX stepY : Int) (s : Dda δ) :
    ((s.jump D stepX stepY).mapX = s.mapX + stepX ∧ (s.jump D stepX stepY).mapY = s.mapY) ∨
      ((s.jump D stepX stepY).mapX = s.mapX ∧ (s.jump D stepX stepY).mapY = s.mapY + stepY) := by
  rw [Dda.jump]
  by_cases hcloser : D.closerX s.distances = true
  · rw [if_pos hcloser]
    exact .inl ⟨rfl, rfl⟩
  · rw [if_neg hcloser]
    exact .inr ⟨rfl, rfl⟩

/-- **A jump on the map** leaves fewer tiles. -/
theorem Dda.jump_measure (hstepX : IsStep stepX) (hstepY : IsStep stepY)
    (hon : OnMap s.mapX s.mapY) (hon' : OnMap (s.jump D stepX stepY).mapX (s.jump D stepX stepY).mapY) :
    tilesLeft stepX (s.jump D stepX stepY).mapX + tilesLeft stepY (s.jump D stepX stepY).mapY + 1 =
      tilesLeft stepX s.mapX + tilesLeft stepY s.mapY := by
  unfold OnMap at hon hon'
  unfold IsStep at hstepX hstepY
  unfold tilesLeft
  rcases s.jump_cases D stepX stepY with ⟨hx, hy⟩ | ⟨hx, hy⟩
  · rw [hx] at hon'
    rw [hx, hy]
    rcases hstepX with rfl | rfl <;> simp only [if_true, if_neg (show (-1 : Int) ≠ 1 by decide)] <;>
      omega
  · rw [hy] at hon'
    rw [hx, hy]
    rcases hstepY with rfl | rfl <;> simp only [if_true, if_neg (show (-1 : Int) ≠ 1 by decide)] <;>
      omega

theorem tilesLeft_bounds {step c : Int} (hstep : IsStep step) (h0 : 0 ≤ c) (h16 : c < 16) :
    1 ≤ tilesLeft step c ∧ tilesLeft step c ≤ 16 := by
  unfold tilesLeft
  rcases hstep with rfl | rfl
  · rw [if_neg (by decide)]
    omega
  · rw [if_pos rfl]
    omega

def Room (step c : Int) : Prop := IsInt32 c ∧ IsInt32 (c + step)

instance (step c : Int) : Decidable (Room step c) := inferInstanceAs (Decidable (_ ∧ _))

theorem room_of_onMap {step c : Int} (hstep : IsStep step) (h0 : 0 ≤ c) (h16 : c < 16) :
    Room step c := by
  unfold Room IsInt32
  rcases hstep with rfl | rfl <;> omega

theorem ddaLoop_succ (hroomX : Room stepX s.mapX) (hroomY : Room stepY s.mapY) (fuel : Nat)
    (hrest : OnMap (s.jump D stepX stepY).mapX (s.jump D stepX stepY).mapY →
      (∃ t, (ddaLoop cells D stepX stepY fuel (s.jump D stepX stepY)).val = some t) ∧
        (ddaLoop cells D stepX stepY fuel (s.jump D stepX stepY)).All DdaEvent.InBounds) :
    (∃ t, (ddaLoop cells D stepX stepY (fuel + 1) s).val = some t) ∧
      (ddaLoop cells D stepX stepY (fuel + 1) s).All DdaEvent.InBounds := by
  have htile : DdaEvent.InBounds
      (.tile (s.jump D stepX stepY).mapX (s.jump D stepX stepY).mapY) := by
    rcases s.jump_cases D stepX stepY with ⟨hx, hy⟩ | ⟨hx, hy⟩
    · rw [hx, hy]
      exact ⟨hroomX.2, hroomY.1⟩
    · rw [hx, hy]
      exact ⟨hroomX.1, hroomY.2⟩
  rw [ddaLoop, all_bind, all_entry, val_bind, val_entry]
  by_cases hon : OnMap (s.jump D stepX stepY).mapX (s.jump D stepX stepY).mapY
  · obtain ⟨⟨t, ht⟩, hall⟩ := hrest hon
    rw [if_neg (not_not.mpr hon), all_bind, all_entry, val_bind, val_entry]
    have hread : DdaEvent.InBounds
        (.read (cellIndex (s.jump D stepX stepY).mapX (s.jump D stepX stepY).mapY)) :=
      cellIndex_lt hon
    by_cases hsolid : 0 < (cells (cellIndex (s.jump D stepX stepY).mapX
        (s.jump D stepX stepY).mapY)).toNat
    · rw [if_pos hsolid]
      exact ⟨⟨_, rfl⟩, htile, hread, all_pure _⟩
    · rw [if_neg hsolid]
      exact ⟨⟨t, ht⟩, htile, hread, hall⟩
  · rw [if_pos hon]
    exact ⟨⟨_, rfl⟩, htile, all_pure _⟩

/-- **From a tile of the map** the loop ends when the tiles that are left are used up. -/
theorem ddaLoop_onMap (hstepX : IsStep stepX) (hstepY : IsStep stepY) {fuel : Nat}
    (hon : OnMap s.mapX s.mapY)
    (hfuel : tilesLeft stepX s.mapX + tilesLeft stepY s.mapY ≤ fuel + 1) :
    (∃ t, (ddaLoop cells D stepX stepY fuel s).val = some t) ∧
      (ddaLoop cells D stepX stepY fuel s).All DdaEvent.InBounds := by
  induction fuel generalizing s with
  | zero =>
    have hx := (tilesLeft_bounds hstepX hon.1 hon.2.1).1
    have hy := (tilesLeft_bounds hstepY hon.2.2.1 hon.2.2.2).1
    omega
  | succ fuel ih =>
    refine ddaLoop_succ (room_of_onMap hstepX hon.1 hon.2.1)
      (room_of_onMap hstepY hon.2.2.1 hon.2.2.2) fuel ?_
    intro hon'
    have hmeasure := Dda.jump_measure hstepX hstepY hon hon'
    exact ih hon' (by omega)

/-- **The loop ends after 32 rounds at most**, from any tile and whatever the distances are, and
does not leave `world_map`. -/
theorem ddaLoop_ends (cells : Cells) (D : Distances δ) (hstepX : IsStep stepX)
    (hstepY : IsStep stepY) (s : Dda δ) (hroomX : Room stepX s.mapX) (hroomY : Room stepY s.mapY) :
    (∃ t, (ddaLoop cells D stepX stepY 32 s).val = some t) ∧
      (ddaLoop cells D stepX stepY 32 s).All DdaEvent.InBounds := by
  refine ddaLoop_succ hroomX hroomY 31 ?_
  intro hon
  have hx := (tilesLeft_bounds hstepX hon.1 hon.2.1).2
  have hy := (tilesLeft_bounds hstepY hon.2.2.1 hon.2.2.2).2
  exact ddaLoop_onMap hstepX hstepY hon (by omega)

/-- An empty map, crossed from beside its corner, along `x` and along `y` in turn. -/
theorem ddaLoop_ends_corner :
    (∃ t, (ddaLoop (fun _ => 0) ⟨fun n : Nat => decide (n % 2 = 0), (· + 1), (· + 1)⟩ 1 1 32
      ⟨0, -1, 0, 0⟩).val = some t) ∧
    (ddaLoop (fun _ => 0) ⟨fun n : Nat => decide (n % 2 = 0), (· + 1), (· + 1)⟩ 1 1 32
      ⟨0, -1, 0, 0⟩).All DdaEvent.InBounds :=
  ddaLoop_ends _ _ (by decide) (by decide) ⟨0, -1, 0, 0⟩ (by decide) (by decide)

end

/-! ### All columns -/

section

variable {φ : Type} (F : FloatOps φ)

theorem isStep_firstStep (rayDir pos : φ) (map : Int) (delta : φ) :
    IsStep (firstStep F rayDir pos map delta).1 := by
  rw [firstStep]
  split
  · exact .inl rfl
  · exact .inr rfl

/-- The player is where a step in any direction does not overflow. -/
def PlayerRoom (playerPos : FloatVec φ) : Prop :=
  ∀ step, IsStep step → Room step (F.toInt playerPos.x) ∧ Room step (F.toInt playerPos.y)

theorem renderColumn_ends (cells : Cells) {playerPos : FloatVec φ} (h : PlayerRoom F playerPos)
    (backBuffer : BackBuffer) (x : Nat) :
    ∃ b, renderColumn F 32 cells playerPos backBuffer x = some b := by
  rw [renderColumn]
  dsimp only
  generalize F.sub (F.div _ _) (F.lit 1) = cameraX
  generalize hX : firstStep F _ playerPos.x _ _ = stepX
  generalize hY : firstStep F cameraX playerPos.y _ _ = stepY
  have hstepX : IsStep stepX.1 := hX ▸ isStep_firstStep F _ _ _ _
  have hstepY : IsStep stepY.1 := hY ▸ isStep_firstStep F _ _ _ _
  obtain ⟨⟨t, ht⟩, -⟩ := @ddaLoop_succ _ cells (floatDistances F _ _) _ _
    ⟨(stepX.2, stepY.2), F.toInt playerPos.x, F.toInt playerPos.y, 0⟩ (h _ hstepX).1 (h _ hstepY).2
    31 fun hon => ddaLoop_onMap hstepX hstepY hon (by
      have hx := (tilesLeft_bounds hstepX hon.1 hon.2.1).2
      have hy := (tilesLeft_bounds hstepY hon.2.2.1 hon.2.2.2).2
      omega)
  rw [ht]
  exact ⟨_, rfl⟩

end

end Antagonist
