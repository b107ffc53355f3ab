import Antagonist.Graphics.FirstWall
import Antagonist.Lib.Search

/-!
# The edits that are seen

The DDA loop of a column is a search along the tiles of its ray, and an edit changes what stops it
but not the ray.  So an edit shows in the columns whose ray is concerned and in no other one,
whatever the arithmetic: a tile that is destroyed lets those rays go on that ended there, and a
block that is placed ends those that passed.

* `columnWall_rayEnds`: a column shows where its ray ends.
* `exists_of_run`: the edit of a run that has changed a tile.
* `edits_seen`: **what a run of edits changes in the picture**.
-/

namespace Antagonist

open ByteMem Logged Search

/-! ### The rays -/

section

variable {φ : Type} (F : FloatOps φ) (playerPos : FloatVec φ) (x : Nat)

/-- A ray of the ray caster: the variables before the first jump, and a jump. -/
structure Ray (φ : Type) where
  start : Dda (φ × φ)
  jump : Dda (φ × φ) → Dda (φ × φ)
  deltaDistX : φ
  deltaDistY : φ

def columnRay : Ray φ :=
  let cameraX := F.sub (F.div (F.mul (F.lit 2) (F.ofInt x)) (F.ofInt screenWidth)) (F.lit 1)
  let rayDirX := F.mul (F.lit 1) (F.sub (F.lit 1) (F.mul cameraX cameraX))
  let deltaDistX := deltaDist F rayDirX
  let deltaDistY := deltaDist F cameraX
  let firstX := firstStep F rayDirX playerPos.x (F.toInt playerPos.x) deltaDistX
  let firstY := firstStep F cameraX playerPos.y (F.toInt playerPos.y) deltaDistY
  { start := ⟨(firstX.2, firstY.2), F.toInt playerPos.x, F.toInt playerPos.y, 0⟩
    jump := fun s => s.jump (floatDistances F deltaDistX deltaDistY) firstX.1 firstY.1
    deltaDistX := deltaDistX
    deltaDistY := deltaDistY }

def rayTile (n : Nat) : Int × Int :=
  let s := (columnRay F playerPos x).jump^[n + 1] (columnRay F playerPos x).start
  (s.mapX, s.mapY)

/-- The rounds at which there is something in the way. -/
def rayStops (cells : Cells) : Set Nat :=
  {n | Blocked cells (rayTile F playerPos x n).1 (rayTile F playerPos x n).2}

def RayEnds (cells : Cells) (n : Nat) : Prop := IsLeast (rayStops F playerPos x cells) n

/-- The side and the distance of a wall in round `n`. -/
def wallAt (n : Nat) : Nat × φ :=
  let s := (columnRay F playerPos x).jump^[n + 1] (columnRay F playerPos x).start
  (s.side, if s.side = 0 then F.sub s.distances.1 (columnRay F playerPos x).deltaDistX
    else F.sub s.distances.2 (columnRay F playerPos x).deltaDistY)

theorem ddaLoop_eq_search {δ : Type} (cells : Cells) (D : Distances δ) (stepX stepY : Int)
    (fuel : Nat) (s : Dda δ) : (ddaLoop cells D stepX stepY fuel s).val =
      search (fun s => Blocked cells s.mapX s.mapY) (fun s => s.jump D stepX stepY) fuel s := by
  induction fuel generalizing s with
  | zero => rfl
  | succ fuel ih => rw [ddaLoop_round, search, ih]

variable {F playerPos x}

/-- **A column shows where its ray ends.** -/
theorem columnWall_rayEnds (h : PlayerRoom F playerPos) (cells : Cells) (x : Nat) :
    ∃ n, RayEnds F playerPos x cells n ∧
      columnWall F 32 cells playerPos x = some (wallAt F playerPos x n) := by
  obtain ⟨b, hrender⟩ := renderColumn_ends F cells h (fun _ => 0) x
  rw [renderColumn_eq, Option.map_eq_some_iff] at hrender
  obtain ⟨wall, hwall, -⟩ := hrender
  rw [hwall]
  rw [columnWall] at hwall
  simp only [ddaLoop_eq_search, Option.map_eq_some_iff] at hwall
  obtain ⟨t, hsearch, rfl⟩ := hwall
  obtain ⟨n, -, hn, rfl⟩ := search_eq_some_iff.mp hsearch
  exact ⟨n, hn, rfl⟩

end

/-! ### The edits -/

structure DestroysTile (cells : Cells) (e : VoxelEdit) (tile : Int × Int) : Prop where
  hit : (traceSelectionRayL cells e.view.ray).hitDetected = true
  action : e.actionType = 0
  target : ((traceSelectionRayL cells e.view.ray).targetX,
    (traceSelectionRayL cells e.view.ray).targetY) = tile

structure PlacesBlock (cells : Cells) (e : VoxelEdit) (tile : Int × Int) : Prop where
  hit : (traceSelectionRayL cells e.view.ray).hitDetected = true
  action : e.actionType = 1
  target : newBlock e.view (traceSelectionRayL cells e.view.ray) = tile
  inside : OnMap tile.1 tile.2
  empty : cells (cellIndex tile.1 tile.2) = 0

section

variable {cells : Cells} {e : VoxelEdit} {tile : Int × Int}

theorem DestroysTile.inside (h : DestroysTile cells e tile) : OnMap tile.1 tile.2 :=
  h.target ▸ traceSelectionRayL_onMap h.hit

theorem DestroysTile.run_eq (h : DestroysTile cells e tile) :
    VoxelEdit.run cells e = (cells.pokeL tile.1 tile.2 0).val := by
  rw [VoxelEdit.run, executeVoxelMutationL]
  simp only [h.hit, h.action, Bool.not_true, Bool.false_eq_true, if_false, if_true]
  rw [← h.target]

theorem PlacesBlock.run_eq (h : PlacesBlock cells e tile) :
    VoxelEdit.run cells e = (cells.pokeL tile.1 tile.2 1).val := by
  have hne : ¬ (1 : Byte) = 0 := by decide
  rw [VoxelEdit.run, executeVoxelMutationL]
  simp only [h.hit, h.action, Bool.not_true, Bool.false_eq_true, if_false, if_true, if_neg hne,
    h.target, if_pos h.inside, if_pos h.empty]

/-- **What an edit does**: destroy, place, or nothing. -/
theorem VoxelEdit.run_cases (cells : Cells) (e : VoxelEdit) :
    (∃ tile, DestroysTile cells e tile) ∨ (∃ tile, PlacesBlock cells e tile) ∨
      VoxelEdit.run cells e = cells := by
  rw [VoxelEdit.run, executeVoxelMutationL]
  by_cases hhit : (traceSelectionRayL cells e.view.ray).hitDetected = true
  · by_cases hdestroy : e.actionType = 0
    · exact .inl ⟨_, hhit, hdestroy, rfl⟩
    by_cases hplace : e.actionType = 1
    · by_cases hfree : OnMap (newBlock e.view (traceSelectionRayL cells e.view.ray)).1
          (newBlock e.view (traceSelectionRayL cells e.view.ray)).2 ∧
        cells (cellIndex (newBlock e.view (traceSelectionRayL cells e.view.ray)).1
          (newBlock e.view (traceSelectionRayL cells e.view.ray)).2) = 0
      · exact .inr (.inl ⟨_, hhit, hplace, rfl, hfree.1, hfree.2⟩)
      · refine .inr (.inr ?_)
        simp only [hhit, Bool.not_true, Bool.false_eq_true, if_false, if_neg hdestroy,
          if_pos hplace]
        by_cases hinside : OnMap (newBlock e.view (traceSelectionRayL cells e.view.ray)).1
          (newBlock e.view (traceSelectionRayL cells e.view.ray)).2
        · rw [if_pos hinside, if_neg fun hempty => hfree ⟨hinside, hempty⟩]
          rfl
        · rw [if_neg hinside]
          rfl
    · refine .inr (.inr ?_)
      simp only [hhit, Bool.not_true, Bool.false_eq_true, if_false, if_neg hdestroy, if_neg hplace]
      rfl
  · refine .inr (.inr ?_)
    simp only [hhit, Bool.not_false, if_true]
    rfl

theorem cellIndex_inj {x y : Int} (h : OnMap x y) (htile : OnMap tile.1 tile.2) :
    cellIndex x y = cellIndex tile.1 tile.2 ↔ (x, y) = tile := by
  unfold OnMap at h htile
  refine ⟨?_, fun heq => heq ▸ rfl⟩
  intro hindex
  unfold cellIndex at hindex
  exact Prod.ext (show x = tile.1 by omega) (show y = tile.2 by omega)

theorem blocked_pokeL (htile : OnMap tile.1 tile.2) (v : Byte) (x y : Int) :
    Blocked (cells.pokeL tile.1 tile.2 v).val x y ↔
      if (x, y) = tile then 0 < v.toNat else Blocked cells x y := by
  by_cases heq : (x, y) = tile
  · rw [if_pos heq]
    subst heq
    rw [Blocked, cells.pokeL_self]
    exact ⟨fun h => h htile, fun h _ => h⟩
  · rw [if_neg heq]
    refine forall_congr' fun hon => ?_
    rw [cells.pokeL_of_ne v fun hindex => heq ((cellIndex_inj hon htile).mp hindex)]

end

/-! ### Runs of edits -/

/-- One of the edits does this to the tile, on the map as it is then. -/
def DuringRun (P : Cells → VoxelEdit → Int × Int → Prop) (cells : Cells) (edits : List VoxelEdit)
    (tile : Int × Int) : Prop :=
  ∃ before e after, edits = before ++ e :: after ∧ P (VoxelEdit.runAll cells before) e tile

section

variable {cells : Cells} {edits : List VoxelEdit} {tile : Int × Int}

theorem DuringRun.concat {P : Cells → VoxelEdit → Int × Int → Prop}
    (h : DuringRun P cells edits tile) (e : VoxelEdit) : DuringRun P cells (edits ++ [e]) tile := by
  obtain ⟨before, e', after, rfl, hP⟩ := h
  exact ⟨before, e', after ++ [e], by simp, hP⟩

/-- **An edit** frees the tile that it destroys, and blocks the one that it places a block on. -/
theorem changed_by_edit (cells : Cells) (e : VoxelEdit) (tile : Int × Int) :
    (Blocked cells tile.1 tile.2 → ¬ Blocked (VoxelEdit.run cells e) tile.1 tile.2 →
      DestroysTile cells e tile) ∧
    (¬ Blocked cells tile.1 tile.2 → Blocked (VoxelEdit.run cells e) tile.1 tile.2 →
      PlacesBlock cells e tile) := by
  rcases VoxelEdit.run_cases cells e with ⟨t, ht⟩ | ⟨t, ht⟩ | hquiet
  · rw [ht.run_eq, blocked_pokeL ht.inside]
    by_cases heq : tile = t
    · rw [if_pos heq]
      exact ⟨fun _ _ => heq ▸ ht, fun _ hlt => absurd hlt (by decide)⟩
    · rw [if_neg heq]
      exact ⟨fun h h' => absurd h h', fun h h' => absurd h' h⟩
  · rw [ht.run_eq, blocked_pokeL ht.inside]
    by_cases heq : tile = t
    · rw [if_pos heq]
      exact ⟨fun _ hlt => absurd (by decide) hlt, fun _ _ => heq ▸ ht⟩
    · rw [if_neg heq]
      exact ⟨fun h h' => absurd h h', fun h h' => absurd h' h⟩
  · rw [hquiet]
    exact ⟨fun h h' => absurd h h', fun h h' => absurd h' h⟩

/-- What stops a ray before the edits but not after them has been destroyed, and what stops it after
them only has been placed. -/
theorem exists_of_run (cells : Cells) (edits : List VoxelEdit) (tile : Int × Int) :
    (Blocked cells tile.1 tile.2 → ¬ Blocked (VoxelEdit.runAll cells edits) tile.1 tile.2 →
      DuringRun DestroysTile cells edits tile) ∧
    (¬ Blocked cells tile.1 tile.2 → Blocked (VoxelEdit.runAll cells edits) tile.1 tile.2 →
      DuringRun PlacesBlock cells edits tile) := by
  induction edits using List.reverseRecOn with
  | nil => exact ⟨fun h h' => absurd h h', fun h h' => absurd h' h⟩
  | append_singleton edits e ih =>
    have hrun : VoxelEdit.runAll cells (edits ++ [e]) =
        VoxelEdit.run (VoxelEdit.runAll cells edits) e := List.foldl_concat ..
    obtain ⟨hdestroyed, hplaced⟩ := ih
    obtain ⟨hdestroys, hplaces⟩ := changed_by_edit (VoxelEdit.runAll cells edits) e tile
    rw [hrun]
    by_cases hbefore : Blocked (VoxelEdit.runAll cells edits) tile.1 tile.2
    · refine ⟨?_, ?_⟩
      · intro _ h'
        exact ⟨edits, e, [], rfl, hdestroys hbefore h'⟩
      · intro h _
        exact (hplaced h hbefore).concat e
    · refine ⟨?_, ?_⟩
      · intro h _
        exact (hdestroyed h hbefore).concat e
      · intro _ h'
        exact ⟨edits, e, [], rfl, hplaces hbefore h'⟩

end

section

variable {φ : Type} {F : FloatOps φ} {playerPos : FloatVec φ}

/-- The ray of a column tells its two ends: it goes on where an edit has destroyed the tile, or it
ends earlier where an edit has placed a block. -/
def RayMoved (F : FloatOps φ) (playerPos : FloatVec φ) (x : Nat) (cells : Cells)
    (edits : List VoxelEdit) : Prop :=
  ∃ n n', RayEnds F playerPos x cells n ∧
    RayEnds F playerPos x (VoxelEdit.runAll cells edits) n' ∧
    ((n < n' ∧ DuringRun DestroysTile cells edits (rayTile F playerPos x n)) ∨
      (n' < n ∧ DuringRun PlacesBlock cells edits (rayTile F playerPos x n')))

/-- **What a run of edits changes in the picture**: a pixel of the walls is another one only if the
ray of its column ended at a tile that one of the edits has destroyed, and goes further now, or
ends at a tile that one of them has placed, nearer than before. -/
theorem edits_seen (h : PlayerRoom F playerPos) (cells : Cells) (edits : List VoxelEdit)
    (b : BackBuffer) : ∃ b1 b2, renderVoxelWorld F 32 cells playerPos b = some b1 ∧
      renderVoxelWorld F 32 (VoxelEdit.runAll cells edits) playerPos b = some b2 ∧
      ∀ p, b1 p ≠ b2 p → RayMoved F playerPos (p % screenWidth) cells edits := by
  obtain ⟨b1, hrender1, hshows1⟩ := lays_renderVoxelWorld F cells h b
  obtain ⟨b2, hrender2, hshows2⟩ := lays_renderVoxelWorld F (VoxelEdit.runAll cells edits) h b
  refine ⟨b1, b2, hrender1, hrender2, ?_⟩
  intro p hp
  obtain ⟨n, hn, hwall⟩ := columnWall_rayEnds h cells (p % screenWidth)
  obtain ⟨n', hn', hwall'⟩ := columnWall_rayEnds h (VoxelEdit.runAll cells edits) (p % screenWidth)
  refine ⟨n, n', hn, hn', ?_⟩
  rcases lt_trichotomy n n' with hlt | rfl | hlt
  · obtain ⟨hblocked, hfree⟩ := mem_diff_of_lt hn hn' hlt
    exact .inl ⟨hlt, (exists_of_run cells edits _).1 hblocked hfree⟩
  · refine absurd ?_ hp
    rw [hshows1, hshows2, wallFilm, wallFilm, hwall, hwall']
  · obtain ⟨hblocked, hfree⟩ := mem_diff_of_lt hn' hn hlt
    exact .inr ⟨hlt, (exists_of_run cells edits _).2 hfree hblocked⟩

end

/-- The start position in the middle of walls, one of which is destroyed. -/
theorem edits_seen_start : ∃ b1 b2,
    renderVoxelWorld rationalOps 32 (fun _ => 1) ⟨9 / 2, 9 / 2, 0⟩ (fun _ => 0) = some b1 ∧
    renderVoxelWorld rationalOps 32
      (VoxelEdit.runAll (fun _ => 1) [⟨⟨[⟨5, 4, 0⟩], true, true⟩, 0⟩]) ⟨9 / 2, 9 / 2, 0⟩
      (fun _ => 0) = some b2 ∧
    ∀ p, b1 p ≠ b2 p → RayMoved rationalOps ⟨9 / 2, 9 / 2, 0⟩ (p % screenWidth) (fun _ => 1)
      [⟨⟨[⟨5, 4, 0⟩], true, true⟩, 0⟩] := by
  have hcast : rationalOps.toInt (9 / 2) = 4 := by decide +kernel
  refine edits_seen ?_ (fun _ => 1) [⟨⟨[⟨5, 4, 0⟩], true, true⟩, 0⟩] fun _ => 0
  intro step hstep
  rw [hcast]
  exact ⟨room_of_onMap hstep (by decide) (by decide), room_of_onMap hstep (by decide) (by decide)⟩

end Antagonist
