import Antagonist.Sandbox.Player
import Antagonist.Lib.Logged

/-!
# The stores of an edit

`trace_selection_ray` and `execute_voxel_mutation` once more, over memory: `world_map` is read and
written at `y * 16 + x`, whatever that number is, and every store is logged.  A tile beside the
left or right edge is a cell of another row then, unless somebody checks.

The ray and the signs of the view are any at all.

* `executeVoxelMutationL_stores`: what an edit can store.
* `worldOf_executeVoxelMutationL`: on the map it is the edit of `Disk.World`.
* `voxelEdits_intended`: no edit of a run changes more than it should.
-/

namespace Antagonist

open ByteMem Logged

/-- The bytes by their distance from the start of `world_map`. -/
abbrev Cells := Int → Byte

/-- A store: where, and what. -/
structure CellStore where
  index : Int
  value : Byte

/-- `(y * MAP_WIDTH) + x`. -/
def cellIndex (x y : Int) : Int := y * 16 + x

def OnMap (x y : Int) : Prop := 0 ≤ x ∧ x < 16 ∧ 0 ≤ y ∧ y < 16

instance (x y : Int) : Decidable (OnMap x y) := inferInstanceAs (Decidable (_ ∧ _))

namespace Cells

def pokeL (cells : Cells) (x y : Int) (v : Byte) : Logged CellStore Cells :=
  entry ⟨cellIndex x y, v⟩ (Function.update cells (cellIndex x y) v)

theorem pokeL_self (cells : Cells) (x y : Int) (v : Byte) :
    (cells.pokeL x y v).val (cellIndex x y) = v := by
  show Function.update cells (cellIndex x y) v (cellIndex x y) = v
  rw [Function.update_self]

theorem pokeL_of_ne (cells : Cells) {x y i : Int} (v : Byte) (h : i ≠ cellIndex x y) :
    (cells.pokeL x y v).val i = cells i := by
  show Function.update cells (cellIndex x y) v i = cells i
  rw [Function.update_of_ne h]

def worldOf (cells : Cells) : WorldMap := fun k => cells k.val

end Cells

/-! ### The code -/

/-- `trace_selection_ray`, over memory. -/
def traceSelectionRayL (cells : Cells) : List RayStep → SelectionResult
  | [] => ⟨false, -1, -1, 0⟩
  | r :: ray =>
      if ¬ OnMap r.checkX r.checkY then ⟨false, -1, -1, 0⟩
      else if 0 < (cells (cellIndex r.checkX r.checkY)).toNat then
        ⟨true, r.checkX, r.checkY, r.faceAxis⟩
      else traceSelectionRayL cells ray

/-- `new_block_x` and `new_block_y`. -/
def newBlock (view : View) (select : SelectionResult) : Int × Int :=
  if select.faceAxis = 0 then
    (select.targetX + (if view.cosPositive then -1 else 1), select.targetY)
  else (select.targetX, select.targetY + (if view.anglePositive then -1 else 1))

/-- `execute_voxel_mutation`, over memory. -/
def executeVoxelMutationL (cells : Cells) (view : View) (actionType : Byte) :
    Logged CellStore Cells :=
  let select := traceSelectionRayL cells view.ray
  if !select.hitDetected then pure cells
  else if actionType = 0 then cells.pokeL select.targetX select.targetY 0
  else if actionType = 1 then
    let (x, y) := newBlock view select
    if OnMap x y then
      if cells (cellIndex x y) = 0 then cells.pokeL x y 1 else pure cells
    else pure cells
  else pure cells

/-! ### What an edit can store -/

def Neighbour (x y x' y' : Int) : Prop :=
  (y' = y ∧ (x' = x - 1 ∨ x' = x + 1)) ∨ (x' = x ∧ (y' = y - 1 ∨ y' = y + 1))

theorem newBlock_neighbour (view : View) (select : SelectionResult) :
    Neighbour select.targetX select.targetY (newBlock view select).1 (newBlock view select).2 := by
  rw [newBlock, Neighbour]
  by_cases haxis : select.faceAxis = 0
  · rw [if_pos haxis]
    left
    cases view.cosPositive
    · exact ⟨rfl, .inr rfl⟩
    · exact ⟨rfl, .inl rfl⟩
  · rw [if_neg haxis]
    right
    cases view.anglePositive
    · exact ⟨rfl, .inr rfl⟩
    · exact ⟨rfl, .inl rfl⟩

theorem traceSelectionRayL_onMap {cells : Cells} {ray : List RayStep}
    (h : (traceSelectionRayL cells ray).hitDetected = true) :
    OnMap (traceSelectionRayL cells ray).targetX (traceSelectionRayL cells ray).targetY := by
  induction ray with
  | nil => exact absurd h Bool.false_ne_true
  | cons r ray ih =>
    rw [traceSelectionRayL] at h ⊢
    by_cases hmap : OnMap r.checkX r.checkY
    · rw [if_neg (not_not.mpr hmap)] at h ⊢
      by_cases hsolid : 0 < (cells (cellIndex r.checkX r.checkY)).toNat
      · rw [if_pos hsolid]
        exact hmap
      · rw [if_neg hsolid] at h ⊢
        exact ih h
    · rw [if_pos hmap] at h
      exact absurd h Bool.false_ne_true

/-- What an edit may store, for a hit and an action: nothing, unless it is to destroy the tile that
was hit; a 0 there; or a 1 at an empty tile of the map beside it. -/
inductive StoreOf (cells : Cells) (select : SelectionResult) :
    Byte → Logged CellStore Cells → Prop
  | none (actionType : Byte) (quiet : select.hitDetected = true → actionType ≠ 0) :
      StoreOf cells select actionType (pure cells)
  | destroy (hit : select.hitDetected = true) (target : OnMap select.targetX select.targetY) :
      StoreOf cells select 0 (cells.pokeL select.targetX select.targetY 0)
  | place (hit : select.hitDetected = true) (x y : Int)
      (neighbour : Neighbour select.targetX select.targetY x y) (inside : OnMap x y)
      (empty : cells (cellIndex x y) = 0) : StoreOf cells select 1 (cells.pokeL x y 1)

theorem executeVoxelMutationL_stores (cells : Cells) (view : View) (actionType : Byte) :
    StoreOf cells (traceSelectionRayL cells view.ray) actionType
      (executeVoxelMutationL cells view actionType) := by
  rw [executeVoxelMutationL]
  have honMap : (traceSelectionRayL cells view.ray).hitDetected = true →
      OnMap (traceSelectionRayL cells view.ray).targetX
        (traceSelectionRayL cells view.ray).targetY :=
    traceSelectionRayL_onMap
  generalize traceSelectionRayL cells view.ray = select at honMap ⊢
  dsimp only
  have hneighbour := newBlock_neighbour view select
  cases hhit : select.hitDetected with
  | false => exact .none actionType fun htrue => absurd (hhit.symm.trans htrue) Bool.false_ne_true
  | true =>
    simp only [Bool.not_true, Bool.false_eq_true, if_false]
    by_cases hdestroy : actionType = 0
    · rw [if_pos hdestroy, hdestroy]
      exact .destroy hhit (honMap hhit)
    rw [if_neg hdestroy]
    have hquiet : select.hitDetected = true → actionType ≠ 0 := fun _ => hdestroy
    by_cases hplace : actionType = 1
    · subst hplace
      rw [if_pos rfl]
      by_cases hinside : OnMap (newBlock view select).1 (newBlock view select).2
      · rw [if_pos hinside]
        by_cases hempty : cells (cellIndex (newBlock view select).1 (newBlock view select).2) = 0
        · rw [if_pos hempty]
          exact .place hhit _ _ hneighbour hinside hempty
        · rw [if_neg hempty]
          exact .none 1 hquiet
      · rw [if_neg hinside]
        exact .none 1 hquiet
    · rw [if_neg hplace]
      exact .none actionType hquiet

/-! ### The map in the memory -/

theorem tileIndex_of_onMap {x y : Int} (h : OnMap x y) :
    ∃ k, tileIndex x y = some k ∧ (k.val : Int) = cellIndex x y := by
  have hnonneg : 0 ≤ y * 16 + x := by
    obtain ⟨_, _, _, _⟩ := h
    omega
  rw [tileIndex]
  rw [dif_pos (show 0 ≤ x ∧ x < 16 ∧ 0 ≤ y ∧ y < 16 from h)]
  exact ⟨_, rfl, Int.toNat_of_nonneg hnonneg⟩

theorem tileIndex_of_not_onMap {x y : Int} (h : ¬ OnMap x y) : tileIndex x y = none := by
  exact dif_neg h

theorem cellIndex_lt {x y : Int} (h : OnMap x y) : 0 ≤ cellIndex x y ∧ cellIndex x y < 256 := by
  obtain ⟨_, _, _, _⟩ := h
  rw [cellIndex]
  omega

theorem worldOf_pokeL (cells : Cells) {x y : Int} {k : Fin 256} (hk : (k.val : Int) = cellIndex x y)
    (v : Byte) : (cells.pokeL x y v).val.worldOf = Function.update cells.worldOf k v := by
  funext j
  show Function.update cells (cellIndex x y) v j.val = _
  rw [← hk]
  by_cases hj : j = k
  · rw [hj, Function.update_self, Function.update_self]
  · have hne : (j.val : Int) ≠ k.val := fun h => hj (Fin.ext (by exact_mod_cast h))
    rw [Function.update_of_ne hne, Function.update_of_ne hj]
    rfl

theorem traceSelectionRayL_eq (cells : Cells) (ray : List RayStep) :
    traceSelectionRayL cells ray = traceSelectionRay cells.worldOf ray := by
  induction ray with
  | nil => rfl
  | cons r ray ih =>
    rw [traceSelectionRayL, traceSelectionRay]
    by_cases hmap : OnMap r.checkX r.checkY
    · obtain ⟨k, hk, hindex⟩ := tileIndex_of_onMap hmap
      rw [if_neg (not_not.mpr hmap), hk, ← hindex, ih]
      rfl
    · rw [if_pos hmap, tileIndex_of_not_onMap hmap]

theorem placementTile_eq (view : View) (select : SelectionResult) :
    placementTile view select = tileIndex (newBlock view select).1 (newBlock view select).2 := by
  rw [placementTile, newBlock]
  by_cases haxis : select.faceAxis = 0
  · simp only [haxis, if_true]
  · simp only [haxis, if_false]

/-- **On the map** an edit is that of `Disk.World`. -/
theorem worldOf_executeVoxelMutationL (cells : Cells) (view : View) (actionType : Byte) :
    (executeVoxelMutationL cells view actionType).val.worldOf =
      executeVoxelMutation view actionType cells.worldOf := by
  rw [executeVoxelMutationL, executeVoxelMutation]
  have honMap : (traceSelectionRayL cells view.ray).hitDetected = true →
      OnMap (traceSelectionRayL cells view.ray).targetX
        (traceSelectionRayL cells view.ray).targetY :=
    traceSelectionRayL_onMap
  rw [traceSelectionRayL_eq] at honMap ⊢
  generalize traceSelectionRay cells.worldOf view.ray = select at honMap ⊢
  dsimp only
  cases hhit : select.hitDetected with
  | false => rfl
  | true =>
    simp only [Bool.not_true, Bool.false_eq_true, if_false]
    by_cases hdestroy : actionType = 0
    · obtain ⟨k, hk, hindex⟩ := tileIndex_of_onMap (honMap hhit)
      rw [if_pos hdestroy, if_pos hdestroy, worldOf_pokeL cells hindex, destroyVoxel, hk]
    rw [if_neg hdestroy, if_neg hdestroy]
    by_cases hplace : actionType = 1
    · rw [if_pos hplace, if_pos hplace]
      rw [placeVoxel_eq, placementTile_eq]
      by_cases hinside : OnMap (newBlock view select).1 (newBlock view select).2
      · obtain ⟨k, hk, hindex⟩ := tileIndex_of_onMap hinside
        rw [if_pos hinside, hk, ← hindex]
        by_cases hempty : cells k.val = 0
        · rw [if_pos hempty, worldOf_pokeL cells hindex]
          exact (if_pos hempty).symm
        · rw [if_neg hempty]
          exact (if_neg hempty).symm
      · rw [if_neg hinside, tileIndex_of_not_onMap hinside]
        rfl
    · rw [if_neg hplace, if_neg hplace]
      rfl

/-! ### Runs -/

/-- What an edit should be: no store outside of the map, and at most one cell with another value.
To destroy empties the tile that was hit and no other; to place turns an empty tile of the map
beside it into a 1; and all the rest changes nothing. -/
structure Intended (cells : Cells) (select : SelectionResult) (actionType : Byte)
    (out : Logged CellStore Cells) : Prop where
  inside : out.All fun s => 0 ≤ s.index ∧ s.index < 256
  single : ∀ i j, out.val i ≠ cells i → out.val j ≠ cells j → i = j
  destroy : actionType = 0 → select.hitDetected = true →
    out.val (cellIndex select.targetX select.targetY) = 0 ∧
      ∀ i, i ≠ cellIndex select.targetX select.targetY → out.val i = cells i
  place : actionType = 1 → ∀ i, out.val i ≠ cells i →
    ∃ x y, Neighbour select.targetX select.targetY x y ∧ OnMap x y ∧ i = cellIndex x y ∧
      cells i = 0 ∧ out.val i = 1
  nothing : select.hitDetected = false ∨ (actionType ≠ 0 ∧ actionType ≠ 1) → out.val = cells

theorem pokeL_changed {cells : Cells} {x y : Int} {v : Byte} {i : Int}
    (h : (cells.pokeL x y v).val i ≠ cells i) : i = cellIndex x y := by
  by_contra hne
  exact h (cells.pokeL_of_ne v hne)

theorem intended_of_storeOf {cells : Cells} {select : SelectionResult} {actionType : Byte}
    {out : Logged CellStore Cells} (h : StoreOf cells select actionType out) :
    Intended cells select actionType out := by
  cases h with
  | none actionType quiet =>
    exact {
      inside := all_pure _
      single := fun _ _ h => absurd rfl h
      destroy := fun h0 hhit => absurd h0 (quiet hhit)
      place := fun _ _ h => absurd rfl h
      nothing := fun _ => rfl }
  | destroy hit target =>
    exact {
      inside := (all_entry _ _).mpr (cellIndex_lt target)
      single := fun _ _ hi hj => (pokeL_changed hi).trans (pokeL_changed hj).symm
      destroy := fun _ _ => ⟨cells.pokeL_self _ _ 0, fun _ hi => cells.pokeL_of_ne 0 hi⟩
      place := fun h1 => absurd h1 (by decide)
      nothing := fun h => by
        rcases h with hmiss | ⟨h0, -⟩
        · exact absurd (hmiss.symm.trans hit) Bool.false_ne_true
        · exact absurd rfl h0 }
  | place hit x y neighbour inside empty =>
    exact {
      inside := (all_entry _ _).mpr (cellIndex_lt inside)
      single := fun _ _ hi hj => (pokeL_changed hi).trans (pokeL_changed hj).symm
      destroy := fun h0 => absurd h0 (by decide)
      place := fun _ i hi => by
        have hcell := pokeL_changed hi
        subst hcell
        exact ⟨x, y, neighbour, inside, rfl, empty, cells.pokeL_self x y 1⟩
      nothing := fun h => by
        rcases h with hmiss | ⟨-, h1⟩
        · exact absurd (hmiss.symm.trans hit) Bool.false_ne_true
        · exact absurd rfl h1 }

def Binary (cells : Cells) : Prop := ∀ i, 0 ≤ i → i < 256 → cells i = 0 ∨ cells i = 1

theorem binary_of_storeOf {cells : Cells} {select : SelectionResult} {actionType : Byte}
    {out : Logged CellStore Cells} (h : StoreOf cells select actionType out)
    (hbinary : Binary cells) :
    Binary out.val := by
  have hpoke : ∀ x y v, v = 0 ∨ v = 1 → Binary (cells.pokeL x y v).val := by
    intro x y v hv i hlow hhigh
    by_cases hi : i = cellIndex x y
    · rw [hi, cells.pokeL_self]
      exact hv
    · rw [cells.pokeL_of_ne v hi]
      exact hbinary i hlow hhigh
  cases h with
  | none => exact hbinary
  | destroy => exact hpoke _ _ 0 (.inl rfl)
  | place => exact hpoke _ _ 1 (.inr rfl)

/-- A call of `execute_voxel_mutation`, with the ray as it comes out. -/
structure VoxelEdit where
  view : View
  actionType : Byte

namespace VoxelEdit

def run (cells : Cells) (e : VoxelEdit) : Cells :=
  (executeVoxelMutationL cells e.view e.actionType).val

def runAll (cells : Cells) (edits : List VoxelEdit) : Cells := edits.foldl run cells

end VoxelEdit

/-- **Every edit of a run** does what it should and no more, and a map of zeros and ones stays
one. -/
theorem voxelEdits_intended (cells : Cells) (edits : List VoxelEdit) :
    (∀ before e after, edits = before ++ e :: after →
      Intended (VoxelEdit.runAll cells before)
        (traceSelectionRayL (VoxelEdit.runAll cells before) e.view.ray) e.actionType
        (executeVoxelMutationL (VoxelEdit.runAll cells before) e.view e.actionType)) ∧
    (Binary cells → Binary (VoxelEdit.runAll cells edits)) := by
  refine ⟨?_, ?_⟩
  · intro before e after _
    exact intended_of_storeOf (executeVoxelMutationL_stores _ e.view e.actionType)
  · intro hbinary
    induction edits using List.reverseRecOn with
    | nil => exact hbinary
    | append_singleton edits e ih =>
      rw [VoxelEdit.runAll, List.foldl_concat]
      exact binary_of_storeOf (executeVoxelMutationL_stores _ e.view e.actionType) ih

end Antagonist
