import Antagonist.Lib.ReadWrite
import Antagonist.Sandbox.Edge
import Antagonist.Sandbox.Player
import Mathlib.Tactic.IntervalCases

/-!
# A session of the sandbox

What the sandbox knows of its player besides the position: which keys are down (`src/input.cpp`),
which material is chosen (`src/hotbar.cpp`) and which sector the player is in (`src/spatial.cpp`).
The calls of these files come in any order, between moves and edits.

The keys and the material are what the last call has made them.  The sector is a matter of the tile
of the player, and `calculate_cell_index` clamps it to the grid.  The box of the player keeps the
tile on the map, so the clamps are never needed.

* `tile_isSome_step`: a move does not lead off the tiles.
* `calculateCellIndex_eq`: the sector of a tile.
* `sandbox_session`: **what the getters return**, in every run.
-/

namespace Antagonist

open ByteMem ReadWrite

/-! ### The keyboard matrix -/

/-- `keyboard_state`, by scancodes. -/
abbrev KeyboardState := Byte → Byte

def keyboardMatrixSize : Nat := 256

def keyReleased : Byte := 0

def initInputMatrix (keyboardState : KeyboardState) : KeyboardState :=
  (List.range keyboardMatrixSize).foldl
    (fun keyboardState i => Function.update keyboardState (BitVec.ofNat 8 i) keyReleased)
    keyboardState

def setKeyState (keyboardState : KeyboardState) (scancode state : Byte) : KeyboardState :=
  if keyboardMatrixSize ≤ scancode.toNat then keyboardState
  else Function.update keyboardState scancode state

def isKeyPressed (keyboardState : KeyboardState) (scancode : Byte) : Byte :=
  if keyboardMatrixSize ≤ scancode.toNat then keyReleased else keyboardState scancode

theorem scancode_lt (scancode : Byte) : ¬ keyboardMatrixSize ≤ scancode.toNat :=
  not_le.mpr scancode.isLt

theorem initInputMatrix_apply (keyboardState : KeyboardState) (scancode : Byte) :
    initInputMatrix keyboardState scancode = keyReleased := by
  have hloop : ∀ n ≤ keyboardMatrixSize, scancode.toNat < n →
      (List.range n).foldl (fun (keyboardState : KeyboardState) i =>
        Function.update keyboardState (BitVec.ofNat 8 i) keyReleased) keyboardState scancode =
        keyReleased := by
    intro n hn hlt
    induction n with
    | zero => exact absurd hlt (Nat.not_lt_zero _)
    | succ n ih =>
      rw [List.range_succ, List.foldl_concat, Function.update_apply]
      by_cases hkey : scancode = BitVec.ofNat 8 n
      · rw [if_pos hkey]
      · rw [if_neg hkey]
        refine ih (Nat.le_of_succ_le hn) ?_
        have hne : scancode.toNat ≠ n := by
          rintro rfl
          refine hkey (BitVec.eq_of_toNat_eq ?_)
          rw [BitVec.toNat_ofNat, Nat.mod_eq_of_lt scancode.isLt]
        omega
  exact hloop keyboardMatrixSize (le_refl _) scancode.isLt

/-! ### The hotbar -/

/-- `HotbarState`.  A label that has not been set is a null pointer. -/
structure HotbarState where
  activeSlotIndex : Nat
  slotMaterials : Nat → Option String
  slotAttributes : Nat → Byte

def hotbarSlotCount : Nat := 4

def materialGold : Nat := 0
def materialSlate : Nat := 1
def materialCyanMint : Nat := 2
def materialBedrock : Nat := 3

/-- The label and the attribute of a slot. -/
def HotbarState.bind (s : HotbarState) (slot : Nat) (material : String) (color : Byte) :
    HotbarState :=
  { s with
    slotMaterials := Function.update s.slotMaterials slot (some material)
    slotAttributes := Function.update s.slotAttributes slot color }

def initInventoryHotbar (s : HotbarState) : HotbarState :=
  ((({ s with activeSlotIndex := 0 }.bind materialGold "GOLD BLOCK " 0x0E).bind materialSlate
    "SLATE VOXEL" 0x08).bind materialCyanMint "CYAN MATRIX" 0x0B).bind materialBedrock
    "BEDROCK ADM" 0x0F

def updateHotbarSelection (s : HotbarState) (scancode : Byte) : HotbarState :=
  if scancode = 0x02 then { s with activeSlotIndex := materialGold }
  else if scancode = 0x03 then { s with activeSlotIndex := materialSlate }
  else if scancode = 0x04 then { s with activeSlotIndex := materialCyanMint }
  else if scancode = 0x05 then { s with activeSlotIndex := materialBedrock }
  else s

def getActiveMaterialType (s : HotbarState) : Nat := s.activeSlotIndex

def getActiveMaterialName (s : HotbarState) : Option String := s.slotMaterials s.activeSlotIndex

def getActiveMaterialAttribute (s : HotbarState) : Byte := s.slotAttributes s.activeSlotIndex

def slotOfKey (scancode : Byte) : Option Nat :=
  if 0x02 ≤ scancode.toNat ∧ scancode.toNat ≤ 0x05 then some (scancode.toNat - 2) else none

theorem slotOfKey_lt {scancode : Byte} {slot : Nat} (h : slotOfKey scancode = some slot) :
    slot < hotbarSlotCount := by
  rw [slotOfKey] at h
  by_cases hkey : 0x02 ≤ scancode.toNat ∧ scancode.toNat ≤ 0x05
  · rw [if_pos hkey] at h
    have hslot := Option.some.inj h
    unfold hotbarSlotCount
    omega
  · rw [if_neg hkey] at h
    exact absurd h.symm (Option.some_ne_none slot)

theorem updateHotbarSelection_eq (s : HotbarState) (scancode : Byte) :
    updateHotbarSelection s scancode =
      { s with activeSlotIndex := (slotOfKey scancode).getD s.activeSlotIndex } := by
  rw [updateHotbarSelection]
  by_cases h2 : scancode = 0x02
  · subst h2
    rfl
  rw [if_neg h2]
  by_cases h3 : scancode = 0x03
  · subst h3
    rfl
  rw [if_neg h3]
  by_cases h4 : scancode = 0x04
  · subst h4
    rfl
  rw [if_neg h4]
  by_cases h5 : scancode = 0x05
  · subst h5
    rfl
  have hother : ¬ (0x02 ≤ scancode.toNat ∧ scancode.toNat ≤ 0x05) := by
    have h2' : scancode.toNat ≠ 2 := fun h => h2 (BitVec.eq_of_toNat_eq h)
    have h3' : scancode.toNat ≠ 3 := fun h => h3 (BitVec.eq_of_toNat_eq h)
    have h4' : scancode.toNat ≠ 4 := fun h => h4 (BitVec.eq_of_toNat_eq h)
    have h5' : scancode.toNat ≠ 5 := fun h => h5 (BitVec.eq_of_toNat_eq h)
    omega
  rw [if_neg h5, slotOfKey, if_neg hother]
  rfl

/-! ### Sectors -/

structure SpatialCell where
  sectorId : Byte
  totalActiveObjects : Byte
  cellColorMask : BitVec 32

abbrev SectorGrid := Int → SpatialCell

def cellScale : Int := 4

def sectorGridLimit : Int := 4

/-- What `init_spatial_grid` writes for a sector. -/
def spatialCell (index : Int) : SpatialCell where
  sectorId := BitVec.ofInt 8 index
  totalActiveObjects := 0
  cellColorMask := if index % 2 = 0 then 0x002A2E34 else 0x001A1E24

def initSpatialGrid (sectorGrid : SectorGrid) : SectorGrid :=
  (List.range sectorGridLimit.toNat).foldl (fun sectorGrid (y : Nat) =>
    (List.range sectorGridLimit.toNat).foldl (fun sectorGrid (x : Nat) =>
      let index : Int := y * sectorGridLimit + x
      Function.update sectorGrid index (spatialCell index)) sectorGrid) sectorGrid

/-- `calculate_cell_index`, for coordinates in the range of `int`. -/
def calculateCellIndex (position : Vec3) : Int :=
  let cellX := (truncate position.x).tdiv cellScale
  let cellY := (truncate position.y).tdiv cellScale
  let cellX := if cellX < 0 then 0 else cellX
  let cellX := if sectorGridLimit ≤ cellX then sectorGridLimit - 1 else cellX
  let cellY := if cellY < 0 then 0 else cellY
  let cellY := if sectorGridLimit ≤ cellY then sectorGridLimit - 1 else cellY
  cellY * sectorGridLimit + cellX

def getCellMetrics (sectorGrid : SectorGrid) (position : Vec3) : SpatialCell :=
  sectorGrid (calculateCellIndex position)

theorem initSpatialGrid_apply (sectorGrid : SectorGrid) {index : Int} (h0 : 0 ≤ index)
    (h16 : index < 16) : initSpatialGrid sectorGrid index = spatialCell index := by
  interval_cases index <;> rfl

/-! ### The tile of the player -/

theorem truncate_lt_of_lt {t : ℚ} (h : t < 16) : truncate t < 16 := by
  unfold truncate
  split
  · exact Int.floor_lt.mpr (by exact_mod_cast h)
  · rename_i hneg
    have hceil : ⌈t⌉ ≤ 0 := Int.ceil_le.mpr (by exact_mod_cast (not_le.mp hneg).le)
    omega

theorem truncate_nonneg_of_gt {t : ℚ} (h : -1 < t) : 0 ≤ truncate t := by
  have hzero : truncate 0 = 0 := by decide +kernel
  by_cases hneg : t < 0
  · rw [truncate_of_strip h hneg, hzero]
  · rw [← hzero]
    exact truncate_mono (not_lt.mp hneg)

/-- An axis of the map. -/
def AxisOnMap (t : ℚ) : Prop := 0 ≤ truncate t ∧ truncate t < 16

/-- **One axis** of a move does not lead off the tiles: what is in front of the box is not solid. -/
theorem axisOnMap_clipAxis {wall : ℚ → Bool} (H : MapWall wall) {current : ℚ}
    (h : AxisOnMap current) (delta : ℚ) : AxisOnMap (clipAxis wall current delta) := by
  have hradius : playerRadius = 1 / 5 := rfl
  rw [clipAxis_eq]
  by_cases hedge : EdgeClear wall current delta
  · rw [if_pos hedge]
    rcases hedge with ⟨hpos, hclear⟩ | ⟨hneg, hclear⟩
    · have hhigh : current + delta + playerRadius < 16 := by
        by_contra hge
        rw [H.high _ (not_lt.mp hge)] at hclear
        cases hclear
      exact ⟨le_trans h.1 (truncate_mono (by linarith)), truncate_lt_of_lt (by linarith)⟩
    · have hlow : -1 < current + delta - playerRadius := by
        by_contra hle
        rw [H.low _ (not_lt.mp hle)] at hclear
        cases hclear
      exact ⟨truncate_nonneg_of_gt (by linarith),
        lt_of_le_of_lt (truncate_mono (by linarith)) h.2⟩
  · rw [if_neg hedge]
    exact h

theorem isSome_tile_iff (s : Player) :
    s.tile.isSome ↔ AxisOnMap s.pos.x ∧ AxisOnMap s.pos.y := by
  rw [Player.tile, tileIndex, AxisOnMap, AxisOnMap, and_assoc]
  split
  · exact iff_of_true rfl ‹_›
  · exact iff_of_false Bool.false_ne_true ‹_›

/-- **A step** of the player leads from tile to tile. -/
theorem tile_isSome_step {s : Player} (h : s.tile.isSome) (act : PlayerAct) :
    (s.step act).tile.isSome := by
  cases act with
  | executeVoxelMutation playerAngle actionType => exact h
  | applyAabbClipping movementDelta =>
    rw [isSome_tile_iff] at h ⊢
    exact ⟨axisOnMap_clipAxis (mapWall_x s.worldMap s.pos.y) h.1 movementDelta.x,
      axisOnMap_clipAxis (mapWall_y s.worldMap _) h.2 movementDelta.y⟩

/-- **The sector of a tile**, four tiles wide and high: the clamps do nothing. -/
theorem calculateCellIndex_eq {s : Player} {k : Fin 256} (h : s.tile = some k) :
    calculateCellIndex s.pos = k.val / 16 / 4 * 4 + k.val % 16 / 4 := by
  obtain ⟨⟨hx, hx16⟩, hy, hy16⟩ := (isSome_tile_iff s).mp (h ▸ rfl)
  have hk : k.val = (truncate s.pos.y * 16 + truncate s.pos.x).toNat := by
    rw [Player.tile, tileIndex, dif_pos ⟨hx, hx16, hy, hy16⟩] at h
    exact congrArg Fin.val (Option.some.inj h).symm
  rw [calculateCellIndex]
  unfold sectorGridLimit cellScale
  rw [Int.tdiv_eq_ediv_of_nonneg hx, Int.tdiv_eq_ediv_of_nonneg hy]
  generalize truncate s.pos.x = x at *
  generalize truncate s.pos.y = y at *
  rw [if_neg (by omega), if_neg (by omega), if_neg (by omega), if_neg (by omega)]
  omega

/-! ### Runs -/

/-- The player on the map, and the variables of the three files. -/
structure SandboxState where
  player : Player
  keyboardState : KeyboardState
  inventoryHotbar : HotbarState
  sectorGrid : SectorGrid

inductive SandboxCall
  | act (a : PlayerAct)
  | initInputMatrix
  | setKeyState (scancode state : Byte)
  | initInventoryHotbar
  | updateHotbarSelection (scancode : Byte)
  | initSpatialGrid

namespace SandboxState

def step (s : SandboxState) : SandboxCall → SandboxState
  | .act a => { s with player := s.player.step a }
  | .initInputMatrix => { s with keyboardState := Antagonist.initInputMatrix s.keyboardState }
  | .setKeyState scancode state =>
      { s with keyboardState := Antagonist.setKeyState s.keyboardState scancode state }
  | .initInventoryHotbar =>
      { s with inventoryHotbar := Antagonist.initInventoryHotbar s.inventoryHotbar }
  | .updateHotbarSelection scancode =>
      { s with inventoryHotbar := Antagonist.updateHotbarSelection s.inventoryHotbar scancode }
  | .initSpatialGrid => { s with sectorGrid := Antagonist.initSpatialGrid s.sectorGrid }

def runAll (s : SandboxState) (calls : List SandboxCall) : SandboxState := calls.foldl step s

end SandboxState

/-- What a call makes of a key. -/
def keyWritten (scancode : Byte) : SandboxCall → Option Byte
  | .initInputMatrix => some keyReleased
  | .setKeyState key state => if key = scancode then some state else none
  | _ => none

def slotChosen : SandboxCall → Option Nat
  | .initInventoryHotbar => some 0
  | .updateHotbarSelection scancode => slotOfKey scancode
  | _ => none

/-- The labels and attributes of the materials. -/
def materials : List (String × Byte) :=
  [("GOLD BLOCK ", 0x0E), ("SLATE VOXEL", 0x08), ("CYAN MATRIX", 0x0B), ("BEDROCK ADM", 0x0F)]

/-- The hotbar has been set up, and one of its slots is active. -/
structure HotbarReady (s : HotbarState) : Prop where
  active : s.activeSlotIndex < hotbarSlotCount
  bound : ∀ slot < hotbarSlotCount,
    (s.slotMaterials slot).map (·, s.slotAttributes slot) = materials[slot]?

theorem hotbarReady_init (s : HotbarState) : HotbarReady (initInventoryHotbar s) where
  active := show 0 < hotbarSlotCount by decide
  bound := by
    intro slot hslot
    unfold hotbarSlotCount at hslot
    interval_cases slot <;> rfl

def GridReady (sectorGrid : SectorGrid) : Prop :=
  ∀ index, 0 ≤ index → index < 16 → sectorGrid index = spatialCell index

/-- What holds after some calls. -/
structure SessionInv (calls : List SandboxCall) (s : SandboxState) : Prop where
  tile : s.player.tile.isSome
  hotbar : .initInventoryHotbar ∈ calls → HotbarReady s.inventoryHotbar
  grid : .initSpatialGrid ∈ calls → GridReady s.sectorGrid

/-- **Each call** keeps it. -/
theorem SessionInv.step {calls : List SandboxCall} {s : SandboxState} (H : SessionInv calls s)
    (c : SandboxCall) : SessionInv (calls ++ [c]) (s.step c) := by
  have hbefore : ∀ {d : SandboxCall}, d ∈ calls ++ [c] → d ≠ c → d ∈ calls := by
    intro d hd hne
    exact (List.mem_append.mp hd).resolve_right fun hin => hne (List.mem_singleton.mp hin)
  cases c with
  | act a =>
    exact ⟨tile_isSome_step H.tile a, fun h => H.hotbar (hbefore h nofun),
      fun h => H.grid (hbefore h nofun)⟩
  | initInputMatrix =>
    exact ⟨H.tile, fun h => H.hotbar (hbefore h nofun), fun h => H.grid (hbefore h nofun)⟩
  | setKeyState scancode state =>
    exact ⟨H.tile, fun h => H.hotbar (hbefore h nofun), fun h => H.grid (hbefore h nofun)⟩
  | initInventoryHotbar =>
    exact ⟨H.tile, fun _ => hotbarReady_init _, fun h => H.grid (hbefore h nofun)⟩
  | updateHotbarSelection scancode =>
    refine ⟨H.tile, fun h => ?_, fun h => H.grid (hbefore h nofun)⟩
    have hready := H.hotbar (hbefore h nofun)
    show HotbarReady (updateHotbarSelection s.inventoryHotbar scancode)
    rw [updateHotbarSelection_eq]
    refine ⟨?_, hready.bound⟩
    cases hslot : slotOfKey scancode with
    | none => exact hready.active
    | some slot => exact slotOfKey_lt hslot
  | initSpatialGrid =>
    exact ⟨H.tile, fun h => H.hotbar (hbefore h nofun),
      fun _ index h0 h16 => initSpatialGrid_apply s.sectorGrid h0 h16⟩

theorem sessionInv_runAll {s : SandboxState} (h : s.player.tile.isSome) (calls : List SandboxCall) :
    SessionInv calls (s.runAll calls) := by
  induction calls using List.reverseRecOn with
  | nil => exact ⟨h, fun hin => absurd hin List.not_mem_nil, fun hin => absurd hin List.not_mem_nil⟩
  | append_singleton calls c ih =>
    rw [SandboxState.runAll, List.foldl_concat]
    exact ih.step c

/-- **A key** is as the last call has made it. -/
theorem isKeyPressed_runAll (s : SandboxState) (calls : List SandboxCall) (scancode : Byte) :
    isKeyPressed (s.runAll calls).keyboardState scancode =
      (calls.filterMap (keyWritten scancode)).getLast?.getD
        (isKeyPressed s.keyboardState scancode) := by
  refine @foldl_eq_last _ _ _ SandboxState.step (fun s => isKeyPressed s.keyboardState scancode)
    (keyWritten scancode) (fun s c => ?_) s calls
  rw [isKeyPressed, isKeyPressed, if_neg (scancode_lt scancode), if_neg (scancode_lt scancode)]
  cases c with
  | initInputMatrix =>
    simp only [SandboxState.step, keyWritten, Option.getD_some, initInputMatrix_apply]
  | setKeyState key state =>
    simp only [SandboxState.step, keyWritten]
    rw [setKeyState, if_neg (scancode_lt key)]
    by_cases hkey : key = scancode
    · rw [hkey, Function.update_self, if_pos rfl, Option.getD_some]
    · rw [Function.update_of_ne (Ne.symm hkey), if_neg hkey, Option.getD_none]
  | act a => rfl
  | initInventoryHotbar => rfl
  | updateHotbarSelection key => rfl
  | initSpatialGrid => rfl

/-- **The material** is the one of the last number key, or gold. -/
theorem activeSlot_runAll (s : SandboxState) (calls : List SandboxCall) :
    getActiveMaterialType (s.runAll calls).inventoryHotbar =
      (calls.filterMap slotChosen).getLast?.getD (getActiveMaterialType s.inventoryHotbar) := by
  refine @foldl_eq_last _ _ _ SandboxState.step (fun s => getActiveMaterialType s.inventoryHotbar)
    slotChosen (fun s c => ?_) s calls
  cases c with
  | updateHotbarSelection scancode =>
    simp only [SandboxState.step, updateHotbarSelection_eq]
    rfl
  | initInventoryHotbar => rfl
  | initInputMatrix => rfl
  | setKeyState key state => rfl
  | act a => rfl
  | initSpatialGrid => rfl

/-- **What the getters return**, after any calls: the sector is that of the player's tile, which is
always one of the map, a key is as the last call has made it, and the name and the color are those
of the material that was chosen last. -/
theorem sandbox_session {s : SandboxState} (h : s.player.tile.isSome) (calls : List SandboxCall) :
    let t := s.runAll calls
    (∃ k, t.player.tile = some k ∧ (.initSpatialGrid ∈ calls →
      getCellMetrics t.sectorGrid t.player.pos =
        spatialCell (k.val / 16 / 4 * 4 + k.val % 16 / 4))) ∧
    (∀ scancode, isKeyPressed t.keyboardState scancode =
      (calls.filterMap (keyWritten scancode)).getLast?.getD
        (isKeyPressed s.keyboardState scancode)) ∧
    getActiveMaterialType t.inventoryHotbar =
      (calls.filterMap slotChosen).getLast?.getD (getActiveMaterialType s.inventoryHotbar) ∧
    (.initInventoryHotbar ∈ calls →
      getActiveMaterialType t.inventoryHotbar < hotbarSlotCount ∧
      (getActiveMaterialName t.inventoryHotbar).map
          (·, getActiveMaterialAttribute t.inventoryHotbar) =
        materials[getActiveMaterialType t.inventoryHotbar]?) := by
  intro t
  have H : SessionInv calls t := sessionInv_runAll h calls
  obtain ⟨k, hk⟩ := Option.isSome_iff_exists.mp H.tile
  refine ⟨⟨k, hk, fun hin => ?_⟩, isKeyPressed_runAll s calls, activeSlot_runAll s calls, ?_⟩
  · rw [getCellMetrics, calculateCellIndex_eq hk]
    exact H.grid hin _ (by omega) (by omega)
  · intro hin
    have hready := H.hotbar hin
    exact ⟨hready.active, hready.bound _ hready.active⟩

/-- The key 3, and a step to the right, toward the sector there. -/
theorem sandbox_session_third :
    let s : SandboxState :=
      ⟨besideBlock, fun _ => 0, ⟨0, fun _ => none, fun _ => 0⟩, fun _ => ⟨0, 0, 0⟩⟩
    let t := s.runAll [.initSpatialGrid, .initInventoryHotbar, .setKeyState 0x04 1,
      .updateHotbarSelection 0x04, .act (.applyAabbClipping ⟨1 / 5, 0, 0⟩)]
    isKeyPressed t.keyboardState 0x04 = 1 ∧
      (getActiveMaterialName t.inventoryHotbar).map
        (·, getActiveMaterialAttribute t.inventoryHotbar) = some ("CYAN MATRIX", 0x0B) := by
  intro s t
  have hsession := sandbox_session (s := s) (by decide +kernel) [.initSpatialGrid,
    .initInventoryHotbar, .setKeyState 0x04 1, .updateHotbarSelection 0x04,
    .act (.applyAabbClipping ⟨1 / 5, 0, 0⟩)]
  exact ⟨hsession.2.1 0x04, (hsession.2.2.2 (by simp)).2⟩

end Antagonist
