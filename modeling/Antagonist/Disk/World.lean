import Antagonist.Disk.Ideal
import Mathlib.Data.List.Induction

/-!
# The sandbox on the disk

`src/persistence.cpp`, `src/weights.cpp` and `src/modification.cpp`, over any controller
behind `ata_read_sector` and `ata_write_sector`.  The world is saved to sector 2, the
weights are read from sector 20000 on, and the `disktest` command of the shell
writes to sector 1.  Runs are those with the drive of `Disk.Ideal`.

The ray of `trace_selection_ray` is computed in floating point, and does not depend on
the world: it is a parameter, as the list of the tiles that it goes through.

* `sandbox_persists`: in every run of these, a load brings back what was dumped last,
  and the sectors of the weights stay as they are.
-/

namespace Antagonist

open ByteMem

abbrev WorldMap := Fin 256 → Byte

abbrev WeightBytes := Fin 65536 → Byte

/-! ### The world -/

/-- `(y * MAP_WIDTH) + x`, for a tile on the map. -/
def tileIndex (x y : Int) : Option (Fin 256) :=
  if h : 0 ≤ x ∧ x < 16 ∧ 0 ≤ y ∧ y < 16 then some ⟨(y * 16 + x).toNat, by omega⟩ else none

/-- A step of the ray: the tile that it comes to, and the face that it strikes if the
tile is solid. -/
structure RayStep where
  checkX : Int
  checkY : Int
  faceAxis : Nat

structure SelectionResult where
  hitDetected : Bool
  targetX : Int
  targetY : Int
  faceAxis : Nat

/-- The view of the player: the ray, and the signs of `cos_a` and `player_angle`. -/
structure View where
  ray : List RayStep
  cosPositive : Bool
  anglePositive : Bool

def traceSelectionRay (world : WorldMap) : List RayStep → SelectionResult
  | [] => ⟨false, -1, -1, 0⟩
  | r :: ray =>
      match tileIndex r.checkX r.checkY with
      | none => ⟨false, -1, -1, 0⟩
      | some k =>
          if 0 < (world k).toNat then ⟨true, r.checkX, r.checkY, r.faceAxis⟩
          else traceSelectionRay world ray

def destroyVoxel (world : WorldMap) (select : SelectionResult) : WorldMap :=
  match tileIndex select.targetX select.targetY with
  | none => world
  | some k => Function.update world k 0

def placeVoxel (world : WorldMap) (view : View) (select : SelectionResult) : WorldMap :=
  let newBlockX :=
    if select.faceAxis = 0 then select.targetX + (if view.cosPositive then -1 else 1)
    else select.targetX
  let newBlockY :=
    if select.faceAxis = 0 then select.targetY
    else select.targetY + (if view.anglePositive then -1 else 1)
  match tileIndex newBlockX newBlockY with
  | none => world
  | some k => if world k = 0 then Function.update world k 1 else world

def executeVoxelMutation (view : View) (actionType : Byte) (world : WorldMap) : WorldMap :=
  let select := traceSelectionRay world view.ray
  if !select.hitDetected then world
  else if actionType = 0 then destroyVoxel world select
  else if actionType = 1 then placeVoxel world view select
  else world

/-! ### The disk -/

def worldSaveLbaSector : BitVec 32 := 2

def modelWeightsLbaStart : Nat := 20000

def weightsRequiredSectors : Nat := 128

/-- The state of the demo: its arrays, and the kernel's. -/
structure Sandbox (δ : Type) where
  worldMap : WorldMap
  modelWeightsMatrix : WeightBytes
  shell : Shell (Driver δ)

namespace Sandbox

/-- `sector_flush_pad`: the world in front of zeros. -/
def flushPad (world : WorldMap) : Sector := fun i => if h : i.val < 256 then world ⟨i, h⟩ else 0

section

variable {δ : Type} (bus : Bus δ) (s : Sandbox δ)

def dumpSandboxToDisk : Sandbox δ :=
  { s with shell.drive :=
      ataWriteSector bus worldSaveLbaSector (flushPad s.worldMap) s.shell.drive }

def loadSandboxFromDisk : Sandbox δ :=
  let load := ataReadSector bus worldSaveLbaSector s.shell.drive
  { s with
    worldMap := fun i => load.1 (Fin.castLE (by decide) i)
    shell.drive := load.2 }

/-- A round of `load_weights_from_disk`: sector `current_lba` to its place. -/
def loadWeightsRound (n : Nat) : Sandbox δ :=
  let read := ataReadSector bus (BitVec.ofNat 32 (modelWeightsLbaStart + n)) s.shell.drive
  { s with
    modelWeightsMatrix := fun k =>
      if k.val / 512 = n then read.1 ⟨k % 512, Nat.mod_lt _ (by decide)⟩
      else s.modelWeightsMatrix k
    shell.drive := read.2 }

/-- `load_weights_from_disk`, and what it returns. -/
def loadWeightsFromDisk : Byte × Sandbox δ :=
  (1, (List.range weightsRequiredSectors).foldl (loadWeightsRound bus) s)

end

end Sandbox

inductive SandboxOp
  | executeVoxelMutation (view : View) (actionType : Byte)
  | disktest
  | loadWeightsFromDisk
  | dumpSandboxToDisk
  | loadSandboxFromDisk

namespace SandboxOp

def run (s : Sandbox IdealDrive) : SandboxOp → Sandbox IdealDrive
  | executeVoxelMutation view actionType =>
      { s with worldMap := Antagonist.executeVoxelMutation view actionType s.worldMap }
  | disktest => { s with shell := diskTest (driverAta idealBus) s.shell }
  | loadWeightsFromDisk => (s.loadWeightsFromDisk idealBus).2
  | dumpSandboxToDisk => s.dumpSandboxToDisk idealBus
  | loadSandboxFromDisk => s.loadSandboxFromDisk idealBus

def runAll (s : Sandbox IdealDrive) (ops : List SandboxOp) : Sandbox IdealDrive := ops.foldl run s

end SandboxOp

/-! ### The sectors -/

namespace Sandbox

def sectors (s : Sandbox IdealDrive) : BitVec 28 → Sector := s.shell.drive.dev.sectors

theorem loadWeights_rounds (s : Sandbox IdealDrive) {n : Nat} (hn : n ≤ 128) :
    ((List.range n).foldl (loadWeightsRound idealBus) s).worldMap = s.worldMap ∧
    ((List.range n).foldl (loadWeightsRound idealBus) s).sectors = s.sectors ∧
    ∀ k, ((List.range n).foldl (loadWeightsRound idealBus) s).modelWeightsMatrix k =
      if k.val / 512 < n then s.sectors (BitVec.ofNat 28 (modelWeightsLbaStart + k / 512))
        ⟨k % 512, Nat.mod_lt _ (by decide)⟩
      else s.modelWeightsMatrix k := by
  induction n with
  | zero => exact ⟨rfl, rfl, fun k => (if_neg (Nat.not_lt_zero _)).symm⟩
  | succ n ih =>
    obtain ⟨hworld, hsectors, hweights⟩ := ih (by omega)
    rw [List.range_succ, List.foldl_concat]
    generalize (List.range n).foldl (loadWeightsRound idealBus) s = t at hworld hsectors hweights ⊢
    have hread := ataReadSector_ideal (BitVec.ofNat 32 (modelWeightsLbaStart + n)) t.shell.drive
    have hlba : (BitVec.ofNat 32 (modelWeightsLbaStart + n)).setWidth 28 =
        BitVec.ofNat 28 (modelWeightsLbaStart + n) := BitVec.setWidth_ofNat_of_le (by decide) _
    rw [hlba] at hread
    rw [loadWeightsRound]
    rw [hread]
    refine ⟨hworld, hsectors, ?_⟩
    intro k
    show (if k.val / 512 = n then t.sectors (BitVec.ofNat 28 (modelWeightsLbaStart + n))
      ⟨k % 512, _⟩ else t.modelWeightsMatrix k) = _
    by_cases hk : k.val / 512 = n
    · rw [if_pos hk, if_pos (by omega), hsectors, hk]
    · rw [if_neg hk, hweights k]
      exact if_congr (by omega) rfl rfl

end Sandbox

section

variable (s : Sandbox IdealDrive)

theorem sectors_disktest : (SandboxOp.disktest.run s).sectors =
    Function.update s.sectors 1 diskTestSector := by
  show (diskTest (driverAta idealBus) s.shell).drive.dev.sectors = _
  rw [drive_diskTest]
  rfl

theorem sectors_dump : (SandboxOp.dumpSandboxToDisk.run s).sectors =
    Function.update s.sectors 2 (Sandbox.flushPad s.worldMap) := by
  show (ataWriteSector idealBus 2 (Sandbox.flushPad s.worldMap) s.shell.drive).dev.sectors = _
  rw [ataWriteSector_ideal]
  rfl

theorem load_spec : (SandboxOp.loadSandboxFromDisk.run s).sectors = s.sectors ∧
    ∀ i, (SandboxOp.loadSandboxFromDisk.run s).worldMap i =
      s.sectors 2 (Fin.castLE (by decide) i) := by
  show (ataReadSector idealBus 2 s.shell.drive).2.dev.sectors = _ ∧
    ∀ i, (ataReadSector idealBus 2 s.shell.drive).1 (Fin.castLE _ i) = _
  rw [ataReadSector_ideal]
  exact ⟨rfl, fun _ => rfl⟩

theorem loadWeights_spec : (SandboxOp.loadWeightsFromDisk.run s).worldMap = s.worldMap ∧
    (SandboxOp.loadWeightsFromDisk.run s).sectors = s.sectors ∧
    ∀ k, (SandboxOp.loadWeightsFromDisk.run s).modelWeightsMatrix k =
      s.sectors (BitVec.ofNat 28 (20000 + k / 512)) ⟨k % 512, Nat.mod_lt _ (by decide)⟩ := by
  obtain ⟨hworld, hsectors, hweights⟩ :=
    s.loadWeights_rounds (n := weightsRequiredSectors) (le_refl 128)
  refine ⟨hworld, hsectors, fun k => (hweights k).trans (if_pos ?_)⟩
  show k.val / 512 < 128
  omega

/-- Only `disktest` and the dumps write, to sector 1 and to sector 2. -/
theorem sectors_run {op : SandboxOp} {k : BitVec 28} (h1 : op = .disktest → k ≠ 1)
    (h2 : op = .dumpSandboxToDisk → k ≠ 2) : (op.run s).sectors k = s.sectors k := by
  cases op with
  | executeVoxelMutation view actionType => rfl
  | disktest =>
    rw [sectors_disktest]
    exact Function.update_of_ne (h1 rfl) _ _
  | loadWeightsFromDisk => rw [(loadWeights_spec s).2.1]
  | dumpSandboxToDisk =>
    rw [sectors_dump]
    exact Function.update_of_ne (h2 rfl) _ _
  | loadSandboxFromDisk => rw [(load_spec s).1]

theorem saved_runAll {ops : List SandboxOp} (h : .dumpSandboxToDisk ∉ ops) :
    (SandboxOp.runAll s ops).sectors 2 = s.sectors 2 := by
  induction ops generalizing s with
  | nil => rfl
  | cons op ops ih =>
    obtain ⟨hop, hops⟩ := not_or.mp (mt List.mem_cons.mpr h)
    show (SandboxOp.runAll (op.run s) ops).sectors 2 = _
    rw [ih _ hops]
    exact sectors_run s (fun _ => by decide) fun heq => absurd heq.symm hop

end

/-! ### Whole runs -/

/-- What a player relies on, in a run from `s₀`. -/
structure Persists (s₀ : Sandbox IdealDrive) (ops : List SandboxOp) : Prop where
  loaded : ∀ A B C, ops = A ++ .dumpSandboxToDisk :: (B ++ .loadSandboxFromDisk :: C) →
    .dumpSandboxToDisk ∉ B →
    (SandboxOp.runAll s₀ (A ++ .dumpSandboxToDisk :: (B ++ [.loadSandboxFromDisk]))).worldMap =
      (SandboxOp.runAll s₀ A).worldMap
  apart : ∀ A op C, ops = A ++ op :: C → op = .disktest ∨ op = .dumpSandboxToDisk →
    ∀ k : BitVec 28, k = 0 ∨ (20000 ≤ k.toNat ∧ k.toNat ≤ 20127) →
    (SandboxOp.runAll s₀ (A ++ [op])).sectors k = (SandboxOp.runAll s₀ A).sectors k
  weights : ∀ A C, ops = A ++ .loadWeightsFromDisk :: C →
    (SandboxOp.runAll s₀ (A ++ [.loadWeightsFromDisk])).worldMap =
      (SandboxOp.runAll s₀ A).worldMap ∧
    ∀ k : Fin 65536, (SandboxOp.runAll s₀ (A ++ [.loadWeightsFromDisk])).modelWeightsMatrix k =
      (SandboxOp.runAll s₀ A).sectors (BitVec.ofNat 28 (20000 + k / 512))
        ⟨k % 512, Nat.mod_lt _ (by decide)⟩

theorem runAll_append (s : Sandbox IdealDrive) (ops ops' : List SandboxOp) :
    SandboxOp.runAll s (ops ++ ops') = SandboxOp.runAll (SandboxOp.runAll s ops) ops' :=
  List.foldl_append

theorem runAll_singleton (s : Sandbox IdealDrive) (op : SandboxOp) :
    SandboxOp.runAll s [op] = op.run s := rfl

/-- **Saves and weights persist** in every run, whatever is on the disk. -/
theorem sandbox_persists (s₀ : Sandbox IdealDrive) (ops : List SandboxOp) : Persists s₀ ops := by
  refine ⟨fun A B C _ hB => ?_, fun A op C _ hop k hk => ?_, fun A C _ => ?_⟩
  · rw [runAll_append]
    generalize SandboxOp.runAll s₀ A = s
    show (SandboxOp.runAll (SandboxOp.dumpSandboxToDisk.run s)
      (B ++ [.loadSandboxFromDisk])).worldMap = _
    rw [runAll_append, runAll_singleton]
    have hsaved : (SandboxOp.runAll (SandboxOp.dumpSandboxToDisk.run s) B).sectors 2 =
        Sandbox.flushPad s.worldMap := by
      rw [saved_runAll _ hB, sectors_dump, Function.update_self]
    generalize SandboxOp.runAll (SandboxOp.dumpSandboxToDisk.run s) B = t at hsaved
    funext i
    rw [(load_spec t).2 i, hsaved]
    exact dif_pos i.isLt
  · rw [runAll_append, runAll_singleton]
    apply sectors_run
    · rintro - rfl
      simp at hk
    · rintro - rfl
      simp at hk
  · rw [runAll_append, runAll_singleton]
    obtain ⟨hworld, -, hweights⟩ := loadWeights_spec (SandboxOp.runAll s₀ A)
    exact ⟨hworld, hweights⟩

end Antagonist
