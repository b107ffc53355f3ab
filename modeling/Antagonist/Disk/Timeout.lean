import Antagonist.Disk.DataRequest
import Antagonist.Disk.World
import Antagonist.Lib.Logged

/-!
# Drives that do not deliver

`ata_wait_read` gives up after 100000 rounds, and nobody is told: `ata_read_sector` reads the
data port all the same, `load_sandbox_from_disk` copies what it read, and
`load_weights_from_disk` returns 1.  The wait is followed here with the status bytes that
it reads in a log.

* `val_ataReadSectorL`: without the log it is `ata_read_sector`.
* `failuresReported_iff`: which drives do no harm.
-/

namespace Antagonist

open ByteMem Logged

section

variable {δ : Type} (bus : Bus δ)

/-! ### The status bytes of a wait -/

def Driver.readStatusL (d : Driver δ) : Logged Byte (Byte × Driver δ) :=
  entry (d.readStatus bus).1 (d.readStatus bus)

def ataWaitReadLoopL : Nat → Driver δ → Logged Byte (Driver δ)
  | 0, d => return d
  | rounds + 1, d =>
      if d.interruptFired then return d
      else do
        let busy ← d.readStatusL bus
        if busy.1 &&& ataStatusBsy ≠ 0 then ataWaitReadLoopL rounds busy.2
        else do
          let request ← busy.2.readStatusL bus
          if request.1 &&& ataStatusDrq ≠ 0 then return request.2
          else ataWaitReadLoopL rounds request.2

/-- `ata_read_sector` up to its wait. -/
def readCommand (lba : BitVec 32) (d : Driver δ) : Driver δ :=
  let d := d.outb bus ataDevCtrl ataCtrlNien
  let d := d.outb bus ataDriveHead (headByte lba)
  let d := d.outb bus ataFeatures 0x00
  let d := d.outb bus ataSectorCnt 0x01
  let d := d.outb bus ataLbaLow (lowByte lba)
  let d := d.outb bus ataLbaMid (midByte lba)
  let d := d.outb bus ataLbaHigh (highByte lba)
  d.outb bus ataCommand ataCmdRead

/-- `ata_read_sector`. -/
def ataReadSectorL (lba : BitVec 32) (d : Driver δ) : Logged Byte (Sector × Driver δ) := do
  let d ← ataWaitReadLoopL bus 100000 (readCommand bus lba d)
  let d := d.resetFired.insw bus
  return (d.ioBuffer, d)

theorem val_ataWaitReadLoopL : ∀ (rounds : Nat) (d : Driver δ),
    (ataWaitReadLoopL bus rounds d).val = ataWaitReadLoop bus rounds d := by
  intro rounds
  induction rounds with
  | zero => exact fun d => rfl
  | succ rounds ih =>
    intro d
    rw [ataWaitReadLoopL, ataWaitReadLoop]
    by_cases hfired : d.interruptFired = true
    · rw [if_pos hfired, if_pos hfired]
      rfl
    · rw [if_neg hfired, if_neg hfired]
      rw [val_bind]
      by_cases hbusy : (d.readStatusL bus).val.1 &&& ataStatusBsy ≠ 0
      · rw [if_pos hbusy, ih]
        exact (if_pos hbusy).symm
      · rw [if_neg hbusy, val_bind]
        refine Eq.trans ?_ (if_neg hbusy).symm
        by_cases hrequest : ((d.readStatusL bus).val.2.readStatusL bus).val.1 &&& ataStatusDrq ≠ 0
        · rw [if_pos hrequest]
          exact (if_pos hrequest).symm
        · rw [if_neg hrequest, ih]
          exact (if_neg hrequest).symm

/-- **The log aside**, it is `ata_read_sector`. -/
theorem val_ataReadSectorL (lba : BitVec 32) (d : Driver δ) :
    (ataReadSectorL bus lba d).val = ataReadSector bus lba d := by
  unfold ataReadSectorL
  simp only [val_bind, val_pure, val_ataWaitReadLoopL]
  rfl

/-! ### Delivery -/

/-- For the command that `ata_read_sector(lba)` sends, a status byte with BSY clear and DRQ set
is read. -/
def Delivered (lba : BitVec 32) (d : Driver δ) : Prop :=
  ∃ status ∈ (ataReadSectorL bus lba d).log, asksForData status = true

/-- What the data port gives behind the command. -/
def dataPort (lba : BitVec 32) (d : Driver δ) : Sector :=
  (bus.insw (ataWaitRead bus (readCommand bus lba d)).dev).1

/-- The driver before round `n` of `load_weights_from_disk`. -/
def weightsDriver (s : Sandbox δ) (n : Nat) : Driver δ :=
  ((List.range n).foldl (Sandbox.loadWeightsRound bus) s).shell.drive

def WorldDelivered (s : Sandbox δ) : Prop := Delivered bus worldSaveLbaSector s.shell.drive

def WeightsDelivered (s : Sandbox δ) : Prop :=
  ∀ n < weightsRequiredSectors,
    Delivered bus (BitVec.ofNat 32 (modelWeightsLbaStart + n)) (weightsDriver bus s n)

/-- A drive that does not deliver is not taken for data. -/
structure FailuresReported (s : Sandbox δ) : Prop where
  world : ¬ WorldDelivered bus s → (s.loadSandboxFromDisk bus).worldMap = s.worldMap
  weights : (s.loadWeightsFromDisk bus).1 = 1 → WeightsDelivered bus s

/-- The world is what the data port gives, delivered or not. -/
theorem worldMap_load (s : Sandbox δ) : (s.loadSandboxFromDisk bus).worldMap =
    fun i => dataPort bus worldSaveLbaSector s.shell.drive (Fin.castLE (by decide) i) := rfl

/-- **Failures do no harm** exactly when the data port happens to show the old world where
nothing is delivered, and no sector of the weights fails. -/
theorem failuresReported_iff (s : Sandbox δ) : FailuresReported bus s ↔
    (WorldDelivered bus s ∨
      ∀ i : Fin 256, dataPort bus worldSaveLbaSector s.shell.drive (Fin.castLE (by decide) i) =
        s.worldMap i) ∧ WeightsDelivered bus s := by
  refine ⟨?_, ?_⟩
  · intro h
    refine ⟨?_, h.weights rfl⟩
    by_cases hd : WorldDelivered bus s
    · exact Or.inl hd
    · refine Or.inr ?_
      intro i
      have hworld := h.world hd
      rw [worldMap_load] at hworld
      exact congrFun hworld i
  · rintro ⟨hworld, hweights⟩
    refine ⟨?_, fun _ => hweights⟩
    intro hd
    rw [worldMap_load]
    funext i
    exact hworld.resolve_left hd i

end

/-! ### No drive at all -/

/-- Where the status never asks for data, nothing is delivered. -/
theorem not_delivered {δ : Type} {bus : Bus δ}
    (hbus : ∀ dev, asksForData (bus.status dev).1 = false) (lba : BitVec 32) (d : Driver δ) :
    ¬ Delivered bus lba d := by
  have hloop : ∀ (rounds : Nat) (d : Driver δ),
      (ataWaitReadLoopL bus rounds d).All fun status => asksForData status = false := by
    intro rounds
    induction rounds with
    | zero => exact fun d => all_pure d
    | succ rounds ih =>
      intro d
      rw [ataWaitReadLoopL]
      split
      · exact all_pure d
      refine (all_bind _ _).mpr ⟨(all_entry _ _).mpr (hbus _), ?_⟩
      split
      · exact ih _
      refine (all_bind _ _).mpr ⟨(all_entry _ _).mpr (hbus _), ?_⟩
      split
      · exact all_pure _
      · exact ih _
  rintro ⟨status, hlog, hasks⟩
  have hall : (ataReadSectorL bus lba d).All fun status => asksForData status = false :=
    (all_bind _ _).mpr ⟨hloop _ _, all_pure _⟩
  rw [hall status hlog] at hasks
  exact Bool.noConfusion hasks

/-- No drive: the bus floats, and every bit reads as one. -/
def floatingBus : Bus Unit :=
  ⟨fun _ _ _ => (), fun _ => (0xFF, ()), fun _ => (fun _ => 0xFF, ()), fun _ _ => ()⟩

/-- The demo without a drive, as the kernel starts. -/
def driveless : Sandbox Unit where
  worldMap _ := 0
  modelWeightsMatrix _ := 0
  shell :=
    { console := ⟨fun _ => 0, 1600⟩, cmdBuffer := fun _ => 0, cmdIndex := 0, commandReadyFlag := 0,
      diskTestPad := fun _ => 0, keyboardMatrix := fun _ => 0,
      drive := ⟨fun _ => 0, false, ()⟩, port20 := [] }

/-- The empty world is filled with `0xFF`, and the weights are reported as loaded. -/
theorem not_failuresReported : ¬ FailuresReported floatingBus driveless := by
  intro h
  have hsilent : asksForData 0xFF = false := by decide
  have hundelivered : ¬ WorldDelivered floatingBus driveless :=
    not_delivered (fun _ => hsilent) worldSaveLbaSector _
  have hcell := congrFun (h.world hundelivered) 0
  rw [worldMap_load] at hcell
  exact absurd hcell (by decide : ¬ (0xFF : Byte) = 0)

end Antagonist
