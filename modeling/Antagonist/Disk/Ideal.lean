import Antagonist.Disk.Ata

/-!
# An ideal drive

A drive that is never busy: a map from 28-bit sector numbers to sectors, behind the
task-file registers.  It takes the sector number from the registers when the
command byte comes, moves one sector, and is idle then.

* `ataReadSector_ideal`, `ataWriteSector_ideal`: what the driver does with it.
* `read_write_ideal`: a sector reads as it was written last, and no other one
  changes; the sector number is what is left of `lba` in 28 bits.
-/

namespace Antagonist

open ByteMem

/-- What the drive waits for. -/
inductive Phase
  | idle
  | dataIn (lba : BitVec 28)
  | dataOut (lba : BitVec 28)

structure IdealDrive where
  sectors : BitVec 28 → Sector
  head : Byte
  low : Byte
  mid : Byte
  high : Byte
  phase : Phase

namespace IdealDrive

/-- The sector number in the registers. -/
def lba (d : IdealDrive) : BitVec 28 := d.head.setWidth 4 ++ d.high ++ d.mid ++ d.low

/-- A command byte.  Any command without data is done at once. -/
def command (d : IdealDrive) (value : Byte) : IdealDrive :=
  if value = ataCmdRead then { d with phase := .dataIn d.lba }
  else if value = ataCmdWrite then { d with phase := .dataOut d.lba }
  else { d with phase := .idle }

/-- A byte for one of the ports. -/
def outb (port : Nat) (value : Byte) (d : IdealDrive) : IdealDrive :=
  if port = ataLbaLow then { d with low := value }
  else if port = ataLbaMid then { d with mid := value }
  else if port = ataLbaHigh then { d with high := value }
  else if port = ataDriveHead then { d with head := value }
  else if port = ataCommand then d.command value
  else d

/-- Ready, and with a data request when there is a sector to move. -/
def status (d : IdealDrive) : Byte × IdealDrive :=
  match d.phase with
  | .idle => (0x50, d)
  | _ => (0x58, d)

def insw (d : IdealDrive) : Sector × IdealDrive :=
  match d.phase with
  | .dataIn n => (d.sectors n, { d with phase := .idle })
  | _ => (fun _ => 0xFF, d)

def outsw (data : Sector) (d : IdealDrive) : IdealDrive :=
  match d.phase with
  | .dataOut n => { d with sectors := Function.update d.sectors n data, phase := .idle }
  | _ => d

/-- The drive with `lba` in its registers, and idle. -/
def addressed (d : IdealDrive) (lba : BitVec 32) : IdealDrive :=
  { d with
    head := headByte lba
    low := lowByte lba
    mid := midByte lba
    high := highByte lba
    phase := .idle }

end IdealDrive

def idealBus : Bus IdealDrive :=
  ⟨IdealDrive.outb, IdealDrive.status, IdealDrive.insw, IdealDrive.outsw⟩

/-- **The drive puts the number together** that the driver took apart, less its
upper four bits. -/
theorem address_eq (lba : BitVec 32) :
    (headByte lba).setWidth 4 ++ highByte lba ++ midByte lba ++ lowByte lba =
      lba.setWidth 28 := by
  have hbyte : ∀ i < 8, (0xFF : BitVec 32).getLsbD i = true := by decide
  have hnibble : ∀ i < 4, (0x0F : BitVec 32).getLsbD i = true := by decide
  have hmode : ∀ i < 4, (0xE0 : BitVec 32).getLsbD i = false := by decide
  apply BitVec.eq_of_getLsbD_eq
  intro i hi
  simp only [headByte, lowByte, midByte, highByte,
    BitVec.getLsbD_append, BitVec.getLsbD_setWidth, BitVec.getLsbD_or, BitVec.getLsbD_and,
    BitVec.getLsbD_ushiftRight]
  rw [decide_eq_true hi, Bool.true_and]
  by_cases h0 : i < 8
  · simp only [h0, hbyte i h0, if_true, decide_true, Bool.true_and, Bool.and_true]
  by_cases h1 : i - 8 < 8
  · have hbit : 8 + (i - 8) = i := by omega
    simp only [h0, h1, hbyte _ h1, hbit, if_true, if_false, decide_true, Bool.true_and, Bool.and_true]
  by_cases h2 : i - 8 - 8 < 8
  · have hbit : 16 + (i - 8 - 8) = i := by omega
    simp only [h0, h1, h2, hbyte _ h2, hbit, if_true, if_false, decide_true, Bool.true_and,
      Bool.and_true]
  · have h3 : i - 8 - 8 - 8 < 4 := by omega
    have h4 : i - 8 - 8 - 8 < 8 := by omega
    have hbit : 24 + (i - 8 - 8 - 8) = i := by omega
    simp only [h0, h1, h2, h3, h4, hmode _ h3, hnibble _ h3, hbit, if_false, decide_true,
      Bool.true_and, Bool.and_true, Bool.false_or]

theorem lba_addressed (d : IdealDrive) (lba : BitVec 32) :
    (d.addressed lba).lba = lba.setWidth 28 :=
  address_eq lba

/-! ### The driver on it -/

/-- The drive is never busy, and it does not mind to be asked. -/
theorem readStatus_ideal (d : Driver IdealDrive) :
    (d.readStatus idealBus).1 &&& ataStatusBsy = 0 ∧ (d.readStatus idealBus).2 = d := by
  have hstatus : (IdealDrive.status d.dev).1 &&& ataStatusBsy = 0 ∧
      (IdealDrive.status d.dev).2 = d.dev := by
    unfold IdealDrive.status
    split
    · exact ⟨show (0x50 : Byte) &&& ataStatusBsy = 0 by decide, rfl⟩
    · exact ⟨show (0x58 : Byte) &&& ataStatusBsy = 0 by decide, rfl⟩
  refine ⟨hstatus.1, ?_⟩
  show { d with dev := (IdealDrive.status d.dev).2 } = d
  rw [hstatus.2]

theorem ataWaitReadLoop_ideal (rounds : Nat) (d : Driver IdealDrive) :
    ataWaitReadLoop idealBus rounds d = d := by
  obtain ⟨hbusy, hread⟩ := readStatus_ideal d
  induction rounds with
  | zero => rfl
  | succ rounds ih =>
    rw [ataWaitReadLoop]
    simp only [hread, if_neg (not_not_intro hbusy), ih, ite_self]

theorem ataWaitRead_ideal (d : Driver IdealDrive) : ataWaitRead idealBus d = d.resetFired := by
  unfold ataWaitRead
  rw [ataWaitReadLoop_ideal]

theorem ataWaitWriteLoop_ideal (rounds : Nat) (d : Driver IdealDrive) :
    ataWaitWriteLoop idealBus rounds d = d := by
  obtain ⟨hbusy, hread⟩ := readStatus_ideal d
  cases rounds with
  | zero => rfl
  | succ rounds =>
    rw [ataWaitWriteLoop]
    simp only [hread, if_neg (not_not_intro hbusy), ite_self]

theorem ataWaitWrite_ideal (d : Driver IdealDrive) : ataWaitWrite idealBus d = d.resetFired := by
  unfold ataWaitWrite
  rw [ataWaitWriteLoop_ideal]

/-- **A read** brings the sector, and leaves the map as it is. -/
theorem ataReadSector_ideal (lba : BitVec 32) (d : Driver IdealDrive) :
    ataReadSector idealBus lba d = (d.dev.sectors (lba.setWidth 28),
      ⟨d.dev.sectors (lba.setWidth 28), false, d.dev.addressed lba⟩) := by
  rw [← lba_addressed d.dev lba]
  unfold ataReadSector
  simp only
  rw [ataWaitRead_ideal]
  rfl

/-- **A write** puts the buffer into the map. -/
theorem ataWriteSector_ideal (lba : BitVec 32) (buffer : Sector) (d : Driver IdealDrive) :
    ataWriteSector idealBus lba buffer d = ⟨buffer, false,
      { d.dev.addressed lba with
        sectors := Function.update d.dev.sectors (lba.setWidth 28) buffer }⟩ := by
  rw [← lba_addressed d.dev lba]
  unfold ataWriteSector
  simp only
  rw [ataWaitRead_ideal, ataWaitWrite_ideal, ataWaitWrite_ideal]
  rfl

/-! ### The `disktest` command -/

def diskTestSector : Sector := fun i => secretText.getD i 0

def IdealDrive.afterDiskTest (d : IdealDrive) : IdealDrive :=
  { d.addressed 1 with sectors := Function.update d.sectors 1 diskTestSector }

theorem sectors_afterDiskTest (d : IdealDrive) :
    d.afterDiskTest.sectors = Function.update d.sectors 1 diskTestSector := rfl

/-- **`disktest`** leaves its text in the buffer and its number in the registers. -/
theorem drive_diskTest (s : Shell (Driver IdealDrive)) :
    (diskTest (driverAta idealBus) s).drive =
      ⟨diskTestSector, false, s.drive.dev.afterDiskTest⟩ := by
  have htext : (fun j : Fin 512 => secretPad s.diskTestPad j) = diskTestSector := by
    funext j
    exact if_pos j.isLt
  show (ataReadSector idealBus 1 (ataWriteSector idealBus 1
    (fun j : Fin 512 => secretPad s.diskTestPad j) s.drive)).2 = _
  rw [htext, ataReadSector_ideal, ataWriteSector_ideal]
  show Driver.mk (Function.update s.drive.dev.sectors 1 diskTestSector 1) _ _ = _
  rw [Function.update_self]
  rfl

/-! ### The map -/

/-- **Sectors are apart**: a write changes what is read from its own number, in
28 bits, and from no other. -/
theorem read_write_ideal (d : Driver IdealDrive) (lba lba' : BitVec 32) (buffer : Sector) :
    (ataReadSector idealBus lba' (ataWriteSector idealBus lba buffer d)).1 =
      if lba'.setWidth 28 = lba.setWidth 28 then buffer else (ataReadSector idealBus lba' d).1 := by
  rw [ataReadSector_ideal, ataReadSector_ideal, ataWriteSector_ideal]
  show Function.update d.dev.sectors (lba.setWidth 28) buffer (lba'.setWidth 28) = _
  exact Function.update_apply ..

/-- Sectors 0 and `0x10000000` are one. -/
theorem not_read_write_ideal : ¬ ∀ (d : Driver IdealDrive) (lba lba' : BitVec 32) (buffer : Sector),
    (ataReadSector idealBus lba (ataWriteSector idealBus lba buffer d)).1 = buffer ∧
      (lba' ≠ lba → (ataReadSector idealBus lba' (ataWriteSector idealBus lba buffer d)).1 =
        (ataReadSector idealBus lba' d).1) := by
  intro h
  have hboth := (h ⟨fun _ => 0, false, fun _ _ => 0, 0, 0, 0, 0, .idle⟩ 0 0x10000000 fun _ => 1).2
    (by decide)
  rw [ataReadSector_ideal, ataReadSector_ideal, ataWriteSector_ideal] at hboth
  exact absurd (congrFun hboth 0) (by decide)

end Antagonist
