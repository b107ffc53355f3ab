import Antagonist.Lib.Memory
import Antagonist.Lib.Stepwise
import Antagonist.Shell.Keyboard

/-!
# The disk driver

`kernel/ata.cpp`, over any controller: a `Bus` is what the ports do.  `ataReadSector` and
`ataWriteSector` are the functions as they run undisturbed; `readCode` and
`writeCode` are the steps that they are made of, for an interrupt to come between.

* `ata_lawful`, `execAll_readCode`, `execAll_writeCode`: step by step the code
  comes to where the functions do.
-/

namespace Antagonist

open ByteMem

abbrev Sector := Fin 512 → Byte

/-! ### The ports -/

def ataFeatures : Nat := 0x1F1
def ataSectorCnt : Nat := 0x1F2
def ataLbaLow : Nat := 0x1F3
def ataLbaMid : Nat := 0x1F4
def ataLbaHigh : Nat := 0x1F5
def ataDriveHead : Nat := 0x1F6
def ataCommand : Nat := 0x1F7
def ataDevCtrl : Nat := 0x3F6

def ataStatusBsy : Byte := 0x80
def ataStatusDrq : Byte := 0x08
def ataCtrlNien : Byte := 0x02
def ataCmdRead : Byte := 0x20
def ataCmdWrite : Byte := 0x30

/-- `WIN_FLUSH_CACHE`. -/
def ataCmdFlush : Byte := 0xE7

/-- A controller: what `outb` does, what the status port says, and a sector in
either direction over the data port. -/
structure Bus (δ : Type) where
  outb : Nat → Byte → δ → δ
  status : δ → Byte × δ
  insw : δ → Sector × δ
  outsw : Sector → δ → δ

/-- The globals of `ata.cpp`, and the controller. -/
structure Driver (δ : Type) where
  ioBuffer : Sector
  interruptFired : Bool
  dev : δ

/-! ### The functions -/

section

variable {δ : Type} (bus : Bus δ)

namespace Driver

def outb (port : Nat) (value : Byte) (d : Driver δ) : Driver δ :=
  { d with dev := bus.outb port value d.dev }

/-- `inb(ATA_STATUS)`. -/
def readStatus (d : Driver δ) : Byte × Driver δ :=
  ((bus.status d.dev).1, { d with dev := (bus.status d.dev).2 })

/-- `insw(ATA_DATA, ata_io_buffer, 256)`. -/
def insw (d : Driver δ) : Driver δ :=
  { d with ioBuffer := (bus.insw d.dev).1, dev := (bus.insw d.dev).2 }

/-- `outsw(ATA_DATA, ata_io_buffer, 256)`. -/
def outsw (d : Driver δ) : Driver δ := { d with dev := bus.outsw d.ioBuffer d.dev }

/-- `ata_interrupt_fired = 0`. -/
def resetFired (d : Driver δ) : Driver δ := { d with interruptFired := false }

end Driver

/-- The loop of `ata_wait_read`, with a number of rounds to go. -/
def ataWaitReadLoop : Nat → Driver δ → Driver δ
  | 0, d => d
  | rounds + 1, d =>
      if d.interruptFired then d
      else
        let busy := d.readStatus bus
        if busy.1 &&& ataStatusBsy ≠ 0 then ataWaitReadLoop rounds busy.2
        else
          let request := busy.2.readStatus bus
          if request.1 &&& ataStatusDrq ≠ 0 then request.2 else ataWaitReadLoop rounds request.2

def ataWaitRead (d : Driver δ) : Driver δ := (ataWaitReadLoop bus 100000 d).resetFired

/-- The loop of `ata_wait_write`. -/
def ataWaitWriteLoop : Nat → Driver δ → Driver δ
  | 0, d => d
  | rounds + 1, d =>
      if d.interruptFired then d
      else
        let busy := d.readStatus bus
        if busy.1 &&& ataStatusBsy ≠ 0 then ataWaitWriteLoop rounds busy.2 else busy.2

def ataWaitWrite (d : Driver δ) : Driver δ := (ataWaitWriteLoop bus 100000 d).resetFired

def ataIrqHandler (d : Driver δ) : Driver δ := { (d.readStatus bus).2 with interruptFired := true }

/-- `0xE0 | ((lba >> 24) & 0x0F)`. -/
def headByte (lba : BitVec 32) : Byte := ((0xE0 : BitVec 32) ||| (lba >>> 24 &&& 0x0F)).setWidth 8

def lowByte (lba : BitVec 32) : Byte := (lba &&& 0xFF).setWidth 8

def midByte (lba : BitVec 32) : Byte := (lba >>> 8 &&& 0xFF).setWidth 8

def highByte (lba : BitVec 32) : Byte := (lba >>> 16 &&& 0xFF).setWidth 8

/-- `ata_read_sector`: the bytes that `buffer` gets, and the state. -/
def ataReadSector (lba : BitVec 32) (d : Driver δ) : Sector × Driver δ :=
  let d := d.outb bus ataDevCtrl ataCtrlNien
  let d := d.outb bus ataDriveHead (headByte lba)
  let d := d.outb bus ataFeatures 0x00
  let d := d.outb bus ataSectorCnt 0x01
  let d := d.outb bus ataLbaLow (lowByte lba)
  let d := d.outb bus ataLbaMid (midByte lba)
  let d := d.outb bus ataLbaHigh (highByte lba)
  let d := d.outb bus ataCommand ataCmdRead
  let d := ataWaitRead bus d
  let d := d.insw bus
  (d.ioBuffer, d)

def ataWriteSector (lba : BitVec 32) (buffer : Sector) (d : Driver δ) : Driver δ :=
  let d := { d with ioBuffer := buffer }
  let d := d.outb bus ataDevCtrl ataCtrlNien
  let d := d.outb bus ataDriveHead (headByte lba)
  let d := d.outb bus ataSectorCnt 0x01
  let d := d.outb bus ataLbaLow (lowByte lba)
  let d := d.outb bus ataLbaMid (midByte lba)
  let d := d.outb bus ataLbaHigh (highByte lba)
  let d := d.outb bus ataCommand ataCmdWrite
  let d := ataWaitRead bus d
  let d := d.outsw bus
  let d := ataWaitWrite bus d
  let d := d.outb bus ataCommand ataCmdFlush
  ataWaitWrite bus d

/-! ### Step by step -/

/-- A step of the driver.  The tests of a wait loop carry the rounds that are
left. -/
inductive AtaStep
  | copyIn (i : Fin 512)
  | outb (port : Nat) (value : Byte)
  | waitRead (rounds : Nat)
  | readBusy (rounds : Nat)
  | readRequest (rounds : Nat)
  | waitWrite (rounds : Nat)
  | writeBusy (rounds : Nat)
  | resetFired
  | insw
  | outsw
  | copyOut (i : Fin 512)

/-- A call of the driver: the state of the driver, and the buffer of the caller. -/
structure DiskCall (δ : Type) where
  driver : Driver δ
  buffer : Sector

namespace AtaStep

def step (ins : AtaStep) (c : DiskCall δ) : DiskCall δ × List AtaStep :=
  match ins with
  | copyIn i =>
      ({ c with driver.ioBuffer := Function.update c.driver.ioBuffer i (c.buffer i) }, [])
  | outb port value => ({ c with driver := c.driver.outb bus port value }, [])
  | waitRead 0 => (c, [])
  | waitRead (rounds + 1) => (c, if c.driver.interruptFired then [] else [readBusy rounds])
  | readBusy rounds =>
      let busy := c.driver.readStatus bus
      ({ c with driver := busy.2 },
        if busy.1 &&& ataStatusBsy ≠ 0 then [waitRead rounds] else [readRequest rounds])
  | readRequest rounds =>
      let request := c.driver.readStatus bus
      ({ c with driver := request.2 },
        if request.1 &&& ataStatusDrq ≠ 0 then [] else [waitRead rounds])
  | waitWrite 0 => (c, [])
  | waitWrite (rounds + 1) => (c, if c.driver.interruptFired then [] else [writeBusy rounds])
  | writeBusy rounds =>
      let busy := c.driver.readStatus bus
      ({ c with driver := busy.2 },
        if busy.1 &&& ataStatusBsy ≠ 0 then [waitWrite rounds] else [])
  | resetFired => ({ c with driver := c.driver.resetFired }, [])
  | insw => ({ c with driver := c.driver.insw bus }, [])
  | outsw => ({ c with driver := c.driver.outsw bus }, [])
  | copyOut i => ({ c with buffer := Function.update c.buffer i (c.driver.ioBuffer i) }, [])

def exec (ins : AtaStep) (c : DiskCall δ) : DiskCall δ :=
  match ins with
  | waitRead rounds => { c with driver := ataWaitReadLoop bus rounds c.driver }
  | readBusy rounds =>
      let busy := c.driver.readStatus bus
      if busy.1 &&& ataStatusBsy ≠ 0 then { c with driver := ataWaitReadLoop bus rounds busy.2 }
      else
        let request := busy.2.readStatus bus
        { c with driver :=
            if request.1 &&& ataStatusDrq ≠ 0 then request.2
            else ataWaitReadLoop bus rounds request.2 }
  | readRequest rounds =>
      let request := c.driver.readStatus bus
      { c with driver :=
          if request.1 &&& ataStatusDrq ≠ 0 then request.2
          else ataWaitReadLoop bus rounds request.2 }
  | waitWrite rounds => { c with driver := ataWaitWriteLoop bus rounds c.driver }
  | writeBusy rounds =>
      let busy := c.driver.readStatus bus
      { c with driver :=
          if busy.1 &&& ataStatusBsy ≠ 0 then ataWaitWriteLoop bus rounds busy.2 else busy.2 }
  | ins => (ins.step bus c).1

/-- The steps that an instruction can still take. -/
def size : AtaStep → Nat
  | waitRead rounds => 3 * rounds
  | readBusy rounds => 3 * rounds + 2
  | readRequest rounds => 3 * rounds + 1
  | waitWrite rounds => 3 * rounds
  | writeBusy rounds => 3 * rounds + 1
  | _ => 0

end AtaStep

def ataSteps : Stepwise AtaStep (DiskCall δ) := ⟨AtaStep.step bus, AtaStep.exec bus⟩

def readCode (lba : BitVec 32) : List AtaStep :=
  [.outb ataDevCtrl ataCtrlNien, .outb ataDriveHead (headByte lba), .outb ataFeatures 0x00,
    .outb ataSectorCnt 0x01, .outb ataLbaLow (lowByte lba), .outb ataLbaMid (midByte lba),
    .outb ataLbaHigh (highByte lba), .outb ataCommand ataCmdRead, .waitRead 100000, .resetFired,
    .insw] ++ (List.finRange 512).map .copyOut

/-- `ata_write_sector` up to the command: the copy and the ports. -/
def writePrefix (lba : BitVec 32) : List AtaStep :=
  (List.finRange 512).map .copyIn ++
  [.outb ataDevCtrl ataCtrlNien, .outb ataDriveHead (headByte lba), .outb ataSectorCnt 0x01,
    .outb ataLbaLow (lowByte lba), .outb ataLbaMid (midByte lba), .outb ataLbaHigh (highByte lba)]

/-- The command and the burst. -/
def writeBurst : List AtaStep := [.outb ataCommand ataCmdWrite, .waitRead 100000, .resetFired, .outsw]

/-- `ata_write_sector` behind the burst. -/
def writeFlush : List AtaStep :=
  [.waitWrite 100000, .resetFired, .outb ataCommand ataCmdFlush, .waitWrite 100000, .resetFired]

def writeCode (lba : BitVec 32) : List AtaStep :=
  writePrefix lba ++ (writeBurst ++ writeFlush)

section

variable {bus}

/-- What a step leaves of an instruction ends where the instruction does. -/
theorem AtaStep.exec_step (ins : AtaStep) (c : DiskCall δ) :
    ins.exec bus c = (ataSteps bus).execAll (ins.step bus c).2 (ins.step bus c).1 := by
  cases ins with
  | waitRead rounds =>
    cases rounds with
    | zero => rfl
    | succ rounds =>
      show { c with driver := ataWaitReadLoop bus (rounds + 1) c.driver } = (ataSteps bus).execAll
        (if c.driver.interruptFired then [] else [.readBusy rounds]) c
      rw [ataWaitReadLoop]
      split
      · rfl
      · show _ = AtaStep.exec bus (.readBusy rounds) c
        simp only [AtaStep.exec]
        split <;> rfl
  | readBusy rounds =>
    simp only [AtaStep.exec, AtaStep.step]
    split <;> rfl
  | readRequest rounds =>
    simp only [AtaStep.exec, AtaStep.step]
    split <;> rfl
  | waitWrite rounds =>
    cases rounds with
    | zero => rfl
    | succ rounds =>
      show { c with driver := ataWaitWriteLoop bus (rounds + 1) c.driver } = (ataSteps bus).execAll
        (if c.driver.interruptFired then [] else [.writeBusy rounds]) c
      rw [ataWaitWriteLoop]
      split <;> rfl
  | writeBusy rounds =>
    simp only [AtaStep.exec, AtaStep.step]
    split <;> rfl
  | _ => rfl

theorem AtaStep.size_step (ins : AtaStep) (c : DiskCall δ) :
    ∀ j ∈ (ins.step bus c).2, j.size < ins.size := by
  have hnil : ∀ {n : Nat}, ∀ j ∈ ([] : List AtaStep), j.size < n :=
    fun j hj => absurd hj List.not_mem_nil
  have hone : ∀ {n : Nat} (k : AtaStep), k.size < n → ∀ j ∈ [k], j.size < n :=
    fun k hk => List.forall_mem_singleton.mpr hk
  cases ins with
  | waitRead rounds =>
    cases rounds with
    | zero => exact hnil
    | succ rounds =>
      simp only [AtaStep.step]
      split
      · exact hnil
      · exact hone _ (show 3 * rounds + 2 < 3 * (rounds + 1) by omega)
  | readBusy rounds =>
    simp only [AtaStep.step]
    split
    · exact hone _ (show 3 * rounds < 3 * rounds + 2 by omega)
    · exact hone _ (show 3 * rounds + 1 < 3 * rounds + 2 by omega)
  | readRequest rounds =>
    simp only [AtaStep.step]
    split
    · exact hnil
    · exact hone _ (show 3 * rounds < 3 * rounds + 1 by omega)
  | waitWrite rounds =>
    cases rounds with
    | zero => exact hnil
    | succ rounds =>
      simp only [AtaStep.step]
      split
      · exact hnil
      · exact hone _ (show 3 * rounds + 1 < 3 * (rounds + 1) by omega)
  | writeBusy rounds =>
    simp only [AtaStep.step]
    split
    · exact hone _ (show 3 * rounds < 3 * rounds + 1 by omega)
    · exact hnil
  | _ => exact hnil

theorem ata_lawful : (ataSteps bus).Lawful AtaStep.size :=
  ⟨AtaStep.exec_step, AtaStep.size_step⟩

/-- A copy of the bytes at `l`, one by one, from `b` to `a`. -/
def copyBytes (l : List (Fin 512)) (b a : Sector) : Sector :=
  l.foldl (fun a j => Function.update a j (b j)) a

theorem copyBytes_of_not_mem {l : List (Fin 512)} {i : Fin 512} (hi : i ∉ l) (b a : Sector) :
    copyBytes l b a i = a i := by
  induction l generalizing a with
  | nil => rfl
  | cons j l ih =>
    obtain ⟨hj, hl⟩ := not_or.mp (mt List.mem_cons.mpr hi)
    show copyBytes l b (Function.update a j (b j)) i = a i
    rw [ih hl, Function.update_of_ne hj]

theorem copyBytes_of_mem {l : List (Fin 512)} {i : Fin 512} (hi : i ∈ l) (b a : Sector) :
    copyBytes l b a i = b i := by
  induction l generalizing a with
  | nil => exact absurd hi List.not_mem_nil
  | cons j l ih =>
    show copyBytes l b (Function.update a j (b j)) i = b i
    by_cases hl : i ∈ l
    · exact ih hl _
    · have hj : i = j := (List.mem_cons.mp hi).resolve_right hl
      rw [copyBytes_of_not_mem hl, hj, Function.update_self]

theorem copyBytes_finRange (b a : Sector) : copyBytes (List.finRange 512) b a = b := by
  funext i
  exact copyBytes_of_mem (List.mem_finRange i) b a

theorem execAll_copyIn (l : List (Fin 512)) (c : DiskCall δ) :
    (ataSteps bus).execAll (l.map .copyIn) c =
      { c with driver.ioBuffer := copyBytes l c.buffer c.driver.ioBuffer } := by
  induction l generalizing c with
  | nil => rfl
  | cons j l ih =>
    rw [List.map_cons, Stepwise.execAll_cons, ih]
    rfl

theorem execAll_copyOut (l : List (Fin 512)) (c : DiskCall δ) :
    (ataSteps bus).execAll (l.map .copyOut) c =
      { c with buffer := copyBytes l c.driver.ioBuffer c.buffer } := by
  induction l generalizing c with
  | nil => rfl
  | cons j l ih =>
    rw [List.map_cons, Stepwise.execAll_cons, ih]
    rfl

/-- **The steps of `ata_read_sector`** end where the function does. -/
theorem execAll_readCode (lba : BitVec 32) (c : DiskCall δ) :
    (ataSteps bus).execAll (readCode lba) c =
      ⟨(ataReadSector bus lba c.driver).2, (ataReadSector bus lba c.driver).1⟩ := by
  unfold readCode
  rw [Stepwise.execAll_append, execAll_copyOut, copyBytes_finRange]
  rfl

/-- **The steps of `ata_write_sector`** end where the function does. -/
theorem execAll_writeCode (lba : BitVec 32) (c : DiskCall δ) :
    (ataSteps bus).execAll (writeCode lba) c =
      ⟨ataWriteSector bus lba c.buffer c.driver, c.buffer⟩ := by
  unfold writeCode writePrefix
  rw [List.append_assoc, Stepwise.execAll_append, execAll_copyIn, copyBytes_finRange]
  rfl

end

end

/-- `ata_write_sector` and `ata_read_sector` for the shell. -/
def driverAta {δ : Type} (bus : Bus δ) : Ata (Driver δ) where
  writeSector lba buffer := ataWriteSector bus (BitVec.ofNat 32 lba) fun i => buffer i
  readSector lba d :=
    let read := ataReadSector bus (BitVec.ofNat 32 lba) d
    (fun j => if h : j < 512 then read.1 ⟨j, h⟩ else 0, read.2)

end Antagonist
