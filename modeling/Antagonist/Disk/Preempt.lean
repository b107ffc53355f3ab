import Antagonist.Disk.Ideal
import Antagonist.Shell.CommandLine
import Mathlib.Tactic.IntervalCases

/-!
# A disk write and the keyboard

`ata_write_sector` runs in a thread, and an Enter behind `disktest` comes between two
of its steps: the handler uses the same `ata_io_buffer`, the same registers and
the same drive.  The drive is ideal.

* `survives_iff`: at which steps, and for which sectors and buffers, both writes
  arrive.
-/

namespace Antagonist

open ByteMem Stepwise

section

variable (lba : BitVec 32) (b : Sector) (n : Nat) (i : Interrupt) (s : Shell (Driver IdealDrive))

/-- `ata_write_sector(lba, b)` after `n` steps. -/
def interruptedWrite : DiskCall IdealDrive × List AtaStep :=
  (ataSteps idealBus).next^[n] (⟨s.drive, b⟩, writeCode lba)

/-- `keyboard_handler` on what these have left. -/
def handlerBetween : Shell (Driver IdealDrive) :=
  keyboardHandler (driverAta idealBus) i { s with drive := (interruptedWrite lba b n s).1.driver }

/-- The drive when the rest of the write is done too. -/
def driveAfterBoth : IdealDrive :=
  ((ataSteps idealBus).execAll (interruptedWrite lba b n s).2
    ⟨(handlerBetween lba b n i s).drive, (interruptedWrite lba b n s).1.buffer⟩).driver.dev

theorem driveAfterBoth_reached : ∃ m c, (ataSteps idealBus).next^[m]
    (⟨(handlerBetween lba b n i s).drive, (interruptedWrite lba b n s).1.buffer⟩,
      (interruptedWrite lba b n s).2) = (c, []) ∧ c.driver.dev = driveAfterBoth lba b n i s := by
  obtain ⟨m, hm⟩ := ata_lawful.reaches (interruptedWrite lba b n s).2
    ⟨(handlerBetween lba b n i s).drive, (interruptedWrite lba b n s).1.buffer⟩
  exact ⟨m, _, hm, rfl⟩

def BothWritten (before after : BitVec 28 → Sector) : Prop :=
  after (lba.setWidth 28) = b ∧ after 1 = diskTestSector ∧
    ∀ k, k ≠ lba.setWidth 28 → k ≠ 1 → after k = before k

/-- Whatever is on the disk and on the screen, an Enter after `n` steps that executes
`disktest` does not disturb the write. -/
def Survives : Prop :=
  ∀ (i : Interrupt) (s : Shell (Driver IdealDrive)),
    s.drive.interruptFired = false → i.scancode = 0x1C →
    enterAction s = .run .disktest →
    BothWritten lba b s.drive.dev.sectors (driveAfterBoth lba b n i s).sectors

/-- The exact condition.  512 steps copy the buffer, the 514th to the 518th write the
registers, the 519th is the command and the 524th the burst.  What is done before the
command must be what `disktest` does too, whose sector is number 1; between the
command and the burst the write is lost. -/
def Undisturbed : Prop :=
  if lba.setWidth 28 = (1 : BitVec 28) then b = diskTestSector
  else 524 ≤ n ∨ (n ≤ 518 ∧ (∀ j : Fin 512, j.val < n → b j = diskTestSector j) ∧
    (514 ≤ n → (headByte lba).setWidth 4 = (0 : BitVec 4)) ∧ (516 ≤ n → lowByte lba = 1) ∧
    (517 ≤ n → midByte lba = 0) ∧ (518 ≤ n → highByte lba = 0))

end

/-! ### The handler -/

section

variable {i : Interrupt} {s : Shell (Driver IdealDrive)}

/-- **An Enter that executes `disktest`** leaves its text in the buffer and its number in
the registers. -/
theorem drive_enter_diskTest (hi : i.scancode = 0x1C) (hs : enterAction s = .run .disktest) :
    (keyboardHandler (driverAta idealBus) i s).drive =
      ⟨diskTestSector, false, s.drive.dev.afterDiskTest⟩ := by
  have hkey : decode i.scancode = .enter := by
    rw [hi]
    decide
  have heq := keyboardHandler_eq (driverAta idealBus) i s
  rw [hkey] at heq
  simp only at heq
  have hact : enterAction (pressed s i.scancode) = .run .disktest := hs
  rw [heq]
  unfold enterKey
  rw [hact]
  exact drive_diskTest _

end

/-! ### The steps up to the command -/

section

variable {lba : BitVec 32} {n : Nat}

theorem mem_writePrefix {ins : AtaStep} (h : ins ∈ writePrefix lba) :
    (∃ j, ins = .copyIn j) ∨ ∃ port value, ins = .outb port value ∧ port ≠ ataCommand := by
  rcases List.mem_append.mp h with h | h
  · obtain ⟨j, _, rfl⟩ := List.mem_map.mp h
    exact .inl ⟨j, rfl⟩
  · simp only [List.mem_cons, List.not_mem_nil, or_false] at h
    rcases h with rfl | rfl | rfl | rfl | rfl | rfl <;> exact .inr ⟨_, _, rfl, by decide⟩

theorem length_copies : ((List.finRange 512).map AtaStep.copyIn).length = 512 := by
  rw [List.length_map, List.length_finRange]

theorem length_writePrefix : (writePrefix lba).length = 518 := by
  unfold writePrefix
  rw [List.length_append, length_copies]
  rfl

theorem execAll_writePrefix_keeps {code : List AtaStep} (hcode : ∀ ins ∈ code, ins ∈ writePrefix lba)
    (c : DiskCall IdealDrive) :
    ((ataSteps idealBus).execAll code c).driver.dev.sectors = c.driver.dev.sectors ∧
      ((ataSteps idealBus).execAll code c).driver.interruptFired = c.driver.interruptFired ∧
      ((ataSteps idealBus).execAll code c).buffer = c.buffer := by
  induction code generalizing c with
  | nil => exact ⟨rfl, rfl, rfl⟩
  | cons ins code ih =>
    obtain ⟨hsectors, hflag, hbuffer⟩ :=
      ih (fun j hj => hcode j (List.mem_cons_of_mem _ hj)) ((ataSteps idealBus).exec ins c)
    rw [execAll_cons, hsectors, hflag, hbuffer]
    rcases mem_writePrefix (hcode ins List.mem_cons_self) with ⟨j, rfl⟩ | ⟨port, value, rfl, hport⟩
    · exact ⟨rfl, rfl, rfl⟩
    · refine ⟨?_, rfl, rfl⟩
      show (IdealDrive.outb port value c.driver.dev).sectors = _
      unfold IdealDrive.outb
      rw [if_neg hport]
      split_ifs <;> rfl

theorem mem_drop_finRange (j : Fin 512) : j ∈ (List.finRange 512).drop n ↔ ¬ j.val < n := by
  rw [List.mem_drop_iff_getElem]
  refine ⟨?_, fun h => ⟨j - n, ?_, ?_⟩⟩
  · rintro ⟨k, hk, rfl⟩
    rw [List.getElem_finRange]
    exact Nat.not_lt.mpr (Nat.le_add_right n k)
  · rw [List.length_finRange]
    omega
  · rw [List.getElem_finRange]
    apply Fin.ext
    show n + (j.val - n) = j.val
    omega

/-- **What is left of the prefix** after `n` of its steps. -/
theorem execAll_drop_writePrefix (hn : n ≤ 518) (c : DiskCall IdealDrive) :
    (ataSteps idealBus).execAll ((writePrefix lba).drop n) c =
      ⟨⟨fun j => if j.val < n then c.driver.ioBuffer j else c.buffer j, c.driver.interruptFired,
        { c.driver.dev with
          head := if n < 514 then headByte lba else c.driver.dev.head
          low := if n < 516 then lowByte lba else c.driver.dev.low
          mid := if n < 517 then midByte lba else c.driver.dev.mid
          high := if n < 518 then highByte lba else c.driver.dev.high }⟩, c.buffer⟩ := by
  unfold writePrefix
  rcases Nat.lt_or_ge n 512 with hcopy | hports
  · rw [List.drop_append_of_le_length (by rw [length_copies]; omega), execAll_append,
      ← List.map_drop, execAll_copyIn, if_pos (by omega), if_pos (by omega), if_pos (by omega),
      if_pos (by omega)]
    have hcopied : copyBytes ((List.finRange 512).drop n) c.buffer c.driver.ioBuffer =
        fun j => if j.val < n then c.driver.ioBuffer j else c.buffer j := by
      funext j
      by_cases hj : j.val < n
      · rw [copyBytes_of_not_mem fun hmem => mem_drop_finRange j |>.mp hmem hj, if_pos hj]
      · rw [copyBytes_of_mem ((mem_drop_finRange j).mpr hj), if_neg hj]
    rw [hcopied]
    rfl
  · obtain ⟨k, rfl⟩ : ∃ k, n = 512 + k := ⟨n - 512, by omega⟩
    have hall : (fun j : Fin 512 => if j.val < 512 + k then c.driver.ioBuffer j else c.buffer j) =
        c.driver.ioBuffer := by
      funext j
      exact if_pos (by omega)
    rw [hall, List.drop_append, length_copies, List.drop_eq_nil_of_le (by rw [length_copies]; omega),
      List.nil_append, Nat.add_sub_cancel_left]
    have hk : k ≤ 6 := by omega
    interval_cases k <;> rfl

end

/-! ### The steps behind the command -/

inductive AtaStep.Flushes : AtaStep → Prop
  | waitWrite (rounds : Nat) : Flushes (.waitWrite rounds)
  | writeBusy (rounds : Nat) : Flushes (.writeBusy rounds)
  | resetFired : Flushes .resetFired
  | command : Flushes (.outb ataCommand ataCmdFlush)

theorem AtaStep.Flushes.step {ins : AtaStep} (h : ins.Flushes) (c : DiskCall IdealDrive) :
    (ins.step idealBus c).1.driver.dev.sectors = c.driver.dev.sectors ∧
      ∀ j ∈ (ins.step idealBus c).2, j.Flushes := by
  cases h with
  | waitWrite rounds =>
    cases rounds with
    | zero => exact ⟨rfl, fun j hj => absurd hj List.not_mem_nil⟩
    | succ rounds =>
      refine ⟨rfl, ?_⟩
      intro j hj
      simp only [AtaStep.step] at hj
      split at hj
      · exact absurd hj List.not_mem_nil
      · rw [List.mem_singleton.mp hj]
        exact .writeBusy rounds
  | writeBusy rounds =>
    obtain ⟨hbusy, hread⟩ := readStatus_ideal c.driver
    simp only [AtaStep.step, hread, if_neg (not_not_intro hbusy)]
    exact ⟨trivial, fun j hj => absurd hj List.not_mem_nil⟩
  | resetFired => exact ⟨rfl, fun j hj => absurd hj List.not_mem_nil⟩
  | command => exact ⟨rfl, fun j hj => absurd hj List.not_mem_nil⟩

theorem flushes_writeFlush : ∀ ins ∈ writeFlush, ins.Flushes := by
  intro ins h
  simp only [writeFlush, List.mem_cons, List.not_mem_nil, or_false] at h
  rcases h with rfl | rfl | rfl | rfl | rfl
  · exact .waitWrite _
  · exact .resetFired
  · exact .command
  · exact .waitWrite _
  · exact .resetFired

/-- **The flush** changes no sector. -/
theorem flushes_iterate (m : Nat) {code : List AtaStep} (hcode : ∀ ins ∈ code, ins.Flushes)
    (c : DiskCall IdealDrive) :
    ((ataSteps idealBus).next^[m] (c, code)).1.driver.dev.sectors = c.driver.dev.sectors ∧
      ∀ ins ∈ ((ataSteps idealBus).next^[m] (c, code)).2, ins.Flushes := by
  induction m generalizing c code with
  | zero => exact ⟨rfl, hcode⟩
  | succ m ih =>
    rw [Function.iterate_succ_apply]
    cases code with
    | nil => exact ih hcode c
    | cons ins code =>
      rw [next_cons]
      obtain ⟨hsectors, hleft⟩ := (hcode ins List.mem_cons_self).step c
      rw [← hsectors]
      refine ih ?_ _
      intro j hj
      rcases List.mem_append.mp hj with hj | hj
      · exact hleft j hj
      · exact hcode j (List.mem_cons_of_mem _ hj)

theorem sectors_flush {code : List AtaStep} (hcode : ∀ ins ∈ code, ins.Flushes)
    (c : DiskCall IdealDrive) :
    ((ataSteps idealBus).execAll code c).driver.dev.sectors = c.driver.dev.sectors := by
  obtain ⟨m, hm⟩ := ata_lawful.reaches code c
  have h := (flushes_iterate m hcode c).1
  rw [hm] at h
  exact h

theorem exec_wait (rounds : Nat) (c : DiskCall IdealDrive) :
    (ataSteps idealBus).exec (.waitRead rounds) c = c ∧
      (ataSteps idealBus).exec (.readBusy rounds) c = c ∧
      (ataSteps idealBus).exec (.readRequest rounds) c = c := by
  obtain ⟨hbusy, hread⟩ := readStatus_ideal c.driver
  refine ⟨?_, ?_, ?_⟩
  · show { c with driver := ataWaitReadLoop idealBus rounds c.driver } = c
    rw [ataWaitReadLoop_ideal]
  · show AtaStep.exec idealBus (.readBusy rounds) c = c
    simp only [AtaStep.exec, hread, if_neg (not_not_intro hbusy), ataWaitReadLoop_ideal, ite_self]
  · show AtaStep.exec idealBus (.readRequest rounds) c = c
    simp only [AtaStep.exec, hread, ataWaitReadLoop_ideal, ite_self]

/-- **The command and the burst** put `ata_io_buffer` where the registers say. -/
theorem sectors_burst (c : DiskCall IdealDrive) :
    ((ataSteps idealBus).execAll (writeBurst ++ writeFlush) c).driver.dev.sectors =
      Function.update c.driver.dev.sectors c.driver.dev.lba c.driver.ioBuffer := by
  rw [execAll_append, sectors_flush flushes_writeFlush]
  unfold writeBurst
  rw [execAll_cons, execAll_cons, (exec_wait _ _).1]
  rfl

/-- What is left of the write between the command and the burst. -/
inductive BeforeBurst : List AtaStep → Prop
  | outsw : BeforeBurst (.outsw :: writeFlush)
  | resetFired {code : List AtaStep} : BeforeBurst code → BeforeBurst (.resetFired :: code)
  | waitRead {code : List AtaStep} (rounds : Nat) : BeforeBurst code →
      BeforeBurst (.waitRead rounds :: code)
  | readBusy {code : List AtaStep} (rounds : Nat) : BeforeBurst code →
      BeforeBurst (.readBusy rounds :: code)
  | readRequest {code : List AtaStep} (rounds : Nat) : BeforeBurst code →
      BeforeBurst (.readRequest rounds :: code)

/-- **A burst that comes when the drive is idle** is lost. -/
theorem BeforeBurst.lost {code : List AtaStep} (h : BeforeBurst code) {c : DiskCall IdealDrive}
    (hidle : c.driver.dev.phase = .idle) :
    ((ataSteps idealBus).execAll code c).driver.dev.sectors = c.driver.dev.sectors := by
  induction h generalizing c with
  | outsw =>
    rw [execAll_cons, sectors_flush flushes_writeFlush]
    show (IdealDrive.outsw c.driver.ioBuffer c.driver.dev).sectors = _
    unfold IdealDrive.outsw
    rw [hidle]
  | resetFired _ ih => exact ih hidle
  | waitRead rounds _ ih =>
    rw [execAll_cons, (exec_wait rounds c).1]
    exact ih hidle
  | readBusy rounds _ ih =>
    rw [execAll_cons, (exec_wait rounds c).2.1]
    exact ih hidle
  | readRequest rounds _ ih =>
    rw [execAll_cons, (exec_wait rounds c).2.2]
    exact ih hidle

/-- The call with the command in the drive. -/
def commanded (c : DiskCall IdealDrive) : DiskCall IdealDrive :=
  { c with driver.dev.phase := .dataOut c.driver.dev.lba }

theorem burst_iterate {c : DiskCall IdealDrive} (hflag : c.driver.interruptFired = false) :
    (∀ m, 1 ≤ m → m ≤ 5 →
      BeforeBurst ((ataSteps idealBus).next^[m] (c, writeBurst ++ writeFlush)).2 ∧
      ((ataSteps idealBus).next^[m] (c, writeBurst ++ writeFlush)).1.driver.dev.sectors =
        c.driver.dev.sectors) ∧
    ∃ c', (ataSteps idealBus).next^[6] (c, writeBurst ++ writeFlush) = (c', writeFlush) ∧
      c'.driver.dev.sectors =
        Function.update c.driver.dev.sectors c.driver.dev.lba c.driver.ioBuffer := by
  have hcommand : ∀ code, (ataSteps idealBus).next (c, .outb ataCommand ataCmdWrite :: code) =
      (commanded c, code) := fun _ => rfl
  have htest : ∀ code, (ataSteps idealBus).next (commanded c, .waitRead 100000 :: code) =
      (commanded c, .readBusy 99999 :: code) := by
    intro code
    show (commanded c, (if c.driver.interruptFired then [] else [AtaStep.readBusy 99999]) ++ code) = _
    rw [hflag]
    rfl
  have hready : (commanded c).driver.readStatus idealBus = (0x58, (commanded c).driver) := rfl
  have hbusy : ∀ code, (ataSteps idealBus).next (commanded c, .readBusy 99999 :: code) =
      (commanded c, .readRequest 99999 :: code) := by
    intro code
    have hclear : ¬ (0x58 : Byte) &&& ataStatusBsy ≠ 0 := by decide
    rw [next_cons]
    simp only [ataSteps, AtaStep.step, hready, if_neg hclear]
    rfl
  have hrequest : ∀ code, (ataSteps idealBus).next (commanded c, .readRequest 99999 :: code) =
      (commanded c, code) := by
    intro code
    have hset : (0x58 : Byte) &&& ataStatusDrq ≠ 0 := by decide
    rw [next_cons]
    simp only [ataSteps, AtaStep.step, hready, if_pos hset]
    rfl
  have hreset : ∀ code, (ataSteps idealBus).next (commanded c, .resetFired :: code) =
      ({ commanded c with driver := (commanded c).driver.resetFired }, code) := fun _ => rfl
  have hsplit : writeBurst ++ writeFlush = .outb ataCommand ataCmdWrite :: .waitRead 100000 ::
      .resetFired :: .outsw :: writeFlush := rfl
  rw [hsplit]
  refine ⟨fun m hlo hhi => ?_, ?_⟩
  · interval_cases m <;>
      simp only [Function.iterate_succ_apply, Function.iterate_zero_apply, hcommand, htest, hbusy,
        hrequest, hreset]
    · exact ⟨.waitRead _ (.resetFired .outsw), rfl⟩
    · exact ⟨.readBusy _ (.resetFired .outsw), rfl⟩
    · exact ⟨.readRequest _ (.resetFired .outsw), rfl⟩
    · exact ⟨.resetFired .outsw, rfl⟩
    · exact ⟨.outsw, rfl⟩
  · simp only [Function.iterate_succ_apply, Function.iterate_zero_apply, hcommand, htest, hbusy,
      hrequest, hreset]
    exact ⟨_, rfl, rfl⟩

/-! ### Both -/

/-- What the copy makes of the buffer when the text comes in after `n` steps. -/
def mixedBuffer (b : Sector) (n : Nat) : Sector := fun j => if j.val < n then diskTestSector j else b j

/-- What the registers hold then: those of sector 1 up to the `n`th step. -/
def mixedLba (lba : BitVec 32) (n : Nat) : BitVec 28 :=
  (if n < 514 then (headByte lba).setWidth 4 else (0 : BitVec 4)) ++
  (if n < 518 then highByte lba else 0) ++ (if n < 517 then midByte lba else 0) ++
  (if n < 516 then lowByte lba else 1)

section

variable {lba : BitVec 32} {b : Sector} {n : Nat} {i : Interrupt} {s : Shell (Driver IdealDrive)}

theorem interruptedWrite_of_le (hn : n ≤ 518) : interruptedWrite lba b n s =
    ((ataSteps idealBus).execAll ((writePrefix lba).take n) ⟨s.drive, b⟩,
      (writePrefix lba).drop n ++ (writeBurst ++ writeFlush)) := by
  have hlen : n ≤ (writePrefix lba).length := by
    rw [length_writePrefix]
    exact hn
  have htake : (writeCode lba).take n = (writePrefix lba).take n :=
    List.take_append_of_le_length hlen
  have hdrop : (writeCode lba).drop n = (writePrefix lba).drop n ++ (writeBurst ++ writeFlush) :=
    List.drop_append_of_le_length hlen
  unfold interruptedWrite
  rw [ata_lawful.iterate_plain, htake, hdrop]
  intro ins hins c
  rw [htake] at hins
  rcases mem_writePrefix (List.mem_of_mem_take hins) with ⟨j, rfl⟩ | ⟨port, value, rfl, _⟩ <;> rfl

theorem interruptedWrite_add (m : Nat) : interruptedWrite lba b (m + 518) s =
    (ataSteps idealBus).next^[m]
      ((ataSteps idealBus).execAll (writePrefix lba) ⟨s.drive, b⟩, writeBurst ++ writeFlush) := by
  have h : interruptedWrite lba b 518 s = _ := interruptedWrite_of_le (le_refl 518)
  rw [List.take_of_length_le (by rw [length_writePrefix]),
    List.drop_eq_nil_of_le (by rw [length_writePrefix]), List.nil_append] at h
  rw [← h]
  unfold interruptedWrite
  rw [Function.iterate_add_apply]

theorem drive_handlerBetween (hi : i.scancode = 0x1C) (hs : enterAction s = .run .disktest) :
    (handlerBetween lba b n i s).drive =
      ⟨diskTestSector, false, (interruptedWrite lba b n s).1.driver.dev.afterDiskTest⟩ :=
  drive_enter_diskTest (s := { s with drive := (interruptedWrite lba b n s).1.driver }) hi hs

/-- The registers of sector 1, and those that are written still. -/
theorem mixedLba_eq (lba : BitVec 32) (n : Nat) :
    (if n < 514 then headByte lba else headByte 1).setWidth 4 ++
      (if n < 518 then highByte lba else highByte 1) ++ (if n < 517 then midByte lba else midByte 1) ++
      (if n < 516 then lowByte lba else lowByte 1) = mixedLba lba n := by
  have hhead : (headByte 1).setWidth 4 = (0 : BitVec 4) := by decide
  have hhigh : highByte 1 = 0 := by decide
  have hmid : midByte 1 = 0 := by decide
  have hlow : lowByte 1 = 1 := by decide
  unfold mixedLba
  rw [apply_ite (BitVec.setWidth 4), hhead, hhigh, hmid, hlow]

/-- **Before the command** the write goes on with what `disktest` has left. -/
theorem sectors_before (hn : n ≤ 518) (hi : i.scancode = 0x1C)
    (hs : enterAction s = .run .disktest) : (driveAfterBoth lba b n i s).sectors =
      Function.update (Function.update s.drive.dev.sectors 1 diskTestSector)
        (mixedLba lba n) (mixedBuffer b n) := by
  have htake : ∀ ins ∈ (writePrefix lba).take n, ins ∈ writePrefix lba := fun _ =>
    List.mem_of_mem_take
  obtain ⟨hsectors, _, hbuffer⟩ := execAll_writePrefix_keeps htake ⟨s.drive, b⟩
  unfold driveAfterBoth
  rw [drive_handlerBetween hi hs, interruptedWrite_of_le hn, execAll_append, sectors_burst,
    execAll_drop_writePrefix hn, hbuffer]
  show Function.update (IdealDrive.afterDiskTest _).sectors (IdealDrive.lba _) _ = _
  rw [sectors_afterDiskTest, hsectors, ← mixedLba_eq]
  rfl

/-- **The whole prefix** has the buffer copied, and the number in the registers. -/
theorem execAll_writePrefix (lba : BitVec 32) (c : DiskCall IdealDrive) :
    ((ataSteps idealBus).execAll (writePrefix lba) c).driver.ioBuffer = c.buffer ∧
      ((ataSteps idealBus).execAll (writePrefix lba) c).driver.dev.lba = lba.setWidth 28 ∧
      ((ataSteps idealBus).execAll (writePrefix lba) c).driver.dev.sectors = c.driver.dev.sectors ∧
      ((ataSteps idealBus).execAll (writePrefix lba) c).driver.interruptFired =
        c.driver.interruptFired := by
  have hstart : (ataSteps idealBus).execAll ((writePrefix lba).drop 0) c = _ :=
    execAll_drop_writePrefix (Nat.zero_le 518) c
  rw [List.drop_zero] at hstart
  rw [hstart]
  exact ⟨rfl, address_eq lba, rfl, rfl⟩

/-- **Between the command and the burst** the write is lost. -/
theorem sectors_between (hflag : s.drive.interruptFired = false) (hlo : 519 ≤ n) (hhi : n ≤ 523)
    (hi : i.scancode = 0x1C) (hs : enterAction s = .run .disktest) :
    (driveAfterBoth lba b n i s).sectors =
      Function.update s.drive.dev.sectors 1 diskTestSector := by
  obtain ⟨m, rfl⟩ : ∃ m, n = m + 518 := ⟨n - 518, by omega⟩
  obtain ⟨_, _, hsectors, hfired⟩ := execAll_writePrefix lba ⟨s.drive, b⟩
  obtain ⟨hbefore, hkeeps⟩ := (burst_iterate (hfired.trans hflag)).1 m (by omega) (by omega)
  unfold driveAfterBoth
  rw [drive_handlerBetween hi hs, interruptedWrite_add, hbefore.lost rfl]
  show (IdealDrive.afterDiskTest _).sectors = _
  rw [sectors_afterDiskTest, hkeeps, hsectors]

/-- **After the burst** the sector is on the disk. -/
theorem sectors_after (hflag : s.drive.interruptFired = false) (hlo : 524 ≤ n)
    (hi : i.scancode = 0x1C) (hs : enterAction s = .run .disktest) :
    (driveAfterBoth lba b n i s).sectors =
      Function.update (Function.update s.drive.dev.sectors (lba.setWidth 28) b) 1 diskTestSector := by
  obtain ⟨m, rfl⟩ : ∃ m, n = (m + 6) + 518 := ⟨n - 524, by omega⟩
  obtain ⟨hbuffer, haddress, hsectors, hfired⟩ := execAll_writePrefix lba ⟨s.drive, b⟩
  obtain ⟨c, hc, hwritten⟩ := (burst_iterate (hfired.trans hflag)).2
  rw [haddress, hbuffer, hsectors] at hwritten
  obtain ⟨hkeeps, hflushes⟩ := flushes_iterate m flushes_writeFlush c
  unfold driveAfterBoth
  rw [drive_handlerBetween hi hs, interruptedWrite_add, Function.iterate_add_apply, hc,
    sectors_flush hflushes]
  show (IdealDrive.afterDiskTest _).sectors = _
  rw [sectors_afterDiskTest, hkeeps, hwritten]

end

/-! ### When the write survives -/

theorem append_eq_append {v w : Nat} {x x' : BitVec w} {y y' : BitVec v} :
    x ++ y = x' ++ y' ↔ x = x' ∧ y = y' := by
  refine ⟨fun h => ?_, fun h => by rw [h.1, h.2]⟩
  have hlow : y = y' := by
    have h' := congrArg (BitVec.setWidth v) h
    rwa [BitVec.setWidth_append_eq_right, BitVec.setWidth_append_eq_right] at h'
  rw [hlow] at h
  exact ⟨(BitVec.append_left_inj y').mp h, hlow⟩

theorem mixedLba_iff (lba : BitVec 32) (n : Nat) : mixedLba lba n = lba.setWidth 28 ↔
    (514 ≤ n → (headByte lba).setWidth 4 = (0 : BitVec 4)) ∧ (516 ≤ n → lowByte lba = 1) ∧
      (517 ≤ n → midByte lba = 0) ∧ (518 ≤ n → highByte lba = 0) := by
  have hreg : ∀ {w m : Nat} (x c : BitVec w), (if n < m then x else c) = x ↔ (m ≤ n → x = c) := by
    intro w m x c
    split
    · exact ⟨fun _ hle => absurd ‹n < m› (Nat.not_lt.mpr hle), fun _ => rfl⟩
    · exact ⟨fun h _ => h.symm, fun h => (h (Nat.not_lt.mp ‹_›)).symm⟩
  rw [← address_eq lba]
  unfold mixedLba
  rw [append_eq_append, append_eq_append, append_eq_append, hreg, hreg, hreg, hreg]
  tauto

theorem mixedBuffer_iff (b : Sector) (n : Nat) :
    mixedBuffer b n = b ↔ ∀ j : Fin 512, j.val < n → b j = diskTestSector j := by
  rw [funext_iff]
  refine forall_congr' ?_
  intro j
  unfold mixedBuffer
  split
  · exact ⟨fun h _ => h.symm, fun h => (h ‹_›).symm⟩
  · exact ⟨fun _ hlt => absurd hlt ‹_›, fun _ => rfl⟩

def typedDiskTest (sectors : BitVec 28 → Sector) : Shell (Driver IdealDrive) where
  console := ⟨fun _ => 0, 1616⟩
  cmdBuffer := fun j => Command.disktest.name.getD j 0
  cmdIndex := 8
  commandReadyFlag := 0
  diskTestPad := fun _ => 0
  keyboardMatrix := fun _ => 0
  drive := ⟨fun _ => 0, false, ⟨sectors, 0, 0, 0, 0, .idle⟩⟩
  port20 := []

theorem enterAction_typedDiskTest (sectors : BitVec 28 → Sector) :
    enterAction (typedDiskTest sectors) = .run .disktest := by
  show commandChain (Function.update (fun j => Command.disktest.name.getD j 0) 8 0) = _
  decide

section

variable {lba : BitVec 32} {b : Sector} {n : Nat}

theorem Survives.bothWritten (h : Survives lba b n) (sectors : BitVec 28 → Sector) :
    BothWritten lba b sectors
      (driveAfterBoth lba b n ⟨0x1C, 0, 0, 0, 0⟩ (typedDiskTest sectors)).sectors :=
  h ⟨0x1C, 0, 0, 0, 0⟩ (typedDiskTest sectors) rfl rfl (enterAction_typedDiskTest sectors)

/-- **The condition is needed**: otherwise some disk is left without the sector. -/
theorem undisturbed_of_survives (h : Survives lba b n) : Undisturbed lba b n := by
  unfold Undisturbed
  by_cases hone : lba.setWidth 28 = (1 : BitVec 28)
  · rw [if_pos hone]
    obtain ⟨hb, htext, _⟩ := h.bothWritten fun _ _ => 0
    rw [hone] at hb
    exact hb.symm.trans htext
  rw [if_neg hone]
  -- a disk whose sectors all differ from the buffer
  let other : Sector := fun j => b j + 1
  have hother : other ≠ b := fun heq => by
    have hzero := congrFun heq 0
    exact absurd hzero (by show b 0 + 1 ≠ b 0; simp)
  obtain ⟨hb, -, -⟩ := h.bothWritten fun _ => other
  rcases Nat.lt_or_ge n 519 with hbefore | hcommand
  · rw [sectors_before (by omega) rfl (enterAction_typedDiskTest _)] at hb
    have haddress : lba.setWidth 28 = mixedLba lba n := by
      by_contra hne
      rw [Function.update_of_ne hne, Function.update_of_ne hone] at hb
      exact hother hb
    rw [haddress, Function.update_self] at hb
    exact .inr ⟨by omega, (mixedBuffer_iff b n).mp hb, (mixedLba_iff lba n).mp haddress.symm⟩
  rcases Nat.lt_or_ge n 524 with hbetween | hburst
  · rw [sectors_between rfl hcommand (by omega) rfl (enterAction_typedDiskTest _),
      Function.update_of_ne hone] at hb
    exact absurd hb hother
  · exact .inl hburst

theorem bothWritten_update (hone : lba.setWidth 28 ≠ (1 : BitVec 28)) (sectors : BitVec 28 → Sector) :
    BothWritten lba b sectors
      (Function.update (Function.update sectors 1 diskTestSector) (lba.setWidth 28) b) := by
  refine ⟨Function.update_self .., ?_, fun k hk hk1 => ?_⟩
  · rw [Function.update_of_ne hone.symm, Function.update_self]
  · rw [Function.update_of_ne hk, Function.update_of_ne hk1]

theorem bothWritten_one (hone : lba.setWidth 28 = (1 : BitVec 28)) (sectors : BitVec 28 → Sector) :
    BothWritten lba diskTestSector sectors (Function.update sectors 1 diskTestSector) := by
  refine ⟨?_, Function.update_self .., fun k _ hk1 => Function.update_of_ne hk1 _ _⟩
  rw [hone, Function.update_self]

theorem mixedLba_one (hone : lba.setWidth 28 = (1 : BitVec 28)) (n : Nat) : mixedLba lba n = 1 := by
  have hsplit : (1 : BitVec 28) = (0 : BitVec 4) ++ (0 : Byte) ++ (0 : Byte) ++ (1 : Byte) := by decide
  have hreg := ((address_eq lba).trans hone).trans hsplit
  rw [append_eq_append, append_eq_append, append_eq_append] at hreg
  obtain ⟨⟨⟨hhead, hhigh⟩, hmid⟩, hlow⟩ := hreg
  rw [← hone]
  exact (mixedLba_iff lba n).mpr ⟨fun _ => hhead, fun _ => hlow, fun _ => hmid, fun _ => hhigh⟩

theorem survives_of_undisturbed (h : Undisturbed lba b n) : Survives lba b n := by
  intro i s hflag hi hs
  unfold Undisturbed at h
  by_cases hone : lba.setWidth 28 = (1 : BitVec 28)
  · rw [if_pos hone] at h
    subst h
    have hmixed : mixedBuffer diskTestSector n = diskTestSector :=
      (mixedBuffer_iff _ n).mpr fun _ _ => rfl
    rcases Nat.lt_or_ge n 519 with hbefore | hcommand
    · rw [sectors_before (by omega) hi hs, mixedLba_one hone, hmixed, Function.update_idem]
      exact bothWritten_one hone _
    rcases Nat.lt_or_ge n 524 with hbetween | hburst
    · rw [sectors_between hflag hcommand (by omega) hi hs]
      exact bothWritten_one hone _
    · rw [sectors_after hflag hburst hi hs, hone, Function.update_idem]
      exact bothWritten_one hone _
  rw [if_neg hone] at h
  rcases h with hburst | ⟨hbefore, hcopied, hports⟩
  · rw [sectors_after hflag hburst hi hs, Function.update_comm hone]
    exact bothWritten_update hone _
  · rw [sectors_before hbefore hi hs, (mixedLba_iff lba n).mpr hports,
      (mixedBuffer_iff b n).mpr hcopied]
    exact bothWritten_update hone _

/-- **Both writes arrive**, on every disk, exactly when nothing of the first one is
disturbed. -/
theorem survives_iff (lba : BitVec 32) (b : Sector) (n : Nat) :
    Survives lba b n ↔ Undisturbed lba b n :=
  ⟨undisturbed_of_survives, survives_of_undisturbed⟩

/-- The world in sector 2, and the Enter behind the copy. -/
theorem not_survives : ¬ ∀ (lba : BitVec 32) (b : Sector) (n : Nat), lba ≠ 1 → Survives lba b n := by
  intro h
  have hdone := undisturbed_of_survives (h 2 (fun _ => 0) 512 (by decide))
  unfold Undisturbed at hdone
  rw [if_neg (by decide)] at hdone
  rcases hdone with hburst | ⟨-, hcopied, -⟩
  · exact absurd hburst (by decide)
  · exact absurd (hcopied 0 (by decide)) (by decide)

end

end Antagonist
