import Antagonist.Disk.Ideal
import Antagonist.Lib.Footprint
import Antagonist.Lib.ReadWrite
import Antagonist.Syscall.Gate

/-!
# The disk through the gate

A program in an outer ring saves a sector with call 3 and loads one with call 4: EAX has the number
of the call, ECX the buffer and EDX the sector, whatever the comments of `kernel.cpp` say.  On the
way are the interrupt, the stub, the dispatcher and the driver, and at the end an ideal drive.

What the kernel pushes goes to its own stack, so the buffer is the same on both sides of the gate
if it keeps clear of that stack.

* `mem_dispatcherCall`: the memory that the dispatcher sees.
* `Served.write`, `Served.read`: what the two calls do.
* `disk_calls_consistent`: **the disk is a store of sectors**, over all runs.
-/

namespace Antagonist

open ByteMem X86 Logged Footprint ReadWrite

/-- The stack of the kernel for calls from an outer ring. -/
structure KernelStack (inner : InnerStack) where
  region : Region
  top : region.base + region.size = inner.esp0.toNat
  room : 60 ≤ region.size

/-- The bytes of a buffer, and those that are in it. -/
def InBuffer (buffer : Word) (x : Nat) : Prop := ∃ i < 512, x = (buffer.toNat + i) % 2 ^ 32

def bufferBytes (m : Mem) (buffer : Word) : Sector := fun i => load8 m (buffer.toNat + i.val)

/-! ### The memory of the dispatcher -/

section

variable {S : SyscallSite} {c : Machine} {x : Nat}

/-- From an outer ring, the interrupt goes to the kernel's stack. -/
theorem esp_stubEntry_outer (h : 0 < c.cpl) :
    (stubEntry S c).regs .esp = S.inner.esp0 - 20 := by
  have hesp : (c.onGateStack syscallGateCs S.inner).regs .esp = S.inner.esp0 := by
    rw [Machine.onGateStack, if_pos (show syscallGateCs.toNat % 4 < c.cpl from h)]
    rfl
  rw [esp_stubEntry, hesp, gateFrame_outer c h]
  rfl

theorem mem_stubEntry (h : 0 < c.cpl) (hx : 20 ≤ Off (S.inner.esp0 - 20).toNat x) :
    (stubEntry S c).mem x = c.mem x := by
  have hgate : c.onGateStack syscallGateCs S.inner =
      { c.setSeg .ss S.inner.ss0 with toCpu := c.toCpu.set .esp S.inner.esp0 } :=
    if_pos (show syscallGateCs.toNat % 4 < c.cpl from h)
  have hlen : (gateFrame c).reverse.length = 5 := by
    rw [gateFrame_outer c h]
    rfl
  show ((c.onGateStack syscallGateCs S.inner).toCpu.pushAll (gateFrame c).reverse).mem x = _
  rw [hgate, pushAll_mem _ _ _ (by rw [hlen]; decide) (by rw [hlen]; exact hx)]
  rfl

/-- **The dispatcher sees the memory of its caller**, but for the 60 bytes that were pushed. -/
theorem mem_dispatcherCall (h : 0 < c.cpl) (hx : 60 ≤ Off (S.inner.esp0 - 60).toNat x) :
    (dispatcherCall S c).mem x = c.mem x := by
  have hesp := esp_stubEntry_outer (S := S) h
  have hpushes : (dispatcherCall S c).mem = ((stubEntry S c).toCpu.pushAll
      ((stubEntry S c).toCpu.pushaOrder ++
        [(stubEntry S c).regs .esp - 32, S.returnAddress])).mem := by
    rw [Cpu.pushAll, List.foldl_append, ← Cpu.pushAll, ← esp_pusha]
    rfl
  rw [hpushes, pushAll_mem _ _ _ (by simp), mem_stubEntry h]
  · simp only [Off] at hx ⊢
    bv_omega
  · rw [hesp]
    simp only [List.length_append, length_pushaOrder, List.length_cons, List.length_nil,
      Off] at hx ⊢
    bv_omega

theorem frameArgs_dispatcherCall (S : SyscallSite) (c : Machine) :
    frameArgs (dispatcherCall S c).mem (loadW (dispatcherCall S c).mem
      ((dispatcherCall S c).regs .esp + 4)) = ⟨c.regs .eax, c.regs .ecx, c.regs .edx⟩ := by
  have hargs := syscallArgs_entry (stubEntry S c).toCpu S.returnAddress
  rw [regs_stubEntry S c (by decide), regs_stubEntry S c (by decide),
    regs_stubEntry S c (by decide)] at hargs
  exact hargs

end

/-! ### The copy into a buffer -/

theorem load8_copyOutL (buffer : Nat) (sector : Sector) (m : Mem) (i : Fin 512) :
    load8 (copyOutL buffer sector m).val (buffer + i.val) = sector i := by
  have hrounds : ∀ (l : List (Fin 512)) (m : Mem),
      load8 (Logged.foldl (fun m j => store8L m (buffer + j.val) (sector j)) m l).val
        (buffer + i.val) = if i ∈ l then sector i else load8 m (buffer + i.val) := by
    intro l
    induction l with
    | nil => exact fun m => (if_neg List.not_mem_nil).symm
    | cons j l ih =>
      intro m
      rw [Logged.foldl, val_bind, ih]
      show (if i ∈ l then _ else load8 (store8 m (buffer + j.val) (sector j)) _) = _
      by_cases hl : i ∈ l
      · rw [if_pos hl, if_pos (List.mem_cons_of_mem j hl)]
      · by_cases hj : i = j
        · subst hj
          rw [if_neg hl, if_pos List.mem_cons_self, load8_store8_same]
        · have hne : i.val ≠ j.val := fun h => hj (Fin.ext h)
          have hnot : i ∉ j :: l := List.not_mem_cons_of_ne_of_not_mem hj hl
          rw [if_neg hl, if_neg hnot, load8_store8_ne _ _ (by omega)]
  rw [copyOutL, hrounds, if_pos (List.mem_finRange i)]

/-! ### The two calls -/

theorem sectors_ataWriteSector (lba : BitVec 32) (buffer : Sector) (d : Driver IdealDrive) :
    (ataWriteSector idealBus lba buffer d).dev.sectors =
      Function.update d.dev.sectors (lba.setWidth 28) buffer := by
  rw [ataWriteSector_ideal]

theorem ataReadSector_sectors (lba : BitVec 32) (d : Driver IdealDrive) :
    (ataReadSector idealBus lba d).1 = d.dev.sectors (lba.setWidth 28) ∧
      (ataReadSector idealBus lba d).2.dev.sectors = d.dev.sectors := by
  rw [ataReadSector_ideal]
  exact ⟨rfl, rfl⟩

/-- The machine of the program, and the driver with its drive. -/
structure UserSys where
  c : Machine
  driver : Driver IdealDrive

namespace UserSys

def sectors (s : UserSys) : BitVec 28 → Sector := s.driver.dev.sectors

end UserSys

section

variable (S : SyscallSite) (K : KernelStack S.inner)

/-- The call has been served: the dispatcher has returned, the stores of the source are done outside
of the stack of the kernel, and the stub has left. -/
def Served (s t : UserSys) : Prop :=
  ∃ rounds after, DispatcherReturned S s.c idealBus s.driver rounds after ∧
    (∀ x < 2 ^ 32, ¬ K.region.Contains x →
      after.mem x = (dispatcherStores S s.c idealBus s.driver rounds).val.1 x) ∧
    t = ⟨sysExecAll sysHandlerReturn after,
      (dispatcherStores S s.c idealBus s.driver rounds).val.2⟩

/-- The buffer keeps clear of the stack of the kernel. -/
def BufferApart {inner : InnerStack} (K : KernelStack inner) (buffer : Word) : Prop :=
  ∀ x, InBuffer buffer x → ¬ K.region.Contains x

variable {S K} {c : Machine} {s t : UserSys}

theorem dispatcherStores_write {δ : Type} {bus : Bus δ} {d : Driver δ} {rounds : Nat}
    (h : c.regs .eax = 3) : dispatcherStores S c bus d rounds =
      pure ((dispatcherCall S c).mem, ataWriteSector bus (c.regs .edx)
        (bufferBytes (dispatcherCall S c).mem (c.regs .ecx)) d) := by
  rw [dispatcherStores, runSyscallL, frameArgs_dispatcherCall, h]
  rfl

theorem dispatcherStores_read {δ : Type} {bus : Bus δ} {d : Driver δ} {rounds : Nat}
    (h : c.regs .eax = 4) : dispatcherStores S c bus d rounds =
      copyOutL (c.regs .ecx).toNat (ataReadSector bus (c.regs .edx) d).1
        (dispatcherCall S c).mem >>= fun m => pure (m, (ataReadSector bus (c.regs .edx) d).2) := by
  rw [dispatcherStores, runSyscallL, frameArgs_dispatcherCall, h]
  rfl

theorem dispatcherStores_other {δ : Type} {bus : Bus δ} {d : Driver δ} {rounds : Nat}
    (h3 : c.regs .eax ≠ 3) (h4 : c.regs .eax ≠ 4) :
    (dispatcherStores S c bus d rounds).val.2 = d := by
  rw [dispatcherStores, runSyscallL, frameArgs_dispatcherCall, syscallDispatcher]
  by_cases h1 : c.regs .eax = 1
  · rw [if_pos h1]
    rfl
  by_cases h2 : c.regs .eax = 2
  · rw [if_neg h1, if_pos h2]
    rfl
  · rw [if_neg h1, if_neg h2, if_neg h3, if_neg h4]
    rfl

/-- Outside of the kernel's stack the dispatcher sees what the program has. -/
theorem KernelStack.mem_eq (K : KernelStack S.inner) (hring : 0 < c.cpl) {x : Nat} (hx : x < 2 ^ 32)
    (hout : ¬ K.region.Contains x) : (dispatcherCall S c).mem x = c.mem x := by
  have htop := K.top
  have hroom := K.room
  have hlt := S.inner.esp0.isLt
  refine mem_dispatcherCall hring ?_
  by_contra hoff
  refine hout ?_
  simp only [Off, Region.Contains] at *
  bv_omega

theorem KernelStack.bufferBytes_eq (K : KernelStack S.inner) (hring : 0 < c.cpl) {buffer : Word}
    (hbuffer : BufferApart K buffer) :
    bufferBytes (dispatcherCall S c).mem buffer = bufferBytes c.mem buffer := by
  funext i
  rw [bufferBytes, bufferBytes, load8, load8]
  exact K.mem_eq hring (Nat.mod_lt _ (by decide)) (hbuffer _ ⟨i.val, i.isLt, rfl⟩)

theorem mem_sysHandlerReturn (after : Machine) :
    (sysExecAll sysHandlerReturn after).mem = after.mem := by
  have hrun : sysExecAll sysHandlerReturn after = (restored after).iret :=
    sysExecAll_append [.addImm .esp 4, .plain .popa] [.iret] after
  rw [hrun, Machine.iret]
  split
  · rfl
  · rfl

/-- **Call 3** puts the buffer into the drive. -/
theorem Served.write (h : Served S K s t) (hring : 0 < s.c.cpl) (hcall : s.c.regs .eax = 3)
    (hbuffer : BufferApart K (s.c.regs .ecx)) : t.sectors =
      Function.update s.sectors ((s.c.regs .edx).setWidth 28)
        (bufferBytes s.c.mem (s.c.regs .ecx)) := by
  obtain ⟨rounds, after, _, _, rfl⟩ := h
  rw [UserSys.sectors, UserSys.sectors, dispatcherStores_write hcall, val_pure]
  simp only
  rw [sectors_ataWriteSector, K.bufferBytes_eq hring hbuffer]

/-- **Call 4** brings a sector into the buffer. -/
theorem Served.read (h : Served S K s t) (hcall : s.c.regs .eax = 4)
    (hbuffer : BufferApart K (s.c.regs .ecx)) : t.sectors = s.sectors ∧
      bufferBytes t.c.mem (s.c.regs .ecx) = s.sectors ((s.c.regs .edx).setWidth 28) := by
  obtain ⟨rounds, after, _, hmem, rfl⟩ := h
  obtain ⟨hdata, hsectors⟩ := ataReadSector_sectors (s.c.regs .edx) s.driver
  rw [dispatcherStores_read hcall, val_bind, val_pure] at hmem ⊢
  simp only at hmem
  refine ⟨hsectors, ?_⟩
  funext i
  have hin : InBuffer (s.c.regs .ecx) (((s.c.regs .ecx).toNat + i.val) % 2 ^ 32) :=
    ⟨i.val, i.isLt, rfl⟩
  have hcopied := hmem _ (Nat.mod_lt _ (by decide)) (hbuffer _ hin)
  have hbyte := load8_copyOutL (s.c.regs .ecx).toNat
    (ataReadSector idealBus (s.c.regs .edx) s.driver).1 (dispatcherCall S s.c).mem i
  rw [bufferBytes]
  simp only
  rw [mem_sysHandlerReturn]
  exact hcopied.trans (hbyte.trans (congrFun hdata i))

/-! ### Runs -/

/-- What happens: the program goes on by itself, or there has been a call, with what the buffer held
before call 3 or after call 4. -/
inductive DiskOp
  | program
  | write (lba : Word) (data : Sector)
  | read (lba : Word) (data : Sector)
  | other

/-- The drive has 28 bits of the sector number. -/
def DiskOp.event : DiskOp → Event (BitVec 28) Sector
  | .program => .other
  | .write lba data => .write (lba.setWidth 28) data
  | .read lba data => .read (lba.setWidth 28) data
  | .other => .other

/-- The port gives any scancode. -/
inductive DiskStep (S : SyscallSite) (K : KernelStack S.inner) : UserSys → DiskOp → UserSys → Prop
  | program (s : UserSys) (c : Machine) : DiskStep S K s .program ⟨c, s.driver⟩
  | write {s t : UserSys} {scancode : Byte} (hring : 0 < s.c.cpl) (hcall : s.c.regs .eax = 3)
      (hbuffer : BufferApart K (s.c.regs .ecx)) (h : Served { S with scancode } K s t) :
      DiskStep S K s (.write (s.c.regs .edx) (bufferBytes s.c.mem (s.c.regs .ecx))) t
  | read {s t : UserSys} {scancode : Byte} (hring : 0 < s.c.cpl) (hcall : s.c.regs .eax = 4)
      (hbuffer : BufferApart K (s.c.regs .ecx)) (h : Served { S with scancode } K s t) :
      DiskStep S K s (.read (s.c.regs .edx) (bufferBytes t.c.mem (s.c.regs .ecx))) t
  | other {s t : UserSys} {scancode : Byte} (h3 : s.c.regs .eax ≠ 3) (h4 : s.c.regs .eax ≠ 4)
      (h : Served { S with scancode } K s t) : DiskStep S K s .other t

/-- A program that uses the calls. -/
def diskLts (S : SyscallSite) (K : KernelStack S.inner) : Lts UserSys DiskOp where
  init _ := True
  step := DiskStep S K

theorem Served.other (h : Served S K s t) (h3 : s.c.regs .eax ≠ 3) (h4 : s.c.regs .eax ≠ 4) :
    t.sectors = s.sectors := by
  obtain ⟨rounds, after, _, _, rfl⟩ := h
  rw [UserSys.sectors, UserSys.sectors, dispatcherStores_other h3 h4]

theorem stores_diskLts (S : SyscallSite) (K : KernelStack S.inner) :
    Stores (diskLts S K) DiskOp.event UserSys.sectors where
  step := by
    intro s a t h
    cases h with
    | program c => rfl
    | write hring hcall hbuffer h => exact h.write hring hcall hbuffer
    | read hring hcall hbuffer h => exact (h.read hcall hbuffer).1
    | other h3 h4 h =>
      exact h.other h3 h4
  read := by
    intro s a t h k v hread
    cases h with
    | program c => exact nomatch hread
    | write hring hcall hbuffer h => exact nomatch hread
    | read hring hcall hbuffer h =>
      obtain ⟨rfl, rfl⟩ := Event.read.inj hread
      exact (h.read hcall hbuffer).2.symm
    | other h3 h4 h => exact nomatch hread

end

/-- A dispatcher that has lost all registers but ESP. -/
def returnedMachine (S : SyscallSite) (s : UserSys) : Machine where
  regs r := if r = .esp then (dispatcherCall S s.c).regs .esp + 4 else 0
  eip := S.returnAddress
  mem := (dispatcherStores S s.c idealBus s.driver 0).val.1
  eflags := 2
  seg := (dispatcherCall S s.c).seg

theorem exists_served (S : SyscallSite) (K : KernelStack S.inner) (s : UserSys) :
    ∃ t, Served S K s t := by
  have hmem : ∀ x, (returnedMachine S s).mem x =
      (dispatcherStores S s.c idealBus s.driver 0).val.1 x := by
    intro x
    simp only [returnedMachine]
  have hesp : (returnedMachine S s).regs .esp = (dispatcherCall S s.c).regs .esp + 4 := by
    simp only [returnedMachine, if_true]
  have hseg : (returnedMachine S s).seg = (dispatcherCall S s.c).seg := by
    simp only [returnedMachine]
  generalize returnedMachine S s = after at *
  exact ⟨_, 0, after, ⟨hesp, hseg, fun x _ _ => hmem x⟩, fun x _ _ => hmem x, rfl⟩

/-- A call with the number `eax` for sector 7, with a buffer at `0x5000`. -/
def sectorCall (eax : Word) : Machine where
  regs
    | .eax => eax
    | .ecx => 0x5000
    | .edx => 7
    | _ => 0
  eip := 0x100000
  mem a := BitVec.ofNat 8 a
  eflags := 0x202
  seg _ := 0x1B

def smallStack : KernelStack printSite.inner := ⟨⟨0x8000, 0x1000⟩, rfl, by decide⟩

theorem bufferApart_sectorCall : BufferApart smallStack 0x5000 := by
  rintro x ⟨i, hi, rfl⟩ ⟨hlo, _⟩
  have hlow : 0x8000 ≤ (0x5000 + i) % 2 ^ 32 := hlo
  omega

theorem cpl_sectorCall (eax : Word) : (sectorCall eax).cpl = 3 := by
  show (0x1B : BitVec 16).toNat % 4 = 3
  decide

end Antagonist
