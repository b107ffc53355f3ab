import Antagonist.Lib.X86

/-!
# The system call gate

`int 0x80` lands in `sys_handler_stub` of `boot.s`, which saves the registers
with `pusha` and passes the stack pointer to `syscall_dispatcher` of
`kernel.cpp`.  The dispatcher picks its arguments out of the saved registers by
index.

Counted from the lowest address, `pusha` leaves EDI, ESI, EBP, ESP, EBX, EDX,
ECX, EAX.  So `registers[7]` is EAX, but `registers[6]` and `registers[5]` are
ECX and EDX, where the header comment says EBX and ECX (`syscallArgs_entry`).
-/

namespace Antagonist

open ByteMem X86

/-- `sys_handler_stub` up to its call. -/
def sysHandlerStub : List Instr := [.pusha, .push .esp]

/-- The machine as `syscall_dispatcher` is entered, from the machine `c` with
which the stub began. -/
def dispatcherEntry (c : Cpu) (returnAddress : Word) : Cpu :=
  (execAll sysHandlerStub c).push returnAddress

/-- The dispatcher's locals. -/
structure SyscallArgs where
  syscallNumber : Word
  arg1 : Word
  arg2 : Word

/-- `registers[i]`. -/
def savedRegister (m : Mem) (registers : Word) (i : Nat) : Word :=
  loadW m (registers + BitVec.ofNat 32 (4 * i))

/-- What the dispatcher reads.  Its parameter lies just above the return
address. -/
def syscallArgs (c : Cpu) : SyscallArgs :=
  let registers := loadW c.mem (c.regs .esp + 4)
  { syscallNumber := savedRegister c.mem registers 7
    arg1 := savedRegister c.mem registers 6
    arg2 := savedRegister c.mem registers 5 }

inductive SyscallRequest
  | printString (row textBuffer : Word)
  | queryPort
  | writeSector (targetLbaSector sourceBuffer : Word)
  | readSector (targetLbaSector destinationBuffer : Word)
  | unknown
  deriving DecidableEq

/-- The branches of `syscall_dispatcher`. -/
def syscallDispatcher (a : SyscallArgs) : SyscallRequest :=
  if a.syscallNumber = 1 then .printString a.arg2 a.arg1
  else if a.syscallNumber = 2 then .queryPort
  else if a.syscallNumber = 3 then .writeSector a.arg2 a.arg1
  else if a.syscallNumber = 4 then .readSector a.arg2 a.arg1
  else .unknown

section

variable (c : Cpu) (returnAddress : Word)

/-- The dispatcher is passed the address of the saved registers. -/
theorem registers_entry :
    loadW (dispatcherEntry c returnAddress).mem ((dispatcherEntry c returnAddress).regs .esp + 4)
      = c.regs .esp - 32 := by
  have hframe := esp_pusha c
  have hesp : (dispatcherEntry c returnAddress).regs .esp = c.regs .esp - 32 - 4 - 4 := by
    rw [← hframe]
    rfl
  have harg : (dispatcherEntry c returnAddress).regs .esp + 4
      = (c.pushAll c.pushaOrder).regs .esp - BitVec.ofNat 32 (4 * (0 + 1)) := by
    rw [hesp, hframe]
    bv_omega
  rw [harg]
  have hpush := loadW_pushAll [c.regs .esp - 32, returnAddress] (c.pushAll c.pushaOrder) 0
    (by simp) (by simp)
  rw [List.getElem_cons_zero] at hpush
  rw [← hpush, ← hframe]
  rfl

/-- **The saved registers**, the last one pushed first. -/
theorem savedRegister_entry {i : Nat} (hi : i < 8) :
    savedRegister (dispatcherEntry c returnAddress).mem (c.regs .esp - 32) i
      = c.pushaOrder.get ⟨7 - i, by show 7 - i < 8; omega⟩ := by
  have hframe := esp_pusha c
  have hmem : (dispatcherEntry c returnAddress).mem = ((c.pushAll c.pushaOrder).pushAll
      [(c.pushAll c.pushaOrder).regs .esp, returnAddress]).mem := rfl
  rw [savedRegister, hmem, loadW_pushAll_apart (by simp)]
  · have hword := loadW_pushAll c.pushaOrder c (7 - i) (by show 7 - i < 8; omega) (by simp)
    rw [List.get_eq_getElem, ← hword]
    congr 1
    bv_omega
  · rw [hframe]
    simp only [List.length_cons, List.length_nil]
    bv_omega
  · rw [hframe]
    simp only [List.length_cons, List.length_nil]
    bv_omega

/-- **What the dispatcher gets**: EAX, ECX and EDX. -/
theorem syscallArgs_entry :
    syscallArgs (dispatcherEntry c returnAddress) = ⟨c.regs .eax, c.regs .ecx, c.regs .edx⟩ := by
  rw [syscallArgs, registers_entry]
  rw [savedRegister_entry c returnAddress (by decide : 7 < 8),
    savedRegister_entry c returnAddress (by decide : 6 < 8),
    savedRegister_entry c returnAddress (by decide : 5 < 8)]
  rfl

/-- The caller's registers, where the header comment of the dispatcher puts them. -/
def promisedArgs (c : Cpu) : SyscallArgs := ⟨c.regs .eax, c.regs .ebx, c.regs .ecx⟩

/-- **The dispatcher gets what its header promises** exactly when the caller has
put the text pointer in ECX too, and the row in EDX too. -/
theorem syscall_abi_iff : syscallArgs (dispatcherEntry c returnAddress) = promisedArgs c ↔
    c.regs .ebx = c.regs .ecx ∧ c.regs .ecx = c.regs .edx := by
  rw [syscallArgs_entry, promisedArgs, SyscallArgs.mk.injEq]
  exact ⟨fun h => ⟨h.2.1.symm, h.2.2.symm⟩, fun h => ⟨rfl, h.1.symm, h.2.symm⟩⟩

end

/-- A call to write sector 7 from the buffer at `0x9000`. -/
def writeSectorCall : Cpu where
  regs
    | .eax => 3
    | .ebx => 0x9000
    | .ecx => 7
    | .edx => 2
    | .esp => 0x8000
    | _ => 0
  eip := 0
  mem := fun _ => 0

/-- It writes sector 2, from address 7. -/
theorem not_syscall_abi : syscallDispatcher (syscallArgs (dispatcherEntry writeSectorCall 0x100000))
      = .writeSector 2 7 ∧
    ¬ ∀ (c : Cpu) (returnAddress : Word),
      syscallArgs (dispatcherEntry c returnAddress) = promisedArgs c := by
  have hargs := syscallArgs_entry writeSectorCall 0x100000
  refine ⟨by rw [hargs]; rfl, ?_⟩
  intro hall
  have hbad := (hall writeSectorCall 0x100000).symm.trans hargs
  have harg1 := congrArg SyscallArgs.arg1 hbad
  exact absurd harg1 (by decide)

end Antagonist
