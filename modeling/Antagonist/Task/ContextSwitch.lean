import Antagonist.Lib.X86

/-!
# The routine `context_switch`

`context_switch` of `boot.s` on the machine of `Lib/X86.lean`.  It parks the
registers of the caller on the caller's stack, leaves the stack pointer in the
slot it was given, and takes the registers and the return address from the other
stack.

* `execAll_contextSwitch`: what it takes.
* `parkedMem_frame`, `parkedMem_stack`, `parkedMem_slot`: what it leaves.
-/

namespace Antagonist

open ByteMem X86

def contextSwitch : List Instr :=
  [.load .eax .esp 4, .load .edx .esp 8, .pusha, .store .eax .esp, .mov .esp .edx, .popa, .ret]

/-! ### The routine -/

section

variable (c : Cpu)

/-- The two arguments, as the caller has put them above the return address. -/
def oldEspSlotArg : Word := loadW c.mem (c.regs .esp + 4)
def newEspArg : Word := loadW c.mem (c.regs .esp + 8)

def withArgs : Cpu := (c.set .eax (oldEspSlotArg c)).set .edx (newEspArg c)

/-- Memory once the running thread is parked. -/
def parkedMem : Mem :=
  storeW ((withArgs c).pushAll (withArgs c).pushaOrder).mem (oldEspSlotArg c) (c.regs .esp - 32)

theorem regs_withArgs {r : Reg} (ha : r ≠ .eax) (hd : r ≠ .edx) :
    (withArgs c).regs r = c.regs r := by
  simp only [withArgs, regs_set, if_neg ha, if_neg hd]

/-- **The routine** takes everything from the stack it was given. -/
theorem execAll_contextSwitch : (execAll contextSwitch c).mem = parkedMem c ∧
    (execAll contextSwitch c).eip = loadW (parkedMem c) (newEspArg c + 32) ∧
    ∀ r, (execAll contextSwitch c).regs r = if r = .esp then newEspArg c + 36 else
      loadW (parkedMem c) (newEspArg c + pushaOffset r) := by
  have hslot : ((withArgs c).pushAll (withArgs c).pushaOrder).regs .eax = oldEspSlotArg c := by
    rw [regs_pushAll, if_neg (by decide)]
    rfl
  have hnew : ((withArgs c).pushAll (withArgs c).pushaOrder).regs .edx = newEspArg c := by
    rw [regs_pushAll, if_neg (by decide)]
    rfl
  have hesp : ((withArgs c).pushAll (withArgs c).pushaOrder).regs .esp = c.regs .esp - 32 :=
    esp_pusha (withArgs c)
  have hrun : execAll contextSwitch c = execAll [.store .eax .esp, .mov .esp .edx, .popa, .ret]
      ((withArgs c).pushAll (withArgs c).pushaOrder) := rfl
  have hmem : storeW ((withArgs c).pushAll (withArgs c).pushaOrder).mem (oldEspSlotArg c)
      (c.regs .esp - 32) = parkedMem c := rfl
  rw [hrun]
  simp only [execAll_cons, execAll_nil, exec, hslot, hnew, hesp, hmem]
  refine ⟨rfl, ?_, fun r => ?_⟩
  · simp only [Cpu.ret, regs_popa, if_pos]
    rfl
  · by_cases hr : r = .esp
    · subst hr
      simp only [Cpu.ret, regs_set, regs_popa, if_pos]
      bv_omega
    · simp only [Cpu.ret, regs_set, regs_popa, if_neg hr, if_pos]
      rfl

variable {c}

/-- Parking writes the stack below the stack pointer, and the slot. -/
theorem parkedMem_frame {x : Nat} (hx : x < 2 ^ 32) (hesp : 32 ≤ (c.regs .esp).toNat)
    (hslot : (oldEspSlotArg c).toNat + 4 ≤ 2 ^ 32)
    (hs : ¬ ((c.regs .esp).toNat - 32 ≤ x ∧ x < (c.regs .esp).toNat))
    (ht : ¬ ((oldEspSlotArg c).toNat ≤ x ∧ x < (oldEspSlotArg c).toNat + 4)) :
    parkedMem c x = c.mem x := by
  have hlen : (withArgs c).pushaOrder.length = 8 := rfl
  rw [parkedMem, storeW, store32_apply_out, pushAll_mem _ _ _ (by rw [hlen]; decide)]
  · rfl
  · rw [hlen, regs_withArgs c (by decide) (by decide)]
    simp only [Off]
    bv_omega
  · simp only [Off]
    omega

/-- **What parking leaves on the stack**, when the slot lies elsewhere. -/
theorem parkedMem_stack (hesp : 32 ≤ (c.regs .esp).toNat)
    (htop : (c.regs .esp).toNat + 4 ≤ 2 ^ 32) (hslot : (oldEspSlotArg c).toNat + 4 ≤ 2 ^ 32)
    (hs : (oldEspSlotArg c).toNat + 4 ≤ (c.regs .esp).toNat - 32 ∨
      (c.regs .esp).toNat + 4 ≤ (oldEspSlotArg c).toNat) :
    (∀ r, loadW (parkedMem c) (c.regs .esp - 32 + pushaOffset r) = (withArgs c).regs r) ∧
      loadW (parkedMem c) (c.regs .esp - 32 + 32) = loadW c.mem (c.regs .esp) := by
  refine ⟨fun r => ?_, ?_⟩
  · have hoff := pushaOffset_le r
    have hword := loadW_pusha (withArgs c) r
    rw [regs_withArgs c (r := .esp) (by decide) (by decide)] at hword
    rw [parkedMem, loadW_storeW_apart, hword]
    simp only [Apart]
    bv_omega
  · have hsp : c.regs .esp - 32 + 32 = c.regs .esp := by bv_omega
    rw [hsp]
    refine loadW_of_bytes (by omega) fun x h1 h2 => ?_
    exact parkedMem_frame (by omega) hesp hslot (by omega) (by omega)

theorem parkedMem_slot : load32 (parkedMem c) (oldEspSlotArg c).toNat
    = (c.regs .esp - 32).toNat := by
  rw [parkedMem, storeW, load32_store32_same _ _ (c.regs .esp - 32).isLt]

end

end Antagonist
