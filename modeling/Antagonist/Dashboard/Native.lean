import Antagonist.Dashboard.Loader
import Antagonist.Lib.X86

/-!
# The code that the loader runs

`execute_bounded_binary` of `src/loader.cpp` writes four bytes of machine code and calls them.  The
processor fetches them from the memory that they were written to, so the call comes back only as
long as its return address is not put on top of them.

* `fetchSteps_sled`: any number of NOPs and a RET.
* `native_returns`: **the call comes back**, and what it changes.
-/

namespace X86

open ByteMem

/-- The instruction at EIP, if it is a NOP or a RET. -/
def fetchStep (c : Cpu) : Option Cpu :=
  if load8 c.mem c.eip.toNat = 0x90 then some { c with eip := c.eip + 1 }
  else if load8 c.mem c.eip.toNat = 0xC3 then some c.ret
  else none

def fetchSteps : Nat → Cpu → Option Cpu
  | 0, c => some c
  | n + 1, c => (fetchStep c).bind (fetchSteps n)

/-- `call r`, with the address of the next instruction. -/
def Cpu.callReg (c : Cpu) (r : Reg) (next : Word) : Cpu := { c.push next with eip := c.regs r }

/-- So many NOPs from an address on, and a RET behind them. -/
structure Sled (m : Mem) (a : Word) (n : Nat) : Prop where
  nops : ∀ i < n, load8 m (a + BitVec.ofNat 32 i).toNat = 0x90
  ret : load8 m (a + BitVec.ofNat 32 n).toNat = 0xC3

/-- **A sled returns** to the address on the stack, with nothing else done. -/
theorem fetchSteps_sled {c : Cpu} {n : Nat} (h : Sled c.mem c.eip n) :
    fetchSteps (n + 1) c = some c.ret := by
  induction n generalizing c with
  | zero =>
    have hret : load8 c.mem c.eip.toNat = 0xC3 := by
      have hlast := h.ret
      rwa [BitVec.add_zero] at hlast
    rw [fetchSteps, fetchStep, hret, if_neg (by decide), if_pos rfl]
    rfl
  | succ n ih =>
    have hnop : load8 c.mem c.eip.toNat = 0x90 := by
      have hfirst := h.nops 0 (Nat.succ_pos n)
      rwa [BitVec.add_zero] at hfirst
    have hnext : ∀ i, c.eip + 1 + BitVec.ofNat 32 i = c.eip + BitVec.ofNat 32 (i + 1) := by
      intro i
      rw [BitVec.add_assoc, Nat.add_comm i, BitVec.ofNat_add]
      rfl
    have hrest : Sled { c with eip := c.eip + 1 }.mem { c with eip := c.eip + 1 }.eip n := by
      refine ⟨?_, ?_⟩
      · intro i hi
        show load8 c.mem (c.eip + 1 + BitVec.ofNat 32 i).toNat = 0x90
        rw [hnext]
        exact h.nops (i + 1) (Nat.succ_lt_succ hi)
      · show load8 c.mem (c.eip + 1 + BitVec.ofNat 32 n).toNat = 0xC3
        rw [hnext]
        exact h.ret
    rw [fetchSteps, fetchStep, hnop, if_pos rfl, Option.bind_some, ih hrest]
    rfl

/-- The sled lies apart from the word at `b`. -/
def Clear (a b : Word) (n : Nat) : Prop := ∀ i ≤ n, 4 ≤ Off b.toNat (a + BitVec.ofNat 32 i).toNat

theorem load8_storeW_out (m : Mem) {a x : Word} (v : Word) (h : 4 ≤ Off a.toNat x.toNat) :
    load8 (storeW m a v) x.toNat = load8 m x.toNat := by
  have hlt := x.isLt
  rw [load8, load8, storeW, Nat.mod_eq_of_lt hlt, store32_apply_out _ _ h]

/-- **A call of a sled** comes back with all registers, and a word changed below the stack. -/
theorem fetchSteps_call {c : Cpu} {r : Reg} {n : Nat} (next : Word) (h : Sled c.mem (c.regs r) n)
    (hclear : Clear (c.regs r) (c.regs .esp - 4) n) : fetchSteps (n + 1) (c.callReg r next) =
      some { c with eip := next, mem := storeW c.mem (c.regs .esp - 4) next } := by
  have hsled : Sled (c.callReg r next).mem (c.callReg r next).eip n := by
    refine ⟨?_, ?_⟩
    · intro i hi
      exact (load8_storeW_out _ next (hclear i hi.le)).trans (h.nops i hi)
    · exact (load8_storeW_out _ next (hclear n le_rfl)).trans h.ret
  have hesp : (c.callReg r next).regs .esp = c.regs .esp - 4 := rfl
  have hmem : (c.callReg r next).mem = storeW c.mem (c.regs .esp - 4) next := rfl
  rw [fetchSteps_sled hsled, Cpu.ret, hesp, hmem, loadW_storeW_same]
  have hregs : ((c.callReg r next).set .esp (c.regs .esp - 4 + 4)).regs = c.regs := by
    funext q
    rw [regs_set]
    by_cases hq : q = .esp
    · rw [if_pos hq, hq, BitVec.sub_add_cancel]
    · rw [if_neg hq]
      exact if_neg hq
  show some (⟨((c.callReg r next).set .esp (c.regs .esp - 4 + 4)).regs, next, _⟩ : Cpu) = _
  rw [hregs]
  rfl

end X86

namespace Antagonist

open ByteMem X86

/-- The bytes that are written to `execution_sandbox_segment`. -/
def bakeNative (segment : Word) (m : Mem) : Mem :=
  store8 (store8 (store8 (store8 m segment.toNat 0x90) (segment + 1).toNat 0x90)
    (segment + 2).toNat 0x90) (segment + 3).toNat 0xC3

/-- `execute_bounded_binary` from its first store into the segment up to the end of the `asm`.  The
address behind the `call` is `next`. -/
def callNative (c : Cpu) (segment next : Word) : Option Cpu :=
  fetchSteps 4 (({ c with mem := bakeNative segment c.mem }.set .eax segment).callReg .eax next)

theorem load8_bake_ne (m : Mem) {a x : Word} (b : Byte) (h : x ≠ a) :
    load8 (store8 m a.toNat b) x.toNat = load8 m x.toNat := by
  refine load8_store8_ne m b ?_
  rw [Nat.mod_eq_of_lt x.isLt, Nat.mod_eq_of_lt a.isLt]
  exact fun heq => h (BitVec.eq_of_toNat_eq heq)

theorem sled_bakeNative (segment : Word) (m : Mem) : Sled (bakeNative segment m) segment 3 := by
  have h01 : segment + 0 ≠ segment + 1 := by bv_omega
  have h02 : segment + 0 ≠ segment + 2 := by bv_omega
  have h03 : segment + 0 ≠ segment + 3 := by bv_omega
  have h12 : segment + 1 ≠ segment + 2 := by bv_omega
  have h13 : segment + 1 ≠ segment + 3 := by bv_omega
  have h23 : segment + 2 ≠ segment + 3 := by bv_omega
  refine ⟨?_, load8_store8_same _ _ _⟩
  intro i hi
  match i, hi with
  | 0, _ =>
    refine (load8_bake_ne _ _ h03).trans ((load8_bake_ne _ _ h02).trans
      ((load8_bake_ne _ _ h01).trans ?_))
    have hself : segment + 0 = segment := by bv_omega
    rw [hself]
    exact load8_store8_same _ _ _
  | 1, _ =>
    exact (load8_bake_ne _ _ h13).trans ((load8_bake_ne _ _ h12).trans (load8_store8_same _ _ _))
  | 2, _ => exact (load8_bake_ne _ _ h23).trans (load8_store8_same _ _ _)

/-- **The call comes back**, to the instruction behind it and with all registers but EAX, when the
return address does not lie on the four bytes.  Besides them only its own word has changed. -/
theorem native_returns (c : Cpu) (segment next : Word)
    (hclear : Clear segment (c.regs .esp - 4) 3) : callNative c segment next =
      some { c.set .eax segment with
        eip := next
        mem := storeW (bakeNative segment c.mem) (c.regs .esp - 4) next } := by
  generalize hbaked : bakeNative segment c.mem = m
  have hsled : Sled m segment 3 := hbaked ▸ sled_bakeNative segment c.mem
  have heax : (({ c with mem := m } : Cpu).set .eax segment).regs .eax = segment := by
    rw [regs_set, if_pos rfl]
  have hesp : (({ c with mem := m } : Cpu).set .eax segment).regs .esp = c.regs .esp := by
    rw [regs_set, if_neg (by decide)]
  have hmem : (({ c with mem := m } : Cpu).set .eax segment).mem = m := rfl
  rw [callNative, hbaked]
  generalize hcpu : ({ c with mem := m } : Cpu).set .eax segment = c' at heax hesp hmem
  rw [fetchSteps_call next (by rw [hmem, heax]; exact hsled) (by rw [heax, hesp]; exact hclear),
    hesp, hmem, ← hcpu]
  rfl

/-- A processor that is about to run the code, with its stack at `0x107000`. -/
def nativeCpu : Cpu := ⟨fun _ => 0x107000, 0x101000, fun _ => 0⟩

theorem native_returns_above : callNative nativeCpu 0x102000 0x101004 =
    some { nativeCpu.set .eax 0x102000 with
      eip := 0x101004
      mem := storeW (bakeNative 0x102000 nativeCpu.mem) (nativeCpu.regs .esp - 4) 0x101004 } := by
  refine native_returns _ _ _ ?_
  intro i hi
  simp only [Off, nativeCpu]
  bv_omega

end Antagonist
