import Antagonist.Lib.X86

/-!
# Interrupts of the 32-bit x86

The machine of `Lib.X86` with its flags and segment registers: an interrupt pushes a frame,
on the stack of the inner ring if it comes from an outer one, and `iret` pops it again.
Protected mode only: no nested tasks, no virtual 8086 mode.

`HoldsFrame m sp vs` says that the words `vs` lie in `m` from `sp` upwards, in the order in
which they are popped.

* `holdsFrame_pushAll`: what a row of pushes leaves.
* `iret_inner`, `iret_outer`: what `iret` does with a frame, within the ring and out of it.
-/

namespace X86

open ByteMem

inductive SegReg
  | cs | ss | ds | es | fs | gs
  deriving DecidableEq

structure Machine extends Cpu where
  eflags : Word
  seg : SegReg → BitVec 16

namespace Machine

def cpl (c : Machine) : Nat := (c.seg .cs).toNat % 4

def setSeg (c : Machine) (s : SegReg) (v : BitVec 16) : Machine :=
  { c with seg := fun s' => if s' = s then v else c.seg s' }

/-- `iret`.  On the way to an outer ring the stack is popped too. -/
def iret (c : Machine) : Machine :=
  let sp := c.regs .esp
  let newCs := (loadW c.mem (sp + 4)).setWidth 16
  let back : Machine :=
    { c.setSeg .cs newCs with eip := loadW c.mem sp, eflags := loadW c.mem (sp + 8) }
  if c.cpl < newCs.toNat % 4 then
    { back.setSeg .ss ((loadW c.mem (sp + 16)).setWidth 16) with
      toCpu := back.toCpu.set .esp (loadW c.mem (sp + 12)) }
  else { back with toCpu := back.toCpu.set .esp (sp + 12) }

end Machine

/-- What system code needs besides. -/
inductive SysInstr
  | plain (i : Instr)
  | cli
  /-- `mov dst, v`, on the low half of the register -/
  | movImm16 (dst : Reg) (v : BitVec 16)
  /-- `mov dst, src`, from the low half of the register -/
  | movSeg (dst : SegReg) (src : Reg)
  /-- `push v` -/
  | pushImm (v : Word)
  /-- `add dst, v` -/
  | addImm (dst : Reg) (v : Word)
  | iret

def flagIf : Word := 0x200

def sysExec : SysInstr → Machine → Machine
  | .plain i, c => { c with toCpu := exec i c.toCpu }
  | .cli, c => { c with eflags := c.eflags &&& ~~~flagIf }
  | .movImm16 dst v, c =>
      { c with toCpu := c.toCpu.set dst ((c.regs dst &&& 0xFFFF0000) ||| v.setWidth 32) }
  | .movSeg dst src, c => c.setSeg dst ((c.regs src).setWidth 16)
  | .pushImm v, c => { c with toCpu := c.toCpu.push v }
  | .addImm dst v, c => { c with toCpu := c.toCpu.set dst (c.regs dst + v) }
  | .iret, c => c.iret

def sysExecAll (is : List SysInstr) (c : Machine) : Machine := is.foldl (fun c i => sysExec i c) c

/-- The flags that an interrupt gate clears: TF, IF, NT, RF and VM. -/
def gateFlags : Word := 0x34300

/-- The stack that the task state segment names. -/
structure InnerStack where
  ss0 : BitVec 16
  esp0 : Word

namespace Machine

/-- The frame of an interrupt, lowest address first. -/
def interruptFrame (c : Machine) (gateCs : BitVec 16) (next : Word) : List Word :=
  let frame := [next, (c.seg .cs).setWidth 32, c.eflags]
  if gateCs.toNat % 4 < c.cpl then frame ++ [c.regs .esp, (c.seg .ss).setWidth 32] else frame

/-- The machine on the stack that an interrupt is taken on. -/
def onGateStack (c : Machine) (gateCs : BitVec 16) (inner : InnerStack) : Machine :=
  if gateCs.toNat % 4 < c.cpl then
    { c.setSeg .ss inner.ss0 with toCpu := c.toCpu.set .esp inner.esp0 }
  else c

/-- An interrupt through a gate with the selector `gateCs` and the offset `handler`. -/
def interrupt (c : Machine) (gateCs : BitVec 16) (handler : Word) (inner : InnerStack)
    (next : Word) : Machine :=
  let onStack := c.onGateStack gateCs inner
  let pushed := onStack.toCpu.pushAll (c.interruptFrame gateCs next).reverse
  { onStack.setSeg .cs gateCs with
    toCpu := { pushed with eip := handler }
    eflags := c.eflags &&& ~~~gateFlags }

end Machine

theorem sysExecAll_append (is js : List SysInstr) (c : Machine) :
    sysExecAll (is ++ js) c = sysExecAll js (sysExecAll is c) := List.foldl_append

theorem sysExecAll_iret (c : Machine) : sysExecAll [.iret] c = c.iret := rfl

/-! ### Frames on the stack -/

/-- The words `vs` lie from `sp` upwards. -/
def HoldsFrame (m : Mem) (sp : Word) (vs : List Word) : Prop :=
  ∀ i (hi : i < vs.length), loadW m (sp + BitVec.ofNat 32 (4 * i)) = vs[i]

theorem holdsFrame_nil (m : Mem) (sp : Word) : HoldsFrame m sp [] := by
  intro i hi
  exact absurd hi (Nat.not_lt_zero i)

theorem HoldsFrame.cons_iff {m : Mem} {sp v : Word} {vs : List Word} :
    HoldsFrame m sp (v :: vs) ↔ loadW m sp = v ∧ HoldsFrame m (sp + 4) vs := by
  have hnext : ∀ i, sp + BitVec.ofNat 32 (4 * (i + 1)) = sp + 4 + BitVec.ofNat 32 (4 * i) := by
    intro i
    bv_omega
  have hzero : sp + BitVec.ofNat 32 (4 * 0) = sp := BitVec.add_zero sp
  refine ⟨?_, ?_⟩
  · intro h
    refine ⟨?_, fun i hi => ?_⟩
    · have h0 := h 0 (Nat.zero_lt_succ _)
      rwa [hzero, List.getElem_cons_zero] at h0
    · have hi' := h (i + 1) (Nat.succ_lt_succ hi)
      rwa [hnext, List.getElem_cons_succ] at hi'
  · rintro ⟨h0, h⟩ i hi
    cases i with
    | zero =>
      rw [hzero, List.getElem_cons_zero]
      exact h0
    | succ i =>
      rw [hnext, List.getElem_cons_succ]
      exact h i (Nat.lt_of_succ_lt_succ hi)

theorem HoldsFrame.append_iff {m : Mem} {sp : Word} {vs ws : List Word} :
    HoldsFrame m sp (vs ++ ws) ↔
      HoldsFrame m sp vs ∧ HoldsFrame m (sp + BitVec.ofNat 32 (4 * vs.length)) ws := by
  induction vs generalizing sp with
  | nil =>
    have hzero : sp + BitVec.ofNat 32 (4 * ([] : List Word).length) = sp := BitVec.add_zero sp
    rw [List.nil_append, hzero, and_iff_right (holdsFrame_nil m sp)]
  | cons v vs ih =>
    have hnext : sp + 4 + BitVec.ofNat 32 (4 * vs.length) =
        sp + BitVec.ofNat 32 (4 * (v :: vs).length) := by
      rw [List.length_cons]
      bv_omega
    rw [List.cons_append, HoldsFrame.cons_iff, HoldsFrame.cons_iff, ih, hnext, and_assoc]

/-- **A row of pushes** leaves its words on the stack, the last one on top. -/
theorem holdsFrame_pushAll (c : Cpu) (vs : List Word) (hlen : 4 * vs.length ≤ 2 ^ 32) :
    HoldsFrame (c.pushAll vs.reverse).mem (c.regs .esp - BitVec.ofNat 32 (4 * vs.length)) vs := by
  intro i hi
  have hpush := loadW_pushAll vs.reverse c (vs.length - 1 - i)
    (by rw [List.length_reverse]; omega) (by rw [List.length_reverse]; exact hlen)
  rw [List.getElem_reverse] at hpush
  have hindex : vs.length - 1 - (vs.length - 1 - i) = i := by omega
  have haddr : c.regs .esp - BitVec.ofNat 32 (4 * vs.length) + BitVec.ofNat 32 (4 * i) =
      c.regs .esp - BitVec.ofNat 32 (4 * (vs.length - 1 - i + 1)) := by
    bv_omega
  simp only [hindex] at hpush
  rw [haddr, hpush]

theorem HoldsFrame.of_bytes {m m' : Mem} {sp : Word} {vs : List Word} (h : HoldsFrame m sp vs)
    (hlen : 4 * vs.length ≤ 2 ^ 32)
    (hsame : ∀ x < 2 ^ 32, Off sp.toNat x < 4 * vs.length → m' x = m x) : HoldsFrame m' sp vs := by
  intro i hi
  rw [← h i hi, loadW, loadW]
  congr 1
  refine load32_congr ?_
  intro j hj
  rw [load8, load8]
  apply hsame _ (Nat.mod_lt _ (by decide))
  simp only [Off]
  bv_omega

theorem HoldsFrame.store {m : Mem} {sp : Word} {vs : List Word} (h : HoldsFrame m sp vs)
    (hlen : 4 * vs.length ≤ 2 ^ 32) {k : Nat} (hk : k < vs.length) (v : Word) :
    HoldsFrame (storeW m (sp + BitVec.ofNat 32 (4 * k)) v) sp (vs.set k v) := by
  intro i hi
  rw [List.length_set] at hi
  by_cases hik : k = i
  · subst hik
    rw [loadW_storeW_same, List.getElem_set_self]
  · rw [loadW_storeW_apart, h i hi, List.getElem_set_ne hik]
    unfold Apart
    bv_omega

/-! ### `popa` -/

/-- The registers in the order in which `popa` reads them. -/
def popIndex : Reg → Nat
  | .edi => 0
  | .esi => 1
  | .ebp => 2
  | .esp => 3
  | .ebx => 4
  | .edx => 5
  | .ecx => 6
  | .eax => 7

theorem popIndex_lt (r : Reg) : popIndex r < 8 := by
  cases r <;> decide

theorem pushaOffset_eq (r : Reg) : pushaOffset r = BitVec.ofNat 32 (4 * popIndex r) := by
  cases r <;> rfl

/-- **`popa` on a frame.** -/
theorem regs_popa_of_frame {c : Cpu} {vs : List Word} (hlen : vs.length = 8)
    (h : HoldsFrame c.mem (c.regs .esp) vs) (r : Reg) : c.popa.regs r =
      if r = .esp then c.regs .esp + 32 else vs.get ⟨popIndex r, hlen ▸ popIndex_lt r⟩ := by
  rw [regs_popa, pushaOffset_eq, h (popIndex r) (hlen ▸ popIndex_lt r), List.get_eq_getElem]

/-! ### `iret` -/

section

variable {c : Machine} {eip cs eflags esp ss : Word}

/-- **Back within the ring.** -/
theorem iret_inner (h : HoldsFrame c.mem (c.regs .esp) [eip, cs, eflags])
    (hring : ¬ c.cpl < (cs.setWidth 16).toNat % 4) :
    c.iret = { c.setSeg .cs (cs.setWidth 16) with
      toCpu := { c.toCpu.set .esp (c.regs .esp + 12) with eip := eip }
      eflags := eflags } := by
  simp only [HoldsFrame.cons_iff] at h
  obtain ⟨heip, hcs, hflags, -⟩ := h
  have h8 : c.regs .esp + 4 + 4 = c.regs .esp + 8 := by bv_omega
  rw [h8] at hflags
  simp only [Machine.iret, heip, hcs, hflags]
  rw [if_neg hring]
  rfl

/-- **Out to an outer ring.** -/
theorem iret_outer (h : HoldsFrame c.mem (c.regs .esp) [eip, cs, eflags, esp, ss])
    (hring : c.cpl < (cs.setWidth 16).toNat % 4) :
    c.iret = { (c.setSeg .cs (cs.setWidth 16)).setSeg .ss (ss.setWidth 16) with
      toCpu := { c.toCpu.set .esp esp with eip := eip }
      eflags := eflags } := by
  simp only [HoldsFrame.cons_iff] at h
  obtain ⟨heip, hcs, hflags, hesp, hss, -⟩ := h
  have h8 : c.regs .esp + 4 + 4 = c.regs .esp + 8 := by bv_omega
  have h12 : c.regs .esp + 8 + 4 = c.regs .esp + 12 := by bv_omega
  have h16 : c.regs .esp + 12 + 4 = c.regs .esp + 16 := by bv_omega
  rw [h8] at hflags hesp hss
  rw [h12] at hesp hss
  rw [h16] at hss
  simp only [Machine.iret, heip, hcs, hflags, hesp, hss]
  rw [if_pos hring]
  rfl

end

end X86
