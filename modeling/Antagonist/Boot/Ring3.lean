import Antagonist.Boot.Gdt
import Antagonist.Lib.Interrupt

/-!
# The way to ring 3

`jump_to_ring3` of `boot.s` builds the frame of an interrupt from ring 3 that never was, and
leaves with `iret`.  The entry point is its argument, which it reads after four
pushes: at `esp + 24`, where `esp + 20` is the argument and `esp + 24` is the word above
it.

* `sysExecAll_jumpToRing3`: where `iret` goes.
* `select_user`: the two segments of ring 3, as the processor reads them.
-/

namespace Antagonist

open ByteMem Segment X86

def jumpToRing3 : List SysInstr :=
  [.cli, .movImm16 .eax 0x23, .movSeg .ds .eax, .movSeg .es .eax, .movSeg .fs .eax,
    .movSeg .gs .eax, .pushImm 0x23, .pushImm 0x000E0000, .pushImm 0x202, .pushImm 0x1B,
    .plain (.load .eax .esp 24), .plain (.push .eax), .iret]

/-- The table in memory is the one that `init_gdt` has built. -/
def GdtBuilt (L : GdtLayout) (m : Mem) : Prop :=
  ∃ m₀, ∀ i < 48, load8 m (L.gdt + i) = load8 (initGdt L m₀) (L.gdt + i)

/-- A present segment of ring 3 that is all of the memory. -/
def FlatUser (d : Descriptor) : Prop :=
  d.present = true ∧ d.dpl = 3 ∧ d.base = 0 ∧ d.lastByte = 2 ^ 32 - 1

def FrameOffTable (L : GdtLayout) (c : Machine) : Prop :=
  ∀ i < 48, 20 ≤ Off (c.regs .esp - 20).toNat (L.gdt + i)

/-- From the call `c` of `jump_to_ring3(entry)`, the machine `c'` has come to ring 3. -/
structure HandedOver (L : GdtLayout) (c : Machine) (entry : Word) (c' : Machine) : Prop where
  eip : c'.eip = entry
  cs : c'.seg .cs = 0x1B
  ss : c'.seg .ss = 0x23
  code : FlatUser (select c.mem L.gdt 0x1B) ∧ (select c.mem L.gdt 0x1B).isCode = true
  data : FlatUser (select c.mem L.gdt 0x23) ∧ (select c.mem L.gdt 0x23).isWritableData = true
  table : FrameOffTable L c → ∀ i < 48, load8 c'.mem (L.gdt + i) = load8 c.mem (L.gdt + i)
  esp : c'.regs .esp = 0x000E0000
  interrupts : c'.eflags &&& flagIf = flagIf
  ioplZero : iopl c'.eflags.toNat = 0

/-! ### The segments -/

/-- **The segments of ring 3.** -/
theorem select_user {L : GdtLayout} {m : Mem} (h : GdtBuilt L m) :
    select m L.gdt 0x1B = ⟨0, 0xFFFFF, 0xFA, 0xC0⟩ ∧
      select m L.gdt 0x23 = ⟨0, 0xFFFFF, 0xF2, 0xC0⟩ := by
  obtain ⟨m₀, hm⟩ := h
  have hread : ∀ k : Fin 6, readDescriptor m (L.gdt + 8 * k) =
      ((initGdtCalls L).get k).descriptor := by
    intro k
    have hsame : readDescriptor m (L.gdt + 8 * k) = readDescriptor (initGdt L m₀) (L.gdt + 8 * k) := by
      refine readDescriptor_congr ?_
      intro i hi
      rw [Nat.add_assoc]
      exact hm (8 * k + i) (by omega)
    rw [hsame, readDescriptor_initGdt L m₀ k.isLt, gatesDone, readDescriptor_initGates]
  have hcode : (⟨3, 0, 0xFFFFFFFF, 0xFA, 0xCF⟩ : GdtCall).descriptor = ⟨0, 0xFFFFF, 0xFA, 0xC0⟩ := by
    decide
  have hdata : (⟨4, 0, 0xFFFFFFFF, 0xF2, 0xCF⟩ : GdtCall).descriptor = ⟨0, 0xFFFFF, 0xF2, 0xC0⟩ := by
    decide
  exact ⟨(hread 3).trans hcode, (hread 4).trans hdata⟩

/-! ### The routine -/

/-- The frame that `iret` pops. -/
def ring3Frame (entry : Word) : List Word := [entry, 0x1B, 0x202, 0x000E0000, 0x23]

/-- The registers and the memory after the segment registers are set. -/
def segmentsSet (c : Machine) : Cpu := c.toCpu.set .eax ((c.regs .eax &&& 0xFFFF0000) ||| 0x23)

/-- **The argument offset**: with four words pushed, `esp + 24` is two words above the return
address. -/
theorem entry_read (c : Machine) :
    loadW ((segmentsSet c).pushAll [0x23, 0x000E0000, 0x202, 0x1B]).mem (c.regs .esp - 16 + 24) =
      loadW c.mem (c.regs .esp + 8) := by
  have hesp : (segmentsSet c).regs .esp = c.regs .esp := rfl
  have haddr : c.regs .esp - 16 + 24 = c.regs .esp + 8 := by bv_omega
  have hlen : [0x23, 0x000E0000, 0x202, (0x1B : Word)].length = 4 := rfl
  rw [haddr, loadW_pushAll_apart (by decide)]
  · rfl
  · rw [hesp, hlen]
    bv_omega
  · rw [hesp, hlen]
    bv_omega

def beforeIret (c : Machine) : Machine := sysExecAll jumpToRing3.dropLast c

theorem beforeIret_cs (c : Machine) : (beforeIret c).cpl = c.cpl := rfl

theorem beforeIret_esp (c : Machine) : (beforeIret c).regs .esp = c.regs .esp - 20 := by
  show c.regs .esp - 4 - 4 - 4 - 4 - 4 = _
  bv_omega

theorem beforeIret_mem (c : Machine) : (beforeIret c).mem =
    ((segmentsSet c).pushAll (ring3Frame (loadW c.mem (c.regs .esp + 8))).reverse).mem := by
  have hesp : ((segmentsSet c).pushAll [0x23, 0x000E0000, 0x202, 0x1B]).regs .esp =
      c.regs .esp - 16 := by
    rw [regs_pushAll, if_pos rfl]
    rfl
  rw [← entry_read, ← hesp]
  rfl

/-- The pushes stay within 20 bytes below the stack pointer. -/
theorem beforeIret_frame (c : Machine) {x : Nat} (hx : 20 ≤ Off (c.regs .esp - 20).toNat x) :
    (beforeIret c).mem x = c.mem x := by
  have hlen : (ring3Frame (loadW c.mem (c.regs .esp + 8))).reverse.length = 5 := rfl
  rw [beforeIret_mem, pushAll_mem _ _ _ (by rw [hlen]; decide)]
  · rfl
  · rw [hlen]
    exact hx

theorem holdsFrame_beforeIret (c : Machine) : HoldsFrame (beforeIret c).mem
    ((beforeIret c).regs .esp) (ring3Frame (loadW c.mem (c.regs .esp + 8))) := by
  have hlen : (ring3Frame (loadW c.mem (c.regs .esp + 8))).length = 5 := rfl
  rw [beforeIret_mem, beforeIret_esp]
  exact holdsFrame_pushAll (segmentsSet c) _ (by rw [hlen]; decide)

theorem jumpToRing3_last : jumpToRing3 = jumpToRing3.dropLast ++ [.iret] := rfl

/-- **Where `iret` goes**: to the word two above the return address. -/
theorem sysExecAll_jumpToRing3 {c : Machine} (hcpl : c.cpl = 0) :
    sysExecAll jumpToRing3 c =
      { ((beforeIret c).setSeg .cs 0x1B).setSeg .ss 0x23 with
        toCpu := { (beforeIret c).toCpu.set .esp 0x000E0000 with
          eip := loadW c.mem (c.regs .esp + 8) }
        eflags := 0x202 } := by
  have hring : (beforeIret c).cpl < ((0x1B : Word).setWidth 16).toNat % 4 := by
    rw [beforeIret_cs, hcpl]
    decide
  have hcs : (0x1B : Word).setWidth 16 = (0x1B : BitVec 16) := by decide
  have hss : (0x23 : Word).setWidth 16 = (0x23 : BitVec 16) := by decide
  rw [jumpToRing3_last, sysExecAll_append, sysExecAll_iret, ← beforeIret,
    iret_outer (holdsFrame_beforeIret c) hring, hcs, hss]

/-- **The handoff** is right but for the entry point, which is taken from the word above
the argument. -/
theorem handedOver_iff (L : GdtLayout) {c : Machine} (hcpl : c.cpl = 0) (hgdt : GdtBuilt L c.mem) :
    HandedOver L c (loadW c.mem (c.regs .esp + 4)) (sysExecAll jumpToRing3 c) ↔
      loadW c.mem (c.regs .esp + 8) = loadW c.mem (c.regs .esp + 4) := by
  rw [sysExecAll_jumpToRing3 hcpl]
  refine ⟨fun h => h.eip, ?_⟩
  intro h
  obtain ⟨hcode, hdata⟩ := select_user hgdt
  have hinterrupts : (0x202 : Word) &&& flagIf = flagIf := by decide
  have hiopl : iopl (0x202 : Word).toNat = 0 := by decide
  refine ⟨h, rfl, rfl, ?_, ?_, ?_, rfl, hinterrupts, hiopl⟩
  · rw [hcode]
    exact ⟨⟨by decide, by decide, rfl, by decide⟩, by decide⟩
  · rw [hdata]
    exact ⟨⟨by decide, by decide, rfl, by decide⟩, by decide⟩
  · intro hoff i hi
    have hbyte := hoff i hi
    rw [load8, load8]
    apply beforeIret_frame c
    simp only [Off] at hbyte ⊢
    omega

/-- A call of `jump_to_ring3(0x100000)` in ring 0, the stack being zero above it. -/
def entryCall : Machine where
  regs r := if r = .esp then 0x8000 else 0
  eip := 0
  mem x := if x < 0x10000 then (if x = 0x8006 then 0x10 else 0)
    else initGdt someLayout (fun _ => 0) x
  eflags := 2
  seg s := if s = .cs then 0x08 else 0x10

theorem gdtBuilt_entryCall : GdtBuilt someLayout entryCall.mem := by
  refine ⟨fun _ => 0, fun i hi => if_neg ?_⟩
  simp only [someLayout]
  omega

theorem handedOver_iff_entryCall : entryCall.cpl = 0 ∧ GdtBuilt someLayout entryCall.mem ∧
    (HandedOver someLayout entryCall (loadW entryCall.mem (entryCall.regs .esp + 4))
        (sysExecAll jumpToRing3 entryCall) ↔
      loadW entryCall.mem (entryCall.regs .esp + 8) =
        loadW entryCall.mem (entryCall.regs .esp + 4)) :=
  ⟨by decide, gdtBuilt_entryCall, handedOver_iff someLayout (by decide) gdtBuilt_entryCall⟩

/-- It goes to address 0. -/
theorem not_handedOver : ¬ ∀ (L : GdtLayout) (c : Machine), c.cpl = 0 → GdtBuilt L c.mem →
    HandedOver L c (loadW c.mem (c.regs .esp + 4)) (sysExecAll jumpToRing3 c) := by
  intro hall
  have hcpl : entryCall.cpl = 0 := by decide
  have heip := (hall someLayout entryCall hcpl gdtBuilt_entryCall).eip
  rw [sysExecAll_jumpToRing3 hcpl] at heip
  have hdiffer : ¬ loadW entryCall.mem (entryCall.regs .esp + 8) =
      loadW entryCall.mem (entryCall.regs .esp + 4) := by decide
  exact hdiffer heip

end Antagonist
