import Antagonist.Lib.Interrupt
import Mathlib.Logic.Function.Iterate

/-!
# Interrupt service

A stub that saves the registers with `pusha`, calls a function, and goes back with `popa` and
`iret`.  The function may do what it likes with the registers, with the stack below its own frame,
and with the memory of its own (`work`): the stub takes everything that it gives back from the
frame.  So the program that was interrupted goes on as if nothing had happened, as long as it looks
neither at the memory of the function nor below its stack pointer.

* `serviced`: **the machine after the service** is the one before it, but for the memory.
* `Interrupted.unseen`: a run with interrupts anywhere, beside the run without them.
-/

namespace X86

open ByteMem

/-- The registers in the order in which `popa` reads them. -/
def Cpu.popOrder (c : Cpu) : List Word := c.pushaOrder.reverse

theorem Cpu.length_popOrder (c : Cpu) : c.popOrder.length = 8 := rfl

theorem Cpu.get_popOrder (c : Cpu) (r : Reg) (h : popIndex r < c.popOrder.length) :
    c.popOrder.get ⟨popIndex r, h⟩ = c.regs r := by
  cases r <;> rfl

/-- **`pusha` on top of a frame.** -/
theorem HoldsFrame.pusha {c : Cpu} {frame : List Word} (h : HoldsFrame c.mem (c.regs .esp) frame)
    (hlen : 4 * (8 + frame.length) ≤ 2 ^ 32) :
    HoldsFrame (c.pushAll c.pushaOrder).mem (c.regs .esp - 32) (c.popOrder ++ frame) := by
  rw [HoldsFrame.append_iff]
  refine ⟨?_, ?_⟩
  · have hpush := holdsFrame_pushAll c c.popOrder (by rw [Cpu.length_popOrder]; decide)
    rwa [Cpu.popOrder, List.reverse_reverse] at hpush
  · have htop : c.regs .esp - 32 + BitVec.ofNat 32 (4 * c.popOrder.length) = c.regs .esp := by
      rw [Cpu.length_popOrder]
      bv_omega
    rw [htop]
    refine h.of_bytes (by omega) fun x hx hin => pushAll_mem _ _ _ (by simp) ?_
    rw [length_pushaOrder]
    simp only [Off] at hin ⊢
    bv_omega

/-- A gate into ring 0, to such a stub. -/
structure ServiceGate where
  cs : BitVec 16
  handler : Word
  returnAddress : Word
  inner : InnerStack
  ring0 : cs.toNat % 4 = 0

section

variable (G : ServiceGate) (c : Machine)

def ServiceGate.entry : Machine := c.interrupt G.cs G.handler G.inner c.eip

def ServiceGate.frame : List Word := c.interruptFrame G.cs c.eip

/-- The memory as the function is entered. -/
def ServiceGate.calledMem : Mem :=
  (((G.entry c).toCpu.pushAll (G.entry c).toCpu.pushaOrder).push G.returnAddress).mem

/-- The stack pointer that the interrupt finds: that of the program, or the one of the inner ring. -/
def ServiceGate.top : Word := (c.onGateStack G.cs G.inner).regs .esp

/-- The bytes that the service needs on the stack, `depth` of them for the function. -/
def ServiceGate.Scratch (depth x : Nat) : Prop :=
  Off (G.top c - BitVec.ofNat 32 (depth + 56)).toNat x < depth + 56

/-- The part of them that the function may change: all below its caller's frame. -/
def ServiceGate.OwnStack (depth x : Nat) : Prop :=
  Off ((G.entry c).regs .esp - 36 - BitVec.ofNat 32 depth).toNat x < depth + 4

/-- The function has returned to the stub.  Outside of its stack it has done its `work`. -/
structure ServiceGate.Returned (depth : Nat) (work : Mem → Mem) (after : Machine) : Prop where
  esp : after.regs .esp = (G.entry c).regs .esp - 32
  seg : after.seg = (G.entry c).seg
  mem : ∀ x < 2 ^ 32, ¬ G.OwnStack c depth x → after.mem x = work (G.calledMem c) x

variable {G c}

theorem ServiceGate.frame_inner (h : ¬ 0 < c.cpl) :
    G.frame c = [c.eip, (c.seg .cs).setWidth 32, c.eflags] := by
  rw [frame, Machine.interruptFrame, G.ring0, if_neg h]

theorem ServiceGate.frame_outer (h : 0 < c.cpl) : G.frame c =
    [c.eip, (c.seg .cs).setWidth 32, c.eflags, c.regs .esp, (c.seg .ss).setWidth 32] := by
  rw [frame, Machine.interruptFrame, G.ring0, if_pos h]
  rfl

theorem ServiceGate.length_frame_le : (G.frame c).length ≤ 5 := by
  by_cases h : 0 < c.cpl
  · rw [frame_outer h]
    exact le_refl 5
  · rw [frame_inner h]
    exact (by decide : 3 ≤ 5)

theorem ServiceGate.onGateStack_inner (h : ¬ 0 < c.cpl) : c.onGateStack G.cs G.inner = c := by
  rw [Machine.onGateStack, G.ring0, if_neg h]

theorem ServiceGate.seg_entry (s : SegReg) : (G.entry c).seg s =
    if s = .cs then G.cs else (c.onGateStack G.cs G.inner).seg s := rfl

theorem ServiceGate.regs_entry {r : Reg} (hr : r ≠ .esp) : (G.entry c).regs r = c.regs r := by
  show ((c.onGateStack G.cs G.inner).toCpu.pushAll (G.frame c).reverse).regs r = _
  rw [regs_pushAll, if_neg hr, Machine.onGateStack]
  split
  · simp only [regs_set, if_neg hr]
  · rfl

theorem ServiceGate.esp_entry :
    (G.entry c).regs .esp = G.top c - BitVec.ofNat 32 (4 * (G.frame c).length) := by
  show ((c.onGateStack G.cs G.inner).toCpu.pushAll (G.frame c).reverse).regs .esp = _
  rw [regs_pushAll, if_pos rfl, List.length_reverse]
  rfl

theorem ServiceGate.mem_onGateStack : (c.onGateStack G.cs G.inner).mem = c.mem := by
  rw [Machine.onGateStack]
  split <;> rfl

/-! ### The memory -/

/-- **Nothing but the stack** has changed as the function is entered. -/
theorem ServiceGate.calledMem_out {depth x : Nat} (hdepth : depth + 56 ≤ 2 ^ 32)
    (hx : ¬ G.Scratch c depth x) : G.calledMem c x = c.mem x := by
  have hlen := G.length_frame_le (c := c)
  have hesp := G.esp_entry (c := c)
  rw [Scratch] at hx
  have hentry : (G.entry c).mem x = c.mem x := by
    rw [← G.mem_onGateStack (c := c)]
    refine pushAll_mem (G.frame c).reverse (c.onGateStack G.cs G.inner).toCpu x ?_ ?_
    · rw [List.length_reverse]
      omega
    · rw [List.length_reverse]
      rw [top] at hx
      simp only [Off] at hx ⊢
      bv_omega
  rw [← hentry]
  show (((G.entry c).toCpu.pushAll (G.entry c).toCpu.pushaOrder).pushAll [G.returnAddress]).mem x = _
  rw [pushAll_mem _ _ _ (by simp), pushAll_mem _ _ _ (by simp)]
  · rw [length_pushaOrder, hesp]
    simp only [Off] at hx ⊢
    bv_omega
  · rw [esp_pusha, hesp]
    simp only [List.length_singleton, Off] at hx ⊢
    bv_omega

theorem ServiceGate.OwnStack.scratch {depth x : Nat} (h : G.OwnStack c depth x) (hx : x < 2 ^ 32)
    (hdepth : depth + 56 ≤ 2 ^ 32) : G.Scratch c depth x := by
  have hlen := G.length_frame_le (c := c)
  rw [OwnStack, G.esp_entry] at h
  rw [Scratch]
  generalize (G.frame c).length = n at h hlen
  generalize G.top c = top at h ⊢
  have hlow : top - BitVec.ofNat 32 (4 * n) - 36 - BitVec.ofNat 32 depth =
      top - BitVec.ofNat 32 (depth + 56) + BitVec.ofNat 32 (20 - 4 * n) := by
    bv_omega
  rw [hlow] at h
  have hlt := (top - BitVec.ofNat 32 (depth + 56)).isLt
  rw [BitVec.toNat_add, BitVec.toNat_ofNat] at h
  generalize (top - BitVec.ofNat 32 (depth + 56)).toNat = bottom at h hlt ⊢
  simp only [Off] at h ⊢
  omega

/-- **The stack as the function is entered**: the registers, and above them the frame. -/
theorem ServiceGate.holdsFrame_called : HoldsFrame (G.calledMem c) ((G.entry c).regs .esp - 32)
    ((G.entry c).toCpu.popOrder ++ G.frame c) := by
  have hlen := G.length_frame_le (c := c)
  have hentry : HoldsFrame (G.entry c).mem ((G.entry c).regs .esp) (G.frame c) := by
    rw [G.esp_entry]
    exact holdsFrame_pushAll (c.onGateStack G.cs G.inner).toCpu (G.frame c) (by omega)
  refine (HoldsFrame.pusha hentry (by omega)).of_bytes ?_ ?_
  · rw [List.length_append, Cpu.length_popOrder]
    omega
  · intro x hx hin
    rw [List.length_append, Cpu.length_popOrder] at hin
    show (((G.entry c).toCpu.pushAll (G.entry c).toCpu.pushaOrder).pushAll [G.returnAddress]).mem x = _
    refine pushAll_mem _ _ _ (by simp) ?_
    rw [esp_pusha]
    simp only [Off, List.length_singleton] at hin ⊢
    bv_omega

/-- The frame, once the function has returned: its work does not reach the stack. -/
theorem ServiceGate.Returned.holdsFrame {depth : Nat} {work : Mem → Mem} {after : Machine}
    (h : G.Returned c depth work after) (hdepth : depth + 56 ≤ 2 ^ 32)
    (hwork : ∀ x < 2 ^ 32, G.Scratch c depth x → work (G.calledMem c) x = G.calledMem c x) :
    HoldsFrame after.mem ((G.entry c).regs .esp - 32)
      ((G.entry c).toCpu.popOrder ++ G.frame c) := by
  have hlen := G.length_frame_le (c := c)
  have hesp := G.esp_entry (c := c)
  refine G.holdsFrame_called.of_bytes ?_ ?_
  · rw [List.length_append, Cpu.length_popOrder]
    omega
  · intro x hx hin
    rw [List.length_append, Cpu.length_popOrder] at hin
    rw [h.mem x hx ?_, hwork x hx ?_]
    · rw [Scratch]
      rw [hesp] at hin
      simp only [Off] at hin ⊢
      bv_omega
    · rw [OwnStack]
      simp only [Off] at hin ⊢
      bv_omega

/-! ### The way back -/

def Machine.withMem (c : Machine) (m : Mem) : Machine := { c with toCpu := { c.toCpu with mem := m } }

/-- A machine with the registers, the flags and the segments of `c`. -/
theorem Machine.eq_withMem {b : Machine} (hregs : ∀ r, b.regs r = c.regs r) (heip : b.eip = c.eip)
    (hflags : b.eflags = c.eflags) (hseg : ∀ s, b.seg s = c.seg s) : b = c.withMem b.mem := by
  obtain ⟨⟨regs, eip, mem⟩, eflags, seg⟩ := b
  obtain rfl : regs = c.regs := funext hregs
  obtain rfl : seg = c.seg := funext hseg
  obtain rfl : eip = c.eip := heip
  obtain rfl : eflags = c.eflags := hflags
  rfl

/-- `iret` on the frame of the interrupt, with the registers of the program. -/
theorem ServiceGate.iret_back {p : Machine} (hframe : HoldsFrame p.mem (p.regs .esp) (G.frame c))
    (hesp : p.regs .esp = (G.entry c).regs .esp) (hregs : ∀ r, r ≠ .esp → p.regs r = c.regs r)
    (hseg : p.seg = (G.entry c).seg) : p.iret = c.withMem p.mem := by
  have hback : ∀ v : BitVec 16, (v.setWidth 32).setWidth 16 = v := by
    intro v
    bv_omega
  have hsegP : ∀ s, p.seg s = if s = .cs then G.cs else (c.onGateStack G.cs G.inner).seg s := by
    intro s
    rw [← G.seg_entry, hseg]
  have hcpl : p.cpl = 0 := by
    rw [Machine.cpl, hsegP, if_pos rfl, G.ring0]
  by_cases hring : 0 < c.cpl
  · rw [G.frame_outer hring] at hframe
    have hiret := iret_outer hframe (by rw [hcpl, hback]; exact hring)
    have hmem : p.iret.mem = p.mem := by rw [hiret]; rfl
    rw [← hmem]
    refine Machine.eq_withMem (fun r => ?_) (by rw [hiret]) (by rw [hiret]) (fun s => ?_)
    · rw [hiret]
      show (if r = .esp then c.regs .esp else p.regs r) = _
      by_cases hr : r = .esp
      · rw [if_pos hr, hr]
      · rw [if_neg hr, hregs r hr]
    · rw [hiret]
      show (if s = .ss then ((c.seg .ss).setWidth 32).setWidth 16
        else if s = .cs then ((c.seg .cs).setWidth 32).setWidth 16 else p.seg s) = _
      rw [hsegP, hback, hback, Machine.onGateStack, G.ring0, if_pos hring]
      cases s <;> rfl
  · rw [G.frame_inner hring] at hframe
    have hiret := iret_inner hframe (by rw [hcpl, hback]; exact hring)
    have hmem : p.iret.mem = p.mem := by rw [hiret]; rfl
    have hwords : BitVec.ofNat 32 (4 * (G.frame c).length) = 12 := by
      rw [G.frame_inner hring]
      rfl
    rw [← hmem]
    refine Machine.eq_withMem (fun r => ?_) (by rw [hiret]) (by rw [hiret]) (fun s => ?_)
    · rw [hiret]
      show (if r = .esp then p.regs .esp + 12 else p.regs r) = _
      by_cases hr : r = .esp
      · rw [if_pos hr, hr, hesp, G.esp_entry, hwords, BitVec.sub_add_cancel, top,
          G.onGateStack_inner hring]
      · rw [if_neg hr, hregs r hr]
    · rw [hiret]
      show (if s = .cs then ((c.seg .cs).setWidth 32).setWidth 16 else p.seg s) = _
      rw [hsegP, hback, G.onGateStack_inner hring]
      cases s <;> rfl

/-- **After the service** the machine is the one that was interrupted, but for the memory. -/
theorem ServiceGate.Returned.serviced {depth : Nat} {work : Mem → Mem} {after : Machine}
    (h : G.Returned c depth work after) (hdepth : depth + 56 ≤ 2 ^ 32)
    (hwork : ∀ x < 2 ^ 32, G.Scratch c depth x → work (G.calledMem c) x = G.calledMem c x) :
    sysExecAll [.plain .popa, .iret] after = c.withMem after.mem := by
  have hframe := h.holdsFrame hdepth hwork
  rw [← h.esp, HoldsFrame.append_iff, Cpu.length_popOrder] at hframe
  obtain ⟨hsaved, hframe⟩ := hframe
  have htop : after.regs .esp + BitVec.ofNat 32 (4 * 8) = (G.entry c).regs .esp := by
    rw [h.esp]
    bv_omega
  have hesp : after.toCpu.popa.regs .esp = (G.entry c).regs .esp := by
    rw [regs_popa, if_pos rfl, h.esp, BitVec.sub_add_cancel]
  refine G.iret_back (p := { after with toCpu := after.toCpu.popa }) ?_ hesp ?_ h.seg
  · show HoldsFrame after.mem (after.toCpu.popa.regs .esp) (G.frame c)
    rw [hesp, ← htop]
    exact hframe
  · intro r hr
    show after.toCpu.popa.regs r = _
    rw [regs_popa_of_frame (Cpu.length_popOrder _) hsaved, if_neg hr, Cpu.get_popOrder,
      G.regs_entry hr]

end

/-! ### Runs with interrupts -/

section

variable {ι : Type} (step : Machine → Machine) (serve : ι → Machine → Machine → Prop)

/-- From `c`, after `n` instructions and the interrupts `lines`, oldest first and anywhere between
them. -/
inductive Interrupted (c : Machine) : Nat → List ι → Machine → Prop
  | start : Interrupted c 0 [] c
  | instr {n : Nat} {lines : List ι} {d : Machine} : Interrupted c n lines d →
      Interrupted c (n + 1) lines (step d)
  | served {n : Nat} {lines : List ι} {d d' : Machine} {i : ι} : Interrupted c n lines d →
      serve i d d' → Interrupted c n (lines ++ [i]) d'

/-- What a program can tell apart: it goes on alike from machines that look alike, and memory that
is foreign to it or in the reach of an interrupt does not matter. -/
structure View (foreign : Nat → Prop) (scratch : Machine → Nat → Prop)
    (Alike : Machine → Machine → Prop) : Prop where
  refl : ∀ c, Alike c c
  trans : ∀ c d e, Alike c d → Alike d e → Alike c e
  step : ∀ c d, Alike c d → Alike (step c) (step d)
  blind : ∀ c m, (∀ x < 2 ^ 32, ¬ foreign x → ¬ scratch c x → m x = c.mem x) →
    Alike c (c.withMem m)

variable {step serve}

/-- **Interrupts are not seen**: the program is where it would be without them. -/
theorem Interrupted.unseen {foreign : Nat → Prop} {scratch : Machine → Nat → Prop}
    {Alike : Machine → Machine → Prop} (hview : View step foreign scratch Alike)
    (hserve : ∀ i d d', serve i d d' → ∃ m, d' = d.withMem m ∧
      ∀ x < 2 ^ 32, ¬ foreign x → ¬ scratch d x → m x = d.mem x)
    {c c' : Machine} {n : Nat} {lines : List ι} (h : Interrupted step serve c n lines c') :
    Alike (step^[n] c) c' := by
  induction h with
  | start => exact hview.refl c
  | instr _ ih =>
    rw [Function.iterate_succ_apply']
    exact hview.step _ _ ih
  | served _ hs ih =>
    obtain ⟨m, rfl, hsame⟩ := hserve _ _ _ hs
    exact hview.trans _ _ _ ih (hview.blind _ m hsame)

end

end X86
