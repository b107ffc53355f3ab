import Antagonist.Lib.Interrupt
import Antagonist.Syscall.Confined

/-!
# Through the gate and back

`int 0x80` from any ring, `sys_handler_stub` of `boot.s` around the call of
`syscall_dispatcher`, and its `iret`.  What the compiled dispatcher does with the registers
does not matter, and neither do its stores below the frame, its argument slot included:
the stub takes everything from the frame.

* `mem_runSyscallL`: a byte that no store of a call goes to keeps its value.
* `callerKept_syscall`: the caller gets all of its registers back, and call 2 its
  scancode.
-/

namespace Antagonist

open ByteMem X86 Logged

/-! ### The stores of a call -/

section

variable {P : Nat → Prop} {m : Mem} {x : Nat}

theorem mem_store8L {a : Nat} {b : Byte} (h : (store8L m a b).All fun a => ¬ P a) (hx : P x) :
    (store8L m a b).val x = m x :=
  store8_apply_ne _ _ fun heq => (all_entry _ _).mp h (heq ▸ hx)

theorem mem_printRoundsL (index text : Nat) (hx : P x) : ∀ (rounds i : Nat) (m : Mem),
    (printRoundsL index text rounds i m).All (fun a => ¬ P a) →
    (printRoundsL index text rounds i m).val x = m x := by
  intro rounds
  induction rounds with
  | zero => exact fun _ _ _ => rfl
  | succ rounds ih =>
    intro i m h
    rw [printRoundsL] at h ⊢
    by_cases hzero : load8 m (text + i) = 0
    · rw [if_pos hzero]
      rfl
    · rw [if_neg hzero] at h ⊢
      rw [all_bind, all_bind] at h
      rw [val_bind, val_bind, ih _ _ h.2.2, mem_store8L h.2.1 hx, mem_store8L h.1 hx]

theorem mem_copyOutL (buffer : Nat) (sector : Sector) (hx : P x)
    (h : (copyOutL buffer sector m).All fun a => ¬ P a) : (copyOutL buffer sector m).val x = m x := by
  unfold copyOutL at h ⊢
  generalize List.finRange 512 = l at h ⊢
  induction l generalizing m with
  | nil => rfl
  | cons i l ih =>
    rw [Logged.foldl, all_bind] at h
    rw [Logged.foldl, val_bind, ih h.2, mem_store8L h.1 hx]

/-- **A byte that no store goes to** keeps its value, whatever the call. -/
theorem mem_runSyscallL {δ : Type} (bus : Bus δ) (scancode : Byte) (registers : Word)
    (d : Driver δ) (rounds : Nat) (hx : P x)
    (h : (runSyscallL bus scancode registers m d rounds).All fun a => ¬ P a) :
    (runSyscallL bus scancode registers m d rounds).val.1 x = m x := by
  unfold runSyscallL at h ⊢
  cases hreq : syscallDispatcher (frameArgs m registers) with
  | printString row textBuffer =>
    rw [hreq] at h
    exact mem_printRoundsL _ _ hx rounds 0 m ((all_bind _ _).mp h).1
  | queryPort =>
    rw [hreq] at h
    simp only [all_bind, all_pure, and_true] at h
    simp only [val_bind, val_pure]
    rw [mem_store8L h.2.2.2 hx, mem_store8L h.2.2.1 hx, mem_store8L h.2.1 hx, mem_store8L h.1 hx]
  | writeSector targetLbaSector sourceBuffer => rfl
  | readSector targetLbaSector destinationBuffer =>
    rw [hreq] at h
    simp only [all_bind, all_pure, and_true] at h
    simp only [val_bind, val_pure]
    exact mem_copyOutL _ _ hx h
  | unknown => rfl

theorem runSyscallL_queryPort {δ : Type} (bus : Bus δ) (scancode : Byte) (registers : Word)
    (d : Driver δ) (rounds : Nat) (h : (frameArgs m registers).syscallNumber = 2) :
    (runSyscallL bus scancode registers m d rounds).val.1 =
      storeW m (registers + 28) (scancode.setWidth 32) := by
  have hreq : syscallDispatcher (frameArgs m registers) = .queryPort := by
    rw [syscallDispatcher, h]
    rfl
  have h0 : (registers.toNat + 28) % 2 ^ 32 = (registers + 28).toNat % 2 ^ 32 := by bv_omega
  have h1 : (registers.toNat + 29) % 2 ^ 32 = ((registers + 28).toNat + 1) % 2 ^ 32 := by bv_omega
  have h2 : (registers.toNat + 30) % 2 ^ 32 = ((registers + 28).toNat + 2) % 2 ^ 32 := by bv_omega
  have h3 : (registers.toNat + 31) % 2 ^ 32 = ((registers + 28).toNat + 3) % 2 ^ 32 := by bv_omega
  have hbyte : (scancode.setWidth 32).toNat = scancode.toNat := by
    rw [BitVec.toNat_setWidth, Nat.mod_eq_of_lt (by omega)]
  have hlow : byteOf scancode.toNat 0 = scancode := by
    simp [byteOf]
  have hhigh : ∀ i, 1 ≤ i → byteOf scancode.toNat i = 0 := by
    intro i hi
    have hpow : 256 ^ 1 ≤ 256 ^ i := Nat.pow_le_pow_right (by decide) hi
    rw [byteOf, Nat.div_eq_of_lt (by omega)]
    rfl
  unfold runSyscallL
  rw [hreq]
  simp only [val_bind, val_pure, store8L, val_entry]
  rw [storeW, store32, hbyte, hlow, hhigh 1 (by decide), hhigh 2 (by decide), hhigh 3 (by decide),
    store8_congr _ _ h0, store8_congr _ _ h1, store8_congr _ _ h2, store8_congr _ _ h3]

end

/-! ### The gate -/

/-- `sys_handler_stub` after its call. -/
def sysHandlerReturn : List SysInstr := [.addImm .esp 4, .plain .popa, .iret]

def syscallGateCs : BitVec 16 := 0x08

/-- Where things are, and what the devices give. -/
structure SyscallSite where
  handler : Word
  returnAddress : Word
  inner : InnerStack
  scancode : Byte

section

variable (S : SyscallSite) (c : Machine)

/-- The machine as the stub begins, `c` being at an `int 0x80`: two bytes. -/
def stubEntry : Machine := c.interrupt syscallGateCs S.handler S.inner (c.eip + 2)

def dispatcherCall : Machine :=
  { stubEntry S c with toCpu := dispatcherEntry (stubEntry S c).toCpu S.returnAddress }

/-- What the interrupt has pushed. -/
def gateFrame : List Word := c.interruptFrame syscallGateCs (c.eip + 2)

/-- The saved registers, and above them what the interrupt has pushed. -/
def InStubFrame (x : Nat) : Prop :=
  Off ((stubEntry S c).regs .esp - 32).toNat x < 4 * (8 + (gateFrame c).length)

/-- The stores of the call, as the source has them. -/
def dispatcherStores {δ : Type} (bus : Bus δ) (d : Driver δ) (rounds : Nat) :
    Logged Nat (Mem × Driver δ) :=
  runSyscallL bus S.scancode
    (loadW (dispatcherCall S c).mem ((dispatcherCall S c).regs .esp + 4)) (dispatcherCall S c).mem d
    rounds

/-- The call of `syscall_dispatcher` has returned, with the machine `after`.  In the frame of
the stub are the stores of the source. -/
structure DispatcherReturned {δ : Type} (bus : Bus δ) (d : Driver δ) (rounds : Nat)
    (after : Machine) : Prop where
  esp : after.regs .esp = (dispatcherCall S c).regs .esp + 4
  seg : after.seg = (dispatcherCall S c).seg
  stores : ∀ x < 2 ^ 32, InStubFrame S c x →
    after.mem x = (dispatcherStores S c bus d rounds).val.1 x

/-- What the caller has back in `c'`. -/
structure CallerKept (c' : Machine) : Prop where
  regs : ∀ r, r ≠ .eax → c'.regs r = c.regs r
  eax : c'.regs .eax = if c.regs .eax = 2 then S.scancode.setWidth 32 else c.regs .eax
  eip : c'.eip = c.eip + 2
  eflags : c'.eflags = c.eflags
  cs : c'.seg .cs = c.seg .cs
  ss : c'.seg .ss = c.seg .ss

/-! ### The frame of the stub -/

theorem gateFrame_outer (h : 0 < c.cpl) : gateFrame c =
    [c.eip + 2, (c.seg .cs).setWidth 32, c.eflags, c.regs .esp, (c.seg .ss).setWidth 32] :=
  if_pos h

theorem gateFrame_inner (h : ¬ 0 < c.cpl) :
    gateFrame c = [c.eip + 2, (c.seg .cs).setWidth 32, c.eflags] := if_neg h

theorem length_gateFrame_le : (gateFrame c).length ≤ 5 := by
  by_cases h : 0 < c.cpl
  · rw [gateFrame_outer c h]
    exact le_refl 5
  · rw [gateFrame_inner c h]
    exact (by decide : 3 ≤ 5)

theorem onGateStack_inner (h : ¬ 0 < c.cpl) : c.onGateStack syscallGateCs S.inner = c := if_neg h

theorem cs_stubEntry : (stubEntry S c).seg .cs = syscallGateCs := by
  show (if SegReg.cs = .cs then syscallGateCs
    else (c.onGateStack syscallGateCs S.inner).seg .cs) = _
  rw [if_pos rfl]

theorem ss_stubEntry (h : ¬ 0 < c.cpl) : (stubEntry S c).seg .ss = c.seg .ss := by
  show (c.onGateStack syscallGateCs S.inner).seg .ss = _
  rw [onGateStack_inner S c h]

theorem regs_stubEntry {r : Reg} (hr : r ≠ .esp) : (stubEntry S c).regs r = c.regs r := by
  show (((c.onGateStack syscallGateCs S.inner).toCpu.pushAll (gateFrame c).reverse).regs r) = _
  rw [regs_pushAll, if_neg hr, Machine.onGateStack]
  split
  · simp only [regs_set, if_neg hr]
  · rfl

theorem esp_stubEntry : (stubEntry S c).regs .esp =
    (c.onGateStack syscallGateCs S.inner).regs .esp - BitVec.ofNat 32 (4 * (gateFrame c).length) := by
  show (((c.onGateStack syscallGateCs S.inner).toCpu.pushAll (gateFrame c).reverse).regs .esp) = _
  rw [regs_pushAll, if_pos rfl, List.length_reverse]

/-- The stub begins with the frame of the interrupt on its stack. -/
theorem holdsFrame_stubEntry :
    HoldsFrame (stubEntry S c).mem ((stubEntry S c).regs .esp) (gateFrame c) := by
  have hlen := length_gateFrame_le c
  rw [esp_stubEntry]
  exact holdsFrame_pushAll _ (gateFrame c) (by omega)

end

/-- The registers of `e` in the order in which `popa` reads them. -/
def popOrder (e : Cpu) : List Word := e.pushaOrder.reverse

theorem length_popOrder (e : Cpu) : (popOrder e).length = 8 := rfl

theorem esp_dispatcherEntry (e : Cpu) (returnAddress : Word) :
    (dispatcherEntry e returnAddress).regs .esp + 4 + 4 = e.regs .esp - 32 := by
  have harith : e.regs .esp - 32 - 4 - 4 + 4 + 4 = e.regs .esp - 32 := by bv_omega
  have hesp : (dispatcherEntry e returnAddress).regs .esp =
      (e.pushAll e.pushaOrder).regs .esp - 4 - 4 := rfl
  rw [hesp, esp_pusha, harith]

/-- **The stack as the dispatcher is entered**: the registers, and above them what was there. -/
theorem holdsFrame_dispatcherEntry {e : Cpu} (returnAddress : Word) {frame : List Word}
    (h : HoldsFrame e.mem (e.regs .esp) frame) (hlen : frame.length ≤ 5) :
    HoldsFrame (dispatcherEntry e returnAddress).mem (e.regs .esp - 32) (popOrder e ++ frame) := by
  have hesp := esp_pusha e
  have hsaved : HoldsFrame (e.pushAll e.pushaOrder).mem (e.regs .esp - 32) (popOrder e ++ frame) := by
    rw [HoldsFrame.append_iff]
    refine ⟨?_, ?_⟩
    · have hpush := holdsFrame_pushAll e (popOrder e) (by rw [length_popOrder]; decide)
      rwa [popOrder, List.reverse_reverse] at hpush
    · have htop : e.regs .esp - 32 + BitVec.ofNat 32 (4 * (popOrder e).length) = e.regs .esp := by
        rw [length_popOrder]
        bv_omega
      rw [htop]
      refine h.of_bytes (by omega) fun x hx hin => pushAll_mem _ _ _ (by simp) ?_
      rw [length_pushaOrder]
      simp only [Off] at hin ⊢
      bv_omega
  have hlength : (popOrder e ++ frame).length = 8 + frame.length := by
    rw [List.length_append, length_popOrder]
  refine hsaved.of_bytes (by omega) ?_
  intro x hx hin
  show ((e.pushAll e.pushaOrder).pushAll [(e.pushAll e.pushaOrder).regs .esp, returnAddress]).mem x = _
  apply pushAll_mem _ _ _ (by simp)
  rw [hesp]
  rw [hlength] at hin
  simp only [Off, List.length_cons, List.length_nil] at hin ⊢
  bv_omega

/-! ### The call and the return -/

section

variable (S : SyscallSite) (c : Machine)

theorem regs_popOrder_set (e : Cpu) (v : Word) (r : Reg) (h : popIndex r < ((popOrder e).set 7 v).length) :
    ((popOrder e).set 7 v).get ⟨popIndex r, h⟩ = if r = .eax then v else e.regs r := by
  cases r <;> rfl

/-- EAX as the stub hands it back. -/
def eaxAfter : Word := if c.regs .eax = 2 then S.scancode.setWidth 32 else c.regs .eax

theorem registers_dispatcherCall : loadW (dispatcherCall S c).mem
    ((dispatcherCall S c).regs .esp + 4) = (stubEntry S c).regs .esp - 32 :=
  registers_entry (stubEntry S c).toCpu S.returnAddress

theorem syscallNumber_dispatcherCall :
    (frameArgs (dispatcherCall S c).mem ((stubEntry S c).regs .esp - 32)).syscallNumber =
      c.regs .eax :=
  (savedRegister_entry (stubEntry S c).toCpu S.returnAddress (by decide : 7 < 8)).trans
    (regs_stubEntry S c (by decide))

/-- **The frame after the call**: only the slot of EAX may have changed. -/
theorem holdsFrame_returned {δ : Type} {bus : Bus δ} {d : Driver δ} {rounds : Nat} {after : Machine}
    (hwrites : c.regs .eax ≠ 2 →
      (dispatcherStores S c bus d rounds).All fun a => ¬ InStubFrame S c a)
    (h : DispatcherReturned S c bus d rounds after) :
    HoldsFrame after.mem ((stubEntry S c).regs .esp - 32)
      ((popOrder (stubEntry S c).toCpu).set 7 (eaxAfter S c) ++ gateFrame c) := by
  have hlen := length_gateFrame_le c
  have hcall : HoldsFrame (dispatcherCall S c).mem ((stubEntry S c).regs .esp - 32)
      (popOrder (stubEntry S c).toCpu ++ gateFrame c) :=
    holdsFrame_dispatcherEntry S.returnAddress (holdsFrame_stubEntry S c) hlen
  have hlength : ∀ v, ((popOrder (stubEntry S c).toCpu).set 7 v ++ gateFrame c).length =
      8 + (gateFrame c).length := by
    intro v
    rw [List.length_append, List.length_set, length_popOrder]
  have hstores : ∀ x < 2 ^ 32, InStubFrame S c x → after.mem x =
      (runSyscallL bus S.scancode ((stubEntry S c).regs .esp - 32) (dispatcherCall S c).mem d
        rounds).val.1 x := by
    intro x hx hin
    rw [h.stores x hx hin, dispatcherStores, registers_dispatcherCall]
  by_cases hnum : c.regs .eax = 2
  · -- call 2 stores the scancode in the slot of EAX
    have hslot := hcall.store (by rw [List.length_append, length_popOrder]; omega)
      (k := 7) (by rw [List.length_append, length_popOrder]; omega) (S.scancode.setWidth 32)
    rw [List.set_append_left _ _ (by rw [length_popOrder]; decide)] at hslot
    rw [eaxAfter, if_pos hnum]
    refine hslot.of_bytes (by rw [hlength]; omega) ?_
    intro x hx hin
    rw [hlength] at hin
    rw [hstores x hx hin, runSyscallL_queryPort _ _ _ _ _
      ((syscallNumber_dispatcherCall S c).trans hnum)]
    rfl
  · have hsame : (popOrder (stubEntry S c).toCpu).set 7 (eaxAfter S c) =
        popOrder (stubEntry S c).toCpu := by
      rw [eaxAfter, if_neg hnum, ← regs_stubEntry S c (by decide : Reg.eax ≠ .esp)]
      rfl
    have hkept := hwrites hnum
    rw [dispatcherStores, registers_dispatcherCall] at hkept
    rw [hsame]
    refine hcall.of_bytes (by rw [List.length_append, length_popOrder]; omega) ?_
    intro x hx hin
    rw [List.length_append, length_popOrder] at hin
    rw [hstores x hx hin]
    exact mem_runSyscallL bus S.scancode _ d rounds hin hkept

/-- The machine as the stub comes to its `iret`. -/
def restored (after : Machine) : Machine := sysExecAll [.addImm .esp 4, .plain .popa] after

theorem restored_eq (after : Machine) : restored after =
    { after with toCpu := (after.toCpu.set .esp (after.regs .esp + 4)).popa } := rfl

/-- **The registers are back** before the `iret`, and the frame of the interrupt is on top of
the stack. -/
theorem restored_spec {δ : Type} {bus : Bus δ} {d : Driver δ} {rounds : Nat} {after : Machine}
    (hwrites : c.regs .eax ≠ 2 →
      (dispatcherStores S c bus d rounds).All fun a => ¬ InStubFrame S c a)
    (h : DispatcherReturned S c bus d rounds after) :
    (∀ r, (restored after).regs r = if r = .eax then eaxAfter S c else (stubEntry S c).regs r) ∧
      HoldsFrame (restored after).mem ((stubEntry S c).regs .esp) (gateFrame c) ∧
      (restored after).seg = (stubEntry S c).seg := by
  have hframe := holdsFrame_returned S c hwrites h
  rw [HoldsFrame.append_iff, List.length_set, length_popOrder] at hframe
  obtain ⟨hregs, hgate⟩ := hframe
  have hesp : after.regs .esp + 4 = (stubEntry S c).regs .esp - 32 := by
    rw [h.esp]
    exact esp_dispatcherEntry (stubEntry S c).toCpu S.returnAddress
  have htop : (stubEntry S c).regs .esp - 32 + 32 = (stubEntry S c).regs .esp := by bv_omega
  refine ⟨fun r => ?_, ?_, h.seg⟩
  · have hlen : ((popOrder (stubEntry S c).toCpu).set 7 (eaxAfter S c)).length = 8 := by
      rw [List.length_set, length_popOrder]
    have hstack : HoldsFrame (after.toCpu.set .esp (after.regs .esp + 4)).mem
        ((after.toCpu.set .esp (after.regs .esp + 4)).regs .esp)
        ((popOrder (stubEntry S c).toCpu).set 7 (eaxAfter S c)) := by
      rw [regs_set, if_pos rfl, hesp]
      exact hregs
    have hpop := regs_popa_of_frame hlen hstack r
    rw [restored_eq]
    simp only
    rw [hpop, regs_popOrder_set]
    by_cases hr : r = .esp
    · subst hr
      rw [if_pos rfl, if_neg (by decide)]
      show after.regs .esp + 4 + 32 = _
      rw [hesp, htop]
    · rw [if_neg hr]
  · have haddr : (stubEntry S c).regs .esp - 32 + BitVec.ofNat 32 (4 * 8) =
        (stubEntry S c).regs .esp := by bv_omega
    rw [haddr] at hgate
    exact hgate

/-- **A system call keeps the registers of its caller.** -/
theorem callerKept_syscall {δ : Type} (bus : Bus δ) (d : Driver δ) (rounds : Nat) (after : Machine)
    (hwrites : c.regs .eax ≠ 2 →
      (dispatcherStores S c bus d rounds).All fun a => ¬ InStubFrame S c a)
    (h : DispatcherReturned S c bus d rounds after) :
    CallerKept S c (sysExecAll sysHandlerReturn after) := by
  obtain ⟨hregs, hgate, hseg⟩ := restored_spec S c hwrites h
  have hrun : sysExecAll sysHandlerReturn after = (restored after).iret :=
    sysExecAll_append [.addImm .esp 4, .plain .popa] [.iret] after
  have hcpl : (restored after).cpl = 0 := by
    rw [Machine.cpl, hseg, cs_stubEntry]
    rfl
  have hesp : (restored after).regs .esp = (stubEntry S c).regs .esp := by
    rw [hregs, if_neg (by decide)]
  have hback : ∀ v : BitVec 16, (v.setWidth 32).setWidth 16 = v := by
    intro v
    bv_omega
  have hothers : ∀ r, r ≠ .eax → r ≠ .esp → (restored after).regs r = c.regs r := by
    intro r hax hsp
    rw [hregs, if_neg hax, regs_stubEntry S c hsp]
  have heax : (restored after).regs .eax = eaxAfter S c := by rw [hregs, if_pos rfl]
  rw [hrun]
  rw [← hesp] at hgate
  by_cases hring : 0 < c.cpl
  · -- the caller is in an outer ring, and its stack comes from the frame
    rw [gateFrame_outer c hring] at hgate
    rw [iret_outer hgate (by rw [hcpl, hback]; exact hring)]
    refine ⟨?_, heax, rfl, rfl, hback _, hback _⟩
    intro r hr
    by_cases hsp : r = .esp
    · rw [hsp]
      rfl
    · exact (if_neg hsp).trans (hothers r hr hsp)
  · -- the caller is in ring 0, and its stack is the one of the frame
    have hstack : (restored after).regs .esp + 12 = c.regs .esp := by
      rw [hesp, esp_stubEntry, gateFrame_inner c hring, onGateStack_inner S c hring]
      exact BitVec.sub_add_cancel _ _
    rw [gateFrame_inner c hring] at hgate
    rw [iret_inner hgate (by rw [hcpl, hback]; exact hring)]
    refine ⟨fun r hr => ?_, heax, rfl, rfl, hback _, ?_⟩
    · by_cases hsp : r = .esp
      · rw [hsp]
        exact hstack
      · exact (if_neg hsp).trans (hothers r hr hsp)
    · show (restored after).seg .ss = _
      rw [hseg, ss_stubEntry S c hring]

end

/-- A call from ring 3 to print the string "A" at `0x5000` in row 3. -/
def printCall : Machine where
  regs
    | .eax => 1
    | .ecx => 0x5000
    | .edx => 3
    | .esp => 0xDFFF0
    | _ => 7
  eip := 0x100000
  mem a := if a = 0x5000 then 0x41 else 0
  eflags := 0x202
  seg s := if s = .cs then 0x1B else 0x23

def printSite : SyscallSite where
  handler := 0x100200
  returnAddress := 0x100202
  inner := ⟨0x10, 0x9000⟩
  scancode := 0x1E

def idleBus : Bus Unit := ⟨fun _ _ _ => (), fun _ => (0x58, ()), fun _ => (fun _ => 0, ()), fun _ _ => ()⟩

/-- The dispatcher has printed, and has lost all registers but ESP. -/
def printReturned : Machine where
  regs r := if r = .esp then (dispatcherCall printSite printCall).regs .esp + 4 else 0
  eip := 0x100202
  mem := (dispatcherStores printSite printCall idleBus ⟨fun _ => 0, false, ()⟩ 2).val.1
  eflags := 2
  seg := (dispatcherCall printSite printCall).seg

theorem callerKept_printCall :
    DispatcherReturned printSite printCall idleBus ⟨fun _ => 0, false, ()⟩ 2 printReturned ∧
      CallerKept printSite printCall (sysExecAll sysHandlerReturn printReturned) := by
  have hreturned : DispatcherReturned printSite printCall idleBus ⟨fun _ => 0, false, ()⟩ 2
      printReturned := ⟨rfl, rfl, fun _ _ _ => rfl⟩
  refine ⟨hreturned, callerKept_syscall printSite printCall idleBus ⟨fun _ => 0, false, ()⟩ 2
    printReturned (fun _ => ?_) hreturned⟩
  have hlog : (dispatcherStores printSite printCall idleBus ⟨fun _ => 0, false, ()⟩ 2).log =
      [0xB81F4, 0xB81F5] := by decide +kernel
  intro a ha
  rw [hlog] at ha
  rcases List.mem_pair.mp ha with rfl | rfl
  · unfold InStubFrame
    decide +kernel
  · unfold InStubFrame
    decide +kernel

end Antagonist
