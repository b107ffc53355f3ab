import Antagonist.Boot.Idt
import Antagonist.Boot.Irq
import Antagonist.Syscall.Gate

/-!
# The gates of the kernel

`init_idt` and the gate `0x80` that `kernel_main` sets later.  What comes between the two leaves
the table alone.

* `idp_initIdt`: what `lidt` reads.
* `readGate_idtBuilt`: the gate of each vector.
* `admitsInt_user_iff`: a program in ring 3 reaches the gate `0x80` only.
* `irqGate_eq`, `stubEntry_eq`: the gates of `Boot.Irq` and `Syscall.Gate` are those of the table.
-/

namespace Antagonist

open ByteMem Segment X86

/-- Where the linker puts the stubs of `boot.s`. -/
structure StubAddresses where
  isr0HandlerStub : BitVec 32
  irq0HandlerStub : BitVec 32
  irq1HandlerStub : BitVec 32
  sysHandlerStub : BitVec 32

/-- The loop that clears the table. -/
def clearIdt (idt : Nat) (m : Mem) : Mem :=
  (List.range 256).foldl (fun m i => idtSetGate idt m (BitVec.ofNat 8 i) 0 0 0) m

/-- `init_idt` up to its `lidt`. -/
def initIdt (T : IdtLayout) (S : StubAddresses) (m : Mem) : Mem :=
  let m := store16 m T.idp (8 * 256 - 1)
  let m := store32 m (T.idp + 2) T.idt
  let m := clearIdt T.idt m
  let m := idtSetGate T.idt m 0 S.isr0HandlerStub 0x08 0x8E
  let m := idtSetGate T.idt m 32 S.irq0HandlerStub 0x08 0x8E
  idtSetGate T.idt m 33 S.irq1HandlerStub 0x08 0x8E

/-- The call of `kernel_idt_set_gate` in `kernel_main`. -/
def setSyscallGate (T : IdtLayout) (S : StubAddresses) (m : Mem) : Mem :=
  idtSetGate T.idt m 0x80 S.sysHandlerStub syscallGateCs 0xEE

/-- The table in memory is the one that `init_idt` and `kernel_main` have built. -/
def IdtBuilt (T : IdtLayout) (S : StubAddresses) (m : Mem) : Prop :=
  ∃ m₀ m₁, (∀ v : Byte, entryBytes m₁ (T.idt + 8 * v.toNat) =
      entryBytes (initIdt T S m₀) (T.idt + 8 * v.toNat)) ∧
    ∀ v : Byte, entryBytes m (T.idt + 8 * v.toNat) =
      entryBytes (setSyscallGate T S m₁) (T.idt + 8 * v.toNat)

def kernelGate (S : StubAddresses) (v : Byte) : GateDescriptor :=
  if v = 0x80 then ⟨S.sysHandlerStub.toNat, 0x08, 0, 0xEE⟩
  else if v = 33 then ⟨S.irq1HandlerStub.toNat, 0x08, 0, 0x8E⟩
  else if v = 32 then ⟨S.irq0HandlerStub.toNat, 0x08, 0, 0x8E⟩
  else if v = 0 then ⟨S.isr0HandlerStub.toNat, 0x08, 0, 0x8E⟩
  else ⟨0, 0, 0, 0⟩

section

variable {T : IdtLayout} {S : StubAddresses} {m : Mem}

theorem clearIdt_eq_run (T : IdtLayout) (m : Mem) : clearIdt T.idt m =
    (idtCalls T.idt T.idt_fits).run m
      ((List.range 256).map fun i => ⟨BitVec.ofNat 8 i, 0, 0, 0⟩) := by
  rw [SlotCalls.run, List.foldl_map]
  rfl

theorem readGate_clearIdt (T : IdtLayout) (m : Mem) (v : Byte) :
    readGate (clearIdt T.idt m) (T.idt + 8 * v.toNat) = ⟨0, 0, 0, 0⟩ := by
  have hnodup : (((List.range 256).map fun i => (⟨BitVec.ofNat 8 i, 0, 0, 0⟩ : IdtCall)).map
      IdtCall.num).Nodup := by
    rw [List.map_map]
    refine List.nodup_range.map_on ?_
    intro i hi j hj heq
    have hval := congrArg BitVec.toNat heq
    rw [List.mem_range] at hi hj
    simp only [Function.comp_apply, BitVec.toNat_ofNat] at hval
    omega
  have hmem : (⟨v, 0, 0, 0⟩ : IdtCall) ∈
      (List.range 256).map fun i => (⟨BitVec.ofNat 8 i, 0, 0, 0⟩ : IdtCall) := by
    refine List.mem_map.mpr ⟨v.toNat, List.mem_range.mpr v.isLt, ?_⟩
    rw [BitVec.ofNat_toNat, BitVec.setWidth_eq]
  rw [clearIdt_eq_run]
  exact readGate_idtCalls T hnodup hmem m

theorem clearIdt_apply (T : IdtLayout) (m : Mem) {x : Nat}
    (hx : x < T.idt ∨ T.idt + 2048 ≤ x) : clearIdt T.idt m x = m x := by
  unfold clearIdt
  generalize List.range 256 = l
  induction l generalizing m with
  | nil => rfl
  | cons i l ih =>
    have hi := (BitVec.ofNat 8 i).isLt
    rw [List.foldl_cons, ih, idtSetGate_apply _ _ _ _ _ _ T.idt_fits (by omega)]

theorem initIdt_apply (T : IdtLayout) (S : StubAddresses) (m : Mem) {x : Nat}
    (hx : x < T.idt ∨ T.idt + 2048 ≤ x) :
    initIdt T S m x = store32 (store16 m T.idp (8 * 256 - 1)) (T.idp + 2) T.idt x := by
  have hfit := T.idt_fits
  have h0 : (0 : Byte).toNat = 0 := rfl
  have h32 : (32 : Byte).toNat = 32 := rfl
  have h33 : (33 : Byte).toNat = 33 := rfl
  rw [initIdt, idtSetGate_apply _ _ _ _ _ _ hfit (by omega),
    idtSetGate_apply _ _ _ _ _ _ hfit (by omega), idtSetGate_apply _ _ _ _ _ _ hfit (by omega),
    clearIdt_apply T _ hx]

/-- **What `lidt` reads**: the address of the table, and a limit that takes in all of its
gates. -/
theorem idp_initIdt (T : IdtLayout) (S : StubAddresses) (m : Mem) :
    load16 (initIdt T S m) T.idp = 2047 ∧ load32 (initIdt T S m) (T.idp + 2) = T.idt := by
  have hidt := T.idt_fits
  have hidp := T.idp_fits
  have hapart := T.idt_idp
  refine ⟨?_, ?_⟩
  · rw [load16_of_bytes (by omega) fun x _ _ => initIdt_apply T S m (by omega),
      load16_store32_out _ _ (by simp only [Off]; omega) (by simp only [Off]; omega),
      load16_store16_same _ _ (by decide)]
  · rw [load32_of_bytes (by omega) fun x _ _ => initIdt_apply T S m (by omega),
      load32_store32_same _ _ (by omega)]

/-- **The gate of each vector.** -/
theorem readGate_idtBuilt (h : IdtBuilt T S m) (v : Byte) :
    readGate m (T.idt + 8 * v.toNat) = kernelGate S v := by
  obtain ⟨m₀, m₁, hinit, hsyscall⟩ := h
  have hfit := T.idt_fits
  rw [readGate_of_entryBytes (hsyscall v), setSyscallGate, readGate_idtSetGate_if _ _ _ _ _ _ _ hfit,
    readGate_of_entryBytes (hinit v), initIdt]
  rw [readGate_idtSetGate_if _ _ _ _ _ _ _ hfit, readGate_idtSetGate_if _ _ _ _ _ _ _ hfit,
    readGate_idtSetGate_if _ _ _ _ _ _ _ hfit, readGate_clearIdt]
  rfl

/-- **A program in ring 3** gets through the gate `0x80`, and through no other. -/
theorem admitsInt_user_iff (h : IdtBuilt T S m) (v : Byte) :
    (readGate m (T.idt + 8 * v.toNat)).AdmitsInt 3 ↔ v = 0x80 := by
  have hopen : (0xEE : Byte).getLsbD 7 = true ∧ 3 ≤ (0xEE : Byte).toNat / 32 % 4 := by decide
  have hkernel : ¬ ((0x8E : Byte).getLsbD 7 = true ∧ 3 ≤ (0x8E : Byte).toNat / 32 % 4) := by decide
  have habsent : ¬ ((0 : Byte).getLsbD 7 = true ∧ 3 ≤ (0 : Byte).toNat / 32 % 4) := by decide
  rw [readGate_idtBuilt h, kernelGate]
  by_cases hv : v = 0x80
  · rw [if_pos hv]
    exact iff_of_true hopen hv
  · rw [if_neg hv]
    refine iff_of_false ?_ hv
    split_ifs
    · exact hkernel
    · exact hkernel
    · exact hkernel
    · exact habsent

theorem irqGate_eq (h : IdtBuilt T S m) {v : Byte} {g : IdtGate} (hg : irqGate v.toNat = some g) :
    (readGate m (T.idt + 8 * v.toNat)).flags = g.flags ∧
      (readGate m (T.idt + 8 * v.toNat)).present = true := by
  have hpresent : (0x8E : Byte).getLsbD 7 = true := by decide
  rw [readGate_idtBuilt h]
  rw [irqGate] at hg
  split_ifs at hg with h32 h33
  · have hv : v = 32 := BitVec.eq_of_toNat_eq h32
    subst hv
    cases hg
    exact ⟨rfl, hpresent⟩
  · have hv : v = 33 := BitVec.eq_of_toNat_eq h33
    subst hv
    cases hg
    exact ⟨rfl, hpresent⟩

theorem stubEntry_eq (C : SyscallSite) (c : Machine) (h : IdtBuilt T S c.mem)
    (hhandler : C.handler = S.sysHandlerStub) :
    let g := readGate c.mem (T.idt + 8 * 0x80)
    stubEntry C c =
      c.interrupt (BitVec.ofNat 16 g.selector) (BitVec.ofNat 32 g.offset) C.inner (c.eip + 2) := by
  intro g
  have hg : g = ⟨S.sysHandlerStub.toNat, 0x08, 0, 0xEE⟩ := readGate_idtBuilt h 0x80
  rw [hg, stubEntry, hhandler]
  simp only
  rw [BitVec.ofNat_toNat, BitVec.setWidth_eq]
  rfl

end

end Antagonist
