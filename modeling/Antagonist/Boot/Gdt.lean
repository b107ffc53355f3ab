import Antagonist.Lib.Segment
import Antagonist.Lib.Slots

/-!
# The GDT and the task state segment

`kernel/gdt.cpp`: `gdt_set_gate` packs a descriptor into the table, and
`init_gdt` fills six of them, clears the task state segment, and sets the stack
for interrupts from ring 3.

It does not set `iomap_base`, which is left at zero, so the processor takes the
bytes of the segment itself for the I/O permission bitmap.  Nearly all of them
are zero.

* `readDescriptor_gdtSetGate`: what the processor reads back from a gate.
* `readDescriptor_initGates`: the six descriptors of the table.
* `tss_initGdt`: the bytes of the segment, and the descriptor in the task
  register.
* `user_port_faults_iff`: the ports that ring 3 cannot reach.
-/

namespace Antagonist

open ByteMem Segment

/-- `gdt_set_gate` on the table at `gdt`. -/
def gdtSetGate (gdt : Nat) (m : Mem) (num : Nat) (base limit : BitVec 32) (access gran : Byte) :
    Mem :=
  let e := gdt + 8 * num
  let m := store16 m (e + 2) (base &&& 0xFFFF#32).toNat
  let m := store8 m (e + 4) (((base >>> 16) &&& 0xFF#32).setWidth 8)
  let m := store8 m (e + 7) (((base >>> 24) &&& 0xFF#32).setWidth 8)
  let m := store16 m e (limit &&& 0xFFFF#32).toNat
  let m := store8 m (e + 6) (((limit >>> 16) &&& 0x0F#32).setWidth 8)
  let m := store8 m (e + 6) (load8 m (e + 6) ||| (gran &&& 0xF0#8))
  store8 m (e + 5) access

/-- `sizeof(struct tss_entry_struct)`. -/
def tssSize : Nat := 104

/-- Where the linker puts `gdt`, `gp`, `tss_entry` and `tss_kernel_stack`.  The
first three do not overlap. -/
structure GdtLayout where
  gdt : Nat
  gp : Nat
  tssEntry : Nat
  tssKernelStack : Nat
  gdt_fits : gdt + 48 ≤ 2 ^ 32
  gp_fits : gp + 6 ≤ 2 ^ 32
  tss_fits : tssEntry + tssSize ≤ 2 ^ 32
  stack_fits : tssKernelStack + 4096 ≤ 2 ^ 32
  gdt_gp : gdt + 48 ≤ gp ∨ gp + 6 ≤ gdt
  gdt_tss : gdt + 48 ≤ tssEntry ∨ tssEntry + tssSize ≤ gdt
  gp_tss : gp + 6 ≤ tssEntry ∨ tssEntry + tssSize ≤ gp

def initGates (L : GdtLayout) (m : Mem) : Mem :=
  let m := gdtSetGate L.gdt m 0 0 0 0 0
  let m := gdtSetGate L.gdt m 1 0 0xFFFFFFFF 0x9A 0xCF
  let m := gdtSetGate L.gdt m 2 0 0xFFFFFFFF 0x92 0xCF
  let m := gdtSetGate L.gdt m 3 0 0xFFFFFFFF 0xFA 0xCF
  let m := gdtSetGate L.gdt m 4 0 0xFFFFFFFF 0xF2 0xCF
  gdtSetGate L.gdt m 5 (BitVec.ofNat 32 L.tssEntry) (BitVec.ofNat 32 (tssSize - 1)) 0xE9 0x00

/-- `init_gdt` up to its `lgdt`. -/
def initGdt (L : GdtLayout) (m : Mem) : Mem :=
  let m := store16 m L.gp (8 * 6 - 1)
  let m := store32 m (L.gp + 2) L.gdt
  let m := initGates L m
  let m := fillBytes m L.tssEntry 0 tssSize
  let m := store32 m (L.tssEntry + 8) 0x10
  store32 m (L.tssEntry + 4) (add32 L.tssKernelStack 4096)

/-- The descriptor that `ltr` puts into the task register: `lgdt` has read the
table's address from `gp`. -/
def taskRegister (L : GdtLayout) (m : Mem) : Descriptor := select m (load32 m (L.gp + 2)) 0x2B

/-- The code selector and the flags that `jump_to_ring3` pushes. -/
def userCs : Nat := 0x1B
def userEflags : Nat := 0x202

/-- A byte access to `port` by a program that `jump_to_ring3` started faults. -/
def UserPortFaults (L : GdtLayout) (m : Mem) (port : Nat) : Prop :=
  PortFaults (initGdt L m) (taskRegister L (initGdt L m)) userCs userEflags port

/-! ### Masks -/

theorem toNat_and_ffff (v : BitVec 32) : (v &&& 0xFFFF#32).toNat = v.toNat % 65536 := by
  rw [BitVec.toNat_and]
  exact Nat.and_two_pow_sub_one_eq_mod v.toNat 16

theorem toNat_byte_shift (v : BitVec 32) (s : Nat) :
    (((v >>> s) &&& 0xFF#32).setWidth 8).toNat = v.toNat / 2 ^ s % 256 := by
  have hmask : (0xFF#32).toNat = 2 ^ 8 - 1 := rfl
  rw [BitVec.toNat_setWidth, BitVec.toNat_and, BitVec.toNat_ushiftRight, Nat.shiftRight_eq_div_pow,
    hmask, Nat.and_two_pow_sub_one_eq_mod]
  omega

theorem toNat_nibble_shift (v : BitVec 32) (s : Nat) :
    (((v >>> s) &&& 0x0F#32).setWidth 8).toNat = v.toNat / 2 ^ s % 16 := by
  have hmask : (0x0F#32).toNat = 2 ^ 4 - 1 := rfl
  rw [BitVec.toNat_setWidth, BitVec.toNat_and, BitVec.toNat_ushiftRight, Nat.shiftRight_eq_div_pow,
    hmask, Nat.and_two_pow_sub_one_eq_mod]
  omega

theorem getLsbD_of_lt_16 {x : Byte} (hx : x.toNat < 16) {i : Nat} (hi : 4 ≤ i) :
    x.getLsbD i = false :=
  Nat.testBit_lt_two_pow (Nat.lt_of_lt_of_le hx (Nat.pow_le_pow_right (by decide : 0 < 2) hi))

theorem getLsbD_0f {i : Nat} (hi : i < 8) : (0x0F#8).getLsbD i = decide (i < 4) := by
  have h : ∀ j : Fin 8, (0x0F#8).getLsbD j.val = decide (j.val < 4) := by decide
  exact h ⟨i, hi⟩

theorem getLsbD_f0 {i : Nat} (hi : i < 8) : (0xF0#8).getLsbD i = decide (4 ≤ i) := by
  have h : ∀ j : Fin 8, (0xF0#8).getLsbD j.val = decide (4 ≤ j.val) := by decide
  exact h ⟨i, hi⟩

theorem granularity_low {x : Byte} (y : Byte) (hx : x.toNat < 16) :
    (x ||| (y &&& 0xF0#8)) &&& 0x0F#8 = x := by
  refine BitVec.eq_of_getLsbD_eq ?_
  intro i hi
  rw [BitVec.getLsbD_and, BitVec.getLsbD_or, BitVec.getLsbD_and, getLsbD_0f hi, getLsbD_f0 hi]
  by_cases h : i < 4
  · simp [h]
  · simp [h, getLsbD_of_lt_16 hx (Nat.le_of_not_lt h)]

theorem granularity_high {x : Byte} (y : Byte) (hx : x.toNat < 16) :
    (x ||| (y &&& 0xF0#8)) &&& 0xF0#8 = y &&& 0xF0#8 := by
  refine BitVec.eq_of_getLsbD_eq ?_
  intro i hi
  rw [BitVec.getLsbD_and, BitVec.getLsbD_or, BitVec.getLsbD_and, getLsbD_f0 hi]
  by_cases h : i < 4
  · simp [show ¬ 4 ≤ i by omega]
  · simp [getLsbD_of_lt_16 hx (Nat.le_of_not_lt h)]

/-! ### The table -/

structure GateBytes (m : Mem) (e : Nat) (base limit : BitVec 32) (access gran : Byte) : Prop where
  b0 : (load8 m e).toNat = limit.toNat % 256
  b1 : (load8 m (e + 1)).toNat = limit.toNat / 256 % 256
  b2 : (load8 m (e + 2)).toNat = base.toNat % 256
  b3 : (load8 m (e + 3)).toNat = base.toNat / 256 % 256
  b4 : (load8 m (e + 4)).toNat = base.toNat / 65536 % 256
  b5 : load8 m (e + 5) = access
  b6 : load8 m (e + 6) = ((limit >>> 16) &&& 0x0F#32).setWidth 8 ||| (gran &&& 0xF0#8)
  b7 : (load8 m (e + 7)).toNat = base.toNat / 16777216

theorem gateBytes_gdtSetGate (gdt : Nat) (m : Mem) (num : Nat) (base limit : BitVec 32)
    (access gran : Byte) :
    GateBytes (gdtSetGate gdt m num base limit access gran) (gdt + 8 * num) base limit access gran := by
  have hb := base.isLt
  have h3 : gdt + 8 * num + 3 = gdt + 8 * num + 2 + 1 := rfl
  refine ⟨?_, ?_, ?_, ?_, ?_, ?_, ?_, ?_⟩ <;> simp only [gdtSetGate, store16]
  · rw [load8_store8_ne, load8_store8_ne, load8_store8_ne, load8_store8_ne, load8_store8_same,
      toNat_byteOf, toNat_and_ffff] <;> omega
  · rw [load8_store8_ne, load8_store8_ne, load8_store8_ne, load8_store8_same,
      toNat_byteOf, toNat_and_ffff] <;> omega
  · rw [load8_store8_ne, load8_store8_ne, load8_store8_ne, load8_store8_ne, load8_store8_ne,
      load8_store8_ne, load8_store8_ne, load8_store8_ne, load8_store8_same, toNat_byteOf,
      toNat_and_ffff] <;> omega
  · rw [h3, load8_store8_ne, load8_store8_ne, load8_store8_ne, load8_store8_ne, load8_store8_ne,
      load8_store8_ne, load8_store8_ne, load8_store8_same, toNat_byteOf, toNat_and_ffff] <;> omega
  · rw [load8_store8_ne, load8_store8_ne, load8_store8_ne, load8_store8_ne, load8_store8_ne,
      load8_store8_ne, load8_store8_same, toNat_byte_shift] <;> omega
  · rw [load8_store8_same]
  · rw [load8_store8_ne, load8_store8_same, load8_store8_same]
    omega
  · rw [load8_store8_ne, load8_store8_ne, load8_store8_ne, load8_store8_ne, load8_store8_ne,
      load8_store8_same, toNat_byte_shift] <;> omega

theorem gdtSetGate_apply (gdt : Nat) (m : Mem) (num : Nat) (base limit : BitVec 32)
    (access gran : Byte) (hfit : gdt + 8 * num + 8 ≤ 2 ^ 32) {x : Nat}
    (hx : x < gdt + 8 * num ∨ gdt + 8 * num + 8 ≤ x) :
    gdtSetGate gdt m num base limit access gran x = m x := by
  simp only [gdtSetGate, store16]
  rw [store8_apply_ne, store8_apply_ne, store8_apply_ne, store8_apply_ne, store8_apply_ne,
    store8_apply_ne, store8_apply_ne, store8_apply_ne, store8_apply_ne] <;> omega

/-- **What the processor reads back from a gate.** -/
theorem readDescriptor_gdtSetGate (gdt : Nat) (m : Mem) (num : Nat) (base limit : BitVec 32)
    (access gran : Byte) :
    readDescriptor (gdtSetGate gdt m num base limit access gran) (gdt + 8 * num)
      = ⟨base.toNat, limit.toNat % 2 ^ 20, access, gran &&& 0xF0#8⟩ := by
  have B := gateBytes_gdtSetGate gdt m num base limit access gran
  have hb := base.isLt
  have hl := limit.isLt
  have hnib := toNat_nibble_shift limit 16
  have hlt : (((limit >>> 16) &&& 0x0F#32).setWidth 8 : Byte).toNat < 16 := by omega
  rw [readDescriptor, B.b6, granularity_low gran hlt, granularity_high gran hlt, hnib, B.b5, B.b4,
    B.b7, load16, load16, B.b0, B.b1, B.b2, B.b3, Descriptor.mk.injEq]
  refine ⟨?_, ?_, rfl, rfl⟩ <;> omega

/-- The bytes of a gate are those of the call, whatever was there. -/
theorem entryBytes_gdtSetGate (gdt : Nat) (m m' : Mem) (num : Nat) (base limit : BitVec 32)
    (access gran : Byte) :
    entryBytes (gdtSetGate gdt m num base limit access gran) (gdt + 8 * num) =
      entryBytes (gdtSetGate gdt m' num base limit access gran) (gdt + 8 * num) := by
  have B := gateBytes_gdtSetGate gdt m num base limit access gran
  have B' := gateBytes_gdtSetGate gdt m' num base limit access gran
  refine entryBytes_ext ?_ ?_ ?_ ?_ ?_ ?_ ?_ ?_
  · exact BitVec.eq_of_toNat_eq (B.b0.trans B'.b0.symm)
  · exact BitVec.eq_of_toNat_eq (B.b1.trans B'.b1.symm)
  · exact BitVec.eq_of_toNat_eq (B.b2.trans B'.b2.symm)
  · exact BitVec.eq_of_toNat_eq (B.b3.trans B'.b3.symm)
  · exact BitVec.eq_of_toNat_eq (B.b4.trans B'.b4.symm)
  · exact B.b5.trans B'.b5.symm
  · exact B.b6.trans B'.b6.symm
  · exact BitVec.eq_of_toNat_eq (B.b7.trans B'.b7.symm)

theorem entryBytes_gdtSetGate_ne (gdt : Nat) (m : Mem) {num k : Nat} (base limit : BitVec 32)
    (access gran : Byte) (hne : num ≠ k) (hnum : gdt + 8 * num + 8 ≤ 2 ^ 32)
    (hk : gdt + 8 * k + 8 ≤ 2 ^ 32) :
    entryBytes (gdtSetGate gdt m num base limit access gran) (gdt + 8 * k) =
      entryBytes m (gdt + 8 * k) := by
  refine entryBytes_of_bytes hk ?_
  intro x hlo hhi
  exact gdtSetGate_apply gdt m num base limit access gran hnum (by omega)

/-- The arguments of a call of `gdt_set_gate`, with an index in the table. -/
structure GdtCall where
  num : Fin 6
  base : BitVec 32
  limit : BitVec 32
  access : Byte
  gran : Byte

def GdtCall.descriptor (c : GdtCall) : Descriptor :=
  ⟨c.base.toNat, c.limit.toNat % 2 ^ 20, c.access, c.gran &&& 0xF0#8⟩

/-- The calls of `gdt_set_gate`, each on the entry of its index. -/
def gdtCalls (gdt : Nat) (hfit : gdt + 48 ≤ 2 ^ 32) :
    SlotCalls Mem GdtCall (Fin 6) (Fin 8 → Byte) where
  call m c := gdtSetGate gdt m c.num c.base c.limit c.access c.gran
  slot c := c.num
  read m k := entryBytes m (gdt + 8 * k)
  frame m c k hne := entryBytes_gdtSetGate_ne gdt m c.base c.limit c.access c.gran
    (fun heq => hne (Fin.ext heq)) (by omega) (by omega)
  overwrite m m' c := entryBytes_gdtSetGate gdt m m' c.num c.base c.limit c.access c.gran

/-- **Calls on distinct indices** are all read back. -/
theorem readDescriptor_gdtCalls {gdt : Nat} (hfit : gdt + 48 ≤ 2 ^ 32) {calls : List GdtCall}
    (hnodup : (calls.map GdtCall.num).Nodup) {c : GdtCall} (hc : c ∈ calls) (m : Mem) :
    readDescriptor ((gdtCalls gdt hfit).run m calls) (gdt + 8 * c.num) = c.descriptor := by
  have hbytes : entryBytes ((gdtCalls gdt hfit).run m calls) (gdt + 8 * c.num) =
      entryBytes (gdtSetGate gdt m c.num c.base c.limit c.access c.gran) (gdt + 8 * c.num) :=
    (gdtCalls gdt hfit).read_run_mem hnodup hc m m
  rw [readDescriptor_of_entryBytes hbytes, readDescriptor_gdtSetGate, GdtCall.descriptor]

def initGdtCalls (L : GdtLayout) : List GdtCall :=
  [⟨0, 0, 0, 0, 0⟩, ⟨1, 0, 0xFFFFFFFF, 0x9A, 0xCF⟩, ⟨2, 0, 0xFFFFFFFF, 0x92, 0xCF⟩,
    ⟨3, 0, 0xFFFFFFFF, 0xFA, 0xCF⟩, ⟨4, 0, 0xFFFFFFFF, 0xF2, 0xCF⟩,
    ⟨5, BitVec.ofNat 32 L.tssEntry, BitVec.ofNat 32 (tssSize - 1), 0xE9, 0x00⟩]

theorem initGates_eq_run (L : GdtLayout) (m : Mem) :
    initGates L m = (gdtCalls L.gdt L.gdt_fits).run m (initGdtCalls L) := rfl

/-- **The six descriptors** are those of the calls. -/
theorem readDescriptor_initGates (L : GdtLayout) (m : Mem) (k : Fin 6) :
    readDescriptor (initGates L m) (L.gdt + 8 * k) = ((initGdtCalls L).get k).descriptor := by
  have hnodup : ((initGdtCalls L).map GdtCall.num).Nodup := by
    show [(0 : Fin 6), 1, 2, 3, 4, 5].Nodup
    decide
  have hnum : ((initGdtCalls L).get k).num = k := by
    match k with
    | 0 | 1 | 2 | 3 | 4 | 5 => rfl
  have hread := readDescriptor_gdtCalls L.gdt_fits hnodup ((initGdtCalls L).get_mem k) m
  rwa [hnum, ← initGates_eq_run] at hread

/-! ### The task state segment -/

section

variable (L : GdtLayout) (m : Mem)

/-- `init_gdt` before it turns to the task state segment. -/
def gatesDone : Mem := initGates L (store32 (store16 m L.gp (8 * 6 - 1)) (L.gp + 2) L.gdt)

/-- The stores into the segment leave everything else alone. -/
theorem initGdt_apply_out {x : Nat} (hlt : x < 2 ^ 32)
    (hx : x < L.tssEntry ∨ L.tssEntry + tssSize ≤ x) : initGdt L m x = gatesDone L m x := by
  have hfit := L.tss_fits
  simp only [tssSize] at hfit hx
  simp only [initGdt]
  rw [store32_apply_out, store32_apply_out, fillBytes_apply _ _ (by simp only [tssSize]; omega),
    if_neg (by simp only [tssSize]; omega), gatesDone]
  · simp only [Off]; omega
  · simp only [Off]; omega

/-- The kernel stack that the segment names. -/
def espZero : Nat := add32 L.tssKernelStack 4096

/-- **The bytes of the segment**: zero but for the stack and its selector. -/
theorem load8_tss {i : Nat} (hi : i < tssSize) :
    load8 (initGdt L m) (L.tssEntry + i) =
      if 4 ≤ i ∧ i < 8 then byteOf (espZero L) (i - 4) else if i = 8 then 0x10 else 0 := by
  have hfit := L.tss_fits
  simp only [tssSize] at hfit hi
  simp only [initGdt]
  by_cases h4 : 4 ≤ i ∧ i < 8
  · have hadd : L.tssEntry + i = L.tssEntry + 4 + (i - 4) := by omega
    rw [if_pos h4, hadd, load8_store32_in _ _ _ (by omega)]
    rfl
  · rw [if_neg h4, load8_store32_out _ _ (by simp only [Off]; omega)]
    by_cases h8 : 8 ≤ i ∧ i < 12
    · have hadd : L.tssEntry + i = L.tssEntry + 8 + (i - 8) := by omega
      have hbyte : ∀ j : Fin 4, byteOf 0x10 j.val = if j.val = 0 then 0x10 else 0 := by decide
      rw [hadd, load8_store32_in _ _ _ (by omega), hbyte ⟨i - 8, by omega⟩]
      exact if_congr (by simp only; omega) rfl rfl
    · rw [if_neg (by omega : ¬ i = 8), load8_store32_out _ _ (by simp only [Off]; omega), load8,
        Nat.mod_eq_of_lt (by omega), fillBytes_apply _ _ (by simp only [tssSize]; omega),
        if_pos (by simp only [tssSize]; omega)]

theorem readDescriptor_initGdt {k : Nat} (hk : k < 6) :
    readDescriptor (initGdt L m) (L.gdt + 8 * k) =
      readDescriptor (gatesDone L m) (L.gdt + 8 * k) := by
  have hfit := L.gdt_fits
  have hapart := L.gdt_tss
  refine readDescriptor_of_entryBytes (entryBytes_of_bytes (by omega) ?_)
  intro x hlo hhi
  exact initGdt_apply_out L m (by omega) (by omega)

theorem initGates_apply (m : Mem) {x : Nat} (hx : x < L.gdt ∨ L.gdt + 48 ≤ x) :
    initGates L m x = m x := by
  have hfit := L.gdt_fits
  rw [initGates, gdtSetGate_apply, gdtSetGate_apply, gdtSetGate_apply, gdtSetGate_apply,
    gdtSetGate_apply, gdtSetGate_apply] <;> omega

/-- `gp` still holds the address of the table when `lgdt` reads it. -/
theorem load32_gp : load32 (initGdt L m) (L.gp + 2) = L.gdt := by
  have h1 := L.gdt_fits
  have h2 := L.gp_fits
  have h3 := L.gdt_gp
  have h4 := L.gp_tss
  have hsame : load32 (initGdt L m) (L.gp + 2)
      = load32 (store32 (store16 m L.gp (8 * 6 - 1)) (L.gp + 2) L.gdt) (L.gp + 2) := by
    refine load32_of_bytes (by omega) ?_
    intro x _ _
    rw [initGdt_apply_out L m (by omega) (by omega), gatesDone, initGates_apply L _ (by omega)]
  rw [hsame, load32_store32_same _ _ (by omega)]

/-- **The task register** holds the base and the limit of the segment. -/
theorem taskRegister_initGdt : taskRegister L (initGdt L m) = ⟨L.tssEntry, 103, 0xE9, 0⟩ := by
  have hfit := L.tss_fits
  have hbase : (BitVec.ofNat 32 L.tssEntry).toNat = L.tssEntry := by
    rw [BitVec.toNat_ofNat, Nat.mod_eq_of_lt]
    simp only [tssSize] at hfit
    omega
  have hcall : (initGdtCalls L).get (5 : Fin 6) = ⟨5, BitVec.ofNat 32 L.tssEntry,
      BitVec.ofNat 32 (tssSize - 1), 0xE9, 0x00⟩ := rfl
  rw [taskRegister, select, load32_gp]
  show readDescriptor (initGdt L m) (L.gdt + 8 * 5) = _
  rw [readDescriptor_initGdt L m (by decide), gatesDone]
  refine (readDescriptor_initGates L _ 5).trans ?_
  rw [hcall, GdtCall.descriptor]
  simp only
  rw [hbase]
  rfl

end

/-! ### Ports -/

theorem getLsbD_byteOf (v : Nat) {i k : Nat} (hk : k < 8) :
    (byteOf v i).getLsbD k = v.testBit (8 * i + k) := by
  have hpow : (256 : Nat) ^ i = 2 ^ (8 * i) := by rw [Nat.pow_mul]
  rw [byteOf, BitVec.getLsbD_ofNat, decide_eq_true hk, Bool.true_and, hpow,
    Nat.testBit_div_two_pow, Nat.add_comm]

theorem load16_iomapBase (L : GdtLayout) (m : Mem) :
    load16 (initGdt L m) (L.tssEntry + iomapBaseOffset) = 0 := by
  have h0 := load8_tss L m (by decide : 102 < tssSize)
  have h1 := load8_tss L m (by decide : 103 < tssSize)
  rw [load16, iomapBaseOffset, h0]
  show _ + 256 * (load8 (initGdt L m) (L.tssEntry + 103)).toNat = 0
  rw [h1]
  rfl

/-- **The ports that ring 3 cannot reach**: those past the segment, and those
whose bit happens to be set in it. -/
theorem portFaults_initGdt (L : GdtLayout) (m : Mem) (port : Nat) :
    UserPortFaults L m port ↔
      824 ≤ port ∨ port = 68 ∨ 32 ≤ port ∧ port < 64 ∧ (espZero L).testBit (port - 32) = true := by
  have hpriv : iopl userEflags < privilege userCs := by decide
  have hbytes : ¬ (0 : Byte).getLsbD 7 = true := by decide
  have hlast : (⟨L.tssEntry, 103, 0xE9, 0⟩ : Descriptor).lastByte = 103 := if_neg hbytes
  rw [UserPortFaults, PortFaults, taskRegister_initGdt, and_iff_right hpriv, BitmapAllows]
  simp only
  rw [load16_iomapBase, hlast, Nat.zero_add]
  by_cases hin : port / 8 + 1 ≤ 103
  · have htss : port / 8 < tssSize := by simp only [tssSize]; omega
    rw [and_iff_right hin, load8_tss L m htss, Bool.not_eq_false]
    by_cases hesp : 4 ≤ port / 8 ∧ port / 8 < 8
    · have hbit : 8 * (port / 8 - 4) + port % 8 = port - 32 := by omega
      rw [if_pos hesp, getLsbD_byteOf _ (Nat.mod_lt _ (by decide)), hbit]
      refine ⟨?_, ?_⟩
      · exact fun h => Or.inr (Or.inr ⟨by omega, by omega, h⟩)
      · rintro (h | h | h)
        · omega
        · omega
        · exact h.2.2
    · rw [if_neg hesp]
      by_cases h8 : port / 8 = 8
      · have hbits : ∀ k : Fin 8, (0x10 : Byte).getLsbD k.val = decide (k.val = 4) := by decide
        have hk : port % 8 < 8 := Nat.mod_lt _ (by decide)
        rw [if_pos h8, hbits ⟨port % 8, hk⟩, decide_eq_true_iff]
        simp only
        omega
      · have hzero : (0 : Byte).getLsbD (port % 8) = false := BitVec.getLsbD_zero
        rw [if_neg h8, hzero]
        simp only [Bool.false_eq_true, false_iff]
        omega
  · have hnot : ¬ (port / 8 + 1 ≤ 103 ∧
        (load8 (initGdt L m) (L.tssEntry + port / 8)).getLsbD (port % 8) = false) :=
      fun h => hin h.1
    exact iff_of_true hnot (Or.inl (by omega))

/-- **Ring 3 faults on a port** exactly when the port lies past the segment, or
its bit is one of those set in it: bit 4 of `ss0`, or a bit of `esp0`. -/
theorem user_port_faults_iff (L : GdtLayout) (m : Mem) (port : BitVec 16) :
    UserPortFaults L m port.toNat ↔ 824 ≤ port.toNat ∨ port.toNat = 68 ∨
      32 ≤ port.toNat ∧ port.toNat < 64 ∧
        (L.tssKernelStack + 4096).testBit (port.toNat - 32) = true := by
  have hlt : port.toNat - 32 < 32 ∨ 64 ≤ port.toNat := by omega
  rw [portFaults_initGdt, espZero, add32, Nat.testBit_mod_two_pow]
  rcases hlt with hlt | hge
  · rw [decide_eq_true hlt, Bool.true_and]
  · refine ⟨?_, ?_⟩
    · rintro (h | h | h)
      · exact Or.inl h
      · exact Or.inr (Or.inl h)
      · omega
    · rintro (h | h | h)
      · exact Or.inl h
      · exact Or.inr (Or.inl h)
      · omega

/-- The four objects one after another from 2 MiB on. -/
def someLayout : GdtLayout where
  gdt := 0x200000
  gp := 0x200030
  tssEntry := 0x200038
  tssKernelStack := 0x2000A0
  gdt_fits := by decide
  gp_fits := by decide
  tss_fits := by decide
  stack_fits := by decide
  gdt_gp := by decide
  gdt_tss := by decide
  gp_tss := by decide

/-- Ring 3 reads the keyboard's data port. -/
theorem not_user_port_faults : ¬ ∀ (L : GdtLayout) (m : Mem) (port : BitVec 16),
    UserPortFaults L m port.toNat := by
  intro hall
  have h := (portFaults_initGdt someLayout (fun _ => 0) 0x60).mp
    (hall someLayout (fun _ => 0) 0x60#16)
  revert h
  decide

end Antagonist
