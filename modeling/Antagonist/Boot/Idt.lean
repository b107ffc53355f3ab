import Antagonist.Boot.Gdt

/-!
# The IDT

`kernel/idt.cpp`: `idt_set_gate` packs a gate into the table.  Each call stores the eight bytes of
its own entry, all of them and no others, so with `gdt_set_gate` it is a kind of call on slots:
what an entry holds is up to the last call on it.

* `readGate_idtSetGate`: what the processor reads back from a gate.
* `tableCalls`: the calls of both functions, on the entries of both tables.
* `descriptor_encoders`: what calls on distinct indices leave.
-/

namespace Antagonist

open ByteMem Segment

/-- `idt_set_gate` on the table at `idt`. -/
def idtSetGate (idt : Nat) (m : Mem) (num : Byte) (base : BitVec 32) (sel : BitVec 16)
    (flags : Byte) : Mem :=
  let e := idt + 8 * num.toNat
  let m := store16 m e (base &&& 0xFFFF#32).toNat
  let m := store16 m (e + 6) ((base >>> 16) &&& 0xFFFF#32).toNat
  let m := store16 m (e + 2) sel.toNat
  let m := store8 m (e + 4) 0
  store8 m (e + 5) flags

/-- Where the linker puts `idt` and `idp`, besides the objects of `gdt.cpp`. -/
structure IdtLayout extends GdtLayout where
  idt : Nat
  idp : Nat
  idt_fits : idt + 2048 ≤ 2 ^ 32
  idp_fits : idp + 6 ≤ 2 ^ 32
  idt_idp : idt + 2048 ≤ idp ∨ idp + 6 ≤ idt
  gdt_idt : gdt + 48 ≤ idt ∨ idt + 2048 ≤ gdt

/-! ### A gate -/

structure IdtBytes (m : Mem) (e : Nat) (base : BitVec 32) (sel : BitVec 16) (flags : Byte) :
    Prop where
  b0 : (load8 m e).toNat = base.toNat % 256
  b1 : (load8 m (e + 1)).toNat = base.toNat / 256 % 256
  b2 : (load8 m (e + 2)).toNat = sel.toNat % 256
  b3 : (load8 m (e + 3)).toNat = sel.toNat / 256
  b4 : load8 m (e + 4) = 0
  b5 : load8 m (e + 5) = flags
  b6 : (load8 m (e + 6)).toNat = base.toNat / 65536 % 256
  b7 : (load8 m (e + 7)).toNat = base.toNat / 16777216

theorem idtBytes_idtSetGate (idt : Nat) (m : Mem) (num : Byte) (base : BitVec 32)
    (sel : BitVec 16) (flags : Byte) :
    IdtBytes (idtSetGate idt m num base sel flags) (idt + 8 * num.toNat) base sel flags := by
  have hbase := base.isLt
  have hsel := sel.isLt
  have hhigh : (base >>> 16).toNat = base.toNat / 65536 := by
    rw [BitVec.toNat_ushiftRight, Nat.shiftRight_eq_div_pow]
  have h3 : idt + 8 * num.toNat + 3 = idt + 8 * num.toNat + 2 + 1 := rfl
  have h7 : idt + 8 * num.toNat + 7 = idt + 8 * num.toNat + 6 + 1 := rfl
  refine ⟨?_, ?_, ?_, ?_, ?_, ?_, ?_, ?_⟩ <;> simp only [idtSetGate, store16]
  · rw [load8_store8_ne, load8_store8_ne, load8_store8_ne, load8_store8_ne, load8_store8_ne,
      load8_store8_ne, load8_store8_ne, load8_store8_same, toNat_byteOf, toNat_and_ffff] <;> omega
  · rw [load8_store8_ne, load8_store8_ne, load8_store8_ne, load8_store8_ne, load8_store8_ne,
      load8_store8_ne, load8_store8_same, toNat_byteOf, toNat_and_ffff] <;> omega
  · rw [load8_store8_ne, load8_store8_ne, load8_store8_ne, load8_store8_same, toNat_byteOf] <;> omega
  · rw [h3, load8_store8_ne, load8_store8_ne, load8_store8_same, toNat_byteOf] <;> omega
  · rw [load8_store8_ne, load8_store8_same]
    omega
  · rw [load8_store8_same]
  · rw [load8_store8_ne, load8_store8_ne, load8_store8_ne, load8_store8_ne, load8_store8_ne,
      load8_store8_same, toNat_byteOf, toNat_and_ffff, hhigh] <;> omega
  · rw [h7, load8_store8_ne, load8_store8_ne, load8_store8_ne, load8_store8_ne, load8_store8_same,
      toNat_byteOf, toNat_and_ffff, hhigh] <;> omega

theorem idtSetGate_apply (idt : Nat) (m : Mem) (num : Byte) (base : BitVec 32) (sel : BitVec 16)
    (flags : Byte) (hfit : idt + 2048 ≤ 2 ^ 32) {x : Nat}
    (hx : x < idt + 8 * num.toNat ∨ idt + 8 * num.toNat + 8 ≤ x) :
    idtSetGate idt m num base sel flags x = m x := by
  have hnum := num.isLt
  simp only [idtSetGate, store16]
  rw [store8_apply_ne, store8_apply_ne, store8_apply_ne, store8_apply_ne, store8_apply_ne,
    store8_apply_ne, store8_apply_ne, store8_apply_ne] <;> omega

/-- **What the processor reads back from a gate.** -/
theorem readGate_idtSetGate (idt : Nat) (m : Mem) (num : Byte) (base : BitVec 32)
    (sel : BitVec 16) (flags : Byte) :
    readGate (idtSetGate idt m num base sel flags) (idt + 8 * num.toNat) =
      ⟨base.toNat, sel.toNat, 0, flags⟩ := by
  have B := idtBytes_idtSetGate idt m num base sel flags
  have hbase := base.isLt
  have hsel := sel.isLt
  rw [readGate, B.b4, B.b5, load16, load16, load16, B.b0, B.b1, B.b2, B.b3, B.b6, B.b7,
    GateDescriptor.mk.injEq]
  refine ⟨?_, ?_, rfl, rfl⟩ <;> omega

/-- The bytes of a gate are those of the call, whatever was there. -/
theorem entryBytes_idtSetGate (idt : Nat) (m m' : Mem) (num : Byte) (base : BitVec 32)
    (sel : BitVec 16) (flags : Byte) :
    entryBytes (idtSetGate idt m num base sel flags) (idt + 8 * num.toNat) =
      entryBytes (idtSetGate idt m' num base sel flags) (idt + 8 * num.toNat) := by
  have B := idtBytes_idtSetGate idt m num base sel flags
  have B' := idtBytes_idtSetGate idt m' num base sel flags
  refine entryBytes_ext ?_ ?_ ?_ ?_ ?_ ?_ ?_ ?_
  · exact BitVec.eq_of_toNat_eq (B.b0.trans B'.b0.symm)
  · exact BitVec.eq_of_toNat_eq (B.b1.trans B'.b1.symm)
  · exact BitVec.eq_of_toNat_eq (B.b2.trans B'.b2.symm)
  · exact BitVec.eq_of_toNat_eq (B.b3.trans B'.b3.symm)
  · exact B.b4.trans B'.b4.symm
  · exact B.b5.trans B'.b5.symm
  · exact BitVec.eq_of_toNat_eq (B.b6.trans B'.b6.symm)
  · exact BitVec.eq_of_toNat_eq (B.b7.trans B'.b7.symm)

theorem entryBytes_idtSetGate_ne (idt : Nat) (m : Mem) {num k : Byte} (base : BitVec 32)
    (sel : BitVec 16) (flags : Byte) (hne : num ≠ k) (hfit : idt + 2048 ≤ 2 ^ 32) :
    entryBytes (idtSetGate idt m num base sel flags) (idt + 8 * k.toNat) =
      entryBytes m (idt + 8 * k.toNat) := by
  have hk := k.isLt
  have hindex : num.toNat ≠ k.toNat := fun heq => hne (BitVec.eq_of_toNat_eq heq)
  refine entryBytes_of_bytes (by omega) ?_
  intro x hlo hhi
  exact idtSetGate_apply idt m num base sel flags hfit (by omega)

theorem readGate_idtSetGate_if (idt : Nat) (m : Mem) (num k : Byte) (base : BitVec 32)
    (sel : BitVec 16) (flags : Byte) (hfit : idt + 2048 ≤ 2 ^ 32) :
    readGate (idtSetGate idt m num base sel flags) (idt + 8 * k.toNat) =
      if k = num then ⟨base.toNat, sel.toNat, 0, flags⟩ else readGate m (idt + 8 * k.toNat) := by
  by_cases hk : k = num
  · rw [if_pos hk, hk, readGate_idtSetGate]
  · have hbytes := entryBytes_idtSetGate_ne idt m base sel flags (Ne.symm hk) hfit
    rw [if_neg hk, readGate_of_entryBytes hbytes]

/-! ### The calls -/

/-- The arguments of a call of `idt_set_gate`. -/
structure IdtCall where
  num : Byte
  base : BitVec 32
  sel : BitVec 16
  flags : Byte

def IdtCall.gate (c : IdtCall) : GateDescriptor := ⟨c.base.toNat, c.sel.toNat, 0, c.flags⟩

/-- The calls of `idt_set_gate`, each on the entry of its index. -/
def idtCalls (idt : Nat) (hfit : idt + 2048 ≤ 2 ^ 32) :
    SlotCalls Mem IdtCall Byte (Fin 8 → Byte) where
  call m c := idtSetGate idt m c.num c.base c.sel c.flags
  slot c := c.num
  read m k := entryBytes m (idt + 8 * k.toNat)
  frame m c _ hne := entryBytes_idtSetGate_ne idt m c.base c.sel c.flags hne hfit
  overwrite m m' c := entryBytes_idtSetGate idt m m' c.num c.base c.sel c.flags

section

variable (T : IdtLayout)

/-- A gate of one table leaves the entries of the other alone. -/
theorem entryBytes_gdt_idtSetGate (m : Mem) (k : Fin 6) (num : Byte) (base : BitVec 32)
    (sel : BitVec 16) (flags : Byte) :
    entryBytes (idtSetGate T.idt m num base sel flags) (T.gdt + 8 * k) =
      entryBytes m (T.gdt + 8 * k) := by
  have hnum := num.isLt
  have hgdt := T.gdt_fits
  have hapart := T.gdt_idt
  refine entryBytes_of_bytes (by omega) ?_
  intro x hlo hhi
  exact idtSetGate_apply T.idt m num base sel flags T.idt_fits (by omega)

theorem entryBytes_idt_gdtSetGate (m : Mem) (k : Byte) (num : Fin 6) (base limit : BitVec 32)
    (access gran : Byte) :
    entryBytes (gdtSetGate T.gdt m num base limit access gran) (T.idt + 8 * k.toNat) =
      entryBytes m (T.idt + 8 * k.toNat) := by
  have hk := k.isLt
  have hidt := T.idt_fits
  have hgdt := T.gdt_fits
  have hapart := T.gdt_idt
  refine entryBytes_of_bytes (by omega) ?_
  intro x hlo hhi
  exact gdtSetGate_apply T.gdt m num base limit access gran (by omega) (by omega)

def tableCalls : SlotCalls Mem (GdtCall ⊕ IdtCall) (Fin 6 ⊕ Byte) (Fin 8 → Byte) :=
  (gdtCalls T.gdt T.gdt_fits).sum (idtCalls T.idt T.idt_fits)
    (fun m c k => entryBytes_gdt_idtSetGate T m k c.num c.base c.sel c.flags)
    (fun m c k => entryBytes_idt_gdtSetGate T m k c.num c.base c.limit c.access c.gran)

def entryAddress : Fin 6 ⊕ Byte → Nat
  | .inl k => T.gdt + 8 * k
  | .inr k => T.idt + 8 * k.toNat

theorem read_tableCalls (m : Mem) (k : Fin 6 ⊕ Byte) :
    (tableCalls T).read m k = entryBytes m (entryAddress T k) := by
  cases k with
  | inl k => rfl
  | inr k => rfl

/-- **The encoders**: what the processor reads back from an entry, and that calls on distinct
indices keep to their own entries. -/
theorem descriptor_encoders (m : Mem) :
    (∀ (num : Fin 6) (base limit : BitVec 32) (access gran : Byte),
      readDescriptor (gdtSetGate T.gdt m num base limit access gran) (T.gdt + 8 * num) =
        ⟨base.toNat, limit.toNat % 2 ^ 20, access, gran &&& 0xF0#8⟩) ∧
    (∀ (num : Byte) (base : BitVec 32) (sel : BitVec 16) (flags : Byte),
      readGate (idtSetGate T.idt m num base sel flags) (T.idt + 8 * num.toNat) =
        ⟨base.toNat, sel.toNat, 0, flags⟩) ∧
    (∀ calls : List (GdtCall ⊕ IdtCall), (calls.map (tableCalls T).slot).Nodup →
      (∀ c, .inl c ∈ calls →
        readDescriptor ((tableCalls T).run m calls) (T.gdt + 8 * c.num) = c.descriptor) ∧
      (∀ c, .inr c ∈ calls →
        readGate ((tableCalls T).run m calls) (T.idt + 8 * c.num.toNat) = c.gate) ∧
      (∀ k, k ∉ calls.map (tableCalls T).slot → ∀ i < 8,
        load8 ((tableCalls T).run m calls) (entryAddress T k + i) =
          load8 m (entryAddress T k + i))) := by
  refine ⟨?_, ?_, ?_⟩
  · intro num base limit access gran
    exact readDescriptor_gdtSetGate T.gdt m num base limit access gran
  · intro num base sel flags
    exact readGate_idtSetGate T.idt m num base sel flags
  · intro calls hnodup
    refine ⟨?_, ?_, ?_⟩
    · intro c hc
      have hbytes : entryBytes ((tableCalls T).run m calls) (T.gdt + 8 * c.num) =
          entryBytes (gdtSetGate T.gdt m c.num c.base c.limit c.access c.gran) (T.gdt + 8 * c.num) :=
        (tableCalls T).read_run_mem hnodup hc m m
      rw [readDescriptor_of_entryBytes hbytes]
      exact readDescriptor_gdtSetGate T.gdt m c.num c.base c.limit c.access c.gran
    · intro c hc
      have hbytes : entryBytes ((tableCalls T).run m calls) (T.idt + 8 * c.num.toNat) =
          entryBytes (idtSetGate T.idt m c.num c.base c.sel c.flags) (T.idt + 8 * c.num.toNat) :=
        (tableCalls T).read_run_mem hnodup hc m m
      rw [readGate_of_entryBytes hbytes]
      exact readGate_idtSetGate T.idt m c.num c.base c.sel c.flags
    · intro k hk
      have hnone : ∀ c ∈ calls, (tableCalls T).slot c ≠ k := by
        intro c hc heq
        exact hk (heq ▸ List.mem_map_of_mem hc)
      have hbytes := (tableCalls T).read_run_apart hnone m
      rw [read_tableCalls, read_tableCalls] at hbytes
      exact load8_of_entryBytes hbytes

/-- **Calls of `idt_set_gate` on distinct indices** are all read back. -/
theorem readGate_idtCalls {calls : List IdtCall} (hnodup : (calls.map IdtCall.num).Nodup)
    {c : IdtCall} (hc : c ∈ calls) (m : Mem) :
    readGate ((idtCalls T.idt T.idt_fits).run m calls) (T.idt + 8 * c.num.toNat) = c.gate := by
  have hbytes : entryBytes ((idtCalls T.idt T.idt_fits).run m calls) (T.idt + 8 * c.num.toNat) =
      entryBytes (idtSetGate T.idt m c.num c.base c.sel c.flags) (T.idt + 8 * c.num.toNat) :=
    (idtCalls T.idt T.idt_fits).read_run_mem hnodup hc m m
  rw [readGate_of_entryBytes hbytes, readGate_idtSetGate, IdtCall.gate]

end

/-- The tables one after the other from 2 MiB on. -/
def someIdtLayout : IdtLayout where
  toGdtLayout := someLayout
  idt := 0x202000
  idp := 0x202800
  idt_fits := by decide
  idp_fits := by decide
  idt_idp := by decide
  gdt_idt := by decide

/-- Two gates of the one table and one of the other. -/
theorem descriptor_encoders_three :
    let calls : List (GdtCall ⊕ IdtCall) := [.inl ⟨1, 0x12345678, 0xFFFFF, 0x9A, 0xCF⟩,
      .inr ⟨0x80, 0xDEADBEEF, 0x08, 0xEE⟩, .inl ⟨2, 0, 0x1FFFFF, 0x92, 0xC0⟩]
    let m := (tableCalls someIdtLayout).run (fun _ => 0xFF) calls
    readDescriptor m 0x200008 = ⟨0x12345678, 0xFFFFF, 0x9A, 0xC0⟩ ∧
      readGate m 0x202400 = ⟨0xDEADBEEF, 0x08, 0, 0xEE⟩ ∧ load8 m 0x202408 = 0xFF := by
  intro calls m
  have h := (descriptor_encoders someIdtLayout (fun _ => 0xFF)).2.2 calls (by decide)
  have hother : (Sum.inr 0x81 : Fin 6 ⊕ Byte) ∉ [Sum.inl 1, Sum.inr 0x80, Sum.inl 2] := by
    simp
  exact ⟨h.1 ⟨1, 0x12345678, 0xFFFFF, 0x9A, 0xCF⟩ List.mem_cons_self,
    h.2.1 ⟨0x80, 0xDEADBEEF, 0x08, 0xEE⟩ (List.mem_cons_of_mem _ List.mem_cons_self),
    h.2.2 (.inr 0x81) hother 0 (by decide)⟩

end Antagonist
