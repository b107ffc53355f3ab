import Antagonist.Lib.Memory

/-!
# Descriptors and the I/O permission bitmap

How a 32-bit x86 reads a segment descriptor and an interrupt gate from memory, and when it lets
`in` and `out` pass: at a privilege level above IOPL the bit of the port in the
bitmap of the task state segment decides.  `iomapBaseOffset` is where the
segment says where its bitmap starts.

Both kinds of descriptor are entries of eight bytes, `entryBytes`, and nothing else is read.
-/

namespace Segment

open ByteMem

/-- The eight bytes of a descriptor, put together.  `flags` is the high half of
byte 6. -/
structure Descriptor where
  base : Nat
  limit : Nat
  access : Byte
  flags : Byte
  deriving DecidableEq

def readDescriptor (m : Mem) (a : Nat) : Descriptor where
  base := load16 m (a + 2) + 65536 * (load8 m (a + 4)).toNat + 16777216 * (load8 m (a + 7)).toNat
  limit := load16 m a + 65536 * (load8 m (a + 6) &&& 0x0F#8).toNat
  access := load8 m (a + 5)
  flags := load8 m (a + 6) &&& 0xF0#8

theorem readDescriptor_congr {m m' : Mem} {a : Nat}
    (h : ∀ i < 8, load8 m' (a + i) = load8 m (a + i)) : readDescriptor m' a = readDescriptor m a := by
  have h0 : load8 m' a = load8 m a := h 0 (by decide)
  have h3 : load8 m' (a + 2 + 1) = load8 m (a + 2 + 1) := h 3 (by decide)
  rw [readDescriptor, readDescriptor, load16, load16, load16, load16, h0, h 1 (by decide),
    h 2 (by decide), h3, h 4 (by decide), h 5 (by decide), h 6 (by decide), h 7 (by decide)]

def entryBytes (m : Mem) (a : Nat) (i : Fin 8) : Byte := load8 m (a + i)

theorem entryBytes_congr {m m' : Mem} {a : Nat}
    (h : ∀ i < 8, load8 m' (a + i) = load8 m (a + i)) : entryBytes m' a = entryBytes m a := by
  funext i
  exact h i i.isLt

theorem entryBytes_ext {m m' : Mem} {a : Nat} (h0 : load8 m' a = load8 m a)
    (h1 : load8 m' (a + 1) = load8 m (a + 1)) (h2 : load8 m' (a + 2) = load8 m (a + 2))
    (h3 : load8 m' (a + 3) = load8 m (a + 3)) (h4 : load8 m' (a + 4) = load8 m (a + 4))
    (h5 : load8 m' (a + 5) = load8 m (a + 5)) (h6 : load8 m' (a + 6) = load8 m (a + 6))
    (h7 : load8 m' (a + 7) = load8 m (a + 7)) : entryBytes m' a = entryBytes m a := by
  funext i
  match i with
  | 0 => exact h0
  | 1 => exact h1
  | 2 => exact h2
  | 3 => exact h3
  | 4 => exact h4
  | 5 => exact h5
  | 6 => exact h6
  | 7 => exact h7

theorem entryBytes_of_bytes {m m' : Mem} {a : Nat} (ha : a + 8 ≤ 2 ^ 32)
    (h : ∀ x, a ≤ x → x < a + 8 → m' x = m x) : entryBytes m' a = entryBytes m a := by
  refine entryBytes_congr ?_
  intro i hi
  rw [load8, load8, Nat.mod_eq_of_lt (by omega), h _ (by omega) (by omega)]

theorem load8_of_entryBytes {m m' : Mem} {a : Nat} (h : entryBytes m' a = entryBytes m a) :
    ∀ i < 8, load8 m' (a + i) = load8 m (a + i) := by
  intro i hi
  exact congrFun h ⟨i, hi⟩

theorem readDescriptor_of_entryBytes {m m' : Mem} {a : Nat}
    (h : entryBytes m' a = entryBytes m a) : readDescriptor m' a = readDescriptor m a :=
  readDescriptor_congr (load8_of_entryBytes h)

/-- The offset of the last byte: the limit counts pages when the granularity
flag is set. -/
def Descriptor.lastByte (d : Descriptor) : Nat :=
  if d.flags.getLsbD 7 then d.limit * 4096 + 4095 else d.limit

def Descriptor.present (d : Descriptor) : Bool := d.access.getLsbD 7

def Descriptor.dpl (d : Descriptor) : Nat := d.access.toNat / 32 % 4

/-- A code segment, and not a system segment. -/
def Descriptor.isCode (d : Descriptor) : Bool := d.access.getLsbD 4 && d.access.getLsbD 3

def Descriptor.isWritableData (d : Descriptor) : Bool :=
  d.access.getLsbD 4 && !d.access.getLsbD 3 && d.access.getLsbD 1

/-- The descriptor that a selector names, in the table at `gdt`. -/
def select (m : Mem) (gdt selector : Nat) : Descriptor := readDescriptor m (gdt + selector / 8 * 8)

/-! ### Interrupt gates -/

/-- The eight bytes of a gate, put together. -/
structure GateDescriptor where
  offset : Nat
  selector : Nat
  reserved : Byte
  flags : Byte
  deriving DecidableEq

def readGate (m : Mem) (a : Nat) : GateDescriptor where
  offset := load16 m a + 65536 * load16 m (a + 6)
  selector := load16 m (a + 2)
  reserved := load8 m (a + 4)
  flags := load8 m (a + 5)

theorem readGate_congr {m m' : Mem} {a : Nat}
    (h : ∀ i < 8, load8 m' (a + i) = load8 m (a + i)) : readGate m' a = readGate m a := by
  have h0 : load8 m' a = load8 m a := h 0 (by decide)
  have h3 : load8 m' (a + 2 + 1) = load8 m (a + 2 + 1) := h 3 (by decide)
  have h7 : load8 m' (a + 6 + 1) = load8 m (a + 6 + 1) := h 7 (by decide)
  rw [readGate, readGate, load16, load16, load16, load16, load16, load16, h0, h 1 (by decide),
    h 2 (by decide), h3, h 4 (by decide), h 5 (by decide), h 6 (by decide), h7]

theorem readGate_of_entryBytes {m m' : Mem} {a : Nat}
    (h : entryBytes m' a = entryBytes m a) : readGate m' a = readGate m a :=
  readGate_congr (load8_of_entryBytes h)

def GateDescriptor.present (g : GateDescriptor) : Bool := g.flags.getLsbD 7

/-- The privilege level that an `int` needs. -/
def GateDescriptor.dpl (g : GateDescriptor) : Nat := g.flags.toNat / 32 % 4

/-- An `int` at the privilege level `cpl` goes through the gate. -/
def GateDescriptor.AdmitsInt (g : GateDescriptor) (cpl : Nat) : Prop :=
  g.present = true ∧ cpl ≤ g.dpl

instance (g : GateDescriptor) (cpl : Nat) : Decidable (g.AdmitsInt cpl) :=
  inferInstanceAs (Decidable (_ ∧ _))

/-! ### Privilege and ports -/

def privilege (selector : Nat) : Nat := selector % 4

def iopl (eflags : Nat) : Nat := eflags / 2 ^ 12 % 4

def iomapBaseOffset : Nat := 102

/-- The bitmap lets a byte access to `port` pass: the two bytes read from it lie
within the segment and the bit is clear. -/
def BitmapAllows (m : Mem) (tss : Descriptor) (port : Nat) : Prop :=
  let offset := load16 m (tss.base + iomapBaseOffset) + port / 8
  offset + 1 ≤ tss.lastByte ∧ (load8 m (tss.base + offset)).getLsbD (port % 8) = false

def PortFaults (m : Mem) (tss : Descriptor) (cs eflags port : Nat) : Prop :=
  iopl eflags < privilege cs ∧ ¬ BitmapAllows m tss port

end Segment
