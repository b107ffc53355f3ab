import Antagonist.Lib.Memory

/-!
# The Bochs graphics adapter

Registers behind two ports, one for the number of a register and one for its value.  The resolution
and the depth are only taken while the adapter is disabled.  When it is enabled the lines become as
long as the resolution says, and its memory is cleared unless bit 7 asks to keep it.

* `pixel?`: what the monitor shows of the linear framebuffer.
* `setMode_eq`: **a mode set from any state** of the registers.
-/

namespace Bga

open ByteMem

/-- The registers, and the number of the one that is selected. -/
structure Card where
  index : BitVec 16
  xres : BitVec 16
  yres : BitVec 16
  bpp : BitVec 16
  enable : BitVec 16
  virtWidth : BitVec 16
  xOffset : BitVec 16
  yOffset : BitVec 16

/-- The memory of the adapter. -/
structure Vram where
  base : Nat
  size : Nat
  fits : base + size ≤ 2 ^ 32

def Card.enabled (c : Card) : Bool := c.enable.getLsbD 0

def Card.writeData (c : Card) (v : BitVec 16) : Card :=
  if c.index = 1 then if c.enabled then c else { c with xres := v }
  else if c.index = 2 then if c.enabled then c else { c with yres := v }
  else if c.index = 3 then if c.enabled then c else { c with bpp := v }
  else if c.index = 4 then
    if v.getLsbD 0 && !c.enabled then
      { c with enable := v, virtWidth := c.xres, xOffset := 0, yOffset := 0 }
    else { c with enable := v }
  else if c.index = 6 then { c with virtWidth := v }
  else if c.index = 8 then { c with xOffset := v }
  else if c.index = 9 then { c with yOffset := v }
  else c

/-- The value clears the memory. -/
def Card.clears (c : Card) (v : BitVec 16) : Bool :=
  c.index = 4 && v.getLsbD 0 && !c.enabled && !v.getLsbD 7

def outw (V : Vram) (s : Card × Mem) (port : Nat) (v : BitVec 16) : Card × Mem :=
  if port = 0x1CE then ({ s.1 with index := v }, s.2)
  else if port = 0x1CF then
    (s.1.writeData v, if s.1.clears v then fillBytes s.2 V.base 0 V.size else s.2)
  else s

def writeRegister (V : Vram) (s : Card × Mem) (index v : BitVec 16) : Card × Mem :=
  outw V (outw V s 0x1CE index) 0x1CF v

structure Mode where
  width : BitVec 16
  height : BitVec 16
  bpp : BitVec 16
  flags : BitVec 16

/-- Disabled, the resolution and the depth, and enabled again. -/
def setMode (V : Vram) (s : Card × Mem) (d : Mode) : Card × Mem :=
  [((4 : BitVec 16), (0 : BitVec 16)), (1, d.width), (2, d.height), (3, d.bpp), (4, d.flags)].foldl
    (fun s r => writeRegister V s r.1 r.2) s

/-- The word that the monitor shows at column `x` of row `y`. -/
def pixel? (V : Vram) (s : Card × Mem) (x y : Nat) : Option Nat :=
  if s.1.enable.getLsbD 0 ∧ s.1.enable.getLsbD 6 ∧ s.1.bpp = 32 ∧ x < s.1.xres.toNat ∧
      y < s.1.yres.toNat then
    some (load32 s.2 (V.base +
      4 * ((y + s.1.yOffset.toNat) * s.1.virtWidth.toNat + (x + s.1.xOffset.toNat))))
  else none

theorem writeRegister_enable (V : Vram) {c : Card} (m : Mem) {v : BitVec 16}
    (hoff : c.enabled = false) (henable : v.getLsbD 0 = true) (hclear : v.getLsbD 7 = false) :
    writeRegister V (c, m) 4 v =
      ({ c with index := 4, enable := v, virtWidth := c.xres, xOffset := 0, yOffset := 0 },
        fillBytes m V.base 0 V.size) := by
  have hon : ({ c with index := 4 } : Card).enabled = false := hoff
  simp only [writeRegister, outw, Card.clears, Card.writeData, hon, henable, hclear, if_true]
  rfl

def Mode.card (d : Mode) : Card := ⟨4, d.width, d.height, d.bpp, d.flags, d.width, 0, 0⟩

/-- **A mode is set from any state.** -/
theorem setMode_eq (V : Vram) (s : Card × Mem) {d : Mode} (henable : d.flags.getLsbD 0 = true)
    (hclear : d.flags.getLsbD 7 = false) :
    setMode V s d = (d.card, fillBytes s.2 V.base 0 V.size) := by
  obtain ⟨c, m⟩ := s
  have hdisable : writeRegister V (c, m) 4 0 = ({ c with index := 4, enable := 0 }, m) := by
    simp [writeRegister, outw, Card.clears, Card.writeData]
  -- disabled from here on, so each of the three is taken
  have hmode : writeRegister V (writeRegister V (writeRegister V
      ({ c with index := 4, enable := 0 }, m) 1 d.width) 2 d.height) 3 d.bpp =
        (⟨3, d.width, d.height, d.bpp, 0, c.virtWidth, c.xOffset, c.yOffset⟩, m) := by
    simp [writeRegister, outw, Card.clears, Card.writeData, Card.enabled]
  simp only [setMode, List.foldl_cons, List.foldl_nil]
  rw [hdisable, hmode, writeRegister_enable V m (by simp [Card.enabled]) henable hclear]
  rfl

end Bga
