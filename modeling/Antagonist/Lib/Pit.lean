import Mathlib.Data.BitVec

/-!
# The 8254 interval timer

Counter 0: a control word says how its count is written, a byte or two, and in which mode it counts.
A count of zero stands for `2 ^ 16`.

* `Pit.count_lowHigh`: the count that two bytes leave, low before high.
-/

namespace I8254

/-- The registers of counter 0.  `reload` is missing until a count is written in full. -/
structure Pit where
  access : Nat
  mode : Nat
  bcd : Bool
  low : Option (BitVec 8)
  reload : Option (BitVec 16)

/-- A byte on the control port.  A latch command, and a word for another counter, do not touch the
count. -/
def Pit.writeControl (p : Pit) (b : BitVec 8) : Pit :=
  if b.toNat / 64 ≠ 0 ∨ b.toNat / 16 % 4 = 0 then p
  else ⟨b.toNat / 16 % 4, b.toNat / 2 % 8, b.getLsbD 0, none, none⟩

def Pit.writeData (p : Pit) (b : BitVec 8) : Pit :=
  if p.access = 1 then { p with reload := some (b.setWidth 16) }
  else if p.access = 2 then { p with reload := some (b ++ (0 : BitVec 8)) }
  else
    match p.low with
    | none => { p with low := some b }
    | some low => { p with low := none, reload := some (b ++ low) }

/-- How many ticks of the clock a period of the output takes. -/
def period (reload : BitVec 16) : Nat := if reload = 0 then 2 ^ 16 else reload.toNat

/-- **Two bytes** after a control word for low before high. -/
theorem Pit.count_lowHigh {p : Pit} {b : BitVec 8} (hcounter : b.toNat / 64 = 0)
    (haccess : b.toNat / 16 % 4 = 3) (low high : BitVec 8) :
    (((p.writeControl b).writeData low).writeData high) =
      ⟨3, b.toNat / 2 % 8, b.getLsbD 0, none, some (high ++ low)⟩ := by
  have hcontrol : p.writeControl b = ⟨3, b.toNat / 2 % 8, b.getLsbD 0, none, none⟩ := by
    rw [writeControl, if_neg (by omega), haccess]
  rw [hcontrol]
  rfl

end I8254
