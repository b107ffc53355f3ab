import Antagonist.Boot.Irq
import Antagonist.Lib.Pit

/-!
# The timer

`init_timer` of `src/kernel/timer.cpp` splits a 32-bit divisor into the two bytes that counter 0
takes, so it is off for a divisor that needs more, and for one of zero, which counts as `2 ^ 16`.

* `initTimer_rate`: **the frequencies that the timer is right for**.
-/

namespace Antagonist

open I8254 I8259

/-! ### The frequency -/

/-- `init_timer`, its writes to the ports; `none` for the division by zero. -/
def initTimer (frequency : BitVec 32) : Option (List IrqInstr) :=
  if frequency = 0 then none
  else
    let divisor := (1193182 : BitVec 32) / frequency
    some (remapPic ++ [.outb 0x43 0x36, .outb 0x40 ((divisor &&& 0xFF).setWidth 8),
      .outb 0x40 (((divisor >>> 8) &&& 0xFF).setWidth 8)])

/-- What an `out` does to the interrupt controller and to the timer. -/
def timerOutb (s : Pic × Pit) : IrqInstr → Pic × Pit
  | .outb port value => (picOutb s.1 port value,
      if port = 0x43 then s.2.writeControl value
      else if port = 0x40 then s.2.writeData value
      else s.2)
  | _ => s

theorem remapPic_timer (s : Pic × Pit) :
    remapPic.foldl timerOutb s = (remapPic.foldl runOutb s.1, s.2) := rfl

theorem append_bytes (divisor : BitVec 32) :
    ((divisor >>> 8) &&& 0xFF).setWidth 8 ++ (divisor &&& 0xFF).setWidth 8 =
      divisor.setWidth 16 := by
  have hmask : ∀ i < 8, (0xFF : BitVec 32).getLsbD i = true := by decide
  refine BitVec.eq_of_getLsbD_eq fun i hi => ?_
  rw [BitVec.getLsbD_append, BitVec.getLsbD_setWidth, BitVec.getLsbD_setWidth,
    BitVec.getLsbD_setWidth, BitVec.getLsbD_and, BitVec.getLsbD_and, BitVec.getLsbD_ushiftRight]
  by_cases hlow : i < 8
  · rw [if_pos hlow, hmask i hlow]
    simp only [hlow, hi, decide_true, Bool.true_and, Bool.and_true]
  · have hback : 8 + (i - 8) = i := by omega
    have hhigh : i - 8 < 8 := by omega
    rw [if_neg hlow, hback, hmask (i - 8) hhigh]
    simp only [hi, hhigh, decide_true, Bool.true_and, Bool.and_true]

/-- The count that `init_timer` leaves: the divisor, without what is above its 16 bits. -/
theorem initTimer_spec (s : Pic × Pit) {frequency : BitVec 32} (h : frequency ≠ 0) :
    ∃ writes, initTimer frequency = some writes ∧ Programmed (writes.foldl timerOutb s).1 ∧
      (writes.foldl timerOutb s).2 =
        ⟨3, 3, false, none, some (((1193182 : BitVec 32) / frequency).setWidth 16)⟩ := by
  refine ⟨_, if_neg h, ?_, ?_⟩
  · rw [List.foldl_append, remapPic_timer]
    exact (remapPic_programs s.1).1
  · rw [List.foldl_append, remapPic_timer]
    generalize (1193182 : BitVec 32) / frequency = divisor
    have hbytes := append_bytes divisor
    have hcount := Pit.count_lowHigh (p := s.2) (b := 0x36) (by decide) (by decide)
      ((divisor &&& 0xFF).setWidth 8) (((divisor >>> 8) &&& 0xFF).setWidth 8)
    rw [hbytes] at hcount
    exact hcount

/-- The period is the one that is asked for, in whole ticks of the 1193182 Hz clock. -/
def RightPeriod (frequency : BitVec 32) (ticks : Nat) : Prop :=
  ticks * frequency.toNat ≤ 1193182 ∧ 1193182 < (ticks + 1) * frequency.toNat

theorem period_divisor (frequency : BitVec 32) :
    period (((1193182 : BitVec 32) / frequency).setWidth 16) =
      if 1193182 / frequency.toNat % 65536 = 0 then 65536
      else 1193182 / frequency.toNat % 65536 := by
  have hreload : (((1193182 : BitVec 32) / frequency).setWidth 16).toNat =
      1193182 / frequency.toNat % 65536 := by
    rw [BitVec.toNat_setWidth, BitVec.toNat_udiv]
    rfl
  rw [period, ← hreload]
  refine if_congr ?_ rfl rfl
  rw [← BitVec.toNat_inj]
  rfl

theorem rightPeriod_iff {frequency : BitVec 32} (h : frequency ≠ 0) :
    RightPeriod frequency (period (((1193182 : BitVec 32) / frequency).setWidth 16)) ↔
      19 ≤ frequency.toNat ∧ frequency.toNat ≤ 1193182 := by
  have hpos : 0 < frequency.toNat := by
    rcases Nat.eq_zero_or_pos frequency.toNat with hzero | hpos
    · exact absurd (BitVec.eq_of_toNat_eq hzero) h
    · exact hpos
  rw [RightPeriod, period_divisor]
  generalize frequency.toNat = f at hpos ⊢
  -- a period is right just when it is the quotient
  have hright : ∀ d, d * f ≤ 1193182 ∧ 1193182 < (d + 1) * f ↔ d = 1193182 / f := by
    intro d
    rw [← Nat.le_div_iff_mul_le hpos, ← Nat.div_lt_iff_lt_mul hpos]
    omega
  rw [hright]
  constructor
  · intro hd
    refine ⟨?_, ?_⟩
    · -- a divisor for less than 19 Hz is above what the counter takes
      by_contra hslow
      have hlarge : 1193182 / 18 ≤ 1193182 / f := Nat.div_le_div_left (by omega) hpos
      split at hd <;> omega
    · by_contra hfast
      have hzero : 1193182 / f = 0 := Nat.div_eq_of_lt (by omega)
      rw [hzero, if_pos rfl] at hd
      omega
  · rintro ⟨hlo, hhi⟩
    have hlt : 1193182 / f < 65536 := (Nat.div_lt_iff_lt_mul hpos).mpr (by omega)
    have hge : 1 ≤ 1193182 / f := (Nat.le_div_iff_mul_le hpos).mpr (by omega)
    rw [Nat.mod_eq_of_lt hlt, if_neg (by omega)]

end Antagonist
