import Antagonist.Lib.Memory
import Mathlib.Logic.Function.Basic

/-!
# The terrain

`src/procedural.cpp`.  The tier of a cell is the two low bits of a cubic, and these depend on the
two low bits of `n` alone.  The mixing step `(n << 13) ^ n` does not reach them, so the tier of a
cell follows `n % 4`: it is 3 where that is 2, and 1 everywhere else (`heightTier_eq`).  The terrain
has ridges and clear workspace, and never a peak or a valley (`zone_recurs_iff`).

* `noiseInput`: the number `n` before it is mixed.
* `generateProceduralTopography_apply`: the 400 cells.
-/

namespace Antagonist

open ByteMem

def noisePrimeA : BitVec 32 := 15731

def noisePrimeB : BitVec 32 := 789221

def noisePrimeC : BitVec 32 := 1376312589

/-- `n`, before it is mixed. -/
def noiseInput (x y : BitVec 32) : BitVec 32 := x + y * noisePrimeA

def calculateIntegerNoise (x y : BitVec 32) : BitVec 32 :=
  let n := noiseInput x y
  let n := n <<< 13 ^^^ n
  (n * (n * n * noisePrimeA + noisePrimeB) + noisePrimeC) &&& 0x7FFFFFFF

def heightTier (x y : BitVec 32) : Nat := (calculateIntegerNoise x y).toNat % 4

def zoneChar (heightTier : Nat) : Byte :=
  if heightTier = 0 then 0x23 -- '#'
  else if heightTier = 1 then 0x2A -- '*'
  else if heightTier = 2 then 0x2E -- '.'
  else 0x20 -- ' '

/-- The tier of the cell in column `x` and row `y`, at `ticks`. -/
def cellTier (ticks : BitVec 32) (x y : Nat) : Nat :=
  heightTier (BitVec.ofNat 32 x + ticks / 10) (BitVec.ofNat 32 y)

def generateProceduralTopography (ticks : BitVec 32) (outputMatrix : Nat → Byte) : Nat → Byte :=
  (List.range 5).foldl (fun out y => (List.range 80).foldl (fun out x =>
    Function.update out (y * 80 + x) (zoneChar (cellTier ticks x y))) out) outputMatrix

/-! ### The cells -/

theorem row_apply (ticks : BitVec 32) (y : Nat) (out : Nat → Byte) (i : Nat) :
    (List.range 80).foldl (fun out x =>
      Function.update out (y * 80 + x) (zoneChar (cellTier ticks x y))) out i =
    if y * 80 ≤ i ∧ i < y * 80 + 80 then zoneChar (cellTier ticks (i - y * 80) y) else out i :=
  foldl_range_store (fun out => out) (fun x => zoneChar (cellTier ticks x y))
    (fun out x _ j => by rw [Function.update_apply]) out i

/-- **Every cell gets the character of its tier.** -/
theorem generateProceduralTopography_apply (ticks : BitVec 32) (out : Nat → Byte) {i : Nat}
    (hi : i < 400) : generateProceduralTopography ticks out i =
      zoneChar (cellTier ticks (i % 80) (i / 80)) := by
  have hrows : ∀ n, (List.range n).foldl (fun out y => (List.range 80).foldl (fun out x =>
      Function.update out (y * 80 + x) (zoneChar (cellTier ticks x y))) out) out i =
      if i < n * 80 then zoneChar (cellTier ticks (i % 80) (i / 80)) else out i := by
    intro n
    induction n with
    | zero => rw [if_neg (by omega)]; rfl
    | succ n ih =>
      rw [List.range_succ (n := n), List.foldl_concat, row_apply, ih]
      by_cases hrow : n * 80 ≤ i ∧ i < n * 80 + 80
      · have hx : i - n * 80 = i % 80 := by omega
        have hy : n = i / 80 := by omega
        rw [if_pos hrow, if_pos (by omega), hx, ← hy]
      · rw [if_neg hrow]
        exact if_congr (by omega) rfl rfl
  rw [generateProceduralTopography, hrows, if_pos (by omega)]

/-! ### The low bits of the noise -/

/-- The two low bits of the noise, as a function of the two low bits of `n`. -/
theorem noise_low (x y : BitVec 32) : (calculateIntegerNoise x y).setWidth 2 =
    (if (noiseInput x y).setWidth 2 = 2#2 then 3#2 else 1#2) := by
  have hcubic : ∀ k : BitVec 2, k * (k * k * 3#2 + 1#2) + 1#2 = if k = 2#2 then 3#2 else 1#2 := by
    decide
  have hmix : ∀ n : BitVec 32, (n <<< 13 ^^^ n).setWidth 2 = n.setWidth 2 := by
    intro n
    rw [BitVec.setWidth_xor, BitVec.setWidth_shiftLeft_of_le (by decide),
      BitVec.shiftLeft_eq_zero (by decide), BitVec.zero_xor]
  rw [← hcubic, calculateIntegerNoise, BitVec.setWidth_and]
  simp only [BitVec.setWidth_add, BitVec.setWidth_mul, hmix, Nat.reduceLeDiff]
  have hmask : BitVec.setWidth 2 (0x7FFFFFFF : BitVec 32) = BitVec.allOnes 2 := by decide
  have ha : BitVec.setWidth 2 noisePrimeA = 3#2 := by decide
  have hb : BitVec.setWidth 2 noisePrimeB = 1#2 := by decide
  have hc : BitVec.setWidth 2 noisePrimeC = 1#2 := by decide
  rw [hmask, BitVec.and_allOnes, ha, hb, hc]

/-- **The tier of a cell** is 3 where `n % 4` is 2, and 1 everywhere else. -/
theorem heightTier_eq (x y : BitVec 32) :
    heightTier x y = if (noiseInput x y).toNat % 4 = 2 then 3 else 1 := by
  have hlow : ∀ v : BitVec 32, v.toNat % 4 = (v.setWidth 2).toNat := by
    intro v
    rw [BitVec.toNat_setWidth]
  have hiff : (noiseInput x y).setWidth 2 = 2#2 ↔ (noiseInput x y).toNat % 4 = 2 := by
    rw [hlow, ← BitVec.toNat_inj]
    rfl
  rw [heightTier, hlow, noise_low]
  by_cases h : (noiseInput x y).toNat % 4 = 2
  · rw [if_pos h, if_pos (hiff.mpr h)]
    rfl
  · rw [if_neg h, if_neg (mt hiff.mp h)]
    rfl

/-- Among four neighbours in the first row, all residues of `n` occur. -/
theorem exists_residue (ticks : BitVec 32) {r : Nat} (hr : r < 4) :
    ∃ x < 4, (noiseInput (BitVec.ofNat 32 x + ticks / 10) (BitVec.ofNat 32 0)).toNat % 4 = r := by
  refine ⟨(r + 4 - (ticks / 10).toNat % 4) % 4, by omega, ?_⟩
  have hzero : BitVec.ofNat 32 0 * noisePrimeA = 0#32 := by decide
  rw [noiseInput, hzero, BitVec.add_zero, BitVec.toNat_add, BitVec.toNat_ofNat]
  omega

/-! ### The zones -/

theorem zoneChar_inj {j k : Nat} (hj : j < 4) (hk : k < 4) (h : zoneChar j = zoneChar k) :
    j = k := by
  have hall : ∀ j < 4, ∀ k < 4, zoneChar j = zoneChar k → j = k := by decide
  exact hall j hj k hk h

def ZoneShown (k : Nat) (ticks : BitVec 32) (out : Nat → Byte) : Prop :=
  ∃ i < 400, generateProceduralTopography ticks out i = zoneChar k

/-- From the tick count `T` on, the zone is shown in some frame. -/
def ZoneRecurs (k : Nat) (T : BitVec 32) (out : Nat → Byte) : Prop :=
  ∃ T', T ≤ T' ∧ ZoneShown k T' out

/-- **Every frame shows the zones 1 and 3**, and no frame shows another. -/
theorem zoneShown_iff {k : Nat} (hk : k < 4) (ticks : BitVec 32) (out : Nat → Byte) :
    ZoneShown k ticks out ↔ k = 1 ∨ k = 3 := by
  refine ⟨?_, ?_⟩
  · rintro ⟨i, hi, hchar⟩
    rw [generateProceduralTopography_apply ticks out hi, cellTier, heightTier_eq] at hchar
    split at hchar
    · exact Or.inr (zoneChar_inj (by decide) hk hchar).symm
    · exact Or.inl (zoneChar_inj (by decide) hk hchar).symm
  · intro h
    have hcell : ∀ x < 4, generateProceduralTopography ticks out x =
        zoneChar (cellTier ticks x 0) := by
      intro x hx
      have hmod : x % 80 = x := by omega
      have hdiv : x / 80 = 0 := by omega
      rw [generateProceduralTopography_apply ticks out (by omega), hmod, hdiv]
    rcases h with rfl | rfl
    · obtain ⟨x, hx, hr⟩ := exists_residue ticks (r := 0) (by decide)
      refine ⟨x, by omega, ?_⟩
      rw [hcell x hx, cellTier, heightTier_eq, if_neg (by omega)]
    · obtain ⟨x, hx, hr⟩ := exists_residue ticks (r := 2) (by decide)
      refine ⟨x, by omega, ?_⟩
      rw [hcell x hx, cellTier, heightTier_eq, if_pos hr]

/-- **A zone goes on to occur** exactly when it is zone 1 or zone 3. -/
theorem zone_recurs_iff {k : Nat} (hk : k < 4) (T : BitVec 32) (out : Nat → Byte) :
    ZoneRecurs k T out ↔ k = 1 ∨ k = 3 := by
  refine ⟨?_, ?_⟩
  · rintro ⟨T', _, hshown⟩
    exact (zoneShown_iff hk T' out).mp hshown
  · intro h
    exact ⟨T, BitVec.le_refl T, (zoneShown_iff hk T out).mpr h⟩

theorem zone_recurs_iff_ridge : ZoneRecurs 1 0#32 (fun _ => 0) ↔ 1 = 1 ∨ 1 = 3 :=
  zone_recurs_iff (by decide) 0#32 fun _ => 0

/-- No peak is ever shown. -/
theorem not_zone_recurs : ¬ ∀ (T : BitVec 32) (k : Nat) (out : Nat → Byte), T.toNat ≤ 2 ^ 31 →
    k < 4 → ZoneRecurs k T out := by
  intro hall
  obtain ⟨T', _, hshown⟩ := hall 0#32 0 (fun _ => 0) (by decide) (by decide)
  have hzone := (zoneShown_iff (by decide) T' fun _ => 0).mp hshown
  exact absurd hzone (by decide)

end Antagonist
