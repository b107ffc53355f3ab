import Antagonist.Lib.Memory

/-!
# The physical page allocator

`kernel/pmm.cpp`: one bit a page in the byte array `pmm_bitmap`, set while the
page is reserved or handed out.  The three helpers compute with `int`, that is
with 32 bits, and cut the result back to a byte.

`bitmapTest_set` and `bitmapTest_clear` say that a helper changes one bit.
-/

namespace Antagonist

open ByteMem

def pageSize : Nat := 4096

/-- `BITMAP_SIZE`, the bytes of `pmm_bitmap`. -/
def bitmapSize : Nat := 4096

/-- The array `pmm_bitmap`.  Bytes from `bitmapSize` on are whatever follows it
in memory. -/
abbrev Bitmap := Nat → Byte

def setByte (bm : Bitmap) (i : Nat) (b : Byte) : Bitmap := fun j => if j = i then b else bm j

/-- A byte as an `int`. -/
def promote (b : Byte) : BitVec 32 := b.setWidth 32

def bitmapSet (bm : Bitmap) (pageIndex : Nat) : Bitmap :=
  let byteIndex := pageIndex / 8
  let bitOffset := pageIndex % 8
  setByte bm byteIndex ((promote (bm byteIndex) ||| (1#32 <<< bitOffset)).setWidth 8)

def bitmapClear (bm : Bitmap) (pageIndex : Nat) : Bitmap :=
  let byteIndex := pageIndex / 8
  let bitOffset := pageIndex % 8
  setByte bm byteIndex ((promote (bm byteIndex) &&& ~~~(1#32 <<< bitOffset)).setWidth 8)

def bitmapTest (bm : Bitmap) (pageIndex : Nat) : Bool :=
  let byteIndex := pageIndex / 8
  let bitOffset := pageIndex % 8
  promote (bm byteIndex) &&& (1#32 <<< bitOffset) != 0#32

/-- The bitmap and the variable `total_pages`. -/
structure Pmm where
  bitmap : Bitmap
  totalPages : Nat

/-- The first 2 MiB, in pages. -/
def reservedKernelPages : Nat := 2 * 1024 * 1024 / pageSize

/-- `init_pmm`, whatever the bitmap held before. -/
def initPmm (bm : Bitmap) (memorySizeBytes : Nat) : Pmm :=
  let bm := (List.range bitmapSize).foldl (fun bm i => setByte bm i 0) bm
  let bm := (List.range reservedKernelPages).foldl bitmapSet bm
  ⟨bm, memorySizeBytes / pageSize⟩

/-- The scan of `pmm_alloc_page` at index `i`, with `n` indices to go. -/
def pmmAllocLoop (s : Pmm) : Nat → Nat → Pmm × Nat
  | 0, _ => (s, 0)
  | n + 1, i =>
      if !bitmapTest s.bitmap i then
        ({ s with bitmap := bitmapSet s.bitmap i }, i * pageSize % 2 ^ 32)
      else pmmAllocLoop s n (i + 1)

def pmmAllocPage (s : Pmm) : Pmm × Nat := pmmAllocLoop s s.totalPages 0

def pmmFreePage (s : Pmm) (paddr : Nat) : Pmm :=
  { s with bitmap := bitmapClear s.bitmap (paddr / pageSize) }

def pmmGetTotalPages (s : Pmm) : Nat := s.totalPages

def pmmGetUsedPages (s : Pmm) : Nat :=
  (List.range s.totalPages).foldl
    (fun used i => if bitmapTest s.bitmap i then (used + 1) % 2 ^ 32 else used) 0

/-! ### One bit of a byte -/

section

variable {b : Byte} {k l : Nat}

theorem getLsbD_one_shiftLeft : (1#32 <<< k).getLsbD l = (decide (l < 32) && decide (l = k)) := by
  simp only [BitVec.getLsbD_shiftLeft, BitVec.getLsbD_one]
  by_cases h : l = k
  · subst h; simp
  · by_cases h' : l < k
    · simp [h, h']
    · have : ¬ (l - k = 0) := by omega
      simp [h, this]

theorem promote_and_ne_zero (hk : k < 8) :
    (promote b &&& (1#32 <<< k) != 0#32) = b.getLsbD k := by
  have hbit : ∀ l, (promote b &&& (1#32 <<< k)).getLsbD l = (decide (l = k) && b.getLsbD k) := by
    intro l
    rw [BitVec.getLsbD_and, getLsbD_one_shiftLeft, promote, BitVec.getLsbD_setWidth]
    by_cases h : l = k
    · subst h
      simp [show l < 32 by omega]
    · simp [h]
  cases hb : b.getLsbD k with
  | false =>
    have hz : promote b &&& (1#32 <<< k) = 0#32 := by
      refine BitVec.eq_of_getLsbD_eq ?_
      intro l _
      rw [hbit, hb]
      simp
    simp [hz]
  | true =>
    refine bne_iff_ne.mpr ?_
    intro hz
    have := hbit k
    rw [hz, hb] at this
    simp at this

theorem getLsbD_set (hl : l < 8) :
    ((promote b ||| (1#32 <<< k)).setWidth 8).getLsbD l = (decide (l = k) || b.getLsbD l) := by
  rw [BitVec.getLsbD_setWidth, BitVec.getLsbD_or, getLsbD_one_shiftLeft, promote,
    BitVec.getLsbD_setWidth]
  simp [hl, show l < 32 by omega, Bool.or_comm]

theorem getLsbD_clear (hl : l < 8) :
    ((promote b &&& ~~~(1#32 <<< k)).setWidth 8).getLsbD l = (!decide (l = k) && b.getLsbD l) := by
  rw [BitVec.getLsbD_setWidth, BitVec.getLsbD_and, BitVec.getLsbD_not, getLsbD_one_shiftLeft,
    promote, BitVec.getLsbD_setWidth]
  simp [hl, show l < 32 by omega, Bool.and_comm]

end

/-! ### One bit of the array -/

section

variable (bm : Bitmap) (i j : Nat)

theorem bitmapTest_eq : bitmapTest bm j = (bm (j / 8)).getLsbD (j % 8) :=
  promote_and_ne_zero (Nat.mod_lt j (by decide))

/-- **Setting a bit changes that bit and no other.** -/
theorem bitmapTest_set : bitmapTest (bitmapSet bm i) j = (decide (j = i) || bitmapTest bm j) := by
  have hl : j % 8 < 8 := Nat.mod_lt j (by decide)
  rw [bitmapTest_eq, bitmapTest_eq]
  simp only [bitmapSet, setByte]
  by_cases h : j / 8 = i / 8
  · rw [if_pos h, getLsbD_set hl, h]
    congr 1
    exact decide_eq_decide.mpr (by omega)
  · rw [if_neg h, decide_eq_false (by omega : ¬ j = i), Bool.false_or]

/-- **Clearing a bit changes that bit and no other.** -/
theorem bitmapTest_clear :
    bitmapTest (bitmapClear bm i) j = (!decide (j = i) && bitmapTest bm j) := by
  have hl : j % 8 < 8 := Nat.mod_lt j (by decide)
  rw [bitmapTest_eq, bitmapTest_eq]
  simp only [bitmapClear, setByte]
  by_cases h : j / 8 = i / 8
  · rw [if_pos h, getLsbD_clear hl, h]
    congr 2
    exact decide_eq_decide.mpr (by omega)
  · rw [if_neg h, decide_eq_false (by omega : ¬ j = i), Bool.not_false, Bool.true_and]

/-! ### The loops of `init_pmm` -/

theorem foldl_setByte (n : Nat) :
    (List.range n).foldl (fun bm i => setByte bm i 0) bm j = if j < n then 0 else bm j := by
  refine (foldl_range_fill (fun bm => bm) (fun bm i _ j => ?_) bm j).trans
    (if_congr (by omega : 0 ≤ j ∧ j < 0 + n ↔ j < n) rfl rfl)
  rw [Nat.zero_add]
  rfl

theorem bitmapTest_foldl_set (n : Nat) :
    bitmapTest ((List.range n).foldl bitmapSet bm) j = (decide (j < n) || bitmapTest bm j) := by
  induction n with
  | zero => simp
  | succ n ih =>
    rw [List.range_succ, List.foldl_concat, bitmapTest_set, ih,
      ← Bool.or_assoc, ← Bool.decide_or]
    congr 1
    exact decide_eq_decide.mpr (by omega)

/-- After `init_pmm` the bits of the array are set for the first 2 MiB only. -/
theorem bitmapTest_initPmm (m : Nat) (hj : j < 8 * bitmapSize) :
    bitmapTest (initPmm bm m).bitmap j = decide (j < reservedKernelPages) := by
  have hbyte : j / 8 < bitmapSize := by omega
  simp only [initPmm]
  rw [bitmapTest_foldl_set, bitmapTest_eq, foldl_setByte, if_pos hbyte]
  simp

end

end Antagonist
