import Antagonist.Lib.Logged
import Antagonist.Pmm.Refinement

/-!
# The page allocator under any calls

Nothing in `kernel/pmm.cpp` looks at the arguments, so here the calls come in any
order and `pmm_free_page` gets any address.  `afterCalls` is the state then.  A
bit past the end of `pmm_bitmap` that `pmm_free_page` clears may be one of
`total_pages`: `clobber` says what becomes of it.

* `reserved_iff`: the reserved pages stay reserved exactly when no page below
  2 MiB is freed.
* `inBounds_iff`: when the indices used on `pmm_bitmap` stay inside the array.
-/

namespace Antagonist

open Logged

/-! ### The calls -/

inductive PmmCall
  | allocPage
  | freePage (paddr : BitVec 32)
  | getUsedPages

/-- `pmm_free_page` of any address. -/
def pmmFreeAny (clobber : Nat → Nat → Nat) (s : Pmm) (paddr : Nat) : Pmm :=
  let s' := pmmFreePage s paddr
  if paddr < maxMemory then s'
  else { s' with totalPages := min s.totalPages (clobber paddr s.totalPages) }

def PmmCall.run (clobber : Nat → Nat → Nat) (s : Pmm) : PmmCall → Pmm
  | .allocPage => (pmmAllocPage s).1
  | .freePage paddr => pmmFreeAny clobber s paddr.toNat
  | .getUsedPages => s

/-- The state after `init_pmm(m)` and a sequence of calls. -/
def afterCalls (clobber : Nat → Nat → Nat) (bm : Bitmap) (m : Nat) (calls : List PmmCall) : Pmm :=
  calls.foldl (PmmCall.run clobber) (initPmm bm m)

/-! ### The indices -/

def bitmapSetL (bm : Bitmap) (pageIndex : Nat) : Logged Nat Bitmap :=
  entry (pageIndex / 8) (bitmapSet bm pageIndex)

def bitmapClearL (bm : Bitmap) (pageIndex : Nat) : Logged Nat Bitmap :=
  entry (pageIndex / 8) (bitmapClear bm pageIndex)

def bitmapTestL (bm : Bitmap) (pageIndex : Nat) : Logged Nat Bool :=
  entry (pageIndex / 8) (bitmapTest bm pageIndex)

def initPmmL (bm : Bitmap) (memorySizeBytes : Nat) : Logged Nat Pmm := do
  let bm ← Logged.foldl (fun bm i => entry i (setByte bm i 0)) bm (List.range bitmapSize)
  let bm ← Logged.foldl bitmapSetL bm (List.range reservedKernelPages)
  return ⟨bm, memorySizeBytes / pageSize⟩

def pmmAllocLoopL (s : Pmm) : Nat → Nat → Logged Nat (Pmm × Nat)
  | 0, _ => return (s, 0)
  | n + 1, i => do
      if !(← bitmapTestL s.bitmap i) then
        let bm ← bitmapSetL s.bitmap i
        return ({ s with bitmap := bm }, i * pageSize % 2 ^ 32)
      else pmmAllocLoopL s n (i + 1)

def pmmFreePageL (s : Pmm) (paddr : Nat) : Logged Nat Pmm := do
  let bm ← bitmapClearL s.bitmap (paddr / pageSize)
  return { s with bitmap := bm }

def pmmGetUsedPagesL (s : Pmm) : Logged Nat Nat :=
  Logged.foldl (fun used i => do
    if ← bitmapTestL s.bitmap i then return (used + 1) % 2 ^ 32 else return used)
    0 (List.range s.totalPages)

def PmmCall.indices (s : Pmm) : PmmCall → List Nat
  | .allocPage => (pmmAllocLoopL s s.totalPages 0).log
  | .freePage paddr => (pmmFreePageL s paddr.toNat).log
  | .getUsedPages => (pmmGetUsedPagesL s).log

section

variable (bm : Bitmap) (s : Pmm)

/-! ### Without the log, it is the allocator -/

theorem val_initPmmL (m : Nat) : (initPmmL bm m).val = initPmm bm m := by
  simp only [initPmmL, initPmm, val_bind, val_foldl, val_pure]
  rfl

theorem val_pmmAllocLoopL (n i : Nat) : (pmmAllocLoopL s n i).val = pmmAllocLoop s n i := by
  induction n generalizing i with
  | zero => rfl
  | succ n ih =>
    rw [pmmAllocLoopL, pmmAllocLoop, val_bind]
    show (if !bitmapTest s.bitmap i then _ else _ : Logged Nat (Pmm × Nat)).val = _
    by_cases hb : (!bitmapTest s.bitmap i) = true
    · rw [if_pos hb, if_pos hb]
      rfl
    · rw [if_neg hb, if_neg hb, ih]

theorem val_pmmFreePageL (paddr : Nat) : (pmmFreePageL s paddr).val = pmmFreePage s paddr := rfl

theorem val_pmmGetUsedPagesL : (pmmGetUsedPagesL s).val = pmmGetUsedPages s := by
  rw [pmmGetUsedPagesL, pmmGetUsedPages, val_foldl]
  congr 1
  funext used i
  rw [val_bind]
  show (if bitmapTest s.bitmap i then _ else _ : Logged Nat Nat).val = _
  by_cases hb : bitmapTest s.bitmap i = true
  · rw [if_pos hb, if_pos hb]
    rfl
  · rw [if_neg hb, if_neg hb]
    rfl

end

/-! ### What a call does to the bits -/

section

variable {clobber : Nat → Nat → Nat} {bm : Bitmap} {s : Pmm} {m : Nat} {calls : List PmmCall}

theorem afterCalls_snoc (clobber : Nat → Nat → Nat) (bm : Bitmap) (m : Nat) (calls : List PmmCall)
    (c : PmmCall) : afterCalls clobber bm m (calls ++ [c])
      = c.run clobber (afterCalls clobber bm m calls) := by
  rw [afterCalls, List.foldl_concat, afterCalls]

/-- Freeing an address clears the bit of its page and no other. -/
theorem bitmapTest_pmmFreeAny (clobber : Nat → Nat → Nat) (s : Pmm) (paddr i : Nat) :
    bitmapTest (pmmFreeAny clobber s paddr).bitmap i
      = (!decide (i = paddr / pageSize) && bitmapTest s.bitmap i) := by
  have hbitmap : (pmmFreeAny clobber s paddr).bitmap = bitmapClear s.bitmap (paddr / pageSize) := by
    unfold pmmFreeAny
    split <;> rfl
  rw [hbitmap, bitmapTest_clear]

theorem totalPages_pmmFreeAny (paddr : Nat) :
    (pmmFreeAny clobber s paddr).totalPages ≤ s.totalPages ∧
    (paddr < maxMemory → (pmmFreeAny clobber s paddr).totalPages = s.totalPages) := by
  unfold pmmFreeAny
  by_cases h : paddr < maxMemory
  · rw [if_pos h]
    exact ⟨Nat.le_refl _, fun _ => rfl⟩
  · rw [if_neg h]
    exact ⟨Nat.min_le_left _ _, fun h' => absurd h' h⟩

theorem pmmAllocPage_mono (s : Pmm) : (pmmAllocPage s).1.totalPages = s.totalPages ∧
    ∀ i, bitmapTest s.bitmap i = true → bitmapTest (pmmAllocPage s).1.bitmap i = true := by
  unfold pmmAllocPage
  rcases pmmAllocLoop_spec s s.totalPages 0 with ⟨_, hrun⟩ | ⟨j, _, _, _, _, hrun⟩
  · rw [hrun]
    exact ⟨rfl, fun _ h => h⟩
  · rw [hrun]
    refine ⟨rfl, ?_⟩
    intro i h
    rw [bitmapTest_set, h, Bool.or_true]

/-! ### The reserved pages -/

def Reserved (s : Pmm) : Prop := ∀ i < reservedKernelPages, bitmapTest s.bitmap i = true

/-- What the comment in `init_pmm` promises, along a sequence of calls: the bits
stay set, and `pmm_alloc_page` returns no address below 2 MiB, and null only when
there is no free page. -/
structure StaysReserved (clobber : Nat → Nat → Nat) (bm : Bitmap) (m : Nat)
    (calls : List PmmCall) : Prop where
  bits : ∀ A B, calls = A ++ B → Reserved (afterCalls clobber bm m A)
  alloc : ∀ A B, calls = A ++ .allocPage :: B → let s := afterCalls clobber bm m A
    2 * 1024 * 1024 ≤ (pmmAllocPage s).2 ∨
      (pmmAllocPage s = (s, 0) ∧ ∀ i < s.totalPages, bitmapTest s.bitmap i = true)

theorem Reserved.allocPage (h : Reserved s) : Reserved (pmmAllocPage s).1 :=
  fun i hi => (pmmAllocPage_mono s).2 i (h i hi)

theorem Reserved.freePage (h : Reserved s) {paddr : Nat} (hp : 2 * 1024 * 1024 ≤ paddr) :
    Reserved (pmmFreeAny clobber s paddr) := by
  intro i hi
  have hne : i ≠ paddr / pageSize := by
    simp only [reservedKernelPages, pageSize] at hi ⊢
    omega
  rw [bitmapTest_pmmFreeAny, decide_eq_false hne, h i hi]
  rfl

/-- What the calls keep, as long as no page below 2 MiB is freed. -/
theorem reserved_afterCalls (clobber : Nat → Nat → Nat) (bm : Bitmap) (m : Nat)
    (hfree : ∀ p, .freePage p ∈ calls → 2 * 1024 * 1024 ≤ p.toNat) :
    Reserved (afterCalls clobber bm m calls) ∧
      (afterCalls clobber bm m calls).totalPages ≤ m / pageSize := by
  induction calls using List.reverseRecOn with
  | nil =>
    refine ⟨?_, Nat.le_refl _⟩
    intro i hi
    have hlt : i < 8 * bitmapSize := by
      simp only [reservedKernelPages, pageSize, bitmapSize] at hi ⊢
      omega
    exact (bitmapTest_initPmm bm i m hlt).trans (decide_eq_true hi)
  | append_singleton calls c ih =>
    obtain ⟨hres, htotal⟩ := ih fun p hp => hfree p (List.mem_append_left _ hp)
    rw [afterCalls_snoc]
    cases c with
    | allocPage => exact ⟨hres.allocPage, (pmmAllocPage_mono _).1.trans_le htotal⟩
    | freePage p =>
      have hp := hfree p (List.mem_append_right _ List.mem_cons_self)
      exact ⟨hres.freePage hp, (totalPages_pmmFreeAny _).1.trans htotal⟩
    | getUsedPages => exact ⟨hres, htotal⟩

/-- With the reserved bits set, the page found lies past them. -/
theorem Reserved.alloc (h : Reserved s) (htotal : s.totalPages ≤ 2 ^ 20) :
    2 * 1024 * 1024 ≤ (pmmAllocPage s).2 ∨
      (pmmAllocPage s = (s, 0) ∧ ∀ i < s.totalPages, bitmapTest s.bitmap i = true) := by
  rw [pmmAllocPage]
  rcases pmmAllocLoop_spec s s.totalPages 0 with ⟨hall, hrun⟩ | ⟨j, _, hj, hbit, _, hrun⟩
  · exact Or.inr ⟨hrun, fun i hi => hall i (Nat.zero_le i) (by omega)⟩
  · have hres : ¬ j < reservedKernelPages := by
      intro hlt
      rw [h j hlt] at hbit
      exact Bool.noConfusion hbit
    left
    rw [hrun]
    simp only [reservedKernelPages, pageSize] at hres ⊢
    omega

/-- **The reserved pages stay reserved** exactly when no page below 2 MiB is
freed. -/
theorem reserved_iff (clobber : Nat → Nat → Nat) (bm : Bitmap) (m : BitVec 32)
    (calls : List PmmCall) : StaysReserved clobber bm m.toNat calls ↔
      ∀ p, .freePage p ∈ calls → 2 * 1024 * 1024 ≤ p.toNat := by
  refine ⟨?_, ?_⟩
  · intro H p hp
    obtain ⟨A, B, hcalls⟩ := List.append_of_mem hp
    have hbits := H.bits (A ++ [.freePage p]) B (by rw [hcalls, List.append_cons])
    by_contra hlt
    have hi : p.toNat / pageSize < reservedKernelPages := by
      simp only [reservedKernelPages, pageSize]
      omega
    have hbit := hbits _ hi
    rw [afterCalls_snoc, PmmCall.run, bitmapTest_pmmFreeAny, decide_eq_true rfl] at hbit
    exact Bool.noConfusion hbit
  · intro hfree
    have hleft : ∀ A B, calls = A ++ B → ∀ p, .freePage p ∈ A → 2 * 1024 * 1024 ≤ p.toNat :=
      fun A B hcalls p hp => hfree p (by rw [hcalls]; exact List.mem_append_left _ hp)
    refine ⟨fun A B hcalls => (reserved_afterCalls _ _ _ (hleft A B hcalls)).1, ?_⟩
    intro A B hcalls
    obtain ⟨hres, htotal⟩ := reserved_afterCalls clobber bm m.toNat
      (hleft A (.allocPage :: B) hcalls)
    have hm := m.isLt
    refine hres.alloc (htotal.trans ?_)
    simp only [pageSize]
    omega

/-- Address 0 is freed: the kernel's own allocator then hands out page 0, and the
caller takes it for a failure. -/
theorem not_reserved :
    let s := afterCalls (fun _ t => t) (fun _ => 0) (64 * 1024 * 1024) [.freePage 0]
    bitmapTest s.bitmap 0 = false ∧
    pmmAllocPage s = ({ s with bitmap := bitmapSet s.bitmap 0 }, 0) ∧
    ¬ StaysReserved (fun _ t => t) (fun _ => 0) (64 * 1024 * 1024) [.freePage 0, .allocPage] := by
  intro s
  have hclear : bitmapTest s.bitmap 0 = false :=
    bitmapTest_pmmFreeAny (fun _ t => t) (initPmm (fun _ => 0) (64 * 1024 * 1024)) 0 0
  refine ⟨hclear, ?_, fun H => ?_⟩
  · show pmmAllocLoop s (16383 + 1) 0 = _
    rw [pmmAllocLoop, hclear]
    rfl
  · have hset := H.bits [.freePage 0] [.allocPage] rfl 0 (by decide)
    exact Bool.noConfusion (hclear.symm.trans hset)

/-! ### The array bounds -/

/-- Every index that is used on `pmm_bitmap` lies inside the array. -/
structure InBounds (clobber : Nat → Nat → Nat) (bm : Bitmap) (m : Nat) (calls : List PmmCall) :
    Prop where
  init : (initPmmL bm m).All (· < bitmapSize)
  calls : ∀ A c B, calls = A ++ c :: B →
    ∀ i ∈ c.indices (afterCalls clobber bm m A), i < bitmapSize

/-- The array has a bit for every address that is freed, and for every page that
is scanned: there are no more pages than bits, or else the pages are never counted
and each allocation finds a clear bit in the array. -/
structure FitsBitmap (clobber : Nat → Nat → Nat) (bm : Bitmap) (m : Nat) (calls : List PmmCall) :
    Prop where
  freed : ∀ p, .freePage p ∈ calls → p.toNat < maxMemory
  scanned : m / pageSize ≤ 8 * bitmapSize ∨ (.getUsedPages ∉ calls ∧
    ∀ A B, calls = A ++ .allocPage :: B → ∃ j < 8 * bitmapSize,
      bitmapTest (afterCalls clobber bm m A).bitmap j = false)

theorem all_initPmmL (bm : Bitmap) (m : Nat) : (initPmmL bm m).All (· < bitmapSize) := by
  have hzero : ∀ (bm : Bitmap) (i : Nat),
      (entry i (setByte bm i 0)).All (· < bitmapSize) ↔ i < bitmapSize :=
    fun bm i => all_entry i _
  have hset : ∀ (bm : Bitmap) (i : Nat),
      (bitmapSetL bm i).All (· < bitmapSize) ↔ i / 8 < bitmapSize := fun bm i => all_entry _ _
  rw [initPmmL, all_bind, all_bind, all_foldl_iff hzero, all_foldl_iff hset]
  refine ⟨fun i hi => List.mem_range.mp hi, ?_, all_pure _⟩
  intro i hi
  have hlt := List.mem_range.mp hi
  simp only [reservedKernelPages, pageSize, bitmapSize] at hlt ⊢
  omega

/-- The scan stays inside the array when it ends there, or a clear bit stops it. -/
theorem all_pmmAllocLoopL (s : Pmm) : ∀ n i : Nat, i ≤ 8 * bitmapSize →
    ((pmmAllocLoopL s n i).All (· < bitmapSize) ↔ i + n ≤ 8 * bitmapSize ∨
      ∃ j, i ≤ j ∧ j < 8 * bitmapSize ∧ bitmapTest s.bitmap j = false) := by
  intro n
  induction n with
  | zero => exact fun i hi => ⟨fun _ => Or.inl hi, fun _ => all_pure _⟩
  | succ n ih =>
    intro i hi
    rw [pmmAllocLoopL, all_bind, bitmapTestL, all_entry, val_entry]
    by_cases hin : i < 8 * bitmapSize
    · have hidx : i / 8 < bitmapSize := by omega
      cases hb : bitmapTest s.bitmap i with
      | false =>
        refine ⟨fun _ => Or.inr ⟨i, Nat.le_refl i, hin, hb⟩, fun _ => ⟨hidx, ?_⟩⟩
        exact (all_bind _ _).mpr ⟨(all_entry _ _).mpr hidx, all_pure _⟩
      | true =>
        have hrest := ih (i + 1) (by omega)
        rw [if_neg (by decide), hrest]
        refine ⟨?_, ?_⟩
        · rintro ⟨_, hend | ⟨j, h1, h2, hj⟩⟩
          · exact Or.inl (by omega)
          · exact Or.inr ⟨j, by omega, h2, hj⟩
        · rintro (hend | ⟨j, h1, h2, hj⟩)
          · exact ⟨hidx, Or.inl (by omega)⟩
          · have hne : j ≠ i := by
              intro he
              rw [he, hb] at hj
              exact Bool.noConfusion hj
            exact ⟨hidx, Or.inr ⟨j, by omega, h2, hj⟩⟩
    · refine ⟨?_, ?_⟩
      · exact fun h => absurd h.1 (by omega)
      · rintro (hend | ⟨j, h1, h2, _⟩) <;> omega

theorem all_indices_allocPage (s : Pmm) :
    (∀ i ∈ PmmCall.allocPage.indices s, i < bitmapSize) ↔ s.totalPages ≤ 8 * bitmapSize ∨
      ∃ j < 8 * bitmapSize, bitmapTest s.bitmap j = false := by
  have hscan := all_pmmAllocLoopL s s.totalPages 0 (Nat.zero_le _)
  simp only [Nat.zero_add, Nat.zero_le, true_and] at hscan
  exact hscan

theorem all_indices_freePage (s : Pmm) (p : BitVec 32) :
    (∀ i ∈ (PmmCall.freePage p).indices s, i < bitmapSize) ↔ p.toNat < maxMemory := by
  have hone : (∀ i ∈ (PmmCall.freePage p).indices s, i < bitmapSize) ↔
      p.toNat / pageSize / 8 < bitmapSize := List.forall_mem_singleton
  rw [hone]
  simp only [pageSize, bitmapSize, maxMemory]
  omega

theorem all_indices_getUsedPages (s : Pmm) :
    (∀ i ∈ PmmCall.getUsedPages.indices s, i < bitmapSize) ↔ s.totalPages ≤ 8 * bitmapSize := by
  have hround : ∀ (used i : Nat), (do
      if ← bitmapTestL s.bitmap i then return (used + 1) % 2 ^ 32 else return used :
        Logged Nat Nat).All (· < bitmapSize) ↔ i / 8 < bitmapSize := by
    intro used i
    rw [all_bind, bitmapTestL, all_entry]
    apply and_iff_left
    split <;> exact all_pure _
  have hall := all_foldl_iff hround (List.range s.totalPages) 0
  refine Iff.trans hall ⟨fun h => ?_, fun h i hi => ?_⟩
  · by_contra hlt
    have := h (8 * bitmapSize) (List.mem_range.mpr (by omega))
    omega
  · have := List.mem_range.mp hi
    omega

/-- While the addresses freed have a bit, `total_pages` is what `init_pmm` made it. -/
theorem totalPages_afterCalls (hfreed : ∀ p, .freePage p ∈ calls → p.toNat < maxMemory) :
    (afterCalls clobber bm m calls).totalPages = m / pageSize := by
  induction calls using List.reverseRecOn with
  | nil => rfl
  | append_singleton calls c ih =>
    have htotal := ih fun p hp => hfreed p (List.mem_append_left _ hp)
    rw [afterCalls_snoc, ← htotal]
    cases c with
    | allocPage => exact (pmmAllocPage_mono _).1
    | freePage p =>
      exact (totalPages_pmmFreeAny _).2 (hfreed p (List.mem_append_right _ List.mem_cons_self))
    | getUsedPages => rfl

/-- **The indices stay inside the array** exactly when the array has a bit for
whatever is freed and scanned. -/
theorem inBounds_iff (clobber : Nat → Nat → Nat) (bm : Bitmap) (m : Nat) (calls : List PmmCall) :
    InBounds clobber bm m calls ↔ FitsBitmap clobber bm m calls := by
  refine ⟨?_, ?_⟩
  · intro H
    have hfreed : ∀ p, .freePage p ∈ calls → p.toNat < maxMemory := by
      intro p hp
      obtain ⟨A, B, hcalls⟩ := List.append_of_mem hp
      exact (all_indices_freePage _ p).mp (H.calls A _ B hcalls)
    have htotal : ∀ A B, calls = A ++ B → (afterCalls clobber bm m A).totalPages = m / pageSize :=
      fun A B hcalls => totalPages_afterCalls fun p hp =>
        hfreed p (by rw [hcalls]; exact List.mem_append_left _ hp)
    refine ⟨hfreed, ?_⟩
    by_cases hm : m / pageSize ≤ 8 * bitmapSize
    · exact Or.inl hm
    · refine Or.inr ⟨fun hused => ?_, fun A B hcalls => ?_⟩
      · obtain ⟨A, B, hcalls⟩ := List.append_of_mem hused
        have hle := (all_indices_getUsedPages _).mp (H.calls A _ B hcalls)
        rw [htotal A _ hcalls] at hle
        exact hm hle
      · have hscan := (all_indices_allocPage _).mp (H.calls A _ B hcalls)
        rw [htotal A _ hcalls] at hscan
        exact hscan.resolve_left hm
  · intro H
    have htotal : ∀ A B, calls = A ++ B → (afterCalls clobber bm m A).totalPages = m / pageSize :=
      fun A B hcalls => totalPages_afterCalls fun p hp =>
        H.freed p (by rw [hcalls]; exact List.mem_append_left _ hp)
    refine ⟨all_initPmmL bm m, ?_⟩
    intro A c B hcalls
    have hc : c ∈ calls := by
      rw [hcalls]
      exact List.mem_append_right _ List.mem_cons_self
    cases c with
    | allocPage =>
      apply (all_indices_allocPage _).mpr
      rw [htotal A _ hcalls]
      exact H.scanned.imp_right fun h => h.2 A B hcalls
    | freePage p => exact (all_indices_freePage _ p).mpr (H.freed p hc)
    | getUsedPages =>
      apply (all_indices_getUsedPages _).mpr
      rw [htotal A _ hcalls]
      exact H.scanned.resolve_right fun h => h.1 hc

/-- The kernel's own allocator, and an address past what the array has bits for. -/
theorem not_inBounds :
    (PmmCall.freePage 0x08000000).indices (initPmm (fun _ => 0) (64 * 1024 * 1024)) = [4096] ∧
    ¬ InBounds (fun _ t => t) (fun _ => 0) (64 * 1024 * 1024) [.freePage 0x08000000] := by
  refine ⟨rfl, ?_⟩
  intro H
  have hlt := (all_indices_freePage _ _).mp (H.calls [] (.freePage 0x08000000) [] rfl)
  exact absurd hlt (by decide)

end

end Antagonist
