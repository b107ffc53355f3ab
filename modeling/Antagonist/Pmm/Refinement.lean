import Antagonist.Pmm.Bitmap
import Antagonist.Lib.Pool
import Mathlib.Order.Interval.Finset.Nat

/-!
# The page allocator is a pool of pages

`pmmLts m` is the allocator after `init_pmm(m)` with its clients, who give back
only pages that are outstanding.  It is simulated by the pool of `Lib/Pool.lean`
on the set `pages m`: the bits of the bitmap past the reserved area are the set
of what is out.

* `pmmAllocLoop_spec`: the scan stops at the first clear bit.
* `pmmGetUsedPages_eq`: the counting loop counts a set.
* `pmm_simulation`: every run of the allocator is a run of the pool.
-/

namespace Antagonist

open Pool

/-! ### The loops -/

/-- **The scan stops at the first clear bit**, or falls off the end. -/
theorem pmmAllocLoop_spec (s : Pmm) : ∀ n i : Nat,
    ((∀ j, i ≤ j → j < i + n → bitmapTest s.bitmap j = true) ∧ pmmAllocLoop s n i = (s, 0)) ∨
    ∃ j, i ≤ j ∧ j < i + n ∧ bitmapTest s.bitmap j = false ∧
      (∀ k, i ≤ k → k < j → bitmapTest s.bitmap k = true) ∧
      pmmAllocLoop s n i = ({ s with bitmap := bitmapSet s.bitmap j }, j * pageSize % 2 ^ 32) := by
  intro n
  induction n with
  | zero => exact fun i => Or.inl ⟨fun j h1 h2 => absurd h1 (by omega), rfl⟩
  | succ n ih =>
    intro i
    by_cases hb : bitmapTest s.bitmap i = true
    · have hstep : pmmAllocLoop s (n + 1) i = pmmAllocLoop s n (i + 1) := by
        rw [pmmAllocLoop, hb]
        rfl
      rw [hstep]
      rcases ih (i + 1) with ⟨hall, hrun⟩ | ⟨j, h1, h2, hj, hlow, hrun⟩
      · refine Or.inl ⟨fun j h1 h2 => ?_, hrun⟩
        by_cases h : j = i
        · rw [h, hb]
        · exact hall j (by omega) (by omega)
      · refine Or.inr ⟨j, by omega, by omega, hj, fun k h3 h4 => ?_, hrun⟩
        by_cases h : k = i
        · rw [h, hb]
        · exact hlow k (by omega) h4
    · have hb' : bitmapTest s.bitmap i = false := Bool.eq_false_iff.mpr hb
      refine Or.inr ⟨i, Nat.le_refl i, by omega, hb', fun k h1 h2 => absurd h1 (by omega), ?_⟩
      rw [pmmAllocLoop, hb']
      rfl

theorem used_fold (bm : Bitmap) : ∀ n : Nat, n < 2 ^ 32 →
    (List.range n).foldl
        (fun used i => if bitmapTest bm i then (used + 1) % 2 ^ 32 else used) 0
      = ((Finset.range n).filter fun i => bitmapTest bm i = true).card := by
  intro n
  induction n with
  | zero => exact fun _ => rfl
  | succ n ih =>
    intro hn
    have hle := Finset.card_filter_le (Finset.range n) fun i => bitmapTest bm i = true
    rw [Finset.card_range] at hle
    rw [List.range_succ, List.foldl_concat, ih (by omega),
      Finset.range_add_one, Finset.filter_insert]
    by_cases hb : bitmapTest bm n = true
    · rw [if_pos hb, if_pos hb, Finset.card_insert_of_notMem (by simp), Nat.mod_eq_of_lt (by omega)]
    · rw [if_neg hb, if_neg hb]

/-! ### The pages -/

/-- The address of a page that lies past the reserved area and inside memory. -/
def IsPage (m p : Nat) : Prop :=
  p % pageSize = 0 ∧ 2 * 1024 * 1024 ≤ p ∧ p + pageSize ≤ m

instance (m p : Nat) : Decidable (IsPage m p) := inferInstanceAs (Decidable (_ ∧ _ ∧ _))

def pages (m : Nat) : Finset Nat :=
  (Finset.Ico reservedKernelPages (m / pageSize)).image (· * pageSize)

theorem mem_pages {m p : Nat} : p ∈ pages m ↔ IsPage m p := by
  simp only [pages, IsPage, Finset.mem_image, Finset.mem_Ico, reservedKernelPages, pageSize]
  refine ⟨?_, ?_⟩
  · rintro ⟨i, hi, rfl⟩
    omega
  · intro hp
    exact ⟨p / 4096, by omega, by omega⟩

theorem card_pages (m : Nat) : (pages m).card = m / pageSize - reservedKernelPages := by
  rw [pages, Finset.card_image_of_injective, Nat.card_Ico]
  intro i j hij
  simp only [pageSize] at hij
  omega

theorem not_isPage_null (m : Nat) : ¬ IsPage m 0 := by
  intro h
  have := h.2.1
  omega

/-! ### The system -/

/-- The allocator and the pages its clients hold. -/
structure PmmSys where
  pmm : Pmm
  outstanding : List Nat

/-- What a client does, with the pointer `pmm_alloc_page` gave it. -/
inductive PmmOp
  | alloc (p : Nat)
  | free (p : Nat)

inductive PmmStep : PmmSys → PmmOp → PmmSys → Prop
  | alloc {s : PmmSys} {s' : Pmm} {p : Nat} : pmmAllocPage s.pmm = (s', p) →
      PmmStep s (.alloc p) ⟨s', if p = 0 then s.outstanding else p :: s.outstanding⟩
  | free {s : PmmSys} {p : Nat} : p ∈ s.outstanding →
      PmmStep s (.free p) ⟨pmmFreePage s.pmm p, s.outstanding.erase p⟩

/-- All runs after `init_pmm(m)`, whatever the bitmap held before. -/
def pmmLts (m : Nat) : Lts PmmSys PmmOp where
  init s := ∃ bm, s = ⟨initPmm bm m, []⟩
  step := PmmStep

/-- The bitmap holds the set `out`: the bits of the reserved pages and of the
pages in `out` are set, and no other bit of the array. -/
structure PmmHolds (m : Nat) (s : Pmm) (out : Finset Nat) : Prop where
  total : s.totalPages = m / pageSize
  bits : ∀ i < 8 * bitmapSize,
    (bitmapTest s.bitmap i = true ↔ i < reservedKernelPages ∨ i * pageSize ∈ out)

/-- The memory that the bitmap has a bit for. -/
def maxMemory : Nat := 128 * 1024 * 1024

section

variable {m : Nat} {s s' : Pmm} {out : Finset Nat} {p : Nat}

theorem index_lt (hm : m ≤ maxMemory) {i : Nat} (hi : i < m / pageSize) : i < 8 * bitmapSize := by
  simp only [maxMemory, pageSize, bitmapSize] at *
  omega

theorem PmmHolds.init (bm : Bitmap) : PmmHolds m (initPmm bm m) ∅ := by
  refine ⟨rfl, ?_⟩
  intro i hi
  rw [bitmapTest_initPmm bm i m hi, decide_eq_true_iff]
  simp

theorem PmmHolds.bit_page (H : PmmHolds m s out) (hm : m ≤ maxMemory) {i : Nat}
    (hi : i < m / pageSize) :
    bitmapTest s.bitmap i = false ↔ i * pageSize ∈ pages m ∧ i * pageSize ∉ out := by
  have hbit := H.bits i (index_lt hm hi)
  rw [mem_pages, ← Bool.not_eq_true, hbit, not_or]
  refine and_congr_left ?_
  intro _
  simp only [IsPage, reservedKernelPages, pageSize] at *
  omega

/-- What the pointer `p` says of a request. -/
def resultOf (p : Nat) : Option Nat := if p = 0 then none else some p

/-- **`pmm_alloc_page` is a request to the pool.** -/
theorem PmmHolds.alloc (H : PmmHolds m s out) (hm : m ≤ maxMemory) (h : pmmAllocPage s = (s', p)) :
    ∃ out', Take (pages m) out (resultOf p) out' ∧ PmmHolds m s' out' ∧
      out' = if p = 0 then out else insert p out := by
  rw [pmmAllocPage, H.total] at h
  rcases pmmAllocLoop_spec s (m / pageSize) 0 with ⟨hall, hrun⟩ | ⟨j, _, hj, hbit, hlow, hrun⟩
  · obtain ⟨rfl, rfl⟩ := Prod.mk.inj (hrun.symm.trans h)
    refine ⟨out, .empty ?_, H, rfl⟩
    intro q hq
    obtain ⟨i, hi, rfl⟩ := Finset.mem_image.mp hq
    rw [Finset.mem_Ico] at hi
    have hset := (H.bits i (index_lt hm hi.2)).mp (hall i (Nat.zero_le i) (by omega))
    exact hset.resolve_left (by omega)
  · rw [Nat.zero_add] at hj
    obtain ⟨hpage, hout⟩ := (H.bit_page hm hj).mp hbit
    have hp := mem_pages.mp hpage
    simp only [IsPage, maxMemory, pageSize] at hp hm
    have hmod : j * pageSize % 2 ^ 32 = j * pageSize :=
      Nat.mod_eq_of_lt (by simp only [pageSize]; omega)
    rw [hmod] at hrun
    obtain ⟨rfl, rfl⟩ := Prod.mk.inj (hrun.symm.trans h)
    have h0 : j * pageSize ≠ 0 := by simp only [pageSize]; omega
    refine ⟨insert (j * pageSize) out, ?_, ⟨H.total, fun i hi => ?_⟩, (if_neg h0).symm⟩
    · rw [resultOf, if_neg h0]
      refine .least hpage hout ?_
      intro q hq hqout
      obtain ⟨i, hi, rfl⟩ := Finset.mem_image.mp hq
      rw [Finset.mem_Ico] at hi
      refine Nat.mul_le_mul_right _ (Nat.le_of_not_lt ?_)
      intro hlt
      -- a lower page that is free would have stopped the scan
      have hclear := (H.bit_page hm hi.2).mpr ⟨hq, hqout⟩
      rw [hlow i (Nat.zero_le i) hlt] at hclear
      exact Bool.noConfusion hclear
    · show bitmapTest (bitmapSet s.bitmap j) i = true ↔ _
      rw [bitmapTest_set, Bool.or_eq_true, decide_eq_true_iff, H.bits i hi, Finset.mem_insert]
      have hinj : i * pageSize = j * pageSize ↔ i = j := by simp only [pageSize]; omega
      rw [hinj]
      exact or_left_comm

theorem PmmHolds.alloc_eq (H : PmmHolds m s out) (hm : m ≤ maxMemory) (hp : IsPage m p)
    (hout : p ∉ out) (hlow : ∀ q, IsPage m q → q ∉ out → p ≤ q) :
    ∃ s', pmmAllocPage s = (s', p) ∧ PmmHolds m s' (insert p out) := by
  obtain ⟨⟨s', p'⟩, hrun⟩ : ∃ r, pmmAllocPage s = r := ⟨_, rfl⟩
  obtain ⟨out', ht, H', hout'⟩ := H.alloc hm hrun
  have hleast : Take (pages m) out (some p) (insert p out) :=
    .least (mem_pages.mpr hp) hout fun q hq => hlow q (mem_pages.mp hq)
  obtain ⟨hres, rfl⟩ := ht.unique hleast
  rw [resultOf] at hres
  split at hres
  · cases hres
  · cases hres
    exact ⟨s', hrun, H'⟩

/-- **`pmm_free_page` gives a page back.** -/
theorem PmmHolds.free (H : PmmHolds m s out) (hp : IsPage m p) :
    PmmHolds m (pmmFreePage s p) (out.erase p) := by
  refine ⟨H.total, ?_⟩
  intro i hi
  show bitmapTest (bitmapClear s.bitmap (p / pageSize)) i = true ↔ _
  simp only [IsPage, pageSize] at hp
  have hsame : i * pageSize = p ↔ i = p / pageSize := by simp only [pageSize]; omega
  have hlow : i < reservedKernelPages → i ≠ p / pageSize := by
    simp only [reservedKernelPages, pageSize]; omega
  rw [bitmapTest_clear, Bool.and_eq_true, Bool.not_eq_true', decide_eq_false_iff_not, H.bits i hi,
    Finset.mem_erase, ne_eq, hsame, and_or_left]
  exact or_congr_left ⟨fun h => h.2, fun h => ⟨hlow h, h⟩⟩

/-- **The pages counted as used** are the reserved ones that exist and those
that are out. -/
theorem PmmHolds.used (H : PmmHolds m s out) (hm : m ≤ maxMemory) (hsub : out ⊆ pages m) :
    pmmGetUsedPages s = min reservedKernelPages s.totalPages + out.card := by
  have hlt : m / pageSize < 2 ^ 32 := by simp only [maxMemory, pageSize] at *; omega
  have hset : ((Finset.range (m / pageSize)).filter fun i => bitmapTest s.bitmap i = true)
      = Finset.range (min reservedKernelPages (m / pageSize)) ∪ out.image (· / pageSize) := by
    ext i
    simp only [Finset.mem_filter, Finset.mem_range, Finset.mem_union, Finset.mem_image,
      Nat.lt_min]
    refine ⟨?_, ?_⟩
    · rintro ⟨hi, hbit⟩
      rcases (H.bits i (index_lt hm hi)).mp hbit with hlow | hout
      · exact Or.inl ⟨hlow, hi⟩
      · exact Or.inr ⟨_, hout, by simp only [pageSize]; omega⟩
    · rintro (⟨hlow, hi⟩ | ⟨q, hq, rfl⟩)
      · exact ⟨hi, (H.bits i (index_lt hm hi)).mpr (Or.inl hlow)⟩
      · have hp := mem_pages.mp (hsub hq)
        simp only [IsPage, pageSize] at hp
        have hi : q / pageSize < m / pageSize := by simp only [pageSize]; omega
        have hqe : q / pageSize * pageSize = q := by simp only [pageSize]; omega
        exact ⟨hi, (H.bits _ (index_lt hm hi)).mpr (Or.inr (hqe.symm ▸ hq))⟩
  have hdisj : Disjoint (Finset.range (min reservedKernelPages (m / pageSize)))
      (out.image (· / pageSize)) := by
    refine Finset.disjoint_left.mpr ?_
    intro i hi hi'
    obtain ⟨q, hq, rfl⟩ := Finset.mem_image.mp hi'
    have hp := mem_pages.mp (hsub hq)
    simp only [Finset.mem_range, IsPage, reservedKernelPages, pageSize] at hi hp
    omega
  have hinj : Set.InjOn (· / pageSize) (out : Set Nat) := by
    intro p hp q hq hpq
    have h1 := mem_pages.mp (hsub hp)
    have h2 := mem_pages.mp (hsub hq)
    simp only [IsPage, pageSize] at h1 h2 hpq
    omega
  rw [pmmGetUsedPages, H.total, used_fold _ _ hlt, hset, Finset.card_union_of_disjoint hdisj,
    Finset.card_range, Finset.card_image_of_injOn hinj]

end

/-! ### The simulation -/

def poolOp : PmmOp → Op Nat
  | .alloc p => .take (resultOf p)
  | .free p => .give p

/-- The state of the allocator and the set of what is out. -/
structure PmmRel (m : Nat) (s : PmmSys) (out : Finset Nat) : Prop where
  holds : PmmHolds m s.pmm out
  nodup : s.outstanding.Nodup
  out_eq : out = s.outstanding.toFinset

theorem PmmRel.mem {m : Nat} {s : PmmSys} {out : Finset Nat} (H : PmmRel m s out) {p : Nat} :
    p ∈ out ↔ p ∈ s.outstanding := by
  rw [H.out_eq, List.mem_toFinset]

theorem PmmRel.card {m : Nat} {s : PmmSys} {out : Finset Nat} (H : PmmRel m s out) :
    out.card = s.outstanding.length := by
  rw [H.out_eq, List.toFinset_card_of_nodup H.nodup]

/-- **The allocator refines the pool.** -/
theorem pmm_simulation {m : Nat} (hm : m ≤ maxMemory) :
    Lts.Simulation (pmmLts m) (Pool.lts (pages m)) (some ∘ poolOp) (PmmRel m) := by
  refine ⟨?_, ?_⟩
  · rintro _ ⟨bm, rfl⟩
    exact ⟨∅, rfl, .init bm, List.nodup_nil, rfl⟩
  · intro s a s' out hr H hs
    cases hs with
    | @alloc pmm' p hrun =>
      obtain ⟨out', ht, hholds, hout⟩ := H.holds.alloc hm hrun
      refine Or.inr ⟨_, out', rfl, .take ht, hholds, ?_, ?_⟩
      · by_cases hp : p = 0
        · rw [if_pos hp]
          exact H.nodup
        · rw [if_neg hp]
          refine List.nodup_cons.mpr ⟨?_, H.nodup⟩
          intro hmem
          rw [resultOf, if_neg hp] at ht
          cases ht with
          | least _ hnot _ => exact hnot (H.mem.mpr hmem)
      · rw [hout]
        by_cases hp : p = 0
        · rw [if_pos hp, if_pos hp, H.out_eq]
        · rw [if_neg hp, if_neg hp, H.out_eq, List.toFinset_cons]
    | @free p hp =>
      have hpage := mem_pages.mp (Pool.out_subset hr (H.mem.mpr hp))
      refine Or.inr ⟨_, out.erase p, rfl, .give (H.mem.mpr hp), H.holds.free hpage,
        H.nodup.erase p, ?_⟩
      ext q
      rw [Finset.mem_erase, List.mem_toFinset, H.nodup.mem_erase_iff, H.mem]

/-- How many of the next `k` calls of `pmm_alloc_page` return a page. -/
def allocSuccesses : Nat → Pmm → Nat
  | 0, _ => 0
  | k + 1, s =>
      let (s', p) := pmmAllocPage s
      allocSuccesses k s' + if p = 0 then 0 else 1

theorem PmmHolds.takeMany {m : Nat} (hm : m ≤ maxMemory) : ∀ {k : Nat} {s : Pmm}
    {out : Finset Nat}, PmmHolds m s out → TakeMany (pages m) k out (allocSuccesses k s) := by
  intro k
  induction k with
  | zero => exact fun _ => .zero
  | succ k ih =>
    intro s out H
    obtain ⟨⟨s', p⟩, hrun⟩ : ∃ r, pmmAllocPage s = r := ⟨_, rfl⟩
    obtain ⟨out', ht, H', _⟩ := H.alloc hm hrun
    have hstep : allocSuccesses (k + 1) s = allocSuccesses k s' + if p = 0 then 0 else 1 := by
      rw [allocSuccesses, hrun]
    rw [hstep]
    by_cases hp : p = 0
    · rw [resultOf, if_pos hp] at ht
      rw [if_pos hp]
      exact .none ht (ih H')
    · rw [resultOf, if_neg hp] at ht
      rw [if_neg hp]
      exact .some ht (ih H')

/-- **What the allocator guarantees.** -/
structure PmmContract (m : Nat) (s : PmmSys) : Prop where
  /-- Outstanding pages are pairwise distinct, and pages. -/
  nodup : s.outstanding.Nodup
  isPage : ∀ p ∈ s.outstanding, IsPage m p
  /-- `pmm_alloc_page` returns the lowest page that is not outstanding, -/
  alloc : ∀ s' p, pmmAllocPage s.pmm = (s', p) → p ≠ 0 →
    IsPage m p ∧ p ∉ s.outstanding ∧ ∀ q, IsPage m q → q ∉ s.outstanding → p ≤ q
  /-- and null exactly when there is none; null is no page. -/
  null : ∀ s' p, pmmAllocPage s.pmm = (s', p) → (p = 0 ↔ ∀ q, IsPage m q → q ∈ s.outstanding)
  null_not_page : ¬ IsPage m 0
  /-- `pmm_free_page` clears the bit of its page and leaves every other bit alone. -/
  free : ∀ p ∈ s.outstanding, (pmmFreePage s.pmm p).totalPages = s.pmm.totalPages ∧
    ∀ i, bitmapTest (pmmFreePage s.pmm p).bitmap i =
      if i = p / pageSize then false else bitmapTest s.pmm.bitmap i
  /-- The pages counted as used are the reserved ones and the outstanding ones, -/
  used : pmmGetUsedPages s.pmm = min 512 (pmmGetTotalPages s.pmm) + s.outstanding.length
  used_le : pmmGetUsedPages s.pmm ≤ pmmGetTotalPages s.pmm
  /-- and the others are what can still be allocated. -/
  left : ∀ k, allocSuccesses k s.pmm = min k (pmmGetTotalPages s.pmm - pmmGetUsedPages s.pmm)

/-- **The page allocator refines a finite set.** -/
theorem pmm_refines_pool {m : Nat} (hm : m ≤ maxMemory) {s : PmmSys}
    (h : (pmmLts m).Reachable s) : PmmContract m s := by
  obtain ⟨tr, hrun⟩ := h
  obtain ⟨out, hr, H⟩ := (pmm_simulation hm).run hrun
  have hsub : out ⊆ pages m := Pool.out_subset ⟨_, hr⟩
  have hpage : ∀ p ∈ s.outstanding, IsPage m p := fun p hp => mem_pages.mp (hsub (H.mem.mpr hp))
  have hused := H.holds.used hm hsub
  rw [H.card] at hused
  have htotal := H.holds.total
  have hfree := Pool.card_free hsub
  rw [card_pages, H.card] at hfree
  have h512 : reservedKernelPages = 512 := rfl
  -- outstanding pages lie past the reserved ones, so there is room for both
  have hroom : (pages m \ out).card = s.pmm.totalPages - pmmGetUsedPages s.pmm ∧
      pmmGetUsedPages s.pmm ≤ s.pmm.totalPages := by
    rw [hused, htotal]
    omega
  refine ⟨H.nodup, hpage, ?_, ?_, not_isPage_null m, ?_, hused, hroom.2, ?_⟩
  · intro s' p hal hp
    obtain ⟨out', ht, _, _⟩ := H.holds.alloc hm hal
    rw [resultOf, if_neg hp] at ht
    cases ht with
    | least hU hout hmin =>
      exact ⟨mem_pages.mp hU, fun hm' => hout (H.mem.mpr hm'), fun q hq hqo =>
        hmin q (mem_pages.mpr hq) fun hqo' => hqo (H.mem.mp hqo')⟩
  · intro s' p hal
    obtain ⟨out', ht, _, _⟩ := H.holds.alloc hm hal
    have hnone : p = 0 ↔ resultOf p = none := by
      rw [resultOf]
      split <;> simp_all
    rw [hnone, ht.eq_none_iff]
    exact forall_congr' fun q => by rw [mem_pages, H.mem]
  · intro p _
    refine ⟨rfl, ?_⟩
    intro i
    show bitmapTest (bitmapClear s.pmm.bitmap (p / pageSize)) i = _
    rw [bitmapTest_clear]
    by_cases hi : i = p / pageSize
    · rw [if_pos hi, decide_eq_true hi]
      rfl
    · rw [if_neg hi, decide_eq_false hi]
      rfl
  · intro k
    rw [(H.holds.takeMany hm).eq_min, hroom.1]
    rfl

/-- The kernel's own allocator, after two pages have been taken and the first
has been given back. -/
theorem pmm_refines_pool_boot :
    ∃ s, s.outstanding = [0x201000] ∧ PmmContract (64 * 1024 * 1024) s := by
  have hm : 64 * 1024 * 1024 ≤ maxMemory := by decide
  have H0 : PmmHolds (64 * 1024 * 1024) (initPmm (fun _ => 0) (64 * 1024 * 1024)) ∅ :=
    PmmHolds.init _
  have hp1 : IsPage (64 * 1024 * 1024) 0x200000 := by decide
  have hp2 : IsPage (64 * 1024 * 1024) 0x201000 := by decide
  obtain ⟨s1, hrun1, H1⟩ := H0.alloc_eq hm hp1 (Finset.notMem_empty _) fun q hq _ => hq.2.1
  obtain ⟨s2, hrun2, H2⟩ := H1.alloc_eq hm hp2 (by decide) fun q hq hqo => by
    have h1 := hq.1
    have h2 := hq.2.1
    simp only [Finset.mem_insert, Finset.notMem_empty, or_false, pageSize] at h1 hqo
    omega
  have hr0 : (pmmLts (64 * 1024 * 1024)).Reachable ⟨initPmm (fun _ => 0) (64 * 1024 * 1024), []⟩ :=
    .start ⟨_, rfl⟩
  have hr2 : (pmmLts (64 * 1024 * 1024)).Reachable ⟨s2, [0x201000, 0x200000]⟩ :=
    (hr0.step (PmmStep.alloc hrun1)).step (PmmStep.alloc (s := ⟨s1, [0x200000]⟩) hrun2)
  have hmem : 0x200000 ∈ [0x201000, 0x200000] := by decide
  exact ⟨_, rfl, pmm_refines_pool hm (hr2.step (.free hmem))⟩

end Antagonist
