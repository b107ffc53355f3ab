import Antagonist.Boot.Image
import Antagonist.Heap.Contract
import Antagonist.Pmm.Refinement

/-!
# Page frames and kernel memory

`kernel_main` calls `init_pmm(64 * 1024 * 1024)` and
`init_heap(0x300000, 256)`; the linker has put the image at 1 MiB.  `bootLts`
is what can happen then: the page allocator and the heap with their clients, in
any order.

`init_pmm` reserves the first 2 MiB, the image is longer than that, and no one
tells the page allocator about the heap.  The first page handed out is
`0x200000`, inside the image.
-/

namespace Antagonist

def bootMemory : Nat := 64 * 1024 * 1024

/-- The two allocators after the boot sequence. -/
def bootLts : Lts (PmmSys × HeapSys) (PmmOp ⊕ HeapOp) :=
  (pmmLts bootMemory).interleave (heapLts kernelHeap)

/-- No byte of the page at `p` is in the kernel image or in the kernel heap. -/
def OffKernel (im : Image) (p : Nat) : Prop :=
  ∀ x, p ≤ x → x < p + pageSize →
    ¬ im.Contains x ∧ ¬ (kernelHeap.start ≤ x ∧ x < kernelHeap.stop)

/-- The pages that `pmm_alloc_page` returned in a run. -/
def Returned (tr : List (PmmOp ⊕ HeapOp)) (p : Nat) : Prop :=
  .inl (.alloc p) ∈ tr ∧ p ≠ 0

def firstPage : Nat := 0x200000

theorem firstPage_isPage : IsPage bootMemory firstPage := by decide

/-- **The first page handed out is the one at 2 MiB.** -/
theorem alloc_firstPage {s s' : PmmSys} {p : Nat} (h : (pmmLts bootMemory).Reachable s)
    (hout : s.outstanding = []) (hs : PmmStep s (.alloc p) s') : p = firstPage := by
  obtain ⟨tr, hrun⟩ := h
  obtain ⟨out, _, H⟩ := (pmm_simulation (by decide)).run hrun
  have hempty : firstPage ∉ out := by
    rw [H.mem, hout]
    exact List.not_mem_nil
  obtain ⟨t, ht, _⟩ := H.holds.alloc_eq (by decide) firstPage_isPage hempty fun q hq _ => hq.2.1
  cases hs with
  | alloc hal =>
    rw [ht] at hal
    exact (Prod.mk.inj hal).2.symm

/-- A run of the page allocator has handed out the first page, or none. -/
theorem firstPage_or_none {tr : List PmmOp} {s : PmmSys} (h : (pmmLts bootMemory).Run tr s) :
    PmmOp.alloc firstPage ∈ tr ∨ (∀ p, PmmOp.alloc p ∉ tr) ∧ s.outstanding = [] := by
  refine h.traceInvariant (I := fun tr s => PmmOp.alloc firstPage ∈ tr ∨
    (∀ p, PmmOp.alloc p ∉ tr) ∧ s.outstanding = []) ?_ ?_
  · rintro s ⟨bm, rfl⟩
    exact Or.inr ⟨fun _ => List.not_mem_nil, rfl⟩
  · intro tr s a s' hr ih hs
    rcases ih with hmem | ⟨hno, hout⟩
    · exact Or.inl (List.mem_append_left _ hmem)
    · cases a with
      | alloc p =>
        have hp := alloc_firstPage ⟨tr, hr⟩ hout hs
        exact Or.inl (by rw [hp]; simp)
      | free p =>
        cases hs with
        | free hmem =>
          rw [hout] at hmem
          exact absurd hmem List.not_mem_nil

theorem not_offKernel_firstPage (im : Image) : ¬ OffKernel im firstPage := by
  intro h
  have hstop := im.stop_ge
  refine (h firstPage (Nat.le_refl _) (by decide)).1 ⟨by decide, ?_⟩
  simp only [Image.start, totalScreenPixels] at hstop
  simp only [firstPage]
  omega

/-- The run in which the first call after the boot sequence is `pmm_alloc_page`. -/
theorem bootLts_firstPage : ∃ s, bootLts.Run [.inl (.alloc firstPage)] s := by
  obtain ⟨s, hs⟩ : ∃ s, s = initPmm (fun _ => 0) bootMemory := ⟨_, rfl⟩
  have H : PmmHolds bootMemory s ∅ := hs ▸ PmmHolds.init _
  obtain ⟨t, ht, _⟩ := H.alloc_eq (by decide) firstPage_isPage (Finset.notMem_empty _)
    fun q hq _ => hq.2.1
  have hstep : PmmStep ⟨s, []⟩ (.alloc firstPage) ⟨t, [firstPage]⟩ :=
    PmmStep.alloc (s := ⟨s, []⟩) ht
  have h0 : bootLts.init (⟨s, []⟩, ⟨initHeap (fun _ => 0) kernelHeap.start kernelHeap.pages, []⟩) :=
    ⟨⟨_, by rw [hs]⟩, ⟨_, rfl⟩⟩
  exact ⟨(⟨t, [firstPage]⟩, _), (Lts.Run.start h0).snoc ⟨hstep, rfl⟩⟩

/-- **The pages stay off the kernel exactly in the runs that hand out none.** -/
theorem pages_offKernel_iff (im : Image) {tr : List (PmmOp ⊕ HeapOp)} {s : PmmSys × HeapSys}
    (h : bootLts.Run tr s) :
    (∀ p, Returned tr p → OffKernel im p) ↔ ∀ p, .inl (.alloc p) ∉ tr := by
  have hmem : ∀ a, a ∈ tr.filterMap Sum.getLeft? ↔ (.inl a : PmmOp ⊕ HeapOp) ∈ tr := by
    intro a
    rw [List.mem_filterMap]
    refine ⟨?_, ?_⟩
    · rintro ⟨b, hb, hba⟩
      rw [← Sum.getLeft?_eq_some_iff.mp hba]
      exact hb
    · exact fun ha => ⟨_, ha, rfl⟩
  refine ⟨?_, ?_⟩
  · intro hoff p hp
    rcases firstPage_or_none h.left with hfirst | ⟨hno, _⟩
    · exact not_offKernel_firstPage im
        (hoff firstPage ⟨(hmem _).mp hfirst, by decide⟩)
    · exact hno p ((hmem _).mpr hp)
  · exact fun hno p hp => absurd hp.1 (hno p)

theorem pages_offKernel_iff_firstPage : ∃ s, bootLts.Run [.inl (.alloc firstPage)] s ∧
    ((∀ p, Returned [.inl (.alloc firstPage)] p → OffKernel smallImage p) ↔
      ∀ p, (.inl (.alloc p) : PmmOp ⊕ HeapOp) ∉ [.inl (.alloc firstPage)]) := by
  obtain ⟨s, hs⟩ := bootLts_firstPage
  exact ⟨s, hs, pages_offKernel_iff smallImage hs⟩

/-- The first `pmm_alloc_page` after the boot sequence returns a page of the image. -/
theorem not_pages_offKernel : ¬ ∀ (im : Image) (tr : List (PmmOp ⊕ HeapOp))
    (s : PmmSys × HeapSys), bootLts.Run tr s → ∀ p, Returned tr p → OffKernel im p := by
  intro hall
  obtain ⟨s, hs⟩ := bootLts_firstPage
  exact not_offKernel_firstPage smallImage
    (hall smallImage _ s hs firstPage ⟨List.mem_singleton.mpr rfl, by decide⟩)

end Antagonist
