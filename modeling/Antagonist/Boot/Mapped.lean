import Antagonist.Boot.PageFrames
import Antagonist.Boot.Vmm
import Antagonist.Graphics.Buffer

/-!
# What the kernel's directory does not map

`init_vmm` maps 4 MiB.  `init_pmm` is told of 64 MiB, and hands out its pages from the lowest one
up, so the pages stay mapped as long as each request finds a free one below 4 MiB
(`pagesMapped_iff`).  The framebuffer lies at `0xFD000000`, and none of its words is mapped.

* `Mapped`: the directory lets ring 0 write the byte.
* `LowPageFree`: the condition on a run of the page allocator.
* `not_mapped_lfb`: no byte of a pixel is mapped.
-/

namespace Antagonist

open ByteMem Paging Pool

/-- The directory in CR3 has the byte at `v` present, and writable for the supervisor. -/
def Mapped {im : Image} (L : VmmLayout im) (m : Mem) (v : Nat) : Prop :=
  ∃ t, walk (initVmm L m) L.pageDirectory v = some t ∧ t.writable = true

section

variable {im : Image} (L : VmmLayout im) (m : Mem)

theorem mapped_iff {v : Nat} (hv : v < 2 ^ 32) : Mapped L m v ↔ v < 4194304 := by
  rw [Mapped, walk_kernel L m hv]
  by_cases hlow : v < 4194304
  · rw [if_pos hlow]
    exact iff_of_true ⟨_, rfl, rfl⟩ hlow
  · rw [if_neg hlow]
    exact iff_of_false (fun ⟨t, ht, _⟩ => absurd ht (by simp)) hlow

/-- Every byte of every page that was returned is mapped. -/
def PagesMapped (tr : List PmmOp) : Prop :=
  ∀ p, .alloc p ∈ tr → p ≠ 0 → ∀ b < pageSize, Mapped L m (p + b)

/-- Every byte of the words that the log lists is mapped. -/
def WordsMapped (log : List Nat) : Prop := ∀ a ∈ log, ∀ b < 4, Mapped L m (a + b)

/-- What the kernel hands out in the run `tr` and touches for the pixel `(x, y)` is mapped: the
pages, the word that `put_pixel` writes, and the one that `swap_graphics_buffers` writes. -/
structure OnlyMapped (tr : List PmmOp) (backBuffer : BackBuffer) (m' : Mem) (x y color : BitVec 32) :
    Prop where
  pages : PagesMapped L m tr
  putPixel : WordsMapped L m (putPixel m' x y color).log
  swap : WordsMapped L m
    (swapGraphicsBuffers backBuffer m').log[y.toNat * screenWidth + x.toNat]?.toList

end

/-! ### The pages -/

def outstandingAfter (tr : List PmmOp) : List Nat :=
  tr.foldl (fun out op => match op with
    | .alloc p => if p = 0 then out else p :: out
    | .free p => out.erase p) []

/-- Each request comes when a page below 4 MiB is free, or when no page is. -/
def LowPageFree (tr : List PmmOp) : Prop :=
  ∀ pre p post, tr = pre ++ .alloc p :: post →
    (∃ q, IsPage bootMemory q ∧ q < 4194304 ∧ q ∉ outstandingAfter pre) ∨
      ∀ q, IsPage bootMemory q → q ∈ outstandingAfter pre

theorem outstandingAfter_snoc (tr : List PmmOp) (op : PmmOp) : outstandingAfter (tr ++ [op]) =
    match op with
    | .alloc p => if p = 0 then outstandingAfter tr else p :: outstandingAfter tr
    | .free p => (outstandingAfter tr).erase p := by
  rw [outstandingAfter, List.foldl_append]
  rfl

theorem outstanding_eq {m : Nat} {tr : List PmmOp} {s : PmmSys} (h : (pmmLts m).Run tr s) :
    s.outstanding = outstandingAfter tr := by
  refine h.traceInvariant (I := fun tr s => s.outstanding = outstandingAfter tr) ?_ ?_
  · rintro s ⟨bm, rfl⟩
    rfl
  · intro tr s op t _ ih hs
    rw [outstandingAfter_snoc, ← ih]
    cases hs with
    | alloc _ => rfl
    | free _ => rfl

/-- A request returns the lowest page that is free, or nothing is. -/
theorem alloc_least {tr : List PmmOp} {s t : PmmSys} {p : Nat} (h : (pmmLts bootMemory).Run tr s)
    (hs : PmmStep s (.alloc p) t) :
    (p = 0 ∧ ∀ q, IsPage bootMemory q → q ∈ outstandingAfter tr) ∨
      (IsPage bootMemory p ∧ p ∉ outstandingAfter tr ∧
        ∀ q, IsPage bootMemory q → q ∉ outstandingAfter tr → p ≤ q) := by
  obtain ⟨out, _, H⟩ := (pmm_simulation (by decide)).run h
  have hmem : ∀ q, q ∈ out ↔ q ∈ outstandingAfter tr := by
    intro q
    rw [H.mem, outstanding_eq h]
  cases hs with
  | alloc hal =>
    obtain ⟨out', ht, _, _⟩ := H.holds.alloc (by decide) hal
    by_cases hp : p = 0
    · rw [resultOf, if_pos hp] at ht
      have hall := ht.eq_none_iff.mp rfl
      exact Or.inl ⟨hp, fun q hq => (hmem q).mp (hall (mem_pages.mpr hq))⟩
    · rw [resultOf, if_neg hp] at ht
      generalize hr : some p = r at ht
      cases ht with
      | empty _ => cases hr
      | least hpage hout hleast =>
        obtain rfl := Option.some.inj hr
        refine Or.inr ⟨mem_pages.mp hpage, fun hin => hout ((hmem p).mpr hin), ?_⟩
        intro q hq hqout
        exact hleast q (mem_pages.mpr hq) fun hin => hqout ((hmem q).mp hin)

/-- A request returns a page below 4 MiB, or none, exactly when one is free there or none is. -/
theorem alloc_low_iff {tr : List PmmOp} {s t : PmmSys} {p : Nat}
    (h : (pmmLts bootMemory).Run tr s) (hs : PmmStep s (.alloc p) t) :
    (p ≠ 0 → p < 4194304) ↔
      (∃ q, IsPage bootMemory q ∧ q < 4194304 ∧ q ∉ outstandingAfter tr) ∨
        ∀ q, IsPage bootMemory q → q ∈ outstandingAfter tr := by
  rcases alloc_least h hs with ⟨h0, hall⟩ | ⟨hpage, hout, hleast⟩
  · exact iff_of_true (fun hne => absurd h0 hne) (Or.inr hall)
  · have hne : p ≠ 0 := by
      rintro rfl
      exact not_isPage_null _ hpage
    refine ⟨fun hlow => Or.inl ⟨p, hpage, hlow hne, hout⟩, ?_⟩
    rintro (⟨q, hq, hlow, hqout⟩ | hall) _
    · exact Nat.lt_of_le_of_lt (hleast q hq hqout) hlow
    · exact absurd (hall p hpage) hout

theorem mapped_page_iff {im : Image} (L : VmmLayout im) (m : Mem) {p : Nat} (hp : IsPage bootMemory p) :
    (∀ b < pageSize, Mapped L m (p + b)) ↔ p < 4194304 := by
  simp only [IsPage, bootMemory, pageSize] at hp ⊢
  refine ⟨?_, ?_⟩
  · intro hall
    exact (mapped_iff L m (by omega)).mp (hall 0 (by decide))
  · intro hlow b hb
    exact (mapped_iff L m (by omega)).mpr (by omega)

theorem pagesMapped_snoc {im : Image} (L : VmmLayout im) (m : Mem) (tr : List PmmOp) (op : PmmOp) :
    PagesMapped L m (tr ++ [op]) ↔ PagesMapped L m tr ∧
      ∀ p, op = .alloc p → p ≠ 0 → ∀ b < pageSize, Mapped L m (p + b) := by
  simp only [PagesMapped, List.mem_append, List.mem_singleton]
  refine ⟨fun h => ⟨fun p hp => h p (Or.inl hp), fun p hp => h p (Or.inr hp.symm)⟩, ?_⟩
  rintro ⟨hold, hnew⟩ p (hp | hp)
  · exact hold p hp
  · exact hnew p hp.symm

theorem lowPageFree_snoc (tr : List PmmOp) (op : PmmOp) :
    LowPageFree (tr ++ [op]) ↔ LowPageFree tr ∧ ∀ p, op = .alloc p →
      (∃ q, IsPage bootMemory q ∧ q < 4194304 ∧ q ∉ outstandingAfter tr) ∨
        ∀ q, IsPage bootMemory q → q ∈ outstandingAfter tr :=
  Lts.forall_split_snoc PmmOp.alloc

/-- **The pages of a run are mapped** exactly when each request found a free one below 4 MiB. -/
theorem pagesMapped_iff {im : Image} (L : VmmLayout im) (m : Mem) {tr : List PmmOp} {s : PmmSys}
    (h : (pmmLts bootMemory).Run tr s) : PagesMapped L m tr ↔ LowPageFree tr := by
  refine h.traceInvariant (I := fun tr _ => PagesMapped L m tr ↔ LowPageFree tr) ?_ ?_
  · intro s _
    refine iff_of_true (fun p hp => absurd hp List.not_mem_nil) ?_
    intro pre p post he
    cases pre <;> cases he
  · intro tr s op t hrun ih hs
    rw [pagesMapped_snoc, lowPageFree_snoc, ih]
    refine and_congr_right fun _ => forall_congr' ?_
    intro p
    refine imp_congr_right ?_
    rintro rfl
    rw [← alloc_low_iff hrun hs]
    refine imp_congr_right ?_
    intro hne
    rcases alloc_least hrun hs with ⟨h0, _⟩ | ⟨hpage, _⟩
    · exact absurd h0 hne
    · exact mapped_page_iff L m hpage

/-! ### The pixels -/

theorem lfbWord_lt {x y : BitVec 32} (hx : x.toNat < screenWidth) (hy : y.toNat < screenHeight)
    {b : Nat} (hb : b < 4) :
    lfbWord (y.toNat * screenWidth + x.toNat) + b < 2 ^ 32 := by
  simp only [lfbWord, vbeLfbPhysicalAddress, screenWidth, screenHeight] at *
  omega

/-- **No byte of a pixel is mapped.** -/
theorem not_mapped_lfb {im : Image} (L : VmmLayout im) (m : Mem) {x y : BitVec 32}
    (hx : x.toNat < screenWidth) (hy : y.toNat < screenHeight) {b : Nat} (hb : b < 4) :
    ¬ Mapped L m (lfbWord (y.toNat * screenWidth + x.toNat) + b) := by
  rw [mapped_iff L m (lfbWord_lt hx hy hb)]
  simp only [lfbWord, vbeLfbPhysicalAddress]
  omega

/-- The store of a pixel is one of those that `swap_graphics_buffers` makes. -/
theorem swapGraphicsBuffers_log_pixel (backBuffer : BackBuffer) (m : Mem) {x y : BitVec 32}
    (hx : x.toNat < screenWidth) (hy : y.toNat < screenHeight) :
    (swapGraphicsBuffers backBuffer m).log[y.toNat * screenWidth + x.toNat]? =
      some (lfbWord (y.toNat * screenWidth + x.toNat)) := by
  have hi : y.toNat * screenWidth + x.toNat < totalScreenPixels := by
    simp only [screenWidth, screenHeight, totalScreenPixels] at *
    omega
  rw [swapGraphicsBuffers_log, List.getElem?_map, List.getElem?_range hi]
  rfl

/-- **What the kernel touches is not all mapped**, whatever it does: the framebuffer never is.  The
pages are, exactly when each request finds a free one below 4 MiB. -/
theorem onlyMapped_never {im : Image} (L : VmmLayout im) (m : Mem) {tr : List PmmOp} {s : PmmSys}
    (h : (pmmLts bootMemory).Run tr s) (backBuffer : BackBuffer) (m' : Mem) {x y : BitVec 32}
    (color : BitVec 32) (hx : x.toNat < screenWidth) (hy : y.toNat < screenHeight) :
    ¬ OnlyMapped L m tr backBuffer m' x y color ∧
      (PagesMapped L m tr ↔ LowPageFree tr) ∧
      (∀ a ∈ (putPixel m' x y color).log, ∀ b < 4, ¬ Mapped L m (a + b)) ∧
      ∀ a, (swapGraphicsBuffers backBuffer m').log[y.toNat * screenWidth + x.toNat]? = some a →
        ∀ b < 4, ¬ Mapped L m (a + b) := by
  have hput := putPixel_log m' color hx hy
  refine ⟨?_, pagesMapped_iff L m h, ?_, ?_⟩
  · intro H
    have hmapped := H.putPixel _ (hput ▸ List.mem_singleton_self _) 0 (by decide)
    exact not_mapped_lfb L m hx hy (by decide) hmapped
  · intro a ha b hb
    rw [hput, List.mem_singleton] at ha
    rw [ha]
    exact not_mapped_lfb L m hx hy hb
  · intro a ha b hb
    rw [swapGraphicsBuffers_log_pixel backBuffer m' hx hy, Option.some.injEq] at ha
    rw [← ha]
    exact not_mapped_lfb L m hx hy hb

theorem pmmLts_start : (pmmLts bootMemory).Run [] ⟨initPmm (fun _ => 0) bootMemory, []⟩ :=
  Lts.Run.start ⟨_, rfl⟩

/-- The first page has been handed out. -/
theorem onlyMapped_never_corner : ∃ s, (pmmLts bootMemory).Run [.alloc firstPage] s ∧
    ¬ OnlyMapped smallVmmLayout (fun _ => 0) [.alloc firstPage] (fun _ => 0#32) (fun _ => 0)
      0#32 0#32 0#32 ∧
    (PagesMapped smallVmmLayout (fun _ => 0) [.alloc firstPage] ↔
      LowPageFree [.alloc firstPage]) := by
  obtain ⟨s, hs⟩ := bootLts_firstPage
  have hnever := onlyMapped_never smallVmmLayout (fun _ => 0) hs.left (fun _ => 0#32) (fun _ => 0)
    (x := 0#32) (y := 0#32) 0#32 (by decide) (by decide)
  exact ⟨s.1, hs.left, hnever.1, hnever.2.1⟩

/-- The first pixel, before any page is handed out. -/
theorem not_onlyMapped : ¬ ∀ (im : Image) (L : VmmLayout im) (m : Mem) (tr : List PmmOp)
    (s : PmmSys) (backBuffer : BackBuffer) (m' : Mem) (x y color : BitVec 32),
    (pmmLts bootMemory).Run tr s → x.toNat < screenWidth → y.toNat < screenHeight →
      OnlyMapped L m tr backBuffer m' x y color := by
  intro hall
  have H := hall smallImage smallVmmLayout (fun _ => 0) [] _ (fun _ => 0#32) (fun _ => 0) 0#32 0#32
    0#32 pmmLts_start (by decide) (by decide)
  have hlog := putPixel_log (fun _ => 0) (x := 0#32) (y := 0#32) 0#32 (by decide) (by decide)
  have hmapped := H.putPixel _ (hlog ▸ List.mem_singleton_self _) 0 (by decide)
  exact not_mapped_lfb smallVmmLayout (fun _ => 0) (by decide) (by decide) (by decide) hmapped

end Antagonist
