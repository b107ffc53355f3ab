import Antagonist.Heap.Canonical
import Antagonist.Lib.Gap

/-!
# First fit, on the free space

What `kmalloc` does is stated on the gaps between the live chunks, and not on the list: the
list has a chunk for every gap and no other free one (`Lib.Gap`).

* `kmalloc_firstFit`: `kmalloc` fails only when no gap is long enough, and takes the
  lowest one otherwise.
-/

namespace Antagonist

open ByteMem Tiling

/-- A byte of the region that no live chunk covers, neither with its header nor with its
data. -/
def Uncovered (R : HeapRegion) (s : HeapSys) (x : Nat) : Prop :=
  R.start ≤ x ∧ x < R.stop ∧
    ∀ b ∈ liveChunks s, ¬ (b.1 - headerSize ≤ x ∧ x < b.1 + b.2)

/-- A gap: from `lo`, `len` bytes. -/
def IsGap (R : HeapRegion) (s : HeapSys) (lo len : Nat) : Prop := MaximalRun (Uncovered R s) lo len

/-- **What `kmalloc(n)` does**, `p` being its result and `h'` the heap after it. -/
structure FirstFit (R : HeapRegion) (s : HeapSys) (n p : Nat) (h' : Heap) : Prop where
  /-- Null is returned exactly when every gap is too short. -/
  null_iff : p = 0 ↔ ∀ lo len, IsGap R s lo len → len < n + headerSize
  /-- Otherwise the chunk lies at the start of the lowest gap that is long enough, and is the
  whole of it when too little would be left over. -/
  placed : p ≠ 0 → ∃ lo len, IsGap R s lo len ∧ n + headerSize ≤ len ∧
    (∀ lo' len', IsGap R s lo' len' → n + headerSize ≤ len' → lo ≤ lo') ∧ p = lo + headerSize ∧
    h'.size lo = if len - (n + headerSize) < headerSize + splitSlack then len - headerSize else n

theorem uncovered_iff {R : HeapRegion} {s : HeapSys} {cs : List Chunk} (H : HeapInv R s cs) (x : Nat) :
    Uncovered R s x ↔ FreeByte headerSize R.start R.stop cs x := by
  refine and_congr_right fun _ => and_congr_right fun _ => ⟨fun h c hc hu hin => ?_, fun h b hb hin => ?_⟩
  · apply h _ ((mem_liveChunks H hu).mp hc)
    rw [Nat.add_sub_cancel]
    exact hin
  · obtain ⟨blk, hblk, rfl⟩ := List.mem_map.mp hb
    obtain ⟨c, hc, hu, haddr, -⟩ := H.live_used blk hblk
    simp only [haddr, Nat.add_sub_cancel, (chain_fields H.heapAt.chain c hc).1] at hin
    exact h c hc hu hin

theorem isGap_iff {R : HeapRegion} {s : HeapSys} {cs : List Chunk} (H : HeapInv R s cs)
    (lo len : Nat) :
    IsGap R s lo len ↔ MaximalRun (FreeByte headerSize R.start R.stop cs) lo len := by
  have hsame : Uncovered R s = FreeByte headerSize R.start R.stop cs :=
    funext fun x => propext (uncovered_iff H x)
  rw [IsGap, hsame]

/-- **`kmalloc` is complete and first fit** after every run, for every size. -/
theorem kmalloc_firstFit (R : HeapRegion) {s : HeapSys} (h : (heapLts R).Reachable s) (n : Nat) :
    ∃ p h', kmalloc n s.heap = some (p, h') ∧ FirstFit R s n p h' := by
  obtain ⟨cs, H⟩ := heapInv_of_reachable h
  have hT := H.heapAt.tiles
  have hn := H.heapAt.canonical
  have hpos : 0 < headerSize := by decide
  have hnone := alloc_eq_none_iff_gaps splitSlack n hT hn hpos
  simp only [← isGap_iff H] at hnone
  rcases H.heapAt.kmalloc n with ⟨hal, hrun⟩ | ⟨a, cs', m', hal, hrun, hA, -⟩
  · exact ⟨0, s.heap, hrun, ⟨fun _ => hnone.mp hal, fun _ => rfl⟩, fun hp => absurd rfl hp⟩
  · obtain ⟨len, hgap, hlen, hlowest, hmem⟩ := alloc_gap hT hn hpos hal
    simp only [← isGap_iff H] at hgap hlowest
    refine ⟨a + headerSize, _, hrun, ⟨fun hp => ?_, fun hall => ?_⟩, fun _ => ?_⟩
    · simp only [headerSize] at hp
      omega
    · have hlt := hall a len hgap
      omega
    · refine ⟨a, len, hgap, hlen, hlowest, rfl, ?_⟩
      rw [(chain_fields hA.chain _ hmem).1]
      exact if_congr (by omega) rfl rfl

theorem kmalloc_firstFit_kernelHeap : ∃ s, s.live = [(0x3000B3, 20), (0x300009, 52)] ∧
    ∃ p h', kmalloc 100 s.heap = some (p, h') ∧ FirstFit kernelHeap s 100 p h' := by
  obtain ⟨s, hs, hlive⟩ := kernelHeap_blocks
  exact ⟨s, hlive, kmalloc_firstFit kernelHeap hs 100⟩

end Antagonist
