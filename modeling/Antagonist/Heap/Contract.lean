import Antagonist.Heap.Invariant

/-!
# The byte-level contract of the heap

`HeapContract` says what a client may rely on, in terms of memory alone: where
the live blocks lie, what the walk along `next` from `heap_start` visits, that
the next `kmalloc` or `kfree` returns without touching a live block, and that no
addition or subtraction has wrapped.  `heap_contract` proves it after every run.
-/

namespace Antagonist

open ByteMem Tiling

/-- Following `next` from `p` visits the headers at `as` and then `nullptr`. -/
def Walk (h : Heap) : Nat → List Nat → Prop
  | p, [] => p = 0
  | p, a :: as => p = a ∧ p ≠ 0 ∧ Walk h (h.next p) as

/-- **What the heap guarantees its clients.** -/
structure HeapContract (R : HeapRegion) (s : HeapSys) : Prop where
  /-- A live block lies inside the region, -/
  inside : ∀ b ∈ s.live, R.start ≤ b.1 ∧ b.1 + b.2 ≤ R.start + R.pages * pageSize
  /-- shares no byte with another live block, -/
  apart : s.live.Pairwise fun b c => ∀ x, InBlock b x → ¬ InBlock c x
  /-- and none with a header that the walk from `heap_start` reaches. -/
  offHeaders : ∀ b ∈ s.live, ∀ as, Walk s.heap s.heap.heapStart as → ∀ a ∈ as,
    ∀ x, InBlock b x → ¬ (a ≤ x ∧ x < a + headerSize)
  /-- The walk ends, goes up, starts where the region starts, and each chunk
  stops where the next one starts, the last one where the region stops. -/
  walk : ∃ as, Walk s.heap s.heap.heapStart as ∧ as.Pairwise (· < ·) ∧
    as.head? = some R.start ∧
    ∀ a ∈ as, a + headerSize + s.heap.size a =
      if s.heap.next a = 0 then R.start + R.pages * pageSize else s.heap.next a
  /-- `kmalloc` returns and leaves every live block as it is. -/
  malloc : ∀ n < 2 ^ 32, ∃ p h', kmalloc n s.heap = some (p, h') ∧
    ∀ b ∈ s.live, ∀ x, InBlock b x → h'.mem x = s.heap.mem x
  /-- `kfree` returns and leaves every block that stays live as it is. -/
  free : ∀ p, (p = 0 ∨ ∃ n, (p, n) ∈ s.live) → ∃ h', kfree p s.heap = some h' ∧
    ∀ b ∈ s.live, b.1 ≠ p → ∀ x, InBlock b x → h'.mem x = s.heap.mem x
  /-- No addition or subtraction in either function has wrapped. -/
  noWrap : s.heap.wrapped = false

theorem walk_unique {h : Heap} : ∀ {as bs : List Nat} {p : Nat},
    Walk h p as → Walk h p bs → as = bs := by
  intro as
  induction as with
  | nil =>
    intro bs p ha hb
    cases bs with
    | nil => rfl
    | cons b bs => exact absurd ha hb.2.1
  | cons a as ih =>
    intro bs p ha hb
    cases bs with
    | nil => exact absurd hb ha.2.1
    | cons b bs => rw [← ha.1, ← hb.1, ih ha.2.2 hb.2.2]

theorem walk_of_chain {h : Heap} {cs : List Chunk} {p : Nat} (hC : Chain h.mem p cs) :
    Walk h p (cs.map Chunk.addr) := by
  induction cs generalizing p with
  | nil => exact hC
  | cons c cs ih =>
    obtain ⟨rfl, h0, q, hc, hrest⟩ := hC
    refine ⟨rfl, h0, ?_⟩
    rw [Heap.next, hc.next]
    exact ih hrest

/-- In a tiled chain, a chunk stops where its `next` points, or at the end. -/
theorem chain_stop {h : Heap} {cs : List Chunk} {p lo hi : Nat} (hC : Chain h.mem p cs)
    (hT : Tiles headerSize lo cs hi) : ∀ c ∈ cs, c.addr + headerSize + h.size c.addr =
      if h.next c.addr = 0 then hi else h.next c.addr := by
  induction cs generalizing p lo with
  | nil => simp
  | cons c cs ih =>
    obtain ⟨rfl, h0, q, hc, hrest⟩ := hC
    intro d hd
    rcases List.mem_cons.mp hd with rfl | hm
    · have hn : h.next d.addr = q := hc.next
      have hs : h.size d.addr = d.size := hc.size
      rw [hn, hs]
      cases cs with
      | nil =>
        have hq : q = 0 := hrest
        have hend := hT.2
        rw [if_pos hq]
        exact hend
      | cons e es =>
        have hea := hT.2.1
        rw [if_neg hrest.2.1, hrest.1, hea]
        rfl
    · exact ih hrest hT.2 d hm

theorem HeapInv.apart {R : HeapRegion} {s : HeapSys} {cs : List Chunk} (H : HeapInv R s cs) :
    s.live.Pairwise fun b c => ∀ x, InBlock b x → ¬ InBlock c x := by
  have hnd : s.live.Pairwise fun b c => b.1 ≠ c.1 := List.pairwise_map.mp H.nodup
  refine hnd.imp_of_mem fun {b c} hb hc hne x hxb hxc => ?_
  obtain ⟨d, hd, _, hdp, hdin⟩ := H.block_data hb
  obtain ⟨e, he, _, hep, hein⟩ := H.block_data hc
  have h1 := hdin x hxb
  have h2 := hein x hxc
  simp only [Chunk.InData] at h1 h2
  rcases H.heapAt.tiles.eq_or_apart hd he with rfl | hlt | hlt
  · exact hne (hdp.trans hep.symm)
  · omega
  · omega

theorem HeapInv.offHeaders {R : HeapRegion} {s : HeapSys} {cs : List Chunk} (H : HeapInv R s cs)
    {b : Nat × Nat} (hb : b ∈ s.live) {c : Chunk} (hc : c ∈ cs) {x : Nat} (hx : InBlock b x) :
    ¬ c.InHeader headerSize x := by
  intro hh
  obtain ⟨d, hd, hu, _, hin⟩ := H.block_data hb
  exact H.heapAt.not_touchable hd hu (hin x hx) ⟨c, hc, Or.inl hh⟩

/-- **The heap keeps its contract.**  It holds after every run of `kmalloc`,
`kfree` of blocks that are held, and stores into them. -/
theorem heap_contract (R : HeapRegion) {s : HeapSys} (h : (heapLts R).Reachable s) :
    HeapContract R s := by
  obtain ⟨cs, H⟩ := heapInv_of_reachable h
  have hwalk := walk_of_chain H.heapAt.chain
  refine ⟨?_, H.apart, ?_, ⟨cs.map Chunk.addr, hwalk, ?_, ?_, ?_⟩, ?_, ?_, H.heapAt.noWrap⟩
  · intro b hb
    obtain ⟨c, hc, _, hp, hn⟩ := H.live_used b hb
    have := H.heapAt.tiles.bounds hc
    simp only [Chunk.stop, HeapRegion.stop] at this
    omega
  · intro b hb as has a ha x hx
    rw [walk_unique has hwalk] at ha
    obtain ⟨c, hc, rfl⟩ := List.mem_map.mp ha
    exact H.offHeaders hb hc hx
  · refine List.pairwise_map.mpr (H.heapAt.tiles.pairwise.imp fun {c d} hcd => ?_)
    simp only [Chunk.stop, headerSize] at hcd
    omega
  · cases cs with
    | nil =>
      have := H.heapAt.tiles
      have hp := R.pages_pos
      simp only [tiles_nil, HeapRegion.stop, pageSize] at this
      omega
    | cons c cs => simp [H.heapAt.tiles.1]
  · intro a ha
    obtain ⟨c, hc, rfl⟩ := List.mem_map.mp ha
    exact chain_stop H.heapAt.chain H.heapAt.tiles c hc
  · intro n _
    obtain ⟨p, h', hrun, _, hframe⟩ := H.kmalloc n
    exact ⟨p, h', hrun, hframe⟩
  · intro p hp
    obtain ⟨h', hrun, _, hframe⟩ := H.kfree hp
    exact ⟨h', hrun, hframe⟩

/-- The region `kernel_main` hands to `init_heap`. -/
def kernelHeap : HeapRegion where
  start := 0x300000
  pages := 256
  start_pos := by decide
  pages_pos := by decide
  fits := by decide

/-- A run of the kernel's own heap: three blocks are handed out, and the one between the others is
freed again. -/
theorem kernelHeap_blocks : ∃ s, (heapLts kernelHeap).Reachable s ∧
    s.live = [(0x3000B3, 20), (0x300009, 52)] := by
  have hrun : ((kmalloc 52 (initHeap (fun _ => 0) 0x300000 256)).bind fun a =>
      (kmalloc 100 a.2).bind fun b => (kmalloc 20 b.2).bind fun c =>
        (kfree b.1 c.2).map fun _ => (a.1, b.1, c.1)) =
      some (0x300009, 0x300046, 0x3000B3) := by decide +kernel
  obtain ⟨⟨p, h₁⟩, hp, hrun⟩ := Option.bind_eq_some_iff.mp hrun
  obtain ⟨⟨q, h₂⟩, hq, hrun⟩ := Option.bind_eq_some_iff.mp hrun
  obtain ⟨⟨r, h₃⟩, hr, hrun⟩ := Option.bind_eq_some_iff.mp hrun
  obtain ⟨h₄, hfree, haddr⟩ := Option.map_eq_some_iff.mp hrun
  simp only [Prod.mk.injEq] at haddr
  obtain ⟨rfl, rfl, rfl⟩ := haddr
  have hfirst : (heapLts kernelHeap).step ⟨initHeap (fun _ => 0) 0x300000 256, []⟩
      (.kmalloc 52 0x300009) ⟨h₁, [(0x300009, 52)]⟩ := HeapStep.kmalloc (by decide) hp
  have hsecond : (heapLts kernelHeap).step ⟨h₁, [(0x300009, 52)]⟩ (.kmalloc 100 0x300046)
      ⟨h₂, [(0x300046, 100), (0x300009, 52)]⟩ := HeapStep.kmalloc (by decide) hq
  have hthird : (heapLts kernelHeap).step ⟨h₂, [(0x300046, 100), (0x300009, 52)]⟩
      (.kmalloc 20 0x3000B3) ⟨h₃, [(0x3000B3, 20), (0x300046, 100), (0x300009, 52)]⟩ :=
    HeapStep.kmalloc (by decide) hr
  have hfourth : (heapLts kernelHeap).step
      ⟨h₃, [(0x3000B3, 20), (0x300046, 100), (0x300009, 52)]⟩ (.kfree 0x300046)
      ⟨h₄, [(0x3000B3, 20), (0x300009, 52)]⟩ := HeapStep.kfree (.inr ⟨100, by simp⟩) hfree
  have hstart : (heapLts kernelHeap).Reachable ⟨initHeap (fun _ => 0) 0x300000 256, []⟩ :=
    .start ⟨fun _ => 0, rfl⟩
  exact ⟨_, (((hstart.step hfirst).step hsecond).step hthird).step hfourth, rfl⟩

theorem heap_contract_kernelHeap : ∃ s, s.live = [(0x3000B3, 20), (0x300009, 52)] ∧
    HeapContract kernelHeap s := by
  obtain ⟨s, hs, hlive⟩ := kernelHeap_blocks
  exact ⟨s, hlive, heap_contract kernelHeap hs⟩

end Antagonist
