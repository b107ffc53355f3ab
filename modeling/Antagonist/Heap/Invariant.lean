import Antagonist.Heap.Chain
import Antagonist.Lib.Lts

/-!
# Runs of the kernel heap

The clients of the heap call `kmalloc` and `kfree` and write inside the bytes
they asked for.  `heapLts` is the system they form with the allocator, and
`HeapInv` is its invariant: some chunk list tiles the region, is what memory
holds, has no two free neighbours, and its used chunks are the live blocks.

* `HeapAt.kmalloc`, `HeapAt.kfree`, `HeapAt.frame`: what the two functions and
  a client's store do to the chunk list.
* `heapInv_of_reachable`: the invariant holds after every run.
-/

namespace Antagonist

open ByteMem Tiling

/-- The bytes handed to `init_heap`: at least one page, not at address zero,
and below the top of the address space. -/
structure HeapRegion where
  start : Nat
  pages : Nat
  start_pos : 0 < start
  pages_pos : 1 ≤ pages
  fits : start + pages * pageSize ≤ 2 ^ 32 - 1

namespace HeapRegion

/-- The first address after the region. -/
def stop (R : HeapRegion) : Nat := R.start + R.pages * pageSize

theorem stop_lt (R : HeapRegion) : R.stop < 2 ^ 32 := by
  have := R.fits
  simp only [stop]
  omega

/-- A region starts above zero, so its length leaves a whole page to spare. -/
theorem stop_room (R : HeapRegion) : R.stop - R.start + splitSlack < 2 ^ 32 := by
  have h1 := R.fits
  have h2 := R.start_pos
  simp only [stop, splitSlack, pageSize] at *
  omega

end HeapRegion

/-- What `kmalloc` and `kfree` keep: `cs` is the chunk list in memory, it tiles
the region, no two neighbours are free, and nothing wrapped. -/
structure HeapAt (R : HeapRegion) (h : Heap) (cs : List Chunk) : Prop where
  chain : Chain h.mem h.heapStart cs
  tiles : Tiles headerSize R.start cs R.stop
  canonical : NoAdjacentFree cs
  noWrap : h.wrapped = false

namespace HeapAt

variable {R : HeapRegion} {h : Heap} {cs : List Chunk} {c : Chunk} {n : Nat}

theorem room (H : HeapAt R h cs) : ∀ c ∈ cs, c.size + headerSize + splitSlack < 2 ^ 32 := by
  intro c hc
  have h1 := H.tiles.bounds hc
  have h2 := R.stop_room
  simp only [Chunk.stop] at h1
  omega

theorem data_lt (H : HeapAt R h cs) (hc : c ∈ cs) : c.addr + headerSize < 2 ^ 32 := by
  have hb := H.tiles.bounds hc
  have hlt := R.stop_lt
  simp only [Chunk.stop] at hb
  omega

theorem length_lt (H : HeapAt R h cs) : cs.length < walkFuel := by
  have h1 := H.tiles.length_mul_le
  have h2 := R.stop_lt
  simp only [headerSize, walkFuel] at *
  omega

theorem frame (H : HeapAt R h cs) {m' : Mem}
    (hm : ∀ c ∈ cs, ∀ x, c.InHeader headerSize x → m' x = h.mem x) :
    HeapAt R { h with mem := m' } cs :=
  ⟨H.chain.frame H.tiles (Nat.le_of_lt R.stop_lt) hm, H.tiles, H.canonical, H.noWrap⟩

/-- **`kmalloc` is first fit.** -/
theorem kmalloc (H : HeapAt R h cs) (n : Nat) :
    (alloc headerSize splitSlack n cs = none ∧ kmalloc n h = some (0, h)) ∨
    ∃ a cs' m', alloc headerSize splitSlack n cs = some (a, cs') ∧
      Antagonist.kmalloc n h = some (a + headerSize, { h with mem := m' }) ∧
      HeapAt R { h with mem := m' } cs' ∧ Frame cs h.mem m' := by
  rcases kmallocLoop_spec (n := n) H.chain H.tiles R.stop_lt H.room H.length_lt with
    hnone | ⟨a, cs', m', hal, hrun, hC, hF⟩
  · exact Or.inl hnone
  · exact Or.inr ⟨a, cs', m', hal, hrun,
      ⟨hC, H.tiles.alloc hal, H.canonical.alloc hal, H.noWrap⟩, hF⟩

theorem chain_setFree {m : Mem} {p lo hi : Nat} (hC : Chain m p cs)
    (hT : Tiles headerSize lo cs hi) (hhi : hi < 2 ^ 32) (hc : c ∈ cs) :
    Chain (store8 m (c.addr + 4) 1) p (setFree c.addr cs) := by
  induction cs generalizing p lo with
  | nil => simp at hc
  | cons d ds ih =>
    obtain ⟨rfl, h0, q, hd, hrest⟩ := hC
    have hstop := hT.2.le
    simp only [Chunk.stop] at hstop
    rcases List.mem_cons.mp hc with rfl | hm
    · -- the chunk itself; the rest of the list lies further right
      have hrest' : setFree c.addr ds = ds := by
        apply setFree_eq_self
        intro e he
        have hb := (hT.2.bounds he).1
        simp only [Chunk.stop, headerSize] at hb
        omega
      simp only [setFree, List.map_cons, if_pos] at hrest' ⊢
      rw [hrest']
      exact (Chain.setFlag (f := true) hT hhi h0 hd hrest).1
    · have hb := (hT.2.bounds hm).1
      have hb2 := (hT.2.bounds hm).2
      simp only [Chunk.stop, headerSize] at hb hb2 hstop
      simp only [setFree, List.map_cons]
      rw [if_neg (by omega)]
      refine ⟨rfl, h0, q, hd.frame (by simp only [headerSize]; omega) ?_, ih hrest hT.2 hm⟩
      intro x hx
      simp only [Chunk.InHeader, headerSize] at hx
      exact store8_apply_of_ne _ _ (by omega) (by omega)

theorem kfree_eq_loop {a : Nat} (h : Heap) (ha : a + headerSize < 2 ^ 32) :
    kfree (a + headerSize) h =
      kfreeLoop walkFuel h.heapStart { h with mem := store8 h.mem (a + 4) 1 } := by
  have hsub : h.sub (a + headerSize) headerSize = (a, h) := by
    rw [Heap.sub_of_le (by omega) ha, Nat.add_sub_cancel]
  rw [Antagonist.kfree, if_neg (by simp only [headerSize]; omega)]
  simp only [hsub, Heap.setIsFree]

/-- The list that the coalescing loop walks, when the flag is stored. -/
theorem exists_setFree (H : HeapAt R h cs) (hc : c ∈ cs) :
    ∃ d ds, setFree c.addr cs = d :: ds ∧ ds.length < walkFuel ∧
      Chain (store8 h.mem (c.addr + 4) 1) h.heapStart (d :: ds) ∧
      Tiles headerSize R.start (d :: ds) R.stop := by
  have hC := chain_setFree H.chain H.tiles R.stop_lt hc
  have hT := tiles_setFree (a := c.addr) H.tiles
  have hlen : (setFree c.addr cs).length = cs.length := List.length_map _
  cases hds : setFree c.addr cs with
  | nil =>
    rw [hds] at hlen
    rw [List.length_eq_zero_iff.mp hlen.symm] at hc
    exact absurd hc List.not_mem_nil
  | cons d ds =>
    rw [hds] at hC hT hlen
    have hlt := H.length_lt
    rw [List.length_cons] at hlen
    exact ⟨d, ds, rfl, by omega, hC, hT⟩

/-- **`kfree` marks the chunk free and merges.** -/
theorem kfree (H : HeapAt R h cs) (hc : c ∈ cs) :
    ∃ m', kfree (c.addr + headerSize) h = some { h with mem := m' } ∧
      HeapAt R { h with mem := m' } (coalesce headerSize (setFree c.addr cs)) ∧
      Frame (setFree c.addr cs) h.mem m' := by
  have ha := H.data_lt hc
  rw [kfree_eq_loop h ha]
  obtain ⟨d, ds, hds, hlen, hC, hT⟩ := H.exists_setFree hc
  rw [hds]
  obtain ⟨m', hrun, hC', hF⟩ := kfreeLoop_spec
    (h := { h with mem := store8 h.mem (c.addr + 4) 1 }) hC hT R.stop_lt hlen
  refine ⟨m', hrun, ⟨hC', Tiles.coalesce hT, noAdjacentFree_coalesce, H.noWrap⟩, ?_⟩
  intro x hx
  rw [hF x hx]
  -- the flag byte itself lies in a header of the list
  refine store8_apply_of_ne _ _ (by simp only [headerSize] at ha; omega) fun he => hx ?_
  obtain ⟨e, he', hea⟩ : ∃ e ∈ setFree c.addr cs, e.addr = c.addr :=
    ⟨_, List.mem_map_of_mem hc, by split <;> rfl⟩
  rw [hds] at he'
  exact ⟨e, he', Or.inl (by simp only [Chunk.InHeader, headerSize, hea]; omega)⟩

theorem init (R : HeapRegion) (m : Mem) :
    HeapAt R (initHeap m R.start R.pages)
      [⟨R.start, R.pages * pageSize - headerSize, true⟩] := by
  have h1 := R.fits
  have h2 := R.start_pos
  have h3 := R.pages_pos
  simp only [pageSize] at h1
  have hsz : sub32 (R.pages * pageSize % 2 ^ 32) headerSize = R.pages * pageSize - headerSize := by
    simp only [pageSize, headerSize]
    rw [Nat.mod_eq_of_lt (by omega), sub32_of_le (by omega) (by omega)]
  have hhead := header_initHeap m (a := R.start) R.pages (by simp only [headerSize]; omega)
  rw [hsz] at hhead
  refine ⟨⟨rfl, ?_, 0, hhead, rfl⟩, ⟨rfl, ?_⟩, List.isChain_singleton _, rfl⟩
  · simp only [initHeap, Heap.setNext, Heap.setIsFree, Heap.setSize]
    omega
  · simp only [tiles_nil, Chunk.stop, HeapRegion.stop, pageSize, headerSize]
    omega

end HeapAt

/-! ### The system -/

/-- A byte of the block `b`, a pointer and a length. -/
def InBlock (b : Nat × Nat) (x : Nat) : Prop := b.1 ≤ x ∧ x < b.1 + b.2

/-- The heap and the blocks its clients hold: each pointer with the size that
was asked for. -/
structure HeapSys where
  heap : Heap
  live : List (Nat × Nat)

/-- What a client does, with the pointer `kmalloc` gave it. -/
inductive HeapOp
  | kmalloc (n p : Nat)
  | kfree (p : Nat)
  | write (x : Nat) (b : Byte)

/-- One operation.  A client frees null or a block it holds, and writes inside
a block it holds. -/
inductive HeapStep : HeapSys → HeapOp → HeapSys → Prop
  | kmalloc {s : HeapSys} {n p : Nat} {h' : Heap} : n < 2 ^ 32 →
      kmalloc n s.heap = some (p, h') →
      HeapStep s (.kmalloc n p) ⟨h', if p = 0 then s.live else (p, n) :: s.live⟩
  | kfree {s : HeapSys} {p : Nat} {h' : Heap} : (p = 0 ∨ ∃ n, (p, n) ∈ s.live) →
      kfree p s.heap = some h' →
      HeapStep s (.kfree p) ⟨h', s.live.filter fun b => decide (b.1 ≠ p)⟩
  | write {s : HeapSys} {x : Nat} {blk : Nat × Nat} {b : Byte} : blk ∈ s.live → InBlock blk x →
      HeapStep s (.write x b) ⟨{ s.heap with mem := store8 s.heap.mem x b }, s.live⟩

/-- All runs of the heap on one region, from any memory. -/
def heapLts (R : HeapRegion) : Lts HeapSys HeapOp where
  init s := ∃ m, s = ⟨initHeap m R.start R.pages, []⟩
  step := HeapStep

/-- The invariant: the used chunks are the live blocks. -/
structure HeapInv (R : HeapRegion) (s : HeapSys) (cs : List Chunk) : Prop where
  heapAt : HeapAt R s.heap cs
  live_used : ∀ b ∈ s.live, ∃ c ∈ cs, c.free = false ∧ b.1 = c.addr + headerSize ∧ b.2 ≤ c.size
  used_live : ∀ c ∈ cs, c.free = false → ∃ n, (c.addr + headerSize, n) ∈ s.live
  nodup : (s.live.map Prod.fst).Nodup

/-! ### The invariant and the frame -/

section

variable {R : HeapRegion} {s : HeapSys} {cs : List Chunk} {h : Heap} {m' : Mem}

/-- A byte in the data of a used chunk is in no header and in no free data. -/
theorem HeapAt.not_touchable {c : Chunk} {x : Nat} (H : HeapAt R h cs) (hc : c ∈ cs)
    (hu : c.free = false) (hx : c.InData headerSize x) : ¬ Touchable cs x := by
  rintro ⟨d, hd, hin⟩
  simp only [Chunk.InData, Chunk.InHeader, Chunk.stop] at hin hx
  rcases H.tiles.eq_or_apart hc hd with rfl | hlt | hlt
  · simp only [hu, Bool.false_eq_true, false_and, or_false] at hin
    omega
  · simp only [Chunk.stop] at hlt; omega
  · simp only [Chunk.stop] at hlt; omega

/-- The same for the list in which another chunk has just been freed. -/
theorem HeapAt.not_touchable_setFree {c : Chunk} {a x : Nat} (H : HeapAt R h cs) (hc : c ∈ cs)
    (hu : c.free = false) (ha : c.addr ≠ a) (hx : c.InData headerSize x) :
    ¬ Touchable (setFree a cs) x := by
  rintro ⟨d', hd', hin⟩
  obtain ⟨d, hd, rfl⟩ := List.mem_map.mp hd'
  refine H.not_touchable hc hu hx ⟨d, hd, ?_⟩
  by_cases hda : d.addr = a
  · -- the freed chunk: its data is not ours either
    rw [if_pos hda] at hin
    rcases H.tiles.eq_or_apart hc hd with rfl | hlt | hlt
    · exact absurd hda ha
    · simp only [Chunk.InHeader, Chunk.InData, Chunk.stop] at *; omega
    · simp only [Chunk.InHeader, Chunk.InData, Chunk.stop] at *; omega
  · rwa [if_neg hda] at hin

theorem HeapInv.block_data (H : HeapInv R s cs) {b : Nat × Nat} (hb : b ∈ s.live) :
    ∃ c ∈ cs, c.free = false ∧ b.1 = c.addr + headerSize ∧
      ∀ x, InBlock b x → c.InData headerSize x := by
  obtain ⟨c, hc, hu, hp, hn⟩ := H.live_used b hb
  refine ⟨c, hc, hu, hp, ?_⟩
  intro x hx
  simp only [InBlock, Chunk.InData, Chunk.stop] at *
  omega

/-- The chunk that is taken was free, so no used chunk of the old list is there. -/
theorem HeapInv.addr_ne_of_alloc (H : HeapInv R s cs) {slack n a : Nat} {cs' : List Chunk}
    (hal : Tiling.alloc headerSize slack n cs = some (a, cs')) {d : Chunk} (hd : d ∈ cs)
    (hu : d.free = false) : d.addr ≠ a := by
  obtain ⟨pre, c, post, hcs, hcf, _, hac, _, _⟩ := alloc_eq_some hal
  have hc : c ∈ cs := by
    rw [hcs]
    exact List.mem_append_right pre List.mem_cons_self
  intro he
  have hdc : d = c := H.heapAt.tiles.eq_of_addr (by decide) hd hc (by omega)
  rw [hdc, hcf] at hu
  exact absurd hu (by decide)

/-- The used chunks are those of the old list and the one that is taken. -/
theorem HeapInv.used_alloc_iff (H : HeapInv R s cs) {slack n a : Nat} {cs' : List Chunk}
    (hal : Tiling.alloc headerSize slack n cs = some (a, cs')) {d : Chunk} (hu : d.free = false) :
    d ∈ cs ↔ d ∈ cs' ∧ d.addr ≠ a := by
  refine ⟨?_, ?_⟩
  · intro hd
    exact ⟨(mem_alloc_used hal hu).mpr (Or.inl hd), H.addr_ne_of_alloc hal hd hu⟩
  · rintro ⟨hd, hne⟩
    rcases (mem_alloc_used hal hu).mp hd with hd | ⟨haddr, _⟩
    · exact hd
    · exact absurd haddr hne

theorem HeapInv.alloc (H : HeapInv R s cs) {slack n a : Nat} {cs' : List Chunk} {h' : Heap}
    (hal : Tiling.alloc headerSize slack n cs = some (a, cs')) (hA : HeapAt R h' cs') :
    HeapInv R ⟨h', (a + headerSize, n) :: s.live⟩ cs' := by
  obtain ⟨sz, hsz, hmem⟩ := alloc_mem hal
  refine ⟨hA, ?_, ?_, ?_⟩
  · intro b hb
    rcases List.mem_cons.mp hb with rfl | hb
    · exact ⟨_, hmem, rfl, rfl, hsz⟩
    · obtain ⟨d, hd, hu, hp, hn⟩ := H.live_used b hb
      exact ⟨d, (mem_alloc_used hal hu).mpr (Or.inl hd), hu, hp, hn⟩
  · intro d hd hu
    rcases (mem_alloc_used hal hu).mp hd with hd | ⟨rfl, _⟩
    · obtain ⟨k, hk⟩ := H.used_live d hd hu
      exact ⟨k, List.mem_cons_of_mem _ hk⟩
    · exact ⟨n, List.mem_cons_self⟩
  · refine List.nodup_cons.mpr ⟨?_, H.nodup⟩
    intro hm
    obtain ⟨b, hb, hbp⟩ := List.mem_map.mp hm
    obtain ⟨d, hd, hu, hp, _⟩ := H.live_used b hb
    exact H.addr_ne_of_alloc hal hd hu (by omega)

/-- **`kmalloc` returns, keeps the invariant, and touches no live block.** -/
theorem HeapInv.kmalloc (H : HeapInv R s cs) (n : Nat) :
    ∃ p h', kmalloc n s.heap = some (p, h') ∧
      (∃ cs', HeapInv R ⟨h', if p = 0 then s.live else (p, n) :: s.live⟩ cs' ∧
        ∀ x : Chunk, x.free = false → (x ∈ cs ↔ x ∈ cs' ∧ x.addr + headerSize ≠ p)) ∧
      ∀ b ∈ s.live, ∀ x, InBlock b x → h'.mem x = s.heap.mem x := by
  rcases H.heapAt.kmalloc n with ⟨_, hrun⟩ | ⟨a, cs', m', hal, hrun, hA, hF⟩
  · refine ⟨0, s.heap, hrun, ⟨cs, by simpa using H, fun x _ => ?_⟩, fun _ _ _ _ => rfl⟩
    simp [headerSize]
  · refine ⟨a + headerSize, _, hrun, ⟨cs', ?_, ?_⟩, ?_⟩
    · rw [if_neg (by simp only [headerSize]; omega)]
      exact H.alloc hal hA
    · intro x hu
      rw [H.used_alloc_iff hal hu, Ne, Ne, Nat.add_right_cancel_iff]
    · intro b hb x hx
      obtain ⟨c, hc, hu, _, hin⟩ := H.block_data hb
      exact hF x (H.heapAt.not_touchable hc hu (hin x hx))

theorem HeapInv.kmalloc_outside (H : HeapInv R s cs) {n p : Nat}
    (hrun : Antagonist.kmalloc n s.heap = some (p, h)) {x : Nat} (hx : x < R.start ∨ R.stop ≤ x) :
    h.mem x = s.heap.mem x := by
  rcases H.heapAt.kmalloc n with ⟨_, hrun'⟩ | ⟨a, cs', m', _, hrun', _, hF⟩
  · rw [hrun] at hrun'
    rw [(Prod.mk.inj (Option.some.inj hrun')).2]
  · rw [hrun] at hrun'
    rw [(Prod.mk.inj (Option.some.inj hrun')).2]
    apply hF x
    rintro ⟨c, hc, hin⟩
    have hb := H.heapAt.tiles.bounds hc
    simp only [Chunk.InHeader, Chunk.InData, Chunk.stop, headerSize] at hin hb
    omega

/-- **`kfree` returns, keeps the invariant, and touches no block that stays live.** -/
theorem HeapInv.kfree (H : HeapInv R s cs) {p : Nat} (hp : p = 0 ∨ ∃ n, (p, n) ∈ s.live) :
    ∃ h', kfree p s.heap = some h' ∧
      (∃ cs', HeapInv R ⟨h', s.live.filter fun b => decide (b.1 ≠ p)⟩ cs' ∧
        ∀ x : Chunk, x.free = false → (x ∈ cs' ↔ x ∈ cs ∧ x.addr + headerSize ≠ p)) ∧
      ∀ b ∈ s.live, b.1 ≠ p → ∀ x, InBlock b x → h'.mem x = s.heap.mem x := by
  by_cases h0 : p = 0
  · subst h0
    refine ⟨s.heap, if_pos rfl, ⟨cs, ?_, fun x _ => by simp [headerSize]⟩, fun _ _ _ _ _ => rfl⟩
    have hfil : (s.live.filter fun b => decide (b.1 ≠ 0)) = s.live := by
      refine List.filter_eq_self.mpr fun b hb => decide_eq_true ?_
      obtain ⟨c, _, _, hbp, _⟩ := H.live_used b hb
      rw [hbp]
      simp [headerSize]
    rw [hfil]
    exact H
  · obtain ⟨n, hn⟩ := hp.resolve_left h0
    obtain ⟨c, hc, hu, hcp, _⟩ := H.live_used _ hn
    simp only at hcp
    obtain ⟨m', hrun, hA, hF⟩ := H.heapAt.kfree hc
    rw [← hcp] at hrun
    refine ⟨_, hrun, ⟨_, ⟨hA, ?_, ?_, ?_⟩, ?_⟩, ?_⟩
    · intro b hb
      obtain ⟨hb', hne⟩ := List.mem_filter.mp hb
      obtain ⟨d, hd, hdu, hdp, hdn⟩ := H.live_used b hb'
      have hne' := of_decide_eq_true hne
      exact ⟨d, (mem_coalesce_used hdu).mpr ((mem_setFree_used hdu).mpr ⟨hd, by omega⟩), hdu, hdp,
        hdn⟩
    · intro d hd hdu
      obtain ⟨hd', hne⟩ := (mem_setFree_used hdu).mp ((mem_coalesce_used hdu).mp hd)
      obtain ⟨k, hk⟩ := H.used_live d hd' hdu
      exact ⟨k, List.mem_filter.mpr ⟨hk, decide_eq_true (by simp only; omega)⟩⟩
    · exact H.nodup.sublist (List.filter_sublist.map Prod.fst)
    · intro x hu
      rw [mem_coalesce_used hu, mem_setFree_used hu]
      exact and_congr_right fun _ => by omega
    · intro b hb hne x hx
      obtain ⟨d, hd, hdu, hdp, hin⟩ := H.block_data hb
      exact hF x (H.heapAt.not_touchable_setFree hd hdu (by omega) (hin x hx))

theorem HeapInv.kfree_outside (H : HeapInv R s cs) {p : Nat} (hp : p = 0 ∨ ∃ n, (p, n) ∈ s.live)
    (hrun : Antagonist.kfree p s.heap = some h) {x : Nat} (hx : x < R.start ∨ R.stop ≤ x) :
    h.mem x = s.heap.mem x := by
  by_cases h0 : p = 0
  · rw [Antagonist.kfree, if_pos h0] at hrun
    rw [Option.some.inj hrun]
  · obtain ⟨n, hn⟩ := hp.resolve_left h0
    obtain ⟨c, hc, _, hcp, _⟩ := H.live_used _ hn
    obtain ⟨m', hrun', _, hF⟩ := H.heapAt.kfree hc
    rw [← hcp] at hrun'
    rw [← Option.some.inj (hrun'.symm.trans hrun)]
    apply hF x
    rintro ⟨d, hd, hin⟩
    have hb := (tiles_setFree H.heapAt.tiles).bounds hd
    simp only [Chunk.InHeader, Chunk.InData, Chunk.stop, headerSize] at hin hb
    omega

theorem HeapInv.block_inside (H : HeapInv R s cs) {b : Nat × Nat} (hb : b ∈ s.live) :
    R.start < b.1 ∧ b.1 + b.2 ≤ R.stop := by
  obtain ⟨c, hc, _, hp, hn⟩ := H.live_used b hb
  have hbounds := H.heapAt.tiles.bounds hc
  simp only [Chunk.stop, headerSize] at hbounds hp
  omega

/-- Stores inside live blocks, and outside the region, keep the invariant. -/
theorem HeapInv.stores (H : HeapInv R s cs)
    (hm : ∀ x, R.start ≤ x → x < R.stop → (∀ b ∈ s.live, ¬ InBlock b x) → m' x = s.heap.mem x) :
    HeapInv R ⟨{ s.heap with mem := m' }, s.live⟩ cs := by
  refine ⟨H.heapAt.frame ?_, H.live_used, H.used_live, H.nodup⟩
  intro d hd x hx
  have hb := H.heapAt.tiles.bounds hd
  have hx' := hx
  simp only [Chunk.InHeader, Chunk.stop] at hx' hb
  refine hm x (by omega) (by omega) ?_
  intro b hbl hin
  obtain ⟨c, hc, hu, _, hdata⟩ := H.block_data hbl
  exact H.heapAt.not_touchable hc hu (hdata x hin) ⟨d, hd, Or.inl hx⟩

theorem HeapInv.write (H : HeapInv R s cs) {blk : Nat × Nat} {x : Nat} (b : Byte)
    (hblk : blk ∈ s.live) (hx : InBlock blk x) :
    HeapInv R ⟨{ s.heap with mem := store8 s.heap.mem x b }, s.live⟩ cs := by
  have hin := H.block_inside hblk
  have hlt := R.stop_lt
  have hx' := hx
  simp only [InBlock] at hx'
  refine H.stores fun y _ _ hy => store8_apply_of_ne _ _ (by omega) fun he => hy blk hblk ?_
  rw [he]
  exact hx

theorem heapInv_init (R : HeapRegion) (m : Mem) :
    HeapInv R ⟨initHeap m R.start R.pages, []⟩
      [⟨R.start, R.pages * pageSize - headerSize, true⟩] :=
  ⟨HeapAt.init R m, by simp, by simp, by simp⟩

theorem heapInv_step {op : HeapOp} {t : HeapSys} (H : HeapInv R s cs) (hs : HeapStep s op t) :
    ∃ cs', HeapInv R t cs' := by
  cases hs with
  | @kmalloc n p h' _ hrun =>
    obtain ⟨p', h'', hrun', ⟨cs', hinv, _⟩, _⟩ := H.kmalloc n
    rw [hrun] at hrun'
    obtain ⟨rfl, rfl⟩ := Prod.mk.inj (Option.some.inj hrun')
    exact ⟨cs', hinv⟩
  | kfree hp hrun =>
    obtain ⟨h'', hrun', ⟨cs', hinv, _⟩, _⟩ := H.kfree hp
    rw [hrun] at hrun'
    obtain rfl := Option.some.inj hrun'
    exact ⟨cs', hinv⟩
  | write hblk hx => exact ⟨cs, H.write _ hblk hx⟩

/-- **The invariant holds after every run.** -/
theorem heapInv_of_reachable (h : (heapLts R).Reachable s) : ∃ cs, HeapInv R s cs := by
  refine h.invariant (I := fun s => ∃ cs, HeapInv R s cs) ?_ ?_
  · rintro s ⟨m, rfl⟩
    exact ⟨_, heapInv_init R m⟩
  · rintro s a t ⟨cs, H⟩ hs
    exact heapInv_step H hs

end

end Antagonist
