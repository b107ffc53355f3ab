import Antagonist.Heap.Contract

/-!
# The chunk list is canonical

`ReadsAs h l` reads the list out of memory: address, size and flag of each
chunk.  The used chunks determine it (`canonical_unique`), so two runs that end
with the same live chunks end with the same list, and freeing undoes
allocating.
-/

namespace Antagonist

open ByteMem Tiling

/-- The chunk list in memory is `l`: address, size and `is_free` of each chunk. -/
def ReadsAs (h : Heap) (l : List (Nat × Nat × Byte)) : Prop :=
  ∃ as, Walk h h.heapStart as ∧ l = as.map fun a => (a, h.size a, h.isFree a)

/-- The live chunks: each live pointer with the size in its header. -/
def liveChunks (s : HeapSys) : List (Nat × Nat) :=
  s.live.map fun b => (b.1, s.heap.size (b.1 - headerSize))

def rowsOf (cs : List Chunk) : List (Nat × Nat × Byte) :=
  cs.map fun c => (c.addr, c.size, flagOf c.free)

theorem chain_fields {h : Heap} {cs : List Chunk} {p : Nat} (hC : Chain h.mem p cs) :
    ∀ c ∈ cs, h.size c.addr = c.size ∧ h.isFree c.addr = flagOf c.free := by
  induction cs generalizing p with
  | nil => simp
  | cons c cs ih =>
    obtain ⟨rfl, _, q, hc, hrest⟩ := hC
    intro d hd
    rcases List.mem_cons.mp hd with rfl | hm
    · exact ⟨hc.size, hc.isFree⟩
    · exact ih hrest d hm

theorem readsAs_iff {R : HeapRegion} {h : Heap} {cs : List Chunk} (H : HeapAt R h cs)
    {l : List (Nat × Nat × Byte)} : ReadsAs h l ↔ l = rowsOf cs := by
  have hwalk := walk_of_chain H.chain
  have hrows : (cs.map Chunk.addr).map (fun a => (a, h.size a, h.isFree a)) = rowsOf cs := by
    rw [List.map_map]
    refine List.map_congr_left ?_
    intro c hc
    obtain ⟨h1, h2⟩ := chain_fields H.chain c hc
    simp only [Function.comp, h1, h2]
  refine ⟨?_, ?_⟩
  · rintro ⟨as, has, rfl⟩
    rw [walk_unique has hwalk, hrows]
  · rintro rfl
    exact ⟨_, hwalk, hrows.symm⟩

theorem readsAs_congr {R : HeapRegion} {h h' : Heap} {cs ds : List Chunk} (H : HeapAt R h cs)
    (H' : HeapAt R h' ds) (hused : ∀ x : Chunk, x.free = false → (x ∈ cs ↔ x ∈ ds))
    {l : List (Nat × Nat × Byte)} : ReadsAs h l ↔ ReadsAs h' l := by
  rw [readsAs_iff H, readsAs_iff H',
    canonical_unique (by decide) H.tiles H'.tiles H.canonical H'.canonical hused]

theorem mem_liveChunks {R : HeapRegion} {s : HeapSys} {cs : List Chunk} (H : HeapInv R s cs)
    {c : Chunk} (hu : c.free = false) :
    c ∈ cs ↔ (c.addr + headerSize, c.size) ∈ liveChunks s := by
  simp only [liveChunks, List.mem_map, Prod.mk.injEq]
  refine ⟨?_, ?_⟩
  · intro hc
    obtain ⟨n, hn⟩ := H.used_live c hc hu
    refine ⟨_, hn, rfl, ?_⟩
    rw [Nat.add_sub_cancel]
    exact (chain_fields H.heapAt.chain c hc).1
  · rintro ⟨b, hb, hbp, hbs⟩
    obtain ⟨d, hd, hdu, hdp, _⟩ := H.live_used b hb
    have haddr : d.addr = c.addr := by omega
    rw [hdp, Nat.add_sub_cancel, (chain_fields H.heapAt.chain d hd).1] at hbs
    have hcd : c = d := by
      cases c; cases d; simp_all
    rw [hcd]
    exact hd

def freeAll : List Nat → Heap → Option Heap
  | [], h => some h
  | p :: ps, h => (kfree p h).bind (freeAll ps)

/-- Once every live pointer is freed, no used chunk is left. -/
theorem HeapInv.freeAll {R : HeapRegion} {ps : List Nat} : ∀ {s : HeapSys} {cs : List Chunk},
    HeapInv R s cs → ps.Perm (s.live.map Prod.fst) →
    ∃ h' cs', freeAll ps s.heap = some h' ∧ HeapInv R ⟨h', []⟩ cs' := by
  induction ps with
  | nil =>
    intro s cs H hp
    have hnil : s.live = [] := by simpa using hp.symm.eq_nil
    refine ⟨s.heap, cs, rfl, ?_⟩
    rw [← hnil]
    exact H
  | cons p ps ih =>
    intro s cs H hp
    have hmem : p ∈ s.live.map Prod.fst := hp.subset (by simp)
    obtain ⟨⟨p', n⟩, hb, rfl⟩ := List.mem_map.mp hmem
    obtain ⟨h', hrun, ⟨cs', hinv, _⟩, _⟩ := H.kfree (Or.inr ⟨n, hb⟩)
    have hrest : ps.Perm ((s.live.filter fun b => decide (b.1 ≠ p')).map Prod.fst) := by
      have hnd : (p' :: ps).Nodup := hp.nodup_iff.mpr H.nodup
      have hfil := hp.filter fun q => decide (q ≠ p')
      have h1 : (ps.filter fun q => decide (q ≠ p')) = ps := by
        refine List.filter_eq_self.mpr fun q hq => decide_eq_true ?_
        intro he
        exact (List.nodup_cons.mp hnd).1 (he ▸ hq)
      rw [List.filter_cons_of_neg (by simp), h1, List.filter_map] at hfil
      exact hfil
    obtain ⟨h'', cs'', hrun', hinv'⟩ := ih hinv hrest
    refine ⟨h'', cs'', ?_, hinv'⟩
    rw [Antagonist.freeAll, hrun]
    exact hrun'

theorem kfree_comm {R : HeapRegion} {s : HeapSys} {cs : List Chunk} (H : HeapInv R s cs)
    {p q n k : Nat} (hne : p ≠ q) (hp : (p, n) ∈ s.live) (hq : (q, k) ∈ s.live) :
    ∃ hp hpq hq hqp, kfree p s.heap = some hp ∧ kfree q hp = some hpq ∧
      kfree q s.heap = some hq ∧ kfree p hq = some hqp ∧
      ∀ l, ReadsAs hpq l ↔ ReadsAs hqp l := by
  have hqAfter : (q, k) ∈ s.live.filter fun b => decide (b.1 ≠ p) :=
    List.mem_filter.mpr ⟨hq, decide_eq_true (Ne.symm hne)⟩
  have hpAfter : (p, n) ∈ s.live.filter fun b => decide (b.1 ≠ q) :=
    List.mem_filter.mpr ⟨hp, decide_eq_true hne⟩
  obtain ⟨h1, hrun1, ⟨c1, H1, hu1⟩, _⟩ := H.kfree (Or.inr ⟨n, hp⟩)
  obtain ⟨h2, hrun2, ⟨c2, H2, hu2⟩, _⟩ := H.kfree (Or.inr ⟨k, hq⟩)
  obtain ⟨h3, hrun3, ⟨c3, H3, hu3⟩, _⟩ := H1.kfree (Or.inr ⟨k, hqAfter⟩)
  obtain ⟨h4, hrun4, ⟨c4, H4, hu4⟩, _⟩ := H2.kfree (Or.inr ⟨n, hpAfter⟩)
  refine ⟨h1, h3, h2, h4, hrun1, hrun3, hrun2, hrun4, ?_⟩
  intro l
  refine readsAs_congr H3.heapAt H4.heapAt ?_
  intro x hx
  rw [hu3 x hx, hu1 x hx, hu4 x hx, hu2 x hx, and_assoc, and_assoc,
    and_comm (a := x.addr + headerSize ≠ p)]

theorem kfree_kmalloc {R : HeapRegion} {s : HeapSys} {cs : List Chunk} (H : HeapInv R s cs)
    {n p : Nat} {h' : Heap} (hrun : kmalloc n s.heap = some (p, h')) (hp : p ≠ 0) :
    ∃ h'', kfree p h' = some h'' ∧ ∀ l, ReadsAs h'' l ↔ ReadsAs s.heap l := by
  obtain ⟨p', h1, hrun1, ⟨c1, H1, hu1⟩, _⟩ := H.kmalloc n
  rw [hrun] at hrun1
  obtain ⟨rfl, rfl⟩ := Prod.mk.inj (Option.some.inj hrun1)
  rw [if_neg hp] at H1
  obtain ⟨h2, hrun2, ⟨c2, H2, hu2⟩, _⟩ := H1.kfree (p := p) (Or.inr ⟨n, List.mem_cons_self ..⟩)
  refine ⟨h2, hrun2, fun l => readsAs_congr H2.heapAt H.heapAt ?_⟩
  intro x hx
  rw [hu2 x hx, hu1 x hx]

theorem HeapInv.readsAs_init {R : HeapRegion} {h : Heap} {cs : List Chunk}
    (H : HeapInv R ⟨h, []⟩ cs) :
    ReadsAs h [(R.start, R.pages * pageSize - headerSize, 1)] := by
  have hinit := HeapAt.init R (fun _ => 0)
  rw [readsAs_congr H.heapAt hinit, readsAs_iff hinit]
  · rfl
  · -- neither list has a used chunk
    intro x hx
    refine ⟨?_, ?_⟩
    · intro hm
      obtain ⟨n, hn⟩ := H.used_live x hm hx
      exact absurd hn List.not_mem_nil
    · intro hm
      rw [List.mem_singleton.mp hm] at hx
      cases hx

/-- **What it means for the list to be canonical.** -/
structure HeapCanonical (R : HeapRegion) (s : HeapSys) : Prop where
  /-- No two consecutive chunks are both free. -/
  noAdjacentFree : ∃ l, ReadsAs s.heap l ∧ l.IsChain fun a b => ¬ (a.2.2 ≠ 0 ∧ b.2.2 ≠ 0)
  /-- Two runs on the region that end with the same live chunks end with the
  same list. -/
  determined : ∀ t, (heapLts R).Reachable t → (∀ b, b ∈ liveChunks s ↔ b ∈ liveChunks t) →
    ∀ l, ReadsAs s.heap l ↔ ReadsAs t.heap l
  /-- Two blocks may be freed in either order. -/
  commute : ∀ p q, p ≠ q → p ∈ s.live.map Prod.fst → q ∈ s.live.map Prod.fst →
    ∃ hp hpq hq hqp, kfree p s.heap = some hp ∧ kfree q hp = some hpq ∧
      kfree q s.heap = some hq ∧ kfree p hq = some hqp ∧
      ∀ l, ReadsAs hpq l ↔ ReadsAs hqp l
  /-- Freeing what was just allocated gives the old list back. -/
  undo : ∀ n p h', n < 2 ^ 32 → kmalloc n s.heap = some (p, h') → p ≠ 0 →
    ∃ h'', kfree p h' = some h'' ∧ ∀ l, ReadsAs h'' l ↔ ReadsAs s.heap l
  /-- Freeing every live block, in any order, gives the list of `init_heap` back. -/
  freeAll : ∀ ps, ps.Perm (s.live.map Prod.fst) → ∃ h', freeAll ps s.heap = some h' ∧
    ReadsAs h' [(R.start, R.pages * pageSize - headerSize, 1)]

/-- **The chunk list is canonical after every run.** -/
theorem heap_canonical (R : HeapRegion) {s : HeapSys} (h : (heapLts R).Reachable s) :
    HeapCanonical R s := by
  obtain ⟨cs, H⟩ := heapInv_of_reachable h
  refine ⟨⟨rowsOf cs, (readsAs_iff H.heapAt).mpr rfl, ?_⟩, ?_, ?_, ?_, ?_⟩
  · refine (List.isChain_map _).mpr (H.heapAt.canonical.imp ?_)
    intro c d hcd
    simp only [flagOf_ne_zero]
    exact hcd
  · intro t ht hlive l
    obtain ⟨ds, H'⟩ := heapInv_of_reachable ht
    refine readsAs_congr H.heapAt H'.heapAt ?_
    intro x hx
    rw [mem_liveChunks H hx, mem_liveChunks H' hx]
    exact hlive _
  · intro p q hne hp hq
    obtain ⟨⟨p, n⟩, hbp, rfl⟩ := List.mem_map.mp hp
    obtain ⟨⟨q, k⟩, hbq, rfl⟩ := List.mem_map.mp hq
    exact kfree_comm H hne hbp hbq
  · intro n p h' _ hrun hp
    exact kfree_kmalloc H hrun hp
  · intro ps hps
    obtain ⟨h', cs', hrun, H'⟩ := H.freeAll hps
    exact ⟨h', hrun, H'.readsAs_init⟩

theorem heap_canonical_kernelHeap : ∃ s, s.live = [(0x3000B3, 20), (0x300009, 52)] ∧
    HeapCanonical kernelHeap s := by
  obtain ⟨s, hs, hlive⟩ := kernelHeap_blocks
  exact ⟨s, hlive, heap_canonical kernelHeap hs⟩

end Antagonist
