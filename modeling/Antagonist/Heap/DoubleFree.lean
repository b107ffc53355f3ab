import Antagonist.Heap.Contract

/-!
# Freeing twice

`kfree` marks a header and merges.  The merging stores sizes and links, never a flag
(`kfreeLoop_keeps`), so the flag of the header stays set even where the header was swallowed by a
neighbour.  A second call stores the flag that is there, and then walks a list in which no two
neighbours are free and merges nothing (`kfreeLoop_canonical`): it changes no byte
(`kfree_kfree`).
-/

namespace Antagonist

open ByteMem Tiling

section

variable {h h' : Heap} {c : Chunk} {cs : List Chunk} {p lo hi fuel : Nat}

theorem mergeMem_keeps {m : Mem} {s q y : Nat} (ha : c.addr + headerSize ≤ 2 ^ 32)
    (hy : c.InHeader headerSize y → y = c.addr + 4) : mergeMem m c.addr s q y = m y := by
  simp only [Chunk.InHeader, headerSize] at hy ha
  rw [mergeMem, store32_apply_of_out _ _ (by omega) (by omega),
    store32_apply_of_out _ _ (by omega) (by omega)]

/-- **The merging loop writes only sizes and links**: a byte is as before if it is no header byte of
the list, or a flag. -/
theorem kfreeLoop_keeps (hC : Chain h.mem p (c :: cs)) (hT : Tiles headerSize lo (c :: cs) hi)
    (hhi : hi < 2 ^ 32) (hfuel : cs.length < fuel) {y : Nat}
    (hy : ∀ e ∈ c :: cs, e.InHeader headerSize y → y = e.addr + 4)
    (hrun : kfreeLoop fuel p h = some h') : h'.mem y = h.mem y := by
  induction cs generalizing p lo fuel c h with
  | nil =>
    obtain ⟨f, rfl⟩ : ∃ f, fuel = f + 1 := ⟨fuel - 1, by omega⟩
    obtain ⟨rfl, _, q, hc, hq⟩ := hC
    have hq0 : q = 0 := hq
    subst hq0
    rw [kfreeLoop_last hc] at hrun
    rw [Option.some.inj hrun]
  | cons d ds ih =>
    obtain ⟨f, rfl⟩ : ∃ f, fuel = f + 1 := ⟨fuel - 1, by omega⟩
    obtain ⟨rfl, h0, _, hc, rfl, h1, r, hd, hrest⟩ := hC
    have hlen : ds.length < f := by simp only [List.length_cons] at hfuel; omega
    have hcd := hT.2.1
    have hstop := hT.2.2.le
    by_cases hf : c.free = true ∧ d.free = true
    · rw [kfreeLoop_merge hc hd h0 hf.1 hf.2 hcd.symm hstop hhi] at hrun
      have hmerged := (Chain.merge hT hhi h0 hc hd hrest).1
      have hkeep := ih (h := { h with
          mem := mergeMem h.mem c.addr (c.size + headerSize + d.size) r }) hmerged hT.merge hlen ?_
        hrun
      · have hb := hT.2.le
        simp only [Chunk.stop] at hb
        exact hkeep.trans (mergeMem_keeps (by omega) (hy c List.mem_cons_self))
      · intro e he hin
        rcases List.mem_cons.mp he with rfl | he'
        · exact hy c List.mem_cons_self hin
        · exact hy e (by simp [he']) hin
    · rw [kfreeLoop_advance hc hd h0 h1 hf] at hrun
      exact ih ⟨rfl, h1, r, hd, hrest⟩ hT.2 hlen
        (fun e he => hy e (List.mem_cons_of_mem c he)) hrun

/-- The flag of a chunk is kept, also where the chunk is merged into a neighbour. -/
theorem kfreeLoop_flag (hC : Chain h.mem p (c :: cs)) (hT : Tiles headerSize lo (c :: cs) hi)
    (hhi : hi < 2 ^ 32) (hfuel : cs.length < fuel) {d : Chunk} (hd : d ∈ c :: cs)
    (hrun : kfreeLoop fuel p h = some h') : h'.mem (d.addr + 4) = h.mem (d.addr + 4) := by
  refine kfreeLoop_keeps hC hT hhi hfuel ?_ hrun
  intro e he hin
  rcases hT.eq_or_apart hd he with rfl | hlt | hlt
  · rfl
  · simp only [Chunk.InHeader, Chunk.stop, headerSize] at hin hlt
    omega
  · simp only [Chunk.InHeader, Chunk.stop, headerSize] at hin hlt
    omega

/-- **Where no two neighbours are free, the loop changes nothing.** -/
theorem kfreeLoop_canonical (hC : Chain h.mem p (c :: cs)) (hN : NoAdjacentFree (c :: cs))
    (hfuel : cs.length < fuel) : kfreeLoop fuel p h = some h := by
  induction cs generalizing p fuel c with
  | nil =>
    obtain ⟨f, rfl⟩ : ∃ f, fuel = f + 1 := ⟨fuel - 1, by omega⟩
    obtain ⟨rfl, _, q, hc, hq⟩ := hC
    have hq0 : q = 0 := hq
    subst hq0
    exact kfreeLoop_last hc
  | cons d ds ih =>
    obtain ⟨f, rfl⟩ : ∃ f, fuel = f + 1 := ⟨fuel - 1, by omega⟩
    obtain ⟨rfl, h0, _, hc, rfl, h1, r, hd, hrest⟩ := hC
    have hN' := List.isChain_cons_cons.mp hN
    rw [kfreeLoop_advance hc hd h0 h1 hN'.1]
    exact ih ⟨rfl, h1, r, hd, hrest⟩ hN'.2 (by simp only [List.length_cons] at hfuel; omega)

end

namespace HeapAt

variable {R : HeapRegion} {h : Heap} {cs : List Chunk} {c : Chunk}

theorem kfree_flag (H : HeapAt R h cs) (hc : c ∈ cs) {h' : Heap}
    (hrun : Antagonist.kfree (c.addr + headerSize) h = some h') : h'.mem (c.addr + 4) = 1 := by
  have ha := H.data_lt hc
  rw [kfree_eq_loop h ha] at hrun
  obtain ⟨d, ds, hds, hlen, hC, hT⟩ := H.exists_setFree hc
  have hmem : { c with free := true } ∈ d :: ds := by
    rw [← hds]
    exact List.mem_map.mpr ⟨c, hc, if_pos rfl⟩
  have hkept := kfreeLoop_flag (h := { h with mem := store8 h.mem (c.addr + 4) 1 }) hC hT
    R.stop_lt hlen hmem hrun
  refine hkept.trans ?_
  simp only [store8, headerSize] at ha ⊢
  rw [if_pos (by omega)]

/-- The second of two calls finds the flag set, and nothing to merge. -/
theorem kfree_twice (H : HeapAt R h cs) (hc : c ∈ cs) :
    ∃ h', Antagonist.kfree (c.addr + headerSize) h = some h' ∧
      Antagonist.kfree (c.addr + headerSize) h' = some h' := by
  obtain ⟨m', hrun, H', _⟩ := H.kfree hc
  refine ⟨_, hrun, ?_⟩
  have ha := H.data_lt hc
  have hflag : m' (c.addr + 4) = 1 := H.kfree_flag hc hrun
  have hsame : store8 m' (c.addr + 4) 1 = m' := by
    funext x
    simp only [store8, headerSize] at ha ⊢
    split
    · rename_i hx
      rw [hx, Nat.mod_eq_of_lt (by omega), hflag]
    · rfl
  rw [kfree_eq_loop _ ha, hsame]
  obtain ⟨d, ds, hds⟩ : ∃ d ds, coalesce headerSize (setFree c.addr cs) = d :: ds := by
    cases cs with
    | nil => simp at hc
    | cons e es =>
      obtain ⟨x, xs, hx, _⟩ := head_mergeFrom headerSize
        (if e.addr = c.addr then { e with free := true } else e) (setFree c.addr es)
      exact ⟨x, xs, hx⟩
  have hlen := H'.length_lt
  have hC := H'.chain
  have hN := H'.canonical
  rw [hds] at hlen hC hN
  exact kfreeLoop_canonical hC hN (by simp only [List.length_cons] at hlen; omega)

end HeapAt

/-- **An immediate double free is harmless**: the second call leaves every byte as the first one
did. -/
theorem kfree_kfree (R : HeapRegion) {s : HeapSys} (h : (heapLts R).Reachable s) {p n : Nat}
    (hp : (p, n) ∈ s.live) : ∃ h', kfree p s.heap = some h' ∧ kfree p h' = some h' := by
  obtain ⟨cs, H⟩ := heapInv_of_reachable h
  obtain ⟨c, hc, _, hcp, _⟩ := H.live_used _ hp
  simp only at hcp
  rw [hcp]
  exact H.heapAt.kfree_twice hc

theorem kfree_kfree_kernelHeap : ∃ s, (heapLts kernelHeap).Reachable s ∧
    ∃ h', kfree 0x300009 s.heap = some h' ∧ kfree 0x300009 h' = some h' := by
  obtain ⟨s, hs, hlive⟩ := kernelHeap_blocks
  exact ⟨s, hs, kfree_kfree kernelHeap hs (n := 52) (by rw [hlive]; decide)⟩

end Antagonist
