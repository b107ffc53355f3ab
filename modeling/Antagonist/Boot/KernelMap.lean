import Antagonist.Boot.Vmm

/-!
# The kernel's directory and the heap

The directory that `init_vmm` loads maps the first 4 MiB to themselves, and no more
(`walk_kernel`).  The heap of `kernel_main` ends with them: all its headers and blocks are mapped to
themselves (`kernelMap_identity`).  The four arrays of `vmm.cpp` are not in the heap unless the
image is, and then the heap leaves them as `init_vmm` made them (`walk_heapRun`).

* `SelfMapped`: the byte leads to itself, for the supervisor.
* `HeapSelfMapped`: the headers of the walk, and the blocks that were returned.
-/

namespace Antagonist

open ByteMem Paging Tiling

/-- The address leads to itself, with supervisor read and write access. -/
def SelfMapped (m : Mem) (pd v : Nat) : Prop := walk m pd v = some ⟨v, true, false⟩

/-- Every byte of every chunk header that the walk from `heap_start` reaches, and of every block
that was returned in the run, is mapped to itself. -/
structure HeapSelfMapped (m : Mem) (pd : Nat) (tr : List HeapOp) (s : HeapSys) : Prop where
  headers : ∀ as, Walk s.heap s.heap.heapStart as → ∀ a ∈ as, ∀ x, a ≤ x → x < a + headerSize →
    SelfMapped m pd x
  blocks : ∀ n p, .kmalloc n p ∈ tr → p ≠ 0 → ∀ x, InBlock (p, n) x → SelfMapped m pd x

section

variable {R : HeapRegion} {tr : List HeapOp} {s : HeapSys}

theorem header_inside (h : (heapLts R).Reachable s) {as : List Nat}
    (hw : Walk s.heap s.heap.heapStart as) {a : Nat} (ha : a ∈ as) :
    R.start ≤ a ∧ a + headerSize ≤ R.stop := by
  obtain ⟨cs, H⟩ := heapInv_of_reachable h
  rw [walk_unique hw (walk_of_chain H.heapAt.chain)] at ha
  obtain ⟨c, hc, rfl⟩ := List.mem_map.mp ha
  have hb := H.heapAt.tiles.bounds hc
  simp only [Chunk.stop] at hb
  omega

theorem returned_inside (h : (heapLts R).Run tr s) {n p : Nat} (hmem : .kmalloc n p ∈ tr)
    (hp : p ≠ 0) : R.start < p ∧ p + n ≤ R.stop := by
  refine h.traceInvariant (I := fun tr _ => ∀ n p, HeapOp.kmalloc n p ∈ tr → p ≠ 0 →
    R.start < p ∧ p + n ≤ R.stop) ?_ ?_ n p hmem hp
  · intro s _ n p hmem
    exact absurd hmem List.not_mem_nil
  · intro tr s op t hrun ih hs n p hmem hp
    rcases List.mem_append.mp hmem with hold | hnew
    · exact ih n p hold hp
    · rw [List.mem_singleton] at hnew
      subst hnew
      obtain ⟨cs, H⟩ := heapInv_of_reachable ((Lts.Reachable.step ⟨tr, hrun⟩ hs))
      cases hs with
      | kmalloc _ _ => exact H.block_inside (b := (p, n)) (by simp [hp])

theorem heapSelfMapped_of_region {m : Mem} {pd : Nat} (h : (heapLts R).Run tr s)
    (hself : ∀ x, x < R.stop → SelfMapped m pd x) : HeapSelfMapped m pd tr s := by
  refine ⟨?_, ?_⟩
  · intro as hw a ha x _ hx
    have hin := header_inside ⟨tr, h⟩ hw ha
    exact hself x (by omega)
  · intro n p hmem hp x hx
    have hin := returned_inside h hmem hp
    simp only [InBlock] at hx
    exact hself x (by omega)

/-- Nothing that the heap and its clients do changes a byte outside of the region. -/
theorem heapStep_outside {cs : List Chunk} (H : HeapInv R s cs) {op : HeapOp} {t : HeapSys}
    (hs : HeapStep s op t) {x : Nat} (hx : x < R.start ∨ R.stop ≤ x) :
    t.heap.mem x = s.heap.mem x := by
  cases hs with
  | kmalloc _ hrun => exact H.kmalloc_outside hrun hx
  | kfree hp hrun => exact H.kfree_outside hp hrun hx
  | write hblk hin =>
    have hb := H.block_inside hblk
    have hlt := R.stop_lt
    simp only [InBlock] at hin
    exact store8_apply_ne _ _ (by omega)

theorem initHeap_outside (m : Mem) {x : Nat} (hx : x < R.start ∨ R.stop ≤ x) (hlt : x < 2 ^ 32) :
    (initHeap m R.start R.pages).mem x = m x := by
  have h1 := R.stop_lt
  have h2 := R.pages_pos
  simp only [HeapRegion.stop, pageSize] at *
  show store32 (store8 (store32 m _ _) _ _) _ _ x = m x
  rw [store32_apply_out _ _ (by simp only [Off]; omega), store8_apply_ne _ _ (by omega),
    store32_apply_out _ _ (by simp only [Off]; omega)]

/-- **A run of the heap changes no byte outside of the region.** -/
theorem heapExec_outside {m : Mem}
    (h : (heapLts R).Exec ⟨initHeap m R.start R.pages, []⟩ tr s) {x : Nat}
    (hx : x < R.start ∨ R.stop ≤ x) (hlt : x < 2 ^ 32) : s.heap.mem x = m x := by
  have hboth : (∃ cs, HeapInv R s cs) ∧ s.heap.mem x = m x := by
    refine h.preserves (I := fun s => (∃ cs, HeapInv R s cs) ∧ s.heap.mem x = m x) ?_ ?_
    · rintro s op t ⟨⟨cs, H⟩, hm⟩ hs
      exact ⟨heapInv_step H hs, (heapStep_outside H hs hx).trans hm⟩
    · exact ⟨⟨_, heapInv_init R m⟩, initHeap_outside m hx hlt⟩
  exact hboth.2

end

/-- The tables stay as they are while the heap runs, if the image ends where the heap starts. -/
theorem walk_heapRun {im : Image} (L : VmmLayout im) (m : Mem) (hstop : im.stop ≤ kernelHeap.start)
    {tr : List HeapOp} {s : HeapSys}
    (h : (heapLts kernelHeap).Exec
      ⟨initHeap (initVmm L m) kernelHeap.start kernelHeap.pages, []⟩ tr s) {v : Nat}
    (hv : v < 2 ^ 32) :
    walk s.heap.mem L.pageDirectory v = walk (initVmm L m) L.pageDirectory v := by
  have h1 := (L.in_image L.pageDirectory (by simp [VmmArrays.all])).2
  have h2 := (L.in_image L.firstPageTable (by simp [VmmArrays.all])).2
  have hlt : kernelHeap.start < 2 ^ 32 := by decide
  have hmap : IdentityMap s.heap.mem L.pageDirectory L.firstPageTable 0x03 := by
    apply (identityMap_kernel L m).frame (by omega) (by omega)
    intro x hx
    exact heapExec_outside h (Or.inl (by omega)) (by omega)
  rw [hmap.walk_eq hv, (identityMap_kernel L m).walk_eq hv]

/-- **Kernel paging is the identity on the first 4 MiB and nothing else**, and whatever `kmalloc`
and `kfree` are asked, the headers and the blocks of the heap are mapped to themselves: by the
tables as `init_vmm` left them, and by the memory that the run leaves if the image ends where the
heap starts. -/
theorem kernelMap_identity {im : Image} (L : VmmLayout im) (m : Mem) :
    (∀ v : BitVec 32, walk (initVmm L m) L.pageDirectory v.toNat =
      if v.toNat < 0x400000 then some ⟨v.toNat, true, false⟩ else none) ∧
    (∀ tr s, (heapLts kernelHeap).Run tr s →
      HeapSelfMapped (initVmm L m) L.pageDirectory tr s) ∧
    ∀ tr s, (heapLts kernelHeap).Exec
      ⟨initHeap (initVmm L m) kernelHeap.start kernelHeap.pages, []⟩ tr s →
        im.stop ≤ kernelHeap.start → HeapSelfMapped s.heap.mem L.pageDirectory tr s := by
  have hstop : kernelHeap.stop = 4194304 := by decide
  have hself : ∀ x, x < kernelHeap.stop → SelfMapped (initVmm L m) L.pageDirectory x := by
    intro x hx
    rw [hstop] at hx
    rw [SelfMapped, walk_kernel L m (by omega), if_pos hx]
  refine ⟨fun v => walk_kernel L m v.isLt, ?_, ?_⟩
  · intro tr s h
    exact heapSelfMapped_of_region h hself
  · intro tr s h hend
    apply heapSelfMapped_of_region ⟨_, ⟨_, rfl⟩, h⟩
    intro x hx
    have hlt : x < 2 ^ 32 := by omega
    rw [SelfMapped, walk_heapRun L m hend h hlt]
    exact hself x hx

theorem kernelHeap_block (m : Mem) : ∃ s,
    (heapLts kernelHeap).Exec ⟨initHeap m kernelHeap.start kernelHeap.pages, []⟩
      [.kmalloc 52 0x300009] s ∧ s.live = [(0x300009, 52)] := by
  have hrun : (kmalloc 52 (initHeap m 0x300000 256)).map Prod.fst = some 0x300009 := by rfl
  obtain ⟨⟨p, h'⟩, hk, hp⟩ := Option.map_eq_some_iff.mp hrun
  simp only at hp
  subst hp
  have hstep : (heapLts kernelHeap).step ⟨initHeap m kernelHeap.start kernelHeap.pages, []⟩
      (.kmalloc 52 0x300009) ⟨h', [(0x300009, 52)]⟩ := HeapStep.kmalloc (by decide) hk
  exact ⟨_, .snoc (.nil _) hstep, rfl⟩

/-- The small image ends below the heap, and a block is taken. -/
theorem kernelMap_identity_block :
    ∃ s, (heapLts kernelHeap).Exec ⟨initHeap (initVmm smallVmmLayout fun _ => 0)
        kernelHeap.start kernelHeap.pages, []⟩ [.kmalloc 52 0x300009] s ∧
      s.live = [(0x300009, 52)] ∧
      HeapSelfMapped (initVmm smallVmmLayout fun _ => 0) smallVmmLayout.pageDirectory
        [.kmalloc 52 0x300009] s ∧
      HeapSelfMapped s.heap.mem smallVmmLayout.pageDirectory [.kmalloc 52 0x300009] s := by
  obtain ⟨s, hrun, hlive⟩ := kernelHeap_block (initVmm smallVmmLayout fun _ => 0)
  have h := kernelMap_identity smallVmmLayout fun _ => 0
  exact ⟨s, hrun, hlive, h.2.1 _ s ⟨_, ⟨_, rfl⟩, hrun⟩, h.2.2 _ s hrun (by decide)⟩

end Antagonist
