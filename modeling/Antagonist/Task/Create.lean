import Antagonist.Task.Thread

/-!
# What `create_thread` does

The two blocks of a new thread are apart from every block that is held, when the
heap is intact (`allocThread_spec`).  Then the stores that follow reach nothing
but the new blocks and the head's link (`createThread_spec`), and the heap stays
intact (`HeapInv.setupThread`).
-/

namespace Antagonist

open ByteMem Tiling

section

variable {R : HeapRegion} {k k' : Kernel} {live held : List (Nat × Nat)} {cs : List Chunk}

theorem HeapInv.separate {h : Heap} (H : HeapInv R ⟨h, live⟩ cs) {a n b l : Nat}
    (ha : (a, n) ∈ live) (hb : (b, l) ∈ live) (hne : a ≠ b) : Separate a n b l := by
  obtain ⟨c, hc, _, hcp, hcn⟩ := H.live_used _ ha
  obtain ⟨d, hd, _, hdp, hdn⟩ := H.live_used _ hb
  simp only [Separate]
  simp only [headerSize] at hcp hcn hdp hdn
  rcases H.heapAt.tiles.eq_or_apart hc hd with rfl | hlt | hlt
  · omega
  · simp only [Chunk.stop, headerSize] at hlt; omega
  · simp only [Chunk.stop, headerSize] at hlt; omega

theorem HeapInv.top {h : Heap} (H : HeapInv R ⟨h, live⟩ cs) {a n : Nat} (ha : (a, n) ∈ live) :
    0 < a ∧ a + n < 2 ^ 32 := by
  have hin := H.block_inside ha
  have hlt := R.stop_lt
  simp only at hin
  omega

/-- The fields of a thread control block are a matter of its bytes. -/
theorem fields_of_bytes {t : Nat} (ht : t + tcbSize ≤ 2 ^ 32)
    (h : ∀ x, t ≤ x → x < t + tcbSize → k'.heap.mem x = k.heap.mem x) :
    k'.id t = k.id t ∧ k'.esp t = k.esp t ∧ k'.entry t = k.entry t ∧ k'.next t = k.next t := by
  simp only [tcbSize] at ht h
  refine ⟨?_, ?_, ?_, ?_⟩
  · exact load32_of_bytes (by omega) fun x _ _ => h x (by omega) (by omega)
  · exact load32_of_bytes (by omega) fun x _ _ => h x (by omega) (by omega)
  · exact load32_of_bytes (by omega) fun x _ _ => h x (by omega) (by omega)
  · exact load32_of_bytes (by omega) fun x _ _ => h x (by omega) (by omega)

/-- The two `kmalloc`s of `create_thread` succeed: the blocks `t` and `b` are new
to those who hold the blocks `held`, and these are left alone. -/
structure Allocated (k k' : Kernel) (held : List (Nat × Nat)) (t b : Nat) : Prop where
  tcb : 0 < t ∧ t + tcbSize < 2 ^ 32
  stack : 0 < b ∧ b + stackSize < 2 ^ 32
  apart : Separate t tcbSize b stackSize
  tcb_new : ∀ blk ∈ held, Separate t tcbSize blk.1 blk.2
  stack_new : ∀ blk ∈ held, Separate b stackSize blk.1 blk.2
  frame : ∀ blk ∈ held, ∀ x, InBlock blk x → k'.heap.mem x = k.heap.mem x
  globals : k' = { k with heap := k'.heap }

/-- **An intact heap serves `create_thread` well**, unless it returns null.  Held
are live blocks, and what lies outside the heap. -/
theorem allocThread_spec (H : HeapInv R ⟨k.heap, live⟩ cs) {t b : Nat}
    (hheld : ∀ blk ∈ held, blk ∈ live ∨ blk.1 + blk.2 ≤ R.start ∨ R.stop ≤ blk.1)
    (hrun : allocThread k = some (t, b, k')) (ht : t ≠ 0) (hb : b ≠ 0) :
    (∃ cs', HeapInv R ⟨k'.heap, (b, stackSize) :: (t, tcbSize) :: live⟩ cs') ∧
      Allocated k k' held t b := by
  obtain ⟨p, h1, hm1, ⟨cs1, H1, _⟩, hF1⟩ := H.kmalloc tcbSize
  obtain ⟨q, h2, hm2, ⟨cs2, H2, _⟩, hF2⟩ := H1.kmalloc stackSize
  simp only at hm1 hm2 hF1 hF2
  have hout1 := fun x => H.kmalloc_outside (x := x) hm1
  have hout2 := fun x => H1.kmalloc_outside (x := x) hm2
  simp only [allocThread, hm1, Option.bind_some, hm2, Option.map_some] at hrun
  obtain ⟨rfl, hrest⟩ := Prod.mk.inj (Option.some.inj hrun)
  obtain ⟨rfl, rfl⟩ := Prod.mk.inj hrest
  rw [if_neg ht] at H1 H2 hF2
  rw [if_neg hb] at H2
  have hnd := H2.nodup
  simp only [List.map_cons, List.nodup_cons, List.mem_cons, not_or, List.mem_map, not_exists,
    not_and] at hnd
  have hbm : (q, stackSize) ∈ (q, stackSize) :: (p, tcbSize) :: live := List.mem_cons_self
  have htm : (p, tcbSize) ∈ (q, stackSize) :: (p, tcbSize) :: live :=
    List.mem_cons_of_mem _ List.mem_cons_self
  have hlive : ∀ blk ∈ live, blk ∈ (q, stackSize) :: (p, tcbSize) :: live := fun _ h =>
    List.mem_cons_of_mem _ (List.mem_cons_of_mem _ h)
  have hint := H2.block_inside htm
  have hinb := H2.block_inside hbm
  simp only at hint hinb
  refine ⟨⟨cs2, H2⟩, H2.top htm, H2.top hbm, H2.separate htm hbm (Ne.symm hnd.1.1), ?_, ?_, ?_,
    rfl⟩
  · intro blk hblk
    rcases hheld blk hblk with h | h | h
    · exact H2.separate htm (hlive blk h) fun he => hnd.2.1 blk h he.symm
    · simp only [Separate]; omega
    · simp only [Separate]; omega
  · intro blk hblk
    rcases hheld blk hblk with h | h | h
    · exact H2.separate hbm (hlive blk h) fun he => hnd.1.2 blk h he.symm
    · simp only [Separate]; omega
    · simp only [Separate]; omega
  · intro blk hblk x hx
    rcases hheld blk hblk with h | h | h
    · exact (hF2 blk (List.mem_cons_of_mem _ h) x hx).trans (hF1 blk h x hx)
    · simp only [InBlock] at hx
      exact (hout2 x (by omega)).trans (hout1 x (by omega))
    · simp only [InBlock] at hx
      exact (hout2 x (by omega)).trans (hout1 x (by omega))

/-- What `create_thread` has done: a new block `t` and a new stack at `b`, set
up, and every held byte as it was, but for the head's link. -/
structure Created (k k' : Kernel) (held : List (Nat × Nat)) (bootstrap entry t b : Nat) :
    Prop where
  id : k'.id t = k.nextThreadId
  esp : k'.esp t = b + 4060
  entry : k'.entry t = entry
  next : k'.next t = k.next k.taskListHead
  headNext : k'.next k.taskListHead = t
  zero : ∀ i < 8, k'.load (b + 4060 + 4 * i) = 0
  ret : k'.load (b + 4092) = bootstrap
  frame : ∀ blk ∈ held, ∀ x, InBlock blk x →
    ¬ (k.taskListHead + 48 ≤ x ∧ x < k.taskListHead + 52) → k'.heap.mem x = k.heap.mem x
  runningTask : k'.runningTask = k.runningTask
  taskListHead : k'.taskListHead = k.taskListHead
  nextThreadId : k'.nextThreadId = add32 k.nextThreadId 1

variable {bootstrap entry : BitVec 32} {t b : Nat}

theorem Allocated.setUp (A : Allocated k k' held t b) (hhead : (k.taskListHead, tcbSize) ∈ held)
    (hfits : ∀ blk ∈ held, blk.1 + blk.2 < 2 ^ 32) (hid : k.nextThreadId < 2 ^ 32) :
    SetUp k' (setupThread bootstrap.toNat entry.toNat t b k') bootstrap.toNat entry.toNat t b := by
  have hhead' : k'.taskListHead = k.taskListHead := by rw [A.globals]
  refine setupThread_spec A.tcb.2 A.stack.2 ?_ A.apart ?_ ?_ ?_ entry.isLt bootstrap.isLt
  · rw [hhead']
    exact hfits _ hhead
  · rw [hhead']
    exact A.tcb_new _ hhead
  · rw [hhead']
    exact A.stack_new _ hhead
  · rw [A.globals]
    exact hid

/-- **`create_thread`**, when the head of the ring is held. -/
theorem createThread_spec (A : Allocated k k' held t b)
    (hhead : (k.taskListHead, tcbSize) ∈ held) (hfits : ∀ blk ∈ held, blk.1 + blk.2 < 2 ^ 32)
    (hid : k.nextThreadId < 2 ^ 32) :
    Created k (setupThread bootstrap.toNat entry.toNat t b k') held bootstrap.toNat entry.toNat
      t b := by
  have S : SetUp k' (setupThread bootstrap.toNat entry.toNat t b k') bootstrap.toNat entry.toNat
      t b := A.setUp hhead hfits hid
  have hhead' : k'.taskListHead = k.taskListHead := by rw [A.globals]
  have hnext : k'.next k.taskListHead = k.next k.taskListHead := by
    refine (fields_of_bytes (Nat.le_of_lt (hfits _ hhead)) fun x h1 h2 => ?_).2.2.2
    exact A.frame _ hhead x ⟨h1, h2⟩
  refine ⟨?_, S.esp, S.entry, ?_, ?_, S.zero, S.ret, ?_, ?_, ?_, ?_⟩
  · rw [S.id, A.globals]
  · rw [S.next, hhead', hnext]
  · rw [← hhead', S.headNext]
  · intro blk hblk x hx hxh
    have hlt := hfits blk hblk
    have hsept := A.tcb_new blk hblk
    have hsepb := A.stack_new blk hblk
    simp only [Separate, stackSize, tcbSize] at hsept hsepb
    rw [← A.frame blk hblk x hx]
    simp only [InBlock] at hx
    exact S.out x (by omega) (by simp only [tcbSize]; omega) (by omega) (by rw [hhead']; exact hxh)
  · rw [S.runningTask, A.globals]
  · rw [S.taskListHead, hhead']
  · rw [S.nextThreadId, A.globals]

theorem HeapInv.setupThread (H : HeapInv R ⟨k'.heap, (b, stackSize) :: (t, tcbSize) :: live⟩ cs)
    (S : SetUp k' (setupThread bootstrap.toNat entry.toNat t b k') bootstrap.toNat entry.toNat t b)
    (hhead : (k'.taskListHead, tcbSize) ∈ live) :
    HeapInv R ⟨(Antagonist.setupThread bootstrap.toNat entry.toNat t b k').heap,
      (b, stackSize) :: (t, tcbSize) :: live⟩ cs := by
  have hheap : (Antagonist.setupThread bootstrap.toNat entry.toNat t b k').heap = { k'.heap with
      mem := (Antagonist.setupThread bootstrap.toNat entry.toNat t b k').heap.mem } := rfl
  have hstop := R.stop_lt
  rw [hheap]
  refine H.stores fun x _ hx2 hx => S.out x (by omega) ?_ ?_ ?_
  · exact hx _ (List.mem_cons_of_mem _ List.mem_cons_self)
  · have := hx _ List.mem_cons_self
    simp only [InBlock, stackSize] at this
    omega
  · have := hx _ (List.mem_cons_of_mem _ (List.mem_cons_of_mem _ hhead))
    simp only [InBlock, tcbSize] at this
    omega

end

end Antagonist
