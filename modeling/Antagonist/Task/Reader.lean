import Antagonist.Heap.Stores
import Antagonist.Task.Schedule

/-!
# Reading the ring during `create_thread`

The `meminfo` command calls `get_thread_count` from the keyboard interrupt, which
may come between any two stores of `create_thread`.  `createThreadStores` is
`create_thread` with a log of the kernels that its stores leave, in the order of
the source, those of the two `kmalloc`s among them; `getThreadCountReads` is
`get_thread_count` with a log of the blocks whose `next` it reads.

The new block goes into the ring with the last store, when everything else in it
is written.  Up to there the ring is the old one, block by block (`AsBefore`),
and then it is the new one.

* `createThread_readable`: so the ring can be read at any of these instants.
-/

namespace Antagonist

open ByteMem Tiling LinkRing

def Kernel.stored (k : Kernel) : Logged Kernel Kernel := .entry k k

@[simp] theorem Kernel.val_stored (k : Kernel) : k.stored.val = k := rfl

@[simp] theorem Kernel.all_stored {P : Kernel → Prop} (k : Kernel) : Logged.All P k.stored ↔ P k :=
  Logged.all_entry k k

/-- `setupThread`, store by store. -/
def setupThreadStores (bootstrap entry newThread privateStackBuffer : Nat) (k : Kernel) :
    Logged Kernel Kernel := do
  let privateStackTop := add32 privateStackBuffer 4096
  let k ← (k.setId newThread k.nextThreadId).stored
  let k ← Kernel.stored { k with nextThreadId := add32 k.nextThreadId 1 }
  let k ← (k.setEntry newThread entry).stored
  let privateStackTop := sub32 privateStackTop 4
  let k ← (k.store privateStackTop bootstrap).stored
  let privateStackTop := sub32 privateStackTop 32
  let k ← Logged.foldl (fun k i => (k.store (privateStackTop + 4 * i) 0).stored) k (List.range 8)
  let k ← (k.setEsp newThread privateStackTop).stored
  let k ← (k.setNext newThread (k.next k.taskListHead)).stored
  (k.setNext k.taskListHead newThread).stored

def allocThreadStores (k : Kernel) : Logged Kernel (Option (Nat × Nat × Kernel)) := do
  let r ← (kmallocStores tcbSize k.heap).mapLog fun heap => { k with heap }
  match r with
  | none => pure none
  | some (newThread, heap) => do
      let r ← (kmallocStores stackSize heap).mapLog fun heap => { k with heap }
      pure (r.map fun (privateStackBuffer, heap) => (newThread, privateStackBuffer, { k with heap }))

def createThreadStores (bootstrap entry : Nat) (k : Kernel) :
    Logged Kernel (Option (Nat × Nat × Kernel)) := do
  let r ← allocThreadStores k
  match r with
  | none => pure none
  | some (newThread, privateStackBuffer, k) => do
      let k ← setupThreadStores bootstrap entry newThread privateStackBuffer k
      pure (some (newThread, privateStackBuffer, k))

/-- A read of the field `next` of the block `t`. -/
def Kernel.nextRead (k : Kernel) (t : Nat) : Logged Nat Nat := .entry t (k.next t)

def getThreadCountLoopReads (k : Kernel) : Nat → Nat → Nat → Logged Nat (Option Nat)
  | 0, _, _ => pure none
  | fuel + 1, node, count =>
      if node = k.taskListHead then pure (some count)
      else k.nextRead node >>= fun node => getThreadCountLoopReads k fuel node (add32 count 1)

/-- `get_thread_count` with the blocks whose `next` it reads. -/
def getThreadCountReads (k : Kernel) : Logged Nat (Option Nat) :=
  if k.taskListHead = 0 then pure (some 0)
  else k.nextRead k.taskListHead >>= fun node => getThreadCountLoopReads k walkFuel node 1

section

variable {k k₀ k₁ k' : Kernel} {bootstrap entry t b : Nat} {held : List (Nat × Nat)}

/-! ### The logs aside -/

theorem foldl_store (k : Kernel) (a : Nat) (l : List Nat) :
    l.foldl (fun k i => k.store (a + 4 * i) 0) k =
      { k with heap := { k.heap with
          mem := l.foldl (fun m i => store32 m (a + 4 * i) 0) k.heap.mem } } := by
  induction l generalizing k with
  | nil => rfl
  | cons i l ih =>
    rw [List.foldl_cons, ih]
    rfl

theorem val_setupThreadStores : (setupThreadStores bootstrap entry t b k).val =
    setupThread bootstrap entry t b k := by
  simp only [setupThreadStores, Logged.val_bind, Kernel.val_stored, Logged.val_foldl,
    foldl_store]
  rfl

theorem val_allocThreadStores (k : Kernel) : (allocThreadStores k).val = allocThread k := by
  rw [allocThreadStores, allocThread, Logged.val_bind, Logged.val_mapLog, val_kmallocStores]
  cases kmalloc tcbSize k.heap with
  | none => rfl
  | some r =>
    simp only [Logged.val_bind, Logged.val_mapLog, val_kmallocStores]
    rfl

/-- **The log aside, it is `create_thread`.** -/
theorem val_createThreadStores (k : Kernel) :
    (createThreadStores bootstrap entry k).val = createThread bootstrap entry k := by
  rw [createThreadStores, createThread, Logged.val_bind, val_allocThreadStores]
  cases allocThread k with
  | none => rfl
  | some r =>
    simp only [Logged.val_bind, val_setupThreadStores]
    rfl

theorem val_getThreadCountLoopReads {fuel node count : Nat} :
    (getThreadCountLoopReads k fuel node count).val = getThreadCountLoop k fuel node count := by
  induction fuel generalizing node count with
  | zero => rfl
  | succ fuel ih =>
    rw [getThreadCountLoopReads, getThreadCountLoop, Logged.val_ite, Logged.val_bind, ih]
    rfl

/-- **The log aside, it is `get_thread_count`.** -/
theorem val_getThreadCountReads (k : Kernel) :
    (getThreadCountReads k).val = getThreadCount k := by
  rw [getThreadCountReads, getThreadCount, Logged.val_ite, Logged.val_bind,
    val_getThreadCountLoopReads]
  rfl

/-! ### Until the last store -/

/-- The head and the blocks of `held` are what they were in `k₀`. -/
structure AsBefore (k₀ : Kernel) (held : List (Nat × Nat)) (k : Kernel) : Prop where
  head : k.taskListHead = k₀.taskListHead
  mem : ∀ blk ∈ held, ∀ x, InBlock blk x → k.heap.mem x = k₀.heap.mem x

theorem AsBefore.store (U : AsBefore k₀ held k) {a : Nat} (v : Nat) (ha : a + 4 ≤ 2 ^ 32)
    (hsep : ∀ blk ∈ held, Separate a 4 blk.1 blk.2) : AsBefore k₀ held (k.store a v) := by
  refine ⟨U.head, ?_⟩
  intro blk hblk x hx
  have hapart := hsep blk hblk
  simp only [Separate] at hapart
  rw [← U.mem blk hblk x hx]
  simp only [InBlock] at hx
  exact store32_apply_of_out _ _ ha (by omega)

theorem AsBefore.store_tcb (U : AsBefore k₀ held k) (A : Allocated k₀ k₁ held t b) {i : Nat}
    (v : Nat) (hi : i + 4 ≤ tcbSize) : AsBefore k₀ held (k.store (t + i) v) := by
  have hlt := A.tcb.2
  apply U.store v (by omega)
  intro blk hblk
  have hapart := A.tcb_new blk hblk
  simp only [Separate] at hapart ⊢
  omega

theorem AsBefore.store_stack (U : AsBefore k₀ held k) (A : Allocated k₀ k₁ held t b) {i : Nat}
    (v : Nat) (hi : i + 4 ≤ stackSize) : AsBefore k₀ held (k.store (b + i) v) := by
  have hlt := A.stack.2
  apply U.store v (by omega)
  intro blk hblk
  have hapart := A.stack_new blk hblk
  simp only [Separate] at hapart ⊢
  omega

theorem allocThreadStores_asBefore {R : HeapRegion} {cs : List Chunk}
    (H : HeapInv R ⟨k.heap, held⟩ cs) : Logged.All (AsBefore k held) (allocThreadStores k) := by
  obtain ⟨p, h1, hm1, ⟨cs1, H1, _⟩, hF1⟩ := H.kmalloc tcbSize
  simp only at hm1 hF1
  have hlive : ∀ blk ∈ held, blk ∈ if p = 0 then held else (p, tcbSize) :: held := by
    intro blk hblk
    split
    · exact hblk
    · exact List.mem_cons_of_mem _ hblk
  rw [allocThreadStores, Logged.all_bind, Logged.all_mapLog, Logged.val_mapLog,
    val_kmallocStores, hm1]
  refine ⟨(H.kmallocStores tcbSize).imp fun h hF => ⟨rfl, hF⟩, ?_⟩
  simp only [Logged.all_bind, Logged.all_mapLog]
  refine ⟨(H1.kmallocStores stackSize).imp ?_, Logged.all_pure _⟩
  intro h hF
  refine ⟨rfl, ?_⟩
  intro blk hblk x hx
  exact (hF blk (hlive blk hblk) x hx).trans (hF1 blk hblk x hx)

theorem setupThreadStores_asBefore (A : Allocated k₀ k₁ held t b) :
    Logged.All (fun k => AsBefore k₀ held k ∨ k = setupThread bootstrap entry t b k₁)
      (setupThreadStores bootstrap entry t b k₁) := by
  have hlast : (setupThreadStores bootstrap entry t b k₁).val =
      setupThread bootstrap entry t b k₁ := val_setupThreadStores
  have htop1 := stackTop_ret A.stack.2
  have htop2 := stackTop_frame A.stack.2
  have U0 : AsBefore k₀ held k₁ := ⟨by rw [A.globals], A.frame⟩
  have U1 := U0.store_tcb A (i := 0) k₁.nextThreadId (by decide)
  have U2 : AsBefore k₀ held { k₁.setId t k₁.nextThreadId with
      nextThreadId := add32 k₁.nextThreadId 1 } := ⟨U1.head, U1.mem⟩
  have U3 := U2.store_tcb A (i := 8) entry (by decide)
  have U4 := U3.store_stack A (i := 4092) bootstrap (by decide)
  rw [htop1] at htop2
  have hzero : ∀ k, ∀ i ∈ List.range 8, AsBefore k₀ held k →
      AsBefore k₀ held (k.store (b + 4060 + 4 * i) 0) := by
    intro k i hi U
    have hi8 := List.mem_range.mp hi
    rw [Nat.add_assoc]
    exact U.store_stack A 0 (by simp only [stackSize]; omega)
  obtain ⟨L5, U5⟩ := Logged.all_foldl (P := AsBefore k₀ held)
    (f := fun k i => (k.store (b + 4060 + 4 * i) 0).stored) (AsBefore k₀ held) U4
    fun k i hi U => ⟨(Kernel.all_stored _).mpr (hzero k i hi U), hzero k i hi U⟩
  have U6 := U5.store_tcb A (i := 4) (b + 4060) (by decide)
  have U7 := fun v => U6.store_tcb A (i := 48) v (by decide)
  simp only [setupThreadStores, htop1, htop2] at hlast ⊢
  simp only [Logged.all_bind, Kernel.all_stored, Kernel.val_stored]
  exact ⟨Or.inl U1, Or.inl U2, Or.inl U3, Or.inl U4, L5.imp fun _ => Or.inl, Or.inl U6,
    Or.inl (U7 _), Or.inr hlast⟩

/-! ### What the reader reads -/

theorem getThreadCountLoopReads_mem {l : List Nat} (hring : IsRing k.next l) {fuel node count : Nat}
    (hnode : node ∈ l) : Logged.All (· ∈ l) (getThreadCountLoopReads k fuel node count) := by
  induction fuel generalizing node count with
  | zero => exact Logged.all_pure _
  | succ fuel ih =>
    rw [getThreadCountLoopReads]
    split
    · exact Logged.all_pure _
    · exact (Logged.all_bind _ _).mpr
        ⟨(Logged.all_entry _ _).mpr hnode, ih (hring.next_mem hnode)⟩

theorem getThreadCountReads_mem {l : List Nat} (hring : IsRing k.next l)
    (hhead : k.taskListHead ∈ l) : Logged.All (· ∈ l) (getThreadCountReads k) := by
  rw [getThreadCountReads]
  split
  · exact Logged.all_pure _
  · exact (Logged.all_bind _ _).mpr ⟨(Logged.all_entry _ _).mpr hhead,
      getThreadCountLoopReads_mem hring (hring.next_mem hhead)⟩

/-- A fully linked block `u`, during a call that leaves `k'`: it stands on the ring
behind the head, and its id, stack pointer and entry are the final ones. -/
structure FullyLinked (k' k : Kernel) (u : Nat) : Prop where
  onRing : ∃ l, IsRing k.next l ∧ l.head? = some k.taskListHead ∧ l.Nodup ∧ u ∈ l
  fields : k.id u = k'.id u ∧ k.esp u = k'.esp u ∧ k.entry u = k'.entry u

/-- What `meminfo` finds in `k` during a call that leaves `k'`, on a ring that had
`n` threads before it. -/
structure Readable (n : Nat) (k' k : Kernel) : Prop where
  count : getThreadCount k = some n ∨ getThreadCount k = some (n + 1)
  linked : Logged.All (FullyLinked k' k) (getThreadCountReads k)

theorem fullyLinked_of_ring {l : List Nat} (hring : IsRing k.next (k.taskListHead :: l))
    (hnd : (k.taskListHead :: l).Nodup)
    (hfields : ∀ u ∈ k.taskListHead :: l,
      k.id u = k'.id u ∧ k.esp u = k'.esp u ∧ k.entry u = k'.entry u) :
    Logged.All (FullyLinked k' k) (getThreadCountReads k) :=
  (getThreadCountReads_mem hring List.mem_cons_self).imp fun u hu =>
    ⟨⟨_, hring, rfl, hnd, hu⟩, hfields u hu⟩

/-- The call stores into no other field of the old blocks than the head's link. -/
theorem Created.fields {bootstrap entry : BitVec 32}
    (C : Created k k' held bootstrap.toNat entry.toNat t b)
    {u : Nat} (hu : (u, tcbSize) ∈ held) (hfit : u + tcbSize < 2 ^ 32)
    (hsep : u = k.taskListHead ∨ Separate u tcbSize k.taskListHead tcbSize) :
    k'.id u = k.id u ∧ k'.esp u = k.esp u ∧ k'.entry u = k.entry u := by
  have hin := fun x h1 h2 => C.frame _ hu x ⟨h1, h2⟩
  simp only [Separate, tcbSize] at hin hfit hsep
  refine ⟨?_, ?_, ?_⟩
  · exact load32_of_bytes (by omega) fun x _ _ => hin x (by omega) (by omega) (by omega)
  · exact load32_of_bytes (by omega) fun x _ _ => hin x (by omega) (by omega) (by omega)
  · exact load32_of_bytes (by omega) fun x _ _ => hin x (by omega) (by omega) (by omega)

end

/-! ### The ring during a call -/

section

variable {R : HeapRegion} {bootstrap entry : BitVec 32} {task0 t b : Nat} {s : TaskSys}
  {l : List Nat} {k k' : Kernel}

theorem TaskRel.readable_of_asBefore (H : TaskRel R task0 s l)
    (C : Created s.kernel k' s.live bootstrap.toNat entry.toNat t b)
    (U : AsBefore s.kernel s.live k) : Readable (task0 :: s.created).length k' k := by
  have hhead : k.taskListHead = task0 := U.head.trans H.ring.head
  have hfields : ∀ u ∈ task0 :: s.created, k.id u = s.kernel.id u ∧ k.esp u = s.kernel.esp u ∧
      k.entry u = s.kernel.entry u ∧ k.next u = s.kernel.next u := by
    intro u hu
    exact fields_of_bytes (Nat.le_of_lt (H.ring.fits u hu).2) fun x h1 h2 =>
      U.mem _ (H.live u hu) x ⟨h1, h2⟩
  have hring : IsRing k.next (task0 :: s.created) :=
    H.ring.ring.congr fun u hu => (hfields u hu).2.2.2
  refine ⟨Or.inl ?_, ?_⟩
  · rw [getThreadCount_of_ring hhead hring H.ring.nodup H.ring.fits, List.length_cons,
      Nat.add_comm]
  · refine fullyLinked_of_ring (by rw [hhead]; exact hring) (by rw [hhead]; exact H.ring.nodup) ?_
    rw [hhead]
    intro u hu
    have hsep : u = s.kernel.taskListHead ∨ Separate u tcbSize s.kernel.taskListHead tcbSize := by
      rw [H.ring.head]
      exact (List.mem_cons.mp hu).imp id (H.separate u)
    obtain ⟨hid, hesp, hentry⟩ := C.fields (H.live u hu) (H.ring.fits u hu).2 hsep
    obtain ⟨hid', hesp', hentry', _⟩ := hfields u hu
    exact ⟨hid'.trans hid.symm, hesp'.trans hesp.symm, hentry'.trans hentry.symm⟩

theorem TaskRing.readable {created : List Nat} (H : TaskRing k' task0 (t :: created)) :
    Antagonist.getThreadCount k' = some ((task0 :: created).length + 1) ∧
      Logged.All (FullyLinked k' k') (getThreadCountReads k') := by
  refine ⟨?_, ?_⟩
  · rw [H.getThreadCount, List.length_cons, List.length_cons, Nat.add_comm]
  · have hring := H.ring
    have hnd := H.nodup
    rw [← H.head] at hring hnd
    exact fullyLinked_of_ring hring hnd fun _ _ => ⟨rfl, rfl, rfl⟩

/-- The ring `ring` of `k` can be read at every instant of a call of
`create_thread` that leaves `k'`. -/
structure ReadableCreate (ring : List Nat) (bootstrap entry t b : Nat) (k k' : Kernel) : Prop where
  isRing : IsRing k.next ring ∧ ring.head? = some k.taskListHead ∧ ring.Nodup
  /-- Before the call, and after each of its stores. -/
  instants : ∀ k₁ ∈ k :: (createThreadStores bootstrap entry k).log,
    Readable ring.length k' k₁
  done : (createThreadStores bootstrap entry k).val = some (t, b, k') ∧
    getThreadCount k' = some (ring.length + 1)
  /-- The new block is complete when the call is over. -/
  tcb : k'.id t = k.nextThreadId ∧ k'.esp t = b + 4060 ∧ k'.entry t = entry ∧
    k'.next t = k.next k.taskListHead ∧ k'.next k.taskListHead = t

/-- **The ring can be read at any instant** of a `create_thread` whose `kmalloc`s
succeed. -/
theorem createThread_readable (R : HeapRegion) (bootstrap : BitVec 32) {task0 : Nat} {s : TaskSys}
    (h : (taskLts R bootstrap task0).Reachable s) {entry : BitVec 32} {t b : Nat} {k' : Kernel}
    (hrun : createThread bootstrap.toNat entry.toNat s.kernel = some (t, b, k')) (ht : t ≠ 0)
    (hb : b ≠ 0) :
    ReadableCreate (task0 :: s.created) bootstrap.toNat entry.toNat t b s.kernel k' := by
  obtain ⟨tr, htr⟩ := h
  obtain ⟨l, _, H⟩ := (task_simulation R bootstrap task0).run htr
  obtain ⟨cs, HI⟩ := H.heapInv
  obtain ⟨k₁, hal, rfl, _, A, C⟩ := H.created hrun ht hb
  have hold := fun k => H.readable_of_asBefore (k := k) C
  have hnew := H.ring.create H.live H.separate A C
  obtain ⟨hcount, hlinked⟩ := hnew.readable
  have hlog : Logged.All (Readable (task0 :: s.created).length
      (setupThread bootstrap.toNat entry.toNat t b k₁))
      (createThreadStores bootstrap.toNat entry.toNat s.kernel) := by
    rw [createThreadStores, Logged.all_bind, val_allocThreadStores, hal]
    refine ⟨(allocThreadStores_asBefore HI).imp hold, ?_⟩
    refine (Logged.all_bind _ _).mpr ⟨?_, Logged.all_pure _⟩
    refine (setupThreadStores_asBefore A).imp ?_
    intro k hk
    rcases hk with hk | rfl
    · exact hold k hk
    · exact ⟨Or.inr hcount, hlinked⟩
  refine ⟨⟨H.ring.ring, congrArg some H.ring.head.symm, H.ring.nodup⟩, ?_,
    ⟨(val_createThreadStores _).trans hrun, hcount⟩, C.id, C.esp, C.entry, C.next, C.headNext⟩
  exact List.forall_mem_cons.mpr ⟨hold _ ⟨rfl, fun _ _ _ _ => rfl⟩, hlog⟩

end

/-- The second thread after boot, on a ring of two. -/
theorem createThread_readable_kernelHeap : ∃ k k',
    ReadableCreate [0x300009, 0x300046] 0x100000 0x100200 0x30108C 0x3010C9 k k' := by
  have hrun : ((initMultitasking (freshKernel kernelHeap fun _ => 0)).bind fun k =>
      (createThread (0x100000#32).toNat (0x100100#32).toNat k).bind fun r =>
        (createThread (0x100000#32).toNat (0x100200#32).toNat r.2.2).map fun u =>
          (k.taskListHead, r.1, r.2.1, u.1, u.2.1)) =
      some (0x300009, 0x300046, 0x300083, 0x30108C, 0x3010C9) := by decide +kernel
  obtain ⟨k, hinit, hrun⟩ := Option.bind_eq_some_iff.mp hrun
  obtain ⟨⟨t, b, k₁⟩, hfirst, hrun⟩ := Option.bind_eq_some_iff.mp hrun
  obtain ⟨⟨u, c, k₂⟩, hsecond, hrun⟩ := Option.map_eq_some_iff.mp hrun
  simp only [Prod.mk.injEq] at hrun
  obtain ⟨hhead, rfl, rfl, rfl, rfl⟩ := hrun
  have hstart : (taskLts kernelHeap 0x100000 0x300009).Run [] ⟨k, [(0x300009, tcbSize)], []⟩ :=
    .start ⟨fun _ => 0, k, hinit, hhead, rfl⟩
  have hcreate : TaskStep kernelHeap 0x100000 0x300009 ⟨k, [(0x300009, tcbSize)], []⟩
      (.create 0x300046) ⟨k₁, [(0x300083, stackSize), (0x300046, tcbSize), (0x300009, tcbSize)],
        [0x300046]⟩ := TaskStep.create hfirst (by decide) (by decide)
  exact ⟨k₁, k₂, createThread_readable kernelHeap 0x100000 ⟨_, hstart.snoc hcreate⟩ hsecond
    (by decide) (by decide)⟩

end Antagonist
