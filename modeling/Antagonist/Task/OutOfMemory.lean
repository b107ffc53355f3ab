import Antagonist.Task.Schedule

/-!
# `create_thread` without memory

`create_thread` uses what its two `kmalloc`s return without a look at it.  When one
of them returns null the thread is linked all the same, its block or its stack at
address zero.

* `allocThread_iff`: both pointers are good exactly when the heap has room for a
  block and then for a stack.
* `allOrNothing_iff`: `create_thread` is all or nothing exactly then.
-/

namespace Antagonist

open ByteMem Tiling

section

variable {R : HeapRegion} {bootstrap : BitVec 32} {task0 : Nat} {s : TaskSys} {cs : List Chunk}

/-- Room for the block of a thread, and then for its stack. -/
def ThreadRoom (cs : List Chunk) : Prop := RoomFor headerSize tcbSize stackSize cs

/-- **Both `kmalloc`s of `create_thread` succeed** exactly when there is room. -/
theorem allocThread_iff {k : Kernel} (H : HeapAt R k.heap cs) :
    ∃ t b k', allocThread k = some (t, b, k') ∧ (t ≠ 0 ∧ b ≠ 0 ↔ ThreadRoom cs) ∧
      k'.nextThreadId = k.nextThreadId := by
  have hroom : ThreadRoom cs ↔ _ := roomFor_iff (by decide : splitSlack ≤ stackSize)
  rcases H.kmalloc tcbSize with ⟨hnone, hrun⟩ | ⟨a, cs', m', hal, hrun, H', _⟩
  · -- the pointer to the block is null already
    have hno : ¬ ThreadRoom cs := by
      rw [hroom]
      rintro ⟨a, cs', hal, _⟩
      rw [hnone] at hal
      cases hal
    obtain ⟨b, h', hrun'⟩ : ∃ b h', kmalloc stackSize k.heap = some (b, h') := by
      rcases H.kmalloc stackSize with ⟨_, h⟩ | ⟨_, _, _, _, h, _⟩
      · exact ⟨_, _, h⟩
      · exact ⟨_, _, h⟩
    refine ⟨0, b, { k with heap := h' }, ?_, ?_, rfl⟩
    · rw [allocThread, hrun, Option.bind_some]
      simp only [hrun', Option.map_some]
    · exact ⟨fun h => absurd rfl h.1, fun h => absurd h hno⟩
  · have ht : a + headerSize ≠ 0 := by simp only [headerSize]; omega
    rcases H'.kmalloc stackSize with ⟨hnone, hrun'⟩ | ⟨b, cs'', m'', hal', hrun', _, _⟩
    · have hno : ¬ ThreadRoom cs := by
        rw [hroom]
        rintro ⟨a', ds, hal', hsome⟩
        rw [hal] at hal'
        obtain ⟨_, rfl⟩ := Prod.mk.inj (Option.some.inj hal')
        exact hsome hnone
      refine ⟨a + headerSize, 0, { k with heap := { k.heap with mem := m' } }, ?_, ?_, rfl⟩
      · rw [allocThread, hrun, Option.bind_some]
        simp only [hrun', Option.map_some]
      · exact ⟨fun h => absurd rfl h.2, fun h => absurd h hno⟩
    · refine ⟨a + headerSize, b + headerSize, { k with heap := { k.heap with mem := m'' } }, ?_, ?_,
        rfl⟩
      · rw [allocThread, hrun, Option.bind_some]
        simp only [hrun', Option.map_some]
      · have hyes : ThreadRoom cs := by
          rw [hroom]
          exact ⟨a, cs', hal, by rw [hal']; exact Option.some_ne_none _⟩
        exact ⟨fun _ => hyes, fun _ => ⟨ht, by simp only [headerSize]; omega⟩⟩

/-- `create_thread` has linked one new thread into the ring, whose block and stack
are live blocks apart from each other. -/
structure Linked (R : HeapRegion) (task0 : Nat) (s : TaskSys) (entry t b : Nat) (k' : Kernel) :
    Prop where
  heap : ∃ cs, HeapInv R ⟨k'.heap, (b, stackSize) :: (t, tcbSize) :: s.live⟩ cs
  apart : Separate t tcbSize b stackSize
  ring : TaskRing k' task0 (t :: s.created)
  entry : k'.entry t = entry

/-- `create_thread(entry)` in the state `s` is all or nothing: the new thread is
linked, or a `kmalloc` returned null and the kernel is as it was, memory, ring and
ids. -/
def AllOrNothing (R : HeapRegion) (bootstrap : BitVec 32) (task0 : Nat) (s : TaskSys)
    (entry : BitVec 32) : Prop :=
  ∃ t b k', createThread bootstrap.toNat entry.toNat s.kernel = some (t, b, k') ∧
    (Linked R task0 s entry.toNat t b k' ∨ (t = 0 ∨ b = 0) ∧ k' = s.kernel)

theorem TaskRel.linked {l : List Nat} (H : TaskRel R task0 s l) {entry : BitVec 32} {t b : Nat}
    {k' : Kernel} (hrun : createThread bootstrap.toNat entry.toNat s.kernel = some (t, b, k'))
    (ht : t ≠ 0) (hb : b ≠ 0) : Linked R task0 s entry.toNat t b k' := by
  obtain ⟨l', _, H'⟩ := H.create hrun ht hb
  obtain ⟨cs', HI'⟩ := H'.heapInv
  have hnd := HI'.nodup
  simp only [List.map_cons, List.nodup_cons, List.mem_cons, not_or] at hnd
  refine ⟨⟨cs', HI'⟩, ?_, H'.ring, ?_⟩
  · apply HI'.separate (List.mem_cons_of_mem _ List.mem_cons_self) List.mem_cons_self
    exact Ne.symm hnd.1.1
  · obtain ⟨k₁, _, _, _, _, C⟩ := H.created hrun ht hb
    exact C.entry

/-- A null pointer is no live block, and the next id has been used up. -/
theorem not_allOrNothing_of_null {entry : BitVec 32} {t b : Nat} {k' : Kernel}
    (hal : allocThread s.kernel = some (t, b, k'))
    (hid : k'.nextThreadId = s.kernel.nextThreadId) (hnull : ¬ (t ≠ 0 ∧ b ≠ 0)) :
    ¬ AllOrNothing R bootstrap task0 s entry := by
  rintro ⟨t', b', k'', hrun, hout⟩
  rw [createThread, hal, Option.map_some] at hrun
  simp only [Option.some.injEq, Prod.mk.injEq] at hrun
  obtain ⟨rfl, rfl, rfl⟩ := hrun
  rcases hout with L | ⟨_, hsame⟩
  · obtain ⟨cs, HI⟩ := L.heap
    have hb := (HI.top List.mem_cons_self).1
    have ht := (HI.top (List.mem_cons_of_mem _ List.mem_cons_self)).1
    exact hnull ⟨Nat.ne_of_gt ht, Nat.ne_of_gt hb⟩
  · have hnext : add32 k'.nextThreadId 1 = s.kernel.nextThreadId :=
      congrArg Kernel.nextThreadId hsame
    rw [hid, add32] at hnext
    omega

/-- **`create_thread` is all or nothing** exactly when the heap has room for the
block of the thread and then for its stack. -/
theorem allOrNothing_iff (R : HeapRegion) (bootstrap : BitVec 32) {task0 : Nat} {s : TaskSys}
    (h : (taskLts R bootstrap task0).Reachable s) (entry : BitVec 32) :
    ∃ cs, HeapInv R ⟨s.kernel.heap, s.live⟩ cs ∧
      (AllOrNothing R bootstrap task0 s entry ↔ ThreadRoom cs) := by
  obtain ⟨tr, hrun⟩ := h
  obtain ⟨l, _, H⟩ := (task_simulation R bootstrap task0).run hrun
  obtain ⟨cs, HI⟩ := H.heapInv
  obtain ⟨t, b, k', hal, hroom, hid⟩ := allocThread_iff HI.heapAt
  refine ⟨cs, HI, fun hall => ?_, fun hcs => ?_⟩
  · by_contra hno
    exact not_allOrNothing_of_null hal hid (fun hgood => hno (hroom.mp hgood)) hall
  · obtain ⟨ht, hb⟩ := hroom.mpr hcs
    have hcreate : createThread bootstrap.toNat entry.toNat s.kernel
        = some (t, b, setupThread bootstrap.toNat entry.toNat t b k') := by
      rw [createThread, hal]
      rfl
    exact ⟨t, b, _, hcreate, Or.inl (H.linked hcreate ht hb)⟩

end

/-- The kernel's heap after `init_multitasking`, when one block has been asked for
that takes what is left. -/
theorem kernelHeap_full : ∃ s k', (taskLts kernelHeap 0x100000 0x300009).Run
      [.kmalloc 1048506 0x300046] s ∧ allocThread s.kernel = some (0, 0, k') ∧
    k'.nextThreadId = 1 ∧ s.kernel.nextThreadId = 1 ∧
    (setupThread 0x100000 0x100100 0 0 k').next 0x300009 = 0 := by
  have hrun : ((initMultitasking (freshKernel kernelHeap fun _ => 0)).bind fun k =>
      (kmalloc 1048506 k.heap).bind fun r =>
        (allocThread { k with heap := r.2 }).map fun q =>
          [k.taskListHead, r.1, q.1, q.2.1, q.2.2.nextThreadId, k.nextThreadId,
            (setupThread 0x100000 0x100100 0 0 q.2.2).next 0x300009])
      = some [0x300009, 0x300046, 0, 0, 1, 1, 0] := by decide +kernel
  obtain ⟨k, hinit, hrun⟩ := Option.bind_eq_some_iff.mp hrun
  obtain ⟨⟨p, h'⟩, hmalloc, hrun⟩ := Option.bind_eq_some_iff.mp hrun
  obtain ⟨⟨t, b, k'⟩, hal, hrun⟩ := Option.map_eq_some_iff.mp hrun
  simp only [List.cons.injEq, and_true] at hrun
  obtain ⟨hhead, rfl, rfl, rfl, hid', hid, hnext⟩ := hrun
  have hstart : (taskLts kernelHeap 0x100000 0x300009).Run [] ⟨k, [(0x300009, tcbSize)], []⟩ :=
    .start ⟨fun _ => 0, k, hinit, hhead, rfl⟩
  exact ⟨_, k', hstart.snoc (TaskStep.kmalloc (by decide) hmalloc), hal, hid', hid, hnext⟩

theorem allOrNothing_iff_kernelHeap :
    ∃ (s : TaskSys) (cs : List Chunk), HeapInv kernelHeap ⟨s.kernel.heap, s.live⟩ cs ∧
      (AllOrNothing kernelHeap 0x100000 0x300009 s 0x100100 ↔ ThreadRoom cs) := by
  obtain ⟨s, _, hrun, _⟩ := kernelHeap_full
  exact ⟨s, allOrNothing_iff kernelHeap 0x100000 ⟨_, hrun⟩ 0x100100⟩

/-- On the full heap `create_thread` links a thread at address zero: the head's
link is null, and the id has been used up. -/
theorem not_allOrNothing : ∃ s k', (taskLts kernelHeap 0x100000 0x300009).Reachable s ∧
    createThread (0x100000#32).toNat (0x100100#32).toNat s.kernel = some (0, 0, k') ∧
    k'.next 0x300009 = 0 ∧ k'.nextThreadId = 2 ∧ s.kernel.nextThreadId = 1 ∧
    ¬ AllOrNothing kernelHeap 0x100000 0x300009 s 0x100100 := by
  obtain ⟨s, k', hrun, hal, hid', hid, hnext⟩ := kernelHeap_full
  refine ⟨s, setupThread 0x100000 0x100100 0 0 k', ⟨_, hrun⟩, ?_, hnext, ?_, hid, ?_⟩
  · rw [createThread, hal]
    rfl
  · show add32 k'.nextThreadId 1 = 2
    rw [hid']
    rfl
  · exact not_allOrNothing_of_null hal (hid'.trans hid.symm) fun h => h.1 rfl

end Antagonist
