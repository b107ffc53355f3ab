import Antagonist.Heap.Contract

/-!
# The alignment of heap pointers

A header is nine bytes long, so the first block of a heap that starts on a page lies one byte past
a multiple of four.  Up to that block the heap is as `init_heap` made it: one free chunk, which a
request takes when it is not too large.  So the pointers of a run are aligned exactly when the run
gets none (`kmalloc_aligned_iff`).

* `alignLts`: `init_heap` with any pages, `kmalloc`, and `kfree` of live pointers.
* `Takes`: the request finds room in a heap that nothing was taken from.
* `Untouched`: the heap as `init_heap` made it.
-/

namespace Antagonist

open ByteMem Tiling

/-- A call of the heap, with the pointer that `kmalloc` returned. -/
inductive HeapCall
  | initHeap (start pages : Nat)
  | kmalloc (n p : Nat)
  | kfree (p : Nat)

/-- The heap, and the pointers returned since `init_heap` and not freed. -/
structure AlignSys where
  heap : Heap
  live : List Nat

inductive AlignStep : AlignSys → HeapCall → AlignSys → Prop
  | initHeap {s : AlignSys} {start pages : Nat} : start % 4096 = 0 → start < 2 ^ 32 →
      pages < 2 ^ 32 → AlignStep s (.initHeap start pages) ⟨initHeap s.heap.mem start pages, []⟩
  | kmalloc {s : AlignSys} {n p : Nat} {h' : Heap} : n < 2 ^ 32 →
      kmalloc n s.heap = some (p, h') →
      AlignStep s (.kmalloc n p) ⟨h', if p = 0 then s.live else p :: s.live⟩
  | kfree {s : AlignSys} {p : Nat} {h' : Heap} : (p = 0 ∨ p ∈ s.live) → kfree p s.heap = some h' →
      AlignStep s (.kfree p) ⟨h', s.live.erase p⟩

/-- All runs from a kernel whose `heap_start` is null. -/
def alignLts : Lts AlignSys HeapCall where
  init s := s.heap.heapStart = 0 ∧ s.live = []
  step := AlignStep

/-- Every pointer that `kmalloc` returned, unless it is null, is a multiple of four. -/
def PointersAligned (tr : List HeapCall) : Prop := ∀ n p, .kmalloc n p ∈ tr → p ≠ 0 → p % 4 = 0

def lastInit (tr : List HeapCall) : Option (Nat × Nat) :=
  tr.foldl (fun r call => match call with
    | .initHeap start pages => some (start, pages)
    | _ => r) none

/-- What `init_heap` writes as the size of its one chunk. -/
def initialSize (pages : Nat) : Nat := sub32 (pages * pageSize % 2 ^ 32) headerSize

/-- The heap starts at an address other than null, and its one chunk has room for the request. -/
def Takes (region : Option (Nat × Nat)) (n : Nat) : Prop :=
  ∃ start pages, region = some (start, pages) ∧ start ≠ 0 ∧ n ≤ initialSize pages

/-- No request of the run finds room. -/
def AllTooLarge (tr : List HeapCall) : Prop :=
  ∀ pre n p post, tr = pre ++ .kmalloc n p :: post → ¬ Takes (lastInit pre) n

/-! ### The heap that nothing was taken from -/

/-- The heap is as the last `init_heap` made it. -/
def Untouched (region : Option (Nat × Nat)) (s : AlignSys) : Prop :=
  s.live = [] ∧ match region with
    | none => s.heap.heapStart = 0
    | some (start, pages) => s.heap.heapStart = start ∧ start % 4096 = 0 ∧
        Header s.heap.mem ⟨start, initialSize pages, true⟩ 0

section

variable {region : Option (Nat × Nat)} {s : AlignSys} {n : Nat}

theorem Untouched.kmalloc_null (H : Untouched region s) (hn : ¬ Takes region n) :
    kmalloc n s.heap = some (0, s.heap) := by
  obtain ⟨_, H⟩ := H
  rw [kmalloc, show walkFuel = 2 ^ 32 - 2 + 1 + 1 from rfl]
  cases region with
  | none =>
    rw [show s.heap.heapStart = 0 from H]
    exact kmallocLoop_null
  | some r =>
    obtain ⟨hstart, _, hhead⟩ := H
    rw [hstart]
    by_cases h0 : r.1 = 0
    · rw [h0]
      exact kmallocLoop_null
    · rw [kmallocLoop_skip hhead h0 fun hfit => hn ⟨r.1, r.2, rfl, h0, hfit.2⟩]
      exact kmallocLoop_null

/-- **A request that finds room gets a pointer one past a multiple of four.** -/
theorem Untouched.kmalloc_takes (H : Untouched region s) (hn : Takes region n) :
    ∃ p h', kmalloc n s.heap = some (p, h') ∧ p % 4 = 1 := by
  obtain ⟨start, pages, rfl, h0, hfit⟩ := hn
  obtain ⟨_, hstart, halign, hhead⟩ := H
  have hrun : ∃ h', kmalloc n s.heap = some (add32 start headerSize, h') := by
    rw [kmalloc, hstart, show walkFuel = 2 ^ 32 - 1 + 1 from rfl, kmallocLoop, if_neg h0,
      if_pos (hhead.fit_iff.mpr ⟨rfl, hfit⟩)]
    exact ⟨_, rfl⟩
  obtain ⟨h', hrun⟩ := hrun
  refine ⟨_, h', hrun, ?_⟩
  simp only [add32, headerSize]
  omega

end

/-! ### Runs -/

theorem lastInit_snoc (tr : List HeapCall) (call : HeapCall) : lastInit (tr ++ [call]) =
    match call with
    | .initHeap start pages => some (start, pages)
    | _ => lastInit tr := by
  rw [lastInit, List.foldl_append]
  rfl

theorem allTooLarge_iff {tr : List HeapCall} : AllTooLarge tr ↔ ∀ pre (r : Nat × Nat) post,
    tr = pre ++ .kmalloc r.1 r.2 :: post → ¬ Takes (lastInit pre) r.1 := by
  simp only [AllTooLarge, Prod.forall]

theorem allTooLarge_snoc (tr : List HeapCall) (call : HeapCall) : AllTooLarge (tr ++ [call]) ↔
    AllTooLarge tr ∧ ∀ n p, call = .kmalloc n p → ¬ Takes (lastInit tr) n := by
  rw [allTooLarge_iff, allTooLarge_iff,
    Lts.forall_split_snoc fun r : Nat × Nat => HeapCall.kmalloc r.1 r.2, Prod.forall]

/-- What a run is like: nothing was taken so far, or some pointer is misaligned. -/
def TakenOrNot (tr : List HeapCall) (s : AlignSys) : Prop :=
  AllTooLarge tr ∧ (∀ n p, .kmalloc n p ∈ tr → p = 0) ∧ Untouched (lastInit tr) s ∨
    ¬ AllTooLarge tr ∧ ∃ n p, .kmalloc n p ∈ tr ∧ p % 4 = 1

theorem allTooLarge_other {tr : List HeapCall} {call : HeapCall} (hall : AllTooLarge tr)
    (hnull : ∀ n p, .kmalloc n p ∈ tr → p = 0) (hcall : ∀ n p, call ≠ .kmalloc n p) :
    AllTooLarge (tr ++ [call]) ∧ ∀ n p, .kmalloc n p ∈ tr ++ [call] → p = 0 := by
  refine ⟨(allTooLarge_snoc tr call).mpr ⟨hall, fun n p h => absurd h (hcall n p)⟩, ?_⟩
  intro n p h
  rcases List.mem_append.mp h with h | h
  · exact hnull n p h
  · exact absurd (List.mem_singleton.mp h).symm (hcall n p)

theorem takenOrNot_untouched {tr : List HeapCall} {s t : AlignSys} {call : HeapCall}
    (hall : AllTooLarge tr) (hnull : ∀ n p, .kmalloc n p ∈ tr → p = 0)
    (H : Untouched (lastInit tr) s) (hs : AlignStep s call t) : TakenOrNot (tr ++ [call]) t := by
  rw [TakenOrNot, lastInit_snoc]
  cases hs with
  | @initHeap start pages halign hlt _ =>
    have hcall : ∀ n p, HeapCall.initHeap start pages ≠ .kmalloc n p := by
      intro n p h
      cases h
    obtain ⟨hall', hnull'⟩ := allTooLarge_other hall hnull hcall
    refine Or.inl ⟨hall', hnull', rfl, rfl, halign, ?_⟩
    exact header_initHeap _ _ (by simp only [headerSize]; omega)
  | @kmalloc n p h' _ hrun =>
    by_cases hn : Takes (lastInit tr) n
    · obtain ⟨p', h'', hrun', hp⟩ := H.kmalloc_takes hn
      obtain ⟨rfl, rfl⟩ := Prod.mk.inj (Option.some.inj (hrun.symm.trans hrun'))
      exact Or.inr ⟨fun h => ((allTooLarge_snoc _ _).mp h).2 n _ rfl hn, n, _, by simp, hp⟩
    · obtain ⟨rfl, rfl⟩ := Prod.mk.inj (Option.some.inj (hrun.symm.trans (H.kmalloc_null hn)))
      refine Or.inl ⟨(allTooLarge_snoc _ _).mpr ⟨hall, ?_⟩, ?_, H⟩
      · intro n' p' h
        cases h
        exact hn
      · intro n' p' h
        rcases List.mem_append.mp h with h | h
        · exact hnull n' p' h
        · cases List.mem_singleton.mp h
          rfl
  | @kfree p h' hp hrun =>
    -- no pointer is live, so it is null that is freed
    have h0 : p = 0 := hp.resolve_right (by rw [H.1]; exact List.not_mem_nil)
    rw [kfree, if_pos h0] at hrun
    obtain rfl := Option.some.inj hrun
    have hcall : ∀ n p', HeapCall.kfree p ≠ .kmalloc n p' := by
      intro n p' h
      cases h
    obtain ⟨hall', hnull'⟩ := allTooLarge_other hall hnull hcall
    refine Or.inl ⟨hall', hnull', ?_⟩
    rw [H.1]
    exact ⟨rfl, H.2⟩

theorem takenOrNot_of_run {tr : List HeapCall} {s : AlignSys} (h : alignLts.Run tr s) :
    TakenOrNot tr s := by
  refine h.traceInvariant (I := TakenOrNot) ?_ ?_
  · intro s h0
    refine Or.inl ⟨?_, fun _ _ h => absurd h List.not_mem_nil, h0.2, h0.1⟩
    intro pre n p post he
    cases pre <;> cases he
  · intro tr s call t _ ih hs
    rcases ih with ⟨hall, hnull, H⟩ | ⟨hnot, n, p, hmem, hp⟩
    · exact takenOrNot_untouched hall hnull H hs
    · exact Or.inr ⟨fun h => hnot ((allTooLarge_snoc tr call).mp h).1, n, p,
        List.mem_append_left _ hmem, hp⟩

/-- **The pointers of a run are aligned** exactly when no request finds room. -/
theorem kmalloc_aligned_iff {tr : List HeapCall} {s : AlignSys} (h : alignLts.Run tr s) :
    PointersAligned tr ↔ AllTooLarge tr := by
  rcases takenOrNot_of_run h with ⟨hall, hnull, _⟩ | ⟨hnot, n, p, hmem, hp⟩
  · exact iff_of_true (fun n p hmem hp => absurd (hnull n p hmem) hp) hall
  · refine iff_of_false ?_ hnot
    intro haligned
    have := haligned n p hmem (by omega)
    omega

/-- The heap of the kernel, and the first thread control block. -/
theorem alignLts_kernelHeap :
    ∃ s, alignLts.Run [.initHeap 0x300000 256, .kmalloc 52 0x300009] s := by
  have h0 : alignLts.Run [] ⟨⟨fun _ => 0, 0, false⟩, []⟩ := Lts.Run.start ⟨rfl, rfl⟩
  have hinit : AlignStep ⟨⟨fun _ => 0, 0, false⟩, []⟩ (.initHeap 0x300000 256)
      ⟨initHeap (fun _ => 0) 0x300000 256, []⟩ :=
    .initHeap (by decide) (by decide) (by decide)
  have hrun : (kmalloc 52 (initHeap (fun _ => 0) 0x300000 256)).map Prod.fst = some 0x300009 := by
    decide +kernel
  obtain ⟨⟨p, h'⟩, hk, rfl⟩ := Option.map_eq_some_iff.mp hrun
  exact ⟨_, (h0.snoc hinit).snoc (AlignStep.kmalloc (by decide) hk)⟩

theorem kmalloc_aligned_iff_kernelHeap :
    ¬ PointersAligned [.initHeap 0x300000 256, .kmalloc 52 0x300009] ∧
    ∃ s, alignLts.Run [.initHeap 0x300000 256, .kmalloc 52 0x300009] s ∧
      (PointersAligned [.initHeap 0x300000 256, .kmalloc 52 0x300009] ↔
        AllTooLarge [.initHeap 0x300000 256, .kmalloc 52 0x300009]) := by
  obtain ⟨s, hs⟩ := alignLts_kernelHeap
  refine ⟨?_, s, hs, kmalloc_aligned_iff hs⟩
  intro h
  exact absurd (h 52 0x300009 (by simp) (by decide)) (by decide)

/-- The first block of the kernel's heap is not aligned. -/
theorem not_pointersAligned :
    ¬ ∀ (tr : List HeapCall) (s : AlignSys), alignLts.Run tr s → PointersAligned tr := by
  intro hall
  obtain ⟨s, hs⟩ := alignLts_kernelHeap
  exact absurd (hall _ s hs 52 0x300009 (by simp) (by decide)) (by decide)

end Antagonist
