import Antagonist.Task.Ring

/-!
# Round robin

`taskLts` is `init_multitasking` on a fresh heap and what can follow it: threads
are created, the running one switches, and all of them use the heap and memory
as they like, except for the thread control blocks.

It is simulated by the round robin of `Lib/RoundRobin.lean`
(`task_simulation`), so what holds of turns there holds of `running_task` here.
-/

namespace Antagonist

open ByteMem Tiling LinkRing RoundRobin

/-- The kernel, the live blocks of its heap, and the threads created since
`init_multitasking`, the newest first. -/
structure TaskSys where
  kernel : Kernel
  live : List (Nat × Nat)
  created : List Nat

/-- What happens.  `create` and `switchTo` name the thread that is new and the one
that becomes `running_task`. -/
inductive TaskOp
  | store
  | kmalloc (n p : Nat)
  | kfree (p : Nat)
  | create (t : Nat)
  | switchTo (t : Nat)
  | stay

/-- One step.  `store` is any change of memory outside the heap and in live blocks
that are no thread control blocks; it covers the stacks too.  `switchTo` stores
some stack pointer into the block of the thread that is left. -/
inductive TaskStep (R : HeapRegion) (bootstrap : BitVec 32) (task0 : Nat) :
    TaskSys → TaskOp → TaskSys → Prop
  | store {s : TaskSys} {m' : Mem} :
      (∀ x, R.start ≤ x → x < R.stop →
        (∀ b ∈ s.live, b.1 ∉ task0 :: s.created → ¬ InBlock b x) → m' x = s.kernel.heap.mem x) →
      TaskStep R bootstrap task0 s .store
        { s with kernel := { s.kernel with heap := { s.kernel.heap with mem := m' } } }
  | kmalloc {s : TaskSys} {n p : Nat} {h' : Heap} : n < 2 ^ 32 →
      kmalloc n s.kernel.heap = some (p, h') →
      TaskStep R bootstrap task0 s (.kmalloc n p)
        { s with
          kernel := { s.kernel with heap := h' }
          live := if p = 0 then s.live else (p, n) :: s.live }
  | kfree {s : TaskSys} {p : Nat} {h' : Heap} : (p = 0 ∨ ∃ n, (p, n) ∈ s.live) →
      p ∉ task0 :: s.created → kfree p s.kernel.heap = some h' →
      TaskStep R bootstrap task0 s (.kfree p)
        { s with
          kernel := { s.kernel with heap := h' }
          live := s.live.filter fun b => decide (b.1 ≠ p) }
  | create {s : TaskSys} {entry : BitVec 32} {t b : Nat} {k' : Kernel} :
      createThread bootstrap.toNat entry.toNat s.kernel = some (t, b, k') → t ≠ 0 → b ≠ 0 →
      TaskStep R bootstrap task0 s (.create t)
        ⟨k', (b, stackSize) :: (t, tcbSize) :: s.live, t :: s.created⟩
  | switchTo {s : TaskSys} {oldEspSlot newEsp esp : Nat} {k' : Kernel} :
      switchTask s.kernel = some (oldEspSlot, newEsp, k') →
      TaskStep R bootstrap task0 s (.switchTo k'.runningTask)
        { s with kernel := k'.store oldEspSlot esp }
  | stay {s : TaskSys} : switchTask s.kernel = none → TaskStep R bootstrap task0 s .stay s

/-- The kernel before `init_multitasking`, with a fresh heap. -/
def freshKernel (R : HeapRegion) (m : Mem) : Kernel := ⟨initHeap m R.start R.pages, 0, 0, 1⟩

/-- All runs after `init_multitasking`, which has put task 0 at `task0`. -/
def taskLts (R : HeapRegion) (bootstrap : BitVec 32) (task0 : Nat) : Lts TaskSys TaskOp where
  init s := ∃ m k, initMultitasking (freshKernel R m) = some k ∧ k.taskListHead = task0 ∧
    s = ⟨k, [(task0, tcbSize)], []⟩
  step := TaskStep R bootstrap task0

/-- What the steps mean for the ring. -/
def taskEvent : TaskOp → Option (Event Nat)
  | .create t => some (.enter t)
  | .switchTo t => some (.turn t)
  | _ => none

/-- The state of the kernel and the ring of round robin. -/
structure TaskRel (R : HeapRegion) (task0 : Nat) (s : TaskSys) (l : List Nat) : Prop where
  heapInv : ∃ cs, HeapInv R ⟨s.kernel.heap, s.live⟩ cs
  live : ∀ t ∈ task0 :: s.created, (t, tcbSize) ∈ s.live
  ring : TaskRing s.kernel task0 s.created
  turn : Turn s.kernel task0 s.created l

section

variable {R : HeapRegion} {bootstrap : BitVec 32} {task0 : Nat}

/-- **`init_multitasking` on a fresh heap** makes a ring of one. -/
theorem initMultitasking_spec {m : Mem} {k : Kernel}
    (h : initMultitasking (freshKernel R m) = some k) :
    (∃ cs, HeapInv R ⟨k.heap, [(k.taskListHead, tcbSize)]⟩ cs) ∧ TaskRing k k.taskListHead [] := by
  have H := heapInv_init R m
  obtain ⟨p, h1, hm1, ⟨cs1, H1, _⟩, _⟩ := H.kmalloc tcbSize
  have hp : p ≠ 0 := by
    rcases (HeapAt.init R m).kmalloc tcbSize with ⟨hnone, _⟩ | ⟨a, cs', m', hal, hrun, _, _⟩
    · have hfree := alloc_eq_none.mp hnone _ (List.mem_singleton.mpr rfl) rfl
      have hpages := R.pages_pos
      simp only [pageSize, headerSize, tcbSize] at hfree
      omega
    · rw [hm1] at hrun
      have := (Prod.mk.inj (Option.some.inj hrun)).1
      simp only [headerSize] at this
      omega
  rw [if_neg hp] at H1
  have hmem : (p, tcbSize) ∈ [(p, tcbSize)] := List.mem_singleton.mpr rfl
  have htop := (H1.top hmem).2
  have hin := H1.block_inside hmem
  have hstop := R.stop_lt
  simp only [tcbSize] at htop hin
  simp only [initMultitasking, freshKernel, hm1, Option.map_some, Option.some.injEq] at h
  subst h
  refine ⟨⟨cs1, H1.stores fun x _ _ hx => ?_⟩, ?_⟩
  · have hout : ∀ (m : Mem) (a v : Nat), p ≤ a → a + 4 ≤ p + 52 → store32 m a v x = m x := by
      intro m a v h1 h2
      have hxb := hx _ hmem
      simp only [InBlock, tcbSize] at hxb
      apply store32_apply_out m v
      simp only [Off]
      omega
    simp only [Kernel.setEntry, Kernel.setEsp, Kernel.setId, Kernel.store]
    rw [hout, hout, hout, hout] <;> omega
  · have hnext : ∀ m : Mem, load32 (store32 m (p + 48) p) (p + 48) = p :=
      fun m => load32_store32_same m _ (by omega)
    have hid : ∀ m : Mem, load32 (store32 (store32 (store32 (store32 m p 0) (p + 4) 0) (p + 8) 0)
        (p + 48) p) p = 0 := by
      intro m
      rw [load32_store32_disjoint, load32_store32_disjoint, load32_store32_disjoint,
        load32_store32_same] <;> omega
    refine ⟨rfl, isRing_singleton.mpr (hnext _), List.mem_singleton.mpr rfl, hid _, rfl, rfl,
      List.nodup_singleton p, ?_⟩
    intro t ht
    rw [List.mem_singleton.mp ht]
    simp only [tcbSize]
    omega

/-- A store that misses the blocks of the threads leaves their fields alone. -/
theorem TaskRing.fields_of_live {k k' : Kernel} {created : List Nat} (H : TaskRing k task0 created)
    (hm : ∀ t ∈ task0 :: created, ∀ x, t ≤ x → x < t + tcbSize → k'.heap.mem x = k.heap.mem x) :
    ∀ t ∈ task0 :: created, k'.next t = k.next t ∧ k'.id t = k.id t := by
  intro t ht
  have hf := fields_of_bytes (Nat.le_of_lt (H.fits t ht).2) (hm t ht)
  exact ⟨hf.2.2.2, hf.1⟩

/-- The stack pointer slot of a thread holds neither its link nor its id, nor
those of another thread. -/
theorem TaskRing.fields_of_setEsp {k k' : Kernel} {created : List Nat} {live : List (Nat × Nat)}
    {cs : List Chunk} {h : Heap} (H : TaskRing k task0 created) (HI : HeapInv R ⟨h, live⟩ cs)
    (hlive : ∀ t ∈ task0 :: created, (t, tcbSize) ∈ live) {u esp : Nat}
    (hu : u ∈ task0 :: created) (hk : k'.heap.mem = store32 k.heap.mem (u + 4) esp) :
    ∀ t ∈ task0 :: created, k'.next t = k.next t ∧ k'.id t = k.id t := by
  intro t ht
  have h1 := (H.fits t ht).2
  have h2 := (H.fits u hu).2
  simp only [Kernel.next, Kernel.id, Kernel.load, hk]
  simp only [tcbSize] at h1 h2
  by_cases he : t = u
  · rw [he]
    exact ⟨load32_store32_disjoint _ _ (by omega) (by omega) (by omega),
      load32_store32_disjoint _ _ (by omega) (by omega) (by omega)⟩
  · have hsep := HI.separate (hlive t ht) (hlive u hu) he
    simp only [Separate, tcbSize] at hsep
    exact ⟨load32_store32_disjoint _ _ (by omega) (by omega) (by omega),
      load32_store32_disjoint _ _ (by omega) (by omega) (by omega)⟩

theorem Turn.of_running {k k' : Kernel} {created l : List Nat} (T : Turn k task0 created l)
    (h : k'.runningTask = k.runningTask) : Turn k' task0 created l := by
  obtain ⟨v, w, hring, hl⟩ := T
  exact ⟨v, w, by rw [h, hring], by rw [h, hl]⟩

/-! ### What each step does to the ring -/

variable {s : TaskSys} {l : List Nat}

/-- Stores keep the ring: they miss the blocks of the threads. -/
theorem TaskRel.store (H : TaskRel R task0 s l) {m' : Mem}
    (hm : ∀ x, R.start ≤ x → x < R.stop →
      (∀ b ∈ s.live, b.1 ∉ task0 :: s.created → ¬ InBlock b x) → m' x = s.kernel.heap.mem x) :
    TaskRel R task0
      { s with kernel := { s.kernel with heap := { s.kernel.heap with mem := m' } } } l := by
  obtain ⟨cs, HI⟩ := H.heapInv
  have hblocks : ∀ t ∈ task0 :: s.created, ∀ x, t ≤ x → x < t + tcbSize →
      m' x = s.kernel.heap.mem x := by
    intro t ht x h1 h2
    have hin := HI.block_inside (H.live t ht)
    simp only at hin
    apply hm x (by omega) (by omega)
    intro b hb hbt hx
    -- a block that is no thread control block is apart from this one
    have hsep := HI.separate (H.live t ht) hb fun he => hbt (he ▸ ht)
    simp only [Separate, InBlock] at hsep hx
    omega
  refine ⟨⟨cs, HI.stores fun x h1 h2 hx => hm x h1 h2 fun b hb _ => hx b hb⟩, H.live, ?_,
    H.turn.of_running rfl⟩
  exact H.ring.congr (H.ring.fields_of_live hblocks) rfl H.ring.running rfl

theorem TaskRel.kmalloc (H : TaskRel R task0 s l) {n p : Nat} {h' : Heap}
    (hrun : Antagonist.kmalloc n s.kernel.heap = some (p, h')) :
    TaskRel R task0
      { s with
        kernel := { s.kernel with heap := h' }
        live := if p = 0 then s.live else (p, n) :: s.live } l := by
  obtain ⟨cs, HI⟩ := H.heapInv
  obtain ⟨q, h1, hrun', ⟨cs', HI', _⟩, hF⟩ := HI.kmalloc n
  rw [hrun] at hrun'
  obtain ⟨rfl, rfl⟩ := Prod.mk.inj (Option.some.inj hrun')
  refine ⟨⟨cs', HI'⟩, fun t ht => ?_, ?_, H.turn.of_running rfl⟩
  · show (t, tcbSize) ∈ if p = 0 then s.live else (p, n) :: s.live
    split
    · exact H.live t ht
    · exact List.mem_cons_of_mem _ (H.live t ht)
  · exact H.ring.congr (H.ring.fields_of_live fun t ht x h1 h2 => hF _ (H.live t ht) x ⟨h1, h2⟩)
      rfl H.ring.running rfl

theorem TaskRel.kfree (H : TaskRel R task0 s l) {p : Nat} {h' : Heap}
    (hp : p = 0 ∨ ∃ n, (p, n) ∈ s.live) (hnot : p ∉ task0 :: s.created)
    (hrun : Antagonist.kfree p s.kernel.heap = some h') :
    TaskRel R task0
      { s with
        kernel := { s.kernel with heap := h' }
        live := s.live.filter fun b => decide (b.1 ≠ p) } l := by
  obtain ⟨cs, HI⟩ := H.heapInv
  obtain ⟨h1, hrun', ⟨cs', HI', _⟩, hF⟩ := HI.kfree hp
  rw [hrun] at hrun'
  obtain rfl := Option.some.inj hrun'
  have hne : ∀ t ∈ task0 :: s.created, t ≠ p := fun t ht he => hnot (he ▸ ht)
  refine ⟨⟨cs', HI'⟩, fun t ht => ?_, ?_, H.turn.of_running rfl⟩
  · exact List.mem_filter.mpr ⟨H.live t ht, decide_eq_true (hne t ht)⟩
  · exact H.ring.congr
      (H.ring.fields_of_live fun t ht x h1 h2 => hF _ (H.live t ht) (hne t ht) x ⟨h1, h2⟩)
      rfl H.ring.running rfl

/-- With both blocks at hand `create_thread` sets up the new ones. -/
theorem TaskRel.created (H : TaskRel R task0 s l) {entry : BitVec 32} {t b : Nat}
    {k' : Kernel} (hrun : createThread bootstrap.toNat entry.toNat s.kernel = some (t, b, k'))
    (ht : t ≠ 0) (hb : b ≠ 0) :
    ∃ k₁, allocThread s.kernel = some (t, b, k₁) ∧
      k' = setupThread bootstrap.toNat entry.toNat t b k₁ ∧
      (∃ cs, HeapInv R ⟨k'.heap, (b, stackSize) :: (t, tcbSize) :: s.live⟩ cs) ∧
      Allocated s.kernel k₁ s.live t b ∧
      Created s.kernel k' s.live bootstrap.toNat entry.toNat t b := by
  obtain ⟨cs, HI⟩ := H.heapInv
  obtain ⟨⟨t, b, k₁⟩, hal, hset⟩ := Option.map_eq_some_iff.mp hrun
  simp only [Prod.mk.injEq] at hset
  obtain ⟨rfl, rfl, rfl⟩ := hset
  have hroom := length_le_of_fits H.ring.nodup H.ring.fits
  simp only [List.length_cons, tcbSize] at hroom
  have hid : s.kernel.nextThreadId < 2 ^ 32 := by
    rw [H.ring.nextThreadId]
    omega
  have hhead : (s.kernel.taskListHead, tcbSize) ∈ s.live := by
    rw [H.ring.head]
    exact H.live task0 List.mem_cons_self
  have hfits : ∀ blk ∈ s.live, blk.1 + blk.2 < 2 ^ 32 := fun blk hblk => (HI.top hblk).2
  obtain ⟨⟨cs₁, HI₁⟩, A⟩ := allocThread_spec HI (fun blk hblk => Or.inl hblk) hal ht hb
  refine ⟨k₁, hal, rfl, ⟨cs₁, ?_⟩, A, createThread_spec A hhead hfits hid⟩
  exact HI₁.setupThread (A.setUp hhead hfits hid) (by rw [A.globals]; exact hhead)

theorem TaskRel.separate (H : TaskRel R task0 s l) :
    ∀ u ∈ s.created, Separate u tcbSize task0 tcbSize := by
  intro u hu
  obtain ⟨cs, HI⟩ := H.heapInv
  apply HI.separate (H.live u (List.mem_cons_of_mem _ hu)) (H.live task0 List.mem_cons_self)
  exact fun he => (List.nodup_cons.mp H.ring.nodup).1 (he ▸ hu)

theorem TaskRel.create (H : TaskRel R task0 s l) {entry : BitVec 32} {t b : Nat} {k' : Kernel}
    (hrun : createThread bootstrap.toNat entry.toNat s.kernel = some (t, b, k'))
    (ht : t ≠ 0) (hb : b ≠ 0) : ∃ l', Step l (.enter t) l' ∧
      TaskRel R task0 ⟨k', (b, stackSize) :: (t, tcbSize) :: s.live, t :: s.created⟩ l' := by
  obtain ⟨k₁, _, _, hheap, A, C⟩ := H.created hrun ht hb
  have hring := H.ring.create H.live H.separate A C
  obtain ⟨l', hstep, hturn⟩ := H.turn.create (A.not_mem H.live) C.runningTask
  refine ⟨l', hstep, hheap, ?_, hring, hturn⟩
  intro u hu
  simp only [List.mem_cons] at hu ⊢
  rcases hu with hu | hu | hu
  · exact Or.inr (Or.inr (H.live u (by rw [hu]; exact List.mem_cons_self)))
  · exact Or.inr (Or.inl (by rw [hu]))
  · exact Or.inr (Or.inr (H.live u (List.mem_cons_of_mem _ hu)))

theorem TaskRel.switchTo (H : TaskRel R task0 s l) {oldEspSlot newEsp : Nat} (esp : Nat)
    {k' : Kernel} (hrun : switchTask s.kernel = some (oldEspSlot, newEsp, k')) :
    ∃ l', Step l (.turn k'.runningTask) l' ∧
      TaskRel R task0 { s with kernel := k'.store oldEspSlot esp } l' := by
  obtain ⟨cs, HI⟩ := H.heapInv
  rcases switchTask_spec H.ring with ⟨_, hnone⟩ | ⟨hne, hsome⟩
  · rw [hrun] at hnone
    cases hnone
  rw [hrun] at hsome
  obtain ⟨rfl, hrest⟩ := Prod.mk.inj (Option.some.inj hsome)
  obtain ⟨rfl, rfl⟩ := Prod.mk.inj hrest
  have hmoved : (({ s.kernel with runningTask := s.kernel.next s.kernel.runningTask } :
      Kernel).store (s.kernel.runningTask + 4) esp).runningTask
      = s.kernel.next s.kernel.runningTask := rfl
  obtain ⟨l', hstep, hturn⟩ := H.turn.switch H.ring hne hmoved
  have hslot : (s.kernel.runningTask, tcbSize) ∈ s.live := H.live _ H.ring.running
  have hbound := (H.ring.fits _ H.ring.running).2
  refine ⟨l', hstep, ⟨cs, HI.stores fun x _ hx hfree => ?_⟩, H.live, ?_, hturn⟩
  · -- the slot lies in the block of the thread that is left
    have hxb := hfree _ hslot
    have hin := HI.block_inside hslot
    have hstop := R.stop_lt
    simp only [InBlock, tcbSize] at hxb hin hbound
    apply store32_apply_out
    show 4 ≤ Off (s.kernel.runningTask + 4) x
    simp only [Off]
    omega
  · exact H.ring.congr (H.ring.fields_of_setEsp HI H.live H.ring.running rfl) rfl
      hturn.running_mem rfl

/-- **The threads take turns.** -/
theorem task_simulation (R : HeapRegion) (bootstrap : BitVec 32) (task0 : Nat) :
    Lts.Simulation (taskLts R bootstrap task0) (RoundRobin.lts task0) taskEvent
      (TaskRel R task0) := by
  refine ⟨?_, ?_⟩
  · rintro _ ⟨m, k, hk, rfl, rfl⟩
    obtain ⟨hheap, hring⟩ := initMultitasking_spec hk
    have hrun : k.runningTask = k.taskListHead := List.mem_singleton.mp hring.running
    refine ⟨[k.taskListHead], rfl, hheap, ?_, hring, [], [], ?_, ?_⟩
    · intro t ht
      rw [List.mem_singleton.mp ht]
      exact List.mem_singleton.mpr rfl
    · rw [hrun]
      rfl
    · rw [hrun]
      rfl
  · intro s a s' l _ H hs
    cases hs with
    | store hm => exact Or.inl ⟨rfl, H.store hm⟩
    | kmalloc _ hrun => exact Or.inl ⟨rfl, H.kmalloc hrun⟩
    | kfree hp hnot hrun => exact Or.inl ⟨rfl, H.kfree hp hnot hrun⟩
    | create hrun ht hb =>
      obtain ⟨l', hstep, H'⟩ := H.create hrun ht hb
      exact Or.inr ⟨_, l', rfl, hstep, H'⟩
    | switchTo hrun =>
      obtain ⟨l', hstep, H'⟩ := H.switchTo _ hrun
      exact Or.inr ⟨_, l', rfl, hstep, H'⟩
    | stay _ => exact Or.inl ⟨rfl, H⟩

/-! ### The contract -/

/-- The threads created in a run, the oldest first. -/
def createdIn (tr : List TaskOp) : List Nat :=
  tr.filterMap fun
    | .create t => some t
    | _ => none

/-- What happened to the ring in a run: task 0 is running from the start. -/
def history (task0 : Nat) (tr : List TaskOp) : List (Event Nat) :=
  .turn task0 :: tr.filterMap taskEvent

theorem TaskStep.created {s s' : TaskSys} {a : TaskOp} (h : TaskStep R bootstrap task0 s a s') :
    s'.created = (createdIn [a]).reverse ++ s.created := by
  cases h <;> rfl

theorem created_of_run {tr : List TaskOp} {s : TaskSys}
    (h : (taskLts R bootstrap task0).Run tr s) : s.created = (createdIn tr).reverse := by
  refine h.traceInvariant (I := fun tr s => s.created = (createdIn tr).reverse) ?_ ?_
  · rintro _ ⟨m, k, _, _, rfl⟩
    rfl
  · intro tr s a s' _ ih hs
    rw [hs.created, ih, createdIn, createdIn, createdIn, List.filterMap_append,
      List.reverse_append]

/-- What the threads rely on, after a run `tr` that ends in `k`. -/
structure TaskContract (task0 : Nat) (tr : List TaskOp) (k : Kernel) : Prop where
  /-- From the head, `next` visits task 0 and every created thread once and
  comes back. -/
  ring : ∃ l, IsRing k.next l ∧ l.head? = some k.taskListHead ∧ l.Nodup ∧
    l.Perm (task0 :: createdIn tr) ∧ k.runningTask ∈ l ∧ (l.map k.id).Nodup
  count : getThreadCount k = some (1 + (createdIn tr).length)
  /-- Between two turns of `x` every other thread that was in the ring has one
  turn, and every thread created meanwhile at most one. -/
  between : ∀ x A B C, history task0 tr = A ++ .turn x :: (B ++ .turn x :: C) → .turn x ∉ B →
    (∀ y, y ≠ x → (y = task0 ∨ .enter y ∈ A) → B.count (.turn y) = 1) ∧
      ∀ y, .enter y ∈ B → B.count (.turn y) ≤ 1
  /-- From its creation to its first turn, no thread has two turns. -/
  first : ∀ x A B C, history task0 tr = A ++ .enter x :: (B ++ C) → .turn x ∉ B →
    ∀ y, B.count (.turn y) ≤ 1

/-- **The threads stand in one ring and take turns**, after every run of
`create_thread` and `switch_task`. -/
theorem task_contract (R : HeapRegion) (bootstrap : BitVec 32) {task0 : Nat} {tr : List TaskOp}
    {s : TaskSys} (h : (taskLts R bootstrap task0).Run tr s) :
    TaskContract task0 tr s.kernel := by
  obtain ⟨l, hl, H⟩ := (task_simulation R bootstrap task0).run h
  have hcreated := created_of_run h
  have hring := H.ring
  rw [hcreated] at hring
  have hlen : (createdIn tr).reverse.length = (createdIn tr).length := List.length_reverse
  refine ⟨⟨_, hring.ring, congrArg some hring.head.symm, hring.nodup, ?_, hring.running, ?_⟩,
    ?_, ?_, ?_⟩
  · exact (List.reverse_perm _).cons task0
  · have hids := hring.ids_nodup
    rw [List.reverse_reverse] at hids
    exact (((List.reverse_perm _).cons task0).map s.kernel.id).nodup_iff.mpr hids
  · rw [hring.getThreadCount, hlen]
  · exact fun x A B C hsplit hB => fair_between hl hsplit hB
  · intro x A B C hsplit hB
    -- the first event is the turn of task 0
    cases A with
    | nil => cases (List.cons.inj hsplit).1
    | cons e A => exact fair_first hl (List.cons.inj hsplit).2 hB

end

/-- A run of the kernel: a thread is created, and the kernel switches to it. -/
theorem kernelHeap_thread : ∃ s, (taskLts kernelHeap 0x100000 0x300009).Run
    [.create 0x300046, .switchTo 0x300046] s := by
  have hrun : ((initMultitasking (freshKernel kernelHeap fun _ => 0)).bind fun k =>
      (createThread (0x100000#32).toNat (0x100100#32).toNat k).map fun r =>
        (k.taskListHead, r.1, r.2.1, (switchTask r.2.2).map fun r => r.2.2.runningTask))
      = some (0x300009, 0x300046, 0x300083, some 0x300046) := by decide +kernel
  obtain ⟨k, hinit, hrun⟩ := Option.bind_eq_some_iff.mp hrun
  obtain ⟨⟨t, b, k'⟩, hcreate, hrun⟩ := Option.map_eq_some_iff.mp hrun
  simp only [Prod.mk.injEq] at hrun
  obtain ⟨hhead, rfl, rfl, hrun⟩ := hrun
  obtain ⟨⟨slot, esp, k''⟩, hswitch, hrun⟩ := Option.map_eq_some_iff.mp hrun
  have hstart : (taskLts kernelHeap 0x100000 0x300009).Run [] ⟨k, [(0x300009, tcbSize)], []⟩ :=
    .start ⟨fun _ => 0, k, hinit, hhead, rfl⟩
  have hcreated := hstart.snoc (TaskStep.create hcreate (by decide) (by decide))
  have hmoved : (taskLts kernelHeap 0x100000 0x300009).Run
      ([] ++ [.create 0x300046] ++ [.switchTo k''.runningTask]) ⟨k''.store slot 0, _, _⟩ :=
    hcreated.snoc (.switchTo hswitch)
  rw [show k''.runningTask = 0x300046 from hrun] at hmoved
  exact ⟨_, hmoved⟩

theorem task_contract_kernelHeap :
    ∃ s : TaskSys, TaskContract 0x300009 [.create 0x300046, .switchTo 0x300046] s.kernel :=
  kernelHeap_thread.imp fun _ h => task_contract kernelHeap 0x100000 h

end Antagonist
