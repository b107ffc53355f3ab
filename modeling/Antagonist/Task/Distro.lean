import Antagonist.Lib.Footprint
import Antagonist.Lib.Interrupt
import Antagonist.Lib.Lts

/-!
# The threads of the distribution

`src/threads.cpp` keeps three blocks of its own, apart from the tasks of the kernel: thread 0 is the
supervisor, thread 1 draws and thread 2 thinks.  `create_isolated_thread` builds on the stack of a
block what an interrupt would have left there, and `switch_task` only picks the next number; the
code that would load its stack is not part of the sources.

A `Roster` says which threads have been created, with what entry point, and whose turn it is.

* `BlockHolds`: what a block holds, a matter of the bytes of the block.
* `Follows.step`: each call keeps the blocks to the roster.
* `distro_thread_enters`: **a created thread can be entered**, after any calls.
* `distro_schedule`: **whose turn it is**, after any calls.
-/

namespace Antagonist.Distro

open ByteMem X86 Footprint

/-! ### The pool -/

def maxDistroThreads : Nat := 3

def threadStackSize : Nat := 4096

/-- `sizeof(ThreadControlBlock)`: `thread_id` at 0, `esp_stack_pointer` at 4, `stack_buffer` at 16
and `active_state` at 4112, rounded up to the alignment of the stack. -/
def threadBlockSize : Nat := 4128

/-- Memory with `thread_pool`, and `current_running_thread_id`. -/
structure ThreadPool where
  mem : Mem
  currentRunningThreadId : Word

/-- The addresses of the fields of `thread_pool[i]`. -/
def threadId (pool : Word) (i : Nat) : Nat := pool.toNat + threadBlockSize * i
def espStackPointer (pool : Word) (i : Nat) : Nat := threadId pool i + 4
def stackBuffer (pool : Word) (i : Nat) : Nat := threadId pool i + 16
def activeState (pool : Word) (i : Nat) : Nat := threadId pool i + 4112

/-- `&thread_pool[i].stack_buffer[THREAD_STACK_SIZE]`. -/
def stackTop (pool : Word) (i : Nat) : Word :=
  BitVec.ofNat 32 (stackBuffer pool i + threadStackSize)

/-- A round of the loop of `init_distro_threads`. -/
def clearThread (pool : Word) (m : Mem) (i : Nat) : Mem :=
  let m := store32 m (threadId pool i) i
  let m := store32 m (espStackPointer pool i) 0
  let m := store8 m (activeState pool i) 0
  fillBytes m (stackBuffer pool i) 0 threadStackSize

def initDistroThreads (pool : Word) (s : ThreadPool) : ThreadPool where
  mem := (List.range maxDistroThreads).foldl (clearThread pool) s.mem
  currentRunningThreadId := 0

/-- `stack_top--; *stack_top = v;` -/
def pushWord (stack : Mem × Word) (v : Word) : Mem × Word :=
  (storeW stack.1 (stack.2 - 4) v, stack.2 - 4)

/-- `create_isolated_thread`.  The entry point may be a null pointer. -/
def createIsolatedThread (pool : Word) (id entryPoint : Word) (s : ThreadPool) : ThreadPool :=
  if maxDistroThreads ≤ id.toNat ∨ entryPoint = 0 then s
  else
    let stack := (s.mem, stackTop pool id.toNat)
    let stack := pushWord stack 0x0202
    let stack := pushWord stack 0x08
    let stack := pushWord stack entryPoint
    let stack := (List.range 8).foldl (fun stack _ => pushWord stack 0) stack
    let m := store32 stack.1 (espStackPointer pool id.toNat) stack.2.toNat
    { s with mem := store8 m (activeState pool id.toNat) 1 }

/-- `next_thread_id` of `switch_task`. -/
def nextThreadId (s : ThreadPool) : Word :=
  let next := (s.currentRunningThreadId + 1) % BitVec.ofNat 32 maxDistroThreads
  if next = 0 then 1 else next

def switchTask (pool : Word) (s : ThreadPool) : ThreadPool :=
  if load8 s.mem (activeState pool (nextThreadId s).toNat) = 1 then
    { s with currentRunningThreadId := nextThreadId s }
  else s

/-! ### The roster -/

inductive DistroOp
  | init
  | create (id entryPoint : Word)
  | switchTask
  /-- a store of other code, outside of the pool -/
  | elsewhere
  deriving DecidableEq

/-- The entry points of the created threads, and the number of the running one. -/
structure Roster where
  entries : Nat → Option Word
  running : Nat

namespace Roster

def empty : Roster := ⟨fun _ => none, 0⟩

/-- The next number, which is never zero. -/
def next (a : Roster) : Nat := if a.running = 1 then 2 else 1

def step (a : Roster) : DistroOp → Roster
  | .init => empty
  | .create id entryPoint =>
      if maxDistroThreads ≤ id.toNat ∨ entryPoint = 0 then a
      else { a with entries := Function.update a.entries id.toNat (some entryPoint) }
  | .switchTask => if (a.entries a.next).isSome then { a with running := a.next } else a
  | .elsewhere => a

def ofCalls (calls : List DistroOp) : Roster := calls.foldl step empty

end Roster

/-! ### The blocks -/

/-- The bytes of `thread_pool[i]`, and those of the pool. -/
def blockRegion (pool : Word) (i : Nat) : Region := ⟨threadId pool i, threadBlockSize⟩
def poolRegion (pool : Word) : Region := ⟨pool.toNat, maxDistroThreads * threadBlockSize⟩

/-- The stack of a new thread, as `popa` and `iret` read it. -/
def newFrame (entryPoint : Word) : List Word := List.replicate 8 0 ++ [entryPoint, 0x08, 0x0202]

@[simp] theorem length_newFrame (entryPoint : Word) : (newFrame entryPoint).length = 11 := rfl

/-- Where it begins. -/
def frameStart (pool : Word) (i : Nat) : Word := stackTop pool i - 44

/-- What a block holds of a thread that has been created, and of one that has not. -/
structure BlockHolds (pool : Word) (i : Nat) (entry : Option Word) (m : Mem) : Prop where
  threadId : load32 m (threadId pool i) = i
  active : load8 m (activeState pool i) = if entry.isSome then 1 else 0
  frame : ∀ entryPoint, entry = some entryPoint →
    loadW m (BitVec.ofNat 32 (espStackPointer pool i)) = frameStart pool i ∧
      HoldsFrame m (frameStart pool i) (newFrame entryPoint)

section

variable {pool : Word} {i : Nat} {entry : Option Word} {m m' : Mem}

def Fits (pool : Word) : Prop := pool.toNat + maxDistroThreads * threadBlockSize ≤ 2 ^ 32

instance (pool : Word) : Decidable (Fits pool) := inferInstanceAs (Decidable (_ ≤ _))

theorem Fits.block (hpool : Fits pool) (hi : i < maxDistroThreads) :
    pool.toNat ≤ threadId pool i ∧
      threadId pool i + threadBlockSize ≤ pool.toNat + maxDistroThreads * threadBlockSize ∧
      threadId pool i + threadBlockSize ≤ 2 ^ 32 := by
  simp only [Fits, threadId, threadBlockSize, maxDistroThreads] at *
  omega

theorem fields_eq (pool : Word) (i : Nat) : espStackPointer pool i = threadId pool i + 4 ∧
    stackBuffer pool i = threadId pool i + 16 ∧ activeState pool i = threadId pool i + 4112 ∧
    threadStackSize = 4096 ∧ threadBlockSize = 4128 := ⟨rfl, rfl, rfl, rfl, rfl⟩

theorem toNat_frameStart (hpool : Fits pool) (hi : i < maxDistroThreads) :
    (frameStart pool i).toNat = threadId pool i + 4068 := by
  obtain ⟨_, _, htop⟩ := hpool.block hi
  simp only [threadBlockSize] at htop
  have hstack : (stackTop pool i).toNat = threadId pool i + 4112 := by
    rw [stackTop, BitVec.toNat_ofNat, stackBuffer, threadStackSize]
    omega
  rw [frameStart, BitVec.toNat_sub, hstack]
  show (2 ^ 32 - 44 + (threadId pool i + 4112)) % 2 ^ 32 = _
  omega

theorem blockRegion_apart {j : Nat} (hij : i ≠ j) :
    AllApart [blockRegion pool i] [blockRegion pool j] := by
  intro r hr s hs
  rw [List.mem_singleton.mp hr, List.mem_singleton.mp hs]
  simp only [Region.Apart, blockRegion, threadId, threadBlockSize]
  omega

/-- **A block is a matter of its bytes.** -/
theorem blockHolds_readsOnly (hpool : Fits pool) (hi : i < maxDistroThreads) :
    ReadsOnly [blockRegion pool i] (BlockHolds pool i entry) := by
  intro m m' hsame H
  obtain ⟨_, _, htop⟩ := hpool.block hi
  have hstart := toNat_frameStart hpool hi
  simp only [threadBlockSize] at htop
  have hbytes : ∀ x, threadId pool i ≤ x → x < threadId pool i + 4128 → m' x = m x := by
    intro x h1 h2
    exact hsame x (by omega) ⟨_, List.mem_singleton.mpr rfl, h1, h2⟩
  refine ⟨?_, ?_, ?_⟩
  · refine (load32_of_bytes (by omega) ?_).trans H.threadId
    intro x h1 h2
    exact hbytes x h1 (by omega)
  · rw [← H.active, load8, load8, Nat.mod_eq_of_lt (by simp only [activeState]; omega)]
    exact hbytes _ (by simp only [activeState]; omega) (by simp only [activeState]; omega)
  · intro entryPoint hentry
    obtain ⟨hesp, hframe⟩ := H.frame entryPoint hentry
    have hfield : (BitVec.ofNat 32 (espStackPointer pool i)).toNat = threadId pool i + 4 := by
      rw [BitVec.toNat_ofNat, espStackPointer]
      omega
    refine ⟨?_, hframe.of_bytes (by simp) ?_⟩
    · rw [← hesp]
      exact loadW_of_bytes (by omega) fun x h1 h2 => hbytes x (by omega) (by omega)
    · intro x hx hoff
      simp only [length_newFrame, Off, hstart] at hoff
      exact hbytes x (by omega) (by omega)

/-! ### Clearing -/

theorem changesOnly_inBlock {a n : Nat} (h : ChangesOnly [⟨a, n⟩] m m')
    (hlo : threadId pool i ≤ a) (hhi : a + n ≤ threadId pool i + threadBlockSize) :
    ChangesOnly [blockRegion pool i] m m' := by
  refine h.mono ?_
  intro r hr
  rw [List.mem_singleton.mp hr]
  exact ⟨_, List.mem_singleton.mpr rfl, hlo, hhi⟩

theorem changesOnly_clearThread (hpool : Fits pool) (hi : i < maxDistroThreads) (m : Mem) :
    ChangesOnly [blockRegion pool i] m (clearThread pool m i) := by
  obtain ⟨_, _, htop⟩ := hpool.block hi
  obtain ⟨hesp, hstack, hactive, hsize, hblock⟩ := fields_eq pool i
  rw [clearThread]
  refine (((changesOnly_inBlock (changesOnly_store32 _ _ ?_) ?_ ?_).then
    (changesOnly_inBlock (changesOnly_store32 _ _ ?_) ?_ ?_)).then
    (changesOnly_inBlock (changesOnly_store8 _ _ ?_) ?_ ?_)).then
    (changesOnly_inBlock (changesOnly_fillBytes _ _ ?_) ?_ ?_)
  all_goals omega

/-- **A cleared block.** -/
theorem blockHolds_clearThread (hpool : Fits pool) (hi : i < maxDistroThreads) (m : Mem) :
    BlockHolds pool i none (clearThread pool m i) := by
  obtain ⟨_, _, htop⟩ := hpool.block hi
  obtain ⟨hesp, hstack, hactive, hsize, hblock⟩ := fields_eq pool i
  have hfill : ∀ (m : Mem) (x : Nat), x < stackBuffer pool i ∨ activeState pool i ≤ x →
      fillBytes m (stackBuffer pool i) 0 threadStackSize x = m x := by
    intro m x hx
    rw [fillBytes_apply _ _ (by omega), if_neg (by omega)]
  refine ⟨?_, ?_, fun _ h => nomatch h⟩
  · have hlt : i < 2 ^ 32 := Nat.lt_trans hi (by decide)
    rw [clearThread, load32_of_bytes (by omega) fun x _ _ => hfill _ x (by omega),
      load32_store8_apart, load32_store32_disjoint, load32_store32_same _ _ hlt]
    · omega
    · omega
    · omega
    · simp only [Off]; omega
  · have hbelow : activeState pool i % 2 ^ 32 = activeState pool i := Nat.mod_eq_of_lt (by omega)
    rw [clearThread, load8, hbelow, hfill _ _ (Or.inr (Nat.le_refl _)), store8, if_pos hbelow.symm]
    rfl

theorem blockHolds_init (hpool : Fits pool) (s : ThreadPool) (hi : i < maxDistroThreads) :
    BlockHolds pool i none (initDistroThreads pool s).mem := by
  have hrounds : ∀ n ≤ maxDistroThreads, ∀ i < n,
      BlockHolds pool i none ((List.range n).foldl (clearThread pool) s.mem) := by
    intro n
    induction n with
    | zero => exact fun _ i hi => absurd hi (Nat.not_lt_zero i)
    | succ n ih =>
      intro hn i hi
      rw [List.range_succ, List.foldl_concat]
      by_cases hlast : i = n
      · rw [hlast]
        exact blockHolds_clearThread hpool (by omega) _
      · -- the later blocks are cleared apart from this one
        exact (blockHolds_readsOnly hpool (by omega)).keep
          (changesOnly_clearThread hpool (by omega) _) (blockRegion_apart hlast)
          (ih (by omega) i (by omega))
  simp only [initDistroThreads]
  exact hrounds maxDistroThreads (Nat.le_refl _) i hi

/-! ### A new thread -/

def withFrame (pool : Word) (i : Nat) (entryPoint : Word) (m : Mem) : Mem :=
  (Cpu.pushAll ⟨fun _ => stackTop pool i, 0, m⟩ (newFrame entryPoint).reverse).mem

theorem foldl_pushWord (vs : List Word) (c : Cpu) :
    vs.foldl pushWord (c.mem, c.regs .esp) = ((c.pushAll vs).mem, (c.pushAll vs).regs .esp) := by
  induction vs generalizing c with
  | nil => rfl
  | cons v vs ih =>
    rw [List.foldl_cons, Cpu.pushAll, List.foldl_cons, ← Cpu.pushAll, ← ih (c.push v)]
    rfl

theorem createIsolatedThread_eq {id entryPoint : Word} (hid : id.toNat < maxDistroThreads)
    (hentry : entryPoint ≠ 0) (s : ThreadPool) : createIsolatedThread pool id entryPoint s =
      { s with
        mem := store8 (store32 (withFrame pool id.toNat entryPoint s.mem)
          (espStackPointer pool id.toNat) (frameStart pool id.toNat).toNat)
          (activeState pool id.toNat) 1 } := by
  have hguard : ¬ (maxDistroThreads ≤ id.toNat ∨ entryPoint = 0) :=
    not_or.mpr ⟨Nat.not_le.mpr hid, hentry⟩
  have hpushes := foldl_pushWord (newFrame entryPoint).reverse
    ⟨fun _ => stackTop pool id.toNat, 0, s.mem⟩
  have hesp : (Cpu.pushAll ⟨fun _ => stackTop pool id.toNat, 0, s.mem⟩
      (newFrame entryPoint).reverse).regs .esp = frameStart pool id.toNat := by
    rw [regs_pushAll, if_pos rfl, List.length_reverse]
    rfl
  rw [hesp] at hpushes
  have hstack : (List.range 8).foldl (fun stack _ => pushWord stack 0)
      (pushWord (pushWord (pushWord (s.mem, stackTop pool id.toNat) 0x0202) 0x08) entryPoint) =
      (withFrame pool id.toNat entryPoint s.mem, frameStart pool id.toNat) := hpushes
  rw [createIsolatedThread, if_neg hguard]
  simp only [hstack]

theorem mem_createIsolatedThread {id entryPoint : Word} (hid : id.toNat < maxDistroThreads)
    (hentry : entryPoint ≠ 0) (s : ThreadPool) : (createIsolatedThread pool id entryPoint s).mem =
      store8 (store32 (withFrame pool id.toNat entryPoint s.mem)
        (espStackPointer pool id.toNat) (frameStart pool id.toNat).toNat)
        (activeState pool id.toNat) 1 := by
  rw [createIsolatedThread_eq hid hentry]

theorem changesOnly_withFrame (hpool : Fits pool) (hi : i < maxDistroThreads) (entryPoint : Word)
    (m : Mem) : ChangesOnly [⟨threadId pool i + 4068, 44⟩] m (withFrame pool i entryPoint m) := by
  obtain ⟨_, _, htop⟩ := hpool.block hi
  obtain ⟨_, _, _, _, hblock⟩ := fields_eq pool i
  have hstart := toNat_frameStart hpool hi
  intro x hlt hx
  refine pushAll_mem _ _ x (by simp) ?_
  show 44 ≤ Off (frameStart pool i).toNat x
  by_contra hoff
  refine hx ⟨_, List.mem_singleton.mpr rfl, ?_⟩
  simp only [Off, Region.Contains] at *
  omega

theorem holdsFrame_withFrame (i : Nat) (entryPoint : Word) (m : Mem) :
    HoldsFrame (withFrame pool i entryPoint m) (frameStart pool i) (newFrame entryPoint) :=
  holdsFrame_pushAll ⟨fun _ => stackTop pool i, 0, m⟩ (newFrame entryPoint) (by simp)

section

variable {id entryPoint : Word} (hpool : Fits pool) (hid : id.toNat < maxDistroThreads)
  (hentry : entryPoint ≠ 0) (s : ThreadPool)

include hpool hid hentry

theorem changesOnly_create : ChangesOnly [blockRegion pool id.toNat] s.mem
    (createIsolatedThread pool id entryPoint s).mem := by
  obtain ⟨_, _, htop⟩ := hpool.block hid
  obtain ⟨hesp, _, hactive, _, hblock⟩ := fields_eq pool id.toNat
  rw [mem_createIsolatedThread hid hentry]
  refine ((changesOnly_inBlock (changesOnly_withFrame hpool hid _ _) ?_ ?_).then
    (changesOnly_inBlock (changesOnly_store32 _ _ ?_) ?_ ?_)).then
    (changesOnly_inBlock (changesOnly_store8 _ _ ?_) ?_ ?_)
  all_goals omega

/-- **A created block.** -/
theorem blockHolds_create {before : Option Word} (H : BlockHolds pool id.toNat before s.mem) :
    BlockHolds pool id.toNat (some entryPoint) (createIsolatedThread pool id entryPoint s).mem := by
  obtain ⟨_, _, htop⟩ := hpool.block hid
  obtain ⟨hesp, _, hactive, _, hblock⟩ := fields_eq pool id.toNat
  have hstart := toNat_frameStart hpool hid
  rw [mem_createIsolatedThread hid hentry]
  have hbelow : (BitVec.ofNat 32 (espStackPointer pool id.toNat)).toNat =
      espStackPointer pool id.toNat := by
    rw [BitVec.toNat_ofNat]
    omega
  refine ⟨?_, load8_store8_same _ _ _, ?_⟩
  · rw [load32_store8_apart _ _ (by simp only [Off]; omega),
      load32_store32_disjoint _ _ (by omega) (by omega) (by omega)]
    refine (load32_of_bytes (by omega) ?_).trans H.threadId
    intro x _ _
    refine changesOnly_withFrame hpool hid entryPoint s.mem x (by omega) ?_
    rintro ⟨r, hr, hrx⟩
    rw [List.mem_singleton.mp hr] at hrx
    simp only [Region.Contains] at hrx
    omega
  · intro entryPoint' hsome
    obtain rfl := Option.some.inj hsome
    refine ⟨?_, (holdsFrame_withFrame id.toNat entryPoint s.mem).of_bytes (by simp) ?_⟩
    · rw [loadW, hbelow, load32_store8_apart _ _ (by simp only [Off]; omega),
        load32_store32_same _ _ (frameStart pool id.toNat).isLt, BitVec.ofNat_toNat,
        BitVec.setWidth_eq]
    · intro x hx hoff
      simp only [length_newFrame, Off, hstart] at hoff
      rw [store8_apply_ne _ _ (by omega), store32_apply_out _ _ (by simp only [Off]; omega)]

end

/-! ### The calls -/

variable (pool)

/-- A call, or a store of other code. -/
inductive DistroStep : ThreadPool → DistroOp → ThreadPool → Prop
  | init (s : ThreadPool) : DistroStep s .init (initDistroThreads pool s)
  | create (s : ThreadPool) (id entryPoint : Word) :
      DistroStep s (.create id entryPoint) (createIsolatedThread pool id entryPoint s)
  | switchTask (s : ThreadPool) : DistroStep s .switchTask (switchTask pool s)
  | elsewhere (s : ThreadPool) (m : Mem)
      (h : ∀ x < 2 ^ 32, Covers [poolRegion pool] x → m x = s.mem x) :
      DistroStep s .elsewhere { s with mem := m }

/-- Any calls after `init_distro_threads`. -/
def distroLts : Lts ThreadPool DistroOp where
  init s := ∃ s₀, s = initDistroThreads pool s₀
  step := DistroStep pool

structure Follows (s : ThreadPool) (a : Roster) : Prop where
  blocks : ∀ i < maxDistroThreads, BlockHolds pool i (a.entries i) s.mem
  running : s.currentRunningThreadId = BitVec.ofNat 32 a.running
  lt : a.running < maxDistroThreads
  created : a.running ≠ 0 → (a.entries a.running).isSome

variable {pool} {s s' : ThreadPool} {a : Roster}

theorem follows_init (hpool : Fits pool) (s : ThreadPool) :
    Follows pool (initDistroThreads pool s) Roster.empty where
  blocks _ hi := blockHolds_init hpool s hi
  running := rfl
  lt := by decide
  created h := absurd rfl h

theorem Follows.create (H : Follows pool s a) (hpool : Fits pool) (id entryPoint : Word) :
    Follows pool (createIsolatedThread pool id entryPoint s) (a.step (.create id entryPoint)) := by
  by_cases hguard : maxDistroThreads ≤ id.toNat ∨ entryPoint = 0
  · rw [createIsolatedThread, if_pos hguard, Roster.step, if_pos hguard]
    exact H
  · obtain ⟨hlt, hentry⟩ := not_or.mp hguard
    have hid : id.toNat < maxDistroThreads := Nat.not_le.mp hlt
    have hroster : a.step (.create id entryPoint) =
        { a with entries := Function.update a.entries id.toNat (some entryPoint) } := by
      rw [Roster.step, if_neg hguard]
    have hrunning : (createIsolatedThread pool id entryPoint s).currentRunningThreadId =
        s.currentRunningThreadId := by
      rw [createIsolatedThread_eq hid hentry]
    rw [hroster]
    refine ⟨?_, hrunning.trans H.running, H.lt, ?_⟩
    · intro i hi
      show BlockHolds pool i (Function.update a.entries id.toNat (some entryPoint) i) _
      by_cases hsame : i = id.toNat
      · subst hsame
        rw [Function.update_self]
        exact blockHolds_create hpool hid hentry s (H.blocks _ hi)
      · rw [Function.update_of_ne hsame]
        exact (blockHolds_readsOnly hpool hi).keep (changesOnly_create hpool hid hentry s)
          (blockRegion_apart hsame) (H.blocks i hi)
    · intro hne
      show (Function.update a.entries id.toNat (some entryPoint) a.running).isSome
      by_cases hsame : a.running = id.toNat
      · rw [hsame, Function.update_self]
        rfl
      · rw [Function.update_of_ne hsame]
        exact H.created hne

theorem Follows.next_eq (H : Follows pool s a) :
    nextThreadId s = BitVec.ofNat 32 a.next ∧ a.next < maxDistroThreads := by
  have hlt : a.running < 3 := H.lt
  have hcases : a.running = 0 ∨ a.running = 1 ∨ a.running = 2 := by omega
  rw [nextThreadId, H.running, Roster.next]
  rcases hcases with h | h | h
  · rw [h]; decide
  · rw [h]; decide
  · rw [h]; decide

theorem Follows.switchTask (H : Follows pool s a) :
    Follows pool (switchTask pool s) (a.step .switchTask) := by
  obtain ⟨hnext, hlt⟩ := H.next_eq
  have hindex : (nextThreadId s).toNat = a.next := by
    rw [hnext, BitVec.toNat_ofNat]
    exact Nat.mod_eq_of_lt (Nat.lt_trans hlt (by decide))
  have hactive := (H.blocks a.next hlt).active
  rw [Distro.switchTask, Roster.step, hindex, hactive]
  by_cases hsome : (a.entries a.next).isSome
  · rw [if_pos hsome, if_pos hsome, if_pos rfl]
    exact ⟨H.blocks, hnext, hlt, fun _ => hsome⟩
  · rw [if_neg hsome, if_neg hsome, if_neg (by decide)]
    exact H

/-- **Each call** keeps the pool to the roster. -/
theorem Follows.step (H : Follows pool s a) (hpool : Fits pool) {op : DistroOp}
    (h : DistroStep pool s op s') : Follows pool s' (a.step op) := by
  cases h with
  | init => exact follows_init hpool s
  | create id entryPoint => exact H.create hpool id entryPoint
  | switchTask => exact H.switchTask
  | elsewhere m hsame =>
    refine ⟨?_, H.running, H.lt, H.created⟩
    intro i hi
    obtain ⟨hlo, hhi, _⟩ := hpool.block hi
    refine blockHolds_readsOnly hpool hi s.mem m ?_ (H.blocks i hi)
    rintro x hx ⟨r, hr, hrx⟩
    rw [List.mem_singleton.mp hr] at hrx
    refine hsame x hx ⟨_, List.mem_singleton.mpr rfl, ?_⟩
    simp only [Region.Contains, blockRegion, poolRegion] at *
    omega

theorem follows_of_run (hpool : Fits pool) {calls : List DistroOp}
    (h : (distroLts pool).Run calls s) : Follows pool s (Roster.ofCalls calls) := by
  refine h.traceInvariant (I := fun calls s => Follows pool s (Roster.ofCalls calls)) ?_ ?_
  · rintro s ⟨s₀, rfl⟩
    exact follows_init hpool s₀
  · intro calls s op t _ H hs
    rw [Roster.ofCalls, List.foldl_concat]
    exact H.step hpool hs

/-! ### Entering a thread -/

/-- The processor at the start of a thread: at its entry point, on a stack of its own that is empty,
with interrupts on, and nothing in the registers. -/
structure Enters (pool : Word) (i : Nat) (entryPoint : Word) (c : Machine) : Prop where
  eip : c.eip = entryPoint
  eflags : c.eflags = 0x0202
  cs : c.seg .cs = 0x08
  esp : c.regs .esp = stackTop pool i
  regs : ∀ r, r ≠ .esp → c.regs r = 0

/-- **A created thread can be entered**, after any calls: on the stack pointer that its block holds,
`popa` and `iret` lead to the entry point that it was created with last. -/
theorem distro_thread_enters (hpool : Fits pool) {calls : List DistroOp}
    (h : (distroLts pool).Run calls s) {i : Nat} (hi : i < maxDistroThreads) {entryPoint : Word}
    (hcreated : (Roster.ofCalls calls).entries i = some entryPoint) {c : Machine}
    (hmem : c.mem = s.mem) (hring : c.cpl = 0)
    (hesp : c.regs .esp = loadW s.mem (BitVec.ofNat 32 (espStackPointer pool i))) :
    Enters pool i entryPoint (sysExecAll [.plain .popa, .iret] c) := by
  obtain ⟨hstart, hframe⟩ := ((follows_of_run hpool h).blocks i hi).frame entryPoint hcreated
  obtain ⟨hpopped, hreturn⟩ := HoldsFrame.append_iff.mp hframe
  rw [← hmem, ← hstart, ← hesp] at hpopped hreturn
  rw [hstart] at hesp
  have hzero : ∀ r, r ≠ .esp → c.popa.regs r = 0 := by
    intro r hr
    rw [regs_popa_of_frame (List.length_replicate ..) hpopped, if_neg hr]
    exact List.getElem_replicate ..
  have hiret := iret_inner (c := { c with toCpu := c.popa }) hreturn
    (by rw [show Machine.cpl { c with toCpu := c.popa } = 0 from hring]; decide)
  have hrun : sysExecAll [.plain .popa, .iret] c = Machine.iret { c with toCpu := c.popa } := rfl
  rw [hrun, hiret]
  refine ⟨rfl, rfl, rfl, ?_, ?_⟩
  · show c.regs .esp + 32 + 12 = stackTop pool i
    rw [hesp, frameStart]
    bv_omega
  · intro r hr
    show (c.popa.set .esp _).regs r = 0
    rw [regs_set, if_neg hr]
    exact hzero r hr

/-! ### Whose turn it is -/

namespace Roster

/-- Calls other than `init_distro_threads` keep the created threads. -/
theorem isSome_step {a : Roster} {i : Nat} {op : DistroOp} (hop : op ≠ .init)
    (h : (a.entries i).isSome) : ((a.step op).entries i).isSome := by
  cases op with
  | init => exact absurd rfl hop
  | create id entryPoint =>
    rw [step]
    split
    · exact h
    · show (Function.update a.entries id.toNat (some entryPoint) i).isSome
      by_cases hsame : i = id.toNat
      · rw [hsame, Function.update_self]
        rfl
      · rw [Function.update_of_ne hsame]
        exact h
  | switchTask =>
    rw [step]
    split
    · exact h
    · exact h
  | elsewhere => exact h

theorem isSome_calls {a : Roster} {i : Nat} {calls : List DistroOp} (hcalls : .init ∉ calls)
    (h : (a.entries i).isSome) : ((calls.foldl step a).entries i).isSome := by
  induction calls generalizing a with
  | nil => exact h
  | cons op calls ih =>
    rw [List.mem_cons, not_or] at hcalls
    exact ih hcalls.2 (isSome_step (Ne.symm hcalls.1) h)

theorem running_step {a : Roster} {op : DistroOp} (hop : op ≠ .init) :
    (a.step op).running =
      if op = .switchTask ∧ (a.entries a.next).isSome then a.next else a.running := by
  cases op with
  | init => exact absurd rfl hop
  | create id entryPoint =>
    rw [step, if_neg (show ¬ (_ ∧ _) from fun h => nomatch h.1)]
    split
    · rfl
    · rfl
  | switchTask =>
    rw [step]
    split
    · rename_i hsome
      exact (if_pos ⟨rfl, hsome⟩).symm
    · rename_i hnone
      exact (if_neg fun h => hnone h.2).symm
  | elsewhere => exact (if_neg fun h => nomatch h.1).symm

/-- The threads 1 and 2 by turns, `n` switches after thread `running`. -/
def turn (running n : Nat) : Nat :=
  if n = 0 then running else if (n + running) % 2 = 1 then 1 else 2

theorem turn_succ {running : Nat} (hlt : running < 3) (n : Nat) :
    turn running (n + 1) = if turn running n = 1 then 2 else 1 := by
  by_cases hn : n = 0
  · have hcases : running = 0 ∨ running = 1 ∨ running = 2 := by omega
    rw [hn]
    rcases hcases with rfl | rfl | rfl
    · rfl
    · rfl
    · rfl
  · rw [turn, turn, if_neg (Nat.succ_ne_zero n), if_neg hn]
    by_cases hodd : (n + running) % 2 = 1
    · have hnext : ¬ (n + 1 + running) % 2 = 1 := by omega
      rw [if_neg hnext, if_pos hodd, if_pos rfl]
    · have hnext : (n + 1 + running) % 2 = 1 := by omega
      rw [if_pos hnext, if_neg hodd, if_neg (by decide)]

/-- **The two threads take turns** once both are there. -/
theorem running_calls {a : Roster} (h₁ : (a.entries 1).isSome) (h₂ : (a.entries 2).isSome)
    (hlt : a.running < 3) {calls : List DistroOp} (hcalls : .init ∉ calls) :
    (calls.foldl step a).running = turn a.running (calls.count .switchTask) := by
  induction calls using List.reverseRecOn with
  | nil => rfl
  | append_singleton calls op ih =>
    obtain ⟨hbefore, hop⟩ : DistroOp.init ∉ calls ∧ DistroOp.init ≠ op := by
      rw [List.mem_append, List.mem_singleton] at hcalls
      exact not_or.mp hcalls
    have hthere : ((calls.foldl step a).entries (calls.foldl step a).next).isSome := by
      rw [next]
      split
      · exact isSome_calls hbefore h₂
      · exact isSome_calls hbefore h₁
    rw [List.foldl_concat, running_step (Ne.symm hop), List.count_append, List.count_singleton]
    by_cases hswitch : op = .switchTask
    · rw [if_pos ⟨hswitch, hthere⟩, if_pos (beq_iff_eq.mpr hswitch), turn_succ hlt, next,
        ih hbefore]
    · rw [if_neg fun h => hswitch h.1, if_neg (by rw [beq_iff_eq]; exact hswitch), Nat.add_zero,
        ih hbefore]

/-- **Thread 2 waits for thread 1**: as long as it is not there no switch succeeds. -/
theorem running_of_no_first {calls : List DistroOp} (h : (ofCalls calls).entries 1 = none) :
    (ofCalls calls).running = 0 := by
  induction calls using List.reverseRecOn with
  | nil => rfl
  | append_singleton calls op ih =>
    have hstep : ofCalls (calls ++ [op]) = (ofCalls calls).step op := List.foldl_concat _ _ _ _
    rw [hstep] at h ⊢
    -- all calls but `init_distro_threads` keep a thread that is there
    have hbefore : op ≠ .init → (ofCalls calls).entries 1 = none := by
      intro hop
      by_contra hthere
      have hkept := isSome_step hop (Option.isSome_iff_ne_none.mpr hthere)
      rw [h] at hkept
      cases hkept
    cases op with
    | init => rfl
    | create id entryPoint =>
      rw [step]
      split
      · exact ih (hbefore (by simp))
      · exact ih (hbefore (by simp))
    | switchTask =>
      have hnone := hbefore (by simp)
      have hnext : ¬ ((ofCalls calls).entries (ofCalls calls).next).isSome := by
        rw [next, ih hnone, if_neg (by decide), hnone]
        exact Bool.false_ne_true
      rw [step, if_neg hnext]
      exact ih hnone
    | elsewhere => exact ih (hbefore (by simp))

end Roster

/-- **Whose turn it is**, after any calls: a thread that has been created, or the supervisor; once
the threads 1 and 2 are both there they take turns up to the next `init_distro_threads`, and while
thread 1 is not there nobody does. -/
theorem distro_schedule (hpool : Fits pool) {before after : List DistroOp}
    (h : (distroLts pool).Run (before ++ after) s) (hafter : .init ∉ after) :
    (s.currentRunningThreadId = 0 ∨ ((Roster.ofCalls (before ++ after)).entries
      s.currentRunningThreadId.toNat).isSome) ∧
    (((Roster.ofCalls before).entries 1).isSome → ((Roster.ofCalls before).entries 2).isSome →
      s.currentRunningThreadId = BitVec.ofNat 32
        (Roster.turn (Roster.ofCalls before).running (after.count .switchTask))) ∧
    ((Roster.ofCalls (before ++ after)).entries 1 = none → s.currentRunningThreadId = 0) := by
  have H := follows_of_run hpool h
  refine ⟨?_, ?_, ?_⟩
  · by_cases hzero : (Roster.ofCalls (before ++ after)).running = 0
    · left
      rw [H.running, hzero]
      rfl
    · right
      have hindex : s.currentRunningThreadId.toNat =
          (Roster.ofCalls (before ++ after)).running := by
        rw [H.running, BitVec.toNat_ofNat]
        exact Nat.mod_eq_of_lt (Nat.lt_trans H.lt (by decide))
      rw [hindex]
      exact H.created hzero
  · intro h₁ h₂
    obtain ⟨s₀, h0, he⟩ := h
    obtain ⟨t, ht, _⟩ := he.split
    have hlt := (follows_of_run hpool ⟨s₀, h0, ht⟩).lt
    rw [H.running, ← Roster.running_calls h₁ h₂ hlt hafter, Roster.ofCalls, List.foldl_append]
    rfl
  · intro hnone
    rw [H.running, Roster.running_of_no_first hnone]
    rfl

theorem exists_two_threads (switches : List DistroOp) (h : ∀ op ∈ switches, op = .switchTask) :
    ∃ s, (distroLts 0x200000).Run
      ([.create 1 0x101000, .create 2 0x102000] ++ switches) s := by
  induction switches using List.reverseRecOn with
  | nil =>
    have hinit : (distroLts 0x200000).Run [] (initDistroThreads 0x200000 ⟨fun _ => 0, 0⟩) :=
      Lts.Run.start ⟨_, rfl⟩
    exact ⟨_, (hinit.snoc (.create _ 1 0x101000)).snoc (.create _ 2 0x102000)⟩
  | append_singleton switches op ih =>
    obtain ⟨s, hrun⟩ := ih fun op hop => h op (List.mem_append_left _ hop)
    rw [h op (List.mem_append_right _ (List.mem_singleton.mpr rfl)), ← List.append_assoc]
    exact ⟨_, hrun.snoc (.switchTask s)⟩

theorem distro_thread_enters_two : ∃ c : Machine,
    Enters 0x200000 2 0x102000 (sysExecAll [.plain .popa, .iret] c) := by
  obtain ⟨s, hrun⟩ := exists_two_threads [.switchTask] (by decide)
  exact ⟨⟨⟨fun _ => loadW s.mem (BitVec.ofNat 32 (espStackPointer 0x200000 2)), 0, s.mem⟩, 0,
    fun _ => 0⟩, distro_thread_enters (by decide) hrun (by decide) rfl rfl rfl rfl⟩

theorem distro_schedule_three : ∃ s, (distroLts 0x200000).Run ([.create 1 0x101000,
    .create 2 0x102000] ++ [.switchTask, .switchTask, .switchTask]) s ∧
      s.currentRunningThreadId = 1 := by
  obtain ⟨s, hrun⟩ := exists_two_threads [.switchTask, .switchTask, .switchTask] (by decide)
  have hturn := (distro_schedule (by decide) hrun (by decide)).2.1 rfl rfl
  exact ⟨s, hrun, hturn⟩

end

end Antagonist.Distro
