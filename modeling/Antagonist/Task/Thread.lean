import Antagonist.Heap.Contract

/-!
# Threads

`kernel/task.cpp` over byte memory.  A thread control block is the struct
`thread_control_block`: `id` at offset 0, `esp` at 4, `entry` at 8, the unused
register snapshot from 12 to 47, and `next` at 48.  The blocks and the private
stacks come from the kernel heap.

`switchTask` goes up to the call of `context_switch` and returns its two
arguments; what the assembly routine does is in `Task/ContextSwitch.lean`.

* `setupThread_spec`: what `create_thread` leaves in memory once it has its two
  blocks.
-/

namespace Antagonist

open ByteMem

/-- `sizeof(struct thread_control_block)`. -/
def tcbSize : Nat := 52

def stackSize : Nat := 4096

/-- Memory with the heap, and the globals of `task.cpp`. -/
structure Kernel where
  heap : Heap
  runningTask : Nat
  taskListHead : Nat
  nextThreadId : Nat

namespace Kernel

def load (k : Kernel) (a : Nat) : Nat := load32 k.heap.mem a

def store (k : Kernel) (a v : Nat) : Kernel :=
  { k with heap := { k.heap with mem := store32 k.heap.mem a v } }

/-! ### The fields of a thread control block -/

def id (k : Kernel) (t : Nat) : Nat := k.load t
def esp (k : Kernel) (t : Nat) : Nat := k.load (t + 4)
def entry (k : Kernel) (t : Nat) : Nat := k.load (t + 8)
def next (k : Kernel) (t : Nat) : Nat := k.load (t + 48)

def setId (k : Kernel) (t v : Nat) : Kernel := k.store t v
def setEsp (k : Kernel) (t v : Nat) : Kernel := k.store (t + 4) v
def setEntry (k : Kernel) (t v : Nat) : Kernel := k.store (t + 8) v
def setNext (k : Kernel) (t v : Nat) : Kernel := k.store (t + 48) v

end Kernel

def initMultitasking (k : Kernel) : Option Kernel :=
  (kmalloc tcbSize k.heap).map fun (kernelTask, heap) =>
    let k := { k with heap }
    let k := k.setId kernelTask 0
    let k := k.setEsp kernelTask 0
    let k := k.setEntry kernelTask 0
    let k := k.setNext kernelTask kernelTask
    { k with runningTask := kernelTask, taskListHead := kernelTask }

/-- `create_thread` after its two `kmalloc`s.  `bootstrap` is the address of
`thread_bootstrap`. -/
def setupThread (bootstrap entry newThread privateStackBuffer : Nat) (k : Kernel) : Kernel :=
  let privateStackTop := add32 privateStackBuffer 4096
  let k := k.setId newThread k.nextThreadId
  let k := { k with nextThreadId := add32 k.nextThreadId 1 }
  let k := k.setEntry newThread entry
  let privateStackTop := sub32 privateStackTop 4
  let k := k.store privateStackTop bootstrap
  let privateStackTop := sub32 privateStackTop 32
  let k := { k with heap := { k.heap with mem := fillWords k.heap.mem privateStackTop (fun _ => 0) 8 } }
  let k := k.setEsp newThread privateStackTop
  let k := k.setNext newThread (k.next k.taskListHead)
  k.setNext k.taskListHead newThread

/-- The two `kmalloc`s of `create_thread`. -/
def allocThread (k : Kernel) : Option (Nat × Nat × Kernel) :=
  (kmalloc tcbSize k.heap).bind fun (newThread, heap) =>
    (kmalloc stackSize heap).map fun (privateStackBuffer, heap) =>
      (newThread, privateStackBuffer, { k with heap })

/-- `create_thread`, with the pointers to the block and the stack of the new
thread. -/
def createThread (bootstrap entry : Nat) (k : Kernel) : Option (Nat × Nat × Kernel) :=
  (allocThread k).map fun (newThread, privateStackBuffer, k) =>
    (newThread, privateStackBuffer, setupThread bootstrap entry newThread privateStackBuffer k)

/-- `switch_task` up to its call `context_switch(old_esp_slot, new_esp)`; `none`
when it returns without one. -/
def switchTask (k : Kernel) : Option (Nat × Nat × Kernel) :=
  if k.runningTask = 0 ∨ k.next k.runningTask = k.runningTask then none
  else
    let oldTask := k.runningTask
    let nextTask := k.next k.runningTask
    some (oldTask + 4, k.esp nextTask, { k with runningTask := nextTask })

/-- The address that `thread_bootstrap` calls. -/
def threadBootstrapCall (k : Kernel) : Option Nat :=
  if k.runningTask ≠ 0 ∧ k.entry k.runningTask ≠ 0 then some (k.entry k.runningTask) else none

/-- The loop of `get_thread_count`, standing on `node`. -/
def getThreadCountLoop (k : Kernel) : Nat → Nat → Nat → Option Nat
  | 0, _, _ => none
  | fuel + 1, node, count =>
      if node = k.taskListHead then some count
      else getThreadCountLoop k fuel (k.next node) (add32 count 1)

def getThreadCount (k : Kernel) : Option Nat :=
  if k.taskListHead = 0 then some 0
  else getThreadCountLoop k walkFuel (k.next k.taskListHead) 1

/-! ### The stores of `create_thread` -/

/-- Two ranges of bytes below the top of memory that do not meet. -/
def Separate (a n b k : Nat) : Prop := a + n ≤ b ∨ b + k ≤ a

theorem Separate.symm {a n b k : Nat} (h : Separate a n b k) : Separate b k a n := Or.symm h

/-- What memory holds after the stores: the new block `t`, its stack at `b`, and
the head of the ring. -/
structure SetUp (k k' : Kernel) (bootstrap entry t b : Nat) : Prop where
  id : k'.id t = k.nextThreadId
  esp : k'.esp t = b + 4060
  entry : k'.entry t = entry
  next : k'.next t = k.next k.taskListHead
  headNext : k'.next k.taskListHead = t
  zero : ∀ i < 8, k'.load (b + 4060 + 4 * i) = 0
  ret : k'.load (b + 4092) = bootstrap
  out : ∀ x < 2 ^ 32, ¬ (t ≤ x ∧ x < t + tcbSize) → ¬ (b + 4060 ≤ x ∧ x < b + 4096) →
    ¬ (k.taskListHead + 48 ≤ x ∧ x < k.taskListHead + 52) → k'.heap.mem x = k.heap.mem x
  runningTask : k'.runningTask = k.runningTask
  taskListHead : k'.taskListHead = k.taskListHead
  nextThreadId : k'.nextThreadId = add32 k.nextThreadId 1

theorem stackTop_ret {b : Nat} (hb : b + 4096 < 2 ^ 32) : sub32 (add32 b 4096) 4 = b + 4092 := by
  rw [add32_of_lt hb, sub32_of_le (by omega) hb]
  omega

theorem stackTop_frame {b : Nat} (hb : b + 4096 < 2 ^ 32) :
    sub32 (sub32 (add32 b 4096) 4) 32 = b + 4060 := by
  rw [stackTop_ret hb, sub32_of_le (by omega) (by omega)]
  omega

theorem setupThread_spec {k : Kernel} {bootstrap entry t b : Nat} (ht : t + 52 < 2 ^ 32)
    (hb : b + 4096 < 2 ^ 32) (hh : k.taskListHead + 52 < 2 ^ 32) (htb : Separate t 52 b 4096)
    (hth : Separate t 52 k.taskListHead 52) (hbh : Separate b 4096 k.taskListHead 52)
    (hid : k.nextThreadId < 2 ^ 32) (hentry : entry < 2 ^ 32) (hboot : bootstrap < 2 ^ 32) :
    SetUp k (setupThread bootstrap entry t b k) bootstrap entry t b := by
  simp only [Separate] at htb hth hbh
  have htop1 := stackTop_ret hb
  have htop2 := stackTop_frame hb
  refine ⟨?_, ?_, ?_, ?_, ?_, ?_, ?_, ?_, rfl, rfl, rfl⟩ <;>
    simp only [setupThread, Kernel.setId, Kernel.setEsp, Kernel.setEntry, Kernel.setNext,
      Kernel.store, Kernel.id, Kernel.esp, Kernel.entry, Kernel.next, Kernel.load, htop2] <;>
    rw [htop1]
  · rw [load32_store32_disjoint, load32_store32_disjoint, load32_store32_disjoint,
      load32_fillWords_apart, load32_store32_disjoint, load32_store32_disjoint,
      load32_store32_same] <;> omega
  · rw [load32_store32_disjoint, load32_store32_disjoint, load32_store32_same] <;> omega
  · rw [load32_store32_disjoint, load32_store32_disjoint, load32_store32_disjoint,
      load32_fillWords_apart, load32_store32_disjoint, load32_store32_same] <;> omega
  · rw [load32_store32_disjoint, load32_store32_same _ _ (load32_lt _ _), load32_store32_disjoint,
      load32_fillWords_apart, load32_store32_disjoint, load32_store32_disjoint,
      load32_store32_disjoint] <;> omega
  · rw [load32_store32_same]
    omega
  · intro i hi
    rw [load32_store32_disjoint, load32_store32_disjoint, load32_store32_disjoint,
      load32_fillWords _ (by omega) hi fun _ _ => by decide] <;> omega
  · rw [load32_store32_disjoint, load32_store32_disjoint, load32_store32_disjoint,
      load32_fillWords_apart, load32_store32_same] <;> omega
  · intro x hx hxt hxb hxh
    simp only [tcbSize] at hxt
    have hout : ∀ (m : Mem) (a v : Nat), a + 4 ≤ 2 ^ 32 → x < a ∨ a + 4 ≤ x →
        store32 m a v x = m x :=
      fun m a v ha hxa => store32_apply_out m v (by simp only [Off]; omega)
    rw [hout, hout, hout, fillWords_apply_out, hout, hout, hout] <;> omega

end Antagonist
