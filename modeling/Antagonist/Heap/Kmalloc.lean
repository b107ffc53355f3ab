import Antagonist.Pmm.Bitmap

/-!
# The kernel heap

`kernel/heap.cpp` over byte memory.  A chunk header is the packed struct
`heap_chunk_header`: `size` at offset 0, `is_free` at 4 and `next` at 5, nine
bytes in all, and the data follows.  `heap_start` points at the first header.

Additions and subtractions in `kmalloc` and `kfree` go through `Heap.add` and
`Heap.sub`, which record in `wrapped` whether one ever left the 32-bit range.
-/

namespace Antagonist

open ByteMem

/-- `sizeof(struct heap_chunk_header)`. -/
def headerSize : Nat := 9

/-- What `kmalloc` wants to be left over, past a header, before it splits. -/
def splitSlack : Nat := 8

/-- Memory and the pointer `heap_start`.  `wrapped` is bookkeeping: it is set
by the first addition or subtraction that does not fit in 32 bits. -/
structure Heap where
  mem : Mem
  heapStart : Nat
  wrapped : Bool

namespace Heap

def add (h : Heap) (a b : Nat) : Nat × Heap :=
  (add32 a b, { h with wrapped := h.wrapped || decide (2 ^ 32 ≤ a + b) })

def sub (h : Heap) (a b : Nat) : Nat × Heap :=
  (sub32 a b, { h with wrapped := h.wrapped || decide (a < b) })

/-! ### Header fields -/

def size (h : Heap) (c : Nat) : Nat := load32 h.mem c
def isFree (h : Heap) (c : Nat) : Byte := load8 h.mem (c + 4)
def next (h : Heap) (c : Nat) : Nat := load32 h.mem (c + 5)

def setSize (h : Heap) (c v : Nat) : Heap := { h with mem := store32 h.mem c v }
def setIsFree (h : Heap) (c : Nat) (b : Byte) : Heap := { h with mem := store8 h.mem (c + 4) b }
def setNext (h : Heap) (c v : Nat) : Heap := { h with mem := store32 h.mem (c + 5) v }

end Heap

/-- `init_heap` on the memory `m`. -/
def initHeap (m : Mem) (startVaddr initialPages : Nat) : Heap :=
  let h : Heap := ⟨m, startVaddr, false⟩
  let h := h.setSize startVaddr (sub32 (initialPages * pageSize % 2 ^ 32) headerSize)
  let h := h.setIsFree startVaddr 1
  h.setNext startVaddr 0

/-- A walk along `next` that is longer than the address space never ends. -/
def walkFuel : Nat := 2 ^ 32

/-- The search loop of `kmalloc`, standing on `current`.  `none` is a walk that
never ends; the pointer is `0` when no chunk fits. -/
def kmallocLoop (size : Nat) : Nat → Nat → Heap → Option (Nat × Heap)
  | 0, _, _ => none
  | fuel + 1, current, h =>
      if current = 0 then some (0, h)
      else if h.isFree current ≠ 0 ∧ size ≤ h.size current then
        let (t, h) := h.add size headerSize
        let (need, h) := h.add t splitSlack
        let h :=
          if need ≤ h.size current then
            let (t, h) := h.add current headerSize
            let (split, h) := h.add t size
            let (t, h) := h.sub (h.size current) size
            let (rest, h) := h.sub t headerSize
            let h := h.setSize split rest
            let h := h.setIsFree split 1
            let h := h.setNext split (h.next current)
            let h := h.setSize current size
            h.setNext current split
          else h
        let h := h.setIsFree current 0
        let (usable, h) := h.add current headerSize
        some (usable, h)
      else kmallocLoop size fuel (h.next current) h

def kmalloc (size : Nat) (h : Heap) : Option (Nat × Heap) :=
  kmallocLoop size walkFuel h.heapStart h

/-- The coalescing loop of `kfree`.  It stays on `current` after a merge. -/
def kfreeLoop : Nat → Nat → Heap → Option Heap
  | 0, _, _ => none
  | fuel + 1, current, h =>
      if current = 0 ∨ h.next current = 0 then some h
      else if h.isFree current ≠ 0 ∧ h.isFree (h.next current) ≠ 0 then
        let (t, h) := h.add (h.size current) headerSize
        let (size, h) := h.add t (h.size (h.next current))
        let h := h.setSize current size
        let h := h.setNext current (h.next (h.next current))
        kfreeLoop fuel current h
      else kfreeLoop fuel (h.next current) h

def kfree (ptr : Nat) (h : Heap) : Option Heap :=
  if ptr = 0 then some h
  else
    let (header, h) := h.sub ptr headerSize
    let h := h.setIsFree header 1
    kfreeLoop walkFuel h.heapStart h

end Antagonist
