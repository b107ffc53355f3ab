import Antagonist.Heap.Kmalloc
import Antagonist.Lib.Tiling

/-!
# The chunk list in memory

`Chain m p cs` says that following `next` from `p` reads exactly the chunks
`cs`.  Over it, the two allocator functions are the list operations of
`Tiling`:

* `kmallocLoop_spec`: the search loop is `alloc`.
* `kfreeLoop_spec`: the coalescing loop is `mergeFrom`.
* `Frame`: neither touches a byte outside chunk headers and free data.
-/

namespace Antagonist

open ByteMem Tiling

def flagOf (free : Bool) : Byte := if free then 1 else 0

theorem flagOf_ne_zero {b : Bool} : flagOf b ≠ 0 ↔ b = true := by
  cases b <;> simp [flagOf]

/-- The header at `p` holds the fields of `c`, and its `next` is `q`. -/
structure Header (m : Mem) (c : Chunk) (q : Nat) : Prop where
  size : load32 m c.addr = c.size
  isFree : load8 m (c.addr + 4) = flagOf c.free
  next : load32 m (c.addr + 5) = q

/-- Following `next` from `p` reads the chunks `cs` and ends at `nullptr`. -/
def Chain (m : Mem) : Nat → List Chunk → Prop
  | p, [] => p = 0
  | p, c :: cs => p = c.addr ∧ p ≠ 0 ∧ ∃ q, Header m c q ∧ Chain m q cs

/-- A byte the allocator may write: in a header, or in the data of a free chunk. -/
def Touchable (cs : List Chunk) (x : Nat) : Prop :=
  ∃ c ∈ cs, c.InHeader headerSize x ∨ (c.free = true ∧ c.InData headerSize x)

/-- `m'` differs from `m` only where the allocator may write. -/
def Frame (cs : List Chunk) (m m' : Mem) : Prop := ∀ x, ¬ Touchable cs x → m' x = m x

theorem Frame.refl (cs : List Chunk) (m : Mem) : Frame cs m m := fun _ _ => rfl

theorem Frame.trans {cs ds : List Chunk} {m k n : Mem} (h : Frame cs m k)
    (h' : Frame ds k n) (hsub : ∀ x, Touchable ds x → Touchable cs x) : Frame cs m n := by
  intro x hx
  rw [h' x (fun hd => hx (hsub x hd)), h x hx]

theorem Touchable.cons {c : Chunk} {cs : List Chunk} {x : Nat} (h : Touchable cs x) :
    Touchable (c :: cs) x := by
  obtain ⟨d, hd, hx⟩ := h
  exact ⟨d, List.mem_cons_of_mem c hd, hx⟩

/-! ### Headers and chains read only header bytes -/

theorem Header.frame {m m' : Mem} {c : Chunk} {q : Nat} (h : Header m c q)
    (hb : c.addr + headerSize ≤ 2 ^ 32) (hm : ∀ x, c.InHeader headerSize x → m' x = m x) :
    Header m' c q := by
  simp only [headerSize] at hb
  have hread : ∀ i < 9, load8 m' (c.addr + i) = load8 m (c.addr + i) := by
    intro i hi
    simp only [load8]
    rw [Nat.mod_eq_of_lt (by omega)]
    exact hm _ (by simp only [Chunk.InHeader, headerSize]; omega)
  refine ⟨?_, ?_, ?_⟩
  · rw [← h.size]
    exact load32_congr fun i hi => hread i (by omega)
  · rw [← h.isFree]
    exact hread 4 (by omega)
  · rw [← h.next]
    refine load32_congr ?_
    intro i hi
    rw [Nat.add_assoc]
    exact hread (5 + i) (by omega)

theorem Chain.frame {m m' : Mem} {p lo hi : Nat} {cs : List Chunk} (h : Chain m p cs)
    (ht : Tiles headerSize lo cs hi) (hhi : hi ≤ 2 ^ 32)
    (hm : ∀ c ∈ cs, ∀ x, c.InHeader headerSize x → m' x = m x) : Chain m' p cs := by
  induction cs generalizing p lo with
  | nil => exact h
  | cons c cs ih =>
    obtain ⟨h1, h2, q, hq, hrest⟩ := h
    have hb := ht.2.le
    simp only [Chunk.stop] at hb
    exact ⟨h1, h2, q, hq.frame (by omega) (hm c (by simp)),
      ih hrest ht.2 (fun d hd => hm d (List.mem_cons_of_mem c hd))⟩

/-! ### The steps of the two loops -/

theorem Heap.add_of_lt {h : Heap} {a b : Nat} (hab : a + b < 2 ^ 32) : h.add a b = (a + b, h) := by
  simp only [Heap.add, add32_of_lt hab, decide_eq_false (by omega : ¬ 2 ^ 32 ≤ a + b),
    Bool.or_false]

theorem Heap.sub_of_le {h : Heap} {a b : Nat} (hab : b ≤ a) (ha : a < 2 ^ 32) :
    h.sub a b = (a - b, h) := by
  simp only [Heap.sub, sub32_of_le hab ha, decide_eq_false (by omega : ¬ a < b), Bool.or_false]

theorem Header.fit_iff {h : Heap} {c : Chunk} {q n : Nat} (hc : Header h.mem c q) :
    h.isFree c.addr ≠ 0 ∧ n ≤ h.size c.addr ↔ c.free = true ∧ n ≤ c.size := by
  rw [Heap.isFree, Heap.size, hc.isFree, hc.size, flagOf_ne_zero]

theorem Heap.need_of_lt {h : Heap} {n : Nat} (hn : n + headerSize + splitSlack < 2 ^ 32) :
    h.add n headerSize = (n + headerSize, h) ∧
      h.add (n + headerSize) splitSlack = (n + headerSize + splitSlack, h) :=
  ⟨Heap.add_of_lt (by omega), Heap.add_of_lt (by omega)⟩

theorem Heap.split_of_le {h : Heap} {c : Chunk} {n : Nat} (hs : n + headerSize ≤ c.size)
    (hlt : c.addr + headerSize + c.size < 2 ^ 32) :
    h.add c.addr headerSize = (c.addr + headerSize, h) ∧
      h.add (c.addr + headerSize) n = (c.addr + headerSize + n, h) ∧
      h.sub c.size n = (c.size - n, h) ∧
      h.sub (c.size - n) headerSize = (c.size - n - headerSize, h) :=
  ⟨Heap.add_of_lt (by omega), Heap.add_of_lt (by omega), Heap.sub_of_le (by omega) (by omega),
    Heap.sub_of_le (by omega) (by omega)⟩

/-- The memory after `kmalloc` split the chunk at `a`, leaving `rest` bytes to
the chunk at `b`, whose `next` is `q`. -/
def splitMem (m : Mem) (a b n rest q : Nat) : Mem :=
  let m := store32 m b rest
  let m := store8 m (b + 4) 1
  let m := store32 m (b + 5) q
  let m := store32 m a n
  let m := store32 m (a + 5) b
  store8 m (a + 4) 0

section

variable {h : Heap} {c : Chunk} {q n fuel hi : Nat}

theorem kmallocLoop_null : kmallocLoop n (fuel + 1) 0 h = some (0, h) := by
  rw [kmallocLoop, if_pos rfl]

theorem kmallocLoop_skip (hc : Header h.mem c q) (h0 : c.addr ≠ 0)
    (hfit : ¬ (c.free = true ∧ n ≤ c.size)) :
    kmallocLoop n (fuel + 1) c.addr h = kmallocLoop n fuel q h := by
  rw [kmallocLoop, if_neg h0, if_neg (mt hc.fit_iff.mp hfit), Heap.next, hc.next]

theorem kmallocLoop_whole (hc : Header h.mem c q) (h0 : c.addr ≠ 0) (hf : c.free = true)
    (hn : n ≤ c.size) (hs : ¬ n + headerSize + splitSlack ≤ c.size)
    (hroom : c.size + headerSize + splitSlack < 2 ^ 32) (hstop : c.stop headerSize ≤ hi)
    (hhi : hi < 2 ^ 32) :
    kmallocLoop n (fuel + 1) c.addr h =
      some (c.addr + headerSize, { h with mem := store8 h.mem (c.addr + 4) 0 }) := by
  have hsz : h.size c.addr = c.size := hc.size
  simp only [Chunk.stop] at hstop
  obtain ⟨e1, e2⟩ := Heap.need_of_lt (h := h) (n := n) (by omega)
  rw [kmallocLoop, if_neg h0, if_pos (hc.fit_iff.mpr ⟨hf, hn⟩)]
  simp only [e1, e2, hsz, if_neg hs]
  have e3 : (h.setIsFree c.addr 0).add c.addr headerSize =
      (c.addr + headerSize, h.setIsFree c.addr 0) := Heap.add_of_lt (by omega)
  rw [e3]
  rfl

theorem kmallocLoop_split (hc : Header h.mem c q) (h0 : c.addr ≠ 0) (hf : c.free = true)
    (hs : n + headerSize + splitSlack ≤ c.size) (hstop : c.stop headerSize ≤ hi)
    (hhi : hi < 2 ^ 32) :
    kmallocLoop n (fuel + 1) c.addr h = some (c.addr + headerSize,
      { h with
        mem := splitMem h.mem c.addr (c.addr + headerSize + n) n (c.size - n - headerSize) q }) := by
  simp only [Chunk.stop] at hstop
  have hsz : h.size c.addr = c.size := hc.size
  obtain ⟨e1, e2⟩ := Heap.need_of_lt (h := h) (n := n) (by omega)
  obtain ⟨e3, e4, e5, e6⟩ := Heap.split_of_le (h := h) (c := c) (n := n) (by omega) (by omega)
  rw [kmallocLoop, if_neg h0, if_pos (hc.fit_iff.mpr ⟨hf, by omega⟩)]
  simp only [e1, e2, hsz, if_pos hs, e3, e4, e5, e6]
  rw [Heap.add_of_lt (by omega)]
  have hnext : load32 (store8 (store32 h.mem (c.addr + headerSize + n) (c.size - n - headerSize))
      (c.addr + headerSize + n + 4) 1) (c.addr + 5) = q := by
    simp only [headerSize, splitSlack] at hs hstop ⊢
    rw [load32_store8_apart _ _ (by simp only [Off]; omega),
      load32_store32_apart _ _ (by simp only [Off]; omega) (by simp only [Off]; omega), hc.next]
  simp only [Heap.setSize, Heap.setIsFree, Heap.setNext, Heap.next, hnext, splitMem]

theorem kfreeLoop_last (hc : Header h.mem c 0) : kfreeLoop (fuel + 1) c.addr h = some h := by
  rw [kfreeLoop, if_pos]
  exact Or.inr hc.next

variable {d : Chunk} {r : Nat}

theorem kfreeLoop_advance (hc : Header h.mem c d.addr) (hd : Header h.mem d r)
    (h0 : c.addr ≠ 0) (h1 : d.addr ≠ 0) (hcd : ¬ (c.free = true ∧ d.free = true)) :
    kfreeLoop (fuel + 1) c.addr h = kfreeLoop fuel d.addr h := by
  have hn : h.next c.addr = d.addr := hc.next
  rw [kfreeLoop, if_neg (by simp [h0, hn, h1]), if_neg, hn]
  rw [hn, Heap.isFree, Heap.isFree, hc.isFree, hd.isFree, flagOf_ne_zero, flagOf_ne_zero]
  exact hcd

/-- The memory after the chunk at `a` absorbed its neighbour. -/
def mergeMem (m : Mem) (a s q : Nat) : Mem := store32 (store32 m a s) (a + 5) q

theorem kfreeLoop_merge (hc : Header h.mem c d.addr) (hd : Header h.mem d r)
    (h0 : c.addr ≠ 0) (hcf : c.free = true) (hdf : d.free = true)
    (hcd : c.stop headerSize = d.addr) (hstop : d.stop headerSize ≤ hi) (hhi : hi < 2 ^ 32) :
    kfreeLoop (fuel + 1) c.addr h = kfreeLoop fuel c.addr
      { h with mem := mergeMem h.mem c.addr (c.size + headerSize + d.size) r } := by
  simp only [Chunk.stop] at hcd hstop
  have hn : h.next c.addr = d.addr := hc.next
  have hsc : h.size c.addr = c.size := hc.size
  have hsd : h.size d.addr = d.size := hd.size
  have e1 : h.add c.size headerSize = (c.size + headerSize, h) := Heap.add_of_lt (by omega)
  have e2 : h.add (c.size + headerSize) d.size = (c.size + headerSize + d.size, h) :=
    Heap.add_of_lt (by omega)
  have hfree : h.isFree c.addr ≠ 0 ∧ h.isFree d.addr ≠ 0 := by
    rw [Heap.isFree, Heap.isFree, hc.isFree, hd.isFree, flagOf_ne_zero, flagOf_ne_zero]
    exact ⟨hcf, hdf⟩
  have hd0 : d.addr ≠ 0 := by omega
  rw [kfreeLoop, if_neg (by simp [h0, hn, hd0]), hn, if_pos hfree]
  simp only [hsc, e1, hn, hsd, e2]
  -- the two reads of `next` see the new size but the old pointers
  have hn' : (h.setSize c.addr (c.size + headerSize + d.size)).next c.addr = d.addr := by
    simp only [headerSize] at *
    rw [Heap.next, Heap.setSize, load32_store32_apart _ _ (by simp only [Off]; omega)
      (by simp only [Off]; omega), hc.next]
  have hr' : (h.setSize c.addr (c.size + headerSize + d.size)).next d.addr = r := by
    simp only [headerSize] at *
    rw [Heap.next, Heap.setSize, load32_store32_apart _ _ (by simp only [Off]; omega)
      (by simp only [Off]; omega), hd.next]
  rw [hn', hr']
  rfl

end

/-! ### What the stores leave behind -/

/-- The header that `init_heap` writes, whatever the number of pages. -/
theorem header_initHeap (m : Mem) {a : Nat} (pages : Nat) (ha : a + headerSize ≤ 2 ^ 32) :
    Header (initHeap m a pages).mem
      ⟨a, sub32 (pages * pageSize % 2 ^ 32) headerSize, true⟩ 0 := by
  have hsize : sub32 (pages * pageSize % 2 ^ 32) headerSize < 2 ^ 32 :=
    Nat.mod_lt _ (by decide)
  simp only [headerSize] at ha
  refine ⟨?_, ?_, ?_⟩
  · simp only [initHeap, Heap.setNext, Heap.setIsFree, Heap.setSize]
    rw [load32_store32_apart _ _ (by simp only [Off]; omega) (by simp only [Off]; omega),
      load32_store8_apart _ _ (by simp only [Off]; omega), load32_store32_same _ _ hsize]
  · simp only [initHeap, Heap.setNext, Heap.setIsFree, Heap.setSize]
    rw [load8_store32_out _ _ (by simp only [Off]; omega), load8_store8_same]
    rfl
  · simp only [initHeap, Heap.setNext, Heap.setIsFree, Heap.setSize]
    exact load32_store32_same _ _ (by decide)

section

variable {m : Mem} {c : Chunk} {a b n rest q : Nat}

theorem Header.next_lt (h : Header m c q) : q < 2 ^ 32 := by
  rw [← h.next]
  exact load32_lt m _

/-- A word store at `a` is seen only at the four addresses from `a`. -/
theorem store32_apply_of_out (m : Mem) {a x : Nat} (v : Nat) (ha : a + 4 ≤ 2 ^ 32)
    (hx : x < a ∨ a + 4 ≤ x) : store32 m a v x = m x := by
  rcases Nat.lt_or_ge x (2 ^ 32) with hlt | hge
  · exact store32_apply_out m v (by simp only [Off]; omega)
  · simp only [store32]
    rw [store8_apply_ne, store8_apply_ne, store8_apply_ne, store8_apply_ne] <;> omega

theorem store8_apply_of_ne (m : Mem) {a x : Nat} (v : Byte) (ha : a < 2 ^ 32) (hx : x ≠ a) :
    store8 m a v x = m x :=
  store8_apply_ne m v (by rwa [Nat.mod_eq_of_lt ha])

theorem splitMem_apply (hb : a + headerSize ≤ b) (hstop : b + headerSize ≤ 2 ^ 32) {x : Nat}
    (ha : x < a ∨ a + headerSize ≤ x) (hx : x < b ∨ b + headerSize ≤ x) :
    splitMem m a b n rest q x = m x := by
  simp only [headerSize] at *
  simp only [splitMem]
  rw [store8_apply_of_ne _ _ (by omega) (by omega), store32_apply_of_out _ _ (by omega) (by omega),
    store32_apply_of_out _ _ (by omega) (by omega), store32_apply_of_out _ _ (by omega) (by omega),
    store8_apply_of_ne _ _ (by omega) (by omega), store32_apply_of_out _ _ (by omega) (by omega)]

theorem splitMem_header (hb : a + headerSize ≤ b) (hstop : b + headerSize ≤ 2 ^ 32)
    (hn : n < 2 ^ 32) : Header (splitMem m a b n rest q) ⟨a, n, false⟩ b := by
  simp only [headerSize] at *
  refine ⟨?_, ?_, ?_⟩
  · simp only [splitMem]
    rw [load32_store8_apart _ _ (by simp only [Off]; omega),
      load32_store32_apart _ _ (by simp only [Off]; omega) (by simp only [Off]; omega),
      load32_store32_same _ _ hn]
  · exact load8_store8_same _ _ _
  · simp only [splitMem]
    rw [load32_store8_apart _ _ (by simp only [Off]; omega), load32_store32_same _ _ (by omega)]

theorem splitMem_header_rest (hb : a + headerSize ≤ b) (hstop : b + headerSize ≤ 2 ^ 32)
    (hr : rest < 2 ^ 32) (hq : q < 2 ^ 32) :
    Header (splitMem m a b n rest q) ⟨b, rest, true⟩ q := by
  -- the later stores all go to the header at `a`
  have hout : ∀ x, b ≤ x → splitMem m a b n rest q x =
      store32 (store8 (store32 m b rest) (b + 4) 1) (b + 5) q x := by
    intro x hx
    simp only [headerSize] at hb hstop
    simp only [splitMem]
    rw [store8_apply_of_ne _ _ (by omega) (by omega),
      store32_apply_of_out _ _ (by omega) (by omega), store32_apply_of_out _ _ (by omega) (by omega)]
  have hh : Header (store32 (store8 (store32 m b rest) (b + 4) 1) (b + 5) q) ⟨b, rest, true⟩ q := by
    simp only [headerSize] at hb hstop
    refine ⟨?_, ?_, load32_store32_same _ _ hq⟩
    · simp only
      rw [load32_store32_apart _ _ (by simp only [Off]; omega) (by simp only [Off]; omega),
        load32_store8_apart _ _ (by simp only [Off]; omega), load32_store32_same _ _ hr]
    · simp only
      rw [load8_store32_out _ _ (by simp only [Off]; omega), load8_store8_same]
      rfl
  exact hh.frame hstop fun x hx => hout x hx.1

theorem mergeMem_apply (ha : a + headerSize ≤ 2 ^ 32) {x : Nat} {s : Nat}
    (hx : x < a ∨ a + headerSize ≤ x) : mergeMem m a s q x = m x := by
  simp only [headerSize] at *
  simp only [mergeMem]
  rw [store32_apply_of_out _ _ (by omega) (by omega), store32_apply_of_out _ _ (by omega) (by omega)]

theorem mergeMem_header {r s : Nat} (hc : Header m c q) (ha : c.addr + headerSize ≤ 2 ^ 32)
    (hs : s < 2 ^ 32) (hr : r < 2 ^ 32) :
    Header (mergeMem m c.addr s r) { c with size := s } r := by
  simp only [headerSize] at *
  refine ⟨?_, ?_, load32_store32_same _ _ hr⟩
  · simp only [mergeMem]
    rw [load32_store32_apart _ _ (by simp only [Off]; omega) (by simp only [Off]; omega),
      load32_store32_same _ _ hs]
  · simp only [mergeMem]
    rw [load8_store32_out _ _ (by simp only [Off]; omega),
      load8_store32_out _ _ (by simp only [Off]; omega), hc.isFree]

/-- Storing the flag byte changes the flag and nothing else of the header. -/
theorem setFlag_header {f : Bool} (hc : Header m c q) (ha : c.addr + headerSize ≤ 2 ^ 32) :
    Header (store8 m (c.addr + 4) (flagOf f)) { c with free := f } q := by
  simp only [headerSize] at *
  refine ⟨?_, load8_store8_same _ _ _, ?_⟩
  · simp only
    rw [load32_store8_apart _ _ (by simp only [Off]; omega), hc.size]
  · simp only
    rw [load32_store8_apart _ _ (by simp only [Off]; omega), hc.next]

end

/-! ### What one pass leaves behind -/

section

variable {m m' : Mem} {c d : Chunk} {cs cs' ds : List Chunk} {p q r lo hi n x : Nat}

theorem not_touchable_head (hT : Tiles headerSize lo (c :: cs) hi)
    (hx : c.InHeader headerSize x) : ¬ Touchable cs x := by
  rintro ⟨d, hd, hin⟩
  have := hT.2.bounds hd
  simp only [Chunk.InHeader, Chunk.InData, Chunk.stop] at hx hin this
  omega

/-- A walk that moves on leaves the header behind it as it was. -/
theorem Chain.advance (hT : Tiles headerSize lo (c :: cs) hi) (hhi : hi < 2 ^ 32)
    (h0 : c.addr ≠ 0) (hc : Header m c q) (hC : Chain m' q cs') (hF : Frame cs m m') :
    Chain m' c.addr (c :: cs') ∧ Frame (c :: cs) m m' := by
  have hstop := hT.2.le
  simp only [Chunk.stop] at hstop
  have hhead : Header m' c q :=
    hc.frame (by omega) fun x hx => hF x (not_touchable_head hT hx)
  exact ⟨⟨rfl, h0, q, hhead, hC⟩, fun x hx => hF x fun ht => hx ht.cons⟩

/-- A split turns the free chunk `c` into a used one and a free rest. -/
theorem Chain.split (hT : Tiles headerSize lo (c :: cs) hi) (hhi : hi < 2 ^ 32)
    (h0 : c.addr ≠ 0) (hc : Header m c q) (hrest : Chain m q cs) (hf : c.free = true)
    (hs : n + headerSize + splitSlack ≤ c.size) :
    let b := c.addr + headerSize + n
    let m' := splitMem m c.addr b n (c.size - n - headerSize) q
    Chain m' c.addr (⟨c.addr, n, false⟩ :: ⟨b, c.size - n - headerSize, true⟩ :: cs) ∧
      Frame (c :: cs) m m' := by
  intro b m'
  have hstop := hT.2.le
  simp only [Chunk.stop] at hstop
  have hb : b + headerSize ≤ 2 ^ 32 := by omega
  refine ⟨?_, ?_⟩
  · refine ⟨rfl, h0, _, splitMem_header (by omega) hb (by omega), rfl, by omega, q,
      splitMem_header_rest (by omega) hb (by omega) hc.next_lt, ?_⟩
    refine hrest.frame hT.2 (Nat.le_of_lt hhi) ?_
    intro d hd x hx
    have hd' := (hT.2.bounds hd).1
    simp only [Chunk.InHeader, Chunk.stop] at hx hd'
    exact splitMem_apply (by omega) hb (Or.inr (by omega)) (Or.inr (by omega))
  · intro x hx
    have h1 : ¬ c.InHeader headerSize x := fun hh => hx ⟨c, List.mem_cons_self, Or.inl hh⟩
    have h2 : ¬ c.InData headerSize x :=
      fun hh => hx ⟨c, List.mem_cons_self, Or.inr ⟨hf, hh⟩⟩
    simp only [Chunk.InHeader, Chunk.InData, Chunk.stop] at h1 h2
    exact splitMem_apply (by omega) hb (by omega) (by omega)

theorem Chain.setFlag {f : Bool} (hT : Tiles headerSize lo (c :: cs) hi) (hhi : hi < 2 ^ 32)
    (h0 : c.addr ≠ 0) (hc : Header m c q) (hrest : Chain m q cs) :
    Chain (store8 m (c.addr + 4) (flagOf f)) c.addr ({ c with free := f } :: cs) ∧
      Frame (c :: cs) m (store8 m (c.addr + 4) (flagOf f)) := by
  have hstop := hT.2.le
  simp only [Chunk.stop, headerSize] at hstop
  refine ⟨?_, ?_⟩
  · refine ⟨rfl, h0, q, setFlag_header hc (by simp only [headerSize]; omega), ?_⟩
    refine hrest.frame hT.2 (Nat.le_of_lt hhi) ?_
    intro d hd x hx
    have hd' := (hT.2.bounds hd).1
    simp only [Chunk.InHeader, Chunk.stop, headerSize] at hx hd'
    exact store8_apply_of_ne _ _ (by omega) (by omega)
  · intro x hx
    have h1 : ¬ c.InHeader headerSize x := fun hh => hx ⟨c, List.mem_cons_self, Or.inl hh⟩
    simp only [Chunk.InHeader, headerSize] at h1
    exact store8_apply_of_ne _ _ (by omega) (by omega)

theorem Touchable.of_merged (hcd : c.stop headerSize = d.addr) (hc : c.free = true)
    (hd : d.free = true)
    (h : Touchable ({ c with size := c.size + headerSize + d.size } :: ds) x) :
    Touchable (c :: d :: ds) x := by
  obtain ⟨e, he, hin⟩ := h
  rcases List.mem_cons.mp he with rfl | he'
  · simp only [Chunk.InHeader, Chunk.InData, Chunk.stop, hc, true_and] at hin hcd
    by_cases hx : x < c.addr + headerSize + c.size
    · refine ⟨c, by simp, ?_⟩
      simp only [Chunk.InHeader, Chunk.InData, Chunk.stop, hc, true_and]
      omega
    · refine ⟨d, by simp, ?_⟩
      simp only [Chunk.InHeader, Chunk.InData, Chunk.stop, hd, true_and]
      omega
  · exact ⟨e, by simp [he'], hin⟩

theorem Chain.merge (hT : Tiles headerSize lo (c :: d :: ds) hi) (hhi : hi < 2 ^ 32)
    (h0 : c.addr ≠ 0) (hc : Header m c d.addr) (hd : Header m d r) (hrest : Chain m r ds) :
    let m' := mergeMem m c.addr (c.size + headerSize + d.size) r
    Chain m' c.addr ({ c with size := c.size + headerSize + d.size } :: ds) ∧
      Frame (c :: d :: ds) m m' := by
  intro m'
  have hcd := hT.2.1
  have hstop := hT.2.2.le
  simp only [Chunk.stop] at hcd hstop
  have ha : c.addr + headerSize ≤ 2 ^ 32 := by omega
  refine ⟨?_, ?_⟩
  · refine ⟨rfl, h0, r, mergeMem_header hc ha (by omega) hd.next_lt, ?_⟩
    refine hrest.frame hT.2.2 (Nat.le_of_lt hhi) ?_
    intro e he x hx
    have hb := (hT.2.2.bounds he).1
    simp only [Chunk.stop, Chunk.InHeader] at hb hx
    exact mergeMem_apply ha (Or.inr (by omega))
  · intro x hx
    have hx' : ¬ c.InHeader headerSize x := fun hh => hx ⟨c, List.mem_cons_self, Or.inl hh⟩
    simp only [Chunk.InHeader] at hx'
    exact mergeMem_apply ha (by omega)

end

/-! ### The loops are the list operations -/

section

variable {h : Heap} {cs : List Chunk} {p lo hi n fuel : Nat}

/-- **The search loop is first fit.** -/
theorem kmallocLoop_spec (hC : Chain h.mem p cs) (hT : Tiles headerSize lo cs hi)
    (hhi : hi < 2 ^ 32) (hroom : ∀ c ∈ cs, c.size + headerSize + splitSlack < 2 ^ 32)
    (hfuel : cs.length < fuel) :
    (alloc headerSize splitSlack n cs = none ∧ kmallocLoop n fuel p h = some (0, h)) ∨
    ∃ a cs' m', alloc headerSize splitSlack n cs = some (a, cs') ∧
      kmallocLoop n fuel p h = some (a + headerSize, { h with mem := m' }) ∧
      Chain m' p cs' ∧ Frame cs h.mem m' := by
  induction cs generalizing p lo fuel with
  | nil =>
    obtain ⟨f, rfl⟩ : ∃ f, fuel = f + 1 := ⟨fuel - 1, by simp at hfuel; omega⟩
    have hp : p = 0 := hC
    subst hp
    exact Or.inl ⟨rfl, kmallocLoop_null⟩
  | cons c cs ih =>
    obtain ⟨f, rfl⟩ : ∃ f, fuel = f + 1 := ⟨fuel - 1, by simp at hfuel; omega⟩
    obtain ⟨rfl, h0, q, hc, hrest⟩ := hC
    have hstop := hT.2.le
    by_cases hfit : c.free = true ∧ n ≤ c.size
    · apply Or.inr
      rw [alloc, if_pos hfit, place]
      by_cases hs : n + headerSize + splitSlack ≤ c.size
      · rw [if_pos hs]
        exact ⟨_, _, _, rfl, kmallocLoop_split hc h0 hfit.1 hs hstop hhi,
          Chain.split hT hhi h0 hc hrest hfit.1 hs⟩
      · rw [if_neg hs]
        exact ⟨_, _, _, rfl,
          kmallocLoop_whole hc h0 hfit.1 hfit.2 hs (hroom c List.mem_cons_self) hstop hhi,
          Chain.setFlag (f := false) hT hhi h0 hc hrest⟩
    · rw [alloc, if_neg hfit, kmallocLoop_skip hc h0 hfit]
      have hlen : cs.length < f := by simp only [List.length_cons] at hfuel; omega
      rcases ih hrest hT.2 (fun d hd => hroom d (List.mem_cons_of_mem c hd)) hlen
        with ⟨hnone, hrun⟩ | hsome
      · exact Or.inl ⟨by rw [hnone]; rfl, hrun⟩
      · obtain ⟨a, cs', m', hal, hrun, hC', hF⟩ := hsome
        exact Or.inr ⟨a, c :: cs', m', by rw [hal]; rfl, hrun, Chain.advance hT hhi h0 hc hC' hF⟩

/-- **The coalescing loop merges runs of free chunks.** -/
theorem kfreeLoop_spec {c : Chunk} (hC : Chain h.mem p (c :: cs))
    (hT : Tiles headerSize lo (c :: cs) hi) (hhi : hi < 2 ^ 32) (hfuel : cs.length < fuel) :
    ∃ m', kfreeLoop fuel p h = some { h with mem := m' } ∧
      Chain m' p (mergeFrom headerSize c cs) ∧ Frame (c :: cs) h.mem m' := by
  induction cs generalizing p lo fuel c h with
  | nil =>
    obtain ⟨f, rfl⟩ : ∃ f, fuel = f + 1 := ⟨fuel - 1, by omega⟩
    obtain ⟨rfl, h0, q, hc, hq⟩ := hC
    have hq0 : q = 0 := hq
    subst hq0
    exact ⟨h.mem, kfreeLoop_last hc, ⟨rfl, h0, 0, hc, rfl⟩, Frame.refl _ _⟩
  | cons d ds ih =>
    obtain ⟨f, rfl⟩ : ∃ f, fuel = f + 1 := ⟨fuel - 1, by omega⟩
    obtain ⟨rfl, h0, _, hc, rfl, h1, r, hd, hrest⟩ := hC
    have hlen : ds.length < f := by simp only [List.length_cons] at hfuel; omega
    have hcd := hT.2.1
    have hstop := hT.2.2.le
    rw [mergeFrom]
    by_cases hf : c.free = true ∧ d.free = true
    · -- the loop stays on the merged chunk
      rw [if_pos hf, kfreeLoop_merge hc hd h0 hf.1 hf.2 hcd.symm hstop hhi]
      obtain ⟨hmerged, hframe⟩ := Chain.merge hT hhi h0 hc hd hrest
      obtain ⟨m', hrun, hC', hF⟩ := ih (h := { h with
          mem := mergeMem h.mem c.addr (c.size + headerSize + d.size) r }) hmerged hT.merge hlen
      exact ⟨m', hrun, hC', hframe.trans hF fun x => Touchable.of_merged hcd.symm hf.1 hf.2⟩
    · rw [if_neg hf, kfreeLoop_advance hc hd h0 h1 hf]
      obtain ⟨m', hrun, hC', hF⟩ := ih ⟨rfl, h1, r, hd, hrest⟩ hT.2 hlen
      exact ⟨m', hrun, Chain.advance hT hhi h0 hc hC' hF⟩

end

end Antagonist
