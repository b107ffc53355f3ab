import Antagonist.Heap.Invariant
import Antagonist.Lib.Logged

/-!
# The stores of `kmalloc`

`kmallocStores` is `kmalloc` with a log: the heap after each of its stores, in
the order of the source.  An interrupt that comes in the middle of `kmalloc`
finds one of these heaps.

* `val_kmallocStores`: the log aside, it is `kmalloc`.
* `HeapInv.kmallocStores`: at each of these instants the live blocks hold what
  they held before.
-/

namespace Antagonist

open ByteMem Tiling

def Heap.stored (h : Heap) : Logged Heap Heap := .entry h h

/-- The search loop of `kmalloc`, standing on `current`. -/
def kmallocLoopStores (size : Nat) : Nat → Nat → Heap → Logged Heap (Option (Nat × Heap))
  | 0, _, _ => pure none
  | fuel + 1, current, h =>
      if current = 0 then pure (some (0, h))
      else if h.isFree current ≠ 0 ∧ size ≤ h.size current then do
        let (t, h) := h.add size headerSize
        let (need, h) := h.add t splitSlack
        let h ← (if need ≤ h.size current then (do
            let (t, h) := h.add current headerSize
            let (split, h) := h.add t size
            let (t, h) := h.sub (h.size current) size
            let (rest, h) := h.sub t headerSize
            let h ← (h.setSize split rest).stored
            let h ← (h.setIsFree split 1).stored
            let h ← (h.setNext split (h.next current)).stored
            let h ← (h.setSize current size).stored
            (h.setNext current split).stored)
          else pure h : Logged Heap Heap)
        let h ← (h.setIsFree current 0).stored
        let (usable, h) := h.add current headerSize
        pure (some (usable, h))
      else kmallocLoopStores size fuel (h.next current) h

def kmallocStores (size : Nat) (h : Heap) : Logged Heap (Option (Nat × Heap)) :=
  kmallocLoopStores size walkFuel h.heapStart h

section

variable {R : HeapRegion} {cs : List Chunk} {h : Heap} {m : Mem} {a n p lo hi fuel : Nat}

theorem val_kmallocLoopStores :
    (kmallocLoopStores n fuel p h).val = kmallocLoop n fuel p h := by
  induction fuel generalizing p with
  | zero => rfl
  | succ fuel ih =>
    rw [kmallocLoopStores, kmallocLoop, Logged.val_ite, Logged.val_ite, ih]
    simp only [Logged.val_bind, Logged.val_ite]
    rfl

/-- **The log aside, it is `kmalloc`.** -/
theorem val_kmallocStores : (kmallocStores n h).val = kmalloc n h :=
  val_kmallocLoopStores

/-! ### Each store keeps the frame -/

/-- `kmalloc` may write a whole header at `a`. -/
def Writable (cs : List Chunk) (a : Nat) : Prop :=
  a + headerSize ≤ 2 ^ 32 ∧ ∀ x, a ≤ x → x < a + headerSize → Touchable cs x

theorem Writable.out (ha : Writable cs a) {x : Nat} (hx : ¬ Touchable cs x) :
    x < a ∨ a + headerSize ≤ x := by
  by_contra hin
  exact hx (ha.2 x (by omega) (by omega))

theorem Frame.header {m' : Mem} (hF : Frame cs m h.mem) (ha : Writable cs a)
    (hstore : ∀ x, x < a ∨ a + headerSize ≤ x → m' x = h.mem x) : Frame cs m m' := by
  intro x hx
  rw [hstore x (ha.out hx), hF x hx]

theorem Frame.setSize (hF : Frame cs m h.mem) (ha : Writable cs a) (v : Nat) :
    Frame cs m (h.setSize a v).mem := by
  have hlt := ha.1
  apply hF.header ha
  intro x hx
  simp only [headerSize] at hx hlt
  exact store32_apply_of_out _ _ (by omega) (by omega)

theorem Frame.setIsFree (hF : Frame cs m h.mem) (ha : Writable cs a) (b : Byte) :
    Frame cs m (h.setIsFree a b).mem := by
  have hlt := ha.1
  apply hF.header ha
  intro x hx
  simp only [headerSize] at hx hlt
  exact store8_apply_of_ne _ _ (by omega) (by omega)

theorem Frame.setNext (hF : Frame cs m h.mem) (ha : Writable cs a) (v : Nat) :
    Frame cs m (h.setNext a v).mem := by
  have hlt := ha.1
  apply hF.header ha
  intro x hx
  simp only [headerSize] at hx hlt
  exact store32_apply_of_out _ _ (by omega) (by omega)

variable {c : Chunk} {q : Nat}

theorem writable_head (hstop : c.stop headerSize ≤ hi) (hhi : hi < 2 ^ 32) :
    Writable (c :: cs) c.addr := by
  simp only [Chunk.stop] at hstop
  exact ⟨by omega, fun x h1 h2 => ⟨c, List.mem_cons_self, Or.inl ⟨h1, h2⟩⟩⟩

/-- The header of the rest lies in the data of the chunk that is split. -/
theorem writable_split (hf : c.free = true) (hs : n + headerSize + splitSlack ≤ c.size)
    (hstop : c.stop headerSize ≤ hi) (hhi : hi < 2 ^ 32) :
    Writable (c :: cs) (c.addr + headerSize + n) := by
  simp only [Chunk.stop] at hstop
  refine ⟨by omega, fun x h1 h2 => ⟨c, List.mem_cons_self, Or.inr ⟨hf, ?_⟩⟩⟩
  simp only [Chunk.InData, Chunk.stop]
  omega

theorem kmallocLoopStores_take (hc : Header h.mem c q) (h0 : c.addr ≠ 0) (hf : c.free = true)
    (hn : n ≤ c.size) (hroom : c.size + headerSize + splitSlack < 2 ^ 32)
    (hstop : c.stop headerSize ≤ hi) (hhi : hi < 2 ^ 32) :
    Logged.All (fun h' => Frame (c :: cs) h.mem h'.mem)
      (kmallocLoopStores n (fuel + 1) c.addr h) := by
  have hsz : h.size c.addr = c.size := hc.size
  have hW : Writable (c :: cs) c.addr := writable_head hstop hhi
  have hle : c.addr + headerSize + c.size < 2 ^ 32 := Nat.lt_of_le_of_lt hstop hhi
  obtain ⟨e1, e2⟩ := Heap.need_of_lt (h := h) (n := n) (by omega)
  have F0 : Frame (c :: cs) h.mem h.mem := Frame.refl _ _
  rw [kmallocLoopStores, if_neg h0, if_pos (hc.fit_iff.mpr ⟨hf, hn⟩)]
  simp only [e1, e2, hsz]
  by_cases hs : n + headerSize + splitSlack ≤ c.size
  · have hS : Writable (c :: cs) (c.addr + headerSize + n) := writable_split hf hs hstop hhi
    obtain ⟨e3, e4, e5, e6⟩ := Heap.split_of_le (h := h) (c := c) (n := n) (by omega) hle
    simp only [if_pos hs, e3, e4, hsz, e5, e6]
    have F1 := F0.setSize hS (c.size - n - headerSize)
    have F2 := F1.setIsFree hS 1
    have F3 := fun v => F2.setNext hS v
    have F4 := fun v => (F3 v).setSize hW n
    have F5 := fun v => (F4 v).setNext hW (c.addr + headerSize + n)
    have F6 := fun v => (F5 v).setIsFree hW 0
    simp only [Logged.all_bind, Heap.stored, Logged.all_entry]
    exact ⟨⟨F1, F2, F3 _, F4 _, F5 _⟩, F6 _, Logged.all_pure _⟩
  · simp only [if_neg hs, Logged.all_bind, Heap.stored, Logged.all_entry]
    exact ⟨Logged.all_pure _, F0.setIsFree hW 0, Logged.all_pure _⟩

theorem kmallocLoopStores_frame (hC : Chain h.mem p cs) (hT : Tiles headerSize lo cs hi)
    (hhi : hi < 2 ^ 32) (hroom : ∀ c ∈ cs, c.size + headerSize + splitSlack < 2 ^ 32) :
    Logged.All (fun h' => Frame cs h.mem h'.mem) (kmallocLoopStores n fuel p h) := by
  induction cs generalizing p lo fuel with
  | nil =>
    obtain rfl : p = 0 := hC
    cases fuel with
    | zero => exact Logged.all_pure _
    | succ fuel =>
      rw [kmallocLoopStores, if_pos rfl]
      exact Logged.all_pure _
  | cons c cs ih =>
    obtain ⟨rfl, h0, q, hc, hrest⟩ := hC
    have hstop := hT.2.le
    cases fuel with
    | zero => exact Logged.all_pure _
    | succ fuel =>
      by_cases hfit : c.free = true ∧ n ≤ c.size
      · exact kmallocLoopStores_take hc h0 hfit.1 hfit.2 (hroom c List.mem_cons_self) hstop hhi
      · have hnext : h.next c.addr = q := hc.next
        rw [kmallocLoopStores, if_neg h0, if_neg (mt hc.fit_iff.mp hfit), hnext]
        have hall : Logged.All (fun h' => Frame cs h.mem h'.mem) (kmallocLoopStores n fuel q h) :=
          ih hrest hT.2 fun d hd => hroom d (List.mem_cons_of_mem c hd)
        exact hall.imp fun h' hF x hx => hF x fun ht => hx ht.cons

/-- **At every instant of `kmalloc` the live blocks are as they were.** -/
theorem HeapInv.kmallocStores {s : HeapSys} (H : HeapInv R s cs) (n : Nat) :
    Logged.All (fun h' => ∀ b ∈ s.live, ∀ x, InBlock b x → h'.mem x = s.heap.mem x)
      (kmallocStores n s.heap) := by
  have hall : Logged.All (fun h' => Frame cs s.heap.mem h'.mem)
      (Antagonist.kmallocStores n s.heap) :=
    kmallocLoopStores_frame H.heapAt.chain H.heapAt.tiles R.stop_lt H.heapAt.room
  refine hall.imp ?_
  intro h' hF b hb x hx
  obtain ⟨c, hc, hu, _, hin⟩ := H.block_data hb
  exact hF x (H.heapAt.not_touchable hc hu (hin x hx))

end

end Antagonist
