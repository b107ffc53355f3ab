import Antagonist.Task.ContextSwitch
import Antagonist.Task.Schedule

/-!
# Threads on the machine

`switchLts` puts the threads of `Task/Thread.lean` on the machine: they work, are
created, and call `context_switch`.

A thread that is not running is `Parked`: its block holds a stack pointer, and
the stack there holds eight registers and a return address.  `create_thread`
makes up such a frame and `context_switch` leaves one behind, so the routine need
not know which of the two it takes the next thread from (`Suspended`).

* `SwitchInv.work`, `SwitchInv.create`, `SwitchInv.switch`: every step keeps the
  parked threads parked.
-/

namespace Antagonist

open ByteMem Tiling X86

/-! ### Threads on the machine -/

/-- A thread: its control block, its stack, and the routine it was made for.
`init_multitasking` gives task 0 none; its stack is the one `boot.s` starts on. -/
structure Thread where
  tcb : Nat
  stack : Nat
  size : Nat
  entry : Word

def regions (ths : List Thread) : List (Nat × Nat) :=
  ths.flatMap fun th => [(th.tcb, tcbSize), (th.stack, th.size)]

/-- The machine as `context_switch` is called. -/
structure Call where
  returnAddress : Word
  regs : Reg → Word

/-- The machine, the kernel over its memory, and the threads made since
`init_multitasking`, the newest first. -/
structure SwitchSys where
  regs : Reg → Word
  eip : Word
  kernel : Kernel
  created : List Thread

def SwitchSys.cpu (s : SwitchSys) : Cpu := ⟨s.regs, s.eip, s.kernel.heap.mem⟩

/-- After `context_switch`, which `switch_task` has called in the kernel `k`. -/
def SwitchSys.switched (s : SwitchSys) (k : Kernel) : SwitchSys :=
  let cpu := execAll contextSwitch s.cpu
  { s with
    regs := cpu.regs
    eip := cpu.eip
    kernel := { k with heap := { k.heap with mem := cpu.mem } } }

/-- What happens.  `switch` names the thread that calls, its call, and the thread
that becomes `running_task`. -/
inductive SwitchOp
  | work
  | create (th : Thread)
  | switch (old : Nat) (call : Call) (new : Nat)
  | stay

/-- One step.  `work` is anything the running thread does between the calls: it
leaves the control blocks alone and the stacks of the other threads.  In `create`
both `kmalloc`s succeed (see `allocThread_spec`).  In `switch` the arguments lie
above the return address, and the thread has room on its stack. -/
inductive SwitchStep (bootstrap : Word) (task0 : Thread) :
    SwitchSys → SwitchOp → SwitchSys → Prop
  | work {s : SwitchSys} {regs : Reg → Word} {eip : Word} {heap : Heap} :
      (∀ th ∈ task0 :: s.created, ∀ x, InBlock (th.tcb, tcbSize) x →
        heap.mem x = s.kernel.heap.mem x) →
      (∀ th ∈ task0 :: s.created, th.tcb ≠ s.kernel.runningTask → ∀ x,
        InBlock (th.stack, th.size) x → heap.mem x = s.kernel.heap.mem x) →
      SwitchStep bootstrap task0 s .work ⟨regs, eip, { s.kernel with heap }, s.created⟩
  | create {s : SwitchSys} {entry : Word} {t b : Nat} {k : Kernel} :
      allocThread s.kernel = some (t, b, k) →
      Allocated s.kernel k (regions (task0 :: s.created)) t b →
      SwitchStep bootstrap task0 s (.create ⟨t, b, stackSize, entry⟩)
        { s with
          kernel := setupThread bootstrap.toNat entry.toNat t b k
          created := ⟨t, b, stackSize, entry⟩ :: s.created }
  | switch {s : SwitchSys} {oldEspSlot newEsp : Nat} {k : Kernel} {th : Thread} :
      switchTask s.kernel = some (oldEspSlot, newEsp, k) →
      oldEspSlotArg s.cpu = BitVec.ofNat 32 oldEspSlot →
      newEspArg s.cpu = BitVec.ofNat 32 newEsp →
      th ∈ task0 :: s.created → th.tcb = s.kernel.runningTask →
      th.stack + 32 ≤ (s.regs .esp).toNat → (s.regs .esp).toNat + 4 ≤ th.stack + th.size →
      SwitchStep bootstrap task0 s
        (.switch s.kernel.runningTask ⟨loadW s.kernel.heap.mem (s.regs .esp), s.regs⟩ k.runningTask)
        (s.switched k)
  | stay {s : SwitchSys} : switchTask s.kernel = none → SwitchStep bootstrap task0 s .stay s

/-- All runs after `init_multitasking`. -/
def switchLts (R : HeapRegion) (bootstrap : Word) (task0 : Thread) : Lts SwitchSys SwitchOp where
  init s := ∃ m, initMultitasking (freshKernel R m) = some s.kernel ∧
    s.kernel.taskListHead = task0.tcb ∧ s.created = []
  step := SwitchStep bootstrap task0

def callOf (t : Nat) : SwitchOp → Option Call
  | .switch old call _ => if old = t then some call else none
  | _ => none

/-- The last call that `t` has made. -/
def lastCall (tr : List SwitchOp) (t : Nat) : Option Call := (tr.filterMap (callOf t)).getLast?

theorem lastCall_snoc (tr : List SwitchOp) (a : SwitchOp) (t : Nat) :
    lastCall (tr ++ [a]) t = (callOf t a).or (lastCall tr t) := by
  rw [lastCall, List.filterMap_append]
  cases h : callOf t a with
  | none =>
    rw [List.filterMap_cons_none h, List.filterMap_nil, List.append_nil]
    rfl
  | some call =>
    rw [List.filterMap_cons_some h, List.filterMap_nil, List.getLast?_concat]
    rfl

/-! ### The invariant -/

structure Layout (ths : List Thread) : Prop where
  tcb : ∀ a ∈ ths, ∀ b ∈ ths, a.tcb ≠ b.tcb → Separate a.tcb tcbSize b.tcb tcbSize
  stack : ∀ a ∈ ths, ∀ b ∈ ths, a.tcb ≠ b.tcb → Separate a.stack a.size b.stack b.size
  cross : ∀ a ∈ ths, ∀ b ∈ ths, Separate a.tcb tcbSize b.stack b.size
  fits : ∀ a ∈ ths, a.stack + a.size < 2 ^ 32

/-- A thread is parked: its block points to a frame on its stack, with what `popa`
and `ret` will take. -/
structure Parked (k : Kernel) (th : Thread) (frame : Reg → Word) (returnAddress esp : Word) :
    Prop where
  slot : k.esp th.tcb = esp.toNat
  room : th.stack ≤ esp.toNat ∧ esp.toNat + 36 ≤ th.stack + th.size
  regs : ∀ r, r ≠ .esp → loadW k.heap.mem (esp + pushaOffset r) = frame r
  ret : loadW k.heap.mem (esp + 32) = returnAddress

/-- The registers that the C++ compiler expects a call to keep. -/
def calleeSaved : List Reg := [.ebx, .esi, .edi, .ebp]

/-- Where a thread that is not running is parked: in its last call, or on the
frame that `create_thread` has made up. -/
def Suspended (bootstrap : Word) (k : Kernel) (created : List Thread) (th : Thread) :
    Option Call → Prop
  | some call => ∃ frame, (∀ r ∈ calleeSaved, frame r = call.regs r) ∧
      Parked k th frame call.returnAddress (call.regs .esp - 32)
  | none => th ∈ created ∧
      Parked k th (fun _ => 0) bootstrap (BitVec.ofNat 32 (th.stack + 4060))

/-- The invariant of a run `tr` that ends in `s`. -/
structure SwitchInv (bootstrap : Word) (task0 : Thread) (tr : List SwitchOp) (s : SwitchSys) :
    Prop where
  ring : TaskRing s.kernel task0.tcb (s.created.map Thread.tcb)
  layout : Layout (task0 :: s.created)
  size : ∀ th ∈ s.created, th.size = stackSize
  entry : ∀ th ∈ s.created, s.kernel.entry th.tcb = th.entry.toNat
  suspended : ∀ th ∈ task0 :: s.created, th.tcb ≠ s.kernel.runningTask →
    Suspended bootstrap s.kernel s.created th (lastCall tr th.tcb)
  known : ∀ t, lastCall tr t ≠ none → t ∈ (task0 :: s.created).map Thread.tcb

section

variable {R : HeapRegion} {bootstrap : Word} {task0 : Thread} {tr : List SwitchOp} {s : SwitchSys}
  {k k' : Kernel} {th : Thread} {created : List Thread}

theorem mem_regions_tcb {ths : List Thread} (h : th ∈ ths) : (th.tcb, tcbSize) ∈ regions ths :=
  List.mem_flatMap.mpr ⟨th, h, List.mem_cons_self⟩

theorem mem_regions_stack {ths : List Thread} (h : th ∈ ths) :
    (th.stack, th.size) ∈ regions ths :=
  List.mem_flatMap.mpr ⟨th, h, List.mem_cons_of_mem _ List.mem_cons_self⟩

theorem regions_of_tcb (ths : List Thread) :
    ∀ u ∈ ths.map Thread.tcb, (u, tcbSize) ∈ regions ths := by
  intro u hu
  obtain ⟨th, hth, rfl⟩ := List.mem_map.mp hu
  exact mem_regions_tcb hth

/-- A thread stays parked while its slot and its stack are left alone. -/
theorem Parked.congr {frame : Reg → Word} {returnAddress esp : Word}
    (P : Parked k th frame returnAddress esp) (htcb : th.tcb + tcbSize < 2 ^ 32)
    (hstack : th.stack + th.size < 2 ^ 32)
    (hslot : ∀ x, th.tcb + 4 ≤ x → x < th.tcb + 8 → k'.heap.mem x = k.heap.mem x)
    (hmem : ∀ x, InBlock (th.stack, th.size) x → k'.heap.mem x = k.heap.mem x) :
    Parked k' th frame returnAddress esp := by
  obtain ⟨hesp, ⟨hlo, hhi⟩, hregs, hret⟩ := P
  simp only [InBlock] at hmem
  simp only [tcbSize] at htcb
  have hword : ∀ w : Word, esp.toNat ≤ w.toNat → w.toNat + 4 ≤ esp.toNat + 36 →
      loadW k'.heap.mem w = loadW k.heap.mem w := by
    intro w h1 h2
    exact loadW_of_bytes (by omega) fun x _ _ => hmem x ⟨by omega, by omega⟩
  refine ⟨?_, ⟨hlo, hhi⟩, fun r hr => ?_, ?_⟩
  · rw [← hesp]
    exact load32_of_bytes (by omega) fun x h1 h2 => hslot x h1 (by omega)
  · have hoff := pushaOffset_le r
    rw [hword _ (by bv_omega) (by bv_omega), hregs r hr]
  · rw [hword _ (by bv_omega) (by bv_omega), hret]

theorem Suspended.congr {call : Option Call} (S : Suspended bootstrap k created th call)
    (htcb : th.tcb + tcbSize < 2 ^ 32) (hstack : th.stack + th.size < 2 ^ 32)
    (hslot : ∀ x, th.tcb + 4 ≤ x → x < th.tcb + 8 → k'.heap.mem x = k.heap.mem x)
    (hmem : ∀ x, InBlock (th.stack, th.size) x → k'.heap.mem x = k.heap.mem x)
    {created' : List Thread} (hsub : created ⊆ created') :
    Suspended bootstrap k' created' th call := by
  cases call with
  | none => exact ⟨hsub S.1, S.2.congr htcb hstack hslot hmem⟩
  | some call =>
    obtain ⟨frame, hframe, P⟩ := S
    exact ⟨frame, hframe, P.congr htcb hstack hslot hmem⟩

theorem SwitchInv.fits (H : SwitchInv bootstrap task0 tr s) (h : th ∈ task0 :: s.created) :
    0 < th.tcb ∧ th.tcb + tcbSize < 2 ^ 32 := by
  have hmem : th.tcb ∈ (task0 :: s.created).map Thread.tcb := List.mem_map_of_mem h
  exact H.ring.fits _ hmem

/-- The control blocks are read as before where their bytes are kept. -/
theorem SwitchInv.fields (H : SwitchInv bootstrap task0 tr s) (heap : Heap)
    (htcb : ∀ th ∈ task0 :: s.created, ∀ x, InBlock (th.tcb, tcbSize) x →
      heap.mem x = s.kernel.heap.mem x) (hth : th ∈ task0 :: s.created) :
    ({ s.kernel with heap } : Kernel).id th.tcb = s.kernel.id th.tcb ∧
    ({ s.kernel with heap } : Kernel).esp th.tcb = s.kernel.esp th.tcb ∧
    ({ s.kernel with heap } : Kernel).entry th.tcb = s.kernel.entry th.tcb ∧
    ({ s.kernel with heap } : Kernel).next th.tcb = s.kernel.next th.tcb :=
  fields_of_bytes (Nat.le_of_lt (H.fits hth).2) fun x h1 h2 => htcb th hth x ⟨h1, h2⟩

/-- **Work** of the running thread. -/
theorem SwitchInv.work (H : SwitchInv bootstrap task0 tr s) {regs : Reg → Word} {eip : Word}
    {heap : Heap} (htcb : ∀ th ∈ task0 :: s.created, ∀ x, InBlock (th.tcb, tcbSize) x →
      heap.mem x = s.kernel.heap.mem x)
    (hstack : ∀ th ∈ task0 :: s.created, th.tcb ≠ s.kernel.runningTask → ∀ x,
      InBlock (th.stack, th.size) x → heap.mem x = s.kernel.heap.mem x) :
    SwitchInv bootstrap task0 (tr ++ [.work]) ⟨regs, eip, { s.kernel with heap }, s.created⟩ := by
  have hfields := fun th (hth : th ∈ task0 :: s.created) => H.fields heap htcb hth
  refine ⟨H.ring.congr ?_ rfl H.ring.running rfl, H.layout, H.size, ?_, ?_, ?_⟩
  · intro t ht
    rw [← List.map_cons] at ht
    obtain ⟨th, hth, rfl⟩ := List.mem_map.mp ht
    exact ⟨(hfields th hth).2.2.2, (hfields th hth).1⟩
  · intro th hth
    rw [← H.entry th hth]
    exact (hfields th (List.mem_cons_of_mem _ hth)).2.2.1
  · intro th hth hne
    rw [lastCall_snoc]
    refine (H.suspended th hth hne).congr (H.fits hth).2 (H.layout.fits th hth) ?_
      (hstack th hth hne) (List.Subset.refl _)
    intro x h1 h2
    exact htcb th hth x ⟨by simp only; omega, by simp only [tcbSize]; omega⟩
  · intro t ht
    rw [lastCall_snoc] at ht
    exact H.known t ht

theorem Created.parked {held : List (Nat × Nat)} {entry : Word} {t b : Nat}
    (C : Created k k' held bootstrap.toNat entry.toNat t b) (hb : b + stackSize < 2 ^ 32) :
    Parked k' ⟨t, b, stackSize, entry⟩ (fun _ => 0) bootstrap (BitVec.ofNat 32 (b + 4060)) := by
  simp only [stackSize] at hb
  have hesp : (BitVec.ofNat 32 (b + 4060)).toNat = b + 4060 := by
    rw [BitVec.toNat_ofNat, Nat.mod_eq_of_lt (by omega)]
  refine ⟨?_, ?_, fun r _ => ?_, ?_⟩
  · rw [hesp]
    exact C.esp
  · rw [hesp]
    simp only [stackSize]
    omega
  · obtain ⟨i, hi, hr⟩ := exists_pushaOffset r
    have hword : (BitVec.ofNat 32 (b + 4060) + pushaOffset r).toNat = b + 4060 + 4 * i := by
      rw [BitVec.toNat_add, hesp, hr, Nat.mod_eq_of_lt (by omega)]
    rw [loadW, hword, show load32 k'.heap.mem (b + 4060 + 4 * i) = 0 from C.zero i hi]
    rfl
  · have hword : (BitVec.ofNat 32 (b + 4060) + 32).toNat = b + 4092 := by bv_omega
    rw [loadW, hword, show load32 k'.heap.mem (b + 4092) = bootstrap.toNat from C.ret,
      BitVec.ofNat_toNat, BitVec.setWidth_eq]

theorem Layout.create (L : Layout (task0 :: created)) {t b : Nat} {entry : Word}
    (A : Allocated k k' (regions (task0 :: created)) t b) :
    Layout (task0 :: ⟨t, b, stackSize, entry⟩ :: created) := by
  have hold : ∀ a ∈ task0 :: ⟨t, b, stackSize, entry⟩ :: created,
      a = ⟨t, b, stackSize, entry⟩ ∨ a ∈ task0 :: created := by
    intro a ha
    simp only [List.mem_cons] at ha ⊢
    rcases ha with h | h | h
    · exact Or.inr (Or.inl h)
    · exact Or.inl h
    · exact Or.inr (Or.inr h)
  refine ⟨fun a ha c hc hne => ?_, fun a ha c hc hne => ?_, fun a ha c hc => ?_, fun a ha => ?_⟩
  · rcases hold a ha with rfl | ha <;> rcases hold c hc with rfl | hc
    · exact absurd rfl hne
    · exact A.tcb_new _ (mem_regions_tcb hc)
    · exact (A.tcb_new _ (mem_regions_tcb ha)).symm
    · exact L.tcb a ha c hc hne
  · rcases hold a ha with rfl | ha <;> rcases hold c hc with rfl | hc
    · exact absurd rfl hne
    · exact A.stack_new _ (mem_regions_stack hc)
    · exact (A.stack_new _ (mem_regions_stack ha)).symm
    · exact L.stack a ha c hc hne
  · rcases hold a ha with rfl | ha <;> rcases hold c hc with rfl | hc
    · exact A.apart
    · exact A.tcb_new _ (mem_regions_stack hc)
    · exact (A.stack_new _ (mem_regions_tcb ha)).symm
    · exact L.cross a ha c hc
  · rcases hold a ha with rfl | ha
    · exact A.stack.2
    · exact L.fits a ha

/-- What `create_thread` has done, in terms of `Task/Create.lean`. -/
theorem SwitchInv.create_created (H : SwitchInv bootstrap task0 tr s) {entry : Word} {t b : Nat}
    (A : Allocated s.kernel k (regions (task0 :: s.created)) t b) :
    Created s.kernel (setupThread bootstrap.toNat entry.toNat t b k)
      (regions (task0 :: s.created)) bootstrap.toNat entry.toNat t b := by
  have hroom := length_le_of_fits H.ring.nodup H.ring.fits
  simp only [List.length_cons, tcbSize] at hroom
  have hhead : (s.kernel.taskListHead, tcbSize) ∈ regions (task0 :: s.created) := by
    rw [H.ring.head]
    exact mem_regions_tcb List.mem_cons_self
  have hfits : ∀ blk ∈ regions (task0 :: s.created), blk.1 + blk.2 < 2 ^ 32 := by
    intro blk hblk
    obtain ⟨th, hth, hmem⟩ := List.mem_flatMap.mp hblk
    simp only [List.mem_cons, List.not_mem_nil, or_false] at hmem
    rcases hmem with rfl | rfl
    · exact (H.fits hth).2
    · exact H.layout.fits th hth
  exact createThread_spec A hhead hfits (by rw [H.ring.nextThreadId]; omega)

/-- Of the blocks that are held, `create_thread` rewrites only the head's link:
no slot, no entry and no stack. -/
theorem SwitchInv.create_frame (H : SwitchInv bootstrap task0 tr s) {entry t b : Nat}
    (C : Created s.kernel k' (regions (task0 :: s.created)) bootstrap.toNat entry t b)
    (hth : th ∈ task0 :: s.created) :
    (∀ x, th.tcb + 4 ≤ x → x < th.tcb + 12 → k'.heap.mem x = s.kernel.heap.mem x) ∧
      ∀ x, InBlock (th.stack, th.size) x → k'.heap.mem x = s.kernel.heap.mem x := by
  have hframe := C.frame
  rw [H.ring.head] at hframe
  refine ⟨fun x h1 h2 => ?_, fun x hx => ?_⟩
  · have hapart := H.layout.tcb th hth task0 List.mem_cons_self
    simp only [Separate, tcbSize] at hapart
    apply hframe _ (mem_regions_tcb hth) x
    · exact ⟨by simp only; omega, by simp only [tcbSize]; omega⟩
    · by_cases he : th.tcb = task0.tcb
      · omega
      · have := hapart he
        omega
  · have hapart := H.layout.cross task0 List.mem_cons_self th hth
    apply hframe _ (mem_regions_stack hth) x hx
    simp only [InBlock] at hx
    simp only [Separate, tcbSize] at hapart
    omega

theorem SwitchInv.create_ring (H : SwitchInv bootstrap task0 tr s) {entry : Word} {t b : Nat}
    (A : Allocated s.kernel k (regions (task0 :: s.created)) t b) :
    TaskRing (setupThread bootstrap.toNat entry.toNat t b k) task0.tcb
      (t :: s.created.map Thread.tcb) := by
  refine H.ring.create (regions_of_tcb (task0 :: s.created)) ?_ A (H.create_created A)
  intro u hu
  obtain ⟨th, hth, rfl⟩ := List.mem_map.mp hu
  apply H.layout.tcb th (List.mem_cons_of_mem _ hth) task0 List.mem_cons_self
  exact fun he => (List.nodup_cons.mp H.ring.nodup).1 (he ▸ hu)

theorem SwitchInv.create_entry (H : SwitchInv bootstrap task0 tr s) {entry t b : Nat}
    (C : Created s.kernel k' (regions (task0 :: s.created)) bootstrap.toNat entry t b)
    (hth : th ∈ s.created) : k'.entry th.tcb = th.entry.toNat := by
  have hth' := List.mem_cons_of_mem task0 hth
  have htop := (H.fits hth').2
  have hslot := (H.create_frame C hth').1
  simp only [tcbSize] at htop
  rw [← H.entry th hth]
  exact load32_of_bytes (by omega) fun x h1 h2 => hslot x (by omega) (by omega)

theorem SwitchInv.create_keeps (H : SwitchInv bootstrap task0 tr s) {entry t b : Nat}
    (C : Created s.kernel k' (regions (task0 :: s.created)) bootstrap.toNat entry t b)
    (hth : th ∈ task0 :: s.created) (hne : th.tcb ≠ s.kernel.runningTask) (new : Thread) :
    Suspended bootstrap k' (new :: s.created) th (lastCall tr th.tcb) := by
  obtain ⟨hslot, hstack⟩ := H.create_frame C hth
  refine (H.suspended th hth hne).congr (H.fits hth).2 (H.layout.fits th hth) ?_ hstack
    (List.subset_cons_self new s.created)
  intro x h1 h2
  exact hslot x h1 (by omega)

/-- The new thread has not called yet, and is parked on the frame made up for it. -/
theorem SwitchInv.create_parks (H : SwitchInv bootstrap task0 tr s) {entry : Word} {t b : Nat}
    (A : Allocated s.kernel k (regions (task0 :: s.created)) t b) :
    Suspended bootstrap (setupThread bootstrap.toNat entry.toNat t b k)
      (⟨t, b, stackSize, entry⟩ :: s.created) ⟨t, b, stackSize, entry⟩ (lastCall tr t) := by
  have hnone : lastCall tr t = none := by
    by_contra h
    exact A.not_mem (regions_of_tcb _) (H.known t h)
  rw [hnone]
  exact ⟨List.mem_cons_self, (H.create_created A).parked A.stack.2⟩

/-- **`create_thread`** parks the new thread. -/
theorem SwitchInv.create (H : SwitchInv bootstrap task0 tr s) {entry : Word} {t b : Nat}
    (A : Allocated s.kernel k (regions (task0 :: s.created)) t b) :
    SwitchInv bootstrap task0 (tr ++ [.create ⟨t, b, stackSize, entry⟩])
      { s with
        kernel := setupThread bootstrap.toNat entry.toNat t b k
        created := ⟨t, b, stackSize, entry⟩ :: s.created } := by
  have C : Created s.kernel (setupThread bootstrap.toNat entry.toNat t b k)
      (regions (task0 :: s.created)) bootstrap.toNat entry.toNat t b := H.create_created A
  have hrunning : (setupThread bootstrap.toNat entry.toNat t b k).runningTask
      = s.kernel.runningTask := C.runningTask
  refine ⟨H.create_ring A, H.layout.create A, ?_, ?_, ?_, ?_⟩
  · intro th hth
    rcases List.mem_cons.mp hth with rfl | hth
    · rfl
    · exact H.size th hth
  · intro th hth
    rcases List.mem_cons.mp hth with rfl | hth
    · exact C.entry
    · exact H.create_entry C hth
  · intro th hth hne
    rw [lastCall_snoc]
    rw [hrunning] at hne
    rcases List.mem_cons.mp hth with rfl | hth
    · exact H.create_keeps C List.mem_cons_self hne _
    rcases List.mem_cons.mp hth with rfl | hth
    · exact H.create_parks A
    · exact H.create_keeps C (List.mem_cons_of_mem _ hth) hne _
  · intro u hu
    rw [lastCall_snoc] at hu
    have hmem := H.known u hu
    simp only [List.map_cons, List.mem_cons] at hmem ⊢
    exact hmem.imp id Or.inr

/-- `context_switch` as `switch_task` calls it, in a thread `me` with room on its
stack. -/
structure Calls (s : SwitchSys) (task0 me : Thread) : Prop where
  mem : me ∈ task0 :: s.created
  running : me.tcb = s.kernel.runningTask
  slot : (oldEspSlotArg s.cpu).toNat = me.tcb + 4
  low : me.stack + 32 ≤ (s.regs .esp).toNat
  high : (s.regs .esp).toNat + 4 ≤ me.stack + me.size

/-- Parking the running thread writes its own stack and its slot. -/
theorem SwitchInv.switch_frame (H : SwitchInv bootstrap task0 tr s) {me : Thread}
    (M : Calls s task0 me) (hth : th ∈ task0 :: s.created) :
    (∀ x, InBlock (th.tcb, tcbSize) x → ¬ (me.tcb + 4 ≤ x ∧ x < me.tcb + 8) →
      parkedMem s.cpu x = s.kernel.heap.mem x) ∧
    (th.tcb ≠ me.tcb → ∀ x, InBlock (th.stack, th.size) x →
      parkedMem s.cpu x = s.kernel.heap.mem x) := by
  have hfit := (H.fits hth).2
  have hme := (H.fits M.mem).2
  have hstack := H.layout.fits th hth
  have hstackMe := H.layout.fits me M.mem
  have hlow : me.stack + 32 ≤ (s.cpu.regs .esp).toNat := M.low
  have hhigh : (s.cpu.regs .esp).toNat + 4 ≤ me.stack + me.size := M.high
  have hslot := M.slot
  simp only [tcbSize] at hfit hme
  refine ⟨fun x hx hout => ?_, fun hne x hx => ?_⟩
  · have hcross := H.layout.cross th hth me M.mem
    simp only [InBlock, Separate, tcbSize] at hx hcross
    exact parkedMem_frame (by omega) (by omega) (by omega) (by omega) (by omega)
  · have hcross := H.layout.cross me M.mem th hth
    have hstacks := H.layout.stack th hth me M.mem hne
    simp only [InBlock, Separate, tcbSize] at hx hcross hstacks
    exact parkedMem_frame (by omega) (by omega) (by omega) (by omega) (by omega)

theorem SwitchInv.switch_parks (H : SwitchInv bootstrap task0 tr s) {me : Thread}
    (M : Calls s task0 me) (hk : k.heap.mem = parkedMem s.cpu) :
    Parked k me (withArgs s.cpu).regs (loadW s.kernel.heap.mem (s.regs .esp))
      (s.regs .esp - 32) := by
  have hme := (H.fits M.mem).2
  have hstackMe := H.layout.fits me M.mem
  have hcross := H.layout.cross me M.mem me M.mem
  have hlow : me.stack + 32 ≤ (s.cpu.regs .esp).toNat := M.low
  have hhigh : (s.cpu.regs .esp).toNat + 4 ≤ me.stack + me.size := M.high
  have hslot := M.slot
  simp only [Separate, tcbSize] at hme hcross
  have hesp : (s.cpu.regs .esp - 32).toNat = (s.cpu.regs .esp).toNat - 32 := by bv_omega
  obtain ⟨hregs, hret⟩ := parkedMem_stack (c := s.cpu) (by omega) (by omega) (by omega) (by omega)
  have hword : load32 (parkedMem s.cpu) (me.tcb + 4) = (s.cpu.regs .esp - 32).toNat := by
    rw [← hslot]
    exact parkedMem_slot
  refine ⟨?_, ?_, fun r _ => ?_, ?_⟩
  · rw [Kernel.esp, Kernel.load, hk]
    exact hword
  · show me.stack ≤ (s.cpu.regs .esp - 32).toNat ∧ (s.cpu.regs .esp - 32).toNat + 36 ≤ _
    omega
  · rw [hk]
    exact hregs r
  · rw [hk]
    exact hret

theorem SwitchInv.switch_keeps (H : SwitchInv bootstrap task0 tr s) {me : Thread}
    (M : Calls s task0 me) (hk : k.heap.mem = parkedMem s.cpu) (hth : th ∈ task0 :: s.created)
    (hne : th.tcb ≠ s.kernel.runningTask) :
    Suspended bootstrap k s.created th (lastCall tr th.tcb) := by
  rw [← M.running] at hne
  obtain ⟨htcb, hstack⟩ := H.switch_frame M hth
  have hapart := H.layout.tcb th hth me M.mem hne
  simp only [Separate, tcbSize] at hapart
  refine (H.suspended th hth (by rw [← M.running]; exact hne)).congr (H.fits hth).2
    (H.layout.fits th hth) ?_ ?_ (List.Subset.refl _)
  · intro x h1 h2
    rw [hk]
    exact htcb x ⟨by simp only; omega, by simp only [tcbSize]; omega⟩ (by omega)
  · rw [hk]
    exact hstack hne

/-- Of the control blocks, only the slot for the stack pointer changes. -/
theorem SwitchInv.switch_word (H : SwitchInv bootstrap task0 tr s) {me : Thread}
    (M : Calls s task0 me) (hk : k.heap.mem = parkedMem s.cpu) (hth : th ∈ task0 :: s.created)
    {o : Nat} (ho : o + 4 ≤ tcbSize) (hslot : o = 0 ∨ 8 ≤ o) :
    k.load (th.tcb + o) = s.kernel.load (th.tcb + o) := by
  have hfit := (H.fits hth).2
  have hapart := H.layout.tcb th hth me M.mem
  simp only [Separate, tcbSize] at hapart ho hfit
  refine load32_of_bytes (by omega) fun x h1 h2 => ?_
  rw [hk]
  refine (H.switch_frame M hth).1 x ⟨by simp only; omega, by simp only [tcbSize]; omega⟩ ?_
  by_cases he : th.tcb = me.tcb
  · omega
  · have := hapart he
    omega

/-- **`switch_task`** parks one thread and leaves the others parked. -/
theorem SwitchInv.switch (H : SwitchInv bootstrap task0 tr s) {me : Thread} (M : Calls s task0 me)
    (hk : k = { s.kernel with runningTask := s.kernel.next s.kernel.runningTask }) :
    SwitchInv bootstrap task0 (tr ++ [.switch s.kernel.runningTask
      ⟨loadW s.kernel.heap.mem (s.regs .esp), s.regs⟩ k.runningTask]) (s.switched k) := by
  have hparked : (s.switched k).kernel.heap.mem = parkedMem s.cpu :=
    (execAll_contextSwitch s.cpu).1
  have hword : ∀ th ∈ task0 :: s.created, ∀ o, o + 4 ≤ tcbSize → (o = 0 ∨ 8 ≤ o) →
      (s.switched k).kernel.load (th.tcb + o) = s.kernel.load (th.tcb + o) :=
    fun th hth o => H.switch_word M hparked hth
  have hmem : ∀ t ∈ (task0 :: s.created).map Thread.tcb, ∃ th ∈ task0 :: s.created, th.tcb = t :=
    fun t ht => List.mem_map.mp ht
  have hrun : (s.switched k).kernel.runningTask = s.kernel.next s.kernel.runningTask := by
    rw [hk]
    rfl
  refine ⟨H.ring.congr ?_ (by rw [hk]; rfl) ?_ (by rw [hk]; rfl), H.layout, H.size, ?_, ?_, ?_⟩
  · intro t ht
    obtain ⟨th, hth, rfl⟩ := hmem t ht
    exact ⟨hword th hth 48 (by decide) (by decide), hword th hth 0 (by decide) (by decide)⟩
  · rw [hrun]
    exact H.ring.ring.next_mem H.ring.running
  · intro th hth
    rw [← H.entry th hth]
    exact hword th (List.mem_cons_of_mem _ hth) 8 (by decide) (by decide)
  · intro th hth _
    rw [lastCall_snoc, callOf]
    by_cases he : s.kernel.runningTask = th.tcb
    · -- only one thread has this block
      have hnd : ((task0 :: s.created).map Thread.tcb).Nodup := H.ring.nodup
      have hme : me = th := List.inj_on_of_nodup_map hnd M.mem hth (M.running.trans he)
      rw [if_pos he, ← hme]
      refine ⟨_, ?_, H.switch_parks M hparked⟩
      intro r hr
      refine regs_withArgs s.cpu ?_ ?_
      · rintro rfl
        exact absurd hr (by decide)
      · rintro rfl
        exact absurd hr (by decide)
    · rw [if_neg he]
      exact H.switch_keeps M hparked hth (Ne.symm he)
  · intro t ht
    rw [lastCall_snoc, callOf] at ht
    by_cases he : s.kernel.runningTask = t
    · rw [← he]
      exact H.ring.running
    · rw [if_neg he] at ht
      exact H.known t ht

end

end Antagonist
