import Antagonist.Task.Parked

/-!
# The contract of a context switch

* `switchInv_of_run`: every thread that is not running is parked where it last
  called.
* `context_switch_contract`: what a thread finds when it runs again, or for the
  first time.
* `exists_switch`: the running thread can always call, when it is not alone.
-/

namespace Antagonist

open ByteMem Tiling X86

section

variable {R : HeapRegion} {bootstrap : Word} {task0 : Thread} {tr : List SwitchOp} {s : SwitchSys}
  {k : Kernel} {th : Thread}

theorem switchInv_init (hstack : task0.stack + task0.size ≤ R.start)
    (h : (switchLts R bootstrap task0).init s) : SwitchInv bootstrap task0 [] s := by
  obtain ⟨m, hk, hhead, hcreated⟩ := h
  obtain ⟨⟨cs, HI⟩, hring⟩ := initMultitasking_spec hk
  rw [hhead] at HI hring
  have hin := HI.block_inside (List.mem_singleton.mpr rfl)
  have hstop := R.stop_lt
  simp only [tcbSize] at hin
  have hone : ∀ th ∈ task0 :: s.created, th = task0 := by
    rw [hcreated]
    exact fun th hth => List.mem_singleton.mp hth
  have hnone : ∀ th, th ∉ s.created := by
    rw [hcreated]
    exact fun th => List.not_mem_nil
  refine ⟨?_, ⟨?_, ?_, ?_, ?_⟩, fun th hth => absurd hth (hnone th),
    fun th hth => absurd hth (hnone th), ?_, fun t ht => absurd rfl ht⟩
  · rw [hcreated]
    exact hring
  · exact fun a ha b hb hne => absurd (by rw [hone a ha, hone b hb]) hne
  · exact fun a ha b hb hne => absurd (by rw [hone a ha, hone b hb]) hne
  · intro a ha b hb
    rw [hone a ha, hone b hb]
    exact Or.inr (by omega)
  · intro a ha
    rw [hone a ha]
    omega
  · intro th hth hne
    rw [hone th hth] at hne
    exact absurd (List.mem_singleton.mp hring.running).symm hne

theorem SwitchInv.calls (H : SwitchInv bootstrap task0 tr s) {oldEspSlot newEsp : Nat} {me : Thread}
    (hsw : switchTask s.kernel = some (oldEspSlot, newEsp, k))
    (hslot : oldEspSlotArg s.cpu = BitVec.ofNat 32 oldEspSlot) (hme : me ∈ task0 :: s.created)
    (hrun : me.tcb = s.kernel.runningTask) (hlow : me.stack + 32 ≤ (s.regs .esp).toNat)
    (hhigh : (s.regs .esp).toNat + 4 ≤ me.stack + me.size) :
    Calls s task0 me ∧ newEsp = s.kernel.esp (s.kernel.next s.kernel.runningTask) ∧
      s.kernel.next s.kernel.runningTask ≠ s.kernel.runningTask ∧
      k = { s.kernel with runningTask := s.kernel.next s.kernel.runningTask } := by
  have hfit := (H.fits hme).2
  simp only [tcbSize] at hfit
  rcases switchTask_spec H.ring with ⟨_, hnone⟩ | ⟨hne, hsome⟩
  · rw [hsw] at hnone
    cases hnone
  · rw [hsw] at hsome
    obtain ⟨rfl, hrest⟩ := Prod.mk.inj (Option.some.inj hsome)
    obtain ⟨rfl, rfl⟩ := Prod.mk.inj hrest
    refine ⟨⟨hme, hrun, ?_, hlow, hhigh⟩, rfl, hne, rfl⟩
    rw [hslot, BitVec.toNat_ofNat, ← hrun, Nat.mod_eq_of_lt (by omega)]

/-- **Every thread that is not running is parked**, after every run. -/
theorem switchInv_of_run (hstack : task0.stack + task0.size ≤ R.start)
    (h : (switchLts R bootstrap task0).Run tr s) : SwitchInv bootstrap task0 tr s := by
  apply h.traceInvariant (I := SwitchInv bootstrap task0) (fun s h0 => switchInv_init hstack h0)
  intro tr s a s' _ H hs
  cases hs with
  | work htcb hst => exact H.work htcb hst
  | create _ A => exact H.create A
  | switch hsw hslot _ hme hrun hlow hhigh =>
    obtain ⟨M, _, _, hk⟩ := H.calls hsw hslot hme hrun hlow hhigh
    exact H.switch M hk
  | stay _ =>
    refine ⟨H.ring, H.layout, H.size, H.entry, fun th hth hne => ?_, fun t ht => ?_⟩
    · rw [lastCall_snoc]
      exact H.suspended th hth hne
    · rw [lastCall_snoc] at ht
      exact H.known t ht

/-! ### The contract -/

structure Resumed (s : SwitchSys) (call : Call) : Prop where
  eip : s.eip = call.returnAddress
  esp : s.regs .esp = call.regs .esp + 4
  saved : ∀ r ∈ calleeSaved, s.regs r = call.regs r

structure Entered (bootstrap : Word) (s : SwitchSys) (th : Thread) : Prop where
  eip : s.eip = bootstrap
  zero : ∀ r, r ≠ .esp → s.regs r = 0
  esp : (s.regs .esp).toNat = th.stack + 4096
  running : s.kernel.runningTask = th.tcb
  entry : threadBootstrapCall s.kernel = if th.entry = 0 then none else some th.entry.toNat

/-- What the thread `t` finds when it runs, given its last call. -/
def Finds (bootstrap : Word) (s : SwitchSys) (t : Nat) : Option Call → Prop
  | some call => Resumed s call
  | none => ∃ th ∈ s.created, th.tcb = t ∧ Entered bootstrap s th

theorem Parked.taken {frame : Reg → Word} {returnAddress esp : Word} {c : Cpu}
    (P : Parked k th frame returnAddress esp) (hk : k.heap.mem = parkedMem c)
    (hnew : newEspArg c = esp) : (execAll contextSwitch c).eip = returnAddress ∧
      (execAll contextSwitch c).regs .esp = esp + 36 ∧
      ∀ r, r ≠ .esp → (execAll contextSwitch c).regs r = frame r := by
  obtain ⟨_, heip, hregs⟩ := execAll_contextSwitch c
  rw [hnew, ← hk] at heip hregs
  refine ⟨heip.trans P.ret, by rw [hregs, if_pos rfl], fun r hr => ?_⟩
  rw [hregs, if_neg hr, P.regs r hr]

/-- The slot that `switch_task` has read holds where the frame begins. -/
theorem Parked.newEspArg_eq {frame : Reg → Word} {returnAddress esp : Word} {c : Cpu}
    (P : Parked k th frame returnAddress esp)
    (hnew : newEspArg c = BitVec.ofNat 32 (k.esp th.tcb)) : newEspArg c = esp := by
  rw [hnew, P.slot, BitVec.ofNat_toNat, BitVec.setWidth_eq]

theorem resumed_of_suspended {call : Call}
    (S : Suspended bootstrap s.kernel s.created th (some call))
    (S' : Suspended bootstrap (s.switched k).kernel s.created th (some call))
    (hnew : newEspArg s.cpu = BitVec.ofNat 32 (s.kernel.esp th.tcb)) :
    Resumed (s.switched k) call := by
  obtain ⟨_, _, P⟩ := S
  obtain ⟨frame, hframe, P'⟩ := S'
  obtain ⟨heip, hsp, hregs⟩ := P'.taken (execAll_contextSwitch s.cpu).1 (P.newEspArg_eq hnew)
  refine ⟨heip, hsp.trans (by bv_omega), ?_⟩
  intro r hr
  have hne : r ≠ .esp := by
    rintro rfl
    exact absurd hr (by decide)
  exact (hregs r hne).trans (hframe r hr)

theorem SwitchInv.entered (H : SwitchInv bootstrap task0 tr (s.switched k))
    (S : Suspended bootstrap s.kernel s.created th none)
    (S' : Suspended bootstrap (s.switched k).kernel s.created th none)
    (hnew : newEspArg s.cpu = BitVec.ofNat 32 (s.kernel.esp th.tcb))
    (hrun : (s.switched k).kernel.runningTask = th.tcb) :
    th ∈ s.created ∧ Entered bootstrap (s.switched k) th := by
  obtain ⟨hcreated, P⟩ := S
  obtain ⟨heip, hsp, hregs⟩ := S'.2.taken (execAll_contextSwitch s.cpu).1 (P.newEspArg_eq hnew)
  have hth : th ∈ task0 :: s.created := List.mem_cons_of_mem _ hcreated
  have hfit := H.layout.fits th hth
  have hsize := H.size th hcreated
  have hentry : (s.switched k).kernel.entry th.tcb = th.entry.toNat := H.entry th hcreated
  have hpos : th.tcb ≠ 0 := Nat.ne_of_gt (H.fits hth).1
  simp only [stackSize] at hsize
  refine ⟨hcreated, heip, hregs, ?_, hrun, ?_⟩
  · show ((execAll contextSwitch s.cpu).regs .esp).toNat = th.stack + 4096
    rw [hsp]
    bv_omega
  · unfold threadBootstrapCall
    rw [hrun, hentry]
    by_cases h0 : th.entry = 0
    · rw [if_pos h0, if_neg fun h => h.2 (by rw [h0]; rfl)]
    · rw [if_neg h0, if_pos ⟨hpos, fun h => h0 (BitVec.eq_of_toNat_eq h)⟩]

/-- **A context switch takes every thread up where it left**, and every new one at
its entry. -/
theorem context_switch_contract (R : HeapRegion) (bootstrap : Word) {task0 : Thread}
    (hstack : task0.stack + task0.size ≤ R.start) {tr : List SwitchOp} {old new : Nat} {call : Call}
    {s : SwitchSys}
    (h : (switchLts R bootstrap task0).Run (tr ++ [.switch old call new]) s) :
    Finds bootstrap s new (lastCall tr new) := by
  have H' := switchInv_of_run hstack h
  obtain ⟨s₀, h0, hexec⟩ := h
  obtain ⟨s₁, hpre, hs⟩ := hexec.snoc_inv rfl
  have H : SwitchInv bootstrap task0 tr s₁ := switchInv_of_run hstack ⟨s₀, h0, hpre⟩
  cases hs with
  | @switch oldEspSlot newEsp k me hsw hslot hnew hme hrun hlow hhigh =>
    obtain ⟨M, hnewEsp, hne, hk⟩ := H.calls hsw hslot hme hrun hlow hhigh
    have hmem : s₁.kernel.next s₁.kernel.runningTask ∈ (task0 :: s₁.created).map Thread.tcb :=
      H.ring.ring.next_mem H.ring.running
    obtain ⟨th, hth, hnext⟩ := List.mem_map.mp hmem
    have hrunning : k.runningTask = th.tcb := by
      rw [hk]
      exact hnext.symm
    rw [← hnext] at hnewEsp hne
    rw [hnewEsp] at hnew
    -- `th` is parked before the switch, and its frame is still there after it
    have S := H.suspended th hth hne
    have hmemory : (s₁.switched k).kernel.heap.mem = parkedMem s₁.cpu :=
      (execAll_contextSwitch s₁.cpu).1
    have S' := H.switch_keeps M hmemory hth hne
    rw [hrunning]
    cases hlast : lastCall tr th.tcb with
    | some call =>
      rw [hlast] at S S'
      exact resumed_of_suspended S S' hnew
    | none =>
      rw [hlast] at S S'
      obtain ⟨hcreated, hentered⟩ := H'.entered S S' hnew hrunning
      exact ⟨th, hcreated, rfl, hentered⟩

/-- Memory with the two arguments of a call above the return address. -/
def callMem (m : Mem) (esp slot newEsp : Word) : Mem :=
  storeW (storeW m (esp + 4) slot) (esp + 8) newEsp

theorem callMem_out (m : Mem) {esp slot newEsp : Word} {x : Nat} (hx : x < 2 ^ 32)
    (hesp : esp.toNat + 12 ≤ 2 ^ 32) (hout : x < esp.toNat + 4 ∨ esp.toNat + 12 ≤ x) :
    callMem m esp slot newEsp x = m x := by
  have h4 : (esp + 4).toNat = esp.toNat + 4 := by bv_omega
  have h8 : (esp + 8).toNat = esp.toNat + 8 := by bv_omega
  rw [callMem, storeW, storeW, h4, h8, store32_apply_out, store32_apply_out] <;>
    simp only [Off] <;> omega

theorem callMem_args (m : Mem) (esp slot newEsp : Word) :
    loadW (callMem m esp slot newEsp) (esp + 4) = slot ∧
      loadW (callMem m esp slot newEsp) (esp + 8) = newEsp := by
  refine ⟨?_, loadW_storeW_same _ _ _⟩
  rw [callMem, loadW_storeW_apart, loadW_storeW_same]
  simp only [Apart]
  bv_omega

/-- A call at the top of the running thread's stack is work of that thread. -/
theorem SwitchInv.callMem_frame (H : SwitchInv bootstrap task0 tr s) {me : Thread}
    (hme : me ∈ task0 :: s.created) (hrun : me.tcb = s.kernel.runningTask) (esp slot newEsp : Word)
    (hlow : me.stack ≤ esp.toNat) (hhigh : esp.toNat + 12 ≤ me.stack + me.size) :
    (∀ th ∈ task0 :: s.created, ∀ x, InBlock (th.tcb, tcbSize) x →
      callMem s.kernel.heap.mem esp slot newEsp x = s.kernel.heap.mem x) ∧
    (∀ th ∈ task0 :: s.created, th.tcb ≠ s.kernel.runningTask → ∀ x,
      InBlock (th.stack, th.size) x →
        callMem s.kernel.heap.mem esp slot newEsp x = s.kernel.heap.mem x) := by
  have hfit := H.layout.fits me hme
  refine ⟨fun th hth x hx => ?_, fun th hth hne x hx => ?_⟩
  · have hcross := H.layout.cross th hth me hme
    have htop := (H.fits hth).2
    simp only [InBlock, Separate, tcbSize] at hx hcross htop
    exact callMem_out _ (by omega) (by omega) (by omega)
  · have hstacks := H.layout.stack th hth me hme (by rw [hrun]; exact hne)
    have htop := H.layout.fits th hth
    simp only [InBlock, Separate] at hx hstacks
    exact callMem_out _ (by omega) (by omega) (by omega)

/-- The running thread has put the arguments of a call on its stack, below `esp`. -/
def SwitchSys.calling (s : SwitchSys) (esp : Word) (newEsp : Nat) : SwitchSys where
  regs _ := esp
  eip := 0
  kernel :=
    { s.kernel with
      heap :=
        { s.kernel.heap with
          mem := callMem s.kernel.heap.mem esp (BitVec.ofNat 32 (s.kernel.runningTask + 4))
            (BitVec.ofNat 32 newEsp) } }
  created := s.created

theorem args_calling (s : SwitchSys) (esp : Word) (newEsp : Nat) :
    oldEspSlotArg (s.calling esp newEsp).cpu = BitVec.ofNat 32 (s.kernel.runningTask + 4) ∧
      newEspArg (s.calling esp newEsp).cpu = BitVec.ofNat 32 newEsp :=
  callMem_args s.kernel.heap.mem esp _ _

/-- To put them there is work of that thread, and the control blocks are read as before. -/
theorem SwitchInv.work_calling (H : SwitchInv bootstrap task0 tr s) {me : Thread}
    (hme : me ∈ task0 :: s.created) (hrun : me.tcb = s.kernel.runningTask) {esp : Word}
    (newEsp : Nat) (hlow : me.stack ≤ esp.toNat) (hhigh : esp.toNat + 12 ≤ me.stack + me.size) :
    SwitchStep bootstrap task0 s .work (s.calling esp newEsp) ∧
      ∀ th ∈ task0 :: s.created,
        (s.calling esp newEsp).kernel.esp th.tcb = s.kernel.esp th.tcb ∧
          (s.calling esp newEsp).kernel.next th.tcb = s.kernel.next th.tcb := by
  obtain ⟨htcb, hother⟩ := H.callMem_frame hme hrun esp
    (BitVec.ofNat 32 (s.kernel.runningTask + 4)) (BitVec.ofNat 32 newEsp) hlow hhigh
  refine ⟨.work htcb hother, ?_⟩
  intro th hth
  obtain ⟨_, hesp, _, hnext⟩ := H.fields (s.calling esp newEsp).kernel.heap htcb hth
  exact ⟨hesp, hnext⟩

/-- Every stack has room for a call, and for what the call pushes. -/
theorem SwitchInv.exists_top (H : SwitchInv bootstrap task0 tr s) (hsize : 48 ≤ task0.size)
    {me : Thread} (hme : me ∈ task0 :: s.created) :
    ∃ esp : Word, me.stack + 32 ≤ esp.toNat ∧ esp.toNat + 12 ≤ me.stack + me.size := by
  have hfit := H.layout.fits me hme
  have hroom : 48 ≤ me.size := by
    rcases List.mem_cons.mp hme with rfl | hme
    · exact hsize
    · rw [H.size me hme]
      decide
  refine ⟨BitVec.ofNat 32 (me.stack + me.size - 16), ?_⟩
  rw [BitVec.toNat_ofNat, Nat.mod_eq_of_lt (by omega)]
  omega

theorem SwitchInv.switchTask_of_more (H : SwitchInv bootstrap task0 tr s) (hmore : s.created ≠ []) :
    switchTask s.kernel = some (s.kernel.runningTask + 4,
      s.kernel.esp (s.kernel.next s.kernel.runningTask),
      { s.kernel with runningTask := s.kernel.next s.kernel.runningTask }) := by
  have hlen : 1 < (task0.tcb :: s.created.map Thread.tcb).length := by
    rw [List.length_cons, List.length_map]
    have := List.length_pos_iff.mpr hmore
    omega
  have hne := H.ring.ring.next_ne H.ring.nodup hlen H.ring.running
  rcases switchTask_spec H.ring with ⟨hself, _⟩ | ⟨_, hsome⟩
  · exact absurd hself hne
  · exact hsome

/-- **The running thread can always call**, when it is not alone: from the top of
its stack, with the two arguments there. -/
theorem exists_switch (hstack : task0.stack + task0.size ≤ R.start) (hsize : 48 ≤ task0.size)
    (h : (switchLts R bootstrap task0).Run tr s) (hmore : s.created ≠ []) :
    ∃ call s', (switchLts R bootstrap task0).Run (tr ++ [.work] ++
      [.switch s.kernel.runningTask call (s.kernel.next s.kernel.runningTask)]) s' ∧
      s'.created = s.created ∧
      s'.kernel.runningTask = s.kernel.next s.kernel.runningTask := by
  have H := switchInv_of_run hstack h
  obtain ⟨me, hme, hrun⟩ : ∃ me ∈ task0 :: s.created, me.tcb = s.kernel.runningTask :=
    List.mem_map.mp H.ring.running
  obtain ⟨th, hth, hnext⟩ : ∃ th ∈ task0 :: s.created,
      th.tcb = s.kernel.next s.kernel.runningTask :=
    List.mem_map.mp (H.ring.ring.next_mem H.ring.running)
  obtain ⟨esp, hlow, hhigh⟩ := H.exists_top hsize hme
  obtain ⟨hwork, hfields⟩ := H.work_calling hme hrun (s.kernel.esp th.tcb) (by omega) hhigh
  obtain ⟨hslot, hnewEsp⟩ := args_calling s esp (s.kernel.esp th.tcb)
  have hto : (s.calling esp (s.kernel.esp th.tcb)).kernel.next s.kernel.runningTask =
      s.kernel.next s.kernel.runningTask := by
    rw [← hrun]
    exact (hfields me hme).2
  have hsw := (switchInv_of_run hstack (h.snoc hwork)).switchTask_of_more hmore
  have hrunning : (s.calling esp (s.kernel.esp th.tcb)).kernel.runningTask =
      s.kernel.runningTask := rfl
  simp only [hrunning, hto, ← hnext, (hfields th hth).1] at hsw
  have hcall : SwitchStep bootstrap task0 (s.calling esp (s.kernel.esp th.tcb)) _ _ :=
    .switch hsw hslot hnewEsp hme hrun hlow (Nat.le_trans (Nat.add_le_add_left (by decide) _) hhigh)
  rw [← hnext]
  exact ⟨_, _, (h.snoc hwork).snoc hcall, rfl, rfl⟩

end

/-- Task 0 of the kernel, on a stack of 16 KiB below the heap. -/
def bootThread : Thread := ⟨0x300009, 0x2D0000, 16384, 0⟩

theorem kernelHeap_created : ∃ s, (switchLts kernelHeap 0x100000 bootThread).Run
    [.create ⟨0x300046, 0x300083, stackSize, 0x100100⟩] s ∧
    s.created = [⟨0x300046, 0x300083, stackSize, 0x100100⟩] ∧
    s.kernel.runningTask = 0x300009 := by
  have hrun : ((initMultitasking (freshKernel kernelHeap fun _ => 0)).bind fun k =>
      (allocThread k).map fun r => (k.taskListHead, k.runningTask, r.1, r.2.1))
      = some (0x300009, 0x300009, 0x300046, 0x300083) := by decide +kernel
  obtain ⟨k, hinit, hrun⟩ := Option.bind_eq_some_iff.mp hrun
  obtain ⟨⟨t, b, k'⟩, halloc, hrun⟩ := Option.map_eq_some_iff.mp hrun
  simp only [Prod.mk.injEq] at hrun
  obtain ⟨hhead, hrunning, rfl, rfl⟩ := hrun
  obtain ⟨⟨cs, HI⟩, _⟩ := initMultitasking_spec hinit
  rw [hhead] at HI
  have hheld : ∀ blk ∈ regions [bootThread], blk ∈ [(0x300009, tcbSize)] ∨
      blk.1 + blk.2 ≤ kernelHeap.start ∨ kernelHeap.stop ≤ blk.1 := by
    intro blk hblk
    simp only [regions, bootThread, List.flatMap_cons, List.flatMap_nil, List.append_nil,
      List.mem_cons, List.not_mem_nil, or_false] at hblk
    rcases hblk with rfl | rfl
    · exact Or.inl (List.mem_singleton.mpr rfl)
    · exact Or.inr (Or.inl (by decide))
  obtain ⟨_, A⟩ := allocThread_spec HI hheld halloc (by decide) (by decide)
  have hstart : (switchLts kernelHeap 0x100000 bootThread).Run [] ⟨fun _ => 0, 0, k, []⟩ :=
    .start ⟨fun _ => 0, hinit, hhead, rfl⟩
  exact ⟨_, hstart.snoc (SwitchStep.create halloc A), rfl,
    (congrArg Kernel.runningTask A.globals).trans hrunning⟩

/-- The kernel calls, the new thread calls, and the kernel goes on after its
call. -/
theorem context_switch_contract_kernelHeap : ∃ call₁ call₂ s,
    (switchLts kernelHeap 0x100000 bootThread).Run
      ([.create ⟨0x300046, 0x300083, stackSize, 0x100100⟩, .work, .switch 0x300009 call₁ 0x300046,
        .work] ++ [.switch 0x300046 call₂ 0x300009]) s ∧
    Finds 0x100000 s 0x300009 (some call₁) := by
  have hstack : bootThread.stack + bootThread.size ≤ kernelHeap.start := by decide
  have hsize : 48 ≤ bootThread.size := by decide
  obtain ⟨s₀, h₀, hc₀, hr₀⟩ := kernelHeap_created
  obtain ⟨call₁, s₁, h₁, hc₁, hr₁⟩ := exists_switch hstack hsize h₀
    (by rw [hc₀]; exact List.cons_ne_nil _ _)
  obtain ⟨call₂, s₂, h₂, _, _⟩ := exists_switch hstack hsize h₁
    (by rw [hc₁, hc₀]; exact List.cons_ne_nil _ _)
  have hring₀ := (switchInv_of_run hstack h₀).ring.ring
  have hring₁ := (switchInv_of_run hstack h₁).ring.ring
  rw [hc₀] at hring₀
  rw [hc₁, hc₀] at hring₁
  have hnext₀ : s₀.kernel.next 0x300009 = 0x300046 := hring₀.next_head
  have hnext₁ : s₁.kernel.next 0x300046 = 0x300009 := hring₁.rotate_one.next_head
  rw [hr₁, hr₀, hnext₀, hnext₁] at h₂
  exact ⟨call₁, call₂, s₂, h₂, context_switch_contract kernelHeap 0x100000 hstack h₂⟩

end Antagonist
