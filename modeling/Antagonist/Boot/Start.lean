import Antagonist.Boot.Gates
import Antagonist.Boot.KernelMap
import Antagonist.Boot.PageFrames
import Antagonist.Boot.Timer
import Antagonist.Lib.Footprint
import Antagonist.Shell.Console
import Antagonist.Task.OutOfMemory
import Antagonist.Task.Resume

/-!
# The boot

`kernel_main` of `kernel/kernel.cpp`, up to its call of `antagonist_main`.  It runs over one memory,
of which nothing is known at first, and what each step sets up has to outlive the steps that follow.
So each step gets a footprint, in the sense of `Lib.Footprint`, and what it leaves is a property of
bytes that no later step changes.

From then on the threads run.  As long as they store to the heap and to the screen only, they leave
what `kernel_main` has set up alone, whatever else they do and in whichever order.

* `SegmentsBuilt`, `GatesBuilt`, `PagesBuilt`: what the processor reads.
* `kernelMain_spec`: **what `kernel_main` leaves**.
* `built_of_reachable`: **it stays** while the threads run.
-/

namespace Antagonist

open ByteMem Segment Paging Tiling Footprint

def GdtLayout.regions (L : GdtLayout) : List Region :=
  [⟨L.gdt, 48⟩, ⟨L.gp, 6⟩, ⟨L.tssEntry, tssSize⟩]

def IdtLayout.gateRegions (T : IdtLayout) : List Region := [⟨T.idt, 2048⟩, ⟨T.idp, 6⟩]

def VmmArrays.regions (A : VmmArrays) : List Region := A.all.map fun a => ⟨a, 4096⟩

/-- The kernel's heap, and text mode's video memory. -/
def heapArea : Region := ⟨kernelHeap.start, kernelHeap.pages * pageSize⟩
def videoArea : Region := ⟨0xB8000, 4000⟩

/-- The objects of `gdt.cpp`, `idt.cpp` and `vmm.cpp`, and the stack of `boot.s`, in the image.  The
image ends before the heap. -/
structure BootLayout (im : Image) where
  tables : IdtLayout
  arrays : VmmLayout im
  tables_in_image : ∀ r ∈ tables.regions ++ tables.gateRegions,
    Image.start ≤ r.base ∧ r.base + r.size ≤ im.stop
  stackBottom : Nat
  stack_in_image : Image.start ≤ stackBottom ∧ stackBottom + 16384 ≤ im.stop
  apart : (tables.regions ++ (tables.gateRegions ++ arrays.regions)).Pairwise Region.Apart
  below_heap : im.stop ≤ kernelHeap.start

/-- The addresses of `thread_bootstrap` and of the two routines. -/
structure ThreadCode where
  threadBootstrap : BitVec 32
  taskAlphaRoutine : BitVec 32
  taskBetaRoutine : BitVec 32

/-- A row of text: the loop that follows each of the four messages. -/
def printBanner (offset : Nat) (color : Byte) : List Byte → Nat → Mem → Mem
  | [], _, m => m
  | c :: text, i, m =>
      let m := store8 m (0xB8000 + (offset + i * 2)) c
      let m := store8 m (0xB8000 + (offset + i * 2) + 1) color
      printBanner offset color text (i + 1) m

/-- The messages of `kernel_main`: offset, color and text. -/
def banners : List (Nat × Byte × List Byte) :=
  [(0, 0x0E, ascii "FontaineOS Architecture Complete! Task Scheduler Loops Active."),
    (320, 0x0A, ascii "[Task Alpha Running Concurrently] Cycle State Ticking: "),
    (480, 0x0D, ascii "[Task Beta Running Concurrently] Cycle State Ticking:  "),
    (1440, 0x0B, ascii "FontaineOS Console Interface Live. Type 'help' or 'clear':")]

/-- `clear_screen` of `kernel.cpp`. -/
def clearScreenMem (m : Mem) : Mem :=
  (List.range 2000).foldl
    (fun m (k : Nat) => store8 (store8 m (0xB8000 + 2 * k) 0x20) (0xB8000 + 2 * k + 1) 0x07) m

def bootScreen (m : Mem) : Mem :=
  clearScreenMem (banners.foldl (fun m b => printBanner b.1 b.2.1 b.2.2 0 m) (clearScreenMem m))

def Kernel.withMem (k : Kernel) (m : Mem) : Kernel := { k with heap := { k.heap with mem := m } }

/-- The steps of `kernel_main` that write the tables and start the heap. -/
def bootTables {im : Image} (L : BootLayout im) (S : StubAddresses) (m : Mem) : Kernel :=
  let m := initGdt L.tables.toGdtLayout m
  let m := initIdt L.tables S m
  let m := initVmm L.arrays m
  ⟨initHeap m 0x300000 256, 0, 0, 1⟩

/-- The memory with the globals of `task.cpp`, the page allocator, and the chips that count time. -/
structure BootState where
  kernel : Kernel
  pmm : Pmm
  chips : I8259.Pic × I8254.Pit

/-- `kernel_main` up to its call of `antagonist_main`; `none` when a call of the heap does not
return.  `init_keyboard` is `initKeyboard`: it sets variables of `keyboard.cpp` only. -/
def kernelMain {im : Image} (L : BootLayout im) (S : StubAddresses) (C : ThreadCode) (m : Mem)
    (bitmap : Bitmap) (chips : I8259.Pic × I8254.Pit) : Option BootState :=
  (initTimer 100).bind fun writes =>
    let pmm := initPmm bitmap bootMemory
    (initMultitasking (bootTables L S m)).bind fun k =>
      let k := k.withMem (setSyscallGate L.tables S k.heap.mem)
      (createThread C.threadBootstrap.toNat C.taskAlphaRoutine.toNat k).bind fun r =>
        (createThread C.threadBootstrap.toNat C.taskBetaRoutine.toNat r.2.2).map fun r =>
          ⟨r.2.2.withMem (bootScreen r.2.2.heap.mem), pmm, writes.foldl timerOutb chips⟩

/-! ### What the processor reads -/

/-- The segments and the task state segment, as `init_gdt` leaves them. -/
structure SegmentsBuilt (L : GdtLayout) (m : Mem) : Prop where
  register : load16 m L.gp = 47 ∧ load32 m (L.gp + 2) = L.gdt
  descriptors : ∀ k : Fin 6,
    readDescriptor m (L.gdt + 8 * k) = ((initGdtCalls L).get k).descriptor
  tss : ∀ i < tssSize, load8 m (L.tssEntry + i) =
    if 4 ≤ i ∧ i < 8 then byteOf (espZero L) (i - 4) else if i = 8 then 0x10 else 0

/-- The gates, once `kernel_main` has set the one for system calls. -/
structure GatesBuilt (T : IdtLayout) (S : StubAddresses) (m : Mem) : Prop where
  register : load16 m T.idp = 2047 ∧ load32 m (T.idp + 2) = T.idt
  gates : ∀ v : Byte, readGate m (T.idt + 8 * v.toNat) = kernelGate S v

structure PagesBuilt (A : VmmArrays) (m : Mem) : Prop where
  kernel : IdentityMap m A.pageDirectory A.firstPageTable 0x03
  user : IdentityMap m A.userPageDirectory A.userPageTable 0x07

structure TablesBuilt {im : Image} (L : BootLayout im) (S : StubAddresses) (m : Mem) : Prop where
  segments : SegmentsBuilt L.tables.toGdtLayout m
  gates : GatesBuilt L.tables S m
  pages : PagesBuilt L.arrays.toVmmArrays m

/-! ### What the tables read -/

section

variable {L : GdtLayout} {T : IdtLayout} {S : StubAddresses} {A : VmmArrays} {m m' : Mem}

theorem SegmentsBuilt.readsOnly (L : GdtLayout) : ReadsOnly L.regions (SegmentsBuilt L) := by
  intro m m' hm H
  have hgdt := L.gdt_fits
  have hgp := L.gp_fits
  have htss := L.tss_fits
  have hin : ∀ r ∈ L.regions, ∀ x < 2 ^ 32, r.base ≤ x → x < r.base + r.size → m' x = m x :=
    fun r hr x hlt h1 h2 => hm x hlt ⟨r, hr, h1, h2⟩
  simp only [GdtLayout.regions, List.forall_mem_cons] at hin
  obtain ⟨hingdt, hingp, hintss, -⟩ := hin
  refine ⟨⟨?_, ?_⟩, ?_, ?_⟩
  · rw [load16_of_bytes (by omega) fun x h1 h2 => hingp x (by omega) h1 (by omega)]
    exact H.register.1
  · rw [load32_of_bytes (by omega) fun x h1 h2 => hingp x (by omega) (by omega) (by omega)]
    exact H.register.2
  · intro k
    rw [readDescriptor_of_entryBytes (entryBytes_of_bytes (by omega) fun x h1 h2 =>
      hingdt x (by omega) (by omega) (by omega))]
    exact H.descriptors k
  · intro i hi
    rw [← H.tss i hi, load8, load8, Nat.mod_eq_of_lt (by omega)]
    exact hintss _ (by omega) (by omega) (by omega)

theorem GatesBuilt.readsOnly (T : IdtLayout) (S : StubAddresses) :
    ReadsOnly T.gateRegions (GatesBuilt T S) := by
  intro m m' hm H
  have hidt := T.idt_fits
  have hidp := T.idp_fits
  have hin : ∀ r ∈ T.gateRegions, ∀ x < 2 ^ 32, r.base ≤ x → x < r.base + r.size → m' x = m x :=
    fun r hr x hlt h1 h2 => hm x hlt ⟨r, hr, h1, h2⟩
  simp only [IdtLayout.gateRegions, List.forall_mem_cons] at hin
  obtain ⟨hinidt, hinidp, -⟩ := hin
  refine ⟨⟨?_, ?_⟩, ?_⟩
  · rw [load16_of_bytes (by omega) fun x h1 h2 => hinidp x (by omega) h1 (by omega)]
    exact H.register.1
  · rw [load32_of_bytes (by omega) fun x h1 h2 => hinidp x (by omega) (by omega) (by omega)]
    exact H.register.2
  · intro v
    have hv := v.isLt
    rw [readGate_of_entryBytes (entryBytes_of_bytes (by omega) fun x h1 h2 =>
      hinidt x (by omega) (by omega) (by omega))]
    exact H.gates v

theorem PagesBuilt.readsOnly {im : Image} (A : VmmLayout im) :
    ReadsOnly A.regions (PagesBuilt A.toVmmArrays) := by
  intro m m' hm H
  have hin : ∀ a ∈ A.all, ∀ x, a ≤ x → x < a + 4096 → m' x = m x := by
    intro a ha x h1 h2
    have hfit := A.fits ha
    exact hm x (by omega) ⟨⟨a, 4096⟩, List.mem_map.mpr ⟨a, ha, rfl⟩, h1, h2⟩
  have hfit := fun {a} => A.fits (a := a)
  simp only [VmmArrays.all, List.forall_mem_cons] at hin
  obtain ⟨hpd, hpt, hupd, hupt, -⟩ := hin
  refine ⟨H.kernel.frame (hfit (by simp [VmmArrays.all])) (hfit (by simp [VmmArrays.all])) ?_,
    H.user.frame (hfit (by simp [VmmArrays.all])) (hfit (by simp [VmmArrays.all])) ?_⟩
  · rintro x (hx | hx)
    · exact hpd x hx.1 hx.2
    · exact hpt x hx.1 hx.2
  · rintro x (hx | hx)
    · exact hupd x hx.1 hx.2
    · exact hupt x hx.1 hx.2

/-! ### What the steps set up, and where -/

theorem segmentsBuilt_initGdt (L : GdtLayout) (m : Mem) : SegmentsBuilt L (initGdt L m) := by
  have hgdt := L.gdt_fits
  have hgp := L.gp_fits
  have hapart := L.gdt_gp
  have hapart' := L.gp_tss
  have hgpBytes : ∀ x, L.gp ≤ x → x < L.gp + 6 →
      initGdt L m x = store32 (store16 m L.gp (8 * 6 - 1)) (L.gp + 2) L.gdt x := by
    intro x _ _
    rw [initGdt_apply_out L m (by omega) (by omega), gatesDone, initGates_apply L _ (by omega)]
  refine ⟨⟨?_, load32_gp L m⟩, ?_, fun i hi => load8_tss L m hi⟩
  · rw [load16_of_bytes (by omega) fun x h1 h2 => hgpBytes x h1 (by omega),
      load16_store32_out _ _ (by simp only [Off]; omega) (by simp only [Off]; omega),
      load16_store16_same _ _ (by decide)]
  · intro k
    rw [readDescriptor_initGdt L m k.isLt, gatesDone, readDescriptor_initGates]

theorem changesOnly_initGdt (L : GdtLayout) (m : Mem) : ChangesOnly L.regions m (initGdt L m) := by
  intro x hlt hx
  have hgp := L.gp_fits
  have hout : ∀ r ∈ L.regions, ¬ r.Contains x := fun r hr h => hx ⟨r, hr, h⟩
  simp only [GdtLayout.regions, List.forall_mem_cons, Region.Contains] at hout
  obtain ⟨hgdt, hgp', htss, -⟩ := hout
  rw [initGdt_apply_out L m hlt (by omega), gatesDone, initGates_apply L _ (by omega), store16,
    store32_apply_out _ _ (by simp only [Off]; omega), store8_apply_ne _ _ (by omega),
    store8_apply_ne _ _ (by omega)]

theorem changesOnly_initIdt (T : IdtLayout) (S : StubAddresses) (m : Mem) :
    ChangesOnly T.gateRegions m (initIdt T S m) := by
  intro x hlt hx
  have hidp := T.idp_fits
  have hout : ∀ r ∈ T.gateRegions, ¬ r.Contains x := fun r hr h => hx ⟨r, hr, h⟩
  simp only [IdtLayout.gateRegions, List.forall_mem_cons, Region.Contains] at hout
  obtain ⟨hidt, hidp', -⟩ := hout
  rw [initIdt_apply T S m (by omega), store16, store32_apply_out _ _ (by simp only [Off]; omega),
    store8_apply_ne _ _ (by omega), store8_apply_ne _ _ (by omega)]

theorem changesOnly_setSyscallGate (T : IdtLayout) (S : StubAddresses) (m : Mem) :
    ChangesOnly [⟨T.idt, 2048⟩] m (setSyscallGate T S m) := by
  intro x _ hx
  have hout : ¬ Region.Contains ⟨T.idt, 2048⟩ x := fun h => hx ⟨_, List.mem_singleton.mpr rfl, h⟩
  have h80 : (0x80 : Byte).toNat = 128 := rfl
  simp only [Region.Contains] at hout
  exact idtSetGate_apply _ _ _ _ _ _ T.idt_fits (by omega)

/-- The gates, if no one touches the table between `init_idt` and the last gate. -/
theorem gatesBuilt_setSyscallGate (T : IdtLayout) (S : StubAddresses) {ss : List Region}
    {m m' : Mem} (h : ChangesOnly ss (initIdt T S m) m') (hapart : AllApart T.gateRegions ss) :
    GatesBuilt T S (setSyscallGate T S m') := by
  have hidt := T.idt_fits
  have hidp := T.idp_fits
  have hidtidp := T.idt_idp
  have hsame : ∀ r ∈ T.gateRegions, ∀ x < 2 ^ 32, r.Contains x → m' x = initIdt T S m x :=
    fun r hr x hlt hx => h x hlt (hapart.not_covers ⟨r, hr, hx⟩)
  simp only [IdtLayout.gateRegions, List.forall_mem_cons, Region.Contains] at hsame
  obtain ⟨hsameIdt, hsameIdp, -⟩ := hsame
  have hbuilt : IdtBuilt T S (setSyscallGate T S m') := by
    refine ⟨m, m', ?_, fun v => rfl⟩
    intro v
    have hv := v.isLt
    exact entryBytes_of_bytes (by omega) fun x h1 h2 => hsameIdt x (by omega) ⟨by omega, by omega⟩
  have hidpBytes : ∀ x, T.idp ≤ x → x < T.idp + 6 →
      setSyscallGate T S m' x = initIdt T S m x := by
    intro x h1 h2
    have hin : ¬ Covers [⟨T.idt, 2048⟩] x := by
      rintro ⟨r, hr, hx⟩
      rw [List.mem_singleton.mp hr] at hx
      simp only [Region.Contains] at hx
      omega
    rw [changesOnly_setSyscallGate T S m' x (by omega) hin, hsameIdp x (by omega) ⟨h1, h2⟩]
  have hidpRead := idp_initIdt T S m
  refine ⟨⟨?_, ?_⟩, readGate_idtBuilt hbuilt⟩
  · rw [load16_of_bytes (by omega) fun x h1 h2 => hidpBytes x h1 (by omega), hidpRead.1]
  · rw [load32_of_bytes (by omega) fun x h1 h2 => hidpBytes x (by omega) (by omega), hidpRead.2]

theorem pagesBuilt_initVmm {im : Image} (A : VmmLayout im) (m : Mem) :
    PagesBuilt A.toVmmArrays (initVmm A m) := ⟨identityMap_kernel A m, identityMap_user A m⟩

theorem changesOnly_initVmm {im : Image} (A : VmmLayout im) (m : Mem) :
    ChangesOnly A.regions m (initVmm A m) := by
  intro x hlt hx
  have hout : ∀ a ∈ A.all, x < a ∨ a + 4096 ≤ x := by
    intro a ha
    have hnot : ¬ Region.Contains ⟨a, 4096⟩ x := fun h => hx ⟨_, List.mem_map.mpr ⟨a, ha, rfl⟩, h⟩
    simp only [Region.Contains] at hnot
    omega
  have hfits : ∀ a ∈ A.all, a + 4096 ≤ 2 ^ 32 := fun a ha => A.fits ha
  simp only [VmmArrays.all, List.forall_mem_cons] at hout hfits
  obtain ⟨hpd, hpt, hupd, hupt, -⟩ := hout
  obtain ⟨hpd', hpt', hupd', hupt', -⟩ := hfits
  have hhalf : initVmm A m x = buildMap m A.pageDirectory A.firstPageTable 0x03 x :=
    buildMap_apply_out _ hupd' hupt' hlt hupd hupt
  rw [hhalf, buildMap_apply_out _ hpd' hpt' hlt hpd hpt]

/-! ### The heap -/

variable {R : HeapRegion} {h : Heap} {live : List (Nat × Nat)} {cs cs' : List Chunk} {n a : Nat}

theorem HeapInv.kmalloc_at (H : HeapInv R ⟨h, live⟩ cs)
    (hal : Tiling.alloc headerSize splitSlack n cs = some (a, cs')) :
    ∃ h', Antagonist.kmalloc n h = some (a + headerSize, h') ∧
      HeapInv R ⟨h', (a + headerSize, n) :: live⟩ cs' := by
  rcases H.heapAt.kmalloc n with ⟨hnone, _⟩ | ⟨a', ds, m', hal', hrun, hA, _⟩
  · rw [hal] at hnone
    cases hnone
  · rw [hal] at hal'
    obtain ⟨rfl, rfl⟩ := Prod.mk.inj (Option.some.inj hal')
    exact ⟨_, hrun, H.alloc hal hA⟩

/-- What is neither in the heap nor at the top of memory. -/
def OutsideHeap (R : HeapRegion) (x : Nat) : Prop := x < 2 ^ 32 ∧ (x < R.start ∨ R.stop ≤ x)

theorem HeapInv.store32_outside (H : HeapInv R ⟨h, live⟩ cs) {b : Nat × Nat} (hb : b ∈ live)
    {p : Nat} (hp : b.1 ≤ p ∧ p + 4 ≤ b.1 + b.2) (m : Mem) (v : Nat) {x : Nat}
    (hx : OutsideHeap R x) : store32 m p v x = m x := by
  have hin := H.block_inside hb
  have hstop := R.stop_lt
  simp only [OutsideHeap] at hx
  refine store32_apply_out m v ?_
  simp only [Off]
  omega

theorem allocThread_outside {k k' : Kernel} {t b : Nat} (H : HeapInv R ⟨k.heap, live⟩ cs)
    (hrun : allocThread k = some (t, b, k')) {x : Nat} (hx : OutsideHeap R x) :
    k'.heap.mem x = k.heap.mem x := by
  obtain ⟨p, h₁, hm₁, ⟨cs₁, H₁, _⟩, _⟩ := H.kmalloc tcbSize
  obtain ⟨q, h₂, hm₂, -, -⟩ := H₁.kmalloc stackSize
  simp only at hm₁ hm₂
  simp only [allocThread, hm₁, Option.bind_some, hm₂, Option.map_some, Option.some.injEq,
    Prod.mk.injEq] at hrun
  obtain ⟨-, -, rfl⟩ := hrun
  exact (H₁.kmalloc_outside hm₂ hx.2).trans (H.kmalloc_outside hm₁ hx.2)

variable {task0 : Nat} {s : TaskSys} {l : List Nat}

theorem TaskRel.head_live (H : TaskRel R task0 s l) :
    (s.kernel.taskListHead, tcbSize) ∈ s.live := by
  rw [H.ring.head]
  exact H.live task0 List.mem_cons_self

/-- What `create_thread` stores, once it has its two blocks. -/
theorem TaskRel.setUp (H : TaskRel R task0 s l) {bootstrap entry : BitVec 32} {t b : Nat}
    {k₁ : Kernel} (A : Allocated s.kernel k₁ s.live t b) :
    SetUp k₁ (setupThread bootstrap.toNat entry.toNat t b k₁) bootstrap.toNat entry.toNat t b := by
  obtain ⟨cs, HI⟩ := H.heapInv
  have hroom := length_le_of_fits H.ring.nodup H.ring.fits
  have hid : s.kernel.nextThreadId < 2 ^ 32 := by
    simp only [List.length_cons, tcbSize] at hroom
    rw [H.ring.nextThreadId]
    omega
  exact A.setUp H.head_live (fun blk hblk => (HI.top hblk).2) hid

theorem TaskRel.create_outside (H : TaskRel R task0 s l) {bootstrap entry : BitVec 32} {t b : Nat}
    {k' : Kernel} (hrun : createThread bootstrap.toNat entry.toNat s.kernel = some (t, b, k'))
    (ht : t ≠ 0) (hb : b ≠ 0) {x : Nat} (hx : OutsideHeap R x) :
    k'.heap.mem x = s.kernel.heap.mem x := by
  obtain ⟨cs, HI⟩ := H.heapInv
  obtain ⟨k₁, hal, rfl, ⟨cs', HI'⟩, A, -⟩ := H.created hrun ht hb
  have S : SetUp k₁ (setupThread bootstrap.toNat entry.toNat t b k₁) _ _ t b := H.setUp A
  have hstack := HI'.block_inside List.mem_cons_self
  have htcb := HI'.block_inside (List.mem_cons_of_mem _ List.mem_cons_self)
  have hhead := HI.block_inside H.head_live
  have hk₁ := congrArg Kernel.taskListHead A.globals
  have hx' := hx
  simp only [OutsideHeap] at hx'
  simp only [stackSize, tcbSize] at hstack htcb hhead hk₁
  rw [S.out x hx.1 (by simp only [tcbSize]; omega) (by omega) (by omega)]
  exact allocThread_outside HI hal hx

theorem createThread_at (H : TaskRel R task0 s l) (HI : HeapInv R ⟨s.kernel.heap, s.live⟩ cs)
    {cs'' : List Chunk} {a' : Nat}
    (hal : Tiling.alloc headerSize splitSlack tcbSize cs = some (a, cs'))
    (hal' : Tiling.alloc headerSize splitSlack stackSize cs' = some (a', cs''))
    (bootstrap entry : BitVec 32) :
    let t := a + headerSize
    let b := a' + headerSize
    ∃ k₁, allocThread s.kernel = some (t, b, k₁) ∧
      HeapInv R ⟨(setupThread bootstrap.toNat entry.toNat t b k₁).heap,
        (b, stackSize) :: (t, tcbSize) :: s.live⟩ cs'' := by
  intro t b
  obtain ⟨h₁, hm₁, H₁⟩ := HI.kmalloc_at hal
  obtain ⟨h₂, hm₂, H₂⟩ := H₁.kmalloc_at hal'
  have ht : t ≠ 0 := by simp only [t, headerSize]; omega
  have hb : b ≠ 0 := by simp only [b, headerSize]; omega
  have halloc : allocThread s.kernel = some (t, b, { s.kernel with heap := h₂ }) := by
    rw [allocThread, hm₁, Option.bind_some]
    simp only [hm₂, Option.map_some]
    rfl
  obtain ⟨-, A⟩ := allocThread_spec HI (fun blk hblk => Or.inl hblk) halloc ht hb
  exact ⟨_, halloc, H₂.setupThread (H.setUp A) H.head_live⟩

theorem initMultitasking_at (R : HeapRegion) (m : Mem)
    (hal : Tiling.alloc headerSize splitSlack tcbSize
      [⟨R.start, R.pages * pageSize - headerSize, true⟩] = some (a, cs')) :
    ∃ k, initMultitasking (freshKernel R m) = some k ∧ k.taskListHead = a + headerSize ∧
      HeapInv R ⟨k.heap, [(a + headerSize, tcbSize)]⟩ cs' ∧
      ∀ x, OutsideHeap R x → k.heap.mem x = m x := by
  obtain ⟨h₁, hm₁, H₁⟩ := (heapInv_init R m).kmalloc_at hal
  have hmem : (a + headerSize, tcbSize) ∈ [(a + headerSize, tcbSize)] := List.mem_singleton.mpr rfl
  have htop := (H₁.top hmem).2
  simp only [tcbSize] at htop
  rw [initMultitasking, freshKernel, hm₁, Option.map_some]
  refine ⟨_, rfl, rfl, H₁.stores fun x _ hxs hx => ?_, fun x hx => ?_⟩
  · have hstop := R.stop_lt
    have hxb := hx _ hmem
    simp only [InBlock, tcbSize] at hxb
    have hout : ∀ (m : Mem) (p v : Nat), a + headerSize ≤ p → p + 4 ≤ a + headerSize + 52 →
        store32 m p v x = m x := by
      intro m p v h1 h2
      refine store32_apply_out m v ?_
      simp only [Off]
      omega
    simp only [Kernel.setEntry, Kernel.setEsp, Kernel.setId, Kernel.store]
    rw [hout, hout, hout, hout] <;> omega
  · simp only [Kernel.setEntry, Kernel.setEsp, Kernel.setId, Kernel.setNext, Kernel.store]
    rw [H₁.store32_outside hmem (by simp only [tcbSize]; omega) _ _ hx,
      H₁.store32_outside hmem (by simp only [tcbSize]; omega) _ _ hx,
      H₁.store32_outside hmem (by simp only [tcbSize]; omega) _ _ hx,
      H₁.store32_outside hmem (by simp only [tcbSize]; omega) _ _ hx,
      (heapInv_init R m).kmalloc_outside hm₁ hx.2, initHeap_outside m hx.2 hx.1]

/-! ### The screen -/

def ScreenClear (m : Mem) : Prop :=
  ∀ k < 2000, m (0xB8000 + 2 * k) = 0x20 ∧ m (0xB8000 + 2 * k + 1) = 0x07

theorem screenClear_clearScreenMem (m : Mem) : ScreenClear (clearScreenMem m) := by
  intro k hk
  have hstep : ∀ m : Mem, ∀ i < 2000, ∀ j : Nat,
      (fun m : Mem => (m (0xB8000 + 2 * j), m (0xB8000 + 2 * j + 1)))
        (store8 (store8 m (0xB8000 + 2 * i) 0x20) (0xB8000 + 2 * i + 1) 0x07) =
      if j = 0 + i then (0x20, 0x07) else (m (0xB8000 + 2 * j), m (0xB8000 + 2 * j + 1)) := by
    intro m i hi j
    by_cases hj : j = 0 + i
    · have heven : 0xB8000 + 2 * i < 2 ^ 32 := by omega
      have hodd : 0xB8000 + 2 * i + 1 < 2 ^ 32 := by omega
      rw [if_pos hj, hj, Nat.zero_add]
      simp only [store8, Nat.mod_eq_of_lt heven, Nat.mod_eq_of_lt hodd]
      rw [if_neg (by omega), if_pos trivial, if_pos trivial]
    · rw [if_neg hj]
      simp only
      rw [store8_apply_ne _ _ (by omega), store8_apply_ne _ _ (by omega),
        store8_apply_ne _ _ (by omega), store8_apply_ne _ _ (by omega)]
  have hcell := foldl_range_store
    (fun (m : Mem) (j : Nat) => (m (0xB8000 + 2 * j), m (0xB8000 + 2 * j + 1)))
    (fun _ => ((0x20 : Byte), (0x07 : Byte))) hstep m k
  rw [if_pos (by omega)] at hcell
  exact Prod.mk.inj hcell

theorem changesOnly_video (m : Mem) {a : Nat} (b : Byte) (ha : 0xB8000 ≤ a ∧ a < 0xB8000 + 4000) :
    ChangesOnly [videoArea] m (store8 m a b) := by
  refine (changesOnly_store8 m b (by omega)).mono ?_
  intro r hr
  rw [List.mem_singleton.mp hr]
  refine ⟨_, List.mem_singleton.mpr rfl, ?_⟩
  simp only [Region.Inside, videoArea]
  omega

theorem changesOnly_clearScreenMem (m : Mem) :
    ChangesOnly [videoArea] m (clearScreenMem m) := by
  refine changesOnly_fold ?_ m
  intro m k hk
  have hlt := List.mem_range.mp hk
  exact (changesOnly_video m _ (by omega)).then (changesOnly_video _ _ (by omega))

theorem changesOnly_printBanner {offset : Nat} (color : Byte) {text : List Byte} {i : Nat}
    (hfits : offset + (i + text.length) * 2 ≤ 4000) (m : Mem) :
    ChangesOnly [videoArea] m (printBanner offset color text i m) := by
  induction text generalizing i m with
  | nil => exact ChangesOnly.refl _ m
  | cons c text ih =>
    rw [List.length_cons] at hfits
    have hcell := (changesOnly_video m c (a := 0xB8000 + (offset + i * 2)) (by omega)).then
      (changesOnly_video _ color (a := 0xB8000 + (offset + i * 2) + 1) (by omega))
    exact hcell.then (ih (by omega) _)

theorem screenClear_bootScreen (m : Mem) : ScreenClear (bootScreen m) :=
  screenClear_clearScreenMem _

theorem changesOnly_bootScreen (m : Mem) : ChangesOnly [videoArea] m (bootScreen m) := by
  have hfits : ∀ b ∈ banners, b.1 + (0 + b.2.2.length) * 2 ≤ 4000 := by decide
  have hbanners : ChangesOnly [videoArea] (clearScreenMem m)
      (banners.foldl (fun m b => printBanner b.1 b.2.1 b.2.2 0 m) (clearScreenMem m)) :=
    changesOnly_fold (fun m b hb => changesOnly_printBanner b.2.1 (hfits b hb) m) _
  exact ((changesOnly_clearScreenMem m).then hbanners).then (changesOnly_clearScreenMem _)

end

/-! ### The threads -/

section

variable {im : Image} {L : BootLayout im} {C : ThreadCode}

/-- Task 0, on the stack of `boot.s`. -/
def BootLayout.task0 (L : BootLayout im) : Thread := ⟨0x300009, L.stackBottom, 16384, 0⟩

theorem BootLayout.stack_below (L : BootLayout im) :
    L.task0.stack + L.task0.size ≤ kernelHeap.start :=
  Nat.le_trans L.stack_in_image.2 L.below_heap

/-- The kernel while `kernel_main` sets up its threads: a run of `taskLts` and of `switchLts`, and
the chunks of the heap. -/
structure BootStage (L : BootLayout im) (C : ThreadCode) (ops : List TaskOp) (sops : List SwitchOp)
    (k : Kernel) (live : List (Nat × Nat)) (created : List Thread) (cs : List Chunk) : Prop where
  task : (taskLts kernelHeap C.threadBootstrap L.task0.tcb).Run ops
    ⟨k, live, created.map Thread.tcb⟩
  switch : ∀ regs eip, (switchLts kernelHeap C.threadBootstrap L.task0).Run sops
    ⟨regs, eip, k, created⟩
  heap : HeapInv kernelHeap ⟨k.heap, live⟩ cs
  running : k.runningTask = L.task0.tcb
  blocks : ∀ blk ∈ regions created, blk ∈ live

variable {ops : List TaskOp} {sops : List SwitchOp} {k : Kernel} {live : List (Nat × Nat)}
  {created : List Thread} {cs cs' cs'' : List Chunk} {a a' : Nat}

/-- Task 0's stack is in the image, and its block and all else in the heap. -/
theorem BootStage.held (B : BootStage L C ops sops k live created cs) :
    ∀ blk ∈ regions (L.task0 :: created), blk ∈ live ∨
      blk.1 + blk.2 ≤ kernelHeap.start ∨ kernelHeap.stop ≤ blk.1 := by
  obtain ⟨l, _, H⟩ := (task_simulation _ _ _).run B.task
  intro blk hblk
  rw [regions, List.flatMap_cons, List.cons_append, List.cons_append, List.nil_append,
    List.mem_cons, List.mem_cons] at hblk
  rcases hblk with rfl | rfl | hblk
  · exact Or.inl (H.live _ List.mem_cons_self)
  · exact Or.inr (Or.inl L.stack_below)
  · exact Or.inl (B.blocks blk hblk)

/-- The blocks of the threads are in the heap, and so are all stacks but that of task 0. -/
theorem BootStage.in_heap (B : BootStage L C ops sops k live created cs) {th : Thread}
    (hth : th ∈ L.task0 :: created) {x : Nat} (hx : InBlock (th.tcb, tcbSize) x ∨
      th.tcb ≠ k.runningTask ∧ InBlock (th.stack, th.size) x) :
    kernelHeap.start ≤ x ∧ x < kernelHeap.stop := by
  obtain ⟨l, _, H⟩ := (task_simulation _ _ _).run B.task
  have hmem : ∀ blk ∈ live, InBlock blk x → kernelHeap.start ≤ x ∧ x < kernelHeap.stop := by
    intro blk hblk hin
    have hinside := B.heap.block_inside hblk
    simp only [InBlock] at hin
    omega
  rcases hx with hx | ⟨hne, hx⟩
  · exact hmem _ (H.live _ (List.mem_map_of_mem (f := Thread.tcb) hth)) hx
  · rcases List.mem_cons.mp hth with rfl | hth
    · exact absurd B.running.symm hne
    · exact hmem _ (B.blocks _ (mem_regions_stack hth)) hx

theorem BootStage.store (B : BootStage L C ops sops k live created cs) {rs : List Region} {m' : Mem}
    (h : ChangesOnly rs k.heap.mem m') (hapart : AllApart [heapArea] rs) :
    BootStage L C (ops ++ [.store]) (sops ++ [.work]) (k.withMem m') live created cs := by
  have hsame : ∀ x, kernelHeap.start ≤ x → x < kernelHeap.stop → m' x = k.heap.mem x := by
    intro x h1 h2
    have hlt := kernelHeap.stop_lt
    exact h x (by omega) (hapart.not_covers ⟨heapArea, List.mem_singleton.mpr rfl, h1, h2⟩)
  refine ⟨B.task.snoc (TaskStep.store fun x h1 h2 _ => hsame x h1 h2), ?_, ?_, B.running, B.blocks⟩
  · intro regs eip
    refine (B.switch regs eip).snoc (SwitchStep.work ?_ ?_)
    · intro th hth x hx
      have hin := B.in_heap hth (Or.inl hx)
      exact hsame x hin.1 hin.2
    · intro th hth hne x hx
      have hin := B.in_heap hth (Or.inr ⟨hne, hx⟩)
      exact hsame x hin.1 hin.2
  · exact B.heap.stores fun x h1 h2 _ => hsame x h1 h2

theorem BootStage.create (B : BootStage L C ops sops k live created cs)
    (hal : alloc headerSize splitSlack tcbSize cs = some (a, cs'))
    (hal' : alloc headerSize splitSlack stackSize cs' = some (a', cs'')) (entry : BitVec 32) :
    let t := a + headerSize
    let b := a' + headerSize
    ∃ k', createThread C.threadBootstrap.toNat entry.toNat k = some (t, b, k') ∧
      BootStage L C (ops ++ [.create t]) (sops ++ [.create ⟨t, b, stackSize, entry⟩]) k'
        ((b, stackSize) :: (t, tcbSize) :: live) (⟨t, b, stackSize, entry⟩ :: created) cs'' ∧
      ∀ x, OutsideHeap kernelHeap x → k'.heap.mem x = k.heap.mem x := by
  intro t b
  obtain ⟨l, _, H⟩ := (task_simulation _ _ _).run B.task
  obtain ⟨k₁, halloc, H'⟩ := createThread_at H B.heap hal hal' C.threadBootstrap entry
  have ht : t ≠ 0 := by simp only [t, headerSize]; omega
  have hb : b ≠ 0 := by simp only [b, headerSize]; omega
  have hcreate : createThread C.threadBootstrap.toNat entry.toNat k =
      some (t, b, setupThread C.threadBootstrap.toNat entry.toNat t b k₁) := by
    rw [createThread, halloc]
    rfl
  obtain ⟨-, A⟩ := allocThread_spec B.heap B.held halloc ht hb
  refine ⟨_, hcreate, ⟨B.task.snoc (TaskStep.create hcreate ht hb), ?_, H', ?_, ?_⟩,
    fun x hx => H.create_outside hcreate ht hb hx⟩
  · intro regs eip
    exact (B.switch regs eip).snoc (SwitchStep.create halloc A)
  · have hglobals := congrArg Kernel.runningTask A.globals
    exact hglobals.trans B.running
  · intro blk hblk
    rw [regions, List.flatMap_cons, List.cons_append, List.cons_append, List.nil_append,
      List.mem_cons, List.mem_cons] at hblk
    rcases hblk with rfl | rfl | hblk
    · exact List.mem_cons_of_mem _ List.mem_cons_self
    · exact List.mem_cons_self
    · exact List.mem_cons_of_mem _ (List.mem_cons_of_mem _ (B.blocks blk hblk))

end

/-! ### The whole of it -/

section

variable {im : Image} (L : BootLayout im) (S : StubAddresses) (C : ThreadCode)

/-- What the kernel uses besides the image. -/
def areas : List Region := [heapArea, videoArea]

theorem BootLayout.apart_areas (L : BootLayout im) {rs : List Region}
    (hrs : ∀ r ∈ rs, Image.start ≤ r.base ∧ r.base + r.size ≤ im.stop) : AllApart rs areas := by
  have hbelow := L.below_heap
  intro r hr s hs
  have hin := hrs r hr
  simp only [Image.start] at hin
  simp only [areas, List.mem_cons, List.not_mem_nil, or_false] at hs
  rcases hs with rfl | rfl
  · simp only [Region.Apart, heapArea]
    omega
  · simp only [Region.Apart, videoArea]
    omega

theorem BootLayout.heap_apart (L : BootLayout im) {rs : List Region}
    (hrs : ∀ r ∈ rs, Image.start ≤ r.base ∧ r.base + r.size ≤ im.stop) :
    AllApart [heapArea] rs := by
  intro r hr s hs
  rw [List.mem_singleton.mp hr]
  exact (L.apart_areas hrs s hs _ List.mem_cons_self).symm

theorem BootLayout.arrays_in_image : ∀ r ∈ L.arrays.regions,
    Image.start ≤ r.base ∧ r.base + r.size ≤ im.stop := by
  intro r hr
  obtain ⟨a, ha, rfl⟩ := List.mem_map.mp hr
  exact L.arrays.in_image a ha

theorem BootLayout.apart_segments :
    AllApart L.tables.regions (L.tables.gateRegions ++ (L.arrays.regions ++ areas)) := by
  obtain ⟨-, -, h⟩ := List.pairwise_append.mp L.apart
  have h' : AllApart L.tables.regions (L.tables.gateRegions ++ L.arrays.regions) := h
  rw [← List.append_assoc]
  exact h'.append (L.apart_areas fun r hr => L.tables_in_image r (List.mem_append_left _ hr))

theorem BootLayout.apart_gates : AllApart L.tables.gateRegions (L.arrays.regions ++ areas) := by
  obtain ⟨-, h, -⟩ := List.pairwise_append.mp L.apart
  obtain ⟨-, -, h'⟩ := List.pairwise_append.mp h
  exact AllApart.append h'
    (L.apart_areas fun r hr => L.tables_in_image r (List.mem_append_right _ hr))

theorem BootLayout.apart_pages : AllApart L.arrays.regions (L.tables.gateRegions ++ areas) := by
  obtain ⟨-, h, -⟩ := List.pairwise_append.mp L.apart
  obtain ⟨-, -, h'⟩ := List.pairwise_append.mp h
  have hgates : AllApart L.tables.gateRegions L.arrays.regions := h'
  exact hgates.symm.append (L.apart_areas L.arrays_in_image)

/-- The gates and the pages make up what comes after the segments. -/
theorem BootLayout.after_subset (L : BootLayout im) :
    L.tables.gateRegions ++ L.arrays.regions ++ (L.tables.gateRegions ++ areas) ⊆
      L.tables.gateRegions ++ (L.arrays.regions ++ areas) := by
  intro r hr
  simp only [List.mem_append] at hr ⊢
  tauto

/-- The tables survive whatever keeps to the heap and to the screen. -/
theorem TablesBuilt.keep {m m' : Mem} (H : TablesBuilt L S m) (h : ChangesOnly areas m m') :
    TablesBuilt L S m' := by
  refine ⟨?_, ?_, ?_⟩
  · refine (SegmentsBuilt.readsOnly _).keep h ?_ H.segments
    exact L.apart_areas fun r hr => L.tables_in_image r (List.mem_append_left _ hr)
  · refine (GatesBuilt.readsOnly _ _).keep h ?_ H.gates
    exact L.apart_areas fun r hr => L.tables_in_image r (List.mem_append_right _ hr)
  · exact (PagesBuilt.readsOnly _).keep h (L.apart_areas L.arrays_in_image) H.pages

theorem changesOnly_heapArea {m m' : Mem} (h : ∀ x, OutsideHeap kernelHeap x → m' x = m x) :
    ChangesOnly [heapArea] m m' := by
  intro x hlt hx
  refine h x ⟨hlt, ?_⟩
  have hnot : ¬ heapArea.Contains x := fun hin => hx ⟨_, List.mem_singleton.mpr rfl, hin⟩
  simp only [Region.Contains, heapArea] at hnot
  simp only [HeapRegion.stop]
  omega

/-- The threads that `kernel_main` creates. -/
def ThreadCode.alpha (C : ThreadCode) : Thread :=
  ⟨0x300046, 0x300083, stackSize, C.taskAlphaRoutine⟩

def ThreadCode.beta (C : ThreadCode) : Thread :=
  ⟨0x30108C, 0x3010C9, stackSize, C.taskBetaRoutine⟩

/-- The blocks that are in use then. -/
def bootLive : List (Nat × Nat) :=
  [(0x3010C9, stackSize), (0x30108C, tcbSize), (0x300083, stackSize), (0x300046, tcbSize),
    (0x300009, tcbSize)]

/-- The chunks of the heap when one, two and three threads are set up. -/
def chunksTask0 : List Chunk := [⟨0x300000, 52, false⟩, ⟨0x30003D, 1048506, true⟩]

def chunksAlpha : List Chunk :=
  [⟨0x300000, 52, false⟩, ⟨0x30003D, 52, false⟩, ⟨0x30007A, 4096, false⟩,
    ⟨0x301083, 1044340, true⟩]

def bootChunks : List Chunk :=
  [⟨0x300000, 52, false⟩, ⟨0x30003D, 52, false⟩, ⟨0x30007A, 4096, false⟩, ⟨0x301083, 52, false⟩,
    ⟨0x3010C0, 4096, false⟩, ⟨0x3020C9, 1040174, true⟩]

theorem alloc_alpha : alloc headerSize splitSlack tcbSize chunksTask0 =
      some (0x30003D, [⟨0x300000, 52, false⟩, ⟨0x30003D, 52, false⟩, ⟨0x30007A, 1048445, true⟩]) ∧
    alloc headerSize splitSlack stackSize [⟨0x300000, 52, false⟩, ⟨0x30003D, 52, false⟩,
      ⟨0x30007A, 1048445, true⟩] = some (0x30007A, chunksAlpha) := ⟨rfl, rfl⟩

theorem alloc_beta : alloc headerSize splitSlack tcbSize chunksAlpha =
      some (0x301083, [⟨0x300000, 52, false⟩, ⟨0x30003D, 52, false⟩, ⟨0x30007A, 4096, false⟩,
        ⟨0x301083, 52, false⟩, ⟨0x3010C0, 1044279, true⟩]) ∧
    alloc headerSize splitSlack stackSize [⟨0x300000, 52, false⟩, ⟨0x30003D, 52, false⟩,
      ⟨0x30007A, 4096, false⟩, ⟨0x301083, 52, false⟩, ⟨0x3010C0, 1044279, true⟩] =
        some (0x3010C0, bootChunks) := ⟨rfl, rfl⟩

/-- What `antagonist_main` finds, when memory was `m` at first. -/
structure Booted (m : Mem) (s : BootState) : Prop where
  tables : TablesBuilt L S s.kernel.heap.mem
  screen : ScreenClear s.kernel.heap.mem
  threads : BootStage L C [.store, .create C.alpha.tcb, .create C.beta.tcb, .store]
    [.work, .create C.alpha, .create C.beta, .work] s.kernel bootLive [C.beta, C.alpha] bootChunks
  ring : TaskRing s.kernel L.task0.tcb [C.beta.tcb, C.alpha.tcb]
  entries : ∀ th ∈ [C.beta, C.alpha], s.kernel.entry th.tcb = th.entry.toNat
  pmm : PmmHolds bootMemory s.pmm ∅
  chips : Programmed s.chips.1 ∧ s.chips.2.mode = 3 ∧ s.chips.2.reload = some 11931
  untouched : ChangesOnly
    (L.tables.regions ++ (L.tables.gateRegions ++ (L.arrays.regions ++ areas))) m s.kernel.heap.mem

theorem bootStage_start (m : Mem) :
    ∃ k, initMultitasking (freshKernel kernelHeap m) = some k ∧
      BootStage L C [] [] k [(0x300009, tcbSize)] [] chunksTask0 ∧
      ChangesOnly [heapArea] m k.heap.mem := by
  have hal : alloc headerSize splitSlack tcbSize
      [⟨kernelHeap.start, kernelHeap.pages * pageSize - headerSize, true⟩] =
        some (0x300000, chunksTask0) := by decide
  obtain ⟨k, hrun, hhead, HI, hout⟩ := initMultitasking_at kernelHeap m hal
  have hring := (initMultitasking_spec hrun).2
  refine ⟨k, hrun, ⟨.start ⟨m, k, hrun, hhead, rfl⟩, fun regs eip => .start ⟨m, hrun, hhead, rfl⟩,
    HI, ?_, fun blk hblk => absurd hblk List.not_mem_nil⟩, changesOnly_heapArea hout⟩
  rw [List.mem_singleton.mp hring.running, hhead]
  rfl

/-- The stages of `kernel_main`, each over what the ones before have left. -/
theorem kernelMain_stages (m : Mem) (bitmap : Bitmap) (chips : I8259.Pic × I8254.Pit)
    {writes : List IrqInstr} (hwrites : initTimer 100 = some writes) :
    ∃ k, kernelMain L S C m bitmap chips =
        some ⟨k, initPmm bitmap bootMemory, writes.foldl timerOutb chips⟩ ∧
      TablesBuilt L S k.heap.mem ∧ ScreenClear k.heap.mem ∧
      BootStage L C [.store, .create C.alpha.tcb, .create C.beta.tcb, .store]
        [.work, .create C.alpha, .create C.beta, .work] k bootLive [C.beta, C.alpha] bootChunks ∧
      ChangesOnly (L.tables.regions ++ (L.tables.gateRegions ++ (L.arrays.regions ++ areas))) m
        k.heap.mem := by
  -- the tables
  have hgdt := changesOnly_initGdt L.tables.toGdtLayout m
  have Hgdt := segmentsBuilt_initGdt L.tables.toGdtLayout m
  generalize hm₁ : initGdt L.tables.toGdtLayout m = m₁ at hgdt Hgdt
  have hidt := changesOnly_initIdt L.tables S m₁
  have hvmm := changesOnly_initVmm L.arrays (initIdt L.tables S m₁)
  have Hvmm := pagesBuilt_initVmm L.arrays (initIdt L.tables S m₁)
  generalize hm₃ : initVmm L.arrays (initIdt L.tables S m₁) = m₃ at hvmm Hvmm
  -- the heap and the threads
  obtain ⟨k₀, hk₀, B₀, hheap₀⟩ := bootStage_start (L := L) (C := C) m₃
  have hgate := changesOnly_setSyscallGate L.tables S k₀.heap.mem
  have Hgate := gatesBuilt_setSyscallGate L.tables S (hvmm.trans hheap₀)
    (L.apart_gates.of_subset (by simp [areas]))
  have hidtIn : ∀ r ∈ [(⟨L.tables.idt, 2048⟩ : Region)],
      Image.start ≤ r.base ∧ r.base + r.size ≤ im.stop := by
    intro r hr
    rw [List.mem_singleton.mp hr]
    exact L.tables_in_image _ (List.mem_append_right _ List.mem_cons_self)
  have hscreenApart : AllApart [heapArea] [videoArea] := by
    intro r hr s hs
    rw [List.mem_singleton.mp hr, List.mem_singleton.mp hs]
    exact Or.inr (by decide)
  have B₁ := B₀.store hgate (L.heap_apart hidtIn)
  obtain ⟨k₂, hk₂, B₂, hout₂⟩ := B₁.create alloc_alpha.1 alloc_alpha.2 C.taskAlphaRoutine
  obtain ⟨k₃, hk₃, B₃, hout₃⟩ := B₂.create alloc_beta.1 alloc_beta.2 C.taskBetaRoutine
  have hscreen := changesOnly_bootScreen k₃.heap.mem
  have Hscreen := screenClear_bootScreen k₃.heap.mem
  generalize hm₅ : bootScreen k₃.heap.mem = m₅ at hscreen Hscreen
  have hlast : ChangesOnly areas (setSyscallGate L.tables S k₀.heap.mem) m₅ :=
    ((changesOnly_heapArea hout₂).then (changesOnly_heapArea hout₃)).trans hscreen
  -- what comes after each table, and is apart from it
  have hafterPages : ChangesOnly (L.tables.gateRegions ++ areas) m₃ m₅ := by
    refine ((hheap₀.trans hgate).trans hlast).of_subset ?_
    simp [IdtLayout.gateRegions, areas]
  have hafterSegments := ((hidt.trans hvmm).trans hafterPages).of_subset L.after_subset
  refine ⟨k₃.withMem m₅, ?_, ⟨?_, ?_, ?_⟩, Hscreen, B₃.store hscreen hscreenApart,
    hgdt.trans hafterSegments⟩
  · have htables : bootTables L S m = freshKernel kernelHeap m₃ := by
      rw [← hm₃, ← hm₁]
      rfl
    rw [kernelMain, hwrites, Option.bind_some, htables, hk₀]
    simp only [Option.bind_some]
    rw [hk₂, Option.bind_some, hk₃, Option.map_some, hm₅]
  · exact (SegmentsBuilt.readsOnly _).keep hafterSegments L.apart_segments Hgdt
  · exact (GatesBuilt.readsOnly _ _).keep hlast
      (L.apart_gates.of_subset (List.subset_append_right _ _)) Hgate
  · exact (PagesBuilt.readsOnly _).keep hafterPages L.apart_pages Hvmm

/-- The threads run on what `kernel_main` has left, and store to the heap and to the screen only. -/
def bootedLts : Lts TaskSys TaskOp where
  init s := ∃ m bitmap chips b, kernelMain L S C m bitmap chips = some b ∧
    s = ⟨b.kernel, bootLive, [C.beta.tcb, C.alpha.tcb]⟩
  step s op t := TaskStep kernelHeap C.threadBootstrap L.task0.tcb s op t ∧
    (op = .store → ChangesOnly areas s.kernel.heap.mem t.kernel.heap.mem)

/-- All that is not a store of some thread keeps to the heap. -/
theorem TaskStep.outside {R : HeapRegion} {bootstrap : BitVec 32} {task0 : Nat} {s t : TaskSys}
    {op : TaskOp} {l : List Nat} (H : TaskRel R task0 s l) (hs : TaskStep R bootstrap task0 s op t)
    (hop : op ≠ .store) {x : Nat} (hx : OutsideHeap R x) :
    t.kernel.heap.mem x = s.kernel.heap.mem x := by
  obtain ⟨cs, HI⟩ := H.heapInv
  cases hs with
  | store => exact absurd rfl hop
  | kmalloc _ hrun => exact HI.kmalloc_outside hrun hx.2
  | kfree hp _ hrun => exact HI.kfree_outside hp hrun hx.2
  | create hrun ht hb => exact H.create_outside hrun ht hb hx
  | switchTo hrun =>
    -- the stack pointer goes into the block of the thread that is left
    rcases switchTask_spec H.ring with ⟨_, hnone⟩ | ⟨_, hsome⟩
    · rw [hrun] at hnone
      cases hnone
    · rw [hrun] at hsome
      simp only [Option.some.injEq, Prod.mk.injEq] at hsome
      obtain ⟨rfl, -, rfl⟩ := hsome
      exact HI.store32_outside (H.live _ H.ring.running) (by simp only [tcbSize]; omega) _ _ hx
  | stay => rfl

theorem exists_booted : ∃ b : BootState, (bootedLts L S C).Reachable
    ⟨b.kernel, bootLive, [C.beta.tcb, C.alpha.tcb]⟩ := by
  have chips : I8259.Pic × I8254.Pit :=
    (⟨.ready, false, false, 0, false, false, ∅, ∅, ∅⟩, ⟨0, 0, false, none, none⟩)
  obtain ⟨writes, hwrites, -⟩ := initTimer_spec chips (show (100 : BitVec 32) ≠ 0 by decide)
  obtain ⟨k, hrun, -⟩ := kernelMain_stages L S C (fun _ => 0xFF) (fun _ => 0xFF) chips hwrites
  exact ⟨_, .start ⟨_, _, _, _, hrun, rfl⟩⟩

theorem kernelMain_tables {m : Mem} {bitmap : Bitmap} {chips : I8259.Pic × I8254.Pit}
    {b : BootState} (hb : kernelMain L S C m bitmap chips = some b) :
    TablesBuilt L S b.kernel.heap.mem ∧
      (taskLts kernelHeap C.threadBootstrap L.task0.tcb).Run
        [.store, .create C.alpha.tcb, .create C.beta.tcb, .store]
        ⟨b.kernel, bootLive, [C.beta.tcb, C.alpha.tcb]⟩ := by
  obtain ⟨writes, hwrites, -⟩ := initTimer_spec chips (show (100 : BitVec 32) ≠ 0 by decide)
  obtain ⟨k, hrun, Htables, -, B, -⟩ := kernelMain_stages L S C m bitmap chips hwrites
  rw [hb] at hrun
  obtain rfl := Option.some.inj hrun
  exact ⟨Htables, B.task⟩

theorem taskReachable_of_reachable {s : TaskSys} (h : (bootedLts L S C).Reachable s) :
    (taskLts kernelHeap C.threadBootstrap L.task0.tcb).Reachable s := by
  refine h.invariant ?_ ?_
  · rintro s ⟨m, bitmap, chips, b, hb, rfl⟩
    exact ⟨_, (kernelMain_tables L S C hb).2⟩
  · rintro s op t hreach ⟨hs, -⟩
    exact hreach.step hs

theorem tablesBuilt_of_reachable {s : TaskSys} (h : (bootedLts L S C).Reachable s) :
    TablesBuilt L S s.kernel.heap.mem := by
  have hboth : (bootedLts L S C).Reachable s ∧ TablesBuilt L S s.kernel.heap.mem := by
    refine h.invariant (I := fun s => (bootedLts L S C).Reachable s ∧
      TablesBuilt L S s.kernel.heap.mem) ?_ ?_
    · rintro s ⟨m, bitmap, chips, b, hb, rfl⟩
      exact ⟨.start ⟨m, bitmap, chips, b, hb, rfl⟩, (kernelMain_tables L S C hb).1⟩
    · rintro s op t ⟨hreach, hbuilt⟩ ⟨hs, hstore⟩
      refine ⟨hreach.step ⟨hs, hstore⟩, ?_⟩
      by_cases hop : op = .store
      · exact hbuilt.keep L S (hstore hop)
      · obtain ⟨tr, hrun⟩ := taskReachable_of_reachable L S C hreach
        obtain ⟨l, -, H⟩ := (task_simulation _ _ _).run hrun
        have houtside := changesOnly_heapArea fun x hx => hs.outside H hop hx
        exact hbuilt.keep L S (houtside.of_subset (by simp [areas]))
  exact hboth.2

/-- **The tables stay as `kernel_main` has left them** in every run of the threads, and what holds
of the runs of `taskLts` holds of these. -/
theorem built_of_reachable {s : TaskSys} (h : (bootedLts L S C).Reachable s) :
    TablesBuilt L S s.kernel.heap.mem ∧
      (taskLts kernelHeap C.threadBootstrap L.task0.tcb).Reachable s :=
  ⟨tablesBuilt_of_reachable L S C h, taskReachable_of_reachable L S C h⟩

end

/-- The objects one after the other from 1 MiB on, and the stack of `boot.s`. -/
def smallBootLayout : BootLayout smallImage where
  tables := {
    gdt := 0x105000, gp := 0x105030, tssEntry := 0x105038, tssKernelStack := 0x1050A0,
    gdt_fits := by decide, gp_fits := by decide, tss_fits := by decide, stack_fits := by decide,
    gdt_gp := by decide, gdt_tss := by decide, gp_tss := by decide,
    idt := 0x106100, idp := 0x106900, idt_fits := by decide, idp_fits := by decide,
    idt_idp := by decide, gdt_idt := by decide }
  arrays := smallVmmLayout
  tables_in_image := by decide
  stackBottom := 0x107000
  stack_in_image := by decide
  apart := by decide
  below_heap := by decide

theorem exists_alphaShown {im : Image} (L : BootLayout im) (S : StubAddresses) (C : ThreadCode) :
    ∃ s, (bootedLts L S C).Reachable s ∧ s.kernel.heap.mem (0xB8000 + 430) = 0x31 := by
  obtain ⟨b, hstart⟩ := exists_booted L S C
  have hvideo := changesOnly_video b.kernel.heap.mem (a := 0xB8000 + 430) 0x31 (by decide)
  have hheap : ∀ x, kernelHeap.start ≤ x → x < kernelHeap.stop →
      store8 b.kernel.heap.mem (0xB8000 + 430) 0x31 x = b.kernel.heap.mem x := by
    intro x hx _
    have hlow : 0xB8000 + 430 < kernelHeap.start := by decide
    exact store8_apply_ne _ _ (by omega)
  have hreach := hstart.step ⟨TaskStep.store fun x h1 h2 _ => hheap x h1 h2,
    fun _ => hvideo.of_subset (by simp [areas])⟩
  exact ⟨_, hreach, by simp [store8]⟩

theorem built_of_reachable_small :
    let S : StubAddresses := ⟨0x100000, 0x100040, 0x100080, 0x1000C0⟩
    let C : ThreadCode := ⟨0x100100, 0x100140, 0x100180⟩
    ∃ s, (bootedLts smallBootLayout S C).Reachable s ∧ s.kernel.heap.mem (0xB8000 + 430) = 0x31 ∧
      TablesBuilt smallBootLayout S s.kernel.heap.mem := by
  intro S C
  obtain ⟨s, hreach, hshown⟩ := exists_alphaShown smallBootLayout S C
  exact ⟨s, hreach, hshown, (built_of_reachable smallBootLayout S C hreach).1⟩

end Antagonist
