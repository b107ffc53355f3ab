import Antagonist.Boot.Image
import Antagonist.Disk.Ata
import Antagonist.Lib.Logged
import Antagonist.Syscall.Dispatcher

/-!
# What a system call writes

The branches of `syscall_dispatcher` over the memory of the machine, with the address
of every store logged.  The arguments are the caller's, and the caller may be in
ring 3: the row and the string of call 1, and the buffer of call 4, are used as
they come.

The globals of `ata.cpp` are in the `Driver`, not in the memory.

* `confined_iff`: which calls keep to the screen, and to the caller's memory.
-/

namespace Antagonist

open ByteMem X86 Logged

/-- A store, and its address. -/
def store8L (m : Mem) (a : Nat) (b : Byte) : Logged Nat Mem := entry (a % 2 ^ 32) (store8 m a b)

/-- `(row * 80 + 10) * 2`. -/
def printIndex (row : Word) : Nat := ((row * 80 + 10) * 2).toNat

/-- The loop of call 1 from round `i` on, for a number of rounds if the string is as
long. -/
def printRoundsL (index text : Nat) : Nat → Nat → Mem → Logged Nat Mem
  | 0, _, m => return m
  | rounds + 1, i, m =>
      if load8 m (text + i) = 0 then return m
      else do
        let m ← store8L m (0xB8000 + index + 2 * i) (load8 m (text + i))
        let m ← store8L m (0xB8000 + index + 2 * i + 1) 0x0E
        printRoundsL index text rounds (i + 1) m

/-- The copy at the end of `ata_read_sector`. -/
def copyOutL (buffer : Nat) (sector : Sector) (m : Mem) : Logged Nat Mem :=
  Logged.foldl (fun m i => store8L m (buffer + i.val) (sector i)) m (List.finRange 512)

/-- The words of the saved frame. -/
def frameArgs (m : Mem) (registers : Word) : SyscallArgs where
  syscallNumber := savedRegister m registers 7
  arg1 := savedRegister m registers 6
  arg2 := savedRegister m registers 5

section

variable {δ : Type} (bus : Bus δ) (scancode : Byte) (registers : Word) (m : Mem) (d : Driver δ)

/-- `syscall_dispatcher`.  The loop of call 1 is followed for `rounds`; `scancode` is what
port `0x60` gives. -/
def runSyscallL (rounds : Nat) : Logged Nat (Mem × Driver δ) :=
  match syscallDispatcher (frameArgs m registers) with
  | .printString row textBuffer => do
      let m ← printRoundsL (printIndex row) textBuffer.toNat rounds 0 m
      return (m, d)
  | .queryPort => do
      let m ← store8L m (registers.toNat + 28) scancode
      let m ← store8L m (registers.toNat + 29) 0
      let m ← store8L m (registers.toNat + 30) 0
      let m ← store8L m (registers.toNat + 31) 0
      return (m, d)
  | .writeSector targetLbaSector sourceBuffer =>
      return (m, ataWriteSector bus targetLbaSector
        (fun i => load8 m (sourceBuffer.toNat + i.val)) d)
  | .readSector targetLbaSector destinationBuffer => do
      let read := ataReadSector bus targetLbaSector d
      let m ← copyOutL destinationBuffer.toNat read.1 m
      return (m, read.2)
  | .unknown => return (m, d)

def OnScreen (a : Nat) : Prop := 0xB8000 ≤ a ∧ a < 0xB8000 + 4000

def InKernelHeap (a : Nat) : Prop := 0x300000 ≤ a ∧ a < 0x400000

/-- The system call does what user space may ask for. -/
structure Confined (im : Image) : Prop where
  printString : (frameArgs m registers).syscallNumber = 1 →
    ∀ rounds, (runSyscallL bus scancode registers m d rounds).All OnScreen
  readSector : (frameArgs m registers).syscallNumber = 4 →
    ∀ rounds, (runSyscallL bus scancode registers m d rounds).All fun a =>
      Off (frameArgs m registers).arg1.toNat a < 512 ∧ ¬ im.Contains a ∧ ¬ InKernelHeap a
  unknown : (frameArgs m registers).syscallNumber ≠ 1 → (frameArgs m registers).syscallNumber ≠ 2 →
    (frameArgs m registers).syscallNumber ≠ 3 → (frameArgs m registers).syscallNumber ≠ 4 →
    ∀ rounds, (runSyscallL bus scancode registers m d rounds).val = (m, d) ∧
      (runSyscallL bus scancode registers m d rounds).log = []

end

/-! ### The loop of call 1 -/

/-- The string is empty, or it ends on the screen, in a byte that the loop has not
written over by then. -/
def PrintFits (m : Mem) (index text : Nat) : Prop :=
  load8 m text = 0 ∨ ∃ k, index + 2 * k ≤ 4000 ∧ load8 m (text + k) = 0 ∧
    2 * k ≤ Off (0xB8000 + index) (text + k)

section

variable {m m' : Mem} {index text i : Nat}

/-- After `i` rounds on the screen: `2 * i` bytes are written, and none of them is
zero. -/
structure Painted (m m' : Mem) (index i : Nat) : Prop where
  room : index + 2 * i ≤ 4000
  inside : ∀ a, Off (0xB8000 + index) a < 2 * i → load8 m' a ≠ 0
  outside : ∀ a, 2 * i ≤ Off (0xB8000 + index) a → load8 m' a = load8 m a

theorem Painted.start (h : index ≤ 4000) : Painted m m index 0 :=
  ⟨h, fun _ ha => absurd ha (Nat.not_lt_zero _), fun _ _ => rfl⟩

/-- The string ends here, if it does, as it did before the call. -/
theorem Painted.ends (h : Painted m m' index i) (hend : load8 m' (text + i) = 0) :
    load8 m (text + i) = 0 ∧ 2 * i ≤ Off (0xB8000 + index) (text + i) := by
  have hout : 2 * i ≤ Off (0xB8000 + index) (text + i) := by
    by_contra hin
    exact h.inside _ (by omega) hend
  exact ⟨(h.outside _ hout).symm.trans hend, hout⟩

/-- **One round.** -/
theorem Painted.round (h : Painted m m' index i) (hroom : index + 2 * (i + 1) ≤ 4000) {c : Byte}
    (hc : c ≠ 0) : Painted m (store8 (store8 m' (0xB8000 + index + 2 * i) c)
      (0xB8000 + index + 2 * i + 1) 0x0E) index (i + 1) := by
  refine ⟨hroom, fun a ha => ?_, fun a ha => ?_⟩
  · simp only [load8, store8]
    split
    · decide
    · split
      · exact hc
      · apply h.inside a
        simp only [Off] at ha ⊢
        omega
  · rw [load8_store8_ne, load8_store8_ne]
    · apply h.outside a
      omega
    · simp only [Off] at ha
      omega
    · simp only [Off] at ha
      omega

/-- **The loop stays on the screen** when the string ends there. -/
theorem Painted.all_printRoundsL {k : Nat} (hk : index + 2 * k ≤ 4000)
    (hend : load8 m (text + k) = 0) (hkept : 2 * k ≤ Off (0xB8000 + index) (text + k)) :
    ∀ (rounds i : Nat) (m' : Mem), i ≤ k → Painted m m' index i →
      (printRoundsL index text rounds i m').All OnScreen := by
  intro rounds
  induction rounds with
  | zero => exact fun i m' _ _ => all_pure m'
  | succ rounds ih =>
    intro i m' hi h
    rw [printRoundsL]
    by_cases hzero : load8 m' (text + i) = 0
    · rw [if_pos hzero]
      exact all_pure m'
    have hlt : i < k := by
      -- at `k` the byte is still the one from before the call
      refine lt_of_le_of_ne hi fun heq => hzero ?_
      rw [heq] at h ⊢
      rw [h.outside _ hkept, hend]
    rw [if_neg hzero, all_bind, all_bind]
    refine ⟨(all_entry _ _).mpr ?_, (all_entry _ _).mpr ?_, ?_⟩
    · unfold OnScreen
      omega
    · unfold OnScreen
      omega
    · exact ih (i + 1) _ hlt (h.round (by omega) hzero)

/-- **A loop that stays on the screen** comes to an end there. -/
theorem Painted.exists_end (heven : index % 2 = 0) :
    ∀ (n i : Nat) (m' : Mem), index + 2 * (i + n) = 4000 → Painted m m' index i →
      (∀ rounds, (printRoundsL index text rounds i m').All OnScreen) →
      ∃ k, index + 2 * k ≤ 4000 ∧ load8 m (text + k) = 0 ∧
        2 * k ≤ Off (0xB8000 + index) (text + k) := by
  intro n
  induction n with
  | zero =>
    intro i m' hi h hall
    by_cases hzero : load8 m' (text + i) = 0
    · exact ⟨i, h.room, h.ends hzero⟩
    · -- this round would write behind the screen
      have hone := hall 1
      rw [printRoundsL, if_neg hzero, all_bind] at hone
      have hwrite : OnScreen ((0xB8000 + index + 2 * i) % 2 ^ 32) := (all_entry _ _).mp hone.1
      unfold OnScreen at hwrite
      omega
  | succ n ih =>
    intro i m' hi h hall
    by_cases hzero : load8 m' (text + i) = 0
    · exact ⟨i, h.room, h.ends hzero⟩
    · refine ih (i + 1) _ (by omega) (h.round (by omega) hzero) ?_
      intro rounds
      have hmore := hall (rounds + 1)
      rw [printRoundsL, if_neg hzero, all_bind, all_bind] at hmore
      exact hmore.2.2

/-- **Call 1** keeps to the screen exactly when the string fits. -/
theorem printString_iff (heven : index % 2 = 0) (hindex : index < 2 ^ 32) :
    (∀ rounds, (printRoundsL index text rounds 0 m).All OnScreen) ↔ PrintFits m index text := by
  refine ⟨fun hall => ?_, fun hfits rounds => ?_⟩
  · by_cases hzero : load8 m text = 0
    · exact .inl hzero
    have hone := hall 1
    rw [printRoundsL, Nat.add_zero, if_neg hzero, all_bind] at hone
    have hwrite : OnScreen ((0xB8000 + index + 2 * 0) % 2 ^ 32) := (all_entry _ _).mp hone.1
    have hroom : index ≤ 4000 := by
      unfold OnScreen at hwrite
      omega
    exact .inr (Painted.exists_end heven ((4000 - index) / 2) 0 m (by omega) (.start hroom) hall)
  · rcases hfits with hzero | ⟨k, hk, hend, hkept⟩
    · cases rounds with
      | zero => exact all_pure m
      | succ rounds =>
        rw [printRoundsL, Nat.add_zero, if_pos hzero]
        exact all_pure m
    · exact Painted.all_printRoundsL hk hend hkept rounds 0 m (Nat.zero_le k) (.start (by omega))

end

/-! ### The buffer of call 4 -/

/-- The copy writes the 512 bytes of the buffer, and no other one. -/
theorem copyOutL_iff (buffer : Nat) (sector : Sector) (m : Mem) (P : Nat → Prop) :
    (copyOutL buffer sector m).All P ↔ ∀ i < 512, P ((buffer + i) % 2 ^ 32) := by
  have hround : ∀ (m : Mem) (i : Fin 512), (store8L m (buffer + i.val) (sector i)).All P ↔
      P ((buffer + i.val) % 2 ^ 32) := fun _ _ => all_entry _ _
  unfold copyOutL
  rw [all_foldl_iff hround]
  exact ⟨fun h i hi => h ⟨i, hi⟩ (List.mem_finRange _), fun h i _ => h i.val i.isLt⟩

/-! ### The calls -/

def BufferFits (im : Image) (buffer : Nat) : Prop :=
  ∀ i < 512, ¬ im.Contains ((buffer + i) % 2 ^ 32) ∧ ¬ InKernelHeap ((buffer + i) % 2 ^ 32)

theorem printIndex_even (row : Word) : printIndex row % 2 = 0 := by
  unfold printIndex
  rw [BitVec.toNat_mul]
  show (row * 80 + 10).toNat * 2 % 2 ^ 32 % 2 = 0
  omega

section

variable {δ : Type} (bus : Bus δ) (scancode : Byte) (registers : Word) (m : Mem) (d : Driver δ)

theorem all_runSyscallL_print (h : (frameArgs m registers).syscallNumber = 1) (rounds : Nat)
    (P : Nat → Prop) : (runSyscallL bus scancode registers m d rounds).All P ↔
      (printRoundsL (printIndex (frameArgs m registers).arg2) (frameArgs m registers).arg1.toNat
        rounds 0 m).All P := by
  unfold runSyscallL syscallDispatcher
  rw [if_pos h]
  simp only [all_bind, all_pure, and_true]

theorem all_runSyscallL_read (h : (frameArgs m registers).syscallNumber = 4) (rounds : Nat)
    (P : Nat → Prop) : (runSyscallL bus scancode registers m d rounds).All P ↔
      ∀ i < 512, P (((frameArgs m registers).arg1.toNat + i) % 2 ^ 32) := by
  unfold runSyscallL syscallDispatcher
  rw [h, if_neg (by decide), if_neg (by decide), if_neg (by decide), if_pos rfl]
  simp only [all_bind, all_pure, and_true]
  exact copyOutL_iff _ _ m P

/-- **A system call is confined** exactly when the string that it prints fits on the
screen, and the buffer that it fills keeps clear of the kernel. -/
theorem confined_iff (im : Image) : Confined bus scancode registers m d im ↔
    ((frameArgs m registers).syscallNumber = 1 →
      PrintFits m (printIndex (frameArgs m registers).arg2) (frameArgs m registers).arg1.toNat) ∧
    ((frameArgs m registers).syscallNumber = 4 →
      BufferFits im (frameArgs m registers).arg1.toNat) := by
  have heven := printIndex_even (frameArgs m registers).arg2
  have hindex : printIndex (frameArgs m registers).arg2 < 2 ^ 32 := BitVec.isLt _
  refine ⟨fun h => ⟨fun hnum => ?_, fun hnum => ?_⟩, fun ⟨hprint, hread⟩ => ⟨?_, ?_, ?_⟩⟩
  · refine (printString_iff heven hindex).mp ?_
    intro rounds
    exact (all_runSyscallL_print bus scancode registers m d hnum rounds _).mp (h.printString hnum rounds)
  · intro i hi
    have hall := (all_runSyscallL_read bus scancode registers m d hnum 0 _).mp (h.readSector hnum 0)
    exact (hall i hi).2
  · intro hnum rounds
    rw [all_runSyscallL_print bus scancode registers m d hnum]
    exact (printString_iff heven hindex).mpr (hprint hnum) rounds
  · intro hnum rounds
    rw [all_runSyscallL_read bus scancode registers m d hnum]
    intro i hi
    refine ⟨?_, hread hnum i hi⟩
    simp only [Off]
    omega
  · intro h1 h2 h3 h4 rounds
    unfold runSyscallL syscallDispatcher
    rw [if_neg h1, if_neg h2, if_neg h3, if_neg h4]
    exact ⟨rfl, rfl⟩

end

/-- A frame at `0x9000` that asks for sector 2, to the first byte of the kernel. -/
def readOverKernel : Mem := fun a => if a = 0x901C then 4 else if a = 0x901A then 0x10
  else if a = 0x9014 then 2 else 0

/-- The sector is written over the kernel. -/
theorem not_confined : ¬ ∀ (registers : Word) (m : Mem) (d : Driver Unit),
    Confined ⟨fun _ _ _ => (), fun _ => (0x58, ()), fun _ => (fun _ => 0, ()), fun _ _ => ()⟩ 0
      registers m d smallImage := by
  intro h
  have hnum : (frameArgs readOverKernel 0x9000).syscallNumber = 4 := by decide
  have hbuffer : (frameArgs readOverKernel 0x9000).arg1 = 0x100000 := by decide
  have hfirst := (all_runSyscallL_read _ 0 0x9000 readOverKernel ⟨fun _ => 0, false, ()⟩ hnum 0 _).mp
    ((h 0x9000 readOverKernel ⟨fun _ => 0, false, ()⟩).readSector hnum 0) 0 (by decide)
  rw [hbuffer] at hfirst
  refine hfirst.2.1 ⟨le_refl _, ?_⟩
  have hstop := smallImage.stop_ge
  unfold Image.start totalScreenPixels at hstop
  show 0x100000 < smallImage.stop
  omega

end Antagonist
