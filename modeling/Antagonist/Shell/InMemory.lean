import Antagonist.Disk.Ideal
import Antagonist.Lib.Footprint
import Antagonist.Shell.Bounds

/-!
# The shell in memory

The globals of `kernel/keyboard.cpp` and of `kernel/ata.cpp` are variables of the kernel image, and
the screen is at `0xB8000`.  So an interrupt of the keyboard is a function of the memory: it finds
the shell there, and leaves another one.

The arrays of the shell are functions on all indices, and their regions of memory hold no more than
the cells in them.  Nothing is lost by that: behind a prompt every store of the handler is in its
array (`keyboardHandlerL_inBounds`), and a cell without a store keeps its value
(`keyboardHandlerL_logsChanges`).

* `keyboardWork_out`, `keyboardWork_local`: **the footprint** of the interrupt.
* `shellIn_keyboardWork`: on the shell in memory it is `keyboard_handler`.
-/

namespace Antagonist

open ByteMem Footprint

/-- Where the variables of `keyboard.cpp` and `ata.cpp` are. -/
structure ShellAddresses where
  cursorPosition : Nat
  cmdBuffer : Nat
  cmdIndex : Nat
  commandReadyFlag : Nat
  diskTestPad : Nat
  keyboardMatrix : Nat
  ataIoBuffer : Nat
  ataInterruptFired : Nat

namespace ShellAddresses

variable (V : ShellAddresses)

def videoRegion : Region := ⟨0xB8000, 4000⟩
def cursorRegion : Region := ⟨V.cursorPosition, 4⟩
def bufferRegion : Region := ⟨V.cmdBuffer, 64⟩
def indexRegion : Region := ⟨V.cmdIndex, 4⟩
def flagRegion : Region := ⟨V.commandReadyFlag, 1⟩
def padRegion : Region := ⟨V.diskTestPad, 512⟩
def matrixRegion : Region := ⟨V.keyboardMatrix, 256⟩
def ioRegion : Region := ⟨V.ataIoBuffer, 512⟩
def firedRegion : Region := ⟨V.ataInterruptFired, 1⟩

def regions : List Region :=
  [videoRegion, V.cursorRegion, V.bufferRegion, V.indexRegion, V.flagRegion, V.padRegion,
    V.matrixRegion, V.ioRegion, V.firedRegion]

theorem mem_regions : videoRegion ∈ V.regions ∧ V.cursorRegion ∈ V.regions ∧
    V.bufferRegion ∈ V.regions ∧ V.indexRegion ∈ V.regions ∧ V.flagRegion ∈ V.regions ∧
    V.padRegion ∈ V.regions ∧ V.matrixRegion ∈ V.regions ∧ V.ioRegion ∈ V.regions ∧
    V.firedRegion ∈ V.regions := by
  simp only [regions, List.mem_cons, true_or, or_true, and_self]

variable {δ : Type}

/-- The bytes of a shell.  `ata_interrupt_fired` is 0 or 1. -/
def image (s : Shell (Driver δ)) : List (Region × (Nat → Byte)) :=
  [(videoRegion, s.console.videoMemory), (V.cursorRegion, byteOf s.console.cursorPosition),
    (V.bufferRegion, s.cmdBuffer), (V.indexRegion, byteOf s.cmdIndex),
    (V.flagRegion, fun _ => s.commandReadyFlag), (V.padRegion, s.diskTestPad),
    (V.matrixRegion, s.keyboardMatrix),
    (V.ioRegion, fun j => if h : j < 512 then s.drive.ioBuffer ⟨j, h⟩ else 0),
    (V.firedRegion, fun _ => if s.drive.interruptFired then 1 else 0)]

theorem mem_image (s : Shell (Driver δ)) : (videoRegion, s.console.videoMemory) ∈ V.image s ∧
    (V.cursorRegion, byteOf s.console.cursorPosition) ∈ V.image s ∧
    (V.bufferRegion, s.cmdBuffer) ∈ V.image s ∧ (V.indexRegion, byteOf s.cmdIndex) ∈ V.image s ∧
    (V.flagRegion, fun _ => s.commandReadyFlag) ∈ V.image s ∧
    (V.padRegion, s.diskTestPad) ∈ V.image s ∧ (V.matrixRegion, s.keyboardMatrix) ∈ V.image s ∧
    (V.ioRegion, fun j => if h : j < 512 then s.drive.ioBuffer ⟨j, h⟩ else 0) ∈ V.image s ∧
    (V.firedRegion, fun _ => if s.drive.interruptFired then 1 else 0) ∈ V.image s := by
  simp only [image, List.mem_cons, true_or, or_true, and_self]

/-- The shell in memory, in front of the controller `dev`.  Nothing has been written to port `0x20`
yet. -/
def shellIn (m : Mem) (dev : δ) : Shell (Driver δ) where
  console := ⟨videoRegion.bytes m, load32 m V.cursorPosition⟩
  cmdBuffer := V.bufferRegion.bytes m
  cmdIndex := load32 m V.cmdIndex
  commandReadyFlag := m V.commandReadyFlag
  diskTestPad := V.padRegion.bytes m
  keyboardMatrix := V.matrixRegion.bytes m
  drive := ⟨fun j => m (V.ataIoBuffer + j), decide (m V.ataInterruptFired ≠ 0), dev⟩
  port20 := []

end ShellAddresses

/-- The linker has put them apart, from one another and from the screen. -/
structure ShellVars extends ShellAddresses where
  apart : toShellAddresses.regions.Pairwise Region.Apart
  fits : ∀ r ∈ toShellAddresses.regions, r.base + r.size ≤ 2 ^ 32

/-- Nothing behind the arrays. -/
structure Shell.Clipped {δ : Type} (s : Shell δ) : Prop where
  video : ∀ j, 4000 ≤ j → s.console.videoMemory j = 0
  buffer : ∀ j, 64 ≤ j → s.cmdBuffer j = 0
  pad : ∀ j, 512 ≤ j → s.diskTestPad j = 0
  matrix : ∀ j, 256 ≤ j → s.keyboardMatrix j = 0

section

variable {δ : Type} {ata : Ata δ} {i : Interrupt} {s : Shell δ}

/-! ### The handler keeps to the arrays -/

theorem keyboardHandler_keeps {P : Shell δ → Prop} (hkey : ∀ t key held, P t → P (setKey t key held))
    (heoi : ∀ t, P t → P (sendEoi t)) (henter : ∀ t, P t → P (enterKey ata i t))
    (hback : ∀ t, P t → P (backspaceKey t)) (hchar : ∀ t c, P t → P (characterKey t c)) (h : P s) :
    P (keyboardHandler ata i s) := by
  rw [keyboardHandler]
  split
  · exact heoi _ (hkey s _ 0 h)
  · have hdown := heoi _ (hkey s i.scancode 1 h)
    refine heoi _ ?_
    split
    · exact henter _ hdown
    split
    · exact hback _ hdown
    split
    · exact hchar _ _ hdown
    · exact hdown

theorem diskTestPad_runAction {j : Nat} (hj : 512 ≤ j) (a : Action) :
    (runAction ata i s a).diskTestPad j = s.diskTestPad j := by
  cases a with
  | run c =>
    cases c with
    | disktest =>
      simp only [runAction, diskTest]
      rw [if_neg (not_lt.mpr hj), secretPad, if_neg (not_lt.mpr hj)]
    | help => rfl
    | uptime => rfl
    | meminfo => rfl
    | clear => rfl
  | notFound => rfl
  | nothing => rfl

theorem keyboardMatrix_runAction (a : Action) :
    (runAction ata i s a).keyboardMatrix = s.keyboardMatrix := by
  cases a with
  | run c => cases c <;> simp only [runAction, diskTest]
  | notFound => rfl
  | nothing => rfl

theorem diskTestPad_keyboardHandler {j : Nat} (hj : 512 ≤ j) :
    (keyboardHandler ata i s).diskTestPad j = s.diskTestPad j := by
  refine keyboardHandler_keeps (P := fun t => t.diskTestPad j = s.diskTestPad j)
    (fun t key held h => h) (fun t h => h) (fun t h => ?_) (fun t h => h) (fun t c h => h) rfl
  exact (diskTestPad_runAction (s := endLine t) hj (enterAction t)).trans h

theorem keyboardMatrix_keyboardHandler {j : Nat} (hj : 256 ≤ j) :
    (keyboardHandler ata i s).keyboardMatrix j = s.keyboardMatrix j := by
  refine keyboardHandler_keeps (P := fun t => t.keyboardMatrix j = s.keyboardMatrix j)
    (fun t key held h => ?_) (fun t h => h) (fun t h => ?_) (fun t h => h) (fun t c h => h) rfl
  · have hne : j ≠ key.toNat := by
      have hlt := key.isLt
      omega
    exact (Function.update_of_ne hne held t.keyboardMatrix).trans h
  · exact (congrFun (keyboardMatrix_runAction (s := endLine t) (enterAction t)) j).trans h

/-- **Behind a prompt** the handler does not go beyond the arrays. -/
theorem Shell.Clipped.keyboardHandler (h : s.Clipped) (hata : ata.ReadsBack) (hi : i.PagesOk)
    (hprompt : Prompt s) : (keyboardHandler ata i s).Clipped := by
  have hall := (keyboardHandlerL_inBounds hata hi hprompt).1
  have hkeep := keyboardHandlerL_logsChanges ata i s
  rw [← val_keyboardHandlerL]
  refine ⟨fun j hj => ?_, fun j hj => ?_, fun j hj => ?_, fun j hj => ?_⟩
  · rw [← h.video j hj]
    exact hkeep (.videoMemory j) fun hlog => absurd (hall _ hlog) (not_lt.mpr hj)
  · rw [← h.buffer j hj]
    exact hkeep (.cmdBuffer j) fun hlog => absurd (hall _ hlog) (not_lt.mpr hj)
  · rw [val_keyboardHandlerL, diskTestPad_keyboardHandler hj, h.pad j hj]
  · rw [val_keyboardHandlerL, keyboardMatrix_keyboardHandler hj, h.matrix j hj]

end

namespace ShellVars

variable {δ : Type} (V : ShellVars)

theorem clipped_shellIn (m : Mem) (dev : δ) : (V.shellIn m dev).Clipped :=
  ⟨fun _ hj => if_neg (not_lt.mpr hj), fun _ hj => if_neg (not_lt.mpr hj),
    fun _ hj => if_neg (not_lt.mpr hj), fun _ hj => if_neg (not_lt.mpr hj)⟩

theorem shellIn_congr {m m' : Mem} (h : ∀ x < 2 ^ 32, Covers V.regions x → m' x = m x)
    (dev : δ) : V.shellIn m' dev = V.shellIn m dev := by
  have hregion : ∀ r ∈ V.regions, ∀ x, r.Contains x → m' x = m x := by
    intro r hr x hx
    have hfits := V.fits r hr
    refine h x ?_ ⟨r, hr, hx⟩
    unfold Region.Contains at hx
    omega
  have hword : ∀ r ∈ V.regions, r.size = 4 → load32 m' r.base = load32 m r.base := by
    intro r hr hsize
    refine load32_of_bytes (hsize ▸ V.fits r hr) fun x hlo hhi => hregion r hr x ⟨hlo, ?_⟩
    rwa [hsize]
  obtain ⟨video, cursor, buffer, index, flag, pad, matrix, io, fired⟩ := V.mem_regions
  have hcursor : load32 m' V.cursorPosition = load32 m V.cursorPosition := hword _ cursor rfl
  have hindex : load32 m' V.cmdIndex = load32 m V.cmdIndex := hword _ index rfl
  have hflag : m' V.commandReadyFlag = m V.commandReadyFlag :=
    hregion _ flag _ ⟨le_refl _, Nat.lt_succ_self _⟩
  have hio : ∀ j : Fin 512, m' (V.ataIoBuffer + j) = m (V.ataIoBuffer + j) :=
    fun j => hregion _ io _ ⟨Nat.le_add_right _ _, Nat.add_lt_add_left j.isLt _⟩
  have hfired : m' V.ataInterruptFired = m V.ataInterruptFired :=
    hregion _ fired _ ⟨le_refl _, Nat.lt_succ_self _⟩
  simp only [ShellAddresses.shellIn, Region.bytes_congr (hregion _ video),
    Region.bytes_congr (hregion _ buffer), Region.bytes_congr (hregion _ pad),
    Region.bytes_congr (hregion _ matrix), hcursor, hindex, hflag, hio, hfired]

/-- **A shell that is put into memory** is found there again. -/
theorem shellIn_place {s : Shell (Driver δ)} (h : s.Clipped) (hprompt : Prompt s) (m : Mem)
    (dev : δ) : V.shellIn (place m (V.image s)) dev =
      { s with drive := { s.drive with dev := dev }, port20 := [] } := by
  have hapart : ((V.image s).map Prod.fst).Pairwise Region.Apart := V.apart
  obtain ⟨-, hcursorFits, -, hindexFits, -⟩ := V.mem_regions
  obtain ⟨video, cursor, buffer, index, flag, pad, matrix, io, fired⟩ := V.mem_image s
  have hidx := hprompt.index
  have hcursor : load32 (place m (V.image s)) V.cursorPosition = s.console.cursorPosition := by
    obtain ⟨R, -, -, hhi, hc⟩ := hprompt.row
    have hword := load32_place (m := m) hapart cursor rfl (V.fits _ hcursorFits)
    exact hword.trans (Nat.mod_eq_of_lt (by omega))
  have hindex : load32 (place m (V.image s)) V.cmdIndex = s.cmdIndex := by
    have hword := load32_place (m := m) hapart index rfl (V.fits _ hindexFits)
    exact hword.trans (Nat.mod_eq_of_lt (by omega))
  have hflag : place m (V.image s) V.commandReadyFlag = s.commandReadyFlag :=
    place_in hapart flag ⟨le_refl _, Nat.lt_succ_self _⟩
  have hio : ∀ j : Fin 512, place m (V.image s) (V.ataIoBuffer + j) = s.drive.ioBuffer j := by
    intro j
    have hplace := place_in (m := m) hapart io (x := V.ataIoBuffer + j)
      ⟨Nat.le_add_right _ _, Nat.add_lt_add_left j.isLt _⟩
    have hback : V.ataIoBuffer + j.val - V.ioRegion.base = j.val := Nat.add_sub_cancel_left _ _
    rw [hback] at hplace
    exact hplace.trans (dif_pos j.isLt)
  have hfired : decide (place m (V.image s) V.ataInterruptFired ≠ 0) = s.drive.interruptFired := by
    have hplace := place_in (m := m) hapart fired (x := V.ataInterruptFired)
      ⟨le_refl _, Nat.lt_succ_self _⟩
    rw [hplace]
    cases s.drive.interruptFired <;> rfl
  simp only [ShellAddresses.shellIn, bytes_place hapart video h.video,
    bytes_place hapart buffer h.buffer, bytes_place hapart pad h.pad,
    bytes_place hapart matrix h.matrix, hcursor, hindex, hflag, hio, hfired]

/-! ### The interrupt -/

/-- `keyboard_handler` on the memory.  The scancode and the controller come from outside, and
`timer_ticks` is in memory. -/
def keyboardWork (bus : Bus δ) (ticksAt : Nat) (k : Interrupt × δ) (m : Mem) : Mem :=
  let i := { k.1 with timerTicks := BitVec.ofNat 32 (load32 m ticksAt) }
  place m (V.image (keyboardHandler (driverAta bus) i (V.shellIn m k.2)))

variable {V} {bus : Bus δ} {ticksAt : Nat} {k : Interrupt × δ} {m m' : Mem}

theorem keyboardWork_out {x : Nat} (h : ¬ Covers V.regions x) :
    V.keyboardWork bus ticksAt k m x = m x := place_out h

/-- What the interrupt leaves in its regions depends on nothing but them and the ticks. -/
theorem keyboardWork_local (h : ∀ x < 2 ^ 32, Covers V.regions x → m' x = m x)
    (hticks : load32 m' ticksAt = load32 m ticksAt) {x : Nat} (hx : Covers V.regions x) :
    V.keyboardWork bus ticksAt k m' x = V.keyboardWork bus ticksAt k m x := by
  rw [keyboardWork, V.shellIn_congr h, hticks]
  exact place_covered hx

variable (ticksAt) in
/-- **On the shell in memory it is the handler.** -/
theorem shellIn_keyboardWork (hbus : (driverAta bus).ReadsBack) (hk : k.1.PagesOk)
    (hprompt : Prompt (V.shellIn m k.2)) (dev : δ) :
    ∃ i : Interrupt, i.scancode = k.1.scancode ∧ i.PagesOk ∧
      V.shellIn (V.keyboardWork bus ticksAt k m) dev =
        let s := keyboardHandler (driverAta bus) i (V.shellIn m k.2)
        { s with drive := { s.drive with dev := dev }, port20 := [] } := by
  obtain ⟨i, hi⟩ : ∃ i : Interrupt,
      i = { k.1 with timerTicks := BitVec.ofNat 32 (load32 m ticksAt) } := ⟨_, rfl⟩
  have hpages : i.PagesOk := hi ▸ hk
  refine ⟨i, hi ▸ rfl, hpages, ?_⟩
  rw [keyboardWork, ← hi]
  exact V.shellIn_place ((V.clipped_shellIn m k.2).keyboardHandler hbus hpages hprompt)
    (keyboardHandlerL_inBounds hbus hpages hprompt).2 m dev

end ShellVars

/-- What is written to the ideal drive is read from it. -/
theorem readsBack_idealBus : (driverAta idealBus).ReadsBack := by
  intro pad d j hj
  show (if h : j < 512 then (ataReadSector idealBus 1 (ataWriteSector idealBus 1
    (fun i : Fin 512 => pad i) d)).1 ⟨j, h⟩ else 0) = pad j
  rw [dif_pos hj, ataReadSector_ideal, ataWriteSector_ideal]
  exact congrFun (Function.update_self ((1 : BitVec 32).setWidth 28) (fun i : Fin 512 => pad i)
    d.dev.sectors) ⟨j, hj⟩

end Antagonist
