import Antagonist.Dashboard.Layout

/-!
# What earlier frames leave on the screen

A frame should show the state alone, whatever was shown before.  Two things are not of the state:
the status is printed as it was before the key, and the overflow of a listing stays until some
other listing overflows as far.

* `screen_outside`: outside of the overflow, the screen is that of the last frame.
* `screen_overflow`: there it is, for each cell, that of the last folder that reached it.
* `screen_eq_iff`: when two runs to the same state show the same.
-/

namespace Antagonist

open ByteMem Canvas Dashboard

def clearedScreen : Nat → Byte := fun b => if b % 2 = 0 then 0x20 else 0x07

theorem clearedScreen_char (k : Nat) : clearedScreen (2 * k) = 0x20 ∧
    clearedScreen (2 * k + 1) = 0x07 := by
  rw [clearedScreen]
  exact ⟨if_pos (by omega), if_neg (by omega)⟩

def foldersShown (disk : VRamDiskState) : DistroSession → List Byte → List (BitVec 32)
  | _, [] => []
  | s, a :: scancodes =>
      (s.poll disk a).activeDirectoryIndex :: foldersShown disk (s.poll disk a) scancodes

theorem foldersShown_concat (disk : VRamDiskState) (s : DistroSession) (scancodes : List Byte)
    (a : Byte) :
    foldersShown disk s (scancodes ++ [a]) = foldersShown disk s scancodes ++
      [((scancodes ++ [a]).foldl (DistroSession.poll disk) s).activeDirectoryIndex] := by
  induction scancodes generalizing s with
  | nil => rfl
  | cons b scancodes ih =>
    rw [List.cons_append, foldersShown, ih]
    rfl

/-- Character `j` of file `idx`, of the last folder shown whose file has one. -/
def lastChar (disk : VRamDiskState) (idx j : Nat) (folders : List (BitVec 32)) : Option Byte :=
  folders.reverse.findSome? (fileChar disk idx j)

theorem lastChar_concat (disk : VRamDiskState) (idx j : Nat) (folders : List (BitVec 32))
    (folder : BitVec 32) : lastChar disk idx j (folders ++ [folder]) =
      (fileChar disk idx j folder).or (lastChar disk idx j folders) := by
  rw [lastChar, List.reverse_concat, List.findSome?_cons]
  cases fileChar disk idx j folder <;> rfl

/-- A run from the cleared screen. -/
def shownAfter (disk : VRamDiskState) (loader : Loader) (scancodes : List Byte) : Dashboard :=
  runAll disk (start loader clearedScreen) scancodes

def lastFrame (disk : VRamDiskState) (loader : Loader) (scancodes : List Byte) (a : Byte) :
    List PrintCall :=
  frameCalls disk
    (uintToStringFreestanding ((shownAfter disk loader scancodes).liveDistroTicks + 1))
    (uintToStringFreestanding (shownAfter disk loader scancodes).session.activeExecStatus)
    (shownAfter disk loader (scancodes ++ [a])).session

section

variable {disk : VRamDiskState} {files : List FileRequest} {loader : Loader}
  {scancodes : List Byte} {a : Byte} {b : Nat}

/-- The inputs of a run: no exit key, and fewer frames than the limit. -/
structure Polled (scancodes : List Byte) : Prop where
  short : scancodes.length < 5000
  exit : 0x06 ∉ scancodes

theorem Polled.before (h : Polled (scancodes ++ [a])) : Polled scancodes ∧ a ≠ 0x06 := by
  refine ⟨⟨?_, fun hmem => h.exit (List.mem_append_left _ hmem)⟩, ?_⟩
  · have := h.short
    rw [List.length_append] at this
    omega
  · rintro rfl
    exact h.exit (List.mem_append_right _ (List.mem_singleton_self _))

theorem valid_shownAfter (disk : VRamDiskState) (loader : Loader) (scancodes : List Byte) :
    (shownAfter disk loader scancodes).session.Valid :=
  valid_runAll disk loader clearedScreen scancodes

theorem session_shownAfter (h : Polled scancodes) : (shownAfter disk loader scancodes).session =
    scancodes.foldl (DistroSession.poll disk) (start loader clearedScreen).session :=
  session_runAll disk loader clearedScreen h.short

theorem running (disk : VRamDiskState) (loader : Loader) (h : Polled scancodes) :
    (shownAfter disk loader scancodes).session.halted = false ∧
      (shownAfter disk loader scancodes).liveDistroTicks.toNat = scancodes.length := by
  induction scancodes using List.reverseRecOn with
  | nil => exact ⟨rfl, rfl⟩
  | append_singleton scancodes a ih =>
    obtain ⟨hbefore, hexit⟩ := h.before
    obtain ⟨hrun, hticks⟩ := ih hbefore
    have hshort := h.short
    rw [List.length_append, List.length_singleton] at hshort ⊢
    have hframe := frame_eq disk (shownAfter disk loader scancodes) a hrun hexit (by omega)
    rw [shownAfter, runAll, List.foldl_concat, ← runAll, ← shownAfter, hframe]
    refine ⟨DistroSession.poll_halted disk hrun hexit, ?_⟩
    rw [BitVec.toNat_add, hticks]
    show (scancodes.length + 1) % 2 ^ 32 = _
    omega

theorem screen_concat (h : Polled (scancodes ++ [a])) :
    (shownAfter disk loader (scancodes ++ [a])).videoMemory =
      paint ((keyCalls (shownAfter disk loader scancodes).session.lastScancode a).map
          PrintCall.stroke ++ (lastFrame disk loader scancodes a).map PrintCall.stroke)
        (shownAfter disk loader scancodes).videoMemory := by
  obtain ⟨hbefore, hexit⟩ := h.before
  obtain ⟨hrun, hticks⟩ := running disk loader hbefore
  have hshort := h.short
  rw [List.length_append, List.length_singleton] at hshort
  have hframe := frame_eq disk (shownAfter disk loader scancodes) a hrun hexit (by omega)
  have hstep : shownAfter disk loader (scancodes ++ [a]) =
      frame disk (shownAfter disk loader scancodes) a := by
    rw [shownAfter, runAll, List.foldl_concat]
    rfl
  rw [lastFrame, hstep, hframe]
  simp only
  rw [printAll_eq, List.map_append]

theorem toNat_tick_shownAfter (disk : VRamDiskState) (loader : Loader) (h : Polled scancodes) :
    ((shownAfter disk loader scancodes).liveDistroTicks + 1).toNat = scancodes.length + 1 := by
  have hshort := h.short
  rw [BitVec.toNat_add, (running disk loader h).2]
  show (scancodes.length + 1) % 2 ^ 32 = _
  omega

theorem lastFrame_covers (hcat : Catalog disk files) {a' : Byte}
    (h : Polled (scancodes ++ [a] ++ [a'])) (hout : ¬ Overflow b)
    (hprinted : Printed (lastFrame disk loader scancodes a) b) :
    Printed (lastFrame disk loader (scancodes ++ [a]) a') b := by
  have hmiddle := h.before.1
  have htick := toNat_tick_shownAfter disk loader hmiddle.before.1
  have htick' := toNat_tick_shownAfter disk loader hmiddle
  rw [List.length_append, List.length_singleton] at htick'
  exact frameCalls_covers hcat (valid_shownAfter disk loader (scancodes ++ [a]))
    (length_uintToString_mono (by omega) (by omega))
    (valid_shownAfter disk loader scancodes).length_status hout hprinted

/-- **A step of a run**: the frame prints over what the key printed. -/
theorem screen_step (h : Polled (scancodes ++ [a])) (b : Nat) :
    (shownAfter disk loader (scancodes ++ [a])).videoMemory b =
      (top? ((lastFrame disk loader scancodes a).map PrintCall.stroke) b).getD
        ((shownAfter disk loader scancodes).videoMemory b) := by
  rw [screen_concat h]
  apply paint_repaint
  intro hnone
  apply top?_eq_none
  intro hprinted
  exact top?_eq_none_iff_printed.mp hnone (keyCalls_covers hprinted)

theorem screen_unprinted (hcat : Catalog disk files) (h : Polled (scancodes ++ [a]))
    (hout : ¬ Overflow b) (hnot : ¬ Printed (lastFrame disk loader scancodes a) b) :
    (shownAfter disk loader (scancodes ++ [a])).videoMemory b = clearedScreen b := by
  induction scancodes using List.reverseRecOn generalizing a with
  | nil =>
    rw [screen_step h, top?_eq_none hnot]
    rfl
  | append_singleton scancodes a' ih =>
    have hbefore : ¬ Printed (lastFrame disk loader scancodes a') b := fun hprinted =>
      hnot (lastFrame_covers hcat h hout hprinted)
    rw [screen_step h, top?_eq_none hnot, Option.getD_none]
    exact ih h.before.1 hbefore

/-- **Outside of the overflow** the screen is that of the last frame. -/
theorem screen_outside (hcat : Catalog disk files) (h : Polled (scancodes ++ [a]))
    (hout : ¬ Overflow b) : (shownAfter disk loader (scancodes ++ [a])).videoMemory b =
      (top? ((lastFrame disk loader scancodes a).map PrintCall.stroke) b).getD
        (clearedScreen b) := by
  cases htop : top? ((lastFrame disk loader scancodes a).map PrintCall.stroke) b with
  | none => exact screen_unprinted hcat h hout (top?_eq_none_iff_printed.mp htop)
  | some v =>
    rw [screen_step h, htop]
    rfl

theorem lastFrame_overflow (hcat : Catalog disk files) (loader : Loader) (scancodes : List Byte)
    (a : Byte) {idx j : Nat} (hidx : Overflows idx j) :
    top? ((lastFrame disk loader scancodes a).map PrintCall.stroke) (2 * contentCell idx j) =
        fileChar disk idx j
          (shownAfter disk loader (scancodes ++ [a])).session.activeDirectoryIndex ∧
      top? ((lastFrame disk loader scancodes a).map PrintCall.stroke)
          (2 * contentCell idx j + 1) =
        (fileChar disk idx j
          (shownAfter disk loader (scancodes ++ [a])).session.activeDirectoryIndex).map
            fun _ => attrWhite :=
  top?_overflow hcat (valid_shownAfter disk loader (scancodes ++ [a])) (length_uintToString_le _)
    hidx

/-- **In the overflow** it is that of the last folder to come so far. -/
theorem screen_overflow (hcat : Catalog disk files) (loader : Loader) (h : Polled scancodes)
    {idx j : Nat} (hidx : Overflows idx j) :
    (shownAfter disk loader scancodes).videoMemory (2 * contentCell idx j) =
        (lastChar disk idx j
          (foldersShown disk (start loader clearedScreen).session scancodes)).getD 0x20 ∧
      (shownAfter disk loader scancodes).videoMemory (2 * contentCell idx j + 1) =
        ((lastChar disk idx j
          (foldersShown disk (start loader clearedScreen).session scancodes)).map
            fun _ => attrWhite).getD 0x07 := by
  induction scancodes using List.reverseRecOn with
  | nil => exact clearedScreen_char (contentCell idx j)
  | append_singleton scancodes a ih =>
    obtain ⟨hchar, hattr⟩ := ih h.before.1
    obtain ⟨htop, htop'⟩ := lastFrame_overflow hcat loader scancodes a hidx
    rw [foldersShown_concat, lastChar_concat, ← session_shownAfter h, screen_step h, screen_step h,
      htop, htop', hchar, hattr]
    generalize (shownAfter disk loader (scancodes ++ [a])).session.activeDirectoryIndex = folder
    cases fileChar disk idx j folder with
    | none => exact ⟨rfl, rfl⟩
    | some c => exact ⟨rfl, rfl⟩

/-! ### Two runs -/

/-- Two sessions with the same folder, log, status and last scancode. -/
structure SameState (s s' : DistroSession) : Prop where
  folder : s.activeDirectoryIndex = s'.activeDirectoryIndex
  log : s.activeExecLog = s'.activeExecLog
  status : s.activeExecStatus = s'.activeExecStatus
  last : s.lastScancode = s'.lastScancode

/-- What is left of the past is the same: the status before the last key, and in each cell of the
overflow the last character that came there. -/
structure SameTraces (disk : VRamDiskState) (loader : Loader) (scancodes scancodes' : List Byte) :
    Prop where
  status : (shownAfter disk loader scancodes.dropLast).session.activeExecStatus =
    (shownAfter disk loader scancodes'.dropLast).session.activeExecStatus
  overflow : ∀ idx j, Overflows idx j →
    lastChar disk idx j (foldersShown disk (start loader clearedScreen).session scancodes) =
      lastChar disk idx j (foldersShown disk (start loader clearedScreen).session scancodes')

theorem head?_status {s : DistroSession} (h : s.Valid) :
    ((s.activeExecStatus = 0 ∧
        (uintToStringFreestanding s.activeExecStatus).head? = some 0x30) ∨
      (s.activeExecStatus = 200 ∧
        (uintToStringFreestanding s.activeExecStatus).head? = some 0x32)) := by
  rcases h.log with ⟨-, hstatus⟩ | ⟨-, hstatus⟩
  · rw [hstatus]
    exact .inl ⟨rfl, by decide⟩
  · rw [hstatus]
    exact .inr ⟨rfl, by decide⟩

theorem screen_status (h : Polled (scancodes ++ [a])) {digit : Byte}
    (hdigit : (uintToStringFreestanding
      (shownAfter disk loader scancodes).session.activeExecStatus).head? = some digit) :
    (shownAfter disk loader (scancodes ++ [a])).videoMemory 3114 = digit := by
  have htop : top? ((lastFrame disk loader scancodes a).map PrintCall.stroke) 3114 = some digit :=
    top?_status hdigit
  rw [screen_step h, htop, Option.getD_some]

/-- What two runs show in the overflow is the same exactly when the last characters are. -/
theorem overflow_eq_iff (hcat : Catalog disk files) (loader : Loader) {scancodes' : List Byte}
    (h : Polled scancodes) (h' : Polled scancodes') {idx j : Nat} (hidx : Overflows idx j) :
    ((shownAfter disk loader scancodes).videoMemory (2 * contentCell idx j) =
          (shownAfter disk loader scancodes').videoMemory (2 * contentCell idx j) ∧
        (shownAfter disk loader scancodes).videoMemory (2 * contentCell idx j + 1) =
          (shownAfter disk loader scancodes').videoMemory (2 * contentCell idx j + 1)) ↔
      lastChar disk idx j (foldersShown disk (start loader clearedScreen).session scancodes) =
        lastChar disk idx j
          (foldersShown disk (start loader clearedScreen).session scancodes') := by
  obtain ⟨hchar, hattr⟩ := screen_overflow hcat loader h hidx
  obtain ⟨hchar', hattr'⟩ := screen_overflow hcat loader h' hidx
  rw [hchar, hattr, hchar', hattr']
  generalize lastChar disk idx j
    (foldersShown disk (start loader clearedScreen).session scancodes) = last
  generalize lastChar disk idx j
    (foldersShown disk (start loader clearedScreen).session scancodes') = last'
  -- a character has another attribute than a cleared cell
  have hwhite : attrWhite ≠ 0x07 := by decide
  cases last with
  | none =>
    cases last' with
    | none => exact iff_of_true ⟨rfl, rfl⟩ rfl
    | some c' => exact iff_of_false (fun heq => hwhite heq.2.symm) (by simp)
  | some c =>
    cases last' with
    | none => exact iff_of_false (fun heq => hwhite heq.2) (by simp)
    | some c' => exact ⟨fun heq => congrArg some heq.1, fun heq => ⟨Option.some.inj heq, rfl⟩⟩

theorem nil_or_concat {l l' : List Byte} (h : l.length = l'.length) :
    (l = [] ∧ l' = []) ∨ ∃ k a k' a', l = k ++ [a] ∧ l' = k' ++ [a'] := by
  rcases List.eq_nil_or_concat l with rfl | ⟨k, a, rfl⟩
  · exact .inl ⟨rfl, List.eq_nil_of_length_eq_zero h.symm⟩
  · rcases List.eq_nil_or_concat l' with rfl | ⟨k', a', rfl⟩
    · rw [List.length_concat, List.length_nil] at h
      omega
    · exact .inr ⟨k, a, k', a', List.concat_eq_append, List.concat_eq_append⟩

/-- The last frames are the same, if the status was the same before. -/
theorem lastFrame_congr {scancodes' : List Byte} {a' : Byte} (h : Polled (scancodes ++ [a]))
    (h' : Polled (scancodes' ++ [a']))
    (hlength : (scancodes ++ [a]).length = (scancodes' ++ [a']).length)
    (hstatus : (shownAfter disk loader scancodes).session.activeExecStatus =
      (shownAfter disk loader scancodes').session.activeExecStatus)
    (hend : SameState (shownAfter disk loader (scancodes ++ [a])).session
      (shownAfter disk loader (scancodes' ++ [a'])).session) :
    lastFrame disk loader scancodes a = lastFrame disk loader scancodes' a' := by
  have hticks : (shownAfter disk loader scancodes).liveDistroTicks =
      (shownAfter disk loader scancodes').liveDistroTicks := by
    rw [List.length_append, List.length_append] at hlength
    apply BitVec.eq_of_toNat_eq
    rw [(running disk loader h.before.1).2, (running disk loader h'.before.1).2]
    exact Nat.add_right_cancel hlength
  unfold lastFrame frameCalls
  rw [hticks, hstatus, hend.folder, hend.log]

/-- **The screens are the same** after two runs to the same state exactly when what is left of the
past is. -/
theorem screen_eq_iff (d₀ : VRamDiskState) (files : List FileRequest) (loader : Loader)
    (scancodes scancodes' : List Byte) (hlength : scancodes.length = scancodes'.length)
    (h : Polled scancodes) (h' : Polled scancodes')
    (hend : SameState (shownAfter (afterRequests d₀ files) loader scancodes).session
      (shownAfter (afterRequests d₀ files) loader scancodes').session) :
    (∀ b < 4000, (shownAfter (afterRequests d₀ files) loader scancodes).videoMemory b =
        (shownAfter (afterRequests d₀ files) loader scancodes').videoMemory b) ↔
      SameTraces (afterRequests d₀ files) loader scancodes scancodes' := by
  obtain ⟨_, _, hlisted⟩ := listed_afterRequests d₀ files
  have hcat := hlisted.catalog
  generalize afterRequests d₀ files = disk at hcat hend ⊢
  refine ⟨?_, ?_⟩
  · intro hsame
    refine ⟨?_, ?_⟩
    · rcases nil_or_concat hlength with ⟨rfl, rfl⟩ | ⟨l, a, l', a', rfl, rfl⟩
      · rfl
      · rw [List.dropLast_concat, List.dropLast_concat]
        have hdigit := hsame 3114 (by omega)
        rcases head?_status (valid_shownAfter disk loader l) with ⟨hs, hd⟩ | ⟨hs, hd⟩ <;>
          rcases head?_status (valid_shownAfter disk loader l') with ⟨hs', hd'⟩ | ⟨hs', hd'⟩
        · rw [hs, hs']
        · rw [screen_status h hd, screen_status h' hd'] at hdigit
          exact absurd hdigit (by decide)
        · rw [screen_status h hd, screen_status h' hd'] at hdigit
          exact absurd hdigit (by decide)
        · rw [hs, hs']
    · intro idx j hidx
      have hlt : 2 * contentCell idx j + 1 < 4000 := by
        unfold Overflows at hidx
        rw [contentCell]
        omega
      exact (overflow_eq_iff hcat loader h h' hidx).mp ⟨hsame _ (by omega), hsame _ hlt⟩
  · intro htraces b _
    by_cases hout : Overflow b
    · obtain ⟨idx, j, hidx, hb⟩ := overflow_cases hout
      have heq := (overflow_eq_iff hcat loader h h' hidx).mpr (htraces.overflow idx j hidx)
      rcases hb with rfl | rfl
      · exact heq.1
      · exact heq.2
    · rcases nil_or_concat hlength with ⟨rfl, rfl⟩ | ⟨l, a, l', a', rfl, rfl⟩
      · rfl
      · have hstatus := htraces.status
        rw [List.dropLast_concat, List.dropLast_concat] at hstatus
        rw [screen_outside hcat h hout, screen_outside hcat h' hout,
          lastFrame_congr h h' hlength hstatus hend]

end

/-! ### The files of `antagonist_main` -/

/-- The five calls of `create_virtual_file` in `antagonist_main`. -/
def seedFiles : List FileRequest :=
  [⟨⟨ascii "sys_init.sys", by decide⟩, 0,
      ⟨ascii "SUCCESS: KERNEL CONTEXT INITIALIZED PRIVILEGE LEVEL 0", by decide⟩⟩,
    ⟨⟨ascii "readme.txt", by decide⟩, 0,
      ⟨ascii "WELCOME TO THE INDEPENDENT ANTAGONIST LIVE WORKSPACE", by decide⟩⟩,
    ⟨⟨ascii "config.cfg", by decide⟩, 1,
      ⟨ascii "SET ARCH_MODE=32; SET TELEMETRY_HZ=100; SET FPU=1", by decide⟩⟩,
    ⟨⟨ascii "sh_core.bin", by decide⟩, 2, ⟨ascii "EXEC_BIN_OFFSET_LOADER_GATE_0X80", by decide⟩⟩,
    ⟨⟨ascii "profile.usr", by decide⟩, 3,
      ⟨ascii "USER: ALISTAIR FONTAINE; ROLE: SENIOR SYSTEMS MASTER", by decide⟩⟩]

/-- The loader before it is used. -/
def staticLoader : Loader := ⟨⟨[], 0, 0, 0, 0, 0⟩, fun _ => 0, 0⟩

/-- Two frames: one run shows `/root` and then `/sys`, the other one `/sys` twice. -/
theorem sameState_sys : SameState
    (shownAfter (afterRequests bootDisk seedFiles) staticLoader [0x00, 0x03]).session
    (shownAfter (afterRequests bootDisk seedFiles) staticLoader [0x03, 0x03]).session := by
  rw [session_shownAfter ⟨by decide, by decide⟩, session_shownAfter ⟨by decide, by decide⟩]
  exact ⟨rfl, rfl, rfl, rfl⟩

theorem screen_eq_iff_sys : SameState
      (shownAfter (afterRequests bootDisk seedFiles) staticLoader [0x00, 0x03]).session
      (shownAfter (afterRequests bootDisk seedFiles) staticLoader [0x03, 0x03]).session ∧
    ((∀ b < 4000,
        (shownAfter (afterRequests bootDisk seedFiles) staticLoader [0x00, 0x03]).videoMemory b =
          (shownAfter (afterRequests bootDisk seedFiles) staticLoader [0x03, 0x03]).videoMemory b) ↔
      SameTraces (afterRequests bootDisk seedFiles) staticLoader [0x00, 0x03] [0x03, 0x03]) :=
  ⟨sameState_sys, screen_eq_iff bootDisk seedFiles staticLoader [0x00, 0x03] [0x03, 0x03] rfl
    ⟨by decide, by decide⟩ ⟨by decide, by decide⟩ sameState_sys⟩

theorem fileChar_eq {disk : VRamDiskState} {files : List FileRequest} (hcat : Catalog disk files)
    {idx : Nat} (hidx : idx < 2) (j : Nat) (folder : BitVec 32) : fileChar disk idx j folder =
      (filesOf files folder)[idx]?.bind fun c => (c.content.val.take 63)[j]? := by
  have hidx' : (BitVec.ofNat 32 idx).toNat = idx := by
    rw [BitVec.toNat_ofNat]
    omega
  rw [fileChar, hcat.content, hidx']
  cases (filesOf files folder)[idx]? <;> rfl

/-- The last characters of the first file of `/root` stay in the row below. -/
theorem not_screen_eq : SameState
      (shownAfter (afterRequests bootDisk seedFiles) staticLoader [0x00, 0x03]).session
      (shownAfter (afterRequests bootDisk seedFiles) staticLoader [0x03, 0x03]).session ∧
    ¬ ∀ b < 4000,
      (shownAfter (afterRequests bootDisk seedFiles) staticLoader [0x00, 0x03]).videoMemory b =
        (shownAfter (afterRequests bootDisk seedFiles) staticLoader [0x03, 0x03]).videoMemory
          b := by
  refine ⟨sameState_sys, ?_⟩
  intro hsame
  obtain ⟨_, _, hlisted⟩ := listed_afterRequests bootDisk seedFiles
  have hcat := hlisted.catalog
  have hidx : Overflows 0 52 := .inl ⟨rfl, by decide, by decide⟩
  have hlast := (overflow_eq_iff hcat staticLoader ⟨by decide, by decide⟩ ⟨by decide, by decide⟩
    hidx).mp ⟨hsame _ (by decide), hsame _ (by decide)⟩
  have hroot : fileChar (afterRequests bootDisk seedFiles) 0 52 0 = some 0x30 := by
    rw [fileChar_eq hcat (by decide)]
    decide +kernel
  have hsys : fileChar (afterRequests bootDisk seedFiles) 0 52 1 = none := by
    rw [fileChar_eq hcat (by decide)]
    decide +kernel
  have hshown : lastChar (afterRequests bootDisk seedFiles) 0 52 [0, 1] = some 0x30 := by
    rw [lastChar]
    simp only [List.reverse_cons, List.reverse_nil, List.nil_append, List.singleton_append,
      List.findSome?_cons, hsys, hroot]
  have hshown' : lastChar (afterRequests bootDisk seedFiles) 0 52 [1, 1] = none := by
    rw [lastChar]
    simp only [List.reverse_cons, List.reverse_nil, List.nil_append, List.singleton_append,
      List.findSome?_cons, hsys, List.findSome?_nil]
  exact absurd (hshown.symm.trans (hlast.trans hshown')) (by simp)

end Antagonist
