import Antagonist.Dashboard.Loader
import Antagonist.Lib.Canvas

/-!
# The dashboard

`antagonist_main` of `src/main.cpp`, after its files are created: one frame for every scancode that
is polled, until the exit key or the limit of 5000 frames.  A frame handles the key and prints all
of the screen.

* `DistroSession.Valid.poll`: a key leaves the session valid.
* `frame_session`, `frame_eq`: what a frame does.
-/

namespace Antagonist

open ByteMem Canvas

/-! ### Printing -/

/-- `ATTR_GOLD` and `ATTR_LIGHT_CYAN`. -/
def attrGold : Byte := 0x0C

/-- `ATTR_WHITE` and `ATTR_MINT_GREEN`. -/
def attrWhite : Byte := 0x0F

def attrSlateGray : Byte := 0x07

/-- The loop of `print_string_raw` from `index` on, with the rest of `str`. -/
def printFrom (videoMemory : Nat → Byte) (index : Nat) (attr : Byte) :
    List Byte → (Nat → Byte)
  | [] => videoMemory
  | c :: str =>
      printFrom (Function.update (Function.update videoMemory index c) (index + 1) attr)
        (index + 2) attr str

structure PrintCall where
  row : Nat
  col : Nat
  str : List Byte
  attr : Byte

namespace PrintCall

/-- `print_string_raw`. -/
def run (videoMemory : Nat → Byte) (c : PrintCall) : Nat → Byte :=
  printFrom videoMemory ((c.row * 80 + c.col) * 2) c.attr c.str

def stroke (c : PrintCall) : Stroke Byte :=
  ⟨(c.row * 80 + c.col) * 2, c.str.flatMap fun character => [character, c.attr]⟩

end PrintCall

def printAll (videoMemory : Nat → Byte) (calls : List PrintCall) : Nat → Byte :=
  calls.foldl PrintCall.run videoMemory

theorem printFrom_eq (str : List Byte) (videoMemory : Nat → Byte) (index : Nat) (attr : Byte) :
    printFrom videoMemory index attr str =
      write videoMemory index (str.flatMap fun character => [character, attr]) := by
  induction str generalizing videoMemory index with
  | nil => rfl
  | cons c str ih =>
    rw [printFrom, ih]
    rfl

/-- **Printing is painting.** -/
theorem printAll_eq (videoMemory : Nat → Byte) (calls : List PrintCall) :
    printAll videoMemory calls = paint (calls.map PrintCall.stroke) videoMemory := by
  rw [printAll, paint, List.foldl_map]
  congr 1
  funext videoMemory c
  exact printFrom_eq c.str videoMemory _ c.attr

/-- The digits of `uint_to_string_freestanding`, the last one first; `staging` has room for 15. -/
def staging : Nat → Nat → List Byte
  | 0, _ => []
  | room + 1, value =>
      if 0 < value then BitVec.ofNat 8 (48 + value % 10) :: staging room (value / 10) else []

def uintToStringFreestanding (value : BitVec 32) : List Byte :=
  if value = 0 then [48] else (staging 15 value.toNat).reverse

def blankScreen (videoMemory : Nat → Byte) : Nat → Byte :=
  (List.range 2000).foldl (fun videoMemory k =>
    Function.update (Function.update videoMemory (2 * k) 0x20) (2 * k + 1) 0x07) videoMemory

/-! ### Folders -/

def folderCount : Nat := 4

/-- `DirectoryNode`, without the count, which is a local array here. -/
structure DirectoryNode where
  folderPath : List Byte
  folderMetaDesc : List Byte

def workspaceFolders : List DirectoryNode :=
  [⟨ascii "/root", ascii "SYSTEM MASTER ROOT LOGS"⟩, ⟨ascii "/sys", ascii "KERNEL CONFIG CONTEXTS"⟩,
    ⟨ascii "/bin", ascii "DISTRO COMMAND EXECUTABLES"⟩,
    ⟨ascii "/user", ascii "LOCAL WORKSPACE RECOVERY USER"⟩]

def workspaceFolder (index : BitVec 32) : DirectoryNode :=
  workspaceFolders.getD index.toNat ⟨[], []⟩

/-- `active_files_count` of the folders, as a frame sets it. -/
def activeFilesCounts (disk : VRamDiskState) : List (BitVec 32) :=
  (List.range folderCount).map fun f => disk.getFolderFileCount (BitVec.ofNat 32 f)

/-! ### Keys -/

/-- What the keys change, beside the screen. -/
structure DistroSession where
  activeDirectoryIndex : BitVec 32
  activeExecLog : List Byte
  activeExecStatus : BitVec 32
  lastScancode : Byte
  halted : Bool
  loader : Loader

structure Dashboard where
  session : DistroSession
  liveDistroTicks : BitVec 32
  videoMemory : Nat → Byte

namespace DistroSession

/-- Keys 1 to 4. -/
def selectFolder (s : DistroSession) (liveScancode : Byte) : DistroSession :=
  let s := if liveScancode = 0x02 then { s with activeDirectoryIndex := 0 } else s
  let s := if liveScancode = 0x03 then { s with activeDirectoryIndex := 1 } else s
  let s := if liveScancode = 0x04 then { s with activeDirectoryIndex := 2 } else s
  if liveScancode = 0x05 then { s with activeDirectoryIndex := 3 } else s

/-- The Enter key: the first program of `/bin`. -/
def pressEnter (disk : VRamDiskState) (s : DistroSession) : DistroSession :=
  if s.activeDirectoryIndex = 2 then
    match disk.getVirtualFileName 0 s.activeDirectoryIndex,
      disk.getVirtualFileContent 0 s.activeDirectoryIndex with
    | some targetProg, some targetCode =>
        let loader := s.loader.executeBoundedBinary targetProg targetCode
        { s with
          activeExecLog := loader.getActiveProcessLog
          activeExecStatus := loader.getActiveProcessStatus
          loader := loader }
    | _, _ => s
  else s

/-- A key that goes down. -/
def pressMake (disk : VRamDiskState) (liveScancode : Byte) (s : DistroSession) : DistroSession :=
  let s := s.selectFolder liveScancode
  if liveScancode = 0x1C then s.pressEnter disk else s

end DistroSession

def persistedText : List Byte := ascii ">> WORKSPACE RECOVERY CONTEXT PERSISTED TO STATE CELL!"

def blanks (n : Nat) : List Byte := List.replicate n 0x20

namespace Dashboard

def print (d : Dashboard) (calls : List PrintCall) : Dashboard :=
  { d with videoMemory := printAll d.videoMemory calls }

def setSession (d : Dashboard) (s : DistroSession) : Dashboard := { d with session := s }

/-- A screen with two lines, and no more frames. -/
def haltWith (d : Dashboard) (calls : List PrintCall) : Dashboard :=
  { d with
    session := { d.session with halted := true }
    videoMemory := printAll (blankScreen d.videoMemory) calls }

/-- The keyboard part of a frame, for a key that goes down. -/
def handleMake (disk : VRamDiskState) (liveScancode : Byte) (d : Dashboard) : Dashboard :=
  let d := d.setSession (d.session.pressMake disk liveScancode)
  let d := if liveScancode = 0x39 then d.print [⟨15, 12, persistedText, attrGold⟩] else d
  if liveScancode = 0x06 then
    d.haltWith
      [⟨11, 15, ascii "ANTAGONIST OS RELEASE RUNWAY CONTROL COMPLETED", attrGold⟩,
        ⟨12, 22, ascii "DISTRIBUTION HALTED CLEANLY VIA SYSTEM CODE", attrWhite⟩]
  else d

/-- The keyboard part of a frame. -/
def handleKey (disk : VRamDiskState) (liveScancode : Byte) (d : Dashboard) : Dashboard :=
  if liveScancode ≠ d.session.lastScancode then
    let d := d.setSession { d.session with lastScancode := liveScancode }
    if liveScancode &&& 0x80 ≠ 0 then
      if liveScancode &&& 0x7F = 0x39 then d.print [⟨15, 12, blanks 60, attrGold⟩] else d
    else handleMake disk liveScancode d
  else d

/-! ### Frames -/

def fileCalls (disk : VRamDiskState) (folder : BitVec 32) (idx : Nat) : List PrintCall :=
  match disk.getVirtualFileName (BitVec.ofNat 32 idx) folder,
    disk.getVirtualFileContent (BitVec.ofNat 32 idx) folder with
  | some fName, some fCont =>
      [⟨15 + idx, 14, fName, attrWhite⟩, ⟨15 + idx, 28, ascii "-> ", attrWhite⟩,
        ⟨15 + idx, 31, fCont, attrWhite⟩]
  | _, _ => []

/-- The files of a folder on the screen: the first two. -/
def listingCalls (disk : VRamDiskState) (folder currentFolderFiles : BitVec 32) : List PrintCall :=
  if currentFolderFiles = 0 then [⟨15, 14, ascii "[Directory is empty]", attrSlateGray⟩]
  else
    ((List.range 2).filter fun idx => idx < currentFolderFiles.toNat).flatMap
      (fileCalls disk folder)

def rule : List Byte := ascii "=================================================="

/-- The calls of a frame up to the listing, with the strings that are not fixed. -/
def upperCalls (tickString folderPath folderMetaDesc fileCountString : List Byte) :
    List PrintCall :=
  [⟨1, 10, rule, attrGold⟩,
    ⟨2, 10, ascii "  ANTAGONIST OS INDEPENDENT FILE-SYSTEM MANAGER    ", attrGold⟩,
    ⟨3, 10, rule, attrGold⟩,
    ⟨5, 12, ascii "WORKSPACE STATUS: PERSISTENT TRACK RUNNING", attrWhite⟩,
    ⟨6, 12, ascii "REAL-TIME TELEMETRY SYSTEM TICKS: ", attrGold⟩,
    ⟨6, 46, tickString, attrWhite⟩,
    ⟨8, 10, ascii "--- FILE MATRIX WORKSTATION DIRECTORY NAV ---", attrGold⟩,
    ⟨10, 12, ascii "ACTIVE DIRECTORY INDEX LINK: ", attrWhite⟩,
    ⟨10, 41, blanks 8, attrWhite⟩,
    ⟨10, 41, folderPath, attrWhite⟩,
    ⟨11, 12, ascii "MOUNTED DESCRIPTION METADATA: ", attrWhite⟩,
    ⟨11, 42, blanks 29, attrWhite⟩,
    ⟨11, 42, folderMetaDesc, attrGold⟩,
    ⟨12, 12, ascii "TOTAL TARGET FILENODES FOUND: ", attrWhite⟩,
    ⟨12, 42, blanks 4, attrWhite⟩,
    ⟨12, 42, fileCountString, attrGold⟩,
    ⟨14, 12, ascii "--- LIVE STORAGE CATALOG MATRIX IN DIRECTORY ---", attrSlateGray⟩,
    ⟨15, 12, blanks 60, attrWhite⟩,
    ⟨16, 12, blanks 60, attrWhite⟩]

/-- The calls of a frame after the listing, up to the status. -/
def statusCalls (statusString : List Byte) : List PrintCall :=
  [⟨18, 12, ascii "--- PROCESS MONITOR EXECUTABLE LOG INTERCEPTOR ---", attrSlateGray⟩,
    ⟨19, 12, ascii "SYS APP RUN CODE STATUS: ", attrWhite⟩,
    ⟨19, 37, blanks 4, attrWhite⟩,
    ⟨19, 37, statusString, attrGold⟩]

/-- The calls of a frame after the status. -/
def logCalls (activeExecLog : List Byte) : List PrintCall :=
  [⟨20, 12, ascii "LIVE TRACK REGISTER: ", attrWhite⟩,
    ⟨20, 23, blanks 57, attrWhite⟩,
    ⟨20, 23, activeExecLog, attrGold⟩,
    ⟨22, 10, ascii "[Keys 1-4: Change Folders | Enter: Exec /bin Programs | Key 5: Exit]",
      attrSlateGray⟩,
    ⟨23, 10, rule, attrGold⟩]

/-- The calls of a frame after the listing. -/
def lowerCalls (statusString activeExecLog : List Byte) : List PrintCall :=
  statusCalls statusString ++ logCalls activeExecLog

/-- What a frame prints after the key. -/
def frameCalls (disk : VRamDiskState) (tickString statusString : List Byte) (s : DistroSession) :
    List PrintCall :=
  let node := workspaceFolder s.activeDirectoryIndex
  let currentFolderFiles := (activeFilesCounts disk).getD s.activeDirectoryIndex.toNat 0
  upperCalls tickString node.folderPath node.folderMetaDesc
      (uintToStringFreestanding currentFolderFiles) ++
    listingCalls disk s.activeDirectoryIndex currentFolderFiles ++
    lowerCalls statusString s.activeExecLog

/-- A pass of the loop of `antagonist_main`, with the scancode that it polls. -/
def frame (disk : VRamDiskState) (d : Dashboard) (liveScancode : Byte) : Dashboard :=
  if d.session.halted then d
  else
    let ticks := d.liveDistroTicks + 1
    let tickString := uintToStringFreestanding ticks
    let statusString := uintToStringFreestanding d.session.activeExecStatus
    let d := handleKey disk liveScancode { d with liveDistroTicks := ticks }
    if d.session.halted then d
    else
      let d := d.print (frameCalls disk tickString statusString d.session)
      if 5000 ≤ ticks.toNat then
        d.haltWith
          [⟨11, 15, ascii "ANTAGONIST OS WORKSPACE POWERED DOWN SAFELY", attrGold⟩,
            ⟨12, 24, ascii "SYSTEM CORE TERMINATED HALT", attrWhite⟩]
      else d

/-- The variables of `antagonist_main` before its loop. -/
def start (loader : Loader) (videoMemory : Nat → Byte) : Dashboard where
  session :=
    { activeDirectoryIndex := 0
      activeExecLog := ascii "[No binary files executed yet]"
      activeExecStatus := 0
      lastScancode := 0
      halted := false
      loader := loader }
  liveDistroTicks := 0
  videoMemory := videoMemory

def runAll (disk : VRamDiskState) (d : Dashboard) (scancodes : List Byte) : Dashboard :=
  scancodes.foldl (frame disk) d

end Dashboard

/-! ### What a key does -/

namespace DistroSession

theorem selectFolder_eq (s : DistroSession) (liveScancode : Byte) :
    ∃ i : BitVec 32, s.selectFolder liveScancode = { s with activeDirectoryIndex := i } ∧
      (i = s.activeDirectoryIndex ∨ i.toNat < folderCount) := by
  rw [selectFolder]
  by_cases h2 : liveScancode = 0x02
  · subst h2
    exact ⟨0, rfl, .inr (by decide)⟩
  by_cases h3 : liveScancode = 0x03
  · subst h3
    exact ⟨1, rfl, .inr (by decide)⟩
  by_cases h4 : liveScancode = 0x04
  · subst h4
    exact ⟨2, rfl, .inr (by decide)⟩
  by_cases h5 : liveScancode = 0x05
  · subst h5
    exact ⟨3, rfl, .inr (by decide)⟩
  simp only [if_neg h2, if_neg h3, if_neg h4, if_neg h5]
  exact ⟨s.activeDirectoryIndex, rfl, .inl rfl⟩

theorem pressEnter_eq (disk : VRamDiskState) (s : DistroSession) :
    s.pressEnter disk = s ∨ ∃ loader, s.pressEnter disk =
      { s with activeExecLog := nativeText, activeExecStatus := 200, loader := loader } := by
  rw [pressEnter]
  by_cases hbin : s.activeDirectoryIndex = 2
  · rw [if_pos hbin]
    cases disk.getVirtualFileName 0 s.activeDirectoryIndex with
    | none => exact .inl rfl
    | some targetProg =>
      cases disk.getVirtualFileContent 0 s.activeDirectoryIndex with
      | none => exact .inl rfl
      | some targetCode =>
        refine .inr ⟨s.loader.executeBoundedBinary targetProg targetCode, ?_⟩
        simp only [Loader.getActiveProcessLog_execute, Loader.getActiveProcessStatus_execute]
  · rw [if_neg hbin]
    exact .inl rfl

/-- **A key that goes down**: it may choose a folder, and it may run the program. -/
theorem pressMake_eq (disk : VRamDiskState) (liveScancode : Byte) (s : DistroSession) :
    ∃ (i : BitVec 32) (log : List Byte) (status : BitVec 32) (loader : Loader),
      s.pressMake disk liveScancode =
        { s with
          activeDirectoryIndex := i, activeExecLog := log, activeExecStatus := status
          loader := loader } ∧
      (i = s.activeDirectoryIndex ∨ i.toNat < folderCount) ∧
      ((log = s.activeExecLog ∧ status = s.activeExecStatus) ∨
        (log = nativeText ∧ status = 200)) := by
  obtain ⟨i, hfolder, hi⟩ := s.selectFolder_eq liveScancode
  rw [pressMake]
  rw [hfolder]
  by_cases henter : liveScancode = 0x1C
  · rw [if_pos henter]
    rcases pressEnter_eq disk { s with activeDirectoryIndex := i } with h | ⟨loader, h⟩
    · exact ⟨i, _, _, _, h, hi, .inl ⟨rfl, rfl⟩⟩
    · exact ⟨i, _, _, loader, h, hi, .inr ⟨rfl, rfl⟩⟩
  · rw [if_neg henter]
    exact ⟨i, _, _, _, rfl, hi, .inl ⟨rfl, rfl⟩⟩

def poll (disk : VRamDiskState) (s : DistroSession) (liveScancode : Byte) : DistroSession :=
  if s.halted then s
  else if liveScancode = s.lastScancode then s
  else if liveScancode &&& 0x80 ≠ 0 then { s with lastScancode := liveScancode }
  else
    let s := { s with lastScancode := liveScancode }.pressMake disk liveScancode
    if liveScancode = 0x06 then { s with halted := true } else s

/-- What holds of the session all along: the folder is one of the four, and the log is that of the
status. -/
structure Valid (s : DistroSession) : Prop where
  folder : s.activeDirectoryIndex.toNat < folderCount
  log : (s.activeExecLog = ascii "[No binary files executed yet]" ∧ s.activeExecStatus = 0) ∨
    (s.activeExecLog = nativeText ∧ s.activeExecStatus = 200)

theorem Valid.pressMake {s : DistroSession} (h : s.Valid) (disk : VRamDiskState)
    (liveScancode : Byte) :
    (s.pressMake disk liveScancode).Valid := by
  obtain ⟨i, log, status, loader, heq, hi, hlog⟩ := s.pressMake_eq disk liveScancode
  rw [heq]
  refine ⟨?_, ?_⟩
  · rcases hi with rfl | hi
    · exact h.folder
    · exact hi
  · rcases hlog with ⟨rfl, rfl⟩ | hlog
    · exact h.log
    · exact .inr hlog

/-- **A key keeps the session valid.** -/
theorem Valid.poll {s : DistroSession} (h : s.Valid) (disk : VRamDiskState) (liveScancode : Byte) :
    (s.poll disk liveScancode).Valid := by
  have hlast : { s with lastScancode := liveScancode }.Valid := ⟨h.folder, h.log⟩
  have hmake := hlast.pressMake disk liveScancode
  rw [DistroSession.poll]
  split_ifs
  · exact h
  · exact h
  · exact hlast
  · exact ⟨hmake.folder, hmake.log⟩
  · exact hmake

theorem poll_halted (disk : VRamDiskState) {s : DistroSession} {liveScancode : Byte}
    (h : s.halted = false) (hexit : liveScancode ≠ 0x06) :
    (s.poll disk liveScancode).halted = false := by
  obtain ⟨i, log, status, loader, heq, -, -⟩ :=
    { s with lastScancode := liveScancode }.pressMake_eq disk liveScancode
  rw [DistroSession.poll]
  rw [heq, if_neg hexit]
  split_ifs
  · exact h
  · exact h
  · exact h
  · exact h

end DistroSession

/-! ### What a frame does -/

/-- What the keyboard part of a frame prints, unless it is for the exit key. -/
def keyCalls (lastScancode liveScancode : Byte) : List PrintCall :=
  if liveScancode = lastScancode then []
  else if liveScancode &&& 0x80 ≠ 0 then
    if liveScancode &&& 0x7F = 0x39 then [⟨15, 12, blanks 60, attrGold⟩] else []
  else if liveScancode = 0x39 then [⟨15, 12, persistedText, attrGold⟩] else []

namespace Dashboard

variable (disk : VRamDiskState) (d : Dashboard) (liveScancode : Byte)

/-- **A key that is not the exit key.** -/
theorem handleKey_eq (h : d.session.halted = false) (hexit : liveScancode ≠ 0x06) :
    handleKey disk liveScancode d =
      ⟨d.session.poll disk liveScancode, d.liveDistroTicks,
        printAll d.videoMemory (keyCalls d.session.lastScancode liveScancode)⟩ := by
  have hrun : ¬ d.session.halted = true := by rw [h]; exact Bool.false_ne_true
  rw [handleKey, DistroSession.poll, keyCalls, if_neg hrun]
  by_cases hsame : liveScancode = d.session.lastScancode
  · rw [if_neg (not_not.mpr hsame), if_pos hsame, if_pos hsame]
    rfl
  rw [if_pos hsame, if_neg hsame, if_neg hsame]
  by_cases hbreak : liveScancode &&& 0x80 ≠ 0
  · rw [if_pos hbreak, if_pos hbreak, if_pos hbreak]
    by_cases hspace : liveScancode &&& 0x7F = 0x39
    · rw [if_pos hspace, if_pos hspace]
      rfl
    · rw [if_neg hspace, if_neg hspace]
      rfl
  · rw [if_neg hbreak, if_neg hbreak, if_neg hbreak, handleMake, if_neg hexit, if_neg hexit]
    by_cases hspace : liveScancode = 0x39
    · rw [if_pos hspace, if_pos hspace]
      rfl
    · rw [if_neg hspace, if_neg hspace]
      rfl

theorem handleKey_session (h : d.session.halted = false) :
    (handleKey disk liveScancode d).session = d.session.poll disk liveScancode := by
  by_cases hexit : liveScancode = 0x06
  · have hrun : ¬ d.session.halted = true := by rw [h]; exact Bool.false_ne_true
    subst hexit
    rw [handleKey, DistroSession.poll, if_neg hrun]
    by_cases hsame : 0x06 = d.session.lastScancode
    · rw [if_neg (not_not.mpr hsame), if_pos hsame]
    · rw [if_pos hsame, if_neg hsame]
      rfl
  · rw [handleKey_eq disk d liveScancode h hexit]

theorem handleKey_ticks : (handleKey disk liveScancode d).liveDistroTicks = d.liveDistroTicks := by
  unfold handleKey handleMake
  split_ifs <;> rfl

theorem frame_of_halted (h : d.session.halted = true) : frame disk d liveScancode = d := by
  rw [frame, if_pos h]

theorem toNat_tick : (d.liveDistroTicks + 1).toNat ≤ d.liveDistroTicks.toNat + 1 := by
  rw [BitVec.toNat_add]
  exact Nat.mod_le _ _

/-- **The session after a frame**, before the limit. -/
theorem frame_session (hticks : d.liveDistroTicks.toNat + 1 < 5000) :
    (frame disk d liveScancode).session = d.session.poll disk liveScancode := by
  by_cases hhalted : d.session.halted = true
  · rw [frame_of_halted disk d liveScancode hhalted, DistroSession.poll, if_pos hhalted]
  · have hlimit : ¬ 5000 ≤ (d.liveDistroTicks + 1).toNat := by
      have := toNat_tick d
      omega
    have hkey := handleKey_session disk { d with liveDistroTicks := d.liveDistroTicks + 1 }
      liveScancode (Bool.not_eq_true _ ▸ hhalted)
    rw [frame, if_neg hhalted]
    simp only [if_neg hlimit]
    rw [← hkey]
    split_ifs <;> rfl

theorem frame_valid (h : d.session.Valid) : (frame disk d liveScancode).session.Valid := by
  by_cases hhalted : d.session.halted = true
  · rw [frame_of_halted disk d liveScancode hhalted]
    exact h
  · have hkey := handleKey_session disk { d with liveDistroTicks := d.liveDistroTicks + 1 }
      liveScancode (Bool.not_eq_true _ ▸ hhalted)
    have hvalid := h.poll disk liveScancode
    rw [← hkey] at hvalid
    rw [frame, if_neg hhalted]
    simp only
    split_ifs
    · exact hvalid
    · exact ⟨hvalid.folder, hvalid.log⟩
    · exact hvalid

theorem frame_ticks : (frame disk d liveScancode).liveDistroTicks.toNat ≤
    d.liveDistroTicks.toNat + 1 := by
  have hkey := handleKey_ticks disk { d with liveDistroTicks := d.liveDistroTicks + 1 } liveScancode
  have htick := toNat_tick d
  rw [frame]
  simp only
  split_ifs
  · omega
  · rw [hkey]
    exact htick
  · show (handleKey disk liveScancode _).liveDistroTicks.toNat ≤ _
    rw [hkey]
    exact htick
  · show (handleKey disk liveScancode _).liveDistroTicks.toNat ≤ _
    rw [hkey]
    exact htick

/-- **A frame** that is not the last one. -/
theorem frame_eq (h : d.session.halted = false) (hexit : liveScancode ≠ 0x06)
    (hticks : d.liveDistroTicks.toNat + 1 < 5000) :
    frame disk d liveScancode =
      ⟨d.session.poll disk liveScancode, d.liveDistroTicks + 1,
        printAll d.videoMemory (keyCalls d.session.lastScancode liveScancode ++
          frameCalls disk (uintToStringFreestanding (d.liveDistroTicks + 1))
            (uintToStringFreestanding d.session.activeExecStatus)
            (d.session.poll disk liveScancode))⟩ := by
  have hrun : ¬ d.session.halted = true := by rw [h]; exact Bool.false_ne_true
  have hlimit : ¬ 5000 ≤ (d.liveDistroTicks + 1).toNat := by
    have := toNat_tick d
    omega
  have hkey := handleKey_eq disk { d with liveDistroTicks := d.liveDistroTicks + 1 } liveScancode h
    hexit
  have hgoes : ¬ (d.session.poll disk liveScancode).halted = true := by
    rw [DistroSession.poll_halted disk h hexit]
    exact Bool.false_ne_true
  rw [frame, if_neg hrun]
  simp only [hkey, if_neg hgoes, if_neg hlimit]
  rw [print, printAll, printAll, printAll, List.foldl_append]

end Dashboard

end Antagonist
