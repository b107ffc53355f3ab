import Antagonist.Lib.Logged
import Antagonist.Shell.Keyboard

/-!
# The stores of the keyboard handler

The functions of `kernel/keyboard.cpp` once more, over `Logged`: every store into
`video_memory`, `cmd_buffer` and the arrays of a reply is logged with its index.
`val_keyboardHandlerL` says that without the log it is the handler, and
`keyboardHandlerL_logsChanges` that no other byte of the first two changes.
-/

namespace Antagonist

open ByteMem Logged

/-- A store: the array and the index. -/
inductive Store
  | videoMemory (i : Nat)
  | cmdBuffer (i : Nat)
  | reply (i : Nat)
  | num (i : Nat)
  | scratch (i : Nat)

def Store.InBounds : Store → Prop
  | videoMemory i => i < 4000
  | cmdBuffer i => i < 64
  | reply i => i < 160
  | num i => i < 11
  | scratch i => i < 10

/-! ### The console -/

namespace Console

def pokeL (c : Console) (i : Nat) (v : Byte) : Logged Store Console :=
  entry (.videoMemory i) (c.poke i v)

def putL (c : Console) (character color : Byte) : Logged Store Console := do
  let c ← c.pokeL c.cursorPosition character
  let c ← c.pokeL (add32 c.cursorPosition 1) color
  return { c with cursorPosition := add32 c.cursorPosition 2 }

end Console

def scrollScreenL (c : Console) : Logged Store Console :=
  if 4000 ≤ c.cursorPosition then do
    let c ← Logged.foldl (fun c i => c.pokeL i (c.videoMemory (i + 160))) c (List.range 3840)
    let c ← Logged.foldl (fun c j => do
      let c ← c.pokeL (3840 + 2 * j) 0x20
      c.pokeL (3840 + 2 * j + 1) 0x07) c (List.range 80)
    return { c with cursorPosition := 3840 }
  else return c

def shellPrintLineL (text : List Byte) (color : Byte) (c : Console) : Logged Store Console := do
  let c ← Logged.foldl (fun c character => c.putL character color) c text
  scrollScreenL c.nextRow

def clearScreenL (c : Console) : Logged Store Console := do
  let c ← Logged.foldl (fun c j => do
    let c ← c.pokeL (1600 + 2 * j) 0x20
    c.pokeL (1600 + 2 * j + 1) 0x07) c (List.range 1200)
  return { c with cursorPosition := 1600 }

/-! ### Numbers and replies -/

def uintToDecLoopL : Nat → Nat → (Nat → Byte) → Nat → Logged Store ((Nat → Byte) × Nat)
  | 0, _, scratch, len => return (scratch, len)
  | fuel + 1, value, scratch, len => do
      let scratch ← entry (.scratch len)
        (Function.update scratch len (BitVec.ofNat 8 (0x30 + value % 10)))
      if 0 < value / 10 then uintToDecLoopL fuel (value / 10) scratch (len + 1)
      else return (scratch, len + 1)

def uintToDecL (value : Nat) (out : Nat → Byte) : Logged Store ((Nat → Byte) × Nat) := do
  let r ← uintToDecLoopL (value + 1) value (fun _ => 0) 0
  let out ← Logged.foldl
    (fun out i => entry (.num i) (Function.update out i (r.1 (r.2 - 1 - i)))) out (List.range r.2)
  let out ← entry (.num r.2) (Function.update out r.2 0)
  return (out, r.2)

def appendStrL (dest : Nat → Byte) (pos : Nat) : List Byte → Logged Store ((Nat → Byte) × Nat)
  | [] => do
      let dest ← entry (.reply pos) (Function.update dest pos 0)
      return (dest, pos)
  | c :: src =>
      if pos < 159 then do
        let dest ← entry (.reply pos) (Function.update dest pos c)
        appendStrL dest (pos + 1) src
      else do
        let dest ← entry (.reply pos) (Function.update dest pos 0)
        return (dest, pos)

namespace Reply

def appendL (r : Reply) (src : List Byte) : Logged Store Reply := do
  let p ← appendStrL r.reply r.pos src
  return { r with reply := p.1, pos := p.2 }

def appendNumL (r : Reply) (value : BitVec 32) : Logged Store Reply := do
  let p ← uintToDecL value.toNat r.num
  { r with num := p.1 }.appendL (cString p.1 11)

end Reply

def uptimeReplyL (i : Interrupt) : Logged Store (List Byte) := do
  let r ← Reply.start.appendL (ascii ">> Uptime: ")
  let r ← r.appendNumL (i.timerTicks / 100)
  let r ← r.appendL (ascii " seconds (")
  let r ← r.appendNumL i.timerTicks
  let r ← r.appendL (ascii " hardware ticks @ 100Hz)")
  return r.text

def meminfoReplyL (i : Interrupt) : Logged Store (List Byte) := do
  let freeKb := (i.totalPages - i.usedPages) * 4
  let r ← Reply.start.appendL (ascii ">> Memory: ")
  let r ← r.appendNumL i.usedPages
  let r ← r.appendL (ascii "/")
  let r ← r.appendNumL i.totalPages
  let r ← r.appendL (ascii " pages used | ")
  let r ← r.appendNumL freeKb
  let r ← r.appendL (ascii " KB free | Threads: ")
  let r ← r.appendNumL i.threadCount
  return r.text

def echoPadL (pad : Nat → Byte) : Nat → Nat → Console → Logged Store Console
  | 0, _, c => return c
  | n + 1, i, c =>
      if pad i ≠ 0 then do
        let c ← c.putL (pad i) 0x0D
        echoPadL pad n (i + 1) c
      else return c

/-! ### The handler -/

section

variable {δ : Type} (ata : Ata δ) (i : Interrupt) (s : Shell δ)

def diskTestL : Logged Store (Shell δ) := do
  let pad := secretPad s.diskTestPad
  let read := ata.readSector 1 (ata.writeSector 1 pad s.drive)
  let pad := fun j => if j < 512 then read.1 j else pad j
  let c ← echoPadL pad 512 0 s.console
  let c ← scrollScreenL c.nextRow
  return { s with diskTestPad := pad, drive := read.2, console := c }

/-- A command that prints a line. -/
def printReplyL (text : List Byte) (color : Byte) : Logged Store (Shell δ) := do
  let c ← shellPrintLineL text color s.console
  return { s with console := c }

def runActionL : Action → Logged Store (Shell δ)
  | .run .help => printReplyL s helpText 0x0D
  | .run .uptime => do
      let text ← uptimeReplyL i
      printReplyL s text 0x0B
  | .run .meminfo => do
      let text ← meminfoReplyL i
      printReplyL s text 0x0B
  | .run .clear => do
      let c ← clearScreenL s.console
      return { s with console := c }
  | .run .disktest => diskTestL ata s
  | .notFound => printReplyL s notFoundText 0x0D
  | .nothing => return s

def clearShellCommandL : Logged Store (Shell δ) := do
  let cmdBuffer ← Logged.foldl (fun b j => entry (.cmdBuffer j) (Function.update b j 0)) s.cmdBuffer
    (List.range 64)
  return { s with cmdBuffer, cmdIndex := 0, commandReadyFlag := 0 }

def endLineL : Logged Store (Shell δ) := do
  let cmdBuffer ← entry (.cmdBuffer s.cmdIndex) (Function.update s.cmdBuffer s.cmdIndex 0)
  let c ← scrollScreenL s.console.nextRow
  return { s with cmdBuffer, console := c }

def enterKeyL : Logged Store (Shell δ) := do
  let s ← endLineL s
  let s ← runActionL ata i s (commandChain s.cmdBuffer)
  clearShellCommandL s

def backspaceKeyL : Logged Store (Shell δ) := do
  let cursor := sub32 s.console.cursorPosition 2
  let cmdBuffer ← entry (.cmdBuffer (s.cmdIndex - 1))
    (Function.update s.cmdBuffer (s.cmdIndex - 1) 0)
  let c ← { s.console with cursorPosition := cursor }.pokeL cursor 0x20
  return { s with cmdIndex := s.cmdIndex - 1, cmdBuffer, console := c }

def characterKeyL (character : Byte) : Logged Store (Shell δ) := do
  let cmdBuffer ← entry (.cmdBuffer s.cmdIndex) (Function.update s.cmdBuffer s.cmdIndex character)
  let c ← s.console.putL character 0x0E
  return { s with cmdBuffer, cmdIndex := s.cmdIndex + 1, console := c }

/-- The branches of the handler, for a key that goes down. -/
def keyDownL (character : Byte) : Logged Store (Shell δ) :=
  if character = 10 then enterKeyL ata i s
  else if character = 8 ∧ 0 < s.cmdIndex then backspaceKeyL s
  else if character ≠ 0 ∧ s.cmdIndex < 63 then characterKeyL s character
  else return s

def keyboardHandlerL : Logged Store (Shell δ) :=
  if i.scancode &&& 0x80 ≠ 0 then return sendEoi (setKey s (i.scancode &&& 0x7F) 0)
  else do
    let s ← keyDownL ata i (sendEoi (setKey s i.scancode 1)) (kbdUs i.scancode)
    return sendEoi s

end

/-! ### Without the log -/

section

variable (c : Console) (character color : Byte)

@[simp] theorem val_pokeL (i : Nat) (v : Byte) : (c.pokeL i v).val = c.poke i v := rfl

@[simp] theorem val_putL : (c.putL character color).val = c.put character color := rfl

@[simp] theorem val_scrollScreenL : (scrollScreenL c).val = scrollScreen c := by
  simp only [scrollScreenL, scrollScreen, val_ite, val_bind, val_foldl, val_pokeL, val_pure]

@[simp] theorem val_shellPrintLineL (text : List Byte) :
    (shellPrintLineL text color c).val = shellPrintLine text color c := by
  simp only [shellPrintLineL, shellPrintLine, val_bind, val_foldl, val_putL, val_scrollScreenL]

@[simp] theorem val_clearScreenL : (clearScreenL c).val = clearScreen c := by
  simp only [clearScreenL, clearScreen, val_bind, val_foldl, val_pokeL, val_pure]

theorem val_uintToDecLoopL : ∀ (fuel value : Nat) (scratch : Nat → Byte) (len : Nat),
    (uintToDecLoopL fuel value scratch len).val = uintToDecLoop fuel value scratch len := by
  intro fuel
  induction fuel with
  | zero => exact fun _ _ _ => rfl
  | succ fuel ih =>
    intro value scratch len
    rw [uintToDecLoopL, uintToDecLoop, val_bind, val_entry, val_ite, ih]
    rfl

@[simp] theorem val_uintToDecL (value : Nat) (out : Nat → Byte) :
    (uintToDecL value out).val = uintToDec value out := by
  simp only [uintToDecL, uintToDec, val_bind, val_foldl, val_entry, val_pure, val_uintToDecLoopL]

@[simp] theorem val_appendStrL : ∀ (src : List Byte) (dest : Nat → Byte) (pos : Nat),
    (appendStrL dest pos src).val = appendStr dest pos src := by
  intro src
  induction src with
  | nil => exact fun _ _ => rfl
  | cons c src ih =>
    intro dest pos
    rw [appendStrL, appendStr, val_ite, val_bind, val_entry, ih]
    rfl

@[simp] theorem val_appendL (r : Reply) (src : List Byte) : (r.appendL src).val = r.append src := by
  simp only [Reply.appendL, Reply.append, val_bind, val_appendStrL, val_pure]

@[simp] theorem val_appendNumL (r : Reply) (value : BitVec 32) :
    (r.appendNumL value).val = r.appendNum value := by
  simp only [Reply.appendNumL, Reply.appendNum, val_bind, val_uintToDecL, val_appendL]

@[simp] theorem val_uptimeReplyL (i : Interrupt) : (uptimeReplyL i).val = uptimeReply i := by
  simp only [uptimeReplyL, uptimeReply, val_bind, val_appendL, val_appendNumL, val_pure]

@[simp] theorem val_meminfoReplyL (i : Interrupt) : (meminfoReplyL i).val = meminfoReply i := by
  simp only [meminfoReplyL, meminfoReply, val_bind, val_appendL, val_appendNumL, val_pure]

@[simp] theorem val_echoPadL (pad : Nat → Byte) : ∀ (n i : Nat) (c : Console),
    (echoPadL pad n i c).val = echoPad pad n i c := by
  intro n
  induction n with
  | zero => exact fun _ _ => rfl
  | succ n ih =>
    intro i c
    rw [echoPadL, echoPad, val_ite, val_bind, val_putL, ih]
    rfl

end

section

variable {δ : Type} (ata : Ata δ) (i : Interrupt) (s : Shell δ)

@[simp] theorem val_diskTestL : (diskTestL ata s).val = diskTest ata s := by
  simp only [diskTestL, diskTest, val_bind, val_echoPadL, val_scrollScreenL, val_pure]

@[simp] theorem val_runActionL (a : Action) : (runActionL ata i s a).val = runAction ata i s a := by
  cases a with
  | run c =>
    cases c <;>
      simp only [runActionL, runAction, printReplyL, val_bind, val_shellPrintLineL,
        val_uptimeReplyL, val_meminfoReplyL, val_clearScreenL, val_diskTestL, val_pure]
  | notFound => simp only [runActionL, runAction, printReplyL, val_bind, val_shellPrintLineL, val_pure]
  | nothing => rfl

theorem foldl_clear (b : Nat → Byte) (n : Nat) :
    (List.range n).foldl (fun b j => Function.update b j 0) b = fun j => if j < n then 0 else b j := by
  funext j
  refine (foldl_range_fill (fun b => b) (fun b i _ j => ?_) b j).trans
    (if_congr (by omega : 0 ≤ j ∧ j < 0 + n ↔ j < n) rfl rfl)
  rw [Nat.zero_add]
  exact Function.update_apply b i 0 j

@[simp] theorem val_clearShellCommandL : (clearShellCommandL s).val = clearShellCommand s := by
  simp only [clearShellCommandL, clearShellCommand, val_bind, val_foldl, val_entry, val_pure,
    foldl_clear]

@[simp] theorem val_endLineL : (endLineL s).val = endLine s := by
  simp only [endLineL, endLine, val_bind, val_entry, val_scrollScreenL, val_pure]

@[simp] theorem val_enterKeyL : (enterKeyL ata i s).val = enterKey ata i s := by
  simp only [enterKeyL, enterKey, enterAction, val_bind, val_endLineL, val_runActionL,
    val_clearShellCommandL]

@[simp] theorem val_backspaceKeyL : (backspaceKeyL s).val = backspaceKey s := by
  simp only [backspaceKeyL, backspaceKey, val_bind, val_entry, val_pokeL, val_pure]

@[simp] theorem val_characterKeyL (character : Byte) :
    (characterKeyL s character).val = characterKey s character := by
  simp only [characterKeyL, characterKey, val_bind, val_entry, val_putL, val_pure]

/-- **Without the log it is the handler.** -/
theorem val_keyboardHandlerL : (keyboardHandlerL ata i s).val = keyboardHandler ata i s := by
  simp only [keyboardHandlerL, keyDownL, keyboardHandler, val_ite, val_bind, val_enterKeyL,
    val_backspaceKeyL, val_characterKeyL, val_pure]

end

/-! ### The log is complete -/

/-- The cell that a store goes to, in the arrays that outlive the handler. -/
def Console.storedAt (c : Console) : Store → Byte
  | .videoMemory j => c.videoMemory j
  | _ => 0

def Shell.storedAt {δ : Type} (s : Shell δ) : Store → Byte
  | .videoMemory j => s.console.videoMemory j
  | .cmdBuffer j => s.cmdBuffer j
  | _ => 0

section

variable (c : Console)

theorem pokeL_logsChanges (i : Nat) (v : Byte) :
    LogsChanges Console.storedAt c.storedAt (c.pokeL i v) := by
  refine logsChanges_entry fun st hst => ?_
  cases st with
  | videoMemory j =>
    have hne : j ≠ i := fun he => hst (congrArg Store.videoMemory he)
    exact Function.update_of_ne hne v c.videoMemory
  | cmdBuffer j => rfl
  | reply j => rfl
  | num j => rfl
  | scratch j => rfl

theorem pokeL_twice_logsChanges (i j : Nat) (v w : Byte) : LogsChanges Console.storedAt c.storedAt (do
    let c ← c.pokeL i v
    c.pokeL j w) :=
  (pokeL_logsChanges c i v).bind (pokeL_logsChanges _ j w)

theorem storedAt_cursorPosition (c : Console) (n : Nat) (st : Store) :
    Console.storedAt { c with cursorPosition := n } st = c.storedAt st := by
  cases st <;> rfl

theorem putL_logsChanges (character color : Byte) :
    LogsChanges Console.storedAt c.storedAt (c.putL character color) := by
  refine (pokeL_logsChanges c _ _).bind ((pokeL_logsChanges _ _ _).bind ?_)
  exact logsChanges_pure (storedAt_cursorPosition _ _)

theorem scrollScreenL_logsChanges : LogsChanges Console.storedAt c.storedAt (scrollScreenL c) := by
  rw [scrollScreenL]
  split
  · refine (logsChanges_foldl (fun c i => pokeL_logsChanges c _ _) _ c).bind ?_
    refine (logsChanges_foldl (fun c j => pokeL_twice_logsChanges c _ _ _ _) _ _).bind ?_
    exact logsChanges_pure (storedAt_cursorPosition _ _)
  · exact logsChanges_pure fun _ => rfl

theorem nextRow_scrollScreenL_logsChanges :
    LogsChanges Console.storedAt c.storedAt (scrollScreenL c.nextRow) :=
  (scrollScreenL_logsChanges c.nextRow).lift fun st h => by
    rw [h]
    exact storedAt_cursorPosition c _ st

theorem shellPrintLineL_logsChanges (text : List Byte) (color : Byte) :
    LogsChanges Console.storedAt c.storedAt (shellPrintLineL text color c) :=
  (logsChanges_foldl (fun c character => putL_logsChanges c character color) text c).bind
    (nextRow_scrollScreenL_logsChanges _)

theorem clearScreenL_logsChanges : LogsChanges Console.storedAt c.storedAt (clearScreenL c) := by
  refine (logsChanges_foldl (fun c j => pokeL_twice_logsChanges c _ _ _ _) _ c).bind ?_
  exact logsChanges_pure (storedAt_cursorPosition _ _)

theorem echoPadL_logsChanges (pad : Nat → Byte) : ∀ (n i : Nat) (c : Console),
    LogsChanges Console.storedAt c.storedAt (echoPadL pad n i c) := by
  intro n
  induction n with
  | zero => exact fun i c => logsChanges_pure fun _ => rfl
  | succ n ih =>
    intro i c
    rw [echoPadL]
    split
    · exact (putL_logsChanges c _ _).bind (ih (i + 1) _)
    · exact logsChanges_pure fun _ => rfl

end

section

variable {δ : Type} (ata : Ata δ) (i : Interrupt) (s : Shell δ)

theorem Shell.logsChanges_console {x : Logged Store Console} {t : Shell δ}
    (h : LogsChanges Console.storedAt t.console.storedAt x) :
    LogsChanges (fun c => Shell.storedAt { t with console := c }) t.storedAt x := by
  refine h.lift fun st hst => ?_
  cases st with
  | videoMemory j => exact hst
  | cmdBuffer j => rfl
  | reply j => rfl
  | num j => rfl
  | scratch j => rfl

theorem Shell.logsChanges_cmdBuffer (j : Nat) (v : Byte) :
    LogsChanges (fun b => Shell.storedAt { s with cmdBuffer := b }) s.storedAt
      (entry (.cmdBuffer j) (Function.update s.cmdBuffer j v)) := by
  refine logsChanges_entry fun st hst => ?_
  cases st with
  | cmdBuffer k =>
    have hne : k ≠ j := fun he => hst (congrArg Store.cmdBuffer he)
    exact Function.update_of_ne hne v s.cmdBuffer
  | videoMemory k => rfl
  | reply k => rfl
  | num k => rfl
  | scratch k => rfl

theorem Shell.storedAt_congr {s t : Shell δ} (hvideo : s.console.videoMemory = t.console.videoMemory)
    (hbuffer : s.cmdBuffer = t.cmdBuffer) (st : Store) : s.storedAt st = t.storedAt st := by
  cases st with
  | videoMemory j => exact congrFun hvideo j
  | cmdBuffer j => exact congrFun hbuffer j
  | reply j => rfl
  | num j => rfl
  | scratch j => rfl

theorem printReplyL_logsChanges (text : List Byte) (color : Byte) :
    LogsChanges Shell.storedAt s.storedAt (printReplyL s text color) :=
  (Shell.logsChanges_console (shellPrintLineL_logsChanges s.console text color)).bind
    (logsChanges_pure fun _ => rfl)

theorem diskTestL_logsChanges : LogsChanges Shell.storedAt s.storedAt (diskTestL ata s) := by
  refine (Shell.logsChanges_console (echoPadL_logsChanges _ 512 0 s.console)).bind ?_
  refine LogsChanges.bind
    (Shell.logsChanges_console (t := { s with console := _ })
      (nextRow_scrollScreenL_logsChanges _)) ?_
  exact logsChanges_pure (Shell.storedAt_congr rfl rfl)

theorem runActionL_logsChanges (a : Action) :
    LogsChanges Shell.storedAt s.storedAt (runActionL ata i s a) := by
  -- a reply is composed in arrays of its own
  have hreply : ∀ x : Logged Store (List Byte), LogsChanges (fun _ => s.storedAt) s.storedAt x :=
    fun _ _ _ => rfl
  cases a with
  | run c =>
    cases c with
    | help => exact printReplyL_logsChanges s helpText 0x0D
    | uptime => exact (hreply _).bind (printReplyL_logsChanges s _ 0x0B)
    | meminfo => exact (hreply _).bind (printReplyL_logsChanges s _ 0x0B)
    | clear =>
      exact (Shell.logsChanges_console (clearScreenL_logsChanges s.console)).bind
        (logsChanges_pure fun _ => rfl)
    | disktest => exact diskTestL_logsChanges ata s
  | notFound => exact printReplyL_logsChanges s notFoundText 0x0D
  | nothing => exact logsChanges_pure fun _ => rfl

theorem clearShellCommandL_logsChanges :
    LogsChanges Shell.storedAt s.storedAt (clearShellCommandL s) := by
  refine (logsChanges_foldl (g := fun b => Shell.storedAt { s with cmdBuffer := b })
    (fun b j => Shell.logsChanges_cmdBuffer { s with cmdBuffer := b } j 0) _ s.cmdBuffer).bind ?_
  exact logsChanges_pure (Shell.storedAt_congr rfl rfl)

theorem endLineL_logsChanges : LogsChanges Shell.storedAt s.storedAt (endLineL s) := by
  refine (Shell.logsChanges_cmdBuffer s s.cmdIndex 0).bind ?_
  refine LogsChanges.bind (Shell.logsChanges_console (t := { s with cmdBuffer := _ })
    (nextRow_scrollScreenL_logsChanges s.console)) ?_
  exact logsChanges_pure (Shell.storedAt_congr rfl rfl)

theorem enterKeyL_logsChanges : LogsChanges Shell.storedAt s.storedAt (enterKeyL ata i s) :=
  (endLineL_logsChanges s).bind
    ((runActionL_logsChanges ata i _ _).bind (clearShellCommandL_logsChanges _))

theorem backspaceKeyL_logsChanges : LogsChanges Shell.storedAt s.storedAt (backspaceKeyL s) := by
  refine (Shell.logsChanges_cmdBuffer s (s.cmdIndex - 1) 0).bind ?_
  refine LogsChanges.bind (Shell.logsChanges_console (t := { s with cmdBuffer := _ })
    ((pokeL_logsChanges _ _ _).lift fun st h => ?_)) ?_
  · rw [h]
    exact storedAt_cursorPosition s.console _ st
  · exact logsChanges_pure (Shell.storedAt_congr rfl rfl)

theorem characterKeyL_logsChanges (character : Byte) :
    LogsChanges Shell.storedAt s.storedAt (characterKeyL s character) := by
  refine (Shell.logsChanges_cmdBuffer s s.cmdIndex character).bind ?_
  refine LogsChanges.bind (Shell.logsChanges_console (t := { s with cmdBuffer := _ })
    (putL_logsChanges s.console character 0x0E)) ?_
  exact logsChanges_pure (Shell.storedAt_congr rfl rfl)

theorem keyDownL_logsChanges (character : Byte) :
    LogsChanges Shell.storedAt s.storedAt (keyDownL ata i s character) := by
  rw [keyDownL]
  split
  · exact enterKeyL_logsChanges ata i s
  split
  · exact backspaceKeyL_logsChanges s
  split
  · exact characterKeyL_logsChanges s character
  · exact logsChanges_pure fun _ => rfl

/-- **Every change is logged.** -/
theorem keyboardHandlerL_logsChanges :
    LogsChanges Shell.storedAt s.storedAt (keyboardHandlerL ata i s) := by
  rw [keyboardHandlerL]
  split
  · exact logsChanges_pure (Shell.storedAt_congr rfl rfl)
  · have hkey := (keyDownL_logsChanges ata i (sendEoi (setKey s i.scancode 1))
      (kbdUs i.scancode)).lift fun st h => h.trans (Shell.storedAt_congr (t := s) rfl rfl st)
    exact hkey.bind (logsChanges_pure (Shell.storedAt_congr rfl rfl))

end

end Antagonist
