import Antagonist.Shell.Console

/-!
# The keyboard handler

`kernel/keyboard.cpp`.  `keyboardHandler` is one interrupt: the scancode that is
read from port `0x60`, and the state that the handler leaves.  The clock, the
page counts and the thread count are what the other modules return during the
interrupt; the disk is behind `ata_write_sector` and `ata_read_sector`.
-/

namespace Antagonist

open ByteMem

/-- `kbd_us`, up to the last key that has a character. -/
def kbdUsKeys : List Byte :=
  [0, 27] ++ ascii "1234567890-=" ++ [8] ++
  [9] ++ ascii "qwertyuiop[]" ++ [10] ++
  [0] ++ ascii "asdfghjkl;" ++ [39] ++ ascii "`" ++ [0] ++
  [92] ++ ascii "zxcvbnm,./" ++ [0] ++ ascii "*" ++ [0] ++ ascii " "

/-- `kbd_us[scancode]`. -/
def kbdUs (scancode : Byte) : Byte := kbdUsKeys.getD scancode.toNat 0

/-- `mystrcmp(str1, str2)` from index `i` on, with the rest of the literal `str2`. -/
def mystrcmp (str1 : Nat → Byte) : Nat → List Byte → Bool
  | i, [] => decide (str1 i = 0)
  | i, c :: str2 =>
      if str1 i = 0 then false
      else if str1 i ≠ c then false
      else mystrcmp str1 (i + 1) str2

/-! ### The state -/

/-- What the handler reads from outside: the scancode, `timer_ticks`, and what
`pmm_get_total_pages`, `pmm_get_used_pages` and `get_thread_count` return. -/
structure Interrupt where
  scancode : Byte
  timerTicks : BitVec 32
  totalPages : BitVec 32
  usedPages : BitVec 32
  threadCount : BitVec 32

/-- `ata_write_sector` and `ata_read_sector`, over a disk of type `δ`. -/
structure Ata (δ : Type) where
  writeSector : Nat → (Nat → Byte) → δ → δ
  readSector : Nat → δ → (Nat → Byte) × δ

/-- The globals of `keyboard.cpp`, the disk, and the bytes written to port
`0x20`, the last one first. -/
structure Shell (δ : Type) where
  console : Console
  cmdBuffer : Nat → Byte
  cmdIndex : Nat
  commandReadyFlag : Byte
  diskTestPad : Nat → Byte
  keyboardMatrix : Nat → Byte
  drive : δ
  port20 : List Byte

inductive Command
  | help | uptime | meminfo | clear | disktest
  deriving DecidableEq

/-- What an Enter leads to. -/
inductive Action
  | run (command : Command)
  | notFound
  | nothing
  deriving DecidableEq

namespace Command

def name : Command → List Byte
  | help => ascii "help"
  | uptime => ascii "uptime"
  | meminfo => ascii "meminfo"
  | clear => ascii "clear"
  | disktest => ascii "disktest"

end Command

/-! ### The commands -/

def helpText : List Byte :=
  ascii ">> [FontaineOS Help: 'help', 'clear', 'uptime', 'meminfo', 'disktest']"

def notFoundText : List Byte := ascii ">> Command not found! Type 'help' for options."

def secretText : List Byte :=
  ascii "SUCCESS: STREAMED DATA STRAIGHT FROM HARD DRIVE SECTOR PLATES!"

/-- The reply of `uptime`.  `TIMER_HZ` is 100. -/
def uptimeReply (i : Interrupt) : List Byte :=
  let r := Reply.start.append (ascii ">> Uptime: ")
  let r := r.appendNum (i.timerTicks / 100)
  let r := r.append (ascii " seconds (")
  let r := r.appendNum i.timerTicks
  (r.append (ascii " hardware ticks @ 100Hz)")).text

/-- The reply of `meminfo`.  A page is 4 KB. -/
def meminfoReply (i : Interrupt) : List Byte :=
  let freeKb := (i.totalPages - i.usedPages) * 4
  let r := Reply.start.append (ascii ">> Memory: ")
  let r := r.appendNum i.usedPages
  let r := r.append (ascii "/")
  let r := r.appendNum i.totalPages
  let r := r.append (ascii " pages used | ")
  let r := r.appendNum freeKb
  let r := r.append (ascii " KB free | Threads: ")
  (r.appendNum i.threadCount).text

/-- The echo of `disktest` from index `i` on, with `n` cells of the pad to go. -/
def echoPad (pad : Nat → Byte) : Nat → Nat → Console → Console
  | 0, _, c => c
  | n + 1, i, c => if pad i ≠ 0 then echoPad pad n (i + 1) (c.put (pad i) 0x0D) else c

/-- `disk_test_pad` with the secret text, in front of zeros. -/
def secretPad (pad : Nat → Byte) : Nat → Byte := fun i =>
  if i < 512 then secretText.getD i 0 else pad i

section

variable {δ : Type} (ata : Ata δ) (i : Interrupt) (s : Shell δ)

def diskTest : Shell δ :=
  let pad := secretPad s.diskTestPad
  let read := ata.readSector 1 (ata.writeSector 1 pad s.drive)
  let pad := fun j => if j < 512 then read.1 j else pad j
  { s with
    diskTestPad := pad
    drive := read.2
    console := scrollScreen (echoPad pad 512 0 s.console).nextRow }

def runAction : Action → Shell δ
  | .run .help => { s with console := shellPrintLine helpText 0x0D s.console }
  | .run .uptime => { s with console := shellPrintLine (uptimeReply i) 0x0B s.console }
  | .run .meminfo => { s with console := shellPrintLine (meminfoReply i) 0x0B s.console }
  | .run .clear => { s with console := clearScreen s.console }
  | .run .disktest => diskTest ata s
  | .notFound => { s with console := shellPrintLine notFoundText 0x0D s.console }
  | .nothing => s

/-- Which branch the chain of comparisons takes. -/
def commandChain (cmdBuffer : Nat → Byte) : Action :=
  if mystrcmp cmdBuffer 0 Command.help.name then .run .help
  else if mystrcmp cmdBuffer 0 Command.uptime.name then .run .uptime
  else if mystrcmp cmdBuffer 0 Command.meminfo.name then .run .meminfo
  else if mystrcmp cmdBuffer 0 Command.clear.name then .run .clear
  else if mystrcmp cmdBuffer 0 Command.disktest.name then .run .disktest
  else if cmdBuffer 0 ≠ 0 then .notFound
  else .nothing

/-! ### The handler -/

def clearShellCommand : Shell δ :=
  { s with
    cmdBuffer := fun j => if j < 64 then 0 else s.cmdBuffer j
    cmdIndex := 0
    commandReadyFlag := 0 }

def initKeyboard : Shell δ := clearShellCommand s

/-- `outb(0x20, 0x20)`. -/
def sendEoi : Shell δ := { s with port20 := 0x20 :: s.port20 }

/-- The state matrix, for a key that goes down or up. -/
def setKey (key : Byte) (held : Byte) : Shell δ :=
  { s with keyboardMatrix := Function.update s.keyboardMatrix key.toNat held }

/-- Enter, up to the chain: the NUL behind the line, and the cursor on a fresh row. -/
def endLine : Shell δ :=
  { s with
    cmdBuffer := Function.update s.cmdBuffer s.cmdIndex 0
    console := scrollScreen s.console.nextRow }

def enterAction : Action := commandChain (endLine s).cmdBuffer

def enterKey : Shell δ := clearShellCommand (runAction ata i (endLine s) (enterAction s))

def backspaceKey : Shell δ :=
  let cursor := sub32 s.console.cursorPosition 2
  { s with
    cmdIndex := s.cmdIndex - 1
    cmdBuffer := Function.update s.cmdBuffer (s.cmdIndex - 1) 0
    console := Console.poke { s.console with cursorPosition := cursor } cursor 0x20 }

def characterKey (character : Byte) : Shell δ :=
  { s with
    cmdBuffer := Function.update s.cmdBuffer s.cmdIndex character
    cmdIndex := s.cmdIndex + 1
    console := s.console.put character 0x0E }

def keyboardHandler : Shell δ :=
  if i.scancode &&& 0x80 ≠ 0 then sendEoi (setKey s (i.scancode &&& 0x7F) 0)
  else
    let s := sendEoi (setKey s i.scancode 1)
    let character := kbdUs i.scancode
    sendEoi (
      if character = 10 then enterKey ata i s
      else if character = 8 ∧ 0 < s.cmdIndex then backspaceKey s
      else if character ≠ 0 ∧ s.cmdIndex < 63 then characterKey s character
      else s)

/-- The state after `init_keyboard` and a sequence of interrupts. -/
def afterKeys (s₀ : Shell δ) (ins : List Interrupt) : Shell δ :=
  ins.foldl (fun s i => keyboardHandler ata i s) (initKeyboard s₀)

end

end Antagonist
