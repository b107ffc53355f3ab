import Antagonist.Lib.Memory
import Mathlib.Logic.Function.Basic

/-!
# The console

The text screen that `kernel/keyboard.cpp` writes: two bytes for a cell, the
character and its colour, 160 bytes for a row, and 25 rows.  Nothing bounds the
index of a store into `video_memory`, so the screen is a function on all indices.
-/

namespace Antagonist

open ByteMem

/-- The characters of a literal, without the NUL that ends it. -/
def ascii (text : String) : List Byte := text.toList.map fun c => BitVec.ofNat 8 c.toNat

/-- The string in an array of `n` cells. -/
def cString (a : Nat → Byte) (n : Nat) : List Byte :=
  ((List.range n).map a).takeWhile fun c => decide (c ≠ 0)

structure Console where
  videoMemory : Nat → Byte
  cursorPosition : Nat

namespace Console

/-- `video_memory[i] = v`. -/
def poke (c : Console) (i : Nat) (v : Byte) : Console :=
  { c with videoMemory := Function.update c.videoMemory i v }

/-- A character and its colour at the cursor, which moves on. -/
def put (c : Console) (character color : Byte) : Console :=
  let c := c.poke c.cursorPosition character
  let c := c.poke (add32 c.cursorPosition 1) color
  { c with cursorPosition := add32 c.cursorPosition 2 }

/-- `cursor_position = ((cursor_position / 160) + 1) * 160`. -/
def nextRow (c : Console) : Console :=
  { c with cursorPosition := (c.cursorPosition / 160 + 1) * 160 % 2 ^ 32 }

end Console

def scrollScreen (c : Console) : Console :=
  if 4000 ≤ c.cursorPosition then
    let c := (List.range 3840).foldl (fun c i => c.poke i (c.videoMemory (i + 160))) c
    let c := (List.range 80).foldl
      (fun c j => (c.poke (3840 + 2 * j) 0x20).poke (3840 + 2 * j + 1) 0x07) c
    { c with cursorPosition := 3840 }
  else c

def shellPrintLine (text : List Byte) (color : Byte) (c : Console) : Console :=
  scrollScreen (text.foldl (fun c character => c.put character color) c).nextRow

/-- The `clear` command: the rows from the prompt on, and the cursor back there. -/
def clearScreen (c : Console) : Console :=
  let c := (List.range 1200).foldl
    (fun c j => (c.poke (1600 + 2 * j) 0x20).poke (1600 + 2 * j + 1) 0x07) c
  { c with cursorPosition := 1600 }

/-! ### Numbers and replies -/

/-- The digits of `uint_to_dec`, the last one first, in `scratch`. -/
def uintToDecLoop : Nat → Nat → (Nat → Byte) → Nat → (Nat → Byte) × Nat
  | 0, _, scratch, len => (scratch, len)
  | fuel + 1, value, scratch, len =>
      let scratch := Function.update scratch len (BitVec.ofNat 8 (0x30 + value % 10))
      if 0 < value / 10 then uintToDecLoop fuel (value / 10) scratch (len + 1)
      else (scratch, len + 1)

/-- `uint_to_dec`: the array `out` and the length of the numeral. -/
def uintToDec (value : Nat) (out : Nat → Byte) : (Nat → Byte) × Nat :=
  let (scratch, len) := uintToDecLoop (value + 1) value (fun _ => 0) 0
  let out := (List.range len).foldl (fun out i => Function.update out i (scratch (len - 1 - i))) out
  (Function.update out len 0, len)

/-- `append_str`: the array `dest` and the position of its end. -/
def appendStr (dest : Nat → Byte) (pos : Nat) : List Byte → (Nat → Byte) × Nat
  | [] => (Function.update dest pos 0, pos)
  | c :: src =>
      if pos < 159 then appendStr (Function.update dest pos c) (pos + 1) src
      else (Function.update dest pos 0, pos)

/-- The locals of a handler that composes a reply: `reply`, `pos` and `num`. -/
structure Reply where
  reply : Nat → Byte
  pos : Nat
  num : Nat → Byte

namespace Reply

/-- `pos = append_str(reply, pos, src)`. -/
def append (r : Reply) (src : List Byte) : Reply :=
  let (reply, pos) := appendStr r.reply r.pos src
  { r with reply, pos }

/-- `uint_to_dec(value, num)`, and `num` appended. -/
def appendNum (r : Reply) (value : BitVec 32) : Reply :=
  let r := { r with num := (uintToDec value.toNat r.num).1 }
  r.append (cString r.num 11)

/-- Before the first `append_str`.  The arrays are not initialized. -/
def start : Reply := ⟨fun _ => 0, 0, fun _ => 0⟩

def text (r : Reply) : List Byte := cString r.reply 160

end Reply

end Antagonist
