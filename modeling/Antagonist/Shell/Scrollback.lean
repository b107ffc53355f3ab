import Antagonist.Lib.Scrollback
import Antagonist.Shell.Console

/-!
# The scrollback of the console

The rows of `video_memory` are the end of a log, to which `shell_print_line` adds a row at a time.
The screen of rows is `Scrollback.Screen`; the console follows it cell by cell.

* `cell_scrollScreen`: the copy of the rows in place, and the row that is blanked.
* `Console.Follows.shellPrintLine`: a call of `shell_print_line` is one line of the screen.
* `showsLog_printLines`: what is on the screen after any number of calls.
-/

namespace Antagonist

open ByteMem Scrollback

abbrev Cell := Byte × Byte

def blankCell : Cell := (0x20, 0x07)

def blankRow : List Cell := List.replicate 80 blankCell

namespace Console

/-- Cell `k` of the screen, counted row after row. -/
def cell (c : Console) (k : Nat) : Cell := (c.videoMemory (2 * k), c.videoMemory (2 * k + 1))

def rowCells (c : Console) (r : Nat) : List Cell := (List.range 80).map fun x => c.cell (80 * r + x)

def rows (c : Console) : List (List Cell) := (List.range 25).map c.rowCells

end Console

/-- `clear_screen` of `kernel.cpp`. -/
def KernelMain.clearScreen (c : Console) : Console :=
  (List.range 2000).foldl (fun c j => (c.poke (2 * j) 0x20).poke (2 * j + 1) 0x07) c

/-- The console before the first line, whatever `video_memory` held. -/
def clearedConsole (videoMemory : Nat → Byte) : Console := KernelMain.clearScreen ⟨videoMemory, 1600⟩

/-- A string that fits into a row, and the colour that it is printed in. -/
structure PrintedLine where
  text : List Byte
  color : Byte
  short : text.length ≤ 79
  nonzero : 0 ∉ text

def PrintedLine.row (line : PrintedLine) : List Cell :=
  line.text.map (fun character => (character, line.color)) ++
    List.replicate (80 - line.text.length) blankCell

def printLines (c : Console) (lines : List PrintedLine) : Console :=
  lines.foldl (fun c line => shellPrintLine line.text line.color c) c

/-- The log: the rows above the prompt, the lines, and the row of the cursor. -/
def scrollLog (lines : List PrintedLine) : List (List Cell) :=
  List.replicate 10 blankRow ++ lines.map PrintedLine.row ++ [blankRow]

/-- Where the last row of the log is on the screen. -/
def freshRow (lines : List PrintedLine) : Nat :=
  10 + lines.length - ((scrollLog lines).length - 25)

/-- The screen is the end of the log, with the cursor at the start of its last row, a blank one. -/
structure Console.ShowsLog (c : Console) (lines : List PrintedLine) : Prop where
  rows : c.rows = window 25 blankRow (scrollLog lines)
  cursor : c.cursorPosition = 160 * freshRow lines
  fresh : c.rows[freshRow lines]? = some blankRow

/-! ### Cells -/

section

variable {c : Console}

theorem videoMemory_poke (c : Console) (i : Nat) (v : Byte) :
    (c.poke i v).videoMemory = Function.update c.videoMemory i v := rfl

theorem cell_withCursor (c : Console) (n : Nat) :
    Console.cell { c with cursorPosition := n } = c.cell := rfl

theorem cell_poke (c : Console) (k : Nat) (character color : Byte) :
    ((c.poke (2 * k) character).poke (2 * k + 1) color).cell =
      Function.update c.cell k (character, color) := by
  funext j
  unfold Console.cell
  rw [videoMemory_poke, videoMemory_poke]
  by_cases hj : j = k
  · rw [hj, Function.update_self, Function.update_of_ne (by omega), Function.update_self,
      Function.update_self]
  · rw [Function.update_of_ne hj, Function.update_of_ne (by omega), Function.update_of_ne (by omega),
      Function.update_of_ne (by omega), Function.update_of_ne (by omega)]

theorem cell_blankLoop {base k : Nat} (hbase : base = 2 * k) (c : Console) (n j : Nat) :
    ((List.range n).foldl
      (fun c j => (c.poke (base + 2 * j) 0x20).poke (base + 2 * j + 1) 0x07) c).cell j =
      if k ≤ j ∧ j < k + n then blankCell else c.cell j := by
  refine foldl_range_fill Console.cell ?_ c j
  intro c i _ j
  rw [show base + 2 * i = 2 * (k + i) by omega, cell_poke]
  exact Function.update_apply c.cell (k + i) blankCell j

theorem cursorPosition_clearScreen (c : Console) :
    (KernelMain.clearScreen c).cursorPosition = c.cursorPosition := by
  rw [KernelMain.clearScreen]
  generalize List.range 2000 = cells
  induction cells generalizing c with
  | nil => rfl
  | cons j cells ih => exact (ih _).trans rfl

/-- The copy in place, byte by byte from the start.  Each byte is read before it is written. -/
theorem videoMemory_copyLoop (c : Console) (n j : Nat) :
    ((List.range n).foldl (fun c i => c.poke i (c.videoMemory (i + 160))) c).videoMemory j =
      if j < n then c.videoMemory (j + 160) else c.videoMemory j :=
  foldl_range_copy Console.videoMemory
    (fun c i _ j => Function.update_apply c.videoMemory i (c.videoMemory (i + 160)) j) c j

/-- **The scroll**: the rows move up, and the last one is blank. -/
theorem cell_scrollScreen (hover : 4000 ≤ c.cursorPosition) :
    (∀ j, (scrollScreen c).cell j = if 1920 ≤ j ∧ j < 2000 then blankCell
      else if j < 1920 then c.cell (j + 80) else c.cell j) ∧
    (scrollScreen c).cursorPosition = 3840 := by
  have hblank : (3840 : Nat) = 2 * 1920 := rfl
  rw [scrollScreen, if_pos hover]
  refine ⟨?_, rfl⟩
  intro j
  rw [cell_withCursor, cell_blankLoop hblank]
  apply if_congr Iff.rfl rfl
  unfold Console.cell
  rw [videoMemory_copyLoop, videoMemory_copyLoop]
  by_cases hj : j < 1920
  · rw [if_pos hj, if_pos (by omega), if_pos (by omega), show 2 * j + 160 = 2 * (j + 80) by omega,
      show 2 * j + 1 + 160 = 2 * (j + 80) + 1 by omega]
  · rw [if_neg hj, if_neg (by omega), if_neg (by omega)]

theorem cell_put {k : Nat} (hc : c.cursorPosition = 2 * k) (hk : k < 2 ^ 30)
    (character color : Byte) : (c.put character color).cell =
      Function.update c.cell k (character, color) ∧
    (c.put character color).cursorPosition = 2 * (k + 1) := by
  have hone : add32 c.cursorPosition 1 = 2 * k + 1 := by
    rw [hc]
    exact add32_of_lt (by omega)
  have htwo : add32 c.cursorPosition 2 = 2 * (k + 1) := by
    rw [hc]
    exact add32_of_lt (by omega)
  refine ⟨?_, htwo⟩
  show ((c.poke c.cursorPosition character).poke (add32 c.cursorPosition 1) color).cell = _
  rw [hone, hc]
  exact cell_poke c k character color

/-- A string at a cell boundary: its own cells, and all others. -/
theorem cell_putLine (text : List Byte) (color : Byte) :
    ∀ {c : Console} {k : Nat}, c.cursorPosition = 2 * k → k + text.length < 2 ^ 30 →
    (∀ i (hi : i < text.length), (text.foldl (fun c character => c.put character color) c).cell
      (k + i) = (text[i], color)) ∧
    (∀ j, j < k ∨ k + text.length ≤ j →
      (text.foldl (fun c character => c.put character color) c).cell j = c.cell j) ∧
    (text.foldl (fun c character => c.put character color) c).cursorPosition =
      2 * (k + text.length) := by
  induction text with
  | nil => exact fun hc _ => ⟨fun _ hi => absurd hi (Nat.not_lt_zero _), fun _ _ => rfl, hc⟩
  | cons character text ih =>
    intro c k hc hk
    rw [List.length_cons] at hk
    obtain ⟨hcell, hcursor⟩ := cell_put hc (by omega) character color
    obtain ⟨hnew, hold, hend⟩ := ih hcursor (by omega)
    rw [List.foldl_cons]
    refine ⟨fun i hi => ?_, fun j hj => ?_, ?_⟩
    · cases i with
      | zero =>
        rw [hold (k + 0) (by omega), hcell, Nat.add_zero, Function.update_self]
        rfl
      | succ i =>
        rw [List.length_cons] at hi
        rw [show k + (i + 1) = k + 1 + i by omega, hnew i (by omega)]
        rfl
    · rw [List.length_cons] at hj
      rw [hold j (by omega), hcell, Function.update_of_ne (by omega)]
    · rw [hend, List.length_cons]
      omega

/-! ### Rows -/

theorem PrintedLine.length_row (line : PrintedLine) : line.row.length = 80 := by
  have hshort := line.short
  rw [PrintedLine.row]
  rw [List.length_append, List.length_map, List.length_replicate]
  omega

theorem PrintedLine.getElem?_row_of_lt (line : PrintedLine) {x : Nat} (hx : x < line.text.length) :
    line.row[x]? = some (line.text[x], line.color) := by
  rw [PrintedLine.row]
  rw [List.getElem?_append_left (by rw [List.length_map]; exact hx), List.getElem?_map,
    List.getElem?_eq_getElem hx]
  rfl

theorem PrintedLine.getElem?_row_of_ge (line : PrintedLine) {x : Nat} (hx : line.text.length ≤ x)
    (hlt : x < 80) : line.row[x]? = some blankCell := by
  rw [PrintedLine.row]
  rw [List.getElem?_append_right (by rw [List.length_map]; exact hx), List.length_map,
    List.getElem?_replicate, if_pos (by omega)]

theorem getElem?_rows (c : Console) {r : Nat} (hr : r < 25) : c.rows[r]? = some (c.rowCells r) := by
  rw [Console.rows]
  rw [List.getElem?_map, List.getElem?_range hr]
  rfl

theorem length_rows (c : Console) : c.rows.length = 25 := by
  rw [Console.rows]
  rw [List.length_map, List.length_range]

theorem rowCells_congr {d : Console} {r q : Nat}
    (h : ∀ x < 80, c.cell (80 * r + x) = d.cell (80 * q + x)) : c.rowCells r = d.rowCells q :=
  List.map_congr_left fun x hx => h x (List.mem_range.mp hx)

theorem rowCells_eq_blankRow {r : Nat} :
    c.rowCells r = blankRow ↔ ∀ x < 80, c.cell (80 * r + x) = blankCell := by
  rw [Console.rowCells, blankRow]
  rw [List.eq_replicate_iff, List.length_map, List.length_range]
  refine ⟨?_, ?_⟩
  · rintro ⟨-, hall⟩ x hx
    exact hall _ (List.mem_map_of_mem (List.mem_range.mpr hx))
  · intro hall
    refine ⟨rfl, ?_⟩
    intro y hy
    obtain ⟨x, hx, rfl⟩ := List.mem_map.mp hy
    exact hall x (List.mem_range.mp hx)

/-- **The scroll**, row by row. -/
theorem rows_scrollScreen (hover : 4000 ≤ c.cursorPosition) :
    (scrollScreen c).rows = c.rows.tail ++ [blankRow] := by
  obtain ⟨hcell, -⟩ := cell_scrollScreen hover
  have hlen : c.rows.tail.length = 24 := by rw [List.length_tail, length_rows]
  refine map_range_eq (by rw [List.length_append, hlen, List.length_singleton]) ?_
  intro r hr
  by_cases hlast : r < 24
  · rw [List.getElem?_append_left (by omega), List.getElem?_tail, getElem?_rows c (by omega)]
    refine congrArg some (rowCells_congr ?_)
    intro x hx
    rw [hcell, if_neg (by omega), if_pos (by omega), show 80 * r + x + 80 = 80 * (r + 1) + x by omega]
  · obtain rfl : r = c.rows.tail.length := by omega
    rw [List.getElem?_concat_length]
    refine congrArg some (rowCells_eq_blankRow.mpr ?_).symm
    intro x hx
    rw [hcell]
    exact if_pos (by omega)

theorem rows_putLine {r : Nat} (hr : r < 25) (hc : c.cursorPosition = 160 * r)
    (hblank : c.rowCells r = blankRow) (line : PrintedLine) :
    (line.text.foldl (fun c character => c.put character line.color) c).rows =
      c.rows.set r line.row ∧
    (line.text.foldl (fun c character => c.put character line.color) c).nextRow.cursorPosition =
      160 * (r + 1) := by
  have hshort := line.short
  obtain ⟨hnew, hold, hend⟩ := cell_putLine line.text line.color
    (show c.cursorPosition = 2 * (80 * r) by omega) (by omega)
  refine ⟨?_, ?_⟩
  · refine map_range_eq (by rw [List.length_set, length_rows]) ?_
    intro q hq
    by_cases hqr : r = q
    · subst hqr
      rw [List.getElem?_set_self (by rw [length_rows]; exact hq)]
      refine congrArg some (map_range_eq line.length_row ?_).symm
      intro x hx
      by_cases hin : x < line.text.length
      · rw [line.getElem?_row_of_lt hin, hnew x hin]
      · rw [line.getElem?_row_of_ge (by omega) hx, hold _ (by omega),
          rowCells_eq_blankRow.mp hblank x hx]
    · rw [List.getElem?_set_ne hqr, getElem?_rows c hq]
      refine congrArg some (rowCells_congr fun x hx => (hold _ ?_).symm)
      omega
  · show (_ / 160 + 1) * 160 % 2 ^ 32 = _
    rw [hend]
    omega

/-! ### The console follows the screen -/

/-- The console shows a screen of rows. -/
structure Console.Follows (c : Console) (s : Screen (List Cell) 25 blankRow) : Prop where
  rows : c.rows = s.rows
  cursor : c.cursorPosition = 160 * s.row

/-- **A call of `shell_print_line` is one line of the screen.** -/
theorem Console.Follows.shellPrintLine {s : Screen (List Cell) 25 blankRow} (H : c.Follows s)
    (line : PrintedLine) :
    (shellPrintLine line.text line.color c).Follows (s.print line.row) := by
  have hlt := s.row_lt
  have hblank : c.rowCells s.row = blankRow := by
    have hfree := s.free s.row (Nat.le_refl _) hlt
    rw [← H.rows, getElem?_rows c hlt] at hfree
    exact Option.some.inj hfree
  obtain ⟨hrows, hcursor⟩ := rows_putLine hlt H.cursor hblank line
  rw [H.rows] at hrows
  rw [Antagonist.shellPrintLine]
  by_cases hroom : s.row + 1 < 25
  · obtain ⟨hnext, hrow⟩ := Screen.print_of_lt line.row hroom
    rw [scrollScreen, if_neg (by rw [hcursor]; omega)]
    exact ⟨hrows.trans hnext.symm, hcursor.trans (congrArg _ hrow.symm)⟩
  · obtain ⟨hnext, hrow⟩ := Screen.print_of_last line.row hroom
    have hover : 4000 ≤ (line.text.foldl
        (fun c character => c.put character line.color) c).nextRow.cursorPosition := by
      rw [hcursor]
      omega
    refine ⟨?_, ?_⟩
    · rw [rows_scrollScreen hover, hnext, ← hrows]
      rfl
    · rw [(cell_scrollScreen hover).2, hrow]
      omega

theorem Console.Follows.printLines {s : Screen (List Cell) 25 blankRow} (H : c.Follows s)
    (lines : List PrintedLine) : (printLines c lines).Follows
      ((lines.map PrintedLine.row).foldl (fun s row => s.print row) s) := by
  induction lines generalizing c s with
  | nil => exact H
  | cons line lines ih => exact ih (H.shellPrintLine line)

theorem follows_clearedConsole (videoMemory : Nat → Byte) :
    (clearedConsole videoMemory).Follows (Screen.start 25 blankRow 10 (by omega)) := by
  have hcell := cell_blankLoop (show 0 = 2 * 0 from rfl) ⟨videoMemory, 1600⟩ 2000
  simp only [Nat.zero_add, Nat.zero_le, true_and] at hcell
  refine ⟨?_, ?_⟩
  · refine map_range_eq List.length_replicate ?_
    intro r hr
    show (List.replicate 25 blankRow)[r]? = _
    rw [List.getElem?_replicate, if_pos hr]
    refine congrArg some (rowCells_eq_blankRow.mpr ?_).symm
    intro x hx
    exact (hcell _).trans (if_pos (by omega))
  · exact cursorPosition_clearScreen _

theorem length_scrollLog (lines : List PrintedLine) :
    (scrollLog lines).length = 10 + lines.length + 1 := by
  rw [scrollLog]
  rw [List.length_append, List.length_append, List.length_replicate, List.length_map,
    List.length_singleton]

/-- **What is on the screen** after any number of calls. -/
theorem showsLog_printLines (videoMemory : Nat → Byte) (lines : List PrintedLine) :
    (printLines (clearedConsole videoMemory) lines).ShowsLog lines := by
  have H := (follows_clearedConsole videoMemory).printLines lines
  have hstart : Shows (Screen.start 25 blankRow 10 (by omega)) (List.replicate 10 blankRow) :=
    shows_start (by omega)
  have S := hstart.foldl (lines.map PrintedLine.row)
  generalize (lines.map PrintedLine.row).foldl (fun s row => s.print row)
    (Screen.start 25 blankRow 10 (by omega)) = s at H S
  have hrow : s.row = freshRow lines := by
    rw [S.row, freshRow, length_scrollLog, List.length_append, List.length_replicate,
      List.length_map]
  exact {
    rows := H.rows.trans S.rows
    cursor := by rw [H.cursor, hrow]
    fresh := by
      rw [H.rows, ← hrow]
      exact s.free s.row (Nat.le_refl _) s.row_lt }

end

end Antagonist
