import Antagonist.Shell.CommandLine
import Antagonist.Shell.Stores

/-!
# The cursor and the arrays of the shell

`cmd_index` and `cursor_position` are two counters, and no branch of the handler
compares them.  `Prompt` is the relation between them: the line starts in column
0 of some row, and the cursor is as many cells behind it as there are characters
in `cmd_buffer`.

* `prompt_inBounds`: the relation holds after every interrupt, and every store of
  the handler stays inside its array.
-/

namespace Antagonist

open ByteMem Logged

/-- The cursor is `k` cells behind the start of a row. -/
def Console.InRow (c : Console) (k : Nat) : Prop :=
  ∃ R, R % 160 = 0 ∧ 1600 ≤ R ∧ R ≤ 3840 ∧ c.cursorPosition = R + 2 * k

/-- The line in `cmd_buffer` is the one on the screen. -/
structure Prompt {δ : Type} (s : Shell δ) : Prop where
  index : s.cmdIndex ≤ 63
  row : s.console.InRow s.cmdIndex

/-! ### The console -/

section

variable {c : Console} {k : Nat}

theorem pokeL_inBounds {i : Nat} (hi : i < 4000) (v : Byte) : (c.pokeL i v).All Store.InBounds :=
  (all_entry _ _).mpr hi

theorem Console.InRow.putL (h : c.InRow k) (hk : k < 80) (character color : Byte) :
    (c.putL character color).All Store.InBounds ∧ (c.put character color).InRow (k + 1) := by
  obtain ⟨R, hR, hlo, hhi, hc⟩ := h
  have hlt : c.cursorPosition + 1 < 4000 := by omega
  have hone : add32 c.cursorPosition 1 = c.cursorPosition + 1 := by unfold add32; omega
  have htwo : add32 c.cursorPosition 2 = c.cursorPosition + 2 := by unfold add32; omega
  refine ⟨?_, R, hR, hlo, hhi, ?_⟩
  · rw [Console.putL]
    simp only [all_bind, all_pure, and_true]
    refine ⟨pokeL_inBounds (by omega) _, pokeL_inBounds ?_ _⟩
    show add32 c.cursorPosition 1 < 4000
    rw [hone]
    exact hlt
  · show add32 c.cursorPosition 2 = R + 2 * (k + 1)
    omega

theorem Console.InRow.putLine (text : List Byte) (color : Byte) (h : c.InRow k)
    (hk : k + text.length ≤ 80) :
    (Logged.foldl (fun c character => c.putL character color) c text).All Store.InBounds ∧
      (text.foldl (fun c character => c.put character color) c).InRow (k + text.length) := by
  induction text generalizing c k with
  | nil => exact ⟨all_pure c, h⟩
  | cons character text ih =>
    rw [List.length_cons] at hk ⊢
    obtain ⟨hall, hrow⟩ := h.putL (by omega) character color
    obtain ⟨hrest, hend⟩ := ih hrow (by omega)
    refine ⟨(all_bind _ _).mpr ⟨hall, hrest⟩, ?_⟩
    rw [← Nat.succ_add_eq_add_succ]
    exact hend

theorem blankLoop_inBounds {base n : Nat} (hbase : base + 2 * n ≤ 4000) (c : Console) :
    (Logged.foldl (fun c j => do
      let c ← c.pokeL (base + 2 * j) 0x20
      c.pokeL (base + 2 * j + 1) 0x07) c (List.range n)).All Store.InBounds := by
  refine (all_foldl (fun _ => True) trivial fun c j hj _ => ⟨?_, trivial⟩).1
  have hj' := List.mem_range.mp hj
  rw [all_bind]
  exact ⟨pokeL_inBounds (by omega) _, pokeL_inBounds (by omega) _⟩

theorem scrollScreenL_inBounds (c : Console) : (scrollScreenL c).All Store.InBounds := by
  rw [scrollScreenL]
  split
  · simp only [all_bind, all_pure, and_true]
    refine ⟨?_, blankLoop_inBounds (le_refl 4000) _⟩
    refine (all_foldl (fun _ => True) trivial fun c i hi _ => ⟨?_, trivial⟩).1
    have hi' := List.mem_range.mp hi
    exact pokeL_inBounds (by omega) _
  · exact all_pure c

/-- A fresh row, at the bottom of the screen if there is none below.  The cursor may be behind the
screen already. -/
theorem inRow_scroll_of_le (h0 : 1600 ≤ c.cursorPosition) (h1 : c.cursorPosition < 2 ^ 31) :
    (scrollScreen c.nextRow).InRow 0 := by
  have hnext : c.nextRow.cursorPosition = (c.cursorPosition / 160 + 1) * 160 := by
    show (c.cursorPosition / 160 + 1) * 160 % 2 ^ 32 = _
    exact Nat.mod_eq_of_lt (by omega)
  by_cases hover : 4000 ≤ c.nextRow.cursorPosition
  · rw [scrollScreen, if_pos hover]
    exact ⟨3840, rfl, by decide, le_refl _, rfl⟩
  · rw [scrollScreen, if_neg hover]
    rw [hnext] at hover
    have hlo : 1600 ≤ (c.cursorPosition / 160 + 1) * 160 := by omega
    have hhi : (c.cursorPosition / 160 + 1) * 160 ≤ 3840 := by omega
    exact ⟨_, Nat.mul_mod_left _ _, hlo, hhi, hnext⟩

theorem Console.InRow.scroll (h : c.InRow k) (hk : k < 80) : (scrollScreen c.nextRow).InRow 0 := by
  obtain ⟨R, -, hlo, hhi, hc⟩ := h
  exact inRow_scroll_of_le (by omega) (by omega)

theorem Console.InRow.shellPrintLineL (h : c.InRow 0) {text : List Byte} (ht : text.length < 80)
    (color : Byte) : (shellPrintLineL text color c).All Store.InBounds ∧
      (shellPrintLine text color c).InRow 0 := by
  obtain ⟨hall, hrow⟩ := h.putLine text color (by omega)
  refine ⟨(all_bind _ _).mpr ⟨hall, scrollScreenL_inBounds _⟩, ?_⟩
  exact hrow.scroll (by omega)

theorem clearScreenL_inBounds (c : Console) : (clearScreenL c).All Store.InBounds := by
  rw [clearScreenL]
  simp only [all_bind, all_pure, and_true]
  exact blankLoop_inBounds (le_refl 4000) c

theorem clearScreen_inRow (c : Console) : (clearScreen c).InRow 0 :=
  ⟨1600, rfl, le_refl _, by decide, rfl⟩

theorem Console.InRow.echoPadL (pad : Nat → Byte) {m : Nat} (hm : pad m = 0) :
    ∀ (n i : Nat) {c : Console} {k : Nat}, c.InRow k → i ≤ m → k + (m - i) ≤ 80 →
    (echoPadL pad n i c).All Store.InBounds ∧ ∃ k' ≤ k + (m - i), (echoPad pad n i c).InRow k' := by
  intro n
  induction n with
  | zero => exact fun i c k h _ _ => ⟨all_pure c, k, by omega, h⟩
  | succ n ih =>
    intro i c k h him hk
    rw [Antagonist.echoPadL, echoPad]
    by_cases hi : pad i ≠ 0
    · have hne : i ≠ m := fun h => hi (h ▸ hm)
      rw [if_pos hi, if_pos hi, all_bind]
      obtain ⟨hall, hrow⟩ := h.putL (by omega) (pad i) 0x0D
      obtain ⟨hrest, k', hk', hend⟩ := ih (i + 1) hrow (by omega) (by omega)
      exact ⟨⟨hall, hrest⟩, k', by omega, hend⟩
    · rw [if_neg hi, if_neg hi]
      exact ⟨all_pure c, k, by omega, h⟩

end

/-! ### Numbers and replies -/

theorem length_cString_le {a : Nat → Byte} {n m : Nat} (hm : m < n) (h : a m = 0) :
    (cString a n).length ≤ m := by
  obtain ⟨r, rfl⟩ : ∃ r, n = m + (r + 1) := ⟨n - m - 1, by omega⟩
  have hsplit : (List.range (m + (r + 1))).map a =
      (List.range m).map a ++ (0 :: (List.range r).map fun j => a (m + (j + 1))) := by
    rw [List.range_add, List.map_append, List.range_succ_eq_map, List.map_cons, List.map_cons,
      List.map_map, List.map_map, Nat.add_zero, h]
    rfl
  rw [cString]
  rw [hsplit, List.takeWhile_append]
  have hle := (List.takeWhile_prefix (p := fun c : Byte => decide (c ≠ 0))
    (l := (List.range m).map a)).length_le
  split
  · simp
  · simpa using hle

theorem uintToDecLoopL_inBounds : ∀ (fuel k value : Nat) (scratch : Nat → Byte) (len : Nat),
    value < 10 ^ (k + 1) → len + k < 10 →
    (uintToDecLoopL fuel value scratch len).All Store.InBounds ∧
      (uintToDecLoop fuel value scratch len).2 ≤ len + k + 1 := by
  intro fuel
  induction fuel with
  | zero => exact fun k value scratch len _ _ => ⟨all_pure _, by rw [uintToDecLoop]; omega⟩
  | succ fuel ih =>
    intro k value scratch len hvalue hlen
    rw [uintToDecLoopL, uintToDecLoop, all_bind, all_entry, val_entry]
    have hin : Store.InBounds (.scratch len) := show len < 10 by omega
    by_cases hmore : 0 < value / 10
    · rw [if_pos hmore, if_pos hmore]
      cases k with
      | zero => omega
      | succ k =>
        obtain ⟨hall, hlen'⟩ := ih k (value / 10)
          (Function.update scratch len (BitVec.ofNat 8 (0x30 + value % 10))) (len + 1)
          (by rw [pow_succ] at hvalue; omega) (by omega)
        exact ⟨⟨hin, hall⟩, by omega⟩
    · rw [if_neg hmore, if_neg hmore]
      exact ⟨⟨hin, all_pure _⟩, by show len + 1 ≤ _; omega⟩

theorem uintToDecL_inBounds {k value : Nat} (hvalue : value < 10 ^ (k + 1)) (hk : k < 10)
    (out : Nat → Byte) : (uintToDecL value out).All Store.InBounds ∧
      (cString (uintToDec value out).1 11).length ≤ k + 1 := by
  obtain ⟨hall, hlen⟩ := uintToDecLoopL_inBounds (value + 1) k value (fun _ => 0) 0 hvalue (by omega)
  have hval := val_uintToDecLoopL (value + 1) value (fun _ => 0) 0
  refine ⟨?_, ?_⟩
  · rw [uintToDecL]
    simp only [all_bind, all_pure, all_entry, and_true, hval]
    refine ⟨hall, ?_, show _ < 11 by omega⟩
    refine (all_foldl (fun _ => True) trivial fun out j hj _ => ⟨?_, trivial⟩).1
    have hj' := List.mem_range.mp hj
    exact (all_entry _ _).mpr (show j < 11 by omega)
  · refine le_trans (length_cString_le (m := (uintToDec value out).2) ?_ ?_) ?_
    · show (uintToDecLoop (value + 1) value (fun _ => 0) 0).2 < 11
      omega
    · exact Function.update_self _ _ _
    · show (uintToDecLoop (value + 1) value (fun _ => 0) 0).2 ≤ k + 1
      omega

/-- The reply is a string of at most `n` characters. -/
structure Reply.Fits (r : Reply) (n : Nat) : Prop where
  pos : r.pos ≤ n
  nul : r.reply r.pos = 0

theorem appendStrL_inBounds : ∀ (src : List Byte) (dest : Nat → Byte) (pos : Nat),
    pos + src.length < 160 → (appendStrL dest pos src).All Store.InBounds ∧
      (appendStr dest pos src).2 = pos + src.length ∧
      (appendStr dest pos src).1 (pos + src.length) = 0 := by
  intro src
  induction src with
  | nil =>
    intro dest pos hpos
    have hin : Store.InBounds (.reply pos) := hpos
    rw [appendStrL, appendStr, all_bind, all_entry]
    exact ⟨⟨hin, all_pure _⟩, rfl, Function.update_self _ _ _⟩
  | cons c src ih =>
    intro dest pos hpos
    rw [List.length_cons] at hpos ⊢
    have hin : Store.InBounds (.reply pos) := show pos < 160 by omega
    have hroom : pos < 159 := by omega
    have hend : pos + (src.length + 1) = pos + 1 + src.length := by omega
    rw [appendStrL, appendStr, if_pos hroom, if_pos hroom, all_bind, all_entry, val_entry, hend]
    obtain ⟨hall, hrest⟩ := ih (Function.update dest pos c) (pos + 1) (by omega)
    exact ⟨⟨hin, hall⟩, hrest⟩

namespace Reply

variable {r : Reply} {n : Nat}

theorem start_fits : start.Fits 0 := ⟨le_refl 0, rfl⟩

theorem Fits.appendL (h : r.Fits n) (src : List Byte) {k : Nat} (hk : src.length ≤ k)
    (hroom : n + k < 160) :
    (r.appendL src).All Store.InBounds ∧ (r.append src).Fits (n + k) := by
  have hpos := h.pos
  obtain ⟨hall, hend, hnul⟩ := appendStrL_inBounds src r.reply r.pos (by omega)
  refine ⟨(all_bind _ _).mpr ⟨hall, all_pure _⟩, ?_, ?_⟩
  · show (appendStr r.reply r.pos src).2 ≤ n + k
    omega
  · show (appendStr r.reply r.pos src).1 (appendStr r.reply r.pos src).2 = 0
    rw [hend, hnul]

theorem Fits.appendNumL (h : r.Fits n) {value : BitVec 32} {k : Nat}
    (hvalue : value.toNat < 10 ^ (k + 1)) (hk : k < 10) (hroom : n + (k + 1) < 160) :
    (r.appendNumL value).All Store.InBounds ∧ (r.appendNum value).Fits (n + (k + 1)) := by
  obtain ⟨hall, hlen⟩ := uintToDecL_inBounds hvalue hk r.num
  have h' : Reply.Fits { r with num := (uintToDec value.toNat r.num).1 } n := ⟨h.pos, h.nul⟩
  obtain ⟨hrest, hfits⟩ := h'.appendL _ hlen hroom
  refine ⟨(all_bind _ _).mpr ⟨hall, ?_⟩, hfits⟩
  rw [val_uintToDecL]
  exact hrest

theorem Fits.length_text (h : r.Fits n) (hn : n < 160) : r.text.length ≤ n :=
  le_trans (length_cString_le (lt_of_le_of_lt h.pos hn) h.nul) h.pos

end Reply

/-- What the kernel promises for the counts that `meminfo` prints. -/
def Interrupt.PagesOk (i : Interrupt) : Prop :=
  i.totalPages.toNat ≤ 2 ^ 20 ∧ i.usedPages.toNat ≤ i.totalPages.toNat

theorem uptimeReplyL_inBounds (i : Interrupt) :
    (uptimeReplyL i).All Store.InBounds ∧ (uptimeReply i).length ≤ 63 := by
  have hseconds : (i.timerTicks / 100).toNat < 10 ^ (7 + 1) := by
    have hlt := i.timerTicks.isLt
    rw [BitVec.toNat_udiv]
    show i.timerTicks.toNat / 100 < _
    omega
  have hticks : i.timerTicks.toNat < 10 ^ (9 + 1) := by
    have hlt := i.timerTicks.isLt
    omega
  obtain ⟨h1, f1⟩ := Reply.start_fits.appendL (ascii ">> Uptime: ") (k := 11)
    (by decide) (by decide)
  obtain ⟨h2, f2⟩ := f1.appendNumL hseconds (by decide) (by decide)
  obtain ⟨h3, f3⟩ := f2.appendL (ascii " seconds (") (k := 10) (by decide) (by decide)
  obtain ⟨h4, f4⟩ := f3.appendNumL hticks (by decide) (by decide)
  obtain ⟨h5, f5⟩ := f4.appendL (ascii " hardware ticks @ 100Hz)") (k := 24)
    (by decide) (by decide)
  refine ⟨?_, ?_⟩
  · rw [uptimeReplyL]
    simp only [all_bind, all_pure, and_true, val_appendL, val_appendNumL]
    exact ⟨h1, h2, h3, h4, h5⟩
  · exact f5.length_text (by decide)

theorem meminfoReplyL_inBounds {i : Interrupt} (hi : i.PagesOk) :
    (meminfoReplyL i).All Store.InBounds ∧ (meminfoReply i).length ≤ 77 := by
  obtain ⟨htotal, hused⟩ := hi
  have hu : i.usedPages.toNat < 10 ^ (6 + 1) := by omega
  have ht : i.totalPages.toNat < 10 ^ (6 + 1) := by omega
  have hfree : ((i.totalPages - i.usedPages) * 4).toNat < 10 ^ (6 + 1) := by
    rw [BitVec.toNat_mul, BitVec.toNat_sub]
    show (2 ^ 32 - i.usedPages.toNat + i.totalPages.toNat) % 2 ^ 32 * 4 % 2 ^ 32 < _
    omega
  have hthreads : i.threadCount.toNat < 10 ^ (9 + 1) := by
    have hlt := i.threadCount.isLt
    omega
  obtain ⟨h1, f1⟩ := Reply.start_fits.appendL (ascii ">> Memory: ") (k := 11)
    (by decide) (by decide)
  obtain ⟨h2, f2⟩ := f1.appendNumL hu (by decide) (by decide)
  obtain ⟨h3, f3⟩ := f2.appendL (ascii "/") (k := 1) (by decide) (by decide)
  obtain ⟨h4, f4⟩ := f3.appendNumL ht (by decide) (by decide)
  obtain ⟨h5, f5⟩ := f4.appendL (ascii " pages used | ") (k := 14) (by decide) (by decide)
  obtain ⟨h6, f6⟩ := f5.appendNumL hfree (by decide) (by decide)
  obtain ⟨h7, f7⟩ := f6.appendL (ascii " KB free | Threads: ") (k := 20)
    (by decide) (by decide)
  obtain ⟨h8, f8⟩ := f7.appendNumL hthreads (by decide) (by decide)
  refine ⟨?_, ?_⟩
  · rw [meminfoReplyL]
    simp only [all_bind, all_pure, and_true, val_appendL, val_appendNumL]
    exact ⟨h1, h2, h3, h4, h5, h6, h7, h8⟩
  · exact f8.length_text (by decide)

/-! ### The handler -/

/-- What was written to sector 1 is what is read from it. -/
def Ata.ReadsBack {δ : Type} (ata : Ata δ) : Prop :=
  ∀ pad drive, ∀ j < 512, (ata.readSector 1 (ata.writeSector 1 pad drive)).1 j = pad j

section

variable {δ : Type} {ata : Ata δ} {i : Interrupt} {s : Shell δ}

theorem diskTestL_inBounds (hata : ata.ReadsBack) (h : s.console.InRow 0) :
    (diskTestL ata s).All Store.InBounds ∧ (diskTest ata s).console.InRow 0 := by
  let pad := secretPad s.diskTestPad
  let echo := fun j => if j < 512 then (ata.readSector 1 (ata.writeSector 1 pad s.drive)).1 j else pad j
  -- the text is 62 characters, and a NUL follows
  have hnul : echo 62 = 0 := by
    show (if 62 < 512 then (ata.readSector 1 (ata.writeSector 1 pad s.drive)).1 62 else pad 62) = 0
    rw [if_pos (by decide), hata _ _ 62 (by decide)]
    show (if 62 < 512 then secretText.getD 62 0 else s.diskTestPad 62) = 0
    rw [if_pos (by decide)]
    decide
  obtain ⟨hall, k, hk, hrow⟩ := Console.InRow.echoPadL echo hnul 512 0 h (Nat.zero_le _) (by decide)
  have hlast := hrow.scroll (by omega)
  refine ⟨?_, ?_⟩
  · simp only [diskTestL, all_bind, all_pure, and_true]
    exact ⟨hall, scrollScreenL_inBounds _⟩
  · simp only [diskTest]
    exact hlast

theorem printReplyL_inBounds (h : s.console.InRow 0) {text : List Byte} (ht : text.length < 80)
    (color : Byte) : (printReplyL s text color).All Store.InBounds ∧
      (shellPrintLine text color s.console).InRow 0 := by
  obtain ⟨hall, hrow⟩ := h.shellPrintLineL ht color
  exact ⟨(all_bind _ _).mpr ⟨hall, all_pure _⟩, hrow⟩

/-- **Every command** leaves the cursor at the start of a row. -/
theorem runActionL_inBounds (hata : ata.ReadsBack) (hi : i.PagesOk) (h : s.console.InRow 0)
    (a : Action) : (runActionL ata i s a).All Store.InBounds ∧
      (runAction ata i s a).console.InRow 0 := by
  cases a with
  | run c =>
    cases c with
    | help => exact printReplyL_inBounds h (by decide) 0x0D
    | uptime =>
      obtain ⟨hall, hlen⟩ := uptimeReplyL_inBounds i
      obtain ⟨hprint, hrow⟩ := printReplyL_inBounds h (lt_of_le_of_lt hlen (by decide)) 0x0B
      refine ⟨(all_bind _ _).mpr ⟨hall, ?_⟩, hrow⟩
      rw [val_uptimeReplyL]
      exact hprint
    | meminfo =>
      obtain ⟨hall, hlen⟩ := meminfoReplyL_inBounds hi
      obtain ⟨hprint, hrow⟩ := printReplyL_inBounds h (lt_of_le_of_lt hlen (by decide)) 0x0B
      refine ⟨(all_bind _ _).mpr ⟨hall, ?_⟩, hrow⟩
      rw [val_meminfoReplyL]
      exact hprint
    | clear =>
      exact ⟨(all_bind _ _).mpr ⟨clearScreenL_inBounds _, all_pure _⟩, clearScreen_inRow _⟩
    | disktest => exact diskTestL_inBounds hata h
  | notFound => exact printReplyL_inBounds h (by decide) 0x0D
  | nothing => exact ⟨all_pure s, h⟩

theorem clearShellCommandL_inBounds (s : Shell δ) : (clearShellCommandL s).All Store.InBounds := by
  rw [clearShellCommandL]
  simp only [all_bind, all_pure, and_true]
  refine (all_foldl (fun _ => True) trivial fun b j hj _ => ⟨?_, trivial⟩).1
  exact (all_entry _ _).mpr (List.mem_range.mp hj)

theorem enterKeyL_inBounds (hata : ata.ReadsBack) (hi : i.PagesOk) (h : Prompt s) :
    (enterKeyL ata i s).All Store.InBounds ∧ Prompt (enterKey ata i s) := by
  have hidx := h.index
  have hend : (endLineL s).All Store.InBounds := by
    rw [endLineL]
    simp only [all_bind, all_entry, all_pure, and_true]
    exact ⟨show s.cmdIndex < 64 by omega, scrollScreenL_inBounds _⟩
  have hrow : (endLine s).console.InRow 0 := h.row.scroll (by omega)
  obtain ⟨hall, hrow'⟩ := runActionL_inBounds hata hi hrow (enterAction s)
  refine ⟨?_, ?_⟩
  · rw [enterKeyL]
    simp only [all_bind, val_endLineL]
    exact ⟨hend, hall, clearShellCommandL_inBounds _⟩
  · exact ⟨Nat.zero_le 63, hrow'⟩

theorem backspaceKeyL_inBounds (h : Prompt s) (hpos : 0 < s.cmdIndex) :
    (backspaceKeyL s).All Store.InBounds ∧ Prompt (backspaceKey s) := by
  have hidx := h.index
  obtain ⟨R, hR, hlo, hhi, hc⟩ := h.row
  have hcursor : sub32 s.console.cursorPosition 2 = R + 2 * (s.cmdIndex - 1) := by
    rw [sub32]
    omega
  refine ⟨?_, ?_⟩
  · rw [backspaceKeyL]
    simp only [all_bind, all_entry, all_pure, and_true]
    refine ⟨show s.cmdIndex - 1 < 64 by omega, pokeL_inBounds ?_ _⟩
    omega
  · exact ⟨show s.cmdIndex - 1 ≤ 63 by omega, R, hR, hlo, hhi, hcursor⟩

theorem characterKeyL_inBounds (h : Prompt s) (hroom : s.cmdIndex < 63) (character : Byte) :
    (characterKeyL s character).All Store.InBounds ∧ Prompt (characterKey s character) := by
  obtain ⟨hall, hrow⟩ := h.row.putL (by omega) character 0x0E
  refine ⟨?_, ?_⟩
  · rw [characterKeyL]
    simp only [all_bind, all_entry, all_pure, and_true]
    exact ⟨show s.cmdIndex < 64 by omega, hall⟩
  · exact ⟨show s.cmdIndex + 1 ≤ 63 by omega, hrow⟩

/-- **One interrupt.** -/
theorem keyboardHandlerL_inBounds (hata : ata.ReadsBack) (hi : i.PagesOk) (h : Prompt s) :
    (keyboardHandlerL ata i s).All Store.InBounds ∧ Prompt (keyboardHandler ata i s) := by
  rw [keyboardHandlerL, keyboardHandler]
  by_cases hbreak : i.scancode &&& 0x80 ≠ 0
  · rw [if_pos hbreak, if_pos hbreak]
    exact ⟨all_pure _, h.index, h.row⟩
  rw [if_neg hbreak, if_neg hbreak, all_bind]
  have hkey : Prompt (sendEoi (setKey s i.scancode 1)) := ⟨h.index, h.row⟩
  generalize sendEoi (setKey s i.scancode 1) = t at hkey ⊢
  rw [keyDownL]
  simp only [all_pure, and_true]
  by_cases henter : kbdUs i.scancode = 10
  · rw [if_pos henter, if_pos henter]
    obtain ⟨hall, hnext⟩ := enterKeyL_inBounds hata hi hkey
    exact ⟨hall, hnext.index, hnext.row⟩
  rw [if_neg henter, if_neg henter]
  by_cases hback : kbdUs i.scancode = 8 ∧ 0 < t.cmdIndex
  · rw [if_pos hback, if_pos hback]
    obtain ⟨hall, hnext⟩ := backspaceKeyL_inBounds hkey hback.2
    exact ⟨hall, hnext.index, hnext.row⟩
  rw [if_neg hback, if_neg hback]
  by_cases hchar : kbdUs i.scancode ≠ 0 ∧ t.cmdIndex < 63
  · rw [if_pos hchar, if_pos hchar]
    obtain ⟨hall, hnext⟩ := characterKeyL_inBounds hkey hchar.2 (kbdUs i.scancode)
    exact ⟨hall, hnext.index, hnext.row⟩
  · rw [if_neg hchar, if_neg hchar]
    exact ⟨all_pure t, hkey.index, hkey.row⟩

end

/-! ### All interrupts -/

section

variable {δ : Type} {ata : Ata δ} {s₀ : Shell δ} {ins : List Interrupt}

theorem prompt_afterKeys (hata : ata.ReadsBack) (hboot : s₀.console.cursorPosition = 1600)
    (hins : ∀ i ∈ ins, i.PagesOk) : Prompt (afterKeys ata s₀ ins) := by
  induction ins using List.reverseRecOn with
  | nil => exact ⟨Nat.zero_le 63, 1600, rfl, le_refl _, by decide, hboot⟩
  | append_singleton ins i ih =>
    rw [afterKeys_snoc]
    have hbefore := ih fun j hj => hins j (List.mem_append_left _ hj)
    have hi := hins i (List.mem_append_right _ (List.mem_singleton_self i))
    exact (keyboardHandlerL_inBounds hata hi hbefore).2

/-- **The cursor stays with the line, and every store in its array**, whatever
is typed. -/
theorem prompt_inBounds (hata : ata.ReadsBack) (hboot : s₀.console.cursorPosition = 1600)
    (hins : ∀ i ∈ ins, i.PagesOk) :
    ∀ A i B, ins = A ++ i :: B → Prompt (afterKeys ata s₀ (A ++ [i])) ∧
      (keyboardHandlerL ata i (afterKeys ata s₀ A)).All Store.InBounds := by
  intro A i B hsplit
  have hA : ∀ j ∈ A, j.PagesOk := fun j hj => hins j (hsplit ▸ List.mem_append_left _ hj)
  have hi : i.PagesOk := hins i (hsplit ▸ List.mem_append_right _ List.mem_cons_self)
  rw [afterKeys_snoc]
  obtain ⟨hall, hnext⟩ := keyboardHandlerL_inBounds hata hi (prompt_afterKeys hata hboot hA)
  exact ⟨hnext, hall⟩

end

def memoryDisk : Ata (Nat → Nat → Byte) :=
  ⟨fun lba buffer drive => Function.update drive lba buffer, fun lba drive => (drive lba, drive)⟩

theorem memoryDisk_readsBack : memoryDisk.ReadsBack := by
  intro pad drive j _
  show Function.update drive 1 pad 1 j = pad j
  rw [Function.update_self]

/-- Two keys and an Enter, with a full machine. -/
theorem prompt_inBounds_hi :
    Prompt (afterKeys memoryDisk { bootShell with drive := fun _ _ => 0 }
      ([⟨0x23, 0, 0, 0, 0⟩, ⟨0x17, 7, 0, 0, 1⟩] ++ [⟨0x1C, 8, 0x100000, 0x100000, 2⟩])) ∧
    (keyboardHandlerL memoryDisk ⟨0x1C, 8, 0x100000, 0x100000, 2⟩
      (afterKeys memoryDisk { bootShell with drive := fun _ _ => 0 }
        [⟨0x23, 0, 0, 0, 0⟩, ⟨0x17, 7, 0, 0, 1⟩])).All Store.InBounds := by
  refine prompt_inBounds memoryDisk_readsBack rfl ?_ [⟨0x23, 0, 0, 0, 0⟩, ⟨0x17, 7, 0, 0, 1⟩]
    ⟨0x1C, 8, 0x100000, 0x100000, 2⟩ [] rfl
  intro i hi
  simp only [List.cons_append, List.nil_append, List.mem_cons, List.not_mem_nil, or_false] at hi
  obtain rfl | rfl | rfl := hi <;> exact ⟨by decide, by decide⟩

end Antagonist
