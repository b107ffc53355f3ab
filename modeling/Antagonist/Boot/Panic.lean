import Antagonist.Boot.Start
import Antagonist.Graphics.Buffer
import Antagonist.Lib.Canvas
import Antagonist.Lib.Exception

/-!
# Exceptions

`divide_by_zero_handler` of `kernel/idt.cpp`, and what becomes of the other exceptions.  `init_idt`
sets no gate for them, nor for what a missing gate raises: the processor shuts down, which resets
the machine.  A page fault is such an exception, and so is any access from 4 MiB on.

* `lays_idtPanicPrint`, `panicShown_divideByZeroHandler`: the screen of a divide error.
* `exceptions_end`: **what an exception leads to**, whatever the threads have done since the boot.
-/

namespace Antagonist

open ByteMem Segment Paging Footprint Canvas Exception

/-! ### The handler -/

/-- The loop of `idt_panic_print`. -/
def panicPrintFrom (attr : Byte) : List Byte → Nat → Mem → Mem
  | [], _, m => m
  | c :: str, index, m =>
      panicPrintFrom attr str (index + 2)
        (store8 (store8 m (0xB8000 + index) c) (0xB8000 + (index + 1)) attr)

def idtPanicPrint (row col : Nat) (str : List Byte) (attr : Byte) (m : Mem) : Mem :=
  panicPrintFrom attr str ((row * 80 + col) * 2) m

/-- The arguments of a call of `idt_panic_print`. -/
structure PanicLine where
  row : Nat
  col : Nat
  str : List Byte
  attr : Byte

/-- The calls in `divide_by_zero_handler`. -/
def panicLines : List PanicLine :=
  [⟨2, 15, ascii "!!!!!!!!!!!!!!!!!!!!!!!!!!!!!!!!==================", 0x4F⟩,
    ⟨3, 15, ascii "  CRITICAL KERNEL EXCEPTION INTERCEPTED: PANIC!!  ", 0x4F⟩,
    ⟨4, 15, ascii "!!!!!!!!!!!!!!!!!!!!!!!!!!!!!!!!==================", 0x4F⟩,
    ⟨7, 15, ascii "SYSTEM IRQ VECTORS STATUS: TERMINATED EXCEPTION 0x00", 0x0F⟩,
    ⟨9, 15, ascii "FAULT DESCRIPTION: CORE DIVIDE BY ZERO CALCULATION ERROR", 0x0E⟩,
    ⟨11, 15, ascii "CPU STATE LATCH FLAGS  : INT_MASKED; RING_0_PRIVILEGED", 0x07⟩,
    ⟨13, 15, ascii "ACTIVE SYSTEM RUN MODE : MONOLITHIC MASTER GATEWAY RESET", 0x07⟩,
    ⟨16, 15, ascii "==================================================", 0x4F⟩,
    ⟨17, 18, ascii "ANTAGONIST CORE SUSPENDED SAFELY. HALT CALLED.", 0x0B⟩,
    ⟨18, 15, ascii "==================================================", 0x4F⟩]

/-- `divide_by_zero_handler`, up to the loop in which it halts with interrupts off.  It wipes the
screen with the same loop as `clear_screen`. -/
def divideByZeroHandler (m : Mem) : Mem :=
  panicLines.foldl (fun m l => idtPanicPrint l.row l.col l.str l.attr m) (clearScreenMem m)

/-! ### Its screen -/

def textFilm (attr : Byte) (str : List Byte) (index : Nat) : Film Nat Byte := fun p =>
  if 0xB8000 + index ≤ p ∧ p < 0xB8000 + index + 2 * str.length then
    if (p - (0xB8000 + index)) % 2 = 0 then str[(p - (0xB8000 + index)) / 2]? else some attr
  else none

theorem lays_panicPrintFrom (attr : Byte) (str : List Byte) {index : Nat}
    (hfits : index + 2 * str.length ≤ 4000) :
    Lays (panicPrintFrom attr str index) (textFilm attr str index) := by
  induction str generalizing index with
  | nil =>
    intro m p
    rw [textFilm, if_neg (by simp only [List.length_nil]; omega)]
    rfl
  | cons c str ih =>
    intro m p
    rw [List.length_cons] at hfits
    have hrest := @ih (index + 2) (by omega)
      (store8 (store8 m (0xB8000 + index) c) (0xB8000 + (index + 1)) attr) p
    rw [panicPrintFrom, hrest, textFilm, textFilm, List.length_cons]
    by_cases hlater : 0xB8000 + (index + 2) ≤ p
    · -- a later character, or behind the text
      have hsplit : p - (0xB8000 + index) = p - (0xB8000 + (index + 2)) + 2 := by omega
      rw [hsplit, Nat.add_mod_right, Nat.add_div_right _ (by decide),
        List.getElem?_cons_succ, store8_apply_ne _ _ (by omega), store8_apply_ne _ _ (by omega)]
      congr 1
      exact if_congr (by omega) rfl rfl
    rw [if_neg (by omega)]
    by_cases hchar : p = 0xB8000 + index
    · rw [hchar, if_pos (by omega), Nat.sub_self, if_pos (Nat.zero_mod 2), Nat.zero_div,
        store8_apply_ne _ _ (by omega), store8, if_pos (by omega)]
      rfl
    by_cases hattr : p = 0xB8000 + (index + 1)
    · have hodd : p - (0xB8000 + index) = 1 := by omega
      rw [if_pos (by omega), hodd, if_neg (by decide), hattr, store8, if_pos (by omega)]
      rfl
    · rw [if_neg (by omega), store8_apply_ne _ _ (by omega), store8_apply_ne _ _ (by omega)]

def PanicLine.cell (l : PanicLine) (i : Nat) : Nat := 0xB8000 + 2 * (l.row * 80 + l.col + i)

/-- The screen of a divide error: the lines, and grey blanks elsewhere. -/
structure PanicShown (m : Mem) : Prop where
  lines : ∀ l ∈ panicLines, ∀ i (hi : i < l.str.length),
    m (l.cell i) = l.str[i] ∧ m (l.cell i + 1) = l.attr
  rest : ∀ k < 2000, (∀ l ∈ panicLines, ∀ i < l.str.length, l.cell i ≠ 0xB8000 + 2 * k) →
    m (0xB8000 + 2 * k) = 0x20 ∧ m (0xB8000 + 2 * k + 1) = 0x07

def PanicLine.film (l : PanicLine) : Film Nat Byte :=
  textFilm l.attr l.str ((l.row * 80 + l.col) * 2)

theorem panicLines_fit : ∀ l ∈ panicLines, l.row < 25 ∧ l.col + l.str.length ≤ 80 := by
  decide +kernel

theorem eq_of_panicLine_row {l l' : PanicLine} (hl : l ∈ panicLines) (hl' : l' ∈ panicLines)
    (h : l.row = l'.row) : l = l' := by
  have hrows : (panicLines.map PanicLine.row).Nodup := by decide
  exact List.inj_on_of_nodup_map hrows hl hl' h

theorem lays_idtPanicPrint {l : PanicLine} (hl : l ∈ panicLines) :
    Lays (idtPanicPrint l.row l.col l.str l.attr) l.film := by
  have hfits := panicLines_fit l hl
  exact lays_panicPrintFrom _ _ (by omega)

theorem PanicLine.film_eq_none {l : PanicLine} {k b : Nat} (hb : b < 2)
    (h : ∀ i < l.str.length, l.cell i ≠ 0xB8000 + 2 * k) : l.film (0xB8000 + 2 * k + b) = none := by
  refine if_neg ?_
  rintro ⟨hlow, hhigh⟩
  refine h (k - (l.row * 80 + l.col)) (by omega) ?_
  rw [cell]
  omega

theorem PanicLine.film_cell {l : PanicLine} {i : Nat} (hi : i < l.str.length) :
    l.film (l.cell i) = some l.str[i] ∧ l.film (l.cell i + 1) = some l.attr := by
  have hchar : l.cell i - (0xB8000 + (l.row * 80 + l.col) * 2) = 2 * i := by rw [cell]; omega
  have hattr : l.cell i + 1 - (0xB8000 + (l.row * 80 + l.col) * 2) = 2 * i + 1 := by
    rw [cell]; omega
  have hin : 0xB8000 + (l.row * 80 + l.col) * 2 ≤ l.cell i ∧
      l.cell i + 1 < 0xB8000 + (l.row * 80 + l.col) * 2 + 2 * l.str.length := by rw [cell]; omega
  refine ⟨?_, ?_⟩
  · rw [film, textFilm, if_pos (by omega), hchar, if_pos (by omega),
      Nat.mul_div_cancel_left _ (by decide), List.getElem?_eq_getElem hi]
  · rw [film, textFilm, if_pos (by omega), hattr, if_neg (by omega)]

/-- **The screen of a divide error** does not depend on what was on it. -/
theorem panicShown_divideByZeroHandler (m : Mem) : PanicShown (divideByZeroHandler m) := by
  have hshow := lays_foldl (l := panicLines) (fun l hl => lays_idtPanicPrint hl) (clearScreenMem m)
  simp only at hshow
  refine ⟨?_, ?_⟩
  · intro l hl i hi
    -- only its own line is at a cell of the line
    have hown : ∀ b < 2, stack (panicLines.map PanicLine.film) (l.cell i + b) =
        l.film (l.cell i + b) := by
      intro b hb
      refine stack_map_eq hl ?_
      intro l' hl' hne
      have hrow : l'.row ≠ l.row := fun h => hne (eq_of_panicLine_row hl' hl h)
      have hfits := panicLines_fit l hl
      have hfits' := panicLines_fit l' hl'
      refine PanicLine.film_eq_none (k := l.row * 80 + l.col + i) hb ?_
      intro j hj
      rw [PanicLine.cell]
      omega
    have hchar := hown 0 (by decide)
    rw [Nat.add_zero] at hchar
    have hcell := PanicLine.film_cell hi
    rw [divideByZeroHandler, hshow, hshow, hchar, hown 1 (by decide), hcell.1, hcell.2]
    exact ⟨rfl, rfl⟩
  · intro k hk hfree
    have hnone : ∀ b < 2, stack (panicLines.map PanicLine.film) (0xB8000 + 2 * k + b) = none := by
      intro b hb
      refine stack_eq_none ?_
      intro film hfilm
      obtain ⟨l, hl, rfl⟩ := List.mem_map.mp hfilm
      exact PanicLine.film_eq_none hb (hfree l hl)
    have heven := hnone 0 (by decide)
    rw [Nat.add_zero] at heven
    rw [divideByZeroHandler, hshow, hshow, heven, hnone 1 (by decide), Option.getD_none,
      Option.getD_none]
    exact screenClear_clearScreenMem m k hk

/-! ### What exceptions lead to -/

def gatesAt (idt : Nat) (m : Mem) (v : Vector) : GateDescriptor := readGate m (idt + 8 * v.toNat)

/-- The vectors that `init_idt` and `kernel_main` set a gate for. -/
def HasGate (v : Vector) : Prop := v = 0 ∨ v = 32 ∨ v = 33 ∨ v = 0x80

instance (v : Vector) : Decidable (HasGate v) := inferInstanceAs (Decidable (_ ∨ _))

theorem gateFault_kernelGate (S : StubAddresses) (v : Vector) :
    gateFault (kernelGate S v) = if HasGate v then none else some generalProtection := by
  have hinterrupt : ∀ offset : Nat, gateFault ⟨offset, 0x08, 0, 0x8E⟩ = none := fun _ =>
    @gateFault_eq_none _ 0x8E rfl (by decide) (by decide)
  have hsyscall : ∀ offset : Nat, gateFault ⟨offset, 0x08, 0, 0xEE⟩ = none := fun _ =>
    @gateFault_eq_none _ 0xEE rfl (by decide) (by decide)
  by_cases h : HasGate v
  · rw [if_pos h]
    rcases h with rfl | rfl | rfl | rfl
    · exact hinterrupt _
    · exact hinterrupt _
    · exact hinterrupt _
    · exact hsyscall _
  · simp only [HasGate, not_or] at h
    rw [if_neg (by simpa only [HasGate, not_or] using h), kernelGate, if_neg h.2.2.2,
      if_neg h.2.2.1, if_neg h.2.1, if_neg h.1]
    rfl

/-- What memory says about exceptions and the accesses that raise them. -/
structure ExceptionsEnd {im : Image} (L : BootLayout im) (S : StubAddresses) (m : Mem) : Prop where
  /-- A divide error gets to `isr0_handler_stub`, -/
  divide : (∀ o, LeadsTo (gatesAt L.tables.idt m) 0 o ↔ o = some 0) ∧
    (gatesAt L.tables.idt m 0).offset = S.isr0HandlerStub.toNat
  /-- with this screen, and the tables as they were. -/
  panic : PanicShown (divideByZeroHandler m) ∧ TablesBuilt L S (divideByZeroHandler m)
  /-- Any other exception shuts the processor down, -/
  others : ∀ v : Vector, v ≠ 0 → v.toNat < 32 →
    ∀ o, LeadsTo (gatesAt L.tables.idt m) v o ↔ o = none
  /-- and accesses from 4 MiB on raise one, -/
  pages : ∀ a < 2 ^ 32, (walk m L.arrays.pageDirectory a = none ↔ 0x400000 ≤ a) ∧
    (walk m L.arrays.userPageDirectory a = none ↔ 0x400000 ≤ a)
  /-- those of `swap_graphics_buffers` to the framebuffer among them. -/
  framebuffer : ∀ backBuffer m', ∀ a ∈ (swapGraphicsBuffers backBuffer m').log,
    walk m L.arrays.pageDirectory a = none

section

variable {im : Image} (L : BootLayout im) (S : StubAddresses) (C : ThreadCode)

theorem changesOnly_panicPrintFrom (attr : Byte) {str : List Byte} {index : Nat}
    (hfits : index + 2 * str.length ≤ 4000) (m : Mem) :
    ChangesOnly [videoArea] m (panicPrintFrom attr str index m) := by
  induction str generalizing index m with
  | nil => exact ChangesOnly.refl _ m
  | cons c str ih =>
    rw [List.length_cons] at hfits
    have hcell := (changesOnly_video m c (a := 0xB8000 + index) (by omega)).then
      (changesOnly_video _ attr (a := 0xB8000 + (index + 1)) (by omega))
    exact hcell.then (ih (by omega) _)

theorem changesOnly_divideByZeroHandler (m : Mem) :
    ChangesOnly [videoArea] m (divideByZeroHandler m) := by
  refine (changesOnly_clearScreenMem m).then (changesOnly_fold ?_ _)
  intro m l hl
  have hfits := panicLines_fit l hl
  exact changesOnly_panicPrintFrom _ (by omega) m

theorem walk_eq_none_iff {m : Mem} {pd table flags a : Nat} (H : IdentityMap m pd table flags)
    (ha : a < 2 ^ 32) : walk m pd a = none ↔ 0x400000 ≤ a := by
  rw [H.walk_eq ha]
  split_ifs with hlow
  · exact iff_of_false (by simp) (by omega)
  · exact iff_of_true rfl (by omega)

theorem TablesBuilt.exceptionsEnd {m : Mem} (H : TablesBuilt L S m) : ExceptionsEnd L S m := by
  have hgates : ∀ v, gatesAt L.tables.idt m v = kernelGate S v := H.gates.gates
  have hfault : ∀ v, gateFault (gatesAt L.tables.idt m v) =
      if HasGate v then none else some generalProtection := by
    intro v
    rw [hgates, gateFault_kernelGate]
  have hleads : ∀ v o, LeadsTo (gatesAt L.tables.idt m) v o ↔
      o = if HasGate v then some v else none := by
    intro v o
    rw [leadsTo_bare, hfault]
    · by_cases hgate : HasGate v
      · rw [if_pos hgate, if_pos rfl, if_pos hgate]
      · rw [if_neg hgate, if_neg (Option.some_ne_none _), if_neg hgate]
    · intro v
      rw [hfault]
      split_ifs
      · exact .inl rfl
      · exact .inr rfl
    · rw [hfault, if_neg (by decide)]
      exact Option.some_ne_none _
    · rw [hfault, if_neg (by decide)]
      exact Option.some_ne_none _
  refine ⟨⟨?_, ?_⟩, ⟨panicShown_divideByZeroHandler m, ?_⟩, ?_, ?_, ?_⟩
  · intro o
    rw [hleads, if_pos (by decide)]
  · rw [hgates]
    rfl
  · exact H.keep L S ((changesOnly_divideByZeroHandler m).of_subset (by simp [areas]))
  · intro v hv hlt o
    rw [hleads, if_neg]
    rintro (h | rfl | rfl | rfl)
    · exact hv h
    · exact absurd hlt (by decide)
    · exact absurd hlt (by decide)
    · exact absurd hlt (by decide)
  · intro a ha
    exact ⟨walk_eq_none_iff H.pages.kernel ha, walk_eq_none_iff H.pages.user ha⟩
  · intro backBuffer m' a ha
    rw [swapGraphicsBuffers_log] at ha
    obtain ⟨i, hi, rfl⟩ := List.mem_map.mp ha
    have hlt := List.mem_range.mp hi
    simp only [totalScreenPixels] at hlt
    rw [walk_eq_none_iff H.pages.kernel (by simp only [lfbWord, vbeLfbPhysicalAddress]; omega)]
    simp only [lfbWord, vbeLfbPhysicalAddress]
    omega

end

end Antagonist
