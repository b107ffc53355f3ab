import Antagonist.Disk.Vfat
import Antagonist.Graphics.Picture

/-!
# Text on the canvas

`src/font.cpp`: glyphs of 8 rows with 8 bits each, for eleven characters and the blank, drawn pixel
by pixel at unsigned coordinates that may go round at `2 ^ 32`.

* `lays_drawStringGfx`: **which pixels a string sets**, on the screen or partly off it.
* `readText_drawStringGfx`: a string that fits on the screen can be read off it again, but for the
  characters that the font lacks, which read as blanks.
-/

namespace Antagonist

open ByteMem Canvas

def fontBitmap : List (List Byte) :=
  [[0x18, 0x24, 0x42, 0x42, 0x7E, 0x42, 0x42, 0x00], [0x42, 0x62, 0x52, 0x4A, 0x46, 0x42, 0x42, 0x00],
    [0x7E, 0x18, 0x18, 0x18, 0x18, 0x18, 0x18, 0x00], [0x3C, 0x42, 0x40, 0x4E, 0x42, 0x42, 0x3C, 0x00],
    [0x3C, 0x42, 0x42, 0x42, 0x42, 0x42, 0x3C, 0x00], [0x3C, 0x42, 0x40, 0x3C, 0x02, 0x42, 0x3C, 0x00],
    [0x00, 0x18, 0x18, 0x00, 0x18, 0x18, 0x00, 0x00], [0x42, 0x66, 0x5A, 0x42, 0x42, 0x42, 0x42, 0x00],
    [0x7E, 0x40, 0x40, 0x78, 0x40, 0x40, 0x7E, 0x00], [0x42, 0x42, 0x42, 0x42, 0x42, 0x42, 0x3C, 0x00],
    [0x18, 0x18, 0x18, 0x18, 0x18, 0x18, 0x18, 0x00], [0x00, 0x00, 0x00, 0x00, 0x00, 0x00, 0x00, 0x00]]

def fontCharacters : List Byte := ascii "ANTGOS:MEUI "

/-- `get_font_index`: the blank for a character that has no glyph. -/
def getFontIndex (c : Byte) : Nat :=
  if c = 0x41 then 0 else if c = 0x4E then 1 else if c = 0x54 then 2 else if c = 0x47 then 3
  else if c = 0x4F then 4 else if c = 0x53 then 5 else if c = 0x3A then 6 else if c = 0x4D then 7
  else if c = 0x45 then 8 else if c = 0x55 then 9 else if c = 0x49 then 10 else 11

/-- `row_byte & (0x80 >> col)`. -/
def glyphBit (fontIdx row col : Nat) : Bool :=
  ((fontBitmap.getD fontIdx []).getD row 0 &&& ((0x80 : Byte) >>> col)) ≠ 0

def drawCharRow (b : BackBuffer) (x y : BitVec 32) (fontIdx row : Nat) (color : BitVec 32) :
    BackBuffer :=
  (List.range 8).foldl (fun b col =>
    if glyphBit fontIdx row col then
      putPixelBuffer b (x + BitVec.ofNat 32 col) (y + BitVec.ofNat 32 row) color
    else b) b

def drawCharGfx (b : BackBuffer) (x y : BitVec 32) (c : Byte) (color : BitVec 32) : BackBuffer :=
  (List.range 8).foldl (fun b row => drawCharRow b x y (getFontIndex c) row color) b

/-- The loop of `draw_string_gfx`. -/
def drawStringFrom (x y color : BitVec 32) : Nat → List Byte → BackBuffer → BackBuffer
  | _, [], b => b
  | offset, c :: str, b =>
      drawStringFrom x y color (offset + 8) str
        (drawCharGfx b (x + BitVec.ofNat 32 offset) y c color)

/-- `draw_string_gfx`.  The string may be a null pointer. -/
def drawStringGfx (b : BackBuffer) (x y : BitVec 32) (str : Option CText) (color : BitVec 32) :
    BackBuffer :=
  match str with
  | none => b
  | some str => drawStringFrom x y color 0 str.val b

/-! ### Which pixels are set -/

/-- How far the column, or the row, of a pixel lies behind a coordinate, going round. -/
def ahead (origin : BitVec 32) (place : Nat) : Nat := (BitVec.ofNat 32 place - origin).toNat

/-- A pixel of the canvas at a place of a glyph. -/
def glyphFilm (x y : BitVec 32) (c : Byte) (color : BitVec 32) : Film Nat (BitVec 32) := fun p =>
  if p < totalScreenPixels ∧ ahead x (p % screenWidth) < 8 ∧ ahead y (p / screenWidth) < 8 ∧
      glyphBit (getFontIndex c) (ahead y (p / screenWidth)) (ahead x (p % screenWidth)) = true then
    some color else none

theorem ahead_eq_iff {origin : BitVec 32} {place : Nat} (hplace : place < 2 ^ 32) {offset : Nat}
    (hoffset : offset < 2 ^ 32) :
    (origin + BitVec.ofNat 32 offset).toNat = place ↔ ahead origin place = offset := by
  unfold ahead
  constructor
  · intro h
    rw [← h]
    bv_omega
  · intro h
    rw [← h]
    bv_omega

theorem pixelFilm_eq (x y p : Nat) (color : BitVec 32) : pixelFilm x y color p =
    if p < totalScreenPixels ∧ x = p % screenWidth ∧ y = p / screenWidth then some color else none := by
  rw [pixelFilm]
  unfold screenWidth screenHeight totalScreenPixels
  exact if_congr (by omega) rfl rfl

section

variable (x y color : BitVec 32)

theorem lays_glyphPixel (fontIdx : Nat) {row col : Nat} (hrow : row < 8) (hcol : col < 8) :
    Lays (fun b => if glyphBit fontIdx row col then
        putPixelBuffer b (x + BitVec.ofNat 32 col) (y + BitVec.ofNat 32 row) color else b)
      fun p => if p < totalScreenPixels ∧ ahead x (p % screenWidth) = col ∧
        ahead y (p / screenWidth) = row ∧ glyphBit fontIdx row col = true then some color else none := by
  intro b p
  by_cases hbit : glyphBit fontIdx row col = true
  · simp only [hbit, and_true, if_true]
    have hput := lays_putPixelBuffer (x + BitVec.ofNat 32 col) (y + BitVec.ofNat 32 row) color b p
    simp only at hput
    rw [hput, pixelFilm_eq]
    congr 1
    refine if_congr (and_congr_right fun hp => ?_) rfl rfl
    unfold totalScreenPixels at hp
    unfold screenWidth
    rw [ahead_eq_iff (by omega) (by omega), ahead_eq_iff (by omega) (by omega)]
  · simp only [hbit, Bool.false_eq_true, and_false, if_false]
    rfl

/-- **A character** sets the bits of its glyph. -/
theorem lays_drawCharGfx (c : Byte) :
    Lays (fun b => drawCharGfx b x y c color) (glyphFilm x y c color) := by
  have hrows : ∀ row ∈ List.range 8, Lays
      (fun b => drawCharRow b x y (getFontIndex c) row color)
      fun p => if p < totalScreenPixels ∧ ahead x (p % screenWidth) < 8 ∧
        ahead y (p / screenWidth) = row ∧
        glyphBit (getFontIndex c) row (ahead x (p % screenWidth)) = true then some color else none := by
    intro row hrow b p
    have hloop := lays_foldl (l := List.range 8) (fun col hcol => lays_glyphPixel x y color
      (getFontIndex c) (List.mem_range.mp hrow) (List.mem_range.mp hcol)) b p
    refine hloop.trans ?_
    congr 1
    refine (stack_map_color _ (fun col p => p < totalScreenPixels ∧ ahead x (p % screenWidth) = col ∧
      ahead y (p / screenWidth) = row ∧ glyphBit (getFontIndex c) row col = true) color p).trans ?_
    refine if_congr ⟨?_, ?_⟩ rfl rfl
    · rintro ⟨col, hcol, hp, rfl, hy, hbit⟩
      exact ⟨hp, List.mem_range.mp hcol, hy, hbit⟩
    · rintro ⟨hp, hx, hy, hbit⟩
      exact ⟨_, List.mem_range.mpr hx, hp, rfl, hy, hbit⟩
  intro b p
  refine (lays_foldl hrows b p).trans ?_
  congr 1
  refine (stack_map_color _ (fun row p => p < totalScreenPixels ∧ ahead x (p % screenWidth) < 8 ∧
    ahead y (p / screenWidth) = row ∧
    glyphBit (getFontIndex c) row (ahead x (p % screenWidth)) = true) color p).trans ?_
  refine if_congr ⟨?_, ?_⟩ rfl rfl
  · rintro ⟨row, hrow, hp, hx, rfl, hbit⟩
    exact ⟨hp, hx, List.mem_range.mp hrow, hbit⟩
  · rintro ⟨hp, hx, hy, hbit⟩
    exact ⟨_, List.mem_range.mpr hy, hp, hx, rfl, hbit⟩

/-- The pixel is set by a character of the string, the first one `offset` columns ahead. -/
def TextPixel (offset : Nat) (str : List Byte) (p : Nat) : Prop :=
  p < totalScreenPixels ∧ offset ≤ ahead x (p % screenWidth) ∧ ahead y (p / screenWidth) < 8 ∧
    (str[(ahead x (p % screenWidth) - offset) / 8]?).any (fun c =>
      glyphBit (getFontIndex c) (ahead y (p / screenWidth))
        ((ahead x (p % screenWidth) - offset) % 8)) = true

instance (offset : Nat) (str : List Byte) (p : Nat) : Decidable (TextPixel x y offset str p) :=
  inferInstanceAs (Decidable (_ ∧ _))

/-- What is ahead of a character, and what is ahead of the string. -/
theorem ahead_add {offset : Nat} (hoffset : offset + 8 ≤ 2 ^ 32) (place : Nat) :
    (ahead (x + BitVec.ofNat 32 offset) place < 8 ↔
        offset ≤ ahead x place ∧ ahead x place < offset + 8) ∧
      (offset ≤ ahead x place →
        ahead (x + BitVec.ofNat 32 offset) place = ahead x place - offset) := by
  unfold ahead
  generalize BitVec.ofNat 32 place = v
  constructor
  · constructor
    · intro h
      bv_omega
    · intro h
      bv_omega
  · intro h
    bv_omega

theorem textPixel_cons {offset : Nat} (c : Byte) (str : List Byte) (hoffset : offset + 8 ≤ 2 ^ 32)
    (p : Nat) : TextPixel x y offset (c :: str) p ↔ TextPixel x y (offset + 8) str p ∨
      p < totalScreenPixels ∧ ahead (x + BitVec.ofNat 32 offset) (p % screenWidth) < 8 ∧
        ahead y (p / screenWidth) < 8 ∧ glyphBit (getFontIndex c) (ahead y (p / screenWidth))
          (ahead (x + BitVec.ofNat 32 offset) (p % screenWidth)) = true := by
  obtain ⟨hlt, hat⟩ := ahead_add x hoffset (p % screenWidth)
  rw [hlt]
  unfold TextPixel
  generalize ahead x (p % screenWidth) = d at hlt hat ⊢
  rcases Nat.lt_or_ge d offset with hbefore | hge
  · -- the column is not reached by either
    refine iff_of_false (fun h => by omega) ?_
    rintro (h | h) <;> omega
  · rw [hat hge]
    rcases Nat.lt_or_ge d (offset + 8) with hhere | hbeyond
    · have hfirst : (d - offset) / 8 = 0 := by omega
      have hbit : (d - offset) % 8 = d - offset := by omega
      rw [hfirst, hbit, List.getElem?_cons_zero, Option.any_some]
      refine ⟨fun h => .inr ⟨h.1, ⟨hge, hhere⟩, h.2.2⟩, ?_⟩
      rintro (h | h)
      · omega
      · exact ⟨h.1, hge, h.2.2⟩
    · obtain ⟨k, hk⟩ := Nat.exists_eq_add_of_le hbeyond
      have hnext : (d - offset) / 8 = (d - (offset + 8)) / 8 + 1 := by omega
      have hbit : (d - offset) % 8 = (d - (offset + 8)) % 8 := by omega
      rw [hnext, hbit, List.getElem?_cons_succ]
      refine ⟨fun h => .inl ⟨h.1, hbeyond, h.2.2⟩, ?_⟩
      rintro (h | h)
      · exact ⟨h.1, hge, h.2.2⟩
      · omega

theorem lays_drawStringFrom (str : List Byte) {offset : Nat}
    (hlen : offset + 8 * str.length ≤ 2 ^ 32) : Lays (drawStringFrom x y color offset str)
      fun p => if TextPixel x y offset str p then some color else none := by
  induction str generalizing offset with
  | nil =>
    intro b p
    simp [drawStringFrom, TextPixel]
  | cons c str ih =>
    rw [List.length_cons] at hlen
    have hrest := @ih (offset + 8) (by omega)
    have hboth := (lays_drawCharGfx (x + BitVec.ofNat 32 offset) y color c).comp hrest
    intro b p
    refine (hboth b p).trans ?_
    congr 1
    simp only [Film.over, glyphFilm, or_of_color]
    exact if_congr (textPixel_cons x y c str (by omega) p).symm rfl rfl

/-- **A string** sets the bits of its glyphs, eight columns apart, where they are on the screen. -/
theorem lays_drawStringGfx (str : CText) (hlen : 8 * str.val.length ≤ 2 ^ 32) :
    Lays (fun b => drawStringGfx b x y (some str) color)
      fun p => if TextPixel x y 0 str.val p then some color else none :=
  lays_drawStringFrom x y color str.val (by omega)

end

/-! ### Reading a text off the canvas -/

/-- The bits of the font, looked up in a block of 8x8 flags. -/
def matchGlyph (block : Nat → Nat → Bool) : Option Nat :=
  (List.range 12).find? fun fontIdx =>
    (List.range 8).all fun row => (List.range 8).all fun col => block row col == glyphBit fontIdx row col

/-- The character at a place of the canvas, in a color. -/
def readChar (b : BackBuffer) (x y : Nat) (color : BitVec 32) : Byte :=
  match matchGlyph fun row col => b ((y + row) * screenWidth + (x + col)) == color with
  | some fontIdx => fontCharacters.getD fontIdx 0x20
  | none => 0x20

def readText (b : BackBuffer) (x y : Nat) (color : BitVec 32) (n : Nat) : List Byte :=
  (List.range n).map fun i => readChar b (x + 8 * i) y color

/-- A character as the font shows it. -/
def shown (c : Byte) : Byte := if c ∈ fontCharacters then c else 0x20

/-- **No two glyphs are alike.** -/
theorem matchGlyph_glyphBit {fontIdx : Nat} (h : fontIdx < 12) :
    matchGlyph (glyphBit fontIdx) = some fontIdx := by
  have hall : ∀ fontIdx ∈ List.range 12, matchGlyph (glyphBit fontIdx) = some fontIdx := by
    decide +kernel
  exact hall fontIdx (List.mem_range.mpr h)

theorem matchGlyph_congr {block block' : Nat → Nat → Bool}
    (h : ∀ row < 8, ∀ col < 8, block row col = block' row col) :
    matchGlyph block = matchGlyph block' := by
  rw [matchGlyph, matchGlyph]
  congr 1
  funext fontIdx
  rw [Bool.eq_iff_iff]
  simp only [List.all_eq_true, List.mem_range]
  refine ⟨fun hall row hrow col hcol => ?_, fun hall row hrow col hcol => ?_⟩
  · rw [← h row hrow col hcol]
    exact hall row hrow col hcol
  · rw [h row hrow col hcol]
    exact hall row hrow col hcol

theorem getFontIndex_spec (c : Byte) :
    getFontIndex c < 12 ∧ fontCharacters.getD (getFontIndex c) 0x20 = shown c := by
  revert c
  decide +kernel

section

variable (b : BackBuffer) (x y color : BitVec 32) (str : CText)
  (hx : x.toNat + 8 * str.val.length ≤ screenWidth) (hy : y.toNat + 8 ≤ screenHeight)
  (hb : ∀ row < 8, ∀ col < 8 * str.val.length,
    b ((y.toNat + row) * screenWidth + (x.toNat + col)) ≠ color)

include hx hy hb

theorem block_drawStringGfx {i : Nat} (hi : i < str.val.length) {row col : Nat} (hrow : row < 8)
    (hcol : col < 8) : (drawStringGfx b x y (some str) color
        ((y.toNat + row) * screenWidth + (x.toNat + 8 * i + col)) == color) =
      glyphBit (getFontIndex str.val[i]) row col := by
  have hplace : x.toNat + (8 * i + col) = x.toNat + 8 * i + col := (Nat.add_assoc ..).symm
  have hback := hb row hrow (8 * i + col) (by omega)
  rw [hplace] at hback
  unfold screenWidth at hx
  unfold screenHeight at hy
  generalize hp : (y.toNat + row) * screenWidth + (x.toNat + 8 * i + col) = p at hback ⊢
  unfold screenWidth at hp
  have hcolumn : ahead x (p % screenWidth) = 8 * i + col := by
    unfold screenWidth
    rw [← ahead_eq_iff (by omega) (by omega), BitVec.toNat_add, BitVec.toNat_ofNat]
    omega
  have hrowIs : ahead y (p / screenWidth) = row := by
    unfold screenWidth
    rw [← ahead_eq_iff (by omega) (by omega), BitVec.toNat_add, BitVec.toNat_ofNat]
    omega
  have hpixel : TextPixel x y 0 str.val p ↔ glyphBit (getFontIndex str.val[i]) row col = true := by
    have hchar : (8 * i + col - 0) / 8 = i := by omega
    have hbit : (8 * i + col - 0) % 8 = col := by omega
    rw [TextPixel, hcolumn, hrowIs, hchar, hbit, List.getElem?_eq_getElem hi, Option.any_some]
    unfold totalScreenPixels
    exact ⟨fun h => h.2.2.2, fun h => ⟨by omega, Nat.zero_le _, hrow, h⟩⟩
  have hshows := lays_drawStringGfx x y color str (by omega) b p
  simp only at hshows
  rw [hshows, Bool.eq_iff_iff, ← hpixel]
  by_cases hset : TextPixel x y 0 str.val p
  · simp [hset]
  · simpa [hset] using hback

/-- **A text can be read off** the canvas that it was drawn on, where nothing was of its color. -/
theorem readText_drawStringGfx :
    readText (drawStringGfx b x y (some str) color) x.toNat y.toNat color str.val.length =
      str.val.map shown := by
  refine List.ext_getElem (by simp [readText]) ?_
  intro i hi hi'
  rw [List.length_map] at hi'
  simp only [readText, List.getElem_map, List.getElem_range]
  rw [readChar, matchGlyph_congr fun row hrow col hcol =>
    block_drawStringGfx b x y color str hx hy hb hi' hrow hcol,
    matchGlyph_glyphBit (getFontIndex_spec _).1]
  exact (getFontIndex_spec _).2

end

/-- A line at the bottom right corner of a blank canvas. -/
theorem readText_antagonist : readText (drawStringGfx (fun _ => 0x001A1E24) 720 592
    (some ⟨ascii "ANTAGONIST", by decide⟩) 0x00FFD700) 720 592 0x00FFD700 10 =
      (ascii "ANTAGONIST").map shown :=
  readText_drawStringGfx (fun _ => 0x001A1E24) 720 592 0x00FFD700 ⟨ascii "ANTAGONIST", by decide⟩
    (by decide) (by decide) (fun _ _ _ _ => by decide)

end Antagonist
