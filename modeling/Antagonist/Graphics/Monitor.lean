import Antagonist.Graphics.Picture
import Antagonist.Lib.Bga

/-!
# The monitor

`init_vbe_graphics` of `src/vbe.cpp` sets the mode of the adapter, whatever mode it was in, and
`put_pixel` draws pixels of colors that `create_rgb` of `src/palette.cpp` has put together.

* `initVbeGraphics_eq`: the mode, and a black screen.
* `monitor_shows`: **what is on the monitor** after any pixels, on the screen or off it.
-/

namespace Antagonist

open ByteMem Canvas Bga

/-! ### The code -/

def vbeWriteRegister (V : Vram) (s : Card × Mem) (index value : BitVec 16) : Card × Mem :=
  outw V (outw V s 0x01CE index) 0x01CF value

def initVbeGraphics (V : Vram) (s : Card × Mem) : Card × Mem :=
  let s := vbeWriteRegister V s 0x4 0x00
  let s := vbeWriteRegister V s 0x1 (BitVec.ofNat 16 screenWidth)
  let s := vbeWriteRegister V s 0x2 (BitVec.ofNat 16 screenHeight)
  let s := vbeWriteRegister V s 0x3 32
  vbeWriteRegister V s 0x4 (0x01 ||| 0x40)

def createRgb (r g b : Byte) : BitVec 32 :=
  r.setWidth 32 <<< 16 ||| g.setWidth 32 <<< 8 ||| b.setWidth 32

/-- A call of `put_pixel` with a color from `create_rgb`. -/
structure RgbCall where
  x : BitVec 32
  y : BitVec 32
  r : Byte
  g : Byte
  b : Byte

def RgbCall.pixelCall (call : RgbCall) : PixelCall :=
  ⟨call.x, call.y, createRgb call.r call.g call.b⟩

/-! ### Colors -/

def channels (word : Nat) : Byte × Byte × Byte :=
  (BitVec.ofNat 8 (word / 65536), BitVec.ofNat 8 (word / 256), BitVec.ofNat 8 word)

theorem toNat_createRgb (r g b : Byte) :
    (createRgb r g b).toNat = 2 ^ 8 * (2 ^ 8 * r.toNat + g.toNat) + b.toNat := by
  have hr := r.isLt
  have hg := g.isLt
  have hhigh : 2 ^ 16 * r.toNat ||| 2 ^ 8 * g.toNat = 2 ^ 8 * (2 ^ 8 * r.toNat + g.toNat) := by
    rw [← Nat.two_pow_add_eq_or_of_lt (by omega)]
    omega
  rw [Nat.two_pow_add_eq_or_of_lt b.isLt, ← hhigh, createRgb, BitVec.toNat_or, BitVec.toNat_or,
    BitVec.toNat_shiftLeft, BitVec.toNat_shiftLeft, BitVec.toNat_setWidth_of_le (by decide),
    BitVec.toNat_setWidth_of_le (by decide), BitVec.toNat_setWidth_of_le (by decide),
    Nat.shiftLeft_eq, Nat.shiftLeft_eq, Nat.mod_eq_of_lt (by omega), Nat.mod_eq_of_lt (by omega),
    Nat.mul_comm r.toNat, Nat.mul_comm g.toNat]

theorem channels_createRgb (r g b : Byte) : channels (createRgb r g b).toNat = (r, g, b) := by
  rw [toNat_createRgb, channels]
  refine Prod.ext ?_ (Prod.ext ?_ ?_)
  · exact BitVec.eq_of_toNat_eq (by simp; omega)
  · exact BitVec.eq_of_toNat_eq (by simp; omega)
  · exact BitVec.eq_of_toNat_eq (by simp; omega)

/-! ### The mode -/

/-- The memory of the adapter, with room for the screen. -/
structure Framebuffer extends Vram where
  at_lfb : base = vbeLfbPhysicalAddress
  large : 4 * totalScreenPixels ≤ size

/-- 800 by 600 pixels of 32 bits, in the linear framebuffer. -/
def antagonistMode : Mode := ⟨800, 600, 32, 0x41⟩

section

variable (V : Framebuffer) (s : Card × Mem)

/-- **The mode is set**, and the screen is black. -/
theorem initVbeGraphics_eq : (initVbeGraphics V.toVram s).1 = antagonistMode.card ∧
    LfbShows (initVbeGraphics V.toVram s).2 fun _ => 0 := by
  have hset : initVbeGraphics V.toVram s = setMode V.toVram s antagonistMode := rfl
  have hlarge := V.large
  rw [hset, setMode_eq V.toVram s (by decide) (by decide)]
  refine ⟨rfl, ?_⟩
  intro p hp
  have hbyte : ∀ i < 4, load8 (fillBytes s.2 V.base 0 V.size) (lfbWord p + i) = 0 := by
    intro i hi
    have hfits := V.fits
    have hbase := V.at_lfb
    simp only [lfbWord, vbeLfbPhysicalAddress] at *
    rw [load8, Nat.mod_eq_of_lt (by omega), fillBytes_apply _ _ V.fits, if_pos (by omega)]
  have hfirst := hbyte 0 (by decide)
  rw [Nat.add_zero] at hfirst
  simp only [load32]
  rw [hfirst, hbyte 1 (by decide), hbyte 2 (by decide), hbyte 3 (by decide)]
  rfl

theorem pixel?_eq {m : Mem} {colors : Nat → BitVec 32} (h : LfbShows m colors) (x y : Nat) :
    pixel? V.toVram (antagonistMode.card, m) x y =
      if x < screenWidth ∧ y < screenHeight then some (colors (y * screenWidth + x)).toNat
      else none := by
  have hmode : antagonistMode.card.enable.getLsbD 0 = true ∧
      antagonistMode.card.enable.getLsbD 6 = true ∧ antagonistMode.card.bpp = 32 := by decide
  have hvisible : (antagonistMode.card.enable.getLsbD 0 = true ∧
      antagonistMode.card.enable.getLsbD 6 = true ∧ antagonistMode.card.bpp = 32 ∧
        x < antagonistMode.card.xres.toNat ∧ y < antagonistMode.card.yres.toNat) ↔
      x < screenWidth ∧ y < screenHeight := by
    refine ⟨fun hv => hv.2.2.2, fun hv => ⟨hmode.1, hmode.2.1, hmode.2.2, hv⟩⟩
  rw [pixel?, if_congr hvisible rfl rfl]
  by_cases hin : x < screenWidth ∧ y < screenHeight
  · have hword : V.base + 4 * ((y + antagonistMode.card.yOffset.toNat) *
        antagonistMode.card.virtWidth.toNat + (x + antagonistMode.card.xOffset.toNat)) =
          lfbWord (y * screenWidth + x) := by
      rw [V.at_lfb]
      rfl
    rw [if_pos hin, if_pos hin]
    simp only
    rw [hword, h]
    simp only [screenWidth, screenHeight, totalScreenPixels] at *
    omega
  · rw [if_neg hin, if_neg hin]

end

/-! ### The pixels -/

/-- The color of a pixel: that of the last call for it. -/
def shownRgb (calls : List RgbCall) (x y : Nat) : Byte × Byte × Byte :=
  match calls.reverse.find? fun call => call.x.toNat = x ∧ call.y.toNat = y with
  | some call => (call.r, call.g, call.b)
  | none => (0, 0, 0)

theorem findSome?_pixels (calls : List RgbCall) (x y : Nat) :
    (calls.findSome? fun call => if call.x.toNat = x ∧ call.y.toNat = y then
        some call.pixelCall.color else none) =
      (calls.find? fun call => call.x.toNat = x ∧ call.y.toNat = y).map
        fun call => call.pixelCall.color := by
  induction calls with
  | nil => rfl
  | cons call calls ih =>
    rw [List.findSome?_cons, List.find?_cons]
    by_cases hat : call.x.toNat = x ∧ call.y.toNat = y
    · simp only [if_pos hat, decide_eq_true hat]
      rfl
    · simp only [if_neg hat, decide_eq_false hat]
      exact ih

theorem drawBuffered_rgb (calls : List RgbCall) {x y : Nat} (hx : x < screenWidth)
    (hy : y < screenHeight) :
    channels (drawBuffered (fun _ => 0) (calls.map RgbCall.pixelCall) (y * screenWidth + x)).toNat =
      shownRgb calls x y := by
  have hpixel : ∀ call : RgbCall,
      pixelFilm call.x.toNat call.y.toNat call.pixelCall.color (y * screenWidth + x) =
        if call.x.toNat = x ∧ call.y.toNat = y then some call.pixelCall.color else none := by
    intro call
    rw [pixelFilm]
    simp only [screenWidth, screenHeight] at *
    exact if_congr (by omega) rfl rfl
  have hdraw := lays_foldl (l := calls)
    (fun call _ => lays_putPixelBuffer call.x call.y call.pixelCall.color) (fun _ => 0)
    (y * screenWidth + x)
  have hstack : stack (calls.map fun call =>
      pixelFilm call.x.toNat call.y.toNat call.pixelCall.color) (y * screenWidth + x) =
        (calls.reverse.find? fun call => call.x.toNat = x ∧ call.y.toNat = y).map
          fun call => call.pixelCall.color := by
    rw [stack, ← List.map_reverse, List.findSome?_map, ← findSome?_pixels]
    simp only [Function.comp_def, hpixel]
  rw [drawBuffered, List.foldl_map]
  refine (congrArg (fun color : BitVec 32 => channels color.toNat) hdraw).trans ?_
  rw [hstack, shownRgb]
  cases calls.reverse.find? fun call => call.x.toNat = x ∧ call.y.toNat = y with
  | none => rfl
  | some call => exact channels_createRgb call.r call.g call.b

/-- **What is on the monitor**, from any state of the adapter: 800 by 600 pixels, each with the
color of the last call for it, and black without one. -/
theorem monitor_shows (V : Framebuffer) (s : Card × Mem) (calls : List RgbCall) (x y : Nat) :
    (pixel? V.toVram ((initVbeGraphics V.toVram s).1,
        drawDirect (initVbeGraphics V.toVram s).2 (calls.map RgbCall.pixelCall)) x y).map channels =
      if x < screenWidth ∧ y < screenHeight then some (shownRgb calls x y) else none := by
  obtain ⟨hmode, hblack⟩ := initVbeGraphics_eq V s
  have hshows := (drawDirect_shows hblack (calls.map RgbCall.pixelCall)).1
  rw [hmode, pixel?_eq V hshows]
  by_cases hin : x < screenWidth ∧ y < screenHeight
  · rw [if_pos hin, if_pos hin, Option.map_some, drawBuffered_rgb calls hin.1 hin.2]
  · rw [if_neg hin, if_neg hin]
    rfl

/-- 16 MiB of memory. -/
def standardVga : Framebuffer where
  base := 0xFD000000
  size := 0x1000000
  fits := by decide
  at_lfb := rfl
  large := by decide

/-- An adapter that shows 640 by 480 pixels in 256 colors. -/
def enabledAdapter : Card × Mem := (⟨4, 640, 480, 8, 1, 640, 0, 0⟩, fun _ => 0x55)

/-- A red pixel, a green one in its place, and a blue one behind the end of the row above. -/
def overdrawn : List RgbCall := [⟨3, 2, 255, 0, 0⟩, ⟨3, 2, 0, 255, 0⟩, ⟨803, 1, 0, 0, 255⟩]

theorem monitor_shows_overdrawn :
    (pixel? standardVga.toVram ((initVbeGraphics standardVga.toVram enabledAdapter).1,
        drawDirect (initVbeGraphics standardVga.toVram enabledAdapter).2
          (overdrawn.map RgbCall.pixelCall)) 3 2).map channels = some (0, 255, 0) :=
  (monitor_shows standardVga enabledAdapter overdrawn 3 2).trans (by decide)

end Antagonist
