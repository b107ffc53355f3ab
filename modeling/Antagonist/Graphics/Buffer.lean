import Antagonist.Boot.Image
import Antagonist.Lib.Logged
import Antagonist.Lib.Memory
import Mathlib.Data.Rat.Defs
import Mathlib.Logic.Function.Basic

/-!
# The screen

`src/buffer.cpp` and `src/vbe.cpp`: the array `back_buffer`, and the framebuffer of the video
card.  The stores into the framebuffer are logged with their addresses.

* `putPixel_log`, `swapGraphicsBuffers_log`: the words that are written.
-/

namespace Antagonist

open ByteMem Logged

/-- What is done with a `float`.  No law is assumed.  `lit` is the value of a literal, and `toInt`
the cast, whatever it yields out of range. -/
structure FloatOps (φ : Type) where
  lit : ℚ → φ
  ofInt : Int → φ
  toInt : φ → Int
  neg : φ → φ
  add : φ → φ → φ
  sub : φ → φ → φ
  mul : φ → φ → φ
  div : φ → φ → φ
  lt : φ → φ → Bool
  le : φ → φ → Bool
  eq : φ → φ → Bool

/-- `Vec3`, over any floats. -/
structure FloatVec (φ : Type) where
  x : φ
  y : φ
  z : φ

def screenWidth : Nat := 800

def screenHeight : Nat := 600

def vbeLfbPhysicalAddress : Nat := 0xFD000000

abbrev BackBuffer := Nat → BitVec 32

def putPixelBuffer (backBuffer : BackBuffer) (x y color : BitVec 32) : BackBuffer :=
  if screenWidth ≤ x.toNat ∨ screenHeight ≤ y.toNat then backBuffer
  else Function.update backBuffer (y.toNat * screenWidth + x.toNat) color

def lfbWord (i : Nat) : Nat := vbeLfbPhysicalAddress + 4 * i

def storeLfb (m : Mem) (i : Nat) (color : BitVec 32) : Logged Nat Mem :=
  entry (lfbWord i) (store32 m (lfbWord i) color.toNat)

def putPixel (m : Mem) (x y color : BitVec 32) : Logged Nat Mem :=
  if screenWidth ≤ x.toNat ∨ screenHeight ≤ y.toNat then pure m
  else storeLfb m (y.toNat * screenWidth + x.toNat) color

def swapGraphicsBuffers (backBuffer : BackBuffer) (m : Mem) : Logged Nat Mem :=
  Logged.foldl (fun m i => storeLfb m i (backBuffer i)) m (List.range totalScreenPixels)

theorem putPixel_log (m : Mem) {x y : BitVec 32} (color : BitVec 32) (hx : x.toNat < screenWidth)
    (hy : y.toNat < screenHeight) :
    (putPixel m x y color).log = [lfbWord (y.toNat * screenWidth + x.toNat)] := by
  rw [putPixel, if_neg (by omega)]
  rfl

theorem swapGraphicsBuffers_log (backBuffer : BackBuffer) (m : Mem) :
    (swapGraphicsBuffers backBuffer m).log = (List.range totalScreenPixels).map lfbWord :=
  log_foldl (fun _ _ => rfl) _ m

end Antagonist
