import Mathlib.Data.List.Basic

/-!
# The kernel image

`kernel/linker.ld` puts the location counter at 1 MiB and lays out `.text`,
`.rodata`, `.data` and `.bss` one after the other, each from the input sections
of the objects in the order the objects come.  What the sections hold is not
modelled, only where they lie; `Image.stop_ge` is what the array `back_buffer`
of `buffer.cpp` alone says about the end.
-/

namespace Antagonist

/-- A section of an object file: its size and its alignment. -/
structure InputSection where
  size : Nat
  align : Nat
  align_pos : 0 < align

/-- The first address from `dot` on that is a multiple of `a`. -/
def alignUp (a dot : Nat) : Nat := (dot + a - 1) / a * a

def placeInput (dot : Nat) (s : InputSection) : Nat := alignUp s.align dot + s.size

/-- The location counter after an output section.  It starts at the strictest
alignment among its inputs. -/
def placeOutput (dot : Nat) (l : List InputSection) : Nat :=
  l.foldl placeInput (alignUp (l.foldl (fun a s => max a s.align) 1) dot)

/-- `SCREEN_WIDTH * SCREEN_HEIGHT`. -/
def totalScreenPixels : Nat := 800 * 600

/-- The input sections that `linker.ld` places, in its order.  The `.bss` of
`buffer.o` holds `back_buffer`, one 32-bit word for each pixel. -/
structure Image where
  multiboot : List InputSection
  text : List InputSection
  rodata : List InputSection
  data : List InputSection
  bss : List InputSection
  backBuffer : ∃ s ∈ bss, 4 * totalScreenPixels ≤ s.size

namespace Image

/-- `. = 1M`. -/
def start : Nat := 0x100000

/-- The location counter at the end of the script. -/
def stop (im : Image) : Nat :=
  let dot := placeOutput start (im.multiboot ++ im.text)
  let dot := placeOutput dot im.rodata
  let dot := placeOutput dot im.data
  placeOutput dot im.bss

def Contains (im : Image) (x : Nat) : Prop := start ≤ x ∧ x < im.stop

end Image

/-! ### The location counter only goes up -/

theorem le_alignUp {a : Nat} (ha : 0 < a) (dot : Nat) : dot ≤ alignUp a dot := by
  have h := Nat.div_add_mod (dot + a - 1) a
  have hlt := Nat.mod_lt (dot + a - 1) ha
  rw [Nat.mul_comm] at h
  simp only [alignUp]
  omega

theorem placeInput_ge (dot : Nat) (s : InputSection) : dot + s.size ≤ placeInput dot s := by
  have := le_alignUp s.align_pos dot
  simp only [placeInput]
  omega

theorem foldl_placeInput_ge : ∀ (l : List InputSection) (dot : Nat),
    dot ≤ l.foldl placeInput dot ∧ ∀ s ∈ l, dot + s.size ≤ l.foldl placeInput dot := by
  intro l
  induction l with
  | nil => exact fun dot => ⟨Nat.le_refl dot, by simp⟩
  | cons s l ih =>
    intro dot
    obtain ⟨hle, hmem⟩ := ih (placeInput dot s)
    have hs := placeInput_ge dot s
    rw [List.foldl_cons]
    refine ⟨by omega, ?_⟩
    intro t ht
    rcases List.mem_cons.mp ht with rfl | ht'
    · omega
    · have := hmem t ht'
      omega

theorem one_le_strictest : ∀ (l : List InputSection) (a : Nat), 1 ≤ a →
    1 ≤ l.foldl (fun a s => max a s.align) a := by
  intro l
  induction l with
  | nil => exact fun _ ha => ha
  | cons s l ih => exact fun a ha => ih _ (Nat.le_trans ha (Nat.le_max_left _ _))

theorem placeOutput_ge (l : List InputSection) (dot : Nat) :
    dot ≤ placeOutput dot l ∧ ∀ s ∈ l, dot + s.size ≤ placeOutput dot l := by
  have hal := le_alignUp (one_le_strictest l 1 (Nat.le_refl 1)) dot
  obtain ⟨hle, hmem⟩ := foldl_placeInput_ge l
    (alignUp (l.foldl (fun a s => max a s.align) 1) dot)
  simp only [placeOutput]
  refine ⟨by omega, ?_⟩
  intro s hs
  have := hmem s hs
  omega

/-- **The image reaches past the first 2 MiB**, if only for `back_buffer`. -/
theorem Image.stop_ge (im : Image) : Image.start + 4 * totalScreenPixels ≤ im.stop := by
  obtain ⟨s, hs, hsize⟩ := im.backBuffer
  have h1 := (placeOutput_ge (im.multiboot ++ im.text) Image.start).1
  have h2 := (placeOutput_ge im.rodata (placeOutput Image.start (im.multiboot ++ im.text))).1
  have h3 := (placeOutput_ge im.data
    (placeOutput (placeOutput Image.start (im.multiboot ++ im.text)) im.rodata)).1
  have h4 := (placeOutput_ge im.bss (placeOutput
    (placeOutput (placeOutput Image.start (im.multiboot ++ im.text)) im.rodata) im.data)).2 s hs
  simp only [Image.stop]
  omega

/-- A small image: some code, four pages of page tables, and `back_buffer`. -/
def smallImage : Image where
  multiboot := [⟨28, 4, by decide⟩]
  text := [⟨512, 16, by decide⟩]
  rodata := []
  data := []
  bss := [⟨16384, 4096, by decide⟩, ⟨4 * totalScreenPixels, 32, by decide⟩]
  backBuffer := ⟨_, List.mem_cons_of_mem _ (List.mem_singleton.mpr rfl), Nat.le_refl _⟩

end Antagonist
