import Antagonist.Graphics.Particles
import Antagonist.Graphics.Raycast
import Antagonist.Lib.Canvas

/-!
# The picture of a frame

Each drawing routine lays a film over the canvas (`Canvas.Lays`), whatever is on it: a pixel, the
column of a wall, the block of a particle.  So a frame of the display server, which clears the
canvas, draws the walls and then the particles and copies all of it to the framebuffer, shows a
picture that nothing of the frames before goes into.

* `lays_renderVoxelWorld`: the walls.
* `updateAndRenderParticles_backBuffer`: the particles, those of the later slots on top.
* `buffered_eq_direct`: pixels drawn behind the scenes, and on the screen itself.
* `displayFrame_shows`: **what a frame shows**.
* `screen_shows_lastFrame`: the screen after any history.
-/

namespace Antagonist

open ByteMem Canvas

def rationalOps : FloatOps ℚ where
  lit q := q
  ofInt n := n
  toInt := truncate
  neg a := -a
  add a b := a + b
  sub a b := a - b
  mul a b := a * b
  div a b := a / b
  lt a b := decide (a < b)
  le a b := decide (a ≤ b)
  eq a b := decide (a = b)

/-! ### Pixels -/

/-- A pixel in reach of the checks of `put_pixel_buffer`. -/
def pixelFilm (x y : Nat) (color : BitVec 32) : Film Nat (BitVec 32) := fun p =>
  if x < screenWidth ∧ y < screenHeight ∧ p = y * screenWidth + x then some color else none

theorem lays_putPixelBuffer (x y color : BitVec 32) :
    Lays (fun b => putPixelBuffer b x y color) (pixelFilm x.toNat y.toNat color) := by
  intro b p
  show putPixelBuffer b x y color p = _
  rw [putPixelBuffer, pixelFilm]
  by_cases hin : x.toNat < screenWidth ∧ y.toNat < screenHeight
  · rw [if_neg (by omega), Function.update_apply]
    by_cases hp : p = y.toNat * screenWidth + x.toNat
    · rw [if_pos hp, if_pos ⟨hin.1, hin.2, hp⟩]
      rfl
    · rw [if_neg hp, if_neg fun h => hp h.2.2]
      rfl
  · rw [if_pos (by omega), if_neg fun h => hin ⟨h.1, h.2.1⟩]
    rfl

theorem pixelFilm_apply {x y p : Nat} (color : BitVec 32) (hx : x < screenWidth)
    (hy : y < screenHeight) :
    pixelFilm x y color p = if p % screenWidth = x ∧ p / screenWidth = y then some color else none := by
  rw [pixelFilm]
  unfold screenWidth at hx ⊢
  exact if_congr (by omega) rfl rfl

def clearBackBuffer (backBuffer : BackBuffer) (color : BitVec 32) : BackBuffer :=
  (List.range totalScreenPixels).foldl (fun b i => Function.update b i color) backBuffer

theorem lays_clearBackBuffer (color : BitVec 32) : Lays (fun b => clearBackBuffer b color)
    (fun p => if p < totalScreenPixels then some color else none) := by
  intro b p
  show clearBackBuffer b color p = _
  have hloop : (List.range totalScreenPixels).foldl
      (fun (b : BackBuffer) i => Function.update b i color) b p =
      if 0 ≤ p ∧ p < 0 + totalScreenPixels then color else b p :=
    foldl_range_fill (fun b => b) (fun b i _ j => by rw [Nat.zero_add, Function.update_apply]) b p
  rw [clearBackBuffer, hloop, Nat.zero_add]
  simp only
  by_cases hp : p < totalScreenPixels
  · rw [if_pos ⟨Nat.zero_le p, hp⟩, if_pos hp]
    rfl
  · rw [if_neg fun h => hp h.2, if_neg hp]
    rfl

/-! ### Walls -/

section

variable {φ : Type} (F : FloatOps φ)

/-- `line_height` of a wall at a distance. -/
def lineHeight (distance : φ) : Int :=
  F.toInt (F.div (F.ofInt screenHeight)
    (if F.le distance (F.lit (1 / 10)) then F.lit (1 / 10) else distance))

def drawStart (distance : φ) : Int := max 0 ((-lineHeight F distance).tdiv 2 + 300)

def drawEnd (distance : φ) : Int := min 599 ((lineHeight F distance).tdiv 2 + 300)

def wallColor (side : Nat) : BitVec 32 := if side = 1 then 0x00B5A200 else 0x00FFD700

theorem drawColumn_eq (b : BackBuffer) (x side : Nat) (distance : φ) :
    drawColumn F b x side distance =
      (List.range (drawEnd F distance + 1 - drawStart F distance).toNat).foldl
        (fun b (k : Nat) => putPixelBuffer b (BitVec.ofNat 32 x)
          (BitVec.ofInt 32 (drawStart F distance + k)) (wallColor side)) b := by
  -- the source's `y` is an `int`, and so the loop of `drawColumn` goes over integers
  have hrows : ∀ n : Nat, (List.range n >>= fun k : Nat => pure (k : Int)) =
      (List.range n).map (fun k : Nat => (k : Int)) := by
    intro n
    rw [bind_pure_comp, List.map_eq_map]
  rw [drawColumn]
  simp only [hrows, List.foldl_map]
  rfl

/-- The column of a wall that was struck on `side`, at `distance`. -/
def columnFilm (x side : Nat) (distance : φ) : Film Nat (BitVec 32) := fun p =>
  if p % screenWidth = x ∧ drawStart F distance ≤ (p / screenWidth : Nat) ∧
    ((p / screenWidth : Nat) : Int) ≤ drawEnd F distance then some (wallColor side) else none

theorem lays_drawColumn {x : Nat} (hx : x < screenWidth) (side : Nat) (distance : φ) :
    Lays (fun b => drawColumn F b x side distance) (columnFilm F x side distance) := by
  have hstart : 0 ≤ drawStart F distance := le_max_left _ _
  have hend : drawEnd F distance ≤ 599 := min_le_left _ _
  intro b p
  have hpixel : ∀ k ∈ List.range (drawEnd F distance + 1 - drawStart F distance).toNat,
      Lays (fun b => putPixelBuffer b (BitVec.ofNat 32 x)
          (BitVec.ofInt 32 (drawStart F distance + (k : Nat))) (wallColor side))
        (pixelFilm x (drawStart F distance + (k : Nat)).toNat (wallColor side)) := by
    intro k hk
    have hk := List.mem_range.mp hk
    have hput := lays_putPixelBuffer (BitVec.ofNat 32 x)
      (BitVec.ofInt 32 (drawStart F distance + k)) (wallColor side)
    have hcolumn : (BitVec.ofNat 32 x).toNat = x := by
      unfold screenWidth at hx
      rw [BitVec.toNat_ofNat]
      omega
    have hrow : (BitVec.ofInt 32 (drawStart F distance + k)).toNat =
        (drawStart F distance + k).toNat := by
      rw [BitVec.toNat_ofInt]
      omega
    rwa [hcolumn, hrow] at hput
  have hloop := lays_foldl hpixel b p
  simp only at hloop ⊢
  rw [drawColumn_eq, hloop]
  congr 1
  refine (stack_map_color _ (fun (k : Nat) p => x < screenWidth ∧
    (drawStart F distance + k).toNat < screenHeight ∧
    p = (drawStart F distance + k).toNat * screenWidth + x) (wallColor side) p).trans ?_
  rw [columnFilm]
  refine if_congr ?_ rfl rfl
  simp only [List.mem_range]
  unfold screenWidth at hx ⊢
  unfold screenHeight
  refine ⟨?_, ?_⟩
  · rintro ⟨k, hk, -, -, hp⟩
    omega
  · rintro ⟨hcolumn, hlo, hhi⟩
    exact ⟨(((p / 800 : Nat) : Int) - drawStart F distance).toNat, by omega, hx, by omega, by omega⟩

/-- The side and the distance of the wall in column `x`. -/
def columnWall (fuel : Nat) (cells : Cells) (playerPos : FloatVec φ) (x : Nat) : Option (Nat × φ) :=
  let cameraX := F.sub (F.div (F.mul (F.lit 2) (F.ofInt x)) (F.ofInt screenWidth)) (F.lit 1)
  let rayDirX := F.mul (F.lit 1) (F.sub (F.lit 1) (F.mul cameraX cameraX))
  let deltaDistX := deltaDist F rayDirX
  let deltaDistY := deltaDist F cameraX
  let firstX := firstStep F rayDirX playerPos.x (F.toInt playerPos.x) deltaDistX
  let firstY := firstStep F cameraX playerPos.y (F.toInt playerPos.y) deltaDistY
  (ddaLoop cells (floatDistances F deltaDistX deltaDistY) firstX.1 firstY.1 fuel
    ⟨(firstX.2, firstY.2), F.toInt playerPos.x, F.toInt playerPos.y, 0⟩).val.map fun s =>
      (s.side, if s.side = 0 then F.sub s.distances.1 deltaDistX
        else F.sub s.distances.2 deltaDistY)

theorem renderColumn_eq (fuel : Nat) (cells : Cells) (playerPos : FloatVec φ) (b : BackBuffer)
    (x : Nat) : renderColumn F fuel cells playerPos b x =
      (columnWall F fuel cells playerPos x).map fun wall => drawColumn F b x wall.1 wall.2 := by
  rw [renderColumn, columnWall]
  simp only [Option.map_map]
  rfl

def wallFilm (cells : Cells) (playerPos : FloatVec φ) : Film Nat (BitVec 32) := fun p =>
  (columnWall F 32 cells playerPos (p % screenWidth)).bind fun wall =>
    columnFilm F (p % screenWidth) wall.1 wall.2 p

theorem columnFilm_ne {x side p : Nat} {distance : φ} (h : x ≠ p % screenWidth) :
    columnFilm F x side distance p = none := if_neg fun hshows => h hshows.1.symm

/-- **The walls are laid** over the canvas. -/
theorem lays_renderVoxelWorld (cells : Cells) {playerPos : FloatVec φ} (h : PlayerRoom F playerPos)
    (b : BackBuffer) : ∃ b', renderVoxelWorld F 32 cells playerPos b = some b' ∧
      ∀ p, b' p = (wallFilm F cells playerPos p).getD (b p) := by
  have hwall : ∀ x, ∃ wall, columnWall F 32 cells playerPos x = some wall := by
    intro x
    obtain ⟨b', hb'⟩ := renderColumn_ends F cells h b x
    rw [renderColumn_eq, Option.map_eq_some_iff] at hb'
    obtain ⟨wall, hwall, -⟩ := hb'
    exact ⟨wall, hwall⟩
  choose wall hwall using hwall
  have hloop : ∀ (l : List Nat) (b : BackBuffer), l.foldlM (renderColumn F 32 cells playerPos) b =
      some (l.foldl (fun b x => drawColumn F b x (wall x).1 (wall x).2) b) := by
    intro l
    induction l with
    | nil => exact fun _ => rfl
    | cons x l ih =>
      intro b
      rw [List.foldlM_cons, renderColumn_eq, hwall]
      exact ih _
  refine ⟨_, hloop _ b, ?_⟩
  intro p
  have hcolumn : p % screenWidth < screenWidth := Nat.mod_lt _ (by decide)
  have hdraw : ∀ x ∈ List.range screenWidth,
      Lays (fun b => drawColumn F b x (wall x).1 (wall x).2)
        (columnFilm F x (wall x).1 (wall x).2) :=
    fun x hx => lays_drawColumn F (List.mem_range.mp hx) (wall x).1 (wall x).2
  have hlays := lays_foldl hdraw b p
  simp only at hlays
  rw [hlays, stack_map_eq (List.mem_range.mpr hcolumn) (fun x _ hx => columnFilm_ne F hx), wallFilm,
    hwall]
  rfl

/-! ### Particles -/

def particleX (p : Particle φ) : Int :=
  F.toInt (F.add (F.mul p.position.y (F.lit 40)) (F.ofInt (screenWidth / 2)))

def particleY (p : Particle φ) : Int :=
  F.toInt (F.add (F.mul p.position.z (F.lit 40)) (F.ofInt (screenHeight / 2)))

/-- The 2x2 block of a particle that is active, if all of it is on the screen. -/
def blockFilm (particle : Particle φ) : Film Nat (BitVec 32) := fun p =>
  if particle.active ≠ 0 ∧ 0 ≤ particleX F particle ∧ particleX F particle < screenWidth - 1 ∧
      0 ≤ particleY F particle ∧ particleY F particle < screenHeight - 1 ∧
      ((p % screenWidth : Nat) - particleX F particle = 0 ∨
        (p % screenWidth : Nat) - particleX F particle = 1) ∧
      ((p / screenWidth : Nat) - particleY F particle = 0 ∨
        (p / screenWidth : Nat) - particleY F particle = 1)
    then some particle.color else none

theorem or_of_color (P Q : Prop) [Decidable P] [Decidable Q] (color : BitVec 32) :
    (if P then some color else none).or (if Q then some color else none) =
      if P ∨ Q then some color else none := by
  by_cases hP : P
  · rw [if_pos hP, if_pos (Or.inl hP : P ∨ Q), Option.some_or]
  · rw [if_neg hP, Option.none_or]
    exact if_congr (by simp [hP]) rfl rfl

theorem lays_renderParticle {particle : Particle φ} (hactive : particle.active ≠ 0) :
    Lays (renderParticle F particle) (blockFilm F particle) := by
  intro b p
  by_cases hin : 0 ≤ particleX F particle ∧ particleX F particle < screenWidth - 1 ∧
      0 ≤ particleY F particle ∧ particleY F particle < screenHeight - 1
  · have hpixel : ∀ (x y : Int), 0 ≤ x → x < screenWidth → 0 ≤ y → y < screenHeight →
        Lays (fun b => putPixelBuffer b (BitVec.ofInt 32 x) (BitVec.ofInt 32 y) particle.color)
          fun p => if p % screenWidth = x.toNat ∧ p / screenWidth = y.toNat then
            some particle.color else none := by
      intro x y hx hx' hy hy' b p
      unfold screenWidth at hx'
      unfold screenHeight at hy'
      have hxnat : (BitVec.ofInt 32 x).toNat = x.toNat := by rw [BitVec.toNat_ofInt]; omega
      have hynat : (BitVec.ofInt 32 y).toNat = y.toNat := by rw [BitVec.toNat_ofInt]; omega
      have hput := lays_putPixelBuffer (BitVec.ofInt 32 x) (BitVec.ofInt 32 y) particle.color b p
      rwa [hxnat, hynat, pixelFilm_apply _ (by unfold screenWidth; omega)
        (by unfold screenHeight; omega)] at hput
    obtain ⟨hx, hx', hy, hy'⟩ := hin
    have hfilms := (((hpixel _ _ hx (by omega) hy (by omega)).comp
      (hpixel (particleX F particle + 1) (particleY F particle) (by omega) (by omega) hy
        (by omega))).comp
      (hpixel (particleX F particle) (particleY F particle + 1) hx (by omega) (by omega)
        (by omega))).comp
      (hpixel (particleX F particle + 1) (particleY F particle + 1) (by omega) (by omega) (by omega)
        (by omega)) b p
    have hrender : renderParticle F particle b p = _ :=
      (congrFun (if_pos ⟨hx, hx', hy, hy'⟩) p).trans hfilms
    rw [hrender]
    congr 1
    simp only [Film.over, or_of_color, blockFilm]
    refine if_congr ?_ rfl rfl
    simp only [ne_eq, hactive, not_false_eq_true, true_and]
    omega
  · have hrender : renderParticle F particle b p = b p := congrFun (if_neg hin) p
    rw [hrender, blockFilm, if_neg fun h => hin ⟨h.2.1, h.2.2.1, h.2.2.2.1, h.2.2.2.2.1⟩]
    rfl

/-- **The particles are laid** over the canvas after their tick, one slot after another. -/
theorem updateAndRenderParticles_backBuffer (s : ParticleSystem φ) (p : Nat) :
    (updateAndRenderParticles F s).backBuffer p =
      (stack ((List.range maxParticles).map fun i =>
        blockFilm F (tickParticle F (s.particlePool i))) p).getD (s.backBuffer p) := by
  -- the rounds so far have changed no slot that is still to come
  have hloop : ∀ n, (∀ i, n ≤ i → ((List.range n).foldl (updateParticle F) s).particlePool i =
      s.particlePool i) ∧ ∀ p, ((List.range n).foldl (updateParticle F) s).backBuffer p =
        (stack ((List.range n).map fun i => blockFilm F (tickParticle F (s.particlePool i)))
          p).getD (s.backBuffer p) := by
    intro n
    induction n with
    | zero => exact ⟨fun _ _ => rfl, fun _ => rfl⟩
    | succ n ih =>
      obtain ⟨hpool, hbuffer⟩ := ih
      rw [List.range_succ, List.foldl_concat, List.map_append, List.map_singleton]
      refine ⟨?_, ?_⟩
      · intro i hi
        rw [updateParticle]
        simp only
        rw [Function.update_of_ne (by omega), hpool i (by omega)]
      · intro p
        rw [updateParticle, stack_concat]
        simp only
        rw [hpool n (le_refl n)]
        by_cases hactive : (tickParticle F (s.particlePool n)).active = 0
        · rw [if_pos hactive, hbuffer, blockFilm, if_neg fun h => h.1 hactive, Option.none_or]
        · rw [if_neg hactive, lays_renderParticle F hactive, hbuffer]
          cases blockFilm F (tickParticle F (s.particlePool n)) p <;> rfl
  exact (hloop maxParticles).2 p

/-! ### The framebuffer -/

def LfbShows (m : Mem) (colors : Nat → BitVec 32) : Prop :=
  ∀ p < totalScreenPixels, load32 m (lfbWord p) = (colors p).toNat

/-- No byte outside of the framebuffer differs. -/
def LfbOnly (m m' : Mem) : Prop :=
  ∀ a < 2 ^ 32, a < lfbWord 0 ∨ lfbWord totalScreenPixels ≤ a → m' a = m a

theorem val_swapGraphicsBuffers (b : BackBuffer) (m : Mem) : (swapGraphicsBuffers b m).val =
    fillWords m vbeLfbPhysicalAddress (fun i => (b i).toNat) totalScreenPixels := by
  rw [swapGraphicsBuffers, Logged.val_foldl]
  rfl

/-- **A swap** puts the whole canvas on the screen. -/
theorem swapGraphicsBuffers_shows (b : BackBuffer) (m : Mem) :
    LfbShows (swapGraphicsBuffers b m).val b := by
  intro p hp
  rw [val_swapGraphicsBuffers]
  exact load32_fillWords m (f := fun i => (b i).toNat) (by decide) hp fun j _ => (b j).isLt

theorem swapGraphicsBuffers_lfbOnly (b : BackBuffer) (m : Mem) :
    LfbOnly m (swapGraphicsBuffers b m).val := by
  intro a ha hout
  rw [val_swapGraphicsBuffers]
  exact fillWords_apply_out m _ (by decide) ha hout

theorem LfbOnly.trans {m m' m'' : Mem} (h : LfbOnly m m') (h' : LfbOnly m' m'') : LfbOnly m m'' :=
  fun a ha hout => (h' a ha hout).trans (h a ha hout)

structure PixelCall where
  x : BitVec 32
  y : BitVec 32
  color : BitVec 32

def drawBuffered (b : BackBuffer) (calls : List PixelCall) : BackBuffer :=
  calls.foldl (fun b call => putPixelBuffer b call.x call.y call.color) b

/-- Pixels drawn onto the screen itself. -/
def drawDirect (m : Mem) (calls : List PixelCall) : Mem :=
  calls.foldl (fun m call => (putPixel m call.x call.y call.color).val) m

theorem putPixel_shows {m : Mem} {b : BackBuffer} (h : LfbShows m b) (x y color : BitVec 32) :
    LfbShows (putPixel m x y color).val (putPixelBuffer b x y color) ∧
      LfbOnly m (putPixel m x y color).val := by
  rw [putPixel, putPixelBuffer]
  by_cases hout : screenWidth ≤ x.toNat ∨ screenHeight ≤ y.toNat
  · rw [if_pos hout, if_pos hout]
    exact ⟨h, fun _ _ _ => rfl⟩
  · rw [if_neg hout, if_neg hout]
    unfold screenWidth screenHeight at hout
    have hpixel : y.toNat * screenWidth + x.toNat < totalScreenPixels := by
      unfold screenWidth totalScreenPixels
      omega
    generalize y.toNat * screenWidth + x.toNat = i at hpixel
    show LfbShows (store32 m (lfbWord i) color.toNat) _ ∧ LfbOnly m (store32 m (lfbWord i) color.toNat)
    unfold totalScreenPixels at hpixel
    refine ⟨?_, ?_⟩
    · intro p hp
      unfold totalScreenPixels at hp
      rw [Function.update_apply]
      by_cases hpi : p = i
      · rw [hpi, if_pos rfl, load32_store32_same _ _ color.isLt]
      · rw [if_neg hpi, load32_store32_apart, h p hp]
        · simp only [Off, lfbWord, vbeLfbPhysicalAddress]
          omega
        · simp only [Off, lfbWord, vbeLfbPhysicalAddress]
          omega
    · intro a ha hfar
      refine store32_apply_out m color.toNat ?_
      simp only [lfbWord, vbeLfbPhysicalAddress, totalScreenPixels, Off] at *
      omega

theorem drawDirect_shows {m : Mem} {b : BackBuffer} (h : LfbShows m b) (calls : List PixelCall) :
    LfbShows (drawDirect m calls) (drawBuffered b calls) ∧ LfbOnly m (drawDirect m calls) := by
  induction calls generalizing m b with
  | nil => exact ⟨h, fun _ _ _ => rfl⟩
  | cons call calls ih =>
    obtain ⟨hshows, honly⟩ := putPixel_shows h call.x call.y call.color
    obtain ⟨hshows', honly'⟩ := ih hshows
    exact ⟨hshows', honly.trans honly'⟩

/-- **Drawing behind the scenes**: pixels that are drawn onto the canvas and swapped show what
they would have shown on the screen, and neither way touches anything else. -/
theorem buffered_eq_direct (b : BackBuffer) (m : Mem) (calls : List PixelCall) :
    (∀ p < totalScreenPixels,
      load32 (swapGraphicsBuffers (drawBuffered b calls) m).val (lfbWord p) =
        load32 (drawDirect (swapGraphicsBuffers b m).val calls) (lfbWord p)) ∧
      LfbOnly m (swapGraphicsBuffers (drawBuffered b calls) m).val ∧
      LfbOnly m (drawDirect (swapGraphicsBuffers b m).val calls) := by
  obtain ⟨hdirect, honly⟩ := drawDirect_shows (swapGraphicsBuffers_shows b m) calls
  refine ⟨?_, swapGraphicsBuffers_lfbOnly _ m, (swapGraphicsBuffers_lfbOnly b m).trans honly⟩
  intro p hp
  rw [swapGraphicsBuffers_shows _ m p hp, hdirect p hp]

/-! ### Frames -/

def localPlayerPosition : FloatVec φ := ⟨F.lit (9 / 2), F.lit (9 / 2), F.lit 0⟩

/-- A round of `display_server_thread_loop`, up to its `switch_task`; `none` when the loop of a
column goes on after `fuel` rounds. -/
def displayFrame (fuel : Nat) (cells : Cells) (s : ParticleSystem φ) (m : Mem) :
    Option (ParticleSystem φ × Mem) :=
  (renderVoxelWorld F fuel cells (localPlayerPosition F)
    (clearBackBuffer s.backBuffer 0x001A1E24)).map fun b =>
      let s := updateAndRenderParticles F { s with backBuffer := b }
      (s, (swapGraphicsBuffers s.backBuffer m).val)

/-- The particles over the walls over the background. -/
def picture (cells : Cells) (pool : Nat → Particle φ) (p : Nat) : BitVec 32 :=
  ((stack ((List.range maxParticles).map fun i => blockFilm F (pool i)) p).or
    (wallFilm F cells (localPlayerPosition F) p)).getD 0x001A1E24

/-- **What a frame shows** is the picture, whatever was on the canvas and on the screen. -/
theorem displayFrame_shows (hcast : F.toInt (F.lit (9 / 2)) = 4) (cells : Cells)
    (s : ParticleSystem φ) (m : Mem) : ∃ b m', displayFrame F 32 cells s m =
        some (updateAndRenderParticles F { s with backBuffer := b }, m') ∧
      LfbShows m' (picture F cells
        (updateAndRenderParticles F { s with backBuffer := b }).particlePool) ∧ LfbOnly m m' := by
  have hroom : PlayerRoom F (localPlayerPosition F) := by
    intro step hstep
    rw [localPlayerPosition, hcast]
    exact ⟨room_of_onMap hstep (by decide) (by decide), room_of_onMap hstep (by decide) (by decide)⟩
  obtain ⟨b, hrender, hb⟩ := lays_renderVoxelWorld F cells hroom
    (clearBackBuffer s.backBuffer 0x001A1E24)
  have hshows : ∀ p < totalScreenPixels,
      (updateAndRenderParticles F { s with backBuffer := b }).backBuffer p =
        picture F cells (updateAndRenderParticles F { s with backBuffer := b }).particlePool p := by
    intro p hp
    have hslots : (List.range maxParticles).map (fun i => blockFilm F
          ((updateAndRenderParticles F { s with backBuffer := b }).particlePool i)) =
        (List.range maxParticles).map fun i => blockFilm F (tickParticle F (s.particlePool i)) := by
      refine List.map_congr_left fun i hi => ?_
      rw [updateAndRenderParticles_pool F _ (List.mem_range.mp hi)]
    have hclear := lays_clearBackBuffer 0x001A1E24 s.backBuffer p
    simp only at hclear
    rw [if_pos hp] at hclear
    rw [updateAndRenderParticles_backBuffer, picture, hslots]
    simp only
    rw [hb p, hclear]
    cases stack ((List.range maxParticles).map fun i =>
      blockFilm F (tickParticle F (s.particlePool i))) p <;> rfl
  refine ⟨b, (swapGraphicsBuffers
    (updateAndRenderParticles F { s with backBuffer := b }).backBuffer m).val, ?_, ?_, ?_⟩
  · rw [displayFrame, hrender]
    rfl
  · intro p hp
    rw [swapGraphicsBuffers_shows _ m p hp, hshows p hp]
  · exact swapGraphicsBuffers_lfbOnly _ m

/-! ### Histories of the display -/

/-- What happens between the frames and what makes one: a particle is spawned, the world is changed,
the display server has its turn. -/
inductive DisplayEvent (φ : Type)
  | spawn (a : SpawnArgs φ)
  | edit (cells : Cells)
  | frame

/-- The map, the particles and the memory. -/
structure Display (φ : Type) where
  worldMap : Cells
  particles : Tagged φ
  mem : Mem

def DisplayEvent.apply (fuel : Nat) (d : Display φ) : DisplayEvent φ → Option (Display φ)
  | .spawn a => some { d with particles := (ParticleCall.spawn a).apply F d.particles }
  | .edit cells => some { d with worldMap := cells }
  | .frame => (displayFrame F fuel d.worldMap d.particles.system d.mem).map fun (s, m) =>
      { d with particles := { d.particles with system := s }, mem := m }

/-- The events `es`, oldest first. -/
def runDisplay (fuel : Nat) (d : Display φ) (es : List (DisplayEvent φ)) : Option (Display φ) :=
  es.foldlM (DisplayEvent.apply F fuel) d

def particleCalls : List (DisplayEvent φ) → List (ParticleCall φ)
  | [] => []
  | .spawn a :: es => .spawn a :: particleCalls es
  | .edit _ :: es => particleCalls es
  | .frame :: es => .update :: particleCalls es

theorem RingInv.of_backBuffer {h : List (ParticleCall φ)} {t : Tagged φ} (H : RingInv h t)
    (b : BackBuffer) : RingInv h { t with system := { t.system with backBuffer := b } } :=
  ⟨H.spawned, H.next, H.owner_iff, H.slots, H.untouched⟩

/-- An event keeps the law of the ring, and all but a frame leave the memory. -/
theorem DisplayEvent.apply_spec (hcast : F.toInt (F.lit (9 / 2)) = 4) {h : List (ParticleCall φ)}
    {d : Display φ} (H : RingInv h d.particles) (e : DisplayEvent φ) :
    ∃ d', e.apply F 32 d = some d' ∧ RingInv (h ++ particleCalls [e]) d'.particles ∧
      (e ≠ .frame → d'.mem = d.mem) ∧
      (e = .frame → LfbShows d'.mem (picture F d'.worldMap d'.particles.system.particlePool)) := by
  cases e with
  | spawn a => exact ⟨_, rfl, H.spawn F a, fun _ => rfl, fun he => nomatch he⟩
  | edit cells =>
    refine ⟨_, rfl, ?_, fun _ => rfl, fun he => nomatch he⟩
    rw [particleCalls, particleCalls, List.append_nil]
    exact H
  | frame =>
    obtain ⟨b, m', hframe, hshows, -⟩ := displayFrame_shows F hcast d.worldMap d.particles.system
      d.mem
    refine ⟨{ d with
      particles := { d.particles with
        system := updateAndRenderParticles F { d.particles.system with backBuffer := b } }
      mem := m' }, ?_, (H.of_backBuffer b).update F, fun he => absurd rfl he, fun _ => hshows⟩
    rw [DisplayEvent.apply, hframe]
    rfl

theorem particleCalls_append (es es' : List (DisplayEvent φ)) :
    particleCalls (es ++ es') = particleCalls es ++ particleCalls es' := by
  induction es with
  | nil => rfl
  | cons e es ih => cases e <;> simp [particleCalls, ih]

/-- **Every history** goes through, with the law of the ring. -/
theorem runDisplay_spec (hcast : F.toInt (F.lit (9 / 2)) = 4) {h : List (ParticleCall φ)}
    {d : Display φ} (H : RingInv h d.particles) (es : List (DisplayEvent φ)) :
    ∃ d', runDisplay F 32 d es = some d' ∧ RingInv (h ++ particleCalls es) d'.particles ∧
      ((∀ e ∈ es, e ≠ .frame) → d'.mem = d.mem) := by
  induction es generalizing h d with
  | nil => exact ⟨d, rfl, (List.append_nil h).symm ▸ H, fun _ => rfl⟩
  | cons e es ih =>
    obtain ⟨d1, h1, H1, hmem1, -⟩ := DisplayEvent.apply_spec F hcast H e
    obtain ⟨d2, h2, H2, hmem2⟩ := ih H1
    refine ⟨d2, ?_, ?_, ?_⟩
    · rw [runDisplay, List.foldlM_cons, h1]
      exact h2
    · rw [List.append_assoc, ← particleCalls_append] at H2
      exact H2
    · intro hquiet
      rw [hmem2 fun e he => hquiet e (List.mem_cons_of_mem _ he), hmem1 (hquiet e List.mem_cons_self)]

/-- A particle spawned with `a` is alive in slot `i` after the calls `h`. -/
def AliveIn (h : List (ParticleCall φ)) (i : Nat) (a : SpawnArgs φ) : Prop :=
  ∃ before after, h = before ++ .spawn a :: after ∧ spawnCount before % maxParticles = i ∧
    spawnCount after < maxParticles ∧ (updateCount after : Int) < max a.lifespan.toInt 1

/-- **The slots that are drawn** are those with a particle alive, in its color. -/
theorem RingInv.active_iff {h : List (ParticleCall φ)} {t : Tagged φ} (H : RingInv h t) {i : Nat}
    (hi : i < maxParticles) : ((t.system.particlePool i).active ≠ 0 ↔ ∃ a, AliveIn h i a) ∧
      ∀ a, AliveIn h i a → (t.system.particlePool i).color = a.color := by
  refine ⟨⟨?_, ?_⟩, ?_⟩
  · intro hactive
    by_contra hnone
    refine hactive (H.inactive hi ?_)
    intro j hj hin
    have hspawned : j < spawnCount h := ((H.owner_iff i hi j).mp (hj ▸ hin.1)).2.1
    obtain ⟨before, a, after, he, rfl⟩ := (exists_spawn_iff h j).mpr hspawned
    exact hnone ⟨a, before, after, he, hj, (H.activeIn_iff he).mp hin⟩
  · rintro ⟨a, before, after, he, rfl, halive⟩
    exact ((H.activeIn_iff he).mpr halive).2
  · rintro a ⟨before, after, he, rfl, hlt, -⟩
    exact (H.slots before a after he hlt).color

/-- **The screen after any history** shows the picture of the last frame: the world as it was then,
and the particles that were alive then. -/
theorem screen_shows_lastFrame (hcast : F.toInt (F.lit (9 / 2)) = 4) (cells : Cells)
    (s : ParticleSystem φ) (m : Mem) (before quiet : List (DisplayEvent φ))
    (hquiet : ∀ e ∈ quiet, e ≠ .frame) : ∃ d d',
      runDisplay F 32 ⟨cells, ⟨initParticleSystem s, fun _ => none, 0⟩, m⟩ (before ++ [.frame]) =
        some d ∧
      runDisplay F 32 d quiet = some d' ∧
      LfbShows d'.mem (picture F d.worldMap d.particles.system.particlePool) ∧
      ∀ i < maxParticles,
        ((d.particles.system.particlePool i).active ≠ 0 ↔
          ∃ a, AliveIn (particleCalls before ++ [.update]) i a) ∧
        ∀ a, AliveIn (particleCalls before ++ [.update]) i a →
          (d.particles.system.particlePool i).color = a.color := by
  obtain ⟨d0, h0, H0, -⟩ := runDisplay_spec F hcast
    (d := ⟨cells, ⟨initParticleSystem s, fun _ => none, 0⟩, m⟩) (ringInv_init s) before
  obtain ⟨d, h1, H, -, hshows⟩ := DisplayEvent.apply_spec F hcast H0 .frame
  obtain ⟨d', h2, -, hmem⟩ := runDisplay_spec F hcast H quiet
  refine ⟨d, d', ?_, h2, ?_, fun i hi => H.active_iff hi⟩
  · rw [runDisplay, List.foldlM_append, ← runDisplay, h0]
    simp only [Option.bind_eq_bind, Option.bind_some, List.foldlM_cons, h1, List.foldlM_nil]
    rfl
  · rw [hmem hquiet]
    exact hshows rfl

end

/-- A spark in the middle of the screen, for 3 ticks. -/
def spark : SpawnArgs ℚ where
  pos := ⟨0, 0, 0⟩
  vel := ⟨0, 0, 0⟩
  color := 0x00FFFFFF
  lifespan := 3
  above_least := by decide

def noParticles : ParticleSystem ℚ where
  particlePool _ := ⟨0, ⟨0, 0, 0⟩, ⟨0, 0, 0⟩, 0, 0⟩
  nextParticleSlot := 0
  backBuffer _ := 0

/-- A spark and a frame, and then the map is cleared. -/
theorem screen_shows_spark : ∃ d d',
    runDisplay rationalOps 32 ⟨fun _ => 1, ⟨initParticleSystem noParticles, fun _ => none, 0⟩, fun _ => 0⟩
      ([.spawn spark] ++ [.frame]) = some d ∧
    runDisplay rationalOps 32 d [.edit fun _ => 0] = some d' ∧
    LfbShows d'.mem (picture rationalOps d.worldMap d.particles.system.particlePool) ∧
    ∀ i < maxParticles,
      ((d.particles.system.particlePool i).active ≠ 0 ↔
        ∃ a, AliveIn (particleCalls [.spawn spark] ++ [.update]) i a) ∧
      ∀ a, AliveIn (particleCalls [.spawn spark] ++ [.update]) i a →
        (d.particles.system.particlePool i).color = a.color := by
  have hcast : rationalOps.toInt (rationalOps.lit (9 / 2)) = 4 := by decide +kernel
  refine screen_shows_lastFrame rationalOps hcast (fun _ => 1) noParticles (fun _ => 0) [.spawn spark]
    [.edit fun _ => 0] ?_
  intro e he
  rw [List.mem_singleton.mp he]
  exact fun h => nomatch h

end Antagonist
