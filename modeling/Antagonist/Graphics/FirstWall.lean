import Antagonist.Graphics.Picture
import Antagonist.Lib.GridRay
import Mathlib.Tactic.NormNum

/-!
# The walls that are seen

The ray caster over exact rationals.  The two distances of the DDA loop are the times at which its
ray crosses the next line of either axis, and so a round of the loop takes the earlier one of these
crossings (`jump_crossings`): the path of `Lib.GridRay`.  A direction of zero gets the distance
`1e30`, which is far beyond the map from any `float` (`IsFloat.gap`).

* `ddaLoop_path`: the loop ends at the first tile of the path that is a wall or off the map.
* `columnWall_firstWall`: the distance of a column is that of the first wall on its ray.
* `walls_seen`: **the picture of the walls**.
-/

namespace Antagonist

open GridRay Logged

/-! ### The loop -/

/-- A tile that ends the loop: a wall, or one that is off the map. -/
def Blocked (cells : Cells) (x y : Int) : Prop := OnMap x y → 0 < (cells (cellIndex x y)).toNat

instance (cells : Cells) (x y : Int) : Decidable (Blocked cells x y) :=
  inferInstanceAs (Decidable (_ → _))

theorem ddaLoop_round {δ : Type} (cells : Cells) (D : Distances δ) (stepX stepY : Int) (fuel : Nat)
    (s : Dda δ) : (ddaLoop cells D stepX stepY (fuel + 1) s).val =
      if Blocked cells (s.jump D stepX stepY).mapX (s.jump D stepX stepY).mapY
        then some (s.jump D stepX stepY)
        else (ddaLoop cells D stepX stepY fuel (s.jump D stepX stepY)).val := by
  rw [ddaLoop, val_bind, val_entry]
  by_cases hon : OnMap (s.jump D stepX stepY).mapX (s.jump D stepX stepY).mapY
  · rw [if_neg (not_not.mpr hon), val_bind, val_entry]
    by_cases hsolid : 0 < (cells (cellIndex (s.jump D stepX stepY).mapX
        (s.jump D stepX stepY).mapY)).toNat
    · have hblocked : Blocked cells (s.jump D stepX stepY).mapX (s.jump D stepX stepY).mapY :=
        fun _ => hsolid
      rw [if_pos hsolid, if_pos hblocked]
      rfl
    · rw [if_neg hsolid, if_neg fun hblocked => hsolid (hblocked hon)]
  · have hblocked : Blocked cells (s.jump D stepX stepY).mapX (s.jump D stepX stepY).mapY :=
      fun hon' => absurd hon' hon
    rw [if_pos hon, if_pos hblocked]
    rfl

section

variable {A B : GridAxis ℚ} {cells : Cells} {deltaX deltaY : ℚ} {stepX stepY : Int}

/-- The variables of the loop, after the crossings that lie behind. -/
def crossings (A B : GridAxis ℚ) (s : Passed) (side : Nat) : Dda (ℚ × ℚ) :=
  ⟨(A.crossing s.x, B.crossing s.y), A.cell s.x, B.cell s.y, side⟩

def crossingSide (A B : GridAxis ℚ) (s : Passed) : Nat :=
  if A.crossing s.x < B.crossing s.y then 0 else 1

/-- The loop goes along the axis with these distances and steps. -/
structure Paced (A : GridAxis ℚ) (delta : ℚ) (step : Int) : Prop where
  crossing : ∀ k, A.crossing (k + 1) = A.crossing k + delta
  cell : ∀ k, A.cell (k + 1) = A.cell k + step

/-- **A round of the loop** takes the earlier crossing. -/
theorem jump_crossings (hA : Paced A deltaX stepX) (hB : Paced B deltaY stepY) (s : Passed)
    (side : Nat) : (crossings A B s side).jump (floatDistances rationalOps deltaX deltaY) stepX stepY =
      crossings A B (s.next A B) (crossingSide A B s) := by
  rw [Dda.jump, Passed.next, crossingSide, crossings]
  simp only [floatDistances, rationalOps, decide_eq_true_eq]
  by_cases hcloser : A.crossing s.x < B.crossing s.y
  · rw [if_pos hcloser, if_pos hcloser, if_pos hcloser, crossings, hA.crossing, hA.cell]
  · rw [if_neg hcloser, if_neg hcloser, if_neg hcloser, crossings, hB.crossing, hB.cell]

/-- The tile after `n` crossings. -/
def BlockedAt (cells : Cells) (A B : GridAxis ℚ) (n : Nat) : Prop :=
  Blocked cells (A.cell (Passed.after A B n).x) (B.cell (Passed.after A B n).y)

/-- **Where the loop ends**: at the first blocked tile of the path. -/
theorem ddaLoop_path (hA : Paced A deltaX stepX) (hB : Paced B deltaY stepY) {fuel n side : Nat}
    {t : Dda (ℚ × ℚ)} (h : (ddaLoop cells (floatDistances rationalOps deltaX deltaY) stepX stepY fuel
      (crossings A B (Passed.after A B n) side)).val = some t) :
    ∃ k, n ≤ k ∧
      t = crossings A B (Passed.after A B (k + 1)) (crossingSide A B (Passed.after A B k)) ∧
      (∀ m, n < m → m ≤ k → ¬ BlockedAt cells A B m) ∧ BlockedAt cells A B (k + 1) := by
  induction fuel generalizing n side with
  | zero => cases h
  | succ fuel ih =>
    have hjump := jump_crossings hA hB (Passed.after A B n) side
    rw [← Passed.after_succ] at hjump
    rw [ddaLoop_round, hjump] at h
    by_cases hblocked : BlockedAt cells A B (n + 1)
    · refine ⟨n, le_refl n, ?_, fun m hm hmn => absurd hmn (not_le.mpr hm), hblocked⟩
      exact (Option.some.inj ((if_pos hblocked).symm.trans h)).symm
    · obtain ⟨k, hk, ht, hfree, hend⟩ := ih ((if_neg hblocked).symm.trans h)
      refine ⟨k, Nat.le_of_succ_le hk, ht, ?_, hend⟩
      intro m hm hmk
      rcases Nat.eq_or_lt_of_le (Nat.succ_le_of_lt hm) with rfl | hlt
      · exact hblocked
      · exact hfree m hlt hmk

end

/-! ### Floats -/

/-- The value of a `float`: 24 bits and an exponent. -/
def IsFloat (q : ℚ) : Prop := ∃ m e : Int, |m| < 2 ^ 24 ∧ q = m * (2 : ℚ) ^ e

/-- **No `float` is close below a tile**: they are multiples of `2 ^ -24`, or small. -/
theorem IsFloat.gap {q : ℚ} (h : IsFloat q) (hq : 0 ≤ q) :
    (1 / 2 ^ 24 : ℚ) ≤ (truncate q : ℚ) + 1 - q := by
  obtain ⟨m, e, hm, he⟩ := h
  have hfloor : truncate q = ⌊q⌋ := if_pos hq
  rw [hfloor]
  by_cases hexp : -24 ≤ e
  · obtain ⟨n, hn⟩ := Int.eq_ofNat_of_zero_le (by omega : 0 ≤ e + 24)
    have hscaled : q * 2 ^ 24 = ((m * 2 ^ n : Int) : ℚ) := by
      have hpow : (2 : ℚ) ^ e * 2 ^ 24 = 2 ^ n := by
        rw [← zpow_natCast (2 : ℚ) 24, ← zpow_add₀ (by norm_num), ← zpow_natCast (2 : ℚ) n]
        congr 1
      rw [he, mul_assoc, hpow]
      push_cast
      rfl
    have hlt := Int.lt_floor_add_one q
    have hint : (m * 2 ^ n : Int) < (⌊q⌋ + 1) * 2 ^ 24 := by
      have hcast : ((m * 2 ^ n : Int) : ℚ) < (((⌊q⌋ + 1) * 2 ^ 24 : Int) : ℚ) := by
        rw [← hscaled]
        push_cast
        linarith
      exact_mod_cast hcast
    have hstep : ((m * 2 ^ n : Int) : ℚ) + 1 ≤ (((⌊q⌋ + 1) * 2 ^ 24 : Int) : ℚ) := by
      exact_mod_cast hint
    rw [← hscaled] at hstep
    push_cast at hstep
    linarith
  · have hsmall : q ≤ 1 / 2 := by
      have hm' : (m : ℚ) ≤ 2 ^ 24 := by exact_mod_cast (le_of_lt (lt_of_abs_lt hm))
      have hexp' : (2 : ℚ) ^ e ≤ 2 ^ (-25 : Int) := zpow_le_zpow_right₀ (by norm_num) (by omega)
      have hpos : (0 : ℚ) ≤ 2 ^ e := (zpow_pos (by norm_num) e).le
      calc q = m * (2 : ℚ) ^ e := he
        _ ≤ 2 ^ 24 * (2 : ℚ) ^ e := mul_le_mul_of_nonneg_right hm' hpos
        _ ≤ 2 ^ 24 * (2 : ℚ) ^ (-25 : Int) := mul_le_mul_of_nonneg_left hexp' (by norm_num)
        _ = 1 / 2 := by norm_num
    have hfloor0 : ⌊q⌋ = 0 := Int.floor_eq_zero_iff.mpr ⟨hq, by linarith⟩
    rw [hfloor0]
    norm_num
    linarith

/-! ### The rays of the columns -/

def cameraX (x : Nat) : ℚ := 2 * x / 800 - 1

/-- `ray_dir_x` of column `x`; its `ray_dir_y` is `camera_x`. -/
def rayDirX (x : Nat) : ℚ := 1 - cameraX x * cameraX x

def rayAxis (pos dir : ℚ) : GridAxis ℚ :=
  GridAxis.uniform pos dir (truncate pos) (deltaDist rationalOps dir)

/-- A coordinate of a player on the map. -/
structure OnTile (pos : ℚ) : Prop where
  nonneg : 0 ≤ pos
  lt : pos < 16
  float : IsFloat pos

/-- `step_x` or `step_y`. -/
def stepOf (dir : ℚ) : Int := if dir < 0 then -1 else 1

theorem deltaDist_still : deltaDist rationalOps 0 = 10 ^ 30 := by
  simp [deltaDist, rationalOps]

theorem deltaDist_exact {dir : ℚ} (hdir : dir ≠ 0) : deltaDist rationalOps dir = |dir|⁻¹ := by
  simp only [deltaDist, rationalOps, Int.cast_zero, decide_eq_true_eq, if_neg hdir, one_div]
  rw [← abs_inv]
  by_cases hneg : dir⁻¹ < 0
  · rw [if_pos hneg, abs_of_neg hneg]
  · rw [if_neg hneg, abs_of_nonneg (not_lt.mp hneg)]

theorem deltaDist_mul {dir : ℚ} (hdir : dir ≠ 0) : deltaDist rationalOps dir * |dir| = 1 := by
  rw [deltaDist_exact hdir]
  exact inv_mul_cancel₀ (abs_ne_zero.mpr hdir)

theorem deltaDist_nonneg (dir : ℚ) : 0 ≤ deltaDist rationalOps dir := by
  by_cases hdir : dir = 0
  · rw [hdir, deltaDist_still]
    norm_num
  · rw [deltaDist_exact hdir]
    exact inv_nonneg.mpr (abs_nonneg dir)

section

variable {pos dir T : ℚ}

theorem firstStep_exact (pos dir : ℚ) : firstStep rationalOps dir pos (truncate pos)
    (deltaDist rationalOps dir) = (stepOf dir, (rayAxis pos dir).crossing 0) := by
  simp only [firstStep, stepOf, rayAxis, GridAxis.uniform, rationalOps, Int.cast_zero,
    decide_eq_true_eq, Nat.cast_zero, zero_mul, add_zero]
  by_cases hdir : dir < 0
  · simp only [if_pos hdir]
  · simp only [if_neg hdir]

theorem paced_rayAxis (pos dir : ℚ) :
    Paced (rayAxis pos dir) (deltaDist rationalOps dir) (stepOf dir) := by
  refine ⟨fun k => ?_, fun k => ?_⟩
  · simp only [rayAxis, GridAxis.uniform]
    push_cast
    ring
  · simp only [rayAxis, GridAxis.uniform, stepOf]
    split
    · push_cast
      omega
    · push_cast
      omega

theorem OnTile.closed (h : OnTile pos) :
    ((truncate pos : Int) : ℚ) ≤ pos ∧ pos ≤ ((truncate pos : Int) : ℚ) + 1 := by
  rw [truncate, if_pos h.nonneg]
  exact ⟨Int.floor_le pos, (Int.lt_floor_add_one pos).le⟩

theorem OnTile.tile (h : OnTile pos) : 0 ≤ truncate pos ∧ truncate pos < 16 := by
  rw [truncate, if_pos h.nonneg]
  exact ⟨Int.floor_nonneg.mpr h.nonneg, Int.floor_lt.mpr (by exact_mod_cast h.lt)⟩

/-- A ray that does not move along an axis crosses no line of it within the map. -/
theorem OnTile.still (h : OnTile pos) : 17 ≤ (rayAxis pos 0).crossing 0 := by
  have hgap := h.float.gap h.nonneg
  simp only [rayAxis, GridAxis.uniform, lt_self_iff_false, if_false, deltaDist_still]
  push_cast
  linarith

/-- **The ray goes through the tiles** of the axis, as long as no crossing is due where it does not
move. -/
theorem OnTile.follows (h : OnTile pos) (hstill : dir = 0 → T < (rayAxis pos dir).crossing 0) :
    (rayAxis pos dir).Follows T := by
  by_cases hdir : dir = 0
  · subst hdir
    exact follows_still h.closed.1 h.closed.2 (hstill rfl)
  · exact follows_uniform (deltaDist_mul hdir) hdir h.closed.1 h.closed.2 T

/-- At full speed the crossings of the map are over at the time 16. -/
theorem OnTile.crossing_le (h : OnTile pos) (hdir : |dir| = 1) {k : Nat}
    (hk : k = 0 ∨ 0 ≤ (rayAxis pos dir).cell k ∧ (rayAxis pos dir).cell k < 16) :
    (rayAxis pos dir).crossing k ≤ 16 := by
  have hk15 : k ≤ 15 := by
    have htile := h.tile
    rcases hk with rfl | ⟨hlo, hhi⟩
    · decide
    · simp only [rayAxis, GridAxis.uniform] at hlo hhi
      by_cases hneg : dir < 0
      · simp only [if_pos hneg] at hlo hhi
        omega
      · simp only [if_neg hneg] at hlo hhi
        omega
  have hkq : (k : ℚ) ≤ 15 := by exact_mod_cast hk15
  have hdelta : deltaDist rationalOps dir = 1 := by
    have hne : dir ≠ 0 := fun hz => by rw [hz, abs_zero] at hdir; exact zero_ne_one hdir
    rw [deltaDist_exact hne, hdir, inv_one]
  obtain ⟨hlo, hhi⟩ := h.closed
  simp only [rayAxis, GridAxis.uniform, hdelta]
  split <;> linarith

/-- The line that is struck is the near edge of the tile behind it. -/
theorem coord_struck (hdir : dir ≠ 0) (k : Nat) :
    (rayAxis pos dir).coord ((rayAxis pos dir).crossing k) =
      if dir < 0 then ((rayAxis pos dir).cell (k + 1) : ℚ) + 1 else (rayAxis pos dir).cell (k + 1) := by
  have hline := coord_crossing pos (truncate pos) (deltaDist_mul hdir) k
  rw [rayAxis, hline]
  simp only [uniformLine, GridAxis.uniform]
  by_cases hneg : dir < 0
  · simp only [if_pos hneg]
    push_cast
    ring
  · simp only [if_neg hneg]
    push_cast
    ring

end

/-! ### The wall of a column -/

/-- The player stands on the map, at coordinates that are `float`s. -/
structure OnTiles (pos : FloatVec ℚ) : Prop where
  x : OnTile pos.x
  y : OnTile pos.y

abbrev rayX (pos : FloatVec ℚ) (x : Nat) : GridAxis ℚ := rayAxis pos.x (rayDirX x)

abbrev rayY (pos : FloatVec ℚ) (x : Nat) : GridAxis ℚ := rayAxis pos.y (cameraX x)

/-- The crossings that lie behind after `n` of them. -/
abbrev rayPath (pos : FloatVec ℚ) (x n : Nat) : Passed := Passed.after (rayX pos x) (rayY pos x) n

/-- The time of the crossing after those. -/
abbrev arrival (pos : FloatVec ℚ) (x n : Nat) : ℚ := (rayPath pos x n).upcoming (rayX pos x) (rayY pos x)

/-- The edge of a tile that a ray comes in over. -/
def nearEdge (dir : ℚ) (c : Int) : ℚ := if dir < 0 then c + 1 else c

/-- Along the ray of column `x` the first wall, or the edge of the map, is met at the time
`distance`: it is tile `(a, b)`, and it is struck on the face of `side`. -/
structure SeenWall (cells : Cells) (pos : FloatVec ℚ) (x side : Nat) (distance : ℚ) (a b : Int) :
    Prop where
  first : FirstBlocked (rayX pos x) (rayY pos x) (Blocked cells) distance a b
  face : side = 0 ∧ pos.x + distance * rayDirX x = nearEdge (rayDirX x) a ∨
    side = 1 ∧ pos.y + distance * cameraX x = nearEdge (cameraX x) b

theorem columnWall_exact (cells : Cells) (pos : FloatVec ℚ) (x : Nat) :
    columnWall rationalOps 32 cells pos x =
      (ddaLoop cells (floatDistances rationalOps (deltaDist rationalOps (rayDirX x))
          (deltaDist rationalOps (cameraX x))) (stepOf (rayDirX x)) (stepOf (cameraX x)) 32
        (crossings (rayX pos x) (rayY pos x) (rayPath pos x 0) 0)).val.map
      fun s => (s.side, if s.side = 0 then s.distances.1 - deltaDist rationalOps (rayDirX x)
        else s.distances.2 - deltaDist rationalOps (cameraX x)) := by
  have hcamera : rationalOps.sub
      (rationalOps.div (rationalOps.mul (rationalOps.lit 2) (rationalOps.ofInt x))
        (rationalOps.ofInt screenWidth)) (rationalOps.lit 1) = cameraX x := by
    simp [rationalOps, cameraX, screenWidth]
  have hdir : rationalOps.mul (rationalOps.lit 1) (rationalOps.sub (rationalOps.lit 1)
      (rationalOps.mul (cameraX x) (cameraX x))) = rayDirX x := by
    simp [rationalOps, rayDirX]
  have hx : firstStep rationalOps (rayDirX x) pos.x (rationalOps.toInt pos.x)
      (deltaDist rationalOps (rayDirX x)) = _ := firstStep_exact pos.x (rayDirX x)
  have hy : firstStep rationalOps (cameraX x) pos.y (rationalOps.toInt pos.y)
      (deltaDist rationalOps (cameraX x)) = _ := firstStep_exact pos.y (cameraX x)
  have hcellX : rationalOps.toInt pos.x = (rayAxis pos.x (rayDirX x)).cell 0 := by
    simp [rayAxis, GridAxis.uniform, rationalOps]
  have hcellY : rationalOps.toInt pos.y = (rayAxis pos.y (cameraX x)).cell 0 := by
    simp [rayAxis, GridAxis.uniform, rationalOps]
  rw [columnWall]
  simp only [hcamera, hdir, hx, hy]
  simp only [crossings, hcellX, hcellY]
  rfl

section

variable {pos : FloatVec ℚ} {x : Nat}

/-- A ray that moves along one axis only moves at full speed there. -/
theorem rayDir_still (x : Nat) :
    (rayDirX x = 0 → |cameraX x| = 1) ∧ (cameraX x = 0 → |rayDirX x| = 1) := by
  refine ⟨?_, ?_⟩
  · intro hzero
    rw [rayDirX] at hzero
    rw [← abs_one, ← sq_eq_sq_iff_abs_eq_abs]
    linarith
  · intro hzero
    rw [rayDirX, hzero]
    norm_num

/-- Where the ray does not move, it comes to its wall before a crossing is due. -/
theorem arrival_lt_still (h : OnTiles pos) {cells : Cells} {k : Nat}
    (hfree : ∀ m, 0 < m → m ≤ k → ¬ BlockedAt cells (rayX pos x) (rayY pos x) m) :
    (rayDirX x = 0 → arrival pos x k < (rayX pos x).crossing 0) ∧
      (cameraX x = 0 → arrival pos x k < (rayY pos x).crossing 0) := by
  have hon : k = 0 ∨ OnMap ((rayX pos x).cell (rayPath pos x k).x)
      ((rayY pos x).cell (rayPath pos x k).y) := by
    rcases Nat.eq_zero_or_pos k with hk | hk
    · exact .inl hk
    · by_contra hoff
      exact hfree k hk (le_refl k) fun hon => absurd (Or.inr hon) hoff
  refine ⟨?_, ?_⟩
  · intro hzero
    have hfar := h.x.still
    rw [← hzero] at hfar
    have hnear := h.y.crossing_le ((rayDir_still x).1 hzero) (k := (rayPath pos x k).y)
      (hon.imp (fun hk => by rw [hk]; rfl) fun hon => hon.2.2)
    exact lt_of_le_of_lt (min_le_right _ _) (by linarith)
  · intro hzero
    have hfar := h.y.still
    rw [← hzero] at hfar
    have hnear := h.x.crossing_le ((rayDir_still x).2 hzero) (k := (rayPath pos x k).x)
      (hon.imp (fun hk => by rw [hk]; rfl) fun hon => ⟨hon.1, hon.2.1⟩)
    exact lt_of_le_of_lt (min_le_left _ _) (by linarith)

/-- The last distance of the loop is the time of its last crossing. -/
theorem distance_arrival (pos : FloatVec ℚ) (x k : Nat) :
    (if crossingSide (rayX pos x) (rayY pos x) (rayPath pos x k) = 0
      then (rayX pos x).crossing (rayPath pos x (k + 1)).x - deltaDist rationalOps (rayDirX x)
      else (rayY pos x).crossing (rayPath pos x (k + 1)).y - deltaDist rationalOps (cameraX x)) =
      arrival pos x k := by
  have hsucc : rayPath pos x (k + 1) = (rayPath pos x k).next (rayX pos x) (rayY pos x) :=
    Passed.after_succ k
  rw [hsucc, crossingSide, arrival]
  rcases (rayPath pos x k).next_cases (A := rayX pos x) (B := rayY pos x) with
    ⟨hcloser, hnext, htime⟩ | ⟨hcloser, hnext, htime⟩
  · rw [if_pos hcloser, if_pos rfl, hnext, htime, (paced_rayAxis pos.x (rayDirX x)).crossing]
    exact add_sub_cancel_right _ _
  · rw [if_neg (not_lt.mpr hcloser), if_neg (by decide), hnext, htime,
      (paced_rayAxis pos.y (cameraX x)).crossing]
    exact add_sub_cancel_right _ _

theorem face_arrival (h : OnTiles pos) {cells : Cells} {k : Nat}
    (hfree : ∀ m, 0 < m → m ≤ k → ¬ BlockedAt cells (rayX pos x) (rayY pos x) m) :
    crossingSide (rayX pos x) (rayY pos x) (rayPath pos x k) = 0 ∧
        (rayX pos x).coord (arrival pos x k) =
          nearEdge (rayDirX x) ((rayX pos x).cell (rayPath pos x (k + 1)).x) ∨
      crossingSide (rayX pos x) (rayY pos x) (rayPath pos x k) = 1 ∧
        (rayY pos x).coord (arrival pos x k) =
          nearEdge (cameraX x) ((rayY pos x).cell (rayPath pos x (k + 1)).y) := by
  obtain ⟨hstillX, hstillY⟩ := arrival_lt_still h hfree
  have hsucc : rayPath pos x (k + 1) = (rayPath pos x k).next (rayX pos x) (rayY pos x) :=
    Passed.after_succ k
  rw [arrival] at *
  rw [hsucc, crossingSide]
  rcases (rayPath pos x k).next_cases (A := rayX pos x) (B := rayY pos x) with
    ⟨hcloser, hnext, htime⟩ | ⟨hcloser, hnext, htime⟩
  · left
    have hmoves : rayDirX x ≠ 0 := by
      intro hzero
      have hlt := hstillX hzero
      rw [htime] at hlt
      exact absurd (monotone_crossing (deltaDist_nonneg _) (Nat.zero_le _)) (not_le.mpr hlt)
    rw [hnext, htime]
    exact ⟨if_pos hcloser, coord_struck hmoves _⟩
  · right
    have hmoves : cameraX x ≠ 0 := by
      intro hzero
      have hlt := hstillY hzero
      rw [htime] at hlt
      exact absurd (monotone_crossing (deltaDist_nonneg _) (Nat.zero_le _)) (not_le.mpr hlt)
    rw [hnext, htime]
    exact ⟨if_neg (not_lt.mpr hcloser), coord_struck hmoves _⟩

/-- **The wall of a column** is the first one on its ray. -/
theorem columnWall_firstWall (cells : Cells) (h : OnTiles pos) (x : Nat) :
    ∃ side distance a b, columnWall rationalOps 32 cells pos x = some (side, distance) ∧
      SeenWall cells pos x side distance a b := by
  have hroom : PlayerRoom rationalOps pos := fun step hstep =>
    ⟨room_of_onMap hstep h.x.tile.1 h.x.tile.2, room_of_onMap hstep h.y.tile.1 h.y.tile.2⟩
  obtain ⟨wall, hwall⟩ : ∃ wall, columnWall rationalOps 32 cells pos x = some wall := by
    obtain ⟨b, hb⟩ := renderColumn_ends rationalOps cells hroom (fun _ => 0) x
    rw [renderColumn_eq, Option.map_eq_some_iff] at hb
    exact hb.imp fun _ hb => hb.1
  obtain ⟨t, hloop, rfl⟩ := Option.map_eq_some_iff.mp (columnWall_exact cells pos x ▸ hwall)
  obtain ⟨k, -, rfl, hfree, hblocked⟩ := ddaLoop_path (paced_rayAxis pos.x (rayDirX x))
    (paced_rayAxis pos.y (cameraX x)) hloop
  obtain ⟨hstillX, hstillY⟩ := arrival_lt_still h hfree
  refine ⟨crossingSide (rayX pos x) (rayY pos x) (rayPath pos x k), arrival pos x k,
    (rayX pos x).cell (rayPath pos x (k + 1)).x, (rayY pos x).cell (rayPath pos x (k + 1)).y, ?_, ?_,
    face_arrival h hfree⟩
  · rw [hwall]
    exact congrArg some (Prod.ext rfl (distance_arrival pos x k))
  · exact firstBlocked_of_path (monotone_crossing (deltaDist_nonneg _))
      (monotone_crossing (deltaDist_nonneg _))
      (crossing_nonneg (deltaDist_nonneg _) h.x.closed.1 h.x.closed.2 0)
      (crossing_nonneg (deltaDist_nonneg _) h.y.closed.1 h.y.closed.2 0) k (h.x.follows hstillX)
      (h.y.follows hstillY) hfree hblocked

/-! ### The picture of the walls -/

/-- The rows of a wall are those around the middle of the screen, up to half of its height away. -/
theorem mem_rows_iff (distance : ℚ) {y : Nat} (hy : y < 600) :
    (drawStart rationalOps distance ≤ y ∧ (y : Int) ≤ drawEnd rationalOps distance) ↔
      |(y : Int) - 300| ≤ ⌊600 / max distance (1 / 10)⌋ / 2 := by
  have hclamp : (if rationalOps.le distance (rationalOps.lit (1 / 10)) then rationalOps.lit (1 / 10)
      else distance) = max distance (1 / 10) := by
    simp only [rationalOps, decide_eq_true_eq]
    by_cases hle : distance ≤ 1 / 10
    · rw [if_pos hle, max_eq_right hle]
    · rw [if_neg hle, max_eq_left (not_le.mp hle).le]
  have hpos : (0 : ℚ) ≤ 600 / max distance (1 / 10) :=
    div_nonneg (by norm_num) (le_max_of_le_right (by norm_num))
  have hheight : lineHeight rationalOps distance = ⌊600 / max distance (1 / 10)⌋ := by
    rw [lineHeight, hclamp]
    exact if_pos hpos
  have hnonneg := Int.floor_nonneg.mpr hpos
  rw [drawStart, drawEnd, hheight, Int.neg_tdiv, Int.tdiv_eq_ediv_of_nonneg hnonneg, abs_le]
  omega

/-- What the walls look like, over the canvas `b`: each column has the first wall on its ray, lighter
or darker by its face, and as high as it is near. -/
def WallsSeen (cells : Cells) (pos : FloatVec ℚ) (b b' : BackBuffer) : Prop :=
  ∀ x < 800, ∃ side distance tileX tileY, SeenWall cells pos x side distance tileX tileY ∧
    ∀ y < 600, b' (y * 800 + x) =
      if |(y : Int) - 300| ≤ ⌊600 / max distance (1 / 10)⌋ / 2 then wallColor side
      else b (y * 800 + x)

/-- **The walls are drawn as they are seen.** -/
theorem walls_seen (cells : Cells) (h : OnTiles pos) (b : BackBuffer) :
    ∃ b', renderVoxelWorld rationalOps 32 cells pos b = some b' ∧ WallsSeen cells pos b b' := by
  have hroom : PlayerRoom rationalOps pos := fun step hstep =>
    ⟨room_of_onMap hstep h.x.tile.1 h.x.tile.2, room_of_onMap hstep h.y.tile.1 h.y.tile.2⟩
  obtain ⟨b', hrender, hshows⟩ := lays_renderVoxelWorld rationalOps cells hroom b
  refine ⟨b', hrender, ?_⟩
  intro x hx
  obtain ⟨side, distance, tileX, tileY, hwall, hseen⟩ := columnWall_firstWall cells h x
  refine ⟨side, distance, tileX, tileY, hseen, ?_⟩
  intro y hy
  have hcolumn : (y * 800 + x) % screenWidth = x := by
    unfold screenWidth
    omega
  have hrow : (y * 800 + x) / screenWidth = y := by
    unfold screenWidth
    omega
  rw [hshows, wallFilm, hcolumn, hwall, Option.bind_some, columnFilm, hcolumn, hrow]
  by_cases hin : |(y : Int) - 300| ≤ ⌊600 / max distance (1 / 10)⌋ / 2
  · rw [if_pos hin, if_pos ⟨rfl, (mem_rows_iff distance hy).mpr hin⟩]
    rfl
  · rw [if_neg hin, if_neg fun hrows => hin ((mem_rows_iff distance hy).mp hrows.2)]
    rfl

/-- The start position, on a map without walls. -/
theorem walls_seen_start : ∃ b', renderVoxelWorld rationalOps 32 (fun _ => 0) ⟨9 / 2, 9 / 2, 0⟩
    (fun _ => 0x001A1E24) = some b' ∧
      WallsSeen (fun _ => 0) ⟨9 / 2, 9 / 2, 0⟩ (fun _ => 0x001A1E24) b' := by
  have hfloat : OnTile (9 / 2) :=
    ⟨by norm_num, by norm_num, 9, -1, by norm_num, by norm_num⟩
  exact walls_seen _ ⟨hfloat, hfloat⟩ _

end

end Antagonist
