import Mathlib.Data.List.Basic
import Mathlib.Tactic.Ring
import Mathlib.Tactic.Linarith

/-!
# Byte memory of a 32-bit machine

A memory is a map from addresses to bytes, and every access reduces its address
modulo `2 ^ 32`, so a word that runs past the last address continues at zero.
Words are little-endian.

* `load8`, `store8`, `load32`, `store32`: the accesses.
* `Off a x`: how far the address `x` lies above `a`, going round the top.
* `load32_store32_same`, `load32_store32_apart`: a word reads back what was
  stored, and a store leaves every word apart from it alone.
* `fillBytes`, `fillWords`: the store loops `for (i = 0; i < n; i++) a[i] = f(i)`.
-/

namespace ByteMem

abbrev Byte := BitVec 8

/-- Memory.  Only addresses below `2 ^ 32` are ever read or written. -/
abbrev Mem := Nat → Byte

/-! ### Words -/

def add32 (a b : Nat) : Nat := (a + b) % 2 ^ 32

def sub32 (a b : Nat) : Nat := (a + 2 ^ 32 - b % 2 ^ 32) % 2 ^ 32

theorem add32_of_lt {a b : Nat} (h : a + b < 2 ^ 32) : add32 a b = a + b :=
  Nat.mod_eq_of_lt h

theorem sub32_of_le {a b : Nat} (h : b ≤ a) (ha : a < 2 ^ 32) : sub32 a b = a - b := by
  simp only [sub32]; omega

def byteOf (v i : Nat) : Byte := BitVec.ofNat 8 (v / 256 ^ i)

/-! ### Accesses -/

def load8 (m : Mem) (a : Nat) : Byte := m (a % 2 ^ 32)

def store8 (m : Mem) (a : Nat) (b : Byte) : Mem :=
  fun x => if x = a % 2 ^ 32 then b else m x

def load32 (m : Mem) (a : Nat) : Nat :=
  (load8 m a).toNat + 256 * (load8 m (a + 1)).toNat + 65536 * (load8 m (a + 2)).toNat
    + 16777216 * (load8 m (a + 3)).toNat

def load16 (m : Mem) (a : Nat) : Nat := (load8 m a).toNat + 256 * (load8 m (a + 1)).toNat

def store16 (m : Mem) (a v : Nat) : Mem :=
  store8 (store8 m a (byteOf v 0)) (a + 1) (byteOf v 1)

def store32 (m : Mem) (a v : Nat) : Mem :=
  store8 (store8 (store8 (store8 m a (byteOf v 0)) (a + 1) (byteOf v 1))
    (a + 2) (byteOf v 2)) (a + 3) (byteOf v 3)

/-- How far `x` lies above `a`, going round the top of the address space. -/
def Off (a x : Nat) : Nat := (x + 2 ^ 32 - a % 2 ^ 32) % 2 ^ 32

@[simp] theorem load8_store8_same (m : Mem) (a : Nat) (b : Byte) :
    load8 (store8 m a b) a = b := by
  simp [load8, store8]

theorem load8_store8_ne (m : Mem) {a x : Nat} (b : Byte) (h : x % 2 ^ 32 ≠ a % 2 ^ 32) :
    load8 (store8 m a b) x = load8 m x := by
  simp only [load8, store8, if_neg h]

theorem store8_congr (m : Mem) {a a' : Nat} (b : Byte) (h : a % 2 ^ 32 = a' % 2 ^ 32) :
    store8 m a b = store8 m a' b := by
  unfold store8
  rw [h]

theorem store8_apply_ne (m : Mem) {a x : Nat} (b : Byte) (h : x ≠ a % 2 ^ 32) :
    store8 m a b x = m x := if_neg h

theorem store32_apply_out (m : Mem) {a x : Nat} (v : Nat) (h : 4 ≤ Off a x) :
    store32 m a v x = m x := by
  simp only [Off] at h
  simp only [store32]
  rw [store8_apply_ne, store8_apply_ne, store8_apply_ne, store8_apply_ne] <;> omega

theorem load8_store32_out (m : Mem) {a x : Nat} (v : Nat) (h : 4 ≤ Off a x) :
    load8 (store32 m a v) x = load8 m x := by
  simp only [Off] at h
  exact store32_apply_out m v (by simp only [Off]; omega)

theorem load32_lt (m : Mem) (a : Nat) : load32 m a < 2 ^ 32 := by
  have h0 := (load8 m a).isLt
  have h1 := (load8 m (a + 1)).isLt
  have h2 := (load8 m (a + 2)).isLt
  have h3 := (load8 m (a + 3)).isLt
  simp only [load32]
  omega

theorem load32_congr {m m' : Mem} {a : Nat} (h : ∀ i < 4, load8 m' (a + i) = load8 m (a + i)) :
    load32 m' a = load32 m a := by
  simp only [load32]
  rw [show load8 m' a = load8 m a from h 0 (by omega), h 1 (by omega), h 2 (by omega),
    h 3 (by omega)]

theorem load32_of_bytes {m m' : Mem} {a : Nat} (ha : a + 4 ≤ 2 ^ 32)
    (h : ∀ x, a ≤ x → x < a + 4 → m' x = m x) : load32 m' a = load32 m a := by
  refine load32_congr ?_
  intro i hi
  rw [load8, load8, Nat.mod_eq_of_lt (by omega), h _ (by omega) (by omega)]

theorem toNat_byteOf (v i : Nat) : (byteOf v i).toNat = v / 256 ^ i % 256 := by
  rw [byteOf, BitVec.toNat_ofNat]

theorem load8_store32_in (m : Mem) (a v : Nat) {i : Nat} (hi : i < 4) :
    load8 (store32 m a v) (a + i) = byteOf v i := by
  have h : i = 0 ∨ i = 1 ∨ i = 2 ∨ i = 3 := by omega
  simp only [store32]
  rcases h with rfl | rfl | rfl | rfl
  · rw [load8_store8_ne, load8_store8_ne, load8_store8_ne, Nat.add_zero, load8_store8_same] <;> omega
  · rw [load8_store8_ne, load8_store8_ne, load8_store8_same] <;> omega
  · rw [load8_store8_ne, load8_store8_same]; omega
  · rw [load8_store8_same]

theorem load32_store32_mod (m : Mem) (a v : Nat) : load32 (store32 m a v) a = v % 2 ^ 32 := by
  have h0 : load8 (store32 m a v) a = byteOf v 0 := load8_store32_in m a v (by decide : 0 < 4)
  have h1 := load8_store32_in m a v (by decide : 1 < 4)
  have h2 := load8_store32_in m a v (by decide : 2 < 4)
  have h3 := load8_store32_in m a v (by decide : 3 < 4)
  simp only [load32, h0, h1, h2, h3, toNat_byteOf]
  omega

theorem load16_store16_same (m : Mem) (a : Nat) {v : Nat} (hv : v < 2 ^ 16) :
    load16 (store16 m a v) a = v := by
  rw [load16, store16, load8_store8_ne _ _ (by omega), load8_store8_same, load8_store8_same,
    toNat_byteOf, toNat_byteOf]
  omega

theorem load16_store32_out (m : Mem) {a b : Nat} (v : Nat) (h : 4 ≤ Off a b)
    (h' : 4 ≤ Off a (b + 1)) : load16 (store32 m a v) b = load16 m b := by
  rw [load16, load16, load8_store32_out m v h, load8_store32_out m v h']

theorem load16_of_bytes {m m' : Mem} {a : Nat} (ha : a + 2 ≤ 2 ^ 32)
    (h : ∀ x, a ≤ x → x < a + 2 → m' x = m x) : load16 m' a = load16 m a := by
  rw [load16, load16, load8, load8, load8, load8, Nat.mod_eq_of_lt (by omega : a < 2 ^ 32),
    Nat.mod_eq_of_lt (by omega : a + 1 < 2 ^ 32), h a (by omega) (by omega),
    h (a + 1) (by omega) (by omega)]

/-- **A word reads back.** -/
theorem load32_store32_same (m : Mem) (a : Nat) {v : Nat} (hv : v < 2 ^ 32) :
    load32 (store32 m a v) a = v := by
  rw [load32_store32_mod, Nat.mod_eq_of_lt hv]

/-- **A word store leaves every word apart from it alone.** -/
theorem load32_store32_apart (m : Mem) {a b : Nat} (v : Nat) (h : 4 ≤ Off a b)
    (h' : 4 ≤ Off b a) : load32 (store32 m a v) b = load32 m b := by
  refine load32_congr fun i hi => load8_store32_out m v ?_
  simp only [Off] at *
  omega

theorem load32_store32_disjoint (m : Mem) {a b : Nat} (v : Nat) (ha : a + 4 ≤ 2 ^ 32)
    (hb : b + 4 ≤ 2 ^ 32) (h : a + 4 ≤ b ∨ b + 4 ≤ a) :
    load32 (store32 m a v) b = load32 m b := by
  refine load32_store32_apart m v ?_ ?_
  · simp only [Off]; omega
  · simp only [Off]; omega

theorem load32_store8_apart (m : Mem) {a b : Nat} (v : Byte) (h : 4 ≤ Off b a) :
    load32 (store8 m a v) b = load32 m b := by
  refine load32_congr fun i hi => load8_store8_ne m v ?_
  simp only [Off] at h
  omega

/-! ### Store loops -/

theorem foldl_range_store {σ α : Type} (cell : σ → Nat → α) {step : σ → Nat → σ} {k n : Nat}
    (v : Nat → α)
    (hstep : ∀ s, ∀ i < n, ∀ j, cell (step s i) j = if j = k + i then v i else cell s j) (s : σ)
    (j : Nat) : cell ((List.range n).foldl step s) j =
      if k ≤ j ∧ j < k + n then v (j - k) else cell s j := by
  induction n with
  | zero =>
    rw [if_neg (by omega)]
    rfl
  | succ n ih =>
    rw [List.range_succ, List.foldl_concat, hstep _ n (Nat.lt_succ_self n),
      ih fun s i hi => hstep s i (by omega)]
    by_cases h : j = k + n
    · rw [if_pos h, if_pos (by omega), h, Nat.add_sub_cancel_left]
    · rw [if_neg h]
      exact if_congr (by omega) rfl rfl

theorem foldl_range_fill {σ α : Type} (cell : σ → Nat → α) {step : σ → Nat → σ} {k n : Nat} {v : α}
    (hstep : ∀ s, ∀ i < n, ∀ j, cell (step s i) j = if j = k + i then v else cell s j) (s : σ)
    (j : Nat) : cell ((List.range n).foldl step s) j =
      if k ≤ j ∧ j < k + n then v else cell s j :=
  foldl_range_store cell (fun _ => v) hstep s j

/-- A loop whose round `i` changes cell `i` alone, by what is in it. -/
theorem foldl_range_map {σ α : Type} (cell : σ → Nat → α) {step : σ → Nat → σ} {n : Nat}
    (f : Nat → α → α)
    (hstep : ∀ s, ∀ i < n, ∀ j, cell (step s i) j = if j = i then f i (cell s i) else cell s j)
    (s : σ) (j : Nat) : cell ((List.range n).foldl step s) j =
      if j < n then f j (cell s j) else cell s j := by
  induction n with
  | zero => rfl
  | succ n ih =>
    have ih' := ih fun s i hi => hstep s i (by omega)
    rw [List.range_succ, List.foldl_concat, hstep _ n (Nat.lt_succ_self n)]
    by_cases hj : j = n
    · subst hj
      rw [if_pos rfl, ih', if_neg (Nat.lt_irrefl j), if_pos (Nat.lt_succ_self j)]
    · rw [if_neg hj, ih']
      exact if_congr (by omega) rfl rfl

/-- A copy in place, from the front: round `i` takes cell `i + d` to cell `i`.  Each cell is read
before it is written. -/
theorem foldl_range_copy {σ α : Type} (cell : σ → Nat → α) {step : σ → Nat → σ} {n d : Nat}
    (hstep : ∀ s, ∀ i < n, ∀ j, cell (step s i) j = if j = i then cell s (i + d) else cell s j)
    (s : σ) (j : Nat) : cell ((List.range n).foldl step s) j =
      if j < n then cell s (j + d) else cell s j := by
  induction n generalizing j with
  | zero => rfl
  | succ n ih =>
    have ih' := ih fun s i hi => hstep s i (by omega)
    rw [List.range_succ, List.foldl_concat, hstep _ n (Nat.lt_succ_self n)]
    by_cases hj : j = n
    · rw [if_pos hj, ih', if_neg (by omega), hj, if_pos (Nat.lt_succ_self n)]
    · rw [if_neg hj, ih']
      exact if_congr (by omega) rfl rfl

/-- `for (i = 0; i < n; i++) a[i] = b` over bytes. -/
def fillBytes (m : Mem) (a : Nat) (b : Byte) (n : Nat) : Mem :=
  (List.range n).foldl (fun m i => store8 m (a + i) b) m

/-- `for (i = 0; i < n; i++) a[i] = f(i)` over words. -/
def fillWords (m : Mem) (a : Nat) (f : Nat → Nat) (n : Nat) : Mem :=
  (List.range n).foldl (fun m i => store32 m (a + 4 * i) (f i)) m

theorem fillWords_succ (m : Mem) (a : Nat) (f : Nat → Nat) (n : Nat) :
    fillWords m a f (n + 1) = store32 (fillWords m a f n) (a + 4 * n) (f n) := by
  rw [fillWords, List.range_succ, List.foldl_concat, fillWords]

theorem fillBytes_apply (m : Mem) {a n : Nat} (b : Byte) (ha : a + n ≤ 2 ^ 32) (x : Nat) :
    fillBytes m a b n x = if a ≤ x ∧ x < a + n then b else m x := by
  refine foldl_range_fill (fun m => m) ?_ m x
  intro m i hi x
  simp only [store8]
  rw [Nat.mod_eq_of_lt (by omega)]

theorem fillWords_apply_out (m : Mem) {a n : Nat} (f : Nat → Nat) (ha : a + 4 * n ≤ 2 ^ 32)
    {x : Nat} (hx : x < 2 ^ 32) (hout : x < a ∨ a + 4 * n ≤ x) : fillWords m a f n x = m x := by
  induction n with
  | zero => rfl
  | succ n ih =>
    rw [fillWords_succ, store32_apply_out, ih (by omega) (by omega)]
    simp only [Off]
    omega

theorem load32_fillWords_apart (m : Mem) {a n b : Nat} (f : Nat → Nat) (ha : a + 4 * n ≤ 2 ^ 32)
    (hb : b + 4 ≤ 2 ^ 32) (h : b + 4 ≤ a ∨ a + 4 * n ≤ b) :
    load32 (fillWords m a f n) b = load32 m b :=
  load32_of_bytes hb fun _ _ _ => fillWords_apply_out m f ha (by omega) (by omega)

/-- **The array a word loop leaves.** -/
theorem load32_fillWords (m : Mem) {a n i : Nat} {f : Nat → Nat} (ha : a + 4 * n ≤ 2 ^ 32)
    (hi : i < n) (hf : ∀ j < n, f j < 2 ^ 32) : load32 (fillWords m a f n) (a + 4 * i) = f i := by
  induction n with
  | zero => exact absurd hi (Nat.not_lt_zero i)
  | succ n ih =>
    rw [fillWords_succ]
    by_cases h : i = n
    · rw [h, load32_store32_same _ _ (hf n (Nat.lt_succ_self n))]
    · rw [load32_store32_apart, ih (by omega) (by omega) fun j hj => hf j (by omega)]
      · simp only [Off]; omega
      · simp only [Off]; omega

end ByteMem
