import Antagonist.Graphics.Buffer
import Antagonist.Lib.Canvas
import Mathlib.Algebra.BigOperators.Fin
import Mathlib.Data.Matrix.Mul
import Mathlib.Tactic.FinCases
import Mathlib.Tactic.LinearCombination

/-!
# Vectors and matrices

`src/math3d.cpp`, for numbers that are added and multiplied exactly.  The products are those of
Mathlib.  A vector is transformed as if its fourth coordinate were 1, and the last row of the matrix
is not looked at: so a product of two matrices transforms like the one after the other only when
the last row of the second has nothing to say, or the first does not translate.

* `toMatrix_mat4Multiply`: the triple loop is the product of matrices.
* `transform_multiply_iff`: **when a product transforms like its factors**.
* `transform_product`: it does for any number of matrices with the last row of the identity.
-/

namespace Antagonist

open Canvas Matrix

variable {R : Type}

/-! ### The code -/

def vec3Add [Add R] (a b : FloatVec R) : FloatVec R := ⟨a.x + b.x, a.y + b.y, a.z + b.z⟩

abbrev Mat4 (R : Type) := Fin 16 → R

/-- `(row * 4) + col`. -/
def mat4Index (row col : Fin 4) : Fin 16 := ⟨row * 4 + col, by omega⟩

def mat4Identity [Zero R] [One R] : Mat4 R :=
  Function.update (Function.update (Function.update (Function.update (fun _ => 0) 0 1) 5 1) 10 1)
    15 1

/-- The inner loop of `mat4_multiply`. -/
def mat4Sum [Zero R] [Add R] [Mul R] (a b : Mat4 R) (row col : Fin 4) : R :=
  (List.finRange 4).foldl (fun sum k => sum + a (mat4Index row k) * b (mat4Index k col)) 0

def mat4Multiply [Zero R] [Add R] [Mul R] (a b : Mat4 R) : Mat4 R :=
  (List.finRange 4).foldl (fun result row =>
    (List.finRange 4).foldl (fun result col =>
      Function.update result (mat4Index row col) (mat4Sum a b row col)) result) fun _ => 0

def mat4Transform [Add R] [Mul R] (m : Mat4 R) (v : FloatVec R) : FloatVec R where
  x := m 0 * v.x + m 1 * v.y + m 2 * v.z + m 3
  y := m 4 * v.x + m 5 * v.y + m 6 * v.z + m 7
  z := m 8 * v.x + m 9 * v.y + m 10 * v.z + m 11

def mat4Translate [Zero R] [One R] (tx ty tz : R) : Mat4 R :=
  Function.update (Function.update (Function.update mat4Identity 3 tx) 7 ty) 11 tz

def FloatVec.coords (v : FloatVec R) : Fin 3 → R := ![v.x, v.y, v.z]

theorem FloatVec.ext_coords {u v : FloatVec R} : u = v ↔ ∀ i, u.coords i = v.coords i := by
  constructor
  · intro h i
    rw [h]
  · intro h
    obtain ⟨ux, uy, uz⟩ := u
    obtain ⟨vx, vy, vz⟩ := v
    have hx : ux = vx := h 0
    have hy : uy = vy := h 1
    have hz : uz = vz := h 2
    rw [hx, hy, hz]

/-! ### The product -/

theorem lays_update (i : Fin 16) (v : R) :
    Lays (fun m : Mat4 R => Function.update m i v) fun p => if p = i then some v else none := by
  intro m p
  by_cases hp : p = i
  · rw [hp]
    simp only [Function.update_self, if_true, Option.getD_some]
  · simp only [Function.update_of_ne hp, if_neg hp, Option.getD_none]

section

variable [CommRing R]

/-- The sixteen numbers as a matrix. -/
def toMatrix (m : Mat4 R) : Matrix (Fin 4) (Fin 4) R :=
  Matrix.of fun row col => m (mat4Index row col)

theorem mat4Index_inj {row col row' col' : Fin 4} (h : mat4Index row col = mat4Index row' col') :
    row = row' ∧ col = col' := by
  have hval : (row : Nat) * 4 + col = row' * 4 + col' := congrArg Fin.val h
  exact ⟨Fin.ext (by omega), Fin.ext (by omega)⟩

theorem mat4Multiply_apply (a b : Mat4 R) (row col : Fin 4) :
    mat4Multiply a b (mat4Index row col) = mat4Sum a b row col := by
  have hrow : ∀ r ∈ List.finRange 4, Lays
      (fun result : Mat4 R => (List.finRange 4).foldl (fun result c =>
        Function.update result (mat4Index r c) (mat4Sum a b r c)) result) _ :=
    fun r _ => lays_foldl fun c _ => lays_update (mat4Index r c) (mat4Sum a b r c)
  have hall := lays_foldl hrow (fun _ => 0) (mat4Index row col)
  rw [stack_map_eq (List.mem_finRange row), stack_map_eq (List.mem_finRange col), if_pos rfl,
    Option.getD_some] at hall
  · exact hall
  · intro c _ hc
    exact if_neg fun h => hc (mat4Index_inj h).2.symm
  · intro r _ hr
    refine stack_eq_none ?_
    intro film hfilm
    obtain ⟨c, -, rfl⟩ := List.mem_map.mp hfilm
    exact if_neg fun h => hr (mat4Index_inj h).1.symm

theorem mat4Sum_eq (a b : Mat4 R) (row col : Fin 4) :
    mat4Sum a b row col = ∑ k, a (mat4Index row k) * b (mat4Index k col) := by
  rw [Fin.sum_univ_four, mat4Sum]
  simp only [List.finRange_succ, List.finRange_zero, List.map_cons, List.map_nil, List.foldl_cons,
    List.foldl_nil, zero_add]
  rfl

/-- **The triple loop** is the product of matrices. -/
theorem toMatrix_mat4Multiply (a b : Mat4 R) :
    toMatrix (mat4Multiply a b) = toMatrix a * toMatrix b := by
  ext row col
  rw [Matrix.mul_apply, toMatrix, Matrix.of_apply, mat4Multiply_apply, mat4Sum_eq]
  rfl

theorem toMatrix_mat4Identity : toMatrix (mat4Identity : Mat4 R) = 1 := by
  ext row col
  fin_cases row <;> fin_cases col <;> rfl

/-! ### Transformations -/

def FloatVec.homogeneous (v : FloatVec R) : Fin 4 → R := ![v.x, v.y, v.z, 1]

/-- The fourth coordinate that the last row would give. -/
def lastCoord (m : Mat4 R) (v : FloatVec R) : R := m 12 * v.x + m 13 * v.y + m 14 * v.z + m 15

theorem mulVec_homogeneous (m : Mat4 R) (v : FloatVec R) : toMatrix m *ᵥ v.homogeneous =
    ![(mat4Transform m v).x, (mat4Transform m v).y, (mat4Transform m v).z, lastCoord m v] := by
  ext i
  rw [Matrix.mulVec, dotProduct, Fin.sum_univ_four]
  fin_cases i <;> simp [toMatrix, FloatVec.homogeneous, mat4Transform, lastCoord, mat4Index]

/-- What a transformation does to a fourth coordinate other than 1. -/
theorem mulVec_coords (m : Mat4 R) (v : FloatVec R) (w : R) (i : Fin 3) :
    (toMatrix m *ᵥ ![v.x, v.y, v.z, w]) i.castSucc =
      (mat4Transform m v).coords i + toMatrix m i.castSucc 3 * (w - 1) := by
  rw [Matrix.mulVec, dotProduct, Fin.sum_univ_four]
  fin_cases i <;> simp [toMatrix, FloatVec.coords, mat4Transform, mat4Index] <;> ring

/-- A product transforms like its factors, but for what the last row of the second one says. -/
theorem coords_transform_multiply (a b : Mat4 R) (v : FloatVec R) (i : Fin 3) :
    (mat4Transform (mat4Multiply a b) v).coords i = (mat4Transform a (mat4Transform b v)).coords i +
      toMatrix a i.castSucc 3 * (lastCoord b v - 1) := by
  have hboth : toMatrix (mat4Multiply a b) *ᵥ v.homogeneous =
      toMatrix a *ᵥ (toMatrix b *ᵥ v.homogeneous) := by
    rw [toMatrix_mat4Multiply, Matrix.mulVec_mulVec]
  have hleft := mulVec_coords (mat4Multiply a b) v 1 i
  rw [sub_self, mul_zero, add_zero] at hleft
  rw [mulVec_homogeneous b] at hboth
  rw [← hleft, ← mulVec_coords, ← hboth]
  rfl

/-- The last row is that of the identity. -/
def LastRowUnit (m : Mat4 R) : Prop := m 12 = 0 ∧ m 13 = 0 ∧ m 14 = 0 ∧ m 15 = 1

def NoTranslation (m : Mat4 R) : Prop := m 3 = 0 ∧ m 7 = 0 ∧ m 11 = 0

theorem lastRowUnit_iff {m : Mat4 R} : LastRowUnit m ↔ ∀ v, lastCoord m v = 1 := by
  constructor
  · rintro ⟨h12, h13, h14, h15⟩ v
    rw [lastCoord, h12, h13, h14, h15]
    ring
  · intro h
    have h15 : m 15 = 1 := by simpa [lastCoord] using h ⟨0, 0, 0⟩
    have h12 : m 12 = 0 := by simpa [lastCoord, h15] using h ⟨1, 0, 0⟩
    have h13 : m 13 = 0 := by simpa [lastCoord, h15] using h ⟨0, 1, 0⟩
    have h14 : m 14 = 0 := by simpa [lastCoord, h15] using h ⟨0, 0, 1⟩
    exact ⟨h12, h13, h14, h15⟩

theorem noTranslation_iff {m : Mat4 R} :
    NoTranslation m ↔ ∀ i : Fin 3, toMatrix m i.castSucc 3 = 0 := by
  rw [Fin.forall_fin_succ, Fin.forall_fin_two]
  rfl

/-- **A product transforms like its factors**, one after the other, exactly when the first one does
not translate or the second one has the last row of the identity. -/
theorem transform_multiply_iff [NoZeroDivisors R] (a b : Mat4 R) :
    (∀ v, mat4Transform (mat4Multiply a b) v = mat4Transform a (mat4Transform b v)) ↔
      NoTranslation a ∨ LastRowUnit b := by
  have hcoords : ∀ v, mat4Transform (mat4Multiply a b) v = mat4Transform a (mat4Transform b v) ↔
      ∀ i : Fin 3, toMatrix a i.castSucc 3 = 0 ∨ lastCoord b v = 1 := by
    intro v
    rw [FloatVec.ext_coords]
    refine forall_congr' fun i => ?_
    rw [coords_transform_multiply, add_eq_left, mul_eq_zero, sub_eq_zero]
  rw [noTranslation_iff, lastRowUnit_iff]
  simp only [hcoords]
  constructor
  · intro h
    by_cases hb : ∀ v, lastCoord b v = 1
    · exact .inr hb
    · obtain ⟨v, hv⟩ := not_forall.mp hb
      exact .inl fun i => (h v i).resolve_right hv
  · rintro (ha | hb) v i
    · exact .inl (ha i)
    · exact .inr (hb v)

/-- The projection onto the plane at distance 1: its last row is `0, 0, 1, 0`. -/
def perspective : Mat4 ℤ := ![1, 0, 0, 0, 0, 1, 0, 0, 0, 0, 1, 0, 0, 0, 1, 0]

/-- It cannot be put before a translation. -/
theorem transform_multiply_perspective : ¬ ∀ v, mat4Transform
    (mat4Multiply (mat4Translate 1 2 3) perspective) v =
      mat4Transform (mat4Translate 1 2 3) (mat4Transform perspective v) := by
  intro h
  rcases (transform_multiply_iff _ _).mp h with ⟨h3, -, -⟩ | ⟨-, -, h14, -⟩
  · exact absurd h3 (by decide)
  · exact absurd h14 (by decide)

/-! ### Many matrices -/

theorem lastRowUnit_mat4Identity : LastRowUnit (mat4Identity : Mat4 R) := ⟨rfl, rfl, rfl, rfl⟩

theorem lastRowUnit_mat4Translate (tx ty tz : R) : LastRowUnit (mat4Translate tx ty tz) :=
  ⟨rfl, rfl, rfl, rfl⟩

theorem LastRowUnit.multiply {a b : Mat4 R} (ha : LastRowUnit a) (hb : LastRowUnit b) :
    LastRowUnit (mat4Multiply a b) := by
  rw [lastRowUnit_iff] at *
  intro v
  have hboth : toMatrix (mat4Multiply a b) *ᵥ v.homogeneous =
      toMatrix a *ᵥ (toMatrix b *ᵥ v.homogeneous) := by
    rw [toMatrix_mat4Multiply, Matrix.mulVec_mulVec]
  have hsecond : toMatrix b *ᵥ v.homogeneous = (mat4Transform b v).homogeneous := by
    rw [mulVec_homogeneous, hb]
    rfl
  rw [hsecond, mulVec_homogeneous, mulVec_homogeneous, ha] at hboth
  exact congrFun hboth 3

theorem mat4Transform_identity (v : FloatVec R) : mat4Transform mat4Identity v = v := by
  rw [FloatVec.ext_coords]
  intro i
  have h := mulVec_coords mat4Identity v 1 i
  rw [toMatrix_mat4Identity, Matrix.one_mulVec, sub_self, mul_zero, add_zero] at h
  rw [← h]
  fin_cases i <;> rfl

theorem mat4Transform_translate (tx ty tz : R) (v : FloatVec R) :
    mat4Transform (mat4Translate tx ty tz) v = vec3Add v ⟨tx, ty, tz⟩ := by
  have hrows : mat4Transform (mat4Translate tx ty tz) v =
      ⟨1 * v.x + 0 * v.y + 0 * v.z + tx, 0 * v.x + 1 * v.y + 0 * v.z + ty,
        0 * v.x + 0 * v.y + 1 * v.z + tz⟩ := rfl
  rw [hrows]
  simp only [one_mul, zero_mul, add_zero, zero_add]
  rfl

/-- The product of the matrices, the first one leftmost. -/
def mat4Product (ms : List (Mat4 R)) : Mat4 R := ms.foldr mat4Multiply mat4Identity

theorem lastRowUnit_mat4Product {ms : List (Mat4 R)} (h : ∀ m ∈ ms, LastRowUnit m) :
    LastRowUnit (mat4Product ms) := by
  induction ms with
  | nil => exact lastRowUnit_mat4Identity
  | cons m ms ih =>
    exact (h m List.mem_cons_self).multiply (ih fun m' hm' => h m' (List.mem_cons_of_mem _ hm'))

theorem transform_mat4Product {ms : List (Mat4 R)} (h : ∀ m ∈ ms, LastRowUnit m) (v : FloatVec R) :
    mat4Transform (mat4Product ms) v = ms.foldr mat4Transform v := by
  induction ms with
  | nil => exact mat4Transform_identity v
  | cons m ms ih =>
    have hrest : ∀ m' ∈ ms, LastRowUnit m' := fun m' hm' => h m' (List.mem_cons_of_mem _ hm')
    rw [List.foldr_cons, ← ih hrest, FloatVec.ext_coords]
    intro i
    show (mat4Transform (mat4Multiply m (mat4Product ms)) v).coords i = _
    rw [coords_transform_multiply, lastRowUnit_iff.mp (lastRowUnit_mat4Product hrest), sub_self,
      mul_zero, add_zero]

/-- **Any number of matrices**: their product transforms like one after the other, from the last
one on, and products of translations add up. -/
theorem transform_product {ms : List (Mat4 R)} (h : ∀ m ∈ ms, LastRowUnit m)
    (ts : List (FloatVec R)) (v : FloatVec R) :
    LastRowUnit (mat4Product ms) ∧ mat4Transform (mat4Product ms) v = ms.foldr mat4Transform v ∧
      mat4Transform (mat4Product (ts.map fun t => mat4Translate t.x t.y t.z)) v =
        ts.foldr (fun t u => vec3Add u t) v := by
  refine ⟨lastRowUnit_mat4Product h, transform_mat4Product h v, ?_⟩
  rw [transform_mat4Product, List.foldr_map]
  · simp only [mat4Transform_translate]
  · intro m hm
    obtain ⟨t, -, rfl⟩ := List.mem_map.mp hm
    exact lastRowUnit_mat4Translate t.x t.y t.z

end

def scaling : Mat4 ℤ := ![2, 0, 0, 0, 0, 2, 0, 0, 0, 0, 2, 0, 0, 0, 0, 1]

/-- The translation comes first, as it is the last factor. -/
theorem transform_product_scaled :
    mat4Transform (mat4Product [scaling, mat4Translate 1 2 3]) ⟨1, 1, 1⟩ = ⟨4, 6, 8⟩ := by
  have h : ∀ m ∈ [scaling, mat4Translate 1 2 3], LastRowUnit m :=
    List.forall_mem_cons.mpr ⟨⟨rfl, rfl, rfl, rfl⟩,
      List.forall_mem_singleton.mpr (lastRowUnit_mat4Translate 1 2 3)⟩
  exact (transform_product h [] ⟨1, 1, 1⟩).2.1.trans rfl

end Antagonist
