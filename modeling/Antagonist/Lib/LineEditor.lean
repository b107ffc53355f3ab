import Mathlib.Data.List.Basic
import Mathlib.Logic.Function.Basic

/-!
# Line editors

`edit cap` is what a key does to a line of at most `cap` elements.  `Holds` says
that an array with a fill index holds a line: the cells below the index are the
line, and those above it are blank.

* `Holds.push`, `Holds.pop`, `Holds.clear`: the stores that an editor makes.
* `Holds.isString`: read as a string that a blank ends, the array is the line.
-/

namespace LineEditor

variable {α : Type} {cap size idx : Nat} {blank a c : α} {buf : Nat → α} {line : List α}

inductive Key (α : Type)
  | none
  | backspace
  | enter
  | char (c : α)
  deriving DecidableEq

def edit (cap : Nat) (line : List α) : Key α → List α
  | .none => line
  | .backspace => line.dropLast
  | .enter => []
  | .char c => if line.length < cap then line ++ [c] else line

theorem not_mem_edit {k : Key α} (h : a ∉ line) (hk : k ≠ .char a) : a ∉ edit cap line k := by
  cases k with
  | none => exact h
  | backspace => exact fun ha => h (List.dropLast_subset line ha)
  | enter => exact List.not_mem_nil
  | char c =>
    rw [edit]
    split
    · intro ha
      rcases List.mem_append.mp ha with ha | ha
      · exact h ha
      · exact hk (by rw [List.mem_singleton.mp ha])
    · exact h

/-! ### The array -/

/-- The array `buf` of `size` cells, filled up to `idx`, holds `line`. -/
structure Holds (size : Nat) (blank : α) (buf : Nat → α) (idx : Nat) (line : List α) : Prop where
  filled : (List.range idx).map buf = line
  room : idx < size
  free : ∀ i, idx ≤ i → i < size → buf i = blank

theorem Holds.length (h : Holds size blank buf idx line) : line.length = idx := by
  rw [← h.filled, List.length_map, List.length_range]

theorem Holds.clear (hsize : 0 < size) (h : ∀ i < size, buf i = blank) :
    Holds size blank buf 0 [] :=
  ⟨rfl, hsize, fun i _ hi => h i hi⟩

theorem Holds.push (h : Holds size blank buf idx line) (hroom : idx + 1 < size) :
    Holds size blank (Function.update buf idx c) (idx + 1) (line ++ [c]) := by
  refine ⟨?_, hroom, fun i hi hs => ?_⟩
  · rw [List.range_succ, List.map_append, List.map_singleton, Function.update_self, ← h.filled]
    congr 1
    refine List.map_congr_left fun i hi => Function.update_of_ne ?_ _ _
    exact Nat.ne_of_lt (List.mem_range.mp hi)
  · rw [Function.update_of_ne (by omega), h.free i (by omega) hs]

theorem Holds.pop (h : Holds size blank buf (idx + 1) line) :
    Holds size blank (Function.update buf idx blank) idx line.dropLast := by
  have hroom := h.room
  refine ⟨?_, by omega, fun i hi hs => ?_⟩
  · rw [← h.filled, List.range_succ, List.map_append, List.map_singleton, List.dropLast_concat]
    refine List.map_congr_left fun i hi => Function.update_of_ne ?_ _ _
    exact Nat.ne_of_lt (List.mem_range.mp hi)
  · by_cases he : i = idx
    · rw [he, Function.update_self]
    · rw [Function.update_of_ne he, h.free i (by omega) hs]

theorem Holds.mark (h : Holds size blank buf idx line) : Function.update buf idx blank = buf :=
  Function.update_eq_self_iff.mpr (h.free idx (Nat.le_refl idx) h.room).symm

/-! ### Strings -/

/-- From `i` on, the array reads `line` and then the end mark. -/
def IsString (nul : α) (buf : Nat → α) : Nat → List α → Prop
  | i, [] => buf i = nul
  | i, c :: cs => buf i = c ∧ c ≠ nul ∧ IsString nul buf (i + 1) cs

theorem isString_of_range : ∀ {line : List α} {i : Nat},
    (List.range' i line.length).map buf = line → buf (i + line.length) = blank → blank ∉ line →
    IsString blank buf i line := by
  intro line
  induction line with
  | nil => exact fun _ hend _ => hend
  | cons c cs ih =>
    intro i hline hend hblank
    rw [List.length_cons, List.range'_succ, List.map_cons] at hline
    obtain ⟨hc, hcs⟩ := List.cons.inj hline
    simp only [List.mem_cons, not_or] at hblank
    refine ⟨hc, Ne.symm hblank.1, ih hcs ?_ hblank.2⟩
    rw [← hend, List.length_cons]
    congr 1
    omega

theorem takeWhile_of_isString [DecidableEq α] {nul : α} : ∀ {l : List α} {i n : Nat},
    IsString nul buf i l → l.length < n →
    ((List.range' i n).map buf).takeWhile (fun c => decide (c ≠ nul)) = l := by
  intro l
  induction l with
  | nil =>
    intro i n hend hn
    obtain ⟨n, rfl⟩ : ∃ k, n = k + 1 := ⟨n - 1, by simp only [List.length_nil] at hn; omega⟩
    have hnul : buf i = nul := hend
    rw [List.range'_succ, List.map_cons, hnul, List.takeWhile_cons, if_neg]
    simp
  | cons c l ih =>
    intro i n h hn
    obtain ⟨hc, hne, hrest⟩ := h
    obtain ⟨n, rfl⟩ : ∃ k, n = k + 1 := ⟨n - 1, by simp only [List.length_cons] at hn; omega⟩
    rw [List.range'_succ, List.map_cons, hc, List.takeWhile_cons, if_pos (decide_eq_true hne),
      ih hrest (by simp only [List.length_cons] at hn; omega)]

theorem IsString.append {nul : α} {buf' : Nat → α} {k : List α} : ∀ {l : List α} {i : Nat},
    IsString nul buf i l → (∀ j < i + l.length, buf' j = buf j) →
    IsString nul buf' (i + l.length) k → IsString nul buf' i (l ++ k) := by
  intro l
  induction l with
  | nil => exact fun _ _ hk => hk
  | cons c l ih =>
    intro i h hsame hk
    obtain ⟨hc, hne, hrest⟩ := h
    have hlen : i + (c :: l).length = i + 1 + l.length := by
      rw [List.length_cons]
      omega
    rw [hlen] at hsame hk
    refine ⟨?_, hne, ih hrest hsame hk⟩
    rw [hsame i (by omega), hc]

/-- **The array reads as the line**, when nothing in the line is blank. -/
theorem Holds.isString (h : Holds size blank buf idx line) (hblank : blank ∉ line) :
    IsString blank buf 0 line := by
  refine isString_of_range ?_ ?_ hblank
  · rw [h.length, ← List.range_eq_range', h.filled]
  · rw [h.length, Nat.zero_add]
    exact h.free idx (Nat.le_refl idx) h.room

end LineEditor
