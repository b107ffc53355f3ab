import Mathlib.Data.List.Basic

/-!
# Screens that scroll

A screen of `h` rows shows the end of a log, which only grows.  The rows are of any type, with
one of them blank.

* `Screen.print`: a line goes to the row of the cursor; at the last row everything moves up.
* `window`: the end of a log.
* `Shows.foldl`: the screen shows the end of the log after any number of lines.
-/

namespace Scrollback

variable {ρ : Type} {h : Nat} {blank : ρ}

/-- A screen, with the cursor on a row from which on it is blank. -/
structure Screen (ρ : Type) (h : Nat) (blank : ρ) where
  rows : List ρ
  row : Nat
  length_rows : rows.length = h
  row_lt : row < h
  free : ∀ r, row ≤ r → r < h → rows[r]? = some blank

namespace Screen

def start (h : Nat) (blank : ρ) (k : Nat) (hk : k < h) : Screen ρ h blank where
  rows := List.replicate h blank
  row := k
  length_rows := List.length_replicate
  row_lt := hk
  free r _ hr := by rw [List.getElem?_replicate, if_pos hr]

/-- A line, and the cursor on a fresh row. -/
def print (line : ρ) (s : Screen ρ h blank) : Screen ρ h blank :=
  if hrow : s.row + 1 < h then
    { rows := s.rows.set s.row line
      row := s.row + 1
      length_rows := by rw [List.length_set, s.length_rows]
      row_lt := hrow
      free := fun r hr hlt => by
        rw [List.getElem?_set_ne (by omega)]
        exact s.free r (by omega) hlt }
  else
    { rows := (s.rows.set s.row line).tail ++ [blank]
      row := s.row
      length_rows := by
        have hlt := s.row_lt
        rw [List.length_append, List.length_tail, List.length_set, s.length_rows,
          List.length_singleton]
        omega
      row_lt := s.row_lt
      free := fun r hr hlt => by
        have hlen : ((s.rows.set s.row line).tail).length = r := by
          rw [List.length_tail, List.length_set, s.length_rows]
          omega
        rw [← hlen, List.getElem?_concat_length] }

theorem print_of_lt {s : Screen ρ h blank} (line : ρ) (hrow : s.row + 1 < h) :
    (s.print line).rows = s.rows.set s.row line ∧ (s.print line).row = s.row + 1 := by
  unfold print
  rw [dif_pos hrow]
  exact ⟨rfl, rfl⟩

theorem print_of_last {s : Screen ρ h blank} (line : ρ) (hrow : ¬ s.row + 1 < h) :
    (s.print line).rows = (s.rows.set s.row line).tail ++ [blank] ∧
      (s.print line).row = s.row := by
  unfold print
  rw [dif_neg hrow]
  exact ⟨rfl, rfl⟩

end Screen

/-! ### Logs -/

/-- The last `h` rows of a log, and blank ones behind them if there are fewer. -/
def window (h : Nat) (blank : ρ) (log : List ρ) : List ρ :=
  log.drop (log.length - h) ++ List.replicate (h - log.length) blank

theorem window_of_le {log : List ρ} (hlog : log.length ≤ h) :
    window h blank log = log ++ List.replicate (h - log.length) blank := by
  rw [window, Nat.sub_eq_zero_of_le hlog, List.drop_zero]

/-- A list that is taken from a function, element by element. -/
theorem map_range_eq {α : Type} {f : Nat → α} {n : Nat} {L : List α} (hlen : L.length = n)
    (h : ∀ i < n, L[i]? = some (f i)) : (List.range n).map f = L := by
  refine List.ext_getElem? ?_
  intro i
  by_cases hi : i < n
  · rw [List.getElem?_map, List.getElem?_range hi, h i hi]
    rfl
  · rw [List.getElem?_eq_none (by rw [List.length_map, List.length_range]; omega),
      List.getElem?_eq_none (by omega)]

theorem length_window (h : Nat) (blank : ρ) (log : List ρ) : (window h blank log).length = h := by
  rw [window, List.length_append, List.length_drop, List.length_replicate]
  omega

/-- **A new row** takes the first free place, or the last one when the others have moved up. -/
theorem window_concat_of_lt {log : List ρ} (hlog : log.length < h) (row : ρ) :
    window h blank (log ++ [row]) = (window h blank log).set log.length row := by
  obtain ⟨below, hbelow⟩ : ∃ below, h - log.length = below + 1 := ⟨h - log.length - 1, by omega⟩
  have hlen : (log ++ [row]).length = log.length + 1 := by
    rw [List.length_append, List.length_singleton]
  rw [window_of_le (by omega), window_of_le (by omega), hlen, hbelow,
    List.set_append_right _ _ (Nat.le_refl _), Nat.sub_self, List.replicate_succ, List.set_cons_zero,
    List.append_assoc, List.singleton_append]
  congr 3
  omega

theorem window_concat_of_ge {log : List ρ} (hh : 0 < h) (hlog : h ≤ log.length) (row : ρ) :
    window h blank (log ++ [row]) = (window h blank log).tail ++ [row] := by
  have hlen : (log ++ [row]).length = log.length + 1 := by
    rw [List.length_append, List.length_singleton]
  have hfull : h - (log.length + 1) = 0 := by omega
  have hdrop : log.length + 1 - h = log.length - h + 1 := by omega
  rw [window, window, hlen, hfull, Nat.sub_eq_zero_of_le hlog, List.replicate_zero, List.append_nil,
    List.append_nil, hdrop, List.drop_append_of_le_length (by omega), ← List.drop_one,
    List.drop_drop]

/-- The screen shows a log that ends in a blank row, and the cursor is on that row. -/
structure Shows (s : Screen ρ h blank) (body : List ρ) : Prop where
  rows : s.rows = window h blank (body ++ [blank])
  row : s.row = body.length - (body.length + 1 - h)

theorem shows_start {k : Nat} (hk : k < h) :
    Shows (Screen.start h blank k hk) (List.replicate k blank) where
  rows := by
    have hlen : (List.replicate k blank ++ [blank]).length = k + 1 := by
      rw [List.length_append, List.length_replicate, List.length_singleton]
    rw [window_of_le (by omega), hlen, ← List.replicate_succ', List.replicate_append_replicate,
      show k + 1 + (h - (k + 1)) = h by omega]
    rfl
  row := by
    rw [List.length_replicate]
    show k = _
    omega

theorem window_snoc (hh : 0 < h) (body : List ρ) : window h blank (body ++ [blank]) =
    body.drop (body.length + 1 - h) ++
      List.replicate (h - (body.length - (body.length + 1 - h))) blank := by
  have hlen : (body ++ [blank]).length = body.length + 1 := by
    rw [List.length_append, List.length_singleton]
  rw [window, hlen, List.drop_append_of_le_length (by omega), List.append_assoc,
    List.singleton_append, ← List.replicate_succ]
  congr 2
  omega

/-- **A line is one more row of the log.** -/
theorem Shows.print {s : Screen ρ h blank} {body : List ρ} (H : Shows s body) (line : ρ) :
    Shows (s.print line) (body ++ [line]) := by
  have hlt := s.row_lt
  have hrow := H.row
  have hlen : (body ++ [line]).length = body.length + 1 := by
    rw [List.length_append, List.length_singleton]
  have habove : (body.drop (body.length + 1 - h)).length = s.row := by
    rw [List.length_drop, hrow]
  obtain ⟨below, hbelow⟩ : ∃ below, h = s.row + (below + 1) := ⟨h - s.row - 1, by omega⟩
  -- the line takes the first of the blank rows
  have hset : s.rows.set s.row line =
      body.drop (body.length + 1 - h) ++ line :: List.replicate below blank := by
    rw [H.rows, window_snoc (by omega), ← hrow, ← habove, List.set_append_right _ _ (Nat.le_refl _),
      Nat.sub_self, habove, show h - s.row = below + 1 by omega, List.replicate_succ, List.set_cons_zero]
  by_cases hroom : s.row + 1 < h
  · obtain ⟨hrows, hnext⟩ := Screen.print_of_lt line hroom
    have hzero : body.length + 1 - h = 0 := by omega
    refine ⟨?_, by rw [hnext, hlen]; omega⟩
    rw [hrows, hset, window_snoc (by omega), hlen, hzero, show body.length + 1 + 1 - h = 0 by omega,
      List.drop_zero, List.drop_zero, List.append_assoc, List.singleton_append]
    congr 3
    omega
  · obtain ⟨hrows, hnext⟩ := Screen.print_of_last line hroom
    obtain rfl : below = 0 := by omega
    have hdrop : (body ++ [line]).drop (body.length + 1 - h) =
        body.drop (body.length + 1 - h) ++ [line] := List.drop_append_of_le_length (by omega)
    refine ⟨?_, by rw [hnext, hlen]; omega⟩
    rw [hrows, hset, window_snoc (by omega), hlen, List.replicate_zero,
      ← hdrop, ← List.drop_one, List.drop_drop,
      show body.length + 1 - h + 1 = body.length + 1 + 1 - h by omega,
      show h - (body.length + 1 - (body.length + 1 + 1 - h)) = 1 by omega]
    rfl

/-- **The screen shows the end of the log**, after any number of lines. -/
theorem Shows.foldl {s : Screen ρ h blank} {body : List ρ} (H : Shows s body) (lines : List ρ) :
    Shows (lines.foldl (fun s line => s.print line) s) (body ++ lines) := by
  induction lines generalizing s body with
  | nil =>
    rw [List.append_nil]
    exact H
  | cons line lines ih =>
    rw [← List.singleton_append, ← List.append_assoc]
    exact ih (H.print line)

end Scrollback
