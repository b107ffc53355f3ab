import Antagonist.Lib.Lts
import Mathlib.Data.List.Nodup
import Mathlib.Data.List.TakeWhile
import Mathlib.Tactic.Tauto

/-!
# Round robin with late entries

A ring of elements, written from the one whose turn it is.  A turn passes to the
next element; a new element may enter anywhere behind the current one.

`ahead x l` are the elements whose turn comes before that of `x`.  A turn takes
the first one away, an entry at most adds the new element (`ahead_turn`,
`ahead_enter`), and so no element has two turns while `x` waits (`Waiting`).

* `fair_between`: between two turns of `x` every element that was in the ring has
  one turn, and every element that entered has at most one.
* `fair_first`: from its entry to its first turn, no element has two turns.
-/

namespace RoundRobin

variable {α : Type}

inductive Event (α : Type)
  | turn (a : α)
  | enter (a : α)
  deriving DecidableEq

inductive Step : List α → Event α → List α → Prop
  | turn {a b : α} {l : List α} : Step (a :: b :: l) (.turn b) (b :: (l ++ [a]))
  | enter {a n : α} {l l' : List α} : n ∉ a :: (l ++ l') →
      Step (a :: (l ++ l')) (.enter n) (a :: (l ++ n :: l'))

/-- All runs of a ring that begins with one element. -/
def lts (a : α) : Lts (List α) (Event α) where
  init l := l = [a]
  step := Step

/-! ### The ring -/

section

variable {a : α} {l l' : List α} {e : Event α}

theorem Step.nodup (h : Step l e l') (hl : l.Nodup) : l'.Nodup := by
  cases h with
  | @turn a b l =>
    have hperm : (b :: (l ++ [a])).Perm (a :: b :: l) := by
      rw [← List.cons_append]
      exact List.perm_append_singleton a (b :: l)
    exact hperm.nodup_iff.mpr hl
  | @enter a n l l' hn =>
    have hperm : (a :: (l ++ n :: l')).Perm (n :: a :: (l ++ l')) :=
      (List.perm_middle.cons a).trans (List.Perm.swap n a _)
    exact hperm.nodup_iff.mpr (List.nodup_cons.mpr ⟨hn, hl⟩)

theorem Step.mem (h : Step l e l') {x : α} : x ∈ l' ↔ x ∈ l ∨ e = .enter x := by
  cases h with
  | turn =>
    simp only [List.mem_cons, List.mem_append, List.not_mem_nil, or_false, reduceCtorEq]
    tauto
  | enter _ =>
    simp only [List.mem_cons, List.mem_append, Event.enter.injEq]
    refine ⟨?_, ?_⟩
    · rintro (h | h | h | h)
      · exact Or.inl (Or.inl h)
      · exact Or.inl (Or.inr (Or.inl h))
      · exact Or.inr h.symm
      · exact Or.inl (Or.inr (Or.inr h))
    · rintro ((h | h | h) | h)
      · exact Or.inl h
      · exact Or.inr (Or.inl h)
      · exact Or.inr (Or.inr (Or.inr h))
      · exact Or.inr (Or.inr (Or.inl h.symm))

theorem nodup_of_run {tr : List (Event α)} (h : (lts a).Run tr l) : l.Nodup :=
  h.invariant (I := List.Nodup) (fun l hl => by rw [hl]; exact List.nodup_singleton a)
    fun _ _ _ hl hs => Step.nodup hs hl

/-- In the ring are the first element and those that have entered. -/
theorem mem_of_run {tr : List (Event α)} (h : (lts a).Run tr l) {x : α} :
    x ∈ l ↔ x = a ∨ .enter x ∈ tr := by
  refine h.traceInvariant (I := fun tr l => x ∈ l ↔ x = a ∨ Event.enter x ∈ tr) ?_ ?_
  · rintro _ rfl
    simp
  · intro tr l e l' _ ih hs
    rw [hs.mem, ih, List.mem_append, List.mem_singleton, or_assoc, eq_comm (a := e)]

end

/-- The ring at a turn of `x`, in a history that opens with the turn of the first
element. -/
theorem at_turn {a x : α} {l : List α} {tr A D : List (Event α)} (h : (lts a).Run tr l)
    (hsplit : .turn a :: tr = A ++ .turn x :: D) :
    ∃ q, (x :: q).Nodup ∧ (∀ y, (y = a ∨ Event.enter y ∈ A) → y ∈ x :: q) ∧
      (lts a).Exec (x :: q) D l := by
  cases A with
  | nil =>
    obtain ⟨hax, rfl⟩ := List.cons.inj hsplit
    obtain rfl := Event.turn.inj hax
    obtain ⟨_, rfl, hexec⟩ := h
    refine ⟨[], List.nodup_singleton a, ?_, hexec⟩
    rintro y (rfl | hy)
    · exact List.mem_cons_self
    · exact absurd hy List.not_mem_nil
  | cons e A =>
    obtain ⟨rfl, hrest⟩ := List.cons.inj hsplit
    replace hrest : tr = A ++ .turn x :: D := hrest
    obtain ⟨l₀, h0, hexec⟩ := h
    rw [hrest, List.append_cons] at hexec
    obtain ⟨l₁, hpre, hpost⟩ := hexec.split
    have hrun : (lts a).Run (A ++ [.turn x]) l₁ := ⟨l₀, h0, hpre⟩
    have hnd := nodup_of_run hrun
    have hmem := fun y => mem_of_run hrun (x := y)
    obtain ⟨l₂, _, hs⟩ := hpre.snoc_inv rfl
    cases hs with
    | @turn c _ q =>
      refine ⟨q ++ [c], hnd, fun y hy => (hmem y).mpr ?_, hpost⟩
      rcases hy with hy | hy
      · exact Or.inl hy
      · rcases List.mem_cons.mp hy with hy | hy
        · cases hy
        · exact Or.inr (List.mem_append_left _ hy)

/-! ### Waiting -/

section

variable [DecidableEq α] {x : α} {l l' old : List α} {e : Event α} {tr : List (Event α)}

/-- The elements whose turn comes before that of `x`.  When it is the turn of
`x` itself, that is all the others. -/
def ahead (x : α) : List α → List α
  | [] => []
  | a :: l => (l ++ [a]).takeWhile fun y => decide (y ≠ x)

theorem takeWhile_append_of_mem {l₁ : List α} (h : x ∈ l₁) (l₂ : List α) :
    (l₁ ++ l₂).takeWhile (fun y => decide (y ≠ x)) = l₁.takeWhile fun y => decide (y ≠ x) := by
  induction l₁ with
  | nil => exact absurd h List.not_mem_nil
  | cons c l₁ ih =>
    rw [List.cons_append]
    by_cases hc : c = x
    · rw [List.takeWhile_cons_of_neg (by simpa using hc),
        List.takeWhile_cons_of_neg (by simpa using hc)]
    · rw [List.takeWhile_cons_of_pos (by simpa using hc),
        List.takeWhile_cons_of_pos (by simpa using hc),
        ih ((List.mem_cons.mp h).resolve_left (Ne.symm hc))]

theorem takeWhile_append_of_not_mem {l₁ : List α} (h : x ∉ l₁) (l₂ : List α) :
    (l₁ ++ l₂).takeWhile (fun y => decide (y ≠ x))
      = l₁ ++ l₂.takeWhile fun y => decide (y ≠ x) :=
  List.takeWhile_append_of_pos fun _ hy => decide_eq_true fun he => h (he ▸ hy)

theorem ahead_turn {a b : α} (hb : b ≠ x) (hx : x ∈ a :: b :: l) :
    ahead x (a :: b :: l) = b :: ahead x (b :: (l ++ [a])) := by
  have hmem : x ∈ l ++ [a] := by
    simp only [List.mem_cons, List.mem_append, List.not_mem_nil, or_false] at hx ⊢
    rcases hx with h | h | h
    · exact Or.inr h
    · exact absurd h.symm hb
    · exact Or.inl h
  rw [ahead, List.cons_append, List.takeWhile_cons_of_pos (by simpa using hb), ahead,
    takeWhile_append_of_mem hmem]

/-- An entry leaves `ahead` as it is, but for the new element. -/
theorem ahead_enter {a n y : α} (hn : n ≠ x) :
    (y ∈ ahead x (a :: (l ++ l')) → y ∈ ahead x (a :: (l ++ n :: l'))) ∧
    (y ∈ ahead x (a :: (l ++ n :: l')) → y = n ∨ y ∈ ahead x (a :: (l ++ l'))) := by
  rw [ahead, ahead, List.append_assoc, List.append_assoc, List.cons_append]
  by_cases hx : x ∈ l
  · rw [takeWhile_append_of_mem hx, takeWhile_append_of_mem hx]
    exact ⟨id, Or.inr⟩
  · rw [takeWhile_append_of_not_mem hx, takeWhile_append_of_not_mem hx,
      List.takeWhile_cons_of_pos (by simpa using hn)]
    simp only [List.mem_append, List.mem_cons]
    tauto

/-- What is known while `x` waits for its turn: `tr` is what has happened since,
and `old` was in the ring when the wait began. -/
structure Waiting (x : α) (old : List α) (tr : List (Event α)) (l : List α) : Prop where
  nodup : l.Nodup
  mem : x ∈ l
  outside : ∀ y, y ∉ l → tr.count (.turn y) = 0
  ahead_zero : ∀ y ∈ ahead x l, tr.count (.turn y) = 0
  le_one : ∀ y, tr.count (.turn y) ≤ 1
  old_one : ∀ y ∈ old, y ≠ x → y ∉ ahead x l → tr.count (.turn y) = 1
  old_mem : ∀ y ∈ old, y ∈ l

theorem nodup_ahead (hl : l.Nodup) : (ahead x l).Nodup := by
  cases l with
  | nil => exact List.nodup_nil
  | cons a l =>
    have hperm : (l ++ [a]).Perm (a :: l) := List.perm_append_singleton a l
    exact (hperm.nodup_iff.mpr hl).sublist (List.takeWhile_sublist _)

theorem count_snoc_turn (b y : α) : (tr ++ [Event.turn b]).count (.turn y)
    = tr.count (.turn y) + if y = b then 1 else 0 := by
  rw [List.count_append, List.count_singleton]
  by_cases hy : y = b
  · rw [if_pos hy, hy]
    simp
  · rw [if_neg hy]
    simp [Ne.symm hy]

theorem count_snoc_enter (n y : α) :
    (tr ++ [Event.enter n]).count (.turn y) = tr.count (.turn y) := by
  rw [List.count_append, List.count_singleton]
  simp

/-- The one whose turn it gets leaves the elements ahead, and has its only turn. -/
theorem Waiting.turn {a b : α} (H : Waiting x old tr (a :: b :: l)) (hb : b ≠ x) :
    Waiting x old (tr ++ [.turn b]) (b :: (l ++ [a])) := by
  have hs : Step (a :: b :: l) (.turn b) (b :: (l ++ [a])) := .turn
  have hmem : ∀ y, y ∈ a :: b :: l → y ∈ b :: (l ++ [a]) := fun y hy => hs.mem.mpr (Or.inl hy)
  have hahead := ahead_turn hb H.mem
  have hndA := nodup_ahead (x := x) H.nodup
  rw [hahead, List.nodup_cons] at hndA
  have hb0 : tr.count (.turn b) = 0 := by
    apply H.ahead_zero
    rw [hahead]
    exact List.mem_cons_self
  refine ⟨hs.nodup H.nodup, hmem x H.mem, ?_, ?_, ?_, ?_, fun y hy => hmem y (H.old_mem y hy)⟩
  · intro y hy
    have hyb : y ≠ b := fun h => hy (by rw [h]; exact List.mem_cons_self)
    rw [count_snoc_turn, H.outside y fun h => hy (hmem y h), if_neg hyb]
  · intro y hy
    have hyb : y ≠ b := fun h => hndA.1 (h ▸ hy)
    rw [count_snoc_turn, if_neg hyb, H.ahead_zero y]
    rw [hahead]
    exact List.mem_cons_of_mem b hy
  · intro y
    rw [count_snoc_turn]
    by_cases hy : y = b
    · rw [if_pos hy, hy, hb0]
    · rw [if_neg hy]
      exact H.le_one y
  · intro y hyo hyx hya
    rw [count_snoc_turn]
    by_cases hy : y = b
    · rw [if_pos hy, hy, hb0]
    · rw [if_neg hy, H.old_one y hyo hyx]
      rw [hahead]
      exact fun h => (List.mem_cons.mp h).elim hy hya

theorem Waiting.enter {a n : α} (H : Waiting x old tr (a :: (l ++ l')))
    (hn : n ∉ a :: (l ++ l')) : Waiting x old (tr ++ [.enter n]) (a :: (l ++ n :: l')) := by
  have hs : Step (a :: (l ++ l')) (.enter n) (a :: (l ++ n :: l')) := .enter hn
  have hmem : ∀ y, y ∈ a :: (l ++ l') → y ∈ a :: (l ++ n :: l') :=
    fun y hy => hs.mem.mpr (Or.inl hy)
  have hnx : n ≠ x := fun h => hn (by rw [h]; exact H.mem)
  refine ⟨hs.nodup H.nodup, hmem x H.mem, ?_, ?_, ?_, ?_, fun y hy => hmem y (H.old_mem y hy)⟩
  · intro y hy
    rw [count_snoc_enter]
    exact H.outside y fun h => hy (hmem y h)
  · intro y hy
    rw [count_snoc_enter]
    rcases (ahead_enter hnx).2 hy with rfl | h
    · exact H.outside y hn
    · exact H.ahead_zero y h
  · intro y
    rw [count_snoc_enter]
    exact H.le_one y
  · intro y hyo hyx hya
    rw [count_snoc_enter]
    exact H.old_one y hyo hyx fun h => hya ((ahead_enter hnx).1 h)

/-- **The wait survives every step but the turn of `x`.** -/
theorem Waiting.step (H : Waiting x old tr l) (hs : Step l e l') (he : e ≠ .turn x) :
    Waiting x old (tr ++ [e]) l' := by
  cases hs with
  | turn => exact H.turn fun h => he (by rw [h])
  | enter hn => exact H.enter hn

theorem Waiting.exec {a : α} {tr' : List (Event α)} (H : Waiting x old tr l)
    (h : (lts a).Exec l tr' l') : Event.turn x ∉ tr' → Waiting x old (tr ++ tr') l' := by
  induction h with
  | nil =>
    intro _
    rw [List.append_nil]
    exact H
  | snoc _ hs ih =>
    intro hno
    rw [← List.append_assoc]
    refine (ih fun h => hno (List.mem_append_left _ h)).step hs fun he => hno ?_
    exact List.mem_append_right _ (List.mem_singleton.mpr he.symm)

theorem Waiting.start (hl : l.Nodup) (hx : x ∈ l) (hsub : ∀ y ∈ old, y ∈ l)
    (hold : ∀ y ∈ old, y ≠ x → y ∈ ahead x l) : Waiting x old [] l where
  nodup := hl
  mem := hx
  outside := fun _ _ => List.count_nil
  ahead_zero := fun _ _ => List.count_nil
  le_one := fun _ => by rw [List.count_nil]; exact Nat.zero_le 1
  old_one := fun y hyo hyx hya => absurd (hold y hyo hyx) hya
  old_mem := hsub

/-- When it is the turn of `x`, every other element is ahead. -/
theorem mem_ahead_self (hx : x ∉ l) {y : α} (hy : y ∈ x :: l) (hyx : y ≠ x) :
    y ∈ ahead x (x :: l) := by
  rw [ahead, takeWhile_append_of_not_mem hx]
  exact List.mem_append_left _ ((List.mem_cons.mp hy).resolve_left hyx)

/-! ### The two theorems -/

/-- **Between two turns of `x`** every other element that was in the ring has one
turn, and every element that entered has at most one. -/
theorem fair_between {a : α} {A B C : List (Event α)} (h : (lts a).Run tr l)
    (hsplit : .turn a :: tr = A ++ .turn x :: (B ++ .turn x :: C)) (hB : .turn x ∉ B) :
    (∀ y, y ≠ x → (y = a ∨ .enter y ∈ A) → B.count (.turn y) = 1) ∧
      ∀ y, .enter y ∈ B → B.count (.turn y) ≤ 1 := by
  obtain ⟨q, hnd, hmem, hexec⟩ := at_turn h hsplit
  obtain ⟨l₂, hpre, hpost⟩ := hexec.split
  obtain ⟨l₃, hs, _⟩ := hpost.cons_inv
  have hstart : Waiting x (x :: q) [] (x :: q) :=
    .start hnd List.mem_cons_self (fun _ hy => hy) fun y hy hyx =>
      mem_ahead_self (List.nodup_cons.mp hnd).1 hy hyx
  have H := (hstart.exec hpre hB)
  rw [List.nil_append] at H
  have hahead : ahead x l₂ = [] := by
    cases hs with
    | turn =>
      rw [ahead, List.cons_append, List.takeWhile_cons_of_neg (by simp)]
  refine ⟨fun y hyx hy => H.old_one y (hmem y hy) hyx ?_, fun y _ => H.le_one y⟩
  rw [hahead]
  exact List.not_mem_nil

/-- **From the entry of `x` to its first turn** no element has two turns. -/
theorem fair_first {a : α} {A B C : List (Event α)} (h : (lts a).Run tr l)
    (hsplit : tr = A ++ .enter x :: (B ++ C)) (hB : .turn x ∉ B) :
    ∀ y, B.count (.turn y) ≤ 1 := by
  obtain ⟨l₀, h0, hexec⟩ := h
  rw [hsplit, List.append_cons] at hexec
  obtain ⟨l₁, hpre, hpost⟩ := hexec.split
  obtain ⟨l₂, hwait, _⟩ := hpost.split
  have hrun : (lts a).Run (A ++ [.enter x]) l₁ := ⟨l₀, h0, hpre⟩
  have hx : x ∈ l₁ := (mem_of_run hrun).mpr (Or.inr (by simp))
  have hstart : Waiting x [] [] l₁ :=
    .start (nodup_of_run hrun) hx (fun _ hy => absurd hy List.not_mem_nil) fun _ hy =>
      absurd hy List.not_mem_nil
  have H := hstart.exec hwait hB
  rw [List.nil_append] at H
  exact H.le_one

end

end RoundRobin
