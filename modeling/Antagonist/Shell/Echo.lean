import Antagonist.Shell.Bounds

/-!
# The echo of `disktest`

The loop `while (v_pad[i] != 0 && i < 512)` looks at the pad before it looks at `i`, and not at
the cursor at all.  It is written here once more with its reads of the pad and its writes to the
screen in a log.

* `val_echoLoopL`: without the log it is the echo of the handler.
* `all_echoLoopL_iff`: all that it reads and writes.
* `echoSafe_iff`: for which sectors it keeps to the pad and to the screen.
-/

namespace Antagonist

open ByteMem Logged

inductive EchoAccess
  | readPad (i : Nat)
  | writeVideo (i : Nat)

def EchoAccess.InBounds : EchoAccess → Prop
  | readPad i => i < 512
  | writeVideo i => i < 4000

/-- `video_memory[cursor_position]` and the byte after it are written. -/
def putEchoL (c : Console) (character color : Byte) : Logged EchoAccess Console := do
  let c ← entry (.writeVideo c.cursorPosition) (c.poke c.cursorPosition character)
  let c ← entry (.writeVideo (add32 c.cursorPosition 1)) (c.poke (add32 c.cursorPosition 1) color)
  return { c with cursorPosition := add32 c.cursorPosition 2 }

/-- The loop, standing on index `i`, for a number of tests.  After 513 of them it has ended. -/
def echoLoopL (pad : Nat → Byte) : Nat → Nat → Console → Logged EchoAccess Console
  | 0, _, c => return c
  | tests + 1, i, c => do
      let character ← entry (.readPad i) (pad i)
      if character ≠ 0 ∧ i < 512 then do
        let c ← putEchoL c character 0x0D
        echoLoopL pad tests (i + 1) c
      else return c

def echoL (pad : Nat → Byte) (c : Console) : Logged EchoAccess Console := echoLoopL pad 513 0 c

@[simp] theorem val_putEchoL (c : Console) (character color : Byte) :
    (putEchoL c character color).val = c.put character color := rfl

/-- **Without the log it is the echo of the handler**, which counts the cells that are left. -/
theorem val_echoLoopL (pad : Nat → Byte) : ∀ (n i : Nat) (c : Console), n + i = 512 →
    (echoLoopL pad (n + 1) i c).val = echoPad pad n i c := by
  intro n
  induction n with
  | zero =>
    intro i c hi
    rw [echoLoopL, val_bind, if_neg (by omega)]
    rfl
  | succ n ih =>
    intro i c hi
    rw [echoLoopL, echoPad, val_bind]
    by_cases hpad : pad i ≠ 0
    · rw [if_pos ⟨hpad, by omega⟩, if_pos hpad, val_bind, ih _ _ (by omega)]
      rfl
    · rw [if_neg fun h => hpad h.1, if_neg hpad]
      rfl

theorem val_echoL (pad : Nat → Byte) (c : Console) : (echoL pad c).val = echoPad pad 512 0 c :=
  val_echoLoopL pad 512 0 c rfl

/-- The echo keeps to its arrays, and the cursor is at the start of a row after the scroll
behind it. -/
structure EchoSafe (pad : Nat → Byte) (c : Console) : Prop where
  inBounds : (echoL pad c).All EchoAccess.InBounds
  cursor : (scrollScreen (echoPad pad 512 0 c).nextRow).InRow 0

/-! ### All accesses -/

/-- The string in the pad stops at `m`, or it fills the pad. -/
structure PadStops (pad : Nat → Byte) (m : Nat) : Prop where
  le : m ≤ 512
  before : ∀ j < m, pad j ≠ 0
  stop : pad m = 0 ∨ m = 512

theorem exists_padStops (pad : Nat → Byte) : ∃ m, PadStops pad m := by
  have hstop : ∃ m, pad m = 0 ∨ m = 512 := ⟨512, Or.inr rfl⟩
  classical
  refine ⟨Nat.find hstop, Nat.find_min' hstop (Or.inr rfl), ?_, Nat.find_spec hstop⟩
  intro j hj hzero
  exact Nat.find_min hstop hj (Or.inl hzero)

variable {pad : Nat → Byte} {m : Nat}

theorem echoLoopL_stop (P : EchoAccess → Prop) (tests : Nat) (c : Console) {i : Nat}
    (hend : ¬ (pad i ≠ 0 ∧ i < 512)) :
    ((echoLoopL pad (tests + 1) i c).All P ↔ P (.readPad i)) ∧
      (echoLoopL pad (tests + 1) i c).val = c := by
  rw [echoLoopL, all_bind, val_bind, val_entry, if_neg hend, all_entry]
  exact ⟨and_iff_left (all_pure c), rfl⟩

theorem echoLoopL_round (P : EchoAccess → Prop) (tests : Nat) (c : Console) {i : Nat}
    (hgo : pad i ≠ 0 ∧ i < 512) (hcursor : c.cursorPosition + 2 < 2 ^ 32) :
    ((echoLoopL pad (tests + 1) i c).All P ↔ P (.readPad i) ∧
      (P (.writeVideo c.cursorPosition) ∧ P (.writeVideo (c.cursorPosition + 1))) ∧
      (echoLoopL pad tests (i + 1) (c.put (pad i) 0x0D)).All P) ∧
    (echoLoopL pad (tests + 1) i c).val = (echoLoopL pad tests (i + 1) (c.put (pad i) 0x0D)).val ∧
    (c.put (pad i) 0x0D).cursorPosition = c.cursorPosition + 2 := by
  have hone : add32 c.cursorPosition 1 = c.cursorPosition + 1 := add32_of_lt (by omega)
  have htwo : add32 c.cursorPosition 2 = c.cursorPosition + 2 := add32_of_lt hcursor
  have hput : (putEchoL c (pad i) 0x0D).All P ↔
      P (.writeVideo c.cursorPosition) ∧ P (.writeVideo (c.cursorPosition + 1)) := by
    rw [← hone]
    unfold putEchoL
    simp only [all_bind, all_entry, all_pure, and_true]
    rfl
  refine ⟨?_, ?_, htwo⟩
  · rw [echoLoopL, all_bind, val_entry, if_pos hgo, all_entry, all_bind, hput, val_putEchoL]
  · rw [echoLoopL, val_bind, val_entry, if_pos hgo, val_bind, val_putEchoL]

theorem forall_from_iff {Q : Nat → Prop} {a b : Nat} (hab : a < b) :
    (∀ j, a ≤ j → j < b → Q j) ↔ Q a ∧ ∀ j, a + 1 ≤ j → j < b → Q j := by
  refine ⟨?_, ?_⟩
  · intro h
    exact ⟨h a (le_refl a) hab, fun j h1 h2 => h j (by omega) h2⟩
  · rintro ⟨hfirst, hrest⟩ j h1 h2
    by_cases hj : j = a
    · rw [hj]
      exact hfirst
    · exact hrest j (by omega) h2

/-- **All that the loop reads and writes** from index `i` on, and where it leaves the cursor. -/
theorem all_echoLoopL_iff (hm : PadStops pad m) (P : EchoAccess → Prop) :
    ∀ (n tests i : Nat) (c : Console), i + n = m → n < tests → c.cursorPosition + 2 * n < 2 ^ 32 →
    ((echoLoopL pad tests i c).All P ↔ (∀ j, i ≤ j → j < m + 1 → P (.readPad j)) ∧
      ∀ k, c.cursorPosition ≤ k → k < c.cursorPosition + 2 * n → P (.writeVideo k)) ∧
    (echoLoopL pad tests i c).val.cursorPosition = c.cursorPosition + 2 * n := by
  intro n
  induction n with
  | zero =>
    intro tests i c hi htests _
    obtain ⟨tests, rfl⟩ : ∃ t, tests = t + 1 := ⟨tests - 1, by omega⟩
    obtain rfl : i = m := hi
    have hend : ¬ (pad i ≠ 0 ∧ i < 512) := by
      rintro ⟨hpad, hlt⟩
      rcases hm.stop with hzero | hfull
      · exact hpad hzero
      · omega
    obtain ⟨hall, hval⟩ := echoLoopL_stop P tests c hend
    rw [hall, hval, forall_from_iff (Nat.lt_succ_self i)]
    refine ⟨⟨fun h => ⟨⟨h, ?_⟩, ?_⟩, fun h => h.1.1⟩, rfl⟩
    · intro j h1 h2
      omega
    · intro k h1 h2
      omega
  | succ n ih =>
    intro tests i c hi htests hcursor
    obtain ⟨tests, rfl⟩ : ∃ t, tests = t + 1 := ⟨tests - 1, by omega⟩
    have hle := hm.le
    have hgo : pad i ≠ 0 ∧ i < 512 := ⟨hm.before i (by omega), by omega⟩
    obtain ⟨hround, hend, htwo⟩ := echoLoopL_round P tests c hgo (by omega)
    obtain ⟨hall, hval⟩ :=
      ih tests (i + 1) (c.put (pad i) 0x0D) (by omega) (by omega) (by rw [htwo]; omega)
    have hsum : c.cursorPosition + 2 + 2 * n = c.cursorPosition + 2 * (n + 1) := by omega
    rw [htwo, hsum] at hall hval
    rw [hend, hval, hround, hall]
    refine ⟨?_, rfl⟩
    -- the index of this round, and the two bytes of its cell
    rw [forall_from_iff (show i < m + 1 by omega),
      forall_from_iff (show c.cursorPosition < c.cursorPosition + 2 * (n + 1) by omega),
      forall_from_iff (show c.cursorPosition + 1 < c.cursorPosition + 2 * (n + 1) by omega)]
    refine ⟨?_, ?_⟩
    · rintro ⟨hread, ⟨hfirst, hsecond⟩, hreads, hwrites⟩
      exact ⟨⟨hread, hreads⟩, hfirst, hsecond, hwrites⟩
    · rintro ⟨⟨hread, hreads⟩, hfirst, hsecond, hwrites⟩
      exact ⟨hread, ⟨hfirst, hsecond⟩, hreads, hwrites⟩

/-! ### Safe sectors -/

variable {c : Console}

/-- The string ends in the pad, and on the screen. -/
def SectorFits (pad : Nat → Byte) (cursor : Nat) : Prop :=
  ∃ m < 512, pad m = 0 ∧ (∀ j < m, pad j ≠ 0) ∧ cursor + 2 * m ≤ 4000

/-- **The echo is safe** exactly when the sector holds a string that ends in the pad and on
the screen. -/
theorem echoSafe_iff (pad : Nat → Byte) (h : c.InRow 0) :
    EchoSafe pad c ↔ SectorFits pad c.cursorPosition := by
  obtain ⟨R, -, hlo, hhi, hc⟩ := h
  obtain ⟨m, hm⟩ := exists_padStops pad
  have hle := hm.le
  obtain ⟨hall, hend⟩ :=
    all_echoLoopL_iff hm EchoAccess.InBounds m 513 0 c (by omega) (by omega) (by omega)
  refine ⟨?_, ?_⟩
  · rintro ⟨hin, -⟩
    obtain ⟨hreads, hwrites⟩ := hall.mp hin
    have hlt : m < 512 := hreads m (Nat.zero_le m) (Nat.lt_succ_self m)
    refine ⟨m, hlt, hm.stop.resolve_right (by omega), hm.before, ?_⟩
    by_contra hover
    have hlast : c.cursorPosition + 2 * m - 1 < 4000 :=
      hwrites (c.cursorPosition + 2 * m - 1) (by omega) (by omega)
    omega
  · rintro ⟨k, hk, hzero, hbefore, hroom⟩
    have hkm : k = m := by
      rcases Nat.lt_trichotomy k m with hlt | heq | hgt
      · exact absurd hzero (hm.before k hlt)
      · exact heq
      · rcases hm.stop with hstop | hfull
        · exact absurd hstop (hbefore m hgt)
        · omega
    subst hkm
    refine ⟨hall.mpr ⟨fun j _ hj => ?_, fun j _ hj => ?_⟩, ?_⟩
    · exact (by omega : j < 512)
    · exact (by omega : j < 4000)
    · rw [← val_echoL]
      refine inRow_scroll_of_le ?_ ?_
      · show 1600 ≤ (echoLoopL pad 513 0 c).val.cursorPosition
        omega
      · show (echoLoopL pad 513 0 c).val.cursorPosition < 2 ^ 31
        omega

/-- A screen with the cursor in the last row. -/
def lastRowConsole : Console := ⟨fun _ => 0, 3840⟩

/-- A sector with a string of two characters is safe there. -/
theorem echoSafe_lastRow : EchoSafe (fun i => if i < 2 then 0x41 else 0) lastRowConsole :=
  (echoSafe_iff _ ⟨3840, rfl, by decide, le_refl _, rfl⟩).mpr
    ⟨2, by decide, rfl, fun j hj => ne_of_eq_of_ne (if_pos hj) (by decide), by decide⟩

/-- A sector without a zero is not: index 512 of the pad is read. -/
theorem not_echoSafe : ¬ ∀ (pad : Nat → Byte) (c : Console), c.InRow 0 → EchoSafe pad c := by
  intro hsafe
  have hm : PadStops (fun _ => 0x41) 512 := ⟨le_refl _, fun _ _ => by decide, Or.inr rfl⟩
  have hin := (hsafe (fun _ => 0x41) lastRowConsole ⟨3840, rfl, by decide, le_refl _, rfl⟩).inBounds
  obtain ⟨hall, -⟩ := all_echoLoopL_iff hm EchoAccess.InBounds 512 513 0 lastRowConsole
    (by decide) (by decide) (by decide)
  have hread : 512 < 512 := (hall.mp hin).1 512 (Nat.zero_le _) (Nat.lt_succ_self _)
  exact lt_irrefl _ hread

end Antagonist
