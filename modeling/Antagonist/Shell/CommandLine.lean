import Antagonist.Lib.LineEditor
import Antagonist.Shell.Keyboard
import Mathlib.Data.List.Induction

/-!
# The command line

What the shell is for: a line editor, whose Enter runs the command of that name.
`keyboard_handler` follows it (`keyboardHandler_holds`, `enterAction_eq`) until
Backspace is struck on an empty line: its second branch asks for
`cmd_index > 0`, and the third one then takes the key as a character.

* `lineEdited_iff`: the line is the edited one throughout exactly when that does
  not happen.
-/

namespace Antagonist

open ByteMem LineEditor

def decode (scancode : Byte) : Key Byte :=
  if scancode &&& 0x80 ≠ 0 ∨ kbdUs scancode = 0 then .none
  else if kbdUs scancode = 8 then .backspace
  else if kbdUs scancode = 10 then .enter
  else .char (kbdUs scancode)

/-- The line of the abstract editor. -/
def editorLine (ins : List Interrupt) : List Byte :=
  ins.foldl (fun line i => edit 63 line (decode i.scancode)) []

theorem decode_spec (scancode : Byte) : match decode scancode with
    | .none => scancode &&& 0x80 ≠ 0 ∨ kbdUs scancode = 0
    | .backspace => scancode &&& 0x80 = 0 ∧ kbdUs scancode = 8
    | .enter => scancode &&& 0x80 = 0 ∧ kbdUs scancode = 10
    | .char c => scancode &&& 0x80 = 0 ∧ kbdUs scancode = c ∧ c ≠ 0 ∧ c ≠ 8 ∧ c ≠ 10 := by
  unfold decode
  by_cases h : scancode &&& 0x80 ≠ 0 ∨ kbdUs scancode = 0
  · rw [if_pos h]
    exact h
  simp only [not_or, ne_eq, not_not] at h
  rw [if_neg (by simp only [not_or, ne_eq, not_not]; exact h)]
  by_cases h8 : kbdUs scancode = 8
  · rw [if_pos h8]
    exact ⟨h.1, h8⟩
  rw [if_neg h8]
  by_cases h10 : kbdUs scancode = 10
  · rw [if_pos h10]
    exact ⟨h.1, h10⟩
  rw [if_neg h10]
  exact ⟨h.1, rfl, h.2, h8, h10⟩

theorem decode_backspace_iff (scancode : Byte) :
    decode scancode = .backspace ↔ scancode = 0x0E := by
  revert scancode
  decide

/-! ### Strings -/

/-- **`mystrcmp` compares**, when `str1` is a string and `str2` has no NUL in it. -/
theorem mystrcmp_eq {str1 : Nat → Byte} : ∀ {str2 line : List Byte} {i : Nat},
    IsString 0 str1 i line → 0 ∉ str2 → mystrcmp str1 i str2 = decide (line = str2) := by
  intro str2
  induction str2 with
  | nil =>
    intro line i hline _
    cases line with
    | nil =>
      have hend : str1 i = 0 := hline
      exact (decide_eq_true hend).trans (decide_eq_true rfl).symm
    | cons c cs =>
      obtain ⟨hc, hne, _⟩ := hline
      rw [mystrcmp, hc]
      exact (decide_eq_false hne).trans (decide_eq_false (List.cons_ne_nil c cs)).symm
  | cons d str2 ih =>
    intro line i hline hzero
    simp only [List.mem_cons, not_or] at hzero
    cases line with
    | nil =>
      have hend : str1 i = 0 := hline
      rw [mystrcmp, if_pos hend]
      exact (decide_eq_false (List.cons_ne_nil d str2).symm).symm
    | cons c cs =>
      obtain ⟨hc, hne, hrest⟩ := hline
      rw [mystrcmp, hc, if_neg hne]
      by_cases hcd : c = d
      · rw [if_neg (not_not_intro hcd), ih hrest hzero.2, hcd]
        simp only [List.cons.injEq, true_and]
      · rw [if_pos hcd]
        exact (decide_eq_false fun h => hcd (List.cons.inj h).1).symm

/-! ### Commands -/

theorem zero_not_mem_name (c : Command) : 0 ∉ c.name := by
  cases c <;> decide

theorem name_injective : Function.Injective Command.name := by
  intro c d h
  cases c <;> cases d <;> first | rfl | exact absurd h (by decide)

theorem name_ne_nil (c : Command) : c.name ≠ [] := by
  cases c <;> decide

/-- What an Enter behind `line` should lead to. -/
def Expected (line : List Byte) : Action → Prop
  | .run c => line = c.name
  | .notFound => line ≠ [] ∧ ∀ c : Command, line ≠ c.name
  | .nothing => line = []

theorem Expected.unique {line : List Byte} {a b : Action} (ha : Expected line a)
    (hb : Expected line b) : a = b := by
  cases a with
  | run c =>
    cases b with
    | run d => rw [name_injective (ha.symm.trans hb)]
    | notFound => exact absurd ha (hb.2 c)
    | nothing => exact absurd (ha.symm.trans hb) (name_ne_nil c)
  | notFound =>
    cases b with
    | run d => exact absurd hb (ha.2 d)
    | notFound => rfl
    | nothing => exact absurd hb ha.1
  | nothing =>
    cases b with
    | run d => exact absurd (hb.symm.trans ha) (name_ne_nil d)
    | notFound => exact absurd ha hb.1
    | nothing => rfl

/-- **The chain of comparisons** takes the branch that the line names. -/
theorem expected_commandChain {buf : Nat → Byte} {line : List Byte}
    (h : IsString 0 buf 0 line) : Expected line (commandChain buf) := by
  have hcmp : ∀ c : Command, mystrcmp buf 0 c.name = decide (line = c.name) := fun c =>
    mystrcmp_eq h (zero_not_mem_name c)
  simp only [commandChain, hcmp, decide_eq_true_eq]
  by_cases h1 : line = Command.help.name
  · rw [if_pos h1]
    exact h1
  by_cases h2 : line = Command.uptime.name
  · rw [if_neg h1, if_pos h2]
    exact h2
  by_cases h3 : line = Command.meminfo.name
  · rw [if_neg h1, if_neg h2, if_pos h3]
    exact h3
  by_cases h4 : line = Command.clear.name
  · rw [if_neg h1, if_neg h2, if_neg h3, if_pos h4]
    exact h4
  by_cases h5 : line = Command.disktest.name
  · rw [if_neg h1, if_neg h2, if_neg h3, if_neg h4, if_pos h5]
    exact h5
  rw [if_neg h1, if_neg h2, if_neg h3, if_neg h4, if_neg h5]
  cases line with
  | nil =>
    have hend : buf 0 = 0 := h
    rw [if_neg (not_not_intro hend)]
    rfl
  | cons d cs =>
    obtain ⟨hd, hne, _⟩ := h
    rw [if_pos (by rw [hd]; exact hne)]
    refine ⟨List.cons_ne_nil d cs, ?_⟩
    intro c
    cases c with
    | help => exact h1
    | uptime => exact h2
    | meminfo => exact h3
    | clear => exact h4
    | disktest => exact h5

/-! ### One key -/

section

variable {δ : Type} (ata : Ata δ) {i : Interrupt} {s : Shell δ} {line : List Byte}

def Shell.Holds (s : Shell δ) (line : List Byte) : Prop :=
  LineEditor.Holds 64 0 s.cmdBuffer s.cmdIndex line

theorem holds_clearShellCommand (s : Shell δ) : (clearShellCommand s).Holds [] :=
  LineEditor.Holds.clear (by omega) fun _ hj => if_pos hj

/-- **An Enter leads to what is expected.** -/
theorem Shell.Holds.enterAction (H : s.Holds line) (h0 : 0 ∉ line) :
    Expected line (enterAction s) := by
  have hmark : (endLine s).cmdBuffer = s.cmdBuffer := LineEditor.Holds.mark H
  rw [Antagonist.enterAction, hmark]
  exact expected_commandChain (LineEditor.Holds.isString H h0)

/-- A key that goes down: the state matrix and the first acknowledgement. -/
def pressed (s : Shell δ) (scancode : Byte) : Shell δ := sendEoi (setKey s scancode 1)

/-- **What one interrupt does.** -/
theorem keyboardHandler_eq (i : Interrupt) (s : Shell δ) : match decode i.scancode with
    | .none => (keyboardHandler ata i s).cmdBuffer = s.cmdBuffer ∧
        (keyboardHandler ata i s).cmdIndex = s.cmdIndex
    | .backspace => keyboardHandler ata i s = sendEoi (if 0 < s.cmdIndex
        then backspaceKey (pressed s i.scancode) else characterKey (pressed s i.scancode) 8)
    | .enter => keyboardHandler ata i s = sendEoi (enterKey ata i (pressed s i.scancode))
    | .char c => keyboardHandler ata i s = sendEoi (if s.cmdIndex < 63
        then characterKey (pressed s i.scancode) c else pressed s i.scancode) := by
  have hspec := decode_spec i.scancode
  have hidx : (sendEoi (setKey s i.scancode 1)).cmdIndex = s.cmdIndex := rfl
  unfold keyboardHandler pressed
  cases hkey : decode i.scancode with
  | none =>
    rw [hkey] at hspec
    by_cases hbreak : i.scancode &&& 0x80 ≠ 0
    · rw [if_pos hbreak]
      exact ⟨rfl, rfl⟩
    · have hzero : kbdUs i.scancode = 0 := hspec.resolve_left hbreak
      rw [if_neg hbreak]
      simp only [hzero]
      rw [if_neg (by decide), if_neg fun h => absurd h.1 (by decide), if_neg fun h => h.1 rfl]
      exact ⟨rfl, rfl⟩
  | backspace =>
    rw [hkey] at hspec
    rw [if_neg (not_not_intro hspec.1)]
    simp only [hspec.2, hidx]
    rw [if_neg (by decide)]
    by_cases hpos : 0 < s.cmdIndex
    · rw [if_pos ⟨trivial, hpos⟩, if_pos hpos]
    · -- the test of `cmd_index` fails, so the key is taken as a character
      rw [if_neg fun h => hpos h.2, if_neg hpos, if_pos ⟨by decide, by omega⟩]
  | enter =>
    rw [hkey] at hspec
    rw [if_neg (not_not_intro hspec.1)]
    simp only [hspec.2, if_pos]
  | char c =>
    rw [hkey] at hspec
    obtain ⟨hmake, hc, h0, h8, h10⟩ := hspec
    rw [if_neg (not_not_intro hmake)]
    simp only [hc, hidx]
    rw [if_neg h10, if_neg fun h => h8 h.1]
    by_cases hfull : s.cmdIndex < 63
    · rw [if_pos ⟨h0, hfull⟩, if_pos hfull]
    · rw [if_neg fun h => hfull h.2, if_neg hfull]

/-- **One key** does to the buffer what it does to the line, unless it is a
Backspace on an empty line. -/
theorem Shell.Holds.keyboardHandler (H : s.Holds line)
    (hok : decode i.scancode = .backspace → line ≠ []) :
    (keyboardHandler ata i s).Holds (edit 63 line (decode i.scancode)) := by
  have hlen := LineEditor.Holds.length H
  have hroom := LineEditor.Holds.room H
  have heq := keyboardHandler_eq ata i s
  cases hkey : decode i.scancode with
  | none =>
    rw [hkey] at heq
    unfold Shell.Holds
    rw [heq.1, heq.2]
    exact H
  | backspace =>
    rw [hkey] at heq
    have hpos : 0 < s.cmdIndex := by
      rw [← hlen]
      exact List.length_pos_iff.mpr (hok hkey)
    obtain ⟨n, hn⟩ : ∃ n, s.cmdIndex = n + 1 := ⟨s.cmdIndex - 1, by omega⟩
    have H' : LineEditor.Holds 64 0 s.cmdBuffer (n + 1) line := hn ▸ H
    simp only [if_pos hpos] at heq
    rw [heq]
    show LineEditor.Holds 64 0 (Function.update s.cmdBuffer (s.cmdIndex - 1) 0) (s.cmdIndex - 1) _
    rw [hn, Nat.add_sub_cancel]
    exact H'.pop
  | enter =>
    rw [hkey] at heq
    simp only at heq
    rw [heq]
    exact holds_clearShellCommand _
  | char c =>
    rw [hkey] at heq
    simp only at heq
    rw [heq, edit]
    by_cases hfull : s.cmdIndex < 63
    · rw [if_pos hfull, if_pos (by omega)]
      exact LineEditor.Holds.push H (show s.cmdIndex + 1 < 64 by omega)
    · rw [if_neg hfull, if_neg (by omega)]
      exact H

end

/-! ### All keys -/

section

variable {δ : Type} {ata : Ata δ} {s₀ : Shell δ} {ins : List Interrupt} {i : Interrupt}

theorem editorLine_snoc (ins : List Interrupt) (i : Interrupt) :
    editorLine (ins ++ [i]) = edit 63 (editorLine ins) (decode i.scancode) := by
  rw [editorLine, List.foldl_concat, editorLine]

theorem afterKeys_snoc (ata : Ata δ) (s₀ : Shell δ) (ins : List Interrupt) (i : Interrupt) :
    afterKeys ata s₀ (ins ++ [i]) = keyboardHandler ata i (afterKeys ata s₀ ins) := by
  rw [afterKeys, List.foldl_concat, afterKeys]

theorem zero_not_mem_editorLine : 0 ∉ editorLine ins := by
  induction ins using List.reverseRecOn with
  | nil => exact List.not_mem_nil
  | append_singleton ins i ih =>
    rw [editorLine_snoc]
    refine not_mem_edit ih ?_
    intro hkey
    have hspec := decode_spec i.scancode
    rw [hkey] at hspec
    exact hspec.2.2.1 rfl

/-- No Backspace is struck while the line is empty. -/
def NoStrayBackspace (ins : List Interrupt) : Prop :=
  ∀ A i B, ins = A ++ i :: B → i.scancode = 0x0E → editorLine A ≠ []

theorem NoStrayBackspace.left {A B : List Interrupt} (h : NoStrayBackspace (A ++ B)) :
    NoStrayBackspace A := by
  intro A' i B' hA hi
  refine h A' i (B' ++ B) ?_ hi
  rw [hA, List.append_assoc, List.cons_append]

/-- **The buffer holds the edited line**, as long as no Backspace goes astray. -/
theorem holds_afterKeys (h : NoStrayBackspace ins) :
    (afterKeys ata s₀ ins).Holds (editorLine ins) := by
  induction ins using List.reverseRecOn with
  | nil => exact holds_clearShellCommand s₀
  | append_singleton ins i ih =>
    rw [afterKeys_snoc, editorLine_snoc]
    refine (ih h.left).keyboardHandler ata ?_
    intro hkey
    exact h ins i [] rfl ((decode_backspace_iff i.scancode).mp hkey)

theorem cmdIndex_stray {s : Shell δ} (H : s.Holds []) (hi : i.scancode = 0x0E) :
    (keyboardHandler ata i s).cmdIndex = 1 := by
  have hidx : s.cmdIndex = 0 := (LineEditor.Holds.length H).symm
  have heq := keyboardHandler_eq ata i s
  rw [(decode_backspace_iff i.scancode).mpr hi] at heq
  simp only [hidx, if_neg (Nat.lt_irrefl 0)] at heq
  rw [heq]
  show s.cmdIndex + 1 = 1
  rw [hidx]

/-- What a user of the shell relies on, while `ins` are typed: the command buffer
holds the edited line, and every Enter runs what the line names. -/
structure LineEdited (ata : Ata δ) (s₀ : Shell δ) (ins : List Interrupt) : Prop where
  buffer : ∀ A B, ins = A ++ B → (afterKeys ata s₀ A).Holds (editorLine A)
  enter : ∀ A i B, ins = A ++ i :: B → decode i.scancode = .enter →
    ∃ a, Expected (editorLine A) a ∧ keyboardHandler ata i (afterKeys ata s₀ A) =
      sendEoi (clearShellCommand (runAction ata i
        (endLine (pressed (afterKeys ata s₀ A) i.scancode)) a))

/-- **The shell edits the line** exactly when no Backspace is struck while the
line is empty. -/
theorem lineEdited_iff (ata : Ata δ) (s₀ : Shell δ) (ins : List Interrupt) :
    LineEdited ata s₀ ins ↔ NoStrayBackspace ins := by
  refine ⟨?_, ?_⟩
  · intro H A i B hins hi hempty
    have hbefore := H.buffer A (i :: B) hins
    have hafter := H.buffer (A ++ [i]) B (by rw [hins, List.append_cons])
    rw [hempty] at hbefore
    rw [afterKeys_snoc, editorLine_snoc, hempty, (decode_backspace_iff i.scancode).mpr hi] at hafter
    have hzero := LineEditor.Holds.length hafter
    rw [cmdIndex_stray hbefore hi] at hzero
    exact absurd hzero (by decide)
  · intro h
    have hbuffer : ∀ A B, ins = A ++ B → (afterKeys ata s₀ A).Holds (editorLine A) := by
      intro A B hins
      rw [hins] at h
      exact holds_afterKeys h.left
    refine ⟨hbuffer, ?_⟩
    intro A i B hins hkey
    have H : (pressed (afterKeys ata s₀ A) i.scancode).Holds (editorLine A) :=
      hbuffer A (i :: B) hins
    have heq := keyboardHandler_eq ata i (afterKeys ata s₀ A)
    rw [hkey] at heq
    exact ⟨_, H.enterAction zero_not_mem_editorLine, heq⟩

end

/-- A disk that forgets, and the shell before `init_keyboard`. -/
def noDisk : Ata Unit := ⟨fun _ _ _ => (), fun _ _ => (fun _ => 0, ())⟩

def bootShell : Shell Unit where
  console := ⟨fun _ => 0, 1600⟩
  cmdBuffer := fun _ => 0
  cmdIndex := 0
  commandReadyFlag := 0
  diskTestPad := fun _ => 0
  keyboardMatrix := fun _ => 0
  drive := ()
  port20 := []

/-- Backspace is struck first: the line stays empty, and the buffer does not. -/
theorem not_lineEdited : editorLine [⟨0x0E, 0, 0, 0, 0⟩] = [] ∧
    (afterKeys noDisk bootShell [⟨0x0E, 0, 0, 0, 0⟩]).cmdIndex = 1 ∧
    (afterKeys noDisk bootShell [⟨0x0E, 0, 0, 0, 0⟩]).cmdBuffer 0 = 8 ∧
    ¬ LineEdited noDisk bootShell [⟨0x0E, 0, 0, 0, 0⟩] := by
  have hindex : (afterKeys noDisk bootShell [⟨0x0E, 0, 0, 0, 0⟩]).cmdIndex = 1 := by
    decide +kernel
  refine ⟨by decide +kernel, hindex, by decide +kernel, fun H => ?_⟩
  have hafter := H.buffer [⟨0x0E, 0, 0, 0, 0⟩] [] rfl
  have hline : editorLine [⟨0x0E, 0, 0, 0, 0⟩] = [] := by decide +kernel
  have hlen := LineEditor.Holds.length hafter
  rw [hline, hindex] at hlen
  exact absurd hlen (by decide)

end Antagonist
