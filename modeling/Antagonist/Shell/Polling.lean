import Antagonist.Shell.CommandLine

/-!
# Polling for a line

The second user of `cmd_buffer` is a client that polls: `get_shell_command`, declared in
`keyboard.h` "to check if the user hit Enter and read out the text string they typed", gives the
buffer away while `command_ready_flag` is up.  The only store to the flag is the one in
`clear_shell_command`, which the Enter branch of the handler calls as well.

* `commandReadyFlag_afterEvents`: the flag is down after every history.
* `holds_nil_afterEnter`: and after an Enter the buffer is empty too.
* `delivers_iff`: a client sees what it should exactly where it should see nothing.
-/

namespace Antagonist

open ByteMem LineEditor

/-- An interrupt, or a call of `clear_shell_command` by a client. -/
inductive ShellEvent
  | key (i : Interrupt)
  | clear

def ShellEvent.IsEnter : ShellEvent → Prop
  | key i => i.scancode = 0x1C
  | clear => False

section

variable {δ : Type} (ata : Ata δ)

/-- `get_shell_command`: what the pointer leads to, and nothing for `nullptr`. -/
def getShellCommand (s : Shell δ) : Option (Nat → Byte) :=
  if s.commandReadyFlag = 1 then some s.cmdBuffer else none

def Shell.text (s : Shell δ) : List Byte := cString s.cmdBuffer 64

def shellStep (s : Shell δ) : ShellEvent → Shell δ
  | .key i => keyboardHandler ata i s
  | .clear => clearShellCommand s

/-- The state after `init_keyboard` and a history. -/
def afterEvents (s₀ : Shell δ) (events : List ShellEvent) : Shell δ :=
  events.foldl (shellStep ata) (initKeyboard s₀)

/-- An Enter since the last call of a client. -/
def EnterPending (events : List ShellEvent) : Prop :=
  ∃ before enter after, events = before ++ enter :: after ∧ enter.IsEnter ∧ .clear ∉ after

/-- What a client sees after a history: the text of the line that was just entered, and nothing
while there is no Enter to see. -/
structure Delivers (s₀ : Shell δ) (events : List ShellEvent) : Prop where
  entered : ∀ before enter, events = before ++ [enter] → enter.IsEnter →
    ∃ p, getShellCommand (afterEvents ata s₀ events) = some p ∧
      IsString 0 p 0 (afterEvents ata s₀ before).text
  idle : ¬ EnterPending events → getShellCommand (afterEvents ata s₀ events) = none

variable {ata} {s₀ : Shell δ} {events : List ShellEvent} {e : ShellEvent}

/-- Without calls of a client, it is the history of the interrupts. -/
theorem afterEvents_map_key (ata : Ata δ) (s₀ : Shell δ) (ins : List Interrupt) :
    afterEvents ata s₀ (ins.map .key) = afterKeys ata s₀ ins :=
  List.foldl_map

theorem afterEvents_snoc (ata : Ata δ) (s₀ : Shell δ) (events : List ShellEvent)
    (e : ShellEvent) :
    afterEvents ata s₀ (events ++ [e]) = shellStep ata (afterEvents ata s₀ events) e := by
  rw [afterEvents, List.foldl_concat, afterEvents]

/-! ### The flag -/

/-- **One interrupt** leaves the flag as it is, or puts it down. -/
theorem commandReadyFlag_keyboardHandler (ata : Ata δ) (i : Interrupt) {s : Shell δ}
    (h : s.commandReadyFlag = 0) : (keyboardHandler ata i s).commandReadyFlag = 0 := by
  unfold keyboardHandler
  split
  · exact h
  · show (if _ then _ else _ : Shell δ).commandReadyFlag = 0
    split
    · rfl
    · split
      · exact h
      · split
        · exact h
        · exact h

theorem commandReadyFlag_shellStep (ata : Ata δ) {s : Shell δ} (h : s.commandReadyFlag = 0)
    (e : ShellEvent) : (shellStep ata s e).commandReadyFlag = 0 := by
  cases e with
  | key i => exact commandReadyFlag_keyboardHandler ata i h
  | clear => rfl

/-- **The flag is down** after every history. -/
theorem commandReadyFlag_afterEvents (ata : Ata δ) (s₀ : Shell δ) (events : List ShellEvent) :
    (afterEvents ata s₀ events).commandReadyFlag = 0 := by
  induction events using List.reverseRecOn with
  | nil => rfl
  | append_singleton events e ih =>
    rw [afterEvents_snoc]
    exact commandReadyFlag_shellStep ata ih e

theorem getShellCommand_afterEvents (ata : Ata δ) (s₀ : Shell δ) (events : List ShellEvent) :
    getShellCommand (afterEvents ata s₀ events) = none := by
  rw [getShellCommand, commandReadyFlag_afterEvents]
  rfl

/-! ### The buffer -/

theorem decode_enter_iff (scancode : Byte) : decode scancode = .enter ↔ scancode = 0x1C := by
  revert scancode
  decide

/-- **After an Enter the line is gone**, so that the flag alone would not do. -/
theorem holds_nil_afterEnter (he : e.IsEnter) :
    (afterEvents ata s₀ (events ++ [e])).Holds [] := by
  rw [afterEvents_snoc]
  cases e with
  | clear => exact absurd he id
  | key i =>
    have heq := keyboardHandler_eq ata i (afterEvents ata s₀ events)
    rw [(decode_enter_iff i.scancode).mpr he] at heq
    simp only at heq
    show (keyboardHandler ata i (afterEvents ata s₀ events)).Holds []
    rw [heq]
    exact holds_clearShellCommand _

/-! ### The interface -/

/-- **A client sees what it should** exactly where that is nothing. -/
theorem delivers_iff (ata : Ata δ) (s₀ : Shell δ) (events : List ShellEvent) :
    Delivers ata s₀ events ↔ ∀ before enter, events = before ++ [enter] → ¬ enter.IsEnter := by
  have hnone := getShellCommand_afterEvents ata s₀ events
  refine ⟨?_, ?_⟩
  · intro hdelivers before enter hlast henter
    obtain ⟨p, hp, -⟩ := hdelivers.entered before enter hlast henter
    exact Option.some_ne_none p (hp.symm.trans hnone)
  · intro hquiet
    exact ⟨fun before enter hlast henter => absurd henter (hquiet before enter hlast),
      fun _ => hnone⟩

end

def keyDown (scancode : Byte) : ShellEvent := .key ⟨scancode, 0, 0, 0, 0⟩

/-- The line `hi` is typed and entered, and nothing is delivered. -/
theorem not_delivers :
    ¬ Delivers noDisk bootShell [keyDown 0x23, keyDown 0x17, keyDown 0x1C] := by
  intro hdelivers
  obtain ⟨p, hp, -⟩ := hdelivers.entered [keyDown 0x23, keyDown 0x17] (keyDown 0x1C) rfl rfl
  rw [getShellCommand_afterEvents] at hp
  exact Option.some_ne_none p hp.symm

end Antagonist
