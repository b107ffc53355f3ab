import Antagonist.Lib.Service
import Antagonist.Shell.InMemory

/-!
# Interrupts of a running program

The timer and the keyboard interrupt a program between any two of its instructions.  The two stubs
of `boot.s` are those of `Lib.Service`, with a `mov al, 0x20` before the `popa`.

An `IrqSite` leaves open what the function behind the keyboard is.  `ShellSite.irqSite` is the site
with `keyboard_handler`, on the memory that `Shell.InMemory` gives it.

* `interrupts_unseen`: the program that is interrupted does not notice, the ticks are counted, and
  the handlers find their memory as they have left it.
* `typed_while_running`: **what is typed** meanwhile is the line in `cmd_buffer`.
-/

namespace Antagonist

open ByteMem X86 Footprint

/-! ### The handlers -/

/-- `timer_handler`, on the memory: its variable is at `ticksAt`. -/
def timerHandler (ticksAt : Nat) (m : Mem) : Mem :=
  let m := store32 m ticksAt (load32 m ticksAt + 1)
  if load32 m ticksAt % 100 = 0 then store8 (store8 m 0xB809E 0x2E) 0xB809F 0x0F else m

theorem timerHandler_apply (ticksAt : Nat) (m : Mem) {x : Nat} (hticks : 4 ≤ Off ticksAt x)
    (h9E : x ≠ 0xB809E) (h9F : x ≠ 0xB809F) : timerHandler ticksAt m x = m x := by
  rw [timerHandler]
  split
  · rw [store8_apply_ne _ _ h9F, store8_apply_ne _ _ h9E, store32_apply_out _ _ hticks]
  · exact store32_apply_out _ _ hticks

theorem timerHandler_congr {ticksAt x : Nat} {m m' : Mem}
    (hticks : load32 m' ticksAt = load32 m ticksAt) (hx : m' x = m x) :
    timerHandler ticksAt m' x = timerHandler ticksAt m x := by
  have hstore8 : ∀ {m m' : Mem} (a : Nat) (b : Byte), m' x = m x →
      store8 m' a b x = store8 m a b x := by
    intro m m' a b h
    rw [store8, store8, h]
  have hword : ∀ v, store32 m' ticksAt v x = store32 m ticksAt v x :=
    fun v => hstore8 _ _ (hstore8 _ _ (hstore8 _ _ (hstore8 _ _ hx)))
  rw [timerHandler, timerHandler, load32_store32_mod, load32_store32_mod, hticks]
  split
  · exact hstore8 _ _ (hstore8 _ _ (hword _))
  · exact hword _

/-- An interrupt of one of the two lines, with what the keyboard has for its handler. -/
inductive Irq (κ : Type)
  | timer
  | keyboard (k : κ)

def Irq.isTimer {κ : Type} : Irq κ → Bool
  | .timer => true
  | .keyboard _ => false

/-- The two stubs, and what the functions behind them may use. -/
structure IrqSite (κ : Type) where
  timer : ServiceGate
  keyboard : ServiceGate
  /-- how much of the stack the functions use -/
  depth : Nat
  depth_le : depth + 56 ≤ 2 ^ 32
  ticksAt : Nat
  ticksAt_le : ticksAt + 4 ≤ 2 ^ 32
  /-- `timer_ticks` is not on the screen -/
  offScreen : ticksAt + 4 ≤ 0xB809E ∨ 0xB809F < ticksAt
  keyboardHandler : κ → Mem → Mem
  keyboardCells : Nat → Prop
  keyboard_only : ∀ k m x, ¬ keyboardCells x → keyboardHandler k m x = m x
  keyboard_ticks : ∀ x, ticksAt ≤ x → x < ticksAt + 4 → ¬ keyboardCells x
  /-- it may read the ticks besides -/
  keyboard_local : ∀ k m m', (∀ x < 2 ^ 32, keyboardCells x → m' x = m x) →
    load32 m' ticksAt = load32 m ticksAt → ∀ x, keyboardCells x →
      keyboardHandler k m' x = keyboardHandler k m x

namespace IrqSite

variable {κ : Type} (S : IrqSite κ)

def gate : Irq κ → ServiceGate
  | .timer => S.timer
  | .keyboard _ => S.keyboard

def work : Irq κ → Mem → Mem
  | .timer => timerHandler S.ticksAt
  | .keyboard k => S.keyboardHandler k

/-- The memory of the handlers. -/
def Foreign (x : Nat) : Prop :=
  S.ticksAt ≤ x ∧ x < S.ticksAt + 4 ∨ x = 0xB809E ∨ x = 0xB809F ∨ S.keyboardCells x

/-- What an interrupt of either line may use of the stack. -/
def Scratch (c : Machine) (x : Nat) : Prop := ∃ i, (S.gate i).Scratch c S.depth x

/-- The stub from the return of its call on: `mov al, 0x20`, the `out`, `popa` and `iret`. -/
def stubReturn (after : Machine) : Machine :=
  sysExecAll [.plain .popa, .iret]
    { after with toCpu := after.toCpu.set .eax ((after.regs .eax &&& 0xFFFFFF00) ||| 0x20) }

/-- The interrupt `i`, from `c` to `c'`.  The stack has room for it. -/
def Serves (i : Irq κ) (c c' : Machine) : Prop :=
  c.eflags &&& flagIf ≠ 0 ∧ (∀ x < 2 ^ 32, S.Scratch c x → ¬ S.Foreign x) ∧
    ∃ after, (S.gate i).Returned c S.depth (S.work i) after ∧ c' = stubReturn after

variable {S}

theorem work_out (i : Irq κ) {m : Mem} {x : Nat} (hx : x < 2 ^ 32) (h : ¬ S.Foreign x) :
    S.work i m x = m x := by
  cases i with
  | timer =>
    refine timerHandler_apply S.ticksAt m ?_ (fun he => h (.inr (.inl he)))
      fun he => h (.inr (.inr (.inl he)))
    have hticks : ¬ (S.ticksAt ≤ x ∧ x < S.ticksAt + 4) := fun hin => h (.inl hin)
    have hle := S.ticksAt_le
    simp only [Off]
    omega
  | keyboard k => exact S.keyboard_only k m x fun hcell => h (.inr (.inr (.inr hcell)))

/-- What the handlers make of their memory depends on nothing else. -/
theorem work_local (i : Irq κ) {m m' : Mem} (h : ∀ x < 2 ^ 32, S.Foreign x → m' x = m x) {x : Nat}
    (hx : x < 2 ^ 32) (hforeign : S.Foreign x) : S.work i m' x = S.work i m x := by
  have hticks : load32 m' S.ticksAt = load32 m S.ticksAt := by
    have hle := S.ticksAt_le
    exact load32_of_bytes hle fun y hlo hhi => h y (by omega) (.inl ⟨hlo, hhi⟩)
  cases i with
  | timer => exact timerHandler_congr hticks (h x hx hforeign)
  | keyboard k =>
    show S.keyboardHandler k m' x = S.keyboardHandler k m x
    by_cases hcell : S.keyboardCells x
    · exact S.keyboard_local k m m' (fun y hy hcell => h y hy (.inr (.inr (.inr hcell)))) hticks x
        hcell
    · rw [S.keyboard_only k m' x hcell, S.keyboard_only k m x hcell, h x hx hforeign]

theorem ticks_work (i : Irq κ) (m : Mem) : load32 (S.work i m) S.ticksAt =
    if i.isTimer then (load32 m S.ticksAt + 1) % 2 ^ 32 else load32 m S.ticksAt := by
  have hle := S.ticksAt_le
  have hoff := S.offScreen
  cases i with
  | timer =>
    show load32 (timerHandler S.ticksAt m) S.ticksAt = (load32 m S.ticksAt + 1) % 2 ^ 32
    rw [timerHandler]
    split
    · rw [load32_store8_apart, load32_store8_apart, load32_store32_mod]
      · simp only [Off]
        omega
      · simp only [Off]
        omega
    · exact load32_store32_mod _ _ _
  | keyboard k =>
    exact load32_of_bytes hle fun x hlo hhi => S.keyboard_only k m x (S.keyboard_ticks x hlo hhi)

/-- **An interrupt** gives the machine back.  The handlers find their memory as it was, and apart
from it only what is in reach on the stack is touched. -/
theorem Serves.spec {i : Irq κ} {c c' : Machine} (h : S.Serves i c c') :
    ∃ m, c' = c.withMem m ∧ (∀ x < 2 ^ 32, ¬ S.Foreign x → ¬ S.Scratch c x → m x = c.mem x) ∧
      ∀ x < 2 ^ 32, S.Foreign x → m x = S.work i c.mem x := by
  obtain ⟨-, hroom, after, hafter, rfl⟩ := h
  have hreach : ∀ x, (S.gate i).OwnStack c S.depth x → x < 2 ^ 32 → S.Scratch c x := by
    intro x hx hlt
    exact ⟨i, hx.scratch hlt S.depth_le⟩
  have hcalled : ∀ x < 2 ^ 32, ¬ S.Scratch c x → (S.gate i).calledMem c x = c.mem x :=
    fun x _ hx => (S.gate i).calledMem_out S.depth_le fun hin => hx ⟨i, hin⟩
  have hmem : ∀ x < 2 ^ 32, ¬ S.Scratch c x → after.mem x = S.work i ((S.gate i).calledMem c) x :=
    fun x hx hout => hafter.mem x hx fun hown => hout (hreach x hown hx)
  have hforeign : ∀ x < 2 ^ 32, S.Foreign x → ¬ S.Scratch c x := fun x hx hin hs => hroom x hx hs hin
  refine ⟨after.mem, ?_, ?_, ?_⟩
  · have hreturned : (S.gate i).Returned c S.depth (S.work i)
        { after with toCpu := after.toCpu.set .eax ((after.regs .eax &&& 0xFFFFFF00) ||| 0x20) } :=
      ⟨hafter.esp, hafter.seg, hafter.mem⟩
    exact hreturned.serviced S.depth_le fun x hx hin => work_out i hx (hroom x hx ⟨i, hin⟩)
  · intro x hx hout hscratch
    rw [hmem x hx hscratch, work_out i hx hout, hcalled x hx hscratch]
  · intro x hx hin
    rw [hmem x hx (hforeign x hx hin)]
    exact work_local i (fun y hy hyin => hcalled y hy (hforeign y hy hyin)) hx hin

theorem Serves.ticks {i : Irq κ} {c c' : Machine} (h : S.Serves i c c') :
    load32 c'.mem S.ticksAt =
      if i.isTimer then (load32 c.mem S.ticksAt + 1) % 2 ^ 32 else load32 c.mem S.ticksAt := by
  obtain ⟨m, rfl, -, hm⟩ := h.spec
  have hle := S.ticksAt_le
  rw [← ticks_work]
  exact load32_of_bytes hle fun x hlo hhi => hm x (by omega) (.inl ⟨hlo, hhi⟩)

/-- **The program** runs on as without interrupts. -/
theorem alike_of_interrupted {step : Machine → Machine} {Alike : Machine → Machine → Prop}
    (hview : X86.View step S.Foreign S.Scratch Alike) {c c' : Machine} {n : Nat}
    {events : List (Irq κ)} (h : Interrupted step S.Serves c n events c') :
    Alike (step^[n] c) c' := by
  refine h.unseen hview ?_
  intro i d d' hs
  obtain ⟨m, hd', hsame, -⟩ := hs.spec
  exact ⟨m, hd', hsame⟩

/-- **The memory of the handlers** is their own work, one after the other. -/
theorem foreign_of_interrupted {step : Machine → Machine}
    (hstep : ∀ c, ∀ x < 2 ^ 32, S.Foreign x → (step c).mem x = c.mem x) {c c' : Machine} {n : Nat}
    {events : List (Irq κ)} (h : Interrupted step S.Serves c n events c') :
    ∀ x < 2 ^ 32, S.Foreign x → c'.mem x = events.foldl (fun m i => S.work i m) c.mem x := by
  induction h with
  | start => exact fun _ _ _ => rfl
  | instr _ ih =>
    intro x hx hin
    rw [hstep _ x hx hin, ih x hx hin]
  | @served n events d d' i _ hs ih =>
    intro x hx hin
    obtain ⟨m, rfl, -, hm⟩ := hs.spec
    rw [List.foldl_concat]
    exact (hm x hx hin).trans (work_local i ih hx hin)

/-- A function that has done its work, and has left nothing in the registers. -/
def returned (S : IrqSite κ) (i : Irq κ) (c : Machine) : Machine where
  regs r := if r = .esp then ((S.gate i).entry c).regs .esp - 32 else 0
  eip := (S.gate i).returnAddress
  mem := S.work i ((S.gate i).calledMem c)
  eflags := 2
  seg := ((S.gate i).entry c).seg

theorem serves_returned {i : Irq κ} {c : Machine} (hif : c.eflags &&& flagIf ≠ 0)
    (hroom : ∀ x < 2 ^ 32, S.Scratch c x → ¬ S.Foreign x) :
    S.Serves i c (stubReturn (S.returned i c)) :=
  ⟨hif, hroom, S.returned i c, ⟨rfl, rfl, fun _ _ _ => rfl⟩, rfl⟩

end IrqSite

/-! ### The site of the shell -/

/-- The variables, the stubs, and the stack that the functions need. -/
structure ShellSite extends ShellVars where
  timer : ServiceGate
  keyboard : ServiceGate
  depth : Nat
  depth_le : depth + 56 ≤ 2 ^ 32
  ticksAt : Nat
  ticksAt_le : ticksAt + 4 ≤ 2 ^ 32
  ticks_apart : ∀ r ∈ toShellAddresses.regions, Region.Apart ⟨ticksAt, 4⟩ r

namespace ShellSite

open ShellAddresses

variable {δ : Type} (W : ShellSite)

theorem ticks_offScreen : W.ticksAt + 4 ≤ 0xB809E ∨ 0xB809F < W.ticksAt := by
  have hscreen := W.ticks_apart videoRegion W.mem_regions.1
  simp only [Region.Apart, videoRegion] at hscreen
  omega

theorem ticks_not_covered {x : Nat} (hlo : W.ticksAt ≤ x) (hhi : x < W.ticksAt + 4) :
    ¬ Covers W.regions x := by
  rintro ⟨r, hr, hx⟩
  exact (W.ticks_apart r hr).not_contains ⟨hlo, hhi⟩ hx

/-- The site with `keyboard_handler`. -/
def irqSite (bus : Bus δ) : IrqSite (Interrupt × δ) where
  timer := W.timer
  keyboard := W.keyboard
  depth := W.depth
  depth_le := W.depth_le
  ticksAt := W.ticksAt
  ticksAt_le := W.ticksAt_le
  offScreen := W.ticks_offScreen
  keyboardHandler := W.keyboardWork bus W.ticksAt
  keyboardCells := Covers W.regions
  keyboard_only _ _ _ h := ShellVars.keyboardWork_out h
  keyboard_ticks _ hlo hhi := W.ticks_not_covered hlo hhi
  keyboard_local _ _ _ h hticks _ hx := ShellVars.keyboardWork_local h hticks hx

variable {W} {bus : Bus δ}

theorem line_timerHandler (m : Mem) (dev : δ) :
    let s := W.shellIn m dev
    let t := W.shellIn (timerHandler W.ticksAt m) dev
    t.cmdBuffer = s.cmdBuffer ∧ t.cmdIndex = s.cmdIndex ∧
      t.console.cursorPosition = s.console.cursorPosition := by
  have hregion : ∀ r ∈ W.regions, videoRegion.Apart r → ∀ x, r.Contains x →
      timerHandler W.ticksAt m x = m x := by
    intro r hr hvideo x hx
    have hticks := W.ticks_apart r hr
    have hfits := W.fits r hr
    have hle := W.ticksAt_le
    simp only [Region.Apart, Region.Contains, videoRegion] at hticks hvideo hx
    refine timerHandler_apply W.ticksAt m ?_ (by omega) (by omega)
    simp only [Off]
    omega
  obtain ⟨-, cursor, buffer, index, -⟩ := W.mem_regions
  have hvideo := (List.pairwise_cons.mp W.apart).1
  have hbuffer := hregion _ buffer (hvideo _ (by simp only [List.mem_cons, true_or, or_true]))
  have hindex := hregion _ index (hvideo _ (by simp only [List.mem_cons, true_or, or_true]))
  have hcursor := hregion _ cursor (hvideo _ List.mem_cons_self)
  exact ⟨Region.bytes_congr hbuffer,
    load32_of_bytes (W.fits _ index) fun x hlo hhi => hindex x ⟨hlo, hhi⟩,
    load32_of_bytes (W.fits _ cursor) fun x hlo hhi => hcursor x ⟨hlo, hhi⟩⟩

def typed (events : List (Irq (Interrupt × δ))) : List Interrupt :=
  events.filterMap fun
    | .timer => none
    | .keyboard k => some k.1

/-- The prompt and the line in memory. -/
def LineIn (W : ShellSite) (m : Mem) (line : List Byte) : Prop :=
  Prompt (W.shellIn m ()) ∧ (W.shellIn m ()).Holds line

theorem LineIn.prompt {m : Mem} {line : List Byte} (h : W.LineIn m line) (dev : δ) :
    Prompt (W.shellIn m dev) := ⟨h.1.index, h.1.row⟩

theorem lineIn_of_fields {m : Mem} {dev : δ} {s : Shell (Driver δ)} {line : List Byte}
    (hbuffer : (W.shellIn m dev).cmdBuffer = s.cmdBuffer)
    (hindex : (W.shellIn m dev).cmdIndex = s.cmdIndex)
    (hcursor : (W.shellIn m dev).console.cursorPosition = s.console.cursorPosition)
    (hprompt : Prompt s) (hline : s.Holds line) : W.LineIn m line := by
  obtain ⟨hidx, R, hR, hlo, hhi, hc⟩ := hprompt
  refine ⟨⟨le_of_eq_of_le hindex hidx, R, hR, hlo, hhi, ?_⟩, ?_⟩
  · show (W.shellIn m dev).console.cursorPosition = R + 2 * (W.shellIn m dev).cmdIndex
    rw [hcursor, hindex, hc]
  · unfold Shell.Holds at hline
    rw [← hbuffer, ← hindex] at hline
    exact hline

theorem lineIn_timer {m : Mem} {line : List Byte} (h : W.LineIn m line) :
    W.LineIn (timerHandler W.ticksAt m) line := by
  obtain ⟨hbuffer, hindex, hcursor⟩ := line_timerHandler (W := W) m ()
  exact lineIn_of_fields hbuffer hindex hcursor h.1 h.2

theorem lineIn_keyboard {m : Mem} {line : List Byte} (h : W.LineIn m line)
    (hbus : (driverAta bus).ReadsBack) {k : Interrupt × δ} (hk : k.1.PagesOk)
    (hok : decode k.1.scancode = .backspace → line ≠ []) :
    W.LineIn (W.keyboardWork bus W.ticksAt k m)
      (LineEditor.edit 63 line (decode k.1.scancode)) := by
  have hprompt := h.prompt k.2
  have hline : (W.shellIn m k.2).Holds line := h.2
  obtain ⟨i, hscan, hpages, hshell⟩ :=
    ShellVars.shellIn_keyboardWork W.ticksAt hbus hk hprompt k.2
  have hnext := (keyboardHandlerL_inBounds hbus hpages hprompt).2
  rw [← hscan] at hok ⊢
  exact lineIn_of_fields (s := keyboardHandler (driverAta bus) i (W.shellIn m k.2)) (by rw [hshell])
    (by rw [hshell]) (by rw [hshell]) hnext (hline.keyboardHandler (driverAta bus) hok)

/-- **The work of the handlers** on their memory, in any order. -/
theorem lineIn_events (hbus : (driverAta bus).ReadsBack) {m : Mem} (h : W.LineIn m [])
    {events : List (Irq (Interrupt × δ))} (hpages : ∀ i ∈ typed events, i.PagesOk)
    (hback : NoStrayBackspace (typed events)) :
    W.LineIn (events.foldl (fun m i => (W.irqSite bus).work i m) m) (editorLine (typed events)) := by
  induction events using List.reverseRecOn with
  | nil => exact h
  | append_singleton events i ih =>
    rw [List.foldl_concat]
    cases i with
    | timer =>
      have hsame : typed (events ++ [Irq.timer]) = typed events := by
        rw [typed, List.filterMap_append]
        exact List.append_nil _
      rw [hsame] at hpages hback ⊢
      exact lineIn_timer (ih hpages hback)
    | keyboard k =>
      have hsnoc : typed (events ++ [Irq.keyboard k]) = typed events ++ [k.1] := by
        rw [typed, List.filterMap_append]
        rfl
      rw [hsnoc] at hpages hback ⊢
      rw [editorLine_snoc]
      have hbefore := ih (fun i hi => hpages i (List.mem_append_left _ hi)) hback.left
      refine lineIn_keyboard hbefore hbus (hpages k.1 (by simp)) fun hkey => ?_
      exact hback _ k.1 [] rfl ((decode_backspace_iff k.1.scancode).mp hkey)

end ShellSite

/-! ### A program that counts -/

def countStep (c : Machine) : Machine :=
  { c with toCpu := { c.toCpu.set .eax (c.regs .eax + 1) with eip := c.eip + 1 } }

def kernelSite : ShellSite where
  cursorPosition := 0x110010
  cmdBuffer := 0x110020
  cmdIndex := 0x110014
  commandReadyFlag := 0x110018
  diskTestPad := 0x110100
  keyboardMatrix := 0x110400
  ataIoBuffer := 0x110600
  ataInterruptFired := 0x110800
  apart := by decide
  fits := by decide
  timer := ⟨0x08, 0x100300, 0x100302, ⟨0x10, 0x9000⟩, by decide⟩
  keyboard := ⟨0x08, 0x100320, 0x100322, ⟨0x10, 0x9000⟩, by decide⟩
  depth := 64
  depth_le := by decide
  ticksAt := 0x110000
  ticksAt_le := by decide
  ticks_apart := by decide

/-- In ring 0, with the prompt at the start of its first row. -/
def counting : Machine where
  regs r := if r = .esp then 0x8000 else 7
  eip := 0x100000
  mem := store32 (fun _ => 0) 0x110010 1600
  eflags := 0x202
  seg s := if s = .cs then 0x08 else 0x10

def countingIrqs : IrqSite (Interrupt × IdealDrive) := kernelSite.irqSite idealBus

theorem view_countStep : X86.View countStep countingIrqs.Foreign countingIrqs.Scratch
    fun c d => ∃ m, d = c.withMem m := by
  refine ⟨fun c => ⟨c.mem, rfl⟩, ?_, ?_, fun c m _ => ⟨m, rfl⟩⟩
  · rintro c d e ⟨m, rfl⟩ ⟨m', rfl⟩
    exact ⟨m', rfl⟩
  · rintro c d ⟨m, rfl⟩
    exact ⟨m, rfl⟩

/-- An interrupt of the counting program, once it has counted `n` times. -/
theorem serves_counting (i : Irq (Interrupt × IdealDrive)) {n : Nat} {c : Machine}
    (hc : ∃ m, c = (countStep^[n] counting).withMem m) :
    countingIrqs.Serves i c (IrqSite.stubReturn (countingIrqs.returned i c)) := by
  obtain ⟨m, rfl⟩ := hc
  have hstill : ∀ n, (countStep^[n] counting).regs .esp = 0x8000 ∧
      (countStep^[n] counting).eflags = 0x202 ∧ (countStep^[n] counting).seg = counting.seg := by
    intro n
    induction n with
    | zero => exact ⟨rfl, rfl, rfl⟩
    | succ n ih =>
      rw [Function.iterate_succ_apply']
      exact ih
  obtain ⟨hesp, hflags, hseg⟩ := hstill n
  have hif : ((countStep^[n] counting).withMem m).eflags &&& flagIf ≠ 0 := by
    show (countStep^[n] counting).eflags &&& flagIf ≠ 0
    rw [hflags]
    decide
  refine IrqSite.serves_returned hif ?_
  rintro x hx ⟨i, hin⟩
  have hcpl : ((countStep^[n] counting).withMem m).cpl = 0 := by
    show ((countStep^[n] counting).seg .cs).toNat % 4 = 0
    rw [hseg]
    rfl
  have htop : (countingIrqs.gate i).top ((countStep^[n] counting).withMem m) = 0x8000 := by
    rw [ServiceGate.top, ServiceGate.onGateStack_inner (by omega)]
    exact hesp
  have hlow : x < 0x10000 := by
    rw [ServiceGate.Scratch, htop] at hin
    have hbottom : (0x8000 - BitVec.ofNat 32 (countingIrqs.depth + 56) : BitVec 32).toNat =
        0x7F88 := by decide
    rw [hbottom] at hin
    simp only [Off, countingIrqs, ShellSite.irqSite, kernelSite] at hin
    omega
  rintro (⟨hlo, -⟩ | rfl | rfl | ⟨r, hr, hcell⟩)
  · exact absurd (lt_of_le_of_lt hlo hlow) (by decide)
  · exact absurd hlow (by decide)
  · exact absurd hlow (by decide)
  · have hbase : ∀ r ∈ kernelSite.regions, 0x10000 ≤ r.base := by decide
    have hle := hbase r hr
    exact absurd (le_trans hle hcell.1) (not_le.mpr hlow)

def keyH : Interrupt × IdealDrive := (⟨0x23, 0, 0, 0, 0⟩, ⟨fun _ _ => 0, 0, 0, 0, 0, .idle⟩)

def afterTick : Machine :=
  countStep (IrqSite.stubReturn (countingIrqs.returned .timer (countStep counting)))

def afterKey : Machine :=
  countStep (IrqSite.stubReturn (countingIrqs.returned (.keyboard keyH) afterTick))

theorem interrupted_counting :
    Interrupted countStep countingIrqs.Serves counting 3 [.timer, .keyboard keyH] afterKey := by
  have htick : Interrupted countStep countingIrqs.Serves counting 2 [.timer] afterTick :=
    (Interrupted.start.instr.served (serves_counting (n := 1) .timer ⟨_, rfl⟩)).instr
  have hseen := IrqSite.alike_of_interrupted view_countStep htick
  exact (htick.served (serves_counting (n := 2) (.keyboard keyH) hseen)).instr

/-! ### Runs -/

/-- **Interrupts are not seen.**  A program whose instructions look neither below the stack pointer
nor at the memory of the handlers runs on as without interrupts, wherever they come, and each
interrupt of the timer is a tick.  If its instructions do not write to that memory either, the
handlers have it to themselves. -/
theorem interrupts_unseen {κ : Type} (S : IrqSite κ) {step : Machine → Machine}
    {Alike : Machine → Machine → Prop} (hview : X86.View step S.Foreign S.Scratch Alike)
    (hticks : ∀ c, load32 (step c).mem S.ticksAt = load32 c.mem S.ticksAt) {c c' : Machine} {n : Nat}
    {events : List (Irq κ)} (h : Interrupted step S.Serves c n events c') :
    Alike (step^[n] c) c' ∧
      load32 c'.mem S.ticksAt =
        (load32 c.mem S.ticksAt + events.countP Irq.isTimer) % 2 ^ 32 ∧
      ((∀ c, ∀ x < 2 ^ 32, S.Foreign x → (step c).mem x = c.mem x) →
        ∀ x < 2 ^ 32, S.Foreign x →
          c'.mem x = events.foldl (fun m i => S.work i m) c.mem x) := by
  refine ⟨IrqSite.alike_of_interrupted hview h, ?_,
    fun hstep => IrqSite.foreign_of_interrupted hstep h⟩
  induction h with
  | start => exact (Nat.mod_eq_of_lt (load32_lt _ _)).symm
  | instr _ ih => rw [hticks, ih]
  | @served n events d d' i _ hs ih =>
    rw [hs.ticks, List.countP_append, List.countP_singleton, ih]
    by_cases hi : i.isTimer
    · rw [if_pos hi, if_pos hi]
      omega
    · rw [if_neg hi, if_neg hi]
      rfl

/-- A tick and a key between three instructions. -/
theorem interrupts_unseen_counting :
    (∃ m, afterKey = (countStep^[3] counting).withMem m) ∧
    load32 afterKey.mem 0x110000 = 1 ∧
    ∀ x < 2 ^ 32, countingIrqs.Foreign x → afterKey.mem x =
      countingIrqs.work (.keyboard keyH) (countingIrqs.work .timer counting.mem) x := by
  have h := interrupts_unseen countingIrqs view_countStep (fun _ => rfl) interrupted_counting
  refine ⟨h.1, h.2.1.trans ?_, h.2.2 fun _ _ _ _ => rfl⟩
  rfl

/-- **Typing while a program runs.**  The program does not notice, and what is typed meanwhile is
the line in `cmd_buffer`, with the cursor of the prompt behind it. -/
theorem typed_while_running {δ : Type} (W : ShellSite) {bus : Bus δ}
    (hbus : (driverAta bus).ReadsBack) {step : Machine → Machine} {Alike : Machine → Machine → Prop}
    (hview : X86.View step (W.irqSite bus).Foreign (W.irqSite bus).Scratch Alike)
    (hstep : ∀ c, ∀ x < 2 ^ 32, (W.irqSite bus).Foreign x → (step c).mem x = c.mem x)
    {c c' : Machine} {n : Nat} {events : List (Irq (Interrupt × δ))}
    (h : Interrupted step (W.irqSite bus).Serves c n events c') (hline : W.LineIn c.mem [])
    (hpages : ∀ i ∈ ShellSite.typed events, i.PagesOk)
    (hback : NoStrayBackspace (ShellSite.typed events)) :
    Alike (step^[n] c) c' ∧ W.LineIn c'.mem (editorLine (ShellSite.typed events)) := by
  have hforeign := IrqSite.foreign_of_interrupted hstep h
  refine ⟨IrqSite.alike_of_interrupted hview h, ?_⟩
  have hend := ShellSite.lineIn_events hbus hline hpages hback
  have hsame := W.shellIn_congr (fun x hx hin => hforeign x hx (.inr (.inr (.inr hin)))) ()
  unfold ShellSite.LineIn at hend ⊢
  rw [hsame]
  exact hend

/-- The key is in the line. -/
theorem typed_while_running_counting :
    (∃ m, afterKey = (countStep^[3] counting).withMem m) ∧
    kernelSite.LineIn afterKey.mem (ascii "h") := by
  have hindex : load32 counting.mem 0x110014 = 0 := rfl
  have hcursor : load32 counting.mem 0x110010 = 1600 := rfl
  have hline : kernelSite.LineIn counting.mem [] := by
    refine ⟨⟨le_of_eq_of_le hindex (Nat.zero_le 63), 1600, rfl, le_refl _, by decide, ?_⟩, ?_⟩
    · show load32 counting.mem 0x110010 = 1600 + 2 * load32 counting.mem 0x110014
      rw [hcursor, hindex]
    · show LineEditor.Holds 64 0 (kernelSite.bufferRegion.bytes counting.mem)
        (load32 counting.mem 0x110014) []
      rw [hindex]
      refine LineEditor.Holds.clear (by decide) fun i hi => ?_
      show (if i < 64 then counting.mem (0x110020 + i) else 0) = 0
      rw [if_pos hi]
      refine store32_apply_out _ _ ?_
      simp only [Off]
      omega
  refine typed_while_running kernelSite readsBack_idealBus view_countStep (fun _ _ _ _ => rfl)
    interrupted_counting hline ?_ ?_
  · intro i hi
    obtain rfl : i = keyH.1 := List.mem_singleton.mp hi
    exact ⟨by decide, by decide⟩
  · intro A i B hsplit hback
    have hkeys : [keyH.1] = A ++ i :: B := hsplit
    have hmem : i ∈ [keyH.1] := hkeys ▸ List.mem_append_right A List.mem_cons_self
    obtain rfl := List.mem_singleton.mp hmem
    exact absurd hback (by decide)

end Antagonist
