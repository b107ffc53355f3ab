import Antagonist.Lib.Lts
import Antagonist.Lib.Pic
import Antagonist.Shell.Keyboard

/-!
# Interrupt requests

The master interrupt controller as `remap_pic` programs it, and the two handlers with their stubs.
Each interrupt is acknowledged two or three times: in the C++ handler, for some keys again at its
end, and once more in the stub.  Requests of either line come at any time.

The gates clear the interrupt flag and no handler sets it, so one handler runs at a time, and no
line but its own is ever in service.  The first end of interrupt clears that line, and the others
find nothing to clear.

* `irqLts`: the controller, the flag and the handlers, with requests at any point.
* `IrqInv`: the invariant.
* `irq_acknowledged`: what each step does to the registers.
-/

namespace Antagonist

open ByteMem I8259

/-! ### The code -/

/-- An instruction.  `work` is any that leaves the controller and the interrupt flag alone. -/
inductive IrqInstr
  | work
  | outb (port : Nat) (value : Byte)
  | iret
  deriving DecidableEq

def IrqInstr.eoi : IrqInstr := .outb 0x20 0x20

def remapPic : List IrqInstr :=
  [.outb 0x20 0x11, .outb 0xA0 0x11, .outb 0x21 0x20, .outb 0xA1 0x28, .outb 0x21 0x04,
    .outb 0xA1 0x02, .outb 0x21 0x01, .outb 0xA1 0x01, .outb 0x21 0x00, .outb 0xA1 0x00]

/-- `timer_handler`. -/
def timerHandlerCode : List IrqInstr := [.work, .eoi]

/-- `keyboard_handler`, by the scancode that it reads. -/
def keyboardHandlerCode (scancode : Byte) : List IrqInstr :=
  if scancode &&& 0x80 ≠ 0 then [.work, .eoi] else [.work, .eoi, .work, .eoi]

def irq0HandlerStub : List IrqInstr := [.work] ++ timerHandlerCode ++ [.work, .eoi, .work, .iret]

def irq1HandlerStub (scancode : Byte) : List IrqInstr :=
  [.work] ++ keyboardHandlerCode scancode ++ [.work, .eoi, .work, .iret]

/-- A gate of the descriptor table: its flags, and the code that it leads to. -/
structure IdtGate where
  flags : Byte
  code : Byte → List IrqInstr

def irqGate (vector : Nat) : Option IdtGate :=
  if vector = 32 then some ⟨0x8E, fun _ => irq0HandlerStub⟩
  else if vector = 33 then some ⟨0x8E, irq1HandlerStub⟩
  else none

/-- An interrupt gate clears the flag on entry, a trap gate does not. -/
def IdtGate.clearsIf (g : IdtGate) : Bool := g.flags &&& 0x0F = 0x0E

/-! ### The system -/

/-- What an `out` does to the master controller. -/
def picOutb (p : Pic) (port : Nat) (value : Byte) : Pic :=
  if port = 0x20 then p.writeCommand value
  else if port = 0x21 then p.writeData value
  else p

def runOutb (p : Pic) : IrqInstr → Pic
  | .outb port value => picOutb p port value
  | _ => p

/-- A handler that runs: its line, what it has left to do, and the flag that `iret` restores. -/
structure IrqFrame where
  line : Fin 8
  code : List IrqInstr
  savedIf : Bool

structure IrqSys where
  pic : Pic
  interruptFlag : Bool
  frames : List IrqFrame

/-- A request on a line, the program setting the flag, the processor taking an interrupt (with the
scancode that the keyboard has), and the next instruction of the handler that runs. -/
inductive IrqOp
  | edge (i : Fin 8)
  | setIf (b : Bool)
  | accept (scancode : Byte)
  | step

inductive IrqStep : IrqSys → IrqOp → IrqSys → Prop
  | edge {s : IrqSys} {i : Fin 8} : i = 0 ∨ i = 1 →
      IrqStep s (.edge i) { s with pic := s.pic.raise i }
  | setIf {s : IrqSys} {b : Bool} : s.frames = [] →
      IrqStep s (.setIf b) { s with interruptFlag := b }
  | accept {s : IrqSys} {i : Fin 8} {g : IdtGate} {scancode : Byte} : s.interruptFlag = true →
      s.pic.pending = some i → irqGate (s.pic.vectorBase + i) = some g →
      IrqStep s (.accept scancode)
        ⟨s.pic.acknowledge i, !g.clearsIf, ⟨i, g.code scancode, true⟩ :: s.frames⟩
  | run {s : IrqSys} {i : Fin 8} {x : IrqInstr} {code : List IrqInstr} {f : Bool}
      {frames : List IrqFrame} : s.frames = ⟨i, x :: code, f⟩ :: frames → x ≠ .iret →
      IrqStep s .step ⟨runOutb s.pic x, s.interruptFlag, ⟨i, code, f⟩ :: frames⟩
  | iret {s : IrqSys} {i : Fin 8} {code : List IrqInstr} {f : Bool} {frames : List IrqFrame} :
      s.frames = ⟨i, .iret :: code, f⟩ :: frames → IrqStep s .step ⟨s.pic, f, frames⟩

/-- All runs from `remap_pic` on, whatever was in the registers. -/
def irqLts : Lts IrqSys IrqOp where
  init s := ∃ p, s = ⟨remapPic.foldl runOutb p, false, []⟩
  step := IrqStep

/-- The registers are those of fully nested mode with plain ends of interrupt, no line is masked,
and line `i` has the vector `32 + i`. -/
structure Programmed (p : Pic) : Prop where
  phase : p.phase = .ready
  vectorBase : p.vectorBase = 32
  autoEoi : p.autoEoi = false
  fullyNested : p.specialFullyNested = false
  imr : p.imr = ∅

/-- What one step does to the registers. -/
structure AckLaw (s : IrqSys) (op : IrqOp) (t : IrqSys) : Prop where
  /-- An end of interrupt clears the line whose handler runs, or none. -/
  eoi : ∀ f code, s.frames.head? = some f → f.code = .eoi :: code → op = .step →
    t.pic.isr = s.pic.isr.erase f.line ∨ t.pic.isr = s.pic.isr
  /-- A request is removed only by entering its handler. -/
  latched : ∀ j ∈ s.pic.irr, j ∉ t.pic.irr → ∃ scancode g, op = .accept scancode ∧
    irqGate (32 + j) = some g ∧ t.frames = ⟨j, g.code scancode, true⟩ :: s.frames
  /-- No line is in service when a stub returns. -/
  iret : ∀ f code, s.frames.head? = some f → f.code = .iret :: code → op = .step →
    s.pic.isr = ∅

/-! ### The invariant -/

/-- Code that is left of a stub: no `iret` but the last, and no `out` but ends of interrupt. -/
structure StubCode (code body : List IrqInstr) : Prop where
  code_eq : code = body ++ [.iret]
  body_mem : ∀ x ∈ body, x = .work ∨ x = .eoi

/-- No line is in service unless a handler runs.  Then it is the handler's own, and an end of
interrupt is still to come. -/
structure IrqInv (s : IrqSys) : Prop where
  programmed : Programmed s.pic
  running : (s.frames = [] ∧ s.pic.isr = ∅) ∨
    ∃ i code body f, s.frames = [⟨i, code, f⟩] ∧ s.interruptFlag = false ∧ StubCode code body ∧
      s.pic.isr ⊆ {i} ∧ (s.pic.isr = ∅ ∨ .eoi ∈ body)

/-- **`remap_pic` programs the master**, from any state. -/
theorem remapPic_programs (p : Pic) : Programmed (remapPic.foldl runOutb p) ∧
    (remapPic.foldl runOutb p).irr = ∅ ∧ (remapPic.foldl runOutb p).isr = ∅ :=
  ⟨⟨rfl, rfl, rfl, rfl, rfl⟩, rfl, rfl⟩

theorem picOutb_eoi (p : Pic) : runOutb p .eoi = p.eoi := rfl

theorem Programmed.eoi {p : Pic} (h : Programmed p) : Programmed p.eoi := by
  rw [Pic.eoi]
  split
  · exact ⟨h.phase, h.vectorBase, h.autoEoi, h.fullyNested, h.imr⟩
  · exact h

theorem stubCode_entry {i : Fin 8} {g : IdtGate} (hg : irqGate (32 + i) = some g)
    (scancode : Byte) : g.clearsIf = true ∧
      ∃ body, StubCode (g.code scancode) body ∧ .eoi ∈ body := by
  rw [irqGate] at hg
  split at hg
  · obtain rfl := Option.some.inj hg
    exact ⟨rfl, [.work, .work, .eoi, .work, .eoi, .work], ⟨rfl, by decide⟩, by decide⟩
  · split at hg
    · obtain rfl := Option.some.inj hg
      refine ⟨rfl, ?_⟩
      simp only [irq1HandlerStub, keyboardHandlerCode]
      by_cases hbreak : scancode &&& 0x80 ≠ 0
      · rw [if_pos hbreak]
        exact ⟨[.work, .work, .eoi, .work, .eoi, .work], ⟨rfl, by decide⟩, by decide⟩
      · rw [if_neg hbreak]
        exact ⟨[.work, .work, .eoi, .work, .eoi, .work, .eoi, .work], ⟨rfl, by decide⟩,
          by decide⟩
    · cases hg

theorem irqInv_init {s : IrqSys} (h : irqLts.init s) : IrqInv s := by
  obtain ⟨p, rfl⟩ := h
  have hp := remapPic_programs p
  exact ⟨hp.1, Or.inl ⟨rfl, hp.2.2⟩⟩

theorem StubCode.next {x : IrqInstr} {code body : List IrqInstr} (h : StubCode (x :: code) body)
    (hx : x ≠ .iret) : ∃ rest, body = x :: rest ∧ StubCode code rest ∧ (x = .work ∨ x = .eoi) := by
  obtain ⟨hcode, hmem⟩ := h
  cases body with
  | nil => exact absurd (List.cons.inj hcode).1 hx
  | cons y rest =>
    obtain ⟨rfl, hrest⟩ := List.cons.inj hcode
    exact ⟨rest, rfl, ⟨hrest, fun z hz => hmem z (List.mem_cons_of_mem x hz)⟩,
      hmem x List.mem_cons_self⟩

theorem StubCode.iret {code body : List IrqInstr} (h : StubCode (.iret :: code) body) :
    body = [] := by
  obtain ⟨hcode, hmem⟩ := h
  cases body with
  | nil => rfl
  | cons y rest =>
    obtain ⟨rfl, _⟩ := List.cons.inj hcode
    rcases hmem .iret List.mem_cons_self with h | h <;> cases h

section

variable {s : IrqSys} {i : Fin 8} {x : IrqInstr} {code : List IrqInstr} {f : Bool}
  {frames : List IrqFrame}

theorem IrqInv.frame (H : IrqInv s) (hframe : s.frames = ⟨i, code, f⟩ :: frames) :
    frames = [] ∧ s.interruptFlag = false ∧ ∃ body, StubCode code body ∧ s.pic.isr ⊆ {i} ∧
      (s.pic.isr = ∅ ∨ .eoi ∈ body) := by
  rcases H.running with ⟨hframes, _⟩ | ⟨j, code', body, f', hframe', hoff, hbody, hisr, hleft⟩
  · rw [hframe] at hframes
    cases hframes
  · rw [hframe] at hframe'
    cases hframe'
    exact ⟨rfl, hoff, body, hbody, hisr, hleft⟩

theorem IrqInv.idle (H : IrqInv s) (hif : s.interruptFlag = true) :
    s.frames = [] ∧ s.pic.isr = ∅ := by
  rcases H.running with h | ⟨_, _, _, _, _, hoff, _⟩
  · exact h
  · rw [hif] at hoff
    cases hoff

/-- An interrupt that is taken puts its own line in service. -/
theorem IrqInv.accept (H : IrqInv s) {g : IdtGate} (hif : s.interruptFlag = true)
    (hgate : irqGate (s.pic.vectorBase + i) = some g) (scancode : Byte) :
    IrqInv ⟨s.pic.acknowledge i, !g.clearsIf, ⟨i, g.code scancode, true⟩ :: s.frames⟩ := by
  have hp := H.programmed
  obtain ⟨hframes, hisr⟩ := H.idle hif
  rw [hp.vectorBase] at hgate
  obtain ⟨hclears, body, hbody, heoi⟩ := stubCode_entry hgate scancode
  refine ⟨⟨hp.phase, hp.vectorBase, hp.autoEoi, hp.fullyNested, hp.imr⟩, Or.inr ?_⟩
  refine ⟨i, _, body, true, by rw [hframes], ?_, hbody, ?_, Or.inr heoi⟩
  · show (!g.clearsIf) = false
    rw [hclears]
    rfl
  · show (if s.pic.autoEoi then s.pic.isr else insert i s.pic.isr) ⊆ {i}
    rw [hp.autoEoi, if_neg Bool.false_ne_true, hisr]
    exact subset_refl _

/-- The first end of interrupt clears that line, and the others clear nothing. -/
theorem IrqInv.run (H : IrqInv s) (hframe : s.frames = ⟨i, x :: code, f⟩ :: frames)
    (hx : x ≠ .iret) : IrqInv ⟨runOutb s.pic x, s.interruptFlag, ⟨i, code, f⟩ :: frames⟩ := by
  obtain ⟨rfl, hoff, body, hbody, hisr, hleft⟩ := H.frame hframe
  obtain ⟨rest, rfl, hrest, hkind⟩ := hbody.next hx
  rcases hkind with rfl | rfl
  · refine ⟨H.programmed, Or.inr ⟨i, code, rest, f, rfl, hoff, hrest, hisr, ?_⟩⟩
    rcases hleft with hempty | hmem
    · exact Or.inl hempty
    · exact Or.inr ((List.mem_cons.mp hmem).resolve_left (by decide))
  · have hempty : s.pic.eoi.isr = ∅ := Pic.isr_eoi hisr
    refine ⟨H.programmed.eoi, Or.inr ⟨i, code, rest, f, rfl, hoff, hrest, ?_, Or.inl hempty⟩⟩
    rw [picOutb_eoi, hempty]
    exact Finset.empty_subset _

theorem IrqInv.isr_iret (H : IrqInv s) (hframe : s.frames = ⟨i, .iret :: code, f⟩ :: frames) :
    s.pic.isr = ∅ := by
  obtain ⟨_, _, body, hbody, _, hleft⟩ := H.frame hframe
  rw [hbody.iret] at hleft
  exact hleft.resolve_right List.not_mem_nil

/-- An end of interrupt clears the line of the handler that runs, if any. -/
theorem IrqInv.eoi_own (H : IrqInv s) (hframe : s.frames = ⟨i, code, f⟩ :: frames) :
    s.pic.eoi.isr = s.pic.isr.erase i ∨ s.pic.eoi.isr = s.pic.isr := by
  obtain ⟨_, _, _, _, hisr, _⟩ := H.frame hframe
  rw [Pic.isr_eoi hisr]
  rcases Finset.subset_singleton_iff.mp hisr with hempty | hone
  · exact Or.inr hempty.symm
  · rw [hone]
    exact Or.inl (Finset.erase_singleton i).symm

theorem IrqInv.irr_run (H : IrqInv s) (hframe : s.frames = ⟨i, x :: code, f⟩ :: frames)
    (hx : x ≠ .iret) : (runOutb s.pic x).irr = s.pic.irr := by
  obtain ⟨_, _, _, hbody, _⟩ := H.frame hframe
  obtain ⟨_, _, _, rfl | rfl⟩ := hbody.next hx
  · rfl
  · exact Pic.irr_eoi s.pic

end

/-- **Each step keeps the invariant.** -/
theorem irqInv_step {s t : IrqSys} {op : IrqOp} (H : IrqInv s) (hs : IrqStep s op t) :
    IrqInv t := by
  have hp := H.programmed
  cases hs with
  | edge _ => exact ⟨⟨hp.phase, hp.vectorBase, hp.autoEoi, hp.fullyNested, hp.imr⟩, H.running⟩
  | setIf hframes =>
    refine ⟨hp, Or.inl ⟨hframes, ?_⟩⟩
    rcases H.running with h | ⟨_, _, _, _, hframe, _⟩
    · exact h.2
    · rw [hframe] at hframes
      cases hframes
  | accept hif _ hgate => exact H.accept hif hgate _
  | run hframe hx => exact H.run hframe hx
  | iret hframe =>
    obtain ⟨rfl, _⟩ := H.frame hframe
    exact ⟨hp, Or.inl ⟨rfl, H.isr_iret hframe⟩⟩

theorem irqInv_of_reachable {s : IrqSys} (h : irqLts.Reachable s) : IrqInv s :=
  h.invariant (fun _ h0 => irqInv_init h0) fun _ _ _ H hs => irqInv_step H hs

/-- **No interrupt is acknowledged for another**, whatever requests come and when. -/
theorem irq_acknowledged {s t : IrqSys} {op : IrqOp} (h : irqLts.Reachable s)
    (hs : irqLts.step s op t) : AckLaw s op t := by
  have H := irqInv_of_reachable h
  refine ⟨?_, ?_, ?_⟩
  · rintro f code hf hcode rfl
    cases hs with
    | @run i x rest b frames hframe hx =>
      rw [hframe] at hf
      obtain rfl := Option.some.inj hf
      obtain ⟨rfl, _⟩ := List.cons.inj hcode
      exact H.eoi_own hframe
    | @iret i rest b frames hframe =>
      rw [hframe] at hf
      obtain rfl := Option.some.inj hf
      cases (List.cons.inj hcode).1
  · intro j hj hgone
    cases hs with
    | edge _ => exact absurd (Finset.mem_insert_of_mem hj) hgone
    | setIf _ => exact absurd hj hgone
    | @accept i g scancode _ _ hgate =>
      obtain rfl := Pic.irr_acknowledge hj hgone
      rw [H.programmed.vectorBase] at hgate
      exact ⟨scancode, g, rfl, hgate, rfl⟩
    | run hframe hx => exact absurd (H.irr_run hframe hx ▸ hj) hgone
    | iret _ => exact absurd hj hgone
  · rintro f code hf hcode rfl
    obtain ⟨frames, hframes⟩ := List.head?_eq_some_iff.mp hf
    obtain ⟨i, rest, b⟩ := f
    obtain rfl : rest = .iret :: code := hcode
    exact H.isr_iret hframes

def resetPic : Pic := ⟨.ready, false, false, 0, false, false, ∅, ∅, ∅⟩

/-- A tick of the timer is latched, and the flag is set. -/
def tickSys : IrqSys := ⟨(remapPic.foldl runOutb resetPic).raise 0, true, []⟩

/-- The handler of that tick, with `code` left of its stub. -/
def tickHandler (pic : Pic) (code : List IrqInstr) : IrqSys := ⟨pic, false, [⟨0, code, true⟩]⟩

/-- The tick from the processor taking it to its `iret`: the first end of interrupt is that of
`timer_handler`, the second one that of the stub. -/
theorem irq_acknowledged_tick :
    let accepted := tickSys.pic.acknowledge 0
    AckLaw tickSys (.accept 0x1C) (tickHandler accepted irq0HandlerStub) ∧
      accepted.isr = {0} ∧
      AckLaw (tickHandler accepted [.eoi, .work, .eoi, .work, .iret]) .step
        (tickHandler (runOutb accepted .eoi) [.work, .eoi, .work, .iret]) ∧
      (runOutb accepted .eoi).isr = ∅ ∧
      AckLaw (tickHandler (runOutb (runOutb accepted .eoi) .eoi) [.iret]) .step
        ⟨runOutb (runOutb accepted .eoi) .eoi, true, []⟩ := by
  intro accepted
  have h0 : irqLts.Reachable ⟨remapPic.foldl runOutb resetPic, false, []⟩ := .start ⟨_, rfl⟩
  have h : irqLts.Reachable tickSys :=
    (h0.step (IrqStep.setIf (b := true) rfl)).step (IrqStep.edge (Or.inl rfl))
  have hpending : tickSys.pic.pending = some 0 := by decide
  have hgate : irqGate (tickSys.pic.vectorBase + (0 : Fin 8)) =
      some ⟨0x8E, fun _ => irq0HandlerStub⟩ := if_pos (by decide)
  have haccept : irqLts.step tickSys (.accept 0x1C) (tickHandler accepted irq0HandlerStub) :=
    IrqStep.accept rfl hpending hgate
  have hrun : ∀ pic x code, x ≠ .iret → irqLts.step (tickHandler pic (x :: code)) .step
      (tickHandler (runOutb pic x) code) := fun pic x code hx => IrqStep.run rfl hx
  have hcalled := (h.step haccept).step (hrun _ .work _ (by decide))
  have hcounted := hcalled.step (hrun _ .work _ (by decide))
  have hsent := hcounted.step (hrun _ .eoi _ (by decide))
  have hback := hsent.step (hrun _ .work _ (by decide))
  have htwice := hback.step (hrun _ .eoi _ (by decide))
  have hpopped := htwice.step (hrun _ .work _ (by decide))
  exact ⟨irq_acknowledged h haccept, by decide,
    irq_acknowledged hcounted (hrun _ .eoi _ (by decide)), by decide,
    irq_acknowledged hpopped (IrqStep.iret rfl)⟩

/-! ### The handler of the shell -/

theorem port20_runAction {δ : Type} (ata : Ata δ) (i : Interrupt) (s : Shell δ) (a : Action) :
    (runAction ata i s a).port20 = s.port20 := by
  cases a with
  | run c => cases c <;> simp only [runAction, diskTest]
  | notFound => rfl
  | nothing => rfl

/-- **The handler of the shell sends the ends of interrupt of its code**: one for a key that goes
up, two for one that goes down. -/
theorem port20_keyboardHandler {δ : Type} (ata : Ata δ) (i : Interrupt) (s : Shell δ) :
    (keyboardHandler ata i s).port20 =
      List.replicate ((keyboardHandlerCode i.scancode).count .eoi) 0x20 ++ s.port20 := by
  rw [keyboardHandler, keyboardHandlerCode]
  by_cases hbreak : i.scancode &&& 0x80 ≠ 0
  · rw [if_pos hbreak, if_pos hbreak]
    rfl
  · rw [if_neg hbreak, if_neg hbreak]
    show 0x20 :: Shell.port20 _ = 0x20 :: 0x20 :: s.port20
    split
    · rw [enterKey]
      exact congrArg (0x20 :: ·) (port20_runAction ata i (endLine _) _)
    · split
      · rfl
      · split <;> rfl

end Antagonist
