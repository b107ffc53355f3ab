import Antagonist.Disk.Ata
import Antagonist.Lib.Lts

/-!
# Data requests

Calls of the driver one after the other, step by step, on any controller and with
`ata_irq_handler` between any two steps.  A burst on the data port should come
behind a status byte that asks for data, or an interrupt, since the command byte.

The wait loop has two more exits: a flag that was set before the command, and the
last round.  And its two tests read the status port twice.

* `dataRequested_of_run`: the bursts are in order in every run without these.
-/

namespace Antagonist

open ByteMem Lts

/-- What is seen of the driver: the command bytes, the status bytes that it reads,
the interrupts and the bursts. -/
inductive DiskEvent
  | command (value : Byte)
  | status (value : Byte)
  | irq
  | burst
  deriving DecidableEq

def asksForData (status : Byte) : Bool :=
  decide (status &&& ataStatusBsy = 0) && decide (status &&& ataStatusDrq ≠ 0)

/-- Whether the data port may be used, after one more event. -/
def armedBy (armed : Bool) : DiskEvent → Bool
  | .command _ => false
  | .status value => armed || asksForData value
  | .irq => true
  | .burst => armed

/-- Since the last command byte there was a request or an interrupt. -/
def armed (log : List DiskEvent) : Bool := log.foldl armedBy false

/-- No burst comes unasked. -/
def DataRequested (log : List DiskEvent) : Prop :=
  ∀ A B, log = A ++ .burst :: B → armed A

/-! ### The calls -/

/-- What can happen: a call of either function, a step of the current one, or an
interrupt. -/
inductive DiskAct
  | read (lba : BitVec 32) (buffer : Sector)
  | write (lba : BitVec 32) (buffer : Sector)
  | step
  | irq

/-- The current call, what is left of it, and what was seen so far. -/
structure Session (δ : Type) where
  call : DiskCall δ
  code : List AtaStep
  log : List DiskEvent

section

variable {δ : Type} (bus : Bus δ)

def AtaStep.events (ins : AtaStep) (c : DiskCall δ) : List DiskEvent :=
  match ins with
  | outb port value => if port = ataCommand then [.command value] else []
  | readBusy _ => [.status (c.driver.readStatus bus).1]
  | readRequest _ => [.status (c.driver.readStatus bus).1]
  | writeBusy _ => [.status (c.driver.readStatus bus).1]
  | insw => [.burst]
  | outsw => [.burst]
  | _ => []

namespace Session

def start (s : Session δ) (code : List AtaStep) (buffer : Sector) : Session δ :=
  { s with call.buffer := buffer, code }

def advance (s : Session δ) : Session δ :=
  match s.code with
  | [] => s
  | ins :: code =>
      { call := (ins.step bus s.call).1
        code := (ins.step bus s.call).2 ++ code
        log := s.log ++ ins.events bus s.call }

/-- `ata_irq_handler`. -/
def interrupt (s : Session δ) : Session δ :=
  { s with
    call.driver := ataIrqHandler bus s.call.driver
    log := s.log ++ [.status (s.call.driver.readStatus bus).1, .irq] }

def act (s : Session δ) : DiskAct → Session δ
  | .read lba buffer => s.start (readCode lba) buffer
  | .write lba buffer => s.start (writeCode lba) buffer
  | .step => s.advance bus
  | .irq => s.interrupt bus

end Session

/-- A call is made when the one before is done. -/
def DiskAct.enabled (s : Session δ) : DiskAct → Bool
  | .read _ _ => s.code.isEmpty
  | .write _ _ => s.code.isEmpty
  | .step => !s.code.isEmpty
  | .irq => true

/-- All runs of calls, from the start of the kernel. -/
def ataLts : Lts (Session δ) DiskAct where
  init s := s.code = [] ∧ s.log = [] ∧ s.call.driver.interruptFired = false
  step s a s' := a.enabled s ∧ s' = s.act bus a

/-- The round that reads its second status byte has been asked for data already, by the first one or
by an interrupt between the two. -/
def roundAsked (log : List DiskEvent) : Bool :=
  match log.getLast? with
  | some (.status value) => asksForData value
  | some .irq => true
  | _ => false

/-- What must not happen in a step: that a sector command is sent while `ata_interrupt_fired` is
set, that `ata_wait_read` is through with its rounds, or that the status asks for data and says busy
the second time it is read, in a round that was not asked before. -/
def stepOk (s : Session δ) : DiskAct → Bool
  | .step =>
      match s.code with
      | .outb port value :: _ =>
          !(decide (port = ataCommand) && decide (value = ataCmdRead ∨ value = ataCmdWrite) &&
            s.call.driver.interruptFired)
      | .waitRead 0 :: _ => s.call.driver.interruptFired
      | .readRequest _ :: _ =>
          let status := (s.call.driver.readStatus bus).1
          roundAsked s.log || decide (status &&& ataStatusDrq ≠ 0 → status &&& ataStatusBsy = 0)
      | _ => true
  | _ => true

end

/-! ### The log -/

theorem armed_snoc (log : List DiskEvent) (e : DiskEvent) :
    armed (log ++ [e]) = armedBy (armed log) e := by
  unfold armed
  rw [List.foldl_concat]

theorem armed_status {log : List DiskEvent} (h : armed log) (value : Byte) :
    armed (log ++ [.status value]) := by
  rw [armed_snoc]
  show (armed log || asksForData value) = true
  rw [h, Bool.true_or]

theorem armed_request (log : List DiskEvent) {value : Byte} (hbusy : value &&& ataStatusBsy = 0)
    (hrequest : value &&& ataStatusDrq ≠ 0) : armed (log ++ [.status value]) := by
  have hasks : asksForData value = true := by
    unfold asksForData
    rw [decide_eq_true hbusy, decide_eq_true hrequest, Bool.and_self]
  rw [armed_snoc]
  show (armed log || asksForData value) = true
  rw [hasks, Bool.or_true]

theorem armed_of_roundAsked {log : List DiskEvent} (h : roundAsked log) : armed log := by
  rcases List.eq_nil_or_concat log with rfl | ⟨log, e, rfl⟩
  · cases h
  · rw [roundAsked, List.concat_eq_append, List.getLast?_concat] at h
    rw [List.concat_eq_append, armed_snoc]
    cases e with
    | status value =>
      show (armed log || asksForData value) = true
      rw [show asksForData value = true from h, Bool.or_true]
    | irq => rfl
    | command value => cases h
    | burst => cases h

theorem dataRequested_nil : DataRequested [] := by
  intro A B h
  exact absurd (congrArg List.length h) (by simp)

theorem DataRequested.snoc {log : List DiskEvent} (h : DataRequested log) {e : DiskEvent}
    (he : e = .burst → armed log) : DataRequested (log ++ [e]) := by
  intro A B hsplit
  rcases Lts.snoc_eq_split hsplit with ⟨rfl, hlast, _⟩ | ⟨B', hlog, _⟩
  · exact he hlast.symm
  · exact h A B' hlog

/-! ### What is left of a call -/

/-- The code makes its bursts in order, if the data port may be used now (`a`), and
if the flag, when it is set, says that it may (`g`). -/
inductive Safe : Prop → Prop → List AtaStep → Prop
  | nil (a g : Prop) : Safe a g []
  | command {a g : Prop} {value : Byte} {code : List AtaStep} :
      Safe False (value = ataCmdRead ∨ value = ataCmdWrite) code →
      Safe a g (.outb ataCommand value :: code)
  | outb {a g : Prop} {port : Nat} {value : Byte} {code : List AtaStep} : port ≠ ataCommand →
      Safe a g code → Safe a g (.outb port value :: code)
  | waitRead {a g : Prop} {rounds : Nat} {code : List AtaStep} : g →
      Safe True True code → Safe a g (.waitRead rounds :: code)
  | readBusy {a g : Prop} {rounds : Nat} {code : List AtaStep} : g →
      Safe True True code → Safe a g (.readBusy rounds :: code)
  | readRequest {a g : Prop} {rounds : Nat} {code : List AtaStep} : g →
      Safe True True code → Safe a g (.readRequest rounds :: code)
  | waitWrite {a g : Prop} {rounds : Nat} {code : List AtaStep} :
      Safe a g code → Safe a g (.waitWrite rounds :: code)
  | writeBusy {a g : Prop} {rounds : Nat} {code : List AtaStep} :
      Safe a g code → Safe a g (.writeBusy rounds :: code)
  | resetFired {a g : Prop} {code : List AtaStep} : Safe a g code → Safe a g (.resetFired :: code)
  | insw {a g : Prop} {code : List AtaStep} : a → Safe a g code → Safe a g (.insw :: code)
  | outsw {a g : Prop} {code : List AtaStep} : a → Safe a g code → Safe a g (.outsw :: code)
  | copyIn {a g : Prop} (i : Fin 512) {code : List AtaStep} :
      Safe a g code → Safe a g (.copyIn i :: code)
  | copyOut {a g : Prop} (i : Fin 512) {code : List AtaStep} :
      Safe a g code → Safe a g (.copyOut i :: code)

theorem Safe.mono {a a' g g' : Prop} {code : List AtaStep} (h : Safe a g code) (ha : a → a')
    (hg : g → g') : Safe a' g' code := by
  induction h generalizing a' g' with
  | nil => exact .nil a' g'
  | command h => exact .command h
  | outb hport _ ih => exact .outb hport (ih ha hg)
  | waitRead h hcode => exact .waitRead (hg h) hcode
  | readBusy h hcode => exact .readBusy (hg h) hcode
  | readRequest h hcode => exact .readRequest (hg h) hcode
  | waitWrite _ ih => exact .waitWrite (ih ha hg)
  | writeBusy _ ih => exact .writeBusy (ih ha hg)
  | resetFired _ ih => exact .resetFired (ih ha hg)
  | insw h _ ih => exact .insw (ha h) (ih ha hg)
  | outsw h _ ih => exact .outsw (ha h) (ih ha hg)
  | copyIn i _ ih => exact .copyIn i (ih ha hg)
  | copyOut i _ ih => exact .copyOut i (ih ha hg)

theorem safe_copyIn (l : List (Fin 512)) {a g : Prop} {code : List AtaStep} (h : Safe a g code) :
    Safe a g (l.map .copyIn ++ code) := by
  induction l with
  | nil => exact h
  | cons j l ih => exact .copyIn j ih

theorem safe_copyOut (l : List (Fin 512)) (a g : Prop) : Safe a g (l.map .copyOut) := by
  induction l with
  | nil => exact .nil a g
  | cons j l ih => exact .copyOut j ih

/-- **The functions** make their bursts in order, whatever was before them. -/
theorem safe_readCode (lba : BitVec 32) (a g : Prop) : Safe a g (readCode lba) := by
  unfold readCode
  simp only [List.cons_append, List.nil_append]
  iterate 7 apply Safe.outb (by decide)
  apply Safe.command
  apply Safe.waitRead (.inl rfl)
  apply Safe.resetFired
  apply Safe.insw trivial
  exact safe_copyOut _ True True

theorem safe_writeCode (lba : BitVec 32) (a g : Prop) : Safe a g (writeCode lba) := by
  unfold writeCode writePrefix writeBurst writeFlush
  rw [List.append_assoc]
  apply safe_copyIn
  simp only [List.cons_append, List.nil_append]
  iterate 6 apply Safe.outb (by decide)
  apply Safe.command
  apply Safe.waitRead (.inr rfl)
  apply Safe.resetFired
  apply Safe.outsw trivial
  apply Safe.waitWrite
  apply Safe.resetFired
  apply Safe.command
  apply Safe.waitWrite
  apply Safe.resetFired
  exact .nil _ _

/-! ### All runs -/

section

variable {δ : Type} {bus : Bus δ} {s : Session δ}

/-- What was seen is in order, and what is left of the call will be. -/
structure InOrder (s : Session δ) : Prop where
  safe : Safe (armed s.log) (s.call.driver.interruptFired → armed s.log) s.code
  log : DataRequested s.log

theorem Safe.ready {g : Prop} {code : List AtaStep} {log : List DiskEvent}
    (h : Safe True True code) (ha : armed log) : Safe (armed log) (g → armed log) code :=
  h.mono (fun _ => ha) fun _ _ => ha

theorem InOrder.quiet {c : DiskCall δ} {code : List AtaStep} {log : List DiskEvent}
    (hcode : Safe (armed log) (c.driver.interruptFired → armed log) code)
    (hlog : DataRequested log) : InOrder ⟨c, code, log ++ []⟩ := by
  rw [List.append_nil]
  exact ⟨hcode, hlog⟩

theorem InOrder.status {c : DiskCall δ} {code : List AtaStep} {log : List DiskEvent} {value : Byte}
    (hcode : Safe (armed (log ++ [.status value]))
      (c.driver.interruptFired → armed (log ++ [.status value])) code)
    (hlog : DataRequested log) : InOrder ⟨c, code, log ++ [.status value]⟩ :=
  ⟨hcode, hlog.snoc DiskEvent.noConfusion⟩

theorem InOrder.burst {c : DiskCall δ} {g : Prop} {code : List AtaStep} {log : List DiskEvent}
    (hcode : Safe (armed log) g code) (harmed : armed log) (hlog : DataRequested log) :
    InOrder ⟨c, code, log ++ [.burst]⟩ := by
  have harmed' : armed (log ++ [.burst]) := (armed_snoc log .burst).trans harmed
  exact ⟨hcode.mono (fun _ => harmed') fun _ _ => harmed', hlog.snoc fun _ => harmed⟩

section

variable {d : Driver δ} {buffer : Sector} {code : List AtaStep} {log : List DiskEvent}

/-- A read or write command goes out while the flag is down. -/
theorem InOrder.command {value : Byte}
    (hcode : Safe False (value = ataCmdRead ∨ value = ataCmdWrite) code) (hlog : DataRequested log)
    (hok : stepOk bus ⟨⟨d, buffer⟩, .outb ataCommand value :: code, log⟩ .step) :
    InOrder (Session.advance bus ⟨⟨d, buffer⟩, .outb ataCommand value :: code, log⟩) := by
  have hclear : (value = ataCmdRead ∨ value = ataCmdWrite) → d.interruptFired = false := by
    intro hvalue
    simp only [stepOk, hvalue] at hok
    simpa using hok
  have hstep : Session.advance bus ⟨⟨d, buffer⟩, .outb ataCommand value :: code, log⟩ =
      ⟨⟨d.outb bus ataCommand value, buffer⟩, code, log ++ [.command value]⟩ := rfl
  rw [hstep]
  refine ⟨hcode.mono False.elim ?_, hlog.snoc DiskEvent.noConfusion⟩
  intro hvalue hfired
  exact absurd hfired (by show ¬ d.interruptFired = true; rw [hclear hvalue]; decide)

theorem InOrder.waitRead {rounds : Nat} (hflag : d.interruptFired → armed log)
    (hcode : Safe True True code) (hlog : DataRequested log)
    (hok : stepOk bus ⟨⟨d, buffer⟩, .waitRead rounds :: code, log⟩ .step) :
    InOrder (Session.advance bus ⟨⟨d, buffer⟩, .waitRead rounds :: code, log⟩) := by
  cases rounds with
  | zero =>
    -- the rounds are used up, and only the flag can end the loop
    have hfired : d.interruptFired = true := hok
    exact .quiet (hcode.ready (hflag hfired)) hlog
  | succ rounds =>
    refine .quiet ?_ hlog
    show Safe _ _ ((if d.interruptFired then [] else [.readBusy rounds]) ++ code)
    split
    · exact hcode.ready (hflag ‹_›)
    · exact .readBusy hflag hcode

theorem InOrder.readRequest {rounds : Nat} (hflag : d.interruptFired → armed log)
    (hcode : Safe True True code) (hlog : DataRequested log)
    (hok : stepOk bus ⟨⟨d, buffer⟩, .readRequest rounds :: code, log⟩ .step) :
    InOrder (Session.advance bus ⟨⟨d, buffer⟩, .readRequest rounds :: code, log⟩) := by
  refine .status ?_ hlog
  show Safe _ _ ((if (d.readStatus bus).1 &&& ataStatusDrq ≠ 0 then []
    else [.waitRead rounds]) ++ code)
  split
  · rcases Bool.or_eq_true_iff.mp hok with hasked | hboth
    · exact hcode.ready (armed_status (armed_of_roundAsked hasked) _)
    · -- the status asks for data, and it is not busy
      have hready : (d.readStatus bus).1 &&& ataStatusBsy = 0 := of_decide_eq_true hboth ‹_›
      exact hcode.ready (armed_request log hready ‹_›)
  · exact .waitRead (fun hfired => armed_status (hflag hfired) _) hcode

theorem InOrder.waitWrite {rounds : Nat}
    (hcode : Safe (armed log) (d.interruptFired → armed log) code) (hlog : DataRequested log) :
    InOrder (Session.advance bus ⟨⟨d, buffer⟩, .waitWrite rounds :: code, log⟩) := by
  cases rounds with
  | zero => exact .quiet hcode hlog
  | succ rounds =>
    refine .quiet ?_ hlog
    show Safe _ _ ((if d.interruptFired then [] else [.writeBusy rounds]) ++ code)
    split
    · exact hcode
    · exact .writeBusy hcode

theorem InOrder.writeBusy {rounds : Nat}
    (hcode : Safe (armed log) (d.interruptFired → armed log) code) (hlog : DataRequested log) :
    InOrder (Session.advance bus ⟨⟨d, buffer⟩, .writeBusy rounds :: code, log⟩) := by
  have hcode' : Safe (armed (log ++ [.status (d.readStatus bus).1]))
      (d.interruptFired → armed (log ++ [.status (d.readStatus bus).1])) code :=
    hcode.mono (fun ha => armed_status ha _) fun hflag hfired => armed_status (hflag hfired) _
  refine .status ?_ hlog
  show Safe _ _ ((if (d.readStatus bus).1 &&& ataStatusBsy ≠ 0 then [.waitWrite rounds]
    else []) ++ code)
  split
  · exact .waitWrite hcode'
  · exact hcode'

end

/-- **One step.** -/
theorem InOrder.advance (h : InOrder s) (hok : stepOk bus s .step) : InOrder (s.advance bus) := by
  obtain ⟨⟨d, buffer⟩, code, log⟩ := s
  obtain ⟨hsafe, hlog⟩ := h
  simp only at hsafe hlog
  -- the case is the step that comes next
  cases hsafe with
  | nil => exact ⟨.nil _ _, hlog⟩
  | command hcode => exact .command hcode hlog hok
  | @outb _ _ port value code hport hcode =>
    have hevents : AtaStep.events bus (.outb port value) ⟨d, buffer⟩ = [] := if_neg hport
    unfold Session.advance
    simp only [hevents]
    exact .quiet hcode hlog
  | waitRead hflag hcode => exact .waitRead hflag hcode hlog hok
  | @readBusy _ _ rounds code hflag hcode =>
    have hflag' : d.interruptFired → armed (log ++ [.status (d.readStatus bus).1]) :=
      fun hfired => armed_status (hflag hfired) _
    refine .status ?_ hlog
    show Safe _ _ ((if (d.readStatus bus).1 &&& ataStatusBsy ≠ 0 then [.waitRead rounds]
      else [.readRequest rounds]) ++ code)
    split
    · exact .waitRead hflag' hcode
    · exact .readRequest hflag' hcode
  | readRequest hflag hcode => exact .readRequest hflag hcode hlog hok
  | waitWrite hcode => exact .waitWrite hcode hlog
  | writeBusy hcode => exact .writeBusy hcode hlog
  | resetFired hcode =>
    exact .quiet (hcode.mono id fun _ hfired => absurd hfired Bool.false_ne_true) hlog
  | insw harmed hcode => exact .burst hcode harmed hlog
  | outsw harmed hcode => exact .burst hcode harmed hlog
  | copyIn i hcode => exact .quiet hcode hlog
  | copyOut i hcode => exact .quiet hcode hlog

theorem InOrder.interrupt (h : InOrder s) : InOrder (s.interrupt bus) := by
  have hsplit : (s.interrupt bus).log = (s.log ++ [.status (s.call.driver.readStatus bus).1]) ++ [.irq] :=
    (List.append_assoc s.log [_] [_]).symm
  have harmed : armed (s.interrupt bus).log := by
    rw [hsplit, armed_snoc]
    rfl
  refine ⟨h.safe.mono (fun _ => harmed) fun _ _ => harmed, ?_⟩
  rw [hsplit]
  exact (h.log.snoc DiskEvent.noConfusion).snoc DiskEvent.noConfusion

/-- **Every burst is behind a request or an interrupt**, in a run whose steps all
meet the condition. -/
theorem dataRequested_of_run (bus : Bus δ) {tr : List DiskAct} {s : Session δ}
    (h : ((ataLts bus).restrict fun s a => stepOk bus s a).Run tr s) : DataRequested s.log := by
  have horder : InOrder s := by
    refine h.invariant ?_ ?_
    · intro s ⟨hcode, hlog, _⟩
      refine ⟨?_, hlog ▸ dataRequested_nil⟩
      rw [hcode]
      exact .nil _ _
    · intro s a s' hs ⟨hok, _, hstep⟩
      rw [hstep]
      cases a with
      | read lba buffer => exact ⟨safe_readCode lba _ _, hs.log⟩
      | write lba buffer => exact ⟨safe_writeCode lba _ _, hs.log⟩
      | step => exact hs.advance hok
      | irq => exact hs.interrupt
  exact horder.log

/-! ### Runs on a fixed controller -/

/-- The acts can follow one another, and meet the condition. -/
def Session.replays (bus : Bus δ) (ok : Session δ → DiskAct → Bool) : List DiskAct → Session δ → Bool
  | [], _ => true
  | a :: acts, s => a.enabled s && ok s a && Session.replays bus ok acts (s.act bus a)

theorem run_of_replays {ok : Session δ → DiskAct → Bool} {acts tr : List DiskAct}
    (h : ((ataLts bus).restrict fun s a => ok s a).Run tr s) (hreplays : s.replays bus ok acts) :
    ((ataLts bus).restrict fun s a => ok s a).Run (tr ++ acts)
      (acts.foldl (fun s a => s.act bus a) s) := by
  induction acts generalizing tr s with
  | nil =>
    rw [List.append_nil]
    exact h
  | cons a acts ih =>
    unfold Session.replays at hreplays
    simp only [Bool.and_eq_true] at hreplays
    obtain ⟨⟨henabled, hok⟩, hrest⟩ := hreplays
    rw [List.append_cons]
    exact ih (h.snoc ⟨hok, henabled, rfl⟩) hrest

end

/-- A controller that always says the same. -/
def statusBus (status : Byte) : Bus Unit :=
  ⟨fun _ _ _ => (), fun _ => (status, ()), fun _ => (fun _ => 0, ()), fun _ _ => ()⟩

def Session.boot : Session Unit := ⟨⟨⟨fun _ => 0, false, ()⟩, fun _ => 0⟩, [], []⟩

/-- A read on a controller that is ready. -/
theorem dataRequested_of_run_read :
    let s := (.read 7 (fun _ => 0) :: List.replicate 13 .step).foldl
      (fun s a => s.act (statusBus 0x58) a) Session.boot
    s.log = [.command 0x20, .status 0x58, .status 0x58, .burst] ∧ DataRequested s.log :=
  ⟨by decide +kernel, dataRequested_of_run (statusBus 0x58)
    (run_of_replays (Run.start ⟨rfl, rfl, rfl⟩) (by decide +kernel))⟩

/-- An interrupt, and then a read on a controller that stays busy. -/
theorem not_dataRequested : ¬ ∀ (bus : Bus Unit) (tr : List DiskAct) (s : Session Unit),
    (ataLts bus).Run tr s → DataRequested s.log := by
  intro h
  have hrun : ((ataLts (statusBus 0x80)).restrict fun _ _ => true).Run
      ([] ++ .irq :: .read 7 (fun _ => 0) :: List.replicate 11 .step)
      ((.irq :: .read 7 (fun _ => 0) :: List.replicate 11 .step).foldl
        (fun s a => s.act (statusBus 0x80) a) Session.boot) :=
    run_of_replays (Run.start ⟨rfl, rfl, rfl⟩) (by decide +kernel)
  have hlog : ((.irq :: .read 7 (fun _ => 0) :: List.replicate 11 .step).foldl
      (fun s a => s.act (statusBus 0x80) a) Session.boot).log =
      [.status 0x80, .irq, .command 0x20, .burst] := by
    decide +kernel
  have hordered := h _ _ _ hrun.of_restrict
  rw [hlog] at hordered
  exact absurd (hordered [.status 0x80, .irq, .command 0x20] [] rfl) (by decide)

end Antagonist
