import Antagonist.Lib.Segment

/-!
# Delivery of exceptions

How the 32-bit x86 goes on when the gate of an exception is no good: that raises an exception of its
own, while the first one is being delivered.  Some pairs are delivered one after the other, others
become a double fault, and a fault during a double fault shuts the processor down.

* `LeadsTo`: which gate is gone through in the end, if any.
* `LeadsTo.unique`: there is at most one outcome.
* `leadsTo_bare`: **with no gates for double faults and protection faults**, every exception that
  has no gate of its own shuts the processor down.
-/

namespace Exception

open ByteMem Segment

abbrev Vector := BitVec 8

def doubleFault : Vector := 8
def notPresent : Vector := 11
def generalProtection : Vector := 13

inductive Kind
  | benign
  | contributory
  | page
  deriving DecidableEq

/-- Divide errors, the faults of segments and gates, protection faults and those of control
protection are contributory. -/
def kind (v : Vector) : Kind :=
  if v ∈ [0, 10, 11, 12, 13, 21] then .contributory
  else if v ∈ [14, 20] then .page
  else .benign

/-- What is delivered when `second` is raised during the delivery of `first`; `none` is a
shutdown. -/
def combine (first second : Vector) : Option Vector :=
  if kind second = .benign then some second
  else if first = doubleFault then none
  else if kind first = .contributory ∧ kind second = .contributory ∨ kind first = .page then
    some doubleFault
  else some second

/-- The exception that a gate raises: one that is neither a task, interrupt nor trap gate a
protection fault, whether it is present or not. -/
def gateFault (g : GateDescriptor) : Option Vector :=
  if g.flags.toNat % 32 ∉ [5, 6, 7, 14, 15] then some generalProtection
  else if g.present then none
  else some notPresent

theorem gateFault_eq_none {g : GateDescriptor} {flags : Byte} (hflags : g.flags = flags)
    (htype : flags.toNat % 32 ∈ [5, 6, 7, 14, 15]) (hpresent : flags.getLsbD 7 = true) :
    gateFault g = none := by
  have hgate : g.present = true := by rw [GateDescriptor.present, hflags, hpresent]
  rw [gateFault, hflags, if_neg (not_not.mpr htype), if_pos hgate]

theorem kind_gateFault {g : GateDescriptor} {f : Vector} (h : gateFault g = some f) :
    kind f = .contributory := by
  rw [gateFault] at h
  split_ifs at h
  · cases h
    decide
  · cases h
    decide

/-- The delivery of an exception through the gates: the vector whose gate is gone through, or
`none` for a shutdown. -/
inductive LeadsTo (gates : Vector → GateDescriptor) : Vector → Option Vector → Prop
  | gate {v : Vector} : gateFault (gates v) = none → LeadsTo gates v (some v)
  | shutdown {v f : Vector} : gateFault (gates v) = some f → combine v f = none →
      LeadsTo gates v none
  | next {v f w : Vector} {o : Option Vector} : gateFault (gates v) = some f →
      combine v f = some w → LeadsTo gates w o → LeadsTo gates v o

variable {gates : Vector → GateDescriptor} {v f : Vector} {o o' : Option Vector}

/-- **There is at most one outcome.** -/
theorem LeadsTo.unique (h : LeadsTo gates v o) (h' : LeadsTo gates v o') : o = o' := by
  induction h generalizing o' with
  | gate hg =>
    cases h' with
    | gate => rfl
    | shutdown hf => rw [hg] at hf; cases hf
    | next hf => rw [hg] at hf; cases hf
  | shutdown hf hc =>
    cases h' with
    | gate hg => rw [hg] at hf; cases hf
    | shutdown => rfl
    | next hf' hc' =>
      rw [hf] at hf'
      cases hf'
      rw [hc] at hc'
      cases hc'
  | next hf hc _ ih =>
    cases h' with
    | gate hg => rw [hg] at hf; cases hf
    | shutdown hf' hc' =>
      rw [hf] at hf'
      cases hf'
      rw [hc] at hc'
      cases hc'
    | next hf' hc' h' =>
      rw [hf] at hf'
      cases hf'
      rw [hc] at hc'
      cases hc'
      exact ih h'

theorem combine_contributory (hf : kind f = .contributory) : combine v f =
    if v = doubleFault then none
    else if kind v = .benign then some f else some doubleFault := by
  rw [combine, hf, if_neg (by decide)]
  refine if_congr Iff.rfl rfl ?_
  cases kind v with
  | benign => rfl
  | contributory => rfl
  | page => rfl

theorem leadsTo_doubleFault : LeadsTo gates doubleFault
    (if gateFault (gates doubleFault) = none then some doubleFault else none) := by
  cases h : gateFault (gates doubleFault) with
  | none => exact .gate h
  | some f =>
    refine .shutdown h ?_
    rw [combine_contributory (kind_gateFault h), if_pos rfl]

/-- A contributory exception: its own gate, or a double fault. -/
theorem leadsTo_contributory (hv : kind v ≠ .benign) : LeadsTo gates v
    (if gateFault (gates v) = none then some v
      else if gateFault (gates doubleFault) = none then some doubleFault else none) := by
  cases h : gateFault (gates v) with
  | none => exact .gate h
  | some f =>
    have hself : v ≠ doubleFault := by
      rintro rfl
      exact hv (by decide)
    refine .next h ?_ leadsTo_doubleFault
    rw [combine_contributory (kind_gateFault h), if_neg hself, if_neg hv]

/-- **Gates that are missing altogether**, those for double faults and protection faults among
them: an exception goes through its own gate, or the processor shuts down. -/
theorem leadsTo_bare
    (hbad : ∀ v, gateFault (gates v) = none ∨ gateFault (gates v) = some generalProtection)
    (hdouble : gateFault (gates doubleFault) ≠ none)
    (hprotection : gateFault (gates generalProtection) ≠ none) :
    LeadsTo gates v o ↔ o = if gateFault (gates v) = none then some v else none := by
  have houtcome : LeadsTo gates v (if gateFault (gates v) = none then some v else none) := by
    rcases hbad v with h | h
    · rw [if_pos h]
      exact .gate h
    · rw [if_neg (by rw [h]; exact Option.some_ne_none _)]
      have hprotected : LeadsTo gates generalProtection none := by
        have h := @leadsTo_contributory gates generalProtection (by decide)
        rwa [if_neg hprotection, if_neg hdouble] at h
      by_cases hv : kind v = .benign
      · by_cases hself : v = doubleFault
        · refine .shutdown h ?_
          rw [combine_contributory (kind_gateFault h), if_pos hself]
        · refine .next h ?_ hprotected
          rw [combine_contributory (kind_gateFault h), if_neg hself, if_pos hv]
      · have hcontributory := @leadsTo_contributory gates v hv
        rwa [if_neg (by rw [h]; exact Option.some_ne_none _), if_neg hdouble] at hcontributory
  constructor
  · intro h
    exact h.unique houtcome
  · rintro rfl
    exact houtcome

end Exception
