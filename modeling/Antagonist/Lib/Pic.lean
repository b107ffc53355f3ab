import Mathlib.Data.Finset.Basic
import Mathlib.Data.Fintype.Basic
import Mathlib.Data.Fintype.Fin

/-!
# The 8259 interrupt controller

Eight lines, of which the lowest number has the highest priority.  A request is latched in `irr`
until the processor acknowledges it, and is then in service until an end of interrupt comes.  In
fully nested mode a line in service holds back itself and all lines below it.

The initialization command words are modelled, the mask, and the two plain ends of interrupt.
Rotation, the special mask and polling are not.

* `Pic.pending`: the line that is offered to the processor.
* `Pic.acknowledge`, `Pic.writeCommand`, `Pic.writeData`: what happens to the registers.
* `Pic.isr_eoi`: the end of interrupt, when one line is in service at most.
-/

namespace I8259

/-- What the next byte on the data port is. -/
inductive Phase
  | ready
  | icw2
  | icw3
  | icw4
  deriving DecidableEq

/-- The registers.  `needIcw4` and `single` are those of the first command word. -/
structure Pic where
  phase : Phase
  needIcw4 : Bool
  single : Bool
  vectorBase : Nat
  autoEoi : Bool
  specialFullyNested : Bool
  imr : Finset (Fin 8)
  irr : Finset (Fin 8)
  isr : Finset (Fin 8)

/-- The line of highest priority in a set. -/
def highest (s : Finset (Fin 8)) : Option (Fin 8) :=
  (List.finRange 8).find? fun i => decide (i ∈ s)

def linesOf (b : BitVec 8) : Finset (Fin 8) := Finset.univ.filter fun i => b.getLsbD i

def Pic.raise (p : Pic) (i : Fin 8) : Pic := { p with irr := insert i p.irr }

def Pic.holdsBack (p : Pic) (j i : Fin 8) : Prop := if p.specialFullyNested then j < i else j ≤ i

instance (p : Pic) (j i : Fin 8) : Decidable (p.holdsBack j i) := by
  unfold Pic.holdsBack
  infer_instance

/-- The line that is offered to the processor. -/
def Pic.pending (p : Pic) : Option (Fin 8) :=
  match highest (p.irr \ p.imr) with
  | some i => if ∃ j ∈ p.isr, p.holdsBack j i then none else some i
  | none => none

def Pic.acknowledge (p : Pic) (i : Fin 8) : Pic :=
  { p with irr := p.irr.erase i, isr := if p.autoEoi then p.isr else insert i p.isr }

/-- The end of interrupt that names no line. -/
def Pic.eoi (p : Pic) : Pic :=
  match highest p.isr with
  | some i => { p with isr := p.isr.erase i }
  | none => p

/-- A byte on the command port: the first initialization word, or an end of interrupt. -/
def Pic.writeCommand (p : Pic) (b : BitVec 8) : Pic :=
  if b.getLsbD 4 then
    { phase := .icw2, needIcw4 := b.getLsbD 0, single := b.getLsbD 1, vectorBase := p.vectorBase,
      autoEoi := false, specialFullyNested := false, imr := ∅, irr := ∅, isr := ∅ }
  else if b.getLsbD 3 then p
  else if b >>> 5 = 1 then p.eoi
  else if b >>> 5 = 3 then
    { p with isr := p.isr.erase ⟨b.toNat % 8, Nat.mod_lt _ (by decide)⟩ }
  else p

/-- A byte on the data port: the rest of the initialization, or the mask. -/
def Pic.writeData (p : Pic) (b : BitVec 8) : Pic :=
  let last := if p.needIcw4 then Phase.icw4 else .ready
  match p.phase with
  | .icw2 => { p with
      vectorBase := b.toNat / 8 * 8, phase := if p.single then last else .icw3 }
  | .icw3 => { p with phase := last }
  | .icw4 => { p with autoEoi := b.getLsbD 1, specialFullyNested := b.getLsbD 4, phase := .ready }
  | .ready => { p with imr := linesOf b }

/-! ### The registers -/

section

variable {p : Pic} {i j : Fin 8} {s : Finset (Fin 8)}

theorem highest_mem (h : highest s = some i) : i ∈ s :=
  of_decide_eq_true (List.find?_some (p := fun i => decide (i ∈ s)) h)

theorem highest_eq_none_iff : highest s = none ↔ s = ∅ := by
  rw [highest, List.find?_eq_none]
  refine ⟨fun h => Finset.eq_empty_of_forall_notMem fun i hi => ?_, ?_⟩
  · exact h i (List.mem_finRange i) (decide_eq_true hi)
  · rintro rfl i _ hi
    exact absurd (of_decide_eq_true hi) (Finset.notMem_empty i)

@[simp] theorem Pic.irr_eoi (p : Pic) : p.eoi.irr = p.irr := by
  rw [eoi]
  split <;> rfl

/-- **An end of interrupt clears the line in service**, when no other is. -/
theorem Pic.isr_eoi (h : p.isr ⊆ {i}) : p.eoi.isr = ∅ := by
  rw [eoi]
  split
  · rename_i j hj
    have hi := Finset.mem_singleton.mp (h (highest_mem hj))
    refine Finset.eq_empty_of_forall_notMem ?_
    intro k hk
    obtain ⟨hkj, hk'⟩ := Finset.mem_erase.mp hk
    exact hkj ((Finset.mem_singleton.mp (h hk')).trans hi.symm)
  · rename_i hnone
    exact highest_eq_none_iff.mp hnone

theorem Pic.irr_acknowledge (hj : j ∈ p.irr) (h : j ∉ (p.acknowledge i).irr) : j = i := by
  by_contra hne
  exact h (Finset.mem_erase.mpr ⟨hne, hj⟩)

end

end I8259
