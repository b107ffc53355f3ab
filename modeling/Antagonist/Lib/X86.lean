import Antagonist.Lib.Memory

/-!
# A fragment of the 32-bit x86

The general registers, a flat byte memory, and the instructions that stack
switching code is made of.  Straight-line code is a list of instructions;
`eip` is only set by the returns.

* `loadW_storeW_same`, `loadW_storeW_apart`: words at word addresses.
* `pushAll_mem`, `loadW_pushAll`, `loadW_pushAll_apart`: what a row of pushes
  leaves in memory, at any stack pointer, the wrap at address zero included.
-/

namespace X86

open ByteMem

abbrev Word := BitVec 32

inductive Reg
  | eax | ecx | edx | ebx | esp | ebp | esi | edi
  deriving DecidableEq

structure Cpu where
  regs : Reg → Word
  eip : Word
  mem : Mem

def loadW (m : Mem) (a : Word) : Word := BitVec.ofNat 32 (load32 m a.toNat)

def storeW (m : Mem) (a v : Word) : Mem := store32 m a.toNat v.toNat

def Apart (a b : Word) : Prop := 4 ≤ (b - a).toNat ∧ 4 ≤ (a - b).toNat

theorem off_eq_toNat_sub (a b : Word) : Off a.toNat b.toNat = (b - a).toNat := by
  have ha := a.isLt
  have hb := b.isLt
  simp only [Off, BitVec.toNat_sub]
  omega

theorem loadW_storeW_same (m : Mem) (a v : Word) : loadW (storeW m a v) a = v := by
  rw [loadW, storeW, load32_store32_same m _ v.isLt, BitVec.ofNat_toNat, BitVec.setWidth_eq]

theorem loadW_storeW_apart (m : Mem) {a b : Word} (v : Word) (h : Apart a b) :
    loadW (storeW m a v) b = loadW m b := by
  rw [loadW, storeW, load32_store32_apart, loadW]
  · rw [off_eq_toNat_sub]
    exact h.1
  · rw [off_eq_toNat_sub]
    exact h.2

/-! ### Instructions -/

namespace Cpu

def set (c : Cpu) (r : Reg) (v : Word) : Cpu :=
  { c with regs := fun r' => if r' = r then v else c.regs r' }

def push (c : Cpu) (v : Word) : Cpu :=
  let sp := c.regs .esp - 4
  { c.set .esp sp with mem := storeW c.mem sp v }

def pushAll (c : Cpu) (vs : List Word) : Cpu := vs.foldl push c

/-- What `pusha` pushes, first to last. -/
def pushaOrder (c : Cpu) : List Word :=
  [c.regs .eax, c.regs .ecx, c.regs .edx, c.regs .ebx, c.regs .esp, c.regs .ebp, c.regs .esi,
    c.regs .edi]

/-- `popa` reads the registers back in reverse and skips the stack pointer. -/
def popa (c : Cpu) : Cpu :=
  let sp := c.regs .esp
  { c with regs := fun
      | .edi => loadW c.mem sp
      | .esi => loadW c.mem (sp + 4)
      | .ebp => loadW c.mem (sp + 8)
      | .ebx => loadW c.mem (sp + 16)
      | .edx => loadW c.mem (sp + 20)
      | .ecx => loadW c.mem (sp + 24)
      | .eax => loadW c.mem (sp + 28)
      | .esp => sp + 32 }

def ret (c : Cpu) : Cpu :=
  { c.set .esp (c.regs .esp + 4) with eip := loadW c.mem (c.regs .esp) }

end Cpu

inductive Instr
  /-- `mov dst, [base + disp]` -/
  | load (dst base : Reg) (disp : Word)
  /-- `mov [base], src` -/
  | store (base src : Reg)
  /-- `mov dst, src` -/
  | mov (dst src : Reg)
  | push (src : Reg)
  | pusha
  | popa
  | ret

def exec : Instr → Cpu → Cpu
  | .load dst base disp, c => c.set dst (loadW c.mem (c.regs base + disp))
  | .store base src, c => { c with mem := storeW c.mem (c.regs base) (c.regs src) }
  | .mov dst src, c => c.set dst (c.regs src)
  | .push src, c => c.push (c.regs src)
  | .pusha, c => c.pushAll c.pushaOrder
  | .popa, c => c.popa
  | .ret, c => c.ret

def execAll (is : List Instr) (c : Cpu) : Cpu := is.foldl (fun c i => exec i c) c

/-! ### Registers -/

@[simp] theorem regs_set (c : Cpu) (r r' : Reg) (v : Word) :
    (c.set r v).regs r' = if r' = r then v else c.regs r' := rfl

@[simp] theorem execAll_nil (c : Cpu) : execAll [] c = c := rfl

@[simp] theorem execAll_cons (i : Instr) (is : List Instr) (c : Cpu) :
    execAll (i :: is) c = execAll is (exec i c) := rfl

@[simp] theorem length_pushaOrder (c : Cpu) : c.pushaOrder.length = 8 := rfl

/-! ### The stack -/

theorem regs_pushAll : ∀ (vs : List Word) (c : Cpu) (r : Reg), (c.pushAll vs).regs r =
    if r = .esp then c.regs .esp - BitVec.ofNat 32 (4 * vs.length) else c.regs r := by
  intro vs
  induction vs with
  | nil =>
    intro c r
    by_cases hr : r = .esp
    · rw [if_pos hr, hr]
      simp [Cpu.pushAll]
    · rw [if_neg hr]
      rfl
  | cons v vs ih =>
    intro c r
    have hstep := ih (c.push v) r
    rw [Cpu.pushAll, List.foldl_cons, ← Cpu.pushAll, hstep]
    by_cases hr : r = .esp
    · rw [if_pos hr, if_pos hr]
      simp only [Cpu.push, regs_set, if_pos, List.length_cons]
      bv_omega
    · rw [if_neg hr, if_neg hr]
      simp only [Cpu.push, regs_set, if_neg hr]

/-- A row of pushes changes only the bytes below the old stack pointer. -/
theorem pushAll_mem : ∀ (vs : List Word) (c : Cpu) (x : Nat),
    4 * vs.length ≤ 2 ^ 32 →
    4 * vs.length ≤ Off (c.regs .esp - BitVec.ofNat 32 (4 * vs.length)).toNat x →
    (c.pushAll vs).mem x = c.mem x := by
  intro vs
  induction vs with
  | nil => exact fun _ _ _ _ => rfl
  | cons v vs ih =>
    intro c x hlen hx
    have hesp : (c.push v).regs .esp = c.regs .esp - 4 := rfl
    rw [Cpu.pushAll, List.foldl_cons, ← Cpu.pushAll, ih (c.push v)]
    · apply store32_apply_out _ _
      simp only [List.length_cons, Off] at hx ⊢
      bv_omega
    · simp only [List.length_cons] at hlen
      omega
    · rw [hesp]
      simp only [List.length_cons, Off] at hx hlen ⊢
      bv_omega

/-- A word that starts no lower than the old stack pointer is left alone. -/
theorem loadW_pushAll_apart {vs : List Word} {c : Cpu} {b : Word} (hlen : 4 * vs.length ≤ 2 ^ 32)
    (h : 4 * vs.length ≤ (b - (c.regs .esp - BitVec.ofNat 32 (4 * vs.length))).toNat)
    (h' : (b - (c.regs .esp - BitVec.ofNat 32 (4 * vs.length))).toNat + 4 ≤ 2 ^ 32) :
    loadW (c.pushAll vs).mem b = loadW c.mem b := by
  rw [loadW, loadW]
  congr 1
  refine load32_congr fun i hi => pushAll_mem vs c _ hlen ?_
  simp only [Off]
  bv_omega

/-- **The words pushed lie below the old stack pointer**, the first one highest. -/
theorem loadW_pushAll : ∀ (vs : List Word) (c : Cpu) (i : Nat) (hi : i < vs.length),
    4 * vs.length ≤ 2 ^ 32 →
    loadW (c.pushAll vs).mem (c.regs .esp - BitVec.ofNat 32 (4 * (i + 1))) = vs[i] := by
  intro vs
  induction vs with
  | nil => exact fun c i hi => absurd hi (Nat.not_lt_zero i)
  | cons v vs ih =>
    intro c i hi hlen
    have hesp : (c.push v).regs .esp = c.regs .esp - 4 := rfl
    simp only [List.length_cons] at hi hlen
    rw [Cpu.pushAll, List.foldl_cons, ← Cpu.pushAll]
    cases i with
    | zero =>
      -- the pushes that follow go below the word
      rw [loadW_pushAll_apart (by omega), List.getElem_cons_zero]
      · exact loadW_storeW_same _ _ _
      · rw [hesp]
        bv_omega
      · rw [hesp]
        bv_omega
    | succ i =>
      have hi' := ih (c.push v) i (by omega) (by omega)
      rw [List.getElem_cons_succ, ← hi', hesp]
      congr 1
      bv_omega

/-! ### `pusha` and `popa` -/

/-- Where `pusha` puts a register, above the stack pointer that it leaves. -/
def pushaOffset : Reg → Word
  | .edi => 0
  | .esi => 4
  | .ebp => 8
  | .esp => 12
  | .ebx => 16
  | .edx => 20
  | .ecx => 24
  | .eax => 28

theorem exists_pushaOffset (r : Reg) : ∃ i < 8, (pushaOffset r).toNat = 4 * i := by
  cases r <;> decide

theorem pushaOffset_le (r : Reg) : (pushaOffset r).toNat ≤ 28 := by
  obtain ⟨i, hi, h⟩ := exists_pushaOffset r
  omega

theorem esp_pusha (c : Cpu) : (c.pushAll c.pushaOrder).regs .esp = c.regs .esp - 32 := by
  rw [regs_pushAll, if_pos rfl]
  rfl

theorem loadW_pusha (c : Cpu) (r : Reg) :
    loadW (c.pushAll c.pushaOrder).mem (c.regs .esp - 32 + pushaOffset r) = c.regs r := by
  have hword : ∀ i (hi : i < c.pushaOrder.length), pushaOffset r = BitVec.ofNat 32 (28 - 4 * i) →
      loadW (c.pushAll c.pushaOrder).mem (c.regs .esp - 32 + pushaOffset r)
        = c.pushaOrder.get ⟨i, hi⟩ := by
    intro i hi hr
    rw [List.get_eq_getElem, ← loadW_pushAll c.pushaOrder c i hi (by simp), hr]
    rw [length_pushaOrder] at hi
    congr 1
    bv_omega
  cases r with
  | eax => exact hword 0 (by simp) rfl
  | ecx => exact hword 1 (by simp) rfl
  | edx => exact hword 2 (by simp) rfl
  | ebx => exact hword 3 (by simp) rfl
  | esp => exact hword 4 (by simp) rfl
  | ebp => exact hword 5 (by simp) rfl
  | esi => exact hword 6 (by simp) rfl
  | edi => exact hword 7 (by simp) rfl

/-- **`popa` takes back what `pusha` has put down**, but for the stack pointer. -/
theorem regs_popa (c : Cpu) (r : Reg) : c.popa.regs r =
    if r = .esp then c.regs .esp + 32 else loadW c.mem (c.regs .esp + pushaOffset r) := by
  cases r <;> simp [Cpu.popa, pushaOffset]

theorem loadW_of_bytes {m m' : Mem} {a : Word} (ha : a.toNat + 4 ≤ 2 ^ 32)
    (h : ∀ x, a.toNat ≤ x → x < a.toNat + 4 → m' x = m x) : loadW m' a = loadW m a := by
  rw [loadW, loadW, load32_of_bytes ha h]

end X86
