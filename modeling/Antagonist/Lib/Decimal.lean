import Antagonist.Lib.LineEditor
import Antagonist.Lib.Memory

/-!
# Decimal numerals

`decimal v` is the numeral of `v` in ASCII, as the standard library prints it.  A program makes it
from its end: the last digit is `v % 10`, and the rest is the numeral of `v / 10`
(`reverse_decimal`).

* `value_decimal`: the numeral is read back as the number.
* `head_decimal`: it has no leading zero.
* `isString_reversed`: the loop that copies a buffer from its end makes a string.
-/

namespace Decimal

open ByteMem LineEditor

def digit (d : Nat) : Byte := BitVec.ofNat 8 (0x30 + d)

def decimal (v : Nat) : List Byte := v.repr.toList.map fun c => BitVec.ofNat 8 c.toNat

def value (l : List Byte) : Nat := l.foldl (fun n c => 10 * n + (c.toNat - 0x30)) 0

variable {v d k : Nat}

theorem toNat_digit (hd : d < 10) : (digit d).toNat = 0x30 + d := by
  rw [digit, BitVec.toNat_ofNat]
  omega

theorem digit_ne_zero (hd : d < 10) : digit d ≠ 0 := by
  intro h
  have hval := toNat_digit hd
  rw [h, show (0 : Byte).toNat = 0 from rfl] at hval
  omega

theorem digitChar_eq (hd : d < 10) : BitVec.ofNat 8 (Nat.digitChar d).toNat = digit d := by
  have hall : ∀ d < 10, BitVec.ofNat 8 (Nat.digitChar d).toNat = digit d := by decide
  exact hall d hd

theorem decimal_of_lt (hv : v < 10) : decimal v = [digit v] := by
  rw [decimal, Nat.toList_repr, Nat.toDigits_of_lt_base hv, List.map_singleton, digitChar_eq hv]

theorem decimal_of_le (hv : 10 ≤ v) : decimal v = decimal (v / 10) ++ [digit (v % 10)] := by
  have hmod : v % 10 < 10 := Nat.mod_lt _ (by decide)
  rw [decimal, Nat.toList_repr, Nat.toDigits_of_base_le (by decide) hv, List.map_append,
    List.map_singleton, digitChar_eq hmod, decimal, Nat.toList_repr]

/-- **The numeral from its end.** -/
theorem reverse_decimal (v : Nat) : (decimal v).reverse =
    digit (v % 10) :: if 0 < v / 10 then (decimal (v / 10)).reverse else [] := by
  by_cases hv : v < 10
  · rw [decimal_of_lt hv, Nat.mod_eq_of_lt hv, if_neg (by omega)]
    rfl
  · rw [decimal_of_le (by omega), if_pos (by omega), List.reverse_append]
    rfl

/-- **The numeral is read back.** -/
theorem value_decimal (v : Nat) : value (decimal v) = v := by
  induction v using Nat.strongRecOn with
  | ind v ih =>
    have hmod : v % 10 < 10 := Nat.mod_lt _ (by decide)
    by_cases hv : v < 10
    · rw [decimal_of_lt hv, value, List.foldl_cons, List.foldl_nil, toNat_digit hv]
      omega
    · have hrest := ih (v / 10) (by omega)
      rw [value] at hrest ⊢
      rw [decimal_of_le (by omega), List.foldl_concat, hrest, toNat_digit hmod]
      omega

theorem decimal_ne_nil (v : Nat) : decimal v ≠ [] := by
  intro h
  have hrev := reverse_decimal v
  rw [h] at hrev
  cases hrev

/-- **There is no leading zero**, but for the numeral of zero. -/
theorem head_decimal (h : (decimal v).head? = some (digit 0)) : v = 0 := by
  induction v using Nat.strongRecOn with
  | ind v ih =>
    by_cases hv : v < 10
    · rw [decimal_of_lt hv, List.head?_cons, Option.some.injEq] at h
      have hval := toNat_digit hv
      rw [h, toNat_digit (by decide)] at hval
      omega
    · rw [decimal_of_le (by omega), List.head?_append_of_ne_nil _ (decimal_ne_nil _)] at h
      have hrest := ih (v / 10) (by omega) h
      omega

theorem zero_notMem_decimal (v : Nat) : 0 ∉ decimal v := by
  induction v using Nat.strongRecOn with
  | ind v ih =>
    intro hmem
    by_cases hv : v < 10
    · rw [decimal_of_lt hv, List.mem_singleton] at hmem
      exact digit_ne_zero hv hmem.symm
    · rw [decimal_of_le (by omega), List.mem_append, List.mem_singleton] at hmem
      rcases hmem with hmem | hmem
      · exact ih (v / 10) (by omega) hmem
      · exact digit_ne_zero (Nat.mod_lt _ (by decide)) hmem.symm

theorem length_decimal_le (hk : 0 < k) (hv : v < 10 ^ k) : (decimal v).length ≤ k := by
  rw [decimal, List.length_map, Nat.toList_repr]
  exact (Nat.length_toDigits_le_iff (by decide) hk).mpr hv

/-! ### A buffer that is copied from its end -/

/-- A buffer holds a list from its cell `i` on. -/
def ListedAt (a : Nat → Byte) (i : Nat) (l : List Byte) : Prop :=
  ∀ j (h : j < l.length), a (i + j) = l[j]

theorem ListedAt.cons {a : Nat → Byte} {i : Nat} {c : Byte} {l : List Byte} (hc : a i = c)
    (h : ListedAt a (i + 1) l) : ListedAt a i (c :: l) := by
  intro j hj
  cases j with
  | zero => exact hc
  | succ j =>
    have hrest := h j (Nat.lt_of_succ_lt_succ hj)
    rw [List.getElem_cons_succ, ← hrest]
    congr 1
    omega

/-- **The digits, copied from their end, are the string**, with its end mark. -/
theorem isString_reversed {l : List Byte} (h0 : 0 ∉ l) {scratch : Nat → Byte}
    (h : ListedAt scratch 0 l.reverse) (out : Nat → Byte) :
    IsString 0 (Function.update ((List.range l.length).foldl
      (fun out i => Function.update out i (scratch (l.length - 1 - i))) out) l.length 0) 0 l := by
  have hcopy : ∀ j, (List.range l.length).foldl
      (fun out i => Function.update out i (scratch (l.length - 1 - i))) out j =
      if 0 ≤ j ∧ j < 0 + l.length then scratch (l.length - 1 - (j - 0)) else out j :=
    foldl_range_store (fun out => out) (fun i => scratch (l.length - 1 - i))
      (fun out i _ j => by rw [Function.update_apply, Nat.zero_add]) out
  refine isString_of_range ?_ ?_ h0
  · refine List.ext_getElem (by simp) ?_
    intro j hj hj'
    have hdigit := h (l.length - 1 - j) (by rw [List.length_reverse]; omega)
    rw [List.getElem_reverse, Nat.zero_add] at hdigit
    rw [List.getElem_map, List.getElem_range', Nat.zero_add, Nat.one_mul,
      Function.update_of_ne (Nat.ne_of_lt hj'), hcopy, if_pos (by omega), Nat.sub_zero, hdigit]
    congr 1
    omega
  · rw [Nat.zero_add, Function.update_self]

end Decimal
