import Antagonist.Dashboard.Main
import Antagonist.Shell.Decimal

/-!
# Numbers on the dashboard

`uint_to_string_freestanding` of `src/main.cpp` once more, store by store.  Its loop over the digits
does not run for zero and stops at 15 of them, the one of `uint_to_dec` runs at least once and has
no bound; for 32-bit numbers both make the same numeral (`decimal_rendering`).

* `uintToStringFreestandingL`: the function with its stores.
* `uintToStringFreestanding_eq`: the list of characters that the dashboard prints.
-/

namespace Antagonist

open ByteMem Decimal LineEditor Logged

/-- A store of `uint_to_string_freestanding`: the array and the index. -/
inductive StringStore
  | destBuffer (i : Nat)
  | staging (i : Nat)

/-- The index lies inside the array; the callers' buffers have 16 characters. -/
def StringStore.InBounds : StringStore → Prop
  | destBuffer i => i < 16
  | staging i => i < 16

/-- The loop over the digits, with `room` rounds left up to the bound of 15. -/
def stagingL : Nat → Nat → (Nat → Byte) → Nat → Logged StringStore ((Nat → Byte) × Nat)
  | 0, _, staging, sIdx => return (staging, sIdx)
  | room + 1, value, staging, sIdx =>
      if 0 < value then do
        let staging ← entry (.staging sIdx)
          (Function.update staging sIdx (BitVec.ofNat 8 (48 + value % 10)))
        stagingL room (value / 10) staging (sIdx + 1)
      else return (staging, sIdx)

def uintToStringFreestandingL (value : BitVec 32) (destBuffer : Nat → Byte) :
    Logged StringStore (Nat → Byte) :=
  if value = 0 then do
    let destBuffer ← entry (.destBuffer 0) (Function.update destBuffer 0 48)
    entry (.destBuffer 1) (Function.update destBuffer 1 0)
  else do
    let r ← stagingL 15 value.toNat (fun _ => 0) 0
    let destBuffer ← Logged.foldl (fun dest i =>
      entry (.destBuffer i) (Function.update dest i (r.1 (r.2 - 1 - i)))) destBuffer (List.range r.2)
    entry (.destBuffer r.2) (Function.update destBuffer r.2 0)

/-! ### The digits -/

/-- The loop leaves the digits, the last one first, and stores each in its turn. -/
theorem stagingL_digits : ∀ (room v : Nat) (staging : Nat → Byte) (sIdx : Nat), 0 < v →
    v < 10 ^ room → sIdx + room < 16 →
    (stagingL room v staging sIdx).All StringStore.InBounds ∧
      (stagingL room v staging sIdx).val.2 = sIdx + (decimal v).length ∧
      ListedAt (stagingL room v staging sIdx).val.1 sIdx (decimal v).reverse ∧
      ∀ j < sIdx, (stagingL room v staging sIdx).val.1 j = staging j := by
  intro room
  induction room with
  | zero => exact fun v _ _ hpos hv => absurd hv (by omega)
  | succ room ih =>
    intro v staging sIdx hpos hv hroom
    have hlength := congrArg List.length (reverse_decimal v)
    rw [List.length_reverse, List.length_cons] at hlength
    have hin : StringStore.InBounds (.staging sIdx) := show sIdx < 16 by omega
    rw [stagingL, if_pos hpos, all_bind, all_entry, val_bind, val_entry, reverse_decimal]
    generalize hnext : Function.update staging sIdx (BitVec.ofNat 8 (48 + v % 10)) = next
    have hself : next sIdx = digit (v % 10) := by
      rw [← hnext, Function.update_self]
      rfl
    have hbelow : ∀ j < sIdx, next j = staging j := by
      intro j hj
      rw [← hnext, Function.update_of_ne (Nat.ne_of_lt hj)]
    by_cases hmore : 0 < v / 10
    · rw [if_pos hmore, List.length_reverse] at hlength
      rw [if_pos hmore]
      obtain ⟨hall, hlen, hdigits, hkept⟩ := ih (v / 10) next (sIdx + 1) hmore
        (by rw [pow_succ] at hv; omega) (by omega)
      refine ⟨⟨hin, hall⟩, by omega, ListedAt.cons ?_ hdigits, ?_⟩
      · rw [hkept sIdx (Nat.lt_succ_self sIdx), hself]
      · intro j hj
        rw [hkept j (by omega), hbelow j hj]
    · -- the digit was the first one, and the loop ends
      have hend : stagingL room (v / 10) next (sIdx + 1) = pure (next, sIdx + 1) := by
        cases room with
        | zero => rfl
        | succ room => rw [stagingL, if_neg hmore]
      rw [if_neg hmore, List.length_nil] at hlength
      rw [if_neg hmore, hend, val_pure]
      refine ⟨⟨hin, all_pure _⟩, by simp only; omega, ?_, hbelow⟩
      exact ListedAt.cons hself fun j hj => absurd hj (Nat.not_lt_zero j)

/-- **`uint_to_string_freestanding` writes the numeral**, within 16 characters. -/
theorem uintToStringFreestandingL_decimal (v : BitVec 32) (dest : Nat → Byte) :
    (uintToStringFreestandingL v dest).All StringStore.InBounds ∧
      IsString 0 (uintToStringFreestandingL v dest).val 0 (decimal v.toNat) := by
  rw [uintToStringFreestandingL]
  by_cases h0 : v = 0
  · rw [if_pos h0, all_bind, all_entry, all_entry, val_bind, val_entry, val_entry, h0]
    refine ⟨⟨show 0 < 16 by decide, show 1 < 16 by decide⟩, rfl, by decide, ?_⟩
    exact Function.update_self _ _ _
  · have hpos : 0 < v.toNat := by
      rw [Nat.pos_iff_ne_zero]
      exact fun h => h0 (BitVec.eq_of_toNat_eq h)
    have hlt : v.toNat < 10 ^ 15 := Nat.lt_trans v.isLt (by decide)
    obtain ⟨hall, hlen, hdigits, _⟩ := stagingL_digits 15 v.toNat (fun _ => 0) 0 hpos hlt (by decide)
    have hten := length_decimal_word v
    rw [Nat.zero_add] at hlen
    rw [if_neg h0]
    simp only [all_bind, all_entry, val_bind, val_entry, hlen]
    refine ⟨⟨hall, ?_, show _ < 16 by omega⟩, ?_⟩
    · refine (all_foldl (fun _ => True) trivial fun dest j hj _ => ⟨?_, trivial⟩).1
      have hj' := List.mem_range.mp hj
      exact (all_entry _ _).mpr (show j < 16 by omega)
    · rw [val_foldl]
      exact isString_reversed (zero_notMem_decimal _) hdigits dest

theorem staging_eq : ∀ (room v : Nat), 0 < v → v < 10 ^ room →
    staging room v = (decimal v).reverse := by
  intro room
  induction room with
  | zero => exact fun v hpos hv => absurd hv (by omega)
  | succ room ih =>
    intro v hpos hv
    rw [staging, if_pos hpos, reverse_decimal]
    by_cases hmore : 0 < v / 10
    · rw [if_pos hmore, ih (v / 10) hmore (by rw [pow_succ] at hv; omega)]
      rfl
    · rw [if_neg hmore]
      cases room with
      | zero => rfl
      | succ room =>
        rw [staging, if_neg hmore]
        rfl

/-- **What the dashboard prints for a number** is its numeral. -/
theorem uintToStringFreestanding_eq (v : BitVec 32) :
    uintToStringFreestanding v = decimal v.toNat := by
  rw [uintToStringFreestanding]
  by_cases h0 : v = 0
  · rw [if_pos h0, h0]
    decide
  · have hpos : 0 < v.toNat := by
      rw [Nat.pos_iff_ne_zero]
      exact fun h => h0 (BitVec.eq_of_toNat_eq h)
    rw [if_neg h0, staging_eq 15 v.toNat hpos (Nat.lt_trans v.isLt (by decide)),
      List.reverse_reverse]

/-! ### Both functions -/

/-- What the two functions do with a number: `out` and `destBuffer` are the arrays that they are
given. -/
structure Renders (v : BitVec 32) (out destBuffer : Nat → Byte) : Prop where
  /-- The numeral is the one that the library prints, -/
  canonical : decimal v.toNat = ascii v.toNat.repr
  /-- without a leading zero, -/
  head : (decimal v.toNat).head? = some 0x30 → v = 0
  /-- and is read back as the number. -/
  value : value (decimal v.toNat) = v.toNat
  written : IsString 0 (uintToDec v.toNat out).1 0 (decimal v.toNat)
  length : (uintToDec v.toNat out).2 = (decimal v.toNat).length
  inBounds : (uintToDecL v.toNat out).All Store.InBounds
  sameWritten : IsString 0 (uintToStringFreestandingL v destBuffer).val 0 (decimal v.toNat)
  sameInBounds : (uintToStringFreestandingL v destBuffer).All StringStore.InBounds

theorem renders (v : BitVec 32) (out destBuffer : Nat → Byte) : Renders v out destBuffer := by
  obtain ⟨hwritten, hlength⟩ := uintToDec_decimal v.toNat out
  obtain ⟨hsameBounds, hsame⟩ := uintToStringFreestandingL_decimal v destBuffer
  have hbounds := (uintToDecL_inBounds (k := 9) (Nat.lt_trans v.isLt (by decide)) (by decide) out).1
  refine ⟨rfl, ?_, value_decimal v.toNat, hwritten, hlength, hbounds, hsame, hsameBounds⟩
  intro h
  exact BitVec.eq_of_toNat_eq (head_decimal h)

/-- **Decimal rendering.**  Both functions write the numeral of every 32-bit number inside their
arrays, and the replies of `uptime` and `meminfo` hold the numerals of all their counters, uncut. -/
theorem decimal_rendering (v : BitVec 32) (out destBuffer : Nat → Byte) (i : Interrupt) :
    Renders v out destBuffer ∧
    uptimeReply i = ascii ">> Uptime: " ++ ascii (i.timerTicks.toNat / 100).repr ++
      ascii " seconds (" ++ ascii i.timerTicks.toNat.repr ++ ascii " hardware ticks @ 100Hz)" ∧
    meminfoReply i = ascii ">> Memory: " ++ ascii i.usedPages.toNat.repr ++ ascii "/" ++
      ascii i.totalPages.toNat.repr ++ ascii " pages used | " ++
      ascii ((i.totalPages - i.usedPages) * 4).toNat.repr ++ ascii " KB free | Threads: " ++
      ascii i.threadCount.toNat.repr :=
  ⟨renders v out destBuffer, uptimeReply_eq i, meminfoReply_eq i⟩

end Antagonist
