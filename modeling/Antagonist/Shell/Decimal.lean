import Antagonist.Lib.Decimal
import Antagonist.Lib.LineEditor
import Antagonist.Shell.Bounds

/-!
# Numbers in the replies

`uint_to_dec` writes the numeral of its argument (`uintToDec_decimal`), and `append_str` puts one
string behind another as long as there is room for both (`Reply.Reads.append`).  The longest reply
of the shell has 86 characters, so none is cut.

* `Reply.Reads`: the array `reply` holds a string, and `pos` is its end.
* `uptimeReply_eq`, `meminfoReply_eq`: the replies, for all counters.
-/

namespace Antagonist

open ByteMem Decimal LineEditor

/-! ### `uint_to_dec` -/

/-- The loop leaves the digits, the last one first, behind what was there. -/
theorem uintToDecLoop_digits : ∀ (fuel v : Nat) (scratch : Nat → Byte) (len : Nat), v < fuel →
    (uintToDecLoop fuel v scratch len).2 = len + (decimal v).length ∧
      ListedAt (uintToDecLoop fuel v scratch len).1 len (decimal v).reverse ∧
      ∀ j < len, (uintToDecLoop fuel v scratch len).1 j = scratch j := by
  intro fuel
  induction fuel with
  | zero => exact fun v _ _ h => absurd h (Nat.not_lt_zero v)
  | succ fuel ih =>
    intro v scratch len hv
    have hlength := congrArg List.length (reverse_decimal v)
    rw [List.length_reverse, List.length_cons] at hlength
    rw [uintToDecLoop, reverse_decimal]
    by_cases hmore : 0 < v / 10
    · rw [if_pos hmore, List.length_reverse] at hlength
      rw [if_pos hmore, if_pos hmore]
      obtain ⟨hlen, hdigits, hkept⟩ := ih (v / 10)
        (Function.update scratch len (BitVec.ofNat 8 (0x30 + v % 10))) (len + 1) (by omega)
      refine ⟨by omega, ListedAt.cons ?_ hdigits, ?_⟩
      · rw [hkept len (Nat.lt_succ_self len), Function.update_self]
        rfl
      · intro j hj
        rw [hkept j (by omega), Function.update_of_ne (Nat.ne_of_lt hj)]
    · rw [if_neg hmore, List.length_nil] at hlength
      rw [if_neg hmore, if_neg hmore]
      refine ⟨by simp only; omega, ?_, ?_⟩
      · refine ListedAt.cons ?_ fun j hj => absurd hj (Nat.not_lt_zero j)
        exact Function.update_self _ _ _
      · exact fun j hj => Function.update_of_ne (Nat.ne_of_lt hj) _ _

/-- **`uint_to_dec` writes the numeral**, and returns its length. -/
theorem uintToDec_decimal (v : Nat) (out : Nat → Byte) :
    IsString 0 (uintToDec v out).1 0 (decimal v) ∧
      (uintToDec v out).2 = (decimal v).length := by
  obtain ⟨hlen, hdigits, _⟩ := uintToDecLoop_digits (v + 1) v (fun _ => 0) 0
    (Nat.lt_succ_self v)
  rw [Nat.zero_add] at hlen
  refine ⟨?_, hlen⟩
  have hstring := isString_reversed (zero_notMem_decimal v) hdigits out
  rw [← hlen] at hstring
  exact hstring

/-- What `cString` reads is the string, if the array has room for its end mark. -/
theorem cString_eq {a : Nat → Byte} {l : List Byte} {n : Nat} (h : IsString 0 a 0 l)
    (hn : l.length < n) : cString a n = l := by
  rw [cString, List.range_eq_range']
  exact takeWhile_of_isString h hn

theorem length_decimal_word (v : BitVec 32) : (decimal v.toNat).length ≤ 10 :=
  length_decimal_le (by decide) (Nat.lt_trans v.isLt (by decide))

/-! ### `append_str` -/

/-- With room for the string, `append_str` writes all of it and nothing before it. -/
theorem appendStr_string : ∀ (src : List Byte) (dest : Nat → Byte) (pos : Nat), 0 ∉ src →
    pos + src.length ≤ 159 → (appendStr dest pos src).2 = pos + src.length ∧
      IsString 0 (appendStr dest pos src).1 pos src ∧
      ∀ j < pos, (appendStr dest pos src).1 j = dest j := by
  intro src
  induction src with
  | nil =>
    intro dest pos _ _
    refine ⟨rfl, Function.update_self _ _ _, ?_⟩
    exact fun j hj => Function.update_of_ne (Nat.ne_of_lt hj) _ _
  | cons c src ih =>
    intro dest pos h0 hroom
    rw [List.length_cons] at hroom ⊢
    obtain ⟨hc, hsrc⟩ := not_or.mp (mt List.mem_cons.mpr h0)
    rw [appendStr, if_pos (by omega)]
    obtain ⟨hpos, hstring, hkept⟩ := ih (Function.update dest pos c) (pos + 1) hsrc (by omega)
    refine ⟨by omega, ⟨?_, fun h => hc h.symm, hstring⟩, ?_⟩
    · rw [hkept pos (Nat.lt_succ_self pos), Function.update_self]
    · intro j hj
      rw [hkept j (by omega), Function.update_of_ne (Nat.ne_of_lt hj)]

namespace Reply

variable {r : Reply} {text : List Byte}

/-- The reply reads as the text, and `pos` is its end. -/
structure Reads (r : Reply) (text : List Byte) : Prop where
  pos : r.pos = text.length
  string : IsString 0 r.reply 0 text

/-- What `append_str` finds room for is put behind the text. -/
theorem Reads.append (h : r.Reads text) (src : List Byte) (h0 : 0 ∉ src)
    (hroom : text.length + src.length ≤ 159) : (r.append src).Reads (text ++ src) := by
  have hpos := h.pos
  obtain ⟨hend, hstring, hkept⟩ := appendStr_string src r.reply r.pos h0 (by omega)
  refine ⟨?_, ?_⟩
  · show (appendStr r.reply r.pos src).2 = _
    rw [hend, hpos, List.length_append]
  · rw [hpos] at hstring
    refine h.string.append (fun j hj => hkept j (by omega)) ?_
    rw [Nat.zero_add]
    rw [← hpos] at hstring ⊢
    exact hstring

theorem Reads.appendNum (h : r.Reads text) (v : BitVec 32) (hroom : text.length ≤ 149) :
    (r.appendNum v).Reads (text ++ decimal v.toNat) := by
  have hlen := length_decimal_word v
  have hnum : cString (uintToDec v.toNat r.num).1 11 = decimal v.toNat :=
    cString_eq (uintToDec_decimal v.toNat r.num).1 (by omega)
  have h' : Reads { r with num := (uintToDec v.toNat r.num).1 } text := ⟨h.pos, h.string⟩
  have happend := h'.append _ (zero_notMem_decimal v.toNat) (by omega)
  rw [← hnum] at happend ⊢
  exact happend

theorem Reads.text_eq (h : r.Reads text) (hroom : text.length ≤ 159) : r.text = text :=
  cString_eq h.string (by omega)

theorem start_reads : start.Reads [] := ⟨rfl, rfl⟩

end Reply

/-! ### The replies -/

/-- **The reply of `uptime`** holds both numerals, for every tick count. -/
theorem uptimeReply_eq (i : Interrupt) : uptimeReply i =
    ascii ">> Uptime: " ++ decimal (i.timerTicks.toNat / 100) ++ ascii " seconds (" ++
      decimal i.timerTicks.toNat ++ ascii " hardware ticks @ 100Hz)" := by
  have hseconds : (i.timerTicks / 100).toNat = i.timerTicks.toNat / 100 := BitVec.toNat_udiv
  have h1 := length_decimal_word (i.timerTicks / 100)
  have h2 := length_decimal_word i.timerTicks
  have l1 : (ascii ">> Uptime: ").length = 11 := rfl
  have l2 : (ascii " seconds (").length = 10 := rfl
  have l3 : (ascii " hardware ticks @ 100Hz)").length = 24 := rfl
  have r1 := Reply.start_reads.append (ascii ">> Uptime: ") (by decide) (by decide)
  rw [List.nil_append] at r1
  have r2 := r1.appendNum (i.timerTicks / 100) (by omega)
  have r3 := r2.append (ascii " seconds (") (by decide) (by simp only [List.length_append]; omega)
  have r4 := r3.appendNum i.timerTicks (by simp only [List.length_append]; omega)
  have r5 := r4.append (ascii " hardware ticks @ 100Hz)") (by decide)
    (by simp only [List.length_append]; omega)
  rw [← hseconds]
  exact r5.text_eq (by simp only [List.length_append]; omega)

/-- **The reply of `meminfo`** holds all four numerals, for all counters. -/
theorem meminfoReply_eq (i : Interrupt) : meminfoReply i =
    ascii ">> Memory: " ++ decimal i.usedPages.toNat ++ ascii "/" ++ decimal i.totalPages.toNat ++
      ascii " pages used | " ++ decimal ((i.totalPages - i.usedPages) * 4).toNat ++
      ascii " KB free | Threads: " ++ decimal i.threadCount.toNat := by
  have h1 := length_decimal_word i.usedPages
  have h2 := length_decimal_word i.totalPages
  have h3 := length_decimal_word ((i.totalPages - i.usedPages) * 4)
  have h4 := length_decimal_word i.threadCount
  have l1 : (ascii ">> Memory: ").length = 11 := rfl
  have l2 : (ascii "/").length = 1 := rfl
  have l3 : (ascii " pages used | ").length = 14 := rfl
  have l4 : (ascii " KB free | Threads: ").length = 20 := rfl
  have r1 := Reply.start_reads.append (ascii ">> Memory: ") (by decide) (by decide)
  rw [List.nil_append] at r1
  have r2 := r1.appendNum i.usedPages (by omega)
  have r3 := r2.append (ascii "/") (by decide) (by simp only [List.length_append]; omega)
  have r4 := r3.appendNum i.totalPages (by simp only [List.length_append]; omega)
  have r5 := r4.append (ascii " pages used | ") (by decide)
    (by simp only [List.length_append]; omega)
  have r6 := r5.appendNum ((i.totalPages - i.usedPages) * 4)
    (by simp only [List.length_append]; omega)
  have r7 := r6.append (ascii " KB free | Threads: ") (by decide)
    (by simp only [List.length_append]; omega)
  have r8 := r7.appendNum i.threadCount (by simp only [List.length_append]; omega)
  exact r8.text_eq (by simp only [List.length_append]; omega)

end Antagonist
