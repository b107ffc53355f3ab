import Antagonist.Dashboard.Keys

/-!
# Where the dashboard prints

A frame prints its fixed strings, and what changes goes to places that blanks were printed to
before; but a content of more than 41 characters goes on after the blanks, to the end of its row
and into the next one (`Overflow`).

* `frameCalls_covers`: outside of that, a frame prints over all that an earlier one printed.
* `top?_overflow`: what a frame leaves there.
-/

namespace Antagonist

open ByteMem Canvas Dashboard

/-! ### Calls as strokes -/

theorem getElem?_bytes (str : List Byte) (attr : Byte) (j : Nat) :
    (str.flatMap fun c => [c, attr])[2 * j]? = str[j]? ∧
      (str.flatMap fun c => [c, attr])[2 * j + 1]? = str[j]?.map fun _ => attr := by
  induction str generalizing j with
  | nil => exact ⟨rfl, rfl⟩
  | cons c str ih =>
    cases j with
    | zero => exact ⟨rfl, rfl⟩
    | succ j => exact ih j

namespace PrintCall

theorem length_stroke (c : PrintCall) : c.stroke.cells.length = 2 * c.str.length := by
  show (c.str.flatMap fun character => [character, c.attr]).length = _
  induction c.str with
  | nil => rfl
  | cons a str ih =>
    simp only [List.flatMap_cons, List.length_append, ih, List.length_cons, List.length_nil]
    omega

def cell (c : PrintCall) : Nat := c.row * 80 + c.col

theorem covers_iff {c : PrintCall} {b : Nat} :
    c.stroke.Covers b ↔ 2 * c.cell ≤ b ∧ b < 2 * (c.cell + c.str.length) := by
  rw [Stroke.Covers]
  rw [length_stroke]
  show (c.row * 80 + c.col) * 2 ≤ b ∧ _ < (c.row * 80 + c.col) * 2 + _ ↔ _
  rw [cell]
  omega

theorem at?_char (c : PrintCall) (j : Nat) : c.stroke.at? (2 * (c.cell + j)) = c.str[j]? := by
  have hstart : c.stroke.start = 2 * c.cell := Nat.mul_comm _ _
  have hoffset : 2 * (c.cell + j) - 2 * c.cell = 2 * j := by omega
  rw [Stroke.at?, hstart, if_pos (by omega), hoffset]
  exact (getElem?_bytes c.str c.attr j).1

theorem at?_attr (c : PrintCall) (j : Nat) :
    c.stroke.at? (2 * (c.cell + j) + 1) = c.str[j]?.map fun _ => c.attr := by
  have hstart : c.stroke.start = 2 * c.cell := Nat.mul_comm _ _
  have hoffset : 2 * (c.cell + j) + 1 - 2 * c.cell = 2 * j + 1 := by omega
  rw [Stroke.at?, hstart, if_pos (by omega), hoffset]
  exact (getElem?_bytes c.str c.attr j).2

end PrintCall

/-- Some call prints to the byte. -/
def Printed (calls : List PrintCall) (b : Nat) : Prop := ∃ c ∈ calls, c.stroke.Covers b

theorem top?_eq_none_iff_printed {calls : List PrintCall} {b : Nat} :
    top? (calls.map PrintCall.stroke) b = none ↔ ¬ Printed calls b := by
  rw [top?_eq_none_iff]
  refine ⟨?_, ?_⟩
  · rintro h ⟨c, hc, hcovers⟩
    exact h c.stroke (List.mem_map_of_mem hc) hcovers
  · intro h st hst hcovers
    obtain ⟨c, hc, rfl⟩ := List.mem_map.mp hst
    exact h ⟨c, hc, hcovers⟩

theorem top?_eq_none {calls : List PrintCall} {b : Nat} (h : ¬ Printed calls b) :
    top? (calls.map PrintCall.stroke) b = none := top?_eq_none_iff_printed.mpr h

theorem printed_append {calls calls' : List PrintCall} {b : Nat} :
    Printed (calls ++ calls') b ↔ Printed calls b ∨ Printed calls' b := by
  rw [Printed]
  refine ⟨?_, ?_⟩
  · rintro ⟨c, hc, hcovers⟩
    rcases List.mem_append.mp hc with h | h
    · exact .inl ⟨c, h, hcovers⟩
    · exact .inr ⟨c, h, hcovers⟩
  · rintro (⟨c, hc, hcovers⟩ | ⟨c, hc, hcovers⟩)
    · exact ⟨c, List.mem_append_left _ hc, hcovers⟩
    · exact ⟨c, List.mem_append_right _ hc, hcovers⟩

theorem printed_of_within {calls : List PrintCall} {f : PrintCall} (hf : f ∈ calls) {c : PrintCall}
    {b : Nat} (hcovers : c.stroke.Covers b) (hstart : f.cell ≤ c.cell)
    (hend : c.cell + c.str.length ≤ f.cell + f.str.length) : Printed calls b := by
  rw [PrintCall.covers_iff] at hcovers
  refine ⟨f, hf, PrintCall.covers_iff.mpr ?_⟩
  omega

/-! ### Fixed strings and others -/

section

variable {t p d n t' p' d' n' status status' log log' : List Byte} {c : PrintCall} {b : Nat}

theorem mem_upperCalls (h : c ∈ upperCalls t p d n) :
    c ∈ upperCalls [] [] [] [] ∨ c = ⟨6, 46, t, attrWhite⟩ ∨ c = ⟨10, 41, p, attrWhite⟩ ∨
      c = ⟨11, 42, d, attrGold⟩ ∨ c = ⟨12, 42, n, attrGold⟩ := by
  simp only [upperCalls, List.mem_cons, List.not_mem_nil, or_false] at h ⊢
  grind

theorem mem_lowerCalls (h : c ∈ lowerCalls status log) :
    c ∈ lowerCalls [] [] ∨ c = ⟨19, 37, status, attrGold⟩ ∨ c = ⟨20, 23, log, attrGold⟩ := by
  simp only [lowerCalls, statusCalls, logCalls, List.mem_append, List.mem_cons, List.not_mem_nil,
    or_false] at h ⊢
  grind

theorem str_ne_nil (h : c.stroke.Covers b) : c.str ≠ [] := by
  rw [PrintCall.covers_iff] at h
  intro hnil
  rw [hnil, List.length_nil] at h
  omega

theorem upperCalls_of_fixed (h : c ∈ upperCalls [] [] [] []) (hne : c.str ≠ []) :
    c ∈ upperCalls t p d n := by
  simp only [upperCalls, List.mem_cons, List.not_mem_nil, or_false] at h ⊢
  grind

theorem lowerCalls_of_fixed (h : c ∈ lowerCalls [] []) (hne : c.str ≠ []) :
    c ∈ lowerCalls status log := by
  simp only [lowerCalls, statusCalls, logCalls, List.mem_append, List.mem_cons, List.not_mem_nil,
    or_false] at h ⊢
  grind

theorem printed_of_blanks {calls : List PrintCall} {row col k : Nat} {str : List Byte}
    {attr attr' : Byte} (hblank : ⟨row, col, blanks k, attr'⟩ ∈ calls) (hlen : str.length ≤ k)
    (hcovers : (⟨row, col, str, attr⟩ : PrintCall).stroke.Covers b) : Printed calls b := by
  apply printed_of_within hblank hcovers (le_refl _)
  show row * 80 + col + str.length ≤ row * 80 + col + (List.replicate k 0x20).length
  rw [List.length_replicate]
  omega

theorem upperCalls_covers (ht : t.length ≤ t'.length) (hp : p.length ≤ 8) (hd : d.length ≤ 29)
    (hn : n.length ≤ 4) (h : Printed (upperCalls t p d n) b) :
    Printed (upperCalls t' p' d' n') b := by
  obtain ⟨c, hc, hcovers⟩ := h
  rcases mem_upperCalls hc with hfixed | rfl | rfl | rfl | rfl
  · exact ⟨c, upperCalls_of_fixed hfixed (str_ne_nil hcovers), hcovers⟩
  · have hmem : ⟨6, 46, t', attrWhite⟩ ∈ upperCalls t' p' d' n' := by simp [upperCalls]
    exact printed_of_within hmem hcovers (le_refl _) (Nat.add_le_add_left ht _)
  · have hmem : ⟨10, 41, blanks 8, attrWhite⟩ ∈ upperCalls t' p' d' n' := by simp [upperCalls]
    exact printed_of_blanks hmem hp hcovers
  · have hmem : ⟨11, 42, blanks 29, attrWhite⟩ ∈ upperCalls t' p' d' n' := by simp [upperCalls]
    exact printed_of_blanks hmem hd hcovers
  · have hmem : ⟨12, 42, blanks 4, attrWhite⟩ ∈ upperCalls t' p' d' n' := by simp [upperCalls]
    exact printed_of_blanks hmem hn hcovers

theorem upperCalls_blank (hb : (2424 ≤ b ∧ b < 2544) ∨ (2584 ≤ b ∧ b < 2704)) :
    Printed (upperCalls t p d n) b := by
  have hlen : (blanks 60).length = 60 := List.length_replicate
  rcases hb with hb | hb
  · refine ⟨⟨15, 12, blanks 60, attrWhite⟩, by simp [upperCalls], PrintCall.covers_iff.mpr ?_⟩
    simp only [PrintCall.cell, hlen]
    omega
  · refine ⟨⟨16, 12, blanks 60, attrWhite⟩, by simp [upperCalls], PrintCall.covers_iff.mpr ?_⟩
    simp only [PrintCall.cell, hlen]
    omega

theorem lowerCalls_covers (hs : status.length ≤ 4) (hl : log.length ≤ 57)
    (h : Printed (lowerCalls status log) b) : Printed (lowerCalls status' log') b := by
  obtain ⟨c, hc, hcovers⟩ := h
  rcases mem_lowerCalls hc with hfixed | rfl | rfl
  · exact ⟨c, lowerCalls_of_fixed hfixed (str_ne_nil hcovers), hcovers⟩
  · have hmem : ⟨19, 37, blanks 4, attrWhite⟩ ∈ lowerCalls status' log' := by
      simp [lowerCalls, statusCalls]
    exact printed_of_blanks hmem hs hcovers
  · have hmem : ⟨20, 23, blanks 57, attrWhite⟩ ∈ lowerCalls status' log' := by
      simp [lowerCalls, logCalls]
    exact printed_of_blanks hmem hl hcovers

/-- The cells that no blank is printed to: from column 72 of row 15 to column 11 of row 16, and
from column 72 of row 16 to column 13 of row 17. -/
def Overflow (b : Nat) : Prop := (2544 ≤ b ∧ b < 2584) ∨ (2704 ≤ b ∧ b < 2748)

theorem not_covers_overflow (h : c.cell + c.str.length ≤ 1272 ∨
      (1292 ≤ c.cell ∧ c.cell + c.str.length ≤ 1352) ∨ 1374 ≤ c.cell) (hb : Overflow b) :
    ¬ c.stroke.Covers b := by
  rw [PrintCall.covers_iff]
  unfold Overflow at hb
  omega

theorem upperCalls_place : ∀ c ∈ upperCalls [] [] [] [],
    (c.cell ≤ 1192 ∧ c.str.length ≤ 80) ∨
      ((c.cell = 1212 ∨ c.cell = 1292) ∧ c.str.length ≤ 60) := by
  decide +kernel

theorem upperCalls_overflow (ht : t.length ≤ 15) (hp : p.length ≤ 8) (hd : d.length ≤ 29)
    (hn : n.length ≤ 4) (hb : Overflow b) : ¬ Printed (upperCalls t p d n) b := by
  rintro ⟨c, hc, hcovers⟩
  refine not_covers_overflow ?_ hb hcovers
  rcases mem_upperCalls hc with hfixed | rfl | rfl | rfl | rfl
  · have hplace := upperCalls_place c hfixed
    omega
  · exact .inl (by simp only [PrintCall.cell]; omega)
  · exact .inl (by simp only [PrintCall.cell]; omega)
  · exact .inl (by simp only [PrintCall.cell]; omega)
  · exact .inl (by simp only [PrintCall.cell]; omega)

theorem logCalls_place (h : c ∈ logCalls log) : 1612 ≤ c.cell := by
  simp only [logCalls, List.mem_cons, List.not_mem_nil, or_false] at h
  rcases h with rfl | rfl | rfl | rfl | rfl <;> simp [PrintCall.cell]

theorem lowerCalls_overflow (hb : Overflow b) : ¬ Printed (lowerCalls status log) b := by
  rintro ⟨c, hc, hcovers⟩
  refine not_covers_overflow (.inr (.inr ?_)) hb hcovers
  rcases List.mem_append.mp hc with hstatus | hlog
  · simp only [statusCalls, List.mem_cons, List.not_mem_nil, or_false] at hstatus
    rcases hstatus with rfl | rfl | rfl | rfl <;> simp [PrintCall.cell]
  · have hplace := logCalls_place hlog
    omega

end

/-! ### Files -/

section

variable {disk : VRamDiskState} {files : List FileRequest} {folder : BitVec 32}

theorem mem_fileCalls (hcat : Catalog disk files) {idx : Nat} {c : PrintCall}
    (h : c ∈ fileCalls disk folder idx) :
    ∃ fName fCont : List Byte, fName.length ≤ 11 ∧ fCont.length ≤ 63 ∧
      disk.getVirtualFileContent (BitVec.ofNat 32 idx) folder = some fCont ∧
      (c = ⟨15 + idx, 14, fName, attrWhite⟩ ∨ c = ⟨15 + idx, 28, ascii "-> ", attrWhite⟩ ∨
        c = ⟨15 + idx, 31, fCont, attrWhite⟩) := by
  have hname := hcat.name folder (BitVec.ofNat 32 idx)
  have hcontent := hcat.content folder (BitVec.ofNat 32 idx)
  unfold fileCalls at h
  rw [hname, hcontent] at h
  cases hfile : (filesOf files folder)[(BitVec.ofNat 32 idx).toNat]? with
  | none =>
    rw [hfile] at h
    exact absurd h List.not_mem_nil
  | some request =>
    rw [hfile] at h hcontent
    refine ⟨request.name.val.take 11, request.content.val.take 63, List.length_take_le _ _,
      List.length_take_le _ _, hcontent, ?_⟩
    simpa only [Option.map_some, List.mem_cons, List.not_mem_nil, or_false] using h

theorem mem_listingCalls {count : BitVec 32} {c : PrintCall}
    (h : c ∈ listingCalls disk folder count) :
    c = ⟨15, 14, ascii "[Directory is empty]", attrSlateGray⟩ ∨
      ∃ idx, idx < 2 ∧ c ∈ fileCalls disk folder idx := by
  unfold listingCalls at h
  split_ifs at h
  · exact .inl (List.mem_singleton.mp h)
  · obtain ⟨idx, hidx, hmem⟩ := List.mem_flatMap.mp h
    exact .inr ⟨idx, List.mem_range.mp (List.mem_filter.mp hidx).1, hmem⟩

/-- **The listing** stays within the blanks of the two rows, but for the overflow. -/
theorem listing_covers (hcat : Catalog disk files) {count : BitVec 32} {b : Nat}
    (hout : ¬ Overflow b) (h : Printed (listingCalls disk folder count) b) :
    (2424 ≤ b ∧ b < 2544) ∨ (2584 ≤ b ∧ b < 2704) := by
  obtain ⟨c, hc, hcovers⟩ := h
  unfold Overflow at hout
  rcases mem_listingCalls hc with rfl | ⟨idx, hidx, hmem⟩
  · rw [PrintCall.covers_iff] at hcovers
    have hlen : (ascii "[Directory is empty]").length = 20 := by decide +kernel
    simp only [PrintCall.cell, hlen] at hcovers
    omega
  · obtain ⟨fName, fCont, hname, hcont, -, rfl | rfl | rfl⟩ := mem_fileCalls hcat hmem
    · rw [PrintCall.covers_iff] at hcovers
      simp only [PrintCall.cell] at hcovers
      omega
    · rw [PrintCall.covers_iff] at hcovers
      have hlen : (ascii "-> ").length = 3 := by decide +kernel
      simp only [PrintCall.cell, hlen] at hcovers
      omega
    · rw [PrintCall.covers_iff] at hcovers
      simp only [PrintCall.cell] at hcovers
      omega

end

/-! ### Frames -/

theorem workspaceFolder_lengths {i : BitVec 32} (h : i.toNat < folderCount) :
    (workspaceFolder i).folderPath.length ≤ 8 ∧ (workspaceFolder i).folderMetaDesc.length ≤ 29 := by
  have hall : ∀ k < 4, (workspaceFolders.getD k ⟨[], []⟩).folderPath.length ≤ 8 ∧
      (workspaceFolders.getD k ⟨[], []⟩).folderMetaDesc.length ≤ 29 := by
    decide +kernel
  exact hall i.toNat h

theorem activeFilesCounts_getD (disk : VRamDiskState) {i : BitVec 32} (h : i.toNat < folderCount) :
    (activeFilesCounts disk).getD i.toNat 0 = disk.getFolderFileCount i := by
  rw [activeFilesCounts, List.getD_eq_getElem?_getD, List.getElem?_map, List.getElem?_range h]
  show disk.getFolderFileCount (BitVec.ofNat 32 i.toNat) = _
  rw [BitVec.ofNat_toNat, BitVec.setWidth_eq]

theorem length_staging_mono {room a a' : Nat} (h : a ≤ a') :
    (staging room a).length ≤ (staging room a').length := by
  induction room generalizing a a' with
  | zero => exact le_refl 0
  | succ room ih =>
    rw [staging, staging]
    by_cases ha : 0 < a
    · rw [if_pos ha, if_pos (by omega)]
      exact Nat.succ_le_succ (ih (Nat.div_le_div_right h))
    · rw [if_neg ha]
      exact Nat.zero_le _

theorem length_staging_le (room a : Nat) : (staging room a).length ≤ room := by
  induction room generalizing a with
  | zero => exact le_refl 0
  | succ room ih =>
    rw [staging]
    by_cases ha : 0 < a
    · rw [if_pos ha]
      exact Nat.succ_le_succ (ih _)
    · rw [if_neg ha]
      exact Nat.zero_le _

theorem length_uintToString_le (v : BitVec 32) : (uintToStringFreestanding v).length ≤ 15 := by
  rw [uintToStringFreestanding]
  by_cases h0 : v = 0
  · rw [if_pos h0, List.length_singleton]
    omega
  · rw [if_neg h0, List.length_reverse]
    exact length_staging_le 15 _

theorem length_uintToString_mono {v v' : BitVec 32} (h0 : 0 < v.toNat) (h : v.toNat ≤ v'.toNat) :
    (uintToStringFreestanding v).length ≤ (uintToStringFreestanding v').length := by
  have hne : ∀ w : BitVec 32, 0 < w.toNat → w ≠ 0 := by
    rintro w hw rfl
    exact absurd hw (by decide)
  unfold uintToStringFreestanding
  rw [if_neg (hne v h0), if_neg (hne v' (by omega)), List.length_reverse, List.length_reverse]
  exact length_staging_mono h

theorem length_uintToString_count {disk : VRamDiskState} {files : List FileRequest}
    (hcat : Catalog disk files) (i : BitVec 32) :
    (uintToStringFreestanding (disk.getFolderFileCount i)).length ≤ 4 := by
  have hcount : (disk.getFolderFileCount i).toNat ≤ 8 := by
    rw [hcat.count]
    exact (List.length_filter_le _ _).trans (List.length_take_le 8 files)
  have hdigit : ∀ k, k ≤ 8 → (staging 15 k).length ≤ 4 := by decide
  rw [uintToStringFreestanding]
  by_cases h0 : disk.getFolderFileCount i = 0
  · rw [if_pos h0]
    exact (by decide : 1 ≤ 4)
  · rw [if_neg h0, List.length_reverse]
    exact hdigit _ hcount

theorem DistroSession.Valid.length_status {s : DistroSession} (h : s.Valid) :
    (uintToStringFreestanding s.activeExecStatus).length ≤ 4 := by
  rcases h.log with ⟨-, hstatus⟩ | ⟨-, hstatus⟩
  · rw [hstatus]
    decide
  · rw [hstatus]
    decide

theorem DistroSession.Valid.length_log {s : DistroSession} (h : s.Valid) :
    s.activeExecLog.length ≤ 57 := by
  rcases h.log with ⟨hlog, -⟩ | ⟨hlog, -⟩
  · rw [hlog]
    decide +kernel
  · rw [hlog]
    decide +kernel

section

variable {disk : VRamDiskState} {files : List FileRequest} {s s' : DistroSession}
  {t t' status status' : List Byte} {b : Nat}

/-- **What a frame prints** outside of the overflow, every later one prints over. -/
theorem frameCalls_covers (hcat : Catalog disk files) (hs : s.Valid) (ht : t.length ≤ t'.length)
    (hstatus : status.length ≤ 4) (hout : ¬ Overflow b)
    (h : Printed (frameCalls disk t status s) b) : Printed (frameCalls disk t' status' s') b := by
  obtain ⟨hpath, hdesc⟩ := workspaceFolder_lengths hs.folder
  have hcount := length_uintToString_count hcat s.activeDirectoryIndex
  rw [← activeFilesCounts_getD disk hs.folder] at hcount
  simp only [frameCalls, printed_append] at h ⊢
  rcases h with (hupper | hlisting) | hlower
  · exact .inl (.inl (upperCalls_covers ht hpath hdesc hcount hupper))
  · exact .inl (.inl (upperCalls_blank (listing_covers hcat hout hlisting)))
  · exact .inr (lowerCalls_covers hstatus hs.length_log hlower)

theorem cell_keyCalls {lastScancode liveScancode : Byte} {c : PrintCall}
    (h : c ∈ keyCalls lastScancode liveScancode) : c.cell = 1212 ∧ c.str.length ≤ 60 := by
  unfold keyCalls at h
  split_ifs at h
  · exact absurd h List.not_mem_nil
  · rw [List.mem_singleton.mp h]
    exact ⟨rfl, by decide +kernel⟩
  · exact absurd h List.not_mem_nil
  · rw [List.mem_singleton.mp h]
    exact ⟨rfl, by decide +kernel⟩
  · exact absurd h List.not_mem_nil

theorem keyCalls_covers {lastScancode liveScancode : Byte}
    (h : Printed (keyCalls lastScancode liveScancode) b) :
    Printed (frameCalls disk t status s) b := by
  obtain ⟨c, hc, hcovers⟩ := h
  have hplace := cell_keyCalls hc
  rw [PrintCall.covers_iff] at hcovers
  simp only [frameCalls, printed_append]
  exact .inl (.inl (upperCalls_blank (.inl (by omega))))

end

/-! ### The overflow -/

/-- A character of a file, by the place of the file in its folder. -/
def fileChar (disk : VRamDiskState) (idx j : Nat) (folder : BitVec 32) : Option Byte :=
  (disk.getVirtualFileContent (BitVec.ofNat 32 idx) folder).bind fun content => content[j]?

/-- Character `j` of file `idx` is printed to the overflow. -/
def Overflows (idx j : Nat) : Prop :=
  (idx = 0 ∧ 41 ≤ j ∧ j < 61) ∨ (idx = 1 ∧ 41 ≤ j ∧ j < 63)

def contentCell (idx j : Nat) : Nat := 1231 + 80 * idx + j

theorem Overflows.overflow {idx j : Nat} (h : Overflows idx j) :
    Overflow (2 * contentCell idx j) ∧ Overflow (2 * contentCell idx j + 1) := by
  unfold Overflows at h
  unfold Overflow contentCell
  omega

theorem overflow_cases {b : Nat} (h : Overflow b) :
    ∃ idx j, Overflows idx j ∧ (b = 2 * contentCell idx j ∨ b = 2 * contentCell idx j + 1) := by
  unfold Overflow at h
  unfold Overflows contentCell
  rcases h with h | h
  · exact ⟨0, b / 2 - 1231, by omega, by omega⟩
  · exact ⟨1, b / 2 - 1311, by omega, by omega⟩

section

variable {disk : VRamDiskState} {files : List FileRequest} {s : DistroSession} {folder : BitVec 32}
  {t status : List Byte} {idx j : Nat}

theorem fileCalls_nil (hcat : Catalog disk files) {idx : Nat}
    (h : disk.getFolderFileCount folder ≤ BitVec.ofNat 32 idx) :
    fileCalls disk folder idx = [] := by
  rw [fileCalls]
  rw [(hcat.name_none folder (BitVec.ofNat 32 idx)).mpr h]

theorem fileCalls_other (hcat : Catalog disk files) (h : Overflows idx j) {idx' b : Nat}
    (hne : idx' ≠ idx) (hb : b = 2 * contentCell idx j ∨ b = 2 * contentCell idx j + 1) :
    ¬ Printed (fileCalls disk folder idx') b := by
  rintro ⟨c, hc, hcovers⟩
  unfold Overflows at h
  unfold contentCell at hb
  rw [PrintCall.covers_iff] at hcovers
  have hlen : (ascii "-> ").length = 3 := by decide
  obtain ⟨fName, fCont, hname, hcont, -, rfl | rfl | rfl⟩ := mem_fileCalls hcat hc
  · simp only [PrintCall.cell] at hcovers
    omega
  · simp only [PrintCall.cell, hlen] at hcovers
    omega
  · simp only [PrintCall.cell] at hcovers
    omega

/-- **A file prints its character there.** -/
theorem top?_fileCalls (hcat : Catalog disk files) :
    top? ((fileCalls disk folder idx).map PrintCall.stroke) (2 * contentCell idx j) =
        fileChar disk idx j folder ∧
      top? ((fileCalls disk folder idx).map PrintCall.stroke) (2 * contentCell idx j + 1) =
        (fileChar disk idx j folder).map fun _ => attrWhite := by
  have hname := hcat.name folder (BitVec.ofNat 32 idx)
  have hcontent := hcat.content folder (BitVec.ofNat 32 idx)
  rw [fileCalls, fileChar]
  rw [hname, hcontent]
  cases (filesOf files folder)[(BitVec.ofNat 32 idx).toNat]? with
  | none => exact ⟨rfl, rfl⟩
  | some request =>
    simp only [Option.map_some, Option.bind_some]
    generalize hfName : request.name.val.take 11 = fName
    generalize request.content.val.take 63 = fCont
    have hlen : fName.length ≤ 11 := by rw [← hfName]; exact List.length_take_le _ _
    have hbefore : ∀ b, b = 2 * contentCell idx j ∨ b = 2 * contentCell idx j + 1 →
        ¬ Printed [⟨15 + idx, 14, fName, attrWhite⟩, ⟨15 + idx, 28, ascii "-> ", attrWhite⟩] b := by
      rintro b hb ⟨c, hc, hcovers⟩
      unfold contentCell at hb
      rw [PrintCall.covers_iff] at hcovers
      have harrow : (ascii "-> ").length = 3 := by decide
      rcases List.mem_pair.mp hc with rfl | rfl
      · simp only [PrintCall.cell] at hcovers
        omega
      · simp only [PrintCall.cell, harrow] at hcovers
        omega
    have hcell : contentCell idx j = (⟨15 + idx, 31, fCont, attrWhite⟩ : PrintCall).cell + j := by
      simp only [contentCell, PrintCall.cell]
      omega
    have hlast : ∀ b, b = 2 * contentCell idx j ∨ b = 2 * contentCell idx j + 1 →
        top? ([⟨15 + idx, 14, fName, attrWhite⟩, ⟨15 + idx, 28, ascii "-> ", attrWhite⟩,
          ⟨15 + idx, 31, fCont, attrWhite⟩].map PrintCall.stroke) b =
            (⟨15 + idx, 31, fCont, attrWhite⟩ : PrintCall).stroke.at? b := by
      intro b hb
      have hsplit := top?_append
        ([⟨15 + idx, 14, fName, attrWhite⟩, ⟨15 + idx, 28, ascii "-> ", attrWhite⟩].map
          PrintCall.stroke)
        [(⟨15 + idx, 31, fCont, attrWhite⟩ : PrintCall).stroke] b
      rw [top?_eq_none (hbefore b hb), top?_singleton, Option.or_none] at hsplit
      exact hsplit
    rw [hlast _ (.inl rfl), hlast _ (.inr rfl), hcell]
    exact ⟨PrintCall.at?_char _ j, PrintCall.at?_attr _ j⟩

theorem top?_listing (hcat : Catalog disk files) {b : Nat} (hb : Overflow b) :
    top? ((listingCalls disk folder (disk.getFolderFileCount folder)).map PrintCall.stroke) b =
      (top? ((fileCalls disk folder 1).map PrintCall.stroke) b).or
        (top? ((fileCalls disk folder 0).map PrintCall.stroke) b) := by
  have hnil : ∀ idx, idx < 2 → (disk.getFolderFileCount folder).toNat ≤ idx →
      fileCalls disk folder idx = [] := by
    intro idx hidx hle
    apply fileCalls_nil hcat
    rw [BitVec.le_def, BitVec.toNat_ofNat]
    omega
  have htwo : List.range 2 = [0, 1] := rfl
  rw [listingCalls]
  generalize hcount : (disk.getFolderFileCount folder).toNat = n at hnil
  by_cases hzero : disk.getFolderFileCount folder = 0
  · have hn : n = 0 := by rw [← hcount, hzero]; rfl
    have hempty : ¬ Printed [⟨15, 14, ascii "[Directory is empty]", attrSlateGray⟩] b := by
      rintro ⟨c, hc, hcovers⟩
      rw [List.mem_singleton.mp hc, PrintCall.covers_iff] at hcovers
      have hlen : (ascii "[Directory is empty]").length = 20 := by decide +kernel
      simp only [PrintCall.cell, hlen] at hcovers
      unfold Overflow at hb
      omega
    rw [if_pos hzero, hnil 0 (by omega) (by omega), hnil 1 (by omega) (by omega),
      top?_eq_none hempty]
    rfl
  · have hn : 0 < n := by
      rw [← hcount]
      exact Nat.pos_of_ne_zero fun h0 => hzero (BitVec.eq_of_toNat_eq h0)
    rw [if_neg hzero, htwo]
    by_cases hone : 1 < n
    · simp only [List.filter_cons, hn, hone, decide_true, if_true, List.filter_nil,
        List.flatMap_cons, List.flatMap_nil, List.append_nil, List.map_append, top?_append]
    · simp only [List.filter_cons, hn, hone, decide_true, decide_false, if_true,
        Bool.false_eq_true, if_false, List.filter_nil, List.flatMap_cons, List.flatMap_nil,
        List.append_nil]
      rw [hnil 1 (by omega) (by omega)]
      rfl

/-- **What a frame leaves** in the overflow: the characters of its folder. -/
theorem top?_overflow (hcat : Catalog disk files) (hs : s.Valid) (ht : t.length ≤ 15)
    (h : Overflows idx j) :
    top? ((frameCalls disk t status s).map PrintCall.stroke) (2 * contentCell idx j) =
        fileChar disk idx j s.activeDirectoryIndex ∧
      top? ((frameCalls disk t status s).map PrintCall.stroke) (2 * contentCell idx j + 1) =
        (fileChar disk idx j s.activeDirectoryIndex).map fun _ => attrWhite := by
  obtain ⟨hpath, hdesc⟩ := workspaceFolder_lengths hs.folder
  have hcount := length_uintToString_count hcat s.activeDirectoryIndex
  have hframe : ∀ b, Overflow b → top? ((frameCalls disk t status s).map PrintCall.stroke) b =
      (top? ((fileCalls disk s.activeDirectoryIndex 1).map PrintCall.stroke) b).or
        (top? ((fileCalls disk s.activeDirectoryIndex 0).map PrintCall.stroke) b) := by
    intro b hb
    simp only [frameCalls, activeFilesCounts_getD disk hs.folder, List.map_append, top?_append,
      top?_eq_none (upperCalls_overflow ht hpath hdesc hcount hb),
      top?_eq_none (lowerCalls_overflow hb), top?_listing hcat hb, Option.or_none, Option.none_or]
  obtain ⟨hchar, hattr⟩ := h.overflow
  rw [hframe _ hchar, hframe _ hattr]
  have hother : ∀ idx', idx' ≠ idx → ∀ b,
      (b = 2 * contentCell idx j ∨ b = 2 * contentCell idx j + 1) →
      top? ((fileCalls disk s.activeDirectoryIndex idx').map PrintCall.stroke) b = none :=
    fun idx' hne b hb => top?_eq_none (fileCalls_other hcat h hne hb)
  have hidx : idx = 0 ∨ idx = 1 := by
    unfold Overflows at h
    omega
  rcases hidx with rfl | rfl
  · rw [hother 1 (by decide) _ (.inl rfl), hother 1 (by decide) _ (.inr rfl), Option.none_or,
      Option.none_or]
    exact top?_fileCalls hcat
  · rw [hother 0 (by decide) _ (.inl rfl), hother 0 (by decide) _ (.inr rfl), Option.or_none,
      Option.or_none]
    exact top?_fileCalls hcat

/-- **The status is seen**: its first character is at (19, 37). -/
theorem top?_status {a : Byte} (h : status.head? = some a) :
    top? ((frameCalls disk t status s).map PrintCall.stroke) 3114 = some a := by
  have hlog : ¬ Printed (logCalls s.activeExecLog) 3114 := by
    rintro ⟨c, hc, hcovers⟩
    have hplace := logCalls_place hc
    rw [PrintCall.covers_iff] at hcovers
    omega
  have hstatus : (⟨19, 37, status, attrGold⟩ : PrintCall).stroke.at? 3114 = some a := by
    have hchar := PrintCall.at?_char ⟨19, 37, status, attrGold⟩ 0
    have hplace : 2 * ((⟨19, 37, status, attrGold⟩ : PrintCall).cell + 0) = 3114 := by
      simp [PrintCall.cell]
    rw [hplace, ← List.head?_eq_getElem?, h] at hchar
    exact hchar
  have hlast : top? ((statusCalls status).map PrintCall.stroke) 3114 = some a := by
    have hsplit := top?_append ((statusCalls []).dropLast.map PrintCall.stroke)
      [(⟨19, 37, status, attrGold⟩ : PrintCall).stroke] 3114
    rw [top?_singleton, hstatus, Option.some_or] at hsplit
    exact hsplit
  simp only [frameCalls, lowerCalls, List.map_append, top?_append, top?_eq_none hlog, hlast,
    Option.none_or, Option.some_or]

end

end Antagonist
