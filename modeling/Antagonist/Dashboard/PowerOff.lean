import Antagonist.Dashboard.Repaint

/-!
# How the dashboard ends

The loop of `antagonist_main` has two ways out, the exit key and the limit of 5000 frames, and both
blank the screen and print two lines.  So of all that was polled and shown only one bit is left at
the end: whether the exit key was among the first 5000 scancodes.

* `Running.frame`: a frame that is not the last one.
* `ended_exit`, `ended_limit`: the two last frames.
* `dashboard_end`: **how every run ends**.
-/

namespace Antagonist

open ByteMem Canvas Dashboard

def exitCalls : List PrintCall :=
  [⟨11, 15, ascii "ANTAGONIST OS RELEASE RUNWAY CONTROL COMPLETED", attrGold⟩,
    ⟨12, 22, ascii "DISTRIBUTION HALTED CLEANLY VIA SYSTEM CODE", attrWhite⟩]

def powerOffCalls : List PrintCall :=
  [⟨11, 15, ascii "ANTAGONIST OS WORKSPACE POWERED DOWN SAFELY", attrGold⟩,
    ⟨12, 24, ascii "SYSTEM CORE TERMINATED HALT", attrWhite⟩]

/-- A cleared screen with some lines. -/
def linesOnly (calls : List PrintCall) (b : Nat) : Byte :=
  (top? (calls.map PrintCall.stroke) b).getD (clearedScreen b)

/-- The loop is left, and the screen has the lines alone. -/
structure Ended (calls : List PrintCall) (d : Dashboard) : Prop where
  halted : d.session.halted = true
  screen : ∀ b < 4000, d.videoMemory b = linesOnly calls b

/-! ### The last frame -/

theorem blankScreen_apply (videoMemory : Nat → Byte) {b : Nat} (hb : b < 4000) :
    blankScreen videoMemory b = clearedScreen b := by
  have hrounds : ∀ n, (List.range n).foldl (fun videoMemory k =>
      Function.update (Function.update videoMemory (2 * k) (0x20 : Byte)) (2 * k + 1) 0x07)
        videoMemory b = if b < 2 * n then clearedScreen b else videoMemory b := by
    intro n
    induction n with
    | zero => rfl
    | succ n ih =>
      obtain ⟨hchar, hattr⟩ := clearedScreen_char n
      rw [List.range_succ, List.foldl_concat, Function.update_apply, Function.update_apply, ih]
      by_cases hodd : b = 2 * n + 1
      · rw [if_pos hodd, if_pos (by omega), hodd, hattr]
      by_cases heven : b = 2 * n
      · rw [if_neg hodd, if_pos heven, if_pos (by omega), heven, hchar]
      · rw [if_neg hodd, if_neg heven]
        exact if_congr (by omega) rfl rfl
  rw [blankScreen, hrounds 2000, if_pos hb]

theorem ended_haltWith (d : Dashboard) (calls : List PrintCall) :
    Ended calls (d.haltWith calls) := by
  refine ⟨rfl, ?_⟩
  intro b hb
  show printAll (blankScreen d.videoMemory) calls b = _
  rw [printAll_eq, paint_apply, blankScreen_apply d.videoMemory hb, linesOnly]

/-- The loop goes on, and `n` frames are done. -/
structure Running (n : Nat) (d : Dashboard) : Prop where
  halted : d.session.halted = false
  ticks : d.liveDistroTicks.toNat = n
  last : d.session.lastScancode ≠ 0x06

section

variable {disk : VRamDiskState} {d : Dashboard} {n : Nat} {a : Byte}

theorem running_start (loader : Loader) (videoMemory : Nat → Byte) :
    Running 0 (start loader videoMemory) := ⟨rfl, rfl, show (0 : Byte) ≠ 0x06 by decide⟩

theorem Running.not_halted (H : Running n d) : ¬ d.session.halted = true := by
  rw [H.halted]
  exact Bool.false_ne_true

theorem Running.toNat_tick (H : Running n d) (hn : n < 5000) :
    (d.liveDistroTicks + 1).toNat = n + 1 := by
  rw [BitVec.toNat_add, H.ticks]
  show (n + 1) % 2 ^ 32 = n + 1
  omega

/-- **A frame** that is not the last one. -/
theorem Running.frame (H : Running n d) (hn : n + 1 < 5000) (ha : a ≠ 0x06) :
    Running (n + 1) (frame disk d a) := by
  have hframe := frame_eq disk d a H.halted ha (by rw [H.ticks]; exact hn)
  refine ⟨?_, ?_, ?_⟩
  · rw [hframe]
    exact DistroSession.poll_halted disk H.halted ha
  · rw [hframe]
    exact H.toNat_tick (by omega)
  · rw [hframe]
    show (d.session.poll disk a).lastScancode ≠ 0x06
    rw [(debounced_poll disk).seen d.session a H.not_halted]
    exact ha

/-- The exit key: it has not been seen before, so it is an event. -/
theorem ended_exit (H : Running n d) : Ended exitCalls (frame disk d 0x06) := by
  have hnew : (0x06 : Byte) ≠ d.session.lastScancode := Ne.symm H.last
  have hmake : ¬ ((0x06 : Byte) &&& 0x80 ≠ 0) := by decide
  obtain ⟨d', hkey⟩ : ∃ d' : Dashboard, handleKey disk 0x06
      { d with liveDistroTicks := d.liveDistroTicks + 1 } = d'.haltWith exitCalls := by
    rw [handleKey, if_pos hnew]
    simp only [if_neg hmake]
    rw [handleMake, if_pos rfl]
    exact ⟨_, rfl⟩
  rw [frame, if_neg H.not_halted]
  simp only [hkey]
  rw [if_pos (show (d'.haltWith exitCalls).session.halted = true from rfl)]
  exact ended_haltWith d' exitCalls

theorem ended_limit (H : Running 4999 d) (ha : a ≠ 0x06) :
    Ended powerOffCalls (frame disk d a) := by
  have htick := H.toNat_tick (by decide)
  have hkey := handleKey_eq disk { d with liveDistroTicks := d.liveDistroTicks + 1 } a H.halted ha
  have hgoes : ¬ (d.session.poll disk a).halted = true := by
    rw [DistroSession.poll_halted disk H.halted ha]
    exact Bool.false_ne_true
  rw [frame, if_neg H.not_halted]
  simp only [hkey, if_neg hgoes]
  rw [if_pos (Nat.le_of_eq htick.symm)]
  exact ended_haltWith _ powerOffCalls

theorem runAll_of_halted (h : d.session.halted = true) (scancodes : List Byte) :
    runAll disk d scancodes = d := by
  induction scancodes with
  | nil => rfl
  | cons a scancodes ih => rw [runAll, List.foldl_cons, frame_of_halted disk d a h, ← runAll, ih]

theorem running_runAll (loader : Loader) (videoMemory : Nat → Byte) {scancodes : List Byte}
    (h : Polled scancodes) :
    Running scancodes.length (runAll disk (start loader videoMemory) scancodes) := by
  induction scancodes using List.reverseRecOn with
  | nil => exact running_start loader videoMemory
  | append_singleton scancodes a ih =>
    obtain ⟨hbefore, hexit⟩ := h.before
    have hshort := h.short
    rw [List.length_append, List.length_singleton] at hshort ⊢
    rw [runAll, List.foldl_concat]
    exact (ih hbefore).frame hshort hexit

/-- The runs: whether the exit key is among the first 5000 scancodes, and whether there are so
many. -/
structure EndsWell (disk : VRamDiskState) (loader : Loader) (videoMemory : Nat → Byte)
    (scancodes : List Byte) : Prop where
  exit : 0x06 ∈ scancodes.take 5000 →
    Ended exitCalls (runAll disk (start loader videoMemory) scancodes)
  limit : 0x06 ∉ scancodes.take 5000 → 5000 ≤ scancodes.length →
    Ended powerOffCalls (runAll disk (start loader videoMemory) scancodes)
  goesOn : 0x06 ∉ scancodes.take 5000 → scancodes.length < 5000 →
    Running scancodes.length (runAll disk (start loader videoMemory) scancodes)

/-- **How every run ends**: on one of two screens, whatever the files, the programs and the screen
before were, and not without the exit key or the limit. -/
theorem dashboard_end (disk : VRamDiskState) (loader : Loader) (videoMemory : Nat → Byte)
    (scancodes : List Byte) : EndsWell disk loader videoMemory scancodes := by
  have hsplit : scancodes.take 5000 ++ scancodes.drop 5000 = scancodes := List.take_append_drop _ _
  have hlen : (scancodes.take 5000).length ≤ 5000 := List.length_take_le _ _
  refine ⟨?_, ?_, ?_⟩
  · intro hmem
    obtain ⟨before, after, htake, hnot⟩ := List.eq_append_cons_of_mem hmem
    rw [htake] at hsplit hlen
    rw [List.length_append, List.length_cons] at hlen
    have hended : Ended exitCalls
        (runAll disk (start loader videoMemory) (before ++ [0x06])) := by
      rw [runAll, List.foldl_concat]
      exact ended_exit (running_runAll loader videoMemory ⟨by omega, hnot⟩)
    rw [← hsplit, List.append_cons, List.append_assoc, runAll, List.foldl_append, ← runAll,
      ← runAll, runAll_of_halted hended.halted]
    exact hended
  · intro hnot hlong
    obtain ⟨before, a, htake⟩ : ∃ before a, scancodes.take 5000 = before ++ [a] := by
      refine (List.eq_nil_or_concat' _).resolve_left ?_
      rw [List.take_eq_nil_iff]
      rintro (h | rfl)
      · exact absurd h (by decide)
      · exact absurd hlong (by decide)
    have hfull : (scancodes.take 5000).length = 5000 := List.length_take_of_le hlong
    rw [htake] at hsplit hnot hfull
    rw [List.length_append, List.length_singleton] at hfull
    have hbefore : before.length = 4999 := by omega
    have hpolled : Polled before :=
      ⟨by omega, fun hmem => hnot (List.mem_append_left _ hmem)⟩
    have hrunning : Running before.length (runAll disk (start loader videoMemory) before) :=
      running_runAll loader videoMemory hpolled
    rw [hbefore] at hrunning
    have hended : Ended powerOffCalls (runAll disk (start loader videoMemory) (before ++ [a])) := by
      rw [runAll, List.foldl_concat]
      refine ended_limit hrunning ?_
      rintro rfl
      exact hnot (List.mem_append_right _ (List.mem_singleton_self _))
    rw [← hsplit, runAll, List.foldl_append, ← runAll, ← runAll, runAll_of_halted hended.halted]
    exact hended
  · intro hnot hshort
    rw [List.take_of_length_le (by omega)] at hnot
    exact running_runAll loader videoMemory ⟨hshort, hnot⟩

end

end Antagonist
