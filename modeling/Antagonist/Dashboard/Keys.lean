import Antagonist.Dashboard.Main
import Antagonist.Lib.Debounce

/-!
# The keys of the dashboard

A scancode that comes again is no event: only the first one of equal scancodes does something, and
all that a key does to the session is done there.

* `debounced_poll`: the session is a debounced machine, which the exit key stops.
* `keys_debounced`: the repeats do not matter to a run.
-/

namespace Antagonist

open ByteMem Debounce

/-- **The session is debounced.** -/
theorem debounced_poll (disk : VRamDiskState) :
    Debounced (DistroSession.poll disk) DistroSession.lastScancode fun s => s.halted = true where
  repeated s := by
    rw [DistroSession.poll, if_pos rfl, ite_self]
  stuck_step s a h := by rw [DistroSession.poll, if_pos h]
  seen s a h := by
    obtain ⟨i, log, status, loader, heq, -, -⟩ := { s with lastScancode := a }.pressMake_eq disk a
    rw [DistroSession.poll, if_neg h, heq]
    split_ifs with hsame
    · exact hsame.symm
    · rfl
    · rfl
    · rfl

namespace Dashboard

variable (disk : VRamDiskState) (loader : Loader) (videoMemory : Nat → Byte)

theorem ticks_runAll (scancodes : List Byte) :
    (runAll disk (start loader videoMemory) scancodes).liveDistroTicks.toNat ≤
      scancodes.length := by
  induction scancodes using List.reverseRecOn with
  | nil => exact le_refl 0
  | append_singleton scancodes a ih =>
    have hframe := frame_ticks disk (runAll disk (start loader videoMemory) scancodes) a
    rw [runAll, List.foldl_concat, List.length_append, List.length_singleton]
    exact hframe.trans (Nat.succ_le_succ ih)

theorem session_runAll {scancodes : List Byte} (h : scancodes.length < 5000) :
    (runAll disk (start loader videoMemory) scancodes).session =
      scancodes.foldl (DistroSession.poll disk) (start loader videoMemory).session := by
  induction scancodes using List.reverseRecOn with
  | nil => rfl
  | append_singleton scancodes a ih =>
    rw [List.length_append, List.length_singleton] at h
    have hticks := ticks_runAll disk loader videoMemory scancodes
    rw [List.foldl_concat, ← ih (by omega), runAll, List.foldl_concat]
    exact frame_session disk _ a (by rw [runAll] at hticks; omega)

theorem valid_start : (start loader videoMemory).session.Valid :=
  ⟨show (0 : BitVec 32).toNat < folderCount by decide, .inl ⟨rfl, rfl⟩⟩

theorem valid_runAll (scancodes : List Byte) :
    (runAll disk (start loader videoMemory) scancodes).session.Valid := by
  induction scancodes using List.reverseRecOn with
  | nil => exact valid_start loader videoMemory
  | append_singleton scancodes a ih =>
    rw [runAll, List.foldl_concat]
    exact frame_valid disk _ a ih

/-- **Repeats do not matter**: scancodes that are the same after 0 but for repeats lead to the same
folder, log, status, last scancode and halt; and the folder is always one of the four. -/
theorem keys_debounced :
    (∀ scancodes scancodes' : List Byte, scancodes.length < 5000 → scancodes'.length < 5000 →
      collapsed 0 scancodes = collapsed 0 scancodes' →
        (runAll disk (start loader videoMemory) scancodes).session =
          (runAll disk (start loader videoMemory) scancodes').session) ∧
    ∀ scancodes : List Byte,
      (runAll disk (start loader videoMemory) scancodes).session.activeDirectoryIndex.toNat <
        folderCount := by
  refine ⟨?_, ?_⟩
  · intro scancodes scancodes' h h' hsame
    rw [session_runAll disk loader videoMemory h, session_runAll disk loader videoMemory h']
    exact (debounced_poll disk).foldl_eq _ hsame
  · intro scancodes
    exact (valid_runAll disk loader videoMemory scancodes).folder

end Dashboard

end Antagonist
