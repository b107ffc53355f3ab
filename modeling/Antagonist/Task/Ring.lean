import Antagonist.Lib.LinkRing
import Antagonist.Lib.RoundRobin
import Antagonist.Task.Create

/-!
# The ring of threads

`TaskRing k task0 created` is what the thread control blocks in memory say: from
the head, the links visit task 0 and the created threads, the newest first, and
come back.  `create_thread` and `switch_task` keep it (`TaskRing.create`,
`TaskRing.switch`), and so does any store that leaves the links and the ids
alone (`TaskRing.congr`).

`Turn` reads the ring from the running thread on, as round robin does.
-/

namespace Antagonist

open ByteMem LinkRing RoundRobin

/-- The blocks in memory form a ring, with task 0 at the head and the threads
created since, the newest first, behind it. -/
structure TaskRing (k : Kernel) (task0 : Nat) (created : List Nat) : Prop where
  head : k.taskListHead = task0
  ring : IsRing k.next (task0 :: created)
  running : k.runningTask ∈ task0 :: created
  id_task0 : k.id task0 = 0
  ids : created.reverse.map k.id = List.range' 1 created.length
  nextThreadId : k.nextThreadId = created.length + 1
  nodup : (task0 :: created).Nodup
  fits : ∀ t ∈ task0 :: created, 0 < t ∧ t + tcbSize < 2 ^ 32

section

variable {k k' : Kernel} {task0 : Nat} {created : List Nat}

theorem length_le_of_fits {l : List Nat} (hnd : l.Nodup)
    (hfits : ∀ t ∈ l, 0 < t ∧ t + tcbSize < 2 ^ 32) : l.length + tcbSize ≤ 2 ^ 32 := by
  have hsub : l ⊆ List.range (2 ^ 32 - tcbSize) := by
    intro t ht
    have hlt := (hfits t ht).2
    exact List.mem_range.mpr (by omega)
  have hle := (List.subperm_of_subset hnd hsub).length_le
  rw [List.length_range] at hle
  simp only [tcbSize] at *
  omega

/-- The ids are `0`, `1`, `2` and so on, in the order of creation. -/
theorem TaskRing.ids_nodup (H : TaskRing k task0 created) :
    ((task0 :: created.reverse).map k.id).Nodup := by
  rw [List.map_cons, H.id_task0, H.ids]
  refine List.nodup_cons.mpr ⟨?_, List.nodup_range'⟩
  intro h
  have := (List.mem_range'_1.mp h).1
  omega

/-- Stores that leave the links and the ids alone keep the ring. -/
theorem TaskRing.congr (H : TaskRing k task0 created)
    (hfields : ∀ t ∈ task0 :: created, k'.next t = k.next t ∧ k'.id t = k.id t)
    (hhead : k'.taskListHead = k.taskListHead) (hrun : k'.runningTask ∈ task0 :: created)
    (hid : k'.nextThreadId = k.nextThreadId) : TaskRing k' task0 created where
  head := hhead.trans H.head
  ring := H.ring.congr fun t ht => (hfields t ht).1
  running := hrun
  id_task0 := ((hfields task0 List.mem_cons_self).2).trans H.id_task0
  ids := by
    rw [← H.ids]
    refine List.map_congr_left fun t ht => (hfields t ?_).2
    exact List.mem_cons_of_mem _ (List.mem_reverse.mp ht)
  nextThreadId := hid.trans H.nextThreadId
  nodup := H.nodup
  fits := H.fits

section

variable {held : List (Nat × Nat)} {k₁ : Kernel} {bootstrap entry t b : Nat}

theorem Allocated.not_mem (A : Allocated k k₁ held t b) {blocks : List Nat}
    (hheld : ∀ t ∈ blocks, (t, tcbSize) ∈ held) : t ∉ blocks := by
  intro ht
  have hself := A.tcb_new _ (hheld t ht)
  simp only [Separate, tcbSize] at hself
  omega

/-- Of the blocks on the ring, only the head's link is rewritten. -/
theorem TaskRing.create_kept (H : TaskRing k task0 created)
    (hheld : ∀ t ∈ task0 :: created, (t, tcbSize) ∈ held)
    (hsep : ∀ u ∈ created, Separate u tcbSize task0 tcbSize)
    (C : Created k k' held bootstrap entry t b) {u : Nat} (hu : u ∈ task0 :: created) :
    k'.id u = k.id u ∧ (u ≠ task0 → k'.next u = k.next u) := by
  have hin := fun x h1 h2 => C.frame _ (hheld u hu) x ⟨h1, h2⟩
  have hu2 := (H.fits u hu).2
  rw [H.head] at hin
  simp only [tcbSize] at hu2 hin hsep
  have hapart : u = task0 ∨ Separate u 52 task0 52 :=
    (List.mem_cons.mp hu).imp id fun h => hsep u h
  simp only [Separate] at hapart
  refine ⟨load32_of_bytes (by omega) fun x h1 h2 => hin x h1 (by omega) (by omega), ?_⟩
  intro hne
  exact load32_of_bytes (by omega) fun x h1 h2 => hin x (by omega) (by omega) (by omega)

theorem TaskRing.create_isRing (H : TaskRing k task0 created)
    (hheld : ∀ t ∈ task0 :: created, (t, tcbSize) ∈ held)
    (hsep : ∀ u ∈ created, Separate u tcbSize task0 tcbSize)
    (C : Created k k' held bootstrap entry t b) : IsRing k'.next (task0 :: t :: created) := by
  have hhead := (List.nodup_cons.mp H.nodup).1
  refine H.ring.insert (fun u hu => ?_) ?_ ?_
  · exact (H.create_kept hheld hsep C (List.mem_cons_of_mem _ hu)).2 fun he => hhead (he ▸ hu)
  · rw [← H.head, C.headNext]
  · rw [C.next, H.head]

theorem TaskRing.create_ids (H : TaskRing k task0 created)
    (hheld : ∀ t ∈ task0 :: created, (t, tcbSize) ∈ held)
    (hsep : ∀ u ∈ created, Separate u tcbSize task0 tcbSize)
    (C : Created k k' held bootstrap entry t b) :
    (t :: created).reverse.map k'.id = List.range' 1 (t :: created).length := by
  have hids : created.reverse.map k'.id = created.reverse.map k.id := by
    refine List.map_congr_left ?_
    intro u hu
    exact (H.create_kept hheld hsep C (List.mem_cons_of_mem _ (List.mem_reverse.mp hu))).1
  rw [List.reverse_cons, List.map_append, hids, H.ids, List.map_singleton, C.id, H.nextThreadId,
    List.length_cons, List.range'_concat, Nat.one_mul, Nat.add_comm 1]

theorem TaskRing.create_nodup (H : TaskRing k task0 created) (hnew : t ∉ task0 :: created) :
    (task0 :: t :: created).Nodup := by
  obtain ⟨hhead, hrest⟩ := List.nodup_cons.mp H.nodup
  rw [List.mem_cons, not_or] at hnew
  refine List.nodup_cons.mpr ⟨?_, List.nodup_cons.mpr ⟨hnew.2, hrest⟩⟩
  intro h
  rcases List.mem_cons.mp h with h | h
  · exact hnew.1 h.symm
  · exact hhead h

theorem TaskRing.create_fits (H : TaskRing k task0 created) (A : Allocated k k₁ held t b) :
    ∀ u ∈ task0 :: t :: created, 0 < u ∧ u + tcbSize < 2 ^ 32 := by
  intro u hu
  rcases List.mem_cons.mp hu with rfl | hu
  · exact H.fits u List.mem_cons_self
  rcases List.mem_cons.mp hu with rfl | hu
  · exact A.tcb
  · exact H.fits u (List.mem_cons_of_mem _ hu)

/-- **`create_thread` puts the new thread behind the head.** -/
theorem TaskRing.create (H : TaskRing k task0 created)
    (hheld : ∀ t ∈ task0 :: created, (t, tcbSize) ∈ held)
    (hsep : ∀ u ∈ created, Separate u tcbSize task0 tcbSize) (A : Allocated k k₁ held t b)
    (C : Created k k' held bootstrap entry t b) : TaskRing k' task0 (t :: created) := by
  have hnd := H.create_nodup (A.not_mem hheld)
  have hfits := H.create_fits A
  have hroom := length_le_of_fits hnd hfits
  refine ⟨C.taskListHead.trans H.head, H.create_isRing hheld hsep C, ?_, ?_,
    H.create_ids hheld hsep C, ?_, hnd, hfits⟩
  · rw [C.runningTask]
    rcases List.mem_cons.mp H.running with h | h
    · rw [h]
      exact List.mem_cons_self
    · exact List.mem_cons_of_mem _ (List.mem_cons_of_mem _ h)
  · rw [(H.create_kept hheld hsep C List.mem_cons_self).1, H.id_task0]
  · simp only [List.length_cons, tcbSize] at hroom ⊢
    rw [C.nextThreadId, H.nextThreadId, add32_of_lt (by omega)]

end

/-- `switch_task` moves on along the link, or stays when there is no one else. -/
theorem switchTask_spec (H : TaskRing k task0 created) :
    (k.next k.runningTask = k.runningTask ∧ switchTask k = none) ∨
    (k.next k.runningTask ≠ k.runningTask ∧ switchTask k = some (k.runningTask + 4,
      k.esp (k.next k.runningTask), { k with runningTask := k.next k.runningTask })) := by
  have h0 : k.runningTask ≠ 0 := Nat.ne_of_gt (H.fits _ H.running).1
  by_cases hself : k.next k.runningTask = k.runningTask
  · exact Or.inl ⟨hself, if_pos (Or.inr hself)⟩
  · exact Or.inr ⟨hself, if_neg fun h => h.elim h0 hself⟩

/-! ### The ring from the running thread on -/

/-- The ring as round robin sees it: `l` begins with the running thread. -/
def Turn (k : Kernel) (task0 : Nat) (created l : List Nat) : Prop :=
  ∃ v w, task0 :: created = v ++ k.runningTask :: w ∧ l = k.runningTask :: (w ++ v)

theorem Turn.isRing {l : List Nat} (T : Turn k task0 created l) (H : TaskRing k task0 created) :
    IsRing k.next l := by
  obtain ⟨v, w, hring, rfl⟩ := T
  have h := H.ring
  rw [hring] at h
  exact h.rotate

theorem Turn.perm {l : List Nat} (T : Turn k task0 created l) : l.Perm (task0 :: created) := by
  obtain ⟨v, w, hring, rfl⟩ := T
  rw [hring, ← List.cons_append]
  exact List.perm_append_comm

theorem Turn.running_mem {l : List Nat} (T : Turn k task0 created l) :
    k.runningTask ∈ task0 :: created := by
  obtain ⟨v, w, hring, _⟩ := T
  rw [hring]
  exact List.mem_append_right _ List.mem_cons_self

theorem Turn.create {l : List Nat} {t : Nat} (T : Turn k task0 created l)
    (hnew : t ∉ task0 :: created) (hrun : k'.runningTask = k.runningTask) :
    ∃ l', Step l (.enter t) l' ∧ Turn k' task0 (t :: created) l' := by
  have hperm := T.perm
  obtain ⟨v, w, hring, rfl⟩ := T
  have hnl : t ∉ k.runningTask :: (w ++ v) := fun h => hnew (hperm.subset h)
  cases v with
  | nil =>
    -- the head itself is running
    obtain ⟨h0, rfl⟩ := List.cons.inj hring
    rw [List.append_nil] at hnl ⊢
    have hstep : Step (k.runningTask :: ([] ++ created)) (.enter t)
        (k.runningTask :: ([] ++ t :: created)) := .enter hnl
    refine ⟨_, hstep, [], t :: created, ?_, ?_⟩
    · rw [hrun, h0]
      rfl
    · rw [hrun, List.append_nil]
      rfl
  | cons a v =>
    obtain ⟨h0, hrest⟩ := List.cons.inj hring
    replace hrest : created = v ++ k.runningTask :: w := hrest
    rw [List.append_cons] at hnl ⊢
    refine ⟨k.runningTask :: (w ++ [a] ++ t :: v), .enter hnl, a :: t :: v, w, ?_, ?_⟩
    · rw [hrun, h0, hrest]
      rfl
    · rw [hrun, List.append_assoc]
      rfl

theorem Turn.switch {l : List Nat} (T : Turn k task0 created l) (H : TaskRing k task0 created)
    (hne : k.next k.runningTask ≠ k.runningTask) (hrun : k'.runningTask = k.next k.runningTask) :
    ∃ l', Step l (.turn (k.next k.runningTask)) l' ∧ Turn k' task0 created l' := by
  have hisRing := T.isRing H
  obtain ⟨v, w, hring, rfl⟩ := T
  cases w with
  | nil =>
    cases v with
    | nil => exact absurd (isRing_singleton.mp hisRing) hne
    | cons b v =>
      have hb := hisRing.next_head
      rw [hb] at hrun ⊢
      refine ⟨_, .turn, [], v ++ [k.runningTask], ?_, ?_⟩
      · rw [hring, hrun]
        rfl
      · rw [hrun, List.append_nil]
  | cons b w =>
    have hb := hisRing.next_head
    rw [hb] at hrun ⊢
    refine ⟨_, .turn, v ++ [k.runningTask], w, ?_, ?_⟩
    · rw [hring, hrun, List.append_assoc]
      rfl
    · rw [hrun]
      exact congrArg (b :: ·) (List.append_assoc w v [k.runningTask])

/-! ### Counting -/

/-- The walk of `get_thread_count` along a piece of the ring that ends at the
head. -/
theorem getThreadCountLoop_spec : ∀ {l : List Nat} {node fuel count : Nat},
    (l ++ [k.taskListHead]).IsChain (fun x y => k.next x = y) →
    (l ++ [k.taskListHead]).head? = some node → k.taskListHead ∉ l → l.length < fuel →
    count + l.length < 2 ^ 32 →
    getThreadCountLoop k fuel node count = some (count + l.length) := by
  intro l
  induction l with
  | nil =>
    intro node fuel count _ hnode _ hfuel _
    obtain ⟨f, rfl⟩ : ∃ f, fuel = f + 1 := ⟨fuel - 1, by simp only [List.length_nil] at hfuel; omega⟩
    exact if_pos (Option.some.inj hnode).symm
  | cons a l ih =>
    intro node fuel count hchain hnode hhead hfuel hcount
    obtain ⟨f, rfl⟩ : ∃ f, fuel = f + 1 := ⟨fuel - 1, by omega⟩
    obtain rfl : a = node := Option.some.inj hnode
    simp only [List.mem_cons, not_or, List.length_cons] at hhead hfuel hcount
    obtain ⟨c, rest, hrest⟩ : ∃ c rest, l ++ [k.taskListHead] = c :: rest := by
      cases l with
      | nil => exact ⟨_, _, rfl⟩
      | cons c l => exact ⟨_, _, rfl⟩
    rw [List.cons_append, hrest] at hchain
    obtain ⟨hlink, htail⟩ := List.isChain_cons_cons.mp hchain
    have hstep : getThreadCountLoop k f c (count + 1) = some (count + 1 + l.length) :=
      ih (by rw [hrest]; exact htail) (by rw [hrest]; rfl) hhead.2 (by omega) (by omega)
    rw [getThreadCountLoop, if_neg (Ne.symm hhead.1), hlink, add32_of_lt (by omega), hstep,
      List.length_cons]
    congr 1
    omega

/-- On a ring `get_thread_count` ends, with the number of blocks on it. -/
theorem getThreadCount_of_ring (hhead : k.taskListHead = task0)
    (hring : IsRing k.next (task0 :: created)) (hnd : (task0 :: created).Nodup)
    (hfits : ∀ t ∈ task0 :: created, 0 < t ∧ t + tcbSize < 2 ^ 32) :
    getThreadCount k = some (1 + created.length) := by
  have h0 : k.taskListHead ≠ 0 := by
    rw [hhead]
    exact Nat.ne_of_gt (hfits task0 List.mem_cons_self).1
  have hroom := length_le_of_fits hnd hfits
  simp only [List.length_cons, tcbSize] at hroom
  have hchain : (created ++ [task0]).IsChain fun x y => k.next x = y := by
    cases created with
    | nil => exact List.isChain_singleton task0
    | cons b l => exact (List.isChain_cons_cons.mp hring).2
  have hnode : (created ++ [task0]).head? = some (k.next task0) := by
    cases created with
    | nil => exact congrArg some (isRing_singleton.mp hring).symm
    | cons b l => exact congrArg some hring.next_head.symm
  rw [Antagonist.getThreadCount, if_neg h0, hhead]
  rw [← hhead] at hchain hnode
  rw [← hhead]
  exact getThreadCountLoop_spec hchain hnode
    (by rw [hhead]; exact (List.nodup_cons.mp hnd).1) (by simp only [walkFuel]; omega)
    (by omega)

/-- **`get_thread_count` ends**, with the number of threads. -/
theorem TaskRing.getThreadCount (H : TaskRing k task0 created) :
    getThreadCount k = some (1 + created.length) :=
  getThreadCount_of_ring H.head H.ring H.nodup H.fits

end

end Antagonist
