import Mathlib.Data.List.Chain
import Mathlib.Tactic.Common

/-!
# Lists of chunks that tile a region

A region is cut into chunks, each a header of `hdr` bytes followed by its data;
a chunk is free or used.  This file is the abstract side of a boundary-tag
allocator:

* `Tiles lo cs hi`: the chunks `cs` lie end to end from `lo` to `hi`.
* `alloc`: first fit, splitting the chunk when enough is left over.
* `setFree`, `coalesce`: give a chunk back, and merge runs of free chunks.
* `NoAdjacentFree`: no two neighbours are both free.
* `canonical_unique`: **the used chunks determine the list**, when no two
  neighbours are free.
-/

namespace Tiling

/-- A chunk: where its header starts, how many data bytes follow, and whether
it is free. -/
structure Chunk where
  addr : Nat
  size : Nat
  free : Bool
deriving DecidableEq

section

variable (hdr : Nat)

def Chunk.stop (c : Chunk) : Nat := c.addr + hdr + c.size

def Chunk.InHeader (c : Chunk) (x : Nat) : Prop := c.addr ≤ x ∧ x < c.addr + hdr

def Chunk.InData (c : Chunk) (x : Nat) : Prop := c.addr + hdr ≤ x ∧ x < c.stop hdr

/-- The chunks lie end to end from `lo` to `hi`. -/
def Tiles : Nat → List Chunk → Nat → Prop
  | lo, [], hi => lo = hi
  | lo, c :: cs, hi => c.addr = lo ∧ Tiles (c.stop hdr) cs hi

end

def NoAdjacentFree (cs : List Chunk) : Prop :=
  cs.IsChain fun c d => ¬ (c.free = true ∧ d.free = true)

variable {hdr lo mid hi : Nat} {c d : Chunk} {cs ds : List Chunk}

/-! ### Tilings -/

@[simp] theorem tiles_nil : Tiles hdr lo [] hi ↔ lo = hi := Iff.rfl

@[simp] theorem tiles_cons :
    Tiles hdr lo (c :: cs) hi ↔ c.addr = lo ∧ Tiles hdr (c.stop hdr) cs hi := Iff.rfl

theorem tiles_append : Tiles hdr lo (cs ++ ds) hi ↔
    ∃ mid, Tiles hdr lo cs mid ∧ Tiles hdr mid ds hi := by
  induction cs generalizing lo with
  | nil => simp
  | cons c cs ih =>
    simp only [List.cons_append, tiles_cons, ih]
    refine ⟨?_, ?_⟩
    · rintro ⟨h, mid, h1, h2⟩; exact ⟨mid, ⟨h, h1⟩, h2⟩
    · rintro ⟨mid, ⟨h, h1⟩, h2⟩; exact ⟨h, mid, h1, h2⟩

theorem Tiles.le (h : Tiles hdr lo cs hi) : lo ≤ hi := by
  induction cs generalizing lo with
  | nil => exact Nat.le_of_eq h
  | cons c cs ih =>
    have := ih h.2
    simp only [tiles_cons, Chunk.stop] at h this
    omega

theorem Tiles.bounds (h : Tiles hdr lo cs hi) (hc : c ∈ cs) : lo ≤ c.addr ∧ c.stop hdr ≤ hi := by
  induction cs generalizing lo with
  | nil => simp at hc
  | cons d cs ih =>
    rcases List.mem_cons.mp hc with rfl | hm
    · exact ⟨Nat.le_of_eq h.1.symm, h.2.le⟩
    · have hb := ih h.2 hm
      have := h.1
      simp only [Chunk.stop] at hb
      exact ⟨by omega, hb.2⟩

theorem Tiles.pairwise (h : Tiles hdr lo cs hi) :
    cs.Pairwise fun c d => c.stop hdr ≤ d.addr := by
  induction cs generalizing lo with
  | nil => exact .nil
  | cons c cs ih => exact List.pairwise_cons.mpr ⟨fun d hd => (h.2.bounds hd).1, ih h.2⟩

theorem Tiles.length_mul_le (h : Tiles hdr lo cs hi) : lo + cs.length * hdr ≤ hi := by
  induction cs generalizing lo with
  | nil => simpa using h.le
  | cons c cs ih =>
    have h1 := ih h.2
    have h2 := h.1
    simp only [Chunk.stop] at h1
    rw [List.length_cons, Nat.succ_mul]
    omega

theorem Tiles.eq_or_apart (h : Tiles hdr lo cs hi) (hc : c ∈ cs) (hd : d ∈ cs) :
    c = d ∨ c.stop hdr ≤ d.addr ∨ d.stop hdr ≤ c.addr := by
  induction cs generalizing lo with
  | nil => simp at hc
  | cons e cs ih =>
    rcases List.mem_cons.mp hc with rfl | hc'
    · rcases List.mem_cons.mp hd with rfl | hd'
      · exact Or.inl rfl
      · exact Or.inr (Or.inl (h.2.bounds hd').1)
    · rcases List.mem_cons.mp hd with rfl | hd'
      · exact Or.inr (Or.inr (h.2.bounds hc').1)
      · exact ih h.2 hc' hd'

/-- In a tiling with non-empty headers a chunk is known by its address. -/
theorem Tiles.eq_of_addr (h : Tiles hdr lo cs hi) (hpos : 0 < hdr) (hc : c ∈ cs) (hd : d ∈ cs)
    (he : c.addr = d.addr) : c = d := by
  rcases h.eq_or_apart hc hd with h' | h' | h'
  · exact h'
  · simp only [Chunk.stop] at h'; omega
  · simp only [Chunk.stop] at h'; omega

/-- Where one tiling begins with a free chunk, another one with the same used
chunks has no more room than that. -/
theorem stop_le_of_free (hcs : Tiles hdr lo (c :: cs) hi) (hds : Tiles hdr lo (d :: ds) hi)
    (hncs : NoAdjacentFree (c :: cs)) (hcf : c.free = true) (hdf : d.free = true)
    (hused : ∀ x : Chunk, x.free = false → x ∈ c :: cs → x ∈ d :: ds) :
    d.stop hdr ≤ c.stop hdr := by
  cases cs with
  | nil =>
    have hend : c.stop hdr = hi := hcs.2
    rw [hend]
    exact hds.2.le
  | cons c' cs =>
    -- the chunk behind `c` is used, so it stands behind `d` too
    have hc' : c'.free = false := by
      have hadj := (List.isChain_cons_cons.mp hncs).1
      simpa [hcf] using hadj
    have hmem := hused c' hc' (List.mem_cons_of_mem c List.mem_cons_self)
    have hne : c' ≠ d := by
      intro he
      rw [he, hdf] at hc'
      cases hc'
    have hle := (hds.2.bounds ((List.mem_cons.mp hmem).resolve_left hne)).1
    have hstart : c'.addr = c.stop hdr := hcs.2.1
    omega

/-- A used chunk that starts where a tiling starts is its first chunk. -/
theorem eq_head_of_used (hcs : Tiles hdr lo (c :: cs) hi) (hpos : 0 < hdr) (hd : d ∈ c :: cs)
    (hda : d.addr = lo) : d = c := by
  refine (List.mem_cons.mp hd).resolve_right ?_
  intro hm
  have hle := (hcs.2.bounds hm).1
  have hstart := hcs.1
  simp only [Chunk.stop] at hle
  omega

/-- Canonical tilings with the same used chunks begin with the same chunk. -/
theorem head_unique (hpos : 0 < hdr) (hcs : Tiles hdr lo (c :: cs) hi)
    (hds : Tiles hdr lo (d :: ds) hi) (hncs : NoAdjacentFree (c :: cs))
    (hnds : NoAdjacentFree (d :: ds))
    (hused : ∀ x : Chunk, x.free = false → (x ∈ c :: cs ↔ x ∈ d :: ds)) : c = d := by
  rcases Bool.eq_false_or_eq_true c.free with hcf | hcf
  · rcases Bool.eq_false_or_eq_true d.free with hdf | hdf
    · have h1 := stop_le_of_free hcs hds hncs hcf hdf fun x hx => (hused x hx).mp
      have h2 := stop_le_of_free hds hcs hnds hdf hcf fun x hx => (hused x hx).mpr
      have hca := hcs.1
      have hda := hds.1
      simp only [Chunk.stop] at h1 h2
      have haddr : c.addr = d.addr := by omega
      have hsize : c.size = d.size := by omega
      cases c
      cases d
      simp_all
    · exact (eq_head_of_used hcs hpos ((hused d hdf).mpr List.mem_cons_self) hds.1).symm
  · exact eq_head_of_used hds hpos ((hused c hcf).mp List.mem_cons_self) hcs.1

/-- **Canonical tilings are determined by their used chunks.** -/
theorem canonical_unique (hpos : 0 < hdr) : ∀ {cs ds : List Chunk} {lo : Nat},
    Tiles hdr lo cs hi → Tiles hdr lo ds hi → NoAdjacentFree cs → NoAdjacentFree ds →
    (∀ x : Chunk, x.free = false → (x ∈ cs ↔ x ∈ ds)) → cs = ds := by
  intro cs
  induction cs with
  | nil =>
    intro ds lo hcs hds _ _ _
    cases ds with
    | nil => rfl
    | cons d ds =>
      have h1 := hds.2.le
      have h2 := hds.1
      simp only [tiles_nil, Chunk.stop] at hcs h1
      omega
  | cons c cs ih =>
    intro ds lo hcs hds hncs hnds hused
    cases ds with
    | nil =>
      have h1 := hcs.2.le
      have h2 := hcs.1
      simp only [tiles_nil, Chunk.stop] at hds h1
      omega
    | cons d ds =>
      obtain rfl := head_unique hpos hcs hds hncs hnds hused
      rw [ih hcs.2 hds.2 hncs.tail hnds.tail]
      intro x hx
      have hstrict : ∀ {es : List Chunk}, Tiles hdr (c.stop hdr) es hi → x ∈ es → x ≠ c := by
        intro es hes hm he
        have hle := (hes.bounds hm).1
        rw [he] at hle
        simp only [Chunk.stop] at hle
        omega
      refine ⟨?_, ?_⟩
      · intro hm
        have hmem := (hused x hx).mp (List.mem_cons_of_mem c hm)
        exact (List.mem_cons.mp hmem).resolve_left (hstrict hcs.2 hm)
      · intro hm
        have hmem := (hused x hx).mpr (List.mem_cons_of_mem c hm)
        exact (List.mem_cons.mp hmem).resolve_left (hstrict hds.2 hm)

/-! ### First fit -/

section

variable (hdr) (slack : Nat)

/-- Taking `n` bytes of a chunk.  It is split when a header and `slack` more
bytes are left over, and taken whole otherwise. -/
def place (n : Nat) (c : Chunk) : List Chunk :=
  if n + hdr + slack ≤ c.size then
    [⟨c.addr, n, false⟩, ⟨c.addr + hdr + n, c.size - n - hdr, true⟩]
  else [{ c with free := false }]

/-- First fit: the address of the chunk taken, and the list after it. -/
def alloc (n : Nat) : List Chunk → Option (Nat × List Chunk)
  | [] => none
  | c :: cs =>
      if c.free = true ∧ n ≤ c.size then some (c.addr, place hdr slack n c ++ cs)
      else (alloc n cs).map fun r => (r.1, c :: r.2)

end

variable {slack n a : Nat} {cs' : List Chunk}

theorem alloc_eq_none : alloc hdr slack n cs = none ↔ ∀ c ∈ cs, c.free = true → c.size < n := by
  induction cs with
  | nil => simp [alloc]
  | cons c cs ih =>
    rw [alloc]
    split
    · rename_i h
      simp only [reduceCtorEq, List.mem_cons, forall_eq_or_imp, false_iff, not_and]
      intro h'
      exact absurd (h' h.1) (by omega)
    · rename_i h
      simp only [Option.map_eq_none_iff, ih, List.mem_cons, forall_eq_or_imp]
      refine ⟨?_, ?_⟩
      · intro h'
        refine ⟨?_, h'⟩
        intro hf
        by_contra hn
        exact h ⟨hf, by omega⟩
      · exact fun h' => h'.2

/-- **First fit takes the first chunk that fits.** -/
theorem alloc_eq_some (h : alloc hdr slack n cs = some (a, cs')) :
    ∃ pre c post, cs = pre ++ c :: post ∧ c.free = true ∧ n ≤ c.size ∧ a = c.addr ∧
      cs' = pre ++ (place hdr slack n c ++ post) ∧ ∀ d ∈ pre, d.free = true → d.size < n := by
  induction cs generalizing cs' with
  | nil => simp [alloc] at h
  | cons c cs ih =>
    rw [alloc] at h
    split at h
    · rename_i hc
      simp only [Option.some.injEq, Prod.mk.injEq] at h
      exact ⟨[], c, cs, rfl, hc.1, hc.2, h.1.symm, h.2.symm, by simp⟩
    · rename_i hc
      simp only [Option.map_eq_some_iff, Prod.mk.injEq] at h
      obtain ⟨⟨a', ds⟩, hds, ha, rfl⟩ := h
      simp only at ha
      subst ha
      obtain ⟨pre, e, post, rfl, he, hn, rfl, rfl, hpre⟩ := ih hds
      refine ⟨c :: pre, e, post, rfl, he, hn, rfl, rfl, ?_⟩
      intro d hd hf
      rcases List.mem_cons.mp hd with rfl | hm
      · by_contra hlt
        exact hc ⟨hf, by omega⟩
      · exact hpre d hm hf

theorem alloc_of_first {pre post : List Chunk} (hc : c.free = true) (hn : n ≤ c.size)
    (hpre : ∀ d ∈ pre, d.free = true → d.size < n) : alloc hdr slack n (pre ++ c :: post)
      = some (c.addr, pre ++ (place hdr slack n c ++ post)) := by
  induction pre with
  | nil => exact if_pos ⟨hc, hn⟩
  | cons d pre ih =>
    have hd : ¬ (d.free = true ∧ n ≤ d.size) := by
      intro h
      have := hpre d List.mem_cons_self h.1
      omega
    rw [List.cons_append, alloc, if_neg hd, ih fun e he => hpre e (List.mem_cons_of_mem d he)]
    rfl

/-- Room for `n` bytes and then for `k` more: first fit takes the chunk `c` for the
`n` bytes, and either its remainder has the `k` bytes or another chunk does. -/
def RoomFor (hdr n k : Nat) (cs : List Chunk) : Prop :=
  ∃ pre c post, cs = pre ++ c :: post ∧ c.free = true ∧ n ≤ c.size ∧
    (∀ d ∈ pre, d.free = true → d.size < n) ∧
    (n + hdr + k ≤ c.size ∨ ∃ d ∈ pre ++ post, d.free = true ∧ k ≤ d.size)

/-- **Two requests are met** exactly when there is room for both. -/
theorem roomFor_iff {k : Nat} (hk : slack ≤ k) : RoomFor hdr n k cs ↔
    ∃ a cs', alloc hdr slack n cs = some (a, cs') ∧ alloc hdr slack k cs' ≠ none := by
  have hmet : ∀ ds, alloc hdr slack k ds ≠ none ↔ ∃ d ∈ ds, d.free = true ∧ k ≤ d.size := by
    intro ds
    rw [Ne, alloc_eq_none]
    simp only [not_forall, not_lt, exists_prop]
  refine ⟨?_, ?_⟩
  · rintro ⟨pre, c, post, rfl, hc, hn, hpre, hroom⟩
    refine ⟨_, _, alloc_of_first hc hn hpre, (hmet _).mpr ?_⟩
    rcases hroom with hsize | ⟨d, hd, hf, hsize⟩
    · refine ⟨⟨c.addr + hdr + n, c.size - n - hdr, true⟩, ?_, rfl, by simp only; omega⟩
      simp [place, if_pos (show n + hdr + slack ≤ c.size by omega)]
    · refine ⟨d, ?_, hf, hsize⟩
      rcases List.mem_append.mp hd with hd | hd
      · exact List.mem_append_left _ hd
      · exact List.mem_append_right _ (List.mem_append_right _ hd)
  · rintro ⟨a, cs', hal, hk'⟩
    obtain ⟨pre, c, post, rfl, hc, hn, _, rfl, hpre⟩ := alloc_eq_some hal
    obtain ⟨d, hd, hf, hsize⟩ := (hmet _).mp hk'
    refine ⟨pre, c, post, rfl, hc, hn, hpre, ?_⟩
    rcases List.mem_append.mp hd with hd | hd
    · exact Or.inr ⟨d, List.mem_append_left _ hd, hf, hsize⟩
    rcases List.mem_append.mp hd with hd | hd
    · rw [place] at hd
      split at hd
      · -- of the two halves only the remainder is free
        simp only [List.mem_cons, List.not_mem_nil, or_false] at hd
        rcases hd with rfl | rfl
        · exact Bool.noConfusion hf
        · simp only at hsize
          exact Or.inl (by omega)
      · rw [List.mem_singleton.mp hd] at hf
        exact Bool.noConfusion hf
    · exact Or.inr ⟨d, List.mem_append_right _ hd, hf, hsize⟩

theorem tiles_place (h : c.addr = lo) :
    Tiles hdr lo (place hdr slack n c) (c.stop hdr) := by
  rw [place]
  split
  · simp only [tiles_cons, tiles_nil, Chunk.stop]
    exact ⟨h, trivial, by omega⟩
  · exact ⟨h, rfl⟩

theorem Tiles.alloc (ht : Tiles hdr lo cs hi) (h : alloc hdr slack n cs = some (a, cs')) :
    Tiles hdr lo cs' hi := by
  obtain ⟨pre, c, post, rfl, _, _, _, rfl, _⟩ := alloc_eq_some h
  obtain ⟨mid, h1, h2⟩ := tiles_append.mp ht
  exact tiles_append.mpr ⟨mid, h1, tiles_append.mpr ⟨_, tiles_place h2.1, h2.2⟩⟩

theorem alloc_mem (h : Tiling.alloc hdr slack n cs = some (a, cs')) :
    ∃ s, n ≤ s ∧ (⟨a, s, false⟩ : Chunk) ∈ cs' := by
  obtain ⟨pre, c, post, rfl, _, hn, rfl, rfl, _⟩ := alloc_eq_some h
  by_cases hs : n + hdr + slack ≤ c.size
  · exact ⟨n, Nat.le_refl n, by simp [place, hs]⟩
  · exact ⟨c.size, hn, by simp [place, hs]⟩

/-- The used chunk that is left of a chunk taken lies where that one did. -/
theorem addr_of_mem_place (h : d ∈ place hdr slack n c) (hd : d.free = false) :
    d.addr = c.addr := by
  rw [place] at h
  split at h
  · rcases List.mem_cons.mp h with rfl | h
    · rfl
    · rw [List.mem_singleton.mp h] at hd
      exact Bool.noConfusion hd
  · rw [List.mem_singleton.mp h]

/-- First fit keeps every used chunk and adds the one it took. -/
theorem mem_alloc_used (h : Tiling.alloc hdr slack n cs = some (a, cs')) (hx : d.free = false) :
    d ∈ cs' ↔ d ∈ cs ∨ (d.addr = a ∧ d ∈ cs') := by
  obtain ⟨pre, c, post, rfl, hc, hn, rfl, rfl, _⟩ := alloc_eq_some h
  simp only [List.mem_append, List.mem_cons]
  refine ⟨?_, ?_⟩
  · rintro (h1 | h1 | h1)
    · exact Or.inl (Or.inl h1)
    · exact Or.inr ⟨addr_of_mem_place h1 hx, Or.inr (Or.inl h1)⟩
    · exact Or.inl (Or.inr (Or.inr h1))
  · rintro ((h1 | rfl | h1) | ⟨_, h1⟩)
    · exact Or.inl h1
    · rw [hc] at hx
      exact Bool.noConfusion hx
    · exact Or.inr (Or.inr h1)
    · exact h1

/-- A split leaves its free remainder next to a used chunk on either side. -/
theorem NoAdjacentFree.alloc (hn : NoAdjacentFree cs)
    (h : Tiling.alloc hdr slack n cs = some (a, cs')) : NoAdjacentFree cs' := by
  obtain ⟨pre, c, post, rfl, hc, _, rfl, rfl, _⟩ := alloc_eq_some h
  simp only [NoAdjacentFree, List.isChain_append] at hn ⊢
  obtain ⟨hpre, hpost, hlast⟩ := hn
  have hhead : ∀ d ∈ post.head?, d.free = false := by
    intro d hd
    cases post with
    | nil => simp at hd
    | cons e es =>
      have := (List.isChain_cons_cons.mp hpost).1
      simp_all
  by_cases hs : n + hdr + slack ≤ c.size
  · simp only [place, if_pos hs]
    refine ⟨hpre, ⟨by simp, hpost.tail, ?_⟩, ?_⟩
    · intro x hx y hy
      simp [hhead y hy]
    · intro x hx y hy
      simp_all
  · simp only [place, if_neg hs]
    refine ⟨hpre, ⟨by simp, hpost.tail, ?_⟩, ?_⟩
    · intro x hx y hy
      simp [hhead y hy]
    · intro x hx y hy
      simp_all

/-! ### Giving a chunk back -/

def setFree (a : Nat) (cs : List Chunk) : List Chunk :=
  cs.map fun c => if c.addr = a then { c with free := true } else c

/-- One pass over the list, merging a free chunk with the free chunks that
follow it.  `c` is the chunk the pass stands on. -/
def mergeFrom (hdr : Nat) : Chunk → List Chunk → List Chunk
  | c, [] => [c]
  | c, d :: ds =>
      if c.free = true ∧ d.free = true then
        mergeFrom hdr { c with size := c.size + hdr + d.size } ds
      else c :: mergeFrom hdr d ds

def coalesce (hdr : Nat) : List Chunk → List Chunk
  | [] => []
  | c :: cs => mergeFrom hdr c cs

theorem setFree_eq_self {a : Nat} (h : ∀ c ∈ cs, c.addr ≠ a) : setFree a cs = cs := by
  rw [setFree]
  conv_rhs => rw [← List.map_id cs]
  refine List.map_congr_left ?_
  intro c hc
  rw [if_neg (h c hc)]
  rfl

theorem tiles_setFree (h : Tiles hdr lo cs hi) : Tiles hdr lo (setFree a cs) hi := by
  induction cs generalizing lo with
  | nil => exact h
  | cons c cs ih =>
    have h2 := ih h.2
    simp only [setFree, List.map_cons] at h2 ⊢
    split
    · exact ⟨h.1, h2⟩
    · exact ⟨h.1, h2⟩

theorem mem_setFree_used (hd : d.free = false) :
    d ∈ setFree a cs ↔ d ∈ cs ∧ d.addr ≠ a := by
  simp only [setFree, List.mem_map]
  refine ⟨?_, ?_⟩
  · rintro ⟨c, hc, rfl⟩
    split at hd
    · simp at hd
    · rename_i hne
      rw [if_neg hne]
      exact ⟨hc, hne⟩
  · rintro ⟨hm, hne⟩
    exact ⟨d, hm, if_neg hne⟩

theorem Tiles.merge (h : Tiles hdr lo (c :: d :: cs) hi) :
    Tiles hdr lo ({ c with size := c.size + hdr + d.size } :: cs) hi := by
  have hcd := h.2.1
  have hstop : ({ c with size := c.size + hdr + d.size } : Chunk).stop hdr = d.stop hdr := by
    simp only [Chunk.stop] at hcd ⊢
    omega
  refine ⟨h.1, ?_⟩
  rw [hstop]
  exact h.2.2

theorem tiles_mergeFrom (h : Tiles hdr lo (c :: cs) hi) : Tiles hdr lo (mergeFrom hdr c cs) hi := by
  induction cs generalizing c lo with
  | nil => exact h
  | cons d ds ih =>
    rw [mergeFrom]
    split
    · exact ih h.merge
    · exact ⟨h.1, ih h.2⟩

theorem Tiles.coalesce (h : Tiles hdr lo cs hi) : Tiles hdr lo (coalesce hdr cs) hi := by
  cases cs with
  | nil => exact h
  | cons c cs => exact tiles_mergeFrom h

theorem head_mergeFrom (hdr : Nat) (c : Chunk) (cs : List Chunk) :
    ∃ x xs, mergeFrom hdr c cs = x :: xs ∧ x.free = c.free := by
  induction cs generalizing c with
  | nil => exact ⟨c, [], rfl, rfl⟩
  | cons d ds ih =>
    rw [mergeFrom]
    split
    · exact ih _
    · exact ⟨c, _, rfl, rfl⟩

theorem noAdjacentFree_mergeFrom : NoAdjacentFree (mergeFrom hdr c cs) := by
  induction cs generalizing c with
  | nil => exact List.isChain_singleton c
  | cons d ds ih =>
    rw [mergeFrom]
    split
    · exact ih
    · rename_i hcd
      obtain ⟨x, xs, hx, hf⟩ := head_mergeFrom hdr d ds
      have htail := ih (c := d)
      rw [NoAdjacentFree, hx] at htail
      rw [NoAdjacentFree, hx, List.isChain_cons_cons, hf]
      exact ⟨hcd, htail⟩

/-- **After the merging pass no two neighbours are free.** -/
theorem noAdjacentFree_coalesce : NoAdjacentFree (coalesce hdr cs) := by
  cases cs with
  | nil => exact List.isChain_nil
  | cons c cs => exact noAdjacentFree_mergeFrom

theorem mem_mergeFrom_used (hd : d.free = false) : d ∈ mergeFrom hdr c cs ↔ d ∈ c :: cs := by
  induction cs generalizing c with
  | nil => rfl
  | cons e es ih =>
    rw [mergeFrom]
    split
    · rename_i hce
      rw [ih, List.mem_cons, List.mem_cons, List.mem_cons]
      refine ⟨?_, ?_⟩
      · rintro (rfl | h)
        · simp [hce.1] at hd
        · exact Or.inr (Or.inr h)
      · rintro (rfl | rfl | h)
        · simp [hce.1] at hd
        · simp [hce.2] at hd
        · exact Or.inr h
    · rw [List.mem_cons, ih, List.mem_cons (b := c)]

theorem mem_coalesce_used (hd : d.free = false) : d ∈ coalesce hdr cs ↔ d ∈ cs := by
  cases cs with
  | nil => rfl
  | cons c cs => exact mem_mergeFrom_used hd

end Tiling
