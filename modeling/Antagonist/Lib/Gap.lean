import Antagonist.Lib.Tiling

/-!
# Gaps of a tiling

The bytes of a region that no used chunk covers, without looking at the free chunks.  Where no
two neighbours are free, the maximal runs of such bytes are the free chunks.

* `MaximalRun.eq_of_mem`: maximal runs that meet are the same.
* `maximalRun_freeByte_iff`: the gaps of a canonical tiling.
* `alloc_eq_none_iff_gaps`, `alloc_gap`: first fit, on the gaps.
-/

namespace Tiling

/-- The numbers from `lo` on, `len` of them, are a maximal run in `P`. -/
structure MaximalRun (P : Nat → Prop) (lo len : Nat) : Prop where
  pos : 0 < len
  inside : ∀ x, lo ≤ x → x < lo + len → P x
  before : lo = 0 ∨ ¬ P (lo - 1)
  after : ¬ P (lo + len)

section

variable {P : Nat → Prop} {lo len lo' len' x : Nat}

/-- Of two maximal runs that meet, neither starts below the other. -/
theorem MaximalRun.start_le (h : MaximalRun P lo len) (h' : MaximalRun P lo' len') (hx : x < lo + len)
    (hx' : lo' ≤ x) : lo' ≤ lo := by
  by_contra hlt
  rcases h'.before with hzero | hbefore
  · omega
  · exact hbefore (h.inside _ (by omega) (by omega))

theorem MaximalRun.eq_of_mem (h : MaximalRun P lo len) (h' : MaximalRun P lo' len') (h1 : lo ≤ x)
    (h2 : x < lo + len) (h1' : lo' ≤ x) (h2' : x < lo' + len') : lo = lo' ∧ len = len' := by
  have hstart : lo = lo' := le_antisymm (h'.start_le h h2' h1) (h.start_le h' h2 h1')
  subst hstart
  refine ⟨rfl, ?_⟩
  rcases Nat.lt_trichotomy len len' with hlt | heq | hgt
  · exact absurd (h'.inside _ (by omega) (by omega)) h.after
  · exact heq
  · exact absurd (h.inside _ (by omega) (by omega)) h'.after

end

variable {hdr lo hi x : Nat} {c d : Chunk} {cs : List Chunk}

/-- A byte of the region that no used chunk covers. -/
def FreeByte (hdr lo hi : Nat) (cs : List Chunk) (x : Nat) : Prop :=
  lo ≤ x ∧ x < hi ∧ ∀ c ∈ cs, c.free = false → ¬ (c.addr ≤ x ∧ x < c.stop hdr)

theorem Tiles.exists_covering (h : Tiles hdr lo cs hi) (h1 : lo ≤ x) (h2 : x < hi) :
    ∃ c ∈ cs, c.addr ≤ x ∧ x < c.stop hdr := by
  induction cs generalizing lo with
  | nil =>
    rw [tiles_nil] at h
    omega
  | cons c cs ih =>
    have hstart := h.1
    by_cases hx : x < c.stop hdr
    · exact ⟨c, List.mem_cons_self, by omega, hx⟩
    · obtain ⟨d, hd, hdx⟩ := ih h.2 (by omega)
      exact ⟨d, List.mem_cons_of_mem c hd, hdx⟩

/-- Chunks that touch are neighbours in the list, and not both free. -/
theorem Tiles.not_both_free (h : Tiles hdr lo cs hi) (hn : NoAdjacentFree cs) (hpos : 0 < hdr)
    (hc : c ∈ cs) (hd : d ∈ cs) (htouch : c.stop hdr = d.addr) : ¬ (c.free = true ∧ d.free = true) := by
  induction cs generalizing lo with
  | nil => exact absurd hc List.not_mem_nil
  | cons e cs ih =>
    have hdpos : c.addr < d.addr := by
      simp only [Chunk.stop] at htouch
      omega
    rcases List.mem_cons.mp hc with rfl | hc'
    · -- `d` is the first one behind `c`
      have hd' : d ∈ cs := (List.mem_cons.mp hd).resolve_left fun heq => by
        rw [heq] at hdpos
        exact lt_irrefl _ hdpos
      cases cs with
      | nil => exact absurd hd' List.not_mem_nil
      | cons f cs =>
        rw [eq_head_of_used h.2 hpos hd' htouch.symm]
        exact (List.isChain_cons_cons.mp hn).1
    · have hd' : d ∈ cs := (List.mem_cons.mp hd).resolve_left fun heq => by
        have hle := (h.2.bounds hc').1
        rw [heq] at hdpos
        simp only [Chunk.stop] at hle
        omega
      exact ih h.2 hn.tail hc' hd'

/-- **A free chunk of a canonical tiling is a maximal run of free bytes.** -/
theorem Tiles.maximalRun (h : Tiles hdr lo cs hi) (hn : NoAdjacentFree cs) (hpos : 0 < hdr)
    (hc : c ∈ cs) (hf : c.free = true) :
    MaximalRun (FreeByte hdr lo hi cs) c.addr (hdr + c.size) := by
  have hb := h.bounds hc
  -- what touches `c` is used
  have hused : ∀ e ∈ cs, c.stop hdr = e.addr ∨ e.stop hdr = c.addr → e.free = false := by
    intro e he htouch
    by_contra hfree
    rw [Bool.not_eq_false] at hfree
    rcases htouch with htouch | htouch
    · exact h.not_both_free hn hpos hc he htouch ⟨hf, hfree⟩
    · exact h.not_both_free hn hpos he hc htouch ⟨hfree, hf⟩
  simp only [Chunk.stop] at hb
  refine ⟨by omega, fun x h1 h2 => ⟨by omega, by omega, fun e he hu hin => ?_⟩, ?_, ?_⟩
  · rcases h.eq_or_apart hc he with rfl | hlt | hlt
    · rw [hf] at hu
      exact Bool.noConfusion hu
    · simp only [Chunk.stop] at hlt
      omega
    · omega
  · by_cases hzero : c.addr = 0
    · exact Or.inl hzero
    apply Or.inr
    rintro ⟨h1, h2, hfree⟩
    obtain ⟨e, he, hin⟩ := h.exists_covering h1 h2
    refine hfree e he (hused e he (Or.inr ?_)) hin
    rcases h.eq_or_apart hc he with rfl | hlt | hlt
    · omega
    · simp only [Chunk.stop] at hlt
      omega
    · omega
  · rintro ⟨h1, h2, hfree⟩
    obtain ⟨e, he, hin⟩ := h.exists_covering h1 h2
    refine hfree e he (hused e he (Or.inl ?_)) hin
    rcases h.eq_or_apart hc he with rfl | hlt | hlt
    · simp only [Chunk.stop] at hin
      omega
    · simp only [Chunk.stop] at hlt ⊢
      omega
    · omega

/-- **The gaps of a canonical tiling** are its free chunks. -/
theorem maximalRun_freeByte_iff (h : Tiles hdr lo cs hi) (hn : NoAdjacentFree cs) (hpos : 0 < hdr)
    {a len : Nat} : MaximalRun (FreeByte hdr lo hi cs) a len ↔
      ∃ c ∈ cs, c.free = true ∧ a = c.addr ∧ len = hdr + c.size := by
  refine ⟨?_, ?_⟩
  · intro hrun
    have hlen := hrun.pos
    obtain ⟨h1, h2, hfree⟩ := hrun.inside a (le_refl a) (by omega)
    obtain ⟨c, hc, hin⟩ := h.exists_covering h1 h2
    have hf : c.free = true := by
      by_contra hu
      exact hfree c hc ((Bool.not_eq_true c.free).mp hu) hin
    have hstop := hin.2
    simp only [Chunk.stop] at hstop
    obtain ⟨haddr, hsize⟩ :=
      hrun.eq_of_mem (h.maximalRun hn hpos hc hf) (le_refl a) (by omega) hin.1 (by omega)
    exact ⟨c, hc, hf, haddr, hsize⟩
  · rintro ⟨c, hc, hf, rfl, rfl⟩
    exact h.maximalRun hn hpos hc hf

/-! ### First fit on the gaps -/

variable {slack n a : Nat} {cs' : List Chunk}

/-- **First fit is complete.** -/
theorem alloc_eq_none_iff_gaps (slack n : Nat) (h : Tiles hdr lo cs hi) (hn : NoAdjacentFree cs)
    (hpos : 0 < hdr) :
    alloc hdr slack n cs = none ↔
      ∀ a len, MaximalRun (FreeByte hdr lo hi cs) a len → len < n + hdr := by
  simp only [maximalRun_freeByte_iff h hn hpos, alloc_eq_none]
  refine ⟨?_, ?_⟩
  · rintro hall a len ⟨c, hc, hf, rfl, rfl⟩
    have hlt := hall c hc hf
    omega
  · intro hall c hc hf
    have hlt := hall c.addr (hdr + c.size) ⟨c, hc, hf, rfl, rfl⟩
    omega

/-- **First fit takes the lowest gap that is long enough**, from its start. -/
theorem alloc_gap (h : Tiles hdr lo cs hi) (hn : NoAdjacentFree cs) (hpos : 0 < hdr)
    (hal : alloc hdr slack n cs = some (a, cs')) :
    ∃ len, MaximalRun (FreeByte hdr lo hi cs) a len ∧ n + hdr ≤ len ∧
      (∀ b k, MaximalRun (FreeByte hdr lo hi cs) b k → n + hdr ≤ k → a ≤ b) ∧
      (⟨a, if len < n + hdr + (hdr + slack) then len - hdr else n, false⟩ : Chunk) ∈ cs' := by
  obtain ⟨pre, c, post, hcs, hf, hsize, rfl, rfl, hpre⟩ := alloc_eq_some hal
  have hc : c ∈ cs := by
    rw [hcs]
    exact List.mem_append_right _ List.mem_cons_self
  refine ⟨hdr + c.size, h.maximalRun hn hpos hc hf, by omega, fun b k hrun hk => ?_, ?_⟩
  · obtain ⟨d, hd, hdf, rfl, rfl⟩ := (maximalRun_freeByte_iff h hn hpos).mp hrun
    rw [hcs] at hd h
    rcases List.mem_append.mp hd with hd | hd
    · have hlt := hpre d hd hdf
      omega
    · rcases List.mem_cons.mp hd with rfl | hd
      · exact le_refl _
      · obtain ⟨mid, -, htail⟩ := tiles_append.mp h
        have hle := (htail.2.bounds hd).1
        simp only [Chunk.stop] at hle
        omega
  · refine List.mem_append_right _ (List.mem_append_left _ ?_)
    rw [place]
    by_cases hsplit : n + hdr + slack ≤ c.size
    · rw [if_pos hsplit, if_neg (by omega)]
      exact List.mem_cons_self
    · have hwhole : hdr + c.size - hdr = c.size := by omega
      rw [if_neg hsplit, if_pos (by omega), hwhole]
      exact List.mem_cons_self

end Tiling
