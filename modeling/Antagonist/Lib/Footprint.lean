import Antagonist.Lib.Memory

/-!
# Footprints

The footprint of a routine is a list of regions, and the routine changes no byte outside of them.
Footprints add up along a sequence of routines.  What is read off some regions alone survives every
routine whose footprint is apart from them, so what each of several routines sets up holds at the
end, if no later one reaches into it.

* `ChangesOnly`: the bytes outside of the footprint stay.
* `ReadsOnly.keep`: the frame rule.
* `place`: arrays in their regions, read back by `bytes_place`.
-/

namespace Footprint

open ByteMem

/-- Consecutive bytes of memory. -/
structure Region where
  base : Nat
  size : Nat
  deriving DecidableEq

namespace Region

def Contains (r : Region) (x : Nat) : Prop := r.base ≤ x ∧ x < r.base + r.size

def Apart (r s : Region) : Prop := r.base + r.size ≤ s.base ∨ s.base + s.size ≤ r.base

instance (r s : Region) : Decidable (r.Apart s) := inferInstanceAs (Decidable (_ ∨ _))

instance (r : Region) (x : Nat) : Decidable (r.Contains x) := inferInstanceAs (Decidable (_ ∧ _))

def Inside (r s : Region) : Prop := s.base ≤ r.base ∧ r.base + r.size ≤ s.base + s.size

variable {r s : Region}

theorem Apart.symm (h : r.Apart s) : s.Apart r := Or.symm h

theorem Apart.not_contains (h : r.Apart s) {x : Nat} (hx : r.Contains x) : ¬ s.Contains x := by
  simp only [Apart, Contains] at *
  omega

end Region

def Covers (rs : List Region) (x : Nat) : Prop := ∃ r ∈ rs, r.Contains x

/-- No region of the one list meets one of the other. -/
def AllApart (rs ss : List Region) : Prop := ∀ r ∈ rs, ∀ s ∈ ss, r.Apart s

/-- Nothing outside of the regions is changed. -/
def ChangesOnly (rs : List Region) (m m' : Mem) : Prop := ∀ x < 2 ^ 32, ¬ Covers rs x → m' x = m x

def ReadsOnly (rs : List Region) (P : Mem → Prop) : Prop :=
  ∀ m m', (∀ x < 2 ^ 32, Covers rs x → m' x = m x) → P m → P m'

section

variable {rs ss : List Region} {m m' m'' : Mem}

theorem AllApart.symm (h : AllApart rs ss) : AllApart ss rs :=
  fun s hs r hr => (h r hr s hs).symm

theorem AllApart.not_covers (h : AllApart rs ss) {x : Nat} (hx : Covers rs x) : ¬ Covers ss x := by
  obtain ⟨r, hr, hrx⟩ := hx
  rintro ⟨s, hs, hsx⟩
  exact (h r hr s hs).not_contains hrx hsx

theorem AllApart.of_subset {ss' : List Region} (h : AllApart rs ss) (hsub : ss' ⊆ ss) :
    AllApart rs ss' := fun r hr s hs => h r hr s (hsub hs)

theorem AllApart.append {ss' : List Region} (h : AllApart rs ss) (h' : AllApart rs ss') :
    AllApart rs (ss ++ ss') := by
  intro r hr s hs
  rcases List.mem_append.mp hs with hs | hs
  · exact h r hr s hs
  · exact h' r hr s hs

theorem ChangesOnly.refl (rs : List Region) (m : Mem) : ChangesOnly rs m m := fun _ _ _ => rfl

/-- **Footprints add up.** -/
theorem ChangesOnly.trans (h : ChangesOnly rs m m') (h' : ChangesOnly ss m' m'') :
    ChangesOnly (rs ++ ss) m m'' := by
  intro x hlt hx
  have hrs : ¬ Covers rs x := fun ⟨r, hr, hrx⟩ => hx ⟨r, List.mem_append_left _ hr, hrx⟩
  have hss : ¬ Covers ss x := fun ⟨s, hs, hsx⟩ => hx ⟨s, List.mem_append_right _ hs, hsx⟩
  rw [h' x hlt hss, h x hlt hrs]

theorem ChangesOnly.mono (h : ChangesOnly rs m m') (hsub : ∀ r ∈ rs, ∃ s ∈ ss, r.Inside s) :
    ChangesOnly ss m m' := by
  intro x hlt hx
  refine h x hlt ?_
  rintro ⟨r, hr, hrx⟩
  obtain ⟨s, hs, hrs⟩ := hsub r hr
  refine hx ⟨s, hs, ?_⟩
  simp only [Region.Inside, Region.Contains] at *
  omega

theorem ChangesOnly.of_subset (h : ChangesOnly rs m m') (hsub : rs ⊆ ss) : ChangesOnly ss m m' :=
  fun x hlt hx => h x hlt fun ⟨r, hr, hrx⟩ => hx ⟨r, hsub hr, hrx⟩

theorem ChangesOnly.then (h : ChangesOnly rs m m') (h' : ChangesOnly rs m' m'') :
    ChangesOnly rs m m'' := by
  intro x hlt hx
  rw [h' x hlt hx, h x hlt hx]

/-- **The frame rule.** -/
theorem ReadsOnly.keep {P : Mem → Prop} (hP : ReadsOnly rs P) (h : ChangesOnly ss m m')
    (hapart : AllApart rs ss) (hm : P m) : P m' :=
  hP m m' (fun x hlt hx => h x hlt (hapart.not_covers hx)) hm

/-! ### Stores -/

theorem changesOnly_store8 (m : Mem) {a : Nat} (b : Byte) (ha : a < 2 ^ 32) :
    ChangesOnly [⟨a, 1⟩] m (store8 m a b) := by
  intro x _ hx
  refine store8_apply_ne m b ?_
  rintro rfl
  refine hx ⟨_, List.mem_singleton.mpr rfl, ?_⟩
  rw [Nat.mod_eq_of_lt ha]
  simp only [Region.Contains]
  omega

theorem changesOnly_store32 (m : Mem) {a : Nat} (v : Nat) (ha : a + 4 ≤ 2 ^ 32) :
    ChangesOnly [⟨a, 4⟩] m (store32 m a v) := by
  intro x hlt hx
  refine store32_apply_out m v ?_
  by_contra hoff
  refine hx ⟨_, List.mem_singleton.mpr rfl, ?_⟩
  simp only [Off, Region.Contains] at *
  omega

theorem changesOnly_fillBytes (m : Mem) {a n : Nat} (b : Byte) (ha : a + n ≤ 2 ^ 32) :
    ChangesOnly [⟨a, n⟩] m (fillBytes m a b n) := by
  intro x _ hx
  have hout : ¬ (a ≤ x ∧ x < a + n) := fun h => hx ⟨_, List.mem_singleton.mpr rfl, h⟩
  rw [fillBytes_apply m b ha, if_neg hout]

theorem changesOnly_fold {α : Type} {f : Mem → α → Mem} {l : List α}
    (h : ∀ m, ∀ a ∈ l, ChangesOnly rs m (f m a)) (m : Mem) : ChangesOnly rs m (l.foldl f m) := by
  induction l generalizing m with
  | nil => exact ChangesOnly.refl rs m
  | cons a l ih =>
    rw [List.foldl_cons]
    have hrest := ih (fun m b hb => h m b (List.mem_cons_of_mem _ hb)) (f m a)
    exact (h m a List.mem_cons_self).then hrest

/-! ### Arrays in their regions -/

/-- The bytes of a region, with zeros behind. -/
def Region.bytes (r : Region) (m : Mem) (i : Nat) : Byte := if i < r.size then m (r.base + i) else 0

/-- The memory with arrays put into regions, the first one on top. -/
def place (m : Mem) : List (Region × (Nat → Byte)) → Mem
  | [] => m
  | (r, f) :: image => fun x => if r.Contains x then f (x - r.base) else place m image x

variable {image : List (Region × (Nat → Byte))}

theorem Region.bytes_congr {r : Region} (h : ∀ x, r.Contains x → m' x = m x) :
    r.bytes m' = r.bytes m := by
  funext i
  unfold bytes
  by_cases hi : i < r.size
  · rw [if_pos hi, if_pos hi]
    exact h _ ⟨Nat.le_add_right _ _, Nat.add_lt_add_left hi _⟩
  · rw [if_neg hi, if_neg hi]

theorem place_cons (m : Mem) (p : Region × (Nat → Byte)) (x : Nat) : place m (p :: image) x =
    if p.1.Contains x then p.2 (x - p.1.base) else place m image x := rfl

theorem place_out {x : Nat} (h : ¬ Covers (image.map Prod.fst) x) : place m image x = m x := by
  induction image with
  | nil => rfl
  | cons p image ih =>
    have hhead : ¬ p.1.Contains x := fun hx => h ⟨p.1, List.mem_cons_self, hx⟩
    rw [place_cons, if_neg hhead]
    exact ih fun ⟨r, hr, hx⟩ => h ⟨r, List.mem_cons_of_mem _ hr, hx⟩

theorem place_covered {x : Nat} (h : Covers (image.map Prod.fst) x) :
    place m image x = place m' image x := by
  induction image with
  | nil =>
    obtain ⟨r, hr, -⟩ := h
    exact absurd hr List.not_mem_nil
  | cons p image ih =>
    rw [place_cons, place_cons]
    by_cases hx : p.1.Contains x
    · rw [if_pos hx, if_pos hx]
    · rw [if_neg hx, if_neg hx]
      refine ih ?_
      obtain ⟨r, hr, hrx⟩ := h
      rcases List.mem_cons.mp hr with rfl | hr
      · exact absurd hrx hx
      · exact ⟨r, hr, hrx⟩

/-- **Each array is in its region**, if the regions do not meet. -/
theorem place_in (hapart : (image.map Prod.fst).Pairwise Region.Apart) {r : Region}
    {f : Nat → Byte} (hmem : (r, f) ∈ image) {x : Nat} (hx : r.Contains x) :
    place m image x = f (x - r.base) := by
  induction image with
  | nil => exact absurd hmem List.not_mem_nil
  | cons p image ih =>
    rw [List.map_cons, List.pairwise_cons] at hapart
    rw [place_cons]
    rcases List.mem_cons.mp hmem with rfl | hmem
    · exact if_pos hx
    · have hhead : ¬ p.1.Contains x :=
        (hapart.1 r (List.mem_map_of_mem hmem)).symm.not_contains hx
      rw [if_neg hhead]
      exact ih hapart.2 hmem

theorem bytes_place (hapart : (image.map Prod.fst).Pairwise Region.Apart) {r : Region}
    {f : Nat → Byte} (hmem : (r, f) ∈ image) (hzero : ∀ i, r.size ≤ i → f i = 0) :
    r.bytes (place m image) = f := by
  funext i
  rw [Region.bytes]
  by_cases hi : i < r.size
  · rw [if_pos hi, place_in hapart hmem ⟨Nat.le_add_right _ _, Nat.add_lt_add_left hi _⟩,
      Nat.add_sub_cancel_left]
  · rw [if_neg hi, hzero i (not_lt.mp hi)]

theorem load32_place (hapart : (image.map Prod.fst).Pairwise Region.Apart) {r : Region} {v : Nat}
    (hmem : (r, byteOf v) ∈ image) (hsize : r.size = 4) (hr : r.base + 4 ≤ 2 ^ 32) :
    load32 (place m image) r.base = v % 2 ^ 32 := by
  rw [← load32_store32_mod m r.base v]
  refine load32_congr ?_
  intro i hi
  rw [load8_store32_in m r.base v hi, load8, Nat.mod_eq_of_lt (by omega),
    place_in hapart hmem ⟨by omega, by omega⟩, Nat.add_sub_cancel_left]

end

end Footprint
