import Antagonist.Lib.Memory

/-!
# Two-level paging

The 32-bit walk without PAE: ten bits of the address index the directory, ten
the table, twelve are the offset.  Bit 0 of an entry says present, bit 1
writable, bit 2 user.

* `walk`: the walk over tables in memory.
* `frame_entry`, `present_entry`, `writable_entry`, `user_entry`: an entry made by
  or-ing flags into the address of a frame.
* `IdentityMap.walk_eq`: one table that maps the first 4 MiB to themselves.
-/

namespace Paging

open ByteMem

def present (e : Nat) : Bool := e.testBit 0
def writable (e : Nat) : Bool := e.testBit 1
def user (e : Nat) : Bool := e.testBit 2

def frame (e : Nat) : Nat := e / 4096 * 4096

/-- Where an address leads, and what both levels permit. -/
structure Translation where
  physical : Nat
  writable : Bool
  user : Bool
  deriving DecidableEq

/-- The walk through the directory at `pd`; `none` is a fault for any access. -/
def walk (m : Mem) (pd v : Nat) : Option Translation :=
  let pde := load32 m (pd + 4 * (v / 4194304))
  if present pde then
    let pte := load32 m (frame pde + 4 * (v / 4096 % 1024))
    if present pte then
      some ⟨frame pte + v % 4096, writable pde && writable pte, user pde && user pte⟩
    else none
  else none

/-! ### Entries -/

section

variable {a f : Nat}

theorem entry_eq_add (ha : a % 4096 = 0) (hf : f < 4096) : a ||| f = a + f := by
  have h := Nat.two_pow_add_eq_or_of_lt (i := 12) hf (a / 4096)
  have hmul : 2 ^ 12 * (a / 4096) = a := by omega
  rw [hmul] at h
  exact h.symm

theorem frame_entry (ha : a % 4096 = 0) (hf : f < 4096) : frame (a ||| f) = a := by
  rw [entry_eq_add ha hf, frame]
  omega

theorem testBit_entry (ha : a % 4096 = 0) (hf : f < 4096) {k : Nat} (hk : k < 12) :
    (a ||| f).testBit k = f.testBit k := by
  have hmod : (a ||| f) % 2 ^ 12 = f := by
    rw [entry_eq_add ha hf]
    omega
  have h := Nat.testBit_mod_two_pow (a ||| f) 12 k
  rw [hmod, decide_eq_true hk, Bool.true_and] at h
  exact h.symm

theorem present_entry (ha : a % 4096 = 0) (hf : f < 4096) : present (a ||| f) = present f :=
  testBit_entry ha hf (by decide)

theorem writable_entry (ha : a % 4096 = 0) (hf : f < 4096) : writable (a ||| f) = writable f :=
  testBit_entry ha hf (by decide)

theorem user_entry (ha : a % 4096 = 0) (hf : f < 4096) : user (a ||| f) = user f :=
  testBit_entry ha hf (by decide)

end

/-! ### The identity on the first 4 MiB -/

/-- The table maps its 1024 pages to themselves, and the directory has only this
table.  Both levels carry the same flags. -/
structure IdentityMap (m : Mem) (pd table flags : Nat) : Prop where
  slot : load32 m pd = table ||| flags
  others : ∀ i, 0 < i → i < 1024 → present (load32 m (pd + 4 * i)) = false
  pages : ∀ i < 1024, load32 m (table + 4 * i) = i * 4096 ||| flags
  table_aligned : table % 4096 = 0
  flags_lt : flags < 4096
  flags_present : present flags = true

theorem IdentityMap.frame {m m' : Mem} {pd table flags : Nat} (H : IdentityMap m pd table flags)
    (hpd : pd + 4096 ≤ 2 ^ 32) (ht : table + 4096 ≤ 2 ^ 32)
    (hm : ∀ x, pd ≤ x ∧ x < pd + 4096 ∨ table ≤ x ∧ x < table + 4096 → m' x = m x) :
    IdentityMap m' pd table flags := by
  have hword : ∀ a, (pd ≤ a ∧ a + 4 ≤ pd + 4096 ∨ table ≤ a ∧ a + 4 ≤ table + 4096) →
      load32 m' a = load32 m a :=
    fun a ha => load32_of_bytes (by omega) fun x _ _ => hm x (by omega)
  refine ⟨?_, ?_, ?_, H.table_aligned, H.flags_lt, H.flags_present⟩
  · rw [hword pd (by omega), H.slot]
  · intro i h0 hi
    rw [hword _ (by omega), H.others i h0 hi]
  · intro i hi
    rw [hword _ (by omega), H.pages i hi]

/-- **The walk is the identity below 4 MiB**, and faults above. -/
theorem IdentityMap.walk_eq {m : Mem} {pd table flags : Nat} (H : IdentityMap m pd table flags)
    {v : Nat} (hv : v < 2 ^ 32) : walk m pd v =
      if v < 4194304 then some ⟨v, writable flags, user flags⟩ else none := by
  by_cases hlow : v < 4194304
  · have hslot : pd + 4 * (v / 4194304) = pd := by omega
    have hpage : v / 4096 % 1024 * 4096 % 4096 = 0 := by omega
    have hphys : v / 4096 % 1024 * 4096 + v % 4096 = v := by omega
    rw [if_pos hlow, walk, hslot, H.slot, frame_entry H.table_aligned H.flags_lt,
      H.pages _ (Nat.mod_lt _ (by decide))]
    simp only
    rw [frame_entry hpage H.flags_lt, hphys,
      present_entry H.table_aligned H.flags_lt, writable_entry H.table_aligned H.flags_lt,
      user_entry H.table_aligned H.flags_lt, present_entry hpage H.flags_lt,
      writable_entry hpage H.flags_lt, user_entry hpage H.flags_lt, if_pos H.flags_present,
      if_pos H.flags_present, Bool.and_self, Bool.and_self]
  · rw [if_neg hlow, walk, H.others _ (by omega) (by omega)]
    rfl

end Paging
