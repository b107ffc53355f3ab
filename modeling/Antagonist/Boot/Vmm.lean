import Antagonist.Boot.Image
import Antagonist.Heap.Contract
import Antagonist.Lib.Paging

/-!
# The page directories

`init_vmm` of `kernel/vmm.cpp` builds two directories, one for the kernel and
one for user programs.  Each has a single table, and both tables map the first
4 MiB to themselves (`identityMap_buildMap`).  The second one lets ring 3 in
(`walk_user`), the first one does not (`walk_kernel`).

The kernel image and the kernel heap lie in those 4 MiB, so a user program
reaches every byte of them.
-/

namespace Antagonist

open ByteMem Paging

structure VmmArrays where
  pageDirectory : Nat
  firstPageTable : Nat
  userPageDirectory : Nat
  userPageTable : Nat

def VmmArrays.all (A : VmmArrays) : List Nat :=
  [A.pageDirectory, A.firstPageTable, A.userPageDirectory, A.userPageTable]

/-- The arrays as the linker puts them into the image: each on a page of its own. -/
structure VmmLayout (im : Image) extends VmmArrays where
  aligned : ∀ a ∈ toVmmArrays.all, a % 4096 = 0
  in_image : ∀ a ∈ toVmmArrays.all, Image.start ≤ a ∧ a + 4096 ≤ im.stop
  in_memory : im.stop ≤ 2 ^ 32
  distinct : toVmmArrays.all.Nodup

/-- `init_vmm` up to the load of CR3. -/
def initVmm {im : Image} (L : VmmLayout im) (m : Mem) : Mem :=
  let m := fillWords m L.pageDirectory (fun _ => 0x02) 1024
  let m := fillWords m L.firstPageTable (fun i => i * 4096 ||| 0x03) 1024
  let m := store32 m L.pageDirectory (L.firstPageTable ||| 0x03)
  let m := fillWords m L.userPageDirectory (fun _ => 0x02) 1024
  let m := fillWords m L.userPageTable (fun i => i * 4096 ||| 0x07) 1024
  store32 m L.userPageDirectory (L.userPageTable ||| 0x07)

namespace VmmLayout

variable {im : Image} (L : VmmLayout im)

/-- The four arrays are pages, and two different pages do not overlap. -/
theorem apart {a b : Nat} (ha : a ∈ L.all) (hb : b ∈ L.all) (hne : a ≠ b) :
    a + 4096 ≤ b ∨ b + 4096 ≤ a := by
  have h1 := L.aligned a ha
  have h2 := L.aligned b hb
  omega

theorem fits {a : Nat} (ha : a ∈ L.all) : a + 4096 ≤ 2 ^ 32 := Nat.le_trans (L.in_image a ha).2 L.in_memory

end VmmLayout

section

variable {im : Image} (L : VmmLayout im) (m : Mem)

/-- One half of `init_vmm`: a directory with its table. -/
def buildMap (m : Mem) (pd table flags : Nat) : Mem :=
  store32 (fillWords (fillWords m pd (fun _ => 0x02) 1024) table (fun i => i * 4096 ||| flags) 1024)
    pd (table ||| flags)

theorem buildMap_apply_out (m : Mem) {pd table flags x : Nat} (hpd : pd + 4096 ≤ 2 ^ 32)
    (ht : table + 4096 ≤ 2 ^ 32) (hx : x < 2 ^ 32) (h1 : x < pd ∨ pd + 4096 ≤ x)
    (h2 : x < table ∨ table + 4096 ≤ x) : buildMap m pd table flags x = m x := by
  rw [buildMap, store32_apply_out, fillWords_apply_out _ _ (by omega) hx (by omega),
    fillWords_apply_out _ _ (by omega) hx (by omega)]
  simp only [Off]
  omega

/-- **Each half leaves an identity map.** -/
theorem identityMap_buildMap (m : Mem) {pd table flags : Nat} (hpd : pd + 4096 ≤ 2 ^ 32)
    (ht : table + 4096 ≤ 2 ^ 32) (hapart : pd + 4096 ≤ table ∨ table + 4096 ≤ pd)
    (haligned : table % 4096 = 0) (hflags : flags < 4096) (hpresent : present flags = true) :
    IdentityMap (buildMap m pd table flags) pd table flags := by
  have hentry : ∀ {a : Nat}, a % 4096 = 0 → a + 4096 ≤ 2 ^ 32 → a ||| flags < 2 ^ 32 := by
    intro a ha hfit
    rw [entry_eq_add ha hflags]
    omega
  refine ⟨?_, ?_, ?_, haligned, hflags, hpresent⟩
  · rw [buildMap, load32_store32_same _ _ (hentry haligned ht)]
  · intro i h0 hi
    rw [buildMap, load32_store32_apart _ _ (by simp only [Off]; omega) (by simp only [Off]; omega),
      load32_fillWords_apart _ _ (by omega) (by omega) (by omega),
      load32_fillWords _ (by omega) hi fun _ _ => by decide]
    rfl
  · intro i hi
    rw [buildMap, load32_store32_apart _ _ (by simp only [Off]; omega) (by simp only [Off]; omega),
      load32_fillWords _ (by omega) hi fun j hj => hentry (by omega) (by omega)]

theorem identityMap_user : IdentityMap (initVmm L m) L.userPageDirectory L.userPageTable 0x07 := by
  have hpd : L.userPageDirectory ∈ L.all := by simp [VmmArrays.all]
  have ht : L.userPageTable ∈ L.all := by simp [VmmArrays.all]
  have hne : L.userPageDirectory ≠ L.userPageTable := by
    have hd := L.distinct
    simp only [VmmArrays.all, List.nodup_cons, List.mem_cons, List.not_mem_nil, or_false] at hd
    exact hd.2.2.1
  exact identityMap_buildMap _ (L.fits hpd) (L.fits ht) (L.apart hpd ht hne) (L.aligned _ ht)
    (by decide) (by decide)

/-- The second half leaves the kernel's map as the first half made it. -/
theorem identityMap_kernel : IdentityMap (initVmm L m) L.pageDirectory L.firstPageTable 0x03 := by
  have h1 : L.pageDirectory ∈ L.all := by simp [VmmArrays.all]
  have h2 : L.firstPageTable ∈ L.all := by simp [VmmArrays.all]
  have h3 : L.userPageDirectory ∈ L.all := by simp [VmmArrays.all]
  have h4 : L.userPageTable ∈ L.all := by simp [VmmArrays.all]
  have hd := L.distinct
  simp only [VmmArrays.all, List.nodup_cons, List.mem_cons, List.not_mem_nil, or_false,
    not_or] at hd
  have hkernel : IdentityMap (buildMap m L.pageDirectory L.firstPageTable 0x03) L.pageDirectory
      L.firstPageTable 0x03 :=
    identityMap_buildMap m (L.fits h1) (L.fits h2) (L.apart h1 h2 hd.1.1) (L.aligned _ h2)
      (by decide) (by decide)
  refine hkernel.frame (L.fits h1) (L.fits h2) ?_
  intro x hx
  have hfit1 := L.fits h1
  have hfit2 := L.fits h2
  have h13 := L.apart h1 h3 hd.1.2.1
  have h14 := L.apart h1 h4 hd.1.2.2
  have h23 := L.apart h2 h3 hd.2.1.1
  have h24 := L.apart h2 h4 hd.2.1.2
  exact buildMap_apply_out _ (L.fits h3) (L.fits h4) (by omega) (by omega) (by omega)

/-- **The user directory maps the first 4 MiB to themselves, for ring 3.** -/
theorem walk_user {v : Nat} (hv : v < 2 ^ 32) : walk (initVmm L m) L.userPageDirectory v =
    if v < 4194304 then some ⟨v, true, true⟩ else none := (identityMap_user L m).walk_eq hv

/-- **The kernel's directory maps the first 4 MiB to themselves, for ring 0.** -/
theorem walk_kernel {v : Nat} (hv : v < 2 ^ 32) : walk (initVmm L m) L.pageDirectory v =
    if v < 4194304 then some ⟨v, true, false⟩ else none := (identityMap_kernel L m).walk_eq hv

end

/-- A ring 3 access to `v` through the user directory, if it is permitted, stays
off the kernel image and off the kernel heap. -/
def Isolated {im : Image} (L : VmmLayout im) (m : Mem) (v : Nat) : Prop :=
  ∀ t, walk (initVmm L m) L.userPageDirectory v = some t → t.user = true →
    ¬ im.Contains t.physical ∧ ¬ (kernelHeap.start ≤ t.physical ∧ t.physical < kernelHeap.stop)

theorem isolated_of_walk {im : Image} (L : VmmLayout im) (m : Mem) {v : Nat} (hv : v < 2 ^ 32) :
    Isolated L m v ↔ 4194304 ≤ v ∨
      (¬ im.Contains v ∧ ¬ (kernelHeap.start ≤ v ∧ v < kernelHeap.stop)) := by
  rw [Isolated, walk_user L m hv]
  by_cases hlow : v < 4194304
  · rw [if_pos hlow]
    refine ⟨?_, ?_⟩
    · exact fun h => Or.inr (h _ rfl rfl)
    · rintro (hhigh | hoff) t ht _
      · omega
      · rw [← Option.some.inj ht]
        exact hoff
  · rw [if_neg hlow]
    exact iff_of_true (fun t ht => absurd ht (by simp)) (Or.inl (Nat.le_of_not_lt hlow))

/-- **The user directory isolates the kernel at an address** exactly when the
address lies past the first 4 MiB, or itself in neither the image nor the heap. -/
theorem user_directory_isolated_iff {im : Image} (L : VmmLayout im) (m : Mem) (v : BitVec 32) :
    Isolated L m v.toNat ↔ 4194304 ≤ v.toNat ∨
      (¬ im.Contains v.toNat ∧ ¬ (kernelHeap.start ≤ v.toNat ∧ v.toNat < kernelHeap.stop)) :=
  isolated_of_walk L m v.isLt

/-- The arrays at the start of the `.bss` of the small image. -/
def smallVmmLayout : VmmLayout smallImage where
  pageDirectory := 0x101000
  firstPageTable := 0x102000
  userPageDirectory := 0x103000
  userPageTable := 0x104000
  aligned := by decide
  in_image := by decide
  in_memory := by decide
  distinct := by decide

/-- Ring 3 reaches the first header of the heap. -/
theorem not_user_directory_isolated : ¬ ∀ (im : Image) (L : VmmLayout im) (m : Mem)
    (v : BitVec 32), Isolated L m v.toNat := by
  intro hall
  have h := (isolated_of_walk smallVmmLayout (fun _ => 0) (by decide : 0x300000 < 2 ^ 32)).mp
    (hall smallImage smallVmmLayout (fun _ => 0) 0x300000#32)
  rcases h with h | h
  · exact absurd h (by decide)
  · exact h.2 (by decide)

end Antagonist
