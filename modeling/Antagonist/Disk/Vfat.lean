import Antagonist.Lib.LineEditor
import Antagonist.Shell.Console
import Mathlib.Data.List.Induction

/-!
# The RAM disk

`src/vfat.cpp`: eight entries in a table, filled from the front and never emptied.  What
the table is for is a list: the first eight files that were created, in order
(`Catalog`).

* `catalog_refines`: the three scans of the table answer as the list does, after every
  sequence of `create_virtual_file`.
* `sizesMatch_iff`: `file_size_bytes` counts one character more than the payload holds, for a
  content that does not fit.
-/

namespace Antagonist

open ByteMem LineEditor

/-- A C string: there is no NUL in it. -/
abbrev CText := { text : List Byte // 0 ∉ text }

structure VFileEntry where
  filename : Nat → Byte
  folderIndexOwner : BitVec 32
  fileSizeBytes : BitVec 32
  dataPayload : Nat → Byte
  isActive : Byte

structure VRamDiskState where
  files : List VFileEntry
  activeFilesCount : BitVec 32
  length_files : files.length = 8

/-! ### The functions -/

/-- The loop of `safe_string_copy` from index `i` on, with the rest of `src`. -/
def safeStringCopy (maxLen : Nat) : List Byte → Nat → (Nat → Byte) → (Nat → Byte)
  | [], i, dest => Function.update dest i 0
  | c :: src, i, dest =>
      if i < maxLen - 1 then safeStringCopy maxLen src (i + 1) (Function.update dest i c)
      else Function.update dest i 0

namespace VFileEntry

def init (f : VFileEntry) : VFileEntry where
  filename := Function.update f.filename 0 0
  folderIndexOwner := 0xFFFFFFFF
  fileSizeBytes := 0
  dataPayload := Function.update f.dataPayload 0 0
  isActive := 0

def fill (f : VFileEntry) (name : CText) (folderIdx : BitVec 32) (content : CText) : VFileEntry where
  filename := safeStringCopy 12 name.val 0 f.filename
  folderIndexOwner := folderIdx
  fileSizeBytes := BitVec.ofNat 32 (min content.val.length 64)
  dataPayload := safeStringCopy 64 content.val 0 f.dataPayload
  isActive := 1

/-- `is_active == 1 && folder_index_owner == folder_idx`. -/
def isIn (folderIdx : BitVec 32) (f : VFileEntry) : Bool :=
  decide (f.isActive = 1) && decide (f.folderIndexOwner = folderIdx)

end VFileEntry

/-- The scan for the file at `index`, with what was counted so far. -/
def scanFiles (index folderIdx : BitVec 32) : BitVec 32 → List VFileEntry → Option VFileEntry
  | _, [] => none
  | structuralMatches, f :: files =>
      if f.isIn folderIdx then
        if structuralMatches = index then some f
        else scanFiles index folderIdx (structuralMatches + 1) files
      else scanFiles index folderIdx structuralMatches files

namespace VRamDiskState

variable (d : VRamDiskState)

def initVfatDisk : VRamDiskState where
  files := d.files.map VFileEntry.init
  activeFilesCount := 0
  length_files := by rw [List.length_map, d.length_files]

def createVirtualFile (name : CText) (folderIdx : BitVec 32) (content : CText) : VRamDiskState :=
  if 8 ≤ d.activeFilesCount.toNat then d
  else
    match d.files.findIdx? fun f => decide (f.isActive = 0) with
    | none => d
    | some targetSlot =>
        { files := d.files.modify targetSlot fun f => f.fill name folderIdx content
          activeFilesCount := d.activeFilesCount + 1
          length_files := by rw [List.length_modify, d.length_files] }

/-- `get_virtual_file_name`: the string that the pointer leads to. -/
def getVirtualFileName (index folderIdx : BitVec 32) : Option (List Byte) :=
  (scanFiles index folderIdx 0 d.files).map fun f => cString f.filename 12

def getVirtualFileContent (index folderIdx : BitVec 32) : Option (List Byte) :=
  (scanFiles index folderIdx 0 d.files).map fun f => cString f.dataPayload 64

def getFolderFileCount (folderIdx : BitVec 32) : BitVec 32 :=
  d.files.foldl (fun total f => if f.isIn folderIdx then total + 1 else total) 0

end VRamDiskState

/-! ### The catalog -/

structure FileRequest where
  name : CText
  folder : BitVec 32
  content : CText

/-- After `init_vfat_disk` and a sequence of calls. -/
def afterRequests (d₀ : VRamDiskState) (calls : List FileRequest) : VRamDiskState :=
  calls.foldl (fun d c => d.createVirtualFile c.name c.folder c.content) d₀.initVfatDisk

/-- The files of a folder, among the first eight of the calls. -/
def filesOf (calls : List FileRequest) (folder : BitVec 32) : List FileRequest :=
  (calls.take 8).filter fun c => decide (c.folder = folder)

/-- The disk answers as the list of the first eight calls. -/
structure Catalog (d : VRamDiskState) (calls : List FileRequest) : Prop where
  active : d.activeFilesCount.toNat = min 8 calls.length
  name : ∀ folder index : BitVec 32, d.getVirtualFileName index folder =
    (filesOf calls folder)[index.toNat]?.map fun c => c.name.val.take 11
  content : ∀ folder index : BitVec 32, d.getVirtualFileContent index folder =
    (filesOf calls folder)[index.toNat]?.map fun c => c.content.val.take 63
  count : ∀ folder : BitVec 32, (d.getFolderFileCount folder).toNat = (filesOf calls folder).length
  name_none : ∀ folder index : BitVec 32, d.getVirtualFileName index folder = none ↔
    d.getFolderFileCount folder ≤ index
  content_none : ∀ folder index : BitVec 32, d.getVirtualFileContent index folder = none ↔
    d.getFolderFileCount folder ≤ index
  full : 8 ≤ calls.length → ∀ c : FileRequest, d.createVirtualFile c.name c.folder c.content = d

/-! ### Strings -/

theorem safeStringCopy_below {maxLen : Nat} : ∀ {src : List Byte} {i j : Nat} {dest : Nat → Byte},
    j < i → safeStringCopy maxLen src i dest j = dest j := by
  intro src
  induction src with
  | nil => exact fun hj => Function.update_of_ne (Nat.ne_of_lt hj) _ _
  | cons c src ih =>
    intro i j dest hj
    rw [safeStringCopy]
    split
    · rw [ih (Nat.lt_succ_of_lt hj), Function.update_of_ne (Nat.ne_of_lt hj)]
    · exact Function.update_of_ne (Nat.ne_of_lt hj) _ _

theorem isString_safeStringCopy {maxLen : Nat} : ∀ {src : List Byte} {i : Nat} {dest : Nat → Byte},
    0 ∉ src → IsString 0 (safeStringCopy maxLen src i dest) i (src.take (maxLen - 1 - i)) := by
  intro src
  induction src with
  | nil =>
    intro i dest _
    rw [List.take_nil]
    exact Function.update_self _ _ _
  | cons c src ih =>
    intro i dest h0
    obtain ⟨hc, hsrc⟩ := not_or.mp (mt List.mem_cons.mpr h0)
    rw [safeStringCopy]
    by_cases hi : i < maxLen - 1
    · obtain ⟨n, hn⟩ : ∃ n, maxLen - 1 - i = n + 1 := ⟨maxLen - 1 - i - 1, by omega⟩
      have hn' : maxLen - 1 - (i + 1) = n := by omega
      rw [if_pos hi, hn, List.take_succ_cons]
      refine ⟨?_, fun h => hc h.symm, hn' ▸ ih hsrc⟩
      rw [safeStringCopy_below (Nat.lt_succ_self i), Function.update_self]
    · have hn : maxLen - 1 - i = 0 := by omega
      rw [if_neg hi, hn, List.take_zero]
      exact Function.update_self _ _ _

/-- **A copy reads as the string**, cut to what the array holds beside the NUL. -/
theorem cString_safeStringCopy {maxLen : Nat} (hmax : 0 < maxLen) (src : CText) (dest : Nat → Byte) :
    cString (safeStringCopy maxLen src.val 0 dest) maxLen = src.val.take (maxLen - 1) := by
  have h : IsString 0 (safeStringCopy maxLen src.val 0 dest) 0 (src.val.take (maxLen - 1 - 0)) :=
    isString_safeStringCopy src.property
  rw [Nat.sub_zero] at h
  rw [cString]
  rw [List.range_eq_range']
  apply takeWhile_of_isString h
  rw [List.length_take]
  omega

/-! ### The scans -/

section

variable {index folder : BitVec 32}

/-- **The scan** finds the file that has as many before it. -/
theorem scanFiles_eq : ∀ {files : List VFileEntry} {structuralMatches : BitVec 32},
    structuralMatches.toNat ≤ index.toNat → structuralMatches.toNat + files.length < 2 ^ 32 →
    scanFiles index folder structuralMatches files =
      (files.filter (VFileEntry.isIn folder))[index.toNat - structuralMatches.toNat]? := by
  intro files
  induction files with
  | nil => exact fun _ _ => rfl
  | cons f files ih =>
    intro n hle hlen
    rw [List.length_cons] at hlen
    rw [scanFiles]
    by_cases hf : f.isIn folder
    · rw [if_pos hf, List.filter_cons_of_pos hf]
      by_cases heq : n = index
      · rw [if_pos heq, heq, Nat.sub_self, List.getElem?_cons_zero]
      · have hne : n.toNat ≠ index.toNat := fun h => heq (BitVec.eq_of_toNat_eq h)
        have hsucc : (n + 1).toNat = n.toNat + 1 := by
          rw [BitVec.toNat_add]
          exact Nat.mod_eq_of_lt (by show n.toNat + 1 < 2 ^ 32; omega)
        have hsub : index.toNat - n.toNat = index.toNat - (n + 1).toNat + 1 := by omega
        rw [if_neg heq, ih (by omega) (by omega), hsub, List.getElem?_cons_succ]
    · rw [if_neg hf, List.filter_cons_of_neg hf]
      exact ih hle (by omega)

theorem foldl_count (files : List VFileEntry) (total : BitVec 32) :
    files.foldl (fun total f => if f.isIn folder then total + 1 else total) total =
      total + BitVec.ofNat 32 (files.filter (VFileEntry.isIn folder)).length := by
  induction files generalizing total with
  | nil => exact (BitVec.add_zero total).symm
  | cons f files ih =>
    rw [List.foldl_cons, ih]
    by_cases hf : f.isIn folder
    · rw [if_pos hf, List.filter_cons_of_pos hf, List.length_cons, BitVec.add_assoc]
      congr 1
      rw [BitVec.add_comm]
      exact (BitVec.ofNat_add _ _).symm
    · rw [if_neg hf, List.filter_cons_of_neg hf]

end

/-! ### The table as a list -/

structure CatalogEntry where
  folder : BitVec 32
  name : List Byte
  content : List Byte

def FileRequest.entry (c : FileRequest) : CatalogEntry :=
  ⟨c.folder, c.name.val.take 11, c.content.val.take 63⟩

def VFileEntry.entry (f : VFileEntry) : CatalogEntry :=
  ⟨f.folderIndexOwner, cString f.filename 12, cString f.dataPayload 64⟩

/-- The files in front of the free slots are the first eight of the calls. -/
structure Listed (d : VRamDiskState) (calls : List FileRequest) (used free : List VFileEntry) :
    Prop where
  files : d.files = used ++ free
  active : ∀ f ∈ used, f.isActive = 1
  inactive : ∀ f ∈ free, f.isActive = 0
  entries : used.map VFileEntry.entry = (calls.take 8).map FileRequest.entry
  count : d.activeFilesCount.toNat = used.length

section

variable {d : VRamDiskState} {calls : List FileRequest} {used free : List VFileEntry}

theorem Listed.length_used (h : Listed d calls used free) : used.length = min 8 calls.length := by
  have hlen := congrArg List.length h.entries
  rw [List.length_map, List.length_map, List.length_take] at hlen
  exact hlen

theorem Listed.length_free (h : Listed d calls used free) : used.length + free.length = 8 := by
  rw [← List.length_append, ← h.files]
  exact d.length_files

theorem listed_init (d₀ : VRamDiskState) :
    Listed d₀.initVfatDisk [] [] (d₀.files.map VFileEntry.init) := by
  refine ⟨rfl, fun f hf => absurd hf List.not_mem_nil, ?_, rfl, rfl⟩
  intro f hf
  obtain ⟨f', _, rfl⟩ := List.mem_map.mp hf
  rfl

theorem findIdx?_free : ∀ {used : List VFileEntry} {f : VFileEntry} {free : List VFileEntry},
    (∀ g ∈ used, g.isActive = 1) → f.isActive = 0 →
    (used ++ f :: free).findIdx? (fun g => decide (g.isActive = 0)) = some used.length := by
  intro used
  induction used with
  | nil =>
    intro f free _ hf
    rw [List.nil_append, List.findIdx?_cons, if_pos (decide_eq_true hf)]
    rfl
  | cons g used ih =>
    intro f free hused hf
    have hg : ¬ decide (g.isActive = 0) = true := by
      rw [hused g List.mem_cons_self]
      decide
    rw [List.cons_append, List.findIdx?_cons, if_neg hg,
      ih (fun g' hg' => hused g' (List.mem_cons_of_mem _ hg')) hf]
    rfl

theorem modify_length (used : List VFileEntry) (f : VFileEntry) (free : List VFileEntry)
    (g : VFileEntry → VFileEntry) :
    (used ++ f :: free).modify used.length g = used ++ g f :: free := by
  induction used with
  | nil => rfl
  | cons e used ih => rw [List.cons_append, List.length_cons, List.modify_succ_cons, ih, List.cons_append]

theorem entry_fill (f : VFileEntry) (c : FileRequest) :
    (f.fill c.name c.folder c.content).entry = c.entry := by
  show CatalogEntry.mk c.folder (cString (safeStringCopy 12 c.name.val 0 f.filename) 12)
    (cString (safeStringCopy 64 c.content.val 0 f.dataPayload) 64) = _
  rw [cString_safeStringCopy (by decide), cString_safeStringCopy (by decide)]
  rfl

/-- **A full disk** stays as it is. -/
theorem Listed.full (h : Listed d calls used free) (hfull : 8 ≤ calls.length) (c : FileRequest) :
    d.createVirtualFile c.name c.folder c.content = d := by
  have hused := h.length_used
  have hcount := h.count
  rw [VRamDiskState.createVirtualFile]
  rw [if_pos (by omega)]

theorem take_concat (c : FileRequest) (hroom : calls.length < 8) :
    (calls ++ [c]).take 8 = calls.take 8 ++ [c] := by
  rw [List.take_of_length_le (by rw [List.length_append, List.length_singleton]; omega),
    List.take_of_length_le (by omega)]

/-- **One call** fills the first of the free slots, if there is one. -/
theorem Listed.create (h : Listed d calls used free) (c : FileRequest) :
    (8 ≤ calls.length ∧
      Listed (d.createVirtualFile c.name c.folder c.content) (calls ++ [c]) used free) ∨
    (calls.length < 8 ∧ ∃ (f : VFileEntry) (free' : List VFileEntry),
      Listed (d.createVirtualFile c.name c.folder c.content)
        (calls ++ [c]) (used ++ [f.fill c.name c.folder c.content]) free') := by
  have hused := h.length_used
  have hfree := h.length_free
  have hcount := h.count
  by_cases hfull : 8 ≤ calls.length
  · refine .inl ⟨hfull, ?_⟩
    rw [h.full hfull]
    refine ⟨h.files, h.active, h.inactive, ?_, h.count⟩
    rw [List.take_append_of_le_length hfull]
    exact h.entries
  cases free with
  | nil =>
    rw [List.length_nil] at hfree
    omega
  | cons f free =>
    refine .inr ⟨by omega, f, free, ?_⟩
    have hslot : d.files.findIdx? (fun g => decide (g.isActive = 0)) = some used.length := by
      rw [h.files]
      exact findIdx?_free h.active (h.inactive f List.mem_cons_self)
    have hmodify : d.files.modify used.length (fun f => f.fill c.name c.folder c.content) =
        used ++ [f.fill c.name c.folder c.content] ++ free := by
      rw [h.files, modify_length, List.append_assoc, List.singleton_append]
    have hsucc : (d.activeFilesCount + 1).toNat = used.length + 1 := by
      rw [BitVec.toNat_add, hcount]
      exact Nat.mod_eq_of_lt (by show used.length + 1 < 2 ^ 32; omega)
    rw [VRamDiskState.createVirtualFile]
    rw [if_neg (by omega)]
    simp only [hslot]
    refine ⟨hmodify, fun g hg => ?_, fun g hg => h.inactive g (List.mem_cons_of_mem _ hg), ?_, ?_⟩
    · rcases List.mem_append.mp hg with hg | hg
      · exact h.active g hg
      · rw [List.mem_singleton.mp hg]
        rfl
    · rw [take_concat c (by omega), List.map_append, List.map_append, h.entries,
        List.map_singleton, List.map_singleton, entry_fill]
    · rw [List.length_append, List.length_singleton]
      exact hsucc

/-- The table after all calls, and what any view of its files shows of them. -/
theorem listed_afterRequests_map {β : Type} (view : VFileEntry → β) (expected : FileRequest → β)
    (hfill : ∀ (f : VFileEntry) (c : FileRequest),
      view (f.fill c.name c.folder c.content) = expected c) (d₀ : VRamDiskState)
    (calls : List FileRequest) : ∃ used free, Listed (afterRequests d₀ calls) calls used free ∧
      used.map view = (calls.take 8).map expected := by
  induction calls using List.reverseRecOn with
  | nil => exact ⟨_, _, listed_init d₀, rfl⟩
  | append_singleton calls c ih =>
    obtain ⟨used, free, h, hview⟩ := ih
    unfold afterRequests at h ⊢
    rw [List.foldl_concat]
    rcases h.create c with ⟨hfull, h'⟩ | ⟨hroom, f, free', h'⟩
    · refine ⟨used, free, h', ?_⟩
      rw [List.take_append_of_le_length hfull]
      exact hview
    · refine ⟨_, free', h', ?_⟩
      rw [take_concat c hroom, List.map_append, List.map_append, hview, List.map_singleton,
        List.map_singleton, hfill]

theorem listed_afterRequests (d₀ : VRamDiskState) (calls : List FileRequest) :
    ∃ used free, Listed (afterRequests d₀ calls) calls used free := by
  obtain ⟨used, free, h, -⟩ := listed_afterRequests_map VFileEntry.entry FileRequest.entry
    entry_fill d₀ calls
  exact ⟨used, free, h⟩

/-! ### The answers -/

theorem Listed.filter (h : Listed d calls used free) (folder : BitVec 32) :
    (d.files.filter (VFileEntry.isIn folder)).map VFileEntry.entry =
      (filesOf calls folder).map FileRequest.entry := by
  have hfree : free.filter (VFileEntry.isIn folder) = [] := by
    rw [List.filter_eq_nil_iff]
    intro f hf
    have hzero : ¬ (0 : Byte) = 1 := by decide
    rw [VFileEntry.isIn]
    rw [h.inactive f hf, decide_eq_false hzero, Bool.false_and]
    exact Bool.false_ne_true
  have hused : used.filter (VFileEntry.isIn folder) =
      used.filter ((fun e : CatalogEntry => decide (e.folder = folder)) ∘ VFileEntry.entry) := by
    refine List.filter_congr ?_
    intro f hf
    rw [VFileEntry.isIn]
    rw [h.active f hf, decide_eq_true rfl, Bool.true_and]
    rfl
  rw [h.files, List.filter_append, hfree, List.append_nil, hused, ← List.filter_map, h.entries,
    List.filter_map]
  rfl

/-- **A scan answers as the list**, about whatever it is asked of a file. -/
theorem Listed.scan {α : Type} (h : Listed d calls used free) (g : CatalogEntry → α)
    (folder index : BitVec 32) :
    (scanFiles index folder 0 d.files).map (fun f => g f.entry) =
      (filesOf calls folder)[index.toNat]?.map fun c => g c.entry := by
  rw [scanFiles_eq (Nat.zero_le _) (by rw [d.length_files]; decide)]
  have hfile := congrArg (fun l : List CatalogEntry => l[index.toNat]?.map g) (h.filter folder)
  simp only [List.getElem?_map, Option.map_map] at hfile
  exact hfile

theorem Listed.count_eq (h : Listed d calls used free) (folder : BitVec 32) :
    (d.getFolderFileCount folder).toNat = (filesOf calls folder).length := by
  have hlen := congrArg List.length (h.filter folder)
  rw [List.length_map, List.length_map] at hlen
  have hle := List.length_filter_le (VFileEntry.isIn folder) d.files
  rw [d.length_files] at hle
  rw [VRamDiskState.getFolderFileCount]
  rw [foldl_count, BitVec.toNat_add, BitVec.toNat_ofNat]
  show (0 + _ % 2 ^ 32) % 2 ^ 32 = _
  omega

theorem Listed.catalog (h : Listed d calls used free) : Catalog d calls := by
  have hnone : ∀ {α : Type} (g : FileRequest → α) (folder index : BitVec 32),
      (filesOf calls folder)[index.toNat]?.map g = none ↔ d.getFolderFileCount folder ≤ index := by
    intro α g folder index
    rw [Option.map_eq_none_iff, List.getElem?_eq_none_iff, BitVec.le_def, h.count_eq]
  have hname := h.scan CatalogEntry.name
  have hcontent := h.scan CatalogEntry.content
  refine ⟨h.count.trans h.length_used, hname, hcontent, h.count_eq, fun folder index => ?_,
    fun folder index => ?_, h.full⟩
  · exact (iff_of_eq (congrArg (· = none) (hname folder index))).trans (hnone _ folder index)
  · exact (iff_of_eq (congrArg (· = none) (hcontent folder index))).trans (hnone _ folder index)

end

/-- **The RAM disk is a list** of the first eight files. -/
theorem catalog_refines (d₀ : VRamDiskState) (calls : List FileRequest) :
    Catalog (afterRequests d₀ calls) calls := by
  obtain ⟨used, free, h⟩ := listed_afterRequests d₀ calls
  exact h.catalog

/-! ### Sizes -/

/-- Every active entry has the size of the text in its payload. -/
def SizesMatch (d : VRamDiskState) : Prop :=
  ∀ f ∈ d.files, f.isActive = 1 → f.fileSizeBytes.toNat = (cString f.dataPayload 64).length

/-- What a file says of its size, and the text that it has. -/
def VFileEntry.sizeAndText (f : VFileEntry) : BitVec 32 × List Byte :=
  (f.fileSizeBytes, cString f.dataPayload 64)

def FileRequest.sizeAndText (c : FileRequest) : BitVec 32 × List Byte :=
  (BitVec.ofNat 32 (min c.content.val.length 64), c.content.val.take 63)

theorem sizeAndText_fill (f : VFileEntry) (c : FileRequest) :
    (f.fill c.name c.folder c.content).sizeAndText = c.sizeAndText := by
  show (_, cString (safeStringCopy 64 c.content.val 0 f.dataPayload) 64) = _
  rw [cString_safeStringCopy (by decide)]
  rfl

/-- The two bounds agree below 64 characters, and from there on they do not. -/
theorem FileRequest.size_eq_iff (c : FileRequest) :
    c.sizeAndText.1.toNat = c.sizeAndText.2.length ↔ c.content.val.length ≤ 63 := by
  show (BitVec.ofNat 32 (min c.content.val.length 64)).toNat = (c.content.val.take 63).length ↔ _
  rw [BitVec.toNat_ofNat, List.length_take]
  omega

theorem sizesMatch_afterRequests (d₀ : VRamDiskState) (calls : List FileRequest) :
    SizesMatch (afterRequests d₀ calls) ↔ ∀ c ∈ calls.take 8, c.content.val.length ≤ 63 := by
  obtain ⟨used, free, h, hsizes⟩ := listed_afterRequests_map VFileEntry.sizeAndText
    FileRequest.sizeAndText sizeAndText_fill d₀ calls
  have hmem : ∀ {p}, p ∈ used.map VFileEntry.sizeAndText ↔
      p ∈ (calls.take 8).map FileRequest.sizeAndText := by
    rw [hsizes]
  rw [SizesMatch]
  rw [h.files]
  refine ⟨?_, ?_⟩
  · intro hmatch c hc
    obtain ⟨f, hf, hfc⟩ := List.mem_map.mp (hmem.mpr (List.mem_map_of_mem hc))
    have hsize : f.sizeAndText.1.toNat = f.sizeAndText.2.length :=
      hmatch f (List.mem_append_left free hf) (h.active f hf)
    rw [hfc] at hsize
    exact c.size_eq_iff.mp hsize
  · intro hshort f hf hactive
    have hused : f ∈ used := by
      refine (List.mem_append.mp hf).resolve_right ?_
      intro hfree
      rw [h.inactive f hfree] at hactive
      exact absurd hactive (by decide)
    obtain ⟨c, hc, hcf⟩ := List.mem_map.mp (hmem.mp (List.mem_map_of_mem hused))
    have hsize := c.size_eq_iff.mpr (hshort c hc)
    rw [hcf] at hsize
    exact hsize

/-- **The sizes match in every state of a run** exactly when each of the first eight contents fits
its payload. -/
theorem sizesMatch_iff (d₀ : VRamDiskState) (calls : List FileRequest) :
    (∀ calls', calls' <+: calls → SizesMatch (afterRequests d₀ calls')) ↔
      ∀ c ∈ calls.take 8, c.content.val.length ≤ 63 := by
  refine ⟨?_, ?_⟩
  · intro hall
    exact (sizesMatch_afterRequests d₀ calls).mp (hall calls (List.prefix_refl calls))
  · intro hshort calls' hprefix
    have htake : calls'.take 8 <+: calls.take 8 :=
      List.prefix_take_iff.mpr ⟨(List.take_prefix 8 calls').trans hprefix, List.length_take_le 8 calls'⟩
    exact (sizesMatch_afterRequests d₀ calls').mpr fun c hc => hshort c (htake.subset hc)

/-- A disk before `init_vfat_disk`. -/
def bootDisk : VRamDiskState where
  files := List.replicate 8 ⟨fun _ => 0, 0, 0, fun _ => 0, 0⟩
  activeFilesCount := 0
  length_files := by rw [List.length_replicate]

/-- A content of 64 characters: the size says 64, and the payload holds 63. -/
def longContent : CText := ⟨List.replicate 64 0x61, by decide⟩

theorem not_sizesMatch : ¬ ∀ (d₀ : VRamDiskState) (calls : List FileRequest),
    SizesMatch (afterRequests d₀ calls) := by
  intro hall
  have hfits := (sizesMatch_afterRequests bootDisk [⟨longContent, 0, longContent⟩]).mp (hall _ _)
  exact absurd (hfits _ List.mem_cons_self) (by decide)

end Antagonist
