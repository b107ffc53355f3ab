import Antagonist.Disk.Vfat
import Antagonist.Shell.CommandLine
import Mathlib.Data.List.Find

/-!
# The vocabulary and the tokenizer

`src/vocab.cpp` keeps a table of 256 strings of at most 15 characters, and
`tokenize_string_slice` of `src/tokenizer.cpp` looks a word up in it, the lowest
id first.  Zero also stands for the empty word, and 255 for a word that is not in
the table.

* `tokenizeStringSlice_eq`: what the tokenizer returns, told by the calls of
  `add_vocab_mapping` alone.
* `vocab_roundTrip`: a word that is in the table is found, and read back.
* `unknown_apart_iff`: when a word that is not in the table is told from one that is.
-/

namespace Antagonist

open ByteMem LineEditor

/-! ### The table -/

structure VocabEntry where
  tokenId : BitVec 32
  tokenString : Nat → Byte

abbrev VocabTable := Nat → VocabEntry

def fontanaVocabSize : Nat := 256

def maxTokenStrLen : Nat := 16

/-- `vocab_strcpy`, which is `safe_string_copy` of `vfat.cpp` once more. -/
def vocabStrcpy (dest : Nat → Byte) (src : CText) (maxLen : Nat) : Nat → Byte :=
  safeStringCopy maxLen src.val 0 dest

def initVocabParser (t : VocabTable) : VocabTable := fun i =>
  if i < fontanaVocabSize then
    ⟨BitVec.ofNat 32 i, Function.update (t i).tokenString 0 0⟩
  else t i

/-- `add_vocab_mapping`.  The string may be a null pointer. -/
def addVocabMapping (t : VocabTable) (tokenId : BitVec 32) (str : Option CText) : VocabTable :=
  if fontanaVocabSize ≤ tokenId.toNat then t
  else
    match str with
    | none => t
    | some str =>
        let e := t tokenId.toNat
        Function.update t tokenId.toNat
          { e with tokenString := vocabStrcpy e.tokenString str maxTokenStrLen }

/-- `lookup_token_string`: the array that the pointer leads to. -/
def lookupTokenString (t : VocabTable) (tokenId : BitVec 32) : Nat → Byte :=
  if fontanaVocabSize ≤ tokenId.toNat then fun j => (ascii "??").getD j 0
  else (t tokenId.toNat).tokenString

/-! ### The tokenizer -/

/-- `token_strcmp`: the loop of `mystrcmp`, which does not mind which of the strings
comes first. -/
def tokenStrcmp (a : List Byte) (b : Nat → Byte) : Bool := mystrcmp b 0 a

/-- `tokenize_string_slice`.  The word may be a null pointer. -/
def tokenizeStringSlice (t : VocabTable) (wordStr : Option CText) : BitVec 32 :=
  match wordStr with
  | none => 0
  | some word =>
      if word.val = [] then 0
      else
        match (List.range fontanaVocabSize).find? fun i =>
            tokenStrcmp word.val (lookupTokenString t (BitVec.ofNat 32 i)) with
        | some i => BitVec.ofNat 32 i
        | none => 255

/-! ### The calls -/

structure VocabCall where
  tokenId : BitVec 32
  str : Option CText

/-- After `init_vocab_parser` and a sequence of calls. -/
def afterMappings (t₀ : VocabTable) (calls : List VocabCall) : VocabTable :=
  calls.foldl (fun t c => addVocabMapping t c.tokenId c.str) (initVocabParser t₀)

def lastString (calls : List VocabCall) (id : Nat) : Option CText :=
  (calls.filterMap fun c => if c.tokenId.toNat = id then c.str else none).getLast?

/-- What the table has of it: the first 15 characters. -/
def storedString (calls : List VocabCall) (id : Nat) : List Byte :=
  ((lastString calls id).map fun str => str.val.take 15).getD []

/-- The string registered last at `id`, cut to 15 characters, is `word`. -/
def StoredAt (calls : List VocabCall) (id : Nat) (word : List Byte) : Prop :=
  ∃ str, lastString calls id = some str ∧ str.val.take 15 = word

/-! ### What the table holds -/

section

variable {t t₀ : VocabTable} {calls : List VocabCall} {id : Nat}

theorem lastString_snoc (calls : List VocabCall) (c : VocabCall) (id : Nat) :
    lastString (calls ++ [c]) id =
      if c.tokenId.toNat = id ∧ c.str.isSome then c.str else lastString calls id := by
  unfold lastString
  rw [List.filterMap_append]
  by_cases hid : c.tokenId.toNat = id
  · cases hstr : c.str with
    | none => simp [hstr]
    | some str => simp [hid, hstr]
  · simp [hid]

theorem storedAt_iff {word : List Byte} (hne : word ≠ []) :
    StoredAt calls id word ↔ storedString calls id = word := by
  rw [StoredAt, storedString]
  cases lastString calls id with
  | none => simp [hne.symm]
  | some str => simp

/-- A call changes the string at its own id, if that is in the table. -/
theorem tokenString_addVocabMapping (t : VocabTable) (tokenId : BitVec 32) (str : Option CText)
    (hid : id < fontanaVocabSize) :
    ((addVocabMapping t tokenId str) id).tokenString =
      match str with
      | none => (t id).tokenString
      | some str =>
          if tokenId.toNat = id then vocabStrcpy (t id).tokenString str maxTokenStrLen
          else (t id).tokenString := by
  unfold addVocabMapping
  by_cases hout : fontanaVocabSize ≤ tokenId.toNat
  · have hne : ¬ tokenId.toNat = id := by omega
    rw [if_pos hout]
    cases str with
    | none => rfl
    | some str => exact (if_neg hne).symm
  · rw [if_neg hout]
    cases str with
    | none => rfl
    | some str =>
      by_cases hc : tokenId.toNat = id
      · simp only [hc, Function.update_self, if_true]
      · simp only [Function.update_of_ne (Ne.symm hc), if_neg hc]

/-- **The table holds the last strings**, cut. -/
theorem isString_afterMappings (t₀ : VocabTable) (calls : List VocabCall)
    (hid : id < fontanaVocabSize) :
    IsString 0 (afterMappings t₀ calls id).tokenString 0 (storedString calls id) := by
  induction calls using List.reverseRecOn with
  | nil =>
    show (initVocabParser t₀ id).tokenString 0 = 0
    rw [initVocabParser]
    rw [if_pos hid]
    exact Function.update_self 0 (0 : Byte) (t₀ id).tokenString
  | append_singleton calls c ih =>
    have hstep : afterMappings t₀ (calls ++ [c]) =
        addVocabMapping (afterMappings t₀ calls) c.tokenId c.str := by
      unfold afterMappings
      rw [List.foldl_concat]
    have hlast := lastString_snoc calls c id
    unfold storedString at ih ⊢
    rw [hstep, tokenString_addVocabMapping _ _ _ hid, hlast]
    cases c.str with
    | none => simpa using ih
    | some str =>
      by_cases hc : c.tokenId.toNat = id
      · simp only [hc, Option.isSome_some, and_self, if_true]
        exact isString_safeStringCopy str.property
      · simpa only [hc, false_and, if_false] using ih

theorem length_storedString_le (calls : List VocabCall) (id : Nat) :
    (storedString calls id).length ≤ 15 := by
  rw [storedString]
  cases lastString calls id with
  | none => exact Nat.zero_le 15
  | some str => exact List.length_take_le 15 str.val

theorem isString_lookup (t₀ : VocabTable) (calls : List VocabCall) (hid : id < fontanaVocabSize) :
    IsString 0 (lookupTokenString (afterMappings t₀ calls) (BitVec.ofNat 32 id)) 0
      (storedString calls id) := by
  have hlt : id < 2 ^ 32 := Nat.lt_trans hid (by decide)
  rw [lookupTokenString]
  rw [BitVec.toNat_ofNat, Nat.mod_eq_of_lt hlt, if_neg (Nat.not_le.mpr hid)]
  exact isString_afterMappings t₀ calls hid

/-- **The tokenizer** looks for the word among the strings, the lowest id first. -/
theorem tokenizeStringSlice_eq (t₀ : VocabTable) (calls : List VocabCall) (word : CText) :
    tokenizeStringSlice (afterMappings t₀ calls) (some word) =
      if word.val = [] then 0
      else
        match (List.range fontanaVocabSize).find? fun i =>
            decide (storedString calls i = word.val) with
        | some i => BitVec.ofNat 32 i
        | none => 255 := by
  have hcmp : ∀ i ∈ List.range fontanaVocabSize,
      tokenStrcmp word.val (lookupTokenString (afterMappings t₀ calls) (BitVec.ofNat 32 i)) =
        decide (storedString calls i = word.val) := fun i hi =>
    mystrcmp_eq (isString_lookup t₀ calls (List.mem_range.mp hi)) word.property
  unfold tokenizeStringSlice
  simp only
  rw [List.find?_congr hcmp]

/-- A word of the table gets the lowest of its ids, another one 255. -/
theorem tokenize_cases (t₀ : VocabTable) (calls : List VocabCall) {word : CText}
    (hne : word.val ≠ []) :
    (∃ id < fontanaVocabSize, storedString calls id = word.val ∧
      (∀ j < id, storedString calls j ≠ word.val) ∧
      tokenizeStringSlice (afterMappings t₀ calls) (some word) = BitVec.ofNat 32 id) ∨
    ((∀ id < fontanaVocabSize, storedString calls id ≠ word.val) ∧
      tokenizeStringSlice (afterMappings t₀ calls) (some word) = 255) := by
  rw [tokenizeStringSlice_eq, if_neg hne]
  cases hfind : (List.range fontanaVocabSize).find? fun i =>
      decide (storedString calls i = word.val) with
  | some id =>
    obtain ⟨hid, hmem, hleast⟩ := List.find?_range_eq_some.mp hfind
    refine .inl ⟨id, List.mem_range.mp hmem, of_decide_eq_true hid, ?_, rfl⟩
    intro j hj
    simpa using hleast j hj
  | none =>
    refine .inr ⟨?_, rfl⟩
    intro id hid
    simpa using List.find?_range_eq_none.mp hfind id hid

theorem storedString_of_last {word : CText} (hlast : lastString calls id = some word)
    (hlen : word.val.length ≤ 15) : storedString calls id = word.val := by
  rw [storedString]
  rw [hlast]
  exact List.take_of_length_le hlen

/-! ### There and back -/

/-- A word that fits the table and is in it is found, under an id that reads as the
word.  A word that does not fit is never found. -/
structure RoundTrip (t₀ : VocabTable) (calls : List VocabCall) : Prop where
  found : ∀ (word : CText) (id : Nat), word.val ≠ [] → word.val.length ≤ 15 → id < 256 →
    lastString calls id = some word → ∃ id' ≤ id,
      tokenizeStringSlice (afterMappings t₀ calls) (some word) = BitVec.ofNat 32 id' ∧
      StoredAt calls id' word.val ∧
      IsString 0 (lookupTokenString (afterMappings t₀ calls) (BitVec.ofNat 32 id')) 0 word.val
  tooLong : ∀ word : CText, 15 < word.val.length →
    tokenizeStringSlice (afterMappings t₀ calls) (some word) = 255

/-- **Words make the round trip**, after any calls. -/
theorem vocab_roundTrip (t₀ : VocabTable) (calls : List VocabCall) : RoundTrip t₀ calls := by
  refine ⟨fun word id hne hlen hid hlast => ?_, fun word hlong => ?_⟩
  · have hstored := storedString_of_last hlast hlen
    rcases tokenize_cases t₀ calls hne with ⟨id', hid', hword, hleast, htoken⟩ | ⟨hnone, _⟩
    · refine ⟨id', ?_, htoken, (storedAt_iff hne).mpr hword, ?_⟩
      · by_contra hlt
        exact hleast id (Nat.not_le.mp hlt) hstored
      · rw [← hword]
        exact isString_lookup t₀ calls hid'
    · exact absurd hstored (hnone id hid)
  · have hne : word.val ≠ [] := by
      intro hnil
      rw [hnil] at hlong
      exact absurd hlong (by decide)
    rcases tokenize_cases t₀ calls hne with ⟨id, _, hword, _, _⟩ | ⟨_, htoken⟩
    · have hle := length_storedString_le calls id
      rw [hword] at hle
      omega
    · exact htoken

/-- A table before `init_vocab_parser`. -/
def bootTable : VocabTable := fun _ => ⟨0, fun _ => 0⟩

def longWord : CText := ⟨List.replicate 16 0x61, by decide⟩

/-- A word of sixteen characters at id 0 is not found. -/
theorem not_vocab_roundTrip : ¬ ∀ (t₀ : VocabTable) (calls : List VocabCall) (word : CText)
    (id : Nat), word.val ≠ [] → id < 256 → lastString calls id = some word → ∃ id' ≤ id,
      tokenizeStringSlice (afterMappings t₀ calls) (some word) = BitVec.ofNat 32 id' ∧
      lastString calls id' = some word ∧
      IsString 0 (lookupTokenString (afterMappings t₀ calls) (BitVec.ofNat 32 id')) 0 word.val := by
  intro h
  obtain ⟨id, hid, htoken, _⟩ := h bootTable [⟨0, some longWord⟩] longWord 0
    (by decide) (by decide) rfl
  have hzero : id = 0 := Nat.le_zero.mp hid
  have hlong : longWord.val ≠ [] := by decide
  rcases tokenize_cases bootTable [⟨0, some longWord⟩] hlong with ⟨id', _, hword, _, _⟩ | ⟨_, hunknown⟩
  · have hle := length_storedString_le [⟨0, some longWord⟩] id'
    rw [hword] at hle
    exact absurd hle (by decide)
  · rw [hunknown, hzero] at htoken
    exact absurd htoken (by decide)

/-! ### Unknown words -/

/-- The ids that stand for no word keep out of the way: zero of the padding, when `w`
is empty, and 255 of the words that are not in the table. -/
def MarkersFree (calls : List VocabCall) (u w : List Byte) : Prop :=
  (w = [] → ¬ StoredAt calls 0 u) ∧
    (w ≠ [] → (∀ id < 256, ¬ StoredAt calls id w) → ∃ id < 255, StoredAt calls id u)

theorem ofNat_inj {i j : Nat} (hi : i < 256) (hj : j < 256) :
    BitVec.ofNat 32 i = BitVec.ofNat 32 j ↔ i = j := by
  refine ⟨fun h => ?_, fun h => by rw [h]⟩
  have hnat := congrArg BitVec.toNat h
  rw [BitVec.toNat_ofNat, BitVec.toNat_ofNat] at hnat
  omega

/-- **An unknown word is told from a known one** exactly when the known one does not
rest on the id of a marker. -/
theorem unknown_apart_iff (t₀ : VocabTable) (calls : List VocabCall) {u w : CText}
    (hu : u.val ≠ []) (hulen : u.val.length ≤ 15)
    (hknown : ∃ id < 256, lastString calls id = some u)
    (hunknown : ∀ id < 256, lastString calls id ≠ some w) :
    tokenizeStringSlice (afterMappings t₀ calls) (some u) ≠
      tokenizeStringSlice (afterMappings t₀ calls) (some w) ↔ MarkersFree calls u.val w.val := by
  obtain ⟨k, hk, hlast⟩ := hknown
  have hstored := storedString_of_last hlast hulen
  obtain ⟨i, hi, hiu, hleast, htoken⟩ :=
    (tokenize_cases t₀ calls hu).resolve_right fun hnone => hnone.1 k hk hstored
  have hi : i < 256 := hi
  rw [htoken]
  rw [MarkersFree]
  by_cases hw : w.val = []
  · -- the token of an empty word is zero
    have hzero : tokenizeStringSlice (afterMappings t₀ calls) (some w) = BitVec.ofNat 32 0 := by
      rw [tokenizeStringSlice_eq, if_pos hw]
      rfl
    rw [hzero, Ne, ofNat_inj hi (by decide), storedAt_iff hu]
    refine ⟨fun hne => ⟨fun _ h0 => ?_, fun h => absurd hw h⟩, fun h h0 => h.1 hw (h0 ▸ hiu)⟩
    exact hleast 0 (Nat.pos_of_ne_zero hne) h0
  rcases tokenize_cases t₀ calls hw with ⟨j, hj, hjw, _, htoken'⟩ | ⟨hnone, htoken'⟩
  · -- the table has `w`, cut from a longer string
    have hj : j < 256 := hj
    rw [htoken', Ne, ofNat_inj hi hj]
    refine ⟨fun _ => ⟨fun h => absurd h hw, fun _ h => ?_⟩, fun _ hij => ?_⟩
    · exact absurd ((storedAt_iff hw).mpr hjw) (h j hj)
    · have hsame : u = w := Subtype.ext (by rw [← hiu, ← hjw, hij])
      exact hunknown k hk (hsame ▸ hlast)
  · have hmarker : (255 : BitVec 32) = BitVec.ofNat 32 255 := rfl
    rw [htoken', hmarker, Ne, ofNat_inj hi (by decide)]
    refine ⟨fun hne => ⟨fun h => absurd h hw, fun _ _ => ?_⟩, fun h hmax => ?_⟩
    · exact ⟨i, by omega, (storedAt_iff hu).mpr hiu⟩
    · obtain ⟨j, hj, hju⟩ := h.2 hw fun id hid h => hnone id hid ((storedAt_iff hw).mp h)
      exact hleast j (by omega) ((storedAt_iff hu).mp hju)

/-- The word `a`, and the word `b`. -/
def wordA : CText := ⟨[0x61], by decide⟩
def wordB : CText := ⟨[0x62], by decide⟩

theorem lastString_singleton (tokenId : BitVec 32) (str : CText) (id : Nat) :
    lastString [⟨tokenId, some str⟩] id = if tokenId.toNat = id then some str else none := by
  have h := lastString_snoc [] ⟨tokenId, some str⟩ id
  rw [List.nil_append] at h
  rw [h]
  exact if_congr (and_iff_left rfl) rfl rfl

theorem unknown_apart_iff_seven :
    tokenizeStringSlice (afterMappings bootTable [⟨7, some wordA⟩]) (some wordA) ≠
      tokenizeStringSlice (afterMappings bootTable [⟨7, some wordA⟩]) (some wordB) := by
  refine (unknown_apart_iff bootTable [⟨7, some wordA⟩] (u := wordA) (w := wordB) (by decide)
    (by decide) ⟨7, by decide, rfl⟩ fun id _ => ?_).mpr ⟨fun h => absurd h (by decide), fun _ _ => ?_⟩
  · rw [lastString_singleton]
    split <;> decide
  · exact ⟨7, by decide, wordA, rfl, rfl⟩

/-- The word `a` at id 255, and the word `b` that is in no table. -/
theorem not_unknown_apart : ¬ ∀ (t₀ : VocabTable) (calls : List VocabCall) (u w : CText),
    u.val ≠ [] → u.val.length ≤ 15 → w.val.length ≤ 15 →
    (∃ id < 256, lastString calls id = some u) → (∀ id < 256, lastString calls id ≠ some w) →
    tokenizeStringSlice (afterMappings t₀ calls) (some u) ≠
      tokenizeStringSlice (afterMappings t₀ calls) (some w) := by
  intro h
  refine h bootTable [⟨255, some wordA⟩] wordA wordB (by decide) (by decide) (by decide)
    ⟨255, by decide, rfl⟩ (fun id _ => ?_) (by decide +kernel)
  rw [lastString_singleton]
  split <;> decide

end

end Antagonist
