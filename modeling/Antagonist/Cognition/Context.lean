import Antagonist.Cognition.Tokenizer
import Antagonist.Lib.Scrollback

/-!
# The context of the tokenizer

`push_token_to_context` of `src/tokenizer.cpp` fills an array of 32 tokens from the front, and
from then on moves it left by one for each token.  What it keeps is the end of the sequence of all
tokens, as a screen keeps the end of its log.

* `HoldsContext.push`: one token.
* `holdsContext_pushTokens`: any number of them.
-/

namespace Antagonist

open ByteMem Scrollback

def fontanaContextLen : Nat := 32

structure TokenizerState where
  contextHistory : Nat → BitVec 32
  currentIndex : BitVec 32
  totalTokensProcessed : BitVec 32

namespace TokenizerState

def initTokenizerRouting (s : TokenizerState) : TokenizerState where
  contextHistory := (List.range fontanaContextLen).foldl (fun h i => Function.update h i 0)
    s.contextHistory
  currentIndex := 0
  totalTokensProcessed := 0

/-- The array shift of `push_token_to_context`. -/
def shiftLeft (history : Nat → BitVec 32) : Nat → BitVec 32 :=
  (List.range (fontanaContextLen - 1)).foldl (fun h i => Function.update h i (h (i + 1))) history

def pushTokenToContext (s : TokenizerState) (tokenId : BitVec 32) : TokenizerState :=
  let s :=
    if s.currentIndex.toNat < fontanaContextLen then
      { s with
        contextHistory := Function.update s.contextHistory s.currentIndex.toNat tokenId
        currentIndex := s.currentIndex + 1 }
    else
      { s with
        contextHistory :=
          Function.update (shiftLeft s.contextHistory) (fontanaContextLen - 1) tokenId }
  { s with totalTokensProcessed := s.totalTokensProcessed + 1 }

def getActiveContextReference (s : TokenizerState) : Nat → BitVec 32 := s.contextHistory

/-- The calls of `push_token_to_context` after `init_tokenizer_routing`. -/
def pushTokens (s₀ : TokenizerState) (ids : List (BitVec 32)) : TokenizerState :=
  ids.foldl pushTokenToContext s₀.initTokenizerRouting

end TokenizerState

open TokenizerState

def contextList (history : Nat → BitVec 32) : List (BitVec 32) :=
  (List.range fontanaContextLen).map history

/-- The state after the tokens `ids`: the last of them in the array, in front of zeros. -/
structure HoldsContext (s : TokenizerState) (ids : List (BitVec 32)) : Prop where
  history : contextList s.getActiveContextReference = window fontanaContextLen 0 ids
  currentIndex : s.currentIndex.toNat = min ids.length fontanaContextLen
  total : s.totalTokensProcessed.toNat = ids.length % 2 ^ 32

/-! ### The arrays -/

theorem length_contextList (history : Nat → BitVec 32) :
    (contextList history).length = fontanaContextLen := by
  rw [contextList, List.length_map, List.length_range]

theorem getElem?_contextList (history : Nat → BitVec 32) {i : Nat} (hi : i < fontanaContextLen) :
    (contextList history)[i]? = some (history i) := by
  rw [contextList, List.getElem?_map, List.getElem?_range hi]
  rfl

theorem contextList_update (history : Nat → BitVec 32) (i : Nat) (token : BitVec 32) :
    contextList (Function.update history i token) = (contextList history).set i token := by
  refine map_range_eq (by rw [List.length_set, length_contextList]) ?_
  intro j hj
  by_cases hij : i = j
  · subst hij
    rw [List.getElem?_set_self (by rw [length_contextList]; exact hj), Function.update_self]
  · rw [List.getElem?_set_ne hij, Function.update_of_ne (Ne.symm hij), getElem?_contextList _ hj]

/-- **The shift**, with the new token behind it. -/
theorem contextList_shiftLeft (history : Nat → BitVec 32) (token : BitVec 32) :
    contextList (Function.update (shiftLeft history) (fontanaContextLen - 1) token) =
      (contextList history).tail ++ [token] := by
  have hlen : (contextList history).tail.length = fontanaContextLen - 1 := by
    rw [List.length_tail, length_contextList]
  refine map_range_eq (by rw [List.length_append, hlen]; rfl) ?_
  intro j hj
  by_cases hlast : j = fontanaContextLen - 1
  · rw [hlast, Function.update_self, ← hlen, List.getElem?_concat_length]
  · have hlt : j < fontanaContextLen - 1 := by omega
    have hcopy : shiftLeft history j =
        if j < fontanaContextLen - 1 then history (j + 1) else history j :=
      foldl_range_copy (fun h => h) (fun h i _ j => Function.update_apply h i (h (i + 1)) j)
        history j
    rw [Function.update_of_ne hlast, List.getElem?_append_left (by omega), List.getElem?_tail,
      getElem?_contextList _ (by omega), hcopy, if_pos hlt]

/-! ### The tokens -/

theorem holdsContext_init (s : TokenizerState) : HoldsContext s.initTokenizerRouting [] where
  history := by
    refine map_range_eq (length_window _ _ _) ?_
    intro i hi
    have hzero : s.initTokenizerRouting.contextHistory i =
        if 0 ≤ i ∧ i < 0 + fontanaContextLen then 0 else s.contextHistory i :=
      foldl_range_fill (fun h => h)
        (fun h k _ j => by rw [Nat.zero_add]; exact Function.update_apply h k 0 j) s.contextHistory i
    show _ = some (s.initTokenizerRouting.contextHistory i)
    rw [hzero, if_pos (by omega), window_of_le (Nat.zero_le _), List.nil_append,
      List.getElem?_replicate]
    exact if_pos hi
  currentIndex := rfl
  total := rfl

/-- **One token.** -/
theorem HoldsContext.push {s : TokenizerState} {ids : List (BitVec 32)} (H : HoldsContext s ids)
    (token : BitVec 32) : HoldsContext (s.pushTokenToContext token) (ids ++ [token]) := by
  have hlen : (ids ++ [token]).length = ids.length + 1 := by
    rw [List.length_append, List.length_singleton]
  have hhistory : contextList s.contextHistory = window fontanaContextLen 0 ids := H.history
  have hindex := H.currentIndex
  have htotal : (s.totalTokensProcessed + 1).toNat = (ids ++ [token]).length % 2 ^ 32 := by
    rw [BitVec.toNat_add, H.total, hlen]
    show (ids.length % 2 ^ 32 + 1) % 2 ^ 32 = _
    omega
  by_cases hroom : ids.length < fontanaContextLen
  · have hpush : s.pushTokenToContext token =
        { contextHistory := Function.update s.contextHistory s.currentIndex.toNat token
          currentIndex := s.currentIndex + 1
          totalTokensProcessed := s.totalTokensProcessed + 1 } := by
      rw [pushTokenToContext]
      rw [if_pos (by omega)]
    rw [hpush]
    refine ⟨?_, ?_, htotal⟩
    · show contextList (Function.update s.contextHistory s.currentIndex.toNat token) = _
      rw [contextList_update, hhistory, window_concat_of_lt hroom, hindex,
        Nat.min_eq_left (by omega)]
    · show (s.currentIndex + 1).toNat = _
      have hlt : s.currentIndex.toNat + 1 < 2 ^ 32 := by
        simp only [fontanaContextLen] at hindex
        omega
      rw [BitVec.toNat_add, hlen]
      show (s.currentIndex.toNat + 1) % 2 ^ 32 = _
      rw [Nat.mod_eq_of_lt hlt]
      omega
  · have hpush : s.pushTokenToContext token =
        { contextHistory := Function.update (shiftLeft s.contextHistory) (fontanaContextLen - 1) token
          currentIndex := s.currentIndex
          totalTokensProcessed := s.totalTokensProcessed + 1 } := by
      rw [pushTokenToContext]
      rw [if_neg (by omega)]
    rw [hpush]
    refine ⟨?_, ?_, htotal⟩
    · show contextList (Function.update (shiftLeft s.contextHistory) _ token) = _
      rw [contextList_shiftLeft, hhistory, window_concat_of_ge (by decide) (by omega)]
    · show s.currentIndex.toNat = _
      omega

/-- **The context is the end of the sequence of tokens**, whatever its length. -/
theorem holdsContext_pushTokens (s₀ : TokenizerState) (ids : List (BitVec 32)) :
    HoldsContext (s₀.pushTokens ids) ids := by
  induction ids using List.reverseRecOn with
  | nil => exact holdsContext_init s₀
  | append_singleton ids token ih =>
    have hstep : s₀.pushTokens (ids ++ [token]) = (s₀.pushTokens ids).pushTokenToContext token :=
      List.foldl_concat _ _ _ _
    rw [hstep]
    exact ih.push token

end Antagonist
