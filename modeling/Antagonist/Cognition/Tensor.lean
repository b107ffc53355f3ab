import Antagonist.Cognition.Context
import Antagonist.Lib.Tally

/-!
# The forward pass

`src/tensor.cpp` over any type of weights: addition, multiplication and the conversion of integers
are operations of which no law is assumed, as is right for rounded arithmetic.
`evaluate_tensor_forward` clears its static layer, adds 64 values for each token of the context, and
copies the layer out.

* `forwardPass_apply`: the entry of an id is its own sum, as often as the id occurs.
* `forward_pure`: what a pass writes depends on nothing else.
-/

namespace Antagonist

open ByteMem Tally

def fontanaEmbedDim : Nat := 64

section

variable {α : Type}

/-- The arithmetic beside `+` and `*`: the constant `0.001f`, and the conversion of integers. -/
structure WeightOps (α : Type) where
  milli : α
  ofUint : BitVec 32 → α

/-- `init_tensor_engine`, and the reset that `evaluate_tensor_forward` begins with. -/
def initTensorEngine [Zero α] (layer : Nat → α) : Nat → α :=
  (List.range fontanaVocabSize).foldl (fun layer i => Function.update layer i 0) layer

/-- The loop that copies the layer to the output array. -/
def copyOut (layer output : Nat → α) : Nat → α :=
  (List.range fontanaVocabSize).foldl (fun output i => Function.update output i (layer i)) output

theorem copyOut_apply (layer output : Nat → α) {id : Nat} (hid : id < fontanaVocabSize) :
    copyOut layer output id = layer id := by
  have hcopy : copyOut layer output id =
      if 0 ≤ id ∧ id < 0 + fontanaVocabSize then layer (id - 0) else output id := by
    refine foldl_range_store (fun output => output) layer ?_ output id
    intro output i _ j
    rw [Nat.zero_add]
    by_cases hj : j = i
    · rw [if_pos hj, hj, Function.update_self]
    · rw [if_neg hj, Function.update_of_ne hj]
  rw [hcopy, if_pos (by omega), Nat.sub_zero]

variable [Zero α] [Add α] [Mul α] (ops : WeightOps α)

def dummyWeightValue (currentToken : BitVec 32) (dim : Nat) : α :=
  ops.milli * ops.ofUint (currentToken + BitVec.ofNat 32 dim)

def accumulateToken (layer : Nat → α) (currentToken : BitVec 32) : Nat → α :=
  if fontanaVocabSize ≤ currentToken.toNat then layer
  else
    (List.range fontanaEmbedDim).foldl
      (fun layer dim => Function.update layer currentToken.toNat
        (layer currentToken.toNat + dummyWeightValue ops currentToken dim)) layer

/-- The static layer after the loop over the tokens. -/
def forwardPass (layer : Nat → α) (inputTokens : Nat → BitVec 32) : Nat → α :=
  (List.range fontanaContextLen).foldl
    (fun layer tokenIdx => accumulateToken ops layer (inputTokens tokenIdx)) (initTensorEngine layer)

/-- `evaluate_tensor_forward`: the static layer and the output array.  Either pointer may be
null. -/
def evaluateTensorForward (layer : Nat → α) (inputTokens : Option (Nat → BitVec 32))
    (outputProbabilities : Option (Nat → α)) : (Nat → α) × Option (Nat → α) :=
  match inputTokens, outputProbabilities with
  | some tokens, some output =>
      let layer := forwardPass ops layer tokens
      (layer, some (copyOut layer output))
  | _, output => (layer, output)

structure ForwardCall (α : Type) where
  inputTokens : Option (Nat → BitVec 32)
  outputProbabilities : Option (Nat → α)

def layerAfter (layer : Nat → α) (calls : List (ForwardCall α)) : Nat → α :=
  calls.foldl
    (fun layer c => (evaluateTensorForward ops layer c.inputTokens c.outputProbabilities).1) layer

def occurrences (inputTokens : Nat → BitVec 32) (id : BitVec 32) : Nat :=
  (contextList inputTokens).count id

/-! ### The layer -/

omit [Add α] [Mul α] in
theorem initTensorEngine_apply (layer : Nat → α) {id : Nat} (hid : id < fontanaVocabSize) :
    initTensorEngine layer id = 0 :=
  (foldl_range_fill (fun layer => layer)
    (fun layer k _ j => by rw [Nat.zero_add]; exact Function.update_apply layer k 0 j)
    layer id).trans (if_pos (by omega))

/-- What one occurrence of an id does to its entry. -/
def weightSum (id : Nat) (entry : α) : α :=
  (List.range fontanaEmbedDim).foldl
    (fun entry dim => entry + dummyWeightValue ops (BitVec.ofNat 32 id) dim) entry

def entryOf (token : BitVec 32) : Option Nat :=
  if fontanaVocabSize ≤ token.toNat then none else some token.toNat

omit [Zero α] in
/-- The loop over `dim` changes the entry of its token only. -/
theorem foldl_dims (token : BitVec 32) (dims : List Nat) (layer : Nat → α) :
    dims.foldl (fun layer dim => Function.update layer token.toNat
      (layer token.toNat + dummyWeightValue ops token dim)) layer =
    Function.update layer token.toNat
      (dims.foldl (fun entry dim => entry + dummyWeightValue ops token dim) (layer token.toNat)) := by
  induction dims generalizing layer with
  | nil => exact (Function.update_eq_self token.toNat layer).symm
  | cons dim dims ih =>
    rw [List.foldl_cons, ih, List.foldl_cons, Function.update_self, Function.update_idem]

omit [Zero α] in
theorem foldl_accumulateToken (tokens : List (BitVec 32)) (layer : Nat → α) :
    tokens.foldl (accumulateToken ops) layer =
      (tokens.filterMap entryOf).foldl (bump (weightSum ops)) layer := by
  induction tokens generalizing layer with
  | nil => rfl
  | cons token tokens ih =>
    rw [List.foldl_cons, ih]
    rw [accumulateToken]
    by_cases hout : fontanaVocabSize ≤ token.toNat
    · rw [if_pos hout, List.filterMap_cons_none (show entryOf token = none from if_pos hout)]
    · rw [if_neg hout,
        List.filterMap_cons_some (show entryOf token = some token.toNat from if_neg hout),
        List.foldl_cons, foldl_dims]
      rw [bump, weightSum]
      rw [BitVec.ofNat_toNat, BitVec.setWidth_eq]

theorem count_entryOf (inputTokens : Nat → BitVec 32) {id : Nat} (hid : id < fontanaVocabSize) :
    ((contextList inputTokens).filterMap entryOf).count id =
      occurrences inputTokens (BitVec.ofNat 32 id) := by
  rw [List.count_filterMap, occurrences, List.count]
  refine List.countP_congr ?_
  intro token _
  have hlt : id < 2 ^ 32 := Nat.lt_trans hid (by decide)
  have heq : entryOf token = some id ↔ token = BitVec.ofNat 32 id := by
    rw [entryOf]
    rw [BitVec.toNat_eq, BitVec.toNat_ofNat, Nat.mod_eq_of_lt hlt]
    by_cases hout : fontanaVocabSize ≤ token.toNat
    · rw [if_pos hout]
      exact ⟨fun h => absurd h (by simp), fun h => by omega⟩
    · rw [if_neg hout, Option.some.injEq]
  rw [beq_iff_eq, beq_iff_eq, heq]

/-- **The entry of an id** is its own sum, as often as the id occurs. -/
theorem forwardPass_apply (layer : Nat → α) (inputTokens : Nat → BitVec 32) {id : Nat}
    (hid : id < fontanaVocabSize) : forwardPass ops layer inputTokens id =
      (weightSum ops id)^[occurrences inputTokens (BitVec.ofNat 32 id)] 0 := by
  have hfold : forwardPass ops layer inputTokens =
      ((contextList inputTokens).filterMap entryOf).foldl (bump (weightSum ops))
        (initTensorEngine layer) := by
    rw [← foldl_accumulateToken, contextList, List.foldl_map]
    rfl
  rw [hfold, foldl_bump, count_entryOf inputTokens hid, initTensorEngine_apply layer hid]

/-! ### Two passes -/

/-- The output of a pass over `inputTokens`. -/
def PassWrites (inputTokens : Nat → BitVec 32) (written : Option (Nat → α)) : Prop :=
  ∃ output, written = some output ∧ ∀ id < fontanaVocabSize, output id =
    (weightSum ops id)^[occurrences inputTokens (BitVec.ofNat 32 id)] 0

theorem passWrites_evaluate (layer : Nat → α) (inputTokens : Nat → BitVec 32) (output : Nat → α) :
    PassWrites ops inputTokens
      (evaluateTensorForward ops layer (some inputTokens) (some output)).2 := by
  refine ⟨copyOut (forwardPass ops layer inputTokens) output, rfl, ?_⟩
  intro id hid
  rw [copyOut_apply _ _ hid, forwardPass_apply ops layer inputTokens hid]

/-- Two calls write the same, and zero for the ids that do not occur. -/
def SamePass (inputTokens : Nat → BitVec 32) (written written' : Option (Nat → α)) : Prop :=
  ∃ output output', written = some output ∧ written' = some output' ∧
    (∀ id < fontanaVocabSize, output id = output' id) ∧
    ∀ id < fontanaVocabSize, occurrences inputTokens (BitVec.ofNat 32 id) = 0 → output id = 0

/-- **A forward pass is a function of how often each id occurs**: not of the order of the tokens,
of the ids outside of the vocabulary, of the calls before it, or of what the output array held. -/
theorem forward_pure (layer layer' : Nat → α) (before before' : List (ForwardCall α))
    (inputTokens inputTokens' : Nat → BitVec 32) (output output' : Nat → α)
    (hsame : ∀ id : BitVec 32, id.toNat < fontanaVocabSize →
      occurrences inputTokens id = occurrences inputTokens' id) :
    SamePass inputTokens
      (evaluateTensorForward ops (layerAfter ops layer before) (some inputTokens) (some output)).2
      (evaluateTensorForward ops (layerAfter ops layer' before') (some inputTokens')
        (some output')).2 := by
  obtain ⟨written, hwritten, hentries⟩ :=
    passWrites_evaluate ops (layerAfter ops layer before) inputTokens output
  obtain ⟨written', hwritten', hentries'⟩ :=
    passWrites_evaluate ops (layerAfter ops layer' before') inputTokens' output'
  refine ⟨written, written', hwritten, hwritten', fun id hid => ?_, fun id hid hzero => ?_⟩
  · have hid' : (BitVec.ofNat 32 id).toNat < fontanaVocabSize := by
      rw [BitVec.toNat_ofNat]
      exact lt_of_le_of_lt (Nat.mod_le _ _) hid
    rw [hentries id hid, hentries' id hid, hsame _ hid']
  · rw [hentries id hid, hzero]
    rfl

end

def exactOps : WeightOps Nat := ⟨1, BitVec.toNat⟩

/-- The token 5, and an unknown one behind it or in front of it. -/
def fiveFirst (i : Nat) : BitVec 32 := if i = 0 then 5 else if i = 1 then 300 else 0

def fiveSecond (i : Nat) : BitVec 32 := if i = 0 then 1000 else if i = 1 then 5 else 0

theorem forward_pure_swapped : SamePass fiveFirst
    (evaluateTensorForward exactOps (layerAfter exactOps (fun _ => 0) [])
      (some fiveFirst) (some fun _ => 0)).2
    (evaluateTensorForward exactOps
      (layerAfter exactOps (fun _ => 0) [⟨some fiveFirst, some fun _ => 0⟩])
      (some fiveSecond) (some fun _ => 9)).2 := by
  refine forward_pure exactOps _ _ _ _ _ _ _ _ ?_
  intro id hid
  have hfirst : contextList fiveFirst = [5, 300] ++ List.replicate 30 0 := by decide
  have hsecond : contextList fiveSecond = [1000, 5] ++ List.replicate 30 0 := by decide
  have hlow : id.toNat < 256 := hid
  have h300 : id ≠ 300 := fun h => absurd hlow (by rw [h]; decide)
  have h1000 : id ≠ 1000 := fun h => absurd hlow (by rw [h]; decide)
  rw [occurrences, occurrences, hfirst, hsecond, List.count_append, List.count_append]
  simp only [List.count_cons, List.count_nil, beq_iff_eq, h300.symm, h1000.symm, if_false,
    Nat.zero_add,
    Nat.add_zero]

end Antagonist
