import Antagonist.Cognition.Tensor
import Mathlib.Algebra.BigOperators.Group.Finset.Piecewise

/-!
# What the cognitive thread predicts

The table of `src/vocab.cpp`, the context of `src/tokenizer.cpp` and the layer of `src/tensor.cpp`
are one system: words are mapped, words are tokenized and pushed, and each round of
`cognitive_engine_thread_loop` of `src/threads.cpp` evaluates the context.  The calls come in any
order.

A `Conversation` says what they amount to: the strings of each id, the tokens so far, and the
tokens at the last round.

* `Conversation.token`: the token of a word, by the strings alone.
* `FollowsConversation.step`: each call follows the conversation.
* `cognition_run`: **the tokens and the predictions** after any calls.
-/

namespace Antagonist

open Scrollback TokenizerState

/-! ### The calls -/

/-- The state of the three files, and `prediction_probabilities` of the thread. -/
structure CognitionState (α : Type) where
  vocabTable : VocabTable
  globalTokenizer : TokenizerState
  staticOutputLayer : Nat → α
  predictionProbabilities : Nat → α

/-- The calls of the three files. -/
inductive CognitionCall
  | initVocab
  | addMapping (c : VocabCall)
  | initRouting
  | push (tokenId : BitVec 32)
  /-- `push_token_to_context(tokenize_string_slice(word))`. -/
  | say (wordStr : Option CText)
  | initEngine
  /-- A round of `cognitive_engine_thread_loop`. -/
  | round

section

variable {α : Type} [Zero α]

/-- The three files after their initialisation, and the thread in front of its loop. -/
def CognitionState.boot (s : CognitionState α) : CognitionState α where
  vocabTable := initVocabParser s.vocabTable
  globalTokenizer := s.globalTokenizer.initTokenizerRouting
  staticOutputLayer := initTensorEngine s.staticOutputLayer
  predictionProbabilities _ := 0

variable [Add α] [Mul α] (ops : WeightOps α)

/-- The body of the loop of `cognitive_engine_thread_loop`, up to `switch_task`. -/
def cognitiveRound (s : CognitionState α) : CognitionState α :=
  let activeContext := getActiveContextReference s.globalTokenizer
  let written := evaluateTensorForward ops s.staticOutputLayer (some activeContext)
    (some s.predictionProbabilities)
  { s with
    staticOutputLayer := written.1
    predictionProbabilities := written.2.getD s.predictionProbabilities }

def cognitionStep (s : CognitionState α) : CognitionCall → CognitionState α
  | .initVocab => { s with vocabTable := initVocabParser s.vocabTable }
  | .addMapping c => { s with vocabTable := addVocabMapping s.vocabTable c.tokenId c.str }
  | .initRouting => { s with globalTokenizer := s.globalTokenizer.initTokenizerRouting }
  | .push tokenId => { s with globalTokenizer := s.globalTokenizer.pushTokenToContext tokenId }
  | .say wordStr =>
      { s with
        globalTokenizer := s.globalTokenizer.pushTokenToContext
          (tokenizeStringSlice s.vocabTable wordStr) }
  | .initEngine => { s with staticOutputLayer := initTensorEngine s.staticOutputLayer }
  | .round => cognitiveRound ops s

def cognitionRun (s : CognitionState α) (calls : List CognitionCall) : CognitionState α :=
  calls.foldl (cognitionStep ops) s.boot

end

/-! ### What they amount to -/

/-- The mappings since the table was cleared, the tokens since the context was, and the tokens at
the last round. -/
structure Conversation where
  mappings : List VocabCall
  tokens : List (BitVec 32)
  evaluated : Option (List (BitVec 32))

namespace Conversation

/-- The token of a word: the lowest id that has it, zero for no word, 255 for an unknown one. -/
def token (conv : Conversation) (wordStr : Option CText) : BitVec 32 :=
  match wordStr with
  | none => 0
  | some word =>
      if word.val = [] then 0
      else
        match (List.range fontanaVocabSize).find? fun id =>
            decide (storedString conv.mappings id = word.val) with
        | some id => BitVec.ofNat 32 id
        | none => 255

def step (conv : Conversation) : CognitionCall → Conversation
  | .initVocab => { conv with mappings := [] }
  | .addMapping c => { conv with mappings := conv.mappings ++ [c] }
  | .initRouting => { conv with tokens := [] }
  | .push tokenId => { conv with tokens := conv.tokens ++ [tokenId] }
  | .say wordStr => { conv with tokens := conv.tokens ++ [conv.token wordStr] }
  | .initEngine => conv
  | .round => { conv with evaluated := some conv.tokens }

def ofCalls (calls : List CognitionCall) : Conversation := calls.foldl step ⟨[], [], none⟩

/-- How often `id` counts among `tokens`: its occurrences among the last 32, and for zero the places
that are still empty. -/
def weightOf (tokens : List (BitVec 32)) (id : Nat) : Nat :=
  (tokens.drop (tokens.length - fontanaContextLen)).count (BitVec.ofNat 32 id) +
    if id = 0 then fontanaContextLen - tokens.length else 0

/-- How often `id` counted at the last round. -/
def counted (conv : Conversation) (id : Nat) : Nat :=
  match conv.evaluated with
  | none => 0
  | some tokens => weightOf tokens id

end Conversation

open Conversation

theorem count_window (tokens : List (BitVec 32)) {id : Nat} (hid : id < fontanaVocabSize) :
    (window fontanaContextLen 0 tokens).count (BitVec.ofNat 32 id) = weightOf tokens id := by
  have hzero : ((0 : BitVec 32) == BitVec.ofNat 32 id) = true ↔ id = 0 := by
    rw [beq_iff_eq, eq_comm]
    exact ofNat_inj hid (by decide)
  rw [window, List.count_append, List.count_replicate, weightOf]
  exact congrArg _ (if_congr hzero rfl rfl)

theorem sum_count_ofNat_le (tokens : List (BitVec 32)) :
    ∑ id ∈ Finset.range fontanaVocabSize, tokens.count (BitVec.ofNat 32 id) ≤ tokens.length := by
  induction tokens with
  | nil => exact Nat.le_of_eq (Finset.sum_eq_zero fun _ _ => List.count_nil)
  | cons token tokens ih =>
    have hone : ∑ id ∈ Finset.range fontanaVocabSize,
        (if token = BitVec.ofNat 32 id then 1 else 0) ≤ 1 := by
      rw [← Finset.card_filter]
      refine Finset.card_le_one.mpr ?_
      intro i hi j hj
      rw [Finset.mem_filter, Finset.mem_range] at hi hj
      exact (ofNat_inj hi.1 hj.1).mp (hi.2.symm.trans hj.2)
    have hsplit : ∑ id ∈ Finset.range fontanaVocabSize,
        (token :: tokens).count (BitVec.ofNat 32 id) =
        ∑ id ∈ Finset.range fontanaVocabSize, tokens.count (BitVec.ofNat 32 id) +
          ∑ id ∈ Finset.range fontanaVocabSize, (if token = BitVec.ofNat 32 id then 1 else 0) := by
      rw [← Finset.sum_add_distrib]
      refine Finset.sum_congr rfl ?_
      intro id _
      rw [List.count_cons]
      exact congrArg _ (if_congr beq_iff_eq rfl rfl)
    rw [hsplit, List.length_cons]
    exact Nat.add_le_add ih hone

theorem sum_counted_le (conv : Conversation) :
    ∑ id ∈ Finset.range fontanaVocabSize, conv.counted id ≤ fontanaContextLen := by
  cases hevaluated : conv.evaluated with
  | none =>
    refine Nat.le_trans (Nat.le_of_eq (Finset.sum_eq_zero ?_)) (Nat.zero_le _)
    intro id _
    rw [counted, hevaluated]
  | some tokens =>
    have hcounted : ∀ id ∈ Finset.range fontanaVocabSize, conv.counted id =
        (window fontanaContextLen 0 tokens).count (BitVec.ofNat 32 id) := by
      intro id hid
      rw [counted, hevaluated]
      exact (count_window tokens (Finset.mem_range.mp hid)).symm
    rw [Finset.sum_congr rfl hcounted]
    exact (sum_count_ofNat_le _).trans_eq (length_window fontanaContextLen 0 tokens)

/-! ### Each call -/

section

variable {α : Type} [Zero α] [Add α] [Mul α] (ops : WeightOps α)

/-- The state holds what the conversation says. -/
structure FollowsConversation (s : CognitionState α) (conv : Conversation) : Prop where
  strings : ∃ t₀, s.vocabTable = afterMappings t₀ conv.mappings
  context : HoldsContext s.globalTokenizer conv.tokens
  predictions : ∀ id < fontanaVocabSize,
    s.predictionProbabilities id = (weightSum ops id)^[conv.counted id] 0

theorem followsConversation_boot (s : CognitionState α) :
    FollowsConversation ops s.boot (ofCalls []) where
  strings := ⟨s.vocabTable, rfl⟩
  context := holdsContext_init s.globalTokenizer
  predictions _ _ := rfl

variable {ops} {s : CognitionState α} {conv : Conversation}

theorem predictions_cognitiveRound (s : CognitionState α) {id : Nat} (hid : id < fontanaVocabSize) :
    (cognitiveRound ops s).predictionProbabilities id =
      (weightSum ops id)^[occurrences s.globalTokenizer.getActiveContextReference
        (BitVec.ofNat 32 id)] 0 := by
  obtain ⟨output, hwritten, hentries⟩ := passWrites_evaluate ops s.staticOutputLayer
    (getActiveContextReference s.globalTokenizer) s.predictionProbabilities
  rw [← hentries id hid, cognitiveRound]
  rw [hwritten]
  rfl

theorem FollowsConversation.tokenize (H : FollowsConversation ops s conv)
    (wordStr : Option CText) : tokenizeStringSlice s.vocabTable wordStr = conv.token wordStr := by
  obtain ⟨t₀, hstrings⟩ := H.strings
  cases wordStr with
  | none => rfl
  | some word =>
    rw [hstrings, tokenizeStringSlice_eq]
    rfl

theorem FollowsConversation.round (H : FollowsConversation ops s conv) :
    FollowsConversation ops (cognitiveRound ops s) (conv.step .round) := by
  refine ⟨H.strings, H.context, ?_⟩
  intro id hid
  rw [predictions_cognitiveRound s hid, occurrences, H.context.history, count_window conv.tokens hid]
  rfl

/-- **Each call** follows the conversation. -/
theorem FollowsConversation.step (H : FollowsConversation ops s conv) (c : CognitionCall) :
    FollowsConversation ops (cognitionStep ops s c) (conv.step c) := by
  cases c with
  | initVocab => exact ⟨⟨s.vocabTable, rfl⟩, H.context, H.predictions⟩
  | addMapping c =>
    obtain ⟨t₀, hstrings⟩ := H.strings
    refine ⟨⟨t₀, ?_⟩, H.context, H.predictions⟩
    show addVocabMapping s.vocabTable c.tokenId c.str = afterMappings t₀ (conv.mappings ++ [c])
    rw [hstrings, afterMappings, afterMappings, List.foldl_concat]
  | initRouting => exact ⟨H.strings, holdsContext_init s.globalTokenizer, H.predictions⟩
  | push tokenId => exact ⟨H.strings, H.context.push tokenId, H.predictions⟩
  | say wordStr =>
    refine ⟨H.strings, ?_, H.predictions⟩
    show HoldsContext (s.globalTokenizer.pushTokenToContext
      (tokenizeStringSlice s.vocabTable wordStr)) (conv.tokens ++ [conv.token wordStr])
    rw [H.tokenize]
    exact H.context.push (conv.token wordStr)
  | initEngine => exact ⟨H.strings, H.context, H.predictions⟩
  | round => exact H.round

variable (ops)

theorem followsConversation_run (s : CognitionState α) (calls : List CognitionCall) :
    FollowsConversation ops (cognitionRun ops s calls) (ofCalls calls) := by
  induction calls using List.reverseRecOn with
  | nil => exact followsConversation_boot ops s
  | append_singleton calls c ih =>
    have hstep : cognitionRun ops s (calls ++ [c]) =
        cognitionStep ops (cognitionRun ops s calls) c := List.foldl_concat _ _ _ _
    have hconv : ofCalls (calls ++ [c]) = (ofCalls calls).step c := List.foldl_concat _ _ _ _
    rw [hstep, hconv]
    exact ih.step c

/-- **What the thread predicts**, after any calls in any order: a word has the token that the
mappings so far give it, an id its own sum, as often as it counted at the last round, and all ids
share the places of the context. -/
theorem cognition_run (s : CognitionState α) (calls : List CognitionCall) :
    (∀ wordStr, tokenizeStringSlice (cognitionRun ops s calls).vocabTable wordStr =
      (ofCalls calls).token wordStr) ∧
    (∀ id < fontanaVocabSize, (cognitionRun ops s calls).predictionProbabilities id =
      (weightSum ops id)^[(ofCalls calls).counted id] 0) ∧
    ∑ id ∈ Finset.range fontanaVocabSize, (ofCalls calls).counted id ≤ fontanaContextLen := by
  have H := followsConversation_run ops s calls
  exact ⟨H.tokenize, H.predictions, sum_counted_le _⟩

end

end Antagonist
