import Antagonist.Cognition.Pipeline
import Antagonist.Graphics.Picture
import Antagonist.Task.Distro

/-!
# The loops of the threads

`display_server_thread_loop` and `cognitive_engine_thread_loop` of `src/threads.cpp` call
`switch_task` at the end of each round.  The call gives another number to
`current_running_thread_id` and returns, so the loop goes on with its next round: the number goes to
and fro, while one and the same loop runs.

The argument is the same for any body that keeps off `thread_pool` (`threadRounds_spec`).

* `display_never_yields`: **the display server** draws frame after frame, and the other thread is
  left as it was created.
* `cognition_never_yields`: **the cognitive thread** makes one and the same prediction over and
  over.
-/

namespace Antagonist.Distro

open ByteMem X86 Footprint

/-! ### Any loop -/

section

variable {σ : Type} (pool : Word) (body : Nat → σ → Mem → Option (σ × Mem))

/-- A round of a loop: its body, and `switch_task`. -/
def threadRound (k : Nat) (s : σ × ThreadPool) : Option (σ × ThreadPool) :=
  (body k s.1 s.2.mem).map fun out => (out.1, switchTask pool { s.2 with mem := out.2 })

def threadRounds (s : σ × ThreadPool) : Nat → Option (σ × ThreadPool)
  | 0 => some s
  | n + 1 => (threadRounds s n).bind (threadRound pool body n)

theorem mem_switchTask (s : ThreadPool) : (switchTask pool s).mem = s.mem := by
  rw [switchTask]
  by_cases hactive : load8 s.mem (activeState pool (nextThreadId s).toNat) = 1
  · rw [if_pos hactive]
  · rw [if_neg hactive]

def SamePool (m m' : Mem) : Prop := ∀ x < 2 ^ 32, Covers [poolRegion pool] x → m' x = m x

/-- What holds after `n` rounds, of a pool that was as the roster `a` says, in memory `m`. -/
structure RoundsDone (a : Roster) (m : Mem) (n : Nat) (s : ThreadPool) : Prop where
  samePool : SamePool pool m s.mem
  follows : ∃ b, Follows pool s b ∧ b.entries = a.entries ∧ b.running = Roster.turn a.running n

variable {pool body}

/-- **A round** goes to the next number, and leaves the threads as they are. -/
theorem RoundsDone.round {a : Roster} {m m' : Mem} {n : Nat} {s : ThreadPool}
    (H : RoundsDone pool a m n s) (hpool : Fits pool) (h₁ : (a.entries 1).isSome)
    (h₂ : (a.entries 2).isSome) (hlt : a.running < maxDistroThreads)
    (hsame : SamePool pool s.mem m') :
    RoundsDone pool a m (n + 1) (switchTask pool { s with mem := m' }) := by
  obtain ⟨b, hb, hentries, hrunning⟩ := H.follows
  have hbody := hb.step hpool (DistroStep.elsewhere s m' hsame)
  have hswitch := hbody.step hpool (DistroStep.switchTask _)
  have hthere : (b.entries b.next).isSome := by
    rw [hentries, Roster.next]
    by_cases hone : b.running = 1
    · rw [if_pos hone]
      exact h₂
    · rw [if_neg hone]
      exact h₁
  have hnext : (b.step .elsewhere).step .switchTask = { b with running := b.next } :=
    if_pos hthere
  refine ⟨?_, _, hswitch, ?_, ?_⟩
  · intro x hx hcovers
    rw [mem_switchTask]
    exact (hsame x hx hcovers).trans (H.samePool x hx hcovers)
  · rw [hnext]
    exact hentries
  · rw [hnext, Roster.turn_succ hlt, ← hrunning]
    rfl

/-- **The rounds of any loop** whose body comes to its end and keeps off the pool, with an invariant
of the body. -/
theorem threadRounds_spec (hpool : Fits pool) {I : Nat → σ → Mem → Prop}
    (hbody : ∀ k x m, I k x m → ∃ x' m', body k x m = some (x', m') ∧ I (k + 1) x' m' ∧
      SamePool pool m m')
    {s : ThreadPool} {a : Roster} (H : Follows pool s a) (h₁ : (a.entries 1).isSome)
    (h₂ : (a.entries 2).isSome) {x : σ} (hx : I 0 x s.mem) (n : Nat) : ∃ x' s',
      threadRounds pool body (x, s) n = some (x', s') ∧ I n x' s'.mem ∧
      RoundsDone pool a s.mem n s' := by
  induction n with
  | zero =>
    have hstart : RoundsDone pool a s.mem 0 s := ⟨fun _ _ _ => rfl, a, H, rfl, rfl⟩
    exact ⟨x, s, rfl, hx, hstart⟩
  | succ n ih =>
    obtain ⟨x', s', hrun, hI, hdone⟩ := ih
    obtain ⟨x'', m', hround, hI', hsame⟩ := hbody n x' s'.mem hI
    refine ⟨x'', switchTask pool { s' with mem := m' }, ?_, ?_,
      hdone.round hpool h₁ h₂ H.lt hsame⟩
    · rw [threadRounds, hrun, Option.bind_some, threadRound, hround]
      rfl
    · rw [mem_switchTask]
      exact hI'

theorem RoundsDone.running {a : Roster} {m : Mem} {n : Nat} {s : ThreadPool}
    (H : RoundsDone pool a m n s) :
    s.currentRunningThreadId = BitVec.ofNat 32 (Roster.turn a.running n) := by
  obtain ⟨b, hb, -, hrunning⟩ := H.follows
  rw [hb.running, hrunning]

end

/-! ### The display server -/

section

variable {φ : Type} (F : FloatOps φ) {pool : Word} {s : ThreadPool}

/-- `display_server_thread_loop` up to its `n`th `switch_task`; round `k` has the map `cells k`. -/
def displayServerThreadLoop (pool : Word) (cells : Nat → Cells) (p : ParticleSystem φ)
    (s : ThreadPool) (n : Nat) : Option (ParticleSystem φ × ThreadPool) :=
  threadRounds pool (fun k => displayFrame F 32 (cells k)) (p, s) n

def BelowLfb (pool : Word) : Prop :=
  pool.toNat + maxDistroThreads * threadBlockSize ≤ lfbWord 0

instance (pool : Word) : Decidable (BelowLfb pool) := inferInstanceAs (Decidable (_ ≤ _))

theorem BelowLfb.fits (h : BelowLfb pool) : Fits pool :=
  le_trans h (by decide)

theorem samePool_of_lfbOnly (hbelow : BelowLfb pool) {m m' : Mem} (h : LfbOnly m m') :
    SamePool pool m m' := by
  rintro x hx ⟨r, hr, hin⟩
  rw [List.mem_singleton.mp hr] at hin
  refine h x hx (.inl ?_)
  unfold BelowLfb at hbelow
  simp only [Region.Contains, poolRegion] at hin
  omega

/-- **The display server never yields**: once the threads 1 and 2 are there, its `n` rounds are `n`
frames, whose number alternates, and no byte of `thread_pool` is another one. -/
theorem display_never_yields (hcast : F.toInt (F.lit (9 / 2)) = 4) (hbelow : BelowLfb pool)
    {calls : List DistroOp} (h : (distroLts pool).Run calls s)
    (h₁ : ((Roster.ofCalls calls).entries 1).isSome)
    (h₂ : ((Roster.ofCalls calls).entries 2).isSome) (cells : Nat → Cells) (p : ParticleSystem φ)
    (n : Nat) : ∃ p' s', displayServerThreadLoop F pool cells p s n = some (p', s') ∧
      (∀ k, n = k + 1 → LfbShows s'.mem (picture F (cells k) p'.particlePool)) ∧
      s'.currentRunningThreadId =
        BitVec.ofNat 32 (Roster.turn (Roster.ofCalls calls).running n) ∧
      SamePool pool s.mem s'.mem := by
  have hbody : ∀ k (p : ParticleSystem φ) m,
      (∀ j, k = j + 1 → LfbShows m (picture F (cells j) p.particlePool)) →
      ∃ p' m', displayFrame F 32 (cells k) p m = some (p', m') ∧
        (∀ j, k + 1 = j + 1 → LfbShows m' (picture F (cells j) p'.particlePool)) ∧
        SamePool pool m m' := by
    intro k p m _
    obtain ⟨b, m', hframe, hshows, honly⟩ := displayFrame_shows F hcast (cells k) p m
    refine ⟨_, m', hframe, ?_, samePool_of_lfbOnly hbelow honly⟩
    intro j hj
    rw [← Nat.succ.inj hj]
    exact hshows
  obtain ⟨p', s', hrun, hshows, hdone⟩ := threadRounds_spec hbelow.fits hbody
    (follows_of_run hbelow.fits h) h₁ h₂ (x := p)
    (fun j hj => absurd hj (Nat.succ_ne_zero j).symm) n
  exact ⟨p', s', hrun, hshows, hdone.running, hdone.samePool⟩

end

/-- Three frames with both threads there: the number is 1 behind them. -/
theorem display_never_yields_three : ∃ s, (distroLts 0x200000).Run
    ([.create 1 0x101000, .create 2 0x102000] ++ []) s ∧ ∃ p' s',
      displayServerThreadLoop rationalOps 0x200000 (fun _ _ => 1) noParticles s 3 = some (p', s') ∧
      s'.currentRunningThreadId = 1 := by
  obtain ⟨s, hrun⟩ := exists_two_threads [] (by decide)
  have hcast : rationalOps.toInt (rationalOps.lit (9 / 2)) = 4 := by decide +kernel
  obtain ⟨p', s', hloop, -, hrunning, -⟩ := display_never_yields rationalOps hcast (by decide) hrun
    rfl rfl (fun _ _ => 1) noParticles 3
  exact ⟨s, hrun, p', s', hloop, hrunning⟩

/-! ### The cognitive thread -/

section

variable {α : Type} [Zero α] [Add α] [Mul α] (ops : WeightOps α) {pool : Word} {s : ThreadPool}

/-- `cognitive_engine_thread_loop` up to its `n`th `switch_task`. -/
def cognitiveEngineThreadLoop (pool : Word) (c : CognitionState α) (s : ThreadPool) (n : Nat) :
    Option (CognitionState α × ThreadPool) :=
  threadRounds pool (fun _ c m => some (cognitiveRound ops c, m)) (c, s) n

/-- What holds in front of round `k`: nothing is said any more, and the predictions are those for
what has been said, except before the first round. -/
structure Repeats (c : CognitionState α) (k : Nat) (c' : CognitionState α) : Prop where
  vocabTable : c'.vocabTable = c.vocabTable
  globalTokenizer : c'.globalTokenizer = c.globalTokenizer
  predictions : k ≠ 0 → ∀ id < fontanaVocabSize, c'.predictionProbabilities id =
    (weightSum ops id)^[occurrences c.globalTokenizer.getActiveContextReference
      (BitVec.ofNat 32 id)] 0

variable {ops} in
theorem Repeats.round {c c' : CognitionState α} {k : Nat} (H : Repeats ops c k c') :
    Repeats ops c (k + 1) (cognitiveRound ops c') := by
  refine ⟨H.vocabTable, H.globalTokenizer, ?_⟩
  intro _ id hid
  rw [predictions_cognitiveRound c' hid, H.globalTokenizer]

/-- **The cognitive thread never yields** either: all its rounds make the prediction for the context
that it has started with. -/
theorem cognition_never_yields (hpool : Fits pool) {calls : List DistroOp}
    (h : (distroLts pool).Run calls s) (h₁ : ((Roster.ofCalls calls).entries 1).isSome)
    (h₂ : ((Roster.ofCalls calls).entries 2).isSome) (c : CognitionState α) (n : Nat) :
    ∃ c' s', cognitiveEngineThreadLoop ops pool c s n = some (c', s') ∧ Repeats ops c n c' ∧
      s'.currentRunningThreadId =
        BitVec.ofNat 32 (Roster.turn (Roster.ofCalls calls).running n) ∧
      SamePool pool s.mem s'.mem := by
  have hbody : ∀ k (c' : CognitionState α) (m : Mem), Repeats ops c k c' →
      ∃ c'' m', some (cognitiveRound ops c', m) = some (c'', m') ∧ Repeats ops c (k + 1) c'' ∧
        SamePool pool m m' :=
    fun _ _ m H => ⟨_, m, rfl, H.round, fun _ _ _ => rfl⟩
  obtain ⟨c', s', hrun, hrepeats, hdone⟩ := threadRounds_spec hpool hbody (follows_of_run hpool h)
    h₁ h₂ (x := c) ⟨rfl, rfl, fun hne => absurd rfl hne⟩ n
  exact ⟨c', s', hrun, hrepeats, hdone.running, hdone.samePool⟩

end

/-- Three rounds, beside a display server that is never entered. -/
theorem cognition_never_yields_three : ∃ s, (distroLts 0x200000).Run
    ([.create 1 0x101000, .create 2 0x102000] ++ []) s ∧ ∀ c : CognitionState Nat, ∃ c' s',
      cognitiveEngineThreadLoop exactOps 0x200000 c s 3 = some (c', s') ∧
      Repeats exactOps c 3 c' ∧ s'.currentRunningThreadId = 1 := by
  obtain ⟨s, hrun⟩ := exists_two_threads [] (by decide)
  refine ⟨s, hrun, ?_⟩
  intro c
  obtain ⟨c', s', hloop, hrepeats, hrunning, -⟩ := cognition_never_yields exactOps (by decide) hrun
    rfl rfl c 3
  exact ⟨c', s', hloop, hrepeats, hrunning⟩

end Antagonist.Distro
