import Antagonist.Graphics.Buffer
import Antagonist.Lib.Lts
import Antagonist.Lib.Memory

/-!
# Particles

`src/particle.cpp`: a ring of 128 slots.  `spawn_particle` fills the slots in turn, whatever is in
them, and `update_and_render_particles` takes a tick from each particle that is active.  Over any
history, a particle is active in its slot exactly while fewer than 128 were spawned after it and
fewer updates came than its lifespan grants (`particle_lifetimes`).

* `Tagged`: the system, and for each slot the number of the particle that was put there last.
* `SlotState`: a slot, some updates after a particle was put there.
* `RingInv`: what holds after every history.
-/

namespace Antagonist

open ByteMem

def maxParticles : Nat := 128

section

variable {φ : Type}

structure Particle (φ : Type) where
  active : BitVec 8
  position : FloatVec φ
  velocity : FloatVec φ
  color : BitVec 32
  lifetimeTicks : BitVec 32

/-- The variables of the file, and the canvas that it draws on. -/
structure ParticleSystem (φ : Type) where
  particlePool : Nat → Particle φ
  nextParticleSlot : Nat
  backBuffer : BackBuffer

/-- The arguments of `spawn_particle`, with a lifespan above the least `int`. -/
structure SpawnArgs (φ : Type) where
  pos : FloatVec φ
  vel : FloatVec φ
  color : BitVec 32
  lifespan : BitVec 32
  above_least : -2 ^ 31 < lifespan.toInt

/-- What `init_particle_system` does to a slot. -/
def clearParticle (p : Particle φ) : Particle φ := { p with active := 0, lifetimeTicks := 0 }

def initParticleSystem (s : ParticleSystem φ) : ParticleSystem φ :=
  { s with
    particlePool := (List.range maxParticles).foldl (fun pool i =>
      Function.update pool i (clearParticle (pool i))) s.particlePool
    nextParticleSlot := 0 }

def spawnParticle (a : SpawnArgs φ) (s : ParticleSystem φ) : ParticleSystem φ :=
  { s with
    particlePool := Function.update s.particlePool s.nextParticleSlot
      ⟨1, a.pos, a.vel, a.color, a.lifespan⟩
    nextParticleSlot := (s.nextParticleSlot + 1) % maxParticles }

section

variable (F : FloatOps φ)

/-- The 2x2 block of a particle, at the place where its position is projected to. -/
def renderParticle (p : Particle φ) (backBuffer : BackBuffer) : BackBuffer :=
  let px := F.toInt (F.add (F.mul p.position.y (F.lit 40)) (F.ofInt (screenWidth / 2)))
  let py := F.toInt (F.add (F.mul p.position.z (F.lit 40)) (F.ofInt (screenHeight / 2)))
  if 0 ≤ px ∧ px < screenWidth - 1 ∧ 0 ≤ py ∧ py < screenHeight - 1 then
    let b := putPixelBuffer backBuffer (BitVec.ofInt 32 px) (BitVec.ofInt 32 py) p.color
    let b := putPixelBuffer b (BitVec.ofInt 32 (px + 1)) (BitVec.ofInt 32 py) p.color
    let b := putPixelBuffer b (BitVec.ofInt 32 px) (BitVec.ofInt 32 (py + 1)) p.color
    putPixelBuffer b (BitVec.ofInt 32 (px + 1)) (BitVec.ofInt 32 (py + 1)) p.color
  else backBuffer

def tickParticle (p : Particle φ) : Particle φ :=
  if p.active = 0 then p
  else
    let p := { p with lifetimeTicks := p.lifetimeTicks - 1 }
    if p.lifetimeTicks.toInt ≤ 0 then { p with active := 0 }
    else { p with position := ⟨F.add p.position.x p.velocity.x, F.add p.position.y p.velocity.y,
      F.add p.position.z p.velocity.z⟩ }

/-- A round of the loop in `update_and_render_particles`. -/
def updateParticle (s : ParticleSystem φ) (i : Nat) : ParticleSystem φ :=
  let p := tickParticle F (s.particlePool i)
  { s with
    particlePool := Function.update s.particlePool i p
    backBuffer := if p.active = 0 then s.backBuffer else renderParticle F p s.backBuffer }

def updateAndRenderParticles (s : ParticleSystem φ) : ParticleSystem φ :=
  (List.range maxParticles).foldl (updateParticle F) s

end

/-! ### Histories -/

inductive ParticleCall (φ : Type)
  | spawn (a : SpawnArgs φ)
  | update

/-- The system, for each slot the number of the particle that was put there last, and how many
were spawned. -/
structure Tagged (φ : Type) where
  system : ParticleSystem φ
  owner : Nat → Option Nat
  spawned : Nat

/-- A call.  The number of a new particle goes with the slot that `spawn_particle` writes. -/
def ParticleCall.apply (F : FloatOps φ) (t : Tagged φ) : ParticleCall φ → Tagged φ
  | .spawn a => ⟨spawnParticle a t.system,
      Function.update t.owner t.system.nextParticleSlot (some t.spawned), t.spawned + 1⟩
  | .update => { t with system := updateAndRenderParticles F t.system }

/-- The calls `h`, oldest first, after `init_particle_system`. -/
def afterHistory (F : FloatOps φ) (s : ParticleSystem φ) (h : List (ParticleCall φ)) : Tagged φ :=
  h.foldl (ParticleCall.apply F) ⟨initParticleSystem s, fun _ => none, 0⟩

def spawnCount : List (ParticleCall φ) → Nat
  | [] => 0
  | .spawn _ :: h => spawnCount h + 1
  | .update :: h => spawnCount h

def updateCount : List (ParticleCall φ) → Nat
  | [] => 0
  | .spawn _ :: h => updateCount h
  | .update :: h => updateCount h + 1

def Tagged.slotOf (t : Tagged φ) (j : Nat) : Particle φ :=
  t.system.particlePool (j % maxParticles)

def Tagged.ActiveIn (t : Tagged φ) (j : Nat) : Prop :=
  t.owner (j % maxParticles) = some j ∧ (t.slotOf j).active ≠ 0

/-- The law of the ring, after the history `h`.  A particle is given by the call that spawned it:
`before` are the calls before that one, and `after` the calls since. -/
structure ParticleLaw (h : List (ParticleCall φ)) (t : Tagged φ) : Prop where
  /-- The particles are numbered in the order of the calls. -/
  numbered : ∀ j, (∃ before a after, h = before ++ .spawn a :: after ∧ spawnCount before = j) ↔
    j < t.spawned
  active_iff : ∀ before a after, h = before ++ .spawn a :: after →
    (t.ActiveIn (spawnCount before) ↔
      spawnCount after < 128 ∧ (updateCount after : Int) < max a.lifespan.toInt 1)
  fields : ∀ before a after, h = before ++ .spawn a :: after → t.ActiveIn (spawnCount before) →
    (t.slotOf (spawnCount before)).lifetimeTicks.toInt = a.lifespan.toInt - updateCount after ∧
      (t.slotOf (spawnCount before)).velocity = a.vel ∧
      (t.slotOf (spawnCount before)).color = a.color
  /-- A slot is inactive unless an active particle is in it. -/
  others : ∀ i < 128, (∀ j, j % 128 = i → ¬ t.ActiveIn j) →
    (t.system.particlePool i).active = 0
  /-- A particle goes into a slot that had none, as long as there is one, -/
  fresh : spawnCount h < 128 → t.owner t.system.nextParticleSlot = none
  /-- and then into that of the oldest one. -/
  oldest : 128 ≤ spawnCount h → ∃ k, t.owner t.system.nextParticleSlot = some k ∧
    ∀ i < 128, ∀ j, t.owner i = some j → k ≤ j

/-! ### One slot -/

/-- The slot holds the particle, `k` updates after it was put there. -/
structure SlotState (p : Particle φ) (a : SpawnArgs φ) (k : Nat) : Prop where
  active_iff : p.active ≠ 0 ↔ (k : Int) < max a.lifespan.toInt 1
  lifetime : p.active ≠ 0 → p.lifetimeTicks.toInt = a.lifespan.toInt - k
  velocity : p.velocity = a.vel
  color : p.color = a.color

theorem slotState_spawn (a : SpawnArgs φ) :
    SlotState (⟨1, a.pos, a.vel, a.color, a.lifespan⟩ : Particle φ) a 0 := by
  refine ⟨?_, ?_, rfl, rfl⟩
  · exact iff_of_true (by decide : (1 : BitVec 8) ≠ 0) (by omega)
  · intro _
    exact (Int.sub_zero _).symm

theorem toInt_sub_one {v : BitVec 32} (hv : -2 ^ 31 < v.toInt) : (v - 1).toInt = v.toInt - 1 := by
  have hlt := BitVec.toInt_lt (x := v)
  rw [BitVec.toInt_sub]
  have hone : (1 : BitVec 32).toInt = 1 := by decide
  rw [hone, Int.bmod_eq_of_le (by omega) (by omega)]

/-- **An update takes one tick**, and the particle goes out with its last one. -/
theorem SlotState.tick {p : Particle φ} {a : SpawnArgs φ} {k : Nat} (H : SlotState p a k)
    (F : FloatOps φ) : SlotState (tickParticle F p) a (k + 1) := by
  have habove := a.above_least
  by_cases hp : p.active = 0
  · rw [tickParticle, if_pos hp]
    have hdead : ¬ (k : Int) < max a.lifespan.toInt 1 := fun h => H.active_iff.mpr h hp
    refine ⟨iff_of_false (fun h => h hp) (by omega), fun h => absurd hp h, H.velocity, H.color⟩
  · have hk := H.active_iff.mp hp
    have hlife := H.lifetime hp
    have hdec : (p.lifetimeTicks - 1).toInt = a.lifespan.toInt - (k + 1) := by
      rw [toInt_sub_one (by omega), hlife]
      omega
    rw [tickParticle, if_neg hp]
    simp only
    by_cases hend : (p.lifetimeTicks - 1).toInt ≤ 0
    · rw [if_pos hend]
      exact ⟨iff_of_false (fun h => h rfl) (by omega), fun h => absurd rfl h, H.velocity, H.color⟩
    · rw [if_neg hend]
      refine ⟨iff_of_true hp (by omega), ?_, H.velocity, H.color⟩
      intro _
      rw [hdec]
      omega

/-! ### The loops -/

theorem initParticleSystem_active (s : ParticleSystem φ) {i : Nat} (hi : i < maxParticles) :
    ((initParticleSystem s).particlePool i).active = 0 := by
  have hloop : (List.range maxParticles).foldl
      (fun pool i => Function.update pool i (clearParticle (pool i))) s.particlePool i =
      if i < maxParticles then clearParticle (s.particlePool i) else s.particlePool i :=
    foldl_range_map (fun pool => pool) (fun _ p => clearParticle p)
      (fun _ _ _ _ => Function.update_apply ..) s.particlePool i
  rw [if_pos hi] at hloop
  exact congrArg Particle.active hloop

theorem updateAndRenderParticles_pool (F : FloatOps φ) (s : ParticleSystem φ) {i : Nat}
    (hi : i < maxParticles) : (updateAndRenderParticles F s).particlePool i =
      tickParticle F (s.particlePool i) := by
  have hloop : (updateAndRenderParticles F s).particlePool i =
      if i < maxParticles then tickParticle F (s.particlePool i) else s.particlePool i :=
    foldl_range_map (fun s => s.particlePool) (fun _ p => tickParticle F p)
      (fun _ _ _ _ => Function.update_apply ..) s i
  rw [if_pos hi] at hloop
  exact hloop

theorem updateAndRenderParticles_next (F : FloatOps φ) (s : ParticleSystem φ) :
    (updateAndRenderParticles F s).nextParticleSlot = s.nextParticleSlot := by
  rw [updateAndRenderParticles]
  induction List.range maxParticles generalizing s with
  | nil => rfl
  | cons i l ih => exact ih (updateParticle F s i)

theorem spawnCount_append (h k : List (ParticleCall φ)) :
    spawnCount (h ++ k) = spawnCount h + spawnCount k := by
  induction h with
  | nil => exact (Nat.zero_add _).symm
  | cons c h ih =>
    cases c with
    | spawn a => simp only [List.cons_append, spawnCount, ih]; omega
    | update => simp only [List.cons_append, spawnCount, ih]

theorem updateCount_append (h k : List (ParticleCall φ)) :
    updateCount (h ++ k) = updateCount h + updateCount k := by
  induction h with
  | nil => exact (Nat.zero_add _).symm
  | cons c h ih =>
    cases c with
    | spawn a => simp only [List.cons_append, updateCount, ih]
    | update => simp only [List.cons_append, updateCount, ih]; omega

/-- The particles of a history: those spawned before one of them, itself, and those after it. -/
theorem spawnCount_split {h before after : List (ParticleCall φ)} {a : SpawnArgs φ}
    (he : h = before ++ .spawn a :: after) :
    spawnCount h = spawnCount before + (spawnCount after + 1) := by
  rw [he, spawnCount_append]
  rfl

/-- The particle of number `j` was spawned by some call, if so many were spawned. -/
theorem exists_spawn_iff (h : List (ParticleCall φ)) (j : Nat) :
    (∃ before a after, h = before ++ .spawn a :: after ∧ spawnCount before = j) ↔
      j < spawnCount h := by
  refine ⟨?_, ?_⟩
  · rintro ⟨before, a, after, he, rfl⟩
    rw [spawnCount_split he]
    exact Nat.lt_add_of_pos_right (Nat.succ_pos _)
  · intro hj
    induction h generalizing j with
    | nil => exact absurd hj (Nat.not_lt_zero j)
    | cons c h ih =>
      cases c with
      | update =>
        obtain ⟨before, a, after, rfl, hb⟩ := ih j hj
        exact ⟨.update :: before, a, after, rfl, hb⟩
      | spawn b =>
        cases j with
        | zero => exact ⟨[], b, h, rfl, rfl⟩
        | succ j =>
          obtain ⟨before, a, after, rfl, hb⟩ := ih j (Nat.lt_of_succ_lt_succ hj)
          exact ⟨.spawn b :: before, a, after, rfl, congrArg (· + 1) hb⟩

/-! ### The ring -/

/-- What holds after every history: which particle is in which slot, and how old it is. -/
structure RingInv (h : List (ParticleCall φ)) (t : Tagged φ) : Prop where
  spawned : t.spawned = spawnCount h
  next : t.system.nextParticleSlot = spawnCount h % maxParticles
  owner_iff : ∀ i < maxParticles, ∀ j, t.owner i = some j ↔
    j % maxParticles = i ∧ j < spawnCount h ∧ spawnCount h ≤ j + maxParticles
  slots : ∀ before a after, h = before ++ .spawn a :: after → spawnCount after < maxParticles →
    SlotState (t.slotOf (spawnCount before)) a (updateCount after)
  untouched : ∀ i < maxParticles, spawnCount h ≤ i → (t.system.particlePool i).active = 0

section

variable {h : List (ParticleCall φ)} {t : Tagged φ}

theorem ringInv_init (s : ParticleSystem φ) :
    RingInv [] (⟨initParticleSystem s, fun _ => none, 0⟩ : Tagged φ) := by
  refine ⟨rfl, rfl, ?_, ?_, ?_⟩
  · intro i _ j
    exact iff_of_false (by simp) (fun hj => absurd hj.2.1 (Nat.not_lt_zero j))
  · intro before a after he
    cases before <;> cases he
  · intro i hi _
    exact initParticleSystem_active s hi

/-- A spawn takes the slot of the particle 128 numbers before, or one that was never taken. -/
theorem RingInv.spawn (H : RingInv h t) (F : FloatOps φ) (a : SpawnArgs φ) :
    RingInv (h ++ [.spawn a]) ((ParticleCall.spawn a).apply F t) := by
  have hcount : spawnCount (h ++ [.spawn a]) = spawnCount h + 1 := spawnCount_append h _
  have hpos : spawnCount h % maxParticles < maxParticles := Nat.mod_lt _ (by decide)
  have hpool : ∀ i, ((ParticleCall.spawn a).apply F t).system.particlePool i =
      if i = spawnCount h % maxParticles then ⟨1, a.pos, a.vel, a.color, a.lifespan⟩
      else t.system.particlePool i := by
    intro i
    show Function.update t.system.particlePool t.system.nextParticleSlot _ i = _
    rw [H.next, Function.update_apply]
  refine ⟨?_, ?_, ?_, ?_, ?_⟩
  · rw [hcount, ← H.spawned]
    rfl
  · rw [hcount]
    show (t.system.nextParticleSlot + 1) % maxParticles = _
    rw [H.next]
    simp only [maxParticles]
    omega
  · intro i hi j
    show Function.update t.owner t.system.nextParticleSlot (some t.spawned) i = some j ↔ _
    rw [hcount, H.next, H.spawned, Function.update_apply]
    by_cases hslot : i = spawnCount h % maxParticles
    · rw [if_pos hslot, Option.some.injEq]
      simp only [maxParticles] at hslot ⊢
      omega
    · rw [if_neg hslot, H.owner_iff i hi j]
      simp only [maxParticles] at hslot ⊢
      omega
  · intro before b after he hlt
    rw [Tagged.slotOf, hpool]
    rcases Lts.snoc_eq_split he with ⟨rfl, hb, rfl⟩ | ⟨after', hh, rfl⟩
    · cases hb
      rw [if_pos rfl]
      exact slotState_spawn a
    · have hafter : spawnCount (after' ++ [.spawn a]) = spawnCount after' + 1 :=
        spawnCount_append after' _
      have hsum := spawnCount_split hh
      have hupdates : updateCount (after' ++ [.spawn a]) = updateCount after' :=
        updateCount_append after' _
      rw [hafter] at hlt
      rw [hupdates, if_neg]
      · exact H.slots before b after' hh (by omega)
      · simp only [maxParticles] at hlt ⊢
        omega
  · intro i hi hle
    rw [hcount] at hle
    rw [hpool, if_neg]
    · exact H.untouched i hi (by omega)
    · simp only [maxParticles] at hi ⊢
      omega

theorem RingInv.update (H : RingInv h t) (F : FloatOps φ) :
    RingInv (h ++ [.update]) (ParticleCall.update.apply F t) := by
  have hcount : spawnCount (h ++ [.update]) = spawnCount h := spawnCount_append h _
  have hpool : ∀ i < maxParticles, (ParticleCall.update.apply F t).system.particlePool i =
      tickParticle F (t.system.particlePool i) :=
    fun i hi => updateAndRenderParticles_pool F t.system hi
  refine ⟨?_, ?_, ?_, ?_, ?_⟩
  · rw [hcount]
    exact H.spawned
  · rw [hcount, ← H.next]
    exact updateAndRenderParticles_next F t.system
  · intro i hi j
    rw [hcount]
    exact H.owner_iff i hi j
  · intro before b after he hlt
    rw [Tagged.slotOf, hpool _ (Nat.mod_lt _ (by decide))]
    rcases Lts.snoc_eq_split he with ⟨_, hb, _⟩ | ⟨after', hh, rfl⟩
    · cases hb
    · have hafter : spawnCount (after' ++ [.update]) = spawnCount after' :=
        spawnCount_append after' _
      have hupdates : updateCount (after' ++ [.update]) = updateCount after' + 1 :=
        updateCount_append after' _
      rw [hafter] at hlt
      rw [hupdates]
      exact (H.slots before b after' hh hlt).tick F
  · intro i hi hle
    rw [hcount] at hle
    rw [hpool i hi, tickParticle, if_pos (H.untouched i hi hle)]
    exact H.untouched i hi hle

/-- **The ring keeps its invariant** over every history. -/
theorem ringInv_afterHistory (F : FloatOps φ) (s : ParticleSystem φ) (h : List (ParticleCall φ)) :
    RingInv h (afterHistory F s h) := by
  induction h using List.reverseRecOn with
  | nil => exact ringInv_init s
  | append_singleton h c ih =>
    rw [afterHistory, List.foldl_concat]
    cases c with
    | spawn a => exact ih.spawn F a
    | update => exact ih.update F

/-- A particle is in its slot as long as fewer than 128 were spawned after it. -/
theorem RingInv.owner_spawned (H : RingInv h t) {before after : List (ParticleCall φ)}
    {a : SpawnArgs φ} (he : h = before ++ .spawn a :: after) :
    t.owner (spawnCount before % maxParticles) = some (spawnCount before) ↔
      spawnCount after < 128 := by
  rw [H.owner_iff _ (Nat.mod_lt _ (by decide)), spawnCount_split he]
  simp only [maxParticles, true_and]
  omega

/-- Whether the particle is active is a matter of the calls since it was spawned. -/
theorem RingInv.activeIn_iff (H : RingInv h t) {before after : List (ParticleCall φ)}
    {a : SpawnArgs φ} (he : h = before ++ .spawn a :: after) : t.ActiveIn (spawnCount before) ↔
      spawnCount after < 128 ∧ (updateCount after : Int) < max a.lifespan.toInt 1 := by
  rw [Tagged.ActiveIn, H.owner_spawned he]
  exact and_congr_right fun hlt => (H.slots before a after he hlt).active_iff

theorem RingInv.inactive (H : RingInv h t) {i : Nat} (hi : i < maxParticles)
    (hnone : ∀ j, j % maxParticles = i → ¬ t.ActiveIn j) :
    (t.system.particlePool i).active = 0 := by
  cases howner : t.owner i with
  | none =>
    refine H.untouched i hi (Nat.le_of_not_lt ?_)
    intro hlt
    -- otherwise the last particle that fell on the slot is still in it
    have hlast := (H.owner_iff i hi (spawnCount h - 1 - (spawnCount h - 1 - i) % 128)).mpr (by
      simp only [maxParticles] at hi ⊢
      omega)
    rw [howner] at hlast
    cases hlast
  | some j =>
    have hj := ((H.owner_iff i hi j).mp howner).1
    have hdead := hnone j hj
    rw [Tagged.ActiveIn, Tagged.slotOf, hj] at hdead
    exact not_not.mp fun hne => hdead ⟨howner, hne⟩

theorem RingInv.next_fresh (H : RingInv h t) (hlt : spawnCount h < 128) :
    t.owner t.system.nextParticleSlot = none := by
  cases howner : t.owner t.system.nextParticleSlot with
  | none => rfl
  | some j =>
    rw [H.next] at howner
    have hj := (H.owner_iff _ (Nat.mod_lt _ (by decide)) j).mp howner
    simp only [maxParticles] at hj
    omega

theorem RingInv.next_oldest (H : RingInv h t) (hle : 128 ≤ spawnCount h) :
    ∃ k, t.owner t.system.nextParticleSlot = some k ∧
      ∀ i < 128, ∀ j, t.owner i = some j → k ≤ j := by
  refine ⟨spawnCount h - 128, ?_, ?_⟩
  · rw [H.next, H.owner_iff _ (Nat.mod_lt _ (by decide))]
    simp only [maxParticles]
    omega
  · intro i hi j hj
    have hmem := (H.owner_iff i hi j).mp hj
    simp only [maxParticles] at hmem
    omega

/-- **Particle lifetimes.** -/
theorem particle_lifetimes (F : FloatOps φ) (s : ParticleSystem φ) (h : List (ParticleCall φ)) :
    ParticleLaw h (afterHistory F s h) := by
  have H := ringInv_afterHistory F s h
  refine ⟨?_, ?_, ?_, ?_, H.next_fresh, H.next_oldest⟩
  · intro j
    rw [H.spawned]
    exact exists_spawn_iff h j
  · intro before a after he
    exact H.activeIn_iff he
  · intro before a after he hin
    have hslot := H.slots before a after he ((H.activeIn_iff he).mp hin).1
    exact ⟨hslot.lifetime hin.2, hslot.velocity, hslot.color⟩
  · intro i hi hnone
    exact H.inactive hi hnone

end

end

end Antagonist
