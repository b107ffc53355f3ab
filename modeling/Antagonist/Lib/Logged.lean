import Mathlib.Data.List.Basic

/-!
# Computations with a log

`Logged ι α` is a value of type `α` together with what was logged on the way to
it, oldest first.  A program that indexes arrays is written over it to say which
indices it uses; `val` forgets the log again.

`All P x` says that `P` holds of everything logged.  It is proved along the
program: `all_bind` for two steps, `all_foldl` for a loop.

`LogsChanges cells before x` says that the log is complete: a cell that it does not
name is as it was `before`.  It is proved along the program too.
-/

structure Logged (ι α : Type) where
  val : α
  log : List ι

namespace Logged

variable {ι α β γ : Type}

instance : Monad (Logged ι) where
  pure a := ⟨a, []⟩
  bind x f := ⟨(f x.val).val, x.log ++ (f x.val).log⟩

/-- The value `a`, with one entry. -/
def entry (i : ι) (a : α) : Logged ι α := ⟨a, [i]⟩

def foldl (f : α → β → Logged ι α) : α → List β → Logged ι α
  | a, [] => pure a
  | a, b :: l => f a b >>= fun a => foldl f a l

def mapLog {κ : Type} (g : ι → κ) (x : Logged ι α) : Logged κ α := ⟨x.val, x.log.map g⟩

@[simp] theorem val_pure (a : α) : (pure a : Logged ι α).val = a := rfl

@[simp] theorem val_bind (x : Logged ι α) (f : α → Logged ι β) :
    (x >>= f).val = (f x.val).val := rfl

@[simp] theorem val_entry (i : ι) (a : α) : (entry i a).val = a := rfl

@[simp] theorem val_mapLog {κ : Type} (g : ι → κ) (x : Logged ι α) :
    (x.mapLog g).val = x.val := rfl

@[simp] theorem val_ite (p : Prop) [Decidable p] (x y : Logged ι α) :
    (if p then x else y).val = if p then x.val else y.val := by
  split <;> rfl

@[simp] theorem val_foldl (f : α → β → Logged ι α) (l : List β) (a : α) :
    (foldl f a l).val = l.foldl (fun a b => (f a b).val) a := by
  induction l generalizing a with
  | nil => rfl
  | cons b l ih =>
    rw [foldl, val_bind, ih, List.foldl_cons]

theorem log_foldl {f : α → β → Logged ι α} {g : β → ι} (h : ∀ a b, (f a b).log = [g b]) (l : List β)
    (a : α) : (foldl f a l).log = l.map g := by
  induction l generalizing a with
  | nil => rfl
  | cons b l ih =>
    show (f a b).log ++ (foldl f (f a b).val l).log = _
    rw [h, ih, List.map_cons]
    rfl

def All (P : ι → Prop) (x : Logged ι α) : Prop := ∀ i ∈ x.log, P i

section

variable {P : ι → Prop}

@[simp] theorem all_pure (a : α) : All P (pure a : Logged ι α) := by
  intro i hi
  exact absurd hi List.not_mem_nil

@[simp] theorem all_entry (i : ι) (a : α) : All P (entry i a) ↔ P i :=
  List.forall_mem_singleton

@[simp] theorem all_bind (x : Logged ι α) (f : α → Logged ι β) :
    All P (x >>= f) ↔ All P x ∧ All P (f x.val) :=
  List.forall_mem_append

@[simp] theorem all_mapLog {κ : Type} {Q : κ → Prop} (g : ι → κ) (x : Logged ι α) :
    All Q (x.mapLog g) ↔ All (fun i => Q (g i)) x :=
  List.forall_mem_map

theorem All.imp {Q : ι → Prop} {x : Logged ι α} (hx : All P x) (h : ∀ i, P i → Q i) : All Q x :=
  fun i hi => h i (hx i hi)

/-- **The rule for loops.** -/
theorem all_foldl {f : α → β → Logged ι α} (I : α → Prop) {l : List β} {a : α} (ha : I a)
    (hstep : ∀ a, ∀ b ∈ l, I a → All P (f a b) ∧ I (f a b).val) :
    All P (foldl f a l) ∧ I (foldl f a l).val := by
  induction l generalizing a with
  | nil => exact ⟨all_pure a, ha⟩
  | cons b l ih =>
    obtain ⟨hb, hI⟩ := hstep a b List.mem_cons_self ha
    obtain ⟨hall, hend⟩ := ih hI fun a b hb => hstep a b (List.mem_cons_of_mem _ hb)
    exact ⟨(all_bind _ _).mpr ⟨hb, hall⟩, hend⟩

theorem all_foldl_iff {f : α → β → Logged ι α} {Q : β → Prop} (h : ∀ a b, All P (f a b) ↔ Q b)
    (l : List β) (a : α) : All P (foldl f a l) ↔ ∀ b ∈ l, Q b := by
  induction l generalizing a with
  | nil => exact ⟨fun _ _ hb => absurd hb List.not_mem_nil, fun _ => all_pure a⟩
  | cons b l ih =>
    rw [foldl, all_bind, h, ih, List.forall_mem_cons]

end

/-- What is not logged has not been changed: the result has the `cells`, by the names that the log
gives them. -/
def LogsChanges (cells : α → ι → γ) (before : ι → γ) (x : Logged ι α) : Prop :=
  ∀ i, i ∉ x.log → cells x.val i = before i

section

variable {g : α → ι → γ} {before : ι → γ}

theorem logsChanges_pure {a : α} (h : ∀ i, g a i = before i) :
    LogsChanges g before (pure a : Logged ι α) := fun i _ => h i

theorem logsChanges_entry {i : ι} {a : α} (h : ∀ j, j ≠ i → g a j = before j) :
    LogsChanges g before (entry i a) :=
  fun j hj => h j fun he => hj (List.mem_singleton.mpr he)

theorem LogsChanges.bind {g' : β → ι → γ} {x : Logged ι α} {f : α → Logged ι β}
    (h : LogsChanges g before x) (hf : LogsChanges g' (g x.val) (f x.val)) :
    LogsChanges g' before (x >>= f) := by
  intro i hi
  have hsplit : i ∉ x.log ++ (f x.val).log := hi
  rw [List.mem_append, not_or] at hsplit
  rw [← h i hsplit.1]
  exact hf i hsplit.2

theorem logsChanges_foldl {f : α → β → Logged ι α}
    (h : ∀ a b, LogsChanges g (g a) (f a b)) (l : List β) (a : α) :
    LogsChanges g (g a) (foldl f a l) := by
  induction l generalizing a with
  | nil => exact logsChanges_pure fun _ => rfl
  | cons b l ih => exact (h a b).bind (ih _)

/-- The cells of a larger state, of which the rest is not touched. -/
theorem LogsChanges.lift {g' : α → ι → γ} {before' : ι → γ} {x : Logged ι α}
    (h : LogsChanges g before x)
    (hg : ∀ i, g x.val i = before i → g' x.val i = before' i) :
    LogsChanges g' before' x := fun i hi => hg i (h i hi)

end

end Logged
