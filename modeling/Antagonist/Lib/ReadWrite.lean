import Antagonist.Lib.Lts
import Mathlib.Logic.Function.Basic

/-!
# Reads and writes

A system that is written and read by key.  Its history tells each write with the value, and each
read with the value that it returned.  A history is consistent if every read returned what had been
written last under its key, or what was there at the start.

* `contents_eq_last`, `Consistent.read_of_write`: the contents are the last writes, and so are the
  values read.
* `Stores.exec`: **a system whose steps keep to its contents** has consistent histories.
-/

namespace ReadWrite

open Lts

variable {σ ι κ ν : Type} [DecidableEq κ]

inductive Event (κ ν : Type)
  | write (k : κ) (v : ν)
  | read (k : κ) (v : ν)
  | other

def apply (content : κ → ν) : Event κ ν → κ → ν
  | .write k v => Function.update content k v
  | .read _ _ => content
  | .other => content

def contents (start : κ → ν) (history : List (Event κ ν)) : κ → ν := history.foldl apply start

/-- Every read returned what was there. -/
def Consistent (start : κ → ν) (history : List (Event κ ν)) : Prop :=
  ∀ before (kv : κ × ν) after, history = before ++ .read kv.1 kv.2 :: after →
    contents start before kv.1 = kv.2

theorem contents_snoc (start : κ → ν) (history : List (Event κ ν)) (e : Event κ ν) :
    contents start (history ++ [e]) = apply (contents start history) e := List.foldl_concat _ _ _ _

/-- What is overwritten or kept by every step is as the last step left it that wrote there. -/
theorem foldl_eq_last {σ γ ν : Type} {call : σ → γ → σ} {read : σ → ν} {written : γ → Option ν}
    (h : ∀ s c, read (call s c) = (written c).getD (read s)) (s : σ) (calls : List γ) :
    read (calls.foldl call s) = (calls.filterMap written).getLast?.getD (read s) := by
  induction calls using List.reverseRecOn with
  | nil => rfl
  | append_singleton calls c ih =>
    rw [List.foldl_concat, h, ih, List.filterMap_append]
    cases hc : written c with
    | none =>
      rw [List.filterMap_cons_none hc, List.filterMap_nil, List.append_nil, Option.getD_none]
    | some v =>
      rw [List.filterMap_cons_some hc, List.filterMap_nil, List.getLast?_concat, Option.getD_some,
        Option.getD_some]

def writtenAt (k : κ) : Event κ ν → Option ν
  | .write j v => if j = k then some v else none
  | _ => none

theorem apply_eq (content : κ → ν) (e : Event κ ν) (k : κ) :
    apply content e k = (writtenAt k e).getD (content k) := by
  cases e with
  | write j v =>
    rw [apply, writtenAt]
    by_cases hj : j = k
    · rw [hj, Function.update_self, if_pos rfl, Option.getD_some]
    · rw [Function.update_of_ne (Ne.symm hj), if_neg hj, Option.getD_none]
  | read j v => rfl
  | other => rfl

/-- **The contents are the last writes.** -/
theorem contents_eq_last (start : κ → ν) (history : List (Event κ ν)) (k : κ) :
    contents start history k = (history.filterMap (writtenAt k)).getLast?.getD (start k) :=
  @foldl_eq_last _ _ _ apply (fun content => content k) (writtenAt k)
    (fun content e => apply_eq content e k) start history

/-- **A read returns the last write**, if there is none in between. -/
theorem Consistent.read_of_write {start : κ → ν} (before between : List (Event κ ν))
    {after : List (Event κ ν)} {k : κ} {v v' : ν}
    (h : Consistent start (before ++ .write k v :: (between ++ .read k v' :: after)))
    (hbetween : ∀ e ∈ between, writtenAt k e = none) : v' = v := by
  have hwritten : writtenAt k (.write k v) = some v := if_pos rfl
  have hread := h (before ++ .write k v :: between) (k, v') after (by simp)
  have hlast : (before ++ Event.write k v :: between).filterMap (writtenAt k) =
      before.filterMap (writtenAt k) ++ [v] := by
    rw [List.filterMap_append, List.filterMap_cons_some hwritten,
      List.filterMap_eq_nil_iff.mpr hbetween]
  rw [contents_eq_last, hlast, List.getLast?_concat] at hread
  exact hread.symm

theorem consistent_snoc {start : κ → ν} {history : List (Event κ ν)} {e : Event κ ν} :
    Consistent start (history ++ [e]) ↔ Consistent start history ∧
      ∀ k v, e = .read k v → contents start history k = v := by
  rw [Consistent, forall_split_snoc (fun kv : κ × ν => Event.read kv.1 kv.2)
    (P := fun before kv => contents start before kv.1 = kv.2)]
  exact and_congr_right fun _ => ⟨fun h k v => h (k, v), fun h kv => h kv.1 kv.2⟩

/-- The steps of a system keep to its contents. -/
structure Stores (T : Lts σ ι) (event : ι → Event κ ν) (content : σ → κ → ν) : Prop where
  step : ∀ s a t, T.step s a t → content t = apply (content s) (event a)
  read : ∀ s a t, T.step s a t → ∀ k v, event a = .read k v → content s k = v

/-- **The history of a run is consistent**, and its contents are those of the last state. -/
theorem Stores.exec {T : Lts σ ι} {event : ι → Event κ ν} {content : σ → κ → ν}
    (H : Stores T event content) {s t : σ} {tr : List ι} (h : T.Exec s tr t) :
    Consistent (content s) (tr.map event) ∧
      content t = contents (content s) (tr.map event) := by
  induction h with
  | nil =>
    refine ⟨?_, rfl⟩
    intro before kv after hnil
    exact absurd hnil (by simp)
  | snoc _ hs ih =>
    obtain ⟨hbefore, hcontent⟩ := ih
    rw [List.map_append, List.map_singleton, consistent_snoc, contents_snoc, ← hcontent]
    exact ⟨⟨hbefore, H.read _ _ _ hs⟩, H.step _ _ _ hs⟩

end ReadWrite
