/-
  OpenFGA.Lib.Stacks

  A list of stacks, one per thread, seen as the multiset of all its frames.

  A step of one thread replaces its stack; `exists_others` says that the frames of
  the other threads are untouched, in the form the multiset lemmas want it.
-/

import Mathlib

namespace Stacks

variable {α : Type*} {gs : List (List α)}

/-- All frames of all stacks. -/
def frames (gs : List (List α)) : Multiset α := (gs.flatten : List α)

@[simp] lemma frames_nil : frames ([] : List (List α)) = 0 := rfl

@[simp] lemma frames_append (gs hs : List (List α)) :
    frames (gs ++ hs) = frames gs + frames hs := by
  simp [frames]

@[simp] lemma frames_singleton (st : List α) : frames [st] = (st : Multiset α) := by
  simp [frames]

lemma mem_frames {f : α} : f ∈ frames gs ↔ ∃ st ∈ gs, f ∈ st := by
  simp [frames]

/-- Replacing one stack leaves the frames of the others. -/
theorem exists_others {k : Nat} {st : List α} (h : gs[k]? = some st) :
    ∃ others : Multiset α, frames gs = st + others ∧
      ∀ st' : List α, frames (gs.set k st') = st' + others := by
  obtain ⟨hk, rfl⟩ := List.getElem?_eq_some_iff.mp h
  refine ⟨frames (gs.take k) + frames (gs.drop (k + 1)), ?_, fun st' => ?_⟩
  · conv_lhs => rw [← List.take_append_drop k gs, List.drop_eq_getElem_cons hk]
    rw [← List.singleton_append, frames_append, frames_append, frames_singleton]
    exact add_left_comm _ _ _
  · rw [List.set_eq_take_append_cons_drop, if_pos hk, ← List.singleton_append, frames_append,
      frames_append, frames_singleton]
    exact add_left_comm _ _ _

lemma frames_eq_zero : frames gs = 0 ↔ ∀ st ∈ gs, st = [] := by
  rw [Multiset.eq_zero_iff_forall_notMem]
  simp only [mem_frames, not_exists, not_and]
  constructor
  · intro h st hst
    cases st with
    | nil => rfl
    | cons f fs => exact absurd List.mem_cons_self (h f (f :: fs) hst)
  · intro h f st hst
    rw [h st hst]
    exact List.not_mem_nil

/-- Otherwise some thread has a top frame. -/
lemma exists_top (h : frames gs ≠ 0) :
    ∃ (k : Nat) (f : α) (fs : List α), gs[k]? = some (f :: fs) := by
  rw [ne_eq, frames_eq_zero] at h
  push Not at h
  obtain ⟨st, hst, hne⟩ := h
  obtain ⟨k, hk⟩ := List.mem_iff_getElem?.mp hst
  obtain ⟨f, fs, rfl⟩ := List.exists_cons_of_ne_nil hne
  exact ⟨k, f, fs, hk⟩

end Stacks
