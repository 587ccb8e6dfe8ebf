/-
  OpenFGA.Lib.Source

  A source that yields items one by one and then ends, or fails.

  `consumed` is what it has yielded so far.  A source that fails goes on failing.
-/

import Mathlib

namespace Feed

variable {α ε : Type*}

/-- What was yielded, what is left, and the error behind it; `none` is the end. -/
structure Source (α ε : Type*) where
  consumed : List α
  rest : List α
  err : Option ε
deriving DecidableEq, Repr

/-- A source that has yielded nothing. -/
def Source.start (items : List α) (err : Option ε) : Source α ε := ⟨[], items, err⟩

/-- Everything the source yields. -/
def Source.all (s : Source α ε) : List α := s.consumed ++ s.rest

/-- Yield an item. -/
def Source.next (s : Source α ε) : Except (Option ε) (α × Source α ε) :=
  match s.rest with
  | [] => .error s.err
  | x :: rest => .ok (x, ⟨s.consumed ++ [x], rest, s.err⟩)

/-- Look at the next item. -/
def Source.head (s : Source α ε) : Except (Option ε) α :=
  match s.rest with
  | [] => .error s.err
  | x :: _ => .ok x

variable {s s' : Source α ε} {x : α}

lemma Source.next_ok (h : s.next = .ok (x, s')) :
    s'.consumed = s.consumed ++ [x] ∧ s'.all = s.all ∧ s'.err = s.err := by
  unfold next at h
  cases hrest : s.rest with
  | nil => simp [hrest] at h
  | cons y rest =>
    simp only [hrest, Except.ok.injEq, Prod.mk.injEq] at h
    obtain ⟨rfl, rfl⟩ := h
    simp [all, hrest]

lemma Source.next_done (h : s.next = .error none) : s.consumed = s.all ∧ s.err = none := by
  unfold next at h
  cases hrest : s.rest with
  | nil =>
    simp only [hrest, Except.error.injEq] at h
    simp [all, hrest, h]
  | cons y rest => simp [hrest] at h

lemma Source.head_done (h : s.head = .error none) : s.consumed = s.all ∧ s.err = none := by
  unfold head at h
  cases hrest : s.rest with
  | nil =>
    simp only [hrest, Except.error.injEq] at h
    simp [all, hrest, h]
  | cons y rest => simp [hrest] at h

end Feed
