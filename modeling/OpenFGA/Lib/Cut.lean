/-
  OpenFGA.Lib.Cut

  A list cut in two at the first or the last occurrence of a separator.
-/

import Mathlib

namespace OpenFGA.Cut

variable {α : Type} [DecidableEq α] {a : α} {l x y : List α}

/-- What is before and after the first `a`. -/
def first (a : α) : List α → Option (List α × List α)
  | [] => none
  | c :: l => if c = a then some ([], l) else (first a l).map fun p => (c :: p.1, p.2)

/-- What is before and after the last `a`. -/
def last (a : α) (l : List α) : Option (List α × List α) :=
  (first a l.reverse).map fun p => (p.2.reverse, p.1.reverse)

lemma first_eq_none : first a l = none ↔ a ∉ l := by
  induction l with
  | nil => simp [first]
  | cons c l ih =>
    rw [first]
    by_cases hc : c = a
    · simp [hc]
    · rw [if_neg hc, Option.map_eq_none_iff, ih, List.mem_cons, not_or]
      exact ⟨fun h => ⟨fun heq => hc heq.symm, h⟩, fun h => h.2⟩

lemma first_append (h : a ∉ x) (y : List α) : first a (x ++ a :: y) = some (x, y) := by
  induction x with
  | nil => simp [first]
  | cons c x ih =>
    rw [List.mem_cons, not_or] at h
    have hc : ¬ c = a := fun heq => h.1 heq.symm
    rw [List.cons_append, first, if_neg hc, ih h.2]
    rfl

lemma first_eq_some : first a l = some (x, y) ↔ l = x ++ a :: y ∧ a ∉ x := by
  constructor
  · intro h
    induction l generalizing x with
    | nil => cases h
    | cons c l ih =>
      rw [first] at h
      by_cases hc : c = a
      · rw [if_pos hc] at h
        cases h
        exact ⟨by rw [hc]; rfl, List.not_mem_nil⟩
      · rw [if_neg hc] at h
        obtain ⟨p, hp, heq⟩ := Option.map_eq_some_iff.mp h
        obtain ⟨x', y'⟩ := p
        cases heq
        obtain ⟨hl, hx⟩ := ih hp
        refine ⟨by rw [hl]; rfl, ?_⟩
        rw [List.mem_cons, not_or]
        exact ⟨fun heq => hc heq.symm, hx⟩
  · rintro ⟨rfl, h⟩
    exact first_append h y

lemma last_eq_none : last a l = none ↔ a ∉ l := by
  rw [last, Option.map_eq_none_iff, first_eq_none, List.mem_reverse]

lemma last_append (h : a ∉ y) (x : List α) : last a (x ++ a :: y) = some (x, y) := by
  have hrev : (x ++ a :: y).reverse = y.reverse ++ a :: x.reverse := by simp
  have hy : a ∉ y.reverse := by rwa [List.mem_reverse]
  rw [last, hrev, first_append hy]
  simp

end OpenFGA.Cut
