/-
  OpenFGA.Lib.Tasks

  The goroutines of a system as a list of tasks.  A step lets one of them go on: it
  becomes another task, ends, or starts more.  The lemmas say how a weighted count of the
  tasks changes, for counters that the tasks share and for termination measures.
-/

import Mathlib

namespace Tasks
open List

variable {α : Type*} {l new : List α} {i : Nat} {t x : α}

/-- The task at `i` is replaced by the tasks `new`. -/
def become (l : List α) (i : Nat) (new : List α) : List α := l.take i ++ new ++ l.drop (i + 1)

lemma eq_append_of_getElem? (h : l[i]? = some t) : l = l.take i ++ t :: l.drop (i + 1) := by
  obtain ⟨hi, rfl⟩ := List.getElem?_eq_some_iff.mp h
  rw [List.cons_getElem_drop_succ, List.take_append_drop]

lemma mem_become (hx : x ∈ become l i new) : x ∈ l ∨ x ∈ new := by
  rw [become, append_assoc, mem_append, mem_append] at hx
  rcases hx with hx | hx | hx
  · exact .inl (mem_of_mem_take hx)
  · exact .inr hx
  · exact .inl (mem_of_mem_drop hx)

lemma mem_become_of_mem (h : l[i]? = some t) (hx : x ∈ l) : x = t ∨ x ∈ become l i new := by
  rw [eq_append_of_getElem? h, mem_append, mem_cons] at hx
  rcases hx with hx | rfl | hx
  · exact .inr (mem_append_left _ (mem_append_left _ hx))
  · exact .inl rfl
  · exact .inr (mem_append_right _ hx)

lemma mem_become_of_new (hx : x ∈ new) : x ∈ become l i new :=
  mem_append_left _ (mem_append_right _ hx)

/-- A weighted count of the tasks changes by the weights of the tasks replaced. -/
lemma sum_become {M : Type*} [AddCommMonoid M] (w : α → M) (h : l[i]? = some t) (new : List α) :
    ((become l i new).map w).sum + w t = (l.map w).sum + (new.map w).sum := by
  have hsplit : (l.map w).sum = ((l.take i).map w).sum + (w t + ((l.drop (i + 1)).map w).sum) := by
    rw [← sum_cons, ← map_cons, ← sum_append, ← map_append,
      ← eq_append_of_getElem? h]
  rw [become, map_append, map_append, sum_append, sum_append, hsplit]
  abel

lemma become_singleton (h : l[i]? = some t) (t' : α) : become l i [t'] = l.set i t' := by
  obtain ⟨hi, -⟩ := List.getElem?_eq_some_iff.mp h
  rw [become, List.set_eq_take_append_cons_drop, if_pos hi, List.append_assoc]
  rfl

lemma sum_set {M : Type*} [AddCommMonoid M] (w : α → M) (h : l[i]? = some t) (t' : α) :
    ((l.set i t').map w).sum + w t = (l.map w).sum + w t' := by
  have hsum := sum_become w h [t']
  rw [become_singleton h, map_cons, map_nil, sum_cons, sum_nil, add_zero] at hsum
  exact hsum

lemma sum_map_le {w w' : α → Nat} {d} (hle : ∀ x ∈ l, w' x ≤ w x + d) :
    (l.map w').sum ≤ (l.map w).sum + d * l.length := by
  induction l with
  | nil => rfl
  | cons x l ih =>
    have hx := hle x mem_cons_self
    have hl := ih fun y hy => hle y (mem_cons_of_mem x hy)
    rw [map_cons, map_cons, sum_cons, sum_cons, length_cons,
      Nat.mul_add_one]
    omega

/-- One task goes on while the weights of all change by at most `d`. -/
lemma sum_set_le {w w' : α → Nat} {d} (h : l[i]? = some t) (t' : α)
    (hle : ∀ x ∈ l, w' x ≤ w x + d) :
    ((l.set i t').map w').sum + w t ≤ (l.map w).sum + w' t' + d * l.length := by
  have htake := sum_map_le fun x hx => hle x (mem_of_mem_take (i := i) hx)
  have hdrop := sum_map_le fun x hx => hle x (mem_of_mem_drop (i := i + 1) hx)
  have hlength : (l.take i).length + (l.drop (i + 1)).length ≤ l.length := by
    rw [length_take, length_drop]
    omega
  have hmul := Nat.mul_le_mul_left d hlength
  have hsplit : (l.map w).sum = ((l.take i).map w).sum + (w t + ((l.drop (i + 1)).map w).sum) := by
    rw [← sum_cons, ← map_cons, ← sum_append, ← map_append,
      ← eq_append_of_getElem? h]
  rw [← become_singleton h, become, map_append, map_append, sum_append, sum_append,
    map_cons, map_nil, sum_cons, sum_nil, hsplit]
  rw [Nat.mul_add] at hmul
  omega

lemma sum_update {ι : Type*} [DecidableEq ι] {tasks i} (w : ι → α → Nat)
    (f : ι → α) (hi : i ∈ tasks) (x : α) :
    ∑ j ∈ tasks, w j (Function.update f i x j) + w i (f i) = ∑ j ∈ tasks, w j (f j) + w i x := by
  rw [← Finset.add_sum_erase tasks _ hi, ← Finset.add_sum_erase tasks (fun j => w j (f j)) hi,
    Function.update_self]
  have hrest : ∑ j ∈ tasks.erase i, w j (Function.update f i x j) = ∑ j ∈ tasks.erase i,
      w j (f j) := by
    apply Finset.sum_congr rfl
    intro j hj
    rw [Function.update_of_ne (Finset.ne_of_mem_erase hj)]
  rw [hrest]
  omega

end Tasks
