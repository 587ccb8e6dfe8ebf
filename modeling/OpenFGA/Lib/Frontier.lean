/-
  OpenFGA.Lib.Frontier

  A traversal by concurrent tasks that share a record of what was reached.

  A task owes the nodes that it has found and not yet entered.  `Covers` says that whatever a
  reached node leads to was reached itself or is owed by some task.  A step that replaces a
  task keeps it, if nothing that the task owed gets lost; when no tasks are left, what was reached
  is closed under `leads`.
-/

import OpenFGA.Lib.Run
import OpenFGA.Lib.Tasks

namespace Frontier
open List

variable {τ ν : Type*}

/-- What the start and the reached nodes lead to was reached, or some task owes it. -/
structure Covers (owes : τ → ν → Prop) (leads : ν → ν → Prop) (start : ν) (tasks : List τ)
    (reached : ν → Prop) : Prop where
  start : ∀ y, leads start y → reached y ∨ ∃ t ∈ tasks, owes t y
  closed : ∀ x y, reached x → leads x y → reached y ∨ ∃ t ∈ tasks, owes t y

variable {owes : τ → ν → Prop} {leads : ν → ν → Prop} {start : ν} {tasks new : List τ}
  {reached reached' : ν → Prop} {i : Nat} {t : τ} {y : ν}

/-- One task is replaced.  The new tasks owe what it owed, and what the newly reached nodes lead
    to. -/
theorem Covers.become (h : Covers owes leads start tasks reached) (ht : tasks[i]? = some t)
    (hmono : ∀ x, reached x → reached' x)
    (howes : ∀ y, owes t y → reached' y ∨ ∃ t' ∈ new, owes t' y)
    (hnew : ∀ x y, reached' x → leads x y → reached x ∨ reached' y ∨ ∃ t' ∈ new, owes t' y) :
    Covers owes leads start (Tasks.become tasks i new) reached' := by
  have hlift : ∀ y, (∃ t' ∈ new, owes t' y) → ∃ t' ∈ Tasks.become tasks i new, owes t' y := by
    rintro y ⟨t', ht', hy⟩
    exact ⟨t', Tasks.mem_become_of_new ht', hy⟩
  have hkeep : ∀ y, (reached y ∨ ∃ t ∈ tasks, owes t y) →
      reached' y ∨ ∃ t ∈ Tasks.become tasks i new, owes t y := by
    rintro y (hy | ⟨t', ht', hy⟩)
    · exact .inl (hmono y hy)
    · rcases Tasks.mem_become_of_mem ht ht' with rfl | ht'
      · exact (howes y hy).imp_right (hlift y)
      · exact .inr ⟨t', ht', hy⟩
  refine ⟨fun y hy => hkeep y (h.start y hy), fun x y hx hy => ?_⟩
  rcases hnew x y hx hy with hx | hrest
  · exact hkeep y (h.closed x y hx hy)
  · exact hrest.imp_right (hlift y)

/-- Without tasks everything that the start leads to was reached. -/
lemma Covers.of_path (h : Covers owes leads start [] reached)
    (hpath : Relation.TransGen leads start y) : reached y := by
  have hnone : ∀ {y : ν}, ¬ ∃ t ∈ ([] : List τ), owes t y := by
    rintro y ⟨t, ht, -⟩
    exact absurd ht not_mem_nil
  induction hpath with
  | single hy => exact (h.start _ hy).resolve_right hnone
  | tail _ hy ih => exact (h.closed _ _ ih hy).resolve_right hnone

/-- A system in which every step replaces a task by finitely many of lower rank has no infinite
    run. -/
lemma no_infinite_run {σ α : Type*} {step : σ → α → Option σ} (tasksOf : σ → List τ)
    (rank : τ → Nat) (hstep : ∀ s a s', step s a = some s' →
      ∃ (i : Nat) (t : τ) (new : List τ), (tasksOf s)[i]? = some t ∧
      tasksOf s' = Tasks.become (tasksOf s) i new ∧ ∀ t' ∈ new, rank t' < rank t) (s : σ) :
    ¬ ∃ f : Nat → σ, f 0 = s ∧ ∀ n, ∃ a, step (f n) a = some (f (n + 1)) := by
  refine Lts.no_infinite_run (I := fun _ => True)
    (μ := fun s => ((tasksOf s).map rank : Multiset Nat)) Multiset.wellFounded_isDershowitzMannaLT
    (fun _ _ _ _ _ => trivial) (fun s a s' _ h => ?_) trivial
  obtain ⟨i, t, new, ht, hs', hlt⟩ := hstep s a s' h
  refine ⟨((tasksOf s).take i ++ (tasksOf s).drop (i + 1)).map rank, new.map rank, {rank t},
    Multiset.singleton_ne_zero _, ?_, ?_, ?_⟩
  · rw [hs', Tasks.become, Multiset.coe_add, ← map_append, Multiset.coe_eq_coe]
    refine List.Perm.map rank ?_
    rw [append_assoc, append_assoc]
    exact List.Perm.append_left _ perm_append_comm
  · have hsplit : tasksOf s = (tasksOf s).take i ++ t :: (tasksOf s).drop (i + 1) :=
      Tasks.eq_append_of_getElem? ht
    rw [← Multiset.coe_singleton, Multiset.coe_add, Multiset.coe_eq_coe, ← map_singleton,
      ← map_append]
    conv_lhs => rw [hsplit]
    refine List.Perm.map rank ?_
    rw [append_assoc]
    refine List.Perm.append_left _ ?_
    show ([t] ++ _ : List τ).Perm _
    exact perm_append_comm
  · intro y hy
    obtain ⟨t', ht', rfl⟩ := mem_map.mp (Multiset.mem_coe.mp hy)
    exact ⟨rank t, Multiset.mem_singleton_self _, hlt t' ht'⟩

end Frontier
