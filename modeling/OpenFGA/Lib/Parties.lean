/-
  OpenFGA.Lib.Parties

  Parties that act in turn and keep a common log.

  Each party meets `I`, and each entry of the log is vouched for by the party that made it: `Q` of
  the party as it is now and the entry.
-/

import Mathlib

namespace Parties

variable {σ ε : Type*} {I : σ → Prop} {Q : σ → ε → Prop} {ps : List σ} {log : List (Nat × ε)}
  {i : Nat} {p p' : σ} {e : ε}

structure Inv (I : σ → Prop) (Q : σ → ε → Prop) (ps : List σ) (log : List (Nat × ε)) : Prop where
  each : ∀ p ∈ ps, I p
  logged : ∀ l ∈ log, ∃ p, ps[l.1]? = some p ∧ Q p l.2

/-- A party has changed and still vouches for its entries. -/
structure Continues (I : σ → Prop) (Q : σ → ε → Prop) (p p' : σ) : Prop where
  each : I p → I p'
  logged : ∀ e, Q p e → Q p' e

lemma Continues.trans {p'' : σ} (h : Continues I Q p p') (h' : Continues I Q p' p'') :
    Continues I Q p p'' :=
  ⟨fun hp => h'.each (h.each hp), fun e he => h'.logged e (h.logged e he)⟩

lemma inv_nil : Inv I Q [] [] := ⟨nofun, nofun⟩

section
variable (h : Inv I Q ps log)
include h

theorem Inv.get (hp : ps[i]? = some p) : I p := h.each p (List.mem_of_getElem? hp)

theorem Inv.join (hp : I p) : Inv I Q (ps ++ [p]) log := by
  constructor
  · intro q hq
    rcases List.mem_append.mp hq with hq | hq
    · exact h.each q hq
    · rwa [List.mem_singleton.mp hq]
  · intro l hl
    obtain ⟨q, hq, hQ⟩ := h.logged l hl
    have hlt : l.1 < ps.length := (List.getElem?_eq_some_iff.mp hq).1
    exact ⟨q, (List.getElem?_append_left hlt).trans hq, hQ⟩

lemma Inv.update (hp : ps[i]? = some p) (hc : Continues I Q p p') :
    Inv I Q (ps.set i p') log := by
  constructor
  · intro q hq
    rcases List.mem_or_eq_of_mem_set hq with hq | rfl
    · exact h.each q hq
    · exact hc.each (h.get hp)
  · intro l hl
    obtain ⟨q, hq, hQ⟩ := h.logged l hl
    by_cases heq : i = l.1
    · subst heq
      cases hp.symm.trans hq
      have hlt : l.1 < ps.length := (List.getElem?_eq_some_iff.mp hp).1
      exact ⟨p', List.getElem?_set_self hlt, hc.logged _ hQ⟩
    · exact ⟨q, (List.getElem?_set_ne heq).trans hq, hQ⟩

theorem Inv.write (hp : ps[i]? = some p) (he : Q p e) : Inv I Q ps (log ++ [(i, e)]) := by
  constructor
  · exact h.each
  · intro l hl
    rcases List.mem_append.mp hl with hl | hl
    · exact h.logged l hl
    · rw [List.mem_singleton.mp hl]
      exact ⟨p, hp, he⟩

lemma Inv.write_update (hp : ps[i]? = some p) (he : Q p e) (hc : Continues I Q p p') :
    Inv I Q (ps.set i p') (log ++ [(i, e)]) :=
  (h.write hp he).update hp hc

end

end Parties
