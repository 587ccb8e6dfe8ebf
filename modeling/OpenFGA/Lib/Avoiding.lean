/-
  OpenFGA.Lib.Avoiding

  Least fixed points that leave out a list of elements, for searches that cut themselves off at
  what is already on their path.

  `F S x` says that the rule of `x` holds when the members of `S` do.  `Avoiding F V` is the least
  set closed under the rules in which no member of `V` is derived, and `Avoiding F []` the least
  fixed point.  A shortest derivation of `x` does not come back to `x`, so the rule of `x` may be
  asked for with `x` avoided (`avoiding_iff`).

  Rules look only at the successors of an element (`Local`), and what is avoided matters only where
  it is reached (`of_not_reached`).
-/

import Mathlib

variable {α : Type*}

/-- The least set closed under the rules `F`, with no derivation for the members of `V`. -/
inductive Avoiding (F : (α → Prop) → α → Prop) (V : List α) : α → Prop where
  | intro {x} (S : α → Prop) (hS : ∀ y, S y → Avoiding F V y) (hx : x ∉ V) (h : F S x) :
      Avoiding F V x

namespace Avoiding

/-- The rule of an element looks only at its successors. -/
def Local (F : (α → Prop) → α → Prop) (R : α → α → Prop) : Prop :=
  ∀ {S S' : α → Prop} {x : α}, (∀ y, R x y → S y → S' y) → F S x → F S' x

variable {F : (α → Prop) → α → Prop} {R : α → α → Prop} {V W : List α} {x y : α}

lemma notMem (h : Avoiding F V x) : x ∉ V := by
  cases h with
  | intro S hS hx h => exact hx

lemma anti (hsub : V ⊆ W) (h : Avoiding F W x) : Avoiding F V x := by
  induction h with
  | intro S _ hx h ih => exact .intro S ih (fun hV => hx (hsub hV)) h

lemma of_rule (hx : x ∉ V) (h : F (Avoiding F V) x) : Avoiding F V x :=
  .intro _ (fun _ hy => hy) hx h

/-- Either a derivation does without `x`, or the rule of `x` holds without it. -/
theorem without (hF : Local F R) (h : Avoiding F V y) :
    Avoiding F (x :: V) y ∨ F (Avoiding F (x :: V)) x := by
  induction h with
  | @intro y S _ hy h ih =>
    by_cases hx : F (Avoiding F (x :: V)) x
    · exact .inr hx
    · have hS : ∀ z, S z → Avoiding F (x :: V) z := fun z hz => (ih z hz).resolve_right hx
      have hrule : F (Avoiding F (x :: V)) y := hF (fun z _ => hS z) h
      by_cases hyx : y = x
      · exact absurd (hyx ▸ hrule) hx
      · exact .inl (of_rule (fun hmem => (List.mem_cons.mp hmem).elim hyx hy) hrule)

/-- The rule of an element that is derived, with the element itself avoided. -/
theorem avoiding_iff (hF : Local F R) :
    Avoiding F V x ↔ x ∉ V ∧ F (Avoiding F (x :: V)) x := by
  refine ⟨fun h => ⟨h.notMem, ?_⟩, fun ⟨hx, h⟩ => of_rule hx ?_⟩
  · exact (h.without hF).resolve_left fun hself => hself.notMem List.mem_cons_self
  · exact hF (fun _ _ => anti (List.subset_cons_self x V)) h

/-- Nothing is lost by avoiding what is not reached. -/
theorem of_not_reached (hF : Local F R) (h : Avoiding F [] y)
    (hV : ∀ x ∈ V, ¬ Relation.ReflTransGen R y x) : Avoiding F V y := by
  induction h with
  | intro S _ _ h ih =>
    refine of_rule (fun hy => hV _ hy .refl) (hF (fun z hyz hz => ih z hz fun x hx hzx => ?_) h)
    exact hV x hx (.head hyz hzx)

end Avoiding
