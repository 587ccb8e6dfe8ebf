/-
  OpenFGA.Lib.Stratified

  Least fixed points of rules with negation.

  `T N` is a monotone operator on sets of facts: what the rules derive from the
  facts `X` when their negative premises are read in `N`.  A set that is the
  least fixed point of the operator it induces itself, `S = lfp (T S)`, is what the
  rules mean.

  Rules are stratified by a rank: whether a fact is derived depends on facts of
  no higher rank, and negatively only on facts of lower rank (`Stratified`).  Then
  there is exactly one such set, and `strata` reaches it after one round for each
  rank.
-/

import Mathlib

namespace Stratified

variable {ι : Type*}

/-- `S` is the least fixed point of the rules, its negative premises read in `S`
    itself. -/
def IsModel (T : Set ι → (Set ι →o Set ι)) (S : Set ι) : Prop := OrderHom.lfp (T S) = S

/-- Facts depend on facts of no higher rank, negatively on facts of lower rank. -/
def Ranked (T : Set ι → (Set ι →o Set ι)) (rank : ι → Nat) : Prop :=
  ∀ (i : ι) (N N' X X' : Set ι), (∀ j, rank j < rank i → (j ∈ N ↔ j ∈ N')) →
    (∀ j, rank j ≤ rank i → j ∈ X → j ∈ X') → i ∈ T N X → i ∈ T N' X'

/-- Read negative premises in the set of the round before. -/
def strata (T : Set ι → (Set ι →o Set ι)) : Nat → Set ι
  | 0 => ∅
  | k + 1 => OrderHom.lfp (T (strata T k))

section
variable {T : Set ι → (Set ι →o Set ι)} {rank : ι → Nat} {N N' S S' : Set ι}

/-- Induction over the derivation of a fact. -/
lemma lfp_induction {f : Set ι →o Set ι} {P : ι → Prop}
    (h : ∀ i, i ∈ f {j | j ∈ OrderHom.lfp f ∧ P j} → P i) : ∀ i ∈ OrderHom.lfp f, P i := by
  have hle : OrderHom.lfp f ≤ {j | j ∈ OrderHom.lfp f ∧ P j} := by
    refine OrderHom.lfp_le f fun i hi => ⟨?_, h i hi⟩
    have hsub : {j | j ∈ OrderHom.lfp f ∧ P j} ≤ OrderHom.lfp f := fun j hj => hj.1
    have := f.monotone hsub hi
    rwa [OrderHom.map_lfp] at this
  exact fun i hi => (hle hi).2

lemma IsModel.mem_iff (h : IsModel T S) {i} : i ∈ S ↔ i ∈ T S S := by
  have hfix := OrderHom.map_lfp (T S)
  rw [h] at hfix
  rw [hfix]

lemma IsModel.induction (h : IsModel T S) {P : ι → Prop}
    (hstep : ∀ i, i ∈ T S {j | j ∈ S ∧ P j} → P i) : ∀ i ∈ S, P i := by
  have hind := lfp_induction (f := T S) (P := P)
  rw [h] at hind
  exact hind hstep

/-- Sets that agree below a rank induce sets that agree up to it. -/
lemma lfp_agree (hT : Ranked T rank) {r}
    (hN : ∀ j, rank j < r → (j ∈ N ↔ j ∈ N')) {i} (hi : rank i ≤ r)
    (hmem : i ∈ OrderHom.lfp (T N)) : i ∈ OrderHom.lfp (T N') := by
  have hind : ∀ j ∈ OrderHom.lfp (T N), rank j ≤ r → j ∈ OrderHom.lfp (T N') := by
    refine lfp_induction fun j hj hr => ?_
    rw [← OrderHom.map_lfp]
    refine hT j N N' _ _ (fun k hk => hN k (hk.trans_le hr)) (fun k hk hX => ?_) hj
    exact hX.2 (hk.trans hr)
  exact hind i hmem hi

lemma strata_agree (hT : Ranked T rank) (k : Nat) {i} (hi : rank i < k) :
    i ∈ strata T k ↔ i ∈ strata T (k + 1) := by
  induction k generalizing i with
  | zero => omega
  | succ k ih =>
    have hbelow : ∀ j, rank j < k → (j ∈ strata T k ↔ j ∈ strata T (k + 1)) :=
      fun j hj => ih hj
    constructor
    · exact lfp_agree hT hbelow (Nat.lt_succ_iff.mp hi)
    · exact lfp_agree hT (fun j hj => (hbelow j hj).symm) (Nat.lt_succ_iff.mp hi)

lemma isModel_strata (hT : Ranked T rank) {k} (hk : ∀ i, rank i < k) :
    IsModel T (strata T k) := by
  refine Set.ext fun i => ?_
  exact (strata_agree hT k (hk i)).symm

theorem IsModel.unique (hT : Ranked T rank) (h : IsModel T S) (h' : IsModel T S') : S = S' := by
  have hagree : ∀ r, ∀ i, rank i < r → (i ∈ S ↔ i ∈ S') := by
    intro r
    induction r with
    | zero => exact fun i hi => absurd hi (Nat.not_lt_zero _)
    | succ r ih =>
      intro i hi
      have hle := Nat.lt_succ_iff.mp hi
      rw [← h, ← h']
      exact ⟨lfp_agree hT ih hle, lfp_agree hT (fun j hj => (ih j hj).symm) hle⟩
  exact Set.ext fun i => hagree (rank i + 1) i (Nat.lt_succ_self _)

end

end Stratified
