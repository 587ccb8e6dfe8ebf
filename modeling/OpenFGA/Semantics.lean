/-
  What an authorization model means: the least fixed point of its rewrites.

  A query asks whether the user of a request is related to an object at a node of
  the graph.  A `Reading` says what the tuples contribute: over which edges the user
  is assigned directly, and to which objects the tuples of an edge lead.  `rewrite`
  applies the rewrites of all nodes once; the subtracted side of an exclusion is
  read in a set of its own, so that the operator is monotone.  `semantics` is its
  least fixed point with the subtracted sides read in the result, which is unique as
  long as no exclusion lies on a cycle (`isModel_semantics`, `semantics_unique`).

  `Graph.Marked` states what the `openfga/language` package guarantees about the marks
  of the graphs it builds.
-/

import OpenFGA.Lib.Stratified
import OpenFGA.Graph

namespace OpenFGA

/-- An object and a node: is the user related to the object there? -/
abbrev Query := Object × NodeKey

/-- What the tuples say about one user. -/
structure Reading where
  /-- A tuple relates the user to the object over this edge. -/
  assigned : Object → Edge → Prop
  /-- The objects that the tuples of the object lead to over this edge. -/
  children : Object → Edge → List Object

/-- Edges that hand the same object on to another node. -/
def Edge.isRewrite (e : Edge) : Bool :=
  match e.edgeType with
  | .rewriteEdge | .computedEdge | .directLogicalEdge | .ttuLogicalEdge => true
  | .directEdge | .ttuEdge => false

namespace Reading

variable (R : Reading) (g : Graph)

/-- The user is related to the object over an edge, given the answers `X`. -/
def EdgeHolds (X : Set Query) (o : Object) (e : Edge) : Prop :=
  if e.isRewrite then (o, e.target) ∈ X
  else R.assigned o e ∨ ∃ c ∈ R.children o e, (c, e.target) ∈ X

/-- The rewrite of one node, given the answers `X`; subtracted sides read `N`. -/
def NodeHolds (N X : Set Query) (o : Object) (n : NodeKey) : Prop :=
  match g.getEdgesFromNode n with
  | none => False
  | some es =>
    match n with
    | .operatorNode .intersection _ => ∀ e ∈ es, R.EdgeHolds X o e
    | .operatorNode .exclusion _ =>
      match es with
      | base :: subtract :: _ => R.EdgeHolds X o base ∧ ¬ R.EdgeHolds N o subtract
      | _ => False
    | _ => ∃ e ∈ es, R.EdgeHolds X o e

variable {R g} {N X X' : Set Query} {o : Object} {e : Edge} {n : NodeKey}

lemma edgeHolds_rewrite (h : e.isRewrite = true) :
    R.EdgeHolds X o e ↔ (o, e.target) ∈ X := by
  rw [EdgeHolds, if_pos h]

lemma edgeHolds_tuples (h : e.isRewrite = false) :
    R.EdgeHolds X o e ↔ R.assigned o e ∨ ∃ c ∈ R.children o e, (c, e.target) ∈ X := by
  rw [EdgeHolds, if_neg (by simp [h])]

lemma EdgeHolds.congr (hX : ∀ o, (o, e.target) ∈ X → (o, e.target) ∈ X')
    (h : R.EdgeHolds X o e) : R.EdgeHolds X' o e := by
  cases hr : e.isRewrite with
  | true =>
    rw [edgeHolds_rewrite hr] at h ⊢
    exact hX _ h
  | false =>
    rw [edgeHolds_tuples hr] at h ⊢
    exact h.imp_right fun ⟨c, hc, hmem⟩ => ⟨c, hc, hX _ hmem⟩

lemma EdgeHolds.mono (hX : ∀ q ∈ X, q ∈ X') (h : R.EdgeHolds X o e) : R.EdgeHolds X' o e :=
  h.congr fun _ => hX _

lemma NodeHolds.mono (hX : ∀ q ∈ X, q ∈ X') (h : R.NodeHolds g N X o n) :
    R.NodeHolds g N X' o n := by
  unfold NodeHolds at h ⊢
  split at h
  · exact h
  · split at h
    · exact fun e he => (h e he).mono hX
    · split at h
      · exact h.imp_left fun h => h.mono hX
      · exact h
    · obtain ⟨e, he, h⟩ := h
      exact ⟨e, he, h.mono hX⟩

variable (R g)

/-- The rewrites of the model. -/
def rewrite (N : Set Query) : Set Query →o Set Query where
  toFun X := {q | R.NodeHolds g N X q.1 q.2}
  monotone' _ _ hX _ h := h.mono hX

end Reading

/-! ## Paths in the graph -/

namespace Graph

variable (g : Graph)

/-- There is an edge from one node to the other. -/
def Link (n m : NodeKey) : Prop := ∃ e ∈ g.edgesFrom n, e.target = m

/-- There is a path from one node to the other. -/
abbrev Reaches : NodeKey → NodeKey → Prop := Relation.ReflTransGen g.Link

/-- The node lies on a cycle. -/
def OnCycle (n : NodeKey) : Prop := Relation.TransGen g.Link n n

/-- The nodes with an entry in the table of edges. -/
def sources : Finset NodeKey := (g.edges.map Prod.fst).toFinset

open Classical in
/-- The sources among the nodes reachable from `n` that satisfy `p`. -/
noncomputable def reachable (p : NodeKey → Prop) (n : NodeKey) : Finset NodeKey :=
  g.sources.filter fun m => p m ∧ g.Reaches n m

variable {g} {p : NodeKey → Prop} {n m : NodeKey} {e : Edge}

lemma mem_sources_of_some {es} (h : g.getEdgesFromNode n = some es) :
    n ∈ g.sources := by
  have hlook : (g.edges.lookup n).isSome = true := by
    rw [show g.edges.lookup n = some es from h]
    rfl
  obtain ⟨p, hp, hkey⟩ := List.lookup_isSome_iff.mp hlook
  rw [sources, List.mem_toFinset, List.mem_map]
  exact ⟨p, hp, (beq_iff_eq.mp hkey).symm⟩

lemma mem_sources (he : e ∈ g.edgesFrom n) : n ∈ g.sources := by
  unfold edgesFrom at he
  cases hes : g.getEdgesFromNode n with
  | none =>
    rw [hes] at he
    cases he
  | some es => exact mem_sources_of_some hes

lemma card_reachable_le (n : NodeKey) : (g.reachable p n).card ≤ g.sources.card := by
  refine Finset.card_le_card fun k hk => ?_
  simp only [reachable, Finset.mem_filter] at hk
  exact hk.1

lemma reachable_subset (h : g.Reaches n m) : g.reachable p m ⊆ g.reachable p n := by
  intro k hk
  simp only [reachable, Finset.mem_filter] at hk ⊢
  exact ⟨hk.1, hk.2.1, h.trans hk.2.2⟩

/-- Leaving a node for good leaves it out of what is reachable. -/
lemma card_reachable_lt (hsource : n ∈ g.sources) (hp : p n) (hto : g.Reaches n m)
    (hback : ¬ g.Reaches m n) : (g.reachable p m).card < (g.reachable p n).card := by
  refine Finset.card_lt_card (Finset.ssubset_iff_subset_ne.mpr ⟨reachable_subset hto, ?_⟩)
  intro heq
  have hn : n ∈ g.reachable p n := by
    simp only [reachable, Finset.mem_filter]
    exact ⟨hsource, hp, Relation.ReflTransGen.refl⟩
  rw [← heq] at hn
  simp only [reachable, Finset.mem_filter] at hn
  exact hback hn.2.2

lemma reaches_of_mem (he : e ∈ g.edgesFrom n) : g.Reaches n e.target :=
  Relation.ReflTransGen.single ⟨e, he, rfl⟩

lemma not_reaches_of_not_onCycle (he : e ∈ g.edgesFrom n) (h : ¬ g.OnCycle n) :
    ¬ g.Reaches e.target n := fun hback =>
  h (Relation.TransGen.head' ⟨e, he, rfl⟩ hback)

/-- The nodes that subtract. -/
def IsExclusion : NodeKey → Prop
  | .operatorNode .exclusion _ => True
  | _ => False

/-- Intersections and exclusions. -/
def IsBarrier : NodeKey → Prop
  | .operatorNode .intersection _ => True
  | .operatorNode .exclusion _ => True
  | _ => False

lemma isBarrier_of_isExclusion {n} (h : IsExclusion n) : IsBarrier n := by
  unfold IsExclusion at h
  split at h
  · trivial
  · exact h.elim

/-- Relations, `type#relation`. -/
def IsRelation : NodeKey → Prop
  | .specificTypeAndRelation _ _ => True
  | _ => False

/-- Operators and groupings: the inner nodes of a rewrite. -/
def IsInner : NodeKey → Prop
  | .operatorNode _ _ => True
  | .logicalDirectGrouping _ => True
  | .logicalTTUGrouping _ => True
  | _ => False

instance : DecidablePred IsBarrier
  | .operatorNode .intersection _ => .isTrue trivial
  | .operatorNode .exclusion _ => .isTrue trivial
  | .operatorNode .union _ => .isFalse id
  | .specificType _ | .specificTypeWildcard _ | .specificTypeAndRelation _ _
  | .logicalDirectGrouping _ | .logicalTTUGrouping _ => .isFalse id

instance : DecidablePred IsRelation
  | .specificTypeAndRelation _ _ => .isTrue trivial
  | .specificType _ | .specificTypeWildcard _ | .operatorNode _ _
  | .logicalDirectGrouping _ | .logicalTTUGrouping _ => .isFalse id

instance : DecidablePred IsInner
  | .operatorNode _ _ | .logicalDirectGrouping _ | .logicalTTUGrouping _ => .isTrue trivial
  | .specificType _ | .specificTypeWildcard _ | .specificTypeAndRelation _ _ => .isFalse id

/-- What the builder of the graph marks, and the shape it gives to rewrites. -/
structure Marked (g : Graph) : Prop where
  /-- Every edge of a cycle is marked. -/
  edge : ∀ n, ∀ e ∈ g.edgesFrom n, g.Reaches e.target n → e.isCyclical = true
  /-- Every relation on a cycle is marked. -/
  node : ∀ n, IsRelation n → g.OnCycle n → ∀ node, g.getNodeByID n = some node →
    node.recursiveRelation = some node.key ∨ node.tupleCycle = true
  /-- No intersection or exclusion lies on a cycle. -/
  barrier : ∀ n, IsBarrier n → ¬ g.OnCycle n
  /-- The inner nodes of a rewrite belong to one place. -/
  parent : ∀ n n', ∀ e ∈ g.edgesFrom n, ∀ e' ∈ g.edgesFrom n', e.target = e'.target →
    IsInner e.target → n = n'

variable {g : Graph} {n m : NodeKey} {e : Edge}

/-- A node that is handed objects from outside all cycles only lies on none. -/
lemma Marked.not_onCycle (hg : g.Marked) (he : e ∈ g.edgesFrom n) (hinner : IsInner e.target)
    (hn : ¬ g.OnCycle n) : ¬ g.OnCycle e.target := by
  intro hcycle
  obtain ⟨k, hpath, e', he', htarget⟩ := Relation.TransGen.tail'_iff.mp hcycle
  obtain rfl := hg.parent k n e' he' e he htarget (htarget ▸ hinner)
  exact hn (Relation.TransGen.head' ⟨e, he, rfl⟩ hpath)

end Graph

/-! ## The least fixed point -/

namespace Reading

open OpenFGA.Graph

variable (R : Reading) (g : Graph)

/-- The least fixed point of the rewrites: one round for each exclusion. -/
def semantics : Set Query := Stratified.strata (R.rewrite g) (g.sources.card + 1)

variable {R g} {N N' X X' : Set Query} {o : Object} {e : Edge} {n : NodeKey}

lemma NodeHolds.congr (hX : ∀ e ∈ g.edgesFrom n, ∀ o, (o, e.target) ∈ X → (o, e.target) ∈ X')
    (hN : IsExclusion n → ∀ e ∈ g.edgesFrom n, ∀ o, (o, e.target) ∈ N' → (o, e.target) ∈ N)
    (h : R.NodeHolds g N X o n) : R.NodeHolds g N' X' o n := by
  unfold NodeHolds at h ⊢
  cases hes : g.getEdgesFromNode n with
  | none =>
    rw [hes] at h
    exact h
  | some es =>
    have hfrom : g.edgesFrom n = es := by rw [edgesFrom, hes]; rfl
    rw [hfrom] at hX hN
    rw [hes] at h
    simp only at h ⊢
    split at h
    · exact fun e he => EdgeHolds.congr (hX e he) (h e he)
    · split at h
      next base subtract _ =>
        refine ⟨EdgeHolds.congr (hX base (by simp)) h.1, fun hsub => h.2 (hsub.congr ?_)⟩
        exact hN trivial subtract (by simp)
      · exact h
    · obtain ⟨e, he, h⟩ := h
      exact ⟨e, he, EdgeHolds.congr (hX e he) h⟩

section
variable (hexcl : ∀ n, IsExclusion n → ¬ g.OnCycle n)
include hexcl

/-- The rewrites are stratified by the number of exclusions that can be reached. -/
lemma ranked_rewrite :
    Stratified.Ranked (R.rewrite g) fun q => (g.reachable IsExclusion q.2).card := by
  rintro ⟨o, n⟩ N N' X X' hN hX h
  refine NodeHolds.congr (fun e he c hmem => ?_) (fun hn e he c hmem => ?_) h
  · exact hX (c, e.target) (Finset.card_le_card (reachable_subset (Graph.reaches_of_mem he))) hmem
  · refine (hN (c, e.target) ?_).mpr hmem
    exact card_reachable_lt (mem_sources he) hn (reaches_of_mem he)
      (not_reaches_of_not_onCycle he (hexcl n hn))

theorem isModel_semantics :
    Stratified.IsModel (R.rewrite g) (R.semantics g) :=
  Stratified.isModel_strata (ranked_rewrite hexcl) fun _ =>
    Nat.lt_succ_of_le (card_reachable_le _)

/-- The semantics is the only set that is the least fixed point of the rewrites with
    its own subtracted sides. -/
theorem semantics_unique {S} (h : Stratified.IsModel (R.rewrite g) S) : S = R.semantics g :=
  h.unique (ranked_rewrite hexcl) (isModel_semantics hexcl)

end

end Reading

end OpenFGA
