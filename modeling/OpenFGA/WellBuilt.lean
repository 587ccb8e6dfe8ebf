/-
  What the `openfga/language` package guarantees of the graphs it builds, and a check of
  it for a given graph.

  The conditions speak about paths and cycles.  `BuiltBy` replaces them by a level for
  each node that no edge raises and that every unmarked edge lowers, which
  is decided by looking at each edge once; `wellBuilt_of_builtBy` shows that it is enough.
-/

import OpenFGA.Flatten

namespace OpenFGA.Graph

variable (g : Graph) (ut : UserType) (wild : Bool)

/-- What the builder guarantees of a graph. -/
structure WellBuilt : Prop where
  weighted : g.Weighted ut wild
  flattens : g.Flattens
  recursive : g.Recursive
  marked : g.Marked
  /-- Every edge lists a condition, the empty one if no other. -/
  conditions : ∀ n, ∀ e ∈ g.edgesFrom n, e.conditions ≠ []

/-! ## Checking a graph -/

/-- The relation of a node. -/
def relationOf : NodeKey → Option String
  | .specificTypeAndRelation _ r => some r
  | _ => none

/-- The node is marked as recursive or as part of a tuple cycle. -/
def isMarked (n : NodeKey) : Bool :=
  match g.getNodeByID n with
  | none => true
  | some node => node.recursiveRelation = some node.key ∨ node.tupleCycle = true

/-- A terminal node is for users of the type. -/
def terminalFor : NodeKey → Bool
  | .specificType t => ut = .type t ∧ wild = false
  | .specificTypeWildcard t => ut = .type t
  | _ => true

/-- The weights of an edge agree with those of its ends. -/
def EdgeWeighted (n : NodeKey) (e : Edge) : Prop :=
  (endsAt ut wild e = true ∨ g.reachesNode ut wild e.target = true → e.reaches ut wild = true) ∧
    (e.reaches ut wild = true → (isUnion n = true → g.reachesNode ut wild n = true) ∧
      terminalFor ut wild e.target = true)

/-- The weights of an operator agree with those of its edges. -/
def nodeWeighted (n : NodeKey) (es : List Edge) : Bool :=
  match n with
  | .operatorNode .intersection _ =>
    (∀ e ∈ es, e.reaches ut wild = true) → g.reachesNode ut wild n = true
  | .operatorNode .exclusion _ =>
    ∀ base ∈ es.head?, base.reaches ut wild = true → g.reachesNode ut wild n = true
  | .specificType _ => false
  | .specificTypeWildcard _ => false
  | _ => true

/-- The shape of a recursive edge. -/
def EdgeRecursive (e : Edge) : Prop :=
  ∀ k ∈ e.recursiveRelation,
    if e.isRewrite then e.canFlatten = true
    else e.target = k ∧ (e.edgeType = .directEdge → relationOf k = some e.relationDefinition.2)

/-- No edge raises the level, and an edge that no cycle may go through lowers it. -/
def EdgeLevel (level : NodeKey → Nat) (n : NodeKey) (e : Edge) : Prop :=
  level e.target ≤ level n ∧
    (e.isCyclical = false ∨ IsBarrier n ∨ (IsRelation n ∧ g.isMarked n = false) →
      level e.target < level n)

instance (n : NodeKey) (e : Edge) : Decidable (g.EdgeWeighted ut wild n e) :=
  inferInstanceAs (Decidable (_ ∧ _))

instance (e : Edge) : Decidable (EdgeRecursive e) :=
  inferInstanceAs (Decidable (∀ k ∈ e.recursiveRelation, _))

instance (level : NodeKey → Nat) (n : NodeKey) (e : Edge) : Decidable (g.EdgeLevel level n e) :=
  inferInstanceAs (Decidable (_ ∧ _))

/-- A graph that is well built, as a level for each node shows. -/
structure BuiltBy (level : NodeKey → Nat) : Prop where
  weighted : ∀ p ∈ g.edges, ∀ e ∈ p.2, g.EdgeWeighted ut wild p.1 e
  nodes : ∀ p ∈ g.edges, g.nodeWeighted ut wild p.1 p.2 = true
  flattens : ∀ p ∈ g.edges, ∀ e ∈ p.2, e.canFlatten = true → isUnion e.target = true
  recursive : ∀ p ∈ g.edges, ∀ e ∈ p.2, EdgeRecursive e
  levels : ∀ p ∈ g.edges, ∀ e ∈ p.2, g.EdgeLevel level p.1 e
  parents : ∀ p ∈ g.edges, ∀ e ∈ p.2, ∀ p' ∈ g.edges, ∀ e' ∈ p'.2,
    e.target = e'.target → IsInner e.target → p.1 = p'.1
  conditions : ∀ p ∈ g.edges, ∀ e ∈ p.2, e.conditions ≠ []

variable {g ut wild} {n m : NodeKey} {e : Edge} {es : List Edge}

lemma mem_edges_of_some (h : g.getEdgesFromNode n = some es) : (n, es) ∈ g.edges := by
  obtain ⟨l₁, l₂, hedges, -⟩ := List.lookup_eq_some_iff.mp h
  rw [hedges]
  exact List.mem_append_right _ List.mem_cons_self

lemma exists_of_mem_edgesFrom (h : e ∈ g.edgesFrom n) : ∃ es, (n, es) ∈ g.edges ∧ e ∈ es := by
  unfold edgesFrom at h
  cases hes : g.getEdgesFromNode n with
  | none =>
    rw [hes] at h
    cases h
  | some es =>
    rw [hes] at h
    exact ⟨es, mem_edges_of_some hes, h⟩

lemma forall_edges {P : NodeKey → Edge → Prop} (h : ∀ p ∈ g.edges, ∀ e ∈ p.2, P p.1 e) :
    ∀ n, ∀ e ∈ g.edgesFrom n, P n e := by
  intro n e he
  obtain ⟨es, hmem, he⟩ := exists_of_mem_edgesFrom he
  exact h (n, es) hmem e he

lemma recursive_of_edges (h : ∀ p ∈ g.edges, ∀ e ∈ p.2, EdgeRecursive e) : g.Recursive := by
  have hall := forall_edges (P := fun _ e => EdgeRecursive e) h
  constructor
  · intro n e he k hk hrw
    have hrec := hall n e he k hk
    rw [if_neg (by simp [hrw])] at hrec
    refine ⟨hrec.1, fun hd => ?_⟩
    have hrel := hrec.2 hd
    unfold relationOf at hrel
    split at hrel
    next t r => exact ⟨t, by rw [Option.some.inj hrel]⟩
    · cases hrel
  · intro n e he hsome hrw
    obtain ⟨k, hk⟩ := Option.isSome_iff_exists.mp hsome
    have hrec := hall n e he k hk
    rw [if_pos hrw] at hrec
    exact hrec

section
variable {level : NodeKey → Nat} (h : g.BuiltBy ut wild level)

include h

lemma BuiltBy.level_le (hpath : g.Reaches n m) : level m ≤ level n := by
  induction hpath with
  | refl => exact Nat.le_refl _
  | tail _ hlink ih =>
    obtain ⟨e, he, rfl⟩ := hlink
    exact (forall_edges h.levels _ e he).1.trans ih

/-- An edge that lowers the level lies on no cycle. -/
lemma BuiltBy.not_reaches (he : e ∈ g.edgesFrom n)
    (hlow : e.isCyclical = false ∨ IsBarrier n ∨ (IsRelation n ∧ g.isMarked n = false)) :
    ¬ g.Reaches e.target n := fun hback => by
  have hlt := (forall_edges h.levels n e he).2 hlow
  have hle := h.level_le hback
  omega

lemma BuiltBy.not_onCycle
    (hlow : IsBarrier n ∨ (IsRelation n ∧ g.isMarked n = false)) : ¬ g.OnCycle n := by
  intro hcycle
  obtain ⟨k, ⟨e, he, rfl⟩, hback⟩ := Relation.TransGen.head'_iff.mp hcycle
  exact h.not_reaches he (.inr hlow) hback

lemma BuiltBy.weighted' : g.Weighted ut wild where
  ends n e he hends := (forall_edges h.weighted n e he).1 (.inl hends)
  edge n e he hnode := (forall_edges h.weighted n e he).1 (.inr hnode)
  union n hn e he hreach := ((forall_edges h.weighted n e he).2 hreach).1 hn
  intersection id es hes hall := of_decide_eq_true (h.nodes _ (mem_edges_of_some hes)) hall
  exclusion id base subtract rest hes hbase :=
    of_decide_eq_true (h.nodes _ (mem_edges_of_some hes)) base rfl hbase
  terminal t := by
    constructor
    · cases hes : g.getEdgesFromNode (.specificType t) with
      | none => rfl
      | some es => cases h.nodes _ (mem_edges_of_some hes)
    · cases hes : g.getEdgesFromNode (.specificTypeWildcard t) with
      | none => rfl
      | some es => cases h.nodes _ (mem_edges_of_some hes)
  endsOnly n e he hreach := by
    have hends := ((forall_edges h.weighted n e he).2 hreach).2
    constructor
    · intro t ht
      rw [ht] at hends
      exact of_decide_eq_true hends
    · intro t ht
      rw [ht] at hends
      exact of_decide_eq_true hends

theorem wellBuilt_of_builtBy : g.WellBuilt ut wild where
  weighted := h.weighted'
  flattens := forall_edges h.flattens
  recursive := recursive_of_edges h.recursive
  marked := by
    constructor
    · intro n e he hback
      rw [← Bool.not_eq_false]
      exact fun hcyc => h.not_reaches he (.inl hcyc) hback
    · intro n hn hcycle node hnode
      have hmark : g.isMarked n = true := by
        rw [← Bool.not_eq_false]
        exact fun hf => h.not_onCycle (.inr ⟨hn, hf⟩) hcycle
      simp only [isMarked, hnode, decide_eq_true_iff] at hmark
      exact hmark
    · exact fun n hn => h.not_onCycle (.inl hn)
    · intro n n' e he e' he' htarget hinner
      obtain ⟨es, hes, he⟩ := exists_of_mem_edgesFrom he
      obtain ⟨es', hes', he'⟩ := exists_of_mem_edgesFrom he'
      exact h.parents _ hes e he _ hes' e' he' htarget hinner
  conditions := forall_edges h.conditions

end

/-! ## The recursive edge and the others -/

/-- The edges of a recursive relation lead wherever one of the edges from the relation does. -/
def RecursiveWeights (g : Graph) (ut : UserType) (wild : Bool) : Prop :=
  ∀ k, (∃ e ∈ g.edgesFrom k, e.reaches ut wild = true) → ∀ n, ∀ e ∈ g.edgesFrom n,
    e.recursiveRelation = some k → e.reaches ut wild = true

/-- Flattening that ends with an edge starts with one that has a path to the user type. -/
lemma FlatEdge.exists_reaches (h : g.FlatEdge ut wild n e) :
    ∃ e₀ ∈ g.edgesFrom n, e₀.reaches ut wild = true := by
  obtain ⟨m, hm, he, hreach, -⟩ := h
  rcases Relation.ReflTransGen.cases_head hm with rfl | ⟨k, ⟨e₀, he₀, hreach₀, -⟩, -⟩
  · exact ⟨e, he, hreach⟩
  · exact ⟨e₀, he₀, hreach₀⟩

/-- Where `CanApplyRecursion` answers an edge, that edge and the edges of `FlattenNode` without
    recursive ones are all edges of the node exactly if the node has only one recursive edge. -/
theorem canApplyRecursion_covers_iff (g : Graph) (ut : UserType) (wild : Bool) (hrec : g.Recursive)
    (hweights : g.RecursiveWeights ut wild) (node : Node)
    (newStrategy withOptimization : Bool) (e : Edge)
    (h : g.canApplyRecursion node ut newStrategy = (some e, withOptimization))
    (edges nonRecursiveEdges : List Edge)
    (hedges : g.flattenNode node.key ut wild false = some edges)
    (hnon : g.flattenNode e.target ut wild true = some nonRecursiveEdges) :
    (∀ f ∈ edges, f = e ∨ f ∈ nonRecursiveEdges) ↔
      ∀ f ∈ edges, ∀ f' ∈ edges, f.recursiveRelation ≠ none → f'.recursiveRelation ≠ none →
        f = f' := by
  obtain ⟨t, rfl, hsearch⟩ : ∃ t, ut = .type t ∧
      (g.canApplyRecursiveOptimization node.key ut g.fuel node.key).1 = some e := by
    cases ut with
    | userset t r => cases h
    | type t =>
      simp only [canApplyRecursion] at h
      split_ifs at h
      · exact ⟨t, rfl, (Prod.mk.inj h).1⟩
      · cases h
  obtain ⟨m, -, hmem, hk, hrw⟩ := recursiveFrom_of_canApply hrec node.key _ _ hsearch
  rw [(hrec.tuples m e hmem _ hk hrw).1] at hnon
  have hedge (f : Edge) := mem_flattenAux (e := f) _ _ _ hedges
  have hother (f : Edge) := mem_flattenAux (e := f) _ _ _ hnon
  constructor
  · -- an edge with a recursive relation is left out of the others
    have honly (hall : ∀ f ∈ edges, f = e ∨ f ∈ nonRecursiveEdges) (f : Edge) (hf : f ∈ edges)
        (hne : f.recursiveRelation ≠ none) : f = e :=
      (hall f hf).resolve_right fun hmem => hne (((hother f).mp hmem).2 rfl)
    intro hall f hf f' hf' hne hne'
    rw [honly hall f hf hne, honly hall f' hf' hne']
  · intro hunique f hf
    obtain ⟨hflat, -⟩ := (hedge f).mp hf
    by_cases hnone : f.recursiveRelation = none
    · exact .inr ((hother f).mpr ⟨hflat, fun _ => hnone⟩)
    · have hreach := hweights _ hflat.exists_reaches
      have he := (hedge e).mpr ⟨flatEdge_of_canApply hrec hreach _ _ hsearch, nofun⟩
      exact .inl (hunique f hf e he hnone (by rw [hk]; exact Option.some_ne_none _))

private def nestedMember : NodeKey := .specificTypeAndRelation "group" "member"

/-- An edge from the members of a group to users or back to the members of groups. -/
private def nestedEdge (edgeType : EdgeType) (target : NodeKey) : Edge where
  edgeType
  source := nestedMember
  target
  relationDefinition := ("group", "member")
  tuplesetRelation := if edgeType = .ttuEdge then some ("group", "parent") else none
  conditions := [""]
  recursiveRelation := if target = nestedMember then some nestedMember else none
  tupleCycle := false
  wildcards := []
  weights := [(.type "user", if target = nestedMember then 2147483647 else 1)]

private def nestedNode : Node :=
  ⟨nestedMember, some nestedMember, false, [], [(.type "user", 2147483647)]⟩

/-- The members of a group, with these recursive edges. -/
private def nestedMembers (recursive : List Edge) : Graph where
  nodes := [nestedNode]
  edges := [(nestedMember, nestedEdge .directEdge (.specificType "user") :: recursive)]

/-- `member: [user, group#member]`. -/
theorem canApplyRecursion_covers_userset :
    ∃ (g : Graph) (node : Node) (e : Edge) (withOptimization : Bool) (edges others : List Edge),
      g.canApplyRecursion node (.type "user") true = (some e, withOptimization) ∧
      g.flattenNode node.key (.type "user") false false = some edges ∧
      g.flattenNode e.target (.type "user") false true = some others ∧
      ((∀ f ∈ edges, f = e ∨ f ∈ others) ↔
        ∀ f ∈ edges, ∀ f' ∈ edges, f.recursiveRelation ≠ none → f'.recursiveRelation ≠ none →
          f = f') := by
  have hweights : (nestedMembers [nestedEdge .directEdge nestedMember]).RecursiveWeights
      (.type "user") false := fun _ _ n e he _ =>
    forall_edges (P := fun _ e => e.reaches (.type "user") false = true) (by decide) n e he
  exact ⟨nestedMembers [nestedEdge .directEdge nestedMember], nestedNode,
    nestedEdge .directEdge nestedMember, _, _, _, rfl, rfl, rfl,
    canApplyRecursion_covers_iff _ _ _ (recursive_of_edges (by decide)) hweights nestedNode true _
      (nestedEdge .directEdge nestedMember) rfl _ _ rfl rfl⟩

/-- `member: [user, group#member] or member from parent`: the recursive edge that is followed is the
    second one, and the first one is not among the others. -/
theorem canApplyRecursion_misses_userset :
    ∃ (g : Graph) (node : Node) (e : Edge) (withOptimization : Bool) (edges others : List Edge),
      g.canApplyRecursion node (.type "user") true = (some e, withOptimization) ∧
      g.flattenNode node.key (.type "user") false false = some edges ∧
      g.flattenNode e.target (.type "user") false true = some others ∧ ∃ f ∈ edges, f ≠ e ∧
        f ∉ others :=
  ⟨nestedMembers [nestedEdge .directEdge nestedMember, nestedEdge .ttuEdge nestedMember],
    nestedNode,
    _, _, _, _, rfl, rfl, rfl, nestedEdge .directEdge nestedMember, by decide, by decide, by decide⟩

end OpenFGA.Graph
