/-
  `FlattenNode` replaces the edges that only hand an object on by the edges they
  lead to, and leaves out edges without a path to the type of the user.  Neither
  changes what a node means: `mem_iff_flatEdge`.

  That an edge left out contributes nothing rests on the weights and wildcards
  that the graph builder attaches; `Graph.Weighted` states what they must say.
-/

import OpenFGA.Semantics

namespace OpenFGA

namespace Graph

/-- Nodes whose edges are alternatives. -/
def isUnion : NodeKey → Bool
  | .specificTypeAndRelation _ _ => true
  | .operatorNode .union _ => true
  | .logicalDirectGrouping _ => true
  | .logicalTTUGrouping _ => true
  | _ => false

variable (g : Graph) (ut : UserType) (wild : Bool)

/-- The node has a path to the user type, and to its wildcard when the request is for
    the wildcard: the test of `ResolveCheck`. -/
def reachesNode (n : NodeKey) : Bool :=
  match g.getNodeByID n with
  | none => false
  | some node => (node.weights.lookup ut).isSome && (!wild || node.wildcards.contains ut)

/-- The edge ends at a user of the type. -/
def endsAt (e : Edge) : Bool :=
  match e.target with
  | .specificType t => ut = .type t ∧ wild = false
  | .specificTypeWildcard t => ut = .type t
  | .specificTypeAndRelation t r => e.edgeType = .directEdge ∧ ut = .userset t r ∧ wild = false
  | _ => false

/-- Weights and wildcards say which edges have a path to the user type. -/
structure Weighted : Prop where
  ends : ∀ n, ∀ e ∈ g.edgesFrom n, endsAt ut wild e = true → e.reaches ut wild = true
  edge : ∀ n, ∀ e ∈ g.edgesFrom n, g.reachesNode ut wild e.target = true →
    e.reaches ut wild = true
  union : ∀ n, isUnion n = true → ∀ e ∈ g.edgesFrom n, e.reaches ut wild = true →
    g.reachesNode ut wild n = true
  intersection : ∀ id es, g.getEdgesFromNode (.operatorNode .intersection id) = some es →
    (∀ e ∈ es, e.reaches ut wild = true) →
      g.reachesNode ut wild (.operatorNode .intersection id) = true
  exclusion : ∀ id base subtract rest,
    g.getEdgesFromNode (.operatorNode .exclusion id) = some (base :: subtract :: rest) →
      base.reaches ut wild = true → g.reachesNode ut wild (.operatorNode .exclusion id) = true
  /-- Terminal nodes have no edges. -/
  terminal : ∀ t, g.getEdgesFromNode (.specificType t) = none ∧
    g.getEdgesFromNode (.specificTypeWildcard t) = none
  /-- An edge to a terminal node leads to users of its type only. -/
  endsOnly : ∀ n, ∀ e ∈ g.edgesFrom n, e.reaches ut wild = true →
    (∀ t, e.target = .specificType t → ut = .type t ∧ wild = false) ∧
      ∀ t, e.target = .specificTypeWildcard t → ut = .type t

end Graph

namespace Reading

open OpenFGA.Graph

variable {R : Reading} {g : Graph} {ut : UserType} {wild : Bool} {S : Set Query}

/-- Tuples assign users of the given type only. -/
def Typed (R : Reading) (ut : UserType) (wild : Bool) : Prop :=
  ∀ o e, R.assigned o e → endsAt ut wild e = true

lemma nodeHolds_union {N X o n} (hn : isUnion n = true) :
    R.NodeHolds g N X o n ↔ ∃ e ∈ g.edgesFrom n, R.EdgeHolds X o e := by
  unfold NodeHolds edgesFrom
  cases hes : g.getEdgesFromNode n with
  | none => simp
  | some es =>
    simp only [Option.getD_some]
    split
    · cases hn
    · cases hn
    · exact Iff.rfl

section
variable (hS : Stratified.IsModel (R.rewrite g) S) (hw : g.Weighted ut wild)
  (hR : R.Typed ut wild)

include hw hR

lemma reaches_of_edgeHolds {X o e n}
    (he : e ∈ g.edgesFrom n) (hX : ∀ q ∈ X, g.reachesNode ut wild q.2 = true)
    (h : R.EdgeHolds X o e) : e.reaches ut wild = true := by
  cases hr : e.isRewrite with
  | true =>
    rw [edgeHolds_rewrite hr] at h
    exact hw.edge n e he (hX _ h)
  | false =>
    rw [edgeHolds_tuples hr] at h
    rcases h with h | ⟨c, -, h⟩
    · exact hw.ends n e he (hR o e h)
    · exact hw.edge n e he (hX _ h)

include hS

lemma reachesNode_of_mem {q} (hq : q ∈ S) : g.reachesNode ut wild q.2 = true := by
  refine hS.induction (P := fun q => g.reachesNode ut wild q.2 = true) ?_ q hq
  rintro ⟨o, n⟩ h
  have hX : ∀ q ∈ {j | j ∈ S ∧ g.reachesNode ut wild j.2 = true},
      g.reachesNode ut wild q.2 = true := fun q hq => hq.2
  have hnode : R.NodeHolds g S {j | j ∈ S ∧ g.reachesNode ut wild j.2 = true} o n := h
  unfold NodeHolds at hnode
  cases hes : g.getEdgesFromNode n with
  | none =>
    rw [hes] at hnode
    exact hnode.elim
  | some es =>
    have hfrom : g.edgesFrom n = es := by rw [edgesFrom, hes]; rfl
    have hreach : ∀ e ∈ es, R.EdgeHolds _ o e → e.reaches ut wild = true :=
      fun e he h => reaches_of_edgeHolds hw hR (hfrom ▸ he) hX h
    rw [hes] at hnode
    simp only at hnode
    split at hnode
    · exact hw.intersection _ es hes fun e he => hreach e he (hnode e he)
    · split at hnode
      · exact hw.exclusion _ _ _ _ hes (hreach _ (by simp) hnode.1)
      · exact hnode.elim
    next hi hx =>
      obtain ⟨e, he, h⟩ := hnode
      refine hw.union n ?_ e (hfrom ▸ he) (hreach e he h)
      cases n with
      | specificType t => rw [(hw.terminal t).1] at hes; cases hes
      | specificTypeWildcard t => rw [(hw.terminal t).2] at hes; cases hes
      | operatorNode op id =>
        cases op with
        | union => rfl
        | intersection => exact absurd rfl (hi id)
        | exclusion => exact absurd rfl (hx id)
      | _ => rfl

/-- An edge over which the user is related has a path to the user type. -/
lemma reaches_of_holds {o e n} (he : e ∈ g.edgesFrom n)
    (h : R.EdgeHolds S o e) : e.reaches ut wild = true :=
  reaches_of_edgeHolds hw hR he (fun _ hq => reachesNode_of_mem hS hw hR hq) h

end

end Reading

/-! ## Flattening -/

namespace Graph

variable (g : Graph) (ut : UserType) (wild : Bool)

/-- One node hands its objects on to the other. -/
def HandsOn (n m : NodeKey) : Prop := ∃ e ∈ g.edgesFrom n, e.canFlatten = true ∧ e.target = m

/-- One node hands its objects on to the other over an edge that is flattened. -/
def FlatLink (n m : NodeKey) : Prop :=
  ∃ e ∈ g.edgesFrom n, e.reaches ut wild = true ∧ e.canFlatten = true ∧ e.target = m

/-- The edges that flattening `n` ends with. -/
def FlatEdge (n : NodeKey) (e : Edge) : Prop :=
  ∃ m, Relation.ReflTransGen (g.FlatLink ut wild) n m ∧ e ∈ g.edgesFrom m ∧
    e.reaches ut wild = true ∧ e.canFlatten = false

variable {g ut wild} {n : NodeKey} {e : Edge} {es : List Edge} {α β : Type} {l : List α}

lemma handsOn_of_flatLink {m} (h : Relation.ReflTransGen (g.FlatLink ut wild) n m) :
    Relation.ReflTransGen g.HandsOn n m := by
  refine Relation.ReflTransGen.mono ?_ _ _ h
  rintro k k' ⟨e, he, -, hflat, ht⟩
  exact ⟨e, he, hflat, ht⟩

lemma edgesFrom_eq (h : g.getEdgesFromNode n = some es) : g.edgesFrom n = es := by
  rw [edgesFrom, h]
  rfl

lemma mem_flatten_mapM {f : α → Option (List β)} {parts} (h : l.mapM f = some parts) {x} :
    x ∈ parts.flatten ↔ ∃ a ∈ l, ∃ part, f a = some part ∧ x ∈ part := by
  induction l generalizing parts with
  | nil =>
    simp only [List.mapM_nil, Option.pure_def, Option.some.injEq] at h
    simp [← h]
  | cons a l ih =>
    simp only [List.mapM_cons, Option.bind_eq_bind, Option.pure_def, Option.bind_eq_some_iff,
      Option.some.injEq] at h
    obtain ⟨part, ha, parts', hl, rfl⟩ := h
    rw [List.flatten_cons, List.mem_append, ih hl, List.exists_mem_cons_iff]
    refine or_congr_left ?_
    rw [ha]
    simp

lemma exists_of_mapM {f : α → Option β} {bs}
    (h : l.mapM f = some bs) {a} (ha : a ∈ l) : ∃ b, f a = some b := by
  induction l generalizing bs with
  | nil => cases ha
  | cons a' l ih =>
    simp only [List.mapM_cons, Option.bind_eq_bind, Option.bind_eq_some_iff] at h
    obtain ⟨b, hb, bs', hl, -⟩ := h
    rcases List.mem_cons.mp ha with rfl | ha
    · exact ⟨b, hb⟩
    · exact ih hl ha

lemma mapM_isSome {f : α → Option β}
    (h : ∀ a ∈ l, ∃ b, f a = some b) : ∃ bs, l.mapM f = some bs := by
  induction l with
  | nil => exact ⟨[], rfl⟩
  | cons a l ih =>
    obtain ⟨b, hb⟩ := h a List.mem_cons_self
    obtain ⟨bs, hbs⟩ := ih fun a' ha' => h a' (List.mem_cons_of_mem _ ha')
    exact ⟨b :: bs, by simp [List.mapM_cons, hb, hbs]⟩

lemma FlatEdge.of_link {m} (hlink : g.FlatLink ut wild n m)
    (h : g.FlatEdge ut wild m e) : g.FlatEdge ut wild n e := by
  obtain ⟨k, hk, he⟩ := h
  exact ⟨k, Relation.ReflTransGen.head hlink hk, he⟩

section
variable {recursivePath : Bool} (fuel : Nat) (n : NodeKey) (es : List Edge)
  (h : g.flattenAux ut wild recursivePath fuel n = some es)
include h

lemma mem_flattenAux :
    e ∈ es ↔ g.FlatEdge ut wild n e ∧ (recursivePath = true → e.recursiveRelation = none) := by
  induction fuel generalizing n es e with
  | zero => cases h
  | succ fuel ih =>
    simp only [flattenAux, Option.bind_eq_bind, Option.pure_def, Option.bind_eq_some_iff,
      Option.some.injEq] at h
    obtain ⟨es₀, hes₀, parts, hparts, rfl⟩ := h
    have hfrom := edgesFrom_eq hes₀
    rw [mem_flatten_mapM hparts]
    constructor
    · rintro ⟨e₀, he₀, part, hpart, he⟩
      rw [← hfrom] at he₀
      split at hpart
      next hreach =>
        split at hpart
        next hflat =>
          obtain ⟨hedge, hrec⟩ := (ih _ _ hpart).mp he
          exact ⟨hedge.of_link ⟨e₀, he₀, hreach, hflat, rfl⟩, hrec⟩
        next hflat =>
          split at hpart <;> cases hpart
          next hrec =>
            obtain rfl := List.mem_singleton.mp he
            refine ⟨⟨n, .refl, he₀, hreach, by simpa using hflat⟩, fun hpath => ?_⟩
            simpa [hpath] using hrec
          · cases he
      · cases hpart
        cases he
    · rintro ⟨⟨m, hm, he, hreach, hflat⟩, hrec⟩
      rcases Relation.ReflTransGen.cases_head hm with rfl | ⟨k, ⟨e₀, he₀, hreach₀, hflat₀, rfl⟩, hk⟩
      · refine ⟨e, hfrom ▸ he, [e], ?_, List.mem_singleton_self e⟩
        have hpath : (!recursivePath || e.recursiveRelation.isNone) = true := by
          cases recursivePath with
          | false => rfl
          | true => simp [hrec rfl]
        simp [hreach, hflat, hpath]
      · rw [hfrom] at he₀
        obtain ⟨part, hpart⟩ := exists_of_mapM hparts he₀
        refine ⟨e₀, he₀, part, hpart, ?_⟩
        rw [if_pos hreach₀, if_pos hflat₀] at hpart
        exact (ih _ _ hpart).mpr ⟨⟨m, hk, he, hreach, hflat⟩, hrec⟩

/-- Leaving recursive edges out does not change where `FlattenNode` fails. -/
lemma flattenAux_isSome :
    ∃ es', g.flattenAux ut wild false fuel n = some es' := by
  induction fuel generalizing n es with
  | zero => cases h
  | succ fuel ih =>
    simp only [flattenAux, Option.bind_eq_bind, Option.pure_def, Option.bind_eq_some_iff,
      Option.some.injEq] at h
    obtain ⟨es₀, hes₀, parts, hparts, -⟩ := h
    suffices hall : ∀ e ∈ es₀, ∃ part, (if e.reaches ut wild then
        if e.canFlatten then g.flattenAux ut wild false fuel e.target
        else if !false || e.recursiveRelation.isNone then some [e] else some []
        else some []) = some part by
      obtain ⟨parts', hparts'⟩ := mapM_isSome hall
      refine ⟨parts'.flatten, ?_⟩
      simp only [flattenAux, Option.bind_eq_bind, Option.pure_def, Option.bind_eq_some_iff,
        Option.some.injEq]
      exact ⟨es₀, hes₀, parts', hparts', rfl⟩
    intro e he
    obtain ⟨part, hpart⟩ := exists_of_mapM hparts he
    cases hreach : e.reaches ut wild with
    | false => exact ⟨[], rfl⟩
    | true =>
      cases hflat : e.canFlatten with
      | false => exact ⟨[e], rfl⟩
      | true =>
        rw [if_pos hreach, if_pos hflat] at hpart
        exact ih _ _ hpart

end

/-- Edges that are flattened hand objects on to nodes whose edges are alternatives. -/
def Flattens (g : Graph) : Prop :=
  ∀ n, ∀ e ∈ g.edgesFrom n, e.canFlatten = true → isUnion e.target = true

lemma isRewrite_of_canFlatten (h : e.canFlatten = true) : e.isRewrite = true := by
  unfold Edge.canFlatten at h
  unfold Edge.isRewrite
  cases ht : e.edgeType with
  | directEdge => simp [ht] at h
  | ttuEdge => simp [ht] at h
  | _ => rfl

/-- Recursive edges: those that read tuples lead back to the recursive relation, with
    the tuples of that relation; the others hand objects on. -/
structure Recursive (g : Graph) : Prop where
  tuples : ∀ n, ∀ e ∈ g.edgesFrom n, ∀ k, e.recursiveRelation = some k → e.isRewrite = false →
    e.target = k ∧
      (e.edgeType = .directEdge → ∃ t, k = .specificTypeAndRelation t e.relationDefinition.2)
  rewrites : ∀ n, ∀ e ∈ g.edgesFrom n, e.recursiveRelation.isSome → e.isRewrite = true →
    e.canFlatten = true

lemma isRewrite_eq_false : e.isRewrite = false ↔ e.edgeType = .directEdge ∨
    e.edgeType = .ttuEdge := by
  unfold Edge.isRewrite
  cases e.edgeType <;> simp

/-- An edge that the search for a recursive edge may answer. -/
def RecursiveFrom (g : Graph) (k n : NodeKey) (e : Edge) : Prop :=
  ∃ m, Relation.ReflTransGen g.HandsOn n m ∧ e ∈ g.edgesFrom m ∧ e.recursiveRelation = some k ∧
    e.isRewrite = false

/-- Where one round of the search takes its edge from. -/
lemma recursionStep_eq_some {k rec acc e₀} (h : (recursionStep k ut rec acc e₀).1 = some e) :
    acc.1 = some e ∨ (e₀.recursiveRelation = some k ∧
      ((e = e₀ ∧ e₀.isRewrite = false) ∨ (e₀.isRewrite = true ∧ rec.1 = some e))) := by
  unfold recursionStep at h
  split at h
  · left
    split at h
    · split at h
      · exact h
      · exact h
    · exact h
  next hk =>
    have hk : e₀.recursiveRelation = some k := not_not.mp hk
    split at h
    next htype =>
      cases h
      exact .inr ⟨hk, .inl ⟨rfl, isRewrite_eq_false.mpr htype⟩⟩
    next htype =>
      have hrw : e₀.isRewrite = true := by
        rw [← Bool.not_eq_false, isRewrite_eq_false]
        exact htype
      cases hrec : rec.1 with
      | none =>
        rw [hrec] at h
        exact .inl h
      | some e₁ =>
        rw [hrec] at h
        exact .inr ⟨hk, .inr ⟨hrw, h⟩⟩

/-- The search for a recursive edge of `k` follows the rewrite edges of `k` and takes its edge where
    one reads tuples. -/
lemma canApply_induction {P : NodeKey → Edge → Prop} (k : NodeKey)
    (hends : ∀ n, ∀ e ∈ g.edgesFrom n, e.recursiveRelation = some k → e.isRewrite = false → P n e)
    (hlink : ∀ n, ∀ e₀ ∈ g.edgesFrom n, e₀.recursiveRelation = some k → e₀.isRewrite = true →
      ∀ e, P e₀.target e → P n e)
    (fuel : Nat) (n : NodeKey) (h : (g.canApplyRecursiveOptimization k ut fuel n).1 = some e) :
    P n e := by
  induction fuel generalizing n e with
  | zero => cases h
  | succ fuel ih =>
    cases hes : g.getEdgesFromNode n with
    | none => simp [canApplyRecursiveOptimization, hes] at h
    | some es =>
      cases ut with
      | userset t r => simp [canApplyRecursiveOptimization, hes] at h
      | type t =>
        simp only [canApplyRecursiveOptimization, hes] at h
        -- what the loop holds was found in some round
        suffices hfold : ∀ (l : List Edge) (acc : Option Edge × Bool), (∀ e' ∈ l, e' ∈ es) →
            (∀ e', acc.1 = some e' → P n e') →
            ∀ e', (l.foldl (fun acc e => recursionStep k (.type t)
              (g.canApplyRecursiveOptimization k (.type t) fuel e.target) acc e) acc).1 =
                some e' → P n e' from
          hfold es (none, true) (fun _ => id) (fun e' he' => by cases he') e h
        intro l
        induction l with
        | nil => exact fun acc _ hacc e' he' => hacc e' he'
        | cons e₀ l ihl =>
          intro acc hl hacc
          refine ihl _ (fun e' he' => hl e' (List.mem_cons_of_mem _ he')) fun e' he' => ?_
          have he₀ : e₀ ∈ g.edgesFrom n := edgesFrom_eq hes ▸ hl e₀ List.mem_cons_self
          rcases recursionStep_eq_some he' with he' | ⟨hk, ⟨rfl, hrw⟩ | ⟨hrw, hsub⟩⟩
          · exact hacc e' he'
          · exact hends n e' he₀ hk hrw
          · exact hlink n e₀ he₀ hk hrw e' (ih e₀.target hsub)

/-- The edge that `canApplyRecursiveOptimization` answers is found by handing objects
    on. -/
lemma recursiveFrom_of_canApply (hrec : g.Recursive) (k : NodeKey) (fuel : Nat) (n : NodeKey)
    (h : (g.canApplyRecursiveOptimization k ut fuel n).1 = some e) : g.RecursiveFrom k n e := by
  refine canApply_induction k (fun n e he hk hrw => ⟨n, .refl, he, hk, hrw⟩) ?_ fuel n h
  rintro n e₀ he₀ hk hrw e ⟨m, hm, hrest⟩
  have hflat := hrec.rewrites n e₀ he₀ (by rw [hk]; rfl) hrw
  exact ⟨m, Relation.ReflTransGen.head ⟨e₀, he₀, hflat, rfl⟩ hm, hrest⟩

/-- It is among the edges that flattening ends with, if the edges of the recursive relation have a
    path to the user type. -/
lemma flatEdge_of_canApply {k} (hrec : g.Recursive)
    (hreach : ∀ n, ∀ e ∈ g.edgesFrom n, e.recursiveRelation = some k → e.reaches ut wild = true)
    (fuel : Nat) (n : NodeKey) (h : (g.canApplyRecursiveOptimization k ut fuel n).1 = some e) :
    g.FlatEdge ut wild n e := by
  refine canApply_induction k ?_ ?_ fuel n h
  · intro n e he hk hrw
    refine ⟨n, .refl, he, hreach n e he hk, ?_⟩
    rw [← Bool.not_eq_true]
    exact fun hflat => by simp [isRewrite_of_canFlatten hflat] at hrw
  · intro n e₀ he₀ hk hrw e he
    exact he.of_link ⟨e₀, he₀, hreach n e₀ he₀ hk,
      hrec.rewrites n e₀ he₀ (by rw [hk]; rfl) hrw, rfl⟩

end Graph

namespace Reading

open OpenFGA.Graph

variable {R : Reading} {g : Graph} {ut : UserType} {wild : Bool} {S : Set Query}
  {o : Object} {n m : NodeKey} {e : Edge}

section
variable (hS : Stratified.IsModel (R.rewrite g) S)
include hS

lemma mem_union (hn : isUnion n = true) :
    (o, n) ∈ S ↔ ∃ e ∈ g.edgesFrom n, R.EdgeHolds S o e :=
  hS.mem_iff.trans (nodeHolds_union hn)

/-- What holds where flattening arrives holds where it starts. -/
lemma mem_of_handsOn (hg : g.Flattens)
    (hlink : Relation.ReflTransGen g.HandsOn n m) (hn : isUnion n = true) :
    isUnion m = true ∧ ((o, m) ∈ S → (o, n) ∈ S) := by
  induction hlink with
  | refl => exact ⟨hn, id⟩
  | tail _ hstep ih =>
    obtain ⟨e, he, hflat, rfl⟩ := hstep
    refine ⟨hg _ e he hflat, fun hmem => ih.2 ((mem_union hS ih.1).mpr ⟨e, he, ?_⟩)⟩
    exact (edgeHolds_rewrite (isRewrite_of_canFlatten hflat)).mpr hmem

/-- Where the user is related at the end, flattening takes the whole path. -/
lemma flatLink_of_handsOn (hw : g.Weighted ut wild)
    (hR : R.Typed ut wild) (hg : g.Flattens) (hlink : Relation.ReflTransGen g.HandsOn n m)
    (hn : isUnion n = true) (h : (o, m) ∈ S) : Relation.ReflTransGen (g.FlatLink ut wild) n m := by
  induction hlink with
  | refl => exact .refl
  | tail hpath hstep ih =>
    obtain ⟨e, he, hflat, rfl⟩ := hstep
    have hold : R.EdgeHolds S o e := (edgeHolds_rewrite (isRewrite_of_canFlatten hflat)).mpr h
    have hk := (mem_of_handsOn (o := o) hS hg hpath hn).1
    have hreach := reaches_of_holds hS hw hR he hold
    exact (ih ((mem_union hS hk).mpr ⟨e, he, hold⟩)).tail ⟨e, he, hreach, hflat, rfl⟩

lemma mem_of_flatEdge (hg : g.Flattens)
    (hn : isUnion n = true) (he : g.FlatEdge ut wild n e) (h : R.EdgeHolds S o e) : (o, n) ∈ S := by
  obtain ⟨m, hlink, hmem, -, -⟩ := he
  obtain ⟨hm, hback⟩ := mem_of_handsOn (o := o) hS hg (handsOn_of_flatLink hlink) hn
  exact hback ((mem_union hS hm).mpr ⟨e, hmem, h⟩)

section
variable (hw : g.Weighted ut wild) (hR : R.Typed ut wild) (hg : g.Flattens) (hn : isUnion n = true)
include hw hR hg hn

/-- A query that holds does so over one of the edges that flattening ends with. -/
lemma exists_flatEdge_of_mem (h : (o, n) ∈ S) :
    ∃ e, g.FlatEdge ut wild n e ∧ R.EdgeHolds S o e := by
  -- induction over the derivation: handing on takes it to a node derived before
  refine hS.induction (P := fun q => isUnion q.2 = true →
    ∃ e, g.FlatEdge ut wild q.2 e ∧ R.EdgeHolds S q.1 e) ?_ (o, n) h hn
  rintro ⟨o, n⟩ hnode hn
  obtain ⟨e, he, hold⟩ := (nodeHolds_union hn).mp hnode
  have hreach := reaches_of_holds hS hw hR he (hold.mono fun _ hq => hq.1)
  cases hflat : e.canFlatten with
  | false => exact ⟨e, ⟨n, .refl, he, hreach, hflat⟩, hold.mono fun _ hq => hq.1⟩
  | true =>
    rw [edgeHolds_rewrite (isRewrite_of_canFlatten hflat)] at hold
    obtain ⟨e', he', hold'⟩ := hold.2 (hg n e he hflat)
    exact ⟨e', he'.of_link ⟨e, he, hreach, hflat, rfl⟩, hold'⟩

theorem mem_iff_flatEdge :
    (o, n) ∈ S ↔ ∃ e, g.FlatEdge ut wild n e ∧ R.EdgeHolds S o e := by
  constructor
  · exact exists_flatEdge_of_mem hS hw hR hg hn
  · rintro ⟨e, he, hold⟩
    exact mem_of_flatEdge hS hg hn he hold

end

end

end Reading

end OpenFGA
