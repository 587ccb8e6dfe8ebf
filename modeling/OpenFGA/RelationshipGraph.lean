/-
  The edges that lead from a source to a target relation (`internal/graph/graph.go`).

  `GetPrunedRelationshipEdges` walks the rewrites from the target and collects the edges
  whose source is the given one.  Of an intersection it follows the first operand, of an exclusion
  the base, and it marks every edge found below them.  Relations are visited once over the whole
  walk.

  The variant that follows all operands has no caller and is left out.
-/

import OpenFGA.Lib.Explore
import OpenFGA.TypeSystem.Meaning

namespace OpenFGA

open Explore Validation
open Collect

inductive RelationshipEdgeType where
  | directEdge
  | computedUsersetEdge
  | tupleToUsersetEdge
deriving DecidableEq, Repr

structure RelationshipEdge where
  type : RelationshipEdgeType
  targetReference : String × String
  /-- Empty unless the edge is of a tuple to userset. -/
  tuplesetRelation : String
  targetReferenceInvolvesIntersectionOrExclusion : Bool
deriving DecidableEq, Repr

namespace RelationshipEdge

/-- Set the mark of an edge. -/
def flag (e : RelationshipEdge) : RelationshipEdge :=
  { e with targetReferenceInvolvesIntersectionOrExclusion := true }

/-- The same edge, where the second may have been marked on the way up. -/
def Le (e f : RelationshipEdge) : Prop :=
  e.type = f.type ∧ e.targetReference = f.targetReference ∧
    e.tuplesetRelation = f.tuplesetRelation ∧
    (f.targetReferenceInvolvesIntersectionOrExclusion = false →
      e.targetReferenceInvolvesIntersectionOrExclusion = false)

lemma Le.refl (e : RelationshipEdge) : Le e e := ⟨rfl, rfl, rfl, id⟩

lemma Le.trans (e f g : RelationshipEdge) (h : Le e f) (h' : Le f g) : Le e g :=
  ⟨h.1.trans h'.1, h.2.1.trans h'.2.1, h.2.2.1.trans h'.2.2.1, fun hg => h.2.2.2 (h'.2.2.2 hg)⟩

theorem Le.flag (e : RelationshipEdge) : Le e e.flag := ⟨rfl, rfl, rfl, fun h => nomatch h⟩

lemma Le.flag_mono (e f : RelationshipEdge) (h : Le e f) : Le e.flag f.flag :=
  ⟨h.1, h.2.1, h.2.2.1, fun h => nomatch h⟩

end RelationshipEdge

def relationEquals (a b : RelationReference) : Bool :=
  if a.type ≠ b.type then false
  else if a.shape = .object && b.shape = .object then true
  else if a.shape = .wildcard && b.shape = .wildcard then true
  else a.getRelation ≠ "" && b.getRelation ≠ "" && a.getRelation = b.getRelation

/-- The operator that `relationInvolves` looks for. -/
inductive SetOperator where
  | intersection
  | exclusion
deriving DecidableEq, Repr

namespace AuthorizationModel

variable (m : AuthorizationModel)

def isDirectlyRelated (target : String × String) (source : RelationReference) : Bool :=
  (m.getDirectlyRelatedUserTypes target.1 target.2).any (relationEquals source)

def isPubliclyAssignable (target : String × String) (objectType : String) : Bool :=
  (m.getDirectlyRelatedUserTypes target.1 target.2).any fun d =>
    d.type = objectType && d.shape = .wildcard

/-- The usersets among the type restrictions of a relation. -/
def directlyRelatedUsersets (target : String × String) : List (String × String) :=
  ((m.getDirectlyRelatedUserTypes target.1 target.2).filter (·.getRelation ≠ "")).map
    fun d => (d.type, d.getRelation)

/-- The defined relations. -/
def relationNames : List (String × String) :=
  (m.typeDefinitions.flatMap fun td => td.relations.map fun p => (td.type, p.1)).filter
    fun x => m.defines x.1 x.2

/-! ## relationInvolves -/

/-- What a walk over a rewrite returns and the relations visited after it. -/
abbrev Walked := Option Bool × List (String × String)

/-- Ask for one relation after the other until one of them involves the operator. -/
def involvesAny (next : String × String → List (String × String) → Bool × List (String × String)) :
    List (String × String) → List (String × String) → Walked
  | [], v => (none, v)
  | x :: xs, v =>
    match next x v with
    | (true, v') => (some true, v')
    | (false, v') => involvesAny next xs v'

section
variable (operator : SetOperator)
  (next : String × String → List (String × String) → Bool × List (String × String))

mutual

/-- `WalkUsersetRewrite` with the handler of `relationInvolves`: the first operator below
    unions answers, whether or not it is the one that is looked for. -/
def walkUsersetRewrite (objectType : String) : Userset → List (String × String) → Walked
  | .this, v => (none, v)
  | .computedUserset computed, v => involvesAny next [(objectType, computed)] v
  | .tupleToUserset tupleset computed, v =>
    involvesAny next (((m.getDirectlyRelatedUserTypes objectType tupleset).map
      fun d => (d.type, computed)).filter fun x => m.defines x.1 x.2) v
  | .union cs, v => walkUsersetRewrites objectType cs v
  | .intersection _, v => (some (operator = .intersection), v)
  | .difference _ _, v => (some (operator = .exclusion), v)

def walkUsersetRewrites (objectType : String) : List Userset → List (String × String) → Walked
  | [], v => (none, v)
  | c :: cs, v =>
    match walkUsersetRewrite objectType c v with
    | (some b, v') => (some b, v')
    | (none, v') => walkUsersetRewrites objectType cs v'

end
end

/-- `relationInvolves`, at most `n` relations deep. -/
def relationInvolves (operator : SetOperator) : Nat → String × String → List (String × String) →
    Bool × List (String × String)
  | 0, _, v => (false, v)
  | n + 1, x, v =>
    if x ∈ v then (false, v)
    else
      match m.getRelation x.1 x.2 with
      | .error _ => (false, x :: v)
      | .ok rel =>
        match m.walkUsersetRewrite operator (relationInvolves operator n) x.1 rel.rewrite
          (x :: v) with
        | (some true, v') => (true, v')
        | (_, v') =>
          match involvesAny (relationInvolves operator n) (m.directlyRelatedUsersets x) v' with
          | (some true, v'') => (true, v'')
          | (_, v'') => (false, v'')

/-- `RelationInvolvesIntersection` or `RelationInvolvesExclusion`. -/
def involvesIntersectionOrExclusion (x : String × String) : Bool :=
  (m.relationInvolves .intersection (m.relationNames.length + 1) x []).1 ||
    (m.relationInvolves .exclusion (m.relationNames.length + 1) x []).1

/-! ## GetPrunedRelationshipEdges -/

section
variable (target : String × String) (source : RelationReference)

/-- The edge of a `This` in the rewrite of the target. -/
def directEdges : List RelationshipEdge :=
  if m.isDirectlyRelated target source || m.isPubliclyAssignable target source.type then
    [⟨.directEdge, target, "", false⟩]
  else []

/-- The edge of a computed userset in the rewrite of the target. -/
def computedEdges (computed : String) : List RelationshipEdge :=
  if target.1 = source.type && computed = source.getRelation then
    [⟨.computedUsersetEdge, target, "", false⟩]
  else []

/-- The edge of a tuple to userset in the rewrite of the target, for one restriction of
    the tupleset. -/
def ttuEdges (tupleset computed : String) (d : RelationReference) : List RelationshipEdge :=
  if d.type = source.type && computed = source.getRelation then
    [⟨.tupleToUsersetEdge, target, tupleset,
      m.involvesIntersectionOrExclusion (d.type, computed)⟩]
  else []

/-- The collectors of edges. -/
abbrev Edges := Collect (String × String) RelationshipEdge GetRelationError

/-- One restriction of the tupleset. -/
def ttuRestriction (next : String × String → Edges) (tupleset computed : String)
    (d : RelationReference) : Edges :=
  match m.getRelation d.type computed with
  | .error (.relationUndefined _ _) => emit []
  | .error e => fun _ => .error e
  | .ok _ => (emit (m.ttuEdges target source tupleset computed d)).andThen
      (next (d.type, computed))

mutual

def getRelationshipEdgesWithTargetRewrite (next : String × String → Edges) : Userset → Edges
  | .this => (emit (m.directEdges target source)).andThen
      (all ((m.directlyRelatedUsersets target).map next))
  | .computedUserset computed =>
    (emit (computedEdges target source computed)).andThen (next (target.1, computed))
  | .tupleToUserset tupleset computed =>
    all ((m.getDirectlyRelatedUserTypes target.1 tupleset).map
      (m.ttuRestriction target source next tupleset computed))
  | .union cs => getRelationshipEdgesOfChildren next cs
  | .intersection [] => emit []
  | .intersection (c :: _) =>
    (getRelationshipEdgesWithTargetRewrite next c).mark RelationshipEdge.flag
  | .difference b _ => (getRelationshipEdgesWithTargetRewrite next b).mark RelationshipEdge.flag

def getRelationshipEdgesOfChildren (next : String × String → Edges) : List Userset → Edges
  | [] => emit []
  | c :: cs => (getRelationshipEdgesWithTargetRewrite next c).andThen
      (getRelationshipEdgesOfChildren next cs)

end
end

/-- The body of `getRelationshipEdges` for a target that was not visited. -/
def relationshipEdgesOf (source : RelationReference) (next : String × String → Edges)
    (target : String × String) : Edges :=
  match m.getRelation target.1 target.2 with
  | .error e => fun _ => .error e
  | .ok rel => m.getRelationshipEdgesWithTargetRewrite target source next rel.rewrite

/-- `getRelationshipEdges`, at most `n` relations deep. -/
def getRelationshipEdges (source : RelationReference) : Nat → String × String → Edges :=
  search (m.relationshipEdgesOf source)

def getPrunedRelationshipEdges (target : String × String) (source : RelationReference) :
    Except GetRelationError (List RelationshipEdge) :=
  match m.getRelationshipEdges source (m.relationNames.length + 1) target [] with
  | .error e => .error e
  | .ok (edges, _) => .ok edges

/-! ## What the walk is to find -/

section
variable (target : String × String) (source : RelationReference)

mutual

/-- The relations that a rewrite of the target refers to, without the operands that are
    pruned. -/
def prunedRefs : Userset → List (String × String)
  | .this => m.directlyRelatedUsersets target
  | .computedUserset computed => [(target.1, computed)]
  | .tupleToUserset tupleset computed => (m.getDirectlyRelatedUserTypes target.1 tupleset).flatMap
      fun d => if m.defines d.type computed then [(d.type, computed)] else []
  | .union cs => prunedRefsOf cs
  | .intersection [] => []
  | .intersection (c :: _) => prunedRefs c
  | .difference b _ => prunedRefs b

def prunedRefsOf : List Userset → List (String × String)
  | [] => []
  | c :: cs => prunedRefs c ++ prunedRefsOf cs

end

mutual

/-- The edges from the source into a rewrite of the target. -/
def ownEdges : Userset → List RelationshipEdge
  | .this => m.directEdges target source
  | .computedUserset computed => computedEdges target source computed
  | .tupleToUserset tupleset computed => (m.getDirectlyRelatedUserTypes target.1 tupleset).flatMap
      fun d => if m.defines d.type computed then
        m.ttuEdges target source tupleset computed d else []
  | .union cs => ownEdgesOf cs
  | .intersection [] => []
  | .intersection (c :: _) => (ownEdges c).map RelationshipEdge.flag
  | .difference b _ => (ownEdges b).map RelationshipEdge.flag

def ownEdgesOf : List Userset → List RelationshipEdge
  | [] => []
  | c :: cs => ownEdges c ++ ownEdgesOf cs

end
end

/-- The relations that a relation refers to, without the operands that are pruned. -/
def relationRefs (x : String × String) : List (String × String) :=
  match m.getRelation x.1 x.2 with
  | .error _ => []
  | .ok rel => m.prunedRefs x rel.rewrite

/-- The edges from the source into a relation. -/
def relationEdges (source : RelationReference) (x : String × String) : List RelationshipEdge :=
  match m.getRelation x.1 x.2 with
  | .error _ => []
  | .ok rel => m.ownEdges x source rel.rewrite

section
variable {m : AuthorizationModel} {target x : String × String} {source : RelationReference}
  {cs : List Userset}

lemma mem_relationNames : x ∈ m.relationNames ↔ m.defines x.1 x.2 = true := by
  simp only [relationNames, List.mem_filter, List.mem_flatMap, List.mem_map]
  refine ⟨fun h => h.2, fun h => ⟨?_, h⟩⟩
  obtain ⟨r, hr⟩ := defines_iff.mp h
  obtain ⟨td, htd, htype, hmem⟩ := mem_of_getRelation hr
  exact ⟨td, htd, (x.2, r), hmem, by rw [htype]⟩

lemma prunedRefsOf_eq :
    m.prunedRefsOf target cs = cs.flatMap (m.prunedRefs target) := by
  induction cs with
  | nil => simp [prunedRefsOf]
  | cons c cs ih => simp [prunedRefsOf, ih]

lemma ownEdgesOf_eq :
    m.ownEdgesOf target source cs = cs.flatMap (m.ownEdges target source) := by
  induction cs with
  | nil => simp [ownEdgesOf]
  | cons c cs ih => simp [ownEdgesOf, ih]

lemma getRelationshipEdgesOfChildren_eq {next : String × String → Edges} :
    m.getRelationshipEdgesOfChildren target source next cs =
      all (cs.map (m.getRelationshipEdgesWithTargetRewrite target source next)) := by
  induction cs with
  | nil => simp [getRelationshipEdgesOfChildren, all]
  | cons c cs ih => simp [getRelationshipEdgesOfChildren, all, ih]

end

end AuthorizationModel

namespace TypeSystem

open AuthorizationModel

variable (ts : TypeSystem) (source : RelationReference)

/-- The specification of a collector for this model and source. -/
abbrev EdgesSpec (n : Nat) (R : List (String × String)) (I : List RelationshipEdge)
    (c : Edges) : Prop :=
  Spec ts.relationRefs (ts.relationEdges source) RelationshipEdge.Le
    ts.relationNames.toFinset n R I c

variable {ts source} {n : Nat} {next : String × String → Edges} {target : String × String}
  {rel : Relation}

section
variable (hnext : ∀ y ∈ ts.relationNames.toFinset, ts.EdgesSpec source n [y] [] (next y))
include hnext

lemma spec_ttuRestriction {tupleset computed d}
    (hd : d ∈ ts.getDirectlyRelatedUserTypes target.1 tupleset) :
    ts.EdgesSpec source n (if ts.defines d.type computed then [(d.type, computed)] else [])
      (if ts.defines d.type computed then ts.ttuEdges target source tupleset computed d else [])
      (ts.ttuRestriction target source next tupleset computed d) := by
  cases hrel : ts.getRelation d.type computed with
  | error e =>
    have hdef : ts.defines d.type computed = false := by simp [defines, hrel]
    rw [hdef]
    cases e with
    | relationUndefined t r =>
      simp only [ttuRestriction, hrel]
      exact Spec.emit RelationshipEdge.Le.refl
    | objectTypeUndefined t =>
      -- the types of the restrictions are defined
      cases htupleset : ts.getRelation target.1 tupleset with
      | error e => simp [getDirectlyRelatedUserTypes, htupleset] at hd
      | ok r =>
        rw [getDirectlyRelatedUserTypes_of_ok htupleset] at hd
        have htype := restriction_type_defined htupleset hd
        obtain ⟨td, htd⟩ := Option.isSome_iff_exists.mp htype
        rw [getRelation, htd] at hrel
        cases hlookup : td.relations.lookup computed <;> simp [hlookup] at hrel
  | ok r =>
    have hdef : ts.defines d.type computed = true := defines_iff.mpr ⟨r, hrel⟩
    have hmem : (d.type, computed) ∈ ts.relationNames.toFinset :=
      List.mem_toFinset.mpr (mem_relationNames.mpr hdef)
    simp only [ttuRestriction, hrel, hdef, if_true]
    exact Spec.emit_then RelationshipEdge.Le.refl (hnext _ hmem)

lemma spec_rewrite (hrel : ts.getRelation target.1 target.2 = .ok rel) {w}
    (hw : ∀ l ∈ w.leaves, l ∈ rel.rewrite.leaves) :
    ts.EdgesSpec source n (ts.prunedRefs target w) (ts.ownEdges target source w)
      (ts.getRelationshipEdgesWithTargetRewrite target source next w) := by
  induction w with
  | this =>
    rw [getRelationshipEdgesWithTargetRewrite, prunedRefs, ownEdges]
    refine Spec.emit_then RelationshipEdge.Le.refl (Spec.visits fun x hx => hnext x ?_)
    simp only [directlyRelatedUsersets, List.mem_map, List.mem_filter,
      getDirectlyRelatedUserTypes_of_ok hrel] at hx
    obtain ⟨d, ⟨hd, hne⟩, rfl⟩ := hx
    rw [List.mem_toFinset, mem_relationNames, defines_iff]
    cases hshape : d.shape with
    | object | wildcard => simp [RelationReference.getRelation, hshape] at hne
    | userset r =>
      simpa [RelationReference.getRelation, hshape] using (restriction_defined hrel hd hshape).2
  | computedUserset computed =>
    rw [getRelationshipEdgesWithTargetRewrite, prunedRefs, ownEdges]
    refine Spec.emit_then RelationshipEdge.Le.refl (hnext _ ?_)
    rw [List.mem_toFinset, mem_relationNames, defines_iff]
    exact computed_defined hrel (hw _ (by simp [Userset.leaves]))
  | tupleToUserset tupleset computed =>
    rw [getRelationshipEdgesWithTargetRewrite, prunedRefs, ownEdges]
    exact Spec.all RelationshipEdge.Le.refl fun d hd => spec_ttuRestriction hnext hd
  | union cs ih =>
    rw [prunedRefs, prunedRefsOf_eq, ownEdges, ownEdgesOf_eq,
      getRelationshipEdgesWithTargetRewrite, getRelationshipEdgesOfChildren_eq]
    exact Spec.all RelationshipEdge.Le.refl fun c hc =>
      ih c hc fun l hl => hw l (Userset.mem_leavesOf.mpr ⟨c, hc, hl⟩)
  | intersection cs ih =>
    cases cs with
    | nil => exact Spec.emit RelationshipEdge.Le.refl
    | cons c cs =>
      exact (ih c List.mem_cons_self fun l hl =>
        hw l (Userset.mem_leavesOf.mpr ⟨c, List.mem_cons_self, hl⟩)).mark
          RelationshipEdge.Le.flag RelationshipEdge.Le.flag_mono RelationshipEdge.Le.trans
  | difference b s ihb _ =>
    exact (ihb fun l hl => hw l (List.mem_append_left _ hl)).mark RelationshipEdge.Le.flag
      RelationshipEdge.Le.flag_mono RelationshipEdge.Le.trans

end

section
variable (hrel : ts.getRelation target.1 target.2 = .ok rel)
include hrel

lemma relationRefs_of_ok :
    ts.relationRefs target = ts.prunedRefs target rel.rewrite := by
  simp [relationRefs, hrel]

lemma relationEdges_of_ok :
    ts.relationEdges source target = ts.ownEdges target source rel.rewrite := by
  simp [relationEdges, hrel]

/-- The walk from a defined relation does not fail, every relation it visits is followed to
    all its unpruned references, and the edges are those of the relations it visited. -/
lemma getPrunedRelationshipEdges_spec (source : RelationReference) :
    ∃ edges v, ts.getPrunedRelationshipEdges target source = .ok edges ∧
      Outcome ts.relationRefs (ts.relationEdges source) RelationshipEdge.Le [target] []
        [] edges v := by
  have hcontent : ∀ n next,
      (∀ y ∈ ts.relationNames.toFinset, ts.EdgesSpec source n [y] [] (next y)) →
      ∀ x ∈ ts.relationNames.toFinset, ts.EdgesSpec source n (ts.relationRefs x)
        (ts.relationEdges source x) (ts.relationshipEdgesOf source next x) := by
    intro n next hnext x hx
    rw [List.mem_toFinset, mem_relationNames, defines_iff] at hx
    obtain ⟨rel, hx⟩ := hx
    rw [relationRefs_of_ok hx, relationEdges_of_ok hx, relationshipEdgesOf, hx]
    exact spec_rewrite hnext hx fun l hl => hl
  have htarget : target ∈ ts.relationNames.toFinset :=
    List.mem_toFinset.mpr (mem_relationNames.mpr (defines_iff.mpr ⟨rel, hrel⟩))
  have hfuel : unvisited ts.relationNames.toFinset [] < ts.relationNames.length + 1 :=
    Nat.lt_succ_of_le ((Finset.card_filter_le _ _).trans (List.toFinset_card_le _))
  obtain ⟨edges, v, hrun, hout⟩ :=
    Spec.search hcontent (ts.relationNames.length + 1) target htarget [] hfuel
  exact ⟨edges, v, by rw [getPrunedRelationshipEdges, getRelationshipEdges, hrun], hout⟩

end

/-! ## Related users need an edge -/

/-- Tuples relate only users that the type restrictions admit. -/
structure GrantsAdmitted (ts : TypeSystem) (G : Grants) : Prop where
  own : ∀ o r u, G.own o r u → ts.Admits o.type r u
  any : ∀ o r u, G.any o r u → ts.Admits o.type r u

section
variable {G : Grants} {N : Object → String → Userset → Prop} {v o : Object} {r : String}
  {V : List (String × String)} {w : Userset}

/-- Where a leaf of the rewrite leads is what the relation refers to. -/
lemma refers_of_leafLeads (hG : ts.GrantsAdmitted G) {rel y l}
    (hrel : ts.getRelation o.type r = .ok rel) (hl : l ∈ rel.rewrite.leaves)
    (h : G.LeafLeads o r l y) : ts.Refers (o.type, r) (y.1.type, y.2) := by
  refine ⟨rel, hrel, List.mem_flatMap.mpr ⟨l, hl, ?_⟩⟩
  cases h with
  | this hany => simpa [refs, Userset.leaves] using mem_refs_this (hG.any _ _ _ hany)
  | computedUserset => exact List.mem_singleton_self _
  | tupleToUserset hany => simpa [refs, Userset.leaves] using mem_refs_ttu (hG.any _ _ _ hany)

/-- A rank of the references bounds the paths. -/
lemma GrantsAdmitted.rank_lt_of_leads (hG : ts.GrantsAdmitted G) {ρ : String × String → Nat}
    (h : RefsRanked ts.toAuthorizationModel ρ = true) (x y : Object × String)
    (hxy : ts.Leads G x y) :
    ρ (y.1.type, y.2) < ρ (x.1.type, x.2) := by
  obtain ⟨rel, hrel, l, hl, hleads⟩ := hxy
  exact rank_lt_of_refers h (refers_of_leafLeads hG hrel hl hleads)

lemma mem_directlyRelatedUsersets {o' r'} (h : ts.Admits target.1 target.2 (.userset o' r')) :
    (o'.type, r') ∈ ts.directlyRelatedUsersets target := by
  obtain ⟨rel, hrel, d, hd, htype, hshape⟩ := h
  have hr : d.getRelation = r' := by rw [RelationReference.getRelation, hshape]; rfl
  simp only [directlyRelatedUsersets, List.mem_map, List.mem_filter,
    getDirectlyRelatedUserTypes_of_ok hrel]
  exact ⟨d, ⟨hd, by simpa [hr] using (restriction_defined hrel hd hshape).1⟩,
    by rw [htype, hr]; rfl⟩

/-- The tuple of an object or of the typed wildcard of its type needs a direct edge. -/
lemma directEdges_ne_nil {u} (htype : u.type = source.type)
    (hshape : shape u = source.shape ∨ shape u = .wildcard)
    (hsource : source.shape = .object) (h : ts.Admits target.1 target.2 u) :
    ts.directEdges target source ≠ [] := by
  obtain ⟨rel, hrel, d, hd, hdtype, hdshape⟩ := h
  have hedge : (ts.isDirectlyRelated target source || ts.isPubliclyAssignable target source.type) =
      true := by
    rw [Bool.or_eq_true]
    rcases hshape with hshape | hshape
    · refine .inl (List.any_eq_true.mpr ⟨d, by rwa [getDirectlyRelatedUserTypes_of_ok hrel], ?_⟩)
      simp [relationEquals, hdtype, htype, hdshape, hshape, hsource]
    · refine .inr (List.any_eq_true.mpr ⟨d, by rwa [getDirectlyRelatedUserTypes_of_ok hrel], ?_⟩)
      simp [hdtype, htype, hdshape, hshape]
  simp [directEdges, hedge]

/-- A user that satisfies a part of a rewrite has an edge into it, or into what it refers
    to. -/
lemma exists_edge_of_sat (hG : ts.GrantsAdmitted G) {S : Object → String → Prop} {P : Prop}
    (hsource : source = ⟨v.type, .object, ""⟩) (hpart : ts.PartOf o.type r w)
    (hedges : ts.ownEdges (o.type, r) source w ≠ [] → P)
    (hS : ∀ o' r', S o' r' → ts.defines o'.type r' = true ∧
      ((o'.type, r') ∈ ts.prunedRefs (o.type, r) w → P)) {N : Userset → Prop}
    (hsat : w.Sat G S N (.object v) o r) : P := by
  induction w with
  | this =>
    rcases hsat with hown | ⟨t, ht, hany⟩ | ⟨o', r', hany, hs⟩
    · exact hedges (directEdges_ne_nil (by rw [hsource]; rfl) (.inl (by rw [hsource]; rfl))
        (by rw [hsource]) (hG.own _ _ _ hown))
    · exact hedges (directEdges_ne_nil (by rw [hsource]; exact ht.symm) (.inr rfl)
        (by rw [hsource]) (hG.any _ _ _ hany))
    · exact (hS o' r' hs).2 (mem_directlyRelatedUsersets (hG.any _ _ _ hany))
  | computedUserset computed => exact (hS o computed hsat).2 (List.mem_singleton_self _)
  | tupleToUserset tupleset computed =>
    obtain ⟨o', hany, hs⟩ := hsat
    obtain ⟨rel, hrel, d, hd, htype, -⟩ := hG.any _ _ _ hany
    refine (hS o' computed hs).2 (List.mem_flatMap.mpr
      ⟨d, by rwa [getDirectlyRelatedUserTypes_of_ok hrel], ?_⟩)
    have hdef : ts.defines d.type computed = true := htype ▸ (hS o' computed hs).1
    rw [if_pos hdef, htype]
    exact List.mem_singleton_self _
  | union cs ih =>
    obtain ⟨c, hc, hsat⟩ := Userset.sat_union.mp hsat
    refine ih c hc (hpart.of_union hc) (fun hne => hedges ?_) (fun o' r' hs =>
      ⟨(hS o' r' hs).1, fun hmem => (hS o' r' hs).2 ?_⟩) hsat
    · rw [ownEdges, ownEdgesOf_eq]
      obtain ⟨e, he⟩ := List.exists_mem_of_ne_nil _ hne
      exact List.ne_nil_of_mem (List.mem_flatMap.mpr ⟨c, hc, he⟩)
    · rw [prunedRefs, prunedRefsOf_eq]
      exact List.mem_flatMap.mpr ⟨c, hc, hmem⟩
  | intersection cs ih =>
    cases cs with
    | nil => exact absurd rfl hpart.intersection_ne_nil
    | cons c cs =>
      refine ih c List.mem_cons_self (hpart.of_intersection List.mem_cons_self)
        (fun hne => hedges ?_) hS (Userset.sat_intersection.mp hsat c List.mem_cons_self)
      rw [ownEdges]
      exact fun h => hne (List.map_eq_nil_iff.mp h)
  | difference b s ihb _ =>
    refine ihb hpart.base (fun hne => hedges ?_) hS hsat.1
    rw [ownEdges]
    exact fun h => hne (List.map_eq_nil_iff.mp h)

lemma edges_ne_nil_of_related (hG : ts.GrantsAdmitted G) {rel}
    (hrel : ts.getRelation o.type r = .ok rel)
    (h : Related ts.toAuthorizationModel G N (.object v) o r) :
    ∃ edges, ts.getPrunedRelationshipEdges (o.type, r) ⟨v.type, .object, ""⟩ = .ok edges ∧
      edges ≠ [] := by
  obtain ⟨edges, V, hedges, hout⟩ := getPrunedRelationshipEdges_spec
    (show ts.getRelation (o.type, r).1 (o.type, r).2 = .ok rel from hrel) ⟨v.type, .object, ""⟩
  refine ⟨edges, hedges, ?_⟩
  have hwalk : ∀ n o r, (o.type, r) ∈ V → Level ts.toAuthorizationModel G N (.object v) n o r →
      edges ≠ [] := by
    intro n
    induction n with
    | zero => exact fun _ _ _ h => h.elim
    | succ n ih =>
      rintro o r hV (hself | ⟨rel, hrel, hsat⟩)
      · exact nomatch hself
      · have hdone := hout.done _ hV List.not_mem_nil
        have hrefs : ts.relationRefs (o.type, r) = _ := relationRefs_of_ok hrel
        have hown : ts.relationEdges ⟨v.type, .object, ""⟩ (o.type, r) = _ :=
          relationEdges_of_ok hrel
        refine exists_edge_of_sat hG rfl (.root hrel) (fun hne => ?_) (fun o' r' hl => ?_) hsat
        · obtain ⟨e, he⟩ := List.exists_mem_of_ne_nil _ hne
          obtain ⟨e', he', -⟩ := hdone.own_mem e (hown ▸ he)
          exact List.ne_nil_of_mem he'
        · exact ⟨hl.defines, fun hmem => ih o' r' (hdone.refs_mem _ (hrefs ▸ hmem)) hl⟩
  obtain ⟨n, hn⟩ := h
  exact hwalk n o r (hout.refs_mem _ (List.mem_singleton_self _)) hn

end

end TypeSystem

end OpenFGA
