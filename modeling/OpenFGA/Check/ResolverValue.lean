/-
  What a tree of goroutines stands for.

  `Val S X p` is the answer the evaluation `p` owes, where `S` is the least fixed
  point and `X ⊆ S` are the queries that count as answered when they are reached
  through the visited map in scope.  With `X = S` it is the plain meaning; smaller
  `X` say what an evaluation finds without the help of queries that were left to
  others.  An evaluation that is passed no visited map does not depend on `X`
  (`Closed`), and a region stands for the query it was made for.

  `Good` are the trees that arise when a check is resolved.
-/

import OpenFGA.WellBuilt
import OpenFGA.Check.Resolver

namespace OpenFGA.Check

open OpenFGA.Graph List

/-! ## What the tuples of a request say -/

/-- The objects of the tuples that pass the condition filter. -/
def passing (ts : List Pending) : List Object :=
  (ts.filter fun t => t.passes matches .ok true).map fun t => t.request.object

/-- The reading that the resolver makes of the tuples. -/
def Config.reading (c : Config) : Reading where
  assigned o e :=
    match e.edgeType, e.target with
    | .directEdge, .specificType t =>
      c.userType = .type t ∧ c.wild = false ∧ c.specificType o e = .ok true
    | .directEdge, .specificTypeWildcard t =>
      c.userType = .type t ∧ c.specificTypeWildcard o e = .ok true
    | .directEdge, .specificTypeAndRelation t r =>
      c.userType = .userset t r ∧ c.specificType o e = .ok true
    | _, _ => False
  children o e :=
    match e.edgeType, e.target with
    | .directEdge, .specificTypeAndRelation t r =>
      if c.userType = .userset t r ∧ e.isCyclical = false then []
      else passing (c.usersetTuples o e.relationDefinition.2 e)
    | .ttuEdge, _ => passing ((c.ttuTuples o e).getD [])
    | _, _ => []

section
variable {c : Config} {o : Object} {e : Edge} {t : Pending}

lemma mem_passing {ts p} :
    p ∈ passing ts ↔ ∃ t ∈ ts, t.passes = .ok true ∧ t.request.object = p := by
  unfold passing
  simp only [mem_map, mem_filter]
  constructor
  · rintro ⟨t, ⟨ht, hpass⟩, rfl⟩
    refine ⟨t, ht, ?_, rfl⟩
    split at hpass
    · assumption
    · cases hpass
  · rintro ⟨t, ht, hpass, rfl⟩
    exact ⟨t, ⟨ht, by rw [hpass]⟩, rfl⟩

lemma eq_userset_of_userType {u ty r} (h : u.userType = .userset ty r) :
    (splitObject u).type = ty ∧ splitRelation u = r := by
  cases u with
  | object o => cases h
  | wildcard t => cases h
  | userset o r' =>
    simp only [User.userType, UserType.userset.injEq] at h
    exact h

lemma type_splitObject (u : User) : (splitObject u).type = u.type := by
  cases u <;> rfl

lemma type_of_userType {u : User} {ty} (h : u.userType = .type ty) : u.type = ty := by
  cases u with
  | object o | wildcard t => exact UserType.type.inj h
  | userset o r => cases h

/-- The requests made for the tuples of a userset edge are at the target of the edge. -/
lemma node_of_usersetTuples {relation} (ht : t ∈ c.usersetTuples o relation e) :
    t.request.node = e.target := by
  unfold Config.usersetTuples at ht
  split at ht
  next ty r htarget =>
    obtain ⟨tk, htk, rfl⟩ := mem_map.mp ht
    have htype : tk.user.userType = .userset ty r := by
      rcases mem_append.mp htk with htk | htk
      · have := (mem_filter.mp (mem_of_mem_insertAllSorted htk)).2
        exact (of_decide_eq_true this).2.2
      · exact (of_decide_eq_true (mem_filter.mp htk).2).2.2.1
    obtain ⟨h₁, h₂⟩ := eq_userset_of_userType htype
    simp only [Config.usersetPending, Request.node, h₁, h₂, htarget]
  · cases ht

lemma node_of_ttuTuples {ts} (hts : c.ttuTuples o e = some ts) (ht : t ∈ ts) :
    t.request.node = e.target := by
  unfold Config.ttuTuples at hts
  split at hts
  next ty r _ htarget =>
    obtain ⟨te, -, rfl⟩ := Option.map_eq_some_iff.mp hts
    obtain ⟨tk, htk, rfl⟩ := mem_map.mp ht
    have htype : tk.user.type = ty := by
      rcases mem_append.mp htk with htk | htk
      · have := (mem_filter.mp (mem_of_mem_insertAllSorted htk)).2
        exact type_of_userType (of_decide_eq_true this).2.2
      · exact (of_decide_eq_true (mem_filter.mp htk).2).2.2.1
    simp only [Config.ttuPending, Request.node, type_splitObject, htype, htarget]
  · cases hts

lemma typed_reading (c : Config) : c.reading.Typed c.userType c.wild := by
  intro o e h
  unfold Config.reading at h
  simp only at h
  unfold endsAt
  split at h
  next ht =>
    rw [ht]
    exact decide_eq_true ⟨h.1, h.2.1⟩
  next ht =>
    rw [ht]
    exact decide_eq_true h.1
  next hd ht =>
    rw [ht]
    refine decide_eq_true ⟨hd, h.1, ?_⟩
    unfold Config.wild
    unfold Config.userType at h
    cases hu : c.env.user with
    | userset o r => rfl
    | object o | wildcard t => rw [hu] at h; cases h.1
  · exact h.elim

end

/-! ## Values -/

section
variable (c : Config) (S X : Set Query)

/-- The answer owed for an edge. -/
def EdgeVal (visited : Bool) (o : Object) (e : Edge) : Prop :=
  if e.isRewrite then (o, e.target) ∈ S
  else c.reading.assigned o e ∨ ∃ p ∈ c.reading.children o e,
    (p, e.target) ∈ if visited && e.isCyclical then X else S

/-- The answer owed for a query that is evaluated within a region. -/
def FlatVal (q : Query) : Prop :=
  ∃ e, c.graph.FlatEdge c.userType c.wild q.2 e ∧ EdgeVal c S X true q.1 e

/-- The answer owed for the recursive edge of a relation. -/
def RecursiveVal (visited : Bool) (o : Object) (e : Edge) : Prop :=
  ∃ p ∈ c.reading.children o e, (p, e.target) ∈ if visited then X else S

/-- The answer an evaluation owes. -/
def Val : Proc → Prop
  | .done b => b = true
  | .failed => False
  | .union r n visited => if visited then FlatVal c S X (r.object, n) else (r.object, n) ∈ S
  | .edges r todo evaluations visited =>
    ∃ e ∈ todo ++ evaluations, EdgeVal c S X visited r.object e
  | .edge r e visited => EdgeVal c S X visited r.object e
  | .recursiveEdge r e visited _ => RecursiveVal c S X visited r.object e
  | .recursive r e visited _ => RecursiveVal c S X visited r.object e
  | .store _ _ _ p => Val p
  | .or p q => Val p ∨ Val q
  | .and p q => Val p ∧ Val q
  | .diff p q => Val p ∧ ¬ Val q
  | .iter visited rest _ _ p =>
    (∃ t ∈ rest, t.passes = .ok true ∧ t.query ∈ if visited then X else S) ∨ Val p
  | .region root _ _ => root ∈ S

end

/-- The evaluation uses no visited map but its own. -/
def Closed : Proc → Prop
  | .union _ _ visited => visited = false
  | .edges _ _ _ visited => visited = false
  | .edge _ _ visited => visited = false
  | .recursiveEdge _ _ visited _ => visited = false
  | .recursive _ _ visited _ => visited = false
  | .store _ _ _ p => Closed p
  | .or p q => Closed p ∧ Closed q
  | .and p q => Closed p ∧ Closed q
  | .diff p q => Closed p ∧ Closed q
  | .iter visited _ _ _ p => visited = false ∧ Closed p
  | _ => True

section
variable {c : Config} {S X X' : Set Query} {o : Object} {e : Edge} {p : Proc} {visited : Bool}

lemma edgeVal_mono (hX : ∀ q ∈ X, q ∈ X') (h : EdgeVal c S X visited o e) :
    EdgeVal c S X' visited o e := by
  unfold EdgeVal at h ⊢
  cases hrw : e.isRewrite with
  | true => simpa [hrw] using h
  | false =>
    cases hv : visited && e.isCyclical with
    | false => simpa [hrw, hv] using h
    | true =>
      simp only [hrw, hv, Bool.false_eq_true, if_false, if_true] at h ⊢
      exact h.imp_right fun ⟨p, hp, hmem⟩ => ⟨p, hp, hX _ hmem⟩

lemma edgeVal_tuples (h : e.isRewrite = false) :
    EdgeVal c S X visited o e ↔ c.reading.assigned o e ∨ ∃ p ∈ c.reading.children o e,
      (p, e.target) ∈ if visited && e.isCyclical then X else S := by
  rw [EdgeVal, if_neg (by simp [h])]

lemma edgeVal_rewrite (h : e.isRewrite = true) :
    EdgeVal c S X visited o e ↔ (o, e.target) ∈ S := by
  rw [EdgeVal, if_pos h]

/-- What is found with the answers `X` alone is owed. -/
lemma edgeVal_of_edgeHolds (hX : ∀ q ∈ X, q ∈ S)
    (h : c.reading.EdgeHolds X o e) : EdgeVal c S X visited o e := by
  cases hrw : e.isRewrite with
  | true =>
    rw [edgeVal_rewrite hrw]
    rw [Reading.edgeHolds_rewrite hrw] at h
    exact hX _ h
  | false =>
    rw [edgeVal_tuples hrw]
    rw [Reading.edgeHolds_tuples hrw] at h
    refine h.imp_right fun ⟨p, hp, hmem⟩ => ⟨p, hp, ?_⟩
    split
    · exact hmem
    · exact hX _ hmem

lemma edgeVal_self : EdgeVal c S S visited o e ↔ c.reading.EdgeHolds S o e := by
  unfold EdgeVal Reading.EdgeHolds
  simp

lemma edgeVal_false : EdgeVal c S X false o e ↔ c.reading.EdgeHolds S o e := by
  unfold EdgeVal Reading.EdgeHolds
  simp

lemma edgeVal_le (hX : ∀ q ∈ X, q ∈ S) (h : EdgeVal c S X visited o e) :
    c.reading.EdgeHolds S o e := edgeVal_self.mp (edgeVal_mono hX h)

/-- A closed evaluation does not depend on what is left to others. -/
lemma val_closed (h : Closed p) : Val c S X p ↔ Val c S S p := by
  induction p with
  | done b => exact Iff.rfl
  | failed => exact Iff.rfl
  | union r n visited | recursiveEdge r e visited opt | recursive r e visited opt =>
    obtain rfl : visited = false := h
    exact Iff.rfl
  | edges r todo evaluations visited | edge r e visited =>
    obtain rfl : visited = false := h
    simp only [Val, edgeVal_false]
  | store r e dropped p ih => exact ih h
  | or p q ihp ihq => exact or_congr (ihp h.1) (ihq h.2)
  | and p q ihp ihq => exact and_congr (ihp h.1) (ihq h.2)
  | diff p q ihp ihq => exact and_congr (ihp h.1) (not_congr (ihq h.2))
  | iter visited rest onceValid lastErr p ih =>
    obtain ⟨rfl, h⟩ := h
    exact or_congr Iff.rfl (ih h)
  | region root visited p => exact Iff.rfl

end

/-! ## Well-formed evaluations -/

/-- The queries a visited map stands for. -/
def Taken (visited : List Visited) (q : Query) : Prop := ∃ v ∈ visited, v.query = some q

section
variable (c : Config) (S : Set Query)

/-- What the evaluation of a check is measured against: `S` is the least fixed point
    of the rewrites of a well-built graph. -/
structure Meaning : Prop where
  model : Stratified.IsModel (c.reading.rewrite c.graph) S
  weighted : c.graph.Weighted c.userType c.wild
  flattens : c.graph.Flattens
  recursive : c.graph.Recursive

variable {c} in
/-- The least fixed point of the rewrites of a well-built graph. -/
lemma meaning_semantics (hg : c.graph.WellBuilt c.userType c.wild) :
    Meaning c (c.reading.semantics c.graph) where
  model := Reading.isModel_semantics fun n hn => hg.marked.barrier n (isBarrier_of_isExclusion hn)
  weighted := hg.weighted
  flattens := hg.flattens
  recursive := hg.recursive

/-- An edge that may be evaluated: one with a path to the user; when it is passed a
    visited map, one that flattening ends with. -/
def EdgeOk (visited : Bool) (e : Edge) : Prop :=
  (∃ n, e ∈ c.graph.edgesFrom n) ∧ e.reaches c.userType c.wild = true ∧
    (visited = true → e.canFlatten = false)

/-- An edge that may be evaluated as the recursive edge of a relation. -/
def RecursiveOk (e : Edge) : Prop :=
  (∃ n, e ∈ c.graph.edgesFrom n) ∧ e.isRewrite = false ∧ (∃ k, e.recursiveRelation = some k) ∧
    ∃ t, c.userType = .type t

/-- The state of a region: everything owed by the queries taken so far is either still
    to be found by the evaluation or left to another query that is taken. -/
structure RegionOk (root : Query) (visited : List Visited) (p : Proc) : Prop where
  taken : Taken visited root
  union : ∀ q, Taken visited q → isUnion q.2 = true
  sound : Val c S S p → root ∈ S
  complete : ∀ q, Taken visited q → ∀ X : Set Query, (∀ q' ∈ X, q' ∈ S) → FlatVal c S X q →
    Val c S X p ∨ ∃ q' ∈ X, Taken visited q'

/-- A well-formed evaluation. -/
def Good : Proc → Prop
  | .done _ => True
  | .failed => True
  | .union _ n _ => isUnion n = true
  | .edges _ todo evaluations visited => ∀ e ∈ todo ++ evaluations, EdgeOk c visited e
  | .edge _ e visited => EdgeOk c visited e
  | .recursiveEdge _ e _ _ => RecursiveOk c e
  | .recursive _ e _ _ => RecursiveOk c e
  -- without the dropped queries the evaluation is about the edge
  | .store r e dropped p => Good p ∧ (∃ n, e ∈ c.graph.edgesFrom n) ∧
      (Val c S S p → c.reading.EdgeHolds S r.object e) ∧
      ((∀ q ∈ dropped, q ∉ S) → c.reading.EdgeHolds S r.object e → Val c S S p)
  | .or p q => Good p ∧ Good q
  | .and p q => Good p ∧ Good q ∧ Closed p ∧ Closed q
  | .diff p q => Good p ∧ Good q ∧ Closed p ∧ Closed q
  | .iter _ _ _ _ p => Good p
  | .region root visited p => Good p ∧ RegionOk c S root visited p

/-- The evaluation is well formed and owes `V`. -/
structure Owes (visited : Bool) (V : Set Query → Prop) (p : Proc) : Prop where
  good : Good c S p
  val : ∀ X : Set Query, (∀ q ∈ X, q ∈ S) → (Val c S X p ↔ V X)
  closed : visited = false → Closed p

end

end OpenFGA.Check
