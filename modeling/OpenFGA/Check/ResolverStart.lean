/-
  What the functions of the resolver start owes what was asked of them.

  There is one lemma for each function of the resolver: if it does not fail, the
  evaluation it starts is well formed and owes the query, the node or the edge it was
  called for (`owes_resolveUnion`, `owes_resolveEdge`, `owes_resolveRecursive`,
  `owes_startAll`).

  `ResolveRecursive` evaluates one recursive edge and leaves out all others;
  `Config.oneRecursiveEdge` says that there are none.
-/

import OpenFGA.Check.ResolverValue

namespace OpenFGA.Check

open OpenFGA.Graph
open Config List

/-- The edge that `ResolveRecursive` is given is the only recursive edge that
    flattening the node ends with. -/
def Config.oneRecursiveEdge (c : Config) (n : NodeKey) : Bool :=
  match c.graph.getNodeByID n with
  | none => true
  | some node =>
    match (c.graph.canApplyRecursion node c.userType true).1 with
    | none => true
    | some e => ((c.graph.flattenNode n c.userType c.wild false).getD []).all fun e' =>
      e'.recursiveRelation.isNone || e' == e

/-! ## What an evaluation starts owes the same -/

section
variable {c : Config} {S X : Set Query} {r : Request} {e : Edge} {visited : Bool}
  {V V' : Set Query → Prop} {V : Set Query → Prop}

lemma exists_passing {ts : List Pending} {n : NodeKey} {Y : Set Query}
    (hts : ∀ t ∈ ts, t.request.node = n) :
    (∃ t ∈ ts, t.passes = .ok true ∧ t.query ∈ Y) ↔ ∃ p ∈ passing ts, (p, n) ∈ Y := by
  constructor
  · rintro ⟨t, ht, hpass, hmem⟩
    refine ⟨t.request.object, mem_passing.mpr ⟨t, ht, hpass, rfl⟩, ?_⟩
    rw [← hts t ht]
    exact hmem
  · rintro ⟨p, hp, hmem⟩
    obtain ⟨t, ht, hpass, rfl⟩ := mem_passing.mp hp
    refine ⟨t, ht, hpass, ?_⟩
    rw [← hts t ht] at hmem
    exact hmem

lemma owes_execute {ts : List Pending} {n : NodeKey} (hts : ∀ t ∈ ts, t.request.node = n) :
    Owes c S visited (fun X => ∃ p ∈ passing ts, (p, n) ∈ if visited then X else S)
      (execute visited ts) where
  good := trivial
  val X _ := by
    rw [← exists_passing hts]
    simp [execute, Val]
  closed h := ⟨h, trivial⟩

lemma Owes.congr {p} (h : Owes c S visited V p)
    (hV : ∀ X : Set Query, (∀ q ∈ X, q ∈ S) → (V X ↔ V' X)) : Owes c S visited V' p where
  good := h.good
  val X hX := (h.val X hX).trans (hV X hX)
  closed := h.closed

lemma Owes.of_iff {p} (h : Owes c S visited V p) (hV : ∀ X, V X ↔ V' X) : Owes c S visited V' p :=
  h.congr fun X _ => hV X

lemma owes_done {b} (h : ∀ X, V X ↔ b = true) :
    Owes c S visited V (.done b) where
  good := trivial
  val X _ := (h X).symm
  closed _ := trivial

lemma owes_specificTypeAndRelation {t rel} (hd : e.edgeType = .directEdge)
    (ht : e.target = .specificTypeAndRelation t rel)
    (hok : (c.specificTypeAndRelation r e (visited && e.isCyclical)).ok = true) :
    Owes c S visited (fun X => EdgeVal c S X visited r.object e)
      (c.specificTypeAndRelation r e (visited && e.isCyclical)) := by
  have hrw : e.isRewrite = false := isRewrite_eq_false.mpr (.inl hd)
  -- what reading the tuples owes is the second half of the edge
  have hexpand : ¬ c.reading.assigned r.object e →
      (c.userType = .userset t rel → e.isCyclical = true) →
      Owes c S visited (fun X => EdgeVal c S X visited r.object e)
        (execute (visited && e.isCyclical)
          (c.usersetTuples r.object e.relationDefinition.2 e)) := by
    intro hnot hcyc
    have hchildren : c.reading.children r.object e =
        passing (c.usersetTuples r.object e.relationDefinition.2 e) := by
      have hne : ¬ (c.userType = .userset t rel ∧ e.isCyclical = false) := by
        rintro ⟨hu, hf⟩
        rw [hcyc hu] at hf
        cases hf
      simp only [reading, hd, ht, if_neg hne]
    have hts : ∀ u ∈ c.usersetTuples r.object e.relationDefinition.2 e,
        u.request.node = e.target := fun u hu => node_of_usersetTuples hu
    have h : Owes c S (visited && e.isCyclical) _ _ := owes_execute hts
    refine ⟨h.good, fun X hX => (h.val X hX).trans ?_, fun hv => h.closed (by rw [hv]; rfl)⟩
    rw [edgeVal_tuples hrw, hchildren, or_iff_right hnot]
  unfold specificTypeAndRelation at hok ⊢
  simp only [ht] at hok ⊢
  by_cases hu : c.userType = .userset t rel
  · rw [if_pos hu] at hok ⊢
    have hassigned : c.reading.assigned r.object e ↔ c.specificType r.object e = .ok true := by
      simp [reading, hd, ht, hu]
    cases hs : c.specificType r.object e with
    | error err =>
      rw [hs] at hok
      cases hok
    | ok b =>
      cases b with
      | true =>
        refine owes_done fun X => ?_
        rw [edgeVal_tuples hrw, hassigned, hs]
        simp
      | false =>
        have hnot : ¬ c.reading.assigned r.object e := by
          rw [hassigned, hs]
          simp
        cases hcyc : e.isCyclical with
        | true =>
          rw [hcyc] at hexpand
          exact hexpand hnot fun _ => rfl
        | false =>
          refine owes_done fun X => ?_
          rw [edgeVal_tuples hrw, hassigned, hs]
          simp [reading, hd, ht, hu, hcyc]
  · rw [if_neg hu]
    have hnot : ¬ c.reading.assigned r.object e := by
      simp [reading, hd, ht, hu]
    exact hexpand hnot fun h => absurd h hu

lemma owes_ttu (hd : e.edgeType = .ttuEdge) (hok : (c.ttu r e visited).ok = true) :
    Owes c S visited (fun X => ∃ p ∈ c.reading.children r.object e,
      (p, e.target) ∈ if visited then X else S) (c.ttu r e visited) := by
  unfold ttu at hok ⊢
  cases hts : c.ttuTuples r.object e with
  | none =>
    rw [hts] at hok
    cases hok
  | some ts =>
    have hchildren : c.reading.children r.object e = passing ts := by
      simp [reading, hd, hts]
    rw [hchildren]
    exact owes_execute fun u hu => node_of_ttuTuples hts hu

lemma owes_ofExcept {x} (hok : (Proc.ofExcept x).ok = true) (h : ∀ X, V X ↔ x = .ok true) :
    Owes c S visited V (.ofExcept x) := by
  cases x with
  | error err => cases hok
  | ok b =>
    refine owes_done fun X => ?_
    rw [h X]
    simp

lemma owes_and_edges {es : List Edge} (hes : ∀ e ∈ es, EdgeOk c false e) :
    Owes c S visited (fun _ => ∀ e ∈ es, c.reading.EdgeHolds S r.object e)
      (es.foldr (fun e p => .and (.edge r e false) p) (.done true)) := by
  induction es with
  | nil => exact owes_done fun X => by simp
  | cons e es ih =>
    have hrest := ih fun e' he' => hes e' (mem_cons_of_mem _ he')
    -- the branches are closed whatever they are started from
    have hclosed : Closed (es.foldr (fun e p => Proc.and (.edge r e false) p) (.done true)) := by
      clear hrest ih hes
      induction es with
      | nil => trivial
      | cons e es ih => exact ⟨rfl, ih⟩
    refine ⟨⟨hes e mem_cons_self, hrest.good, rfl, hclosed⟩, fun X hX => ?_,
      fun _ => ⟨rfl, hclosed⟩⟩
    rw [foldr_cons, forall_mem_cons]
    exact and_congr edgeVal_false (hrest.val X hX)

lemma canApplyRecursion_fst {g : Graph} {node ut} (b b' : Bool) :
    (g.canApplyRecursion node ut b).1 = (g.canApplyRecursion node ut b').1 := by
  unfold Graph.canApplyRecursion
  split
  · rfl
  · split <;> rfl

lemma recursiveFrom_of_canApplyRecursion (hrec : c.graph.Recursive) {node b x}
    (h : c.graph.canApplyRecursion node c.userType b = x) (he : x.1 = some e) :
    c.graph.RecursiveFrom node.key node.key e ∧ RecursiveOk c e ∧ e.target = node.key := by
  unfold Graph.canApplyRecursion at h
  split at h
  · rw [← h] at he
    cases he
  next t ht =>
    split at h
    · rw [← h] at he
      have hfrom := recursiveFrom_of_canApply hrec node.key _ node.key he
      obtain ⟨m, hm, hmem, hk, hrw⟩ := hfrom
      exact ⟨⟨m, hm, hmem, hk, hrw⟩, ⟨⟨m, hmem⟩, hrw, ⟨_, hk⟩, t, ht⟩,
        (hrec.tuples m e hmem _ hk hrw).1⟩
    · rw [← h] at he
      cases he

section
variable (hc : Meaning c S) {o : Object} {n : NodeKey}

include hc

/-- A closed evaluation owes what it means with all answers in hand. -/
lemma mem_iff_nodeHolds :
    (o, n) ∈ S ↔ c.reading.NodeHolds c.graph S S o n := hc.model.mem_iff

lemma reaches_of_mem (he : e ∈ c.graph.edgesFrom n)
    (h : c.reading.EdgeHolds S o e) : e.reaches c.userType c.wild = true :=
  Reading.reaches_of_holds hc.model hc.weighted (typed_reading c) he h

lemma owes_resolveIntersection {id}
    (hok : (c.resolveIntersection r (.operatorNode .intersection id)).ok = true) :
    Owes c S visited (fun _ => (r.object, .operatorNode .intersection id) ∈ S)
      (c.resolveIntersection r (.operatorNode .intersection id)) := by
  unfold Config.resolveIntersection at hok ⊢
  cases hes : c.graph.getEdgesFromNode (.operatorNode .intersection id) with
  | none =>
    rw [hes] at hok
    cases hok
  | some es =>
    have hfrom := edgesFrom_eq hes
    have hmem : (r.object, .operatorNode .intersection id) ∈ S ↔
        ∀ e ∈ es, c.reading.EdgeHolds S r.object e := by
      rw [mem_iff_nodeHolds hc, Reading.NodeHolds, hes]
    simp only [hes] at hok ⊢
    split at hok
    next hwild =>
      rw [if_pos hwild]
      obtain ⟨hw, hany⟩ := Bool.and_eq_true_iff.mp hwild
      obtain ⟨e, he, hlacks⟩ := any_eq_true.mp hany
      refine owes_done fun X => ?_
      rw [hmem]
      refine ⟨fun h => ?_, fun h => by cases h⟩
      have hreach := reaches_of_mem hc (hfrom ▸ he) (h e he)
      rw [Edge.reaches, hw] at hreach
      simp only [Bool.not_true, Bool.false_or, Bool.and_eq_true] at hreach
      rw [hreach.2] at hlacks
      cases hlacks
    next hwild =>
      rw [if_neg hwild]
      split at hok
      · cases hok
      next hweight =>
        rw [if_neg hweight]
        refine (owes_and_edges fun e he => ⟨⟨_, hfrom ▸ he⟩, ?_, by simp⟩).of_iff
          fun X => hmem.symm
        have hsome : (e.weight c.userType).isSome = true := by
          cases hw : e.weight c.userType with
          | some w => rfl
          | none => exact absurd (any_eq_true.mpr ⟨e, he, by simp [hw]⟩) hweight
        rw [Edge.reaches, hsome, Bool.true_and]
        cases hw : c.wild with
        | false => rfl
        | true =>
          cases hcon : e.wildcards.contains c.userType with
          | true => rfl
          | false =>
            refine absurd ?_ hwild
            rw [hw, Bool.true_and]
            exact any_eq_true.mpr ⟨e, he, by rw [hcon]; rfl⟩

lemma owes_resolveExclusion {id} (hwild : c.wild = false)
    (hok : (c.resolveExclusion r (.operatorNode .exclusion id)).ok = true) :
    Owes c S visited (fun _ => (r.object, .operatorNode .exclusion id) ∈ S)
      (c.resolveExclusion r (.operatorNode .exclusion id)) := by
  unfold Config.resolveExclusion at hok ⊢
  split at hok
  next base subtract rest hes =>
    have hfrom := edgesFrom_eq hes
    have hmem : (r.object, .operatorNode .exclusion id) ∈ S ↔
        c.reading.EdgeHolds S r.object base ∧ ¬ c.reading.EdgeHolds S r.object subtract := by
      rw [mem_iff_nodeHolds hc, Reading.NodeHolds, hes]
    have hedge : ∀ e ∈ base :: subtract :: rest, (e.weight c.userType).isNone = false →
        EdgeOk c false e := by
      intro e he hsome
      refine ⟨⟨_, hfrom ▸ he⟩, ?_, by simp⟩
      rw [Edge.reaches, hwild, Option.isNone_eq_false_iff.mp hsome]
      rfl
    cases hb : (base.weight c.userType).isNone with
    | true =>
      rw [if_pos hb] at hok
      cases hok
    | false =>
      have hbase := hedge base (by simp) hb
      rw [if_neg (by simp [hb])] at hok ⊢
      cases hs : (subtract.weight c.userType).isNone with
      | true =>
        rw [if_pos hs] at hok
        rw [if_pos rfl]
        split at hok
        · cases hok
        next huser =>
          rw [if_neg huser]
          refine ⟨⟨hbase, trivial, rfl, trivial⟩, fun X _ => ?_, fun _ => ⟨rfl, trivial⟩⟩
          have hnot : ¬ c.reading.EdgeHolds S r.object subtract := by
            intro h
            have hreach := reaches_of_mem hc (n := .operatorNode .exclusion id)
              (hfrom ▸ by simp) h
            rw [Edge.reaches, Option.isNone_iff_eq_none.mp hs] at hreach
            cases hreach
          rw [hmem]
          refine and_congr edgeVal_false (not_congr ⟨fun h => ?_, fun h => absurd h hnot⟩)
          cases h
      | false =>
        rw [if_neg (by simp)]
        refine ⟨⟨hbase, hedge subtract (by simp) hs, rfl, rfl⟩, fun X _ => ?_,
          fun _ => ⟨rfl, rfl⟩⟩
        rw [hmem]
        exact and_congr edgeVal_false (not_congr edgeVal_false)
  · cases hok

/-- `ResolveRewrite` owes the node when it is passed no visited map. -/
lemma owes_resolveRewrite (hok : (c.resolveRewrite r n false).ok = true) :
    Owes c S visited (fun _ => (r.object, n) ∈ S) (c.resolveRewrite r n false) := by
  have hunion : isUnion n = true →
      Owes c S visited (fun _ => (r.object, n) ∈ S) (.union r n false) :=
    fun hn => ⟨hn, fun X _ => Iff.rfl, fun _ => rfl⟩
  unfold resolveRewrite at hok ⊢
  split at hok
  · exact hunion rfl
  · exact hunion rfl
  · exact owes_resolveIntersection hc hok
  · split at hok
    · cases hok
    next hwild =>
      simp only [if_neg hwild]
      exact owes_resolveExclusion hc (by simpa using hwild) hok
  · cases hok

theorem owes_resolveEdge (he : EdgeOk c visited e) (hok : (c.resolveEdge r e visited).ok = true) :
    Owes c S visited (fun X => EdgeVal c S X visited r.object e) (c.resolveEdge r e visited) := by
  obtain ⟨⟨n, hn⟩, hreach, hflat⟩ := he
  have hends := hc.weighted.endsOnly n e hn hreach
  -- a flattened edge is only evaluated without a visited map
  have hnone : e.canFlatten = true → visited = false := by
    intro h
    cases visited with
    | false => rfl
    | true => exact absurd (hflat rfl) (by simp [h])
  have hunion : e.canFlatten = true →
      Owes c S visited (fun X => EdgeVal c S X visited r.object e)
        (.union r e.target (visited && e.isCyclical)) := by
    intro h
    obtain rfl := hnone h
    refine ⟨hc.flattens n e hn h, fun X _ => ?_, fun _ => rfl⟩
    rw [edgeVal_rewrite (isRewrite_of_canFlatten h)]
    exact Iff.rfl
  unfold resolveEdge at hok ⊢
  cases ht : e.edgeType with
  | directEdge =>
    simp only [ht] at hok ⊢
    have hrw : e.isRewrite = false := isRewrite_eq_false.mpr (.inl ht)
    cases htarget : e.target with
    | specificType t =>
      simp only [htarget] at hok ⊢
      refine owes_ofExcept hok fun X => ?_
      rw [edgeVal_tuples hrw]
      simp [reading, ht, htarget, hends.1 t htarget]
    | specificTypeWildcard t =>
      simp only [htarget] at hok ⊢
      refine owes_ofExcept hok fun X => ?_
      rw [edgeVal_tuples hrw]
      simp [reading, ht, htarget, hends.2 t htarget]
    | specificTypeAndRelation t rel =>
      simp only [htarget] at hok ⊢
      exact owes_specificTypeAndRelation ht htarget hok
    | operatorNode op id | logicalDirectGrouping id | logicalTTUGrouping id =>
      simp only [htarget] at hok
      cases hok
  | rewriteEdge =>
    simp only [ht] at hok ⊢
    have hrw : e.isRewrite = true := by simp [Edge.isRewrite, ht]
    cases hflatten : e.canFlatten with
    | true =>
      obtain rfl := hnone hflatten
      refine (owes_resolveRewrite hc hok).of_iff fun X => ?_
      rw [edgeVal_rewrite hrw]
    | false =>
      -- intersections and exclusions are passed no visited map
      have hsame : c.resolveRewrite r e.target (visited && e.isCyclical) =
          c.resolveRewrite r e.target false := by
        simp only [Edge.canFlatten, ht] at hflatten
        unfold resolveRewrite
        cases htarget : e.target with
        | specificTypeAndRelation t rel => simp [htarget] at hflatten
        | operatorNode op id =>
          cases op with
          | union => simp [htarget] at hflatten
          | intersection => rfl
          | exclusion => rfl
        | _ => rfl
      rw [hsame] at hok ⊢
      refine (owes_resolveRewrite hc hok).of_iff fun X => ?_
      rw [edgeVal_rewrite hrw]
  | ttuEdge =>
    simp only [ht] at hok ⊢
    have hrw : e.isRewrite = false := isRewrite_eq_false.mpr (.inr ht)
    have h := owes_ttu (S := S) ht hok
    refine ⟨h.good, fun X hX => (h.val X hX).trans ?_, fun hv => h.closed (by rw [hv]; rfl)⟩
    rw [edgeVal_tuples hrw, or_iff_right (by simp [reading, ht])]
  | computedEdge | directLogicalEdge | ttuLogicalEdge =>
    exact hunion (by simp [Edge.canFlatten, ht])

/-- The recursive edge of a relation: it is not assigned, its tuples lead back to the
    relation, and it is passed the visited map. -/
theorem RecursiveOk.shape (he : RecursiveOk c e) :
    ¬ c.reading.assigned o e ∧ e.isCyclical = true ∧
      (e.edgeType = .directEdge → ∃ t,
        e.target = .specificTypeAndRelation t e.relationDefinition.2) := by
  obtain ⟨⟨n, hn⟩, hrw, ⟨k, hk⟩, t, ht⟩ := he
  obtain ⟨htarget, hdirect⟩ := hc.recursive.tuples n e hn k hk hrw
  refine ⟨?_, by simp [Edge.isCyclical, hk], fun hd => ?_⟩
  · rcases isRewrite_eq_false.mp hrw with hd | hd
    · obtain ⟨t', ht'⟩ := hdirect hd
      simp [reading, hd, htarget, ht', ht]
    · simp [reading, hd]
  · rw [htarget]
    exact hdirect hd

/-- With all answers in hand the recursive edge owes its meaning. -/
lemma recursiveVal_iff_edgeVal (he : RecursiveOk c e) :
    RecursiveVal c S X visited o e ↔ EdgeVal c S X visited o e := by
  obtain ⟨hnot, hcyc, -⟩ := he.shape (o := o) hc
  rw [edgeVal_tuples he.2.1, or_iff_right hnot, RecursiveVal, hcyc, Bool.and_true]

theorem owes_resolveRecursive (he : RecursiveOk c e)
    (hok : (c.resolveRecursive r e visited).ok = true) :
    Owes c S visited (fun X => RecursiveVal c S X visited r.object e)
      (c.resolveRecursive r e visited) := by
  obtain ⟨-, -, hdirect⟩ := he.shape (o := r.object) hc
  obtain ⟨-, hrw, -, t, ht⟩ := he
  rcases isRewrite_eq_false.mp hrw with hd | hd
  · obtain ⟨t', ht'⟩ := hdirect hd
    have hchildren : c.reading.children r.object e =
        passing (c.usersetTuples r.object e.relationDefinition.2 e) := by
      simp [reading, hd, ht', ht]
    simp only [resolveRecursive, hd, ht']
    refine (owes_execute fun u hu => node_of_usersetTuples hu).of_iff fun X => ?_
    rw [RecursiveVal, hchildren]
  · simp only [resolveRecursive, hd] at hok ⊢
    exact owes_ttu hd hok

lemma mem_iff_flatVal (hn : isUnion n = true) :
    (o, n) ∈ S ↔ FlatVal c S S (o, n) := by
  rw [Reading.mem_iff_flatEdge hc.model hc.weighted (typed_reading c) hc.flattens hn]
  exact exists_congr fun e => and_congr_right fun _ => edgeVal_self.symm

/-- Evaluating the recursive edge apart from the others owes what flattening ends
    with. -/
lemma flatVal_iff_recursive {node : Node} {es b}
    (hnode : c.graph.getNodeByID n = some node) (hkey : node.key = n) (hn : isUnion n = true)
    (hone : c.oneRecursiveEdge n = true)
    (happly : (c.graph.canApplyRecursion node c.userType b).1 = some e)
    (hes : c.graph.flattenNode e.target c.userType c.wild true = some es) (hX : ∀ q ∈ X, q ∈ S) :
    ((∃ e' ∈ es, EdgeVal c S X visited o e') ∨ RecursiveVal c S X visited o e) ↔
      ∃ e', c.graph.FlatEdge c.userType c.wild n e' ∧ EdgeVal c S X visited o e' := by
  obtain ⟨⟨m, hm, hmem, -, -⟩, hrec, htarget⟩ :=
    recursiveFrom_of_canApplyRecursion hc.recursive rfl happly
  rw [hkey] at hm htarget
  rw [htarget] at hes
  rw [recursiveVal_iff_edgeVal hc hrec]
  constructor
  · rintro (⟨e', he', hval⟩ | hval)
    · exact ⟨e', ((mem_flattenAux _ n es hes).mp he').1, hval⟩
    · -- the path to the recursive edge is flattened, since the user is related at its end
      have hold := edgeVal_le hX hval
      have hR := typed_reading c
      have hum := (Reading.mem_of_handsOn (o := o) hc.model hc.flattens hm hn).1
      have hin : (o, m) ∈ S := (Reading.mem_union hc.model hum).mpr ⟨e, hmem, hold⟩
      have hpath := Reading.flatLink_of_handsOn hc.model hc.weighted hR hc.flattens hm hn hin
      have hflat : e.canFlatten = false := by
        rw [← Bool.not_eq_true]
        exact fun h => absurd (isRewrite_of_canFlatten h) (by simp [hrec.2.1])
      exact ⟨e, ⟨m, hpath, hmem, reaches_of_mem hc hmem hold, hflat⟩, hval⟩
  · rintro ⟨e', he', hval⟩
    cases hrel : e'.recursiveRelation with
    | none => exact .inl ⟨e', (mem_flattenAux _ n es hes).mpr ⟨he', fun _ => hrel⟩, hval⟩
    | some k =>
      right
      obtain ⟨es', hes'⟩ := flattenAux_isSome _ n es hes
      have hin : e' ∈ es' := (mem_flattenAux _ n es' hes').mpr ⟨he', by simp⟩
      have hall : es'.all (fun e' => e'.recursiveRelation.isNone || e' == e) = true := by
        rw [canApplyRecursion_fst b true] at happly
        simp only [oneRecursiveEdge, hnode, happly] at hone
        rw [show c.graph.flattenNode n c.userType c.wild false = some es' from hes'] at hone
        exact hone
      have heq := all_eq_true.mp hall e' hin
      rw [hrel] at heq
      rw [← (beq_iff_eq.mp (by simpa using heq) : e' = e)]
      exact hval

/-- The part of `ResolveUnion` after the visited map is there owes the node. -/
lemma owes_unionBody {node emptyCycle}
    (hnode : c.graph.getNodeByID n = some node) (hkey : node.key = n) (hn : isUnion n = true)
    (hone : c.oneRecursiveEdge n = true) (hok : (c.unionBody r node visited emptyCycle).ok = true) :
    Owes c S visited
      (fun X => ∃ e, c.graph.FlatEdge c.userType c.wild n e ∧ EdgeVal c S X visited r.object e)
      (c.unionBody r node visited emptyCycle) := by
  have hedge : ∀ {b : Bool} {k : NodeKey} {es : List Edge},
      c.graph.flattenNode k c.userType c.wild b = some es → ∀ e ∈ es, EdgeOk c visited e := by
    intro b k es hes e he
    obtain ⟨⟨m, -, hmem, hreach, hflat⟩, -⟩ := (mem_flattenAux _ k es hes).mp he
    exact ⟨⟨m, hmem⟩, hreach, fun _ => hflat⟩
  unfold unionBody at hok ⊢
  cases happly : c.graph.canApplyRecursion node c.userType emptyCycle with
  | mk e? withOptimization =>
    cases e? with
    | some e =>
      simp only [happly] at hok ⊢
      cases hes : c.graph.flattenNode e.target c.userType c.wild true with
      | none => simp [hes, Proc.ok] at hok
      | some es =>
        have hrec := (recursiveFrom_of_canApplyRecursion hc.recursive happly rfl).2.1
        refine ⟨⟨?_, hrec⟩, fun X hX => ?_, fun h => ⟨h, h⟩⟩
        · rw [Good, append_nil]
          exact hedge hes
        · rw [← flatVal_iff_recursive hc hnode hkey hn hone (by rw [happly]) hes hX]
          simp only [Val, append_nil]
    | none =>
      simp only [happly] at hok ⊢
      rw [hkey] at hok ⊢
      cases hes : c.graph.flattenNode n c.userType c.wild false with
      | none => simp [hes, Proc.ok] at hok
      | some es =>
        refine ⟨?_, fun X _ => ?_, fun h => h⟩
        · show ∀ e ∈ es ++ [], EdgeOk c visited e
          rw [append_nil]
          exact hedge hes
        · have hmem : ∀ e, e ∈ es ↔ c.graph.FlatEdge c.userType c.wild n e := fun e =>
            (mem_flattenAux _ n es hes).trans (and_iff_left (by simp))
          simp only [Val, append_nil, hmem]

theorem owes_resolveUnion (hn : isUnion n = true) (hone : c.oneRecursiveEdge n = true)
    (hok : (c.resolveUnion r n visited).ok = true) :
    Owes c S visited (fun X => Val c S X (.union r n visited)) (c.resolveUnion r n visited) := by
  unfold Config.resolveUnion at hok ⊢
  cases hnode : c.graph.getNodeByID n with
  | none => simp [hnode, Proc.ok] at hok
  | some node =>
    have hkey : node.key = n := beq_iff_eq.mp (find?_some (p := fun m : Node => m.key == n) hnode)
    simp only [hnode] at hok ⊢
    -- the body owes what the union does
    have hbody : ∀ {visited emptyCycle : Bool}, (c.unionBody r node visited emptyCycle).ok = true →
        Owes c S visited (fun X => Val c S X (.union r n visited))
          (c.unionBody r node visited emptyCycle) := by
      intro visited emptyCycle hok
      refine (owes_unionBody hc hnode hkey hn hone hok).of_iff fun X => ?_
      cases visited with
      | true => exact Iff.rfl
      | false =>
        show _ ↔ (r.object, n) ∈ S
        rw [mem_iff_flatVal hc hn]
        exact exists_congr fun e => and_congr_right fun _ => edgeVal_false.trans edgeVal_self.symm
    cases n with
    | specificTypeAndRelation t rel =>
      simp only at hok ⊢
      split at hok
      next hregion =>
        obtain ⟨rfl, hregion⟩ := hregion
        rw [if_pos ⟨rfl, hregion⟩]
        have h : Owes c S true _ _ := hbody hok
        have htaken : ∀ q, Taken [⟨.userset r.object r.relation,
            some (r.object, .specificTypeAndRelation t rel)⟩] q →
            q = (r.object, .specificTypeAndRelation t rel) := by
          rintro q ⟨v, hv, hq⟩
          rw [mem_singleton.mp hv] at hq
          exact (Option.some.inj hq).symm
        refine ⟨⟨h.good, ⟨_, mem_singleton_self _, rfl⟩, ?_, ?_, ?_⟩, fun X _ => Iff.rfl,
          fun _ => trivial⟩
        · intro q hq
          rw [htaken q hq]
          exact hn
        · intro hval
          rw [mem_iff_flatVal hc hn]
          exact (h.val S fun _ => id).mp hval
        · intro q hq X hX hflat
          rw [htaken q hq] at hflat
          exact .inl ((h.val X hX).mpr hflat)
      next hregion =>
        rw [if_neg hregion]
        exact hbody hok
    | _ => exact hbody hok

end

theorem owes_startAll {es} (hes : ∀ e ∈ es, EdgeOk c visited e) :
    Owes c S visited (fun X => ∃ e ∈ es, EdgeVal c S X visited r.object e)
      (startAll r es visited) := by
  induction es with
  | nil => exact owes_done fun X => by simp
  | cons e es ih =>
    have he := hes e mem_cons_self
    have h := ih fun e' he' => hes e' (mem_cons_of_mem _ he')
    refine ⟨⟨⟨he, he.1, edgeVal_self.mp, fun _ => edgeVal_self.mpr⟩, h.good⟩, fun X hX => ?_,
      fun hv => ⟨hv, h.closed hv⟩⟩
    rw [exists_mem_cons_iff]
    exact or_congr Iff.rfl (h.val X hX)

end

end OpenFGA.Check
