/-
  Where the edges of a reverse expansion lead, against the meaning of the model.

  An unmarked edge stands for an operand that is enough by itself, so that a call without a
  mark is made for a userset that the user is in.  In the other direction, whoever satisfies a
  rewrite satisfies an operand that was not pruned, and there is an edge for it.
-/

import OpenFGA.ReverseExpand

namespace OpenFGA.ReverseExpand

open AuthorizationModel TypeSystem List

/-- What the tuples grant. -/
def Query.grants (q : Query) : Grants where
  own o r u := ∃ tk ∈ q.tuples, tk.object = o ∧ tk.relation = r ∧ tk.user = u ∧ q.Passes tk
  any o r u := ∃ tk ∈ q.tuples, tk.object = o ∧ tk.relation = r ∧ tk.user = u ∧ q.Passes tk

section
variable {q : Query} {N : Object → String → Userset → Prop} {x : User} {o : Object} {r : String}
  {e : RelationshipEdge} {w : Userset} {target : String × String} {t : String}
  {tupleset computed : String} {S : Object → String → Prop}

lemma admits_of_grants {u} (h : q.grants.any o r u) : q.typesystem.Admits o.type r u := by
  obtain ⟨tk, -, rfl, rfl, rfl, hpass⟩ := h
  exact admits_of_valid hpass.1

lemma grantsAdmitted (q : Query) : q.typesystem.GrantsAdmitted q.grants where
  own _ _ _ h := admits_of_grants h
  any _ _ _ h := admits_of_grants h

lemma mem_userFilter {users u} (hedge : e.type = .directEdge)
    (h : q.userFilter e x = some users) : u ∈ users ↔
      (q.shouldCheckPublicAssignable e.targetReference x = true ∧ u = .wildcard x.type) ∨
        (u = x ∧ x.isTypedWildcard = false) := by
  simp only [Query.userFilter, hedge, Option.some.injEq] at h
  subst h
  cases x with
  | object o =>
    by_cases hpub : q.shouldCheckPublicAssignable e.targetReference (.object o) = true <;>
      simp [hpub, User.isTypedWildcard]
  | wildcard t =>
    by_cases hpub : q.shouldCheckPublicAssignable e.targetReference (.wildcard t) = true <;>
      simp [hpub, User.isTypedWildcard]
  | userset o r => simp [Query.shouldCheckPublicAssignable, User.isTypedWildcard]

/-- Only a userset is the source of a computed userset or of a tuple to userset. -/
lemma userset_of_getRelation {computed} (hne : computed ≠ "")
    (h : computed = (sourceUserRef x).getRelation) : ∃ o', x = .userset o' computed := by
  cases x with
  | object o => exact absurd h hne
  | wildcard t => exact absurd h hne
  | userset o r => exact ⟨o, by rw [h]; rfl⟩

lemma ne_empty_of_defines (h : q.typesystem.defines t r = true) : r ≠ "" := by
  obtain ⟨rel, hrel⟩ := defines_iff.mp h
  exact (validateRelation_of_getRelation hrel).1

lemma computed_of_part {t computed}
    (h : q.typesystem.PartOf t r (.computedUserset computed)) :
    q.typesystem.defines t computed = true := by
  have hvalid := h.2
  rw [isUsersetRewriteValid, Bool.and_eq_true] at hvalid
  exact hvalid.2

lemma mem_directEdges : e ∈ q.typesystem.directEdges target (sourceUserRef x) ↔
    (q.typesystem.isDirectlyRelated target (sourceUserRef x) ||
      q.typesystem.isPubliclyAssignable target (sourceUserRef x).type) = true ∧
    e = ⟨.directEdge, target, "", false⟩ := by
  rw [directEdges]
  split <;> simp_all

lemma mem_computedEdges {computed} : e ∈ computedEdges target (sourceUserRef x) computed ↔
    (target.1 = (sourceUserRef x).type ∧ computed = (sourceUserRef x).getRelation) ∧
    e = ⟨.computedUsersetEdge, target, "", false⟩ := by
  rw [computedEdges]
  split <;> simp_all

lemma mem_ownEdges_ttu :
    e ∈ q.typesystem.ownEdges target (sourceUserRef x) (.tupleToUserset tupleset computed) ↔
    ∃ d ∈ q.typesystem.getDirectlyRelatedUserTypes target.1 tupleset,
      q.typesystem.defines d.type computed = true ∧
      (d.type = (sourceUserRef x).type ∧ computed = (sourceUserRef x).getRelation) ∧
      e = ⟨.tupleToUsersetEdge, target, tupleset,
        q.typesystem.involvesIntersectionOrExclusion (d.type, computed)⟩ := by
  rw [ownEdges, mem_flatMap]
  refine exists_congr fun d => and_congr_right fun _ => ?_
  by_cases hdef : q.typesystem.defines d.type computed = true
  · rw [if_pos hdef, ttuEdges]
    split <;> simp_all
  · simp [hdef]

/-- The mark plays no role in where an edge leads. -/
lemma follows_congr {e'} (h : q.Follows x e o) (hle : RelationshipEdge.Le e e' ∨
    RelationshipEdge.Le e' e) : q.Follows x e' o := by
  obtain ⟨htype, htarget, htupleset⟩ : e.type = e'.type ∧ e.targetReference = e'.targetReference ∧
      e.tuplesetRelation = e'.tuplesetRelation := by
    rcases hle with ⟨htype, htarget, htupleset, -⟩ | ⟨htype, htarget, htupleset, -⟩
    · exact ⟨htype, htarget, htupleset⟩
    · exact ⟨htype.symm, htarget.symm, htupleset.symm⟩
  cases h with
  | computed hedge => exact .computed (htype ▸ hedge)
  | tuple hfilter hmem hobject hrel huser hpass =>
    refine .tuple ?_ hmem (htarget ▸ hobject) ?_ huser hpass
    · simpa only [Query.userFilter, ← htype, ← htarget] using hfilter
    · simpa only [Query.relationFilter, ← htype, ← htarget, ← htupleset] using hrel

/-! ## Unmarked edges are sound -/

/-- The user of a call is the requested one, or a userset that it is in. -/
def Query.Holds (q : Query) (N : Object → String → Userset → Prop) : User → Prop
  | .userset o r => Related q.typesystem.toAuthorizationModel q.grants N q.user o r
  | x => x = q.user

/-- An edge of a rewrite leads to the relation that is rewritten. -/
lemma targetReference_of_mem (he : e ∈ q.typesystem.ownEdges target (sourceUserRef x) w) :
    e.targetReference = target := by
  induction w generalizing e with
  | this => rw [(mem_directEdges.mp he).2]
  | computedUserset computed => rw [(mem_computedEdges.mp he).2]
  | tupleToUserset tupleset computed =>
    obtain ⟨d, -, -, -, rfl⟩ := mem_ownEdges_ttu.mp he
    rfl
  | union cs ih =>
    rw [ownEdges, ownEdgesOf_eq] at he
    obtain ⟨c, hc, he⟩ := mem_flatMap.mp he
    exact ih c hc he
  | intersection cs ih =>
    cases cs with
    | nil => exact absurd he not_mem_nil
    | cons c cs =>
      obtain ⟨e', he', rfl⟩ := mem_map.mp he
      show e'.targetReference = target
      exact ih c mem_cons_self he'
  | difference b s ihb _ =>
    obtain ⟨e', he', rfl⟩ := mem_map.mp he
    show e'.targetReference = target
    exact ihb he'

/-- Following an unmarked edge from a user that the requested one is in leads to an
    object for which the requested user satisfies the rewrite. -/
lemma sat_of_follows (hpart : q.typesystem.PartOf o.type r w)
    (he : e ∈ q.typesystem.ownEdges (o.type, r) (sourceUserRef x) w)
    (hmark : e.targetReferenceInvolvesIntersectionOrExclusion = false) (hx : q.Holds N x)
    (hfollows : q.Follows x e o) :
    w.Sat q.grants (Related q.typesystem.toAuthorizationModel q.grants N q.user)
      (N o r) q.user o r := by
  induction w generalizing e with
  | this =>
    obtain ⟨-, rfl⟩ := mem_directEdges.mp he
    cases hfollows with
    | computed htype => cases htype
    | @tuple users tk hfilter hmem _ hrel huser hpass =>
      rcases (mem_userFilter rfl hfilter).mp huser with ⟨hpublic, huser⟩ | ⟨huser, hwild⟩
      · have hany : q.grants.any tk.object r (.wildcard x.type) :=
          ⟨tk, hmem, rfl, hrel, huser, hpass⟩
        cases x with
        | object o' => exact .inr (.inl ⟨o'.type, hx ▸ rfl, hany⟩)
        | wildcard t => exact .inr (.inl ⟨t, hx ▸ rfl, hany⟩)
        | userset o' r' => cases hpublic
      · have hany : q.grants.any tk.object r x := ⟨tk, hmem, rfl, hrel, huser, hpass⟩
        cases x with
        | object o' => exact .inl (hx ▸ hany)
        | wildcard t => cases hwild
        | userset o' r' => exact .inr (.inr ⟨o', r', hany, hx⟩)
  | computedUserset computed =>
    obtain ⟨⟨-, hcomputed⟩, rfl⟩ := mem_computedEdges.mp he
    obtain ⟨o', rfl⟩ :=
      userset_of_getRelation (ne_empty_of_defines (computed_of_part hpart)) hcomputed
    cases hfollows with
    | computed _ => exact hx
    | tuple hfilter _ _ _ _ _ => cases hfilter
  | tupleToUserset tupleset computed =>
    obtain ⟨d, -, hdef, ⟨-, hcomputed⟩, rfl⟩ := mem_ownEdges_ttu.mp he
    obtain ⟨o', rfl⟩ := userset_of_getRelation (ne_empty_of_defines hdef) hcomputed
    cases hfollows with
    | computed htype => cases htype
    | @tuple users tk hfilter hmem _ hrel huser hpass =>
      cases hfilter
      exact ⟨o', ⟨tk, hmem, rfl, hrel, mem_singleton.mp huser, hpass⟩, hx⟩
  | union cs ih =>
    rw [ownEdges, ownEdgesOf_eq] at he
    obtain ⟨c, hc, he⟩ := mem_flatMap.mp he
    exact Userset.sat_union.mpr ⟨c, hc, ih c hc (hpart.of_union hc) he hmark hfollows⟩
  | intersection cs _ =>
    -- the edges below an intersection or an exclusion are marked
    cases cs with
    | nil => exact absurd he not_mem_nil
    | cons c cs =>
      obtain ⟨e', -, rfl⟩ := mem_map.mp he
      cases hmark
  | difference b s _ _ =>
    obtain ⟨e', -, rfl⟩ := mem_map.mp he
    cases hmark

/-! ## Operands that are not pruned have edges -/

/-- Where the edge of a rewrite comes from: the requested user, or a userset that is
    referred to. -/
def Query.Source (q : Query) (S : Object → String → Prop) (refs : List (String × String))
    (x : User) :
    Prop :=
  x = q.user ∨ ∃ o' r', x = .userset o' r' ∧ S o' r' ∧ (o'.type, r') ∈ refs

lemma Query.Source.mono {refs refs'}
    (h : q.Source S refs x) (hsub : refs ⊆ refs') : q.Source S refs' x := by
  rcases h with h | ⟨o', r', hx, hs, hmem⟩
  · exact .inl h
  · exact .inr ⟨o', r', hx, hs, hsub hmem⟩

/-- The type restrictions that admit a typed wildcard make the relation publicly
    assignable. -/
lemma isPubliclyAssignable_of_admits (h : q.typesystem.Admits target.1 target.2 (.wildcard t)) :
    q.typesystem.isPubliclyAssignable target t = true := by
  obtain ⟨rel, hrel, d, hd, htype, hshape⟩ := h
  refine any_eq_true.mpr ⟨d, by rwa [getDirectlyRelatedUserTypes_of_ok hrel], ?_⟩
  simp [htype, hshape, shape, User.type]

lemma isDirectlyRelated_of_admits (h : q.typesystem.Admits target.1 target.2 x) :
    q.typesystem.isDirectlyRelated target (sourceUserRef x) = true := by
  obtain ⟨rel, hrel, d, hd, htype, hshape⟩ := h
  refine any_eq_true.mpr ⟨d, by rwa [getDirectlyRelatedUserTypes_of_ok hrel], ?_⟩
  cases x with
  | object o | wildcard t => simp [relationEquals, sourceUserRef, htype, hshape, shape, User.type]
  | userset o r =>
    have hne := (restriction_defined hrel hd hshape).1
    simp [relationEquals, sourceUserRef, htype, hshape, shape, User.type,
      Validation.RelationReference.getRelation, hne]

lemma Query.Follows.direct {tk} (hmem : tk ∈ q.tuples)
    (huser : (q.shouldCheckPublicAssignable (tk.object.type, tk.relation) x = true ∧
      tk.user = .wildcard x.type) ∨ (tk.user = x ∧ x.isTypedWildcard = false))
    (hpass : q.Passes tk) :
    q.Follows x ⟨.directEdge, (tk.object.type, tk.relation), "", false⟩ tk.object := by
  obtain ⟨users, hfilter⟩ : ∃ users,
      q.userFilter ⟨.directEdge, (tk.object.type, tk.relation), "", false⟩ x = some users :=
        ⟨_, rfl⟩
  exact .tuple hfilter hmem rfl rfl ((mem_userFilter rfl hfilter).mpr huser) hpass

lemma follows_direct (h : q.grants.any o r x) (hwild : x.isTypedWildcard = false) :
    ∃ e ∈ q.typesystem.directEdges (o.type, r) (sourceUserRef x), q.Follows x e o := by
  have hadmits := admits_of_grants h
  obtain ⟨tk, hmem, rfl, rfl, huser, hpass⟩ := h
  refine ⟨_, mem_directEdges.mpr ⟨?_, rfl⟩, .direct hmem (.inr ⟨huser, hwild⟩) hpass⟩
  rw [isDirectlyRelated_of_admits hadmits]
  rfl

lemma follows_wildcard (h : q.grants.any o r (.wildcard t)) (hx : x.OfType t) :
    ∃ e ∈ q.typesystem.directEdges (o.type, r) (sourceUserRef x), q.Follows x e o := by
  have hpublic : q.typesystem.isPubliclyAssignable (o.type, r) t = true :=
    isPubliclyAssignable_of_admits (admits_of_grants h)
  obtain ⟨htype, hcheck⟩ : (sourceUserRef x).type = t ∧ x.type = t ∧
      q.shouldCheckPublicAssignable (o.type, r) x = q.typesystem.isPubliclyAssignable
        (o.type, r) x.type := by
    cases x with
    | object o | wildcard t => exact ⟨hx, hx, rfl⟩
    | userset o r => exact hx.elim
  obtain ⟨tk, hmem, rfl, rfl, huser, hpass⟩ := h
  refine ⟨_, mem_directEdges.mpr ⟨?_, rfl⟩,
    .direct hmem (.inl ⟨?_, by rw [huser, hcheck.1]⟩) hpass⟩
  · rw [htype, hpublic, Bool.or_true]
  · rw [hcheck.2, hcheck.1, hpublic]

lemma follows_ttu {o'} (h : q.grants.any o tupleset (.object o'))
    (hdef : q.typesystem.defines o'.type computed = true) :
    (o'.type, computed) ∈ q.typesystem.prunedRefs (o.type, r) (.tupleToUserset tupleset computed) ∧
      ∃ e ∈ q.typesystem.ownEdges (o.type, r) (sourceUserRef (.userset o' computed))
        (.tupleToUserset tupleset computed), q.Follows (.userset o' computed) e o := by
  obtain ⟨rel, hrel, d, hd, htype, -⟩ := admits_of_grants h
  obtain ⟨tk, hmem, rfl, rfl, huser, hpass⟩ := h
  have hd' : d ∈ q.typesystem.getDirectlyRelatedUserTypes tk.object.type tk.relation := by
    rwa [getDirectlyRelatedUserTypes_of_ok hrel]
  have hddef : q.typesystem.defines d.type computed = true := htype ▸ hdef
  constructor
  · rw [prunedRefs]
    refine mem_flatMap.mpr ⟨d, hd', ?_⟩
    rw [if_pos hddef, htype]
    exact mem_singleton_self _
  · refine ⟨_, mem_ownEdges_ttu.mpr ⟨d, hd', hddef, ⟨htype, rfl⟩, rfl⟩, ?_⟩
    exact .tuple rfl hmem rfl rfl (mem_singleton.mpr huser) hpass

lemma follows_of_sat {N : Userset → Prop} (hpart : q.typesystem.PartOf o.type r w)
    (hS : ∀ o' r', S o' r' → q.typesystem.defines o'.type r' = true)
    (hsat : w.Sat q.grants S N q.user o r) :
    ∃ x, q.Source S (q.typesystem.prunedRefs (o.type, r) w) x ∧
      ∃ e ∈ q.typesystem.ownEdges (o.type, r) (sourceUserRef x) w, q.Follows x e o := by
  induction w with
  | this =>
    rcases hsat with hown | ⟨t, ht, hany⟩ | ⟨o', r', hany, hs⟩
    · cases hwild : q.user.isTypedWildcard with
      | false => exact ⟨q.user, .inl rfl, follows_direct hown hwild⟩
      | true =>
        obtain ⟨t, ht⟩ : ∃ t, q.user = .wildcard t := by
          cases huser : q.user with
          | wildcard t => exact ⟨t, rfl⟩
          | object o | userset o r => simp [huser, User.isTypedWildcard] at hwild
        exact ⟨q.user, .inl rfl, follows_wildcard (ht ▸ hown) (ht ▸ rfl)⟩
    · exact ⟨q.user, .inl rfl, follows_wildcard hany ht⟩
    · exact ⟨.userset o' r',
        .inr ⟨o', r', rfl, hs, mem_directlyRelatedUsersets (admits_of_grants hany)⟩,
        follows_direct hany rfl⟩
  | computedUserset computed =>
    refine ⟨.userset o computed, .inr ⟨o, computed, rfl, hsat, mem_singleton_self _⟩,
      ⟨.computedUsersetEdge, (o.type, r), "", false⟩, ?_, .computed rfl⟩
    exact mem_computedEdges.mpr ⟨⟨rfl, rfl⟩, rfl⟩
  | tupleToUserset tupleset computed =>
    obtain ⟨o', hany, hs⟩ := hsat
    have hfollows := follows_ttu (r := r) hany (hS o' computed hs)
    exact ⟨.userset o' computed, .inr ⟨o', computed, rfl, hs, hfollows.1⟩, hfollows.2⟩
  | union cs ih =>
    obtain ⟨c, hc, hsat⟩ := Userset.sat_union.mp hsat
    obtain ⟨x, hx, e, he, hfollows⟩ := ih c hc (hpart.of_union hc) hsat
    refine ⟨x, hx.mono ?_, e, ?_, hfollows⟩
    · rw [prunedRefs, prunedRefsOf_eq]
      exact fun y hy => mem_flatMap.mpr ⟨c, hc, hy⟩
    · rw [ownEdges, ownEdgesOf_eq]
      exact mem_flatMap.mpr ⟨c, hc, he⟩
  | intersection cs ih =>
    cases cs with
    | nil => exact absurd rfl hpart.intersection_ne_nil
    | cons c cs =>
      obtain ⟨x, hx, e, he, hfollows⟩ := ih c mem_cons_self
        (hpart.of_intersection mem_cons_self)
        (Userset.sat_intersection.mp hsat c mem_cons_self)
      exact ⟨x, hx, e.flag, mem_map_of_mem he, follows_congr hfollows (.inl (.flag e))⟩
  | difference b s ihb _ =>
    obtain ⟨x, hx, e, he, hfollows⟩ := ihb hpart.base hsat.1
    exact ⟨x, hx, e.flag, mem_map_of_mem he, follows_congr hfollows (.inl (.flag e))⟩

/-! ## Paths of the expansion -/

lemma sourceUserObj_type (hpart : q.typesystem.PartOf target.1 target.2 w)
    (he : e ∈ q.typesystem.ownEdges target (sourceUserRef x) w)
    (htype : e.type = .computedUsersetEdge) :
    (sourceUserObj x).type = target.1 := by
  induction w generalizing e with
  | this =>
    obtain ⟨-, rfl⟩ := mem_directEdges.mp he
    cases htype
  | computedUserset computed =>
    obtain ⟨⟨hsource, hcomputed⟩, -⟩ := mem_computedEdges.mp he
    obtain ⟨o', rfl⟩ :=
      userset_of_getRelation (ne_empty_of_defines (computed_of_part hpart)) hcomputed
    exact hsource.symm
  | tupleToUserset tupleset computed =>
    obtain ⟨d, -, -, -, rfl⟩ := mem_ownEdges_ttu.mp he
    cases htype
  | union cs ih =>
    rw [ownEdges, ownEdgesOf_eq] at he
    obtain ⟨c, hc, he⟩ := mem_flatMap.mp he
    exact ih c hc (hpart.of_union hc) he htype
  | intersection cs ih =>
    cases cs with
    | nil => exact absurd he not_mem_nil
    | cons c cs =>
      obtain ⟨e', he', rfl⟩ := mem_map.mp he
      exact ih c mem_cons_self (hpart.of_intersection mem_cons_self) he' htype
  | difference b s ihb _ =>
    obtain ⟨e', he', rfl⟩ := mem_map.mp he
    exact ihb hpart.base he' htype

/-- An unmarked edge leads to usersets that the user is in. -/
lemma related_of_follows {e₀ y}
    (he₀ : e₀ ∈ q.typesystem.relationEdges (sourceUserRef x) y) (hle : RelationshipEdge.Le e₀ e)
    (hmark : e.targetReferenceInvolvesIntersectionOrExclusion = false) (hx : q.Holds N x)
    (hfollows : q.Follows x e o) :
    Related q.typesystem.toAuthorizationModel q.grants N q.user o e.targetReference.2 := by
  unfold relationEdges at he₀
  cases hrel : q.typesystem.getRelation y.1 y.2 with
  | error err => simp [hrel] at he₀
  | ok rel =>
    simp only [hrel] at he₀
    obtain rfl := targetReference_of_mem he₀
    have hfollows₀ := follows_congr hfollows (.inr hle)
    have htype : o.type = e₀.targetReference.1 := by
      cases hfollows₀ with
      | computed hedge => exact sourceUserObj_type (.root hrel) he₀ hedge
      | tuple _ _ htype _ _ _ => exact htype
    have htarget : e₀.targetReference = (o.type, e.targetReference.2) := by
      rw [htype, ← hle.2.1]
    rw [htarget] at hrel he₀
    exact related_iff.mpr (.inr ⟨rel, hrel,
      sat_of_follows (.root hrel) he₀ (hle.2.2.2 hmark) hx hfollows₀⟩)

/-- The expansion of one user finds the other. -/
def Query.FollowsTo (q : Query) (x y : User) : Prop :=
  ∃ edges, q.typesystem.getPrunedRelationshipEdges q.targetObjRef (sourceUserRef x) = .ok edges ∧
    ∃ e ∈ edges, ∃ o, q.Follows x e o ∧ y = .userset o e.targetReference.2

/-- The relations that the requested one leads to, without the operands that are pruned. -/
def Query.Refers (q : Query) : String × String → Prop :=
  Relation.ReflTransGen (fun y z => z ∈ q.typesystem.relationRefs y) q.targetObjRef

lemma level_defines {n} (h : Level q.typesystem.toAuthorizationModel q.grants N q.user n o r) :
    q.typesystem.defines o.type r = true := by
  cases n with
  | zero => exact h.elim
  | succ n =>
    rcases h with hself | ⟨rel, hrel, -⟩
    · exact q.user_defined o r hself
    · exact defines_iff.mpr ⟨rel, hrel⟩

/-- Every userset that the user is in is found, if the requested relation refers to it. -/
lemma path_of_level {rel} (hrel : q.typesystem.getRelation q.objectType q.relation = .ok rel)
    (n : Nat) (hrefers : q.Refers (o.type, r))
    (h : Level q.typesystem.toAuthorizationModel q.grants N q.user n o r) :
    Relation.ReflTransGen q.FollowsTo q.user (.userset o r) := by
  induction n generalizing o r with
  | zero => exact h.elim
  | succ n ih =>
    rcases h with hself | ⟨rel', hrel', hsat⟩
    · rw [hself]
    · obtain ⟨x, hsource, e, he, hfollows⟩ :=
        follows_of_sat (.root hrel') (fun _ _ => level_defines) hsat
      -- all relations that the requested one refers to are visited, whatever the source
      have htarget : q.typesystem.getRelation q.targetObjRef.1 q.targetObjRef.2 = .ok rel := hrel
      obtain ⟨edges, V, hedges, hout⟩ := getPrunedRelationshipEdges_spec htarget (sourceUserRef x)
      have hvisited : ∀ y, q.Refers y → y ∈ V := by
        intro y hy
        induction hy with
        | refl => exact hout.refs_mem _ (mem_singleton_self _)
        | tail _ hmem ih => exact (hout.done _ ih not_mem_nil).refs_mem _ hmem
      have hown : e ∈ q.typesystem.relationEdges (sourceUserRef x) (o.type, r) := by
        have hown : q.typesystem.relationEdges (sourceUserRef x) (o.type, r) = _ :=
          relationEdges_of_ok hrel'
        rwa [hown]
      obtain ⟨e', he', hle⟩ := (hout.done _ (hvisited _ hrefers) not_mem_nil).own_mem e hown
      have hstep : q.FollowsTo x (.userset o r) := by
        refine ⟨edges, hedges, e', he', o, follows_congr hfollows (.inl hle), ?_⟩
        rw [← hle.2.1, targetReference_of_mem he]
      rcases hsource with rfl | ⟨o', r', rfl, hlevel, hmem⟩
      · exact .single hstep
      · refine (ih (hrefers.tail ?_) hlevel).tail hstep
        have hrefs : q.typesystem.relationRefs (o.type, r) = _ := relationRefs_of_ok hrel'
        rwa [hrefs]

lemma path_of_related
    (hrelated : Related q.typesystem.toAuthorizationModel q.grants N q.user o q.relation)
    (htype : o.type = q.objectType) :
    Relation.ReflTransGen q.FollowsTo q.user (.userset o q.relation) := by
  obtain ⟨n, hn⟩ := hrelated
  obtain ⟨rel, hrel⟩ := defines_iff.mp (level_defines hn)
  refine path_of_level (htype ▸ hrel) n ?_ hn
  rw [htype]
  exact .refl

end

end OpenFGA.ReverseExpand
