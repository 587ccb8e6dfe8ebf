/-
  Users that have the relation are listed, or the typed wildcard is, as long as the expansion is
  fair.

  What an exclusion sends is about a user or about the typed wildcard, and says of both what
  is right.  But unions and exclusions above it do not make the right use of it: a
  union passes on neither that a user was excluded from the wildcard nor that a user does not have
  the relation, so that a user who is excluded from one operand counts as covered by the wildcard.
  Below the subtracted operand of an exclusion such a user is subtracted, and lost.
-/

import OpenFGA.ListUsers.Soundness

namespace OpenFGA.ListUsers

open AuthorizationModel TypeSystem List

namespace Query

variable {q : Query} {σ : Schedule} {o v : Object} {r : String} {users : List User}

/-! ## The response -/

lemma collect_of_no_limit (h : q.maxResults = 0) (ms : List FoundUser) :
    q.collect [] ms = lastOf ms := by
  have hfold : ∀ ms entries, q.collect entries ms =
      ms.foldl (fun entries m => entries.filter (·.user ≠ m.user) ++ [m]) entries := by
    intro ms
    induction ms with
    | nil => exact fun _ => rfl
    | cons m ms ih =>
      intro entries
      simp only [collect, h, lt_irrefl, decide_false, Bool.false_and, Bool.false_eq_true, if_false,
        foldl_cons]
      exact ih _
  exact hfold ms []

/-- What is right about an object ends up in the response. -/
lemma mem_of_complete {e} {S : Prop} (hmax : q.maxResults = 0) (hdeadline : NoDeadline e.errs)
    (htidy : q.Tidy e.sent) (hcomplete : q.Complete (.object v) e.sent S) (hS : S)
    (h : q.respond σ e = .ok users) :
    .object v ∈ users ∨ .wildcard q.userFilter.type ∈ users := by
  have hmem {u : User} (hu : u ∈ found e.sent) (hstatus : ∀ m ∈ e.sent, m.user = u →
      m.relationshipStatus = .hasRelationship) : u ∈ users := by
    obtain ⟨m, hm, -, rfl⟩ := mem_found.mp hu
    obtain ⟨m', hm', huser⟩ := exists_mem_lastOf hm
    rw [(of_respond hdeadline h).2, collect_of_no_limit hmax]
    exact mem_map.mpr ⟨m', mem_filter.mpr
      ⟨hm', decide_eq_true (hstatus m' (mem_of_mem_lastOf hm') huser)⟩, huser⟩
  refine (hcomplete.covers hS).imp (fun hu => hmem hu fun m hm huser => ?_) fun hw =>
    hmem hw fun m hm huser => (htidy m hm).2.1 huser
  cases hs : m.relationshipStatus with
  | hasRelationship => rfl
  | noRelationship => exact absurd hS (hcomplete.denies (.inl ⟨m, hm, huser, hs⟩))

/-- A request for objects that have the relation expands. -/
lemma respond_of_has (hfilter : q.userFilter.relation = "") {N : Object → String → Userset → Prop}
    {v} (hv : v.type = q.userFilter.type)
    (hhas : Related q.typesys.toAuthorizationModel q.grants N (.object v) o r) :
    q.listUsers σ o r = q.respond σ (q.expand σ q.resolveNodeLimit [] [] o r) := by
  obtain ⟨rel, hrel⟩ : ∃ rel, q.typesys.getRelation o.type r = .ok rel := by
    obtain ⟨n, hn⟩ := hhas
    exact defines_iff.mp hn.defines
  have hne : ¬ (o.type = q.userFilter.type ∧ r = q.userFilter.relation) := fun h =>
    (validateRelation_of_getRelation hrel).1 (h.2.trans hfilter)
  obtain ⟨edges, hedges, hnil⟩ := edges_ne_nil_of_related q.grantsAdmitted hrel hhas
  have hpossible : q.doesHavePossibleEdges o r = .ok true := by
    simp [doesHavePossibleEdges, hfilter, ← hv, hedges, hnil]
  rw [listUsers, if_neg hne, hpossible]

/-- An object that has the relation is listed, or the typed wildcard is, if the expansion is fair
    to it.  The conditions of unions, exclusions and leaves are sharp: what they make of operands
    that are right is complete only if they are met. -/
theorem listUsers_complete (q : Query) (σ : Schedule)
    (M : Meaning q.typesys.toAuthorizationModel q.grants) (o v : Object) (r : String) :
    (∀ users, q.userFilter.relation = "" → q.maxResults = 0 → q.BeforeDeadline →
      q.Fair σ M (.object v) q.resolveNodeLimit [] .complete [] o r →
      q.listUsers σ o r = .ok users → v.type = q.userFilter.type → M.Has (.object v) o r →
      .object v ∈ users ∨ .wildcard q.userFilter.type ∈ users) ∧
    (∀ operands : List (List FoundUser × Prop),
      (∀ x ∈ operands, ∀ need, q.Right (.object v) x.1 x.2 need) →
      (q.Complete (.object v) (unionOf (operands.map (·.1))) (∃ x ∈ operands, x.2) ↔
          q.UnionKeeps (operands.map (·.1)) (.object v) .complete) ∧
        (q.Complete (.object v) (operands.map (·.1)).flatten (∃ x ∈ operands, x.2) ↔
          q.Settled (operands.map (·.1)) (.object v))) ∧
    ∀ (base subtract : List FoundUser) (S T : Prop), q.Tidy base → q.Tidy subtract →
      (∀ need, q.Right (.object v) base S need) → (∀ need, q.Right (.object v) subtract T need) →
      (q.Complete (.object v) (q.differenceOf base subtract) (S ∧ ¬ T) ↔
        q.ExclusionKeeps base subtract (.object v) .complete) := by
  refine ⟨fun users hfilter hmax hdeadline hfair h hv hhas => ?_, fun operands hall => ⟨?_, ?_⟩,
    fun base subtract S T htb hts hb hs =>
      right_differenceOf_iff htb hts (by simp [wildcardKey]) hb hs .complete⟩
  · rw [respond_of_has hfilter hv hhas] at h
    have hnodeadline : NoDeadline (q.expand σ q.resolveNodeLimit [] [] o r).errs :=
      noDeadline_expand hdeadline
    have herr := (of_respond hnodeadline h).1.resolve_right (by omega)
    exact mem_of_complete hmax hnodeadline tidy_expand (right_expand hv hfair herr)
      (inWithout_nil hhas) h
  · exact right_unionOf_iff hall .complete
  · exact ⟨settled_of_complete fun x hx => hall x hx .sound,
      complete_flatten fun x hx => hall x hx .complete⟩

end Query

/-- Without a tuple for the object, a typed wildcard or a userset it does not have an assigned
    relation. -/
private lemma not_has_assigned {q : Query} {M : Meaning q.typesys.toAuthorizationModel q.grants}
    {o v : Object} {r : String} {rel : Relation}
    (hrel : q.typesys.getRelation o.type r = .ok rel) (hthis : rel.rewrite = .this)
    (htuples : ∀ t ∈ q.tuples, t.object = o → t.relation = r → t.user ≠ .object v ∧
      t.user.isTypedWildcard = false ∧ t.user.isObjectRelation = false) :
    ¬ M.Has (.object v) o r := by
  have hany : ∀ u, q.grants.any o r u → u ≠ .object v ∧ u.isTypedWildcard = false ∧
      u.isObjectRelation = false := by
    rintro u ⟨t, ht, ho, hr, rfl, -⟩
    exact htuples t ht ho hr
  intro h
  rcases Meaning.has_iff.mp h with hself | ⟨rel', hrel', hsat⟩
  · exact nomatch hself
  · obtain rfl := Except.ok.inj (hrel.symm.trans hrel')
    rw [hthis] at hsat
    rcases hsat with hown | ⟨t, -, hwild⟩ | ⟨o', r', huserset, -⟩
    · exact (hany _ (Query.grants_any_of_own hown)).1 rfl
    · exact nomatch (hany _ hwild).2.1
    · exact nomatch (hany _ huserset).2.2

/-! ## A union in the subtracted operand of an exclusion -/

private def memo : Object := ⟨"document", "1"⟩

private def ann : Object := ⟨"user", "anne"⟩

/-- `hidden: (everyone but not blocked) or secret` and `can_view: member but not hidden`. -/
private def secretive : TypeSystem where
  typeDefinitions := [⟨"user", []⟩, ⟨"document",
    [("member", ⟨.this, [⟨"user", .object, ""⟩]⟩),
      ("everyone", ⟨.this, [⟨"user", .wildcard, ""⟩]⟩),
      ("blocked", ⟨.this, [⟨"user", .object, ""⟩]⟩),
      ("secret", ⟨.this, [⟨"user", .object, ""⟩]⟩),
      ("hidden", ⟨.union [.difference (.computedUserset "everyone") (.computedUserset "blocked"),
        .computedUserset "secret"], []⟩),
      ("can_view", ⟨.difference (.computedUserset "member") (.computedUserset "hidden"), []⟩)]⟩]
  conditions := []
  valid := by decide
  validContext _ := true

/-- The document is hidden from everyone but a member, who is blocked from that. -/
private def hidden : Query where
  typesys := secretive
  tuples := [⟨memo, "member", .object ann, "", ""⟩, ⟨memo, "everyone", .wildcard "user", "", ""⟩,
    ⟨memo, "blocked", .object ann, "", ""⟩]
  failure _ _ := none
  evaluation _ := .ok true
  evaluationFailed _ := false
  userFilter := ⟨"user", ""⟩
  resolveNodeLimit := 25
  maxResults := 0

private def hidingRank (x : String × String) : Nat :=
  if x.2 = "can_view" then 2 else if x.2 = "hidden" then 1 else 0

private lemma hiding_ranked : RefsRanked hidden.typesys.toAuthorizationModel hidingRank = true := by
  rfl

private def hiddenMeaning : Meaning hidden.typesys.toAuthorizationModel hidden.grants :=
  .ofRank (ρ := fun x => hidingRank (x.1.type, x.2))
    (hidden.grantsAdmitted.rank_lt_of_leads hiding_ranked)

private lemma has_assigned (M : Meaning hidden.typesys.toAuthorizationModel hidden.grants)
    {relation} (hrel : hidden.typesys.getRelation "document" relation =
      .ok ⟨.this, [⟨"user", .object, ""⟩]⟩)
    (hown : hidden.grants.own memo relation (.object ann)) : M.Has (.object ann) memo relation :=
  Meaning.has_iff.mpr (.inr ⟨_, hrel, .inl hown⟩)

private lemma own_member : hidden.grants.own memo "member" (.object ann) :=
  ⟨⟨memo, "member", .object ann, "", ""⟩, by decide, by decide, rfl⟩

private lemma own_blocked : hidden.grants.own memo "blocked" (.object ann) :=
  ⟨⟨memo, "blocked", .object ann, "", ""⟩, by decide, by decide, rfl⟩

/-- A member is not listed, although hidden from everyone does not mean hidden from the member: the
    union passes on the typed wildcard without the user who is excluded from it. -/
theorem listUsers_subtracted_union :
    hidden.listUsers inOrder memo "can_view" = .ok [] ∧ hidden.Acyclic ∧
      Nonempty (Meaning hidden.typesys.toAuthorizationModel hidden.grants) ∧
      ∀ M : Meaning hidden.typesys.toAuthorizationModel hidden.grants,
        M.Has (.object ann) memo "can_view" := by
  refine ⟨by rfl, Query.acyclic_of_ranked hiding_ranked, ⟨hiddenMeaning⟩, fun M => ?_⟩
  refine Meaning.has_iff.mpr (.inr ⟨_, rfl, Meaning.sat_difference.mpr
    ⟨has_assigned M rfl own_member, fun hhidden => ?_⟩⟩)
  rcases Meaning.has_iff.mp hhidden with hself | ⟨rel, hrel, hsat⟩
  · exact nomatch hself
  · obtain rfl := Except.ok.inj hrel
    obtain ⟨c, hc, hsat⟩ := Userset.sat_union.mp hsat
    simp only [mem_cons, not_mem_nil, or_false] at hc
    rcases hc with rfl | rfl
    · exact (Meaning.sat_difference.mp hsat).2 (has_assigned M rfl own_blocked)
    · exact not_has_assigned rfl rfl (by decide) hsat

theorem listUsers_complete_blockedTwice :
    (viewersMeaning blockedTuples).Has (.object will) document1 "viewer" ∧
      (.object will ∈ [User.object will] ∨ .wildcard "user" ∈ [User.object will]) := by
  have hno1 : ¬ (viewersMeaning blockedTuples).Has (.object will) document1 "blocked_1" :=
    not_has_assigned rfl rfl (by decide)
  have hno2 : ¬ (viewersMeaning blockedTuples).Has (.object will) document1 "blocked_2" :=
    not_has_assigned rfl rfl (by decide)
  have hhas : (viewersMeaning blockedTuples).Has (.object will) document1 "viewer" :=
    Meaning.has_iff.mpr (.inr ⟨_, rfl, Meaning.sat_difference.mpr ⟨Meaning.sat_difference.mpr
      ⟨.inl ⟨⟨document1, "viewer", .object will, "", ""⟩, by decide, by decide, rfl⟩, hno1⟩, hno2⟩⟩)
  exact ⟨hhas, (Query.listUsers_complete blockedTwice inOrder _ document1 will "viewer").1
    [.object will] rfl rfl (beforeDeadline_viewersOf _) (fair_blockedTwice .complete)
      (by rfl) rfl hhas⟩

end OpenFGA.ListUsers
