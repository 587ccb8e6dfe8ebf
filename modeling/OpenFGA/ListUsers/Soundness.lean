/-
  Users that are listed have the relation, as long as the expansion is fair.

  By induction on the rewrites and on the levels of the expansion, what a fair expansion sends is
  right about the user.  The collector keeps the last message about each user.

  Where the base of an exclusion is an exclusion itself, from a typed wildcard, the outer one takes
  the users that the inner one reports as excluded for users of the base.  Without the wildcard it
  does not.
-/

import OpenFGA.ListUsers.Fair

namespace OpenFGA.ListUsers

open AuthorizationModel TypeSystem List

namespace Query

variable {q : Query} {σ : Schedule} {M : Meaning q.typesys.toAuthorizationModel q.grants}
  {o v : Object} {r : String} {w : Userset} {need : Need} {path : List Nat} {n : Nat}
  {dispatch : List Nat → Object → String → Expansion} {visited : List (Object × String)}
  {users : List User}

/-! ## Fair expansions are right -/

lemma sound_nil {u S} : q.Sound u [] S :=
  ⟨fun hu => absurd hu not_mem_nil, fun hw => absurd hw not_mem_nil⟩

lemma right_nil {u S} (h : ¬ S) : q.Right u [] S need := by
  cases need with
  | sound => exact sound_nil
  | complete => exact ⟨fun hS => absurd hS h, fun _ => h⟩

lemma right_of {u u' S} (h : u' = u ∨ u' = q.wildcardKey ↔ S) : q.Right u [.of u'] S need := by
  have hfound {x : User} : x ∈ found [.of u'] ↔ u' = x := by
    simp [mem_found, FoundUser.of]
  cases need with
  | sound =>
    exact ⟨fun hu => h.mp (.inl (hfound.mp hu)), fun hw => .inl (h.mp (.inr (hfound.mp hw)))⟩
  | complete =>
    refine ⟨fun hS => (h.mpr hS).imp hfound.mpr hfound.mpr, ?_⟩
    rintro (⟨m, hm, -, hs⟩ | hx)
    · rw [mem_singleton.mp hm] at hs
      cases hs
    · cases hx

/-- The message about the userset itself says nothing about an object. -/
lemma right_selfUser {ms S} (h : q.Right (.object v) ms S need) :
    q.Right (.object v) (q.selfUser o r ++ ms) S need := by
  have hself : ∀ m ∈ q.selfUser o r, m = .of (.userset o r) := fun m => mem_selfUser
  have hfound {u : User} (hu : u.isObjectRelation = false) :
      u ∈ found (q.selfUser o r ++ ms) ↔ u ∈ found ms := by
    simp only [mem_found, mem_append]
    refine ⟨?_, fun ⟨m, hm, hs⟩ => ⟨m, .inr hm, hs⟩⟩
    rintro ⟨m, hm | hm, hs, rfl⟩
    · rw [hself m hm] at hu
      cases hu
    · exact ⟨m, hm, hs, rfl⟩
  have hexcluded : excluded (q.selfUser o r ++ ms) = excluded ms := by
    rw [excluded, flatMap_append, flatMap_eq_nil_iff.mpr fun m hm => hself m hm ▸ rfl]
    rfl
  cases need with
  | sound =>
    refine ⟨fun hu => Sound.found h ((hfound rfl).mp hu), fun hw => ?_⟩
    rw [hexcluded]
    exact Sound.wildcard h ((hfound rfl).mp hw)
  | complete =>
    refine ⟨fun hS => (Complete.covers h hS).imp (hfound rfl).mpr (hfound rfl).mpr, fun hd => ?_⟩
    refine Complete.denies h (hd.imp ?_ fun hx => hexcluded ▸ hx)
    rintro ⟨m, hm, hu, hs⟩
    rcases mem_append.mp hm with hm | hm
    · rw [hself m hm] at hu
      cases hu
    · exact ⟨m, hm, hu, hs⟩

lemma exists_zipIdx {α : Type} {xs : List α} {P : α → Prop} :
    (∃ p ∈ xs.zipIdx, P p.1) ↔ ∃ x ∈ xs, P x := by
  constructor
  · rintro ⟨p, hp, h⟩
    exact ⟨p.1, fst_mem_of_mem_zipIdx hp, h⟩
  · rintro ⟨x, hx, h⟩
    obtain ⟨i, hi⟩ := mem_iff_getElem?.mp hx
    exact ⟨(x, i), mem_zipIdx_iff_getElem?.mpr hi, h⟩

lemma forall_zipIdx {α : Type} {xs : List α} {P : α → Prop} :
    (∀ p ∈ xs.zipIdx, P p.1) ↔ ∀ x ∈ xs, P x := by
  constructor
  · intro h x hx
    obtain ⟨i, hi⟩ := mem_iff_getElem?.mp hx
    exact h (x, i) (mem_zipIdx_iff_getElem?.mpr hi)
  · exact fun h p hp => h p.1 (fst_mem_of_mem_zipIdx hp)

/-- The object is among the users of the tuple. -/
def GrantedBy (S : Object → String → Prop) (v : Object) : User → Prop
  | .object o => o = v
  | .wildcard t => t = v.type
  | .userset o r => S o r

/-- The tuples that were read show who satisfies the rewrite `this`. -/
lemma exists_grantedBy_iff {S : Object → String → Prop} (herr : (q.read o r).2 = []) :
    (∃ p ∈ (q.read o r).1.zipIdx, GrantedBy S v p.1.user) ↔
      q.grants.any o r (.object v) ∨ q.grants.any o r (.wildcard v.type) ∨
        ∃ o' r', q.grants.any o r (.userset o' r') ∧ S o' r' := by
  have hread {u : User} : q.grants.any o r u ↔ ∃ t ∈ (q.read o r).1, t.user = u :=
    ⟨exists_mem_read herr, fun ⟨t, ht, hu⟩ => hu ▸ grants_any_of_mem_read ht⟩
  rw [exists_zipIdx (P := fun t : TupleKey => GrantedBy S v t.user)]
  simp only [hread]
  constructor
  · rintro ⟨t, ht, h⟩
    cases hu : t.user with
    | object o' =>
      rw [hu] at h
      exact .inl ⟨t, ht, hu.trans (congrArg User.object h)⟩
    | wildcard type =>
      rw [hu] at h
      exact .inr (.inl ⟨t, ht, hu.trans (congrArg User.wildcard h)⟩)
    | userset o' r' =>
      rw [hu] at h
      exact .inr (.inr ⟨o', r', ⟨t, ht, hu⟩, h⟩)
  · rintro (⟨t, ht, hu⟩ | ⟨t, ht, hu⟩ | ⟨o', r', ⟨t, ht, hu⟩, hS⟩)
    · exact ⟨t, ht, hu ▸ rfl⟩
    · exact ⟨t, ht, hu ▸ rfl⟩
    · exact ⟨t, ht, hu ▸ hS⟩

lemma right_expandTTU {tupleset computed} {S : Object → String → Prop}
    (hpart : q.typesys.PartOf o.type r (.tupleToUserset tupleset computed))
    (hd : ∀ p ∈ (q.read o tupleset).1.zipIdx,
      (dispatch (p.2 :: path) (splitObject p.1.user) computed).errs = [] →
      q.Right (.object v) (dispatch (p.2 :: path) (splitObject p.1.user) computed).sent
        (S (splitObject p.1.user) computed) need)
    (hsettled : need = .complete → q.Settled ((q.read o tupleset).1.zipIdx.map fun p =>
      (dispatch (p.2 :: path) (splitObject p.1.user) computed).sent) (.object v))
    {N : Userset → Prop} (herr : (q.expandTTU σ dispatch path o tupleset computed).errs = []) :
    q.Right (.object v) (q.expandTTU σ dispatch path o tupleset computed).sent
      ((Userset.tupleToUserset tupleset computed).Sat q.grants S N (.object v) o r) need := by
  obtain ⟨herrs, hread⟩ := append_eq_nil_iff.mp herr
  have hright := right_flatten (fun p hp => hd p hp (errs_parts herrs hp)) hsettled
  refine Right.perm (σ.perm ..) ?_
  rw [sent_parts]
  refine hright.congr ((exists_zipIdx (P := fun t : TupleKey =>
    S (splitObject t.user) computed)).trans ⟨?_, ?_⟩)
  · rintro ⟨t, ht, hS⟩
    obtain ⟨o', hu⟩ := exists_object_of_tupleset ht hpart
    rw [hu] at hS
    exact ⟨o', hu ▸ grants_any_of_mem_read ht, hS⟩
  · rintro ⟨o', hany, hS⟩
    obtain ⟨t, ht, hu⟩ := exists_mem_read hread hany
    exact ⟨t, ht, by rwa [hu]⟩

section
variable {S : Object → String → Prop} (hv : v.type = q.userFilter.type)
include hv

/-- One tuple in `expandDirect`. -/
lemma right_expandDirectTuple {t} (hd : ∀ o' r', t.user = .userset o' r' →
      q.Right (.object v) (dispatch path o' r').sent (S o' r') need) :
    q.Right (.object v) (q.expandDirectTuple dispatch path t).sent (GrantedBy S v t.user) need := by
  cases ht : t.user with
  | object o =>
    rw [expandDirectTuple_of_not_userset (ht ▸ rfl), ht]
    split_ifs with htype
    · exact right_of (by simp [wildcardKey, GrantedBy])
    · exact right_nil fun h => htype (hv.symm.trans (congrArg Object.type h).symm)
  | wildcard t' =>
    rw [expandDirectTuple_of_not_userset (ht ▸ rfl), ht]
    split_ifs with htype
    · exact right_of (by simp [wildcardKey, GrantedBy, hv])
    · exact right_nil fun h => htype (hv.symm.trans h.symm)
  | userset o' r' =>
    rw [expandDirectTuple_userset ht]
    exact hd o' r' ht

lemma right_expandDirect (hd : ∀ p ∈ (q.read o r).1.zipIdx, ∀ o' r', p.1.user = .userset o' r' →
      (dispatch (p.2 :: path) o' r').errs = [] →
      q.Right (.object v) (dispatch (p.2 :: path) o' r').sent (S o' r') need)
    (hkeeps : q.DirectKeeps (.object v) dispatch o r path need)
    {N : Userset → Prop} (herr : (q.expandDirect σ dispatch path o r).errs = []) :
    q.Right (.object v) (q.expandDirect σ dispatch path o r).sent
      (Userset.this.Sat q.grants S N (.object v) o r) need := by
  obtain ⟨hread, herrs⟩ := append_eq_nil_iff.mp herr
  have hparts : ∀ p ∈ (q.read o r).1.zipIdx, q.Right (.object v)
      (q.expandDirectTuple dispatch (p.2 :: path) p.1).sent (GrantedBy S v p.1.user) need := by
    intro p hp
    refine right_expandDirectTuple hv fun o' r' hu => hd p hp o' r' hu ?_
    have := errs_parts herrs hp
    rwa [expandDirectTuple_userset hu] at this
  have hright := right_flatten hparts fun h => by
    subst h
    exact hkeeps
  refine Right.perm (σ.perm ..) ?_
  rw [sent_parts]
  have hiff := exists_grantedBy_iff (v := v) (S := S) hread
  have hwild : (∃ t, (User.object v).OfType t ∧ q.grants.any o r (.wildcard t)) ↔
      q.grants.any o r (.wildcard v.type) :=
    ⟨fun ⟨t, ht, h⟩ => by rwa [show v.type = t from ht], fun h => ⟨v.type, rfl, h⟩⟩
  cases need with
  | sound =>
    exact Sound.imp hright fun h => (hiff.mp h).imp hkeeps (Or.imp_left hwild.mpr)
  | complete =>
    exact Complete.imp hright fun h => hiff.mpr
      (h.imp grants_any_of_own (Or.imp_left hwild.mp))

variable {fair : Need → List Nat → Object → String → Prop}
  (htidy : ∀ path o r, q.Tidy (dispatch path o r).sent)
include htidy

lemma right_expandRewrite (hd : ∀ need path o r, fair need path o r →
    (dispatch path o r).errs = [] →
      q.Right (.object v) (dispatch path o r).sent (q.InWithout M (.object v) visited o r) need)
    (hpart : q.typesys.PartOf o.type r w)
    (hfair : q.FairRewrite σ M (.object v) dispatch fair visited o r need path w)
    (herr : (q.expandRewrite σ dispatch o r path w).errs = []) :
    q.Right (.object v) (q.expandRewrite σ dispatch o r path w).sent
      (w.Sat q.grants (q.InWithout M (.object v) visited) (M.Not (.object v) o r) (.object v) o r)
      need := by
  induction w generalizing need path with
  | this =>
    exact right_expandDirect hv (fun p hp o' r' hu => hd need _ o' r' (hfair.1 p hp o' r' hu))
      hfair.2 herr
  | computedUserset computed => exact hd need _ o computed hfair herr
  | tupleToUserset tupleset computed =>
    exact right_expandTTU hpart (fun p hp => hd need _ _ computed (hfair.1 p hp)) hfair.2 herr
  | union cs ih =>
    obtain ⟨hfair, hkeeps⟩ := hfair
    rw [sent_operands] at hkeeps
    simp only [expandRewrite, sent_operands]
    refine (Right.perm (σ.perm ..) (right_unionOf (fun p hp => ?_) hkeeps)).congr
      (exists_zipIdx.trans Userset.sat_union.symm)
    have hc := fst_mem_of_mem_zipIdx hp
    exact ih p.1 hc (hpart.of_union hc) (fairRewrites_iff.mp hfair p hp) (errs_operands herr hp)
  | intersection cs ih =>
    simp only [expandRewrite, sent_operands]
    refine (Right.perm (σ.perm ..) (right_intersectionOf ?_
      (fun p _ => tidy_expandRewrite htidy) fun p hp => ?_)).congr
      (forall_zipIdx.trans Userset.sat_intersection.symm)
    · simpa using hpart.intersection_ne_nil
    · have hc := fst_mem_of_mem_zipIdx hp
      exact ih p.1 hc (hpart.of_intersection hc) (fairRewrites_iff.mp hfair p hp)
        (errs_operands herr hp)
  | difference b s ihb ihs =>
    simp only [FairRewrite] at hfair
    simp only [expandRewrite] at herr ⊢
    split_ifs at hfair herr ⊢
    · cases need with
      | sound => exact sound_nil
      | complete =>
        obtain ⟨herrb, hfairb, hclaims⟩ := hfair rfl
        exact right_nil fun h => hclaims (Complete.claims (ihb hpart.base hfairb herrb) h.1)
    · obtain ⟨hfairb, hfairs, hkeeps, hcycle⟩ := hfair
      obtain ⟨herrb, herrs⟩ := append_eq_nil_iff.mp herr
      have hright := Right.perm (σ.perm path _) (right_differenceOf (tidy_expandRewrite htidy)
        (tidy_expandRewrite htidy) (by simp [wildcardKey]) (ihb hpart.base hfairb herrb)
        (ihs hpart.subtract hfairs herrs) hkeeps)
      cases need with
      | sound =>
        exact Sound.imp hright fun hsat =>
          ⟨hsat.1, (M.not_iff _ o r s).mpr fun h => hsat.2 (hcycle rfl h)⟩
      | complete =>
        refine Complete.imp hright fun hsat =>
          ⟨hsat.1, fun h => (M.not_iff _ o r s).mp hsat.2 ?_⟩
        exact h.mono fun _ _ => has_of_inWithout

end

/-- What a fair expansion sends is right about an object of the filter's type. -/
theorem right_expand (hv : v.type = q.userFilter.type)
    (hfair : q.Fair σ M (.object v) n visited need path o r)
    (herr : (q.expand σ n visited path o r).errs = []) :
    q.Right (.object v) (q.expand σ n visited path o r).sent
      (q.InWithout M (.object v) visited o r) need := by
  induction n generalizing visited need path o r with
  | zero => exact absurd herr (by simp [expand])
  | succ n ih =>
    by_cases hmem : (o, r) ∈ visited
    · rw [expand, if_pos hmem]
      exact right_nil fun h => h.notMem hmem
    · cases hrel : q.typesys.getRelation o.type r with
      | error e =>
        have hno : ¬ q.InWithout M (.object v) visited o r := by
          intro h
          obtain ⟨-, rel, hok, -⟩ := (Avoiding.avoiding_iff local_rule).mp h
          cases hrel.symm.trans hok
        have hself : (q.expand σ (n + 1) visited path o r).sent = q.selfUser o r ++ [] := by
          cases e <;> simp [expand, hmem, hrel]
        rw [hself]
        exact right_selfUser (right_nil hno)
      | ok rel =>
        rw [expand_of_ok hmem hrel] at herr ⊢
        refine right_selfUser (Right.congr (right_expandRewrite hv (fun _ _ _ => tidy_expand)
          (fun _ _ _ _ => ih) (.root hrel) (hfair hmem rel hrel) herr) ?_)
        refine Iff.trans ?_ (Avoiding.avoiding_iff local_rule).symm
        constructor
        · exact fun hsat => ⟨hmem, rel, hrel, hsat⟩
        · rintro ⟨-, rel', hrel', hsat⟩
          obtain rfl := Except.ok.inj (hrel.symm.trans hrel')
          exact hsat

/-! ## The response -/

lemma mem_of_mem_collect {entries ms m} (h : m ∈ q.collect entries ms) : m ∈ entries ∨ m ∈ ms := by
  induction ms generalizing entries with
  | nil => exact .inl h
  | cons m' ms ih =>
    have hstep (h : m ∈ entries.filter (·.user ≠ m'.user) ++ [m']) : m ∈ entries ∨
        m ∈ m' :: ms := by
      rcases mem_append.mp h with h | h
      · exact .inl (mem_of_mem_filter h)
      · exact .inr (mem_singleton.mp h ▸ mem_cons_self)
    simp only [collect] at h
    split_ifs at h
    · exact hstep h
    · exact (ih h).elim hstep fun h => .inr (mem_cons_of_mem _ h)

/-- What a response without a deadline says about the expansion. -/
lemma of_respond {e} (hdeadline : NoDeadline e.errs)
    (h : q.respond σ e = .ok users) :
    (e.errs = [] ∨ 0 < q.maxResults ∧ σ.overtakes = true) ∧ users =
      ((q.collect [] e.sent).filter (·.relationshipStatus = .hasRelationship)).map (·.user) := by
  simp only [respond] at h
  split_ifs at h with hcond
  refine ⟨or_iff_not_imp_left.mpr fun hne => ?_, (Except.ok.inj h).symm⟩
  have hany : e.errs.any (·.isDeadlineExceeded) = false :=
    any_eq_false.mpr fun x hx => by simp [hdeadline x hx]
  simp only [hne, hany, ne_eq, not_false_eq_true, decide_true, Bool.true_and, Bool.not_false,
    Bool.and_true, Bool.not_eq_true', Bool.not_eq_false, Bool.and_eq_true,
      decide_eq_true_eq] at hcond
  exact ⟨hcond.1.1, hcond.2⟩

lemma mem_found_of_respond {e u}
    (hdeadline : NoDeadline e.errs) (h : q.respond σ e = .ok users) (hu : u ∈ users) :
    u ∈ found e.sent := by
  rw [(of_respond hdeadline h).2] at hu
  simp only [mem_map, mem_filter, decide_eq_true_eq] at hu
  obtain ⟨m, ⟨hm, hstatus⟩, rfl⟩ := hu
  exact mem_found.mpr ⟨m, (mem_of_mem_collect hm).resolve_left not_mem_nil, hstatus, rfl⟩

lemma respond_of_listUsers {u} (h : q.listUsers σ o r = .ok users)
    (hu : u ∈ users) : q.respond σ (q.expand σ q.resolveNodeLimit [] [] o r) = .ok users := by
  rw [listUsers] at h
  split_ifs at h
  · exact h
  · cases hedges : q.doesHavePossibleEdges o r with
    | error e => simp [hedges] at h
    | ok b =>
      cases b with
      | false =>
        simp only [hedges, Except.ok.injEq] at h
        exact absurd (h ▸ hu) not_mem_nil
      | true => simpa [hedges] using h

/-- A listed object has the relation, if the expansion is fair to it and no error is overtaken.
    The conditions of unions and exclusions are sharp: what they make of operands that are right
    is sound only if they are met. -/
theorem listUsers_sound (q : Query) (σ : Schedule)
    (M : Meaning q.typesys.toAuthorizationModel q.grants) (o v : Object) (r : String) :
    (∀ users, q.BeforeDeadline →
      (σ.overtakes = true → q.maxResults = 0 ∨ q.Reliable ∧ q.WithinLimit (o, r)) →
      q.typesys.defines o.type r = true →
      q.Fair σ M (.object v) q.resolveNodeLimit [] .sound [] o r →
      q.listUsers σ o r = .ok users → .object v ∈ users → M.Has (.object v) o r) ∧
    (∀ operands : List (List FoundUser × Prop),
      (∀ x ∈ operands, ∀ need, q.Right (.object v) x.1 x.2 need) →
      (q.Sound (.object v) (unionOf (operands.map (·.1))) (∃ x ∈ operands, x.2) ↔
        q.UnionKeeps (operands.map (·.1)) (.object v) .sound)) ∧
    ∀ (base subtract : List FoundUser) (S T : Prop), q.Tidy base → q.Tidy subtract →
      (∀ need, q.Right (.object v) base S need) → (∀ need, q.Right (.object v) subtract T need) →
      (q.Sound (.object v) (q.differenceOf base subtract) (S ∧ ¬ T) ↔
        q.ExclusionKeeps base subtract (.object v) .sound) := by
  refine ⟨fun users hdeadline hlimit hreq hfair h hv => ?_,
    fun operands hall => right_unionOf_iff hall .sound,
    fun base subtract S T htb hts hb hs =>
      right_differenceOf_iff htb hts (by simp [wildcardKey]) hb hs .sound⟩
  have hrespond := respond_of_listUsers h hv
  have hfound := mem_found_of_respond (noDeadline_expand hdeadline) hrespond hv
  have htype : v.type = q.userFilter.type := by
    obtain ⟨m, hm, -, hu⟩ := mem_found.mp hfound
    exact (hu ▸ (tidy_expand m hm).1).resolve_left Bool.false_ne_true
  have herr : (q.expand σ q.resolveNodeLimit [] [] o r).errs = [] := by
    refine (of_respond (noDeadline_expand hdeadline) hrespond).1.elim id fun hcut => ?_
    obtain ⟨hmax, hover⟩ := hcut
    obtain ⟨hreliable, hwithin⟩ := (hlimit hover).resolve_left (by omega)
    obtain ⟨rel, hrel⟩ := defines_iff.mp hreq
    obtain ⟨td, htd, -⟩ := getRelation_eq_ok.mp hrel
    exact errs_expand_of_reliable hreliable hwithin (.singleton _) rfl nodup_nil
      (by simp) (by simp [htd])
  exact has_of_inWithout (Sound.found (right_expand htype hfair herr) hfound)

end Query

/-! ## An exclusion in the base of an exclusion -/

/-- Messages arrive in the order in which they are sent. -/
def inOrder : Schedule := ⟨fun _ ms => ms, fun _ _ => .refl _, false⟩

/-- `viewer: ([user, user:*] but not blocked_1) but not blocked_2`. -/
def twiceBlocked : TypeSystem where
  typeDefinitions := [⟨"user", []⟩, ⟨"document",
    [("blocked_1", ⟨.this, [⟨"user", .object, ""⟩]⟩),
      ("blocked_2", ⟨.this, [⟨"user", .object, ""⟩]⟩),
      ("viewer", ⟨.difference (.difference .this (.computedUserset "blocked_1"))
        (.computedUserset "blocked_2"), [⟨"user", .object, ""⟩, ⟨"user", .wildcard, ""⟩]⟩)]⟩]
  conditions := []
  valid := by decide
  validContext _ := true

def document1 : Object := ⟨"document", "1"⟩

/-- The viewers of the document, without a limit. -/
def viewersOf (tuples : List (String × User)) : Query where
  typesys := twiceBlocked
  tuples := tuples.map fun p => ⟨document1, p.1, p.2, "", ""⟩
  failure _ _ := none
  evaluation _ := .ok true
  evaluationFailed _ := false
  userFilter := ⟨"user", ""⟩
  resolveNodeLimit := 25
  maxResults := 0

/-- Viewers come after those who are blocked. -/
def viewersRank (x : String × String) : Nat := if x.2 = "viewer" then 1 else 0

lemma viewers_ranked : RefsRanked twiceBlocked.toAuthorizationModel viewersRank = true := by
  rfl

lemma viewersOf_acyclic (tuples : List (String × User)) : (viewersOf tuples).Acyclic :=
  Query.acyclic_of_ranked viewers_ranked

def viewersMeaning (tuples : List (String × User)) :
    Meaning (viewersOf tuples).typesys.toAuthorizationModel (viewersOf tuples).grants :=
  .ofRank (ρ := fun x => viewersRank (x.1.type, x.2))
    ((viewersOf tuples).grantsAdmitted.rank_lt_of_leads viewers_ranked)

/-- Everybody may view, but one user is blocked. -/
private def openToAll : Query :=
  viewersOf [("viewer", .wildcard "user"), ("blocked_1", .object ⟨"user", "maria"⟩)]

/-- A user that the inner exclusion reports as blocked is listed by the outer one. -/
theorem listUsers_nested_exclusion :
    openToAll.listUsers inOrder document1 "viewer" =
        .ok [.wildcard "user", .object ⟨"user", "maria"⟩] ∧
      Nonempty (Meaning openToAll.typesys.toAuthorizationModel openToAll.grants) ∧
      ∀ M : Meaning openToAll.typesys.toAuthorizationModel openToAll.grants,
        ¬ M.Has (.object ⟨"user", "maria"⟩) document1 "viewer" := by
  refine ⟨by rfl, ⟨viewersMeaning _⟩, fun M hhas => ?_⟩
  rcases Meaning.has_iff.mp hhas with hself | ⟨rel, hrel, hsat⟩
  · exact nomatch hself
  · obtain rfl := Except.ok.inj hrel
    have hinner := (Meaning.sat_difference.mp hsat).1
    refine (Meaning.sat_difference.mp hinner).2 (Meaning.has_iff.mpr (.inr ⟨_, rfl, .inl ?_⟩))
    exact ⟨⟨document1, "blocked_1", .object ⟨"user", "maria"⟩, "", ""⟩, by decide, by decide, rfl⟩

lemma beforeDeadline_viewersOf (tuples : List (String × User)) :
    (viewersOf tuples).BeforeDeadline where
  failure _ _ _ _ h := nomatch h
  condition t e h := by
    simp only [evaluateTupleCondition, viewersOf] at h
    split_ifs at h

def will : Object := ⟨"user", "will"⟩

/-- One viewer is not blocked, one is blocked by one relation and one by both. -/
def blockedTuples : List (String × User) :=
  [("viewer", .object will), ("viewer", .object ⟨"user", "maria"⟩),
    ("blocked_1", .object ⟨"user", "maria"⟩), ("viewer", .object ⟨"user", "poovam"⟩),
    ("blocked_1", .object ⟨"user", "poovam"⟩), ("blocked_2", .object ⟨"user", "poovam"⟩)]

def blockedTwice : Query := viewersOf blockedTuples

private lemma read_blockedTwice : ∀ r ∈ ["viewer", "blocked_1", "blocked_2"],
    ∀ t ∈ (blockedTwice.read document1 r).1, t.user.isObjectRelation = false := by decide

private lemma distinct_blockedTwice : blockedTwice.Distinct := by
  unfold Query.Distinct
  decide

private lemma fair_blocked {M need path r} (hr : r ∈ ["blocked_1", "blocked_2"]) :
    blockedTwice.Fair inOrder M (.object will) 24
      [(document1, "viewer")] need path document1 r := by
  intro _ rel hrel
  have hthis : rel.rewrite = .this := by
    simp only [mem_cons, not_mem_nil, or_false] at hr
    rcases hr with rfl | rfl <;> (obtain rfl := Except.ok.inj hrel; rfl)
  rw [hthis]
  exact Query.fairRewrite_this distinct_blockedTwice (read_blockedTwice r (mem_cons_of_mem _ hr))

/-- The expansion of nested exclusions without a typed wildcard is fair. -/
lemma fair_blockedTwice {M} (need : Query.Need) :
    blockedTwice.Fair inOrder M (.object will) 25 [] need [] document1 "viewer" := by
  intro _ rel hrel
  have hpart : blockedTwice.typesys.PartOf "document" "viewer" rel.rewrite := .root hrel
  obtain rfl := Except.ok.inj hrel
  have hvisited : ∀ x ∈ [(document1, "viewer")],
      Relation.ReflTransGen blockedTwice.Leads x (document1, "viewer") :=
    forall_mem_singleton.mpr .refl
  refine Query.fairRewrite_difference (viewersOf_acyclic _) hpart.subtract hvisited (by decide) ?_
    (fair_blocked (by decide)) (by cases need <;> decide)
  refine Query.fairRewrite_difference (viewersOf_acyclic _) hpart.base.subtract hvisited (by decide)
    ?_ (fair_blocked (by decide)) (by cases need <;> decide)
  exact Query.fairRewrite_this distinct_blockedTwice (read_blockedTwice _ mem_cons_self)

theorem listUsers_sound_blockedTwice :
    blockedTwice.listUsers inOrder document1 "viewer" = .ok [.object will] ∧
      (viewersMeaning blockedTuples).Has (.object will) document1 "viewer" :=
  ⟨by rfl, (Query.listUsers_sound blockedTwice inOrder _ document1 will "viewer").1
    [.object will] (beforeDeadline_viewersOf _) nofun (by decide)
      (fair_blockedTwice .sound) (by rfl)
    (by simp)⟩

end OpenFGA.ListUsers
