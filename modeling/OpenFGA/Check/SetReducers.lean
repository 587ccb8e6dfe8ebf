/-
  `ResolveUnionEdges` and `ResolveIntersection` (internal/check/check.go) as instances of `Fan`,
  and the three set reducers of the v2 resolver together, when nobody cancels their context from
  outside.

  Each of them settles: every schedule ends, no goroutine waits for a message that is not sent,
  and what is returned is the union, the intersection or the exclusion of what the edges
  evaluate to (`reducers_exact`).  There are answers that are given without looking at
  the edges.  A typed wildcard is denied by an intersection with an edge that has no
  wildcard for its type, and a userset has no answer in an exclusion whose subtract edge
  cannot lead to it.
-/

import OpenFGA.Check.EdgeFan
import OpenFGA.Check.ExclusionAlone

namespace OpenFGA.Check
open ResponseMsg
open Fan
open Loop List

/-! ## Union -/

/-- An edge of a union: the cached response, if `isCached` finds one, and what `ResolveEdge`
    returns otherwise. -/
structure UnionEdge where
  cached : Option Response
  result : ResponseMsg
deriving DecidableEq, Repr

/-- What the edge evaluates to. -/
def UnionEdge.outcome (e : UnionEdge) : ResponseMsg :=
  match e.cached with
  | some res => ⟨some res, none⟩
  | none => e.result

/-- The loop over the edges of `ResolveUnionEdges`: the number of expected messages, the messages
    queued in `out`, and the evaluations. -/
def collect (expectedMessages : Nat) (queued evaluations : List ResponseMsg) :
    List UnionEdge → Nat × List ResponseMsg × List ResponseMsg
  | [] => (expectedMessages, queued, evaluations)
  | e :: edges =>
    match e.cached with
    | some res =>
      if res.allowed then
        (expectedMessages + 1 - evaluations.length, queued ++ [⟨some res, none⟩], [])
      else collect (expectedMessages + 1) (queued ++ [⟨some res, none⟩]) evaluations edges
    | none => collect (expectedMessages + 1) queued (evaluations ++ [e.result]) edges

def Loop.union : Loop where
  body err m :=
    match m.err with
    | some e => .next (some e)
    | none => if m.getAllowed then .return ⟨m.res, none⟩ else .next err
  last err :=
    match err with
    | some e => ⟨none, some e⟩
    | none => ⟨some ⟨false⟩, none⟩

/-- `ResolveUnionEdges` up to the calls of `pool.Go`. -/
def Fan.resolveUnionEdges (concurrencyLimit : Nat) (edges : List UnionEdge) : Fan :=
  let (expectedMessages, queued, evaluations) := collect 0 [] [] edges
  start concurrencyLimit edges.length expectedMessages queued (evaluations.map some)

/-- The union of the messages: an allowed message, the error of a failed one when none is
    allowed, and denied when all are. -/
structure IsUnion (ms : List ResponseMsg) (answer : ResponseMsg) : Prop where
  allows : answer.Allows ↔ ∃ m ∈ ms, m.Allows
  fails : ∀ e, answer.err = some e → ∃ m ∈ ms, m.err = some e
  denies : answer.Denies ↔ ∀ m ∈ ms, m.Denies

/-- What the loop of a union has seen: nothing allowed, and the recorded error is the one of a
    failed message. -/
structure UnionSeen (seen : List ResponseMsg) (err : Option Err) : Prop where
  not_allows : ∀ m ∈ seen, ¬ m.Allows
  fails : ∀ e, err = some e → ∃ m ∈ seen, m.err = some e
  denies : err = none → ∀ m ∈ seen, m.Denies

lemma UnionSeen.isUnion {seen all err} (h : UnionSeen seen err)
    (hall : ∀ m, m ∈ all ↔ m ∈ seen) : IsUnion all (union.last err) := by
  have hnone : ¬ ∃ m ∈ all, m.Allows := fun ⟨m, hm, ha⟩ => h.not_allows m ((hall m).mp hm) ha
  cases err with
  | some e =>
    obtain ⟨m, hm, he⟩ := h.fails e rfl
    refine ⟨iff_of_false (by simp [union, ResponseMsg.Allows]) hnone, ?_, ?_⟩
    · intro e' he'
      cases he'
      exact ⟨m, (hall m).mpr hm, he⟩
    · refine iff_of_false (by simp [union, ResponseMsg.Denies]) fun hd => ?_
      exact not_denies_of_err he (hd m ((hall m).mpr hm))
  | none =>
    refine ⟨iff_of_false (by simp [union, ResponseMsg.Allows, getAllowed]) hnone,
      nofun, ?_⟩
    exact iff_of_true ⟨rfl, rfl⟩ fun m hm => h.denies rfl m ((hall m).mp hm)

lemma Loop.union_spec : Fan.LoopSpec union UnionSeen IsUnion where
  nil := ⟨by simp, nofun, by simp⟩
  next := by
    intro seen err m err' hseen hbody
    cases herr : m.err with
    | some e =>
      simp only [union, herr, Flow.next.injEq] at hbody
      subst hbody
      refine ⟨?_, ?_, nofun⟩
      · rw [forall_mem_append, forall_mem_singleton]
        exact ⟨hseen.not_allows, not_allows_of_err herr⟩
      · intro e' he'
        cases he'
        exact ⟨m, by simp, herr⟩
    | none =>
      simp only [union, herr] at hbody
      split_ifs at hbody with hallowed
      cases hbody
      have hdenies := denies_of_not herr hallowed
      refine ⟨?_, ?_, ?_⟩
      · rw [forall_mem_append, forall_mem_singleton]
        exact ⟨hseen.not_allows, fun ha => hallowed ha.2⟩
      · intro e he
        obtain ⟨x, hx, hxe⟩ := hseen.fails e he
        exact ⟨x, mem_append_left _ hx, hxe⟩
      · intro hnone
        rw [forall_mem_append, forall_mem_singleton]
        exact ⟨hseen.denies hnone, hdenies⟩
  answer := by
    intro seen err m answer all hseen hbody hm
    cases herr : m.err with
    | some e =>
      simp only [union, herr] at hbody
      cases hbody
    | none =>
      simp only [union, herr] at hbody
      split_ifs at hbody with hallowed
      cases hbody
      have hallows : m.Allows := ⟨herr, hallowed⟩
      refine ⟨iff_of_true ⟨rfl, hallowed⟩ ⟨m, hm, hallows⟩, nofun, ?_⟩
      refine iff_of_false (not_denies_of_allows ⟨rfl, hallowed⟩) fun hd => ?_
      exact not_denies_of_allows hallows (hd m hm)
  last := UnionSeen.isUnion

-- ----------------------------------------------------------------------------
-- Queueing the cached answers
-- ----------------------------------------------------------------------------

/-- What is planned has the union of all edges: it is all of them, or there is a cached
    allowed answer in both. -/
def Plans (edges : List UnionEdge) (planned : List ResponseMsg) : Prop :=
  (∀ m, m ∈ planned ↔ ∃ e ∈ edges, e.outcome = m) ∨
    (∀ m ∈ planned, ∃ e ∈ edges, e.outcome = m) ∧ ∃ m ∈ planned, m.Allows

lemma Plans.isUnion {edges planned answer}
    (hplans : Plans edges planned) (h : IsUnion planned answer) :
    IsUnion (edges.map UnionEdge.outcome) answer := by
  rcases hplans with hall | ⟨hsub, m, hm, ha⟩
  · have hmem : ∀ m, m ∈ edges.map UnionEdge.outcome ↔ m ∈ planned := fun m => by
      rw [mem_map, hall]
    refine ⟨?_, ?_, ?_⟩
    · simpa only [hmem] using h.allows
    · simpa only [hmem] using h.fails
    · simpa only [hmem] using h.denies
  · have hmem : ∀ m ∈ planned, m ∈ edges.map UnionEdge.outcome := fun m hm =>
      mem_map.mpr (hsub m hm)
    refine ⟨iff_of_true (h.allows.mpr ⟨m, hm, ha⟩) ⟨m, hmem m hm, ha⟩, ?_, ?_⟩
    · intro e he
      obtain ⟨x, hx, hxe⟩ := h.fails e he
      exact ⟨x, hmem x hx, hxe⟩
    · refine iff_of_false (fun hd => ?_) fun hd => ?_
      · exact not_denies_of_allows (h.allows.mpr ⟨m, hm, ha⟩) hd
      · exact not_denies_of_allows ha (hd m (hmem m hm))

/-- The loop over the edges, after `done` of them. -/
lemma collect_spec {n queued evaluations done edges}
    (hn : n = queued.length + evaluations.length) (hlen : n = done.length)
    (hmem : ∀ m, m ∈ queued ++ evaluations ↔ ∃ e ∈ done, e.outcome = m) :
    ∃ queued' evaluations',
      collect n queued evaluations edges =
        (queued'.length + evaluations'.length, queued', evaluations') ∧
      queued'.length + evaluations'.length ≤ (done ++ edges).length ∧
      Plans (done ++ edges) (queued' ++ evaluations') := by
  induction edges generalizing n queued evaluations done with
  | nil =>
    refine ⟨queued, evaluations, by rw [collect, hn], ?_, .inl ?_⟩
    · rw [← hn, hlen, append_nil]
    · rwa [append_nil]
  | cons e edges ih =>
    rw [append_cons]
    cases hcached : e.cached with
    | none =>
      have hout : e.outcome = e.result := by rw [UnionEdge.outcome, hcached]
      rw [collect, hcached]
      refine ih ?_ ?_ fun m => ?_
      · simp only [length_append, length_singleton]
        omega
      · simp only [length_append, length_singleton]
        omega
      · rw [← append_assoc, mem_append, hmem, mem_singleton]
        simp [or_and_right, exists_or, hout, eq_comm]
    | some res =>
      have hout : e.outcome = ⟨some res, none⟩ := by rw [UnionEdge.outcome, hcached]
      simp only [collect, hcached]
      split_ifs with hallowed
      · -- the evaluations are given up, and so are their messages
        refine ⟨queued ++ [⟨some res, none⟩], [], ?_, ?_, .inr ⟨?_, ?_⟩⟩
        · simp only [length_append, length_singleton, length_nil]
          congr 1
          omega
        · simp only [length_append, length_singleton, length_nil]
          omega
        · intro m hm
          rw [append_nil, mem_append, mem_singleton] at hm
          rcases hm with hm | rfl
          · obtain ⟨d, hd, rfl⟩ := (hmem m).mp (mem_append_left _ hm)
            exact ⟨d, by simp [hd], rfl⟩
          · exact ⟨e, by simp, hout⟩
        · exact ⟨⟨some res, none⟩, by simp, rfl, hallowed⟩
      · refine ih ?_ ?_ fun m => ?_
        · simp only [length_append, length_singleton]
          omega
        · simp only [length_append, length_singleton]
          omega
        · simp only [mem_append, mem_singleton] at hmem ⊢
          rw [or_right_comm, hmem]
          simp [or_and_right, exists_or, hout, eq_comm]

lemma Fan.resolveUnionEdges_settles {limit} (hlimit : 1 ≤ limit) (edges : List UnionEdge) :
    Lts.Settles (step union) (resolveUnionEdges limit edges) (fun s => s.returned = true)
      (fun s => ∃ r, s.ret = some r ∧ IsUnion (edges.map UnionEdge.outcome) r) := by
  obtain ⟨queued, evaluations, hcollect, hlen, hplans⟩ :=
    @collect_spec 0 [] [] [] edges rfl rfl (by simp)
  rw [nil_append] at hlen hplans
  have hstart : resolveUnionEdges limit edges = start limit edges.length
      (queued.length + (evaluations.map some).length) queued (evaluations.map some) := by
    simp only [resolveUnionEdges, hcollect, length_map]
  rw [hstart]
  refine (start_settles union_spec hlimit (by rwa [length_map])).imp ?_
  rintro s ⟨r, hr, hgood⟩
  rw [← map_append, answers_map_some] at hgood
  exact ⟨r, hr, hplans.isUnion hgood⟩

/-! ## Intersection -/

def Loop.intersection : Loop where
  body err m :=
    if m.err.isSome ∨ m.getAllowed = false then .return m else .next err
  last err := ⟨some ⟨true⟩, err⟩

/-- `ResolveIntersection` up to the calls of `pool.Go`. -/
def Fan.resolveIntersection (g : Graph) (user : User) (node : NodeKey) (concurrencyLimit : Nat)
    (eval : Edge → ResponseMsg) : Except Err Fan :=
  match g.getEdgesFromNode node with
  | none => .error .panicRequest
  | some edges =>
    if user.isTypedWildcard && edges.any fun e => !e.wildcards.contains user.userType then
      -- not every edge has a wildcard path for the user type
      .ok ((start concurrencyLimit edges.length 0 [] []).return' ⟨some ⟨false⟩, none⟩)
    else
      .ok (start concurrencyLimit edges.length edges.length []
        (edges.map fun e => (e.weight user.userType).map fun _ => eval e))

/-- The intersection of the messages: allowed when all are, and otherwise one that is not. -/
structure IsIntersection (ms : List ResponseMsg) (answer : ResponseMsg) : Prop where
  allows : answer.Allows ↔ ∀ m ∈ ms, m.Allows
  denies : answer.Denies → ∃ m ∈ ms, m.Denies
  fails : ∀ e, answer.err = some e → ∃ m ∈ ms, m.err = some e

lemma Loop.intersection_spec :
    Fan.LoopSpec intersection (fun seen err => err = none ∧ ∀ m ∈ seen, m.Allows)
      IsIntersection where
  nil := ⟨rfl, by simp⟩
  next := by
    intro seen err m err' hseen hbody
    simp only [intersection] at hbody
    split_ifs at hbody with hstop
    cases hbody
    rw [not_or, Bool.not_eq_true, Option.isSome_eq_false_iff, Option.isNone_iff_eq_none,
      Bool.not_eq_false] at hstop
    refine ⟨hseen.1, ?_⟩
    rw [forall_mem_append, forall_mem_singleton]
    exact ⟨hseen.2, hstop⟩
  answer := by
    intro seen err m answer all hseen hbody hm
    simp only [intersection] at hbody
    split_ifs at hbody with hstop
    cases hbody
    refine ⟨iff_of_false ?_ fun hall => ?_, fun hd => ⟨m, hm, hd⟩, fun e he => ⟨m, hm, he⟩⟩
    · rintro ⟨herr, ha⟩
      simp [herr, ha] at hstop
    · obtain ⟨herr, ha⟩ := hall m hm
      simp [herr, ha] at hstop
  last := by
    intro seen err all hseen hall
    obtain ⟨rfl, hseen⟩ := hseen
    refine ⟨iff_of_true ⟨rfl, rfl⟩ fun m hm => hseen m ((hall m).mp hm), ?_, nofun⟩
    exact fun hd => absurd hd (not_denies_of_allows ⟨rfl, rfl⟩)

/-- The answer of an intersection of the given edges. -/
structure IntersectionAnswer (edges : List Edge) (user : User) (eval : Edge → ResponseMsg)
    (answer : ResponseMsg) : Prop where
  /-- An edge without a wildcard for the type of a requested wildcard denies it. -/
  wildcard : user.isTypedWildcard = true → (∃ e ∈ edges, user.userType ∉ e.wildcards) →
    answer = ⟨some ⟨false⟩, none⟩
  /-- An edge without a weight for the user type is an error. -/
  weightless : ¬ (user.isTypedWildcard = true ∧ ∃ e ∈ edges, user.userType ∉ e.wildcards) →
    (∃ e ∈ edges, e.weight user.userType = none) → answer = ⟨none, some .panicRequest⟩
  exact : ¬ (user.isTypedWildcard = true ∧ ∃ e ∈ edges, user.userType ∉ e.wildcards) →
    (∀ e ∈ edges, e.weight user.userType ≠ none) → IsIntersection (edges.map eval) answer

lemma Fan.resolveIntersection_settles {limit} (hlimit : 1 ≤ limit) {g node edges}
    (hedges : g.getEdgesFromNode node = some edges) (user : User) (eval : Edge → ResponseMsg) :
    ∃ s, resolveIntersection g user node limit eval = .ok s ∧
      Lts.Settles (step intersection) s (fun s => s.returned = true)
        (fun s => ∃ r, s.ret = some r ∧ IntersectionAnswer edges user eval r) := by
  have hdenied : (user.isTypedWildcard && edges.any fun e => !e.wildcards.contains user.userType)
      = true ↔ user.isTypedWildcard = true ∧ ∃ e ∈ edges, user.userType ∉ e.wildcards := by
    simp
  simp only [resolveIntersection, hedges]
  split_ifs with hwild
  · refine ⟨_, rfl, (settles_of_ret hlimit _).imp ?_⟩
    rw [hdenied] at hwild
    exact fun s hr => ⟨_, hr, fun _ _ => rfl, absurd hwild, absurd hwild⟩
  · rw [hdenied] at hwild
    have hlen : (edges.map fun e => (e.weight user.userType).map fun _ => eval e).length
        = edges.length := length_map _
    have hcap : ([] : List ResponseMsg).length +
        (edges.map fun e => (e.weight user.userType).map fun _ => eval e).length ≤
          edges.length := by
      rw [hlen, length_nil, Nat.zero_add]
    have hsettles := start_settles intersection_spec hlimit hcap
    rw [hlen, length_nil, Nat.zero_add] at hsettles
    refine ⟨_, rfl, hsettles.imp ?_⟩
    rintro s ⟨r, hr, hgood⟩
    rw [map_nil, nil_append] at hgood
    refine ⟨r, hr, fun h1 h2 => absurd ⟨h1, h2⟩ hwild, fun _ hnone => ?_, fun _ hsome => ?_⟩
    · obtain ⟨e, he, hw⟩ := hnone
      rwa [Fan.Answers, if_pos (mem_map.mpr ⟨e, he, by rw [hw]; rfl⟩)] at hgood
    · have hmap : (edges.map fun e => (e.weight user.userType).map fun _ => eval e)
          = (edges.map eval).map some := by
        rw [map_map]
        refine map_congr_left fun e he => ?_
        obtain ⟨w, hw⟩ := Option.ne_none_iff_exists'.mp (hsome e he)
        rw [hw]
        rfl
      rwa [hmap, answers_map_some] at hgood

/-! ## All three -/

/-- With a limit of at least one and nobody cancelling from outside, each reducer settles on every
    schedule, with the union, the intersection or the exclusion of what the edges
    evaluate to.  The answers that do not come from the edges: a typed wildcard is denied by
    an intersection with an edge that has no wildcard for its type, an edge
    of an intersection or a base edge without a weight is an error, and so is a userset for
    which the subtract edge has no weight. -/
theorem reducers_exact {limit : Nat} (hlimit : 1 ≤ limit) :
    (∀ edges : List UnionEdge,
      Lts.Settles (step union) (resolveUnionEdges limit edges) (fun s => s.returned = true)
        (fun s => ∃ r, s.ret = some r ∧ IsUnion (edges.map UnionEdge.outcome) r)) ∧
    (∀ (g : Graph) (node : NodeKey) (edges : List Edge) (user : User) (eval : Edge → ResponseMsg),
      g.getEdgesFromNode node = some edges →
      ∃ s, resolveIntersection g user node limit eval = .ok s ∧
        Lts.Settles (step intersection) s (fun s => s.returned = true)
          (fun s => ∃ r, s.ret = some r ∧ IntersectionAnswer edges user eval r)) ∧
    (∀ (g : Graph) (node : NodeKey) (base subtract : Edge) (rest : List Edge) (user : User)
        (eval : Edge → ResponseMsg),
      g.getEdgesFromNode node = some (base :: subtract :: rest) →
      if base.weight user.userType = none then
        resolveExclusion g user node none eval = .error .panicRequest
      else if user.isObjectRelation = true ∧ subtract.weight user.userType = none then
        resolveExclusion g user node none eval = .error .usersetInvalidRequest
      else ∃ s, resolveExclusion g user node none eval = .ok s ∧
        Lts.Settles Exclusion.stepAlone s Exclusion.Returned
          (fun s => ∃ res err, s.ret = some (res, err) ∧
            Exclusion.IsExclusion (eval base)
              ((subtract.weight user.userType).map fun _ => eval subtract) ⟨res, err⟩)) :=
  ⟨resolveUnionEdges_settles hlimit,
    fun _ _ _ user eval hedges => resolveIntersection_settles hlimit hedges user eval,
    fun _ _ _ _ _ user eval hedges => resolveExclusion_settles hedges user eval⟩

section Instances

/-- A pending evaluation that fails, and a cached allowed answer after it. -/
private def failingThenCached : List UnionEdge :=
  [⟨none, ⟨none, some .panicRequest⟩⟩, ⟨some ⟨true⟩, ⟨none, none⟩⟩]

theorem reducers_exact_cached :
    1 ≤ 1 ∧ Lts.Settles (step union) (resolveUnionEdges 1 failingThenCached)
      (fun s => s.returned = true)
      (fun s => ∃ r, s.ret = some r ∧ IsUnion (failingThenCached.map UnionEdge.outcome) r) :=
  ⟨Nat.le_refl 1, (reducers_exact (Nat.le_refl 1)).1 failingThenCached⟩

/-- `define viewer: [group#member] but not blocked` with `define blocked: [user]`. -/
private def viewerNode : NodeKey := .operatorNode .exclusion "viewer"

private def toType (id : String) (ut : UserType) : Edge where
  edgeType := .directEdge
  source := viewerNode
  target := .specificType "user"
  relationDefinition := ("document", id)
  tuplesetRelation := none
  conditions := [""]
  recursiveRelation := none
  tupleCycle := false
  wildcards := []
  weights := [(ut, 1)]

private def membersNotBlocked : Graph where
  nodes := []
  edges := [(viewerNode, [toType "viewer" (.userset "group" "member"),
    toType "blocked" (.type "user")])]

private def members : User := .userset ⟨"group", "1"⟩ "member"

/-- The base edge is allowed and the subtract edge has no weight, and yet there is no answer. -/
theorem no_answer_for_members :
    membersNotBlocked.getEdgesFromNode viewerNode =
      some [toType "viewer" members.userType, toType "blocked" (.type "user")] ∧
    (toType "viewer" members.userType).weight members.userType = some 1 ∧
    (toType "blocked" (.type "user")).weight members.userType = none ∧
    resolveExclusion membersNotBlocked members viewerNode none (fun _ => ⟨some ⟨true⟩, none⟩) =
      .error .usersetInvalidRequest :=
  ⟨rfl, rfl, rfl, rfl⟩

end Instances

end OpenFGA.Check
