/-
  Requests that share the cache of edge results.

  A session is a sequence of checks run one after another over one graph and one store,
  each with its own user, contextual tuples and context.  `ResolveUnionEdges` and
  `ResolveRecursive` store the answer of an edge under `EdgeCacheKey`, also when it was
  found with a visited map; the key does not mention the map.  The answers are those
  of a resolver without a cache in every session in which no negative answer is stored
  after a tuple was dropped that leads to a query which holds (`Settles`).

  Without that condition they are not: in a diamond of groups the branch that comes
  second stores false, and a later request for its group gets it
  (`session_diamond`).
-/

import OpenFGA.Check.ResolverBounds
import OpenFGA.Check.ResolverSteps

namespace OpenFGA.Check

open OpenFGA.Graph
open Config List Option

/-! ## Sessions -/

/-- A request of a session, and the schedule of its goroutines. -/
structure Call where
  config : Config
  request : Request
  schedule : List Turn

namespace Call

/-- What a check answers without a cache or with a right one. -/
def meaning (k : Call) : Set Query := k.config.reading.semantics k.config.graph

/-- The same resolver with the `NoopCache`. -/
def noop (k : Call) : Config := { k.config with caching := false }

/-- Run the request with the cache that earlier requests left. -/
def run (k : Call) (cache : List (CacheKey × Bool)) : Option (Shared × Proc) :=
  Lts.run k.config.advance (k.config.start cache k.request) k.schedule

/-- What is assumed of a step: no error arises, and the goroutine is steady. -/
def StepOk (c : Config) (S : Set Query) (σ : Shared × Proc) (a : Turn) : Prop :=
  c.quiet σ a = true ∧ Steady c S (focus σ.1.visited σ.2 a)

def Meets (k : Call) (cache : List (CacheKey × Bool)) : Prop :=
  Lts.Meets k.config.advance (StepOk k.config k.meaning) (k.config.start cache k.request) k.schedule

end Call

/-- Run requests one after another; the cache is handed on. -/
def runSession : List (CacheKey × Bool) → List Call → Option (List (Shared × Proc))
  | _, [] => some []
  | cache, k :: ks => do
      let σ ← k.run cache
      let σs ← runSession σ.1.cache ks
      return σ :: σs

/-- All steps of the session meet the assumptions. -/
def SessionMeets : List (CacheKey × Bool) → List Call → Prop
  | _, [] => True
  | cache, k :: ks => k.Meets cache ∧ ∀ σ, k.run cache = some σ → SessionMeets σ.1.cache ks

/-- The edges with the same key read the same tuples. -/
def Graph.KeyedEdges (g : Graph) : Prop :=
  ∀ p ∈ g.edges, ∀ e ∈ p.2, ∀ p' ∈ g.edges, ∀ e' ∈ p'.2,
    e.relationDefinition = e'.relationDefinition → e.edgeType = e'.edgeType →
    e.target = e'.target → e.tuplesetRelation = e'.tuplesetRelation →
    e.conditions = e'.conditions ∧ e.isCyclical = e'.isCyclical

/-- The requests of a session are over one well-built graph and one store, and the key of
    the invariant parts of a request identifies its contextual tuples and context. -/
structure Session (g : Graph) (s : Store) (calls : List Call) : Prop where
  graph : ∀ k ∈ calls, k.config.graph = g
  store : ∀ k ∈ calls, k.config.store = s
  wellBuilt : ∀ k ∈ calls, g.WellBuilt k.config.userType k.config.wild
  keyed : Graph.KeyedEdges g
  invariant : ∀ k ∈ calls, ∀ k' ∈ calls,
    k.config.env.invariantCacheKey = k'.config.env.invariantCacheKey →
    k.config.env.contextualTuples = k'.config.env.contextualTuples ∧ k.config.eval = k'.config.eval
  start : ∀ k ∈ calls, (k.config.resolveCheck k.request).ok = true

/-! ## The key of an edge -/

section
variable {g : Graph} {s : Store} {calls : List Call} {cache : List (CacheKey × Bool)} {k : Call}

/-- What the tuples say depends on the user, the contextual tuples and the context. -/
lemma reading_congr {c c' : Config} (hgraph : c.graph = c'.graph) (hstore : c.store = c'.store)
    (huser : c.env.user = c'.env.user)
    (hctx : c.env.contextualTuples = c'.env.contextualTuples) (heval : c.eval = c'.eval) :
    c.reading = c'.reading := by
  obtain ⟨graph, store, ⟨storeID, modelID, user, ctx, consistency, key⟩, eval, caching, other⟩ := c
  obtain ⟨graph', store', ⟨storeID', modelID', user', ctx', consistency', key'⟩, eval', caching',
    other'⟩ := c'
  obtain rfl : graph = graph' := hgraph
  obtain rfl : store = store' := hstore
  obtain rfl : user = user' := huser
  obtain rfl : ctx = ctx' := hctx
  obtain rfl : eval = eval' := heval
  rfl

/-- An edge holds by the fields of its key, its conditions and its mark. -/
lemma edgeHolds_congr {c : Config} {X o} {e e' : Edge}
    (hrel : e.relationDefinition = e'.relationDefinition) (htype : e.edgeType = e'.edgeType)
    (htarget : e.target = e'.target) (htupleset : e.tuplesetRelation = e'.tuplesetRelation)
    (hconds : e.conditions = e'.conditions) (hcyc : e.isCyclical = e'.isCyclical) :
    c.reading.EdgeHolds X o e ↔ c.reading.EdgeHolds X o e' := by
  have hrw : e.isRewrite = e'.isRewrite := by rw [Edge.isRewrite, Edge.isRewrite, htype]
  have hspecific : c.specificType o e = c.specificType o e' := by
    rw [specificType, specificType, hrel, hconds]
  have hwild : c.specificTypeWildcard o e = c.specificTypeWildcard o e' := by
    rw [specificTypeWildcard, specificTypeWildcard, hrel, hconds]
  have huserset : ∀ relation, c.usersetTuples o relation e = c.usersetTuples o relation e' := by
    intro relation
    rw [usersetTuples, usersetTuples, htarget, hconds]
  have httu : c.ttuTuples o e = c.ttuTuples o e' := by
    rw [ttuTuples, ttuTuples, htupleset, htarget]
  unfold Reading.EdgeHolds reading
  simp only [hrw, htype, htarget, hspecific, hwild, huserset, httu, hrel, hcyc]

lemma edgeHolds_of_cacheKey (h : Session g s calls) {k k' : Call} (hk : k ∈ calls)
    (hk' : k' ∈ calls) {o o' e e'} (he : ∃ n, e ∈ g.edgesFrom n)
    (he' : ∃ n, e' ∈ g.edgesFrom n) (hkey : k.config.cacheKey o e = k'.config.cacheKey o' e') :
    k.config.reading.EdgeHolds k.meaning o e ↔ k'.config.reading.EdgeHolds k'.meaning o' e' := by
  obtain ⟨-, -, ho, huser, hrel, htype, htarget, htupleset, hinv⟩ := CacheKey.mk.inj hkey
  obtain ⟨hctx, heval⟩ := h.invariant k hk k' hk' hinv
  obtain ⟨n, he⟩ := he
  obtain ⟨n', he'⟩ := he'
  obtain ⟨es, hes, he⟩ := exists_of_mem_edgesFrom he
  obtain ⟨es', hes', he'⟩ := exists_of_mem_edgesFrom he'
  obtain ⟨hconds, hcyc⟩ := h.keyed _ hes e he _ hes' e' he' hrel htype htarget htupleset
  have hgraph : k.config.graph = k'.config.graph := (h.graph k hk).trans (h.graph k' hk').symm
  have hreading : k.config.reading = k'.config.reading :=
    reading_congr hgraph ((h.store k hk).trans (h.store k' hk').symm) huser hctx heval
  have hmeaning : k.meaning = k'.meaning := by
    rw [Call.meaning, Call.meaning, hreading, hgraph]
  rw [hreading, hmeaning, ho]
  exact edgeHolds_congr hrel htype htarget htupleset hconds hcyc

/-! ## Runs -/

/-- The cache answers as the edges mean, whoever asks. -/
def CachesOk (calls : List Call) (cache : List (CacheKey × Bool)) : Prop :=
  ∀ k ∈ calls, CacheOk k.config k.meaning cache

lemma cachesOk_nil : CachesOk calls [] := by
  intro k _ o e b _ hcached
  simp only [isCached, lookup_nil, ite_self] at hcached
  cases hcached

section
variable (h : Session g s calls)
include h

lemma CachesOk.cons (hcache : CachesOk calls cache) (hk : k ∈ calls) {o e b}
    (he : ∃ n, e ∈ k.config.graph.edgesFrom n)
    (hb : b = true ↔ k.config.reading.EdgeHolds k.meaning o e) :
    CachesOk calls ((k.config.cacheKey o e, b) :: cache) := by
  intro k' hk' o' e' b' he' hcached
  unfold isCached at hcached
  split at hcached
  · cases hcached
  next hnoop =>
    rw [lookup_cons] at hcached
    split at hcached
    next heq =>
      cases hcached
      rw [h.graph k hk] at he
      rw [h.graph k' hk'] at he'
      rw [hb]
      exact (edgeHolds_of_cacheKey h hk' hk he' he (beq_iff_eq.mp heq)).symm
    · refine hcache k' hk' o' e' b' he' ?_
      rw [isCached, if_neg hnoop]
      exact hcached

lemma meaning_call (hk : k ∈ calls) :
    Meaning k.config k.meaning := by
  refine meaning_semantics ?_
  rw [h.graph k hk]
  exact h.wellBuilt k hk

/-- One request: its check is in order in the end, and so is the cache it leaves. -/
lemma checkOk_call (hk : k ∈ calls) (hcache : CachesOk calls cache) (hmeets : k.Meets cache)
    {σ} (hrun : k.run cache = some σ) :
    CheckOk k.config k.meaning k.request σ ∧ CachesOk calls σ.1.cache := by
  have hc := meaning_call h hk
  have hstart : CheckOk k.config k.meaning k.request (k.config.start cache k.request) :=
    checkOk_start hc (h.start k hk)
  refine Lts.run_invariant
    (I := fun σ => CheckOk k.config k.meaning k.request σ ∧ CachesOk calls σ.1.cache)
    (fun σ a σ' hinv hok hstep => ?_) ⟨hstart, hcache⟩ hmeets hrun
  obtain ⟨hquiet, hsteady⟩ := hok
  rw [quiet, hstep] at hquiet
  obtain ⟨hcheck, hstored⟩ :=
    checkOk_advance hc hinv.1 (hinv.2 k hk) hsteady hstep hquiet
  refine ⟨hcheck, ?_⟩
  rcases hstored with hsame | ⟨o, e, b, he, hcons, hb⟩
  · rw [hsame]
    exact hinv.2
  · rw [hcons]
    exact hinv.2.cons h hk he hb

lemma meaning_noop (hk : k ∈ calls) :
    Meaning k.noop k.meaning := by
  obtain ⟨hmodel, hweighted, hflattens, hrecursive⟩ := meaning_call h hk
  exact ⟨hmodel, hweighted, hflattens, hrecursive⟩

/-- A request without a cache answers what it means. -/
lemma checkOk_noop (hk : k ∈ calls) {turns σ}
    (hmeets : Lts.Meets k.noop.advance (Call.StepOk k.noop k.meaning)
      (k.noop.start [] k.request) turns)
    (hrun : Lts.run k.noop.advance (k.noop.start [] k.request) turns = some σ) :
    CheckOk k.noop k.meaning k.request σ := by
  have hc := meaning_noop h hk
  have hcache : ∀ cache, CacheOk k.noop k.meaning cache := by
    intro cache o e b _ hcached
    simp [isCached, Call.noop] at hcached
  refine Lts.run_invariant (fun σ a σ' hinv hok hstep => ?_)
    (checkOk_start hc (h.start k hk)) hmeets
    hrun
  obtain ⟨hquiet, hsteady⟩ := hok
  rw [quiet, hstep] at hquiet
  exact (checkOk_advance hc hinv (hcache _) hsteady hstep hquiet).1

/-- Every request of a session is in order in the end: the cache is, from one request to
    the next. -/
lemma checkOk_session {ks} (hks : ∀ k ∈ ks, k ∈ calls)
    (hcache : CachesOk calls cache) (hmeets : SessionMeets cache ks)
    {σs} (hrun : runSession cache ks = some σs) :
    List.Forall₂ (fun k σ => k ∈ calls ∧ CheckOk k.config k.meaning k.request σ) ks σs := by
  induction ks generalizing cache σs with
  | nil =>
    cases hrun
    exact List.Forall₂.nil
  | cons k ks ih =>
    obtain ⟨σ, hk, hbind⟩ := bind_eq_some_iff.mp hrun
    obtain ⟨σs', hrest, hσs⟩ := bind_eq_some_iff.mp hbind
    cases hσs
    have hmem : k ∈ calls := hks k mem_cons_self
    obtain ⟨hcheck, hleft⟩ := checkOk_call h hmem hcache hmeets.1 hk
    exact List.Forall₂.cons ⟨hmem, hcheck⟩
      (ih (fun k' hk' => hks k' (mem_cons_of_mem _ hk')) hleft (hmeets.2 σ hk) hrest)

end

/-- For every session that starts with an empty cache, with any schedule of the goroutines
    of each request, in which no error arises, no tuple is dropped for the query of another
    and no negative answer is stored after a tuple was dropped that leads to a query which
    holds, each request

    * answers what it answers without a cache;
    * can go on until it answers;
    * ends, whatever the cache holds when it starts. -/
theorem runSession_eq_noop (g : Graph) (s : Store) (calls : List Call) (h : Session g s calls)
    (σs : List (Shared × Proc)) (hrun : runSession [] calls = some σs)
    (hmeets : SessionMeets [] calls) :
    List.Forall₂ (fun k σ =>
      (∀ b, σ.2.result = some b → ∀ turns σ' b',
        Lts.run k.noop.advance (k.noop.start [] k.request) turns = some σ' →
        Lts.Meets k.noop.advance (Call.StepOk k.noop k.meaning) (k.noop.start [] k.request) turns →
        σ'.2.result = some b' → b = b') ∧
      (σ.2.result = none → ∃ a σ', k.config.advance σ a = some σ') ∧
      ∃ bound, ∀ cache turns σ',
        Lts.run k.config.advance (k.config.start cache k.request) turns = some σ' →
        turns.length ≤ bound) calls σs := by
  refine (checkOk_session h (fun _ hk => hk) cachesOk_nil hmeets hrun).imp fun k σ hkσ => ?_
  obtain ⟨hk, hcheck⟩ := hkσ
  have hc := meaning_call h hk
  have hgraph : k.config.graph.WellBuilt k.config.userType k.config.wild := by
    rw [h.graph k hk]
    exact h.wellBuilt k hk
  refine ⟨fun b hb turns σ' b' hrun' hmeets' hb' => ?_, fun hres => ?_, _,
    fun cache turns σ' hrun' =>
    run_start_length_le hgraph.marked hgraph.flattens hgraph.recursive hrun'⟩
  · have hanswer : b = true ↔ k.request.query ∈ k.meaning := hcheck.answer hc hb
    have hanswer' : b' = true ↔ k.request.query ∈ k.meaning :=
      (checkOk_noop h hk hmeets' hrun').answer (meaning_noop h hk) hb'
    exact Bool.eq_iff_iff.mpr (hanswer.trans hanswer'.symm)
  · obtain ⟨a, out, hstep⟩ := exists_step (c := k.config) (s := σ.1) hcheck.ok hres
    exact ⟨a, _, by rw [advance, hstep]; rfl⟩

end

-- Groups that may be members of groups.

private def team (id : String) : Object := ⟨"group", id⟩

private def teamMember : NodeKey := .specificTypeAndRelation "group" "member"

private def teamEdge (target : NodeKey) (recursive : Bool) : Edge where
  edgeType := .directEdge
  source := teamMember
  target
  relationDefinition := ("group", "member")
  tuplesetRelation := none
  conditions := [""]
  recursiveRelation := if recursive then some teamMember else none
  tupleCycle := false
  wildcards := []
  weights := [(.type "user", if recursive then 2147483647 else 1)]

/-- `member: [user, group#member]`. -/
private def teams : Graph where
  nodes := [⟨teamMember, some teamMember, false, [], [(.type "user", 2147483647)]⟩]
  edges := [(teamMember, [teamEdge (.specificType "user") false, teamEdge teamMember true])]

private def teamsLevel : NodeKey → Nat
  | .specificType _ => 0
  | _ => 1

private lemma wellBuilt_teams : teams.WellBuilt (.type "user") false :=
  have h : teams.BuiltBy (.type "user") false teamsLevel :=
    ⟨by decide, by decide, by decide, by decide, by decide, by decide, by decide⟩
  wellBuilt_of_builtBy h

/-- Groups b and c are in a, d is in both, and anne is in d. -/
private def diamond : Store where
  tuples := [⟨team "a", "member", .userset (team "b") "member", "", ""⟩,
    ⟨team "a", "member", .userset (team "c") "member", "", ""⟩,
    ⟨team "b", "member", .userset (team "d") "member", "", ""⟩,
    ⟨team "c", "member", .userset (team "d") "member", "", ""⟩,
    ⟨team "d", "member", .object ⟨"user", "anne"⟩, "", ""⟩]
  unique := by decide

private def teamCall (id : String) (schedule : List Turn) : Call where
  config := {
    graph := teams
    store := diamond
    env := ⟨"", "", .object ⟨"user", "anne"⟩, [], .minimizeLatency, 0⟩
    eval := fun _ => .ok true
    caching := true
    otherStrategies := false }
  request := ⟨team id, "member"⟩
  schedule := schedule

private def teamSession (calls : List (String × List Turn)) : List Call :=
  calls.map fun k => teamCall k.1 k.2

private lemma session_teamSession (calls : List (String × List Turn)) :
    Session teams diamond (teamSession calls) := by
  have hcall : ∀ k ∈ teamSession calls, ∃ id schedule, k = teamCall id schedule := by
    intro k hk
    obtain ⟨x, -, rfl⟩ := mem_map.mp hk
    exact ⟨x.1, x.2, rfl⟩
  refine ⟨fun k hk => ?_, fun k hk => ?_, fun k hk => ?_, ?_, fun k hk k' hk' _ => ?_,
    fun k hk => ?_⟩
  · obtain ⟨id, schedule, rfl⟩ := hcall k hk
    rfl
  · obtain ⟨id, schedule, rfl⟩ := hcall k hk
    rfl
  · obtain ⟨id, schedule, rfl⟩ := hcall k hk
    exact wellBuilt_teams
  · unfold Graph.KeyedEdges
    decide
  · obtain ⟨id, schedule, rfl⟩ := hcall k hk
    obtain ⟨id', schedule', rfl⟩ := hcall k' hk'
    exact ⟨rfl, rfl⟩
  · obtain ⟨id, schedule, rfl⟩ := hcall k hk
    rfl

/-- Nothing was dropped for a negative answer that is stored. -/
private def nothingDropped : List Visited × Proc × Turn → Bool
  | (_, .store _ _ dropped p, .go) => dropped.isEmpty || p.result != some false
  | _ => true

private def calm (c : Config) (σ : Shared × Proc) (a : Turn) : Bool :=
  c.quiet σ a && keeps (focus σ.1.visited σ.2 a) && followsAll c (focus σ.1.visited σ.2 a) &&
    nothingDropped (focus σ.1.visited σ.2 a)

private lemma meets_of_calm {c S σ turns}
    (hother : c.otherStrategies = false) (h : Lts.check c.advance (calm c) σ turns = true) :
    Lts.Meets c.advance (Call.StepOk c S) σ turns := by
  refine (Lts.meets_of_check h).mono fun σ a hcalm => ?_
  simp only [calm, Bool.and_eq_true] at hcalm
  obtain ⟨⟨⟨hquiet, hkeeps⟩, hfollows⟩, hdropped⟩ := hcalm
  refine ⟨hquiet, hkeeps, hfollows, ?_, ?_⟩
  · unfold Settles
    split
    next hfocus =>
      rw [hfocus] at hdropped
      intro _ hres q hq
      simp [nothingDropped, hres, ne_nil_of_mem hq] at hdropped
    · trivial
  · unfold StrategiesAgree
    split
    · exact fun h => by rw [hother] at h; cases h
    · exact fun h => by rw [hother] at h; cases h
    · trivial

/-- Look the edges of d up, evaluate the one to users and store its answer. -/
private def memberSchedule : List Turn :=
  [.go, .down (.left .go), .down (.left .go), .down (.left (.left (.down .go))),
    .down (.left (.left .go))]

/-- The edge to users is in the cache. -/
private def cachedSchedule : List Turn := [.go, .down (.left .go)]

private def twice : List Call := teamSession [("d", memberSchedule), ("d", cachedSchedule)]

private lemma meets_twice : SessionMeets [] twice := by
  refine ⟨meets_of_calm rfl ?_, fun σ hσ => ⟨meets_of_calm rfl ?_, fun _ _ => trivial⟩⟩
  · decide
  · cases hσ
    decide

/-- What a member of d is answered without a cache. -/
private def unaided : Option Bool :=
  (Lts.run (teamCall "d" []).noop.advance
    ((teamCall "d" []).noop.start [] ⟨team "d", "member"⟩) memberSchedule).bind fun σ => σ.2.result

/-- The second of two requests for d gets its answer from the cache. -/
theorem runSession_eq_noop_twice :
    ((runSession [] twice).map fun σs => σs.map fun σ => σ.2.result) =
      some [some true, some true] ∧ unaided = some true := by
  have hanswers : ((runSession [] twice).map fun σs => σs.map fun σ => σ.2.result) =
      some [some true, some true] := by decide
  have hunaided : unaided.isSome = true := by decide
  obtain ⟨σs, hrun, hres⟩ := map_eq_some_iff.mp hanswers
  obtain ⟨b', hb'⟩ := isSome_iff_exists.mp hunaided
  obtain ⟨σ', hrun', hres'⟩ := bind_eq_some_iff.mp hb'
  have hmeets' : Lts.Meets (teamCall "d" []).noop.advance
      (Call.StepOk (teamCall "d" []).noop (teamCall "d" []).meaning)
      ((teamCall "d" []).noop.start [] ⟨team "d", "member"⟩) memberSchedule :=
    meets_of_calm rfl (by decide)
  refine ⟨hanswers, ?_⟩
  have hall := runSession_eq_noop teams diamond twice (session_teamSession _) σs hrun meets_twice
  obtain ⟨σ₁, σs₁, -, hrest, rfl⟩ := forall₂_cons_left_iff.mp hall
  obtain ⟨σ₂, σs₂, hagrees, -, rfl⟩ := forall₂_cons_left_iff.mp hrest
  have hsecond : σ₂.2.result = some true := (cons.inj (cons.inj hres).2).1
  rw [hb', hagrees.1 true hsecond memberSchedule σ' b' hrun' hmeets' hres']

-- Both branches below a reach d.  That of b takes it first; that of c finds it
-- visited and stores false for the edge of c, which is then not evaluated again.

private def below (a : Turn) : Turn := .down (.right (.down a))

private def branchB (a : Turn) : Turn := below (.down (.right (.left (.right a))))

private def branchC (a : Turn) : Turn := below (.down (.left a))

private def memberD (a : Turn) : Turn := branchB (.down (.down (.left a)))

private def diamondSchedule : List Turn :=
  [.go, .down (.right .go), below .go, below .go, below .go,
    below (.down (.right (.left .go))), branchB .go, branchB (.down .go), branchB (.down .go),
    branchC .go, branchC (.right .go), branchC (.right (.down .go)), branchC (.right (.down .go)),
    branchC (.right .go),
    memberD .go, memberD (.left .go), memberD (.left .go), memberD (.left (.left (.down .go))),
    memberD (.left (.left .go)), branchB .go, .down (.right .go)]

/-- The edge to users finds no tuple, and the edge to groups is in the cache. -/
private def staleSchedule : List Turn :=
  [.go, .down (.right .go), .down (.left .go), .down (.left .go), .down (.left (.left (.down .go))),
    .down (.left (.left .go))]

private def freshSchedule : List Turn :=
  [.go, .down (.right .go), below .go, below .go, branchC .go, branchC (.left .go),
    branchC (.left .go), branchC (.left (.left (.down .go))), branchC (.left (.left .go)),
    .down (.right .go)]

private def teamKey (id : String) (target : NodeKey) (recursive : Bool) : CacheKey :=
  (teamCall id []).config.cacheKey (team id) (teamEdge target recursive)

/-- What the request for a leaves. -/
private def staleCache : List (CacheKey × Bool) :=
  [(teamKey "a" teamMember true, true), (teamKey "b" teamMember true, true),
    (teamKey "d" (.specificType "user") false, true), (teamKey "c" teamMember true, false)]

/-- After a request for a, in which the branch of b takes d, a request for c answers
    false, and without a cache it answers true. -/
theorem session_diamond :
    Session teams diamond (teamSession [("a", diamondSchedule), ("c", staleSchedule)]) ∧
    ((runSession [] (teamSession [("a", diamondSchedule), ("c", staleSchedule)])).map
      fun σs => σs.map fun σ => (σ.2.ok, σ.2.result)) =
        some [(true, some true), (true, some false)] ∧
    ((Lts.run (teamCall "c" []).noop.advance
      ((teamCall "c" []).noop.start [] ⟨team "c", "member"⟩) freshSchedule).map
        fun σ => (σ.2.ok, σ.2.result)) = some (true, some true) := by
  refine ⟨session_teamSession _, ?_, by decide⟩
  -- each request on its own, with the cache between them written out
  have hfirst : (((teamCall "a" diamondSchedule).run []).map
      fun σ => (σ.1.cache, σ.2.ok, σ.2.result)) = some (staleCache, true, some true) := by
    decide +kernel
  have hsecond : (((teamCall "c" staleSchedule).run staleCache).map
      fun σ => (σ.2.ok, σ.2.result)) = some (true, some false) := by decide +kernel
  obtain ⟨σ, hrun, hσ⟩ := map_eq_some_iff.mp hfirst
  obtain ⟨σ', hrun', hσ'⟩ := map_eq_some_iff.mp hsecond
  obtain ⟨hcache, hanswer⟩ := Prod.mk.inj hσ
  have hsession : runSession [] (teamSession [("a", diamondSchedule), ("c", staleSchedule)]) =
      some [σ, σ'] := by
    simp only [teamSession, List.map_cons, List.map_nil, runSession, hrun, hcache, hrun',
      Option.bind_eq_bind, Option.bind_some, Option.pure_def]
  rw [hsession]
  simp only [Option.map_some, List.map_cons, List.map_nil, hanswer, hσ']

end OpenFGA.Check
