/-
  A check by the default strategy, without a cache, against the least fixed point of
  the rewrites.

  `Store.reading` says what unconditioned tuples contribute, without reference to how
  the resolver reads them; its least fixed point is what a check should answer.  The
  resolver does so in every run in which

  * no step drops a tuple whose user was stored in the visited map for another query,
  * no recursive relation is evaluated that has recursive edges besides the one
    that `ResolveRecursive` follows.

  Without the first condition the answer may be wrong: the unique filter is keyed by
  the user of a tuple, and for a tuple-to-userset edge that is an object, whatever
  relation is computed on it (`resolveCheck_suppressed`).
-/

import OpenFGA.Check.ResolverBounds
import OpenFGA.Check.ResolverSteps

namespace OpenFGA

open OpenFGA.Graph Check List

/-! ## What the tuples of a store say -/

/-- The tuples that an edge with these conditions admits, where no tuple is
    conditioned. -/
def Store.admitted (s : Store) (object : Object) (relation : String) (conditions : List String) :
    List TupleKey :=
  s.tuples.filter fun t => t.object = object ∧ t.relation = relation ∧ t.condition ∈ conditions

/-- What the tuples of a store say about a user that is no userset. -/
def Store.reading (s : Store) (g : Graph) (user : User) : Reading where
  assigned o e :=
    match e.edgeType, e.target with
    | .directEdge, .specificType t => user.type = t ∧ user.isTypedWildcard = false ∧
        ∃ tk ∈ s.admitted o e.relationDefinition.2 e.conditions, tk.user = user
    | .directEdge, .specificTypeWildcard t => user.type = t ∧
        ∃ tk ∈ s.admitted o e.relationDefinition.2 e.conditions, tk.user = .wildcard t
    | _, _ => False
  children o e :=
    match e.edgeType, e.target, e.tuplesetRelation with
    | .directEdge, .specificTypeAndRelation t r, _ =>
      ((s.admitted o e.relationDefinition.2 e.conditions).filter fun tk =>
        tk.user.userType = .userset t r).map fun tk => splitObject tk.user
    | .ttuEdge, .specificTypeAndRelation t _, some tupleset =>
      match g.getDirectEdgeFromNodeForUserType tupleset t with
      | some tuplesetEdge =>
        ((s.admitted o tupleset.2 tuplesetEdge.conditions).filter fun tk =>
          tk.user.type = t).map fun tk => splitObject tk.user
      | none => []
    | _, _, _ => []

/-- Readings that agree on the edges of the graph mean the same. -/
lemma Reading.semantics_congr {R R' : Reading} {g : Graph}
    (h : ∀ n, ∀ e ∈ g.edgesFrom n, ∀ X o, R.EdgeHolds X o e ↔ R'.EdgeHolds X o e) :
    R.semantics g = R'.semantics g := by
  have hrewrite : R.rewrite g = R'.rewrite g := by
    funext N
    ext X ⟨o, n⟩
    show R.NodeHolds g N X o n ↔ R'.NodeHolds g N X o n
    unfold Reading.NodeHolds
    cases hes : g.getEdgesFromNode n with
    | none => exact Iff.rfl
    | some es =>
      have hedge : ∀ e ∈ es, ∀ X, R.EdgeHolds X o e ↔ R'.EdgeHolds X o e :=
        fun e he X => h n e (edgesFrom_eq hes ▸ he) X o
      simp only
      split
      · exact forall₂_congr fun e he => hedge e he X
      · split
        · exact and_congr (hedge _ (by simp) X) (not_congr (hedge _ (by simp) N))
        · exact Iff.rfl
      · exact exists_congr fun e => and_congr_right fun he => hedge e he X
  unfold Reading.semantics
  rw [hrewrite]

namespace Check

/-- The default strategy without a cache, for a user that is no userset, on
    unconditioned tuples and without contextual ones. -/
structure Config.Plain (c : Config) : Prop where
  caching : c.caching = false
  otherStrategies : c.otherStrategies = false
  user : c.env.user.isObjectRelation = false
  contextual : c.env.contextualTuples = []
  tuples : ∀ t ∈ c.store.tuples, t.condition = ""

section
variable {c : Config} {o : Object} {e : Edge} {conditions : List String} {t : TupleKey}
  {relation : String}

theorem Config.Plain.userType (h : c.Plain) : c.userType = .type c.env.user.type := by
  have huser := h.user
  unfold Config.userType
  cases hu : c.env.user with
  | object o => rfl
  | wildcard t => rfl
  | userset o r =>
    rw [hu] at huser
    cases huser

/-- Unconditioned tuples pass where they are admitted. -/
lemma evaluateCondition_plain {eval} (h : t.condition = "") :
    evaluateCondition eval conditions t = .ok (decide (t.condition ∈ conditions)) := by
  unfold evaluateCondition evaluateTupleCondition
  by_cases hmem : t.condition ∈ conditions
  · rw [if_pos (by simpa using hmem), if_pos h, decide_eq_true hmem]
  · rw [if_neg (by simpa using hmem), decide_eq_false hmem]

theorem Config.Plain.ctx (h : c.Plain) (relation : String) (ut : UserType) :
    c.env.ctxTuplesByObjectID o relation ut = [] := by
  unfold RequestEnv.ctxTuplesByObjectID
  rw [h.contextual]
  rfl

/-- Every admitted tuple that an iterator reads passes. -/
theorem Config.Plain.passes (h : c.Plain)
    (ht : t ∈ c.store.tuples) (hmem : t.condition ∈ conditions) :
    c.passes conditions t = .ok true := by
  unfold Config.passes
  rw [evaluateCondition_plain (h.tuples t ht)]
  simp [hmem]

lemma conditionMatches_iff (h : conditions ≠ []) :
    Store.conditionMatches conditions t = true ↔ t.condition ∈ conditions := by
  unfold Store.conditionMatches
  cases conditions with
  | nil => exact absurd rfl h
  | cons c cs => simp

lemma mem_admitted {s : Store} :
    t ∈ s.admitted o relation conditions ↔
      t ∈ s.tuples ∧ t.object = o ∧ t.relation = relation ∧ t.condition ∈ conditions := by
  unfold Store.admitted
  rw [mem_filter, decide_eq_true_iff]

lemma readUserTuple_passes (h : c.Plain) {user filter conditions}
    (hfilter : filter = [] ∨ filter = conditions) :
    c.evaluateFound conditions (c.store.readUserTuple o relation user filter) = .ok true ↔
      ∃ t ∈ c.store.admitted o relation conditions, t.user = user := by
  unfold Store.readUserTuple
  cases hfind : c.store.tuples.find? fun t => t.object = o ∧ t.relation = relation ∧
      t.user = user ∧ Store.conditionMatches filter t with
  | none =>
    refine ⟨fun h => by simp [Config.evaluateFound] at h, ?_⟩
    rintro ⟨t, ht, huser⟩
    obtain ⟨hmem, hobj, hrel, hcond⟩ := mem_admitted.mp ht
    have hnot := find?_eq_none.mp hfind t hmem
    refine absurd ?_ hnot
    rw [decide_eq_true_iff]
    refine ⟨hobj, hrel, huser, ?_⟩
    unfold Store.conditionMatches
    rcases hfilter with rfl | rfl
    · rfl
    · simp [hcond]
  | some t =>
    have hmem := mem_of_find?_eq_some hfind
    have hprop := find?_some hfind
    obtain ⟨hobj, hrel, huser, -⟩ := of_decide_eq_true hprop
    have hcond := h.tuples t hmem
    simp only [Config.evaluateFound, evaluateCondition_plain hcond, Except.ok.injEq,
      decide_eq_true_iff]
    constructor
    · exact fun hin => ⟨t, mem_admitted.mpr ⟨hmem, hobj, hrel, hin⟩, huser⟩
    · rintro ⟨t', ht', -⟩
      obtain ⟨hmem', -, -, hin⟩ := mem_admitted.mp ht'
      rw [hcond, ← h.tuples t' hmem']
      exact hin

lemma specificType_eq_true (h : c.Plain) :
    c.specificType o e = .ok true ↔
      ∃ t ∈ c.store.admitted o e.relationDefinition.2 e.conditions, t.user = c.env.user := by
  have hctx : c.env.ctxTuplesByUserID c.env.user e.relationDefinition.2 o.type = [] := by
    unfold RequestEnv.ctxTuplesByUserID
    rw [h.contextual]
    rfl
  unfold Config.specificType
  simp only [hctx, find?_nil]
  exact readUserTuple_passes h (.inl rfl)

lemma specificTypeWildcard_eq_true (h : c.Plain) :
    c.specificTypeWildcard o e = .ok true ↔
      ∃ t ∈ c.store.admitted o e.relationDefinition.2 e.conditions,
        t.user = .wildcard c.env.user.type := by
  unfold Config.specificTypeWildcard
  simp only [h.ctx, find?_nil]
  exact readUserTuple_passes h (.inr rfl)

lemma mem_passing_read (h : c.Plain)
    (hcond : conditions ≠ []) {f : TupleKey → Pending} {p : TupleKey → Prop} [DecidablePred p]
    (hf : ∀ t, (f t).passes = c.passes conditions t ∧ (f t).request.object = splitObject t.user)
    {q} :
    q ∈ passing ((c.store.tuples.filter fun t => t.object = o ∧ t.relation = relation ∧ p t ∧
        Store.conditionMatches conditions t).map f) ↔
      q ∈ ((c.store.admitted o relation conditions).filter fun t => p t).map
        fun t => splitObject t.user := by
  rw [mem_passing]
  simp only [mem_map, mem_filter, decide_eq_true_iff, mem_admitted,
    conditionMatches_iff hcond]
  constructor
  · rintro ⟨u, ⟨t, ⟨hmem, hobj, hrel, hp, hin⟩, rfl⟩, -, rfl⟩
    exact ⟨t, ⟨⟨hmem, hobj, hrel, hin⟩, hp⟩, (hf t).2.symm⟩
  · rintro ⟨t, ⟨⟨hmem, hobj, hrel, hin⟩, hp⟩, rfl⟩
    exact ⟨f t, ⟨t, ⟨hmem, hobj, hrel, hp, hin⟩, rfl⟩, (hf t).1.trans (h.passes hmem hin), (hf t).2⟩

/-- The resolver reads what the store says. -/
lemma edgeHolds_reading (h : c.Plain) (hg : c.graph.WellBuilt c.userType c.wild) {n}
    (he : e ∈ c.graph.edgesFrom n) {X} :
    c.reading.EdgeHolds X o e ↔ (c.store.reading c.graph c.env.user).EdgeHolds X o e := by
  have hut := h.userType
  cases hrw : e.isRewrite with
  | true => rw [Reading.edgeHolds_rewrite hrw, Reading.edgeHolds_rewrite hrw]
  | false =>
    rw [Reading.edgeHolds_tuples hrw, Reading.edgeHolds_tuples hrw]
    rcases isRewrite_eq_false.mp hrw with hd | hd
    · cases ht : e.target with
      | specificType t =>
        simp [Config.reading, Store.reading, hd, ht, hut, specificType_eq_true h, Config.wild]
      | specificTypeWildcard t =>
        simp only [Config.reading, Store.reading, hd, ht, hut, specificTypeWildcard_eq_true h,
          UserType.type.injEq, not_mem_nil, false_and, exists_false, or_false]
        exact and_congr_right fun heq => by rw [heq]
      | specificTypeAndRelation t r =>
        have hchildren : ∀ q, q ∈ c.reading.children o e ↔
            q ∈ (c.store.reading c.graph c.env.user).children o e := by
          intro q
          simp only [Config.reading, Store.reading, hd, ht, hut, reduceCtorEq, false_and, if_false,
            Config.usersetTuples, h.ctx, nil_append, Store.readUsersetTuples]
          exact mem_passing_read h (hg.conditions n e he) fun t => ⟨rfl, rfl⟩
        simp only [hchildren]
        refine or_congr_left ?_
        simp [Config.reading, Store.reading, hd, ht, hut]
      | operatorNode op id | logicalDirectGrouping id | logicalTTUGrouping id =>
        simp [Config.reading, Store.reading, hd, ht]
    · have hchildren : ∀ q, q ∈ c.reading.children o e ↔
          q ∈ (c.store.reading c.graph c.env.user).children o e := by
        intro q
        simp only [Config.reading, Store.reading, hd]
        unfold Config.ttuTuples
        cases hts : e.tuplesetRelation with
        | none => simp [passing]
        | some tupleset =>
          cases ht : e.target with
          | specificTypeAndRelation t r =>
            simp only
            cases hedge : c.graph.getDirectEdgeFromNodeForUserType tupleset t with
            | none => simp [passing]
            | some te =>
              have hte : te.conditions ≠ [] := by
                unfold Graph.getDirectEdgeFromNodeForUserType at hedge
                obtain ⟨es, hes, hfind⟩ := Option.bind_eq_some_iff.mp hedge
                exact hg.conditions _ te
                  (edgesFrom_eq hes ▸ mem_of_find?_eq_some hfind)
              simp only [Option.map_some, Option.getD_some, h.ctx, nil_append, Store.read]
              exact mem_passing_read h hte fun t => ⟨rfl, rfl⟩
          | _ => simp [passing]
      simp only [hchildren]
      refine or_congr_left ?_
      simp [Config.reading, Store.reading, hd]

end

/-! ## Checks -/

section
variable {c : Config} {r : Request}

/-- Without a cache and with the default strategy only, nothing is to be assumed of
    stored and other answers. -/
lemma Config.Plain.steady (h : c.Plain) {S} {x : List Visited × Proc × Turn}
    (hkeeps : keeps x = true) (hfollows : followsAll c x = true) : Steady c S x := by
  refine ⟨hkeeps, hfollows, ?_, ?_⟩
  · unfold Settles
    split
    · exact fun hcaching => by rw [h.caching] at hcaching; cases hcaching
    · trivial
  · unfold StrategiesAgree
    split
    · exact fun hother => by rw [h.otherStrategies] at hother; cases hother
    · exact fun hother => by rw [h.otherStrategies] at hother; cases hother
    · trivial

/-- For every well-built graph, every store of unconditioned tuples, every user that is
    no userset and every schedule of the goroutines of a check by the default strategy
    without a cache, in which no error arises, no tuple is dropped for the query of another
    and no recursive edge is left out:

    * the check answers true exactly when the query is in the least fixed point of
      the rewrites;
    * until it answers some goroutine can go on;
    * every schedule ends. -/
theorem resolveCheck_iff_semantics (c : Config) (r : Request) (hplain : c.Plain)
    (hgraph : c.graph.WellBuilt c.userType c.wild) (hstart : (c.resolveCheck r).ok = true) :
    (∀ acts σ, Lts.run c.advance (c.start [] r) acts = some σ →
      Lts.Meets c.advance (fun σ a => c.quiet σ a = true ∧
        keeps (focus σ.1.visited σ.2 a) = true ∧ followsAll c (focus σ.1.visited σ.2 a) = true)
        (c.start [] r) acts →
      (∀ b, σ.2.result = some b →
        (b = true ↔ r.query ∈ (c.store.reading c.graph c.env.user).semantics c.graph)) ∧
      (σ.2.result = none → ∃ a σ', c.advance σ a = some σ')) ∧
    ∃ bound, ∀ acts σ, Lts.run c.advance (c.start [] r) acts = some σ → acts.length ≤ bound := by
  have hc := meaning_semantics hgraph
  have hcache : ∀ cache, CacheOk c (c.reading.semantics c.graph) cache := by
    intro cache o e b _ hcached
    simp [Config.isCached, hplain.caching] at hcached
  have hsem : (c.store.reading c.graph c.env.user).semantics c.graph =
      c.reading.semantics c.graph :=
    Reading.semantics_congr fun n e he X o => (edgeHolds_reading hplain hgraph he).symm
  refine ⟨fun acts σ hrun hmeets => ?_, _, fun acts σ hrun =>
    run_start_length_le hgraph.marked hgraph.flattens hgraph.recursive hrun⟩
  have hinv : CheckOk c (c.reading.semantics c.graph) r σ := by
    refine Lts.run_invariant (fun σ a σ' h hok hstep => ?_) (checkOk_start hc hstart) hmeets hrun
    obtain ⟨hquiet, hkeeps, hfollows⟩ := hok
    rw [Config.quiet, hstep] at hquiet
    exact (checkOk_advance hc h (hcache _) (hplain.steady hkeeps hfollows) hstep hquiet).1
  refine ⟨fun b hres => ?_, fun hres => ?_⟩
  · rw [hsem]
    exact hinv.answer hc hres
  · obtain ⟨a, out, hstep⟩ := exists_step (c := c) (s := σ.1) hinv.ok hres
    exact ⟨a, _, by rw [Config.advance, hstep]; rfl⟩

end

-- A model in which the relations of a folder depend on those of its parent.

private def folder (id : String) : Object := ⟨"folder", id⟩

private def folderRelation (r : String) : NodeKey := .specificTypeAndRelation "folder" r

private def folderUnion (r : String) : NodeKey := .operatorNode .union r

private def cyclicEdge (edgeType : EdgeType) (source target : NodeKey) (r : String) : Edge where
  edgeType
  source
  target
  relationDefinition := ("folder", r)
  tuplesetRelation := if edgeType = .ttuEdge then some ("folder", "parent") else none
  conditions := [""]
  recursiveRelation := none
  tupleCycle := true
  wildcards := []
  weights := [(.type "user", 2147483647)]

private def directEdge (source : NodeKey) (r t : String) : Edge where
  edgeType := .directEdge
  source
  target := .specificType t
  relationDefinition := ("folder", r)
  tuplesetRelation := none
  conditions := [""]
  recursiveRelation := none
  tupleCycle := false
  wildcards := []
  weights := [(.type t, 1)]

private def cyclicNode (k : NodeKey) : Node := ⟨k, none, true, [], [(.type "user", 2147483647)]⟩

/-- `viewer: editor from parent or owner from parent`,
    `editor: [user] or viewer from parent`, `owner: [user] or viewer from parent`. -/
private def sharing : Graph where
  nodes := [cyclicNode (folderRelation "viewer"), cyclicNode (folderUnion "viewer"),
    cyclicNode (folderRelation "editor"), cyclicNode (folderUnion "editor"),
    cyclicNode (folderRelation "owner"), cyclicNode (folderUnion "owner"),
    ⟨folderRelation "parent", none, false, [], [(.type "folder", 1)]⟩]
  edges := [
    (folderRelation "viewer",
      [cyclicEdge .rewriteEdge (folderRelation "viewer") (folderUnion "viewer") "viewer"]),
    (folderUnion "viewer",
      [cyclicEdge .ttuEdge (folderUnion "viewer") (folderRelation "editor") "viewer",
        cyclicEdge .ttuEdge (folderUnion "viewer") (folderRelation "owner") "viewer"]),
    (folderRelation "editor",
      [cyclicEdge .rewriteEdge (folderRelation "editor") (folderUnion "editor") "editor"]),
    (folderUnion "editor", [directEdge (folderUnion "editor") "editor" "user",
      cyclicEdge .ttuEdge (folderUnion "editor") (folderRelation "viewer") "editor"]),
    (folderRelation "owner",
      [cyclicEdge .rewriteEdge (folderRelation "owner") (folderUnion "owner") "owner"]),
    (folderUnion "owner", [directEdge (folderUnion "owner") "owner" "user",
      cyclicEdge .ttuEdge (folderUnion "owner") (folderRelation "viewer") "owner"]),
    (folderRelation "parent", [directEdge (folderRelation "parent") "parent" "folder"])]

private def sharingLevel : NodeKey → Nat
  | .specificType _ => 0
  | _ => 1

/-- Folder 2 is the parent of folder 1, and anne owns it. -/
private def sharingCheck : Config where
  graph := sharing
  store := {
    tuples := [⟨folder "1", "parent", .object (folder "2"), "", ""⟩,
      ⟨folder "2", "owner", .object ⟨"user", "anne"⟩, "", ""⟩]
    unique := by decide }
  env := ⟨"", "", .object ⟨"user", "anne"⟩, [], .minimizeLatency, 0⟩
  eval := fun _ => .ok true
  caching := false
  otherStrategies := false

private lemma plain_sharingCheck : sharingCheck.Plain :=
  ⟨rfl, rfl, rfl, rfl, by decide⟩

private lemma wellBuilt_sharing :
    sharingCheck.graph.WellBuilt sharingCheck.userType sharingCheck.wild :=
  have h : sharing.BuiltBy (.type "user") false sharingLevel :=
    ⟨by decide, by decide, by decide, by decide, by decide, by decide, by decide⟩
  wellBuilt_of_builtBy h

/-- Look the edges of the owners of folder 2 up, start both, and read the tuple of anne. -/
private def ownerSchedule : List Turn :=
  [.go, .down .go, .down .go, .down .go, .down (.left (.down .go)), .down (.left .go)]

theorem resolveCheck_iff_semantics_owner :
    ((Lts.run sharingCheck.advance (sharingCheck.start [] ⟨folder "2", "owner"⟩) ownerSchedule).bind
      fun σ => σ.2.result) = some true ∧
    (folder "2", folderRelation "owner") ∈
      (sharingCheck.store.reading sharingCheck.graph sharingCheck.env.user).semantics
        sharingCheck.graph := by
  have hanswer : ((Lts.run sharingCheck.advance (sharingCheck.start [] ⟨folder "2", "owner"⟩)
      ownerSchedule).bind fun σ => σ.2.result) = some true := by decide
  obtain ⟨σ, hrun, hres⟩ := Option.bind_eq_some_iff.mp hanswer
  have hcheck : Lts.check sharingCheck.advance (fun σ a => sharingCheck.quiet σ a &&
      (keeps (focus σ.1.visited σ.2 a) && followsAll sharingCheck (focus σ.1.visited σ.2 a)))
        (sharingCheck.start [] ⟨folder "2", "owner"⟩) ownerSchedule = true := by decide
  have hmeets := (Lts.meets_of_check hcheck).mono fun σ a h =>
    (Bool.and_eq_true_iff.mp h).imp_right Bool.and_eq_true_iff.mp
  have h := resolveCheck_iff_semantics sharingCheck ⟨folder "2", "owner"⟩ plain_sharingCheck
    wellBuilt_sharing rfl
  exact ⟨hanswer, ((h.1 _ σ hrun hmeets).1 true hres).mp rfl⟩

/-- The edge to the editors of the parent takes folder 2, then the edge to its owners
    finds it visited; the editors of folder 2 do not include anne. -/
private def suppressingSchedule : List Turn :=
  [.go, .down .go, .down .go, .down .go,
    .down (.left (.down .go)), .down (.left (.down .go)),
    .down (.right (.left (.down .go))), .down (.right (.left (.down .go))),
    .down (.right (.left .go)),
    .down (.left (.down (.down (.left .go)))), .down (.left (.down (.down (.left .go)))),
    .down (.left (.down (.down (.left .go)))), .down (.left (.down (.down (.left .go)))),
    .down (.left (.down (.down (.left (.left (.down .go)))))),
    .down (.left (.down (.down (.left (.left .go))))),
    .down (.left (.down (.down (.left (.right (.left (.down .go))))))),
    .down (.left (.down (.down (.left (.right (.left .go)))))),
    .down (.left .go)]

/-- The owner of the parent is a viewer, but the check answers false. -/
theorem resolveCheck_suppressed :
    sharingCheck.Plain ∧ sharingCheck.graph.WellBuilt sharingCheck.userType sharingCheck.wild ∧
    Lts.Meets sharingCheck.advance (fun σ a => sharingCheck.quiet σ a = true)
      (sharingCheck.start [] ⟨folder "1", "viewer"⟩) suppressingSchedule ∧
    ((Lts.run sharingCheck.advance (sharingCheck.start [] ⟨folder "1", "viewer"⟩)
      suppressingSchedule).bind fun σ => σ.2.result) = some false ∧
    (folder "1", folderRelation "viewer") ∈
      (sharingCheck.store.reading sharingCheck.graph sharingCheck.env.user).semantics
        sharingCheck.graph := by
  have hcheck : Lts.check sharingCheck.advance sharingCheck.quiet
      (sharingCheck.start [] ⟨folder "1", "viewer"⟩) suppressingSchedule = true := by decide
  refine ⟨plain_sharingCheck, wellBuilt_sharing, Lts.meets_of_check hcheck, by decide, ?_⟩
  have hS : Stratified.IsModel
      ((sharingCheck.store.reading sharingCheck.graph sharingCheck.env.user).rewrite
        sharingCheck.graph) _ :=
    Reading.isModel_semantics fun n hn => wellBuilt_sharing.marked.barrier n
      (isBarrier_of_isExclusion hn)
  -- anne owns folder 2, and its owners are viewers of folder 1
  have howns : (folder "2", folderUnion "owner") ∈ _ := (Reading.mem_union hS rfl).mpr
    ⟨directEdge (folderUnion "owner") "owner" "user", by decide, .inl ⟨rfl, rfl,
      ⟨folder "2", "owner", .object ⟨"user", "anne"⟩, "", ""⟩, by decide, rfl⟩⟩
  have howner : (folder "2", folderRelation "owner") ∈ _ := (Reading.mem_union hS rfl).mpr
    ⟨cyclicEdge .rewriteEdge (folderRelation "owner") (folderUnion "owner") "owner",
      by decide, howns⟩
  have hviews : (folder "1", folderUnion "viewer") ∈ _ := (Reading.mem_union hS rfl).mpr
    ⟨cyclicEdge .ttuEdge (folderUnion "viewer") (folderRelation "owner") "viewer", by decide,
      .inr ⟨folder "2", by decide, howner⟩⟩
  exact (Reading.mem_union hS rfl).mpr
    ⟨cyclicEdge .rewriteEdge (folderRelation "viewer") (folderUnion "viewer") "viewer", by decide,
      hviews⟩

end Check
end OpenFGA
