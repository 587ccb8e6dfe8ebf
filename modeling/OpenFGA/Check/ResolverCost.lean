/-
  What an evaluation can cost.

  `cost` bounds the steps an evaluation can still take, but for what the entries of
  visited maps pay.  Outside regions evaluations descend in the graph: a node that
  is evaluated without a visited map lies on no cycle or gets a region of its own, so
  the nodes below it have a lower rank.  Within a region an evaluation is only started
  for a user that is new to the visited map, and there are no more users than tuples.

  There is one lemma for each function of the resolver: what it starts costs less than
  the call (`Within`).
-/

import OpenFGA.Check.ResolverStart

namespace OpenFGA

namespace Graph

/-- How many nodes with edges can be reached. -/
noncomputable def rank (g : Graph) (n : NodeKey) : Nat := (g.reachable (fun _ => True) n).card

variable {g : Graph} {n m : NodeKey} {e : Edge} {ut : UserType}

lemma rank_le (h : g.Reaches n m) : g.rank m ≤ g.rank n :=
  Finset.card_le_card (reachable_subset h)

lemma rank_lt (hsource : n ∈ g.sources) (hto : g.Reaches n m) (hback : ¬ g.Reaches m n) :
    g.rank m < g.rank n := card_reachable_lt hsource trivial hto hback

lemma rank_target_le (he : e ∈ g.edgesFrom n) : g.rank e.target ≤ g.rank n :=
  rank_le (reaches_of_mem he)

lemma rank_target_lt (he : e ∈ g.edgesFrom n) (hback : ¬ g.Reaches e.target n) :
    g.rank e.target < g.rank n := rank_lt (mem_sources he) (reaches_of_mem he) hback

lemma reaches_of_handsOn (h : Relation.ReflTransGen g.HandsOn n m) : g.Reaches n m := by
  refine Relation.ReflTransGen.mono ?_ _ _ h
  rintro k k' ⟨e, he, -, ht⟩
  exact ⟨e, he, ht⟩

/-- The edges of a node on no cycle lead below it, also after flattening. -/
lemma rank_flatEdge_lt {wild} (hn : ¬ g.OnCycle n)
    (h : g.FlatEdge ut wild n e) : g.rank e.target < g.rank n := by
  obtain ⟨m, hlink, he, -, -⟩ := h
  have hpath := reaches_of_handsOn (handsOn_of_flatLink hlink)
  have hsource : n ∈ g.sources := by
    rcases Relation.ReflTransGen.cases_head hlink with rfl | ⟨k, ⟨e', he', -⟩, -⟩
    · exact mem_sources he
    · exact mem_sources he'
  refine rank_lt hsource (hpath.trans (reaches_of_mem he)) fun hback => hn ?_
  exact (Relation.TransGen.tail' hpath ⟨e, he, rfl⟩).trans_left hback

/-- The number of edges of a node, also after flattening. -/
def degree (g : Graph) (ut : UserType) (wild : Bool) (n : NodeKey) : Nat :=
  max (g.edgesFrom n).length (max ((g.flattenNode n ut wild false).getD []).length
    ((g.flattenNode n ut wild true).getD []).length)

/-- No node has more edges. -/
def width (g : Graph) (ut : UserType) (wild : Bool) : Nat := g.sources.sup (g.degree ut wild)

lemma length_edges_le {wild es} (h : g.getEdgesFromNode n = some es) :
    es.length ≤ g.width ut wild := by
  have hle : g.degree ut wild n ≤ g.width ut wild := Finset.le_sup (mem_sources_of_some h)
  refine le_trans ?_ hle
  rw [degree, edgesFrom_eq h]
  exact le_max_left _ _

lemma length_flatten_le {wild recursivePath es}
    (h : g.flattenNode n ut wild recursivePath = some es) : es.length ≤ g.width ut wild := by
  have hsource : n ∈ g.sources := by
    unfold flattenNode fuel at h
    simp only [flattenAux, Option.bind_eq_bind, Option.bind_eq_some_iff] at h
    obtain ⟨es₀, hes₀, -⟩ := h
    exact mem_sources_of_some hes₀
  have hle : g.degree ut wild n ≤ g.width ut wild := Finset.le_sup hsource
  refine le_trans ?_ hle
  rw [degree]
  cases recursivePath with
  | false => simp [h]
  | true => simp [h]

end Graph

namespace Check

open OpenFGA.Graph

/-! ## Tuples -/

/-- The users of all tuples. -/
def Config.users (c : Config) : List User :=
  (c.env.contextualTuples ++ c.store.tuples).map (·.user)

lemma length_insertAllSorted_le (key : TupleKey → String) (ts : List TupleKey) :
    (insertAllSorted key ts).length ≤ ts.length := by
  have hone : ∀ t slice, (insertSortedTuple key t slice).length ≤ slice.length + 1 := by
    intro t slice
    induction slice with
    | nil => simp [insertSortedTuple]
    | cons x xs ih =>
      simp only [insertSortedTuple]
      split_ifs
      · simpa using ih
      · simp
      · simp
  have hfold : ∀ (ts slice : List TupleKey),
      (ts.foldl (fun slice t => insertSortedTuple key t slice) slice).length ≤
        slice.length + ts.length := by
    intro ts
    induction ts with
    | nil => simp
    | cons t ts ih =>
      intro slice
      have h₁ := ih (insertSortedTuple key t slice)
      have h₂ := hone t slice
      simp only [List.foldl_cons, List.length_cons]
      omega
  simpa [insertAllSorted] using hfold ts []

section
variable {c : Config} {o : Object} {e : Edge}

/-- The contextual and the stored tuples that a read yields are tuples of the request
    and of the store. -/
lemma reads_le {object relation userType} {p : TupleKey → Bool} :
    (c.env.ctxTuplesByObjectID object relation userType ++ c.store.tuples.filter p).length ≤
        c.users.length ∧
      ∀ t ∈ c.env.ctxTuplesByObjectID object relation userType ++ c.store.tuples.filter p,
        t.user ∈ c.users := by
  constructor
  · have hctx := length_insertAllSorted_le (·.user.toString) (c.env.contextualTuples.filter fun t =>
      t.object = object ∧ t.relation = relation ∧ t.user.userType = userType)
    have hfilter := List.length_filter_le (fun t : TupleKey =>
      decide (t.object = object ∧ t.relation = relation ∧ t.user.userType = userType))
        c.env.contextualTuples
    have hstore := List.length_filter_le p c.store.tuples
    rw [List.length_append, Config.users, List.length_map, List.length_append]
    unfold RequestEnv.ctxTuplesByObjectID
    omega
  · intro t ht
    refine List.mem_map.mpr ⟨t, ?_, rfl⟩
    rcases List.mem_append.mp ht with ht | ht
    · exact List.mem_append_left _ (List.mem_filter.mp (mem_of_mem_insertAllSorted ht)).1
    · exact List.mem_append_right _ (List.mem_filter.mp ht).1

lemma usersetTuples_le {relation} :
    (c.usersetTuples o relation e).length ≤ c.users.length ∧
      ∀ t ∈ c.usersetTuples o relation e, t.user ∈ c.users := by
  unfold Config.usersetTuples
  split
  · unfold Store.readUsersetTuples
    obtain ⟨hlen, husers⟩ := reads_le (c := c)
    refine ⟨by rw [List.length_map]; exact hlen, fun t ht => ?_⟩
    obtain ⟨tk, htk, rfl⟩ := List.mem_map.mp ht
    exact husers tk htk
  · exact ⟨Nat.zero_le _, nofun⟩

lemma ttuTuples_le {ts} (h : c.ttuTuples o e = some ts) :
    ts.length ≤ c.users.length ∧ ∀ t ∈ ts, t.user ∈ c.users := by
  unfold Config.ttuTuples at h
  split at h
  · obtain ⟨te, -, rfl⟩ := Option.map_eq_some_iff.mp h
    unfold Store.read
    obtain ⟨hlen, husers⟩ := reads_le (c := c)
    refine ⟨by rw [List.length_map]; exact hlen, fun t ht => ?_⟩
    obtain ⟨tk, htk, rfl⟩ := List.mem_map.mp ht
    exact husers tk htk
  · cases h

end

/-! ## Costs -/

namespace Config

variable (c : Config)

/-- The most edges a node has. -/
def width : Nat := c.graph.width c.userType c.wild

/-- A union that is passed a visited map, where edges below cost `below`. -/
def regionCost (below : Nat) : Nat :=
  (c.width + 1) * (below + c.users.length + 8) + c.users.length + 8

/-- A union that is passed none: it may get a region, with an evaluation for each user. -/
def unionCost (below : Nat) : Nat := (c.users.length + 1) * c.regionCost below + 1

/-- An edge to a node whose edges cost `below`. -/
def edgeCost (below : Nat) : Nat :=
  (c.users.length + 1) * (c.unionCost below + 1) + (c.width + 1) * below + 3

/-- An edge to a node of a rank less than `r`. -/
def lower : Nat → Nat
  | 0 => 0
  | r + 1 => c.edgeCost (lower r)

lemma le_edgeCost (below : Nat) : below ≤ c.edgeCost below := by
  have h : 1 * below ≤ (c.width + 1) * below := Nat.mul_le_mul_right _ (by omega)
  unfold edgeCost
  omega

lemma lower_mono {r r'} (h : r ≤ r') : c.lower r ≤ c.lower r' := by
  induction h with
  | refl => exact Nat.le_refl _
  | step _ ih => exact ih.trans (c.le_edgeCost _)

end Config

open Config

section
variable (c : Config)

/-- What the evaluation of an edge may cost in a region of rank `R`. -/
noncomputable def edgeBudget (R : Nat) (visited : Bool) (e : Edge) : Nat :=
  if visited then c.lower R + c.users.length + 3 else c.lower (c.graph.rank e.target + 1)

/-- What the tuple of an iterator may cost, beyond what new users pay for. -/
noncomputable def tupleBudget (visited : Bool) (t : Pending) : Nat :=
  if visited then 1 else c.unionCost (c.lower (c.graph.rank t.request.node)) + 1

/-- A bound on the steps of an evaluation in a region of rank `R`. -/
noncomputable def cost (R : Nat) : Proc → Nat
  | .done _ => 0
  | .failed => 0
  | .union _ n visited =>
    if visited then c.regionCost (c.lower R) else c.unionCost (c.lower (c.graph.rank n))
  | .edges _ todo evaluations visited =>
    (todo.map fun e => edgeBudget c R visited e + 5).sum +
      (evaluations.map fun e => edgeBudget c R visited e + 4).sum + 1
  | .edge _ e visited => edgeBudget c R visited e
  | .recursiveEdge _ _ _ _ => c.users.length + 5
  | .recursive _ _ _ _ => c.users.length + 2
  | .store _ _ _ p => cost R p + 1
  | .or p q => cost R p + cost R q
  | .and p q => cost R p + cost R q
  | .diff p q => cost R p + cost R q
  | .iter visited rest _ _ p => (rest.map (tupleBudget c visited)).sum + 1 + cost R p
  | .region root visited p =>
    (c.users.length + 1 - visited.length) * c.regionCost (c.lower (c.graph.rank root.2)) +
      cost (c.graph.rank root.2) p

/-- The edge may be evaluated in a region of rank `R`. -/
def EdgeFits (R : Nat) (visited : Bool) (e : Edge) : Prop :=
  ∃ n, e ∈ c.graph.edgesFrom n ∧
    (visited = true → e.canFlatten = false ∧ c.graph.rank n ≤ R) ∧
    (e.canFlatten = true → ¬ c.graph.OnCycle n)

/-- The keys of a visited map are different, and but for one the users of tuples. -/
def KeysOk (visited : List Visited) : Prop :=
  (visited.map (·.key)).Nodup ∧ ∃ x, ∀ v ∈ visited, v.key = x ∨ v.key ∈ c.users

/-- The evaluation may run in a region of rank `R`. -/
def Fits (R : Nat) : Proc → Prop
  | .union _ n visited =>
    if visited then c.graph.rank n ≤ R else IsRelation n ∨ ¬ c.graph.OnCycle n
  | .edges _ todo evaluations visited => ∀ e ∈ todo ++ evaluations, EdgeFits c R visited e
  | .edge _ e visited => EdgeFits c R visited e
  | .recursiveEdge _ e visited _ => visited = true ∧ c.graph.rank e.target ≤ R
  | .recursive _ e visited _ => visited = true ∧ c.graph.rank e.target ≤ R
  | .store _ _ _ p => Fits R p
  | .or p q => Fits R p ∧ Fits R q
  | .and p q => Fits R p ∧ Fits R q
  | .diff p q => Fits R p ∧ Fits R q
  | .iter visited rest _ _ p => Fits R p ∧ (∀ t ∈ rest, t.user ∈ c.users) ∧
      (visited = true → ∀ t ∈ rest, c.graph.rank t.request.node ≤ R)
  | .region root visited p => KeysOk c visited ∧ Fits (c.graph.rank root.2) p
  | _ => True

/-- The evaluation fits and costs less than `b`. -/
def Within (R b : Nat) (p : Proc) : Prop := Fits c R p ∧ cost c R p < b

end

section
variable {c : Config} {R : Nat} {r : Request} {e : Edge} {visited : Bool}

lemma sum_map_le {α : Type} {l : List α} {f : α → Nat} {k} (h : ∀ a ∈ l, f a ≤ k) :
    (l.map f).sum ≤ l.length * k := by
  have := List.sum_le_card_nsmul (l.map f) k (by simpa using h)
  simpa using this

lemma within_done {b k} (hk : 0 < k) : Within c R k (.done b) := ⟨trivial, hk⟩

lemma within_failed {k} (hk : 0 < k) : Within c R k .failed := ⟨trivial, hk⟩

lemma Within.mono {k k' p} (h : Within c R k p) (hk : k ≤ k') : Within c R k' p :=
  ⟨h.1, h.2.trans_le hk⟩

section
variable {ts : List Pending} {n : NodeKey}
  (hts : ts.length ≤ c.users.length ∧ ∀ t ∈ ts, t.user ∈ c.users)
  (hnode : ∀ t ∈ ts, t.request.node = n)
include hts hnode

/-- Reading tuples in a region. -/
lemma within_execute_visited (hn : c.graph.rank n ≤ R) :
    Within c R (c.users.length + 2) (execute true ts) := by
  refine ⟨⟨trivial, hts.2, fun _ t ht => by rw [hnode t ht]; exact hn⟩, ?_⟩
  have hsum : (ts.map (tupleBudget c true)).sum ≤ ts.length * 1 :=
    sum_map_le fun t _ => by simp [tupleBudget]
  have hlen := hts.1
  simp only [execute, cost]
  omega

/-- Reading tuples outside the region. -/
lemma within_execute :
    Within c R (c.lower (c.graph.rank n + 1)) (execute false ts) := by
  refine ⟨⟨trivial, hts.2, nofun⟩, ?_⟩
  have hsum : (ts.map (tupleBudget c false)).sum ≤
      ts.length * (c.unionCost (c.lower (c.graph.rank n)) + 1) :=
    sum_map_le fun t ht => by rw [tupleBudget, hnode t ht]; simp
  have hlen : ts.length * (c.unionCost (c.lower (c.graph.rank n)) + 1) ≤
      (c.users.length + 1) * (c.unionCost (c.lower (c.graph.rank n)) + 1) :=
    Nat.mul_le_mul_right _ (hts.1.trans (Nat.le_succ _))
  simp only [execute, cost, lower, edgeCost]
  omega

end

/-- What the evaluation of an edge without a visited map may cost is less than the
    budget of the edge. -/
lemma budget_le (hbelow : visited = true → c.graph.rank e.target < R) :
    c.lower (c.graph.rank e.target + 1) ≤ edgeBudget c R visited e := by
  unfold edgeBudget
  cases visited with
  | false => exact Nat.le_refl _
  | true =>
    have hle : c.lower (c.graph.rank e.target + 1) ≤ c.lower R := c.lower_mono (hbelow rfl)
    simp only [if_true]
    omega

section
variable (hg : c.graph.Marked) {n : NodeKey}

include hg

/-- The edges of an intersection or exclusion fit outside all regions. -/
lemma edgeFits_barrier (hn : IsBarrier n) (he : e ∈ c.graph.edgesFrom n) :
    EdgeFits c R false e ∧ edgeBudget c R false e ≤ c.lower (c.graph.rank n) := by
  have hcycle := hg.barrier n hn
  refine ⟨⟨n, he, nofun, fun _ => hcycle⟩, ?_⟩
  have hlt := rank_target_lt he (not_reaches_of_not_onCycle he hcycle)
  exact c.lower_mono hlt

lemma within_and_edges {es : List Edge} (hn : IsBarrier n)
    (hes : ∀ e ∈ es, e ∈ c.graph.edgesFrom n) :
    Fits c R (es.foldr (fun e p => .and (.edge r e false) p) (.done true)) ∧
      cost c R (es.foldr (fun e p => .and (.edge r e false) p) (.done true)) ≤
        es.length * c.lower (c.graph.rank n) := by
  induction es with
  | nil => exact ⟨trivial, Nat.zero_le _⟩
  | cons e es ih =>
    obtain ⟨hfits, hcost⟩ := ih fun e' he' => hes e' (List.mem_cons_of_mem _ he')
    obtain ⟨hedge, hbudget⟩ := edgeFits_barrier (R := R) hg hn (hes e List.mem_cons_self)
    refine ⟨⟨hedge, hfits⟩, ?_⟩
    simp only [List.foldr_cons, cost, List.length_cons, Nat.succ_mul]
    omega

lemma within_barrier {p}
    (hp : (∃ id, n = .operatorNode .intersection id ∧ p = c.resolveIntersection r n) ∨
      ∃ id, n = .operatorNode .exclusion id ∧ p = c.resolveExclusion r n) :
    Within c R (c.lower (c.graph.rank n + 1)) p := by
  have hpos : 0 < c.lower (c.graph.rank n + 1) := by
    simp only [lower, edgeCost]
    omega
  have hbudget : ∀ k, k ≤ c.width → k * c.lower (c.graph.rank n) <
      c.lower (c.graph.rank n + 1) := by
    intro k hk
    have h : k * c.lower (c.graph.rank n) ≤ (c.width + 1) * c.lower (c.graph.rank n) :=
      Nat.mul_le_mul_right _ (by omega)
    simp only [lower, edgeCost]
    omega
  rcases hp with ⟨id, hn, rfl⟩ | ⟨id, hn, rfl⟩
  · have hbar : IsBarrier n := by rw [hn]; trivial
    unfold Config.resolveIntersection
    split
    · exact within_failed hpos
    next es hes =>
      split_ifs
      · exact within_done hpos
      · exact within_failed hpos
      · have hmem : ∀ e ∈ es, e ∈ c.graph.edgesFrom n := fun e he => edgesFrom_eq hes ▸ he
        obtain ⟨hfits, hcost⟩ := within_and_edges (r := r) (R := R) hg hbar hmem
        exact ⟨hfits, hcost.trans_lt (hbudget _ (length_edges_le hes))⟩
  · have hbar : IsBarrier n := by rw [hn]; trivial
    unfold Config.resolveExclusion
    split
    next base subtract rest hes =>
      have hmem : ∀ e ∈ base :: subtract :: rest, e ∈ c.graph.edgesFrom n :=
        fun e he => edgesFrom_eq hes ▸ he
      obtain ⟨hbase, hb⟩ := edgeFits_barrier (R := R) hg hbar (hmem base (by simp))
      obtain ⟨hsub, hs⟩ := edgeFits_barrier (R := R) hg hbar (hmem subtract (by simp))
      have hlen : 2 ≤ c.width := by
        have hle : (base :: subtract :: rest).length ≤ c.width := length_edges_le hes
        simp only [List.length_cons] at hle
        omega
      have htwo := hbudget 2 hlen
      split_ifs
      · exact within_failed hpos
      · exact within_failed hpos
      · refine ⟨⟨hbase, trivial⟩, ?_⟩
        simp only [cost]
        omega
      · refine ⟨⟨hbase, hsub⟩, ?_⟩
        simp only [cost]
        omega
    · exact within_failed hpos

lemma within_resolveEdge (hflat : c.graph.Flattens) (he : EdgeFits c R visited e) :
    Within c R (edgeBudget c R visited e) (c.resolveEdge r e visited) := by
  have hpos : 0 < edgeBudget c R visited e := by
    unfold edgeBudget
    split
    · omega
    · simp only [lower, edgeCost]
      omega
  obtain ⟨n, hn, hvisited, hcycle⟩ := he
  -- an edge that is not passed the map leads out of the region
  have hout : (visited && e.isCyclical) = false → visited = true → c.graph.rank e.target < R := by
    intro hcyc hv
    rw [hv, Bool.true_and] at hcyc
    have hback : ¬ c.graph.Reaches e.target n := fun h => by
      rw [hg.edge n e hn h] at hcyc
      cases hcyc
    exact (rank_target_lt hn hback).trans_le (hvisited hv).2
  have hexecute : ∀ ts : List Pending,
      (ts.length ≤ c.users.length ∧ ∀ t ∈ ts, t.user ∈ c.users) →
      (∀ t ∈ ts, t.request.node = e.target) →
      Within c R (edgeBudget c R visited e) (execute (visited && e.isCyclical) ts) := by
    intro ts hts hnode
    cases hcyc : visited && e.isCyclical with
    | false => exact (within_execute hts hnode).mono (budget_le (hout hcyc))
    | true =>
      obtain ⟨hv, -⟩ := Bool.and_eq_true_iff.mp hcyc
      have hrank := (rank_target_le hn).trans (hvisited hv).2
      refine (within_execute_visited hts hnode hrank).mono ?_
      rw [edgeBudget, if_pos hv]
      omega
  have hunion : e.canFlatten = true → Within c R (edgeBudget c R visited e)
      (.union r e.target (visited && e.isCyclical)) := by
    intro h
    have hv : visited = false := by
      cases hv : visited with
      | false => rfl
      | true =>
        rw [(hvisited hv).1] at h
        cases h
    subst hv
    refine ⟨?_, ?_⟩
    · show IsRelation e.target ∨ ¬ c.graph.OnCycle e.target
      have htarget := hflat n e hn h
      cases ht : e.target with
      | specificTypeAndRelation t rel => exact .inl trivial
      | specificType t | specificTypeWildcard t => rw [ht] at htarget; cases htarget
      | operatorNode op id | logicalDirectGrouping id | logicalTTUGrouping id =>
        right
        rw [← ht]
        exact hg.not_onCycle hn (by rw [ht]; trivial) (hcycle h)
    · have hle : 1 * (c.unionCost (c.lower (c.graph.rank e.target)) + 1) ≤
          (c.users.length + 1) * (c.unionCost (c.lower (c.graph.rank e.target)) + 1) :=
        Nat.mul_le_mul_right _ (by omega)
      simp only [cost, edgeBudget, Bool.false_and, Bool.false_eq_true, if_false, lower,
        edgeCost]
      omega
  -- intersections and exclusions lie on no cycle
  have hbarrier : IsBarrier e.target → ∀ p, Within c R (c.lower (c.graph.rank e.target + 1)) p →
      Within c R (edgeBudget c R visited e) p := by
    intro hbar p hp
    refine hp.mono (budget_le fun hv => ?_)
    have hback : ¬ c.graph.Reaches e.target n := fun h =>
      hg.barrier _ hbar (Relation.TransGen.tail' h ⟨e, hn, rfl⟩)
    exact (rank_target_lt hn hback).trans_le (hvisited hv).2
  unfold resolveEdge
  cases ht : e.edgeType with
  | directEdge =>
    simp only
    cases htarget : e.target with
    | specificType t | specificTypeWildcard t =>
      simp only [Proc.ofExcept]
      split
      · exact within_done hpos
      · exact within_failed hpos
    | specificTypeAndRelation t rel =>
      have h := hexecute (c.usersetTuples r.object e.relationDefinition.2 e) usersetTuples_le
        fun u hu => node_of_usersetTuples hu
      simp only [specificTypeAndRelation, htarget]
      split_ifs
      · split
        · exact within_failed hpos
        · exact within_done hpos
        · exact h
      · split
        · exact within_failed hpos
        · exact within_done hpos
        · exact within_done hpos
      · exact h
    | operatorNode op id | logicalDirectGrouping id | logicalTTUGrouping id =>
      exact within_failed hpos
  | ttuEdge =>
    simp only [ttu]
    split
    next ts hts => exact hexecute ts (ttuTuples_le hts) fun u hu => node_of_ttuTuples hts hu
    · exact within_failed hpos
  | computedEdge | directLogicalEdge | ttuLogicalEdge =>
    exact hunion (by simp [Edge.canFlatten, ht])
  | rewriteEdge =>
    simp only [resolveRewrite]
    cases htarget : e.target with
    | specificTypeAndRelation t rel =>
      have h := hunion (by simp [Edge.canFlatten, ht, htarget])
      rw [htarget] at h
      exact h
    | operatorNode op id =>
      cases op with
      | union =>
        have h := hunion (by simp [Edge.canFlatten, ht, htarget])
        rw [htarget] at h
        exact h
      | intersection =>
        rw [htarget] at hbarrier
        exact hbarrier trivial _ (within_barrier hg (.inl ⟨id, rfl, rfl⟩))
      | exclusion =>
        simp only
        split_ifs
        · exact within_failed hpos
        · rw [htarget] at hbarrier
          exact hbarrier trivial _ (within_barrier hg (.inr ⟨id, rfl, rfl⟩))
    | specificType t | specificTypeWildcard t | logicalDirectGrouping id | logicalTTUGrouping id =>
      exact within_failed hpos

omit hg in
/-- The edges that flattening ends with cost no more than the union they belong to. -/
lemma within_edges {es : List Edge} {b} (hfits : ∀ e ∈ es, EdgeFits c R visited e)
    (hbudget : ∀ e ∈ es, edgeBudget c R visited e ≤ b) (hlen : es.length ≤ c.width) :
    Within c R (c.width * (b + 5) + 2) (.edges r es [] visited) := by
  have hsum : (es.map fun e => edgeBudget c R visited e + 5).sum ≤ es.length * (b + 5) :=
    sum_map_le fun e he => Nat.add_le_add_right (hbudget e he) 5
  have hle : es.length * (b + 5) ≤ c.width * (b + 5) := Nat.mul_le_mul_right _ hlen
  refine ⟨by simpa [Fits] using hfits, ?_⟩
  simp only [cost, List.map_nil, List.sum_nil]
  omega

omit hg in
lemma within_unionBody_visited (hrec : c.graph.Recursive) {node emptyCycle}
    (hnode : c.graph.rank node.key ≤ R) :
    Within c R (c.regionCost (c.lower R)) (c.unionBody r node true emptyCycle) := by
  have hpos : 0 < c.regionCost (c.lower R) := by
    unfold regionCost
    omega
  have hedges : ∀ {k : NodeKey} {recursivePath : Bool} {es : List Edge},
      c.graph.rank k ≤ R → c.graph.flattenNode k c.userType c.wild recursivePath = some es →
      Within c R (c.width * (c.lower R + c.users.length + 3 + 5) + 2) (.edges r es [] true) := by
    intro k recursivePath es hk hes
    refine within_edges (fun e he => ?_) (fun e _ => ?_) (length_flatten_le hes)
    · obtain ⟨⟨m, hlink, hm, -, hflat⟩, -⟩ := (mem_flattenAux _ k es hes).mp he
      have hrank := rank_le (reaches_of_handsOn (handsOn_of_flatLink hlink))
      refine ⟨m, hm, fun _ => ⟨hflat, hrank.trans hk⟩, fun h => ?_⟩
      rw [hflat] at h
      cases h
    · rw [edgeBudget, if_pos rfl]
  have hbudget : c.width * (c.lower R + c.users.length + 3 + 5) + 2 + (c.users.length + 5) ≤
      c.regionCost (c.lower R) := by
    have hsum : c.lower R + c.users.length + 3 + 5 = c.lower R + c.users.length + 8 := by omega
    rw [hsum, regionCost, Nat.succ_mul]
    omega
  unfold unionBody
  cases happly : c.graph.canApplyRecursion node c.userType emptyCycle with
  | mk e? withOptimization =>
    cases e? with
    | some e =>
      obtain ⟨-, -, htarget⟩ := recursiveFrom_of_canApplyRecursion hrec happly rfl
      simp only
      split
      next hes =>
        have hrank : c.graph.rank e.target ≤ R := by rw [htarget]; exact hnode
        obtain ⟨hfits, hcost⟩ := hedges hrank hes
        refine ⟨⟨hfits, rfl, hrank⟩, ?_⟩
        rw [cost, show cost c R (.recursiveEdge r e true withOptimization) =
          c.users.length + 5 from rfl]
        omega
      · exact within_failed hpos
    | none =>
      simp only
      split
      next hes => exact (hedges hnode hes).mono (by omega)
      · exact within_failed hpos

lemma within_resolveUnion (hrec : c.graph.Recursive) (hfits : Fits c R (.union r n visited)) :
    Within c R (cost c R (.union r n visited)) (c.resolveUnion r n visited) := by
  have hcost : ∀ b, c.regionCost b < c.unionCost b := by
    intro b
    have hle : 1 * c.regionCost b ≤ (c.users.length + 1) * c.regionCost b :=
      Nat.mul_le_mul_right _ (by omega)
    unfold unionCost
    omega
  have hpos : 0 < cost c R (.union r n visited) := by
    simp only [cost]
    split
    · unfold regionCost
      omega
    · unfold unionCost
      omega
  unfold Config.resolveUnion
  cases hnode : c.graph.getNodeByID n with
  | none => exact within_failed hpos
  | some node =>
    obtain rfl : node.key = n :=
      beq_iff_eq.mp (List.find?_some (p := fun m : Node => m.key == n) hnode)
    cases visited with
    | true =>
      have hbody : Within c R (c.regionCost (c.lower R)) (c.unionBody r node true false) :=
        within_unionBody_visited hrec hfits
      simp only
      split
      · rw [if_neg (by simp)]
        exact hbody
      · exact hbody
    | false =>
      -- a node without a region lies on no cycle: its edges lead below it
      have hflat : ¬ c.graph.OnCycle node.key →
          Within c R (c.unionCost (c.lower (c.graph.rank node.key)))
            (c.unionBody r node false true) := by
        intro hcycle
        unfold unionBody
        cases happly : c.graph.canApplyRecursion node c.userType true with
        | mk e? withOptimization =>
          cases e? with
          | some e =>
            obtain ⟨⟨m, hm, he, -⟩, -, htarget⟩ :=
              recursiveFrom_of_canApplyRecursion hrec happly rfl
            refine absurd ?_ hcycle
            exact Relation.TransGen.tail' (reaches_of_handsOn hm) ⟨e, he, htarget⟩
          | none =>
            simp only
            split
            next es hes =>
              have hmem := fun e (he : e ∈ es) => ((mem_flattenAux _ node.key es hes).mp he).1
              refine (within_edges (b := c.lower (c.graph.rank node.key)) (fun e he => ?_)
                (fun e he => ?_) (length_flatten_le hes)).mono ?_
              · obtain ⟨m, -, hm, -, hflat⟩ := hmem e he
                refine ⟨m, hm, nofun, fun h => ?_⟩
                rw [hflat] at h
                cases h
              · exact c.lower_mono (rank_flatEdge_lt hcycle (hmem e he))
              · refine le_trans ?_ (Nat.le_of_lt (hcost _))
                have hle : c.width * (c.lower (c.graph.rank node.key) + 5) ≤
                    c.width * (c.lower (c.graph.rank node.key) + c.users.length + 8) :=
                  Nat.mul_le_mul_left _ (by omega)
                rw [regionCost, Nat.succ_mul]
                omega
            · exact within_failed (by unfold unionCost; omega)
      have hfits : IsRelation node.key ∨ ¬ c.graph.OnCycle node.key := hfits
      have hbody : (IsRelation node.key → ¬ (node.recursiveRelation = some node.key ∨
          node.tupleCycle = true)) → Within c R (c.unionCost (c.lower (c.graph.rank node.key)))
            (c.unionBody r node false true) := by
        intro hmark
        refine hflat (hfits.elim (fun hrel hcycle => ?_) id)
        exact hmark hrel (hg.node _ hrel hcycle node hnode)
      simp only
      split
      · split_ifs with hregion
        · have hin : Within c (c.graph.rank node.key) _ (c.unionBody r node true true) :=
            within_unionBody_visited hrec (Nat.le_refl _)
          obtain ⟨hfits, hcost'⟩ := hin
          refine ⟨⟨⟨List.nodup_singleton _, .userset r.object r.relation, fun v hv => .inl ?_⟩,
            hfits⟩, ?_⟩
          · rw [List.mem_singleton.mp hv]
          · simp only [cost, List.length_cons, List.length_nil, Nat.add_sub_cancel,
              Bool.false_eq_true, if_false, unionCost]
            rw [Nat.succ_mul]
            omega
        · exact hbody fun _ h => hregion ⟨trivial, h⟩
      next hnot =>
        refine hbody fun hrel => ?_
        cases hk : node.key with
        | specificTypeAndRelation t rel => exact (hnot t rel hk).elim
        | _ => rw [hk] at hrel; exact hrel.elim

end

lemma within_startAll {es} (hes : ∀ e ∈ es, EdgeFits c R visited e) :
    Within c R (cost c R (.edges r [] es visited)) (startAll r es visited) := by
  have hstart : Fits c R (startAll r es visited) ∧ cost c R (startAll r es visited) ≤
      (es.map fun e => edgeBudget c R visited e + 4).sum := by
    induction es with
    | nil => exact ⟨trivial, Nat.zero_le _⟩
    | cons e es ih =>
      obtain ⟨hfits, hcost⟩ := ih fun e' he' => hes e' (List.mem_cons_of_mem _ he')
      refine ⟨⟨hes e List.mem_cons_self, hfits⟩, ?_⟩
      simp only [startAll, List.foldr_cons, cost, List.map_cons, List.sum_cons] at hcost ⊢
      omega
  refine ⟨hstart.1, ?_⟩
  simp only [cost, List.map_nil, List.sum_nil]
  omega

lemma within_resolveRecursive (he : c.graph.rank e.target ≤ R) :
    Within c R (c.users.length + 2) (c.resolveRecursive r e true) := by
  unfold resolveRecursive
  split
  · exact within_execute_visited usersetTuples_le (fun u hu => node_of_usersetTuples hu) he
  · unfold ttu
    split
    next hts =>
      exact within_execute_visited (ttuTuples_le hts) (fun u hu => node_of_ttuTuples hts hu) he
    · exact within_failed (by omega)
  · exact within_failed (by omega)

lemma KeysOk.length_le {W} (h : KeysOk c W) : W.length ≤ c.users.length + 1 := by
  obtain ⟨hnodup, x, hx⟩ := h
  have hsub : W.map (·.key) ⊆ x :: c.users := by
    intro k hk
    obtain ⟨v, hv, rfl⟩ := List.mem_map.mp hk
    exact List.mem_cons.mpr (hx v hv)
  have hle := (List.subperm_of_subset hnodup hsub).length_le
  simpa using hle

end

end Check
end OpenFGA
