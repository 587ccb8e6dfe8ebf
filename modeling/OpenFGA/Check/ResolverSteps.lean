/-
  One step of a check keeps what its evaluation owes.

  The delicate part are the tuples that the unique filter drops.  While a region is
  evaluated, a query that is dropped is owed by the evaluation of another branch: the
  one that took the query first.  `Kept.complete` says that nothing is lost but
  what is left to queries that are taken, `Kept.fresh` that a query is only taken by an
  evaluation that owes it.  When a region has answered false, no query taken in it
  holds: those queries could only hold through each other, and the least fixed point
  contains no such circle (`not_mem_of_region`).

  All this needs that a tuple is dropped for its own query, which the visited map
  does not guarantee: `keeps`.  That no recursive edge is left out (`followsAll`) is another
  matter, and so is what is stored in the cache (`Settles`) and what other strategies answer
  (`StrategiesAgree`).
-/

import OpenFGA.Check.ResolverStart

namespace OpenFGA.Check

open OpenFGA.Graph
open Config List

/-! ## Answers -/

/-- A taken query hands its object on to this one. -/
def HandedOn (c : Config) (W : List Visited) (q : Query) : Prop :=
  ∃ n, Taken W (q.1, n) ∧ Relation.ReflTransGen (c.graph.FlatLink c.userType c.wild) n q.2

section
variable {c : Config} {S : Set Query} {p : Proc} {root : Query} {W : List Visited}
  {x y : Option Bool}

/-- A region whose evaluation found nothing: its queries do not hold. -/
theorem not_mem_of_region (hc : Meaning c S) (h : RegionOk c S root W p)
    (hfalse : ∀ X : Set Query, (∀ q ∈ X, q ∈ S) → ¬ Val c S X p) : root ∉ S := by
  -- no query that the taken ones hand their objects on to is derivable
  have hnot : ∀ q ∈ S, ¬ HandedOn c W q := by
    refine hc.model.induction ?_
    rintro ⟨o, m⟩ hnode ⟨n, hn, hlink⟩
    have hm := (Reading.mem_of_handsOn (o := o) hc.model hc.flattens (handsOn_of_flatLink hlink)
      (h.union _ hn)).1
    obtain ⟨e, he, hold⟩ := (Reading.nodeHolds_union hm).mp hnode
    have hreach := reaches_of_mem hc he (hold.mono fun _ hq => hq.1)
    cases hflat : e.canFlatten with
    | true =>
      rw [Reading.edgeHolds_rewrite (isRewrite_of_canFlatten hflat)] at hold
      exact hold.2 ⟨n, hn, hlink.tail ⟨e, he, hreach, hflat, rfl⟩⟩
    | false =>
      -- the edge is owed by a taken query, and what it leads to is not taken
      have hsub : ∀ q ∈ {j | j ∈ S ∧ ¬ HandedOn c W j}, q ∈ S := fun q hq => hq.1
      have hval : FlatVal c S {j | j ∈ S ∧ ¬ HandedOn c W j} (o, n) :=
        ⟨e, ⟨m, hlink, he, hreach, hflat⟩, edgeVal_of_edgeHolds hsub hold⟩
      rcases h.complete _ hn _ hsub hval with hp | ⟨q, hq, htaken⟩
      · exact hfalse _ hsub hp
      · exact hq.2 ⟨q.2, htaken, .refl⟩
  exact fun hroot => hnot root hroot ⟨root.2, h.taken, .refl⟩

lemma orResult_eq_true :
    orResult x y = some true ↔ x = some true ∨ y = some true := by
  rcases x with _ | _ | _ <;> rcases y with _ | _ | _ <;> simp [orResult]

lemma orResult_eq_false :
    orResult x y = some false ↔ x = some false ∧ y = some false := by
  rcases x with _ | _ | _ <;> rcases y with _ | _ | _ <;> simp [orResult]

lemma andResult_eq_true :
    andResult x y = some true ↔ x = some true ∧ y = some true := by
  rcases x with _ | _ | _ <;> rcases y with _ | _ | _ <;> simp [andResult]

lemma andResult_eq_false :
    andResult x y = some false ↔ x = some false ∨ y = some false := by
  rcases x with _ | _ | _ <;> rcases y with _ | _ | _ <;> simp [andResult]

lemma diffResult_eq_true :
    diffResult x y = some true ↔ x = some true ∧ y = some false := by
  rcases x with _ | _ | _ <;> rcases y with _ | _ | _ <;> simp [diffResult]

lemma diffResult_eq_false :
    diffResult x y = some false ↔ x = some false ∨ y = some true := by
  rcases x with _ | _ | _ <;> rcases y with _ | _ | _ <;> simp [diffResult]

/-- An answer true is owed, and an answer false means that nothing is left. -/
lemma val_of_result (hc : Meaning c S) (h : Good c S p) :
    (p.result = some true → Val c S S p) ∧
      (p.result = some false → ∀ X : Set Query, (∀ q ∈ X, q ∈ S) → ¬ Val c S X p) := by
  induction p with
  | done b => exact ⟨fun h => Option.some.inj h, fun h X _ hb => by simp_all [Proc.result, Val]⟩
  | failed | union r n visited | edges r todo evaluations visited | edge r e visited
  | recursiveEdge r e visited opt | recursive r e visited opt | store r e dropped p ih =>
    constructor <;> intro hnone <;> cases hnone
  | or p q ihp ihq =>
    obtain ⟨hp, hq⟩ := h
    rw [Proc.result, orResult_eq_true, orResult_eq_false]
    exact ⟨Or.imp (ihp hp).1 (ihq hq).1, fun hf X hX hval =>
      hval.elim ((ihp hp).2 hf.1 X hX) ((ihq hq).2 hf.2 X hX)⟩
  | and p q ihp ihq =>
    obtain ⟨hp, hq, -, -⟩ := h
    rw [Proc.result, andResult_eq_true, andResult_eq_false]
    exact ⟨And.imp (ihp hp).1 (ihq hq).1, fun hf X hX hval =>
      hf.elim (fun hf => (ihp hp).2 hf X hX hval.1) fun hf => (ihq hq).2 hf X hX hval.2⟩
  | diff p q ihp ihq =>
    obtain ⟨hp, hq, -, hclosed⟩ := h
    rw [Proc.result, diffResult_eq_true, diffResult_eq_false]
    refine ⟨fun ht => ⟨(ihp hp).1 ht.1, (ihq hq).2 ht.2 S fun _ => id⟩, fun hf X hX hval => ?_⟩
    rcases hf with hf | hf
    · exact (ihp hp).2 hf X hX hval.1
    · exact hval.2 ((val_closed hclosed).mpr ((ihq hq).1 hf))
  | iter visited rest onceValid lastErr p ih =>
    simp only [Proc.result]
    cases hres : p.result with
    | none => constructor <;> intro hnone <;> cases hnone
    | some b =>
      cases b with
      | true => exact ⟨fun _ => .inr ((ih h).1 hres), fun htrue => by cases htrue⟩
      | false =>
        refine ⟨fun ht => ?_, fun hf X hX hval => ?_⟩
        · simp only at ht
          split at ht <;> cases ht
        · simp only at hf
          split at hf
          next hempty =>
            have hrest : rest = [] := by simpa using (Bool.and_eq_true_iff.mp hempty).1
            rcases hval with ⟨t, ht, -⟩ | hval
            · rw [hrest] at ht
              cases ht
            · exact (ih h).2 hres X hX hval
          · cases hf
  | region root W p ih =>
    obtain ⟨hp, hregion⟩ := h
    exact ⟨fun ht => hregion.sound ((ih hp).1 ht), fun hf X _ =>
      not_mem_of_region hc hregion ((ih hp).2 hf)⟩

end

/-! ## What is assumed of a step -/

/-- The goroutine that an action addresses, with the visited map it sees. -/
def focus : List Visited → Proc → Turn → List Visited × Proc × Turn
  | W, .store _ _ _ p, .down a => focus W p a
  | W, .or p _, .left a => focus W p a
  | W, .or _ q, .right a => focus W q a
  | W, .and p _, .left a => focus W p a
  | W, .and _ q, .right a => focus W q a
  | W, .diff p _, .left a => focus W p a
  | W, .diff _ q, .right a => focus W q a
  | W, .iter _ _ _ _ p, .down a => focus W p a
  | _, .region _ W p, .down a => focus W p a
  | W, p, a => (W, p, a)

/-- The unique filter does not drop the tuple, or its user was stored for the query of
    the tuple. -/
def Unsuppressed (W : List Visited) (t : Pending) : Prop :=
  t.passes = .ok true → (∃ v ∈ W, v.key = t.user) → ∃ v ∈ W, v.key = t.user ∧ v.query = some t.query

instance (W : List Visited) (t : Pending) : Decidable (Unsuppressed W t) :=
  inferInstanceAs (Decidable (_ → _ → _))

section
variable (c : Config) (S : Set Query)

/-- The goroutine drops no tuple for the query of another. -/
def keeps : List Visited × Proc × Turn → Bool
  | (W, .iter true (t :: _) _ _ _, .go) => Unsuppressed W t
  | _ => true

/-- The goroutine leaves no recursive edge out.  A resolver that leaves one out does so with and
    without a cache; this is asked for since answers are compared with the least fixed point. -/
def followsAll : List Visited × Proc × Turn → Bool
  | (_, .union _ n _, .go) => c.oneRecursiveEdge n
  | _ => true

/-- A negative answer is stored only if the tuples dropped for it lead nowhere. -/
def Settles : List Visited × Proc × Turn → Prop
  | (_, .store _ _ dropped p, .go) =>
    c.caching = true → p.result = some false → ∀ q ∈ dropped, q ∉ S
  | _ => True

/-- Where another strategy than the default one answers, it answers as the edge means.  The planner
    may pick the default strategy for the same edge in another run, so that a strategy that answers
    otherwise makes two runs differ without any cache. -/
def StrategiesAgree : List Visited × Proc × Turn → Prop
  | (_, .edge r e _, .answer b) | (_, .recursive r e _ _, .answer b) =>
    c.otherStrategies = true → (b = true ↔ c.reading.EdgeHolds S r.object e)
  | _ => True

/-- What is assumed of a step, for the goroutine that it addresses. -/
structure Steady (x : List Visited × Proc × Turn) : Prop where
  keeps : keeps x = true
  follows : followsAll c x = true
  settles : Settles c S x
  agree : StrategiesAgree c S x

/-- The cache answers as the edges mean. -/
def CacheOk (cache : List (CacheKey × Bool)) : Prop :=
  ∀ o e b, (∃ n, e ∈ c.graph.edgesFrom n) → c.isCached cache o e = some b →
    (b = true ↔ c.reading.EdgeHolds S o e)

/-! ## What a step keeps -/

structure Kept (s s' : Shared) (dropped : List Query) (p p' : Proc) : Prop where
  good : Good c S p'
  sound : Val c S S p' → Val c S S p
  complete : ∀ X : Set Query, (∀ q ∈ X, q ∈ S) → Val c S X p →
    Val c S X p' ∨ ∃ q ∈ X, Taken s'.visited q
  fresh : ∀ q, Taken s'.visited q → ¬ Taken s.visited q →
    isUnion q.2 = true ∧ ∀ X : Set Query, (∀ q ∈ X, q ∈ S) → FlatVal c S X q → Val c S X p'
  grows : ∀ q, Taken s.visited q → Taken s'.visited q
  exact : (∀ q ∈ dropped, q ∉ S) → Val c S S p → Val c S S p'
  closed : Closed p → Closed p' ∧ s'.visited = s.visited ∧ dropped = []
  cache : s'.cache = s.cache ∨ ∃ o e b, (∃ n, e ∈ c.graph.edgesFrom n) ∧
    s'.cache = (c.cacheKey o e, b) :: s.cache ∧ (b = true ↔ c.reading.EdgeHolds S o e)

end

section
variable {c : Config} {S : Set Query} {s s' : Shared} {d : List Query} {p p' q : Proc} {e : Edge}
  {r : Request} {cache : List (CacheKey × Bool)} {todo evaluations : List Edge}

/-- A step that touches nothing shared. -/
lemma kept_of_val (hgood : Good c S p') (hsound : Val c S S p' → Val c S S p)
    (hcomplete : ∀ X : Set Query, (∀ q ∈ X, q ∈ S) → Val c S X p → Val c S X p')
    (hclosed : Closed p → Closed p') : Kept c S s s [] p p' where
  good := hgood
  sound := hsound
  complete X hX h := .inl (hcomplete X hX h)
  fresh _ hq hnot := absurd hq hnot
  grows _ hq := hq
  exact _ := hcomplete S fun _ => id
  closed h := ⟨hclosed h, rfl, rfl⟩
  cache := .inl rfl

/-- A step that starts what it owes. -/
lemma kept_of_owes {visited} (h : Owes c S visited (fun X => Val c S X p) p')
    (hclosed : Closed p → visited = false) : Kept c S s s [] p p' :=
  kept_of_val h.good (h.val S fun _ => id).mp (fun X hX => (h.val X hX).mpr)
    fun hp => h.closed (hclosed hp)

/-- A step that answers for an edge. -/
lemma kept_of_answer {o b visited}
    (hb : b = true ↔ c.reading.EdgeHolds S o e)
    (hval : ∀ X, Val c S X p ↔ EdgeVal c S X visited o e) :
    Kept c S s s [] p (.done b) := by
  refine kept_of_val trivial (fun h => ?_) (fun X hX h => ?_) fun _ => trivial
  · exact (hval S).mpr (edgeVal_self.mpr (hb.mp h))
  · exact hb.mpr (edgeVal_le hX ((hval X).mp h))

section
variable (h : Kept c S s s' d p p')
include h

/-- A step within a whole that owes what its part owes, or something of its own. -/
lemma Kept.within {P P'} {A : Set Query → Prop}
    (hgood : Good c S P') (hval : ∀ X, Val c S X P ↔ Val c S X p ∨ A X)
    (hval' : ∀ X, Val c S X P' ↔ Val c S X p' ∨ A X)
    (hclosed : Closed P → Closed p ∧ (Closed p' → Closed P')) : Kept c S s s' d P P' where
  good := hgood
  sound hv := (hval S).mpr (((hval' S).mp hv).imp_left h.sound)
  complete X hX hv := by
    rw [hval']
    rcases (hval X).mp hv with hp | hA
    · exact (h.complete X hX hp).imp_left .inl
    · exact .inl (.inr hA)
  fresh q hq hnot := (h.fresh q hq hnot).imp_right fun hv X hX hf =>
    (hval' X).mpr (.inl (hv X hX hf))
  grows := h.grows
  exact hd hv := (hval' S).mpr (((hval S).mp hv).imp_left (h.exact hd))
  closed hcl := (h.closed (hclosed hcl).1).imp_left (hclosed hcl).2
  cache := h.cache

lemma Kept.or_left (hq : Good c S q) :
    Kept c S s s' d (.or p q) (.or p' q) :=
  h.within ⟨h.good, hq⟩ (fun _ => Iff.rfl) (fun _ => Iff.rfl) fun hcl =>
    ⟨hcl.1, fun hp' => ⟨hp', hcl.2⟩⟩

lemma Kept.or_right (hq : Good c S q) :
    Kept c S s s' d (.or q p) (.or q p') :=
  h.within ⟨hq, h.good⟩ (fun _ => or_comm) (fun _ => or_comm) fun hcl =>
    ⟨hcl.2, fun hp' => ⟨hcl.1, hp'⟩⟩

/-- A closed evaluation keeps its value exactly and touches no visited map. -/
lemma Kept.val_iff (hp : Closed p) (X : Set Query) :
    Val c S X p' ↔ Val c S X p := by
  obtain ⟨hp', -, rfl⟩ := h.closed hp
  rw [val_closed hp, val_closed hp']
  exact ⟨h.sound, h.exact (by simp)⟩

/-- The step of a closed part keeps a closed whole. -/
lemma Kept.of_closed {P P'} (hp : Closed p)
    (hgood : Closed p' → Good c S P') (hval : ∀ X, Val c S X P' ↔ Val c S X P)
    (hclosed : Closed p' → Closed P') : Kept c S s s' d P P' := by
  obtain ⟨hp', hvisited, rfl⟩ := h.closed hp
  refine ⟨hgood hp', (hval S).mp, fun X _ hv => .inl ((hval X).mpr hv), fun q hq hnot => ?_,
    fun q hq => ?_, fun _ => (hval S).mpr, fun _ => ⟨hclosed hp', hvisited, rfl⟩, h.cache⟩
  · rw [hvisited] at hq
    exact absurd hq hnot
  · rw [hvisited]
    exact hq

theorem Kept.store {dropped} (hgood : Good c S (.store r e dropped p)) :
    Kept c S s s' d (.store r e dropped p) (.store r e (dropped ++ d) p') := by
  obtain ⟨-, he, hsound, hexact⟩ := hgood
  refine { h with good := ⟨h.good, he, fun hv => hsound (h.sound hv), fun hd hold => ?_⟩ }
  have hp := hexact (fun q hq => hd q (mem_append_left _ hq)) hold
  exact h.exact (fun q hq => hd q (mem_append_right _ hq)) hp

lemma Kept.iter {visited onceValid rest lastErr} :
    Kept c S s s' d (.iter visited rest onceValid lastErr p)
      (.iter visited rest onceValid lastErr p') :=
  h.within h.good (fun _ => or_comm) (fun _ => or_comm) fun hcl => ⟨hcl.2, fun hp' => ⟨hcl.1, hp'⟩⟩

end

/-- A step within a region keeps what its queries owe. -/
lemma Kept.region {root W}
    (h : Kept c S { s with visited := W } s' d p p') (hregion : RegionOk c S root W p) :
    Kept c S s { s' with visited := s.visited } [] (.region root W p)
      (.region root s'.visited p') where
  good := by
    refine ⟨h.good, h.grows _ hregion.taken, fun q hq => ?_, fun hv => hregion.sound (h.sound hv),
      fun q hq X hX hflat => ?_⟩
    · by_cases hold : Taken W q
      · exact hregion.union q hold
      · exact (h.fresh q hq hold).1
    · by_cases hold : Taken W q
      · rcases hregion.complete q hold X hX hflat with hp | ⟨q', hq', htaken⟩
        · exact h.complete X hX hp
        · exact .inr ⟨q', hq', h.grows q' htaken⟩
      · exact .inl ((h.fresh q hq hold).2 X hX hflat)
  sound := id
  complete _ _ := .inl
  fresh _ hq hnot := absurd hq hnot
  grows _ hq := hq
  exact _ := id
  closed _ := ⟨trivial, rfl, rfl⟩
  cache := h.cache

/-! ## Tuples -/

section
variable {X : Set Query} {visited onceValid : Bool} {t : Pending} {rest : List Pending}
  {lastErr : Option Err}

lemma val_iter_cons {onceValid' lastErr'} :
    Val c S X (.iter visited (t :: rest) onceValid lastErr p) ↔
      (t.passes = .ok true ∧ t.query ∈ if visited then X else S) ∨
        Val c S X (.iter visited rest onceValid' lastErr' p) := by
  simp only [Val, exists_mem_cons_iff, or_assoc]

lemma val_filterCondition :
    Val c S X (filterCondition visited t rest onceValid lastErr p) ↔
      (t.passes = .ok true ∧ Val c S X (.union t.request t.request.node visited)) ∨
        Val c S X (.iter visited rest onceValid lastErr p) := by
  rcases filterCondition_cases (p := p) with ⟨hpass, heq⟩ | ⟨hpass, lastErr', heq⟩
  · rw [heq]
    simp only [Val, hpass, true_and]
    rw [or_left_comm]
  · rw [heq]
    simp only [Val, hpass, false_and, false_or]

lemma good_filterCondition (hp : Good c S p) :
    Good c S (filterCondition visited t rest onceValid lastErr p) := by
  rcases filterCondition_cases (p := p) with ⟨-, heq⟩ | ⟨-, lastErr', heq⟩
  · rw [heq]
    exact ⟨rfl, hp⟩
  · rw [heq]
    exact hp

lemma taken_visit {W q} :
    Taken (visit t :: W) q ↔ (t.passes = .ok true ∧ q = t.query) ∨ Taken W q := by
  unfold Taken
  rw [exists_mem_cons_iff]
  refine or_congr_left ?_
  unfold visit
  cases ht : t.passes with
  | error err => simp
  | ok b =>
    cases b with
    | true => simp [eq_comm]
    | false => simp

lemma kept_next (hc : Meaning c S) (hp : Good c S p)
    (hleaf : visited = true → Unsuppressed s.visited t)
    (h : next s visited t rest onceValid lastErr p = (s', d, p')) :
    Kept c S s s' d (.iter visited (t :: rest) onceValid lastErr p) p' := by
  have hquery : t.query = (t.request.object, t.request.node) := rfl
  have hflat : t.query ∈ S ↔ FlatVal c S S t.query := by
    rw [hquery]
    exact mem_iff_flatVal hc rfl
  unfold Config.next at h
  cases visited with
  | false =>
    cases h
    have hval : ∀ X, Val c S X (.iter false (t :: rest) onceValid lastErr p) ↔
        Val c S X (filterCondition false t rest onceValid lastErr p) := fun X => by
      rw [val_filterCondition]
      exact val_iter_cons
    refine kept_of_val (good_filterCondition hp) (hval S).mpr (fun X _ => (hval X).mp) fun hcl => ?_
    rcases filterCondition_cases (p := p) with ⟨-, heq⟩ | ⟨-, lastErr', heq⟩
    · rw [heq]
      exact ⟨rfl, rfl, hcl.2⟩
    · rw [heq]
      exact hcl
  | true =>
    rw [if_pos rfl] at h
    split at h
    next hany =>
      -- the tuple is dropped: its query was taken before
      cases h
      have hfound : ∃ v ∈ s.visited, v.key = t.user := by simpa using hany
      refine ⟨hp, Or.imp_left fun ⟨u, hu, hrest⟩ => ⟨u, mem_cons_of_mem _ hu, hrest⟩,
        fun X hX hval => ?_, fun q hq hnot => absurd hq hnot, fun q hq => hq, fun hd hval => ?_,
        fun hcl => ?_, .inl rfl⟩
      · rcases val_iter_cons.mp hval with ⟨hpass, hmem⟩ | hval
        · obtain ⟨v, hv, -, hq⟩ := hleaf rfl hpass hfound
          exact .inr ⟨t.query, hmem, v, hv, hq⟩
        · exact .inl hval
      · rcases val_iter_cons.mp hval with ⟨-, hmem⟩ | hval
        · exact absurd hmem (hd _ (mem_singleton_self _))
        · exact hval
      · cases hcl.1
    next hany =>
      cases h
      refine ⟨good_filterCondition hp, fun hval => ?_, fun X hX hval => ?_, fun q hq hnot => ?_,
        fun q hq => taken_visit.mpr (.inr hq), fun _ hval => ?_, fun hcl => ?_, .inl rfl⟩
      · rw [val_filterCondition] at hval
        exact val_iter_cons.mpr (hval.imp_left fun h => ⟨h.1, hflat.mpr h.2⟩)
      · rcases val_iter_cons.mp hval with ⟨hpass, hmem⟩ | hval
        · exact .inr ⟨t.query, hmem, taken_visit.mpr (.inl ⟨hpass, rfl⟩)⟩
        · exact .inl (val_filterCondition.mpr (.inr hval))
      · obtain ⟨hpass, rfl⟩ := (taken_visit.mp hq).resolve_right hnot
        exact ⟨rfl, fun X _ hf => val_filterCondition.mpr (.inl ⟨hpass, hf⟩)⟩
      · rw [val_filterCondition]
        exact (val_iter_cons.mp hval).imp_left fun h => ⟨h.1, hflat.mp h.2⟩
      · cases hcl.1

end

/-! ## Steps -/

lemma isCached_none_or {o} (hcache : CacheOk c S cache) (he : ∃ n, e ∈ c.graph.edgesFrom n) :
    c.isCached cache o e = none ∨
      ∃ b, c.isCached cache o e = some b ∧ (b = true ↔ c.reading.EdgeHolds S o e) := by
  cases h : c.isCached cache o e with
  | none => exact .inl rfl
  | some b => exact .inr ⟨b, rfl, hcache o e b he h⟩

/-- Leaving an edge for the second loop. -/
lemma kept_evaluate {visited} (hgood : Good c S (.edges r (e :: todo) evaluations visited)) :
    Kept c S s s [] (.edges r (e :: todo) evaluations visited)
      (.edges r todo (evaluations ++ [e]) visited) := by
  have hmem : ∀ e', e' ∈ todo ++ (evaluations ++ [e]) ↔ e' ∈ e :: todo ++ evaluations := by
    intro e'
    simp only [mem_append, mem_cons, cons_append, not_mem_nil, or_false]
    tauto
  have hval : ∀ X, Val c S X (.edges r todo (evaluations ++ [e]) visited) ↔
      Val c S X (.edges r (e :: todo) evaluations visited) := fun X =>
    exists_congr fun e' => and_congr_left fun _ => hmem e'
  exact kept_of_val (fun e' he' => hgood e' ((hmem e').mp he')) (hval S).mp
    (fun X _ => (hval X).mpr) id

lemma kept_hit {visited b} (hgood : Good c S (.edges r (e :: todo) evaluations visited))
    (hb : b = true ↔ c.reading.EdgeHolds S r.object e) :
    Kept c S s s [] (.edges r (e :: todo) evaluations visited)
      (if b then .done true else .edges r todo evaluations visited) := by
  cases b with
  | true =>
    refine kept_of_val trivial (fun _ => ?_) (fun _ _ _ => rfl) fun _ => trivial
    exact ⟨e, by simp, edgeVal_self.mpr (hb.mp rfl)⟩
  | false =>
    refine kept_of_val (fun e' he' => hgood e' (mem_cons_of_mem _ he')) ?_ ?_ id
    · rintro ⟨e', he', hval⟩
      exact ⟨e', mem_cons_of_mem _ he', hval⟩
    · rintro X hX ⟨e', he', hval⟩
      rcases mem_cons.mp he' with rfl | he'
      · exact absurd (hb.mpr (edgeVal_le hX hval)) (by simp)
      · exact ⟨e', he', hval⟩

section
variable (hc : Meaning c S)
include hc

lemma kept_store {dropped b} (hgood : Good c S (.store r e dropped p)) (hres : p.result = some b)
    (hleaf : c.caching = true → p.result = some false → ∀ q ∈ dropped, q ∉ S) :
    Kept c S s (c.set s r.object e b) [] (.store r e dropped p) (.done b) := by
  obtain ⟨hp, he, hsound, hexact⟩ := hgood
  obtain ⟨htrue, hfalse⟩ := val_of_result hc hp
  refine ⟨trivial, fun h => ?_, fun X hX hval => .inl ?_, fun q hq hnot => ?_, fun q hq => ?_,
    fun _ hval => ?_, fun _ => ⟨trivial, set_visited c, rfl⟩, ?_⟩
  · obtain rfl : b = true := h
    exact htrue hres
  · cases b with
    | true => exact rfl
    | false => exact absurd hval (hfalse hres X hX)
  · rw [set_visited] at hq
    exact absurd hq hnot
  · rw [set_visited]
    exact hq
  · cases b with
    | true => exact rfl
    | false => exact absurd hval (hfalse hres S fun _ => id)
  · unfold Config.set
    cases hcaching : c.caching with
    | false => exact .inl rfl
    | true =>
      refine .inr ⟨r.object, e, b, he, rfl, fun h => ?_, fun hold => ?_⟩
      · obtain rfl : b = true := h
        exact hsound (htrue hres)
      · cases b with
        | true => rfl
        | false =>
          have hval := hexact (hleaf hcaching hres) hold
          exact absurd hval (hfalse hres S fun _ => id)

/-- One step of a check that meets the assumptions and does not fail. -/
lemma kept_step {a} (hgood : Good c S p) (hcache : CacheOk c S s.cache)
    (hsteady : Steady c S (focus s.visited p a)) (hstep : c.step s p a = some (s', d, p'))
    (hok : p'.ok = true) : Kept c S s s' d p p' := by
  induction p generalizing s a s' d p' with
  | done b | failed => simp [step] at hstep
  | union r n visited =>
    cases a with
    | go =>
      cases hstep
      exact kept_of_owes (owes_resolveUnion hc hgood hsteady.follows hok) id
    | _ => simp [step] at hstep
  | edges r todo evaluations visited =>
    cases a with
    | go =>
      cases todo with
      | nil =>
        cases hstep
        exact kept_of_owes (owes_startAll hgood) id
      | cons e todo =>
        have he : ∃ n, e ∈ c.graph.edgesFrom n := (hgood e (by simp)).1
        rcases isCached_none_or (o := r.object) hcache he with hnone | ⟨b, hsome, hb⟩
        · simp only [step, hnone] at hstep
          cases hstep
          exact kept_evaluate hgood
        · have hhit := kept_hit (s := s) hgood hb
          simp only [step, hsome] at hstep
          cases b <;> cases hstep <;> exact hhit
    | miss =>
      cases todo with
      | nil => simp [step] at hstep
      | cons e todo =>
        cases hstep
        exact kept_evaluate hgood
    | _ => cases todo <;> simp [step] at hstep
  | edge r e visited =>
    cases a with
    | go =>
      cases hstep
      exact kept_of_owes (owes_resolveEdge hc hgood hok) id
    | answer b =>
      simp only [step] at hstep
      split at hstep <;> cases hstep
      next hmay =>
        have hother : c.otherStrategies = true := by
          simp only [mayAnswer, Bool.and_eq_true] at hmay
          exact hmay.1.1.1
        exact kept_of_answer (hsteady.agree hother) fun X => Iff.rfl
    | _ => simp [step] at hstep
  | recursiveEdge r e visited opt =>
    have hstart : Kept c S s s [] (.recursiveEdge r e visited opt)
        (.store r e [] (.recursive r e visited opt)) := by
      refine kept_of_val ⟨hgood, hgood.1, fun h => ?_, fun _ h => ?_⟩ id (fun _ _ => id) id
      · exact edgeVal_self.mp ((recursiveVal_iff_edgeVal hc hgood).mp h)
      · exact (recursiveVal_iff_edgeVal hc hgood).mpr (edgeVal_self.mpr h)
    cases a with
    | go =>
      rcases isCached_none_or (o := r.object) hcache hgood.1 with hnone | ⟨b, hsome, hb⟩
      · simp only [step, hnone] at hstep
        cases hstep
        exact hstart
      · simp only [step, hsome] at hstep
        cases hstep
        exact kept_of_answer hb fun X => recursiveVal_iff_edgeVal hc hgood
    | miss =>
      cases hstep
      exact hstart
    | _ => simp [step] at hstep
  | recursive r e visited opt =>
    cases a with
    | go =>
      cases hstep
      exact kept_of_owes (owes_resolveRecursive hc hgood hok) id
    | answer b =>
      simp only [step] at hstep
      split at hstep <;> cases hstep
      next hmay =>
        have hother := (Bool.and_eq_true_iff.mp hmay).1
        exact kept_of_answer (hsteady.agree hother) fun X => recursiveVal_iff_edgeVal hc hgood
    | _ => simp [step] at hstep
  | store r e dropped p ih =>
    cases a with
    | go =>
      obtain ⟨b, hres, ⟨⟩⟩ := Option.map_eq_some_iff.mp hstep
      exact kept_store hc hgood hres hsteady.settles
    | down a =>
      obtain ⟨⟨s₁, d₁, p₁⟩, hinner, ⟨⟩⟩ := Option.map_eq_some_iff.mp hstep
      exact (ih hgood.1 hcache hsteady hinner hok).store hgood
    | _ => simp [step] at hstep
  | or p q ihp ihq =>
    cases a with
    | left a =>
      obtain ⟨⟨s₁, d₁, p₁⟩, hinner, ⟨⟩⟩ := Option.map_eq_some_iff.mp hstep
      exact (ihp hgood.1 hcache hsteady hinner (Bool.and_eq_true_iff.mp hok).1).or_left hgood.2
    | right a =>
      obtain ⟨⟨s₁, d₁, q₁⟩, hinner, ⟨⟩⟩ := Option.map_eq_some_iff.mp hstep
      exact (ihq hgood.2 hcache hsteady hinner (Bool.and_eq_true_iff.mp hok).2).or_right hgood.1
    | _ => simp [step] at hstep
  | and p q ihp ihq | diff p q ihp ihq =>
    obtain ⟨hp, hq, hclp, hclq⟩ := hgood
    cases a with
    | left a =>
      obtain ⟨⟨s₁, d₁, p₁⟩, hinner, ⟨⟩⟩ := Option.map_eq_some_iff.mp hstep
      have h := ihp hp hcache hsteady hinner (Bool.and_eq_true_iff.mp hok).1
      exact h.of_closed hclp (fun hcl => ⟨h.good, hq, hcl, hclq⟩)
        (fun X => and_congr_left' (h.val_iff hclp X)) fun hcl => ⟨hcl, hclq⟩
    | right a =>
      obtain ⟨⟨s₁, d₁, q₁⟩, hinner, ⟨⟩⟩ := Option.map_eq_some_iff.mp hstep
      have h := ihq hq hcache hsteady hinner (Bool.and_eq_true_iff.mp hok).2
      refine h.of_closed hclq (fun hcl => ⟨hp, h.good, hclp, hcl⟩) (fun X => ?_) fun hcl =>
        ⟨hclp, hcl⟩
      simp only [Val, h.val_iff hclq X]
    | _ => simp [step] at hstep
  | iter visited rest onceValid lastErr p ih =>
    cases a with
    | go =>
      cases rest with
      | nil => simp [step] at hstep
      | cons t rest =>
        simp only [step, Option.some.injEq] at hstep
        refine kept_next hc hgood (fun hv => ?_) hstep
        rw [hv] at hsteady
        exact of_decide_eq_true hsteady.keeps
    | down a =>
      rw [step_iter_down] at hstep
      obtain ⟨⟨s₁, d₁, p₁⟩, hinner, ⟨⟩⟩ := Option.map_eq_some_iff.mp hstep
      exact (ih hgood hcache hsteady hinner (Bool.and_eq_true_iff.mp hok).2).iter
    | _ => cases rest <;> simp [step] at hstep
  | region root W p ih =>
    cases a with
    | down a =>
      obtain ⟨⟨s₁, d₁, p₁⟩, hinner, ⟨⟩⟩ := Option.map_eq_some_iff.mp hstep
      have h := ih (s := { s with visited := W }) hgood.1 hcache hsteady hinner hok
      exact h.region hgood.2
    | _ => simp [step] at hstep

lemma owes_resolveCheck (hok : (c.resolveCheck r).ok = true) :
    Owes c S false (fun _ => r.query ∈ S) (c.resolveCheck r) := by
  unfold resolveCheck at hok ⊢
  cases hnode : c.graph.getNodeByID r.node with
  | none => simp [hnode, Proc.ok] at hok
  | some node =>
    -- nodes without a path to the user are answered at once
    have hreach : r.query ∈ S → (node.weights.lookup c.userType).isSome = true ∧
        (!c.wild || node.wildcards.contains c.userType) = true := by
      intro h
      have h := Reading.reachesNode_of_mem hc.model hc.weighted (typed_reading c) h
      simp only [Request.query, reachesNode, hnode, Bool.and_eq_true] at h
      exact h
    simp only
    split_ifs with hweight hwild
    · refine owes_done fun X => ⟨fun h => ?_, fun hfalse => by cases hfalse⟩
      have h := (hreach h).1
      rw [Option.isNone_iff_eq_none.mp hweight] at h
      cases h
    · refine owes_done fun X => ⟨fun h => ?_, fun hfalse => by cases hfalse⟩
      have h := (hreach h).2
      obtain ⟨hw, hnot⟩ := Bool.and_eq_true_iff.mp hwild
      rw [hw, (Bool.not_eq_true' _).mp hnot] at h
      cases h
    · exact ⟨rfl, fun X _ => Iff.rfl, fun _ => rfl⟩

/-- What holds of a check in every state. -/
structure CheckOk (c : Config) (S : Set Query) (r : Request) (σ : Shared × Proc) : Prop where
  ok : σ.2.ok = true
  good : Good c S σ.2
  closed : Closed σ.2
  val : Val c S S σ.2 ↔ r.query ∈ S

lemma checkOk_start (hok : (c.resolveCheck r).ok = true) : CheckOk c S r (c.start cache r) := by
  have h := owes_resolveCheck hc hok
  exact ⟨hok, h.good, h.closed rfl, h.val S fun _ => id⟩

/-- One step of a check, and what it stores. -/
lemma checkOk_advance {σ σ' a} (h : CheckOk c S r σ) (hcache : CacheOk c S σ.1.cache)
    (hsteady : Steady c S (focus σ.1.visited σ.2 a)) (hstep : c.advance σ a = some σ')
    (hok : σ'.2.ok = true) :
    CheckOk c S r σ' ∧ (σ'.1.cache = σ.1.cache ∨ ∃ o e b, (∃ n, e ∈ c.graph.edgesFrom n) ∧
      σ'.1.cache = (c.cacheKey o e, b) :: σ.1.cache ∧ (b = true ↔ c.reading.EdgeHolds S o e)) := by
  obtain ⟨⟨s₁, d₁, p₁⟩, hinner, rfl⟩ := Option.map_eq_some_iff.mp hstep
  have hkept := kept_step hc h.good hcache hsteady hinner hok
  exact ⟨⟨hok, hkept.good, (hkept.closed h.closed).1, (hkept.val_iff h.closed S).trans h.val⟩,
    hkept.cache⟩

theorem CheckOk.answer {σ} (h : CheckOk c S r σ)
    {b} (hres : σ.2.result = some b) : b = true ↔ r.query ∈ S := by
  obtain ⟨htrue, hfalse⟩ := val_of_result hc h.good
  rw [← h.val]
  cases b with
  | true => exact ⟨fun _ => htrue hres, fun _ => rfl⟩
  | false => exact ⟨nofun, fun hval => absurd hval (hfalse hres S fun _ => id)⟩

end

end

end OpenFGA.Check
