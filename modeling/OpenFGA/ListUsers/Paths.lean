/-
  The paths along which an expansion goes, and the errors it meets on them.

  An expansion goes from a userset to those that its tuples and its rewrite lead to.  It
  meets an error only where a read or a condition fails, or on a path that is too long.
-/

import OpenFGA.ListUsers.Messages

namespace OpenFGA.ListUsers.Query

open AuthorizationModel TypeSystem List

/-- The rewrite of the first userset leads to the second. -/
def Leads (q : Query) : Object × String → Object × String → Prop :=
  q.typesys.Leads q.grants

variable {q : Query} {σ : Schedule} {o : Object} {r : String} {w : Userset} {y : Object × String}
  {dispatch : List Nat → Object → String → Expansion} {path : List Nat} {n : Nat}
  {visited : List (Object × String)}

lemma leafLeads_of_read {t o' r'} (ht : t ∈ (q.read o r).1)
    (hu : t.user = .userset o' r') : q.grants.LeafLeads o r .this (o', r') :=
  .this (hu ▸ grants_any_of_mem_read ht)

lemma leafLeads_of_read_tupleset {t tupleset computed} (ht : t ∈ (q.read o tupleset).1)
    (hpart : q.typesys.PartOf o.type r (.tupleToUserset tupleset computed)) :
    q.grants.LeafLeads o r (.tupleToUserset tupleset computed) (splitObject t.user, computed) := by
  obtain ⟨o', hu⟩ := exists_object_of_tupleset ht hpart
  rw [hu]
  exact .tupleToUserset (hu ▸ grants_any_of_mem_read ht)

lemma type_defined_of_leafLeads {l} (h : q.grants.LeafLeads o r l y)
    (htype : (q.typesys.getTypeDefinition o.type).isSome = true) :
    (q.typesys.getTypeDefinition y.1.type).isSome = true := by
  have hadmits : ∀ {r' : String} {u : User}, q.grants.any o r' u →
      (q.typesys.getTypeDefinition u.type).isSome = true := by
    intro r' u hany
    obtain ⟨rel, hrel, d, hd, htype, -⟩ := admits_of_grants_any hany
    exact htype ▸ restriction_type_defined hrel hd
  cases h with
  | this hany => exact hadmits hany
  | computedUserset => exact htype
  | tupleToUserset hany => exact hadmits hany

/-- A rewrite meets no error of its own, besides those of its reads. -/
lemma errs_expandRewrite (hread : ∀ o r, (q.read o r).2 = []) (hpart : q.typesys.PartOf o.type r w)
    (hd : ∀ path y, (∃ l ∈ w.leaves, q.grants.LeafLeads o r l y) →
      (dispatch path y.1 y.2).errs = []) :
    (q.expandRewrite σ dispatch o r path w).errs = [] := by
  induction w generalizing path with
  | this =>
    refine append_eq_nil_iff.mpr ⟨hread o r, flatMap_eq_nil_iff.mpr fun e he => ?_⟩
    obtain ⟨i, hi, rfl⟩ := mem_mapIdx.mp he
    cases hu : ((q.read o r).1[i]).user.isObjectRelation with
    | false => rw [expandDirectTuple_of_not_userset hu]
    | true =>
      obtain ⟨o', r', hu⟩ := exists_userset hu
      rw [expandDirectTuple_userset hu]
      exact hd _ (o', r') ⟨_, mem_singleton_self _, leafLeads_of_read (getElem_mem hi) hu⟩
  | computedUserset computed => exact hd _ (o, computed) ⟨_, mem_singleton_self _, .computedUserset⟩
  | tupleToUserset tupleset computed =>
    refine append_eq_nil_iff.mpr ⟨flatMap_eq_nil_iff.mpr fun e he => ?_, hread o tupleset⟩
    obtain ⟨i, hi, rfl⟩ := mem_mapIdx.mp he
    exact hd _ (_, computed) ⟨_, mem_singleton_self _,
      leafLeads_of_read_tupleset (getElem_mem hi) hpart⟩
  | union cs ih =>
    refine flatMap_eq_nil_iff.mpr fun e he => ?_
    obtain ⟨c, hc, path', rfl⟩ := exists_operand he
    exact ih c hc (hpart.of_union hc) fun path y ⟨l, hl, hleads⟩ =>
      hd path y ⟨l, Userset.mem_leavesOf.mpr ⟨c, hc, hl⟩, hleads⟩
  | intersection cs ih =>
    refine flatMap_eq_nil_iff.mpr fun e he => ?_
    obtain ⟨c, hc, path', rfl⟩ := exists_operand he
    exact ih c hc (hpart.of_intersection hc) fun path y ⟨l, hl, hleads⟩ =>
      hd path y ⟨l, Userset.mem_leavesOf.mpr ⟨c, hc, hl⟩, hleads⟩
  | difference b s ihb ihs =>
    simp only [expandRewrite]
    split_ifs
    · rfl
    · exact append_eq_nil_iff.mpr
        ⟨ihb hpart.base fun path y ⟨l, hl, hleads⟩ =>
            hd path y ⟨l, mem_append_left _ hl, hleads⟩,
          ihs hpart.subtract fun path y ⟨l, hl, hleads⟩ =>
            hd path y ⟨l, mem_append_right _ hl, hleads⟩⟩

/-! ## Runs without errors -/

/-- Reads do not fail, and conditions can be evaluated. -/
structure Reliable (q : Query) : Prop where
  failure : ∀ o r, q.failure o r = none
  condition : ∀ t ∈ q.tuples, q.typesys.validateTupleForRead t = true →
    ∃ b, evaluateTupleCondition q.evaluation t = .ok b

lemma filterTuples_errs {ts} (h : ∀ t ∈ ts, q.typesys.validateTupleForRead t = true →
    ∃ b, evaluateTupleCondition q.evaluation t = .ok b) : (q.filterTuples none ts).2 = [] := by
  induction ts with
  | nil => rfl
  | cons t ts ih =>
    have hrest := ih fun t' ht' => h t' (mem_cons_of_mem _ ht')
    rw [filterTuples]
    cases hvalid : q.typesys.validateTupleForRead t with
    | false => exact hrest
    | true =>
      obtain ⟨b, hb⟩ := h t mem_cons_self hvalid
      cases b <;> simp [hb, hrest]

theorem Reliable.read (h : q.Reliable) (o : Object) (r : String) : (q.read o r).2 = [] := by
  rw [Query.read, readTuples, h.failure o r]
  exact filterTuples_errs fun t ht => h.condition t (mem_of_mem_filter ht)

/-- Every path from the userset that visits no userset twice is shorter than the limit.
    Paths are listed from their end. -/
def WithinLimit (q : Query) (x : Object × String) : Prop :=
  ∀ p : List (Object × String), p.IsChain (fun a b => q.Leads b a) → p.getLast? = some x →
    p.Nodup → p.length < q.resolveNodeLimit

/-- Nothing on the paths from a userset ends in an error. -/
lemma errs_expand_of_reliable (h : q.Reliable) {x} (hlimit : q.WithinLimit x)
    (hchain : ((o, r) :: visited).IsChain fun a b => q.Leads b a)
    (hlast : ((o, r) :: visited).getLast? = some x) (hnodup : visited.Nodup)
    (hn : n + visited.length = q.resolveNodeLimit)
    (htype : (q.typesys.getTypeDefinition o.type).isSome = true) :
    (q.expand σ n visited path o r).errs = [] := by
  induction n generalizing visited path o r with
  | zero =>
    -- the path ends where it would be too long
    cases visited with
    | nil =>
      have := hlimit [(o, r)] hchain hlast (nodup_singleton _)
      simp only [length_nil] at hn
      omega
    | cons y ys =>
      have := hlimit (y :: ys) (isChain_cons_cons.mp hchain).2 (by simpa using hlast) hnodup
      omega
  | succ n ih =>
    by_cases hv : (o, r) ∈ visited
    · simp [expand, hv]
    · cases hrel : q.typesys.getRelation o.type r with
      | error e =>
        cases e with
        | relationUndefined t r => simp [expand, hv, hrel]
        | objectTypeUndefined t =>
          obtain ⟨td, htd⟩ := Option.isSome_iff_exists.mp htype
          rw [getRelation, htd] at hrel
          cases hlookup : td.relations.lookup r <;> simp [hlookup] at hrel
      | ok rel =>
        rw [expand_of_ok hv hrel]
        refine errs_expandRewrite h.read (.root hrel) ?_
        rintro path ⟨o', r'⟩ ⟨l, hl, hleads⟩
        refine ih ?_ ?_ (nodup_cons.mpr ⟨hv, hnodup⟩) ?_ (type_defined_of_leafLeads hleads htype)
        · exact isChain_cons_cons.mpr ⟨⟨rel, hrel, l, hl, hleads⟩, hchain⟩
        · simpa using hlast
        · rw [length_cons]
          omega

/-! ## Runs without a deadline -/

/-- No read and no condition ends because of a deadline. -/
structure BeforeDeadline (q : Query) : Prop where
  failure : ∀ o r n e, q.failure o r = some (n, e) → e ≠ .deadlineExceeded
  condition : ∀ t e, evaluateTupleCondition q.evaluation t = .error e → e ≠ .deadlineExceeded

/-- None of the errors is a deadline. -/
def NoDeadline (errs : List ExpandError) : Prop := ∀ e ∈ errs, e.isDeadlineExceeded = false

theorem NoDeadline.append {errs errs'} (h : NoDeadline errs)
    (h' : NoDeadline errs') : NoDeadline (errs ++ errs') :=
  fun e he => (mem_append.mp he).elim (h e) (h' e)

lemma NoDeadline.flatMap {α : Type} {f : α → List ExpandError} {xs : List α}
    (h : ∀ x ∈ xs, NoDeadline (f x)) : NoDeadline (xs.flatMap f) := by
  intro e he
  obtain ⟨x, hx, he⟩ := mem_flatMap.mp he
  exact h x hx e he

lemma noDeadline_filterTuples (h : q.BeforeDeadline) {done}
    (hdone : ∀ e, done = some e → e ≠ .deadlineExceeded) {ts} :
    NoDeadline (q.filterTuples done ts).2 := by
  induction ts with
  | nil =>
    cases done with
    | none => exact forall_mem_nil _
    | some e =>
      intro e' he'
      rw [mem_singleton.mp he']
      simpa [ExpandError.isDeadlineExceeded] using hdone e rfl
  | cons t ts ih =>
    rw [filterTuples]
    cases q.typesys.validateTupleForRead t with
    | false => exact ih
    | true =>
      simp only [Bool.not_true, Bool.false_eq_true, if_false]
      cases hcond : evaluateTupleCondition q.evaluation t with
      | ok b => cases b <;> exact ih
      | error e =>
        have he : (ExpandError.condition e).isDeadlineExceeded = false := by
          simpa [ExpandError.isDeadlineExceeded] using h.condition t e hcond
        simp only []
        split_ifs
        · exact forall_mem_cons.mpr ⟨he, ih⟩
        · exact forall_mem_cons.mpr ⟨he, forall_mem_nil _⟩

lemma noDeadline_read (h : q.BeforeDeadline) : NoDeadline (q.read o r).2 := by
  refine noDeadline_filterTuples h fun e he => ?_
  rw [readTuples] at he
  cases hfail : q.failure o r with
  | none => simp [hfail] at he
  | some p =>
    simp only [hfail, Option.some.injEq] at he
    exact h.failure o r p.1 e (by rw [hfail, ← he])

lemma noDeadline_expandRewrite (h : q.BeforeDeadline)
    (hd : ∀ path o r, NoDeadline (dispatch path o r).errs) :
    NoDeadline (q.expandRewrite σ dispatch o r path w).errs := by
  induction w generalizing path with
  | this =>
    refine (noDeadline_read h).append (.flatMap fun e he => ?_)
    obtain ⟨i, hi, rfl⟩ := mem_mapIdx.mp he
    rw [expandDirectTuple]
    split
    · exact hd _ _ _
    · exact forall_mem_nil _
  | computedUserset computed => exact hd _ _ _
  | tupleToUserset tupleset computed =>
    refine NoDeadline.append (.flatMap fun e he => ?_) (noDeadline_read h)
    obtain ⟨i, hi, rfl⟩ := mem_mapIdx.mp he
    exact hd _ _ _
  | union cs ih | intersection cs ih =>
    refine .flatMap fun e he => ?_
    obtain ⟨c, hc, path', rfl⟩ := exists_operand he
    exact ih c hc
  | difference b s ihb ihs =>
    simp only [expandRewrite]
    split_ifs
    · exact forall_mem_nil _
    · exact ihb.append ihs

lemma noDeadline_expand (h : q.BeforeDeadline) :
    NoDeadline (q.expand σ n visited path o r).errs := by
  induction n generalizing visited path o r with
  | zero => exact forall_mem_singleton.mpr rfl
  | succ n ih =>
    by_cases hv : (o, r) ∈ visited
    · simp [expand, hv, NoDeadline]
    · cases hrel : q.typesys.getRelation o.type r with
      | error e => cases e <;> simp [expand, hv, hrel, NoDeadline, ExpandError.isDeadlineExceeded]
      | ok rel =>
        rw [expand_of_ok hv hrel]
        exact noDeadline_expandRewrite h fun _ _ _ => ih

/-! ## Paths without cycles -/

/-- No path returns to a userset. -/
def Acyclic (q : Query) : Prop := ∀ x, ¬ Relation.TransGen q.Leads x x

lemma acyclic_of_ranked {ρ : String × String → Nat}
    (h : RefsRanked q.typesys.toAuthorizationModel ρ = true) : q.Acyclic := by
  intro x hx
  have hlt : ∀ y, Relation.TransGen q.Leads x y → ρ (y.1.type, y.2) < ρ (x.1.type, x.2) := by
    intro y hy
    induction hy with
    | single hstep => exact q.grantsAdmitted.rank_lt_of_leads h _ _ hstep
    | tail _ hstep ih => exact (q.grantsAdmitted.rank_lt_of_leads h _ _ hstep).trans ih
  exact lt_irrefl _ (hlt x hx)

end OpenFGA.ListUsers.Query
