/-
  What the channels of an expansion carry, and the tuples behind it.

  Reads without an error yield exactly the tuples that are valid and whose condition is met.
  What a rewrite sends is put together from what its tuples or its operands send.
-/

import OpenFGA.ListUsers

namespace OpenFGA.ListUsers

open AuthorizationModel List Query

/-! ## Messages -/

section
variable {ms : List FoundUser} {operands : List (List FoundUser)} {u : User}

lemma mem_found : u ∈ found ms ↔
    ∃ m ∈ ms, m.relationshipStatus = .hasRelationship ∧ m.user = u := by
  simp [found, and_assoc]

lemma mem_found_flatten : u ∈ found operands.flatten ↔
    ∃ ms ∈ operands, u ∈ found ms := by
  simp only [mem_found, mem_flatten]
  exact ⟨fun ⟨m, ⟨ms, hms, hm⟩, h⟩ => ⟨ms, hms, m, hm, h⟩,
    fun ⟨ms, hms, m, hm, h⟩ => ⟨m, ⟨ms, hms, hm⟩, h⟩⟩

lemma found_unionOf : u ∈ found (unionOf operands) ↔ u ∈ found operands.flatten := by
  rw [mem_found]
  simp [unionOf]

/-- Counting the operands that have the user or the typed wildcard. -/
lemma count_eq_length_iff (operands : List (List FoundUser)) (u w : User) :
    (operands.countP fun ms => u ∈ found ms ∧ w ∉ found ms) +
        (operands.countP fun ms => w ∈ found ms) = operands.length ↔
      ∀ ms ∈ operands, u ∈ found ms ∨ w ∈ found ms := by
  have hsum : (operands.countP fun ms => u ∈ found ms ∧ w ∉ found ms) +
      (operands.countP fun ms => w ∈ found ms) =
      operands.countP fun ms => u ∈ found ms ∨ w ∈ found ms := by
    induction operands with
    | nil => rfl
    | cons ms rest ih =>
      by_cases hw : w ∈ found ms <;> by_cases hu : u ∈ found ms <;>
        simp [hw, hu] at ih ⊢ <;> omega
  rw [hsum, countP_eq_length]
  simp

end

/-! ## Tuples that are read -/

namespace Query

/-- The tuple is valid and its condition is met. -/
def Passes (q : Query) (t : TupleKey) : Prop :=
  q.typesys.validateTupleForRead t = true ∧ evaluateTupleCondition q.evaluation t = .ok true

/-- What the tuples grant.  The tuple of a user itself is looked up, and a contextual tuple
    comes before one of the store; all others are read with an iterator. -/
def grants (q : Query) : Grants where
  own o r u := ∃ t, (q.tuples.find? fun t => t.object = o ∧ t.relation = r ∧ t.user = u) = some t ∧
    q.Passes t
  any o r u := ∃ t ∈ q.tuples, t.object = o ∧ t.relation = r ∧ t.user = u ∧ q.Passes t

/-- No two tuples have the same object, relation and user. -/
def Distinct (q : Query) : Prop := (q.tuples.map fun t => (t.object, t.relation, t.user)).Nodup

variable {q : Query} {o : Object} {r : String} {u : User} {t : TupleKey}

lemma grants_any_of_own (h : q.grants.own o r u) : q.grants.any o r u := by
  obtain ⟨t, hfind, hpass⟩ := h
  have hkey := find?_some hfind
  simp only [decide_eq_true_eq] at hkey
  exact ⟨t, mem_of_find?_eq_some hfind, hkey.1, hkey.2.1, hkey.2.2, hpass⟩

lemma grants_own_of_any (hd : q.Distinct) (h : q.grants.any o r u) : q.grants.own o r u := by
  obtain ⟨t, ht, rfl, rfl, rfl, hpass⟩ := h
  cases hfind : q.tuples.find? fun t' => t'.object = t.object ∧ t'.relation = t.relation ∧
    t'.user = t.user with
  | none => exact absurd (find?_eq_none.mp hfind t ht) (by simp)
  | some t' =>
    have hkey := find?_some hfind
    simp only [decide_eq_true_eq] at hkey
    have heq : t' = t := inj_on_of_nodup_map hd (mem_of_find?_eq_some hfind) ht
      (Prod.ext hkey.1 (Prod.ext hkey.2.1 hkey.2.2))
    exact ⟨t', hfind, heq ▸ hpass⟩

lemma mem_filterTuples {done ts} (h : t ∈ (q.filterTuples done ts).1) : t ∈ ts ∧ q.Passes t := by
  induction ts with
  | nil => exact absurd h not_mem_nil
  | cons t' ts ih =>
    have hrest (h : t ∈ (q.filterTuples done ts).1) : t ∈ t' :: ts ∧ q.Passes t :=
      ⟨mem_cons_of_mem _ (ih h).1, (ih h).2⟩
    rw [filterTuples] at h
    by_cases hvalid : q.typesys.validateTupleForRead t' = true
    · simp only [hvalid, Bool.not_true, Bool.false_eq_true, if_false] at h
      cases hcond : evaluateTupleCondition q.evaluation t' with
      | ok b =>
        cases b with
        | false => exact hrest (by simpa [hcond] using h)
        | true =>
          simp only [hcond, mem_cons] at h
          rcases h with rfl | h
          · exact ⟨mem_cons_self, hvalid, hcond⟩
          · exact hrest h
      | error e =>
        simp only [hcond] at h
        split at h
        · exact hrest h
        · exact absurd h not_mem_nil
    · simp only [hvalid, Bool.not_false, if_true] at h
      exact hrest h

lemma filterTuples_complete {done ts} (h : (q.filterTuples done ts).2 = []) :
    done = none ∧ ∀ t ∈ ts, q.Passes t → t ∈ (q.filterTuples done ts).1 := by
  induction ts with
  | nil => exact ⟨by simpa [filterTuples] using h, nofun⟩
  | cons t' ts ih =>
    rw [filterTuples] at h ⊢
    by_cases hvalid : q.typesys.validateTupleForRead t' = true
    · simp only [hvalid, Bool.not_true, Bool.false_eq_true, if_false] at h ⊢
      cases hcond : evaluateTupleCondition q.evaluation t' with
      | ok b =>
        cases b with
        | false =>
          simp only [hcond] at h ⊢
          refine ⟨(ih h).1, fun t ht hpass => ?_⟩
          rcases mem_cons.mp ht with rfl | ht
          · exact absurd (hcond.symm.trans hpass.2) (by simp)
          · exact (ih h).2 t ht hpass
        | true =>
          simp only [hcond] at h ⊢
          refine ⟨(ih h).1, fun t ht hpass => ?_⟩
          rcases mem_cons.mp ht with rfl | ht
          · exact mem_cons_self
          · exact mem_cons_of_mem _ ((ih h).2 t ht hpass)
      | error e =>
        simp only [hcond] at h
        split at h <;> simp at h
    · simp only [hvalid, Bool.not_false, if_true] at h ⊢
      refine ⟨(ih h).1, fun t ht hpass => ?_⟩
      rcases mem_cons.mp ht with rfl | ht
      · exact absurd hpass.1 hvalid
      · exact (ih h).2 t ht hpass

lemma mem_read (h : t ∈ (q.read o r).1) :
    t ∈ q.tuples ∧ t.object = o ∧ t.relation = r ∧ q.Passes t := by
  obtain ⟨hmem, hpass⟩ := mem_filterTuples h
  have hfound : t ∈ q.tuples.filter fun t => t.object = o ∧ t.relation = r := by
    rw [readTuples] at hmem
    cases hfail : q.failure o r with
    | none => simpa [hfail] using hmem
    | some p =>
      simp only [hfail] at hmem
      exact mem_of_mem_take hmem
  simp only [mem_filter, decide_eq_true_eq] at hfound
  exact ⟨hfound.1, hfound.2.1, hfound.2.2, hpass⟩

lemma grants_any_of_mem_read (h : t ∈ (q.read o r).1) : q.grants.any o r t.user := by
  obtain ⟨hmem, ho, hr, hpass⟩ := mem_read h
  exact ⟨t, hmem, ho, hr, rfl, hpass⟩

lemma exists_mem_read (herr : (q.read o r).2 = []) (h : q.grants.any o r u) :
    ∃ t ∈ (q.read o r).1, t.user = u := by
  obtain ⟨t, ht, ho, hr, hu, hpass⟩ := h
  refine ⟨t, ?_, hu⟩
  obtain ⟨hdone, hall⟩ := filterTuples_complete herr
  refine hall t ?_ hpass
  rw [readTuples] at hdone ⊢
  cases hfail : q.failure o r with
  | none => simp [ht, ho, hr]
  | some p => simp [hfail] at hdone

lemma admits_of_grants_any (h : q.grants.any o r u) : q.typesys.Admits o.type r u := by
  obtain ⟨t, -, rfl, rfl, rfl, hpass⟩ := h
  exact TypeSystem.admits_of_valid hpass.1

lemma grantsAdmitted (q : Query) : q.typesys.GrantsAdmitted q.grants where
  own _ _ _ h := admits_of_grants_any (grants_any_of_own h)
  any _ _ _ h := admits_of_grants_any h

lemma exists_userset (h : u.isObjectRelation = true) : ∃ o r, u = .userset o r := by
  cases u <;> simp [User.isObjectRelation] at h ⊢

/-- The user of a tuple of a tupleset is an object. -/
lemma exists_object_of_tupleset {tupleset computed} (ht : t ∈ (q.read o tupleset).1)
    (hpart : q.typesys.PartOf o.type r (.tupleToUserset tupleset computed)) :
    ∃ o', t.user = .object o' := by
  obtain ⟨-, ho, hr, hpass⟩ := mem_read ht
  exact TypeSystem.object_of_tupleset hpass.1 ho hr hpart

/-! ## Leaves -/

variable {σ : Schedule} {dispatch : List Nat → Object → String → Expansion} {path : List Nat}
  {tupleset computed : String} {m : FoundUser} {type : String} {cs : List Userset}

lemma expandDirectTuple_userset {o' r'} (h : t.user = .userset o' r') :
    q.expandDirectTuple dispatch path t = dispatch path o' r' := by
  rw [expandDirectTuple, h]

lemma expandDirectTuple_of_not_userset (h : t.user.isObjectRelation = false) :
    q.expandDirectTuple dispatch path t =
      ⟨if q.userFilter.type = t.user.type then [.of t.user] else [], false, []⟩ := by
  rw [expandDirectTuple]
  cases hu : t.user with
  | object o => rfl
  | wildcard t => rfl
  | userset o r => simp [hu, User.isObjectRelation] at h

section
variable {α : Type} {xs : List α} {f : Nat → α → Expansion}

/-- What the goroutines of a pool send together, before it is put in order. -/
lemma sent_parts : (xs.mapIdx f).flatMap (·.sent) =
    (xs.zipIdx.map fun p => (f p.2 p.1).sent).flatten := by
  rw [mapIdx_eq_zipIdx_map, flatMap_def, map_map]
  rfl

lemma errs_parts (h : (xs.mapIdx f).flatMap (·.errs) = []) {p} (hp : p ∈ xs.zipIdx) :
    (f p.2 p.1).errs = [] := by
  rw [mapIdx_eq_zipIdx_map] at h
  exact flatMap_eq_nil_iff.mp h _ (mem_map_of_mem hp)

end

/-- The operands are expanded one by one. -/
lemma expandRewrites_eq {i} : q.expandRewrites σ dispatch o r path i cs =
    (cs.zipIdx i).map fun p => q.expandRewrite σ dispatch o r (p.2 :: path) p.1 := by
  induction cs generalizing i with
  | nil => rfl
  | cons c cs ih => rw [expandRewrites, ih, zipIdx_cons, map_cons]

lemma sent_operands : (q.expandRewrites σ dispatch o r path 0 cs).map (·.sent) =
    cs.zipIdx.map fun p => (q.expandRewrite σ dispatch o r (p.2 :: path) p.1).sent := by
  rw [expandRewrites_eq, map_map]
  rfl

lemma errs_operands (h : (q.expandRewrites σ dispatch o r path 0 cs).flatMap (·.errs) = []) {p}
    (hp : p ∈ cs.zipIdx) : (q.expandRewrite σ dispatch o r (p.2 :: path) p.1).errs = [] := by
  rw [expandRewrites_eq] at h
  exact flatMap_eq_nil_iff.mp h _ (mem_map_of_mem hp)

lemma exists_operand {i e} (h : e ∈ q.expandRewrites σ dispatch o r path i cs) :
    ∃ c ∈ cs, ∃ path', e = q.expandRewrite σ dispatch o r path' c := by
  rw [expandRewrites_eq] at h
  obtain ⟨p, hp, rfl⟩ := mem_map.mp h
  exact ⟨p.1, fst_mem_of_mem_zipIdx hp, _, rfl⟩

/-! ## expand -/

variable {n : Nat} {visited : List (Object × String)}

lemma expand_of_ok {rel} (hv : (o, r) ∉ visited)
    (hrel : q.typesys.getRelation o.type r = .ok rel) :
    q.expand σ (n + 1) visited path o r =
      ⟨q.selfUser o r ++
          (q.expandRewrite σ (q.expand σ n ((o, r) :: visited)) o r path rel.rewrite).sent,
        (q.expandRewrite σ (q.expand σ n ((o, r) :: visited)) o r path rel.rewrite).hasCycle,
        (q.expandRewrite σ (q.expand σ n ((o, r) :: visited)) o r path rel.rewrite).errs⟩ := by
  simp only [expand, if_neg hv, hrel]

lemma mem_expand (h : m ∈ (q.expand σ n visited path o r).sent) : m ∈ q.selfUser o r ∨
    ∃ k rel, n = k + 1 ∧ q.typesys.getRelation o.type r = .ok rel ∧
      m ∈ (q.expandRewrite σ (q.expand σ k ((o, r) :: visited)) o r path rel.rewrite).sent := by
  cases n with
  | zero => exact absurd h not_mem_nil
  | succ n =>
    by_cases hv : (o, r) ∈ visited
    · simp [expand, hv] at h
    · cases hrel : q.typesys.getRelation o.type r with
      | error e => cases e <;> exact .inl (by simpa [expand, hv, hrel] using h)
      | ok rel =>
        rw [expand_of_ok hv hrel] at h
        exact (mem_append.mp h).imp_right fun h => ⟨n, rel, rfl, rfl, h⟩

lemma mem_selfUser (h : m ∈ q.selfUser o r) : m = .of (.userset o r) := by
  rw [selfUser] at h
  split_ifs at h
  · exact mem_singleton.mp h
  · exact absurd h not_mem_nil

end Query

end OpenFGA.ListUsers
