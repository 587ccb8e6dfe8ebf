/-
  `Write` of MySQL and PostgreSQL (`GetDeleteWriteChangelogItems` in
  `pkg/storage/sqlcommon/sqlcommon.go`), against the memory backend.

  The SQL path reads the rows of the request, decides what to delete and to insert, and does that
  in one transaction.  There is no other writer.  The statements are split in batches of 100
  items; since all keys are different this is the same as one statement for each table.

  Both backends keep the same tuples and log the same changes (`after`, `Memory.write_eq`,
  `SqlStore.write_eq`), up to how they find out whether a write repeats a stored tuple.
-/

import OpenFGA.Storage.KeyStrings

namespace OpenFGA.Write

open OpenFGA.Tuple Storage List

namespace SqlStore

/-- A row of the table of tuples. -/
structure Row (S : Type) where
  key : RecordKey
  userType : UserKind
  conditionName : String
  conditionContext : Option (List UInt8)
deriving DecidableEq, Repr

/-- A row of the changelog. -/
structure ChangeRow (S : Type) where
  key : RecordKey
  conditionName : String
  conditionContext : Option (List UInt8)
  operation : TupleOperation
deriving DecidableEq, Repr

/-- The two tables, for one store. -/
structure State (S : Type) where
  rows : List (Row S)
  changelog : List (ChangeRow S)
deriving DecidableEq, Repr

section
variable {S : Type} (P : Structs S)

/-- `MarshalRelationshipCondition`: a context without fields is as good as none. -/
def marshalRelationshipCondition : Option (Condition S) → String × Option (List UInt8)
  | none => ("", none)
  | some c => (c.name, match c.context with
      | none => none
      | some context => if P.hasFields context then some (P.marshal context) else none)

/-- The tuple that is read from a row. -/
def Row.asTuple (r : Row S) : TupleKey S :=
  (⟨r.key, r.conditionName, r.conditionContext.map P.unmarshal⟩ : Record S).asTuple P

/-- The change that `ReadChanges` reads from a row. -/
def ChangeRow.asChange (r : ChangeRow S) : Change S :=
  ⟨newTupleKeyWithCondition P (buildObject r.key.objectType r.key.objectID)
    r.key.relation r.key.user
    r.conditionName (some (if r.conditionName = "" then P.empty
      else (r.conditionContext.map P.unmarshal).getD P.empty)), r.operation⟩

/-- The key that a row is looked for by, with its `user_type`. -/
def lockKey (tk : KeyWithoutCondition) : RecordKey × UserKind :=
  (RecordKey.of tk.object tk.relation tk.user, getUserTypeFromUser tk.user)

/-- The row that is inserted for a write. -/
def row (t : TupleKey S) : Row S :=
  ⟨RecordKey.of t.object t.relation t.user, getUserTypeFromUser t.user,
    (marshalRelationshipCondition P t.condition).1, (marshalRelationshipCondition P t.condition).2⟩

/-- The row of the changelog for a write. -/
def writeChange (t : TupleKey S) : ChangeRow S :=
  ⟨RecordKey.of t.object t.relation t.user, (marshalRelationshipCondition P t.condition).1,
    (marshalRelationshipCondition P t.condition).2, .write⟩

/-- The row of the changelog for a delete. -/
def deleteChange (tk : KeyWithoutCondition) : ChangeRow S :=
  ⟨RecordKey.of tk.object tk.relation tk.user, "", none, .delete⟩

/-- The tuples of the request that are there, by `TupleKeyToString`.  A later one replaces an
    earlier one. -/
def existing (rows : List (Row S)) (req : Request S) (key : String) : Option (TupleKey S) :=
  let locked := req.deletes.map lockKey ++ req.writes.map fun t => lockKey t.toKeyWithoutCondition
  let items := (rows.filter fun r => locked.contains (r.key, r.userType)).map (Row.asTuple P)
  items.reverse.find? fun t => tupleKeyToString t.toKeyWithoutCondition = key

/-- `proto.Equal` on conditions, either of which may be nil. -/
def equalCondition : Option (Condition S) → Option (Condition S) → Bool
  | none, none => true
  | some c, some d => c.name = d.name && (match c.context, d.context with
      | none, none => true
      | some x, some y => P.equal x y
      | _, _ => false)
  | _, _ => false

/-- The loop of `GetDeleteWriteChangelogItems` over the deletes: what is to be deleted. -/
def deleteItems (existing : String → Option (TupleKey S)) (onMissingDelete : OnMissingDelete) :
    List KeyWithoutCondition → Except WriteError (List KeyWithoutCondition)
  | [] => .ok []
  | tk :: deletes =>
    match existing (tupleKeyToString tk) with
    | some _ => (deleteItems existing onMissingDelete deletes).map (tk :: ·)
    | none =>
      match onMissingDelete with
      | .ignore => deleteItems existing onMissingDelete deletes
      | .error => .error (.invalidWriteInput tk .delete)

/-- The loop over the writes: what is to be inserted. -/
def writeItems (existing : String → Option (TupleKey S)) (onDuplicateInsert : OnDuplicateInsert) :
    List (TupleKey S) → Except WriteError (List (TupleKey S))
  | [] => .ok []
  | tk :: writes =>
    match existing (tupleKeyToString tk.toKeyWithoutCondition) with
    | none => (writeItems existing onDuplicateInsert writes).map (tk :: ·)
    | some t =>
      match onDuplicateInsert with
      | .ignore =>
        if equalCondition P t.condition tk.condition then
          writeItems existing onDuplicateInsert writes
        else .error (.tupleConditionConflict tk.toKeyWithoutCondition)
      | .error => .error (.invalidWriteInput tk.toKeyWithoutCondition .write)

/-- `GetDeleteWriteChangelogItems`: the keys to delete, the rows to insert, and the rows of the
    changelog. -/
def getDeleteWriteChangelogItems (existing : String → Option (TupleKey S)) (req : Request S) :
    Except WriteError (List (RecordKey × UserKind) × List (Row S) × List (ChangeRow S)) := do
  let deletes ← deleteItems existing req.onMissingDelete req.deletes
  let writes ← writeItems P existing req.onDuplicateInsert req.writes
  pure (deletes.map lockKey, writes.map (row P),
    deletes.map deleteChange ++ writes.map (writeChange P))

/-- `Write`.  An error rolls the transaction back. -/
def write (s : State S) (req : Request S) : State S × Option WriteError :=
  if req.deletes = [] ∧ req.writes = [] then (s, none)
  else match getDeleteWriteChangelogItems P (existing P s.rows req) req with
    | .error e => (s, some e)
    | .ok (deleteConditions, items, changes) =>
      let deleted := fun r : Row S => deleteConditions.contains (r.key, r.userType)
      let rows := s.rows.filter fun r => !deleted r
      if (s.rows.filter deleted).length ≠ deleteConditions.length then
        (s, some .writeConflictOnDelete)
      else if ¬ ((rows ++ items).map Row.key).Nodup then (s, some .writeConflictOnInsert)
      else (⟨rows ++ items, s.changelog ++ changes⟩, none)

end

end SqlStore

/-! ## Stored tuples -/

section
variable {S : Type}

/-- A valid tuple; a condition has a name. -/
def TupleKey.Valid (t : TupleKey S) : Prop :=
  t.toKeyWithoutCondition.Valid ∧ ∀ c, t.condition = some c → c.name ≠ ""

variable (S) in
/-- A set of stored tuples, as they were written. -/
structure Stored where
  tuples : List (TupleKey S)
  valid : ∀ t ∈ tuples, t.Valid
  unique : (tuples.map TupleKey.toKeyWithoutCondition).Nodup

variable (S) in
/-- A request in which the deletes are valid tuples, too. -/
structure ValidRequest extends Request S where
  valid : ∀ d ∈ deletes, d.Valid

/-- The tuple with this key. -/
def Stored.lookup (T : Stored S) (tk : KeyWithoutCondition) : Option (TupleKey S) :=
  T.tuples.find? fun t => t.toKeyWithoutCondition = tk

lemma RecordKey.of_inj {tk tk' : KeyWithoutCondition} (h : tk.Valid) (h' : tk'.Valid) :
    RecordKey.of tk.object tk.relation tk.user = RecordKey.of tk'.object tk'.relation tk'.user ↔
      tk = tk' := by
  constructor
  · intro heq
    have htype : (splitObject tk.object).1 = (splitObject tk'.object).1 :=
      congrArg RecordKey.objectType heq
    have hid : (splitObject tk.object).2 = (splitObject tk'.object).2 :=
      congrArg RecordKey.objectID heq
    have hrel : tk.relation = tk'.relation := congrArg RecordKey.relation heq
    have huser : tk.user = tk'.user := congrArg RecordKey.user heq
    have hobject : tk.object = tk'.object := by
      rw [← buildObject_splitObject h.1, ← buildObject_splitObject h'.1, htype, hid]
    obtain ⟨object, relation, user⟩ := tk
    obtain ⟨object', relation', user'⟩ := tk'
    simp only at hobject hrel huser
    rw [hobject, hrel, huser]
  · rintro rfl
    rfl

variable {T : Stored S} {tk : KeyWithoutCondition} {t : TupleKey S}

theorem Stored.lookup_eq_some :
    T.lookup tk = some t ↔ t ∈ T.tuples ∧ t.toKeyWithoutCondition = tk := by
  constructor
  · intro h
    exact ⟨mem_of_find?_eq_some h, by simpa using find?_some h⟩
  · rintro ⟨ht, rfl⟩
    cases h : T.lookup t.toKeyWithoutCondition with
    | none => simpa using find?_eq_none.mp h t ht
    | some t' =>
      have hkey : t'.toKeyWithoutCondition = t.toKeyWithoutCondition := by
        simpa using find?_some h
      rw [inj_on_of_nodup_map T.unique (mem_of_find?_eq_some h) ht hkey]

lemma Stored.lookup_eq_none :
    T.lookup tk = none ↔ ∀ t ∈ T.tuples, t.toKeyWithoutCondition ≠ tk := by
  rw [lookup, find?_eq_none]
  simp

/-- A search that stops at what stands for the tuple with this key. -/
lemma Stored.find?_eq {α : Type} {l : List α} {p : α → Bool} {f : TupleKey S → α}
    (hstored : ∀ x ∈ l, p x = true → ∃ t ∈ T.tuples, t.toKeyWithoutCondition = tk ∧ f t = x)
    (hfound : ∀ t ∈ T.tuples, t.toKeyWithoutCondition = tk → f t ∈ l ∧ p (f t) = true) :
    l.find? p = (T.lookup tk).map f := by
  cases hfind : l.find? p with
  | none =>
    cases hlookup : T.lookup tk with
    | none => rfl
    | some t =>
      obtain ⟨ht, hkey⟩ := Stored.lookup_eq_some.mp hlookup
      obtain ⟨hmem, hp⟩ := hfound t ht hkey
      exact absurd hp (find?_eq_none.mp hfind _ hmem)
  | some x =>
    obtain ⟨t, ht, hkey, rfl⟩ := hstored x (mem_of_find?_eq_some hfind) (find?_some hfind)
    rw [Stored.lookup_eq_some.mpr ⟨ht, hkey⟩, Option.map_some]

end

/-! ## What both backends do -/

section
variable {S : Type}

/-- What is wrong with a delete. -/
def missing (T : Stored S) (onMissingDelete : OnMissingDelete) (d : KeyWithoutCondition) :
    Option WriteError :=
  match T.lookup d, onMissingDelete with
  | some _, _ => none
  | none, .ignore => none
  | none, .error => some (.invalidWriteInput d .delete)

/-- What is wrong with a write, where `same` compares the conditions. -/
def refused (same : TupleKey S → TupleKey S → Bool) (T : Stored S)
    (onDuplicateInsert : OnDuplicateInsert) (w : TupleKey S) : Option WriteError :=
  match T.lookup w.toKeyWithoutCondition, onDuplicateInsert with
  | none, _ => none
  | some t, .ignore =>
    if same t w then none else some (.tupleConditionConflict w.toKeyWithoutCondition)
  | some _, .error => some (.invalidWriteInput w.toKeyWithoutCondition .write)

/-- The first thing that is wrong with a request. -/
def check (same : TupleKey S → TupleKey S → Bool) (T : Stored S) (req : Request S) :
    Option WriteError :=
  (req.deletes.findSome? (missing T req.onMissingDelete)).or
    (req.writes.findSome? (refused same T req.onDuplicateInsert))

/-- The tuples that are removed. -/
def removed (T : Stored S) (req : Request S) : List (TupleKey S) :=
  T.tuples.filter fun t => t.toKeyWithoutCondition ∈ req.deletes

/-- The deletes of stored tuples. -/
def present (T : Stored S) (req : Request S) : List KeyWithoutCondition :=
  req.deletes.filter fun d => (T.lookup d).isSome

/-- The writes of tuples that are not stored. -/
def added (T : Stored S) (req : Request S) : List (TupleKey S) :=
  req.writes.filter fun w => (T.lookup w.toKeyWithoutCondition).isNone

lemma Request.validWrite (req : Request S) {w} (hw : w ∈ req.writes) : w.Valid :=
  have h := req.validWrites w hw
  ⟨⟨h.1, h.2.1, h.2.2.1⟩, h.2.2.2⟩

lemma Request.deletes_nodup (req : Request S) : req.deletes.Nodup :=
  (nodup_append.mp req.noDuplicates).1.of_map

lemma Request.writes_nodup (req : Request S) :
    (req.writes.map TupleKey.toKeyWithoutCondition).Nodup := by
  have h := (nodup_append.mp req.noDuplicates).2.1
  rw [← Function.comp_def, ← map_map] at h
  exact h.of_map

/-- The tuples that are stored after a request that succeeds. -/
def after (T : Stored S) (req : Request S) : Stored S where
  tuples := (T.tuples.filter fun t => t.toKeyWithoutCondition ∉ req.deletes) ++ added T req
  valid t ht := by
    rcases mem_append.mp ht with ht | ht
    · exact T.valid t (mem_of_mem_filter ht)
    · exact req.validWrite (mem_of_mem_filter ht)
  unique := by
    rw [map_append, nodup_append]
    refine ⟨T.unique.sublist (filter_sublist.map _),
      req.writes_nodup.sublist (filter_sublist.map _), fun k hk k' hk' heq => ?_⟩
    obtain ⟨t, ht, rfl⟩ := mem_map.mp hk
    obtain ⟨w, hw, rfl⟩ := mem_map.mp hk'
    have hnone : T.lookup w.toKeyWithoutCondition = none := by simpa using (mem_filter.mp hw).2
    exact Stored.lookup_eq_none.mp hnone t (mem_of_mem_filter ht) heq

/-- The deletes of stored tuples are the keys of the tuples that are removed. -/
lemma removed_perm (T : Stored S) (req : Request S) :
    ((removed T req).map TupleKey.toKeyWithoutCondition).Perm (present T req) := by
  have hremoved : ((removed T req).map TupleKey.toKeyWithoutCondition).Nodup :=
    T.unique.sublist (filter_sublist.map _)
  have hpresent : (present T req).Nodup := req.deletes_nodup.sublist filter_sublist
  rw [perm_ext_iff_of_nodup hremoved hpresent]
  intro d
  simp only [removed, present, mem_map, mem_filter, decide_eq_true_iff,
    Option.isSome_iff_exists, Stored.lookup_eq_some]
  constructor
  · rintro ⟨t, ⟨ht, hd⟩, rfl⟩
    exact ⟨hd, t, ht, rfl⟩
  · rintro ⟨hd, t, ht, rfl⟩
    exact ⟨t, ⟨ht, hd⟩, rfl⟩

/-- The stored tuples that a request removes and keeps, as a backend holds them. -/
lemma filter_removed {α : Type} {T req} {f : TupleKey S → α}
    {p : α → Bool} (hp : ∀ t ∈ T.tuples, p (f t) = decide (t.toKeyWithoutCondition ∈ req.deletes)) :
    (T.tuples.map f).filter p = (removed T req).map f ∧ ((T.tuples.map f).filter fun x => !p x) =
      (T.tuples.filter fun t => t.toKeyWithoutCondition ∉ req.deletes).map f := by
  rw [filter_map, filter_map, removed]
  refine ⟨congrArg _ (filter_congr hp), congrArg _ (filter_congr fun t ht => ?_)⟩
  rw [Function.comp_apply, hp t ht, decide_not]

end

/-! ## The memory backend -/

section
variable {S : Type} {P : Structs S} {T : Stored S} {req : ValidRequest S} {cs : List (Change S)}
  {tk : KeyWithoutCondition}

lemma Memory.isMatch_record {t : TupleKey S}
    (ht : t.toKeyWithoutCondition.Valid) (htk : tk.Valid) :
    Memory.isMatch (Memory.record t) tk = true ↔ t.toKeyWithoutCondition = tk := by
  rw [Memory.isMatch_iff htk.1 htk.2.1 htk.2.2]
  exact RecordKey.of_inj ht htk

lemma Memory.find_eq (htk : tk.Valid) :
    find (T.tuples.map record) tk = (T.lookup tk).map record := by
  refine Stored.find?_eq (fun x hx hm => ?_) fun t ht hkey => ?_
  · obtain ⟨t, ht, rfl⟩ := mem_map.mp hx
    exact ⟨t, ht, (isMatch_record (T.valid t ht).1 htk).mp hm, rfl⟩
  · exact ⟨mem_map.mpr ⟨t, ht, rfl⟩, (isMatch_record (T.valid t ht).1 htk).mpr hkey⟩

/-- The comparison of the memory backend. -/
def Memory.same (P : Structs S) (t w : TupleKey S) : Bool := sameCondition P (record t) w

lemma Memory.sanitizeDeletes_eq (om : OnMissingDelete) {ds} (hvalid : ∀ d ∈ ds, d.1.Valid) :
    match sanitizeDeletes (T.tuples.map record) om ds with
    | .ok _ => (ds.map Prod.fst).findSome? (missing T om) = none
    | .error e => (ds.map Prod.fst).findSome? (missing T om) = some e := by
  induction ds with
  | nil => rfl
  | cons d ds ih =>
    obtain ⟨tk, i⟩ := d
    have htk := hvalid (tk, i) mem_cons_self
    have ih := ih fun d hd => hvalid d (mem_cons_of_mem _ hd)
    rw [map_cons, findSome?_cons]
    simp only [sanitizeDeletes, find_eq htk, missing]
    cases hlookup : T.lookup tk with
    | some t => simpa using ih
    | none =>
      cases om with
      | error => simp
      | ignore =>
        cases hrest : sanitizeDeletes (T.tuples.map record) .ignore ds with
        | error e | ok dup => simpa [hrest, Except.map] using ih

lemma Memory.sanitizeWrites_eq (od : OnDuplicateInsert) {ws}
    (hvalid : ∀ w ∈ ws, w.1.toKeyWithoutCondition.Valid) :
    match sanitizeWrites P (T.tuples.map record) od ws with
    | .ok _ => (ws.map Prod.fst).findSome? (refused (same P) T od) = none
    | .error e => (ws.map Prod.fst).findSome? (refused (same P) T od) = some e := by
  induction ws with
  | nil => rfl
  | cons w ws ih =>
    obtain ⟨tk, i⟩ := w
    have htk := hvalid (tk, i) mem_cons_self
    have ih := ih fun w hw => hvalid w (mem_cons_of_mem _ hw)
    rw [map_cons, findSome?_cons]
    simp only [sanitizeWrites, find_eq htk, refused]
    cases hlookup : T.lookup tk.toKeyWithoutCondition with
    | none => simpa using ih
    | some t =>
      cases od with
      | error => simp
      | ignore =>
        by_cases hsame : sameCondition P (record t) tk = true
        · cases hrest : sanitizeWrites P (T.tuples.map record) .ignore ws with
          | error e | ok dup => simpa [hrest, Except.map, hsame, same] using ih
        · simp [hsame, same]

/-- The writes append the records of the tuples that are not there. -/
lemma Memory.insertAll_eq {kept ws : List (TupleKey S)}
    (hkept : ∀ t ∈ kept, t.toKeyWithoutCondition.Valid)
    (hvalid : ∀ w ∈ ws, w.toKeyWithoutCondition.Valid)
    (hnodup : (ws.map TupleKey.toKeyWithoutCondition).Nodup) :
    ws.foldl (insert P) ⟨kept.map record, cs⟩ =
      let new := ws.filter fun w =>
        w.toKeyWithoutCondition ∉ kept.map TupleKey.toKeyWithoutCondition
      ⟨(kept ++ new).map record, cs ++ new.map (writeChange P)⟩ := by
  induction ws generalizing kept cs with
  | nil => simp
  | cons w ws ih =>
    have hw := hvalid w mem_cons_self
    have hws : ∀ v ∈ ws, v.toKeyWithoutCondition.Valid := fun v hv =>
      hvalid v (mem_cons_of_mem _ hv)
    obtain ⟨hnotin, hnodup⟩ := nodup_cons.mp hnodup
    have hany : ((kept.map record).any fun r => isMatch r w.toKeyWithoutCondition) =
        true ↔ w.toKeyWithoutCondition ∈ kept.map TupleKey.toKeyWithoutCondition := by
      rw [any_map, any_eq_true, mem_map]
      exact exists_congr fun t => and_congr_right fun ht => isMatch_record (hkept t ht) hw
    rw [foldl_cons, insert]
    by_cases hmem : w.toKeyWithoutCondition ∈ kept.map TupleKey.toKeyWithoutCondition
    · rw [if_pos (hany.mpr hmem), ih hkept hws hnodup,
        filter_cons_of_neg (by simpa using hmem)]
    · have happend : kept.map record ++ [record w] =
          (kept ++ [w]).map record := by simp
      have hfilter : (ws.filter fun v => v.toKeyWithoutCondition ∉
          (kept ++ [w]).map TupleKey.toKeyWithoutCondition) =
          ws.filter fun v => v.toKeyWithoutCondition ∉ kept.map TupleKey.toKeyWithoutCondition := by
        refine filter_congr fun v hv => ?_
        have hne : v.toKeyWithoutCondition ≠ w.toKeyWithoutCondition := fun heq =>
          hnotin (mem_map.mpr ⟨v, hv, heq⟩)
        simp [hne]
      have hkept' : ∀ t ∈ kept ++ [w], t.toKeyWithoutCondition.Valid := by
        intro t ht
        rcases mem_append.mp ht with ht | ht
        · exact hkept t ht
        · rw [mem_singleton.mp ht]
          exact hw
      rw [if_neg fun h => hmem (hany.mp h), happend, ih hkept' hws hnodup, hfilter,
        filter_cons_of_pos (by simpa using hmem)]
      simp

/-- What is not there after the deletes was not there before them. -/
lemma added_eq : (req.writes.filter fun w => w.toKeyWithoutCondition ∉
    (T.tuples.filter fun t => t.toKeyWithoutCondition ∉ req.deletes).map
      TupleKey.toKeyWithoutCondition) = added T req.toRequest := by
  refine filter_congr fun w hw => ?_
  rw [Bool.eq_iff_iff, decide_eq_true_iff, Option.isNone_iff_eq_none, Stored.lookup_eq_none]
  constructor
  · intro hnot t ht heq
    refine hnot (mem_map.mpr ⟨t, mem_filter.mpr ⟨ht, ?_⟩, heq⟩)
    rw [decide_eq_true_iff]
    exact fun hdel => Memory.not_mem_writes hdel hw heq.symm
  · intro hnone hmem
    obtain ⟨t, ht, heq⟩ := mem_map.mp hmem
    exact hnone t (mem_of_mem_filter ht) heq

theorem Memory.write_eq :
    write P ⟨T.tuples.map record, cs⟩ req.toRequest =
      match check (same P) T req.toRequest with
      | some e => (⟨T.tuples.map record, cs⟩, some e)
      | none => (⟨(after T req.toRequest).tuples.map record,
          cs ++ (removed T req.toRequest).map (fun t => deleteChange P (record t)) ++
            (added T req.toRequest).map (writeChange P)⟩, none) := by
  have hfst : ∀ {α : Type} (l : List α), l.zipIdx.map Prod.fst = l := fun l => by simp
  have hvalidDeletes : ∀ d ∈ req.deletes.zipIdx, d.1.Valid := fun d hd =>
    req.valid d.1 ((mem_zipIdx' hd).2 ▸ getElem_mem _)
  have hvalidWrites : ∀ w ∈ req.writes.zipIdx, w.1.toKeyWithoutCondition.Valid := fun w hw =>
    (req.validWrite ((mem_zipIdx' hw).2 ▸ getElem_mem _)).1
  have hds := sanitizeDeletes_eq (T := T) req.onMissingDelete hvalidDeletes
  have hws := sanitizeWrites_eq (P := P) (T := T) req.onDuplicateInsert hvalidWrites
  rw [hfst] at hds hws
  unfold write sanitizeTuplesWriteDelete check
  cases hdel : sanitizeDeletes (T.tuples.map record) req.onMissingDelete
    req.deletes.zipIdx with
  | error e =>
    rw [hdel] at hds
    simp only [hds, bind, Except.bind, Option.some_or]
  | ok dup =>
    rw [hdel] at hds
    cases hwr : sanitizeWrites P (T.tuples.map record) req.onDuplicateInsert
      req.writes.zipIdx with
    | error e =>
      rw [hwr] at hws
      simp only [hds, hws, bind, Except.bind, Option.none_or]
    | ok dup' =>
      rw [hwr] at hws
      simp only [hds, hws, bind, Except.bind, pure, Except.pure, Option.none_or]
      -- a record is removed exactly when its key is deleted
      have hremoves : ∀ t ∈ T.tuples, removes dup req.deletes (record t) =
          decide (t.toKeyWithoutCondition ∈ req.deletes) := by
        intro t ht
        have hiff : removes dup req.deletes (record t) = true ↔
            ∃ d ∈ req.deletes, isMatch (record t) d = true :=
          removes_iff (s := ⟨T.tuples.map record, cs⟩) hdel
            (mem_map.mpr ⟨t, ht, rfl⟩)
        rw [Bool.eq_iff_iff, hiff, decide_eq_true_iff]
        constructor
        · rintro ⟨d, hd, hmatch⟩
          rwa [(isMatch_record (T.valid t ht).1 (req.valid d hd)).mp hmatch]
        · intro hd
          exact ⟨_, hd, (isMatch_record (T.valid t ht).1 (req.valid _ hd)).mpr rfl⟩
      obtain ⟨hgone, hkept⟩ := filter_removed hremoves
      rw [hgone, hkept, insertAll_eq
        (fun t ht => (T.valid t (mem_of_mem_filter ht)).1)
        (fun w hw => (req.validWrite hw).1) req.writes_nodup, added_eq]
      simp [after]

end

/-! ## The SQL path -/

section
variable {S : Type} {P : Structs S} {T : Stored S} {req : ValidRequest S}
  {cl : List (SqlStore.ChangeRow S)} {t w : TupleKey S} {found : String → Option (TupleKey S)}

/-- The context that is read back: no context has become an empty one. -/
lemma marshal_roundtrip (c : Option (Condition S)) :
    newRelationshipCondition P (SqlStore.marshalRelationshipCondition P c).1
      ((SqlStore.marshalRelationshipCondition P c).2.map P.unmarshal) =
    newRelationshipCondition P ((c.map Condition.name).getD "") (c.bind Condition.context) := by
  cases c with
  | none => rfl
  | some c =>
    obtain ⟨name, context⟩ := c
    cases context with
    | none => rfl
    | some c =>
      by_cases hfields : P.hasFields c = true
      · simp [SqlStore.marshalRelationshipCondition, hfields, P.unmarshal_marshal]
      · have hempty := (P.hasFields_iff c).mp (Bool.eq_false_iff.mpr hfields)
        simp only [SqlStore.marshalRelationshipCondition, if_neg hfields, Option.map_none,
          Option.map_some, Option.getD_some, Option.bind_some, newRelationshipCondition]
        rw [hempty]

namespace SqlStore

/-- Both backends give back the same tuple. -/
lemma asTuple_row (t : TupleKey S) :
    (row P t).asTuple P = (Memory.record t).asTuple P := by
  unfold Row.asTuple Record.asTuple newTupleKeyWithCondition
  exact congrArg _ (marshal_roundtrip t.condition)

lemma key_asTuple_row (ht : t.toKeyWithoutCondition.Valid) :
    ((row P t).asTuple P).toKeyWithoutCondition = t.toKeyWithoutCondition := by
  rw [asTuple_row]
  exact key_asTuple ht.1 rfl

lemma lockKey_inj {tk tk' : KeyWithoutCondition} (h : tk.Valid) (h' : tk'.Valid) :
    lockKey tk = lockKey tk' ↔ tk = tk' := by
  refine ⟨fun heq => (RecordKey.of_inj h h').mp (congrArg Prod.fst heq), fun heq => by rw [heq]⟩

lemma existing_eq {tk : KeyWithoutCondition} (htk : tk.Valid)
    (hmem : tk ∈ req.deletes ∨ tk ∈ req.writes.map TupleKey.toKeyWithoutCondition) :
    existing P (T.tuples.map (row P)) req.toRequest (tupleKeyToString tk) =
      (T.lookup tk).map fun t => (row P t).asTuple P := by
  refine Stored.find?_eq (f := fun t => (row P t).asTuple P) (fun x hx hkey => ?_)
    fun t ht hkey => ⟨?_, ?_⟩
  · obtain ⟨r, hr, rfl⟩ := mem_map.mp (mem_reverse.mp hx)
    obtain ⟨t, ht, rfl⟩ := mem_map.mp (mem_of_mem_filter hr)
    have hvalid := (T.valid t ht).1
    rw [key_asTuple_row hvalid, decide_eq_true_iff] at hkey
    exact ⟨t, ht, tupleKeyToString_inj hvalid htk hkey, rfl⟩
  · refine mem_reverse.mpr (mem_map.mpr ⟨row P t, ?_, rfl⟩)
    refine mem_filter.mpr ⟨mem_map.mpr ⟨t, ht, rfl⟩, ?_⟩
    rw [contains_iff_mem, mem_append]
    refine hmem.imp (fun hd => mem_map.mpr ⟨_, hd, hkey ▸ rfl⟩) fun hw => ?_
    obtain ⟨w, hw, hsame⟩ := mem_map.mp hw
    exact mem_map.mpr ⟨w, hw, by rw [hsame, ← hkey]; rfl⟩
  · rw [key_asTuple_row (hkey ▸ htk), hkey]
    exact decide_eq_true rfl

/-- The comparison of the SQL path. -/
def same (P : Structs S) (t w : TupleKey S) : Bool :=
  equalCondition P ((row P t).asTuple P).condition w.condition

lemma deleteItems_eq (om : OnMissingDelete) {ds} (hfound : ∀ d ∈ ds, found (tupleKeyToString d) =
      (T.lookup d).map fun t => (row P t).asTuple P) :
    deleteItems found om ds =
      match ds.findSome? (missing T om) with
      | some e => .error e
      | none => .ok (ds.filter fun d => (T.lookup d).isSome) := by
  induction ds with
  | nil => rfl
  | cons d ds ih =>
    have ih := ih fun d hd => hfound d (mem_cons_of_mem _ hd)
    rw [findSome?_cons]
    simp only [deleteItems, hfound d mem_cons_self, missing, ih]
    cases hlookup : T.lookup d with
    | some t =>
      cases hrest : ds.findSome? (missing T om) with
      | none => simp [hlookup, Except.map]
      | some e => simp [Except.map]
    | none =>
      cases om with
      | error => simp
      | ignore => simp [hlookup]

lemma writeItems_eq (od : OnDuplicateInsert) {ws}
    (hfound : ∀ w ∈ ws, found (tupleKeyToString w.toKeyWithoutCondition) =
      (T.lookup w.toKeyWithoutCondition).map fun t => (row P t).asTuple P) :
    writeItems P found od ws =
      match ws.findSome? (refused (same P) T od) with
      | some e => .error e
      | none => .ok (ws.filter fun w => (T.lookup w.toKeyWithoutCondition).isNone) := by
  induction ws with
  | nil => rfl
  | cons w ws ih =>
    have ih := ih fun w hw => hfound w (mem_cons_of_mem _ hw)
    rw [findSome?_cons]
    simp only [writeItems, hfound w mem_cons_self, refused, ih]
    cases hlookup : T.lookup w.toKeyWithoutCondition with
    | none =>
      cases hrest : ws.findSome? (refused (same P) T od) with
      | none => simp [hlookup, Except.map]
      | some e => simp [Except.map]
    | some t =>
      cases od with
      | error => simp
      | ignore =>
        by_cases hsame : same P t w = true
        · have hequal : equalCondition P ((row P t).asTuple P).condition
              w.condition = true := hsame
          simp [hsame, hequal, hlookup]
        · have hequal : ¬ equalCondition P ((row P t).asTuple P).condition
              w.condition = true := hsame
          simp [hsame, hequal]

theorem write_eq :
    write P ⟨T.tuples.map (row P), cl⟩ req.toRequest =
      match check (same P) T req.toRequest with
      | some e => (⟨T.tuples.map (row P), cl⟩, some e)
      | none => (⟨(after T req.toRequest).tuples.map (row P),
          cl ++ ((present T req.toRequest).map deleteChange ++
            (added T req.toRequest).map (writeChange P))⟩, none) := by
  have hdeletes : ∀ d ∈ req.deletes,
      existing P (T.tuples.map (row P)) req.toRequest (tupleKeyToString d) =
        (T.lookup d).map fun t => (row P t).asTuple P :=
    fun d hd => existing_eq (req.valid d hd) (.inl hd)
  have hwrites : ∀ w ∈ req.writes, existing P (T.tuples.map (row P)) req.toRequest
      (tupleKeyToString w.toKeyWithoutCondition) =
        (T.lookup w.toKeyWithoutCondition).map fun t => (row P t).asTuple P := fun w hw =>
    existing_eq (req.validWrite hw).1 (.inr (mem_map.mpr ⟨w, hw, rfl⟩))
  have hdel := deleteItems_eq req.onMissingDelete hdeletes
  have hwr := writeItems_eq req.onDuplicateInsert hwrites
  unfold write check
  by_cases hempty : req.deletes = [] ∧ req.writes = []
  · rw [if_pos hempty]
    simp [hempty.1, hempty.2, after, added, present]
  · rw [if_neg hempty]
    unfold getDeleteWriteChangelogItems
    rw [hdel, hwr]
    cases hds : req.deletes.findSome? (missing T req.onMissingDelete) with
    | some e => simp only [bind, Except.bind, Option.some_or]
    | none =>
      cases hws : req.writes.findSome? (refused (same P) T req.onDuplicateInsert) with
      | some e => simp only [bind, Except.bind, Option.none_or]
      | none =>
        simp only [bind, Except.bind, pure, Except.pure, Option.none_or]
        -- a row is deleted exactly when its key is
        have hdeleted : ∀ t ∈ T.tuples, ((present T req.toRequest).map lockKey).contains
            ((row P t).key, (row P t).userType) =
            decide (t.toKeyWithoutCondition ∈ req.deletes) := by
          intro t ht
          have hvalid := (T.valid t ht).1
          rw [Bool.eq_iff_iff, contains_iff_mem, decide_eq_true_iff, mem_map]
          constructor
          · rintro ⟨d, hd, heq⟩
            have hd := mem_of_mem_filter hd
            rwa [← (lockKey_inj (req.valid d hd) hvalid).mp heq]
          · intro hd
            refine ⟨_, mem_filter.mpr ⟨hd, ?_⟩, rfl⟩
            rw [Stored.lookup_eq_some.mpr ⟨ht, rfl⟩]
            rfl
        obtain ⟨hgone, hkept⟩ := filter_removed (f := row P) (p := fun r =>
          ((present T req.toRequest).map lockKey).contains (r.key, r.userType)) hdeleted
        have hcount : ((removed T req.toRequest).map (row P)).length =
            ((present T req.toRequest).map lockKey).length := by
          have hlength := (removed_perm T req.toRequest).length_eq
          rw [length_map] at hlength
          rw [length_map, length_map, hlength]
        have hrows : (T.tuples.filter fun t => t.toKeyWithoutCondition ∉ req.deletes).map
            (row P) ++ (added T req.toRequest).map (row P) =
            (after T req.toRequest).tuples.map (row P) := by
          rw [← map_append]
          rfl
        have hnodup : (((after T req.toRequest).tuples.map (row P)).map
            Row.key).Nodup := by
          rw [map_map]
          refine List.Nodup.map_on (fun t ht t' ht' heq => ?_)
            ((after T req.toRequest).unique.of_map)
          have hkey := (RecordKey.of_inj ((after T req.toRequest).valid t ht).1
            ((after T req.toRequest).valid t' ht').1).mp heq
          exact inj_on_of_nodup_map (after T req.toRequest).unique ht ht' hkey
        rw [show (req.deletes.filter fun d => (T.lookup d).isSome) = present T req.toRequest
          from rfl, show (req.writes.filter fun w => (T.lookup w.toKeyWithoutCondition).isNone) =
          added T req.toRequest from rfl, hgone, hkept, hcount, hrows, if_neg (by simp),
          if_neg (not_not.mpr hnodup)]

end SqlStore

end

end OpenFGA.Write
