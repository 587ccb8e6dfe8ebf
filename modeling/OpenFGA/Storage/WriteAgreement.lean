/-
  The memory backend and the SQL path on the same request.

  They differ in how they find out whether a write repeats a stored tuple.  The memory backend
  compares the text of the contexts, where no context is `<nil>`.  The SQL path compares the
  condition of the write with one that was read back, where no context has become an empty one;
  so it does not even recognise a condition without a context that it has stored itself.
-/

import OpenFGA.Storage.WriteSql

namespace OpenFGA.Write

open OpenFGA.Tuple Storage List Option

/-! ## The two comparisons -/

section
variable {S : Type} (P : Structs S)

/-- The conditions have the same name and the same text of the context. -/
def SameText (t w : TupleKey S) : Prop :=
  t.conditionName = w.conditionName ∧ P.text t.conditionContext = P.text w.conditionContext

/-- The conditions have the same name, and the context of the second is given and equals that of
    the first, where an empty one stands for none. -/
def SameValue (t w : TupleKey S) : Prop :=
  t.conditionName = w.conditionName ∧ (w.conditionName ≠ "" →
    ∃ c, w.conditionContext = some c ∧ P.equal (t.conditionContext.getD P.empty) c = true)

/-- A condition comes with a context. -/
def ContextGiven (w : TupleKey S) : Prop := ∀ c, w.condition = some c → c.context ≠ none

variable {P} {t w : TupleKey S}

lemma newRelationshipCondition_of_ne {name} (h : name ≠ "") (context : Option S) :
    newRelationshipCondition P name context = some ⟨name, some (context.getD P.empty)⟩ := by
  unfold newRelationshipCondition
  rw [if_neg h]
  cases context <;> rfl

lemma SqlStore.condition_row : ((row P t).asTuple P).condition =
    newRelationshipCondition P t.conditionName t.conditionContext := by
  rw [asTuple_row]
  rfl

lemma Memory.same_iff : same P t w = true ↔ SameText P t w := by
  rw [same, sameCondition, Bool.and_eq_true, decide_eq_true_iff, decide_eq_true_iff]
  rfl

lemma SqlStore.same_iff (ht : t.Valid) (hw : w.Valid) :
    same P t w = true ↔ SameValue P t w := by
  rw [same, condition_row, SameValue]
  cases htc : t.condition with
  | none =>
    cases hwc : w.condition with
    | none => simp [TupleKey.conditionName, htc, hwc, newRelationshipCondition, equalCondition]
    | some d =>
      have hd := (hw.2 d hwc).symm
      simp [TupleKey.conditionName, htc, hwc, newRelationshipCondition, equalCondition, hd]
  | some c =>
    have hc : t.conditionName ≠ "" := by simpa [TupleKey.conditionName, htc] using ht.2 c htc
    rw [newRelationshipCondition_of_ne hc]
    cases hwc : w.condition with
    | none => simpa [TupleKey.conditionName, hwc, equalCondition] using hc
    | some d =>
      have hd := hw.2 d hwc
      rw [equalCondition, Bool.and_eq_true, decide_eq_true_iff]
      cases hctx : d.context <;>
        simp [TupleKey.conditionName, TupleKey.conditionContext, hwc, hctx, hd]

lemma SameText.refl (w : TupleKey S) : SameText P w w := ⟨rfl, rfl⟩

/-- A write repeats itself by value if its context is given. -/
lemma sameValue_self_iff (hw : w.Valid) : SameValue P w w ↔ ContextGiven w := by
  unfold SameValue ContextGiven
  cases hwc : w.condition with
  | none => simp [TupleKey.conditionName, hwc]
  | some c =>
    have hc := hw.2 c hwc
    cases hctx : c.context with
    | none => simp [TupleKey.conditionName, TupleKey.conditionContext, hwc, hctx, hc]
    | some y => simp [TupleKey.conditionName, TupleKey.conditionContext, hwc, hctx, P.equal_refl]

end

/-! ## Agreement -/

/-- An error without what it is about. -/
inductive ErrorKind where
  | invalidWriteInput
  | tupleConditionConflict
  | writeConflictOnDelete
  | writeConflictOnInsert
deriving DecidableEq, Repr

def WriteError.kind : WriteError → ErrorKind
  | .invalidWriteInput _ _ => .invalidWriteInput
  | .tupleConditionConflict _ => .tupleConditionConflict
  | .writeConflictOnDelete => .writeConflictOnDelete
  | .writeConflictOnInsert => .writeConflictOnInsert

section
variable {S : Type}

/-- Every delete is of a stored tuple, or need not be. -/
def DeletesPass (T : Stored S) (req : Request S) : Prop :=
  ∀ d ∈ req.deletes, T.lookup d = none → req.onMissingDelete = .ignore

/-- Every write of a stored tuple is allowed and repeats it in the sense of `same`. -/
def WritesRepeat (same : TupleKey S → TupleKey S → Prop) (T : Stored S) (req : Request S) : Prop :=
  ∀ w ∈ req.writes, ∀ t, T.lookup w.toKeyWithoutCondition = some t →
    req.onDuplicateInsert = .ignore ∧ same t w

variable {P : Structs S} {T : Stored S} {req : ValidRequest S}
  {same : TupleKey S → TupleKey S → Bool} {Same : TupleKey S → TupleKey S → Prop}

lemma deletesPass_iff {req} : DeletesPass T req ↔
    req.deletes.findSome? (missing T req.onMissingDelete) = none := by
  rw [findSome?_eq_none_iff]
  refine forall₂_congr fun d _ => ?_
  unfold missing
  cases T.lookup d <;> cases req.onMissingDelete <;> simp

lemma writesRepeat_iff {req}
    (hsame : ∀ w ∈ req.writes, ∀ t ∈ T.tuples, (same t w = true ↔ Same t w)) :
    WritesRepeat Same T req ↔
      req.writes.findSome? (refused same T req.onDuplicateInsert) = none := by
  rw [findSome?_eq_none_iff]
  refine forall₂_congr fun w hw => ?_
  unfold refused
  cases hlookup : T.lookup w.toKeyWithoutCondition with
  | none => simp
  | some t =>
    have hone := hsame w hw t (Stored.lookup_eq_some.mp hlookup).1
    simp only [some.injEq, forall_eq', ← hone]
    cases req.onDuplicateInsert <;> simp

section
variable {same : TupleKey S → TupleKey S → Bool} {Same : TupleKey S → TupleKey S → Prop}
  (hsame : ∀ w ∈ req.writes, ∀ t ∈ T.tuples, (same t w = true ↔ Same t w))

include hsame

lemma check_eq_none_iff : check same T req.toRequest = none ↔
    DeletesPass T req.toRequest ∧ WritesRepeat Same T req.toRequest := by
  rw [check, or_eq_none_iff, deletesPass_iff, writesRepeat_iff hsame]

/-- The kind of the error depends on the comparison only where writes are the first problem. -/
lemma kind_check : (check same T req.toRequest).map WriteError.kind =
    open Classical in
    if DeletesPass T req.toRequest then
      if WritesRepeat Same T req.toRequest then none
      else if req.onDuplicateInsert = .ignore then some .tupleConditionConflict
      else some .invalidWriteInput
    else some .invalidWriteInput := by
  unfold check
  cases hdel : req.deletes.findSome? (missing T req.onMissingDelete) with
  | some e =>
    have hnot : ¬ DeletesPass T req.toRequest := by
      rw [deletesPass_iff, hdel]
      simp
    obtain ⟨d, -, he⟩ := exists_of_findSome?_eq_some hdel
    rw [if_neg hnot]
    unfold missing at he
    split at he <;> cases he
    rfl
  | none =>
    rw [if_pos (deletesPass_iff.mpr hdel), none_or]
    cases hwr : req.writes.findSome? (refused same T req.onDuplicateInsert) with
    | none => rw [if_pos ((writesRepeat_iff hsame).mpr hwr), map_none]
    | some e =>
      have hnot : ¬ WritesRepeat Same T req.toRequest := by
        rw [writesRepeat_iff hsame, hwr]
        simp
      obtain ⟨w, -, he⟩ := exists_of_findSome?_eq_some hwr
      rw [if_neg hnot]
      unfold refused at he
      split at he
      · cases he
      · split_ifs at he
        cases he
        rw [if_pos (by assumption)]
        rfl
      · cases he
        rw [if_neg (by simp [*])]
        rfl

end

lemma memory_same_iff : ∀ w ∈ req.writes, ∀ t ∈ T.tuples,
    (Memory.same P t w = true ↔ SameText P t w) := fun _ _ _ _ => Memory.same_iff

lemma sql_same_iff : ∀ w ∈ req.writes, ∀ t ∈ T.tuples,
    (SqlStore.same P t w = true ↔ SameValue P t w) := fun _ hw t ht =>
  SqlStore.same_iff (T.valid t ht) (req.validWrite hw)

lemma kind_check_eq_iff : (check (Memory.same P) T req.toRequest).map WriteError.kind =
      (check (SqlStore.same P) T req.toRequest).map WriteError.kind ↔
    (DeletesPass T req.toRequest →
      (WritesRepeat (SameText P) T req.toRequest ↔
        WritesRepeat (SameValue P) T req.toRequest)) := by
  rw [kind_check memory_same_iff, kind_check sql_same_iff]
  by_cases hdel : DeletesPass T req.toRequest
  · rw [if_pos hdel, if_pos hdel]
    by_cases htext : WritesRepeat (SameText P) T req.toRequest <;>
      by_cases hvalue : WritesRepeat (SameValue P) T req.toRequest <;>
      by_cases hod : req.onDuplicateInsert = .ignore <;> simp [hdel, htext, hvalue, hod]
  · simp [hdel]

/-- A change to the rows of the changelog is read as the memory backend logs it. -/
lemma SqlStore.asChange_writeChange (t : TupleKey S) :
    (writeChange P t).asChange P = Memory.writeChange P t := by
  have hcontext : ∀ (name : String) (context : Option S),
      newRelationshipCondition P name (some (if name = "" then P.empty else context.getD P.empty)) =
        newRelationshipCondition P name context := by
    intro name context
    by_cases hname : name = ""
    · rw [hname]
      rfl
    · rw [newRelationshipCondition_of_ne hname, newRelationshipCondition_of_ne hname, if_neg hname]
      rfl
  unfold SqlStore.ChangeRow.asChange Memory.writeChange newTupleKeyWithCondition
  rw [hcontext]
  exact congrArg (fun c => (⟨⟨_, c⟩, .write⟩ : Change S)) (marshal_roundtrip t.condition)

lemma lookup_after (T : Stored S) (req : ValidRequest S) {w} (hw : w ∈ req.writes) :
    (after T req.toRequest).lookup w.toKeyWithoutCondition =
      some ((T.lookup w.toKeyWithoutCondition).getD w) := by
  rw [Stored.lookup_eq_some]
  cases hlookup : T.lookup w.toKeyWithoutCondition with
  | none =>
    refine ⟨mem_append_right _ (mem_filter.mpr ⟨hw, ?_⟩), rfl⟩
    exact isNone_iff_eq_none.mpr hlookup
  | some t =>
    obtain ⟨ht, hkey⟩ := Stored.lookup_eq_some.mp hlookup
    refine ⟨mem_append_left _ (mem_filter.mpr ⟨ht, ?_⟩), hkey⟩
    rw [decide_eq_true_iff]
    exact fun hdel => Memory.not_mem_writes hdel hw hkey.symm

/-- The request with both options set to ignore. -/
def ValidRequest.ignoring (req : ValidRequest S) : ValidRequest S :=
  { req with onMissingDelete := .ignore, onDuplicateInsert := .ignore }

@[simp] lemma ValidRequest.ignoring_deletes : req.ignoring.deletes = req.deletes := rfl

@[simp] lemma ValidRequest.ignoring_writes : req.ignoring.writes = req.writes := rfl

/-- No tuple that is there after the call is named by a delete. -/
lemma not_mem_deletes_after {t} (ht : t ∈ (after T req.toRequest).tuples) :
    t.toKeyWithoutCondition ∉ req.deletes := by
  rcases mem_append.mp ht with ht | ht
  · simpa using (mem_filter.mp ht).2
  · exact fun hdel => Memory.not_mem_writes hdel (mem_of_mem_filter ht) rfl

lemma removed_after : removed (after T req.toRequest) req.ignoring.toRequest = [] := by
  refine filter_eq_nil_iff.mpr fun t ht hdel => ?_
  exact not_mem_deletes_after ht (of_decide_eq_true hdel)

lemma present_after : present (after T req.toRequest) req.ignoring.toRequest = [] := by
  have h := removed_perm (after T req.toRequest) req.ignoring.toRequest
  rw [removed_after] at h
  exact h.symm.eq_nil

lemma added_after : added (after T req.toRequest) req.ignoring.toRequest = [] := by
  refine filter_eq_nil_iff.mpr fun w hw => ?_
  rw [lookup_after T req hw]
  simp

lemma tuples_after_after : (after (after T req.toRequest) req.ignoring.toRequest).tuples =
    (after T req.toRequest).tuples := by
  show filter _ _ ++ added _ _ = _
  rw [added_after, append_nil, filter_eq_self]
  exact fun t ht => decide_eq_true (not_mem_deletes_after ht)

/-- A request that succeeded passes again if every tuple it added repeats itself. -/
lemma check_after_iff
    (hsame : ∀ t w : TupleKey S, t.Valid → w.Valid → (same t w = true ↔ Same t w))
    (hok : WritesRepeat Same T req.toRequest) :
    check same (after T req.toRequest) req.ignoring.toRequest = none ↔
      ∀ w ∈ req.writes, T.lookup w.toKeyWithoutCondition = none → Same w w := by
  have hone : ∀ w ∈ req.ignoring.writes, ∀ t ∈ (after T req.toRequest).tuples,
      (same t w = true ↔ Same t w) := fun w hw t ht =>
    hsame t w ((after T req.toRequest).valid t ht) (req.validWrite hw)
  rw [check_eq_none_iff hone]
  have hdel : DeletesPass (after T req.toRequest) req.ignoring.toRequest := fun _ _ _ => rfl
  rw [and_iff_right hdel]
  refine forall₂_congr fun w hw => ?_
  rw [lookup_after T req hw]
  simp only [some.injEq, forall_eq']
  rw [and_iff_right (show req.ignoring.onDuplicateInsert = .ignore from rfl)]
  cases hlookup : T.lookup w.toKeyWithoutCondition with
  | none => simp
  | some t => simpa using (hok w hw t hlookup).2

end

/-! ## Both backends -/

section
variable {S : Type} (P : Structs S) (T : Stored S) (req : ValidRequest S)

/-- `Write` of the memory backend that holds these tuples. -/
def memoryCall (cs : List (Change S)) : Memory.State S × Option WriteError :=
  Memory.write P ⟨T.tuples.map Memory.record, cs⟩ req.toRequest

/-- `Write` of the SQL path. -/
def sqlCall (cl : List (SqlStore.ChangeRow S)) : SqlStore.State S × Option WriteError :=
  SqlStore.write P ⟨T.tuples.map (SqlStore.row P), cl⟩ req.toRequest

/-- Both calls fail with errors of the same kind, or both succeed, with the same tuples and the
    same changes. -/
structure Agree (cs : List (Change S)) (cl : List (SqlStore.ChangeRow S)) : Prop where
  error : (memoryCall P T req cs).2.map WriteError.kind = (sqlCall P T req cl).2.map WriteError.kind
  tuples : (memoryCall P T req cs).2 = none →
    (memoryCall P T req cs).1.tuples.map (Record.asTuple P) =
      (sqlCall P T req cl).1.rows.map (SqlStore.Row.asTuple P)
  changes : (memoryCall P T req cs).2 = none → ∃ ms qs,
    (memoryCall P T req cs).1.changes = cs ++ ms ∧ (sqlCall P T req cl).1.changelog = cl ++ qs ∧
      ms.Perm (qs.map (SqlStore.ChangeRow.asChange P))

/-- A call that succeeded succeeds again with both options set to ignore, and changes nothing. -/
structure Repeats (cs : List (Change S)) (cl : List (SqlStore.ChangeRow S)) : Prop where
  memory : (memoryCall P T req cs).2 = none →
    Memory.write P (memoryCall P T req cs).1 req.ignoring.toRequest =
      ((memoryCall P T req cs).1, none)
  sql : (sqlCall P T req cl).2 = none →
    SqlStore.write P (sqlCall P T req cl).1 req.ignoring.toRequest = ((sqlCall P T req cl).1, none)

/-- The writes of stored tuples repeat them by text exactly when they do by value, and if the
    request passes, every condition that it adds comes with a context. -/
structure Regular : Prop where
  alike : DeletesPass T req.toRequest →
    (WritesRepeat (SameText P) T req.toRequest ↔ WritesRepeat (SameValue P) T req.toRequest)
  context : DeletesPass T req.toRequest → WritesRepeat (SameText P) T req.toRequest →
    ∀ w ∈ req.writes, T.lookup w.toKeyWithoutCondition = none → ContextGiven w

variable {P T req} {cs : List (Change S)} {cl : List (SqlStore.ChangeRow S)}

lemma memoryCall_error (cs : List (Change S)) :
    (memoryCall P T req cs).2 = check (Memory.same P) T req.toRequest := by
  rw [memoryCall, Memory.write_eq]
  cases check (Memory.same P) T req.toRequest <;> rfl

lemma sqlCall_error (cl : List (SqlStore.ChangeRow S)) :
    (sqlCall P T req cl).2 = check (SqlStore.same P) T req.toRequest := by
  rw [sqlCall, SqlStore.write_eq]
  cases check (SqlStore.same P) T req.toRequest <;> rfl

lemma memoryCall_state (h : check (Memory.same P) T req.toRequest = none) :
    (memoryCall P T req cs).1 = ⟨(after T req.toRequest).tuples.map Memory.record,
      cs ++ (removed T req.toRequest).map (fun t => Memory.deleteChange P (Memory.record t)) ++
        (added T req.toRequest).map (Memory.writeChange P)⟩ := by
  rw [memoryCall, Memory.write_eq, h]

lemma sqlCall_state (h : check (SqlStore.same P) T req.toRequest = none) :
    (sqlCall P T req cl).1 = ⟨(after T req.toRequest).tuples.map (SqlStore.row P),
      cl ++ ((present T req.toRequest).map SqlStore.deleteChange ++
        (added T req.toRequest).map (SqlStore.writeChange P))⟩ := by
  rw [sqlCall, SqlStore.write_eq, h]

lemma changes_perm (T : Stored S) (req : ValidRequest S) : ((removed T req.toRequest).map
      (fun t => Memory.deleteChange P (Memory.record t)) ++
        (added T req.toRequest).map (Memory.writeChange P)).Perm
    (((present T req.toRequest).map SqlStore.deleteChange ++
        (added T req.toRequest).map (SqlStore.writeChange P)).map
          (SqlStore.ChangeRow.asChange P)) := by
  have hwrites : ((added T req.toRequest).map (SqlStore.writeChange P)).map
      (SqlStore.ChangeRow.asChange P) = (added T req.toRequest).map (Memory.writeChange P) := by
    rw [List.map_map]
    exact List.map_congr_left fun t _ => SqlStore.asChange_writeChange t
  rw [List.map_append, hwrites]
  refine List.Perm.append_right _ ?_
  have hdeletes := ((removed_perm T req.toRequest).map
    (SqlStore.deleteChange (S := S))).map (SqlStore.ChangeRow.asChange P)
  rw [List.map_map, List.map_map] at hdeletes
  exact hdeletes

lemma agree_iff : Agree P T req cs cl ↔ (DeletesPass T req.toRequest →
    (WritesRepeat (SameText P) T req.toRequest ↔ WritesRepeat (SameValue P) T req.toRequest)) := by
  rw [← kind_check_eq_iff, ← memoryCall_error cs, ← sqlCall_error cl]
  refine ⟨Agree.error, fun herror => ?_⟩
  have hboth : (memoryCall P T req cs).2 = none →
      check (Memory.same P) T req.toRequest = none ∧
        check (SqlStore.same P) T req.toRequest = none := by
    intro hok
    rw [hok, map_none, eq_comm, map_eq_none_iff] at herror
    exact ⟨(memoryCall_error cs).symm.trans hok, (sqlCall_error cl).symm.trans herror⟩
  refine ⟨herror, fun hok => ?_, fun hok => ?_⟩
  · rw [memoryCall_state (hboth hok).1, sqlCall_state (hboth hok).2, List.map_map, List.map_map]
    exact List.map_congr_left fun t _ => (SqlStore.asTuple_row t).symm
  · refine ⟨_, _, ?_, ?_, changes_perm T req⟩
    · rw [memoryCall_state (hboth hok).1, append_assoc]
    · rw [sqlCall_state (hboth hok).2]

/-- The memory backend always finds its own records again. -/
lemma memory_repeats (hok : (memoryCall P T req cs).2 = none) :
    Memory.write P (memoryCall P T req cs).1 req.ignoring.toRequest =
      ((memoryCall P T req cs).1, none) := by
  have hcheck := (memoryCall_error cs).symm.trans hok
  have hagain : check (Memory.same P) (after T req.toRequest) req.ignoring.toRequest = none := by
    rw [check_after_iff (fun _ _ _ _ => Memory.same_iff)
      ((check_eq_none_iff memory_same_iff).mp hcheck).2]
    exact fun w _ _ => SameText.refl w
  rw [memoryCall_state hcheck, Memory.write_eq, hagain]
  simp only [tuples_after_after, removed_after, added_after, map_nil, append_nil]

lemma sql_repeats_iff (hok : (sqlCall P T req cl).2 = none) :
    SqlStore.write P (sqlCall P T req cl).1 req.ignoring.toRequest =
      ((sqlCall P T req cl).1, none) ↔
      ∀ w ∈ req.writes, T.lookup w.toKeyWithoutCondition = none → ContextGiven w := by
  have hcheck := (sqlCall_error cl).symm.trans hok
  have hagain : check (SqlStore.same P) (after T req.toRequest) req.ignoring.toRequest = none ↔
      ∀ w ∈ req.writes, T.lookup w.toKeyWithoutCondition = none → ContextGiven w := by
    rw [check_after_iff (fun _ _ ht hw => SqlStore.same_iff ht hw)
      ((check_eq_none_iff sql_same_iff).mp hcheck).2]
    exact forall₂_congr fun w hw => imp_congr_right fun _ => sameValue_self_iff (req.validWrite hw)
  rw [← hagain, sqlCall_state hcheck, SqlStore.write_eq]
  cases check (SqlStore.same P) (after T req.toRequest) req.ignoring.toRequest with
  | some e => simp
  | none =>
    simp only [tuples_after_after, present_after, added_after, map_nil, append_nil]

/-- The backends agree on a request, and it can be repeated, exactly when it is regular. -/
theorem write_interchangeable_iff (P : Structs S) (T : Stored S) (req : ValidRequest S)
    (cs : List (Change S)) (cl : List (SqlStore.ChangeRow S)) :
    Agree P T req cs cl ∧ Repeats P T req cs cl ↔ Regular P T req := by
  have hsql : (sqlCall P T req cl).2 = none ↔
      DeletesPass T req.toRequest ∧ WritesRepeat (SameValue P) T req.toRequest := by
    rw [sqlCall_error, check_eq_none_iff sql_same_iff]
  constructor
  · rintro ⟨hagree, hrepeats⟩
    have halike := agree_iff.mp hagree
    refine ⟨halike, fun hdel htext => ?_⟩
    have hok := hsql.mpr ⟨hdel, (halike hdel).mp htext⟩
    exact (sql_repeats_iff hok).mp (hrepeats.sql hok)
  · rintro ⟨halike, hcontext⟩
    refine ⟨agree_iff.mpr halike, memory_repeats, fun hok => ?_⟩
    obtain ⟨hdel, hvalue⟩ := hsql.mp hok
    exact (sql_repeats_iff hok).mpr (hcontext hdel ((halike hdel).mpr hvalue))

end

-- The condition of a write has no context, and the write is repeated.

private def flag : Structs Bool := Memory.oneField

private lemma noDeletes : ∀ k ∈ ([] : List KeyWithoutCondition), isValidUser k.user = true := by
  simp

private def grantInRegion : ValidRequest Bool where
  deletes := []
  writes := [⟨⟨"document:1", "viewer", "user:anne"⟩, some ⟨"in_region", none⟩⟩]
  onMissingDelete := .ignore
  onDuplicateInsert := .ignore
  validDeletes := noDeletes
  validWrites := by
    simp only [forall_mem_cons, not_mem_nil, false_imp_iff, implies_true, and_true]
    exact ⟨by decide, by decide, by decide, by simp⟩
  noDuplicates := by decide
  valid := by simp

/-- The SQL path refuses its own write when it comes again; the memory backend takes it. -/
theorem write_repeated_without_context :
    (sqlCall flag ⟨[], by simp, by simp⟩ grantInRegion []).2 = none ∧
    (SqlStore.write flag (sqlCall flag ⟨[], by simp, by simp⟩ grantInRegion []).1
      grantInRegion.toRequest).2 =
        some (.tupleConditionConflict ⟨"document:1", "viewer", "user:anne"⟩) ∧
    (Memory.write flag (memoryCall flag ⟨[], by simp, by simp⟩ grantInRegion []).1
      grantInRegion.toRequest).2 = none := by
  decide

end OpenFGA.Write
