/-
  `Write` of the memory backend (`pkg/storage/memory/memory.go`) and the requests that the
  write command lets through (`pkg/server/commands/write.go`).

  The backend keeps the records of a store and its changelog.  A call first looks for
  each delete and for each write among the records and may fail there; then it drops the records
  that a delete matches and appends those of the writes.

  Both loops compare with `match`, for which an empty relation or an object without an id
  stands for any.  The command only looks at the user of a delete, so that a delete may remove
  more than the tuple it names.  Times and ids of changes are left out.
-/

import OpenFGA.Lib.Run
import OpenFGA.Storage.Backends

namespace OpenFGA.Write

open OpenFGA.Tuple Storage
open RecordKey List

/-- What the backends use of `structpb.Struct` and of the protobuf library. -/
structure Structs (S : Type) where
  /-- `&structpb.Struct{}` -/
  empty : S
  /-- There are fields. -/
  hasFields : S → Bool
  /-- `String`, which also takes a nil pointer. -/
  text : Option S → String
  /-- `proto.Equal`. -/
  equal : S → S → Bool
  /-- `proto.Marshal`. -/
  marshal : S → List UInt8
  /-- `proto.Unmarshal`, of bytes that were written. -/
  unmarshal : List UInt8 → S
  hasFields_iff : ∀ c, hasFields c = false ↔ c = empty
  equal_refl : ∀ c, equal c c = true
  unmarshal_marshal : ∀ c, unmarshal (marshal c) = c

/-- `RelationshipCondition`; the context may be nil. -/
structure Condition (S : Type) where
  name : String
  context : Option S
deriving DecidableEq, Repr

/-- `TupleKeyWithoutCondition`. -/
structure KeyWithoutCondition where
  object : String
  relation : String
  user : String
deriving DecidableEq, Repr

structure TupleKey (S : Type) extends KeyWithoutCondition where
  condition : Option (Condition S)
deriving DecidableEq, Repr

def tupleKeyToString (tk : KeyWithoutCondition) : String :=
  tk.object ++ "#" ++ tk.relation ++ "@" ++ tk.user

inductive OnMissingDelete where
  | error
  | ignore
deriving DecidableEq, Repr

inductive OnDuplicateInsert where
  | error
  | ignore
deriving DecidableEq, Repr

inductive TupleOperation where
  | write
  | delete
deriving DecidableEq, Repr

inductive WriteError where
  | invalidWriteInput (tk : KeyWithoutCondition) (operation : TupleOperation)
  | tupleConditionConflict (tk : KeyWithoutCondition)
  | writeConflictOnDelete
  | writeConflictOnInsert
deriving DecidableEq, Repr

/-- A request that `validateWriteRequest` lets through.  Of the checks of a write against the model
    only those of its strings are kept. -/
structure Request (S : Type) where
  deletes : List KeyWithoutCondition
  writes : List (TupleKey S)
  onMissingDelete : OnMissingDelete
  onDuplicateInsert : OnDuplicateInsert
  validDeletes : ∀ d ∈ deletes, isValidUser d.user = true
  validWrites : ∀ t ∈ writes, isValidObject t.object = true ∧ isValidRelation t.relation = true ∧
    isValidUser t.user = true ∧ ∀ c, t.condition = some c → c.name ≠ ""
  noDuplicates : (deletes.map tupleKeyToString ++
    writes.map fun t => tupleKeyToString t.toKeyWithoutCondition).Nodup

/-- `TupleRecord`, as far as the memory backend fills it. -/
structure Record (S : Type) extends RecordKey where
  conditionName : String
  conditionContext : Option S
deriving DecidableEq, Repr

/-- `TupleChange`. -/
structure Change (S : Type) where
  tupleKey : TupleKey S
  operation : TupleOperation
deriving DecidableEq, Repr

section
variable {S : Type} (P : Structs S)

def newRelationshipCondition (name : String) (context : Option S) : Option (Condition S) :=
  if name = "" then none
  else match context with
    | none => some ⟨name, some P.empty⟩
    | some c => some ⟨name, some c⟩

def newTupleKeyWithCondition (object relation user conditionName : String) (context : Option S) :
    TupleKey S :=
  ⟨⟨object, relation, user⟩, newRelationshipCondition P conditionName context⟩

/-- `GetCondition().GetName()`, also of a nil condition. -/
def TupleKey.conditionName (t : TupleKey S) : String := (t.condition.map Condition.name).getD ""

/-- `GetCondition().GetContext()`. -/
def TupleKey.conditionContext (t : TupleKey S) : Option S := t.condition.bind Condition.context

def Record.asTuple (r : Record S) : TupleKey S :=
  newTupleKeyWithCondition P (buildObject r.objectType r.objectID) r.relation r.user r.conditionName
    r.conditionContext

end

/-! ## The memory backend -/

namespace Memory

/-- The records and the changelog of a store. -/
structure State (S : Type) where
  tuples : List (Record S)
  changes : List (Change S)
deriving DecidableEq, Repr

section
variable {S : Type}

/-- `match` with the key of a request. -/
def isMatch (r : Record S) (tk : KeyWithoutCondition) : Bool :=
  Storage.Memory.isMatch r.toRecordKey tk.object tk.relation tk.user

def find (records : List (Record S)) (tk : KeyWithoutCondition) : Option (Record S) :=
  records.find? fun r => isMatch r tk

/-- The loop of `sanitizeTuplesWriteDelete` over the deletes and their positions. -/
def sanitizeDeletes (records : List (Record S)) (onMissingDelete : OnMissingDelete) :
    List (KeyWithoutCondition × Nat) → Except WriteError (List Nat)
  | [] => .ok []
  | (tk, i) :: deletes =>
    match find records tk with
    | some _ => sanitizeDeletes records onMissingDelete deletes
    | none =>
      match onMissingDelete with
      | .ignore => (sanitizeDeletes records onMissingDelete deletes).map (i :: ·)
      | .error => .error (.invalidWriteInput tk .delete)

variable (P : Structs S)

/-- The record has the condition of the write. -/
def sameCondition (r : Record S) (t : TupleKey S) : Bool :=
  r.conditionName = t.conditionName && P.text r.conditionContext = P.text t.conditionContext

/-- The loop over the writes. -/
def sanitizeWrites (records : List (Record S)) (onDuplicateInsert : OnDuplicateInsert) :
    List (TupleKey S × Nat) → Except WriteError (List Nat)
  | [] => .ok []
  | (tk, i) :: writes =>
    match find records tk.toKeyWithoutCondition with
    | none => sanitizeWrites records onDuplicateInsert writes
    | some r =>
      match onDuplicateInsert with
      | .ignore =>
        if sameCondition P r tk then
          (sanitizeWrites records onDuplicateInsert writes).map (i :: ·)
        else .error (.tupleConditionConflict tk.toKeyWithoutCondition)
      | .error => .error (.invalidWriteInput tk.toKeyWithoutCondition .write)

def sanitizeTuplesWriteDelete (records : List (Record S)) (req : Request S) :
    Except WriteError (List Nat × List Nat) := do
  let duplicateDeletes ← sanitizeDeletes records req.onMissingDelete req.deletes.zipIdx
  let duplicateWrites ← sanitizeWrites P records req.onDuplicateInsert req.writes.zipIdx
  pure (duplicateDeletes, duplicateWrites)

/-- The loop over the deletes for one record: some delete removes it. -/
def removes (duplicateDeletes : List Nat) (deletes : List KeyWithoutCondition)
    (r : Record S) : Bool :=
  deletes.zipIdx.any fun p => isMatch r p.1 && !duplicateDeletes.contains p.2

/-- The change for a record that is removed.  The condition is redacted. -/
def deleteChange (r : Record S) : Change S :=
  ⟨⟨⟨(r.asTuple P).object, (r.asTuple P).relation, (r.asTuple P).user⟩, none⟩, .delete⟩

/-- The record of a write. -/
def record (t : TupleKey S) : Record S :=
  ⟨of t.object t.relation t.user, t.conditionName, t.conditionContext⟩

/-- The change for a write. -/
def writeChange (t : TupleKey S) : Change S :=
  ⟨newTupleKeyWithCondition P
    (buildObject (splitObject t.object).1 (splitObject t.object).2) t.relation
    t.user t.conditionName t.conditionContext, .write⟩

/-- The loop over the writes, for one write. -/
def insert (s : State S) (t : TupleKey S) : State S :=
  if s.tuples.any fun r => isMatch r t.toKeyWithoutCondition then s
  else ⟨s.tuples ++ [record t], s.changes ++ [writeChange P t]⟩

def write (s : State S) (req : Request S) : State S × Option WriteError :=
  match sanitizeTuplesWriteDelete P s.tuples req with
  | .error e => (s, some e)
  | .ok (duplicateDeletes, _) =>
    let removed := s.tuples.filter (removes duplicateDeletes req.deletes)
    let records := s.tuples.filter fun r => !removes duplicateDeletes req.deletes r
    (req.writes.foldl (insert P) ⟨records, s.changes ++ removed.map (deleteChange P)⟩, none)

/-- The state after some calls. -/
def writeAll (s : State S) (reqs : List (Request S)) : State S :=
  reqs.foldl (fun s req => (write P s req).1) s

end

end Memory

/-! ## Replay -/

section
variable {S : Type}

/-- What a change does to a list of tuples. -/
def applyChange (ts : List (TupleKey S)) (c : Change S) : List (TupleKey S) :=
  match c.operation with
  | .write => ts ++ [c.tupleKey]
  | .delete => ts.filter fun t => t.toKeyWithoutCondition ≠ c.tupleKey.toKeyWithoutCondition

/-- The tuples that a changelog leads to. -/
def replay (ts : List (TupleKey S)) (cs : List (Change S)) : List (TupleKey S) :=
  cs.foldl applyChange ts

lemma replay_append (ts : List (TupleKey S)) (cs ds : List (Change S)) :
    replay ts (cs ++ ds) = replay (replay ts cs) ds := foldl_append

lemma replay_deletes {ts : List (TupleKey S)} {cs : List (Change S)}
    (h : ∀ c ∈ cs, c.operation = .delete) :
    replay ts cs = ts.filter fun t =>
      t.toKeyWithoutCondition ∉ cs.map fun c => c.tupleKey.toKeyWithoutCondition := by
  induction cs generalizing ts with
  | nil => simp [replay]
  | cons c cs ih =>
    have hc := h c mem_cons_self
    have hstep : replay ts (c :: cs) = replay (applyChange ts c) cs := rfl
    rw [hstep, ih fun d hd => h d (mem_cons_of_mem _ hd)]
    simp only [applyChange, hc, filter_filter, map_cons, mem_cons, not_or]
    refine filter_congr fun t _ => ?_
    rw [Bool.eq_iff_iff]
    simp [and_comm]

end

/-! ## Keys of records -/

/-- The key of the record of a valid tuple. -/
def ValidKey (k : RecordKey) : Prop :=
  ∃ tk : KeyWithoutCondition, isValidObject tk.object = true ∧ isValidRelation tk.relation = true ∧
    isValidUser tk.user = true ∧ k = of tk.object tk.relation tk.user

section
variable {S : Type} {P : Structs S} {r r' : Record S} {tk : KeyWithoutCondition} {t : TupleKey S}

lemma relation_ne_empty (h : isValidRelation tk.relation = true) : tk.relation ≠ "" := by
  intro heq
  rw [heq] at h
  exact absurd h (by decide)

lemma key_asTuple (hobject : isValidObject tk.object = true)
    (hr : r.toRecordKey = of tk.object tk.relation tk.user) :
    (r.asTuple P).toKeyWithoutCondition = tk := by
  have htype : r.objectType = (splitObject tk.object).1 := congrArg objectType hr
  have hid : r.objectID = (splitObject tk.object).2 := congrArg objectID hr
  have hrel : r.relation = tk.relation := congrArg relation hr
  have huser : r.user = tk.user := congrArg user hr
  show (⟨buildObject r.objectType r.objectID, r.relation, r.user⟩ : KeyWithoutCondition) = tk
  rw [htype, hid, hrel, huser, buildObject_splitObject hobject]

lemma key_asTuple_inj (hr : ValidKey r.toRecordKey) (hr' : ValidKey r'.toRecordKey)
    (h : (r.asTuple P).toKeyWithoutCondition = (r'.asTuple P).toKeyWithoutCondition) :
    r.toRecordKey = r'.toRecordKey := by
  obtain ⟨tk, hobject, -, -, hk⟩ := hr
  obtain ⟨tk', hobject', -, -, hk'⟩ := hr'
  rw [key_asTuple hobject hk, key_asTuple hobject' hk'] at h
  rw [hk, hk', h]

/-- The record of a valid tuple is the only one that matches it. -/
lemma Memory.isMatch_iff (hobject : isValidObject tk.object = true)
    (hrel : isValidRelation tk.relation = true) (huser : isValidUser tk.user = true) :
    isMatch r tk = true ↔ r.toRecordKey = of tk.object tk.relation tk.user :=
  Storage.Memory.isMatch_iff_eq hobject (relation_ne_empty hrel) huser

lemma Memory.isMatch_asTuple (hr : ValidKey r.toRecordKey) :
    isMatch r (r.asTuple P).toKeyWithoutCondition = true := by
  obtain ⟨tk, hobject, hrel, huser, hk⟩ := hr
  rw [key_asTuple hobject hk, isMatch_iff hobject hrel huser]
  exact hk

end

/-! ## What a call keeps -/

namespace Memory

section
variable {S : Type} (P : Structs S)

/-- The records are those that the changelog leads to, with one record for a key. -/
structure Consistent (s : State S) : Prop where
  valid : ∀ r ∈ s.tuples, ValidKey r.toRecordKey
  unique : (s.tuples.map Record.toRecordKey).Nodup
  replay : replay [] s.changes = s.tuples.map (Record.asTuple P)

end

section
variable {S : Type} {P : Structs S} {s : State S} {req : Request S} {t : TupleKey S}

lemma Consistent.eq_of_key (hs : Consistent P s) {r r'} (hr : r ∈ s.tuples)
    (hr' : r' ∈ s.tuples) (h : r.toRecordKey = r'.toRecordKey) : r = r' :=
  inj_on_of_nodup_map hs.unique hr hr' h

lemma Consistent.remove (hs : Consistent P s) (p : Record S → Bool) :
    Consistent P ⟨s.tuples.filter fun r => !p r,
      s.changes ++ (s.tuples.filter p).map (deleteChange P)⟩ where
  valid r hr := hs.valid r (mem_of_mem_filter hr)
  unique := hs.unique.sublist (filter_sublist.map _)
  replay := by
    have hdeletes : ∀ c ∈ (s.tuples.filter p).map (deleteChange P), c.operation = .delete := by
      intro c hc
      obtain ⟨r, -, rfl⟩ := mem_map.mp hc
      rfl
    show Write.replay [] (s.changes ++ _) = _
    rw [replay_append, hs.replay, replay_deletes hdeletes, filter_map]
    refine congrArg _ (filter_congr fun r hr => ?_)
    rw [Bool.eq_iff_iff, Function.comp_apply, decide_eq_true_iff, Bool.not_eq_true', map_map]
    constructor
    · intro hnot
      by_contra hp
      refine hnot (mem_map.mpr ⟨r, mem_filter.mpr ⟨hr, ?_⟩, rfl⟩)
      exact Bool.not_eq_false _ |>.mp hp
    · intro hp hmem
      obtain ⟨r', hr', hkey⟩ := mem_map.mp hmem
      obtain ⟨hmem', hp'⟩ := mem_filter.mp hr'
      have heq := hs.eq_of_key hmem' hr (key_asTuple_inj (hs.valid r' hmem') (hs.valid r hr) hkey)
      rw [heq, hp] at hp'
      cases hp'

/-- The record of a write is read back as what the changelog says. -/
lemma asTuple_record (t : TupleKey S) :
    (record t).asTuple P = (writeChange P t).tupleKey := rfl

lemma Consistent.insert (hs : Consistent P s) (hobject : isValidObject t.object = true)
    (hrel : isValidRelation t.relation = true) (huser : isValidUser t.user = true) :
    Consistent P (insert P s t) := by
  unfold Memory.insert
  split_ifs with hany
  · exact hs
  · have hnew : of t.object t.relation t.user ∉ s.tuples.map Record.toRecordKey := by
      intro hmem
      obtain ⟨r, hr, hkey⟩ := mem_map.mp hmem
      exact hany (any_eq_true.mpr ⟨r, hr, (isMatch_iff hobject hrel huser).mpr hkey⟩)
    constructor
    · intro r hr
      rcases mem_append.mp hr with hr | hr
      · exact hs.valid r hr
      · rw [mem_singleton.mp hr]
        exact ⟨t.toKeyWithoutCondition, hobject, hrel, huser, rfl⟩
    · show ((s.tuples ++ [record t]).map Record.toRecordKey).Nodup
      rw [map_append, nodup_append]
      refine ⟨hs.unique, nodup_singleton _, fun k hk k' hk' heq => hnew ?_⟩
      rw [map_singleton, mem_singleton] at hk'
      rw [heq, hk'] at hk
      exact hk
    · show Write.replay [] (s.changes ++ [writeChange P t]) = (s.tuples ++ [record t]).map _
      rw [replay_append, hs.replay, map_append, map_singleton, asTuple_record]
      rfl

lemma Consistent.insertAll {ts : List (TupleKey S)} (hs : Consistent P s)
    (hvalid : ∀ t ∈ ts, isValidObject t.object = true ∧ isValidRelation t.relation = true ∧
      isValidUser t.user = true ∧ ∀ c, t.condition = some c → c.name ≠ "") :
    Consistent P (ts.foldl (Memory.insert P) s) := by
  induction ts generalizing s with
  | nil => exact hs
  | cons t ts ih =>
    obtain ⟨hobject, hrel, huser, -⟩ := hvalid t mem_cons_self
    exact ih (hs.insert hobject hrel huser) fun t' ht' => hvalid t' (mem_cons_of_mem _ ht')

theorem Consistent.write (hs : Consistent P s) : Consistent P (write P s req).1 := by
  unfold Memory.write
  cases sanitizeTuplesWriteDelete P s.tuples req with
  | error e => exact hs
  | ok dup => exact (hs.remove (removes dup.1 req.deletes)).insertAll req.validWrites

lemma Consistent.writeAll {reqs} (hs : Consistent P s) :
    Consistent P (writeAll P s reqs) := by
  induction reqs generalizing s with
  | nil => exact hs
  | cons req reqs ih => exact ih hs.write

lemma consistent_empty : Consistent P (⟨[], []⟩ : State S) where
  valid := by simp
  unique := nodup_nil
  replay := rfl

/-! ## What a call removes -/

/-- An ignored delete matches no record. -/
lemma find_eq_none_of_mem {records : List (Record S)} {onMissingDelete : OnMissingDelete}
    {ds : List (KeyWithoutCondition × Nat)} {dup : List Nat}
    (h : sanitizeDeletes records onMissingDelete ds = .ok dup) {i : Nat} (hi : i ∈ dup) :
    ∃ tk, (tk, i) ∈ ds ∧ find records tk = none := by
  induction ds generalizing dup with
  | nil =>
    cases h
    exact absurd hi not_mem_nil
  | cons d ds ih =>
    obtain ⟨tk, j⟩ := d
    cases hfind : find records tk with
    | some r =>
      simp only [sanitizeDeletes, hfind] at h
      obtain ⟨tk', hmem, hnone⟩ := ih h hi
      exact ⟨tk', mem_cons_of_mem _ hmem, hnone⟩
    | none =>
      simp only [sanitizeDeletes, hfind] at h
      cases onMissingDelete with
      | error => cases h
      | ignore =>
        cases hrest : sanitizeDeletes records .ignore ds with
        | error e => simp [hrest, Except.map] at h
        | ok dup' =>
          simp only [hrest, Except.map, Except.ok.injEq] at h
          rw [← h] at hi
          rcases mem_cons.mp hi with rfl | hi
          · exact ⟨tk, mem_cons_self, hfind⟩
          · obtain ⟨tk', hmem, hnone⟩ := ih hrest hi
            exact ⟨tk', mem_cons_of_mem _ hmem, hnone⟩

lemma removes_iff {dup : List Nat}
    (h : sanitizeDeletes s.tuples req.onMissingDelete req.deletes.zipIdx = .ok dup) {r : Record S}
    (hr : r ∈ s.tuples) :
    removes dup req.deletes r = true ↔ ∃ d ∈ req.deletes, isMatch r d = true := by
  simp only [removes, any_eq_true, Bool.and_eq_true, Bool.not_eq_true', contains_eq_mem,
    decide_eq_false_iff_not]
  constructor
  · rintro ⟨⟨d, i⟩, hmem, hmatch, -⟩
    exact ⟨d, (mem_zipIdx' hmem).2 ▸ getElem_mem _, hmatch⟩
  · rintro ⟨d, hd, hmatch⟩
    obtain ⟨i, hi, rfl⟩ := getElem_of_mem hd
    refine ⟨(req.deletes[i], i), mk_mem_zipIdx_iff_getElem?.mpr (getElem?_eq_getElem hi),
      hmatch, fun hdup => ?_⟩
    obtain ⟨tk, hmem, hnone⟩ := find_eq_none_of_mem h hdup
    have htk : req.deletes[i]? = some tk := mk_mem_zipIdx_iff_getElem?.mp hmem
    rw [getElem?_eq_getElem hi, Option.some.injEq] at htk
    rw [htk] at hmatch
    exact absurd hmatch (find?_eq_none.mp hnone r hr)

lemma mem_keys_insertAll {ts : List (TupleKey S)} {k}
    (hvalid : ∀ t ∈ ts, isValidObject t.object = true ∧ isValidRelation t.relation = true ∧
      isValidUser t.user = true ∧ ∀ c, t.condition = some c → c.name ≠ "") :
    k ∈ (ts.foldl (Memory.insert P) s).tuples.map Record.toRecordKey ↔
      k ∈ s.tuples.map Record.toRecordKey ∨
        ∃ t ∈ ts, k = of t.object t.relation t.user := by
  induction ts generalizing s with
  | nil => simp
  | cons t ts ih =>
    obtain ⟨hobject, hrel, huser, -⟩ := hvalid t mem_cons_self
    rw [foldl_cons, ih fun t' ht' => hvalid t' (mem_cons_of_mem _ ht'),
      exists_mem_cons_iff, ← or_assoc]
    refine or_congr_left ?_
    unfold Memory.insert
    split_ifs with hany
    · refine ⟨.inl, fun h => h.elim id fun hk => ?_⟩
      obtain ⟨r, hr, hmatch⟩ := any_eq_true.mp hany
      exact mem_map.mpr ⟨r, hr, ((isMatch_iff hobject hrel huser).mp hmatch).trans hk.symm⟩
    · rw [map_append, mem_append, map_singleton, mem_singleton]
      rfl

lemma not_mem_writes {tk} (h : tk ∈ req.deletes) (ht : t ∈ req.writes) :
    t.toKeyWithoutCondition ≠ tk := by
  intro heq
  refine (nodup_append.mp req.noDuplicates).2.2 _ (mem_map.mpr ⟨tk, h, rfl⟩) _
    (mem_map.mpr ⟨t, ht, rfl⟩) ?_
  rw [heq]

end

section
variable {S : Type} (P : Structs S)

/-- The records that are gone after the call are those with the key of a delete. -/
def RemovesExactly (s : State S) (req : Request S) : Prop :=
  ∀ r ∈ s.tuples, r.toRecordKey ∉ (write P s req).1.tuples.map Record.toRecordKey ↔
    (r.asTuple P).toKeyWithoutCondition ∈ req.deletes

/-- What a delete matches is deleted under its own key, or written again. -/
def Exact (tuples : List (Record S)) (req : Request S) : Prop :=
  ∀ r ∈ tuples, ∀ d ∈ req.deletes, isMatch r d = true →
    (r.asTuple P).toKeyWithoutCondition ∈ req.deletes ∨
      (r.asTuple P).toKeyWithoutCondition ∈ req.writes.map TupleKey.toKeyWithoutCondition

variable {P} {s : State S} {req : Request S}

/-- A record is gone after the call if a delete matches it and no write brings it back. -/
lemma gone_iff (hs : Consistent P s) (hok : (write P s req).2 = none) {r : Record S}
    (hr : r ∈ s.tuples) :
    r.toRecordKey ∉ (write P s req).1.tuples.map Record.toRecordKey ↔
      (∃ d ∈ req.deletes, isMatch r d = true) ∧
        (r.asTuple P).toKeyWithoutCondition ∉ req.writes.map TupleKey.toKeyWithoutCondition := by
  obtain ⟨tk, hobject, -, -, hk⟩ := hs.valid r hr
  have hwritten : (∃ t ∈ req.writes, r.toRecordKey = of t.object t.relation t.user) ↔
      (r.asTuple P).toKeyWithoutCondition ∈ req.writes.map TupleKey.toKeyWithoutCondition := by
    rw [key_asTuple hobject hk, mem_map]
    refine exists_congr fun t => and_congr_right fun ht => ⟨fun heq => ?_, fun heq => ?_⟩
    · -- both objects are put together from the same type and id
      rw [← key_asTuple (P := P) (req.validWrites t ht).1 heq, key_asTuple hobject hk]
    · rw [hk, ← heq]
  unfold Memory.write at hok ⊢
  cases hsan : sanitizeTuplesWriteDelete P s.tuples req with
  | error e => simp [hsan] at hok
  | ok dup =>
    have hdel : sanitizeDeletes s.tuples req.onMissingDelete req.deletes.zipIdx = .ok dup.1 := by
      unfold sanitizeTuplesWriteDelete at hsan
      cases hd : sanitizeDeletes s.tuples req.onMissingDelete req.deletes.zipIdx with
      | error e => simp [hd, bind, Except.bind] at hsan
      | ok ds =>
        cases hw : sanitizeWrites P s.tuples req.onDuplicateInsert req.writes.zipIdx with
        | error e => simp [hd, hw, bind, Except.bind] at hsan
        | ok ws =>
          simp only [hd, hw, bind, Except.bind, pure, Except.pure, Except.ok.injEq] at hsan
          rw [← hsan]
    have hkept : r.toRecordKey ∈
        (s.tuples.filter fun r => !removes dup.1 req.deletes r).map Record.toRecordKey ↔
        ¬ ∃ d ∈ req.deletes, isMatch r d = true := by
      rw [← removes_iff hdel hr, mem_map, Bool.not_eq_true]
      constructor
      · rintro ⟨r', hr', hkey⟩
        obtain ⟨hmem, hnot⟩ := mem_filter.mp hr'
        rw [← hs.eq_of_key hmem hr hkey]
        simpa using hnot
      · intro hnot
        exact ⟨r, mem_filter.mpr ⟨hr, by simp [hnot]⟩, rfl⟩
    simp only [mem_keys_insertAll req.validWrites, hwritten, not_or, hkept, not_not]

/-- After any calls on an empty store: no two records have the same object, relation and user;
    the changelog leads to the stored tuples; a call that fails changes nothing; and a call that
    succeeds removes exactly the tuples it names if, and only if, what its deletes match
    is named by a delete or written again. -/
theorem write_consistent (P : Structs S) (reqs : List (Request S)) :
    ((writeAll P ⟨[], []⟩ reqs).tuples.map Record.toRecordKey).Nodup ∧
    replay [] (writeAll P ⟨[], []⟩ reqs).changes =
      (writeAll P ⟨[], []⟩ reqs).tuples.map (Record.asTuple P) ∧
    ∀ req : Request S,
      ((write P (writeAll P ⟨[], []⟩ reqs) req).2 ≠ none →
        (write P (writeAll P ⟨[], []⟩ reqs) req).1 = writeAll P ⟨[], []⟩ reqs) ∧
      ((write P (writeAll P ⟨[], []⟩ reqs) req).2 = none →
        (RemovesExactly P (writeAll P ⟨[], []⟩ reqs) req ↔
          Exact P (writeAll P ⟨[], []⟩ reqs).tuples req)) := by
  have hs : Consistent P (writeAll P ⟨[], []⟩ reqs) := consistent_empty.writeAll
  refine ⟨hs.unique, hs.replay, fun req => ⟨fun hfail => ?_, fun hok => ?_⟩⟩
  · unfold Memory.write at hfail ⊢
    cases hsan : sanitizeTuplesWriteDelete P (writeAll P ⟨[], []⟩ reqs).tuples req with
    | error e => rfl
    | ok dup => simp [hsan] at hfail
  · constructor
    · intro h r hr d hd hmatch
      by_contra hnot
      rw [not_or] at hnot
      exact hnot.1 ((h r hr).mp ((gone_iff hs hok hr).mpr ⟨⟨d, hd, hmatch⟩, hnot.2⟩))
    · intro h r hr
      rw [gone_iff hs hok hr]
      constructor
      · rintro ⟨⟨d, hd, hmatch⟩, hnot⟩
        exact (h r hr d hd hmatch).resolve_right hnot
      · intro hdel
        refine ⟨⟨_, hdel, isMatch_asTuple (hs.valid r hr)⟩, fun hwrite => ?_⟩
        obtain ⟨t, ht, heq⟩ := mem_map.mp hwrite
        exact not_mem_writes hdel ht heq

end

-- A user may view two documents; the delete names the type of the documents.

def oneField : Structs Bool where
  empty := false
  hasFields c := c
  text c := match c with
    | none => "<nil>"
    | some false => ""
    | some true => "fields"
  equal c d := c = d
  marshal c := if c then [1] else []
  unmarshal bytes := !bytes.isEmpty
  hasFields_iff _ := Iff.rfl
  equal_refl := by decide
  unmarshal_marshal := by decide

private def grantTwo : Request Bool where
  deletes := []
  writes := [⟨⟨"document:1", "viewer", "user:anne"⟩, none⟩,
    ⟨⟨"document:2", "viewer", "user:anne"⟩, none⟩]
  onMissingDelete := .error
  onDuplicateInsert := .error
  validDeletes := by simp
  validWrites := by
    simp only [forall_mem_cons, not_mem_nil, false_imp_iff, implies_true, and_true]
    exact ⟨⟨by decide, by decide, by decide, nofun⟩, by decide, by decide, by decide, nofun⟩
  noDuplicates := by decide

private def revokeType : Request Bool where
  deletes := [⟨"document:", "viewer", "user:anne"⟩]
  writes := []
  onMissingDelete := .error
  onDuplicateInsert := .error
  validDeletes := by decide
  validWrites := by simp
  noDuplicates := by decide

/-- The call succeeds and removes both tuples, of which it names neither. -/
theorem write_delete_type :
    ((writeAll oneField ⟨[], []⟩ [grantTwo]).tuples.map fun r =>
      (r.asTuple oneField).toKeyWithoutCondition) =
        [⟨"document:1", "viewer", "user:anne"⟩, ⟨"document:2", "viewer", "user:anne"⟩] ∧
    (write oneField (writeAll oneField ⟨[], []⟩ [grantTwo]) revokeType).2 = none ∧
    (write oneField (writeAll oneField ⟨[], []⟩ [grantTwo]) revokeType).1.tuples = [] ∧
    revokeType.deletes = [⟨"document:", "viewer", "user:anne"⟩] := by
  decide

end Memory

end OpenFGA.Write
