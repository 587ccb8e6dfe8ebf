/-
  `ReadStartingWithUser` in the four backends (`pkg/storage/memory`, `sqlite`, `mysql`,
  `postgres`).

  The backends keep the tuples of all stores.  The memory backend, MySQL and
  PostgreSQL keep the user of a tuple as one string, SQLite keeps its type, its id and its
  relation in three columns.  `Filter.Matches` says what the read is for: each stored
  tuple once that matches the filter.

  MySQL and PostgreSQL return that.  SQLite leaves the relation column open for an
  element of the user filter without a relation, so that it also returns the
  usersets of the object; the memory backend returns a tuple for each element that
  matches it, and nothing at all for an empty set of object ids.
-/

import OpenFGA.Lib.Sql
import OpenFGA.TupleStrings

namespace OpenFGA.StartingWithUser

open OpenFGA.Tuple List

/-- The tuples of all stores. -/
structure Database where
  rows : List (String × Key)
  valid : ∀ p ∈ rows, isValidObject p.2.object = true ∧ isValidRelation p.2.relation = true ∧
    isValidUser p.2.user = true
  unique : (rows.map fun p => (p.1, p.2.object, p.2.relation, p.2.user)).Nodup

/-- `ReadStartingWithUserFilter`; `objectIDs` is `none` for a nil set. -/
structure Filter where
  objectType : String
  relation : String
  userFilter : List ObjectRelation
  objectIDs : Option (List String)
  conditions : List String

structure TupleRecord where
  objectType : String
  objectID : String
  relation : String
  user : String
  userObjectType : String
  userObjectID : String
  userRelation : String
  conditionName : String
  conditionContext : String
deriving DecidableEq, Repr

def TupleRecord.asTuple (t : TupleRecord) : Key where
  object := buildObject t.objectType t.objectID
  relation := t.relation
  user := if t.user = "" then fromUserParts t.userObjectType t.userObjectID t.userRelation
    else t.user
  condition := t.conditionName
  conditionContext := t.conditionContext

/-! ## Memory -/

namespace Memory

/-- The record that `Write` appends. -/
def record (t : Key) : TupleRecord :=
  ⟨(splitObject t.object).1, (splitObject t.object).2, t.relation, t.user, "", "", "", t.condition,
    t.conditionContext⟩

/-- What the loop of `ReadStartingWithUser` appends for a record. -/
def matched (f : Filter) (t : TupleRecord) : List TupleRecord :=
  if t.objectType ≠ f.objectType then []
  else if t.relation ≠ f.relation then []
  else if f.objectIDs.any fun ids => !ids.contains t.objectID then []
  else if f.conditions ≠ [] ∧ t.conditionName ∉ f.conditions then []
  else f.userFilter.filterMap fun userFilter =>
    if getObjectRelationAsString userFilter ≠ t.user then none else some t

def readStartingWithUser (db : Database) (store : String) (f : Filter) : List Key :=
  let tuples := (db.rows.filter fun p => p.1 = store).map fun p => record p.2
  ((tuples.flatMap (matched f)).insertionSort fun a b => a.objectID ≤ b.objectID).map
    TupleRecord.asTuple

end Memory

/-! ## SQL -/

/-- The conditions that all three SQL backends build from the last two fields. -/
def optionalConds {C : Type} (objectID conditionName : C) (f : Filter) : List (Sql.Cond C) :=
  (match f.objectIDs with
    | some (id :: ids) => [.isIn (.col objectID) (id :: ids)]
    | _ => []) ++
  if f.conditions ≠ [] then [.isIn (.coalesce conditionName "") f.conditions] else []

namespace SQLite

inductive Column where
  | store
  | objectType
  | objectID
  | relation
  | userObjectType
  | userObjectID
  | userRelation
  | conditionName
deriving DecidableEq, Repr

structure Row where
  store : String
  record : TupleRecord

/-- The row that `Write` inserts. -/
def row (p : String × Key) : Row where
  store := p.1
  record := {
    objectType := (splitObject p.2.object).1
    objectID := (splitObject p.2.object).2
    relation := p.2.relation
    user := ""
    userObjectType := (toUserParts p.2.user).1
    userObjectID := (toUserParts p.2.user).2.1
    userRelation := (toUserParts p.2.user).2.2
    conditionName := p.2.condition
    conditionContext := p.2.conditionContext }

def get : Column → Row → Option String
  | .store, r => some r.store
  | .objectType, r => some r.record.objectType
  | .objectID, r => some r.record.objectID
  | .relation, r => some r.record.relation
  | .userObjectType, r => some r.record.userObjectType
  | .userObjectID, r => some r.record.userObjectID
  | .userRelation, r => some r.record.userRelation
  | .conditionName, r => some r.record.conditionName

/-- The condition for one element of the user filter. -/
def targetUser (u : ObjectRelation) : Sql.Cond Column :=
  let (userObjectType, userObjectID, userRelation) := toUserPartsFromObjectRelation u
  .all ([.eq (.col .userObjectType) userObjectType, .eq (.col .userObjectID) userObjectID] ++
    if userRelation ≠ "" then [.eq (.col .userRelation) userRelation] else [])

def query (store : String) (f : Filter) : Sql.Select Column where
  wheres :=
    [.all [.eq (.col .store) store, .eq (.col .objectType) f.objectType,
      .eq (.col .relation) f.relation], .any (f.userFilter.map targetUser)] ++
      optionalConds .objectID .conditionName f
  orderBy := .objectID

def readStartingWithUser (db : Database) (store : String) (f : Filter) : List Key :=
  ((query store f).run get (db.rows.map row)).map fun r => r.record.asTuple

end SQLite

-- The table of MySQL and of PostgreSQL.

namespace UserColumn

inductive Column where
  | store
  | objectType
  | objectID
  | relation
  | user
  | conditionName
deriving DecidableEq, Repr

structure Row where
  store : String
  record : TupleRecord

def row (p : String × Key) : Row := ⟨p.1, Memory.record p.2⟩

def get : Column → Row → Option String
  | .store, r => some r.store
  | .objectType, r => some r.record.objectType
  | .objectID, r => some r.record.objectID
  | .relation, r => some r.record.relation
  | .user, r => some r.record.user
  | .conditionName, r => some r.record.conditionName

def targetUser (u : ObjectRelation) : String :=
  if u.relation ≠ "" then "#".intercalate [u.object, u.relation] else u.object

def query (store : String) (f : Filter) : Sql.Select Column where
  wheres :=
    [.all [.eq (.col .store) store, .eq (.col .objectType) f.objectType,
      .eq (.col .relation) f.relation, .isIn (.col .user) (f.userFilter.map targetUser)]] ++
      optionalConds .objectID .conditionName f
  orderBy := .objectID

def readStartingWithUser (db : Database) (store : String) (f : Filter) : List Key :=
  ((query store f).run get (db.rows.map row)).map fun r => r.record.asTuple

end UserColumn

inductive Backend where
  | memory
  | sqlite
  | mysql
  | postgres
deriving DecidableEq, Repr

def Backend.readStartingWithUser : Backend → Database → String → Filter → List Key
  | .memory => Memory.readStartingWithUser
  | .sqlite => SQLite.readStartingWithUser
  | .mysql => UserColumn.readStartingWithUser
  | .postgres => UserColumn.readStartingWithUser

/-! ## What the read is for -/

/-- The user strings that are asked for. -/
def Filter.users (f : Filter) : List String := f.userFilter.map getObjectRelationAsString

/-- All but the user matches. -/
def Filter.MatchesRest (f : Filter) (t : Key) : Prop :=
  (splitObject t.object).1 = f.objectType ∧ t.relation = f.relation ∧
    (∀ ids, f.objectIDs = some ids → ids ≠ [] → (splitObject t.object).2 ∈ ids) ∧
    (f.conditions ≠ [] → t.condition ∈ f.conditions)

/-- The tuple is to be returned. -/
def Filter.Matches (f : Filter) (t : Key) : Prop := f.MatchesRest t ∧ t.user ∈ f.users

instance (f : Filter) (t : Key) : Decidable (f.MatchesRest t) :=
  match h : f.objectIDs with
  | none => decidable_of_iff ((splitObject t.object).1 = f.objectType ∧ t.relation = f.relation ∧
      (f.conditions ≠ [] → t.condition ∈ f.conditions)) (by simp [Filter.MatchesRest, h])
  | some ids => decidable_of_iff ((splitObject t.object).1 = f.objectType ∧
      t.relation = f.relation ∧ (ids ≠ [] → (splitObject t.object).2 ∈ ids) ∧
      (f.conditions ≠ [] → t.condition ∈ f.conditions)) (by simp [Filter.MatchesRest, h])

instance (f : Filter) (t : Key) : Decidable (f.Matches t) := inferInstanceAs (Decidable (_ ∧ _))

def Database.tuples (db : Database) (store : String) : List Key :=
  (db.rows.filter fun p => p.1 = store).map fun p => p.2

/-- Each stored tuple once that matches. -/
def Database.matching (db : Database) (store : String) (f : Filter) : List Key :=
  (db.tuples store).filter fun t => f.Matches t

section
variable {db : Database} {store : String} {f : Filter} {t : Key} {u : ObjectRelation}

lemma mem_tuples : t ∈ db.tuples store ↔ (store, t) ∈ db.rows := by
  simp [Database.tuples]

/-- The rows of a store, filtered and read back. -/
lemma map_filter_rows {R : Type} (row : String × Key → R) (scan : R → Key) (p : R → Bool)
    (q : Key → Bool) (hscan : ∀ x ∈ db.rows, scan (row x) = x.2)
    (hp : ∀ x ∈ db.rows, p (row x) = (decide (x.1 = store) && q x.2)) :
    ((db.rows.map row).filter p).map scan = (db.tuples store).filter q := by
  have hfilter : db.rows.filter (p ∘ row) = db.rows.filter fun x => decide (x.1 = store) && q x.2 :=
    filter_congr fun x hx => hp x hx
  rw [filter_map, hfilter, map_map, Database.tuples, filter_map, filter_filter]
  have hcomm : (fun x : String × Key => decide (x.1 = store) && q x.2) =
      fun x => (q ∘ fun p => p.2) x && decide (x.1 = store) := funext fun x => Bool.and_comm _ _
  rw [hcomm]
  exact map_congr_left fun x hx => hscan x (mem_of_mem_filter hx)

/-- Two filters of one list yield the same exactly when they agree on it. -/
lemma filter_perm_filter_iff {α : Type} {l : List α} {p q : α → Bool} :
    (l.filter p).Perm (l.filter q) ↔ ∀ x ∈ l, p x = q x := by
  constructor
  · intro h x hx
    have hmem := h.mem_iff (a := x)
    rw [mem_filter, mem_filter] at hmem
    exact Bool.eq_iff_iff.mpr ⟨fun hp => (hmem.mp ⟨hx, hp⟩).2, fun hq => (hmem.mpr ⟨hx, hq⟩).2⟩
  · intro h
    rw [filter_congr h]

lemma asTuple_record (h : isValidObject t.object = true) (huser : t.user ≠ "") :
    (Memory.record t).asTuple = t := by
  rw [TupleRecord.asTuple, Memory.record, buildObject_splitObject h, if_neg huser]

lemma asTuple_row (h : isValidObject t.object = true) (huser : isValidUser t.user = true) :
    (SQLite.row (store, t)).record.asTuple = t := by
  rw [TupleRecord.asTuple, SQLite.row, buildObject_splitObject h, if_pos rfl,
    fromUserParts_toUserParts huser]

lemma user_ne_empty (h : isValidUser t.user = true) : t.user ≠ "" := by
  intro heq
  rw [heq] at h
  exact absurd h (by decide)

end

/-! ## SQL -/

section
variable {db : Database} {store : String} {f : Filter} {t : Key} {u : ObjectRelation}

lemma eval_optionalConds {C R : Type} {get : C → R → Option String} {objectID conditionName r}
    (f : Filter) {id condition} (hid : get objectID r = some id)
    (hcond : get conditionName r = some condition) :
    (∀ p ∈ optionalConds objectID conditionName f, p.eval get r = true) ↔
      (∀ ids, f.objectIDs = some ids → ids ≠ [] → id ∈ ids) ∧
        (f.conditions ≠ [] → condition ∈ f.conditions) := by
  unfold optionalConds
  rw [forall_mem_append]
  refine and_congr ?_ ?_
  · cases hids : f.objectIDs with
    | none => simp
    | some ids =>
      cases ids with
      | nil => simp
      | cons x xs => simp [hid]
  · by_cases hnil : f.conditions = []
    · simp [hnil]
    · simp [hnil, hcond]

lemma UserColumn.eval_query {x} :
    (Sql.Cond.all (query store f).wheres).eval get (row x) =
      (decide (x.1 = store) && decide (f.Matches x.2)) := by
  have huser : (∃ v ∈ f.userFilter.map targetUser, some x.2.user = some v) ↔
      x.2.user ∈ f.users := by
    simp only [Option.some.injEq, exists_eq_right']
    rfl
  have hid : get .objectID (row x) = some (splitObject x.2.object).2 := rfl
  have hcond : get .conditionName (row x) = some x.2.condition := rfl
  rw [Bool.eq_iff_iff, Sql.eval_all, query, forall_mem_append,
    eval_optionalConds f hid hcond, forall_mem_singleton, Sql.eval_all]
  simp only [forall_mem_cons, not_mem_nil, false_imp_iff, implies_true, and_true,
    Sql.eval_eq_col, Sql.eval_isIn_col, Bool.and_eq_true, decide_eq_true_iff]
  show (some x.1 = some store ∧ some (splitObject x.2.object).1 = some f.objectType ∧
      some x.2.relation = some f.relation ∧
        ∃ v ∈ f.userFilter.map targetUser, some x.2.user = some v) ∧ _ ↔ _
  rw [huser]
  simp only [Option.some.injEq, Filter.Matches, Filter.MatchesRest]
  tauto

theorem UserColumn.readStartingWithUser_perm :
    (readStartingWithUser db store f).Perm (db.matching store f) := by
  have hscan : ∀ x ∈ db.rows, (row x).record.asTuple = x.2 := fun x hx =>
    asTuple_record (db.valid x hx).1 (user_ne_empty (db.valid x hx).2.2)
  have hrows := map_filter_rows row (fun r => r.record.asTuple)
    (fun r => (Sql.Cond.all (query store f).wheres).eval get r)
    (fun t => decide (f.Matches t)) hscan fun x _ => eval_query
  have hrun := Sql.run_perm get (query store f) (db.rows.map row)
  rw [readStartingWithUser, Database.matching, ← hrows]
  exact hrun.map fun r => r.record.asTuple

/-- The element of the user filter selects the user in SQLite. -/
def SQLite.Selects (u : ObjectRelation) (user : String) : Prop :=
  (toUserParts user).1 = (splitObject u.object).1 ∧
    (toUserParts user).2.1 = (splitObject u.object).2 ∧
    (u.relation ≠ "" → (toUserParts user).2.2 = u.relation)

instance (u : ObjectRelation) (user : String) : Decidable (SQLite.Selects u user) :=
  inferInstanceAs (Decidable (_ ∧ _))

lemma SQLite.eval_targetUser {x} :
    (targetUser u).eval get (row x) = true ↔ SQLite.Selects u x.2.user := by
  unfold targetUser SQLite.Selects toUserPartsFromObjectRelation
  by_cases hrel : u.relation = ""
  · simp [hrel, get, row]
  · simp [hrel, get, row]

lemma SQLite.eval_query {x} :
    (Sql.Cond.all (query store f).wheres).eval get (row x) =
      (decide (x.1 = store) && decide (f.MatchesRest x.2 ∧
        ∃ u ∈ f.userFilter, SQLite.Selects u x.2.user)) := by
  have hid : get .objectID (row x) = some (splitObject x.2.object).2 := rfl
  have hcond : get .conditionName (row x) = some x.2.condition := rfl
  rw [Bool.eq_iff_iff, Sql.eval_all, query, forall_mem_append,
    eval_optionalConds f hid hcond, forall_mem_cons, forall_mem_singleton, Sql.eval_all,
    Sql.eval_any]
  simp only [forall_mem_cons, not_mem_nil, false_imp_iff, implies_true, and_true,
    Sql.eval_eq_col, mem_map, exists_exists_and_eq_and, eval_targetUser, Bool.and_eq_true,
    decide_eq_true_iff]
  show ((some x.1 = some store ∧ some (splitObject x.2.object).1 = some f.objectType ∧
      some x.2.relation = some f.relation) ∧ _) ∧ _ ↔ _
  simp only [Option.some.injEq, Filter.MatchesRest]
  tauto

theorem SQLite.readStartingWithUser_perm :
    (readStartingWithUser db store f).Perm ((db.tuples store).filter fun t =>
      decide (f.MatchesRest t ∧ ∃ u ∈ f.userFilter, SQLite.Selects u t.user)) := by
  have hscan : ∀ x ∈ db.rows, (row x).record.asTuple = x.2 := fun x hx =>
    asTuple_row (db.valid x hx).1 (db.valid x hx).2.2
  have hrows := map_filter_rows row (fun r => r.record.asTuple)
    (fun r => (Sql.Cond.all (query store f).wheres).eval get r)
    (fun t => decide (f.MatchesRest t ∧ ∃ u ∈ f.userFilter, SQLite.Selects u t.user)) hscan
    fun x _ => eval_query
  have hrun := Sql.run_perm get (query store f) (db.rows.map row)
  rw [readStartingWithUser, ← hrows]
  exact hrun.map fun r => r.record.asTuple

lemma SQLite.readStartingWithUser_perm_iff :
    (readStartingWithUser db store f).Perm (db.matching store f) ↔
      ∀ t ∈ db.tuples store, f.MatchesRest t →
        ((∃ u ∈ f.userFilter, SQLite.Selects u t.user) ↔ t.user ∈ f.users) := by
  rw [readStartingWithUser_perm.congr_left, Database.matching, filter_perm_filter_iff]
  refine forall₂_congr fun t ht => ?_
  rw [decide_eq_decide, Filter.Matches]
  exact and_congr_right_iff

/-- An element with a relation selects the userset it names. -/
lemma SQLite.selects_iff {user} (h : isValidUser user = true) (hrel : u.relation ≠ "") :
    SQLite.Selects u user ↔ user = getObjectRelationAsString u := by
  rw [getObjectRelationAsString, if_pos hrel]
  constructor
  · rintro ⟨htype, hid, hrelation⟩
    have hrelation := hrelation hrel
    rcases valid_user_cases h with ⟨-, hh⟩ | hobject | huserset
    · exact absurd (hrelation.symm.trans ((relation_eq_empty h).mpr hh)) hrel
    · obtain ⟨-, -, -, -, -, hh⟩ := exists_of_isValidObject hobject
      exact absurd (hrelation.symm.trans ((relation_eq_empty h).mpr hh)) hrel
    · obtain ⟨type, id, relation, rfl, hne, htc, -, hrh, -⟩ := exists_of_isValidUserset huserset
      rw [toUserParts_userset htc hrh] at htype hid hrelation
      simp only at htype hid hrelation
      have hobject : u.object = buildObject type id := by
        rw [htype, hid]
        exact eq_buildObject (htype ▸ hne)
      rw [hobject, hrelation]
  · intro huser
    have hmem : '#' ∈ user.toList := by
      rw [huser]
      simp
    rcases valid_user_cases h with ⟨-, hh⟩ | hobject | huserset
    · exact absurd hmem hh
    · obtain ⟨-, -, -, -, -, hh⟩ := exists_of_isValidObject hobject
      exact absurd hmem hh
    · obtain ⟨type, id, relation, hparts, hne, htc, hoh, hrh, -⟩ :=
        exists_of_isValidUserset huserset
      have hlists : (buildObject type id).toList ++ '#' :: relation.toList =
          u.object.toList ++ '#' :: u.relation.toList := by
        have heq := congrArg String.toList (hparts.symm.trans huser)
        simpa using heq
      -- the userset has one hash, so both strings are cut in the same place
      obtain ⟨hobject, -, hrelation⟩ := (append_cons_inj_of_notMem hoh hrh).mp hlists
      rw [String.toList_inj] at hobject hrelation
      have hselects : toUserParts user = (type, id, relation) := by
        rw [hparts, toUserParts_userset htc hrh]
      have hsplit : splitObject u.object = (type, id) := by
        rw [← hobject, splitObject_buildObject htc]
      rw [SQLite.Selects, hselects, hsplit]
      exact ⟨rfl, rfl, fun _ => hrelation⟩

/-- An element selects the users with its object, and with its relation if it has one. -/
lemma SQLite.selects_parts {user} :
    SQLite.Selects u user ↔
      splitObject u.object = ((toUserParts user).1, (toUserParts user).2.1) ∧
        (u.relation = "" ∨ u.relation = (toUserParts user).2.2) := by
  rw [SQLite.Selects, Prod.ext_iff]
  by_cases hrel : u.relation = ""
  · simp only [hrel, ne_eq, not_true_eq_false, false_imp_iff, and_true, true_or]
    exact and_congr eq_comm eq_comm
  · simp only [hrel, ne_eq, not_false_eq_true, true_imp_iff, false_or, ← and_assoc]
    exact and_congr (and_congr eq_comm eq_comm) eq_comm

end

/-! ## Memory -/

section
variable {db : Database} {store : String} {f : Filter} {t : Key}

lemma count_flatMap_replicate {α : Type} [DecidableEq α] (l : List α) (n : α → Nat) (a : α) :
    (l.flatMap fun x => replicate (n x) x).count a = l.count a * n a := by
  induction l with
  | nil => simp
  | cons x l ih =>
    rw [flatMap_cons, count_append, ih, count_replicate, count_cons]
    by_cases hx : x = a
    · rw [if_pos (beq_iff_eq.mpr hx), if_pos (beq_iff_eq.mpr hx), hx, Nat.succ_mul, Nat.add_comm]
    · rw [if_neg (mt beq_iff_eq.mp hx), if_neg (mt beq_iff_eq.mp hx), Nat.zero_add, Nat.add_zero]

/-- Repetitions of the elements of a list yield what a filter does when those that pass
    are there once. -/
lemma flatMap_replicate_perm_filter_iff {α : Type} [DecidableEq α] {l : List α} {n : α → Nat}
    {p : α → Bool} :
    (l.flatMap fun x => replicate (n x) x).Perm (l.filter p) ↔
      ∀ x ∈ l, n x = if p x then 1 else 0 := by
  rw [perm_iff_count]
  constructor
  · intro h x hx
    have hcount := h x
    have hpos : 0 < l.count x := count_pos_iff.mpr hx
    rw [count_flatMap_replicate] at hcount
    by_cases hp : p x = true
    · rw [count_filter hp] at hcount
      rw [if_pos hp]
      exact Nat.eq_of_mul_eq_mul_left hpos (hcount.trans (Nat.mul_one _).symm)
    · have hzero : (l.filter p).count x = 0 :=
        count_eq_zero.mpr fun hmem => hp (mem_filter.mp hmem).2
      rw [hzero] at hcount
      rw [if_neg hp]
      exact (Nat.mul_eq_zero.mp hcount).resolve_left hpos.ne'
  · intro h x
    rw [count_flatMap_replicate]
    by_cases hx : x ∈ l
    · rw [h x hx]
      by_cases hp : p x = true
      · rw [if_pos hp, Nat.mul_one, count_filter hp]
      · rw [if_neg hp, Nat.mul_zero]
        exact (count_eq_zero.mpr fun hmem => hp (mem_filter.mp hmem).2).symm
    · rw [count_eq_zero.mpr hx, Nat.zero_mul]
      exact (count_eq_zero.mpr fun hmem => hx (mem_filter.mp hmem).1).symm

/-- How often the memory backend returns a tuple. -/
def Memory.times (f : Filter) (t : Key) : Nat :=
  if f.MatchesRest t ∧ f.objectIDs ≠ some [] then f.users.count t.user else 0

/-- The set of object ids lets the tuple pass; an empty one lets none pass. -/
lemma any_objectIDs_eq_false {id} :
    (f.objectIDs.any fun ids => !ids.contains id) = false ↔
      (∀ ids, f.objectIDs = some ids → ids ≠ [] → id ∈ ids) ∧ f.objectIDs ≠ some [] := by
  cases h : f.objectIDs with
  | none => simp
  | some ids =>
    have hany : ((some ids).any fun ids => !ids.contains id) = false ↔ id ∈ ids := by simp
    rw [hany]
    constructor
    · intro hid
      refine ⟨fun ids' heq _ => ?_, fun heq => ?_⟩
      · cases heq
        exact hid
      · cases heq
        cases hid
    · rintro ⟨hin, hne⟩
      exact hin ids rfl fun hnil => hne (by rw [hnil])

/-- The inner loop appends the record for each element that names its user. -/
lemma filterMap_users (t : TupleRecord) (us : List ObjectRelation) :
    (us.filterMap fun userFilter =>
      if getObjectRelationAsString userFilter ≠ t.user then none else some t) =
        replicate ((us.map getObjectRelationAsString).count t.user) t := by
  induction us with
  | nil => rfl
  | cons u us ih =>
    rw [filterMap_cons, ih, map_cons, count_cons]
    by_cases hu : getObjectRelationAsString u = t.user
    · rw [if_neg (not_not.mpr hu), if_pos (beq_iff_eq.mpr hu), replicate_succ]
    · rw [if_pos hu, if_neg (mt beq_iff_eq.mp hu), Nat.add_zero]

lemma Memory.matched_record :
    matched f (record t) =
      replicate (times f t) (record t) := by
  have hpass : f.MatchesRest t ∧ f.objectIDs ≠ some [] ↔
      (record t).objectType = f.objectType ∧ (record t).relation = f.relation ∧
        (f.objectIDs.any fun ids => !ids.contains (record t).objectID) = false ∧
        ¬ (f.conditions ≠ [] ∧ (record t).conditionName ∉ f.conditions) := by
    rw [any_objectIDs_eq_false, not_and, not_not, Filter.MatchesRest, and_assoc,
      and_assoc, and_assoc, and_assoc, and_comm (a := f.objectIDs ≠ some [])]
    exact Iff.rfl
  unfold times matched
  rw [filterMap_users]
  by_cases hmatch : f.MatchesRest t ∧ f.objectIDs ≠ some []
  · obtain ⟨htype, hrel, hids, hcond⟩ := hpass.mp hmatch
    rw [if_pos hmatch, if_neg (not_not.mpr htype), if_neg (not_not.mpr hrel),
      if_neg (Bool.eq_false_iff.mp hids), if_neg hcond]
    rfl
  · rw [if_neg hmatch]
    split_ifs with htype hrel hids hcond
    · rfl
    · rfl
    · rfl
    · rfl
    · exact absurd
        (hpass.mpr ⟨not_not.mp htype, not_not.mp hrel, Bool.eq_false_iff.mpr hids, hcond⟩)
        hmatch

lemma Memory.readStartingWithUser_perm_iff :
    (readStartingWithUser db store f).Perm (db.matching store f) ↔
      ∀ t ∈ db.tuples store, times f t = if f.Matches t then 1 else 0 := by
  have hread : (readStartingWithUser db store f).Perm ((db.tuples store).flatMap fun t =>
      replicate (times f t) t) := by
    refine ((perm_insertionSort _ _).map TupleRecord.asTuple).trans ?_
    rw [Database.tuples, flatMap_map, flatMap_map, map_flatMap]
    refine List.Perm.of_eq (flatMap_congr fun x hx => ?_)
    have hvalid := db.valid x (mem_of_mem_filter hx)
    rw [matched_record, map_replicate,
      asTuple_record hvalid.1 (user_ne_empty hvalid.2.2)]
  rw [hread.congr_left, Database.matching, flatMap_replicate_perm_filter_iff]
  simp only [decide_eq_true_iff]

end

/-! ## Agreement -/

/-- What a filter has to meet for all backends to return the same.  The tuples are those
    of the store that is read. -/
structure Filter.Regular (f : Filter) (tuples : List Key) : Prop where
  /-- The set of object ids is not empty, if anything else matches. -/
  objectIDs : f.objectIDs = some [] → ∀ t ∈ tuples, ¬ f.Matches t
  /-- No two elements of the user filter name the user of a tuple that matches. -/
  once : ∀ t ∈ tuples, f.Matches t → f.users.count t.user ≤ 1
  /-- Where an element without a relation has the object of the user of a tuple, that user
      is asked for. -/
  object : ∀ t ∈ tuples, f.MatchesRest t → ∀ u ∈ f.userFilter, u.relation = "" →
    splitObject u.object = ((toUserParts t.user).1, (toUserParts t.user).2.1) → t.user ∈ f.users
  /-- Where an element without a relation spells the user of a tuple out, some element has
      its object, and its relation or none. -/
  userset : ∀ t ∈ tuples, f.MatchesRest t → ∀ u ∈ f.userFilter, u.relation = "" →
    u.object = t.user → ∃ u' ∈ f.userFilter,
      splitObject u'.object = ((toUserParts t.user).1, (toUserParts t.user).2.1) ∧
        (u'.relation = "" ∨ u'.relation = (toUserParts t.user).2.2)

section
variable {db : Database} {store : String} {f : Filter}

lemma Memory.times_iff {tuples : List Key} :
    (∀ t ∈ tuples, times f t = if f.Matches t then 1 else 0) ↔
      (f.objectIDs = some [] → ∀ t ∈ tuples, ¬ f.Matches t) ∧
        ∀ t ∈ tuples, f.Matches t → f.users.count t.user ≤ 1 := by
  constructor
  · intro h
    refine ⟨fun hids t ht hmatch => ?_, fun t ht hmatch => ?_⟩
    · have htimes := h t ht
      rw [if_pos hmatch, times, if_neg fun hm => hm.2 hids] at htimes
      omega
    · have htimes := h t ht
      rw [if_pos hmatch, times] at htimes
      split_ifs at htimes
      · omega
  · rintro ⟨hids, honce⟩ t ht
    by_cases hmatch : f.Matches t
    · have hpos : 0 < f.users.count t.user := count_pos_iff.mpr hmatch.2
      have hle := honce t ht hmatch
      rw [if_pos hmatch, times, if_pos ⟨hmatch.1, fun heq => hids heq t ht hmatch⟩]
      omega
    · rw [if_neg hmatch, times]
      split_ifs with hm
      · exact count_eq_zero.mpr fun hmem => hmatch ⟨hm.1, hmem⟩
      · rfl

lemma SQLite.selects_users_iff {t : Key} (hvalid : isValidUser t.user = true) :
    ((∃ u ∈ f.userFilter, SQLite.Selects u t.user) ↔ t.user ∈ f.users) ↔
      (∀ u ∈ f.userFilter, u.relation = "" →
        splitObject u.object = ((toUserParts t.user).1, (toUserParts t.user).2.1) →
          t.user ∈ f.users) ∧
      ∀ u ∈ f.userFilter, u.relation = "" → u.object = t.user → ∃ u' ∈ f.userFilter,
        splitObject u'.object = ((toUserParts t.user).1, (toUserParts t.user).2.1) ∧
          (u'.relation = "" ∨ u'.relation = (toUserParts t.user).2.2) := by
  constructor
  · intro h
    refine ⟨fun u hu hrel hobject => h.mp ⟨u, hu, selects_parts.mpr ⟨hobject, .inl hrel⟩⟩,
      fun u hu hrel hobject => ?_⟩
    have hmem : t.user ∈ f.users :=
      mem_map.mpr ⟨u, hu, by rw [getObjectRelationAsString, if_neg (not_not.mpr hrel), hobject]⟩
    obtain ⟨u', hu', hsel⟩ := h.mpr hmem
    exact ⟨u', hu', selects_parts.mp hsel⟩
  · rintro ⟨hobject, huserset⟩
    constructor
    · rintro ⟨u, hu, hsel⟩
      by_cases hrel : u.relation = ""
      · exact hobject u hu hrel (selects_parts.mp hsel).1
      · exact mem_map.mpr ⟨u, hu, ((selects_iff hvalid hrel).mp hsel).symm⟩
    · intro hmem
      obtain ⟨u, hu, huser⟩ := mem_map.mp hmem
      by_cases hrel : u.relation = ""
      · rw [getObjectRelationAsString, if_neg (not_not.mpr hrel)] at huser
        obtain ⟨u', hu', hsel⟩ := huserset u hu hrel huser
        exact ⟨u', hu', selects_parts.mpr hsel⟩
      · exact ⟨u, hu, (selects_iff hvalid hrel).mpr huser.symm⟩

/-- For every database, store and filter: all four backends return each stored tuple
    once that matches, and nothing else, exactly when the filter is regular for the tuples of
    the store. -/
theorem readStartingWithUser_matching_iff (db : Database) (store : String) (f : Filter) :
    (∀ b : Backend, (b.readStartingWithUser db store f).Perm (db.matching store f)) ↔
      f.Regular (db.tuples store) := by
  have hvalid : ∀ t ∈ db.tuples store, isValidUser t.user = true := fun t ht =>
    (db.valid _ (mem_tuples.mp ht)).2.2
  constructor
  · intro h
    obtain ⟨hids, honce⟩ :=
      Memory.times_iff.mp (Memory.readStartingWithUser_perm_iff.mp (h .memory))
    have hsqlite := SQLite.readStartingWithUser_perm_iff.mp (h .sqlite)
    have hparts := fun t ht hm => (SQLite.selects_users_iff (hvalid t ht)).mp (hsqlite t ht hm)
    exact ⟨hids, honce, fun t ht hm => (hparts t ht hm).1, fun t ht hm => (hparts t ht hm).2⟩
  · intro h b
    cases b with
    | memory =>
      exact Memory.readStartingWithUser_perm_iff.mpr (Memory.times_iff.mpr ⟨h.objectIDs, h.once⟩)
    | sqlite =>
      exact SQLite.readStartingWithUser_perm_iff.mpr fun t ht hm =>
        (SQLite.selects_users_iff (hvalid t ht)).mpr ⟨h.object t ht hm, h.userset t ht hm⟩
    | mysql | postgres => exact UserColumn.readStartingWithUser_perm

end

-- The group of engineers may view a document, and its members may.

private def engViews : Database where
  rows := [("s", ⟨"document:1", "viewer", "group:eng", "", ""⟩),
    ("s", ⟨"document:2", "viewer", "group:eng#member", "", ""⟩)]
  valid := by decide
  unique := by decide

private def engFilter : Filter := ⟨"document", "viewer", [⟨"group:eng", ""⟩], none, []⟩

/-- SQLite returns the document of the members for the group. -/
theorem readStartingWithUser_sqlite_userset :
    engViews.matching "s" engFilter = [⟨"document:1", "viewer", "group:eng", "", ""⟩] ∧
    Backend.postgres.readStartingWithUser engViews "s" engFilter =
      [⟨"document:1", "viewer", "group:eng", "", ""⟩] ∧
    Backend.sqlite.readStartingWithUser engViews "s" engFilter =
      [⟨"document:1", "viewer", "group:eng", "", ""⟩,
        ⟨"document:2", "viewer", "group:eng#member", "", ""⟩] := by
  decide

end OpenFGA.StartingWithUser
