/-
  What the reads of a backend have in common (`pkg/storage/memory`, `sqlite`, `mysql`,
  `postgres`).

  The memory backend compares a record with a target in `match`, where an empty field
  of the target matches everything and an object or a user may be given by its type alone.
  The SQL backends add one condition for each field that is not empty.
-/

import OpenFGA.Storage.StartingWithUser

namespace OpenFGA.Storage

open OpenFGA.Tuple StartingWithUser

/-! ## Memory -/

/-- What `match` looks at in a record. -/
structure RecordKey where
  objectType : String
  objectID : String
  relation : String
  user : String
deriving DecidableEq, Repr

def recordKey (t : TupleRecord) : RecordKey := ⟨t.objectType, t.objectID, t.relation, t.user⟩

/-- The key of the record of a tuple. -/
def RecordKey.of (object relation user : String) : RecordKey :=
  ⟨(splitObject object).1, (splitObject object).2, relation, user⟩

namespace Memory

/-- `match`, for a target with these fields. -/
def isMatch (t : RecordKey) (object relation user : String) : Bool :=
  (if object ≠ "" then
      let (td, objectid) := splitObject object
      if objectid = "" then td = t.objectType
      else td = t.objectType && objectid = t.objectID
    else true) &&
  (relation = "" || t.relation = relation) &&
  if user ≠ "" then
    let (userType, userID, _) := toUserParts user
    if userID ≠ "" ∧ t.user ≠ user then false
    else if userID = "" ∧ ¬ (userType ++ ":").toList <+: t.user.toList then false
    else true
  else true

/-- The records of a store. -/
def tuples (db : Database) (store : String) : List TupleRecord :=
  (db.rows.filter fun p => p.1 = store).map fun p => StartingWithUser.Memory.record p.2

end Memory

/-! ## SQL -/

/-- The columns of a table together with `user_type`. -/
inductive Column (C : Type) where
  | col (c : C)
  | userType

/-- A row together with its `user_type`. -/
structure Row (R : Type) where
  row : R
  userType : UserKind

/-- A table: the columns that all backends have, the row that `Write` inserts for a tuple of a
    store, and the tuple that is read back from it. -/
structure Table (C R : Type) where
  store : C
  objectType : C
  objectID : C
  relation : C
  conditionName : C
  get : C → R → Option String
  row : String × Key → R
  asTuple : R → Key
  get_store : ∀ x, get store (row x) = some x.1
  get_objectType : ∀ x, get objectType (row x) = some (splitObject x.2.object).1
  get_objectID : ∀ x, get objectID (row x) = some (splitObject x.2.object).2
  get_relation : ∀ x, get relation (row x) = some x.2.relation
  get_conditionName : ∀ x, get conditionName (row x) = some x.2.condition
  asTuple_row : ∀ x, isValidObject x.2.object = true → isValidUser x.2.user = true →
    asTuple (row x) = x.2

/-- The table of SQLite. -/
def SQLite.table : Table SQLite.Column SQLite.Row where
  store := .store
  objectType := .objectType
  objectID := .objectID
  relation := .relation
  conditionName := .conditionName
  get := SQLite.get
  row := SQLite.row
  asTuple r := r.record.asTuple
  get_store _ := rfl
  get_objectType _ := rfl
  get_objectID _ := rfl
  get_relation _ := rfl
  get_conditionName _ := rfl
  asTuple_row _ hobject huser := StartingWithUser.asTuple_row hobject huser

/-- The table of MySQL and of PostgreSQL. -/
def UserColumn.table : Table UserColumn.Column UserColumn.Row where
  store := .store
  objectType := .objectType
  objectID := .objectID
  relation := .relation
  conditionName := .conditionName
  get := UserColumn.get
  row := UserColumn.row
  asTuple r := r.record.asTuple
  get_store _ := rfl
  get_objectType _ := rfl
  get_objectID _ := rfl
  get_relation _ := rfl
  get_conditionName _ := rfl
  asTuple_row _ hobject huser := asTuple_record hobject (user_ne_empty huser)

namespace Table

variable {C R : Type} (T : Table C R)

def getColumn : Column C → Row R → Option String
  | .col c, r => T.get c r.row
  | .userType, r => some r.userType.toString

/-- The row with its `user_type`. -/
def typedRow (x : String × Key) : Row R := ⟨T.row x, getUserTypeFromUser x.2.user⟩

/-- The condition on the store. -/
def storeCond (store : String) : Sql.Cond (Column C) := .eq (.col (.col T.store)) store

/-- The conditions on the object. -/
def objectConds (object : String) : List (Sql.Cond (Column C)) :=
  let (objectType, objectID) := splitObject object
  (if objectType ≠ "" then [.eq (.col (.col T.objectType)) objectType] else []) ++
    if objectID ≠ "" then [.eq (.col (.col T.objectID)) objectID] else []

/-- The condition on the relation. -/
def relationConds (relation : String) : List (Sql.Cond (Column C)) :=
  if relation ≠ "" then [.eq (.col (.col T.relation)) relation] else []

/-- The condition on the name of the condition. -/
def conditionConds (conditions : List String) : List (Sql.Cond (Column C)) :=
  if conditions ≠ [] then [.isIn (.coalesce (.col T.conditionName) "") conditions] else []

/-- The tuples of the rows that meet the conditions. -/
def select (wheres : List (Sql.Cond (Column C))) (db : Database) : List Key :=
  (Sql.select T.getColumn wheres (db.rows.map T.typedRow)).map fun r => T.asTuple r.row

end Table

/-! ## What a field of a filter asks for -/

/-- The type and the id of the object, where they are given. -/
def MatchesObject (object : String) (t : Key) : Prop :=
  ((splitObject object).1 ≠ "" → (splitObject t.object).1 = (splitObject object).1) ∧
    ((splitObject object).2 ≠ "" → (splitObject t.object).2 = (splitObject object).2)

def MatchesRelation (relation : String) (t : Key) : Prop := relation ≠ "" → t.relation = relation

def MatchesConditions (conditions : List String) (t : Key) : Prop :=
  conditions ≠ [] → t.condition ∈ conditions

instance (object : String) (t : Key) : Decidable (MatchesObject object t) :=
  inferInstanceAs (Decidable (_ ∧ _))

instance (relation : String) (t : Key) : Decidable (MatchesRelation relation t) :=
  inferInstanceAs (Decidable (_ → _))

instance (conditions : List String) (t : Key) : Decidable (MatchesConditions conditions t) :=
  inferInstanceAs (Decidable (_ → _))

lemma matchesObject_iff {object t} (hobject : isValidObject object = true)
    (ht : isValidObject t.object = true) : MatchesObject object t ↔ t.object = object := by
  unfold MatchesObject
  constructor
  · rintro ⟨htype, hid⟩
    rw [← buildObject_splitObject ht, htype (type_ne_empty hobject), hid (id_ne_empty hobject),
      buildObject_splitObject hobject]
  · rintro rfl
    exact ⟨fun _ => rfl, fun _ => rfl⟩

namespace Table

variable {C R : Type} {T : Table C R} {x : String × Key} {store object relation : String}
  {conditions : List String}

@[simp] lemma eval_storeCond :
    (T.storeCond store).eval T.getColumn (T.typedRow x) = true ↔ x.1 = store := by
  simp [storeCond, getColumn, typedRow, T.get_store]

@[simp] lemma eval_objectConds :
    (∀ p ∈ T.objectConds object, p.eval T.getColumn (T.typedRow x) = true) ↔
      MatchesObject object x.2 := by
  unfold objectConds MatchesObject
  rw [List.forall_mem_append]
  refine and_congr ?_ ?_
  · by_cases h : (splitObject object).1 = ""
    · simp [h]
    · simp [h, getColumn, typedRow, T.get_objectType]
  · by_cases h : (splitObject object).2 = ""
    · simp [h]
    · simp [h, getColumn, typedRow, T.get_objectID]

@[simp] lemma eval_relationConds :
    (∀ p ∈ T.relationConds relation, p.eval T.getColumn (T.typedRow x) = true) ↔
      MatchesRelation relation x.2 := by
  unfold relationConds MatchesRelation
  by_cases h : relation = ""
  · simp [h]
  · simp [h, getColumn, typedRow, T.get_relation]

@[simp] lemma eval_conditionConds :
    (∀ p ∈ T.conditionConds conditions, p.eval T.getColumn (T.typedRow x) = true) ↔
      MatchesConditions conditions x.2 := by
  unfold conditionConds MatchesConditions
  by_cases h : conditions = []
  · simp [h]
  · simp [h, getColumn, typedRow, T.get_conditionName]

lemma select_congr {db wheres wheres'}
    (h : ∀ x, (∀ p ∈ wheres, p.eval T.getColumn (T.typedRow x) = true) ↔
      ∀ p ∈ wheres', p.eval T.getColumn (T.typedRow x) = true) :
    T.select wheres db = T.select wheres' db := by
  have hfilter : Sql.select T.getColumn wheres (db.rows.map T.typedRow) =
      Sql.select T.getColumn wheres' (db.rows.map T.typedRow) := by
    refine List.filter_congr fun r hr => ?_
    obtain ⟨x, -, rfl⟩ := List.mem_map.mp hr
    rw [Bool.eq_iff_iff, Sql.eval_all, Sql.eval_all]
    exact h x
  rw [select, hfilter, select]

/-- A query yields the tuples of the store that pass, where `q` is what its conditions ask for. -/
lemma select_eq_filter {db wheres} {q : Key → Bool}
    (h : ∀ x ∈ db.rows, (∀ p ∈ wheres, p.eval T.getColumn (T.typedRow x) = true) ↔
      x.1 = store ∧ q x.2 = true) :
    T.select wheres db = (db.tuples store).filter q := by
  refine map_filter_rows T.typedRow (fun r => T.asTuple r.row) _ q
    (fun x hx => T.asTuple_row x (db.valid x hx).1 (db.valid x hx).2.2) fun x hx => ?_
  rw [Bool.eq_iff_iff, Sql.eval_all, h x hx, Bool.and_eq_true, decide_eq_true_iff]

end Table

section
variable {t : Key} {k : RecordKey} {object relation user : String}

/-- `match` against the record of a tuple, for an object with a type. -/
lemma Memory.isMatch_record (hobject : object ≠ "" → (splitObject object).1 ≠ "") :
    isMatch (recordKey (StartingWithUser.Memory.record t)) object relation user = true ↔
      MatchesObject object t ∧ MatchesRelation relation t ∧ (user ≠ "" →
        if (toUserParts user).2.1 ≠ "" then t.user = user
        else ((toUserParts user).1 ++ ":").toList <+: t.user.toList) := by
  obtain ⟨k, hk⟩ : ∃ k, k = recordKey (StartingWithUser.Memory.record t) := ⟨_, rfl⟩
  have htype : k.objectType = (splitObject t.object).1 := by rw [hk]; rfl
  have hid : k.objectID = (splitObject t.object).2 := by rw [hk]; rfl
  have hrel : k.relation = t.relation := by rw [hk]; rfl
  have huser : k.user = t.user := by rw [hk]; rfl
  rw [← hk]
  simp only [isMatch, Bool.and_eq_true, and_assoc]
  refine and_congr ?_ (and_congr ?_ ?_)
  · unfold MatchesObject
    by_cases hempty : object = ""
    · have hsplit : splitObject "" = ("", "") := by decide
      simp [hempty, hsplit]
    · have hne := hobject hempty
      by_cases hempty' : (splitObject object).2 = ""
      · simp [hempty, hempty', hne, htype, eq_comm (a := (splitObject object).1)]
      · simp [hempty, hempty', hne, htype, hid, eq_comm (a := (splitObject object).1),
          eq_comm (a := (splitObject object).2)]
  · simp only [Bool.or_eq_true, decide_eq_true_iff, hrel]
    exact or_iff_not_imp_left
  · by_cases hempty : user = ""
    · simp [hempty]
    · by_cases hempty' : (toUserParts user).2.1 = ""
      · simp [hempty, hempty', huser]
      · simp [hempty, hempty', huser]

lemma Memory.isMatch_iff_eq (hobject : isValidObject object = true) (hrel : relation ≠ "")
    (huser : isValidUser user = true) :
    isMatch k object relation user = true ↔ k = RecordKey.of object relation user := by
  have hobject' : object ≠ "" := fun h => by rw [h] at hobject; exact absurd hobject (by decide)
  have huser' : user ≠ "" := fun h => by rw [h] at huser; exact absurd huser (by decide)
  obtain ⟨objectType, objectID, krel, kuser⟩ := k
  simp [isMatch, RecordKey.of, hobject', huser', hrel, id_ne_empty hobject,
    user_id_ne_empty huser, eq_comm (a := (splitObject object).1),
      eq_comm (a := (splitObject object).2),
    and_assoc]

end

end OpenFGA.Storage
