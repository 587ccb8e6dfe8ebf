/-
  The filter of `Read` and `ReadPage` in the four backends.

  An object may be given by its type alone, and so may a user; empty fields match everything.
  The memory backend, MySQL and PostgreSQL compare the user as a string, SQLite compares the parts
  that the filter has.  Only the selection is modelled, not the pages.

  The backends differ in three places.  The memory backend returns all tuples, whatever their
  condition, where object, relation and user are empty.  SQLite returns the usersets of an object
  that is asked for as a user.  MySQL and PostgreSQL look for the users of a type with
  `LIKE`.
-/

import OpenFGA.Storage.Backends

namespace OpenFGA.ReadTuples

open OpenFGA.Tuple StartingWithUser Storage List

/-- `ReadFilter`. -/
structure Filter where
  object : String
  relation : String
  user : String
  conditions : List String

/-- The part of a filter that only the memory backend looks at. -/
def Filter.IsEmpty (f : Filter) : Prop := f.object = "" ∧ f.relation = "" ∧ f.user = ""

instance (f : Filter) : Decidable f.IsEmpty := inferInstanceAs (Decidable (_ ∧ _))

def Memory.read (db : Database) (store : String) (f : Filter) : List Key :=
  (if f.IsEmpty then Storage.Memory.tuples db store
    else (Storage.Memory.tuples db store).filter fun t =>
      Storage.Memory.isMatch (recordKey t) f.object f.relation f.user &&
        (f.conditions = [] || f.conditions.contains t.conditionName)).map TupleRecord.asTuple

/-- The conditions of a backend with this table, which asks for the user with `userConds`. -/
def wheres {C R : Type} (T : Table C R) (userConds : String → List (Sql.Cond (Column C)))
    (store : String) (f : Filter) : List (Sql.Cond (Column C)) :=
  [T.storeCond store] ++ T.objectConds f.object ++ T.relationConds f.relation ++
    (if f.user ≠ "" then userConds f.user else []) ++ T.conditionConds f.conditions

/-- The conditions of SQLite for a user. -/
def SQLite.userConds (user : String) : List (Sql.Cond (Column SQLite.Column)) :=
  let (userObjectType, userObjectID, userRelation) := toUserParts user
  (if userObjectType ≠ "" then [.eq (.col (.col .userObjectType)) userObjectType] else []) ++
    (if userObjectID ≠ "" then [.eq (.col (.col .userObjectID)) userObjectID] else []) ++
    if userRelation ≠ "" then [.eq (.col (.col .userRelation)) userRelation] else []

def SQLite.read (db : Database) (store : String) (f : Filter) : List Key :=
  SQLite.table.select (wheres SQLite.table SQLite.userConds store f) db

/-- The condition of MySQL and of PostgreSQL. -/
def UserColumn.userConds (user : String) : List (Sql.Cond (Column UserColumn.Column)) :=
  let (userType, userID, _) := toUserParts user
  if userID ≠ "" then [.eq (.col (.col .user)) user]
  else [.like (.col (.col .user)) (userType ++ ":%")]

def UserColumn.read (db : Database) (store : String) (f : Filter) : List Key :=
  UserColumn.table.select (wheres UserColumn.table UserColumn.userConds store f) db

def read : Backend → Database → String → Filter → List Key
  | .memory => Memory.read
  | .sqlite => SQLite.read
  | .mysql => UserColumn.read
  | .postgres => UserColumn.read

/-! ## Filters -/

/-- An object or a user that is given by its type. -/
def OnlyType (s : String) (type : String) : Prop :=
  s = buildObject type "" ∧ type ≠ "" ∧ ':' ∉ type.toList ∧ '#' ∉ type.toList

namespace Filter

variable (f : Filter)

/-- The filters that are sent: typed wildcards are among the objects. -/
structure WellFormed : Prop where
  object : f.object = "" ∨ (∃ type, OnlyType f.object type) ∨ isValidObject f.object = true
  user : f.user = "" ∨ (∃ type, OnlyType f.user type) ∨ isValidObject f.user = true ∨
    isValidUserset f.user = true

/-- All but the user matches. -/
def MatchesRest (t : Key) : Prop :=
  MatchesObject f.object t ∧ MatchesRelation f.relation t ∧ MatchesConditions f.conditions t

instance (t : Key) : Decidable (f.MatchesRest t) := inferInstanceAs (Decidable (_ ∧ _))

/-- What a filter has to meet for all backends to select the same.  The tuples are those of the
    store that is read. -/
structure Regular (tuples : List Key) : Prop where
  /-- A filter for nothing but conditions selects all tuples. -/
  conditions : f.IsEmpty → ∀ t ∈ tuples, MatchesConditions f.conditions t
  /-- No userset of the object that is asked for as a user is selected. -/
  object : isValidObject f.user = true → ∀ t ∈ tuples, f.MatchesRest t →
    (toUserParts t.user).1 = (splitObject f.user).1 →
    (toUserParts t.user).2.1 = (splitObject f.user).2 → t.user = f.user
  /-- The pattern for the type of a user fits no user of another type. -/
  pattern : ∀ type, OnlyType f.user type → ∀ t ∈ tuples, f.MatchesRest t →
    Sql.like (type ++ ":%").toList t.user.toList = true → (toUserParts t.user).1 = type

end Filter

/-! ## What the backends select -/

/-- The user of a tuple passes in the memory backend. -/
def Memory.Selects (user : String) (t : Key) : Prop :=
  user ≠ "" → if (toUserParts user).2.1 ≠ "" then t.user = user
    else ((toUserParts user).1 ++ ":").toList <+: t.user.toList

/-- The user of a tuple passes in SQLite. -/
def SQLite.Selects (user : String) (t : Key) : Prop :=
  user ≠ "" → ((toUserParts user).1 ≠ "" → (toUserParts t.user).1 = (toUserParts user).1) ∧
    ((toUserParts user).2.1 ≠ "" → (toUserParts t.user).2.1 = (toUserParts user).2.1) ∧
    ((toUserParts user).2.2 ≠ "" → (toUserParts t.user).2.2 = (toUserParts user).2.2)

/-- The user of a tuple passes in MySQL and PostgreSQL. -/
def UserColumn.Selects (user : String) (t : Key) : Prop :=
  user ≠ "" → if (toUserParts user).2.1 ≠ "" then t.user = user
    else Sql.like ((toUserParts user).1 ++ ":%").toList t.user.toList = true

section
variable {db : Database} {store : String} {f : Filter} {t : Key} {x : String × Key}

section
variable {C R : Type} {T : Table C R} {userConds : String → List (Sql.Cond (Column C))}

lemma eval_wheres :
    (∀ p ∈ wheres T userConds store f, p.eval T.getColumn (T.typedRow x) = true) ↔
      x.1 = store ∧ f.MatchesRest x.2 ∧
        (f.user ≠ "" → ∀ p ∈ userConds f.user, p.eval T.getColumn (T.typedRow x) = true) := by
  have huser : (∀ p ∈ (if f.user ≠ "" then userConds f.user else []),
      p.eval T.getColumn (T.typedRow x) = true) ↔
      (f.user ≠ "" → ∀ p ∈ userConds f.user, p.eval T.getColumn (T.typedRow x) = true) := by
    by_cases h : f.user = ""
    · simp [h]
    · simp [h]
  rw [wheres]
  simp only [forall_mem_append, forall_mem_singleton, Table.eval_storeCond,
    Table.eval_objectConds, Table.eval_relationConds, Table.eval_conditionConds, huser,
    Filter.MatchesRest]
  tauto

lemma mem_select {Selects : Key → Prop}
    (h : ∀ x, (f.user ≠ "" → ∀ p ∈ userConds f.user, p.eval T.getColumn (T.typedRow x) = true) ↔
      Selects x.2) :
    t ∈ T.select (wheres T userConds store f) db ↔
      t ∈ db.tuples store ∧ f.MatchesRest t ∧ Selects t := by
  classical
  have hfilter : T.select (wheres T userConds store f) db =
      (db.tuples store).filter fun t => decide (f.MatchesRest t ∧ Selects t) :=
    Table.select_eq_filter fun x _ => by rw [eval_wheres, h x, decide_eq_true_iff]
  rw [hfilter, mem_filter, decide_eq_true_iff]

end

lemma SQLite.mem_read :
    t ∈ SQLite.read db store f ↔
      t ∈ db.tuples store ∧ f.MatchesRest t ∧ SQLite.Selects f.user t := by
  refine mem_select fun x => forall_congr' fun _ => ?_
  have htype : SQLite.table.getColumn (.col .userObjectType) (SQLite.table.typedRow x) =
    some (toUserParts x.2.user).1 := rfl
  have hid : SQLite.table.getColumn (.col .userObjectID) (SQLite.table.typedRow x) =
    some (toUserParts x.2.user).2.1 := rfl
  have hrel : SQLite.table.getColumn (.col .userRelation) (SQLite.table.typedRow x) =
    some (toUserParts x.2.user).2.2 := rfl
  rw [SQLite.userConds, forall_mem_append, forall_mem_append, and_assoc]
  refine and_congr ?_ (and_congr ?_ ?_)
  · by_cases h : (toUserParts f.user).1 = ""
    · simp [h]
    · simp [h, htype]
  · by_cases h : (toUserParts f.user).2.1 = ""
    · simp [h]
    · simp [h, hid]
  · by_cases h : (toUserParts f.user).2.2 = ""
    · simp [h]
    · simp [h, hrel]

lemma UserColumn.mem_read :
    t ∈ UserColumn.read db store f ↔
      t ∈ db.tuples store ∧ f.MatchesRest t ∧ UserColumn.Selects f.user t := by
  refine mem_select fun x => forall_congr' fun _ => ?_
  have huser : UserColumn.table.getColumn (.col .user) (UserColumn.table.typedRow x) =
    some x.2.user := rfl
  by_cases h : (toUserParts f.user).2.1 = ""
  · simp [UserColumn.userConds, h, huser]
  · simp [UserColumn.userConds, h, huser]

lemma Filter.WellFormed.object_type (hf : f.WellFormed) (h : f.object ≠ "") :
    (splitObject f.object).1 ≠ "" := by
  rcases hf.object with hempty | ⟨type, heq, hne, htc, -⟩ | hobject
  · exact absurd hempty h
  · rwa [heq, splitObject_buildObject htc]
  · exact type_ne_empty hobject

lemma Memory.mem_read (hf : f.WellFormed) :
    t ∈ read db store f ↔
      t ∈ db.tuples store ∧ (f.IsEmpty ∨ f.MatchesRest t ∧ Memory.Selects f.user t) := by
  have hrecord : ∀ p : TupleRecord → Bool,
      t ∈ ((Storage.Memory.tuples db store).filter p).map TupleRecord.asTuple ↔
        t ∈ db.tuples store ∧ p (StartingWithUser.Memory.record t) = true := by
    intro p
    have hback : ∀ t ∈ db.tuples store, (StartingWithUser.Memory.record t).asTuple = t :=
      fun t ht =>
      have hvalid := db.valid _ (mem_tuples.mp ht)
      asTuple_record hvalid.1 (user_ne_empty hvalid.2.2)
    have htuples : Storage.Memory.tuples db store =
        (db.tuples store).map StartingWithUser.Memory.record := by
      rw [Storage.Memory.tuples, Database.tuples, map_map]
      rfl
    rw [htuples]
    constructor
    · intro h
      obtain ⟨r, hr, rfl⟩ := mem_map.mp h
      obtain ⟨hmem, hp⟩ := mem_filter.mp hr
      obtain ⟨t, ht, rfl⟩ := mem_map.mp hmem
      rw [hback t ht]
      exact ⟨ht, hp⟩
    · rintro ⟨ht, hp⟩
      refine mem_map.mpr ⟨StartingWithUser.Memory.record t, ?_, hback t ht⟩
      exact mem_filter.mpr ⟨mem_map.mpr ⟨t, ht, rfl⟩, hp⟩
  rw [read]
  by_cases hempty : f.IsEmpty
  · have hall := hrecord fun _ => true
    rw [filter_true] at hall
    simp only [hempty, if_true, hall, true_or, and_true]
  · rw [if_neg hempty, hrecord]
    refine and_congr_right fun _ => ?_
    rw [Bool.and_eq_true, Storage.Memory.isMatch_record hf.object_type, Bool.or_eq_true,
      decide_eq_true_iff, contains_iff_mem, Filter.MatchesRest, Memory.Selects, MatchesConditions,
      ← or_iff_not_imp_left (a := f.conditions = [])]
    have hcondition : (StartingWithUser.Memory.record t).conditionName = t.condition := rfl
    rw [hcondition, or_iff_right hempty]
    constructor
    · rintro ⟨⟨hobject, hrel, huser⟩, hconds⟩
      exact ⟨⟨hobject, hrel, hconds⟩, huser⟩
    · rintro ⟨⟨hobject, hrel, hconds⟩, huser⟩
      exact ⟨⟨hobject, hrel, huser⟩, hconds⟩

end

/-! ## The shapes of the user -/

section
variable {user type : String} {t : Key}

lemma toUserParts_onlyType (h : OnlyType user type) : toUserParts user = (type, "", "") := by
  obtain ⟨rfl, -, htc, hth⟩ := h
  have hh : '#' ∉ (buildObject type "").toList := by simp [buildObject, hth]
  rw [toUserParts_of_notMem hh, splitObject_buildObject htc]

lemma toUserParts_object (h : isValidObject user = true) :
    toUserParts user = ((splitObject user).1, (splitObject user).2, "") :=
  toUserParts_of_notMem (hash_notMem h)

section
variable (h : OnlyType user type)
include h

lemma OnlyType.ne_empty : user ≠ "" := by
  obtain ⟨rfl, -⟩ := h
  exact fun heq => by simpa [buildObject] using congrArg String.toList heq

/-- The memory backend and SQLite agree on users that are given by their type. -/
lemma memory_selects_onlyType (ht : isValidUser t.user = true) :
    Memory.Selects user t ↔ (toUserParts t.user).1 = type := by
  simp only [Memory.Selects, toUserParts_onlyType h, h.ne_empty, ne_eq, not_false_eq_true,
    true_imp_iff, not_true_eq_false, if_false]
  rw [prefix_iff h.2.1 h.2.2.1, toUserParts_type ht]

lemma sqlite_selects_onlyType :
    SQLite.Selects user t ↔ (toUserParts t.user).1 = type := by
  simp [SQLite.Selects, toUserParts_onlyType h, h.ne_empty, h.2.1]

lemma userColumn_selects_onlyType :
    UserColumn.Selects user t ↔ Sql.like (type ++ ":%").toList t.user.toList = true := by
  simp [UserColumn.Selects, toUserParts_onlyType h, h.ne_empty]

end

/-- A user with an id is compared as a whole in all backends but SQLite. -/
lemma memory_selects_iff (h : (toUserParts user).2.1 ≠ "") (hne : user ≠ "") :
    Memory.Selects user t ↔ t.user = user := by
  simp [Memory.Selects, h, hne]

lemma userColumn_selects_iff (h : (toUserParts user).2.1 ≠ "") (hne : user ≠ "") :
    UserColumn.Selects user t ↔ t.user = user := by
  simp [UserColumn.Selects, h, hne]

lemma sqlite_selects_object (h : isValidObject user = true) (hne : user ≠ "") :
    SQLite.Selects user t ↔ (toUserParts t.user).1 = (splitObject user).1 ∧
      (toUserParts t.user).2.1 = (splitObject user).2 := by
  simp [SQLite.Selects, toUserParts_object h, hne, type_ne_empty h, id_ne_empty h]

/-- In SQLite a userset is compared as a whole, too. -/
lemma sqlite_selects_userset (h : isValidUserset user = true) (hne : user ≠ "")
    (ht : isValidUser t.user = true) : SQLite.Selects user t ↔ t.user = user := by
  have hvalid : isValidUser user = true := by simp [isValidUser, h]
  have hid := userset_id_ne_empty h
  obtain ⟨type, id, relation, heq, htype, htc, -, hrh, hrel⟩ := exists_of_isValidUserset h
  have hparts : toUserParts user = (type, id, relation) := by
    rw [heq, toUserParts_userset htc hrh]
  constructor
  · intro hsel
    obtain ⟨h1, h2, h3⟩ := hsel hne
    rw [← fromUserParts_toUserParts ht, ← fromUserParts_toUserParts hvalid,
      h1 (by rwa [hparts]), h2 hid, h3 (by rwa [hparts])]
  · rintro rfl _
    exact ⟨fun _ => rfl, fun _ => rfl, fun _ => rfl⟩

end

/-! ## Agreement -/

section
variable {db : Database} {store : String} {f : Filter} {t : Key}

/-- SQLite differs from the memory backend on objects. -/
lemma sqlite_iff_memory (hf : f.WellFormed) (ht : isValidUser t.user = true) :
    (SQLite.Selects f.user t ↔ Memory.Selects f.user t) ↔
      (isValidObject f.user = true → (toUserParts t.user).1 = (splitObject f.user).1 →
        (toUserParts t.user).2.1 = (splitObject f.user).2 → t.user = f.user) := by
  rcases hf.user with hempty | ⟨type, htype⟩ | hobject | huserset
  · have hinvalid : isValidObject "" = false := by decide
    simp [SQLite.Selects, Memory.Selects, hempty, hinvalid]
  · have hinvalid : isValidObject f.user = false := by
      by_contra h
      have hid := id_ne_empty (Bool.not_eq_false _ |>.mp h)
      rw [htype.1, splitObject_buildObject htype.2.2.1] at hid
      exact hid rfl
    simp [sqlite_selects_onlyType htype, memory_selects_onlyType htype ht, hinvalid]
  · have hne : f.user ≠ "" := fun h => by rw [h] at hobject; exact absurd hobject (by decide)
    have hid : (toUserParts f.user).2.1 ≠ "" := by
      rw [toUserParts_object hobject]
      exact id_ne_empty hobject
    rw [sqlite_selects_object hobject hne, memory_selects_iff hid hne]
    constructor
    · intro h _ h1 h2
      exact h.mp ⟨h1, h2⟩
    · intro h
      refine ⟨fun hparts => h hobject hparts.1 hparts.2, fun heq => ?_⟩
      rw [heq, toUserParts_object hobject]
      exact ⟨rfl, rfl⟩
  · have hne : f.user ≠ "" := fun h => by rw [h] at huserset; exact absurd huserset (by decide)
    have hinvalid : isValidObject f.user = false := by
      by_contra h
      obtain ⟨type, id, relation, heq, -⟩ := exists_of_isValidUserset huserset
      obtain ⟨-, -, -, -, -, hh⟩ := exists_of_isValidObject (Bool.not_eq_false _ |>.mp h)
      exact hh (by rw [heq]; simp)
    simp [sqlite_selects_userset huserset hne ht,
      memory_selects_iff (userset_id_ne_empty huserset) hne, hinvalid]

/-- MySQL and PostgreSQL differ from the memory backend on types. -/
lemma userColumn_iff_memory (hf : f.WellFormed) (ht : isValidUser t.user = true) :
    (UserColumn.Selects f.user t ↔ Memory.Selects f.user t) ↔
      ∀ type, OnlyType f.user type → Sql.like (type ++ ":%").toList t.user.toList = true →
        (toUserParts t.user).1 = type := by
  have hunique : ∀ {type}, OnlyType f.user type → (toUserParts f.user).2.1 = "" := fun h => by
    rw [toUserParts_onlyType h]
  rcases hf.user with hempty | ⟨type, htype⟩ | hobject | huserset
  · refine ⟨fun _ type htype => absurd hempty htype.ne_empty, fun _ => ?_⟩
    simp [UserColumn.Selects, Memory.Selects, hempty]
  · rw [userColumn_selects_onlyType htype, memory_selects_onlyType htype ht]
    constructor
    · intro h type' htype' hlike
      have heq : type' = type := by
        have hparts := toUserParts_onlyType htype'
        rw [toUserParts_onlyType htype] at hparts
        exact (congrArg Prod.fst hparts).symm
      rw [heq] at hlike ⊢
      exact h.mp hlike
    · intro h
      refine ⟨h type htype, fun hparts => ?_⟩
      rw [toUserParts_type ht] at hparts
      have hprefix := (prefix_iff htype.2.1 htype.2.2.1).mpr hparts
      obtain ⟨rest, hrest⟩ := hprefix
      have hlike : Sql.like ['%'] rest = true :=
        Sql.like_percent.mpr ⟨rest, [], by simp, rfl⟩
      have hself := Sql.like_append_self (type ++ ":").toList hlike
      rw [hrest] at hself
      simpa using hself
  · have hne : f.user ≠ "" := fun h => by rw [h] at hobject; exact absurd hobject (by decide)
    have hid : (toUserParts f.user).2.1 ≠ "" := by
      rw [toUserParts_object hobject]
      exact id_ne_empty hobject
    refine ⟨fun _ type htype => absurd (hunique htype) hid, fun _ => ?_⟩
    rw [userColumn_selects_iff hid hne, memory_selects_iff hid hne]
  · have hne : f.user ≠ "" := fun h => by rw [h] at huserset; exact absurd huserset (by decide)
    have hid := userset_id_ne_empty huserset
    refine ⟨fun _ type htype => absurd (hunique htype) hid, fun _ => ?_⟩
    rw [userColumn_selects_iff hid hne, memory_selects_iff hid hne]

/-- For every database, store and filter: any two backends select the same tuples exactly when
    the filter is regular for the tuples of the store. -/
theorem read_agree_iff (db : Database) (store : String) (f : Filter) (hf : f.WellFormed) :
    (∀ (b b' : Backend) (t : Key), t ∈ read b db store f ↔ t ∈ read b' db store f) ↔
      f.Regular (db.tuples store) := by
  have hvalid : ∀ t ∈ db.tuples store, isValidUser t.user = true := fun t ht =>
    (db.valid _ (mem_tuples.mp ht)).2.2
  have hnotEmpty : f.user ≠ "" → ¬ f.IsEmpty := fun h hempty => h hempty.2.2
  constructor
  · intro h
    have hsqlite : ∀ t ∈ db.tuples store, (f.MatchesRest t ∧ SQLite.Selects f.user t ↔
        f.IsEmpty ∨ f.MatchesRest t ∧ Memory.Selects f.user t) := by
      intro t ht
      have hmem := SQLite.mem_read.symm.trans ((h .sqlite .memory t).trans (Memory.mem_read hf))
      simpa [ht] using hmem
    have hmysql : ∀ t ∈ db.tuples store, (f.MatchesRest t ∧ UserColumn.Selects f.user t ↔
        f.IsEmpty ∨ f.MatchesRest t ∧ Memory.Selects f.user t) := by
      intro t ht
      have hmem := UserColumn.mem_read.symm.trans ((h .mysql .memory t).trans (Memory.mem_read hf))
      simpa [ht] using hmem
    refine ⟨fun hempty t ht => ?_, fun hobject t ht hrest => ?_, fun type htype t ht hrest => ?_⟩
    · exact ((hsqlite t ht).mpr (.inl hempty)).1.2.2
    · have hne : f.user ≠ "" := fun h => by rw [h] at hobject; exact absurd hobject (by decide)
      have hiff := hsqlite t ht
      simp only [hrest, true_and, hnotEmpty hne, false_or] at hiff
      exact (sqlite_iff_memory hf (hvalid t ht)).mp hiff hobject
    · have hiff := hmysql t ht
      simp only [hrest, true_and, hnotEmpty htype.ne_empty, false_or] at hiff
      exact (userColumn_iff_memory hf (hvalid t ht)).mp hiff type htype
  · intro h
    -- all backends agree with SQLite's columns or the memory backend's strings
    have hmemory : ∀ t, t ∈ read .memory db store f ↔
        t ∈ db.tuples store ∧ f.MatchesRest t ∧ Memory.Selects f.user t := by
      intro t
      refine (Memory.mem_read hf).trans (and_congr_right fun ht => ⟨?_, .inr⟩)
      rintro (hempty | hsel)
      · have hconds := h.conditions hempty t ht
        obtain ⟨hobject, hrel, huser⟩ := hempty
        refine ⟨⟨?_, ?_, hconds⟩, fun hne => absurd huser hne⟩
        · rw [hobject]
          have hsplit : splitObject "" = ("", "") := by decide
          simp [MatchesObject, hsplit]
        · exact fun hne => absurd hrel hne
      · exact hsel
    have hall : ∀ b t, t ∈ read b db store f ↔ t ∈ read .memory db store f := by
      intro b t
      rw [hmemory t]
      cases b with
      | memory => exact hmemory t
      | sqlite =>
        refine SQLite.mem_read.trans (and_congr_right fun ht => and_congr_right fun hrest => ?_)
        exact (sqlite_iff_memory hf (hvalid t ht)).mpr fun hobject => h.object hobject t ht hrest
      | mysql | postgres =>
        refine UserColumn.mem_read.trans (and_congr_right fun ht => and_congr_right fun hrest => ?_)
        exact (userColumn_iff_memory hf (hvalid t ht)).mpr fun type htype =>
          h.pattern type htype t ht hrest
    exact fun b b' t => (hall b t).trans (hall b' t).symm

end

-- The group of engineers may view a document, and its members may; a document has an owner of
-- another type.

private def groupTuples : Database where
  rows := [("s", ⟨"document:1", "viewer", "user_group:eng", "", ""⟩),
    ("s", ⟨"document:2", "viewer", "user_group:eng#member", "", ""⟩),
    ("s", ⟨"document:3", "viewer", "user-group:ops", "on_call", ""⟩)]
  valid := by decide
  unique := by decide

/-- SQLite returns the tuple of the members, MySQL a user of another type, and the memory backend
    tuples without the condition. -/
theorem read_disagree :
    Memory.read groupTuples "s" ⟨"", "", "user_group:eng", []⟩ =
      [⟨"document:1", "viewer", "user_group:eng", "", ""⟩] ∧
    SQLite.read groupTuples "s" ⟨"", "", "user_group:eng", []⟩ =
      [⟨"document:1", "viewer", "user_group:eng", "", ""⟩,
        ⟨"document:2", "viewer", "user_group:eng#member", "", ""⟩] ∧
    UserColumn.read groupTuples "s" ⟨"document:3", "viewer", "user_group:", []⟩ =
      [⟨"document:3", "viewer", "user-group:ops", "on_call", ""⟩] ∧
    Memory.read groupTuples "s" ⟨"document:3", "viewer", "user_group:", []⟩ = [] ∧
    (Memory.read groupTuples "s" ⟨"", "", "", ["on_call"]⟩).length = 3 ∧
    (SQLite.read groupTuples "s" ⟨"", "", "", ["on_call"]⟩).length = 1 := by
  decide

/-- All backends find the viewers of a document that are usersets of a group. -/
theorem read_agree_userset :
    Filter.WellFormed ⟨"document:2", "viewer", "user_group:eng#member", []⟩ ∧
    ∀ (b b' : Backend) (t : Key),
      t ∈ read b groupTuples "s" ⟨"document:2", "viewer", "user_group:eng#member", []⟩ ↔
        t ∈ read b' groupTuples "s" ⟨"document:2", "viewer", "user_group:eng#member", []⟩ := by
  have hf : Filter.WellFormed ⟨"document:2", "viewer", "user_group:eng#member", []⟩ :=
    ⟨.inr (.inr (by decide)), .inr (.inr (.inr (by decide)))⟩
  refine ⟨hf, (read_agree_iff groupTuples "s" _ hf).mpr ⟨by decide, by decide, ?_⟩⟩
  intro type htype
  have hid : (toUserParts "user_group:eng#member").2.1 = "" :=
    congrArg (fun p => p.2.1) (toUserParts_onlyType htype)
  exact absurd hid (by decide)

end OpenFGA.ReadTuples
