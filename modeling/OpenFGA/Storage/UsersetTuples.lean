/-
  `ReadUsersetTuples` in the four backends.

  The read is for the tuples of an object and a relation whose user is a userset or a typed
  wildcard that the filter allows (`Filter.Matches`), each of them once.

  SQLite returns that.  MySQL and PostgreSQL look for the usersets of a type and a relation
  with `LIKE`, where a `_` in one of the names stands for any character.  The memory backend
  returns a tuple for each restriction that allows it, and it looks at the names of the
  conditions only after it has appended the tuple.
-/

import OpenFGA.Storage.Backends
import OpenFGA.Validation

namespace OpenFGA.UsersetTuples

open OpenFGA.Tuple StartingWithUser Storage
open Validation (RelationReference)
open List

/-- `ReadUsersetTuplesFilter`. -/
structure Filter where
  object : String
  relation : String
  allowedUserTypeRestrictions : List RelationReference
  conditions : List String

/-! ## Memory -/

namespace Memory

/-- The restriction allows a tuple with this user. -/
def allows (user : String) (d : RelationReference) : Bool :=
  d.type = getType user && d.getRelation = (splitObjectRelation user).2

/-- What the loop appends for a record.  The names of the conditions are looked at behind
    the inner loop, where nothing is appended any more. -/
def matched (f : Filter) (t : TupleRecord) : List TupleRecord :=
  if Storage.Memory.isMatch (recordKey t) f.object f.relation "" ∧
    getUserTypeFromUser t.user = .userSet then
    if f.allowedUserTypeRestrictions = [] then [t]
    else f.allowedUserTypeRestrictions.filterMap fun d => if allows t.user d then some t else none
  else []

def readUsersetTuples (db : Database) (store : String) (f : Filter) : List Key :=
  ((Storage.Memory.tuples db store).flatMap (matched f)).map TupleRecord.asTuple

end Memory

/-! ## SQL -/

/-- The conditions of a backend with this table, which asks for the users of a restriction
    with `restriction`. -/
def wheres {C R : Type} (T : Table C R)
    (restriction : RelationReference → List (Sql.Cond (Column C)))
    (store : String) (f : Filter) : List (Sql.Cond (Column C)) :=
  [T.storeCond store, .eq (.col .userType) UserKind.userSet.toString] ++
    T.objectConds f.object ++ T.relationConds f.relation ++
    (if f.allowedUserTypeRestrictions ≠ [] then
      [.any (f.allowedUserTypeRestrictions.flatMap restriction)] else []) ++
    T.conditionConds f.conditions

/-- The condition of SQLite for a restriction. -/
def SQLite.restriction (d : RelationReference) : List (Sql.Cond (Column SQLite.Column)) :=
  match d.shape with
  | .userset relation => [.all [.eq (.col (.col .userObjectType)) d.type,
      .eq (.col (.col .userRelation)) relation]]
  | .wildcard => [.all [.eq (.col (.col .userObjectType)) d.type,
      .eq (.col (.col .userObjectID)) "*"]]
  | .object => []

def SQLite.readUsersetTuples (db : Database) (store : String) (f : Filter) : List Key :=
  SQLite.table.select (wheres SQLite.table SQLite.restriction store f) db

/-- The pattern for the usersets of a type and a relation. -/
def pattern (type relation : String) : String := type ++ ":%#" ++ relation

/-- The condition of MySQL and of PostgreSQL. -/
def UserColumn.restriction (d : RelationReference) : List (Sql.Cond (Column UserColumn.Column)) :=
  match d.shape with
  | .userset relation => [.like (.col (.col .user)) (pattern d.type relation)]
  | .wildcard => [.eq (.col (.col .user)) (d.type ++ ":*")]
  | .object => []

def UserColumn.readUsersetTuples (db : Database) (store : String) (f : Filter) : List Key :=
  UserColumn.table.select (wheres UserColumn.table UserColumn.restriction store f) db

def readUsersetTuples : Backend → Database → String → Filter → List Key
  | .memory => Memory.readUsersetTuples
  | .sqlite => SQLite.readUsersetTuples
  | .mysql => UserColumn.readUsersetTuples
  | .postgres => UserColumn.readUsersetTuples

/-! ## What the read is for -/

/-- The restriction names the user: a userset of its type and relation, or its typed wildcard. -/
def Allows (user : String) (d : RelationReference) : Prop :=
  match d.shape with
  | .userset relation => isObjectRelation user = true ∧ (toUserParts user).1 = d.type ∧
      (toUserParts user).2.2 = relation
  | .wildcard => isTypedWildcard user = true ∧ user = buildObject d.type "*"
  | .object => False

instance (user : String) (d : RelationReference) : Decidable (Allows user d) :=
  match h : d.shape with
  | .userset relation => decidable_of_iff (isObjectRelation user = true ∧
      (toUserParts user).1 = d.type ∧ (toUserParts user).2.2 = relation) (by simp [Allows, h])
  | .wildcard => decidable_of_iff (isTypedWildcard user = true ∧ user = buildObject d.type "*")
      (by simp [Allows, h])
  | .object => .isFalse (by simp [Allows, h])

/-- A restriction to usersets or to a typed wildcard. -/
def Proper (d : RelationReference) : Prop :=
  d.type ≠ "" ∧ (d.shape = .wildcard ∨ ∃ relation, relation ≠ "" ∧ d.shape = .userset relation)

namespace Filter

variable (f : Filter)

/-- The tuple has the object and the relation. -/
def MatchesRest (t : Key) : Prop := t.object = f.object ∧ t.relation = f.relation

/-- The tuple is to be returned. -/
def Matches (t : Key) : Prop :=
  f.MatchesRest t ∧ (∃ d ∈ f.allowedUserTypeRestrictions, Allows t.user d) ∧
    MatchesConditions f.conditions t

instance (t : Key) : Decidable (f.MatchesRest t) := inferInstanceAs (Decidable (_ ∧ _))

instance (t : Key) : Decidable (f.Matches t) := inferInstanceAs (Decidable (_ ∧ _))

/-- Each stored tuple once that matches. -/
def matching (db : Database) (store : String) : List Key :=
  (db.tuples store).filter fun t => f.Matches t

/-- A full object, a relation, and restrictions to usersets and typed wildcards. -/
structure Full : Prop where
  object : isValidObject f.object = true
  relation : isValidRelation f.relation = true
  restrictions : f.allowedUserTypeRestrictions ≠ []
  proper : ∀ d ∈ f.allowedUserTypeRestrictions, Proper d

/-- What a filter has to meet for all backends to return the same.  The tuples are those of
    the store that is read. -/
structure Regular (tuples : List Key) : Prop where
  /-- No two restrictions allow a tuple that matches. -/
  once : ∀ t ∈ tuples, f.Matches t →
    f.allowedUserTypeRestrictions.countP (fun d => Allows t.user d) ≤ 1
  /-- The conditions select all tuples that the restrictions allow. -/
  conditions : ∀ t ∈ tuples, f.MatchesRest t →
    (∃ d ∈ f.allowedUserTypeRestrictions, Allows t.user d) → MatchesConditions f.conditions t
  /-- The pattern of a restriction fits no tuple that is not allowed. -/
  pattern : ∀ t ∈ tuples, f.MatchesRest t → MatchesConditions f.conditions t →
    getUserTypeFromUser t.user = .userSet →
    ∀ d ∈ f.allowedUserTypeRestrictions, ∀ relation, d.shape = .userset relation →
      Sql.like (pattern d.type relation).toList t.user.toList = true →
        ∃ d' ∈ f.allowedUserTypeRestrictions, Allows t.user d'

end Filter

/-! ## Users and restrictions -/

section
variable {user : String} {d : RelationReference} {f : Filter}

/-- What a restriction allows is of the kind that the reads look at. -/
lemma Allows.userSet (h : Allows user d) : getUserTypeFromUser user = .userSet := by
  unfold Allows at h
  rw [getUserTypeFromUser]
  cases hshape : d.shape with
  | object => simp [hshape] at h
  | userset relation =>
    simp only [hshape] at h
    simp [h.1]
  | wildcard =>
    simp only [hshape] at h
    simp [isWildcard, h.1]

/-- The reads look at three kinds of users. -/
inductive Looked : String → Prop where
  | userset {type id relation} (htype : type ≠ "") (htc : ':' ∉ type.toList)
      (hrel : relation ≠ "") (hrh : '#' ∉ relation.toList)
      (hstar : '*' ∉ (id ++ "#" ++ relation).toList)
      (hvalid : isValidUserset (buildObject type id ++ "#" ++ relation) = true) :
      Looked (buildObject type id ++ "#" ++ relation)
  | typedWildcard {type} (htype : type ≠ "") (htc : ':' ∉ type.toList)
      (hh : '#' ∉ type.toList) : Looked (buildObject type "*")
  | wildcard : Looked "*"

lemma looked_of_userSet (hvalid : isValidUser user = true)
    (hkind : getUserTypeFromUser user = .userSet) : Looked user := by
  have huserset : isValidUserset user = true → Looked user := by
    intro h
    obtain ⟨type, id, relation, rfl, htype, ⟨-, hstar⟩, hrel, hrstar⟩ := isValidUserset_iff.mp h
    obtain ⟨htc, -, hne⟩ := notMem_of_isValidUserID htype
    obtain ⟨-, hrh, hrne⟩ := notMem_of_isValidUserID hrel
    exact .userset hne htc hrne hrh (by simp [hstar, hrstar]) h
  rcases userSet_cases hkind with h | h | rfl
  · exact huserset h
  · obtain ⟨type, hne, htc, rfl⟩ := isTypedWildcard_iff.mp h
    -- the star is not the id of a userset, so that there is no hash
    have hh : '#' ∉ (buildObject type "*").toList ∨
        isValidUserset (buildObject type "*") = true := by
      rcases valid_user_cases hvalid with ⟨-, hh⟩ | hobject | huser
      · exact .inl hh
      · exact .inl (hash_notMem hobject)
      · exact .inr huser
    rcases hh with hh | huser
    · simp only [buildObject, String.toList_append, mem_append, not_or] at hh
      exact .typedWildcard hne htc hh.1.1
    · exact huserset huser
  · exact .wildcard

lemma allows_userset {type id relation} (htc : ':' ∉ type.toList) (hrh : '#' ∉ relation.toList)
    (hvalid : isValidUserset (buildObject type id ++ "#" ++ relation) = true) :
    Allows (buildObject type id ++ "#" ++ relation) d ↔
      d.type = type ∧ d.shape = .userset relation := by
  have htyped : isTypedWildcard (buildObject type id ++ "#" ++ relation) = false := by
    have hassoc : buildObject type id ++ "#" ++ relation =
        buildObject type (id ++ "#" ++ relation) := by simp [buildObject, String.append_assoc]
    have hne : id ++ "#" ++ relation ≠ "*" := fun h => by
      have hmem : '#' ∈ (id ++ "#" ++ relation).toList := by simp
      rw [h] at hmem
      exact absurd hmem (by decide)
    rw [isTypedWildcard, hassoc, splitObject_buildObject htc]
    simp [hne]
  unfold Allows
  cases hshape : d.shape with
  | object => simp
  | userset r =>
    simp [isObjectRelation, hvalid, toUserParts_userset htc hrh, eq_comm (a := type),
      eq_comm (a := relation)]
  | wildcard => simp [htyped]

lemma allows_typedWildcard {type} (hne : type ≠ "") (htc : ':' ∉ type.toList)
    (hh : '#' ∉ type.toList) :
    Allows (buildObject type "*") d ↔ d.type = type ∧ d.shape = .wildcard := by
  have htyped : isTypedWildcard (buildObject type "*") = true :=
    isTypedWildcard_iff.mpr ⟨type, hne, htc, rfl⟩
  have huserset : isValidUserset (buildObject type "*") = false := by
    by_contra h
    obtain ⟨t, id, r, heq, -⟩ := exists_of_isValidUserset (Bool.not_eq_false _ |>.mp h)
    have hmem : '#' ∈ (buildObject type "*").toList := by
      rw [heq]
      simp
    simp [buildObject, hh] at hmem
  have hinj : buildObject type "*" = buildObject d.type "*" ↔ d.type = type := by
    simp [buildObject, eq_comm]
  unfold Allows
  cases hshape : d.shape with
  | object => simp
  | userset r => simp [isObjectRelation, huserset]
  | wildcard => simp [htyped, hinj]

lemma not_allows_wildcard : ¬ Allows "*" d := by
  have huserset : isValidUserset "*" = false := by decide
  have htyped : isTypedWildcard "*" = false := by decide
  unfold Allows
  cases hshape : d.shape with
  | object => simp
  | userset r => simp [isObjectRelation, huserset]
  | wildcard => simp [htyped]

end

section
variable {user : String} {d : RelationReference}

lemma Memory.allows_iff (hd : Proper d) (h : Looked user) :
    allows user d = true ↔ Allows user d := by
  rw [allows, Bool.and_eq_true, decide_eq_true_iff, decide_eq_true_iff,
    RelationReference.getRelation]
  cases h with
  | @userset type id relation htype htc hrel hrh hstar hvalid =>
    have hassoc : buildObject type id ++ "#" ++ relation =
        buildObject type (id ++ "#" ++ relation) := by simp [buildObject, String.append_assoc]
    have hgetType : getType (buildObject type id ++ "#" ++ relation) = type := by
      rw [getType, hassoc, splitObject_buildObject htc]
    rw [allows_userset htc hrh hvalid, hgetType, splitObjectRelation_append hrh]
    refine and_congr_right fun _ => ?_
    rcases hd.2 with hshape | ⟨r, -, hshape⟩
    · simp [hshape, hrel.symm]
    · simp [hshape]
  | @typedWildcard type htype htc hh =>
    have hh' : '#' ∉ (buildObject type "*").toList := by simp [buildObject, hh]
    rw [allows_typedWildcard htype htc hh, getType, splitObject_buildObject htc,
      splitObjectRelation_of_notMem hh']
    refine and_congr_right fun _ => ?_
    rcases hd.2 with hshape | ⟨r, hr, hshape⟩
    · simp [hshape]
    · simp [hshape, hr]
  | wildcard =>
    have hgetType : getType "*" = "" := by decide
    simp [hgetType, hd.1, not_allows_wildcard]

lemma SQLite.restriction_iff {x} (hd : Proper d) (h : Looked x.2.user) :
    (∃ p ∈ SQLite.restriction d, p.eval SQLite.table.getColumn (SQLite.table.typedRow x) = true) ↔
      Allows x.2.user d := by
  have heval : (∃ p ∈ SQLite.restriction d,
      p.eval SQLite.table.getColumn (SQLite.table.typedRow x) = true) ↔
      (toUserParts x.2.user).1 = d.type ∧ (d.shape = .userset (toUserParts x.2.user).2.2 ∨
        d.shape = .wildcard ∧ (toUserParts x.2.user).2.1 = "*") := by
    unfold SQLite.restriction
    rcases hd.2 with hshape | ⟨r, -, hshape⟩
    · simp [hshape, Table.getColumn, SQLite.table, SQLite.get, Table.typedRow, SQLite.row]
    · simp [hshape, Table.getColumn, SQLite.table, SQLite.get, Table.typedRow, SQLite.row,
        eq_comm (a := r)]
  rw [heval]
  generalize x.2.user = user at h
  cases h with
  | @userset type id relation htype htc hrel hrh hstar hvalid =>
    have hid : id ≠ "*" := by
      rintro rfl
      exact hstar (by simp)
    rw [allows_userset htc hrh hvalid, toUserParts_userset htc hrh]
    simp [hid, eq_comm (a := type)]
  | @typedWildcard type htype htc hh =>
    have hh' : '#' ∉ (buildObject type "*").toList := by simp [buildObject, hh]
    rw [allows_typedWildcard htype htc hh, toUserParts_of_notMem hh', splitObject_buildObject htc]
    rcases hd.2 with hshape | ⟨r, hr, hshape⟩
    · simp [hshape, eq_comm (a := type)]
    · simp [hshape, hr]
  | wildcard =>
    have hparts : toUserParts "*" = ("", "*", "") := by decide
    simp [hparts, hd.1.symm, not_allows_wildcard]

/-- MySQL and PostgreSQL take what fits the pattern for a userset. -/
lemma UserColumn.restriction_iff {x} (hd : Proper d) (h : Looked x.2.user) :
    (∃ p ∈ UserColumn.restriction d,
      p.eval UserColumn.table.getColumn (UserColumn.table.typedRow x) = true) ↔
      Allows x.2.user d ∨ ∃ relation, d.shape = .userset relation ∧
        Sql.like (pattern d.type relation).toList x.2.user.toList = true := by
  have hget : UserColumn.table.getColumn (.col .user) (UserColumn.table.typedRow x) =
      some x.2.user := rfl
  generalize x.2.user = user at h hget
  rcases hd.2 with hshape | ⟨r, -, hshape⟩
  · have hcond : (∃ p ∈ UserColumn.restriction d,
        p.eval UserColumn.table.getColumn (UserColumn.table.typedRow x) = true) ↔
        user = buildObject d.type "*" := by
      simp [UserColumn.restriction, hshape, hget, buildObject, String.append_assoc]
    have hright : (∃ relation, d.shape = .userset relation ∧
        Sql.like (pattern d.type relation).toList user.toList = true) ↔ False := by
      simp [hshape]
    rw [hcond, hright, or_false]
    cases h with
    | @userset type id relation htype htc hrel hrh hstar hvalid =>
      rw [allows_userset htc hrh hvalid, hshape]
      refine ⟨fun heq => ?_, fun hfalse => absurd hfalse.2 (by simp)⟩
      -- the last character of the wildcard would be in the relation
      have hlast := congrArg (fun s => s.toList.getLast?) heq
      have hne : relation.toList ≠ [] := fun hnil => hrel (by simpa using hnil)
      simp only [buildObject, String.toList_append, getLast?_append] at hlast
      rw [getLast?_eq_some_getLast hne] at hlast
      have hmem : '*' ∈ relation.toList := by
        have hgetLast : relation.toList.getLast hne = '*' := by simpa using hlast
        exact hgetLast ▸ getLast_mem hne
      exact absurd (by simp [hmem]) hstar
    | @typedWildcard type htype htc hh =>
      rw [allows_typedWildcard htype htc hh, hshape]
      simp [buildObject, eq_comm]
    | wildcard =>
      refine ⟨fun heq => ?_, fun hallows => absurd hallows not_allows_wildcard⟩
      have hmem : ':' ∈ ("*" : String).toList := by
        rw [heq]
        simp [buildObject]
      exact absurd hmem (by decide)
  · have hcond : (∃ p ∈ UserColumn.restriction d,
        p.eval UserColumn.table.getColumn (UserColumn.table.typedRow x) = true) ↔
        Sql.like (pattern d.type r).toList user.toList = true := by
      simp [UserColumn.restriction, hshape, hget]
    have hright : (∃ relation, d.shape = .userset relation ∧
        Sql.like (pattern d.type relation).toList user.toList = true) ↔
        Sql.like (pattern d.type r).toList user.toList = true := by
      simp [hshape]
    rw [hcond, hright, iff_or_self]
    intro hallows
    cases h with
    | @userset type id relation htype htc hrel hrh hstar hvalid =>
      obtain ⟨htype, hr⟩ := (allows_userset htc hrh hvalid).mp hallows
      rw [hshape] at hr
      cases hr
      have hlike : Sql.like ('%' :: '#' :: r.toList) (id.toList ++ '#' :: r.toList) = true :=
        Sql.like_percent.mpr ⟨id.toList, _, rfl, Sql.like_self _⟩
      have hself := Sql.like_append_self (type.toList ++ [':']) hlike
      rw [htype]
      simpa [pattern, buildObject] using hself
    | @typedWildcard type htype htc hh =>
      have hwild := ((allows_typedWildcard htype htc hh).mp hallows).2
      rw [hshape] at hwild
      cases hwild
    | wildcard => exact absurd hallows not_allows_wildcard

end

/-! ## SQL -/

section
variable {db : Database} {store : String} {f : Filter} {x : String × Key}

lemma Filter.Full.relation_ne (hf : f.Full) : f.relation ≠ "" := by
  intro h
  have hrel := hf.relation
  rw [h] at hrel
  exact absurd hrel (by decide)

/-- The object and the relation of a full filter are those of the tuple. -/
lemma matchesRest_iff (hf : f.Full) (hx : x ∈ db.rows) :
    MatchesObject f.object x.2 ∧ MatchesRelation f.relation x.2 ↔ f.MatchesRest x.2 := by
  rw [matchesObject_iff hf.object (db.valid x hx).1, Filter.MatchesRest]
  exact and_congr_right fun _ => ⟨fun h => h hf.relation_ne, fun h _ => h⟩

lemma eval_wheres {C R : Type} {T : Table C R}
    {restriction : RelationReference → List (Sql.Cond (Column C))} (hf : f.Full)
    (hx : x ∈ db.rows) :
    (∀ p ∈ wheres T restriction store f, p.eval T.getColumn (T.typedRow x) = true) ↔
      x.1 = store ∧ getUserTypeFromUser x.2.user = .userSet ∧ f.MatchesRest x.2 ∧
        (∃ d ∈ f.allowedUserTypeRestrictions, ∃ p ∈ restriction d,
          p.eval T.getColumn (T.typedRow x) = true) ∧ MatchesConditions f.conditions x.2 := by
  have hkind : T.getColumn .userType (T.typedRow x) = some UserKind.userSet.toString ↔
      getUserTypeFromUser x.2.user = .userSet := by
    show some (getUserTypeFromUser x.2.user).toString = some UserKind.userSet.toString ↔ _
    cases getUserTypeFromUser x.2.user <;> decide
  rw [← matchesRest_iff hf hx, wheres, if_pos hf.restrictions]
  simp only [forall_mem_append, forall_mem_cons, not_mem_nil, false_imp_iff,
    implies_true, and_true, Table.eval_storeCond, Table.eval_objectConds, Table.eval_relationConds,
    Table.eval_conditionConds, Sql.eval_eq_col, hkind, Sql.eval_any, mem_flatMap]
  constructor
  · rintro ⟨⟨⟨⟨⟨hstore, huser⟩, hobject⟩, hrel⟩, p, ⟨d, hd, hp⟩, heval⟩, hcond⟩
    exact ⟨hstore, huser, ⟨hobject, hrel⟩, ⟨d, hd, p, hp, heval⟩, hcond⟩
  · rintro ⟨hstore, huser, ⟨hobject, hrel⟩, ⟨d, hd, p, hp, heval⟩, hcond⟩
    exact ⟨⟨⟨⟨⟨hstore, huser⟩, hobject⟩, hrel⟩, p, ⟨d, hd, hp⟩, heval⟩, hcond⟩

theorem SQLite.readUsersetTuples_eq (hf : f.Full) :
    SQLite.readUsersetTuples db store f = f.matching db store := by
  refine Table.select_eq_filter fun x hx => ?_
  rw [eval_wheres hf hx, decide_eq_true_iff, Filter.Matches]
  refine and_congr_right fun _ => ?_
  constructor
  · rintro ⟨hkind, hrest, ⟨d, hd, heval⟩, hcond⟩
    have hlooked := looked_of_userSet (db.valid x hx).2.2 hkind
    exact ⟨hrest, ⟨d, hd, (SQLite.restriction_iff (hf.proper d hd) hlooked).mp heval⟩, hcond⟩
  · rintro ⟨hrest, ⟨d, hd, hallows⟩, hcond⟩
    have hlooked := looked_of_userSet (db.valid x hx).2.2 hallows.userSet
    exact ⟨hallows.userSet, hrest,
      ⟨d, hd, (SQLite.restriction_iff (hf.proper d hd) hlooked).mpr hallows⟩, hcond⟩

/-- The pattern of some restriction fits the user. -/
def Filter.Fits (f : Filter) (user : String) : Prop :=
  getUserTypeFromUser user = .userSet ∧ ∃ d ∈ f.allowedUserTypeRestrictions, Allows user d ∨
    ∃ relation, d.shape = .userset relation ∧
      Sql.like (UsersetTuples.pattern d.type relation).toList user.toList = true

open Classical in
theorem UserColumn.readUsersetTuples_eq (hf : f.Full) :
    UserColumn.readUsersetTuples db store f = (db.tuples store).filter fun t =>
      decide (f.MatchesRest t ∧ f.Fits t.user ∧ MatchesConditions f.conditions t) := by
  refine Table.select_eq_filter fun x hx => ?_
  rw [eval_wheres hf hx, decide_eq_true_iff, Filter.Fits]
  refine and_congr_right fun _ => ?_
  constructor
  · rintro ⟨hkind, hrest, ⟨d, hd, heval⟩, hcond⟩
    have hlooked := looked_of_userSet (db.valid x hx).2.2 hkind
    exact ⟨hrest, ⟨hkind, d, hd, (UserColumn.restriction_iff (hf.proper d hd) hlooked).mp heval⟩,
      hcond⟩
  · rintro ⟨hrest, ⟨hkind, d, hd, hfits⟩, hcond⟩
    have hlooked := looked_of_userSet (db.valid x hx).2.2 hkind
    exact ⟨hkind, hrest,
      ⟨d, hd, (UserColumn.restriction_iff (hf.proper d hd) hlooked).mpr hfits⟩, hcond⟩

lemma UserColumn.readUsersetTuples_perm_iff (hf : f.Full) :
    (readUsersetTuples db store f).Perm (f.matching db store) ↔
      ∀ t ∈ db.tuples store, f.MatchesRest t → MatchesConditions f.conditions t →
        f.Fits t.user → ∃ d ∈ f.allowedUserTypeRestrictions, Allows t.user d := by
  rw [readUsersetTuples_eq hf, Filter.matching, filter_perm_filter_iff]
  refine forall₂_congr fun t _ => ?_
  rw [decide_eq_decide, Filter.Matches]
  constructor
  · intro h hrest hcond hfits
    exact (h.mp ⟨hrest, hfits, hcond⟩).2.1
  · intro h
    constructor
    · rintro ⟨hrest, hfits, hcond⟩
      exact ⟨hrest, h hrest hcond hfits, hcond⟩
    · rintro ⟨hrest, ⟨d, hd, hallows⟩, hcond⟩
      exact ⟨hrest, ⟨hallows.userSet, d, hd, .inl hallows⟩, hcond⟩

end

/-! ## Memory -/

section
variable {db : Database} {store : String} {f : Filter} {t : Key}

/-- How often the memory backend returns a tuple. -/
def Memory.times (f : Filter) (t : Key) : Nat :=
  if f.MatchesRest t then f.allowedUserTypeRestrictions.countP (fun d => Allows t.user d) else 0

/-- The inner loop appends the record for each restriction that allows it. -/
lemma Memory.filterMap_allows (t : TupleRecord) (ds : List RelationReference) :
    (ds.filterMap fun d => if allows t.user d then some t else none) =
      replicate (ds.countP (allows t.user)) t := by
  induction ds with
  | nil => rfl
  | cons d ds ih =>
    rw [filterMap_cons, ih, countP_cons]
    by_cases hd : allows t.user d = true
    · rw [if_pos hd, if_pos hd, replicate_succ]
    · rw [if_neg hd, if_neg hd, Nat.add_zero]

lemma Memory.matched_record (hf : f.Full) (ht : (store, t) ∈ db.rows) :
    matched f (StartingWithUser.Memory.record t) =
      replicate (times f t) (StartingWithUser.Memory.record t) := by
  have hobject : f.object ≠ "" → (splitObject f.object).1 ≠ "" := fun _ => type_ne_empty hf.object
  have hmatch : Storage.Memory.isMatch (recordKey (StartingWithUser.Memory.record t))
      f.object f.relation "" = true ↔ f.MatchesRest t := by
    rw [Storage.Memory.isMatch_record hobject, ← matchesRest_iff hf ht]
    simp
  have hvalid := (db.valid _ ht).2.2
  rw [matched, filterMap_allows, if_neg hf.restrictions, times]
  by_cases hrest : f.MatchesRest t
  · rw [if_pos hrest]
    by_cases hkind : getUserTypeFromUser t.user = .userSet
    · have hlooked := looked_of_userSet hvalid hkind
      rw [if_pos ⟨hmatch.mpr hrest, hkind⟩]
      refine congrArg (replicate · _) (countP_congr fun d hd => ?_)
      rw [decide_eq_true_iff]
      exact allows_iff (hf.proper d hd) hlooked
    · have hzero : f.allowedUserTypeRestrictions.countP (fun d => Allows t.user d) = 0 :=
        countP_eq_zero.mpr fun d _ hallows => hkind (decide_eq_true_iff.mp hallows).userSet
      rw [if_neg fun h => hkind h.2, hzero, replicate_zero]
  · rw [if_neg hrest, if_neg fun h => hrest (hmatch.mp h.1), replicate_zero]

lemma Memory.readUsersetTuples_perm_iff (hf : f.Full) :
    (readUsersetTuples db store f).Perm (f.matching db store) ↔
      ∀ t ∈ db.tuples store, times f t = if f.Matches t then 1 else 0 := by
  have hread : readUsersetTuples db store f =
      (db.tuples store).flatMap fun t => replicate (times f t) t := by
    rw [readUsersetTuples, Storage.Memory.tuples, Database.tuples, flatMap_map,
      flatMap_map, map_flatMap]
    refine flatMap_congr fun x hx => ?_
    have hrow : (store, x.2) ∈ db.rows := by
      have hfilter := mem_filter.mp hx
      have hstore : x.1 = store := by simpa using hfilter.2
      exact hstore ▸ hfilter.1
    have hvalid := db.valid _ hrow
    rw [matched_record hf hrow, map_replicate,
      asTuple_record hvalid.1 (user_ne_empty hvalid.2.2)]
  rw [hread, Filter.matching, flatMap_replicate_perm_filter_iff]
  simp only [decide_eq_true_iff]

lemma Memory.times_iff {tuples : List Key} :
    (∀ t ∈ tuples, times f t = if f.Matches t then 1 else 0) ↔
      (∀ t ∈ tuples, f.Matches t →
        f.allowedUserTypeRestrictions.countP (fun d => Allows t.user d) ≤ 1) ∧
      ∀ t ∈ tuples, f.MatchesRest t →
        (∃ d ∈ f.allowedUserTypeRestrictions, Allows t.user d) →
          MatchesConditions f.conditions t := by
  have hpos : ∀ t : Key, (∃ d ∈ f.allowedUserTypeRestrictions, Allows t.user d) ↔
      0 < f.allowedUserTypeRestrictions.countP (fun d => Allows t.user d) := by
    intro t
    rw [countP_pos_iff]
    simp only [decide_eq_true_iff]
  constructor
  · intro h
    refine ⟨fun t ht hmatch => ?_, fun t ht hrest hex => ?_⟩
    · have htimes := h t ht
      rw [if_pos hmatch, times, if_pos hmatch.1] at htimes
      omega
    · by_contra hcond
      have htimes := h t ht
      rw [if_neg fun hm => hcond hm.2.2, times, if_pos hrest] at htimes
      have hcount := (hpos t).mp hex
      omega
  · rintro ⟨honce, hconds⟩ t ht
    rw [times]
    by_cases hmatch : f.Matches t
    · have hcount := (hpos t).mp hmatch.2.1
      have hle := honce t ht hmatch
      rw [if_pos hmatch, if_pos hmatch.1]
      omega
    · rw [if_neg hmatch]
      by_cases hrest : f.MatchesRest t
      · rw [if_pos hrest]
        by_contra hne
        have hex := (hpos t).mpr (Nat.pos_of_ne_zero hne)
        exact hmatch ⟨hrest, hex, hconds t ht hrest hex⟩
      · rw [if_neg hrest]

/-- For every database, store and full filter: all four backends return each stored tuple once
    that matches, and nothing else, exactly when the filter is regular for the tuples of the
    store. -/
theorem readUsersetTuples_matching_iff (db : Database) (store : String) (f : Filter) (hf : f.Full) :
    (∀ b : Backend, (readUsersetTuples b db store f).Perm (f.matching db store)) ↔
      f.Regular (db.tuples store) := by
  constructor
  · intro h
    obtain ⟨honce, hconds⟩ :=
      Memory.times_iff.mp ((Memory.readUsersetTuples_perm_iff hf).mp (h .memory))
    have hmysql := (UserColumn.readUsersetTuples_perm_iff hf).mp (h .mysql)
    refine ⟨honce, hconds, fun t ht hrest hcond hkind d hd relation hshape hlike => ?_⟩
    exact hmysql t ht hrest hcond ⟨hkind, d, hd, .inr ⟨relation, hshape, hlike⟩⟩
  · intro h b
    have hfits : ∀ t ∈ db.tuples store, f.MatchesRest t → MatchesConditions f.conditions t →
        f.Fits t.user → ∃ d ∈ f.allowedUserTypeRestrictions, Allows t.user d := by
      rintro t ht hrest hcond ⟨hkind, d, hd, hallows | ⟨relation, hshape, hlike⟩⟩
      · exact ⟨d, hd, hallows⟩
      · exact h.pattern t ht hrest hcond hkind d hd relation hshape hlike
    cases b with
    | memory =>
      exact (Memory.readUsersetTuples_perm_iff hf).mpr (Memory.times_iff.mpr ⟨h.once, h.conditions⟩)
    | sqlite => exact List.Perm.of_eq (SQLite.readUsersetTuples_eq hf)
    | mysql | postgres => exact (UserColumn.readUsersetTuples_perm_iff hf).mpr hfits

end

-- The members of one group may view a document, and those of a group of another type, where the
-- names of the two types differ in one character.

private def groupViews : Database where
  rows := [("s", ⟨"document:1", "viewer", "user_group:eng#member", "", ""⟩),
    ("s", ⟨"document:1", "viewer", "user-group:ops#member", "", ""⟩)]
  valid := by decide
  unique := by decide

private def groupFilter (conditions : List String) : Filter :=
  ⟨"document:1", "viewer", [⟨"user_group", .userset "member", ""⟩], conditions⟩

/-- MySQL and PostgreSQL return the members of the other group, and the memory backend returns
    tuples without a condition where one is asked for. -/
theorem readUsersetTuples_underscore :
    (groupFilter []).matching groupViews "s" =
      [⟨"document:1", "viewer", "user_group:eng#member", "", ""⟩] ∧
    readUsersetTuples .postgres groupViews "s" (groupFilter []) =
      [⟨"document:1", "viewer", "user_group:eng#member", "", ""⟩,
        ⟨"document:1", "viewer", "user-group:ops#member", "", ""⟩] ∧
    (groupFilter ["on_call"]).matching groupViews "s" = [] ∧
    readUsersetTuples .memory groupViews "s" (groupFilter ["on_call"]) =
      [⟨"document:1", "viewer", "user_group:eng#member", "", ""⟩] := by
  decide

private def engMembers : Database where
  rows := [("s", ⟨"document:1", "viewer", "user_group:eng#member", "", ""⟩)]
  valid := by decide
  unique := by decide

private lemma full_groupFilter : (groupFilter []).Full where
  object := by decide
  relation := by decide
  restrictions := by decide
  proper d hd := by
    rw [mem_singleton.mp hd]
    exact ⟨by decide, .inr ⟨"member", by decide, rfl⟩⟩

theorem readUsersetTuples_engMembers :
    (groupFilter []).Full ∧
      ∀ b : Backend, (readUsersetTuples b engMembers "s" (groupFilter [])).Perm
        ((groupFilter []).matching engMembers "s") := by
  refine ⟨full_groupFilter,
    (readUsersetTuples_matching_iff engMembers "s" (groupFilter []) full_groupFilter).mpr ?_⟩
  have hallows : ∀ t ∈ engMembers.tuples "s",
      ∃ d ∈ (groupFilter []).allowedUserTypeRestrictions, Allows t.user d := by decide
  exact ⟨by decide, by decide, fun t ht _ _ _ _ _ _ _ _ => hallows t ht⟩

end OpenFGA.UsersetTuples
