/-
  The tuple store behind `storage.RelationshipTupleReader`, and the four reads the
  resolvers make.

  A store holds at most one tuple for an object, a relation and a user; a second
  write with another condition is rejected.  Reads filter it.  The order in which
  a read yields its tuples is the order of the list, which is arbitrary; only
  `ReadStartingWithUser` sorts.

  The expression engine that evaluates conditions is not part of the model: an
  `Evaluation` is what it answers for each conditioned tuple under the context of the
  request.
-/

import OpenFGA.Tuple

namespace OpenFGA

/-- What the condition of a tuple evaluates to under the request's context. -/
abbrev Evaluation := TupleKey → Except Err Bool

def evaluateTupleCondition (eval : Evaluation) (t : TupleKey) : Except Err Bool :=
  if t.condition = "" then .ok true else eval t

/-- `evaluateCondition`: a tuple whose condition the edge does not list never
    passes. -/
def evaluateCondition (eval : Evaluation) (conditions : List String) (t : TupleKey) :
    Except Err Bool :=
  if conditions.contains t.condition then evaluateTupleCondition eval t else .ok false

/-- The condition filter is only installed on edges that list a condition. -/
def hasConditions (conditions : List String) : Bool :=
  match conditions with
  | [] => false
  | [c] => c ≠ ""
  | _ => true

/-- The tuples of a store. -/
structure Store where
  tuples : List TupleKey
  unique : (tuples.map fun t => (t.object, t.relation, t.user)).Nodup

namespace Store

variable (s : Store)

/-- The optional filter on condition names that every read takes. -/
def conditionMatches (conditions : List String) (t : TupleKey) : Bool :=
  conditions.isEmpty || conditions.contains t.condition

/-- `Read` with an object, a relation and a user filter `userType:`. -/
def read (object : Object) (relation userType : String) (conditions : List String) :
    List TupleKey :=
  s.tuples.filter fun t => t.object = object ∧ t.relation = relation ∧
    t.user.type = userType ∧ conditionMatches conditions t

/-- `ReadUsersetTuples` with one allowed type restriction `userType#userRelation`. -/
def readUsersetTuples (object : Object) (relation userType userRelation : String)
    (conditions : List String) : List TupleKey :=
  s.tuples.filter fun t => t.object = object ∧ t.relation = relation ∧
    t.user.userType = .userset userType userRelation ∧ conditionMatches conditions t

def readUserTuple (object : Object) (relation : String) (user : User)
    (conditions : List String) : Option TupleKey :=
  s.tuples.find? fun t => t.object = object ∧ t.relation = relation ∧ t.user = user ∧
    conditionMatches conditions t

end Store

/-! ## Contextual tuples -/

/-- `insertSortedTuple`: insert by `key`, unless the key is there already. -/
def insertSortedTuple (key : TupleKey → String) (t : TupleKey) : List TupleKey → List TupleKey
  | [] => [t]
  | x :: xs =>
    if key x < key t then x :: insertSortedTuple key t xs
    else if key x = key t then x :: xs
    else t :: x :: xs

/-- The slice `buildContextualTupleMaps` builds from the tuples of one map key. -/
def insertAllSorted (key : TupleKey → String) (ts : List TupleKey) : List TupleKey :=
  ts.foldl (fun slice t => insertSortedTuple key t slice) []

namespace RequestEnv

variable (env : RequestEnv)

/-- `GetContextualTuplesByObjectID`: the contextual tuples with this object,
    relation and user type, sorted by user. -/
def ctxTuplesByObjectID (object : Object) (relation : String) (userType : UserType) :
    List TupleKey :=
  insertAllSorted (·.user.toString) (env.contextualTuples.filter fun t =>
    t.object = object ∧ t.relation = relation ∧ t.user.userType = userType)

/-- `GetContextualTuplesByUserID`: the contextual tuples with this user, relation
    and object type, sorted by object. -/
def ctxTuplesByUserID (user : User) (relation objectType : String) : List TupleKey :=
  insertAllSorted (·.object.toString) (env.contextualTuples.filter fun t =>
    t.user = user ∧ t.relation = relation ∧ t.object.type = objectType)

end RequestEnv

section
variable {key : TupleKey → String} {t x : TupleKey} {ts : List TupleKey}

lemma mem_of_mem_insertSortedTuple (h : x ∈ insertSortedTuple key t ts) : x = t ∨ x ∈ ts := by
  induction ts with
  | nil => exact .inl (List.mem_singleton.mp h)
  | cons y ys ih =>
    simp only [insertSortedTuple] at h
    split_ifs at h
    · rcases List.mem_cons.mp h with rfl | h
      · exact .inr List.mem_cons_self
      · exact (ih h).imp_right (List.mem_cons_of_mem _)
    · exact .inr h
    · exact List.mem_cons.mp h

lemma mem_of_mem_insertAllSorted (h : x ∈ insertAllSorted key ts) : x ∈ ts := by
  have hfold : ∀ (ts slice : List TupleKey),
      x ∈ ts.foldl (fun slice t => insertSortedTuple key t slice) slice → x ∈ slice ∨ x ∈ ts := by
    intro ts
    induction ts with
    | nil => exact fun slice h => .inl h
    | cons t ts ih =>
      intro slice h
      rcases ih _ h with h | h
      · rcases mem_of_mem_insertSortedTuple h with rfl | h
        · exact .inr List.mem_cons_self
        · exact .inl h
      · exact .inr (List.mem_cons_of_mem _ h)
  exact (hfold ts [] h).resolve_left List.not_mem_nil

end

end OpenFGA
