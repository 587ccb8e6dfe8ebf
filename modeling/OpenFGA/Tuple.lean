/-
  Objects, users, relationship tuples and check requests.

  The Go code passes these as strings (`type:id`, `type:*`, `type:id#relation`,
  `type#relation`) and takes them apart with `tuple.SplitObject` and
  `tuple.SplitObjectRelation`.  Tuples are validated before they are stored and
  requests before they are resolved, so every such string has exactly one
  reading; the model keeps the reading instead of the string.
-/

import Mathlib

namespace OpenFGA

/-- An object `type:id`. -/
structure Object where
  type : String
  id : String
deriving DecidableEq, Repr

/-- The string `type:id`. -/
def Object.toString (o : Object) : String := o.type ++ ":" ++ o.id

lemma Object.toString_ne_empty (o : Object) : o.toString ≠ "" := by
  intro h
  have hlen := congrArg String.length h
  simp [Object.toString] at hlen

/-- The user of a tuple or of a request. -/
inductive User where
  /-- `type:id` -/
  | object (o : Object)
  /-- `type:*` -/
  | wildcard (type : String)
  /-- `type:id#relation` -/
  | userset (o : Object) (relation : String)
deriving DecidableEq, Repr

/-- The user type of a request: the type of an object or typed wildcard, and
    `type#relation` for a userset.  These are the keys of the weight tables. -/
inductive UserType where
  | type (t : String)
  | userset (t r : String)
deriving DecidableEq, Repr

namespace User

/-- `tuple.GetType`. -/
def type : User → String
  | object o => o.type
  | wildcard t => t
  | userset o _ => o.type

/-- The string the user stands for. -/
def toString : User → String
  | object o => o.toString
  | wildcard t => t ++ ":*"
  | userset o r => o.toString ++ "#" ++ r

/-- `Request.GetUserType`. -/
def userType : User → UserType
  | object o => .type o.type
  | wildcard t => .type t
  | userset o r => .userset o.type r

def isTypedWildcard : User → Bool
  | wildcard _ => true
  | _ => false

def isObjectRelation : User → Bool
  | userset _ _ => true
  | _ => false

end User

/-- A relationship tuple.  `condition` is the name of its condition (`""` when
    it has none) and `conditionContext` the context stored with it. -/
structure TupleKey where
  object : Object
  relation : String
  user : User
  condition : String
  conditionContext : String
deriving DecidableEq, Repr

/-- The errors the check resolvers return. -/
inductive Err where
  | validation
  | usersetInvalidRequest
  | panicRequest
  | wildcardInvalidRequest
  | graphError
  | canceled
  | deadlineExceeded
  | other (text : String)
deriving DecidableEq, Repr

/-- `errors.Is(err, context.Canceled) || errors.Is(err, context.DeadlineExceeded)`. -/
def Err.isCancellation : Err → Bool
  | .canceled => true
  | .deadlineExceeded => true
  | _ => false

/-- The consistency preference of a request. -/
inductive Consistency where
  | unspecified
  | minimizeLatency
  | higherConsistency
deriving DecidableEq, Repr

/-- The parts of a check request that stay the same in every request derived
    from it: the user, the contextual tuples, the consistency preference and the
    key of the invariant parts (store, model, context, contextual tuples). -/
structure RequestEnv where
  storeID : String
  modelID : String
  user : User
  contextualTuples : List TupleKey
  consistency : Consistency
  invariantCacheKey : Nat
deriving DecidableEq, Repr

end OpenFGA
