/-
  The users that have a relation to an object (`pkg/server/commands/listusers`).

  `expand` follows the rewrites from the requested userset and sends the users it finds
  on a channel.  Leaves send on the channel they are given; each set operator reads its
  operands from channels of its own, and decides what to pass on when they are closed.  Users
  come with a mark: an exclusion also reports users that explicitly do not have the
  relation, and those it excluded from a typed wildcard.

  Goroutines and maps are a `Schedule`: it orders the messages of every channel, and any
  permutation of what was sent may be received.  `Expansion` is what one call sends and
  returns.  A request has one user filter.

  Throttling, the deadline and the limits on concurrency are left out.  An error cancels what
  still runs; the model lets it run on, since a request that ends in an error returns no users,
  unless the limit on the number of users was reached before.
-/

import OpenFGA.RelationshipGraph
import OpenFGA.Storage

namespace OpenFGA.ListUsers

/-- `userRelationshipStatus`. -/
inductive Status where
  | hasRelationship
  | noRelationship
deriving DecidableEq, Repr

structure FoundUser where
  user : User
  excludedUsers : List User
  relationshipStatus : Status
deriving DecidableEq, Repr

/-- `foundUser{user: user}`. -/
def FoundUser.of (user : User) : FoundUser := ⟨user, [], .hasRelationship⟩

structure UserTypeFilter where
  type : String
  relation : String
deriving DecidableEq, Repr

/-- The errors an expansion meets. -/
inductive ExpandError where
  | resolutionDepthExceeded
  | relation (e : GetRelationError)
  | datastore (e : Err)
  | condition (e : Err)
deriving DecidableEq, Repr

/-- `errors.Is(err, context.DeadlineExceeded)`. -/
def ExpandError.isDeadlineExceeded : ExpandError → Bool
  | .datastore e => e = .deadlineExceeded
  | .condition e => e = .deadlineExceeded
  | _ => false

/-- `listUsersQuery` with the request and what the storage holds. -/
structure Query where
  typesys : TypeSystem
  /-- The contextual tuples, followed by those of the store. -/
  tuples : List TupleKey
  /-- The reads that fail, after how many tuples, and with what. -/
  failure : Object → String → Option (Nat × Err)
  evaluation : Evaluation
  /-- `errors.Is(err, condition.ErrEvaluationFailed)`. -/
  evaluationFailed : Err → Bool
  userFilter : UserTypeFilter
  resolveNodeLimit : Nat
  maxResults : Nat

/-- What a call of `expand` sends, in the order in which it is received, and returns. -/
structure Expansion where
  sent : List FoundUser
  hasCycle : Bool
  errs : List ExpandError
deriving DecidableEq, Repr

/-- How the messages of each channel are ordered.  Channels are named by the path of calls that
    leads to the one that reads from them. -/
structure Schedule where
  order : List Nat → List FoundUser → List FoundUser
  perm : ∀ path ms, (order path ms).Perm ms
  /-- The collector is done before an error arrives, if the limit lets it be. -/
  overtakes : Bool

namespace Query

variable (q : Query) (σ : Schedule)

/-! ## Reading tuples -/

/-- The tuples of a `Read`, and the error that its iterator ends with. -/
def readTuples (o : Object) (r : String) : List TupleKey × Option Err :=
  let found := q.tuples.filter fun t => t.object = o ∧ t.relation = r
  match q.failure o r with
  | none => (found, none)
  | some (n, e) => (found.take n, some e)

/-- The loop over the filtered iterator: the tuples that are valid and whose condition is
    met, and the errors. -/
def filterTuples (done : Option Err) : List TupleKey → List TupleKey × List ExpandError
  | [] => ([], (done.map .datastore).toList)
  | t :: ts =>
    if !q.typesys.validateTupleForRead t then filterTuples done ts
    else
      match evaluateTupleCondition q.evaluation t with
      | .ok true => (t :: (filterTuples done ts).1, (filterTuples done ts).2)
      | .ok false => filterTuples done ts
      | .error e =>
        if q.evaluationFailed e then
          ((filterTuples done ts).1, .condition e :: (filterTuples done ts).2)
        else ([], [.condition e])

/-- The tuples that `expandDirect` and `expandTTU` go through. -/
def read (o : Object) (r : String) : List TupleKey × List ExpandError :=
  q.filterTuples (q.readTuples o r).2 (q.readTuples o r).1

/-! ## Leaves -/

section
variable (dispatch : List Nat → Object → String → Expansion)

/-- One tuple in `expandDirect`. -/
def expandDirectTuple (path : List Nat) (t : TupleKey) : Expansion :=
  match t.user with
  | .userset o r => dispatch path o r
  | user => ⟨if q.userFilter.type = user.type then [.of user] else [], false, []⟩

def expandDirect (path : List Nat) (o : Object) (r : String) : Expansion :=
  let parts := (q.read o r).1.mapIdx fun i t => q.expandDirectTuple dispatch (i :: path) t
  ⟨σ.order path (parts.flatMap (·.sent)), parts.any (·.hasCycle),
    (q.read o r).2 ++ parts.flatMap (·.errs)⟩

/-- `tuple.SplitObject` of a user. -/
def splitObject : User → Object
  | .object o => o
  | .wildcard t => ⟨t, "*"⟩
  | .userset o r => ⟨o.type, o.id ++ "#" ++ r⟩

def expandTTU (path : List Nat) (o : Object) (tupleset computed : String) : Expansion :=
  let parts := (q.read o tupleset).1.mapIdx fun i t =>
    dispatch (i :: path) (splitObject t.user) computed
  ⟨σ.order path (parts.flatMap (·.sent)), false,
    parts.flatMap (·.errs) ++ (q.read o tupleset).2⟩

end

/-! ## Set operators -/

/-- The users among the messages that have the relation. -/
def found (ms : List FoundUser) : List User :=
  ((ms.filter (·.relationshipStatus = .hasRelationship)).map (·.user)).dedup

/-- All users that the messages exclude, with repetitions. -/
def excluded (ms : List FoundUser) : List User := ms.flatMap (·.excludedUsers)

/-- `TypedPublicWildcard` of the user filter. -/
def wildcardKey : User := .wildcard q.userFilter.type

/-- `expandUnion`, with what the operands sent.  An exclusion is passed on where it was counted as
    often as there are operands. -/
def unionOf (operands : List (List FoundUser)) : List FoundUser :=
  let all := excluded operands.flatten
  let excludedUsers := all.dedup.filter fun u => all.count u = operands.length
  (found operands.flatten).map fun u => ⟨u, excludedUsers, .hasRelationship⟩

/-- `expandIntersection`, with what the operands sent.  An operand counts for a user that it
    found, and for all users if it found the typed wildcard. -/
def intersectionOf (operands : List (List FoundUser)) : List FoundUser :=
  let wildcardCount := operands.countP fun ms => q.wildcardKey ∈ found ms
  let count := fun u => operands.countP fun ms => u ∈ found ms ∧ q.wildcardKey ∉ found ms
  let excludedUsers := (excluded operands.flatten).dedup
  ((found operands.flatten).filter fun u =>
      u ∉ excludedUsers ∧ count u + wildcardCount = operands.length).map
    fun u => ⟨u, excludedUsers, .hasRelationship⟩

/-- The entries of a map from users to messages, where a later message replaces an earlier one. -/
def lastOf (ms : List FoundUser) : List FoundUser :=
  ms.foldl (fun entries m => entries.filter (·.user ≠ m.user) ++ [m]) []

/-- What `expandExclusion` sends for one user of the subtracted operand, while it handles a user
    of a base that contains the typed wildcard. -/
def excludeFromWildcard (userKey : User) (userIsSubtracted : Bool) (subtracted : FoundUser) :
    List FoundUser :=
  if subtracted.user.isTypedWildcard then
    if !userIsSubtracted then [⟨userKey, [], .noRelationship⟩] else []
  else
    match subtracted.relationshipStatus with
    | .noRelationship => [⟨subtracted.user, [], .hasRelationship⟩]
    | .hasRelationship => [⟨subtracted.user, [subtracted.user], .noRelationship⟩]

/-- What `expandExclusion` sends for one user of the base. -/
def excludeOne (base subtract : List FoundUser) (fu : FoundUser) : List FoundUser :=
  let subtractedUser := subtract.find? fun m => m.user = fu.user
  let userIsSubtracted := subtractedUser.isSome
  let wildcardSubtracted := subtract.any fun m => m.user = q.wildcardKey
  if base.any fun m => m.user = q.wildcardKey then
    (if !userIsSubtracted && !wildcardSubtracted then [.of fu.user] else []) ++
      subtract.flatMap (excludeFromWildcard fu.user userIsSubtracted)
  else if wildcardSubtracted || userIsSubtracted then
    -- the status of a missing entry is `HasRelationship`
    match (subtractedUser.map (·.relationshipStatus)).getD .hasRelationship with
    | .hasRelationship => [⟨fu.user, [], .noRelationship⟩]
    | .noRelationship => [⟨fu.user, [], .hasRelationship⟩]
  else [⟨fu.user, [], fu.relationshipStatus⟩]

/-- `expandExclusion`, with what the operands sent. -/
def differenceOf (base subtract : List FoundUser) : List FoundUser :=
  (lastOf base).flatMap (q.excludeOne (lastOf base) (lastOf subtract))

/-! ## expand -/

section
variable (dispatch : List Nat → Object → String → Expansion) (o : Object) (r : String)

mutual

def expandRewrite (path : List Nat) : Userset → Expansion
  | .this => q.expandDirect σ dispatch path o r
  | .computedUserset computed => dispatch (0 :: path) o computed
  | .tupleToUserset tupleset computed => q.expandTTU σ dispatch path o tupleset computed
  | .union cs =>
    let operands := expandRewrites path 0 cs
    ⟨σ.order path (unionOf (operands.map (·.sent))), false, operands.flatMap (·.errs)⟩
  | .intersection cs =>
    let operands := expandRewrites path 0 cs
    ⟨σ.order path (q.intersectionOf (operands.map (·.sent))), false, operands.flatMap (·.errs)⟩
  | .difference b s =>
    let base := expandRewrite (0 :: path) b
    let subtract := expandRewrite (1 :: path) s
    -- a cycle in the subtracted operand ends the expansion, also where there was an error
    if subtract.hasCycle then ⟨[], false, []⟩
    else ⟨σ.order path (q.differenceOf base.sent subtract.sent), false, base.errs ++ subtract.errs⟩

def expandRewrites (path : List Nat) (i : Nat) : List Userset → List Expansion
  | [] => []
  | c :: cs => expandRewrite (i :: path) c :: expandRewrites path (i + 1) cs

end
end

/-- The userset itself is a user, if the filter asks for it. -/
def selfUser (o : Object) (r : String) : List FoundUser :=
  if o.type = q.userFilter.type ∧ r = q.userFilter.relation then [.of (.userset o r)] else []

/-- `expand`, where `n` more levels are allowed and these usersets are on the path. -/
def expand : Nat → List (Object × String) → List Nat → Object → String → Expansion
  | 0, _, _, _, _ => ⟨[], false, [.resolutionDepthExceeded]⟩
  | n + 1, visited, path, o, r =>
    if (o, r) ∈ visited then ⟨[], true, []⟩
    else
      match q.typesys.getRelation o.type r with
      | .error (.relationUndefined _ _) => ⟨q.selfUser o r, false, []⟩
      | .error e => ⟨q.selfUser o r, false, [.relation e]⟩
      | .ok rel =>
        let resp := q.expandRewrite σ (expand n ((o, r) :: visited)) o r path rel.rewrite
        ⟨q.selfUser o r ++ resp.sent, resp.hasCycle, resp.errs⟩

/-! ## ListUsers -/

/-- The map `foundUsersUnique` after these messages; the loop stops at the limit. -/
def collect (entries : List FoundUser) : List FoundUser → List FoundUser
  | [] => entries
  | m :: ms =>
    let entries' := entries.filter (·.user ≠ m.user) ++ [m]
    if 0 < q.maxResults && q.maxResults ≤ entries'.length then entries' else collect entries' ms

def doesHavePossibleEdges (o : Object) (r : String) : Except GetRelationError Bool :=
  let source := ⟨q.userFilter.type,
    if q.userFilter.relation = "" then .object else .userset q.userFilter.relation, ""⟩
  match q.typesys.getPrunedRelationshipEdges (o.type, r) source with
  | .error e => .error e
  | .ok edges => .ok !edges.isEmpty

/-- The users of the response, from what `expand` sent and returned. -/
def respond (e : Expansion) : Except (List ExpandError) (List User) :=
  let entries := q.collect [] e.sent
  let limitReached := 0 < q.maxResults && q.maxResults ≤ entries.length
  if e.errs ≠ [] && !(limitReached && σ.overtakes) && !e.errs.any (·.isDeadlineExceeded) then
    .error e.errs
  else .ok ((entries.filter (·.relationshipStatus = .hasRelationship)).map (·.user))

def listUsers (o : Object) (r : String) : Except (List ExpandError) (List User) :=
  if o.type = q.userFilter.type ∧ r = q.userFilter.relation then
    q.respond σ (q.expand σ q.resolveNodeLimit [] [] o r)
  else
    match q.doesHavePossibleEdges o r with
    | .error e => .error [.relation e]
    | .ok false => .ok []
    | .ok true => q.respond σ (q.expand σ q.resolveNodeLimit [] [] o r)

end Query

end OpenFGA.ListUsers
