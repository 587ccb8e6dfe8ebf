/-
  The v2 check resolver (`internal/check/check.go`, `internal/check/default.go`) as a
  tree of goroutines.

  A check is resolved by goroutines that start further goroutines and combine
  their answers.  `Proc` is such a tree; a step lets one of its goroutines go on, and
  a schedule names the goroutine by its path from the root.  What the goroutines share
  is the edge cache and the maps of visited usersets.

  * `ResolveUnion` creates a visited map for a recursive or cyclic relation when it is
    called without one.  The map belongs to everything evaluated below, so it sits at a
    `region` of the tree; evaluations that are passed no map do not touch it.
  * The tuples of a userset or tuple-to-userset edge are read through filters: the
    unique filter looks the user of a tuple up in the visited map and stores it, then
    the condition filter may reject the tuple.
  * `ResolveUnionEdges` looks each edge up in the cache before it evaluates those
    that are not there, and stores each result.

  An answer that decides a union cancels the other branches.  Their goroutines may run
  on for a while and still mark usersets as visited, but nobody waits for their
  answers: here they stay in the tree and may be scheduled or not.  The branches of
  a union are nested `or`s, those of an intersection nested `and`s.

  A visited map and the results stored in the cache record more than the Go code
  keeps: the query that a visited key was stored for, and the queries that were
  dropped below an evaluation.  No step reads them.
-/

import OpenFGA.Lib.Run
import OpenFGA.Storage
import OpenFGA.Semantics

namespace OpenFGA.Check

/-! ## Requests -/

/-- The object of `tuple.SplitObjectRelation`. -/
def splitObject : User → Object
  | .object o => o
  | .wildcard t => ⟨t, "*"⟩
  | .userset o _ => o

/-- The relation of `tuple.SplitObjectRelation`. -/
def splitRelation : User → String
  | .userset _ r => r
  | _ => ""

/-- A `Resolver` with the invariant parts of a request. -/
structure Config where
  graph : Graph
  store : Store
  env : RequestEnv
  eval : Evaluation
  /-- The resolver has a cache; otherwise it is the `NoopCache`. -/
  caching : Bool
  /-- The planner may pick other strategies than the default one. -/
  otherStrategies : Bool

/-- `EdgeCacheKey`. -/
structure CacheKey where
  storeID : String
  modelID : String
  object : Object
  user : User
  relationDefinition : String × String
  edgeType : EdgeType
  target : NodeKey
  tuplesetRelation : Option (String × String)
  invariantCacheKey : Nat
deriving DecidableEq, Repr

/-- The object and relation of a `Request`.  An evaluation that is handed on to another
    node keeps its request, so the relation need not be the one that is evaluated. -/
structure Request where
  object : Object
  relation : String
deriving DecidableEq, Repr

/-- The node that a request asks for. -/
def Request.node (r : Request) : NodeKey := .specificTypeAndRelation r.object.type r.relation

def Request.query (r : Request) : Query := (r.object, r.node)

/-- A tuple read by an iterator: its user, the request made for it, and what the
    condition filter says. -/
structure Pending where
  user : User
  request : Request
  passes : Except Err Bool

def Pending.query (t : Pending) : Query := t.request.query

/-- An entry of a visited map, and the query it was stored for, if any. -/
structure Visited where
  key : User
  query : Option Query

/-- A running evaluation. -/
inductive Proc where
  | done (allowed : Bool)
  /-- The evaluation returned an error. -/
  | failed
  /-- `ResolveUnion` at a node; `visited` says whether it is passed a visited map. -/
  | union (r : Request) (n : NodeKey) (visited : Bool)
  /-- The first loop of `ResolveUnionEdges`. -/
  | edges (r : Request) (todo evaluations : List Edge) (visited : Bool)
  /-- `ResolveEdge`. -/
  | edge (r : Request) (e : Edge) (visited : Bool)
  /-- The goroutine of `ResolveRecursive` for the recursive edge. -/
  | recursiveEdge (r : Request) (e : Edge) (visited canApplyOptimization : Bool)
  /-- `resolveRecursiveUserset` and `resolveRecursiveTTU`. -/
  | recursive (r : Request) (e : Edge) (visited canApplyOptimization : Bool)
  /-- An evaluation whose result is stored in the cache. -/
  | store (r : Request) (e : Edge) (dropped : List Query) (p : Proc)
  | or (p q : Proc)
  | and (p q : Proc)
  | diff (p q : Proc)
  /-- `DefaultStrategy.execute`: the tuples still to be read, the state of the filter,
      and the requests made so far. -/
  | iter (visited : Bool) (rest : List Pending) (onceValid : Bool) (lastErr : Option Err) (p : Proc)
  /-- An evaluation that owns a visited map. -/
  | region (root : Query) (visited : List Visited) (p : Proc)

/-! ## Answers -/

/-- A union answers at the first true, and false when all have answered. -/
def orResult : Option Bool → Option Bool → Option Bool
  | some true, _ => some true
  | _, some true => some true
  | some false, some false => some false
  | _, _ => none

def andResult : Option Bool → Option Bool → Option Bool
  | some false, _ => some false
  | _, some false => some false
  | some true, some true => some true
  | _, _ => none

/-- Base but not subtract. -/
def diffResult : Option Bool → Option Bool → Option Bool
  | some false, _ => some false
  | _, some true => some false
  | some true, some false => some true
  | _, _ => none

/-- What an evaluation has returned. -/
def Proc.result : Proc → Option Bool
  | .done b => some b
  | .or p q => orResult p.result q.result
  | .and p q => andResult p.result q.result
  | .diff p q => diffResult p.result q.result
  | .iter _ rest onceValid lastErr p =>
    match p.result with
    | some true => some true
    | some false => if rest.isEmpty && (onceValid || lastErr.isNone) then some false else none
    | none => none
  | .region _ _ p => p.result
  | _ => none

/-- The evaluation holds no error. -/
def Proc.ok : Proc → Bool
  | .failed => false
  | .or p q | .and p q | .diff p q => p.ok && q.ok
  | .iter _ _ onceValid lastErr p => (onceValid || lastErr.isNone) && p.ok
  | .store _ _ _ p | .region _ _ p => p.ok
  | _ => true

def Proc.ofExcept : Except Err Bool → Proc
  | .ok b => .done b
  | .error _ => .failed

/-! ## Reads -/

namespace Config

variable (c : Config)

def userType : UserType := c.env.user.userType

/-- `req.IsTypedWildcard()`. -/
def wild : Bool := c.env.user.isTypedWildcard

/-- The condition filter of an iterator. -/
def passes (conditions : List String) (t : TupleKey) : Except Err Bool :=
  if hasConditions conditions then evaluateCondition c.eval conditions t else .ok true

/-- The condition of a tuple that a lookup found. -/
def evaluateFound (conditions : List String) : Option TupleKey → Except Err Bool
  | some t => evaluateCondition c.eval conditions t
  | none => .ok false

/-- `specificType`: a contextual tuple hides the stored one. -/
def specificType (o : Object) (e : Edge) : Except Err Bool :=
  let relation := e.relationDefinition.2
  match (c.env.ctxTuplesByUserID c.env.user relation o.type).find? fun t => t.object = o with
  | some t => evaluateCondition c.eval e.conditions t
  | none => c.evaluateFound e.conditions (c.store.readUserTuple o relation c.env.user [])

def specificTypeWildcard (o : Object) (e : Edge) : Except Err Bool :=
  let relation := e.relationDefinition.2
  match (c.env.ctxTuplesByObjectID o relation c.userType).find? fun t => t.user.isTypedWildcard with
  | some t => evaluateCondition c.eval e.conditions t
  | none => c.evaluateFound e.conditions
      (c.store.readUserTuple o relation (.wildcard c.env.user.type) e.conditions)

/-- The request that `DefaultStrategy.userset` makes for a tuple. -/
def usersetPending (conditions : List String) (t : TupleKey) : Pending :=
  ⟨t.user, ⟨splitObject t.user, splitRelation t.user⟩, c.passes conditions t⟩

/-- The request that `DefaultStrategy.ttu` makes for a tuple. -/
def ttuPending (conditions : List String) (computedRelation : String) (t : TupleKey) : Pending :=
  ⟨t.user, ⟨splitObject t.user, computedRelation⟩, c.passes conditions t⟩

/-- The tuples of a userset edge, contextual ones first. -/
def usersetTuples (o : Object) (relation : String) (e : Edge) : List Pending :=
  match e.target with
  | .specificTypeAndRelation userObjectType userRelation =>
    (c.env.ctxTuplesByObjectID o relation (.userset userObjectType userRelation) ++
      c.store.readUsersetTuples o relation userObjectType userRelation e.conditions).map
        (c.usersetPending e.conditions)
  | _ => []

/-- The tuples of the tupleset of a TTU edge, contextual ones first. -/
def ttuTuples (o : Object) (e : Edge) : Option (List Pending) :=
  match e.tuplesetRelation, e.target with
  | some tupleset, .specificTypeAndRelation subjectType computedRelation =>
    (c.graph.getDirectEdgeFromNodeForUserType tupleset subjectType).map fun tuplesetEdge =>
      (c.env.ctxTuplesByObjectID o tupleset.2 (.type subjectType) ++
        c.store.read o tupleset.2 subjectType tuplesetEdge.conditions).map
          (c.ttuPending tuplesetEdge.conditions computedRelation)
  | _, _ => none

def cacheKey (o : Object) (e : Edge) : CacheKey :=
  ⟨c.env.storeID, c.env.modelID, o, c.env.user, e.relationDefinition, e.edgeType, e.target,
    e.tuplesetRelation, c.env.invariantCacheKey⟩

/-- `isCached`, with an invalidation time older than every entry; the `NoopCache`
    holds none. -/
def isCached (cache : List (CacheKey × Bool)) (o : Object) (e : Edge) : Option Bool :=
  if c.env.consistency = .higherConsistency ∨ c.caching = false then none
  else cache.lookup (c.cacheKey o e)

/-! ## What an evaluation starts -/

/-- The default strategy reads the tuples of an edge. -/
def execute (visited : Bool) (rest : List Pending) : Proc :=
  .iter visited rest false none (.done false)

def specificTypeAndRelation (r : Request) (e : Edge) (visited : Bool) : Proc :=
  let expand := execute visited (c.usersetTuples r.object e.relationDefinition.2 e)
  match e.target with
  | .specificTypeAndRelation t relation =>
    if c.userType = .userset t relation then
      match c.specificType r.object e with
      | .error _ => .failed
      | .ok true => .done true
      -- a cyclic edge may still lead to the userset
      | .ok false => if e.isCyclical then expand else .done false
    else expand
  | _ => .failed

def ttu (r : Request) (e : Edge) (visited : Bool) : Proc :=
  match c.ttuTuples r.object e with
  | some rest => execute visited rest
  | none => .failed

def resolveIntersection (r : Request) (n : NodeKey) : Proc :=
  match c.graph.getEdgesFromNode n with
  | none => .failed
  | some es =>
    if c.wild && es.any fun e => !e.wildcards.contains c.userType then .done false
    else if es.any fun e => (e.weight c.userType).isNone then .failed
    else es.foldr (fun e p => .and (.edge r e false) p) (.done true)

def resolveExclusion (r : Request) (n : NodeKey) : Proc :=
  match c.graph.getEdgesFromNode n with
  | some (base :: subtract :: _) =>
    if (base.weight c.userType).isNone then .failed
    else if (subtract.weight c.userType).isNone then
      if c.env.user.isObjectRelation then .failed
      else .diff (.edge r base false) (.done false)
    else .diff (.edge r base false) (.edge r subtract false)
  | _ => .failed

def resolveRewrite (r : Request) (n : NodeKey) (visited : Bool) : Proc :=
  match n with
  | .specificTypeAndRelation _ _ => .union r n visited
  | .operatorNode .union _ => .union r n visited
  | .operatorNode .intersection _ => c.resolveIntersection r n
  | .operatorNode .exclusion _ => if c.wild then .failed else c.resolveExclusion r n
  | _ => .failed

def resolveEdge (r : Request) (e : Edge) (visited : Bool) : Proc :=
  let visitedObjects := visited && e.isCyclical
  match e.edgeType with
  | .directEdge =>
    match e.target with
    | .specificType _ => .ofExcept (c.specificType r.object e)
    | .specificTypeWildcard _ => .ofExcept (c.specificTypeWildcard r.object e)
    | .specificTypeAndRelation _ _ => c.specificTypeAndRelation r e visitedObjects
    | _ => .failed
  | .directLogicalEdge | .ttuLogicalEdge | .computedEdge => .union r e.target visitedObjects
  | .ttuEdge => c.ttu r e visitedObjects
  | .rewriteEdge => c.resolveRewrite r e.target visitedObjects

/-- `resolveRecursiveUserset` and `resolveRecursiveTTU` with the default strategy; the
    tuples of a recursive userset are read with the relation of the userset. -/
def resolveRecursive (r : Request) (e : Edge) (visited : Bool) : Proc :=
  match e.edgeType, e.target with
  | .directEdge, .specificTypeAndRelation _ userRelation =>
    execute visited (c.usersetTuples r.object userRelation e)
  | .ttuEdge, _ => c.ttu r e visited
  | _, _ => .failed

/-- The part of `ResolveUnion` after the visited map is there. -/
def unionBody (r : Request) (node : Node) (visited emptyCycle : Bool) : Proc :=
  match c.graph.canApplyRecursion node c.userType emptyCycle with
  | (some e, withOptimization) =>
    match c.graph.flattenNode e.target c.userType c.wild true with
    | some es => .or (.edges r es [] visited) (.recursiveEdge r e visited withOptimization)
    | none => .failed
  | (none, _) =>
    match c.graph.flattenNode node.key c.userType c.wild false with
    | some es => .edges r es [] visited
    | none => .failed

def resolveUnion (r : Request) (n : NodeKey) (visited : Bool) : Proc :=
  match c.graph.getNodeByID n with
  | none => .failed
  | some node =>
    match n with
    | .specificTypeAndRelation _ _ =>
      if visited = false ∧ (node.recursiveRelation = some node.key ∨ node.tupleCycle = true) then
        -- the map starts with the userset of the request
        .region (r.object, n) [⟨.userset r.object r.relation, some (r.object, n)⟩]
          (c.unionBody r node true true)
      else c.unionBody r node visited (!visited)
    | _ => c.unionBody r node visited (!visited)

/-- The second loop of `ResolveUnionEdges`. -/
def startAll (r : Request) (evaluations : List Edge) (visited : Bool) : Proc :=
  evaluations.foldr (fun e p => .or (.store r e [] (.edge r e visited)) p) (.done false)

def resolveCheck (r : Request) : Proc :=
  match c.graph.getNodeByID r.node with
  | none => .failed
  | some node =>
    if (node.weights.lookup c.userType).isNone then .done false
    else if c.wild && !node.wildcards.contains c.userType then .done false
    else .union r r.node false

end Config

/-! ## Steps -/

/-- What the goroutines share: the edge cache, and the visited map in scope. -/
structure Shared where
  cache : List (CacheKey × Bool)
  visited : List Visited

inductive Turn where
  /-- The goroutine goes on. -/
  | go
  /-- It goes on after its cache lookup found no entry, or an expired one. -/
  | miss
  /-- Another strategy than the default one answers for the edge. -/
  | answer (allowed : Bool)
  | left (a : Turn)
  | right (a : Turn)
  | down (a : Turn)
deriving DecidableEq, Repr

/-- The next state of the shared data, the queries dropped, and the evaluation. -/
abbrev Outcome := Shared × List Query × Proc

namespace Config

variable (c : Config)

/-- The next tuple goes through the condition filter. -/
def filterCondition (visited : Bool) (t : Pending) (rest : List Pending) (onceValid : Bool)
    (lastErr : Option Err) (p : Proc) : Proc :=
  match t.passes with
  | .ok true => .iter visited rest true lastErr (.or (.union t.request t.request.node visited) p)
  | .ok false => .iter visited rest onceValid lastErr p
  | .error err => .iter visited rest onceValid (some err) p

/-- A tuple that does not pass the condition filter starts nothing. -/
lemma filterCondition_cases {visited onceValid t rest lastErr p} :
    (t.passes = .ok true ∧ filterCondition visited t rest onceValid lastErr p =
      .iter visited rest true lastErr (.or (.union t.request t.request.node visited) p)) ∨
    (t.passes ≠ .ok true ∧ ∃ lastErr', filterCondition visited t rest onceValid lastErr p =
      .iter visited rest onceValid lastErr' p) := by
  unfold filterCondition
  cases ht : t.passes with
  | error err => exact .inr ⟨by simp, some err, rfl⟩
  | ok b =>
    cases b with
    | true => exact .inl ⟨rfl, rfl⟩
    | false => exact .inr ⟨by simp, lastErr, rfl⟩

/-- The query a visited key is stored for. -/
def visit (t : Pending) : Visited :=
  ⟨t.user, match t.passes with
    | .ok true => some t.query
    | _ => none⟩

/-- `iter.Next` and the request for the tuple it yields. -/
def next (s : Shared) (visited : Bool) (t : Pending) (rest : List Pending) (onceValid : Bool)
    (lastErr : Option Err) (p : Proc) : Outcome :=
  if visited then
    if s.visited.any fun v => v.key = t.user then
      (s, [t.query], .iter visited rest onceValid lastErr p)
    else
      ({ s with visited := visit t :: s.visited }, [],
        filterCondition visited t rest onceValid lastErr p)
  else (s, [], filterCondition visited t rest onceValid lastErr p)

def set (s : Shared) (o : Object) (e : Edge) (allowed : Bool) : Shared :=
  if c.caching then { s with cache := (c.cacheKey o e, allowed) :: s.cache } else s

/-- The strategies other than the default one that an edge may be evaluated with. -/
def mayAnswer (e : Edge) : Bool :=
  c.otherStrategies && !c.env.user.isObjectRelation && e.weight c.userType == some 2 && !e.isRewrite

def step (s : Shared) : Proc → Turn → Option Outcome
  | .union r n visited, .go => some (s, [], c.resolveUnion r n visited)
  | .edges r [] evaluations visited, .go => some (s, [], startAll r evaluations visited)
  | .edges r (e :: todo) evaluations visited, .go =>
    match c.isCached s.cache r.object e with
    | some true => some (s, [], .done true)
    | some false => some (s, [], .edges r todo evaluations visited)
    | none => some (s, [], .edges r todo (evaluations ++ [e]) visited)
  | .edges r (e :: todo) evaluations visited, .miss =>
    some (s, [], .edges r todo (evaluations ++ [e]) visited)
  | .edge r e visited, .go => some (s, [], c.resolveEdge r e visited)
  | .edge _ e _, .answer b => if c.mayAnswer e then some (s, [], .done b) else none
  | .recursiveEdge r e visited opt, .go =>
    match c.isCached s.cache r.object e with
    | some b => some (s, [], .done b)
    | none => some (s, [], .store r e [] (.recursive r e visited opt))
  | .recursiveEdge r e visited opt, .miss =>
    some (s, [], .store r e [] (.recursive r e visited opt))
  | .recursive r e visited _, .go => some (s, [], c.resolveRecursive r e visited)
  | .recursive _ _ _ opt, .answer b =>
    if c.otherStrategies && opt then some (s, [], .done b) else none
  | .store r e _ p, .go => p.result.map fun b => (c.set s r.object e b, [], .done b)
  | .store r e dropped p, .down a =>
    (step s p a).map fun (s', d, p') => (s', d, .store r e (dropped ++ d) p')
  | .or p q, .left a => (step s p a).map fun (s', d, p') => (s', d, .or p' q)
  | .or p q, .right a => (step s q a).map fun (s', d, q') => (s', d, .or p q')
  | .and p q, .left a => (step s p a).map fun (s', d, p') => (s', d, .and p' q)
  | .and p q, .right a => (step s q a).map fun (s', d, q') => (s', d, .and p q')
  | .diff p q, .left a => (step s p a).map fun (s', d, p') => (s', d, .diff p' q)
  | .diff p q, .right a => (step s q a).map fun (s', d, q') => (s', d, .diff p q')
  | .iter visited (t :: rest) onceValid lastErr p, .go =>
    some (next s visited t rest onceValid lastErr p)
  | .iter visited rest onceValid lastErr p, .down a =>
    (step s p a).map fun (s', d, p') => (s', d, .iter visited rest onceValid lastErr p')
  | .region root visited p, .down a =>
    (step { s with visited } p a).map fun (s', _, p') =>
      ({ s' with visited := s.visited }, [], .region root s'.visited p')
  | _, _ => none

lemma set_visited {s o e b} :
    (c.set s o e b).visited = s.visited := by
  unfold set
  split <;> rfl

lemma step_iter_down {s visited onceValid rest lastErr p a} :
    c.step s (.iter visited rest onceValid lastErr p) (.down a) =
      (c.step s p a).map fun (s', d, p') => (s', d, .iter visited rest onceValid lastErr p') := by
  cases rest <;> rfl

/-- A step of the whole check. -/
def advance (σ : Shared × Proc) (a : Turn) : Option (Shared × Proc) :=
  (c.step σ.1 σ.2 a).map fun out => (out.1, out.2.2)

/-- The step leads to no error. -/
def quiet (σ : Shared × Proc) (a : Turn) : Bool := (c.advance σ a).all fun σ' => σ'.2.ok

/-- `ResolveCheck` with the given cache. -/
def start (cache : List (CacheKey × Bool)) (r : Request) : Shared × Proc :=
  (⟨cache, []⟩, c.resolveCheck r)

end Config

end OpenFGA.Check
