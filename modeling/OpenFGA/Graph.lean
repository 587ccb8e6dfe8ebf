/-
  The weighted authorization model graph and what `internal/modelgraph` computes
  on it.

  The graph itself is built by the `openfga/language` package; here it is plain
  data.  A node is identified by its unique label, whose shape also gives the
  node type; an edge carries everything the resolvers read from it.  Maps of the
  Go code (weights, edges by node) are association lists.

  `flattenNode` and `canApplyRecursiveOptimization` recurse through the graph;
  they take fuel, and `Graph.fuel` is more than the longest path without a
  repeated node.
-/

import OpenFGA.Tuple

namespace OpenFGA

/-- Labels of operator nodes. -/
inductive Operator where
  | union
  | intersection
  | exclusion
deriving DecidableEq, Repr

/-- The unique label of a node together with its node type. -/
inductive NodeKey where
  /-- `type` -/
  | specificType (t : String)
  /-- `type:*` -/
  | specificTypeWildcard (t : String)
  /-- `type#relation` -/
  | specificTypeAndRelation (t r : String)
  | operatorNode (op : Operator) (id : String)
  | logicalDirectGrouping (id : String)
  | logicalTTUGrouping (id : String)
deriving DecidableEq, Repr

inductive EdgeType where
  | directEdge
  | rewriteEdge
  | ttuEdge
  | computedEdge
  | directLogicalEdge
  | ttuLogicalEdge
deriving DecidableEq, Repr

/-- A node of the weighted graph. -/
structure Node where
  key : NodeKey
  /-- `GetRecursiveRelation`, `none` for the empty string. -/
  recursiveRelation : Option NodeKey
  tupleCycle : Bool
  wildcards : List UserType
  weights : List (UserType × Nat)
deriving DecidableEq, Repr

/-- An edge of the weighted graph. -/
structure Edge where
  edgeType : EdgeType
  source : NodeKey
  target : NodeKey
  /-- The type and relation whose definition the edge belongs to. -/
  relationDefinition : String × String
  /-- The type and relation of the tupleset of a TTU edge. -/
  tuplesetRelation : Option (String × String)
  conditions : List String
  recursiveRelation : Option NodeKey
  tupleCycle : Bool
  wildcards : List UserType
  weights : List (UserType × Nat)
deriving DecidableEq, Repr

namespace Edge

/-- `GetWeight`. -/
def weight (e : Edge) (ut : UserType) : Option Nat := e.weights.lookup ut

/-- The edge is recursive or part of a tuple cycle: `worker.IsCyclical`, and the
    test of `ResolveEdge` for passing the visited map on. -/
def isCyclical (e : Edge) : Bool := e.tupleCycle || e.recursiveRelation.isSome

/-- The edges `FlattenNode` replaces by the edges of their target. -/
def canFlatten (e : Edge) : Bool :=
  match e.edgeType with
  | .computedEdge | .directLogicalEdge | .ttuLogicalEdge => true
  | .rewriteEdge =>
    match e.target with
    | .specificTypeAndRelation _ _ => true
    | .operatorNode .union _ => true
    | _ => false
  | _ => false

/-- The edge has a path to the user type, and to its wildcard when the request
    is for the wildcard. -/
def reaches (e : Edge) (ut : UserType) (wildcardRequest : Bool) : Bool :=
  (e.weight ut).isSome && (!wildcardRequest || e.wildcards.contains ut)

end Edge

/-- A weighted authorization model graph. -/
structure Graph where
  nodes : List Node
  edges : List (NodeKey × List Edge)
deriving DecidableEq, Repr

namespace Graph

variable (g : Graph)

def getNodeByID (k : NodeKey) : Option Node := g.nodes.find? fun n => n.key == k

def getEdgesFromNode (k : NodeKey) : Option (List Edge) := g.edges.lookup k

/-- The edges of a node, none when the node has no entry. -/
def edgesFrom (k : NodeKey) : List Edge := (g.getEdgesFromNode k).getD []

/-- `GetDirectEdgeFromNodeForUserType`: the edge of a tupleset relation that
    points to the type `t`. -/
def getDirectEdgeFromNodeForUserType (objectRelation : String × String) (t : String) :
    Option Edge :=
  (g.getEdgesFromNode (.specificTypeAndRelation objectRelation.1 objectRelation.2)).bind
    fun es => es.find? fun e => e.target == .specificType t

/-- More than the number of nodes on any path that repeats none. -/
def fuel : Nat := g.nodes.length + 1

/-- `FlattenNode`, with fuel. -/
def flattenAux (ut : UserType) (wildcardRequest recursivePath : Bool) :
    Nat → NodeKey → Option (List Edge)
  | 0, _ => none
  | fuel + 1, k => do
      let es ← g.getEdgesFromNode k
      let parts ← es.mapM fun e =>
        if e.reaches ut wildcardRequest then
          if e.canFlatten then flattenAux ut wildcardRequest recursivePath fuel e.target
          else if !recursivePath || e.recursiveRelation.isNone then some [e]
          else some []
        else some [] -- no relation to the terminal type
      return parts.flatten

def flattenNode (k : NodeKey) (ut : UserType) (wildcardRequest recursivePath : Bool) :
    Option (List Edge) :=
  g.flattenAux ut wildcardRequest recursivePath g.fuel k

/-- One edge of the loop of `canApplyRecursiveOptimization`; `rec` is the answer
    for the edge's target. -/
def recursionStep (recursiveRelation : NodeKey) (ut : UserType)
    (rec : Option Edge × Bool) (acc : Option Edge × Bool) (e : Edge) : Option Edge × Bool :=
  if e.recursiveRelation ≠ some recursiveRelation then
    match e.weight ut with
    | some w => if 1 < w then (acc.1, false) else acc
    | none => acc
  else if e.edgeType = .directEdge ∨ e.edgeType = .ttuEdge then (some e, acc.2)
  else (rec.1.orElse fun _ => acc.1, acc.2 && rec.2)

/-- `canApplyRecursiveOptimization`, with fuel. -/
def canApplyRecursiveOptimization (recursiveRelation : NodeKey) (ut : UserType) :
    Nat → NodeKey → Option Edge × Bool
  | 0, _ => (none, false)
  | fuel + 1, k =>
    match g.getEdgesFromNode k, ut with
    | none, _ => (none, false)
    | some _, .userset _ _ => (none, false)
    | some es, .type _ =>
      es.foldl (fun acc e => recursionStep recursiveRelation ut
        (canApplyRecursiveOptimization recursiveRelation ut fuel e.target) acc e) (none, true)

def canApplyRecursion (n : Node) (ut : UserType) (newStrategy : Bool) : Option Edge × Bool :=
  match ut with
  | .userset _ _ => (none, false)
  | .type _ =>
    if n.recursiveRelation = some n.key ∧ n.tupleCycle = false then
      let (e, ok) := g.canApplyRecursiveOptimization n.key ut g.fuel n.key
      (e, ok && newStrategy)
    else (none, false)

end Graph

end OpenFGA
