/-
  The breadth-first search of the Recursive strategy (`internal/check/recursive.go`):
  `recursiveMatch`, `recursiveMatchResolver` and `buildTupleMapperForID`.

  `idsFromUser` are the objects at which the user holds the relation without
  recursion, `idsFromObject` the first usersets below the requested object.  The
  search follows recursive tuples from the latter until it meets one of the
  former.  Goroutines come from an `errgroup` with a limit: a resolver that gets
  no slot for a child runs it on its own stack, so the model keeps one stack of
  frames per goroutine.  The consumer of the response channel starts only after
  the launch loop, which itself waits for slots.

  Two behaviours of the source decide when the answer is right.

  * The iterator's filters run in order: the unique filter marks the id of a tuple
    as visited, then the condition filter may reject the tuple.  A rejected tuple
    has then taken the id away from later tuples, and one whose condition is true
    is dropped (`dropsPassing`).
  * A match is sent while the launch loop may still be running.  When the response
    channel is full nobody receives, and a goroutine that waits to send keeps its
    slot (`overfills`).

  Every run without these two kinds of steps is a correct search that ends with
  its answer (`recursiveMatch_correct`).
-/

import OpenFGA.Lib.Run
import OpenFGA.Lib.Chan
import OpenFGA.Lib.Stacks
import OpenFGA.Storage
import OpenFGA.Graph
import OpenFGA.Check.Response

namespace OpenFGA.Check
open List

inductive RecursiveType where
  | userset
  | ttu
deriving DecidableEq, Repr

/-- `storage.MapTTU`: the user as it stands. -/
def mapTTU (t : TupleKey) : Object :=
  match t.user with
  | .object o => o
  | .wildcard type => ⟨type, "*"⟩
  | .userset o r => ⟨o.type, o.id ++ "#" ++ r⟩

/-- `storage.MapUserset`: the object of a userset.  It answers an error for a plain
    object, which `ReadUsersetTuples` never yields. -/
def mapUserset (t : TupleKey) : Object :=
  match t.user with
  | .object o => o
  | .wildcard type => ⟨type, "*"⟩
  | .userset o _ => o

/-- What one call of `recursiveMatch` works on. -/
structure MatchInput where
  /-- What `buildTupleMapperForID` iterates over, before its filters. -/
  tuplesForID : Object → List TupleKey
  /-- `uniqueKeyFunc`, and the mapper of the iterator. -/
  key : TupleKey → Object
  /-- The condition filter. -/
  passes : TupleKey → Except Err Bool
  idsFromUser : List Object
  concurrencyLimit : Nat
  /-- The ids that tuples lead to. -/
  ids : List Object
  key_mem : ∀ id, ∀ t ∈ tuplesForID id, key t ∈ ids

/-- The tuples `buildTupleMapperForID` reads for `id`: contextual ones first. -/
def tuplesForID (store : Store) (env : RequestEnv) (edge : Edge) (id : Object) :
    RecursiveType → List TupleKey
  | .ttu =>
    match edge.source, edge.target with
    | .specificTypeAndRelation _ relation, .specificType subjectType =>
      env.ctxTuplesByObjectID id relation (.type subjectType) ++
        store.read id relation subjectType edge.conditions
    | _, _ => []
  | .userset =>
    match edge.target with
    | .specificTypeAndRelation userObjectType userRelation =>
      env.ctxTuplesByObjectID id userRelation (.userset userObjectType userRelation) ++
        store.readUsersetTuples id userRelation userObjectType userRelation edge.conditions
    | _ => []

lemma mem_of_mem_tuplesForID {store env edge id type t}
    (h : t ∈ tuplesForID store env edge id type) :
    t ∈ env.contextualTuples ++ store.tuples := by
  have hctx : ∀ {r ut}, t ∈ env.ctxTuplesByObjectID id r ut → t ∈ env.contextualTuples :=
    fun h => (mem_filter.mp (mem_of_mem_insertAllSorted h)).1
  refine mem_append.mpr ?_
  cases type <;> simp only [tuplesForID] at h <;> split at h
  · exact (mem_append.mp h).imp hctx fun h => (mem_filter.mp h).1
  · cases h
  · exact (mem_append.mp h).imp hctx fun h => (mem_filter.mp h).1
  · cases h

/-- The filters and the mapper of `buildTupleMapperForID`. -/
def matchInput (store : Store) (env : RequestEnv) (eval : Evaluation) (edge : Edge)
    (type : RecursiveType) (idsFromUser : List Object) (concurrencyLimit : Nat) : MatchInput :=
  let key := match type with
    | .ttu => mapTTU
    | .userset => mapUserset
  { tuplesForID := fun id => tuplesForID store env edge id type
    key
    passes := fun t =>
      if hasConditions edge.conditions then evaluateCondition eval edge.conditions t else .ok true
    idsFromUser
    concurrencyLimit
    ids := (env.contextualTuples ++ store.tuples).map key
    key_mem := fun _ _ ht => mem_map_of_mem (mem_of_mem_tuplesForID ht) }

/-! ## The goroutines of a running search -/

/-- Where a resolver stands: about to call `iter.Next`, holding the id it answered,
    or sending a message. -/
inductive Mode where
  | reading
  | yielded (id : Object)
  | sending (msg : ResponseMsg)
deriving DecidableEq, Repr

/-- A call of `recursiveMatchResolver`, with the state of its filtered iterator. -/
structure Frame where
  rest : List TupleKey
  onceValid : Bool
  lastErr : Option Err
  mode : Mode
deriving DecidableEq, Repr

/-- The call holds a message to send. -/
def Frame.isSending (f : Frame) : Bool :=
  match f.mode with
  | .sending _ => true
  | _ => false

section
variable (ts : List TupleKey) (b : Bool) (e : Option Err)

@[simp] lemma Frame.isSending_reading :
    (mk ts b e .reading).isSending = false := rfl

@[simp] lemma Frame.isSending_yielded
    (id : Object) : (mk ts b e (.yielded id)).isSending = false := rfl

@[simp] lemma Frame.isSending_sending
    (msg : ResponseMsg) : (mk ts b e (.sending msg)).isSending = true := rfl

end

/-- The state of a running `recursiveMatch`. -/
structure Match where
  /-- The ids the launch loop has not come to. -/
  toLaunch : List Object
  /-- The id for which the launch loop waits for a slot in `pool.Go`. -/
  waiting : Option Object
  visited : List Object
  /-- The visited ids that the search goes on from: those of the launch loop, and those
      whose first tuple passed the condition filter.  The code has no such record. -/
  explored : List Object
  /-- One stack per goroutine, innermost call first. -/
  goroutines : List (List Frame)
  out : Chan ResponseMsg
  err : Option Err
  ret : Option (Response × Option Err)
deriving Repr

namespace MatchInput

variable (q : MatchInput)

/-- The call of `recursiveMatchResolver` for `id`. -/
def frame (id : Object) : Frame := ⟨q.tuplesForID id, false, none, .reading⟩

/-- The condition filter lets `t` pass. -/
def accepts (t : TupleKey) : Bool :=
  match q.passes t with
  | .ok b => b
  | .error _ => false

lemma accepts_iff {t : TupleKey} : q.accepts t = true ↔ q.passes t = .ok true := by
  unfold accepts
  split <;> simp_all

/-- The frame after the condition filter has seen `t`. -/
def afterFilter (f : Frame) (t : TupleKey) (rest : List TupleKey) : Frame :=
  match q.passes t with
  | .error e => { f with rest, lastErr := some e }
  | .ok false => { f with rest }
  | .ok true => { f with rest, onceValid := true, mode := .yielded (q.key t) }

end MatchInput

/-- The message of a match. -/
def allowedMsg : ResponseMsg := ⟨some ⟨true⟩, none⟩

namespace Match

def start (q : MatchInput) (idsFromObject : List Object) : Match :=
  ⟨idsFromObject, none, [], [], [], Chan.make q.concurrencyLimit, none, none⟩

/-- The launch loop has not ended. -/
def launching (s : Match) : Prop := s.toLaunch ≠ [] ∨ s.waiting ≠ none

instance (s : Match) : Decidable s.launching := inferInstanceAs (Decidable (_ ∨ _))

/-- The slots of the pool in use. -/
def active (s : Match) : Nat := s.goroutines.countP (· ≠ [])

def setStack (s : Match) (k : Nat) (stack : List Frame) : Match :=
  { s with goroutines := s.goroutines.set k stack }

/-- Goroutine `k` goes on with its innermost call. -/
def resume (q : MatchInput) (s : Match) (k : Nat) : Option Match :=
  match s.goroutines[k]? with
  | some (f :: fs) =>
    match f.mode with
    | .reading =>
      match f.rest with
      | [] =>
        match f.onceValid, f.lastErr with
        | false, some e => some (s.setStack k ({ f with mode := .sending ⟨none, some e⟩ } :: fs))
        | _, _ => some (s.setStack k fs)
      | t :: rest =>
        if q.key t ∈ s.visited then some (s.setStack k ({ f with rest } :: fs))
        else
          let explored := if q.accepts t then q.key t :: s.explored else s.explored
          some ({ s with visited := q.key t :: s.visited, explored }.setStack k
            (q.afterFilter f t rest :: fs))
    | .yielded id =>
      if id ∈ q.idsFromUser then
        some (s.setStack k ({ f with mode := .sending allowedMsg } :: fs))
      else if s.active < q.concurrencyLimit then
        -- `pool.TryGo` found a slot
        some { s with goroutines :=
          s.goroutines.set k ({ f with mode := .reading } :: fs) ++ [[q.frame id]] }
      else some (s.setStack k (q.frame id :: { f with mode := .reading } :: fs))
    | .sending msg => (s.out.send msg).map fun out => { s with out }.setStack k fs
  | _ => none

/-- The consumer receives from the response channel. -/
def receive (s : Match) : Option Match :=
  match s.out.recv with
  | none => none
  | some (none, _) => some { s with ret := some (⟨false⟩, s.err) }
  | some (some msg, out) =>
    match msg.err with
    | some e => some { s with out, err := some e }
    | none =>
      match msg.res with
      | some res => some { s with out, ret := if res.allowed then some (res, none) else none }
      | none => some { s with out }

inductive Act where
  /-- The launch loop marks the next id as visited. -/
  | store
  /-- `pool.Go` gets a slot. -/
  | launch
  | resume (k : Nat)
  /-- `pool.Wait` has returned; `close(responsesChan)`. -/
  | closeOut
  | receive
deriving DecidableEq, Repr

/-- One step; the search ends when `recursiveMatch` returns and cancels the rest. -/
def step (q : MatchInput) (s : Match) (a : Act) : Option Match :=
  if s.ret = none then
    match a with
    | .store =>
      match s.toLaunch, s.waiting with
      | id :: ids, none =>
        some { s with toLaunch := ids, waiting := some id, visited := id :: s.visited,
                      explored := id :: s.explored }
      | _, _ => none
    | .launch =>
      match s.waiting with
      | some id =>
        if s.active < q.concurrencyLimit then
          some { s with waiting := none, goroutines := s.goroutines ++ [[q.frame id]] }
        else none
      | none => none
    | .resume k => s.resume q k
    | .closeOut =>
      if ¬ s.launching ∧ s.active = 0 ∧ s.out.closed = false then
        some { s with out := s.out.close }
      else none
    | .receive => if ¬ s.launching then s.receive else none
  else none

/-- The innermost call of the goroutine that `a` resumes. -/
def top (s : Match) (a : Act) : Option Frame :=
  match a with
  | .resume k => s.goroutines[k]?.bind head?
  | _ => none

/-- The search goes on from `id`, or will when the launch loop comes to it. -/
def Claimed (s : Match) (id : Object) : Prop := id ∈ s.toLaunch ∨ id ∈ s.explored

instance (s : Match) (id : Object) : Decidable (s.Claimed id) :=
  inferInstanceAs (Decidable (_ ∨ _))

/-- A tuple whose condition is true is dropped for its visited id, from which the
    search does not go on: a tuple whose condition is false was the first to present it. -/
def dropsPassing (q : MatchInput) (s : Match) (a : Act) : Bool :=
  match s.top a with
  | some f =>
    match f.mode, f.rest with
    | .reading, t :: _ => q.key t ∈ s.visited && q.accepts t && !decide (s.Claimed (q.key t))
    | _, _ => false
  | none => false

/-- The calls that hold a message to send. -/
def sendingCount (s : Match) : Nat := s.goroutines.flatten.countP (·.isSending)

/-- A match is found while the launch loop runs and the response channel has no
    room for it. -/
def overfills (q : MatchInput) (s : Match) (a : Act) : Bool :=
  match s.top a with
  | some f =>
    match f.mode with
    | .yielded id => id ∈ q.idsFromUser && decide s.launching &&
        decide (s.out.cap ≤ s.out.buf.length + s.sendingCount)
    | _ => false
  | none => false

end Match

/-- `recursiveMatch` up to its launch loop; `idsFromObject` in the order in which the
    map is ranged over. -/
def recursiveMatch (g : Graph) (store : Store) (env : RequestEnv) (eval : Evaluation)
    (recursiveEdge : Edge) (type : RecursiveType) (concurrencyLimit : Nat)
    (idsFromUser idsFromObject : List Object) : Except Err (MatchInput × Match) :=
  let run := fun edge =>
    let q := matchInput store env eval edge type idsFromUser concurrencyLimit
    (q, Match.start q idsFromObject)
  match type with
  | .userset => .ok (run recursiveEdge)
  | .ttu =>
    match recursiveEdge.target, recursiveEdge.tuplesetRelation with
    | .specificTypeAndRelation subjectType _, some tupleset =>
      match g.getDirectEdgeFromNodeForUserType tupleset subjectType with
      | some edge => .ok (run edge)
      | none => .error .graphError
    | _, _ => .error .graphError

/-! ## The bootstrap in `execute` -/

/-- The loop of `execute` before it calls `recursiveMatch`.  A message of the left
    channel is an error or an iterator of ids that may end in an error; the right
    channel passes ids and errors one by one. -/
structure Bootstrap where
  left : List (Except Err (List Object × Option Err))
  right : List (Except Err Object)
  leftNil : Bool
  rightNil : Bool
  idsFromUser : List Object
  idsFromObject : List Object
  err : Option Err
  ret : Option (Response × Option Err)
deriving Repr

namespace Bootstrap

def start (left : List (Except Err (List Object × Option Err))) (right : List (Except Err Object)) :
    Bootstrap := ⟨left, right, false, false, [], [], none, none⟩

/-- Go through the ids of one left iterator. -/
def addLeft (s : Bootstrap) (endErr : Option Err) : List Object → Bootstrap
  | [] =>
    match endErr with
    | some e => if e.isCancellation then s else { s with err := some e }
    | none => s
  | t :: ts =>
    if t ∈ s.idsFromObject then { s with ret := some (⟨true⟩, none) }
    else addLeft { s with idsFromUser := t :: s.idsFromUser } endErr ts

def onLeft (s : Bootstrap) : Bootstrap :=
  match s.left with
  | [] =>
    let s := { s with leftNil := true }
    if s.idsFromUser = [] then { s with ret := some (⟨false⟩, s.err) } else s
  | .error e :: left =>
    let s := { s with left, err := some e }
    if s.idsFromUser = [] then { s with ret := some (⟨false⟩, s.err) } else s
  | .ok (ids, endErr) :: left => addLeft { s with left } endErr ids

def onRight (s : Bootstrap) : Bootstrap :=
  match s.right with
  | [] =>
    let s := { s with rightNil := true }
    if s.idsFromObject = [] then { s with ret := some (⟨false⟩, s.err) } else s
  | .error e :: right => { s with right, err := some e }
  | .ok t :: right =>
    let s := { s with right }
    if t ∈ s.idsFromUser then { s with ret := some (⟨true⟩, none) }
    else { s with idsFromObject := t :: s.idsFromObject }

inductive Act where
  | left
  | right
deriving DecidableEq, Repr

def step (s : Bootstrap) : Act → Option Bootstrap
  | .left => if s.ret = none ∧ s.leftNil = false then some s.onLeft else none
  | .right => if s.ret = none ∧ s.rightNil = false then some s.onRight else none

/-- Both channels are drained and nothing was returned: `recursiveMatch` is called. -/
def Ready (s : Bootstrap) : Prop := s.ret = none ∧ s.leftNil = true ∧ s.rightNil = true

/-- While the loop runs no id has come from both sides. -/
def Disjoint (s : Bootstrap) : Prop := s.ret = none → ∀ o ∈ s.idsFromObject, o ∉ s.idsFromUser

lemma Disjoint.addLeft {s : Bootstrap} (h : s.Disjoint) (endErr : Option Err)
    (ids : List Object) : (s.addLeft endErr ids).Disjoint := by
  induction ids generalizing s with
  | nil =>
    unfold Bootstrap.addLeft
    split
    · split
      · exact h
      · exact h
    · exact h
  | cons t ts ih =>
    unfold Bootstrap.addLeft
    split
    · simp [Disjoint]
    next ht =>
      refine ih fun hret o ho hmem => ?_
      rcases mem_cons.mp hmem with rfl | hmem
      · exact ht ho
      · exact h hret o ho hmem

theorem Disjoint.step {s s' : Bootstrap} {a} (h : s.Disjoint) (hs : s.step a = some s') :
    s'.Disjoint := by
  cases a with
  | left =>
    simp only [Bootstrap.step] at hs
    split at hs <;> cases hs
    unfold onLeft
    split
    · simp only
      split
      · simp [Disjoint]
      · exact h
    · simp only
      split
      · simp [Disjoint]
      · exact h
    next left _ => exact addLeft (s := { s with left }) h _ _
  | right =>
    simp only [Bootstrap.step] at hs
    split at hs <;> cases hs
    unfold onRight
    split
    · simp only
      split
      · simp [Disjoint]
      · exact h
    · exact h
    · simp only
      split
      · simp [Disjoint]
      next ht =>
        intro hret o ho
        rcases mem_cons.mp ho with rfl | ho
        · exact ht
        · exact h hret o ho

/-- `recursiveMatch` is called with disjoint sets of ids. -/
lemma disjoint_of_run {left right} {s : Bootstrap} {acts}
    (hrun : Lts.run step (start left right) acts = some s) (hready : s.Ready) :
    ∀ o ∈ s.idsFromObject, o ∉ s.idsFromUser :=
  Lts.run_invariant' (I := Disjoint) (fun _ _ _ hI hs => hI.step hs) (by simp [Disjoint, start])
    hrun hready.1

end Bootstrap

end OpenFGA.Check
