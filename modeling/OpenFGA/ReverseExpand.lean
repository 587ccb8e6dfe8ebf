/-
  The reverse expansion without the weighted graph
  (`pkg/server/commands/reverseexpand/reverse_expand.go`).

  `execute` follows the relationship edges from a user towards the requested relation.  Every
  userset it finds is expanded again, in a call of its own that knows the edge it came along.  The
  calls share three things: the usersets that were visited along each edge, the objects that were
  candidates, and the channel of results.

  The calls that are under way are a list of tasks, and any of them may go on.  The limit of the
  pools and the order in which the loops start their calls only rule out some of these
  schedules.  An error cancels the contexts of the pools; a task may then give up, and a
  result may be dropped.

  Throttling and the metadata of the resolution are left out.  The context of the request is not
  cancelled.
-/

import OpenFGA.Lib.Frontier
import OpenFGA.ListObjects
import OpenFGA.RelationshipGraph
import OpenFGA.Storage

namespace OpenFGA.ReverseExpand

open ListObjects (ResultStatus)
open Validation (RelationReference)
open List

/-! ## The query -/

/-- `ReverseExpandQuery` with the request and the tuples that it reads, contextual ones
    among them. -/
structure Query where
  typesystem : TypeSystem
  tuples : List TupleKey
  evaluation : Evaluation
  resolveNodeLimit : Nat
  objectType : String
  relation : String
  user : User
  /-- `ValidateUser`. -/
  user_defined : ∀ o r, user = .userset o r → typesystem.defines o.type r = true

/-- `ReverseExpandRequest`, and the arguments of `execute` that differ between calls. -/
structure Request where
  user : User
  edge : Option RelationshipEdge
  intersectionOrExclusionInPreviousEdges : Bool
  /-- The resolution depth in the context. -/
  depth : Option Nat

/-- `ReverseExpandResult`. -/
structure Result where
  object : Object
  status : ResultStatus
deriving DecidableEq, Repr

inductive Failure where
  | resolutionDepthExceeded
  | relation (e : GetRelationError)
  | datastore (e : Err)
  | condition (e : Err)
  /-- The panic of an edge that the user cannot take. -/
  | unexpectedSource
  | cancelled
deriving DecidableEq, Repr

def sourceUserRef : User → RelationReference
  | .object o => ⟨o.type, .object, ""⟩
  | .wildcard t => ⟨t, .wildcard, ""⟩
  | .userset o r => ⟨o.type, .userset r, ""⟩

/-- `sourceUserObj`, which stays empty for a typed wildcard. -/
def sourceUserObj : User → Object
  | .object o => o
  | .wildcard _ => ⟨"", ""⟩
  | .userset o _ => o

/-- The key of the visited usersets.  `String` does not print the mark of the edge. -/
def visitedKey (o : Object) (e : RelationshipEdge) : Object × RelationshipEdge :=
  (o, { e with targetReferenceInvolvesIntersectionOrExclusion := false })

/-! ## Following an edge -/

/-- Where a goroutine of the expansion is. -/
inductive Task where
  | execute (req : Request)
  /-- Before the object is looked up among the candidates. -/
  | trySendCandidate (req : Request) (o : Object)
  /-- Inside the select of `TrySendThroughChannel`. -/
  | send (req : Request) (o : Object)
  | loopOnEdges (req : Request)
  | followEdge (req : Request) (e : RelationshipEdge)

namespace Query

variable (q : Query)

def targetObjRef : String × String := (q.objectType, q.relation)

def shouldCheckPublicAssignable (target : String × String) : User → Bool
  | .userset _ _ => false
  | user => q.typesystem.isPubliclyAssignable target user.type

/-- `userFilter` of `readTuplesAndExecute`. -/
def userFilter (e : RelationshipEdge) (user : User) : Option (List User) :=
  match e.type with
  | .directEdge =>
    some ((if q.shouldCheckPublicAssignable e.targetReference user then [.wildcard user.type]
      else []) ++
      match user with
      | .object o => [.object o]
      | .wildcard _ => []
      | .userset o r => [.userset o r])
  | .tupleToUsersetEdge =>
    match user with
    | .userset o _ => some [.object o]
    | _ => none
  | .computedUsersetEdge => none

/-- `relationFilter` of `readTuplesAndExecute`. -/
def relationFilter (e : RelationshipEdge) : String :=
  match e.type with
  | .tupleToUsersetEdge => e.tuplesetRelation
  | _ => e.targetReference.2

/-- `newRelation` of `readTuplesAndExecute`. -/
def newRelation (e : RelationshipEdge) (tk : TupleKey) : String :=
  match e.type with
  | .directEdge => tk.relation
  | _ => e.targetReference.2

def readStartingWithUser (objectType relation : String) (users : List User) : List TupleKey :=
  q.tuples.filter fun t => t.object.type = objectType ∧ t.relation = relation ∧ t.user ∈ users

/-- The loop of `readTuplesAndExecute` over the tuples that were found. -/
def dispatchTuples (req : Request) (e : RelationshipEdge) : List TupleKey → List Failure × List Task
  | [] => ([], [])
  | tk :: tks =>
    let rest := dispatchTuples req e tks
    if !q.typesystem.validateTupleForRead tk then rest
    else
      match evaluateTupleCondition q.evaluation tk with
      | .error err => (.condition err :: rest.1, rest.2)
      | .ok false => rest
      | .ok true =>
        (rest.1, .execute { req with user := .userset tk.object (newRelation e tk) } :: rest.2)

/-- `readTuplesAndExecute`.  The read may fail after some tuples. -/
def readTuplesAndExecute (req : Request) (e : RelationshipEdge) (failure : Option (Nat × Err)) :
    List Failure × List Task :=
  match q.userFilter e req.user with
  | none => ([.unexpectedSource], [])
  | some users =>
    let found := q.readStartingWithUser e.targetReference.1 (relationFilter e) users
    match failure with
    | none => q.dispatchTuples req e found
    | some (n, err) =>
      let dispatched := q.dispatchTuples req e (found.take n)
      (dispatched.1 ++ [.datastore err], dispatched.2)

/-- The body of the loop over the edges, as far as it depends on the type of the edge. -/
def followEdge (req : Request) (e : RelationshipEdge) : List Failure × List Task :=
  match e.type with
  | .computedUsersetEdge =>
    ([], [.execute { req with user := .userset (sourceUserObj req.user) e.targetReference.2 }])
  | _ => q.readTuplesAndExecute req e none

/-- The request that `execute` makes for an edge. -/
def edgeRequest (req : Request) (e : RelationshipEdge) : Request :=
  { req with
    edge := some e
    intersectionOrExclusionInPreviousEdges := req.intersectionOrExclusionInPreviousEdges ||
      e.targetReferenceInvolvesIntersectionOrExclusion }

end Query

/-! ## Steps -/

/-- What the calls share, and the errors they have returned. -/
structure Shared where
  visitedUsersets : List (Object × RelationshipEdge)
  candidateObjects : List Object
  results : List Result
  errs : List Failure

structure State extends Shared where
  tasks : List Task

/-- What happens to a task. -/
inductive Act where
  | go
  /-- The read of the task fails after some tuples. -/
  | readFails (n : Nat) (e : Err)
  /-- The task finds that its context was cancelled. -/
  | cancelled
deriving DecidableEq, Repr

/-- The status of a candidate. -/
def Request.status (req : Request) : ResultStatus :=
  if req.intersectionOrExclusionInPreviousEdges then .requiresFurtherEval else .noFurtherEval

def Shared.fail (sh : Shared) (es : List Failure) : Shared := { sh with errs := es ++ sh.errs }

namespace Query

variable (q : Query)

/-- The depth of a call, unless the limit is exceeded. -/
def enterDepth : Option Nat → Option Nat
  | none => some 0
  | some depth => if depth ≥ q.resolveNodeLimit then none else some (depth + 1)

/-- The entry of the visited usersets that a call looks up. -/
def key (req : Request) : Option (Object × RelationshipEdge) :=
  match req.user, req.edge with
  | .userset o _, some e => some (visitedKey o e)
  | _, _ => none

/-- A call that goes on after the visited usersets: a userset of the target is a candidate. -/
def entered (req : Request) : Task :=
  match req.user with
  | .userset o r =>
    if r = q.relation ∧ o.type = q.objectType then .trySendCandidate req o else .loopOnEdges req
  | _ => .loopOnEdges req

/-- `execute` up to the loop over the edges. -/
def execute (sh : Shared) (req : Request) : Shared × List Task :=
  match q.enterDepth req.depth with
  | none => (sh.fail [.resolutionDepthExceeded], [])
  | some depth =>
    match key req with
    | none => (sh, [q.entered { req with depth := some depth }])
    | some k =>
      if k ∈ sh.visitedUsersets then (sh, [])
      else ({ sh with visitedUsersets := k :: sh.visitedUsersets },
        [q.entered { req with depth := some depth }])

/-- A task goes on. -/
def advance (sh : Shared) : Task → Shared × List Task
  | .execute req => q.execute sh req
  | .trySendCandidate req o =>
    if o ∈ sh.candidateObjects then (sh, [.loopOnEdges req])
    else ({ sh with candidateObjects := o :: sh.candidateObjects }, [.send req o])
  | .send req o => ({ sh with results := sh.results ++ [⟨o, req.status⟩] }, [.loopOnEdges req])
  | .loopOnEdges req =>
    match q.typesystem.getPrunedRelationshipEdges q.targetObjRef (sourceUserRef req.user) with
    | .error e => (sh.fail [.relation e], [])
    | .ok edges => (sh, edges.map fun e => .followEdge (edgeRequest req e) e)
  | .followEdge req e => (sh.fail (q.followEdge req e).1, (q.followEdge req e).2)

/-- What an action makes of a task and of what is shared. -/
def act (sh : Shared) (t : Task) : Act → Option (Shared × List Task)
  | .go => some (q.advance sh t)
  | .readFails n err =>
    match t with
    | .followEdge req e =>
      if e.type = .computedUsersetEdge then none
      else
        let read := q.readTuplesAndExecute req e (some (n, err))
        some (sh.fail read.1, read.2)
    | _ => none
  | .cancelled =>
    if sh.errs = [] then none
    else
      match t with
      | .send req _ => some (sh, [.loopOnEdges req])
      | _ => some (sh.fail [.cancelled], [])

/-- One step of the task at a position. -/
def step (s : State) (a : Nat × Act) : Option State :=
  (s.tasks[a.1]?).bind fun t => (q.act s.toShared t a.2).map fun next =>
    ⟨next.1, Tasks.become s.tasks a.1 next.2⟩

/-- `Execute`. -/
def start : State := ⟨⟨[], [], [], []⟩, [.execute ⟨q.user, none, false, none⟩]⟩

end Query

open Query

/-- `Execute` returned nil. -/
def State.succeeded (s : State) : Bool := s.tasks.isEmpty && s.errs.isEmpty

/-! ## What a step can do -/

/-- What a task can do, with the tasks that it becomes. -/
inductive Moves (q : Query) (sh : Shared) : Task → Shared → List Task → Prop where
  | exceeded {req} : Moves q sh (.execute req) (sh.fail [.resolutionDepthExceeded]) []
  | again {req k} : key req = some k → k ∈ sh.visitedUsersets → Moves q sh (.execute req) sh []
  | enter {req k depth} : q.enterDepth req.depth = some depth → key req = some k →
      k ∉ sh.visitedUsersets →
      Moves q sh (.execute req) { sh with visitedUsersets := k :: sh.visitedUsersets }
        [q.entered { req with depth := some depth }]
  | enterFirst {req depth} : q.enterDepth req.depth = some depth → key req = none →
      Moves q sh (.execute req) sh [q.entered { req with depth := some depth }]
  | known {req o} : o ∈ sh.candidateObjects →
      Moves q sh (.trySendCandidate req o) sh [.loopOnEdges req]
  | candidate {req o} : o ∉ sh.candidateObjects → Moves q sh (.trySendCandidate req o)
      { sh with candidateObjects := o :: sh.candidateObjects } [.send req o]
  | sent {req o} : Moves q sh (.send req o) { sh with results := sh.results ++ [⟨o, req.status⟩] }
      [.loopOnEdges req]
  | undefined {req e} : Moves q sh (.loopOnEdges req) (sh.fail [.relation e]) []
  | edges {req edges} :
      q.typesystem.getPrunedRelationshipEdges q.targetObjRef (sourceUserRef req.user) = .ok edges →
      Moves q sh (.loopOnEdges req) sh (edges.map fun e => .followEdge (edgeRequest req e) e)
  | follow {req e} : Moves q sh (.followEdge req e) (sh.fail (q.followEdge req e).1)
      (q.followEdge req e).2
  | readFails {req e n err} : e.type ≠ .computedUsersetEdge → Moves q sh (.followEdge req e)
      (sh.fail (q.readTuplesAndExecute req e (some (n, err))).1)
      (q.readTuplesAndExecute req e (some (n, err))).2
  | dropped {req o} : sh.errs ≠ [] → Moves q sh (.send req o) sh [.loopOnEdges req]
  | cancelled {t} : sh.errs ≠ [] → Moves q sh t (sh.fail [.cancelled]) []

section
variable {q : Query} {s s' : State} {sh sh' : Shared} {a : Act} {t t' : Task} {new : List Task}
  {req : Request} {e : RelationshipEdge}

lemma execute_moves : Moves q sh (.execute req) (q.execute sh req).1 (q.execute sh req).2 := by
  cases hdepth : q.enterDepth req.depth with
  | none =>
    simp only [execute, hdepth]
    exact .exceeded
  | some depth =>
    cases hkey : key req with
    | none =>
      simp only [execute, hdepth, hkey]
      exact .enterFirst hdepth hkey
    | some k =>
      by_cases hk : k ∈ sh.visitedUsersets
      · simp only [execute, hdepth, hkey, if_pos hk]
        exact .again hkey hk
      · simp only [execute, hdepth, hkey, if_neg hk]
        exact .enter hdepth hkey hk

lemma advance_moves : Moves q sh t (q.advance sh t).1 (q.advance sh t).2 := by
  cases t with
  | execute req => exact execute_moves
  | trySendCandidate req o =>
    by_cases ho : o ∈ sh.candidateObjects
    · simp only [advance, if_pos ho]
      exact .known ho
    · simp only [advance, if_neg ho]
      exact .candidate ho
  | send req o => exact .sent
  | loopOnEdges req =>
    cases hedges : q.typesystem.getPrunedRelationshipEdges q.targetObjRef
      (sourceUserRef req.user) with
    | error e =>
      simp only [advance, hedges]
      exact .undefined
    | ok edges =>
      simp only [advance, hedges]
      exact .edges hedges
  | followEdge req e => exact .follow

lemma act_moves (h : q.act sh t a = some (sh', new)) : Moves q sh t sh' new := by
  cases a with
  | go =>
    obtain ⟨rfl, rfl⟩ := Prod.mk.inj (Option.some.inj h)
    exact advance_moves
  | readFails n err =>
    cases t with
    | followEdge req e =>
      simp only [act] at h
      split at h
      · cases h
      · next hne =>
        obtain ⟨rfl, rfl⟩ := Prod.mk.inj (Option.some.inj h)
        exact .readFails hne
    | execute _ => cases h
    | trySendCandidate _ _ => cases h
    | send _ _ => cases h
    | loopOnEdges _ => cases h
  | cancelled =>
    simp only [act] at h
    split at h
    · cases h
    · next herrs =>
      cases t with
      | send req o =>
        obtain ⟨rfl, rfl⟩ := Prod.mk.inj (Option.some.inj h)
        exact .dropped herrs
      | execute _ | trySendCandidate _ _ | loopOnEdges _ | followEdge _ _ =>
        obtain ⟨rfl, rfl⟩ := Prod.mk.inj (Option.some.inj h)
        exact .cancelled herrs

lemma step_cases {a} (h : q.step s a = some s') : ∃ t sh' new, s.tasks[a.1]? = some t ∧
    Moves q s.toShared t sh' new ∧ s' = ⟨sh', Tasks.become s.tasks a.1 new⟩ := by
  obtain ⟨t, ht, h⟩ := Option.bind_eq_some_iff.mp h
  obtain ⟨⟨sh', new⟩, hact, rfl⟩ := Option.map_eq_some_iff.mp h
  exact ⟨t, sh', new, ht, act_moves hact, rfl⟩

theorem exists_step (h : s.tasks ≠ []) : ∃ s', q.step s (0, .go) = some s' := by
  obtain ⟨t, ts, hts⟩ := exists_cons_of_ne_nil h
  exact ⟨_, by rw [step, hts]; rfl⟩

lemma Moves.errs_eq_nil (h : Moves q sh t sh' new) (herrs : sh'.errs = []) : sh.errs = [] := by
  cases h with
  | exceeded => cases herrs
  | again _ _ => exact herrs
  | enter _ _ _ => exact herrs
  | enterFirst _ _ => exact herrs
  | known _ => exact herrs
  | candidate _ => exact herrs
  | sent => exact herrs
  | undefined => cases herrs
  | edges _ => exact herrs
  | follow | readFails _ => exact (append_eq_nil_iff.mp herrs).2
  | dropped _ => exact herrs
  | cancelled _ => cases herrs

/-! ## Where an edge leads -/

/-- The tuple is valid and its condition is met. -/
def Query.Passes (q : Query) (tk : TupleKey) : Prop :=
  q.typesystem.validateTupleForRead tk = true ∧ evaluateTupleCondition q.evaluation tk = .ok true

/-- An edge leads from a user to an object of its target. -/
inductive Query.Follows (q : Query) (user : User) (e : RelationshipEdge) : Object → Prop where
  | computed : e.type = .computedUsersetEdge → Follows q user e (sourceUserObj user)
  | tuple {users tk} : q.userFilter e user = some users → tk ∈ q.tuples →
      tk.object.type = e.targetReference.1 → tk.relation = relationFilter e → tk.user ∈ users →
      q.Passes tk → Follows q user e tk.object

lemma mem_dispatchTuples {tks} : t ∈ (q.dispatchTuples req e tks).2 ↔
    ∃ tk ∈ tks, q.Passes tk ∧
      t = .execute { req with user := .userset tk.object (newRelation e tk) } := by
  induction tks with
  | nil => simp [dispatchTuples]
  | cons tk tks ih =>
    rw [dispatchTuples]
    by_cases hvalid : q.typesystem.validateTupleForRead tk = true
    · cases hcond : evaluateTupleCondition q.evaluation tk with
      | error err => simp [Query.Passes, hvalid, hcond, ih]
      | ok b => cases b <;> simp [Query.Passes, hvalid, hcond, ih]
    · simp [Query.Passes, hvalid, ih]

/-- The tuples that a read finds lead where the edge does. -/
lemma newRelation_of_found {users tk}
    (hfilter : q.userFilter e req.user = some users) (hrel : tk.relation = relationFilter e) :
    newRelation e tk = e.targetReference.2 := by
  cases htype : e.type with
  | directEdge => simpa [newRelation, relationFilter, htype] using hrel
  | computedUsersetEdge => simp [userFilter, htype] at hfilter
  | tupleToUsersetEdge => simp [newRelation, htype]

lemma follows_of_mem_readTuples {failure}
    (h : t ∈ (q.readTuplesAndExecute req e failure).2) : ∃ o, q.Follows req.user e o ∧
      t = .execute { req with user := .userset o e.targetReference.2 } := by
  unfold readTuplesAndExecute at h
  cases hfilter : q.userFilter e req.user with
  | none => simp [hfilter] at h
  | some users =>
    simp only [hfilter] at h
    obtain ⟨tk, hfound, hpass, rfl⟩ : ∃ tk ∈ q.readStartingWithUser e.targetReference.1
        (relationFilter e) users, q.Passes tk ∧
        t = .execute { req with user := .userset tk.object (newRelation e tk) } := by
      cases failure with
      | none => exact mem_dispatchTuples.mp h
      | some f =>
        obtain ⟨tk, htk, hrest⟩ := mem_dispatchTuples.mp h
        exact ⟨tk, mem_of_mem_take htk, hrest⟩
    simp only [readStartingWithUser, mem_filter, decide_eq_true_eq] at hfound
    obtain ⟨hmem, htype, hrel, huser⟩ := hfound
    exact ⟨tk.object, .tuple hfilter hmem htype hrel huser hpass,
      by rw [newRelation_of_found hfilter hrel]⟩

lemma mem_followEdge : t ∈ (q.followEdge req e).2 ↔ ∃ o, q.Follows req.user e o ∧
    t = .execute { req with user := .userset o e.targetReference.2 } := by
  constructor
  · intro h
    cases htype : e.type with
    | computedUsersetEdge =>
      simp only [followEdge, htype, mem_singleton] at h
      exact ⟨_, .computed htype, h⟩
    | directEdge | tupleToUsersetEdge =>
      simp only [followEdge, htype] at h
      exact follows_of_mem_readTuples h
  · rintro ⟨o, hfollows, rfl⟩
    cases hfollows with
    | computed htype => simp [followEdge, htype]
    | @tuple users tk hfilter hmem htype hrel huser hpass =>
      have hread : .execute { req with user := .userset tk.object e.targetReference.2 } ∈
          (q.readTuplesAndExecute req e none).2 := by
        simp only [readTuplesAndExecute, hfilter]
        refine mem_dispatchTuples.mpr ⟨tk, ?_, hpass, by rw [newRelation_of_found hfilter hrel]⟩
        simpa [readStartingWithUser] using ⟨hmem, htype, hrel, huser⟩
      cases hedge : e.type with
      | computedUsersetEdge => simp [userFilter, hedge] at hfilter
      | directEdge | tupleToUsersetEdge => simpa only [followEdge, hedge] using hread

/-! ## Termination -/

/-- How many calls deep the expansion can still go. -/
def Query.remaining (q : Query) : Option Nat → Nat
  | none => q.resolveNodeLimit + 2
  | some depth => q.resolveNodeLimit + 1 - depth

lemma remaining_lt {depth depth'} (h : q.enterDepth depth = some depth') :
    q.remaining (some depth') < q.remaining depth := by
  cases depth with
  | none =>
    cases h
    simp [remaining]
  | some d =>
    simp only [enterDepth] at h
    split at h
    · cases h
    · next hlt =>
      cases h
      simp only [remaining]
      omega

/-- What a task still has to do. -/
def Query.rank (q : Query) : Task → Nat
  | .execute req => 5 * q.remaining req.depth
  | .followEdge req _ => 5 * q.remaining req.depth + 1
  | .loopOnEdges req => 5 * q.remaining req.depth + 2
  | .send req _ => 5 * q.remaining req.depth + 3
  | .trySendCandidate req _ => 5 * q.remaining req.depth + 4

lemma rank_entered_le : q.rank (q.entered req) ≤ 5 * q.remaining req.depth + 4 := by
  unfold entered
  split
  · split
    · exact Nat.le_refl _
    · exact Nat.add_le_add_left (by decide) _
  · exact Nat.add_le_add_left (by decide) _

lemma rank_entered_lt {depth} (h : q.enterDepth req.depth = some depth) :
    q.rank (q.entered { req with depth := some depth }) < q.rank (.execute req) := by
  have hle : q.rank (q.entered { req with depth := some depth }) ≤
      5 * q.remaining (some depth) + 4 :=
    rank_entered_le
  have hlt := remaining_lt h
  simp only [rank] at hle ⊢
  omega

lemma rank_dispatched_lt (h : ∃ o, q.Follows req.user e o ∧
    t = .execute { req with user := .userset o e.targetReference.2 }) :
    q.rank t < q.rank (.followEdge req e) := by
  obtain ⟨o, -, rfl⟩ := h
  exact Nat.lt_succ_self _

/-- The tasks that replace a task have less to do. -/
lemma Moves.rank_lt (h : Moves q sh t sh' new) (ht' : t' ∈ new) : q.rank t' < q.rank t := by
  cases h with
  | exceeded | again _ _ | undefined | cancelled _ => exact absurd ht' not_mem_nil
  | enter hdepth _ _ | enterFirst hdepth _ =>
    rw [mem_singleton.mp ht']
    exact rank_entered_lt hdepth
  | known _ =>
    rw [mem_singleton.mp ht']
    exact Nat.add_lt_add_left (by decide) _
  | candidate _ | sent | dropped _ =>
    rw [mem_singleton.mp ht']
    exact Nat.lt_succ_self _
  | edges _ =>
    obtain ⟨e, -, rfl⟩ := mem_map.mp ht'
    exact Nat.lt_succ_self _
  | follow => exact rank_dispatched_lt (mem_followEdge.mp ht')
  | readFails _ => exact rank_dispatched_lt (follows_of_mem_readTuples ht')

/-- Every expansion ends, also where the tuples have cycles. -/
theorem no_infinite_expansion (q : Query) :
    ¬ ∃ f : Nat → State, f 0 = q.start ∧ ∀ n, ∃ a, q.step (f n) a = some (f (n + 1)) := by
  refine Frontier.no_infinite_run State.tasks q.rank (fun s a s' h => ?_) q.start
  obtain ⟨t, sh', new, ht, hmoves, rfl⟩ := step_cases h
  exact ⟨a.1, t, new, ht, rfl, fun t' ht' => hmoves.rank_lt ht'⟩

end

end OpenFGA.ReverseExpand
