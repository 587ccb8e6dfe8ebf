/-
  `ListObjects` without the pipeline (`pkg/server/commands/list_objects.go`).

  A goroutine of a pool runs the reverse expansion, which sends candidates on a channel.
  The consumer reads them.  A candidate that needs no further evaluation it sends to
  `resultsChan` itself; for any other it starts a goroutine that runs a check.  `Execute`
  collects what is sent to `resultsChan`.

  `trySendObject` reserves a place in the response by incrementing
  `objectsFound` and sends afterwards, under the context that the consumer cancels once
  `objectsFound` says that enough was found.  A reserved object can then be dropped by the
  select.  And when there is no limit, the test `len(objects) < maxResults` never
  holds, so that an evaluation error of a condition is not reported.  The response is
  right exactly if neither happens: `execute_answers_iff`.
-/

import OpenFGA.Concurrency
import OpenFGA.Lib.Run
import OpenFGA.Lib.Tasks

namespace OpenFGA.ListObjects
open Tasks List Option Bool

/-! ## The query -/

inductive ResultStatus where
  | requiresFurtherEval
  | noFurtherEval
deriving DecidableEq, Repr

structure ReverseExpandResult where
  object : String
  status : ResultStatus
deriving DecidableEq, Repr

/-- The errors that `Execute` tells apart. -/
inductive Failure where
  | resolutionDepthExceeded
  | evaluationFailed
  | other
deriving DecidableEq, Repr

/-- What a check answers. -/
inductive Outcome where
  | allowed
  | denied
  | failed (f : Failure)
deriving DecidableEq, Repr

structure Query where
  maxResults : UInt32
  resolveNodeBreadthLimit : UInt32
  /-- What the reverse expansion finds. -/
  candidates : List ReverseExpandResult
  check : String → Outcome

/-- The capacity of the channel of candidates. -/
def Query.bufferSize (q : Query) : Nat := max (min q.maxResults.toNat 1000 / 10) 10

/-- The capacity of `resultsChan`. -/
def Query.resultsSize (q : Query) : Nat := if q.maxResults = 0 then 1 else q.maxResults.toNat

/-- The candidate belongs in the response. -/
def Query.qualifies (q : Query) (res : ReverseExpandResult) : Bool :=
  res.status = .noFurtherEval || q.check res.object = .allowed

/-- The objects that a response without limit has. -/
def Query.qualifying (q : Query) : List String :=
  (q.candidates.filter q.qualifies).map ReverseExpandResult.object

/-- The length of the response. -/
def Query.expected (q : Query) : Nat :=
  if q.maxResults = 0 then q.qualifying.length else min q.maxResults.toNat q.qualifying.length

/-! ## The goroutines -/

/-- The first error of the pool. -/
inductive PoolError where
  | cancelled
  | failed (f : Failure)
deriving DecidableEq, Repr

/-- The goroutine of the reverse expansion. -/
inductive Reverse where
  | running
  /-- It signalled the error that it returns. -/
  | returning (e : PoolError)
  | returned
deriving DecidableEq, Repr

/-- Inside `trySendObject`. -/
inductive TrySend where
  /-- Before `objectsFound` is incremented. -/
  | adding (object : String)
  /-- Inside the select. -/
  | sending (object : String)
deriving DecidableEq, Repr

/-- A goroutine that runs a check. -/
inductive Check where
  | checking (object : String)
  | trySend (t : TrySend)
deriving DecidableEq, Repr

/-- The consumer of the candidates. -/
inductive Consumer where
  | reading
  | received (res : ReverseExpandResult)
  | trySend (t : TrySend)
  /-- It waits in `pool.Go`. -/
  | starting (object : String)
  /-- It waits in `pool.Wait`. -/
  | waiting
  | reporting (f : Failure)
  | closed
deriving DecidableEq, Repr

open Consumer

/-- The errors that `Execute` returns. -/
inductive ExecuteError where
  | authorizationModelResolutionTooComplex
  | evaluationFailed (errs : List Failure)
  | handled (f : Failure)
deriving DecidableEq, Repr

structure State where
  ctx : Context
  /-- The context of the pool's tasks. -/
  poolCtx : Context
  /-- What the reverse expansion has not sent yet. -/
  pending : List ReverseExpandResult
  reverse : Reverse
  candidates : Chan ReverseExpandResult
  /-- `reverseExpandDoneWithError` holds a value. -/
  doneWithError : Bool
  consumer : Consumer
  checks : List Check
  objectsFound : UInt32
  error : Option PoolError
  results : Chan (Except Failure String)
  objects : List String
  errs : List Failure
  response : Option (Except ExecuteError (List String))

def start (q : Query) : State where
  ctx := none
  poolCtx := none
  pending := q.candidates
  reverse := .running
  candidates := .make q.bufferSize
  doneWithError := false
  consumer := .reading
  checks := []
  objectsFound := 0
  error := none
  results := .make q.resultsSize
  objects := []
  errs := []
  response := none

/-- A case of a select. -/
inductive Case where
  | doneWithError
  | done
  | channel
deriving DecidableEq, Repr

inductive Act where
  /-- The deadline passes, or the caller cancels. -/
  | expire (deadline : Bool)
  /-- The reverse expansion tries to send its next candidate. -/
  | reverseSend (c : SendCase)
  | reverseClose
  /-- The reverse expansion fails, by itself or since its context is done. -/
  | reverseFail (e : PoolError)
  | reverseReturn
  | consumer (c : Case)
  | check (i : Nat) (c : SendCase)
  /-- `Execute` receives from `resultsChan`. -/
  | receive
deriving DecidableEq, Repr

namespace State

/-- `cancel` of the context that the pool's context derives from. -/
def cancel (s : State) : State := { s with poolCtx := s.poolCtx.cancel false }

/-- A task of the pool returns an error: the first one is kept, and the context is cancelled. -/
def addErr (s : State) (e : PoolError) : State := { s.cancel with error := s.error.or (some e) }

/-- `trySendObject`, one step: where it goes on, if it does. -/
def trySendObject (q : Query) (s : State) (ctx : Context) (c : SendCase) :
    TrySend → Option (State × Option TrySend)
  | .adding object =>
    if q.maxResults = 0 then some (s, some (.sending object))
    else
      let objectsFound := s.objectsFound + 1
      let s := { s with objectsFound }
      if q.maxResults < objectsFound then some (s, none) else some (s, some (.sending object))
  | .sending object => do
      let (_, results) ← trySendThroughChannel ctx (.ok object) s.results c
      some ({ s with results }, none)

/-- The goroutines of the pool. -/
def goroutines (s : State) : Nat :=
  s.checks.length + if s.reverse = .returned then 0 else 1

/-- The reverse expansion tries to send its next candidate. -/
def reverseSend (s : State) (c : SendCase) : Option State :=
  match s.reverse, s.pending with
  | .running, res :: pending => do
      let (_, candidates) ← trySendThroughChannel s.poolCtx res s.candidates c
      some { s with candidates, pending }
  | _, _ => none

def reverseClose (s : State) : Option State :=
  if s.reverse = .running ∧ s.pending = [] then
    some { s with candidates := s.candidates.close, reverse := .returned }
  else none

def reverseFail (s : State) (e : PoolError) : Option State :=
  if s.reverse = .running ∧ (e = .cancelled → s.poolCtx.isSome) then
    some { s with doneWithError := true, reverse := .returning e }
  else none

def reverseReturn (s : State) : Option State :=
  match s.reverse with
  | .returning e => some { s.addErr e with reverse := .returned }
  | _ => none

/-- A step of the consumer. -/
def consume (q : Query) (s : State) (c : Case) : Consumer → Option State
  | .reading =>
    match c with
    | .doneWithError =>
      if s.doneWithError then some { s.cancel with doneWithError := false, consumer := .waiting }
      else none
    | .done => if s.ctx.isSome then some { s.cancel with consumer := .waiting } else none
    | .channel => do
        match ← s.candidates.recv with
        | (some res, candidates) => some { s with candidates, consumer := .received res }
        | (none, candidates) => some { s with candidates, consumer := .waiting }
  | .received res =>
    if q.maxResults ≠ 0 ∧ q.maxResults ≤ s.objectsFound then
      some { s.cancel with consumer := .waiting }
    else match res.status with
      | .noFurtherEval => some { s with consumer := .trySend (.adding res.object) }
      | .requiresFurtherEval => some { s with consumer := .starting res.object }
  | .trySend t => do
      let (s, t) ← s.trySendObject q s.ctx (if c = .done then .done else .send) t
      match t with
      | some t => some { s with consumer := .trySend t }
      | none => some { s with consumer := .reading }
  | .starting object =>
    if s.goroutines < (1 + q.resolveNodeBreadthLimit).toNat then
      some { s with checks := s.checks ++ [.checking object], consumer := .reading }
    else none
  | .waiting =>
    if s.reverse = .returned ∧ s.checks = [] then
      match s.error with
      | some (.failed f) => some { s with consumer := .reporting f }
      | _ => some { s with results := s.results.close, consumer := .closed }
    else none
  | .reporting f => do
      let results ← s.results.send (.error f)
      some { s with results := results.close, consumer := .closed }
  | .closed => none

/-- A step of the goroutine of a check. -/
def check (q : Query) (s : State) (i : Nat) (c : SendCase) : Check → Option State
  | .checking object =>
    match c with
    -- the check gives up since its context is done
    | .done =>
      if s.poolCtx.isSome then some { s.addErr .cancelled with checks := become s.checks i [] }
      else none
    | .send =>
      match q.check object with
      | .allowed => some { s with checks := become s.checks i [.trySend (.adding object)] }
      | .denied => some { s with checks := become s.checks i [] }
      | .failed f => some { s.addErr (.failed f) with checks := become s.checks i [] }
  | .trySend t => do
      let (s, t) ← s.trySendObject q s.poolCtx c t
      some { s with checks := become s.checks i (t.map Check.trySend).toList }

/-- `Execute` takes a result. -/
def receive (q : Query) (s : State) : Option State :=
  if s.response.isSome then none
  else do
    match ← s.results.recv with
    | (some (.ok object), results) => some { s with results, objects := s.objects ++ [object] }
    | (some (.error .resolutionDepthExceeded), results) =>
      some { s with results, response := some (.error .authorizationModelResolutionTooComplex) }
    | (some (.error .evaluationFailed), results) =>
      some { s with results, errs := s.errs ++ [.evaluationFailed] }
    | (some (.error .other), results) =>
      some { s with results, response := some (.error (.handled .other)) }
    | (none, _) =>
      if s.objects.length < q.maxResults.toNat ∧ s.errs ≠ [] then
        some { s with response := some (.error (.evaluationFailed s.errs)) }
      else some { s with response := some (.ok s.objects) }

def step (q : Query) (s : State) : Act → Option State
  | .expire deadline =>
    some { s with ctx := s.ctx.cancel deadline, poolCtx := s.poolCtx.cancel deadline }
  | .reverseSend c => s.reverseSend c
  | .reverseClose => s.reverseClose
  | .reverseFail e => s.reverseFail e
  | .reverseReturn => s.reverseReturn
  | .consumer c => s.consume q c s.consumer
  | .check i c => do s.check q i c (← s.checks[i]?)
  | .receive => s.receive q

end State

/-! ## What a step does -/

/-- The steps of `trySendObject`. -/
inductive Tries (q : Query) (s : State) (ctx : Context) :
    SendCase → TrySend → State → Option TrySend → Prop where
  | unlimited {c object} (hmax : q.maxResults = 0) :
      Tries q s ctx c (.adding object) s (some (.sending object))
  | reserved {c object} (hmax : q.maxResults ≠ 0)
      (hle : s.objectsFound + 1 ≤ q.maxResults) :
      Tries q s ctx c (.adding object) { s with objectsFound := s.objectsFound + 1 }
        (some (.sending object))
  | refused {c object} (hmax : q.maxResults ≠ 0)
      (hlt : q.maxResults < s.objectsFound + 1) :
      Tries q s ctx c (.adding object) { s with objectsFound := s.objectsFound + 1 } none
  | sent {object} (hopen : s.results.closed = false) :
      Tries q s ctx .send (.sending object)
        { s with results := { s.results with buf := s.results.buf ++ [.ok object] } } none
  | dropped {object} (hctx : ctx ≠ none) :
      Tries q s ctx .done (.sending object) s none

/-- The steps, one constructor for each way the code can go. -/
inductive Step (q : Query) (s : State) : Act → State → Prop where
  | expire (deadline : Bool) : Step q s (.expire deadline)
      { s with ctx := s.ctx.cancel deadline, poolCtx := s.poolCtx.cancel deadline }
  | reverseSent {res pending}
      (hreverse : s.reverse = .running) (hpending : s.pending = res :: pending)
      (hopen : s.candidates.closed = false) :
      Step q s (.reverseSend .send)
        { s with pending, candidates := { s.candidates with buf := s.candidates.buf ++ [res] } }
  | reverseDropped {res pending}
      (hreverse : s.reverse = .running) (hpending : s.pending = res :: pending)
      (hctx : s.poolCtx ≠ none) :
      Step q s (.reverseSend .done) { s with pending }
  | reverseClose (hreverse : s.reverse = .running) (hpending : s.pending = []) :
      Step q s .reverseClose { s with candidates := s.candidates.close, reverse := .returned }
  | reverseFail {e} (hreverse : s.reverse = .running)
      (hctx : e = .cancelled → s.poolCtx ≠ none) :
      Step q s (.reverseFail e) { s with doneWithError := true, reverse := .returning e }
  | reverseReturn {e} (hreverse : s.reverse = .returning e) :
      Step q s .reverseReturn { s.addErr e with reverse := .returned }
  | doneWithError (hconsumer : s.consumer = .reading) (hdone : s.doneWithError = true) :
      Step q s (.consumer .doneWithError)
        { s.cancel with doneWithError := false, consumer := .waiting }
  | done (hconsumer : s.consumer = .reading) (hctx : s.ctx ≠ none) :
      Step q s (.consumer .done) { s.cancel with consumer := .waiting }
  | received {res buf}
      (hconsumer : s.consumer = .reading) (hbuf : s.candidates.buf = res :: buf) :
      Step q s (.consumer .channel)
        { s with candidates := { s.candidates with buf }, consumer := .received res }
  | drained (hconsumer : s.consumer = .reading) (hbuf : s.candidates.buf = [])
      (hclosed : s.candidates.closed = true) :
      Step q s (.consumer .channel) { s with consumer := .waiting }
  | enough {res c} (hconsumer : s.consumer = .received res)
      (hfull : q.maxResults ≠ 0 ∧ q.maxResults ≤ s.objectsFound) :
      Step q s (.consumer c) { s.cancel with consumer := .waiting }
  | noFurtherEval {res c} (hconsumer : s.consumer = .received res)
      (hstatus : res.status = .noFurtherEval) :
      Step q s (.consumer c) { s with consumer := .trySend (.adding res.object) }
  | furtherEval {res c} (hconsumer : s.consumer = .received res)
      (hstatus : res.status = .requiresFurtherEval) :
      Step q s (.consumer c) { s with consumer := .starting res.object }
  | consumerTrySend {t c s' t'}
      (hconsumer : s.consumer = .trySend t)
      (htry : Tries q s s.ctx (if c = .done then .done else .send) t s' t') :
      Step q s (.consumer c)
        { s' with consumer := t'.elim .reading .trySend }
  | started {object c} (hconsumer : s.consumer = .starting object) :
      Step q s (.consumer c)
        { s with checks := s.checks ++ [.checking object], consumer := .reading }
  | failed {f c} (hconsumer : s.consumer = .waiting)
      (hreverse : s.reverse = .returned) (hchecks : s.checks = [])
      (herror : s.error = some (.failed f)) :
      Step q s (.consumer c) { s with consumer := .reporting f }
  | close {c} (hconsumer : s.consumer = .waiting)
      (hreverse : s.reverse = .returned) (hchecks : s.checks = [])
      (herror : ∀ f, s.error ≠ some (.failed f)) :
      Step q s (.consumer c) { s with results := s.results.close, consumer := .closed }
  | report {f c} (hconsumer : s.consumer = .reporting f)
      (hopen : s.results.closed = false) :
      Step q s (.consumer c)
        { s with
          results := { s.results with buf := s.results.buf ++ [.error f], closed := true }
          consumer := .closed }
  | checkCancelled {i object} (hcheck : s.checks[i]? = some (.checking object))
      (hctx : s.poolCtx ≠ none) :
      Step q s (.check i .done)
        { s.addErr .cancelled with checks := become s.checks i [] }
  | checkAllowed {i object} (hcheck : s.checks[i]? = some (.checking object))
      (houtcome : q.check object = .allowed) :
      Step q s (.check i .send)
        { s with checks := become s.checks i [.trySend (.adding object)] }
  | checkDenied {i object} (hcheck : s.checks[i]? = some (.checking object))
      (houtcome : q.check object = .denied) :
      Step q s (.check i .send) { s with checks := become s.checks i [] }
  | checkFailed {i object f}
      (hcheck : s.checks[i]? = some (.checking object)) (houtcome : q.check object = .failed f) :
      Step q s (.check i .send)
        { s.addErr (.failed f) with checks := become s.checks i [] }
  | checkTrySend {i t c s' t'}
      (hcheck : s.checks[i]? = some (.trySend t))
      (htry : Tries q s s.poolCtx c t s' t') :
      Step q s (.check i c)
        { s' with checks := become s.checks i (t'.map Check.trySend).toList }
  | object {object buf} (hresponse : s.response = none)
      (hbuf : s.results.buf = .ok object :: buf) :
      Step q s .receive
        { s with results := { s.results with buf }, objects := s.objects ++ [object] }
  | errored {f e buf}
      (hresponse : s.response = none) (hbuf : s.results.buf = .error f :: buf) :
      Step q s .receive { s with results := { s.results with buf }, response := some (.error e) }
  | evaluationFailed {buf} (hresponse : s.response = none)
      (hbuf : s.results.buf = .error .evaluationFailed :: buf) :
      Step q s .receive
        { s with results := { s.results with buf }, errs := s.errs ++ [.evaluationFailed] }
  | respondError (hresponse : s.response = none) (hbuf : s.results.buf = [])
      (hclosed : s.results.closed = true) :
      Step q s .receive { s with response := some (.error (.evaluationFailed s.errs)) }
  | respond (hresponse : s.response = none) (hbuf : s.results.buf = [])
      (hclosed : s.results.closed = true)
      (herrs : s.objects.length < q.maxResults.toNat → s.errs = []) :
      Step q s .receive { s with response := some (.ok s.objects) }

section
variable {q : Query} {s s' : State} {a : Act} {c : SendCase} {i : Nat} {t : TrySend}
  {t' : Option TrySend} {ctx : Context}

lemma trySend_cases {α : Type} {msg} {ch ch' : Chan α} {b}
    (h : trySendThroughChannel ctx msg ch c = some (b, ch')) :
    (c = .send ∧ ch.closed = false ∧ ch' = { ch with buf := ch.buf ++ [msg] }) ∨
      (c = .done ∧ ctx ≠ none ∧ ch' = ch) := by
  cases c with
  | send =>
    obtain ⟨ch₁, hsend, heq⟩ := map_eq_some_iff.mp h
    cases heq
    obtain ⟨hopen, rfl⟩ := Chan.send_eq_some hsend
    exact .inl ⟨rfl, hopen, rfl⟩
  | done =>
    rw [trySendThroughChannel] at h
    split_ifs at h with hctx
    cases h
    exact .inr ⟨rfl, isSome_iff_ne_none.mp hctx, rfl⟩

lemma trySendObject_tries (h : s.trySendObject q ctx c t = some (s', t')) :
    Tries q s ctx c t s' t' := by
  cases t with
  | adding object =>
    rw [State.trySendObject] at h
    by_cases hmax : q.maxResults = 0
    · rw [if_pos hmax] at h
      cases h
      exact .unlimited hmax
    · rw [if_neg hmax] at h
      dsimp only at h
      split_ifs at h with hlt
      · cases h
        exact .refused hmax hlt
      · cases h
        exact .reserved hmax (UInt32.not_lt.mp hlt)
  | sending object =>
    obtain ⟨⟨b, ch⟩, htry, h⟩ := bind_eq_some_iff.mp h
    cases h
    obtain ⟨rfl, hopen, rfl⟩ | ⟨rfl, hctx, rfl⟩ := trySend_cases htry
    · exact .sent hopen
    · exact .dropped hctx

/-- What `trySendObject` leaves alone. -/
lemma Tries.frame (h : Tries q s ctx c t s' t') :
    s' = { s with objectsFound := s'.objectsFound, results := s'.results } := by
  cases h <;> rfl

lemma reverseSend_step (h : s.reverseSend c = some s') : Step q s (.reverseSend c) s' := by
  unfold State.reverseSend at h
  split at h
  next hreverse hpending =>
    obtain ⟨⟨b, ch⟩, htry, h⟩ := bind_eq_some_iff.mp h
    cases h
    obtain ⟨rfl, hopen, rfl⟩ | ⟨rfl, hctx, rfl⟩ := trySend_cases htry
    · exact .reverseSent hreverse hpending hopen
    · exact .reverseDropped hreverse hpending hctx
  · cases h

lemma consume_step {c} (h : s.consume q c s.consumer = some s') :
    Step q s (.consumer c) s' := by
  generalize hconsumer : s.consumer = k at h
  cases k with
  | reading =>
    cases c with
    | doneWithError =>
      rw [State.consume] at h
      split_ifs at h with hdone
      cases h
      exact .doneWithError hconsumer hdone
    | done =>
      rw [State.consume] at h
      split_ifs at h with hctx
      cases h
      exact .done hconsumer (isSome_iff_ne_none.mp hctx)
    | channel =>
      obtain ⟨⟨r, ch⟩, hrecv, h⟩ := bind_eq_some_iff.mp h
      unfold Chan.recv at hrecv
      split at hrecv
      next hbuf =>
        cases hrecv
        cases h
        exact .received hconsumer hbuf
      next hbuf =>
        split_ifs at hrecv with hclosed
        cases hrecv
        cases h
        exact .drained hconsumer hbuf hclosed
  | received res =>
    rw [State.consume] at h
    split_ifs at h with hfull
    · cases h
      exact .enough hconsumer hfull
    · generalize hstatus : res.status = status at h
      cases status with
      | noFurtherEval =>
        cases h
        exact .noFurtherEval hconsumer hstatus
      | requiresFurtherEval =>
        cases h
        exact .furtherEval hconsumer hstatus
  | trySend t =>
    obtain ⟨⟨s₁, t'⟩, htry, h⟩ := bind_eq_some_iff.mp h
    cases t' with
    | none | some t' =>
      cases h
      exact .consumerTrySend hconsumer (trySendObject_tries htry)
  | starting object =>
    rw [State.consume] at h
    split_ifs at h
    cases h
    exact .started hconsumer
  | waiting =>
    rw [State.consume] at h
    split_ifs at h with hready
    split at h <;> cases h
    next herror => exact .failed hconsumer hready.1 hready.2 herror
    next herror => exact .close hconsumer hready.1 hready.2 herror
  | reporting f =>
    obtain ⟨ch, hsend, h⟩ := bind_eq_some_iff.mp h
    cases h
    obtain ⟨hopen, rfl⟩ := Chan.send_eq_some hsend
    exact .report hconsumer hopen
  | closed => cases h

lemma check_step {t} (ht : s.checks[i]? = some t) (h : s.check q i c t = some s') :
    Step q s (.check i c) s' := by
  cases t with
  | checking object =>
    cases c with
    | done =>
      rw [State.check] at h
      split_ifs at h with hctx
      cases h
      exact .checkCancelled ht (isSome_iff_ne_none.mp hctx)
    | send =>
      rw [State.check] at h
      generalize houtcome : q.check object = outcome at h
      cases outcome with
      | allowed =>
        cases h
        exact .checkAllowed ht houtcome
      | denied =>
        cases h
        exact .checkDenied ht houtcome
      | failed f =>
        cases h
        exact .checkFailed ht houtcome
  | trySend t =>
    obtain ⟨⟨s₁, t'⟩, htry, h⟩ := bind_eq_some_iff.mp h
    have htries := trySendObject_tries htry
    have hchecks : s₁.checks = s.checks := by rw [htries.frame]
    cases h
    rw [hchecks]
    exact .checkTrySend ht htries

lemma receive_step (h : s.receive q = some s') : Step q s .receive s' := by
  have hresponse : s.response = none := by
    by_contra hne
    rw [State.receive, if_pos (isSome_iff_ne_none.mpr hne)] at h
    cases h
  rw [State.receive, if_neg (by simp [hresponse])] at h
  obtain ⟨⟨r, ch⟩, hrecv, h⟩ := bind_eq_some_iff.mp h
  unfold Chan.recv at hrecv
  split at hrecv
  next r buf hbuf =>
    cases hrecv
    cases r with
    | ok object =>
      cases h
      exact .object hresponse hbuf
    | error f =>
      cases f with
      | evaluationFailed =>
        cases h
        exact .evaluationFailed hresponse hbuf
      | resolutionDepthExceeded | other =>
        cases h
        exact .errored hresponse hbuf
  next hbuf =>
    split_ifs at hrecv with hclosed
    cases hrecv
    dsimp only at h
    split_ifs at h with herrs
    · cases h
      exact .respondError hresponse hbuf hclosed
    · cases h
      refine .respond hresponse hbuf hclosed fun hlt => ?_
      by_contra hne
      exact herrs ⟨hlt, hne⟩

lemma step_cases (h : s.step q a = some s') : Step q s a s' := by
  cases a with
  | expire deadline =>
    cases h
    exact .expire deadline
  | reverseSend c => exact reverseSend_step h
  | reverseClose =>
    rw [State.step, State.reverseClose] at h
    split_ifs at h with hready
    cases h
    exact .reverseClose hready.1 hready.2
  | reverseFail e =>
    rw [State.step, State.reverseFail] at h
    split_ifs at h with hready
    cases h
    exact .reverseFail hready.1 fun he => isSome_iff_ne_none.mp (hready.2 he)
  | reverseReturn =>
    rw [State.step, State.reverseReturn] at h
    split at h <;> cases h
    next hreverse => exact .reverseReturn hreverse
  | consumer c => exact consume_step h
  | check i c =>
    obtain ⟨t, ht, h⟩ := bind_eq_some_iff.mp h
    exact check_step ht h
  | receive => exact receive_step h

end

/-! ## The conditions -/

section
variable (q : Query) (s : State)

/-- The step increments `objectsFound`. -/
def State.adds : Act → Bool
  | .consumer _ =>
    match s.consumer with
    | .trySend (.adding _) => q.maxResults ≠ 0
    | _ => false
  | .check i _ =>
    match s.checks[i]? with
    | some (.trySend (.adding _)) => q.maxResults ≠ 0
    | _ => false
  | _ => false

/-- Neither the deadline nor the caller ends the query, the reverse expansion does not
    fail by itself, and `objectsFound` does not overflow. -/
def State.calm : Act → Bool
  | .expire _ | .reverseFail (.failed _) => false
  | a => !(s.adds q a && s.objectsFound.toNat + 1 = 2 ^ 32)

/-- A goroutine gives up sending an object that it has reserved a place for. -/
def State.drops : Act → Bool
  | .check i .done =>
    match s.checks[i]? with
    | some (.trySend (.sending _)) => true
    | _ => false
  | _ => false

/-- A condition of the check fails to evaluate. -/
def State.evaluationFails : Act → Bool
  | .check i .send =>
    match s.checks[i]? with
    | some (.checking object) => q.check object = .failed .evaluationFailed
    | _ => false
  | _ => false

/-- The step keeps the response right. -/
def State.keeps (a : Act) : Bool :=
  if q.maxResults = 0 then !s.evaluationFails q a else !s.drops a

end

/-- The contract of the response of a run. -/
structure Query.Answers (q : Query) (acts : List Act) (objects : List String) : Prop where
  nodup : objects.Nodup
  sound : ∀ object ∈ objects, object ∈ q.qualifying
  length : objects.length = q.expected
  noError : q.maxResults = 0 →
    Lts.Meets (State.step q) (fun s a => s.evaluationFails q a = false) (start q) acts

/-! ## Where the objects are -/

section
variable (q : Query)

def Query.carries (res : ReverseExpandResult) : Multiset String :=
  if q.qualifies res then {res.object} else 0

/-- The object if its check allows it. -/
def Query.holds (object : String) : Multiset String :=
  if q.check object = .allowed then {object} else 0

def TrySend.object : TrySend → String
  | .adding object | .sending object => object

/-- A place is reserved. -/
def TrySend.reserved : TrySend → Nat
  | .adding _ => 0
  | .sending _ => 1

def Check.holds : Check → Multiset String
  | .checking object => q.holds object
  | .trySend t => {t.object}

def Check.reserved : Check → Nat
  | .checking _ => 0
  | .trySend t => t.reserved

def Consumer.holds : Consumer → Multiset String
  | .received res => q.carries res
  | .trySend t => {t.object}
  | .starting object => q.holds object
  | _ => 0

def Consumer.reserved : Consumer → Nat
  | .trySend t => t.reserved
  | _ => 0

/-- The object of a result. -/
def payload : Except Failure String → Multiset String
  | .ok object => {object}
  | .error _ => 0

/-- The objects on their way to `resultsChan`. -/
def State.owed (s : State) : Multiset String :=
  (s.pending.map q.carries).sum + (s.candidates.buf.map q.carries).sum + s.consumer.holds q +
    (s.checks.map (Check.holds q)).sum

/-- The objects that were sent to `resultsChan`. -/
def State.sent (s : State) : Multiset String := s.objects + (s.results.buf.map payload).sum

/-- The places that are reserved for objects not sent yet. -/
def State.reserved (s : State) : Nat := s.consumer.reserved + (s.checks.map Check.reserved).sum

/-- How many objects were refused. -/
def State.refused (s : State) : Nat :=
  if q.maxResults = 0 then 0 else s.objectsFound.toNat - q.maxResults.toNat

/-- Every object that belongs in the response is on its way, sent or gone; `lost` of
    those that are gone had a place. -/
structure Ledger (s : State) (lost : Nat) : Prop where
  gone : ∃ gone : Multiset String, (q.qualifying : Multiset String) = s.owed q + s.sent + gone ∧
    lost + s.refused q ≤ gone.card ∧ (s.poolCtx = none → gone.card = s.refused q)
  count : q.maxResults ≠ 0 →
    s.sent.card + s.reserved + lost = min q.maxResults.toNat s.objectsFound.toNat

end

open State hiding reserved
section
variable {q : Query} {s s' : State} {a : Act} {lost : Nat}

/-- A step that only moves objects. -/
lemma Ledger.move (h : Ledger q s lost) (hmoved : s'.owed q + s'.sent = s.owed q + s.sent)
    (hctx : s'.poolCtx = none → s.poolCtx = none) (hfound : s'.objectsFound = s.objectsFound)
    (hcount : s'.sent.card + s'.reserved = s.sent.card + s.reserved) : Ledger q s' lost := by
  obtain ⟨gone, hgone, hle, heq⟩ := h.gone
  refine ⟨⟨gone, ?_, ?_, fun hnone => ?_⟩, fun hmax => ?_⟩
  · rw [hmoved, hgone]
  · rw [refused, hfound]
    exact hle
  · rw [refused, hfound]
    exact heq (hctx hnone)
  · have := h.count hmax
    rw [hfound]
    omega

/-- A step that gives an object up after the context is done. -/
lemma Ledger.discard (h : Ledger q s lost) (out : Multiset String) (n : Nat)
    (hmoved : s'.owed q + s'.sent + out = s.owed q + s.sent) (hctx : s'.poolCtx ≠ none)
    (hfound : s'.objectsFound = s.objectsFound) (hout : n ≤ out.card)
    (hcount : s'.sent.card + s'.reserved + n = s.sent.card + s.reserved) :
    Ledger q s' (lost + n) := by
  obtain ⟨gone, hgone, hle, -⟩ := h.gone
  refine ⟨⟨out + gone, ?_, ?_, fun hnone => absurd hnone hctx⟩, fun hmax => ?_⟩
  · rw [hgone, ← hmoved, add_assoc]
  · rw [Multiset.card_add]
    have : s'.refused q = s.refused q := by rw [refused, refused, hfound]
    omega
  · have := h.count hmax
    rw [hfound]
    omega

/-- A step of `trySendObject` in a goroutine that goes on as `t'`. -/
lemma Ledger.tries {ctx c t s₁ t'} (h : Ledger q s lost) (htry : Tries q s ctx c t s₁ t')
    (hwrap : q.maxResults ≠ 0 → t.reserved = 0 → s.objectsFound.toNat + 1 < 2 ^ 32)
    (howed : s'.owed q + {t.object} = s.owed q + t'.elim 0 fun t => {t.object})
    (hreserved : s'.reserved + t.reserved = s.reserved + t'.elim 0 TrySend.reserved)
    (hsent : s'.sent = s₁.sent) (hfound : s'.objectsFound = s₁.objectsFound)
    (hpool : s'.poolCtx = s.poolCtx) (hctx : ctx ≠ none → s.poolCtx ≠ none) :
    Ledger q s' (lost + if c = .done then t.reserved else 0) := by
  have hadd (hmax : q.maxResults ≠ 0) (ht : t.reserved = 0) :
      (s.objectsFound + 1).toNat = s.objectsFound.toNat + 1 := by
    rw [UInt32.toNat_add]
    exact Nat.mod_eq_of_lt (hwrap hmax ht)
  cases htry with
  | unlimited hmax =>
    simp only [TrySend.reserved, ite_self, elim_some, TrySend.object] at *
    refine ⟨?_, fun hne => absurd hmax hne⟩
    obtain ⟨gone, hgone, hle, heq⟩ := h.gone
    refine ⟨gone, ?_, ?_, ?_⟩
    · rw [hgone, hsent, add_right_cancel howed]
    · rw [refused, if_pos hmax] at hle ⊢
      exact hle
    · rw [refused, if_pos hmax] at heq ⊢
      rw [hpool]
      exact heq
  | reserved hmax hle =>
    simp only [TrySend.reserved, ite_self, elim_some, TrySend.object] at *
    rw [UInt32.le_iff_toNat_le, hadd hmax trivial] at hle
    refine ⟨?_, fun _ => ?_⟩
    · obtain ⟨gone, hgone, hcard, heq⟩ := h.gone
      have hrefused : s'.refused q = s.refused q := by
        rw [refused, refused, if_neg hmax, if_neg hmax, hfound]
        simp only [hadd hmax trivial]
        omega
      rw [hrefused, hpool]
      refine ⟨gone, ?_, hcard, heq⟩
      rw [hgone, hsent, add_right_cancel howed]
      rfl
    · have hcount := h.count hmax
      have hcard : s'.sent.card = s.sent.card := congrArg Multiset.card hsent
      rw [hfound]
      simp only [hadd hmax trivial]
      omega
  | @refused c object hmax hlt =>
    simp only [TrySend.reserved, ite_self, elim_none, TrySend.object] at *
    rw [UInt32.lt_iff_toNat_lt, hadd hmax trivial] at hlt
    have hrefused : s'.refused q = s.refused q + 1 := by
      rw [refused, refused, if_neg hmax, if_neg hmax, hfound]
      simp only [hadd hmax trivial]
      omega
    refine ⟨?_, fun _ => ?_⟩
    · obtain ⟨gone, hgone, hcard, heq⟩ := h.gone
      rw [hrefused, hpool]
      refine ⟨{object} + gone, ?_, ?_, fun hnone => ?_⟩
      · rw [hgone, show s'.sent = s.sent from hsent, ← add_zero (s.owed q), ← howed]
        abel
      · rw [Multiset.card_add, Multiset.card_singleton]
        omega
      · rw [Multiset.card_add, Multiset.card_singleton, heq hnone]
        omega
    · have hcount := h.count hmax
      have hcard : s'.sent.card = s.sent.card := congrArg Multiset.card hsent
      rw [hfound]
      simp only [hadd hmax trivial]
      omega
  | @sent object hopen =>
    simp only [TrySend.reserved, elim_none, TrySend.object] at *
    have hpushed : s'.sent = s.sent + {object} := by
      rw [hsent]
      show (s.objects : Multiset String) +
        ((s.results.buf ++ [Except.ok object]).map payload).sum = _
      rw [map_append, sum_append, sent, add_assoc]
      rfl
    refine move h ?_ (fun hnone => hpool ▸ hnone) hfound ?_
    · rw [hpushed, ← add_assoc, add_right_comm, howed, add_zero]
    · rw [hpushed, Multiset.card_add, Multiset.card_singleton]
      omega
  | @dropped object hdone =>
    simp only [TrySend.reserved, elim_none, TrySend.object, if_true] at *
    refine h.discard {object} 1 ?_ (hpool ▸ hctx hdone) hfound
      (Multiset.card_singleton _).ge ?_
    · rw [hsent, add_right_comm, howed, add_zero]
    · rw [hsent]
      omega

lemma sent_receive {r buf} (hbuf : s.results.buf = r :: buf) (objects : List String)
    (hobjects : (objects : Multiset String) = s.objects + payload r) :
    (objects : Multiset String) + (buf.map payload).sum = s.sent := by
  rw [sent, hbuf, hobjects, map_cons, sum_cons, add_assoc]

lemma cancel_ne_none (ctx : Context) (deadline : Bool) : ctx.cancel deadline ≠ none := by
  cases ctx <;> simp [Context.cancel]

lemma calm_of_adding (hcalm : s.calm q a = true) (hadds : s.adds q a = true) :
    s.objectsFound.toNat + 1 < 2 ^ 32 := by
  have hlt := s.objectsFound.toNat_lt
  have hne : ¬ s.objectsFound.toNat + 1 = 2 ^ 32 := by
    intro heq
    cases a with
    | consumer c | check i c => simp [calm, hadds, heq] at hcalm
    | _ => cases hadds
  omega

lemma calm_consumer {c t} (hcalm : s.calm q (.consumer c) = true)
    (hconsumer : s.consumer = .trySend t) (hmax : q.maxResults ≠ 0) (ht : t.reserved = 0) :
    s.objectsFound.toNat + 1 < 2 ^ 32 := by
  refine calm_of_adding hcalm ?_
  cases t with
  | adding object => simp [adds, hconsumer, hmax]
  | sending object => cases ht

lemma calm_check {i c t} (hcalm : s.calm q (.check i c) = true)
    (hcheck : s.checks[i]? = some (.trySend t)) (hmax : q.maxResults ≠ 0) (ht : t.reserved = 0) :
    s.objectsFound.toNat + 1 < 2 ^ 32 := by
  refine calm_of_adding hcalm ?_
  cases t with
  | adding object => simp [adds, hcheck, hmax]
  | sending object => cases ht

lemma owed_become (s' : State) {i t} (hcheck : s.checks[i]? = some t) (new : List Check)
    (hchecks : s'.checks = become s.checks i new) (hpending : s'.pending = s.pending)
    (hcandidates : s'.candidates = s.candidates) (hconsumer : s'.consumer = s.consumer) :
    s'.owed q + t.holds q = s.owed q + (new.map (Check.holds q)).sum ∧
      s'.reserved + t.reserved = s.reserved + (new.map Check.reserved).sum := by
  have hholds := sum_become (Check.holds q) hcheck new
  have hreserved := sum_become Check.reserved hcheck new
  constructor
  · rw [owed, owed, hchecks, hpending, hcandidates, hconsumer, add_assoc, hholds, add_assoc]
    abel
  · rw [State.reserved, State.reserved, hchecks, hconsumer, add_assoc, hreserved, add_assoc]

lemma owed_consumer (s s' : State) (hpending : s'.pending = s.pending)
    (hcandidates : s'.candidates = s.candidates) (hchecks : s'.checks = s.checks) :
    s'.owed q + s.consumer.holds q = s.owed q + s'.consumer.holds q ∧
      s'.reserved + s.consumer.reserved = s.reserved + s'.consumer.reserved := by
  constructor
  · rw [owed, owed, hchecks, hpending, hcandidates]
    abel
  · rw [State.reserved, State.reserved, hchecks]
    omega

theorem Ledger.consumer (h : Ledger q s lost) {k k'} (hconsumer : s.consumer = k)
    (hholds : k.holds q = k'.holds q) (hreserved : k.reserved = k'.reserved) :
    Ledger q { s with consumer := k' } lost := by
  refine h.move ?_ id rfl ?_
  · simp only [owed, sent, hconsumer, hholds]
  · simp only [sent, State.reserved, hconsumer, hreserved]

theorem Ledger.check (h : Ledger q s lost) {i t} (hcheck : s.checks[i]? = some t)
    (new : List Check) (hholds : t.holds q = (new.map (Check.holds q)).sum)
    (hreserved : t.reserved = (new.map Check.reserved).sum) :
    Ledger q { s with checks := become s.checks i new } lost := by
  obtain ⟨howed, hsame⟩ := owed_become (q := q) { s with checks := become s.checks i new }
    hcheck new rfl rfl rfl rfl
  rw [hholds] at howed
  rw [hreserved] at hsame
  exact h.move (congrArg (· + s.sent) (add_right_cancel howed)) id rfl
    (congrArg (s.sent.card + ·) (add_right_cancel hsame))

theorem Ledger.cancel (h : Ledger q s lost) : Ledger q s.cancel lost :=
  h.move rfl (fun hnone => absurd hnone (cancel_ne_none _ _)) rfl rfl

/-- Every step keeps the ledger; only `drops` adds to what is lost. -/
theorem Ledger.step (h : Ledger q s lost) (hctx : s.ctx = none) (hcalm : s.calm q a = true)
    (hstep : Step q s a s') : Ledger q s' (lost + if s.drops a then 1 else 0) := by
  cases hstep with
  | expire => cases hcalm
  | reverseSent hreverse hpending hopen =>
    refine h.move ?_ id rfl rfl
    simp only [owed, sent, hpending, map_cons, map_append, map_nil,
      sum_cons, sum_append, sum_nil]
    abel
  | @reverseDropped res pending hreverse hpending hpool =>
    refine h.discard (q.carries res) 0 ?_ hpool rfl (Nat.zero_le _) rfl
    simp only [owed, sent, hpending, map_cons, sum_cons]
    abel
  | reverseClose | reverseFail | respondError | respond => exact h.move rfl id rfl rfl
  | reverseReturn => exact h.move rfl (fun hnone => absurd hnone (cancel_ne_none _ _)) rfl rfl
  | doneWithError hconsumer =>
    have hcancel : Ledger q { s.cancel with consumer := .waiting } lost :=
      h.cancel.consumer hconsumer rfl rfl
    exact hcancel.move rfl id rfl rfl
  | done hconsumer hdone => exact absurd hctx hdone
  | received hconsumer hbuf =>
    refine h.move ?_ id rfl ?_
    · simp only [owed, sent, hbuf, hconsumer, map_cons, sum_cons, holds]
      abel
    · simp only [sent, State.reserved, hconsumer, reserved]
  | drained hconsumer | failed hconsumer =>
    exact h.consumer hconsumer rfl rfl
  | @enough res c hconsumer hfull =>
    refine h.discard (q.carries res) 0 ?_ (cancel_ne_none _ _) rfl
      (Nat.zero_le _) ?_
    · simp only [owed, sent, State.cancel, hconsumer, holds]
      abel
    · simp only [State.reserved, sent, State.cancel, hconsumer, reserved, add_zero]
  | @noFurtherEval res c hconsumer hstatus =>
    have hcarries : q.carries res = {res.object} := by
      rw [Query.carries, Query.qualifies, hstatus]
      rfl
    exact h.consumer hconsumer hcarries rfl
  | @furtherEval res c hconsumer hstatus =>
    have hcarries : q.carries res = q.holds res.object := by
      simp [Query.carries, Query.qualifies, Query.holds, hstatus]
    exact h.consumer hconsumer hcarries rfl
  | @consumerTrySend t c s₁ t' hconsumer htry =>
    -- the consumer sends under the context of the request, which is not done
    generalize (if c = .done then SendCase.done else .send) = sendCase at htry
    have hkept : (if sendCase = .done then t.reserved else 0) = 0 := by
      cases htry with
      | dropped hdone => exact absurd hctx hdone
      | _ => simp [TrySend.reserved]
    have hframe := htry.frame
    obtain ⟨howed, hreserved⟩ := owed_consumer (q := q) s
      { s₁ with consumer := t'.elim .reading .trySend } (by rw [hframe]) (by rw [hframe])
      (by rw [hframe])
    show Ledger q _ (lost + 0)
    rw [← hkept]
    refine tries h htry (calm_consumer hcalm hconsumer) ?_ ?_ rfl rfl (by rw [hframe])
      (fun hdone => absurd hctx hdone)
    · rw [hconsumer] at howed
      cases t' <;> exact howed
    · rw [hconsumer] at hreserved
      cases t' <;> exact hreserved
  | started hconsumer =>
    refine h.move ?_ id rfl ?_
    · simp [owed, sent, hconsumer, holds, Check.holds]
      abel
    · simp [sent, State.reserved, hconsumer, reserved, Check.reserved]
  | close hconsumer | report hconsumer =>
    refine h.move ?_ id rfl ?_
    · simp [owed, sent, hconsumer, holds, payload]
    · simp [sent, State.reserved, hconsumer, reserved, payload]
  | @checkCancelled i object hcheck hpool =>
    obtain ⟨howed, hreserved⟩ := owed_become (q := q)
      { s.addErr .cancelled with checks := become s.checks i [] } hcheck [] rfl rfl rfl rfl
    have hdrops : s.drops (.check i .done) = false := by simp [drops, hcheck]
    rw [hdrops]
    refine h.discard (q.holds object) 0 ?_ (cancel_ne_none _ _) rfl
      (Nat.zero_le _) ?_
    · rw [add_right_comm]
      exact congrArg (· + s.sent) (howed.trans (add_zero _))
    · exact congrArg (s.sent.card + ·) hreserved
  | @checkAllowed i object hcheck houtcome =>
    exact h.check hcheck [.trySend (.adding object)] (if_pos houtcome) rfl
  | checkDenied hcheck houtcome =>
    exact h.check hcheck [] (if_neg (by rw [houtcome]; decide)) rfl
  | checkFailed hcheck houtcome =>
    have hfailed := h.cancel.check hcheck [] (if_neg (by rw [houtcome]; simp)) rfl
    exact hfailed.move rfl id rfl rfl
  | @checkTrySend i t c s₁ t' hcheck htry =>
    have hdrops : (if s.drops (.check i c) then 1 else 0) = if c = .done then t.reserved
        else 0 := by
      cases c <;> cases t <;> simp [drops, hcheck, TrySend.reserved]
    have hframe := htry.frame
    obtain ⟨howed, hreserved⟩ := owed_become (q := q)
      { s₁ with checks := become s.checks i (t'.map Check.trySend).toList } hcheck
        (t'.map Check.trySend).toList rfl
      (by rw [hframe]) (by rw [hframe]) (by rw [hframe])
    rw [hdrops]
    refine tries h htry (calm_check hcalm hcheck) ?_ ?_ rfl rfl (by rw [hframe]) id
    · cases t' <;> exact howed
    · cases t' <;> exact hreserved
  | object hresponse hbuf =>
    have hsent := sent_receive hbuf (s.objects ++ [_]) rfl
    exact h.move (congrArg (s.owed q + ·) hsent) id rfl
      (congrArg (Multiset.card · + s.reserved) hsent)
  | errored hresponse hbuf | evaluationFailed hresponse hbuf =>
    have hsent := sent_receive hbuf s.objects (add_zero _).symm
    exact h.move (congrArg (s.owed q + ·) hsent) id rfl
      (congrArg (Multiset.card · + s.reserved) hsent)

end

/-! ## Where the goroutines are -/

/-- The consumer left its loop. -/
def Consumer.left : Consumer → Bool
  | .waiting | .reporting _ | .closed => true
  | _ => false

/-- `pool.Wait` returned. -/
def Consumer.finished : Consumer → Bool
  | .reporting _ | .closed => true
  | _ => false

/-- `objectsFound` reached the limit. -/
def State.full (q : Query) (s : State) : Prop :=
  q.maxResults ≠ 0 ∧ q.maxResults ≤ s.objectsFound

/-- The failure is on its way to the response, or `Execute` knows it. -/
def State.reports (s : State) (f : Failure) : Prop :=
  .error f ∈ s.results.buf ∨ (f = .evaluationFailed ∧ s.errs ≠ []) ∨
    ∃ e, s.response = some (.error e)

/-- How far the goroutines of a calm run are. -/
structure Control (q : Query) (s : State) : Prop where
  ctx : s.ctx = none
  /-- The tasks are cancelled after a failure, or when there are enough objects. -/
  stopped : s.poolCtx ≠ none → (∃ f, s.error = some (.failed f)) ∨ s.full q
  cancelled : s.error = some .cancelled → s.full q
  returning : ∀ e, s.reverse = .returning e → e = .cancelled ∧ s.poolCtx ≠ none
  signalled : s.doneWithError = true → s.poolCtx ≠ none
  closed : s.candidates.closed = true → s.pending = [] ∧ s.reverse = .returned
  returned : s.reverse = .returned → s.poolCtx ≠ none ∨ s.candidates.closed = true
  left : s.consumer.left = true →
    s.poolCtx ≠ none ∨ (s.candidates.closed = true ∧ s.candidates.buf = [])
  finished : s.consumer.finished = true → s.reverse = .returned ∧ s.checks = []
  reporting : ∀ f, s.consumer = .reporting f → s.error = some (.failed f)
  reported : s.consumer = .closed → ∀ f, s.error = some (.failed f) → s.reports f
  resultsClosed : s.results.closed = true → s.consumer = .closed
  response : ∀ objects, s.response = some (.ok objects) →
    s.results.closed = true ∧ s.results.buf = [] ∧ objects = s.objects ∧
      (s.objects.length < q.maxResults.toNat → s.errs = [])

section
variable {q : Query} {s s' : State} {a : Act}

lemma control_start (q : Query) : Control q (start q) where
  ctx := rfl
  stopped h := absurd rfl h
  cancelled := nofun
  returning := nofun
  signalled := nofun
  closed := nofun
  returned := nofun
  left := nofun
  finished := nofun
  reporting := nofun
  reported := nofun
  resultsClosed := nofun
  response := nofun

lemma State.ne_closed (h : s.consumer.finished = false) :
    (∀ f, s.consumer ≠ .reporting f) ∧ s.consumer ≠ .closed := by
  cases hs : s.consumer <;> simp_all [finished]

section
variable (h : Control q s)
include h

theorem Control.consumer {k} (hleft : k.left = true →
      s.poolCtx ≠ none ∨ (s.candidates.closed = true ∧ s.candidates.buf = []))
    (hnot : s.consumer.finished = false) (hk : k.finished = false) :
    Control q { s with consumer := k } :=
  { h with
    left := hleft
    finished := fun hfinished => absurd (hk ▸ hfinished) Bool.false_ne_true
    reporting := by rintro f rfl; cases hk
    reported := by rintro rfl; cases hk
    resultsClosed := fun hclosed => absurd (h.resultsClosed hclosed) (State.ne_closed hnot).2 }

theorem Control.cancel
    (hstopped : (∃ f, s.error = some (.failed f)) ∨ s.full q) : Control q s.cancel :=
  { h with
    stopped := fun _ => hstopped
    returning := fun e he => ⟨(h.returning e he).1, cancel_ne_none _ _⟩
    signalled := fun _ => cancel_ne_none _ _
    returned := fun _ => .inl (cancel_ne_none _ _)
    left := fun _ => .inl (cancel_ne_none _ _) }

lemma Control.addErr {e} (hfinished : s.consumer.finished = false)
    (hcancelled : e = .cancelled → s.poolCtx ≠ none) : Control q (s.addErr e) := by
  have hstopped : (∃ f, s.error.or (some e) = some (.failed f)) ∨ s.full q := by
    cases herror : s.error with
    | some e' =>
      cases e' with
      | failed f => exact .inl ⟨f, rfl⟩
      | cancelled => exact .inr (h.cancelled herror)
    | none =>
      cases e with
      | failed f => exact .inl ⟨f, rfl⟩
      | cancelled =>
        obtain ⟨f, hf⟩ | hfull := h.stopped (hcancelled rfl)
        · rw [herror] at hf
          cases hf
        · exact .inr hfull
  exact { h with
    stopped := fun _ => hstopped
    cancelled := fun heq => by
      obtain ⟨f, hf⟩ | hfull := hstopped
      · cases hf.symm.trans heq
      · exact hfull
    returning := fun e he => ⟨(h.returning e he).1, cancel_ne_none _ _⟩
    signalled := fun _ => cancel_ne_none _ _
    returned := fun _ => .inl (cancel_ne_none _ _)
    left := fun _ => .inl (cancel_ne_none _ _)
    reporting := fun f hf => absurd hf ((State.ne_closed hfinished).1 f)
    reported := fun hclosed => absurd hclosed (State.ne_closed hfinished).2 }

theorem Control.checks (hfinished : s.consumer.finished = false)
    (checks : List Check) : Control q { s with checks } :=
  { h with finished := fun hleft => absurd (hfinished ▸ hleft) Bool.false_ne_true }

/-- While a check runs, `pool.Wait` does not return. -/
lemma Control.not_finished {i : Nat} {t : Check}
    (hcheck : s.checks[i]? = some t) : s.consumer.finished = false := by
  by_contra hne
  rw [(h.finished (eq_true_of_not_eq_false hne)).2] at hcheck
  cases hcheck

lemma Control.tries {ctx c t t'}
    (hwrap : q.maxResults ≠ 0 → t.reserved = 0 → s.objectsFound.toNat + 1 < 2 ^ 32)
    (hfinished : s.consumer.finished = false) (htry : Tries q s ctx c t s' t') : Control q s' := by
  have hadded (hmax : q.maxResults ≠ 0) (ht : t.reserved = 0) :
      Control q { s with objectsFound := s.objectsFound + 1 } := by
    have hfull (h : s.full q) : q.maxResults ≠ 0 ∧ q.maxResults ≤ s.objectsFound + 1 := by
      have hle := h.2
      have hadd : (s.objectsFound + 1).toNat = s.objectsFound.toNat + 1 := by
        rw [UInt32.toNat_add]
        exact Nat.mod_eq_of_lt (hwrap hmax ht)
      rw [UInt32.le_iff_toNat_le] at hle ⊢
      exact ⟨hmax, by omega⟩
    exact { h with
      stopped := fun hne => (h.stopped hne).imp id hfull
      cancelled := fun heq => hfull (h.cancelled heq) }
  cases htry with
  | unlimited => exact h
  | reserved hmax => exact hadded hmax rfl
  | refused hmax => exact hadded hmax rfl
  | sent hopen =>
    exact { h with
      reported := fun hclosed => absurd hclosed (State.ne_closed hfinished).2
      response := fun objects hresponse => by
        have hclosed := (h.response objects hresponse).1
        rw [hopen] at hclosed
        cases hclosed }
  | dropped => exact h

end

/-- The failures that are reported stay so while `Execute` reads. -/
lemma reports_receive {f r buf} (hbuf : s.results.buf = r :: buf) (h : s.reports f) :
    r = .error f ∨ .error f ∈ buf ∨ (f = .evaluationFailed ∧ s.errs ≠ []) ∨
      ∃ e, s.response = some (.error e) := by
  rcases h with h | h
  · rw [hbuf, mem_cons] at h
    exact h.elim (fun heq => .inl heq.symm) fun hmem => .inr (.inl hmem)
  · exact .inr (.inr h)

/-- Every step of a calm run keeps the control. -/
theorem Control.step (h : Control q s) (hcalm : s.calm q a = true) (hstep : Step q s a s') :
    Control q s' := by
  cases hstep with
  | expire => cases hcalm
  | reverseSent hreverse hpending hopen =>
    exact { h with
      closed := fun hclosed => absurd (hopen ▸ hclosed) Bool.false_ne_true
      left := fun hleft => (h.left hleft).imp id fun hclosed =>
        absurd (hopen ▸ hclosed.1) Bool.false_ne_true }
  | reverseDropped hreverse hpending hpool =>
    exact { h with
      closed := fun hclosed => absurd (h.closed hclosed).2 (by simp [hreverse]) }
  | reverseClose hreverse hpending =>
    exact { h with
      returning := nofun
      closed := fun _ => ⟨hpending, rfl⟩
      returned := fun _ => .inr rfl
      left := fun hleft => (h.left hleft).imp id fun hclosed => ⟨rfl, hclosed.2⟩
      finished := fun hfinished => ⟨rfl, (h.finished hfinished).2⟩ }
  | @reverseFail e hreverse hpool =>
    have he : e = .cancelled := by
      cases e with
      | cancelled => rfl
      | failed f => cases hcalm
    have hnot : s.reverse ≠ .returned := by simp [hreverse]
    exact { h with
      returning := fun e' he' => ⟨(Reverse.returning.inj he').symm.trans he, hpool he⟩
      signalled := fun _ => hpool he
      closed := fun hclosed => absurd (h.closed hclosed).2 hnot
      returned := nofun
      finished := fun hfinished => absurd (h.finished hfinished).1 hnot }
  | @reverseReturn e hreverse =>
    have hnot : s.reverse ≠ .returned := by simp [hreverse]
    obtain ⟨rfl, hpool⟩ := h.returning e hreverse
    have hfinished : s.consumer.finished = false := by
      by_contra hne
      exact hnot (h.finished (eq_true_of_not_eq_false hne)).1
    have hadd := h.addErr (e := .cancelled) hfinished fun _ => hpool
    exact { hadd with
      returning := nofun
      closed := fun hclosed => absurd (h.closed hclosed).2 hnot
      returned := fun _ => .inl (cancel_ne_none _ _)
      finished := fun hleft => absurd (hfinished ▸ hleft) Bool.false_ne_true }
  | doneWithError hconsumer hdone =>
    have hcancel := (h.cancel (h.stopped (h.signalled hdone))).consumer (k := .waiting)
      (fun _ => .inl (cancel_ne_none _ _)) (by rw [State.cancel, hconsumer]; rfl) rfl
    exact { hcancel with signalled := nofun }
  | done hconsumer hdone => exact absurd h.ctx hdone
  | @received res buf hconsumer hbuf =>
    have hconsume := h.consumer (k := .received res) nofun (by rw [hconsumer]; rfl) rfl
    exact { hconsume with closed := h.closed, left := nofun }
  | drained hconsumer hbuf hclosed =>
    exact h.consumer (fun _ => .inr ⟨hclosed, hbuf⟩) (by rw [hconsumer]; rfl) rfl
  | enough hconsumer hfull =>
    exact (h.cancel (.inr hfull)).consumer (fun _ => .inl (cancel_ne_none _ _))
      (by rw [State.cancel, hconsumer]; rfl) rfl
  | noFurtherEval hconsumer hstatus | furtherEval hconsumer hstatus =>
    exact h.consumer nofun (by rw [hconsumer]; rfl) rfl
  | @consumerTrySend t c s₁ t' hconsumer htry =>
    have hfinished : s.consumer.finished = false := by rw [hconsumer]; rfl
    have hsame : s₁.consumer = s.consumer := by rw [htry.frame]
    refine (h.tries (calm_consumer hcalm hconsumer) hfinished htry).consumer ?_
      (by rw [hsame]; exact hfinished) ?_
    · cases t' <;> exact nofun
    · cases t' <;> rfl
  | @started object c hconsumer =>
    have hfinished : s.consumer.finished = false := by rw [hconsumer]; rfl
    exact (h.checks hfinished (s.checks ++ [.checking object])).consumer
      (k := .reading) nofun hfinished rfl
  | @failed f c hconsumer hreverse hchecks herror =>
    exact { h with
      left := fun _ => h.left (by rw [hconsumer]; rfl)
      finished := fun _ => ⟨hreverse, hchecks⟩
      reporting := fun f' hf' => by
        cases hf'
        exact herror
      reported := nofun
      resultsClosed := fun hclosed => by
        have hclosed := h.resultsClosed hclosed
        rw [hconsumer] at hclosed
        cases hclosed }
  | close hconsumer hreverse hchecks herror =>
    exact { h with
      left := fun _ => h.left (by rw [hconsumer]; rfl)
      finished := fun _ => ⟨hreverse, hchecks⟩
      reporting := nofun
      reported := fun _ f hf => absurd hf (herror f)
      resultsClosed := fun _ => rfl
      response := fun objects hresponse =>
        ⟨rfl, (h.response objects hresponse).2⟩ }
  | @report f c hconsumer hopen =>
    exact { h with
      left := fun _ => h.left (by rw [hconsumer]; rfl)
      finished := fun _ => h.finished (by rw [hconsumer]; rfl)
      reporting := nofun
      reported := fun _ f' hf' => by
        rw [h.reporting f hconsumer] at hf'
        cases hf'
        exact .inl (mem_append_right _ mem_cons_self)
      resultsClosed := fun _ => rfl
      response := fun objects hresponse => by
        have hclosed := (h.response objects hresponse).1
        rw [hopen] at hclosed
        cases hclosed }
  | checkCancelled hcheck hpool =>
    have hfinished := h.not_finished hcheck
    exact (h.addErr hfinished fun _ => hpool).checks hfinished _
  | checkAllowed hcheck | checkDenied hcheck => exact h.checks (h.not_finished hcheck) _
  | @checkFailed i object f hcheck =>
    have hfinished := h.not_finished hcheck
    exact (h.addErr (e := .failed f) hfinished nofun).checks hfinished _
  | @checkTrySend i t c s₁ t' hcheck htry =>
    have hfinished := h.not_finished hcheck
    have hsame : s₁.consumer = s.consumer := by rw [htry.frame]
    exact (h.tries (calm_check hcalm hcheck) hfinished htry).checks
      (by rw [hsame]; exact hfinished) _
  | object hresponse hbuf =>
    exact { h with
      reported := fun hclosed f hf =>
        (reports_receive hbuf (h.reported hclosed f hf)).elim nofun id
      response := fun objects hsome => by cases hresponse.symm.trans hsome }
  | errored hresponse hbuf =>
    exact { h with
      reported := fun hclosed f hf => .inr (.inr ⟨_, rfl⟩)
      response := nofun }
  | evaluationFailed hresponse hbuf =>
    exact { h with
      reported := fun hclosed f hf => by
        obtain heq | hmem | ⟨heq, -⟩ | herror := reports_receive hbuf (h.reported hclosed f hf)
        · cases heq
          exact .inr (.inl ⟨rfl, append_ne_nil_of_right_ne_nil _ (cons_ne_nil _ _)⟩)
        · exact .inl hmem
        · exact .inr (.inl ⟨heq, append_ne_nil_of_right_ne_nil _ (cons_ne_nil _ _)⟩)
        · exact .inr (.inr herror)
      response := fun objects hsome => by cases hresponse.symm.trans hsome }
  | respondError hresponse hbuf hclosed =>
    exact { h with
      reported := fun _ f hf => .inr (.inr ⟨_, rfl⟩)
      response := nofun }
  | respond hresponse hbuf hclosed herrs =>
    exact { h with
      reported := fun hconsumer f hf => by
        obtain hmem | herrs' | ⟨e, he⟩ := h.reported hconsumer f hf
        · exact .inl hmem
        · exact .inr (.inl herrs')
        · cases hresponse.symm.trans he
      response := fun objects hsome => by
        cases hsome
        exact ⟨hclosed, hbuf, rfl, herrs⟩ }

/-! ## The response -/

lemma sum_carries (l : List ReverseExpandResult) :
    (l.map q.carries).sum =
      ((l.filter q.qualifies).map ReverseExpandResult.object : List String) := by
  induction l with
  | nil => rfl
  | cons res l ih =>
    rw [map_cons, sum_cons, ih, Query.carries, filter_cons]
    split_ifs with hqualifies
    · rfl
    · exact zero_add _

lemma ledger_start (q : Query) : Ledger q (start q) 0 := by
  refine ⟨⟨0, ?_, ?_, fun _ => ?_⟩, fun _ => ?_⟩
  · have hsum := sum_carries (q := q) q.candidates
    simp only [owed, sent, start, Chan.make_buf, map_nil, sum_nil, holds,
      add_zero, hsum]
    exact (add_zero _).symm
  · simp [refused, start]
  · simp [refused, start]
  · simp [sent, State.reserved, start, reserved]

/-- The objects of a response and those on their way are different objects that qualify. -/
lemma Ledger.sent_le {lost} (h : Ledger q s lost) : s.sent ≤ q.qualifying := by
  obtain ⟨gone, hgone, -⟩ := h.gone
  rw [hgone, add_right_comm]
  exact Multiset.le_add_left _ _

/-- What is known when `Execute` returns without an error. -/
structure Answered (q : Query) (s : State) (lost : Nat) (objects : List String) : Prop where
  le : (objects : Multiset String) ≤ q.qualifying
  count : q.maxResults ≠ 0 → objects.length + lost = min q.maxResults.toNat s.objectsFound.toNat
  bound : objects.length + lost + s.refused q ≤ q.qualifying.length
  /-- Without a failure and below the limit, every candidate was processed. -/
  complete : s.poolCtx = none → objects.length + s.refused q = q.qualifying.length
  /-- A failure that did not end the query was one of a condition, and the response is full. -/
  failed : ∀ f, s.error = some (.failed f) →
    f = .evaluationFailed ∧ q.maxResults.toNat ≤ objects.length

theorem answered {lost objects} (hledger : Ledger q s lost)
    (hcontrol : Control q s) (hresponse : s.response = some (.ok objects)) :
    Answered q s lost objects := by
  obtain ⟨hclosed, hbuf, rfl, herrs⟩ := hcontrol.response objects hresponse
  have hconsumer := hcontrol.resultsClosed hclosed
  obtain ⟨hreverse, hchecks⟩ := hcontrol.finished (by rw [hconsumer]; rfl)
  have hsent : s.sent = s.objects := by simp [sent, hbuf]
  have hreserved : s.reserved = 0 := by simp [State.reserved, hconsumer, hchecks, reserved]
  obtain ⟨gone, hgone, hlost, hgone'⟩ := hledger.gone
  have hlength := congrArg Multiset.card hgone
  rw [hsent, Multiset.card_add, Multiset.card_add, Multiset.coe_card, Multiset.coe_card] at hlength
  refine ⟨hsent ▸ hledger.sent_le, fun hmax => ?_, by omega, fun hpool => ?_, fun f hf => ?_⟩
  · have hcount := hledger.count hmax
    rw [hsent, hreserved, Multiset.coe_card] at hcount
    exact hcount
  · have hclosed : s.candidates.closed = true :=
      (hcontrol.returned hreverse).resolve_left fun hne => hne hpool
    have hdrained := (hcontrol.left (by rw [hconsumer]; rfl)).resolve_left fun hne => hne hpool
    have howed : s.owed q = 0 := by
      simp [owed, (hcontrol.closed hclosed).1, hdrained.2, hconsumer, hchecks, holds]
    rw [howed, Multiset.card_zero] at hlength
    have := hgone' hpool
    omega
  · obtain hmem | ⟨hf, hne⟩ | ⟨e, he⟩ := hcontrol.reported hconsumer f hf
    · rw [hbuf] at hmem
      cases hmem
    · refine ⟨hf, Nat.le_of_not_lt fun hlt => hne (herrs hlt)⟩
    · cases hresponse.symm.trans he

/-- The pool's error is that of a condition only if a condition failed to evaluate. -/
lemma error_step (hcontrol : Control q s) (hstep : Step q s a s')
    (hfails : s.evaluationFails q a = false) (herror : s.error ≠ some (.failed .evaluationFailed)) :
    s'.error ≠ some (.failed .evaluationFailed) := by
  cases hstep with
  | @reverseReturn e hreverse =>
    obtain ⟨rfl, -⟩ := hcontrol.returning e hreverse
    cases hs : s.error <;> simp_all [State.addErr]
  | checkCancelled => cases hs : s.error <;> simp_all [State.addErr]
  | @checkFailed i object f hcheck houtcome =>
    have hf : f ≠ .evaluationFailed := by
      rintro rfl
      simp [evaluationFails, hcheck, houtcome] at hfails
    cases hs : s.error <;> simp_all [State.addErr]
  | consumerTrySend hconsumer htry | checkTrySend hcheck htry =>
    rw [htry.frame]
    exact herror
  | _ => exact herror

section
variable {acts : List Act} {objects : List String}

section
variable (hcalm : Lts.Meets (State.step q) (fun s a => s.calm q a = true) (start q) acts)
include hcalm

lemma exists_ledger
    (hrun : Lts.run (State.step q) (start q) acts = some s) :
    (∃ lost, Ledger q s lost) ∧ Control q s := by
  refine Lts.run_invariant (I := fun s => (∃ lost, Ledger q s lost) ∧ Control q s) ?_
    ⟨⟨0, ledger_start q⟩, control_start q⟩ hcalm hrun
  rintro s a s' ⟨⟨lost, hledger⟩, hcontrol⟩ hok h
  have hstep := step_cases h
  exact ⟨⟨_, hledger.step hcontrol.ctx hok hstep⟩, hcontrol.step hok hstep⟩

lemma error_ne
    (hmeets : Lts.Meets (State.step q) (fun s a => s.evaluationFails q a = false) (start q) acts)
    (hrun : Lts.run (State.step q) (start q) acts = some s) :
    s.error ≠ some (.failed .evaluationFailed) := by
  have hend := Lts.run_invariant
    (I := fun s => Control q s ∧ s.error ≠ some (.failed .evaluationFailed)) ?_
    ⟨control_start q, nofun⟩ (hcalm.and hmeets) hrun
  · exact hend.2
  · rintro s a s' ⟨hcontrol, herror⟩ ⟨hcalm, hfails⟩ h
    have hstep := step_cases h
    exact ⟨hcontrol.step hcalm hstep, error_step hcontrol hstep hfails herror⟩

end

lemma Ledger.lost_eq {lost lost'} (h : Ledger q s lost) (h' : Ledger q s lost')
    (hmax : q.maxResults ≠ 0) : lost = lost' := by
  have hcount := h.count hmax
  have hcount' := h'.count hmax
  omega

/-- With a limit, nothing is lost exactly if no step drops an object that has a place. -/
lemma ledger_zero_iff (hmax : q.maxResults ≠ 0)
    (hcalm : Lts.Meets (State.step q) (fun s a => s.calm q a = true) (start q) acts)
    (hrun : Lts.run (State.step q) (start q) acts = some s) :
    Ledger q s 0 ↔ Lts.Meets (State.step q) (fun s a => s.keeps q a = true) (start q) acts := by
  have hkeeps (s : State) (a : Act) : s.keeps q a = !s.drops a := by rw [keeps, if_neg hmax]
  refine Lts.iff_meets_within (I := fun s => Ledger q s 0 ∧ Control q s)
    (B := fun s => ∃ n, Ledger q s (n + 1) ∧ Control q s) ?_ ?_ ?_ (fun _ h => h.1) ?_
    ⟨ledger_start q, control_start q⟩ hcalm hrun
  · rintro s a s' ⟨hledger, hcontrol⟩ hok hkeep h
    have hstep := step_cases h
    have hledger' := hledger.step hcontrol.ctx hok hstep
    rw [hkeeps, not_eq_true'] at hkeep
    rw [hkeep] at hledger'
    exact ⟨hledger', hcontrol.step hok hstep⟩
  · rintro s a s' ⟨hledger, hcontrol⟩ hok hkeep h
    have hstep := step_cases h
    have hledger' := hledger.step hcontrol.ctx hok hstep
    rw [hkeeps, not_eq_true', not_eq_false] at hkeep
    rw [hkeep] at hledger'
    exact ⟨0, hledger', hcontrol.step hok hstep⟩
  · rintro s a s' ⟨n, hledger, hcontrol⟩ hok h
    have hstep := step_cases h
    have hledger' := hledger.step hcontrol.ctx hok hstep
    rw [Nat.add_right_comm] at hledger'
    exact ⟨_, hledger', hcontrol.step hok hstep⟩
  · rintro s ⟨n, hledger, -⟩ hzero
    exact Nat.succ_ne_zero n (hledger.lost_eq hzero hmax)

/-- With a limit, the response has the right length exactly if nothing is lost. -/
lemma Answered.length_iff {lost} (h : Answered q s lost objects) (hcontrol : Control q s)
    (hmax : q.maxResults ≠ 0) : objects.length = q.expected ↔ lost = 0 := by
  have hcount := h.count hmax
  have hbound := h.bound
  rw [refused, if_neg hmax] at hbound
  rw [Query.expected, if_neg hmax]
  constructor
  · intro hlength
    omega
  · rintro rfl
    by_cases hfull : s.full q
    · have hle := UInt32.le_iff_toNat_le.mp hfull.2
      omega
    · have hlt : s.objectsFound.toNat < q.maxResults.toNat := by
        rw [← UInt32.lt_iff_toNat_lt, ← UInt32.not_le]
        exact fun hle => hfull ⟨hmax, hle⟩
      have hpool : s.poolCtx = none := by
        by_contra hne
        obtain ⟨f, hf⟩ := (hcontrol.stopped hne).resolve_right hfull
        have := (h.failed f hf).2
        omega
      have hcomplete := h.complete hpool
      rw [refused, if_neg hmax] at hcomplete
      omega

/-- Without a limit, the response is complete if no condition failed to evaluate. -/
lemma Answered.length_unlimited {lost} (h : Answered q s lost objects)
    (hcontrol : Control q s) (hmax : q.maxResults = 0)
    (herror : s.error ≠ some (.failed .evaluationFailed)) : objects.length = q.expected := by
  have hpool : s.poolCtx = none := by
    by_contra hne
    obtain ⟨f, hf⟩ | hfull := hcontrol.stopped hne
    · rw [(h.failed f hf).1] at hf
      exact herror hf
    · exact hfull.1 hmax
  have hcomplete := h.complete hpool
  rw [refused, if_pos hmax] at hcomplete
  rw [Query.expected, if_pos hmax]
  exact hcomplete

/-- When `Execute` returns without an error, the response is as promised exactly if no
    goroutine dropped an object that it had reserved a place for, or, without a limit, if no
    condition failed to evaluate. -/
theorem execute_answers_iff (q : Query) (acts : List Act) (s : State) (objects : List String)
    (hnodup : (q.candidates.map ReverseExpandResult.object).Nodup)
    (hcalm : Lts.Meets (State.step q) (fun s a => s.calm q a = true) (start q) acts)
    (hrun : Lts.run (State.step q) (start q) acts = some s)
    (hresponse : s.response = some (.ok objects)) :
    q.Answers acts objects ↔
      Lts.Meets (State.step q) (fun s a => s.keeps q a = true) (start q) acts := by
  obtain ⟨⟨lost, hledger⟩, hcontrol⟩ := exists_ledger hcalm hrun
  have hanswered := answered hledger hcontrol hresponse
  have hqualifying : q.qualifying.Nodup := hnodup.sublist (filter_sublist.map _)
  have hsub : objects.Subperm q.qualifying := Multiset.coe_le.mp hanswered.le
  have hanswers (hlength : objects.length = q.expected)
      (hnoError : q.maxResults = 0 →
        Lts.Meets (State.step q) (fun s a => s.evaluationFails q a = false) (start q) acts) :
      q.Answers acts objects :=
    ⟨Multiset.coe_nodup.mp (Multiset.nodup_of_le hanswered.le (Multiset.coe_nodup.mpr hqualifying)),
      fun _ hmem => hsub.subset hmem, hlength, hnoError⟩
  by_cases hmax : q.maxResults = 0
  · have hkeeps : (fun (s : State) a => s.keeps q a = true) =
        fun s a => s.evaluationFails q a = false := by
      funext s a
      rw [keeps, if_pos hmax, not_eq_true']
    rw [hkeeps]
    refine ⟨fun h => h.noError hmax, fun hmeets => hanswers ?_ fun _ => hmeets⟩
    exact hanswered.length_unlimited hcontrol hmax (error_ne hcalm hmeets hrun)
  · rw [← ledger_zero_iff hmax hcalm hrun]
    have hzero : lost = 0 ↔ Ledger q s 0 :=
      ⟨fun h => h ▸ hledger, fun h => hledger.lost_eq h hmax⟩
    rw [← hzero, ← hanswered.length_iff hcontrol hmax]
    exact ⟨fun h => h.length, fun h => hanswers h fun hzero => absurd hzero hmax⟩

end

end

/-- A query for at most one object. -/
private def oneObject : Query :=
  ⟨1, 10, [⟨"document:1", .requiresFurtherEval⟩, ⟨"document:2", .requiresFurtherEval⟩],
    fun _ => .allowed⟩

/-- The check of the first candidate reserves the place. -/
private def reserving : List Act :=
  [.reverseSend .send, .reverseSend .send, .reverseClose, .consumer .channel, .consumer .channel,
    .consumer .channel, .check 0 .send, .check 0 .send, .consumer .channel]

/-- The object is sent before the consumer sees that there are enough. -/
private def sending : List Act :=
  reserving ++ [.check 0 .send, .consumer .channel, .consumer .channel, .receive, .receive]

theorem execute_answers_iff_sending :
    ∃ s, Lts.run (State.step oneObject) (start oneObject) sending = some s ∧
      s.response = some (.ok ["document:1"]) ∧
      (oneObject.Answers sending ["document:1"] ↔ Lts.Meets (State.step oneObject)
        (fun s a => s.keeps oneObject a = true) (start oneObject) sending) :=
  ⟨_, rfl, rfl, execute_answers_iff oneObject sending _ _ (by decide)
    (Lts.meets_of_check (by decide)) rfl rfl⟩

/-- The consumer cancels the context, and the select drops the object. -/
private def dropping : List Act :=
  reserving ++ [.consumer .channel, .check 0 .done, .consumer .channel, .receive]

/-- A query without a limit, where the second check fails. -/
private def everyObject : Query :=
  ⟨0, 10, [⟨"document:1", .noFurtherEval⟩, ⟨"document:2", .requiresFurtherEval⟩],
    fun _ => .failed .evaluationFailed⟩

private def evaluating : List Act :=
  [.reverseSend .send, .reverseSend .send, .reverseClose, .consumer .channel, .consumer .channel,
    .consumer .channel, .consumer .channel, .receive, .consumer .channel, .consumer .channel,
    .consumer .channel, .check 0 .send, .consumer .channel, .consumer .channel, .consumer .channel,
    .receive, .receive]

/-- A query for one object, two of which are allowed, answers none; and a query without a limit
    does not report the condition that fails to evaluate. -/
theorem execute_incomplete :
    (∃ s, Lts.run (State.step oneObject) (start oneObject) dropping = some s ∧
      s.response = some (.ok []) ∧ oneObject.expected = 1) ∧
    ∃ s, Lts.run (State.step everyObject) (start everyObject) evaluating = some s ∧
      s.response = some (.ok ["document:1"]) ∧ s.error = some (.failed .evaluationFailed) :=
  ⟨⟨_, rfl, rfl, rfl⟩, ⟨_, rfl, rfl, rfl⟩⟩

end OpenFGA.ListObjects
