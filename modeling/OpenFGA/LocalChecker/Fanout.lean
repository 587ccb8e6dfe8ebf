/-
  The two reducers of `internal/graph/check.go` that fan out over a pool: `union`
  and `intersection`.

  Both launch one task per handler, each of which runs the handler and offers its
  outcome to one shared channel with a slot per handler; a further goroutine
  closes the channel once the pool has drained.  The consumer then runs its loop
  body `len(handlers)` times.  The two functions differ only in that body, so
  there is one `Reducer` with the body as a parameter.

  In both loops the `break` under `if !ok` leaves the select and not the loop.  A
  closed and drained channel therefore counts as an iteration without an outcome,
  and the loop can end with the outcomes of dropped sends missing.
  `answersForDropped` is the step at which this decides the answer.
-/

import OpenFGA.Lib.Run
import OpenFGA.Concurrency

namespace OpenFGA.LocalChecker
open List Option

/-- `ResolveCheckResponse`, with the one field of its metadata the reducers read. -/
structure ResolveCheckResponse where
  allowed : Bool
  cycleDetected : Bool
deriving DecidableEq, Repr

/-- `checkOutcome`: what `runHandler` returns. -/
structure CheckOutcome where
  resp : Option ResolveCheckResponse
  err : Option Err
deriving DecidableEq, Repr

namespace CheckOutcome

/-- Allowed, without an error and without a cycle. -/
def Allows (o : CheckOutcome) : Prop := o.err = none ∧ o.resp = some ⟨true, false⟩

/-- Denied without an error; the denial may come from a cycle. -/
def Denies (o : CheckOutcome) : Prop := o.err = none ∧ ∃ r, o.resp = some r ∧ r.allowed = false

/-- `GetAllowed`, which reads nil as denied. -/
def getAllowed (o : CheckOutcome) : Bool := (o.resp.map ResolveCheckResponse.allowed).getD false

/-- `GetCycleDetected`, which reads nil as no cycle. -/
def getCycleDetected (o : CheckOutcome) : Bool :=
  (o.resp.map ResolveCheckResponse.cycleDetected).getD false

end CheckOutcome

/-! ## The pool and the loop -/

/-- A pool task: still running its handler, or past `TrySendThroughChannel`. -/
inductive TaskPhase where
  | evaluating
  | sent
  | dropped
deriving DecidableEq, Repr

structure Task where
  /-- What `runHandler` returns for this handler. -/
  outcome : CheckOutcome
  phase : TaskPhase
deriving DecidableEq, Repr

/-- What the loop body does with a received outcome. -/
inductive Flow where
  | next (finalErr : Option Err) (finalResult : ResolveCheckResponse)
  | return (res : ResolveCheckResponse)
deriving DecidableEq, Repr

/-- The loop body, from `finalErr`, `finalResult` and the outcome; `none` is the
    nil dereference of an outcome with neither a response nor an error. -/
abbrev Body := Option Err → ResolveCheckResponse → CheckOutcome → Option Flow

/-- The state of a running `union` or `intersection`. -/
structure Reducer where
  /-- The parent context. -/
  ctx : Context
  concurrencyLimit : Nat
  tasks : List Task
  /-- How many tasks `pool.Go` has started. -/
  launched : Nat
  out : Chan CheckOutcome
  i : Nat
  finalErr : Option Err
  finalResult : ResolveCheckResponse
  ret : Option (Option ResolveCheckResponse × Option Err)
deriving Repr

namespace Reducer

/-- `cancellableCtx`: the deferred `cancel()` ends it when the reducer returns. -/
def cancellableCtx (s : Reducer) : Context := if s.ret.isSome then s.ctx.cancel false else s.ctx

def running (s : Reducer) : Nat :=
  (s.tasks.take s.launched).countP fun t => t.phase = .evaluating

def return' (s : Reducer) (res : Option ResolveCheckResponse) (err : Option Err) : Reducer :=
  { s with ret := some (res, err) }

/-- The loop condition, and what follows the loop. -/
def loopHead (s : Reducer) : Reducer :=
  if s.i < s.tasks.length then s
  else
    match s.finalErr with
    | some e => s.return' none (some e)
    | none => s.return' (some s.finalResult) none

/-- End of an iteration. -/
def next (s : Reducer) : Reducer := { s with i := s.i + 1 }.loopHead

inductive Act where
  /-- The caller cancels the context, or its deadline passes. -/
  | cancel (deadline : Bool)
  /-- `pool.Go` finds a free slot for the next handler. -/
  | launch
  /-- Task `k` has run its handler and tries to send the outcome. -/
  | offer (k : Nat) (c : SendCase)
  /-- `pool.Wait()` has returned; `close(out)`. -/
  | closeOut
  | selectDone
  | selectOut
deriving DecidableEq, Repr

/-- The tasks and the channel after task `k` has offered its outcome. -/
def offer (s : Reducer) (k : Nat) (c : SendCase) : Option Reducer := do
  let t ← s.tasks[k]?
  if t.phase = .evaluating ∧ k < s.launched then
    let (sent, out) ← trySendThroughChannel s.cancellableCtx t.outcome s.out c
    return { s with tasks := s.tasks.set k { t with phase := if sent then .sent else .dropped },
                    out }
  else none

/-- The consumer receives from `out`. -/
def selectOut (body : Body) (s : Reducer) : Option Reducer :=
  match s.out.recv with
  | none => none
  -- `break` leaves the select only
  | some (none, _) => some s.next
  | some (some o, ch) =>
    match body s.finalErr s.finalResult o with
    | none => none
    | some (.next finalErr finalResult) => some { s with out := ch, finalErr, finalResult }.next
    | some (.return res) => some ({ s with out := ch }.return' (some res) none)

def step (body : Body) (s : Reducer) : Act → Option Reducer
  | .cancel deadline => some { s with ctx := s.ctx.cancel deadline }
  | .launch =>
    if s.launched < s.tasks.length ∧ s.running < s.concurrencyLimit then
      some { s with launched := s.launched + 1 }
    else none
  | .offer k c => s.offer k c
  | .closeOut =>
    if s.launched = s.tasks.length ∧ (∀ t ∈ s.tasks, t.phase ≠ .evaluating) ∧
        s.out.closed = false then
      some { s with out := s.out.close }
    else none
  | .selectDone =>
    match s.ctx with
    | some e =>
      if s.ret = none ∧ s.launched = s.tasks.length then some (s.return' none (some e))
      else none
    | none => none
  | .selectOut =>
    if s.ret = none ∧ s.launched = s.tasks.length then s.selectOut body else none

/-- The state before the first handler is launched. -/
def start (ctx : Context) (concurrencyLimit : Nat) (handlers : List CheckOutcome)
    (allowed : Bool) : Reducer :=
  loopHead
    { ctx, concurrencyLimit, tasks := handlers.map fun o => ⟨o, .evaluating⟩, launched := 0,
      out := Chan.make handlers.length, i := 0, finalErr := none,
      finalResult := ⟨allowed, false⟩, ret := none }

end Reducer

/-- `union`, up to the launch of the handlers. -/
def union (ctx : Context) (concurrencyLimit : Nat) (handlers : List CheckOutcome) :
    Except Err Reducer :=
  match ctx with
  | some e => .error e
  | none => .ok (Reducer.start ctx concurrencyLimit handlers false)

/-- The loop body of `union`. -/
def unionBody : Body := fun finalErr finalResult o =>
  match o.err with
  | some e => some (.next (some e) finalResult) -- continue to see if there is an allowed one
  | none =>
    match o.resp with
    | none => none
    | some r =>
      let finalResult :=
        if r.cycleDetected then { finalResult with cycleDetected := true } else finalResult
      if r.allowed then some (.return r) else some (.next finalErr finalResult)

/-- `intersection`, up to the launch of the handlers. -/
def intersection (ctx : Context) (concurrencyLimit : Nat) (handlers : List CheckOutcome) :
    Except Err Reducer :=
  if handlers.length < 2 then
    .error (.other ("internal server error, expected at least two rewrite operands for " ++
      "intersection operator, but got '" ++ toString handlers.length ++ "'"))
  else
    match ctx with
    | some e => .error e
    | none => .ok (Reducer.start ctx concurrencyLimit handlers true)

/-- The loop body of `intersection`. -/
def intersectionBody : Body := fun finalErr finalResult o =>
  match o.err with
  | some e => some (.next (if finalErr = none then some e else finalErr) finalResult)
  | none =>
    match o.resp with
    | none => none
    | some r =>
      if r.cycleDetected || !r.allowed then some (.return ⟨false, r.cycleDetected⟩)
      else some (.next finalErr finalResult)

/-! ## What a loop body must guarantee -/

/-- A body that goes on only over good outcomes, unless it records an error, and
    that answers early only with the opposite of the reducer's final result. -/
structure LoopSpec (body : Body) (verdict : Bool) (Good : CheckOutcome → Prop) : Prop where
  next_good : ∀ {e r o e' r'}, body e r o = some (.next e' r') →
    r'.allowed = r.allowed ∧ (e' = none → e = none ∧ Good o)
  return_opposite : ∀ {e r o res}, body e r o = some (.return res) → res.allowed = !verdict

lemma unionBody_spec : LoopSpec unionBody false CheckOutcome.Denies where
  next_good := by
    rintro e r ⟨_ | ⟨allowed, cycle⟩, _ | err⟩ e' r' h
    · simp [unionBody] at h
    · simp only [unionBody, some.injEq, Flow.next.injEq] at h
      obtain ⟨rfl, rfl⟩ := h
      exact ⟨rfl, by simp⟩
    · cases allowed with
      | true => simp [unionBody] at h
      | false =>
        simp only [unionBody, Bool.false_eq_true, if_false, some.injEq,
          Flow.next.injEq] at h
        obtain ⟨rfl, rfl⟩ := h
        exact ⟨by split <;> rfl, fun he => ⟨he, rfl, _, rfl, rfl⟩⟩
    · simp only [unionBody, some.injEq, Flow.next.injEq] at h
      obtain ⟨rfl, rfl⟩ := h
      exact ⟨rfl, by simp⟩
  return_opposite := by
    rintro e r ⟨_ | ⟨_ | _, cycle⟩, _ | err⟩ res h <;> simp [unionBody] at h
    rw [← h]
    rfl

lemma intersectionBody_spec : LoopSpec intersectionBody true CheckOutcome.Allows where
  next_good := by
    -- recording an error leaves `finalErr` set
    have herr : ∀ {e e' : Option Err} {err : Err} {P : Prop},
        (if e = none then some err else e) = e' → e' = none → P := by
      intro e e' err P h hn
      split_ifs at h with he
      · rw [hn] at h
        cases h
      · exact absurd (h.trans hn) he
    rintro e r ⟨_ | ⟨allowed, cycle⟩, _ | err⟩ e' r' h
    · simp [intersectionBody] at h
    · simp only [intersectionBody, some.injEq, Flow.next.injEq] at h
      exact ⟨by rw [h.2], herr h.1⟩
    · cases allowed <;> cases cycle <;> simp [intersectionBody] at h
      obtain ⟨rfl, rfl⟩ := h
      exact ⟨rfl, fun he => ⟨he, rfl, rfl⟩⟩
    · simp only [intersectionBody, some.injEq, Flow.next.injEq] at h
      exact ⟨by rw [h.2], herr h.1⟩
  return_opposite := by
    rintro e r ⟨_ | ⟨_ | _, _ | _⟩, _ | err⟩ res h <;> simp [intersectionBody] at h <;>
      rw [← h] <;> rfl

/-! ## The invariant of the pool and the loop -/

/-- The outcomes that went into the channel. -/
def sentOutcomes (ts : List Task) : List CheckOutcome :=
  (ts.filter fun t => t.phase = .sent).map Task.outcome

/-- A task that has been evaluating adds its outcome if its send goes through. -/
lemma sentOutcomes_set {ts k t} (h : ts[k]? = some t) (ht : t.phase = .evaluating) (t' : Task) :
    (sentOutcomes (ts.set k t')).Perm (sentOutcomes ts ++ sentOutcomes [t']) := by
  induction ts generalizing k with
  | nil => simp at h
  | cons x xs ih =>
    cases k with
    | zero =>
      cases h
      have hxs : sentOutcomes (t :: xs) = sentOutcomes xs := by simp [sentOutcomes, ht]
      rw [hxs, set_cons_zero, sentOutcomes, ← singleton_append, filter_append, map_append]
      exact perm_append_comm
    | succ k =>
      have := ih (by simpa using h)
      by_cases hx : x.phase = .sent
      · simpa [sentOutcomes, hx] using this
      · simpa [sentOutcomes, hx] using this

/-- When as many outcomes were sent as there are tasks, all were. -/
lemma sentOutcomes_eq_of_length_le {ts} (h : ts.length ≤ (sentOutcomes ts).length) :
    sentOutcomes ts = ts.map Task.outcome := by
  have hlen : (ts.filter fun t => decide (t.phase = .sent)).length = ts.length :=
    le_antisymm (length_filter_le _ _) (by simpa [sentOutcomes] using h)
  rw [sentOutcomes, filter_eq_self.mpr (length_filter_eq_length_iff.mp hlen)]

lemma map_outcome_set {ts : List Task} {k t} (h : ts[k]? = some t)
    (p : TaskPhase) : (ts.set k { t with phase := p }).map Task.outcome = ts.map Task.outcome := by
  obtain ⟨hk, rfl⟩ := List.getElem?_eq_some_iff.mp h
  have hlt : k < (ts.map Task.outcome).length := by simpa using hk
  simpa [List.map_set] using List.set_getElem_self hlt

namespace Reducer

/-- The loop receives the closed channel in its last iteration, no error was
    recorded, and a dropped outcome is not good. -/
def answersForDropped (Good : CheckOutcome → Prop) (s : Reducer) (a : Act) : Prop :=
  a = .selectOut ∧ s.ret = none ∧ s.out.buf = [] ∧ s.out.closed = true ∧
    s.i + 1 = s.tasks.length ∧ s.finalErr = none ∧
    ∃ t ∈ s.tasks, t.phase = .dropped ∧ ¬ Good t.outcome

/-- The consumer has received `recvd`; the rest of what was sent is in the
    channel.  An iteration without an outcome needs the channel closed and drained. -/
structure Received (Good : CheckOutcome → Prop) (s : Reducer) (recvd : List CheckOutcome) :
    Prop where
  perm : (recvd ++ s.out.buf).Perm (sentOutcomes s.tasks)
  length_le : recvd.length ≤ s.i
  missed : recvd.length < s.i → s.out.closed = true ∧ s.out.buf = []
  good : s.finalErr = none → ∀ o ∈ recvd, Good o

/-- The invariant: while the loop runs, and once it has returned. -/
structure Inv (verdict : Bool) (Good : CheckOutcome → Prop) (outcomes : List CheckOutcome)
    (s : Reducer) : Prop where
  outcomes_eq : s.tasks.map Task.outcome = outcomes
  closed_done : s.out.closed = true → ∀ t ∈ s.tasks, t.phase ≠ .evaluating
  waiting : s.ret = none → s.finalResult.allowed = verdict ∧ s.i < s.tasks.length ∧
    ∃ recvd, Received Good s recvd
  returned : ∀ res, s.ret = some (some res, none) → res.allowed = verdict →
    ∀ o ∈ outcomes, Good o

section
variable {verdict : Bool} {Good : CheckOutcome → Prop} {outcomes recvd : List CheckOutcome}
  {s s' : Reducer} {body : Body}

section
variable (houtcomes : s.tasks.map Task.outcome = outcomes)
  (hclosed : s.out.closed = true → ∀ t ∈ s.tasks, t.phase ≠ .evaluating)
include houtcomes hclosed

/-- Leaving the reducer with an error or with the opposite of the final result. -/
lemma Inv.return' {res err}
    (hret : ∀ x, res = some x → err = none → x.allowed = verdict → ∀ o ∈ outcomes, Good o) :
    Inv verdict Good outcomes (s.return' res err) where
  outcomes_eq := houtcomes
  closed_done := hclosed
  waiting := by simp [Reducer.return']
  returned := by
    intro x hx
    simp only [Reducer.return', some.injEq, Prod.mk.injEq] at hx
    exact hret x hx.1 hx.2

/-- At the loop head: the loop goes on, or its result is justified. -/
lemma Inv.loopHead
    (hret : s.ret = none) (hres : s.finalResult.allowed = verdict) (hrecv : Received Good s recvd)
    (hend : s.i = s.tasks.length → s.finalErr = none → ∀ o ∈ outcomes, Good o)
    (hi : s.i ≤ s.tasks.length) : Inv verdict Good outcomes s.loopHead := by
  unfold Reducer.loopHead
  split
  next hlt => exact ⟨houtcomes, hclosed, fun _ => ⟨hres, hlt, recvd, hrecv⟩, by simp [hret]⟩
  next hge =>
    split
    · exact return' houtcomes hclosed (by simp)
    next herr => exact return' houtcomes hclosed fun _ _ _ _ => hend (by omega) herr

end

/-- Every outcome was received: nothing is missing. -/
lemma Received.all_good (h : Received Good s recvd) (herr : s.finalErr = none)
    (hlen : recvd.length = s.tasks.length) : ∀ o ∈ s.tasks.map Task.outcome, Good o := by
  have hperm := h.perm.length_eq
  rw [length_append] at hperm
  have hsent : s.tasks.length ≤ (sentOutcomes s.tasks).length := by omega
  have hall := sentOutcomes_eq_of_length_le hsent
  have hbuf : s.out.buf = [] := by
    rw [hall, length_map] at hperm
    exact eq_nil_of_length_eq_zero (by omega)
  intro o ho
  rw [← hall] at ho
  have := h.perm.mem_iff.mpr ho
  rw [hbuf, append_nil] at this
  exact h.good herr o this

/-- The channel is closed and drained: what is missing was dropped. -/
lemma Received.good_of_closed (h : Received Good s recvd) (herr : s.finalErr = none)
    (hbuf : s.out.buf = []) (hdone : ∀ t ∈ s.tasks, t.phase ≠ .evaluating)
    (hdropped : ∀ t ∈ s.tasks, t.phase = .dropped → Good t.outcome) :
    ∀ o ∈ s.tasks.map Task.outcome, Good o := by
  intro o ho
  obtain ⟨t, ht, rfl⟩ := mem_map.mp ho
  cases hph : t.phase with
  | evaluating => exact absurd hph (hdone t ht)
  | dropped => exact hdropped t ht hph
  | sent =>
    have hmem : t.outcome ∈ sentOutcomes s.tasks :=
      mem_map_of_mem (mem_filter.mpr ⟨ht, by simp [hph]⟩)
    have := h.perm.mem_iff.mpr hmem
    rw [hbuf, append_nil] at this
    exact h.good herr _ this

/-- Receiving from the channel keeps the invariant, unless the answer is given for
    a dropped outcome. -/
lemma Inv.selectOut (hspec : LoopSpec body verdict Good) (h : Inv verdict Good outcomes s)
    (hret : s.ret = none) (hok : ¬ answersForDropped Good s .selectOut)
    (hs : s.selectOut body = some s') : Inv verdict Good outcomes s' := by
  obtain ⟨hres, hi, recvd, hrecv⟩ := h.waiting hret
  unfold Reducer.selectOut at hs
  split at hs
  · cases hs
  next hclosed =>
    obtain ⟨hbuf, hcl, -⟩ := Chan.recv_closed hclosed
    cases hs
    have hrecv' : Received Good { s with i := s.i + 1 } recvd :=
      ⟨hrecv.perm, Nat.le_succ_of_le hrecv.length_le, fun _ => ⟨hcl, hbuf⟩, hrecv.good⟩
    refine loopHead h.outcomes_eq h.closed_done hret hres hrecv' ?_ hi
    intro hlast herr
    rw [← h.outcomes_eq]
    refine hrecv.good_of_closed herr hbuf (h.closed_done hcl) fun t ht hdrop => ?_
    by_contra hbad
    exact hok ⟨rfl, hret, hbuf, hcl, hlast, herr, t, ht, hdrop, hbad⟩
  next o ch hvalue =>
    obtain ⟨hbuf, hcl⟩ := Chan.recv_value hvalue
    have hclosed' : ch.closed = true → ∀ t ∈ s.tasks, t.phase ≠ .evaluating :=
      fun hc => h.closed_done (hcl ▸ hc)
    -- an outcome was still in the buffer, so every iteration so far received one
    have hlen : recvd.length = s.i := by
      refine le_antisymm hrecv.length_le (Nat.le_of_not_lt fun hlt => ?_)
      rw [(hrecv.missed hlt).2] at hbuf
      cases hbuf
    split at hs
    · cases hs
    next e r hbody =>
      obtain ⟨hr, hgood⟩ := hspec.next_good hbody
      cases hs
      have hrecv' : Received Good
          { s with out := ch, finalErr := e, finalResult := r, i := s.i + 1 }
          (recvd ++ [o]) := by
        refine ⟨?_, by simp [hlen], by simp [hlen], ?_⟩
        · have := hrecv.perm
          rw [hbuf] at this
          simpa using this
        · intro he x hx
          rcases mem_append.mp hx with hx | hx
          · exact hrecv.good (hgood he).1 x hx
          · rw [mem_singleton.mp hx]
            exact (hgood he).2
      refine loopHead h.outcomes_eq hclosed' hret (hr.trans hres) hrecv' ?_ hi
      intro hlast herr
      rw [← h.outcomes_eq]
      exact hrecv'.all_good herr (by simpa [hlen] using hlast)
    next hbody =>
      have hopp := hspec.return_opposite hbody
      cases hs
      refine return' (s := { s with out := ch }) h.outcomes_eq hclosed' ?_
      intro x hx _ hv
      cases hx
      rw [hopp] at hv
      simp at hv

lemma Inv.offer {k c} (h : Inv verdict Good outcomes s)
    (hs : s.offer k c = some s') : Inv verdict Good outcomes s' := by
  simp only [Reducer.offer, bind_eq_bind, bind_eq_some_iff] at hs
  obtain ⟨t, ht, hs⟩ := hs
  split at hs
  next hph =>
    -- the channel is open: an evaluating task is left
    have hopen : s.out.closed = false := by
      by_contra hc
      exact h.closed_done (by simpa using hc) t (mem_of_getElem? ht) hph.1
    obtain ⟨⟨sent, out⟩, htry, hs⟩ := bind_eq_some_iff.mp hs
    cases hs
    cases c with
    | done =>
      simp only [trySendThroughChannel] at htry
      split at htry <;> cases htry
      refine ⟨by simpa [map_outcome_set ht] using h.outcomes_eq, by simp [hopen], ?_,
        h.returned⟩
      intro hret
      obtain ⟨hres, hi, recvd, hrecv⟩ := h.waiting hret
      refine ⟨hres, by simpa using hi, recvd, ?_, hrecv.length_le, hrecv.missed, hrecv.good⟩
      have hset := sentOutcomes_set ht hph.1 { t with phase := .dropped }
      exact hrecv.perm.trans (by simpa [sentOutcomes] using hset.symm)
    | send =>
      simp only [trySendThroughChannel, map_eq_some_iff] at htry
      obtain ⟨ch, hch, heq⟩ := htry
      cases heq
      obtain ⟨-, rfl⟩ := Chan.send_eq_some hch
      refine ⟨by simpa [map_outcome_set ht] using h.outcomes_eq, by simp [hopen], ?_,
        h.returned⟩
      intro hret
      obtain ⟨hres, hi, recvd, hrecv⟩ := h.waiting hret
      refine ⟨hres, by simpa using hi, recvd, ?_, hrecv.length_le, ?_, hrecv.good⟩
      · refine List.Perm.trans ?_ (sentOutcomes_set ht hph.1 _).symm
        rw [← append_assoc]
        exact hrecv.perm.append_right _
      · intro hlt
        rw [(hrecv.missed hlt).1] at hopen
        cases hopen
  · cases hs

/-- A step that changes neither the tasks, the channel nor the loop. -/
lemma Inv.frame (h : Inv verdict Good outcomes s) (htasks : s'.tasks = s.tasks)
    (hout : s'.out = s.out) (hi : s'.i = s.i) (herr : s'.finalErr = s.finalErr)
    (hres : s'.finalResult = s.finalResult) (hret : s'.ret = s.ret) :
    Inv verdict Good outcomes s' where
  outcomes_eq := htasks ▸ h.outcomes_eq
  closed_done := by
    rw [htasks, hout]
    exact h.closed_done
  waiting := by
    rw [hret, htasks, hi, hres]
    intro hr
    obtain ⟨h1, h2, recvd, h3⟩ := h.waiting hr
    exact ⟨h1, h2, recvd, by rw [hout, htasks]; exact h3.perm, hi ▸ h3.length_le,
      by rw [hi, hout]; exact h3.missed, herr ▸ h3.good⟩
  returned := hret ▸ h.returned

/-- Every step that does not answer for a dropped outcome keeps the invariant. -/
theorem Inv.step {a} (hspec : LoopSpec body verdict Good)
    (h : Inv verdict Good outcomes s) (hok : ¬ answersForDropped Good s a)
    (hs : s.step body a = some s') : Inv verdict Good outcomes s' := by
  cases a <;> simp only [Reducer.step] at hs
  case cancel deadline =>
    cases hs
    exact h.frame rfl rfl rfl rfl rfl rfl
  case launch =>
    split at hs <;> cases hs
    exact h.frame rfl rfl rfl rfl rfl rfl
  case offer k c => exact h.offer hs
  case closeOut =>
    split at hs <;> cases hs
    next hdone =>
      refine ⟨h.outcomes_eq, fun _ => hdone.2.1, fun hret => ?_, h.returned⟩
      obtain ⟨hres, hi, recvd, hrecv⟩ := h.waiting hret
      refine ⟨hres, hi, recvd, hrecv.perm, hrecv.length_le, fun hlt => ?_, hrecv.good⟩
      exact ⟨rfl, (hrecv.missed hlt).2⟩
  case selectDone =>
    split at hs
    · split at hs <;> cases hs
      exact return' h.outcomes_eq h.closed_done (by simp)
    · cases hs
  case selectOut =>
    split at hs
    next hret => exact h.selectOut hspec hret.1 hok hs
    · cases hs

/-- Before the first launch nothing was sent; without handlers the loop is over. -/
theorem Inv.start (ctx : Context) (limit : Nat) :
    Inv verdict Good outcomes (Reducer.start ctx limit outcomes verdict) := by
  have hnone : sentOutcomes (outcomes.map fun o => ⟨o, .evaluating⟩) = [] := by
    simp [sentOutcomes, List.filter_map, Function.comp_def]
  refine loopHead (by simp [Function.comp_def]) (by simp) rfl rfl
    (⟨by simp [hnone], by simp, by simp, by simp⟩ : Received Good _ []) ?_ (Nat.zero_le _)
  · intro hn _ o ho
    simp only [length_map] at hn
    rw [eq_nil_of_length_eq_zero hn.symm] at ho
    cases ho

lemma step_ret {a x} (hs : s.step body a = some s') (hret : s.ret = some x) : s'.ret = some x := by
  cases a with
  | cancel deadline =>
    cases hs
    exact hret
  | launch | closeOut =>
    simp only [Reducer.step] at hs
    split at hs <;> cases hs
    exact hret
  | offer k c =>
    simp only [Reducer.step, Reducer.offer, bind_eq_bind, bind_eq_some_iff] at hs
    obtain ⟨t, -, hs⟩ := hs
    split at hs
    · obtain ⟨_, -, hs⟩ := bind_eq_some_iff.mp hs
      cases hs
      exact hret
    · cases hs
  | selectDone =>
    simp only [Reducer.step, hret] at hs
    split at hs <;> simp at hs
  | selectOut => simp [Reducer.step, hret] at hs

lemma step_answersForDropped {a} (h : answersForDropped Good s a)
    (hs : s.step body a = some s') : s'.ret = some (some s.finalResult, none) := by
  obtain ⟨rfl, hret, hbuf, hclosed, hlast, herr, -⟩ := h
  simp only [Reducer.step] at hs
  split at hs
  · simp only [Reducer.selectOut, Chan.recv, hbuf, hclosed, if_true] at hs
    cases hs
    simp [next, loopHead, hlast, herr, Reducer.return']
  · cases hs

/-- The reducer's final result is justified by every handler's outcome. -/
def Sound (verdict : Bool) (Good : CheckOutcome → Prop) (outcomes : List CheckOutcome)
    (s : Reducer) : Prop :=
  ∀ res, s.ret = some (some res, none) → res.allowed = verdict → ∀ o ∈ outcomes, Good o

/-- Along a run from an invariant state, the answer is sound exactly when no step
    answers for a dropped outcome. -/
lemma sound_iff_meets {acts} (hspec : LoopSpec body verdict Good)
    (h : Inv verdict Good outcomes s) (hrun : Lts.run (step body) s acts = some s') :
    Sound verdict Good outcomes s' ↔
      Lts.Meets (step body) (fun s a => ¬ answersForDropped Good s a) s acts := by
  refine Lts.iff_meets (I := Inv verdict Good outcomes)
    (B := fun t => (∃ res : ResolveCheckResponse,
      t.ret = some (some res, none) ∧ res.allowed = verdict) ∧ ∃ o ∈ outcomes, ¬ Good o)
    (fun _ _ _ hI hok ht => hI.step hspec hok ht) ?_ ?_ (fun _ hI => hI.returned) ?_ h hrun
  · intro t a t' hI hbad ht
    rw [not_not] at hbad
    refine ⟨⟨t.finalResult, step_answersForDropped hbad ht, ?_⟩, ?_⟩
    · exact (hI.waiting hbad.2.1).1
    · obtain ⟨-, -, -, -, -, -, x, hx, -, hxbad⟩ := hbad
      exact ⟨x.outcome, hI.outcomes_eq ▸ mem_map_of_mem hx, hxbad⟩
  · rintro t a t' ⟨⟨res, hres, hv⟩, hbad⟩ ht
    exact ⟨⟨res, step_ret ht hres, hv⟩, hbad⟩
  · rintro t ⟨⟨res, hres, hv⟩, o, ho, hbad⟩ hsound
    exact hbad (hsound res hres hv o ho)

end

end Reducer

end OpenFGA.LocalChecker
