/-
  The `Basic` workers of one cycle group at work: `Basic.Execute` and
  `Basic.ProcessMessage` (worker/basic.go), `Core.ProcessSender`, `Core.Broadcast` and
  `Core.send` (worker/core.go), the media between them (worker/medium.go) and the
  message callback of `createWorker` (pipeline.go), as one transition system over all
  interleavings.

  Each sender of a member has a message loop and `NumProcs` processors.  A standard
  sender starts with its messages and is closed; a cyclical one is fed by a member of
  the group and closed by that member's `Cleanup`.  The interpreter is any relation with
  finitely many possible results; it may also fail or panic at any value.  The context
  may be cancelled at any point.

  Left out: listeners outside the group (a `Send` there ends, by the consumer or by the
  context, and changes nothing here), the error accumulator, statistics, and the pooling
  of messages.
-/

import OpenFGA.Pipeline.CycleGroup
import OpenFGA.Lib.Run

namespace OpenFGA.Pipeline.BasicGroup
open Function

universe u

/-! ## Configuration and state -/

/-- A cycle group: its members, their senders (numbered through the whole group), and the
    interpreter. -/
structure Config (V : Type u) where
  /-- How many workers called `Join`. -/
  size : Nat
  /-- How many senders the members have together. -/
  links : Nat
  /-- The member that listens to a sender. -/
  owner : Nat → Nat
  /-- The member that feeds a cyclical sender; a standard one has no source. -/
  source : Nat → Option Nat
  /-- The messages that are waiting on a standard sender. -/
  messages : Nat → List (List V)
  numProcs : Nat
  chunkSize : Nat
  /-- The values that `Interpret` may produce for these items on this sender's edge. -/
  answers : Nat → List V → List V → Bool
  /-- Everything that it can produce. -/
  results : Finset V
  owner_lt : ∀ k < links, owner k < size
  source_lt : ∀ k < links, ∀ j, source k = some j → j < size
  answers_total : ∀ k items, ∃ out, answers k items out = true
  answers_mem : ∀ k items out, answers k items out = true → ∀ v ∈ out, v ∈ results

/-- Where `Basic.Execute` of a member stands. -/
inductive Phase where
  /-- `wgStandard.Wait` -/
  | standard
  /-- `SignalReady`: `Report`, then `Dec` -/
  | reporting
  | decrementing
  /-- `WaitForAllReady`: the two channels of the pool in turn -/
  | awaitingReady
  | awaitingQuiescence
  /-- `Sleep` -/
  | sleeping
  /-- `Cleanup`, with the listeners still to be closed -/
  | cleaning (left : List Nat)
  /-- `Next().Wake` -/
  | waking
  /-- the deferred `wgRecursive.Wait` -/
  | recursive
  /-- the deferred `Cleanup` -/
  | leaving (left : List Nat)
  | returned
deriving DecidableEq, Repr

/-- Where the message loop of `ProcessSender` stands. -/
inductive Loop (V : Type u) where
  /-- `sender.Recv(ctx)` -/
  | receiving
  /-- `select` between `input` and the context -/
  | offering (msg : List V)
  /-- `close(input)` done, in `wg.Wait` -/
  | closing
  /-- `DrainSender` -/
  | draining
  | done
deriving DecidableEq, Repr

/-- Where one of the processors that `ProcessSender` starts stands. -/
inductive Work (V : Type u) where
  /-- waiting on `input` -/
  | idle
  /-- `Preprocessor.Process`: values to go and values kept -/
  | filtering (todo kept : List V)
  /-- `Broadcast`: results to be read and the buffer -/
  | reading (rest buffer : List V)
  /-- `send`: the listeners to go -/
  | sending (rest buffer : List V) (left : List Nat)
  /-- `send` after `MsgFunc` has counted the message for listener `l` -/
  | counted (rest buffer : List V) (l : Nat) (left : List Nat)
  /-- before `msg.Done()`, after a panic or not -/
  | finishing (panicked : Bool)
  | ended
deriving DecidableEq, Repr

/-- The index of a processor: its sender and its number there. -/
abbrev ProcId := Nat × Nat

structure State (V : Type u) where
  cancelled : Bool
  group : CycleGroup
  phase : Nat → Phase
  /-- `Basic.outputBuffer` of each member -/
  outputs : Nat → List V
  loop : Nat → Loop V
  /-- The `DeduplicatingProcessor` of each cyclical sender -/
  seen : Nat → List V
  queue : Nat → List (List V)
  closed : Nat → Bool
  work : ProcId → Work V

namespace Config

variable {V : Type u} (cfg : Config V)

/-- `IsCyclical` of the sender's edge. -/
def cyclical (k : Nat) : Bool := (cfg.source k).isSome

/-- `Core.senders` of a member. -/
def senders (i : Nat) : List Nat := (List.range cfg.links).filter fun k => cfg.owner k = i

/-- `Core.listeners` of a member, those in the group. -/
def listeners (j : Nat) : List Nat := (List.range cfg.links).filter fun k => cfg.source k = some j

/-- What `msg.Done()` does for a message of sender `k`: the callback of a cyclical
    message decrements the in-flight count. -/
def settle (k : Nat) (g : CycleGroup) : CycleGroup := if cfg.cyclical k then g.dec else g

/-- All workers have been built and started. -/
def start : State V where
  cancelled := false
  group := .joined cfg.size
  phase _ := .standard
  outputs _ := []
  loop _ := .receiving
  seen _ := []
  queue k := if cfg.cyclical k then [] else cfg.messages k
  closed k := !cfg.cyclical k
  work _ := .idle

variable {cfg} {i j k : Nat}

@[simp] lemma mem_senders : k ∈ cfg.senders i ↔ k < cfg.links ∧ cfg.owner k = i := by
  simp [senders]

@[simp] lemma mem_listeners : k ∈ cfg.listeners j ↔ k < cfg.links ∧ cfg.source k = some j := by
  simp [listeners]

end Config

/-! ## Steps -/

/-- What a message loop can do. -/
inductive LoopMove where
  | receive
  | exhaust
  | giveUp
  | shut
  | drain
deriving DecidableEq, Repr

/-- What a processor can do. -/
inductive ProcMove (V : Type u) where
  | take
  | retire
  | filter
  | interpret (out : List V)
  | read
  | abort
  | panic
  | send
  | deliver
  | fail
  | finish
deriving DecidableEq, Repr

/-- What can happen next: the context is cancelled, or a member, a message loop or a
    processor goes on. -/
inductive Act (V : Type u) where
  | cancel
  | member (i : Nat)
  | loop (k : Nat) (move : LoopMove)
  | proc (q : ProcId) (move : ProcMove V)
deriving DecidableEq, Repr

section
variable {V : Type u} [DecidableEq V]

namespace State

def enter (s : State V) (i : Nat) (phase : Phase) : State V :=
  { s with phase := update s.phase i phase }

def turn (s : State V) (k : Nat) (loop : Loop V) : State V :=
  { s with loop := update s.loop k loop }

def go (s : State V) (q : ProcId) (work : Work V) : State V :=
  { s with work := update s.work q work }

def close (s : State V) (l : Nat) : State V :=
  { s with closed := update s.closed l true }

section
omit [DecidableEq V]
variable {s : State V} {i j k l : Nat} {q q' : ProcId} {p : Phase} {loop : Loop V} {w : Work V}

@[simp] lemma phase_enter_self : (s.enter i p).phase i = p := update_self ..

lemma phase_enter_of_ne (h : j ≠ i) : (s.enter i p).phase j = s.phase j :=
  update_of_ne h ..

@[simp] lemma loop_turn_self : (s.turn k loop).loop k = loop := update_self ..

lemma loop_turn_of_ne (h : l ≠ k) : (s.turn k loop).loop l = s.loop l :=
  update_of_ne h ..

@[simp] lemma work_go_self : (s.go q w).work q = w := update_self ..

lemma work_go_of_ne (h : q' ≠ q) : (s.go q w).work q' = s.work q' := update_of_ne h ..

@[simp] lemma closed_close_self : (s.close l).closed l = true := update_self ..

lemma closed_close (h : s.closed k = true) : (s.close l).closed k = true := by
  by_cases hkl : k = l
  · subst hkl
    exact closed_close_self
  · exact (update_of_ne hkl ..).trans h

end

end State

/-- `Basic.Execute` of member `i` after the senders have been started. -/
def memberStep (cfg : Config V) (s : State V) (i : Nat) : Option (State V) :=
  match s.phase i with
  | .standard =>
    -- `len(w.senders) == 0` returns at once and runs the deferred `Cleanup`
    if cfg.senders i = [] then some (s.enter i (.leaving (cfg.listeners i)))
    else if ∀ k ∈ cfg.senders i, cfg.cyclical k = false → s.loop k = .done then
      some (s.enter i .reporting)
    else none
  | .reporting => some { s.enter i .decrementing with group := s.group.report i }
  | .decrementing => some { s.enter i .awaitingReady with group := s.group.dec }
  | .awaitingReady =>
    if s.group.statusPool.passesReady then some (s.enter i .awaitingQuiescence) else none
  | .awaitingQuiescence =>
    if s.group.statusPool.passesQuiescence then
      if (s.group.member i).leader then some (s.enter i (.cleaning (cfg.listeners i)))
      else some (s.enter i .sleeping)
    else none
  | .sleeping =>
    if (s.group.member i).awake then some (s.enter i (.cleaning (cfg.listeners i))) else none
  | .cleaning (l :: left) => some ((s.enter i (.cleaning left)).close l)
  | .cleaning [] => some (s.enter i .waking)
  | .waking => some { s.enter i .recursive with group := s.group.wake (s.group.next i) }
  | .recursive =>
    if ∀ k ∈ cfg.senders i, cfg.cyclical k = true → s.loop k = .done then
      some (s.enter i (.leaving (cfg.listeners i)))
    else none
  | .leaving (l :: left) => some ((s.enter i (.leaving left)).close l)
  | .leaving [] => some (s.enter i .returned)
  | .returned => none

/-- `Recv(ctx)` of sender `k` can return without a message: the medium is closed and
    empty, or the context is cancelled; a `QueueMedium` looks at its queue first, a
    `ChannelMedium` takes either case of its `select`. -/
def recvEnds (cfg : Config V) (s : State V) (k : Nat) : Bool :=
  (s.queue k).isEmpty && s.closed k ||
    s.cancelled && (!cfg.cyclical k || (s.queue k).isEmpty)

/-- The message loop of `ProcessSender` for sender `k`, and what is deferred there. -/
def loopStep (cfg : Config V) (s : State V) (k : Nat) : LoopMove → Option (State V)
  | .receive =>
    match s.loop k, s.queue k with
    | .receiving, msg :: rest =>
      some { s.turn k (.offering msg) with queue := update s.queue k rest }
    | _, _ => none
  | .exhaust =>
    if s.loop k = .receiving ∧ recvEnds cfg s k = true then some (s.turn k .closing) else none
  | .giveUp =>
    match s.loop k with
    | .offering _ =>
      if s.cancelled then some { s.turn k .closing with group := cfg.settle k s.group }
      else none
    | _ => none
  | .shut =>
    if s.loop k = .closing ∧ ∀ p < cfg.numProcs, s.work (k, p) = .ended then
      some (s.turn k .draining)
    else none
  | .drain =>
    match s.loop k, s.queue k with
    | .draining, _ :: rest =>
      some { s with queue := update s.queue k rest, group := cfg.settle k s.group }
    | .draining, [] => if s.closed k then some (s.turn k .done) else none
    | _, _ => none

/-- `Preprocessor.Process` at one value: the values passed on and the values seen.  A
    cyclical sender has a `DeduplicatingProcessor`, a standard one an `IdentityProcessor`. -/
def preprocess (cyclical : Bool) (seen : List V) (v : V) : List V × List V :=
  if cyclical then if v ∈ seen then ([], seen) else ([v], v :: seen) else ([v], seen)

/-- One processor of `ProcessSender`. -/
def procStep (cfg : Config V) (s : State V) (q : ProcId) : ProcMove V → Option (State V)
  | .take =>
    match s.loop q.1, s.work q with
    | .offering msg, .idle => some ((s.turn q.1 .receiving).go q (.filtering msg []))
    | _, _ => none
  | .retire =>
    if s.loop q.1 = .closing ∧ s.work q = .idle then some (s.go q .ended) else none
  | .filter =>
    match s.work q with
    | .filtering (v :: todo) kept =>
      let passed := preprocess (cfg.cyclical q.1) (s.seen q.1) v
      some { s.go q (.filtering todo (kept ++ passed.1)) with
        seen := update s.seen q.1 passed.2 }
    | _ => none
  | .interpret out =>
    match s.work q with
    | .filtering [] kept =>
      if cfg.answers q.1 kept out then some (s.go q (.reading out [])) else none
    | _ => none
  | .read =>
    let i := cfg.owner q.1
    match s.work q with
    | .reading (v :: rest) buffer =>
      -- `DeduplicatingReceiver.Recv` skips what the worker has emitted before
      if v ∈ s.outputs i then some (s.go q (.reading rest buffer))
      else
        let s := { s with outputs := update s.outputs i (v :: s.outputs i) }
        if buffer.length + 1 = cfg.chunkSize then
          some (s.go q (.sending rest (buffer ++ [v]) (cfg.listeners i)))
        else some (s.go q (.reading rest (buffer ++ [v])))
    | .reading [] (b :: buffer) => some (s.go q (.sending [] (b :: buffer) (cfg.listeners i)))
    | .reading [] [] => some (s.go q (.finishing false))
    | _ => none
  | .abort =>
    match s.work q with
    | .reading (_ :: _) buffer => some (s.go q (.reading [] buffer))
    | _ => none
  | .panic =>
    match s.work q with
    | .filtering [] _ => some (s.go q (.finishing true))
    | .reading _ _ => some (s.go q (.finishing true))
    | _ => none
  | .send =>
    match s.work q with
    | .sending rest buffer (l :: left) =>
      some { s.go q (.counted rest buffer l left) with group := s.group.inc }
    | .sending rest _ [] => some (s.go q (.reading rest []))
    | _ => none
  | .deliver =>
    match s.work q with
    | .counted rest buffer l left =>
      if s.closed l then none
      else
        some { s.go q (.sending rest buffer left) with
          queue := update s.queue l (s.queue l ++ [buffer]) }
    | _ => none
  | .fail =>
    match s.work q with
    | .counted rest buffer l left =>
      if s.closed l ∨ s.cancelled then
        some { s.go q (.sending rest buffer left) with group := cfg.settle l s.group }
      else none
    | _ => none
  | .finish =>
    match s.work q with
    | .finishing panicked =>
      some { s.go q (if panicked then .ended else .idle) with group := cfg.settle q.1 s.group }
    | _ => none

/-- One step of the group. -/
def step (cfg : Config V) (s : State V) : Act V → Option (State V)
  | .cancel => if s.cancelled then none else some { s with cancelled := true }
  | .member i => if i < cfg.size then memberStep cfg s i else none
  | .loop k move => if k < cfg.links then loopStep cfg s k move else none
  | .proc q move =>
    if q.1 < cfg.links ∧ q.2 < cfg.numProcs then procStep cfg s q move else none

/-! ## One constructor per path of the code -/

/-- The indices of the processors. -/
def Config.HasProc (cfg : Config V) (q : ProcId) : Prop := q.1 < cfg.links ∧ q.2 < cfg.numProcs

/-- The steps, with the guard of each path. -/
inductive Goes (cfg : Config V) (s : State V) : Act V → State V → Prop
  | cancel (hc : s.cancelled = false) : Goes cfg s .cancel { s with cancelled := true }
  | skip {i : Nat} (hi : i < cfg.size) (hp : s.phase i = .standard) (hnone : cfg.senders i = []) :
      Goes cfg s (.member i) (s.enter i (.leaving (cfg.listeners i)))
  | exhausted {i : Nat} (hi : i < cfg.size) (hp : s.phase i = .standard)
      (hsome : cfg.senders i ≠ [])
      (hdone : ∀ k ∈ cfg.senders i, cfg.cyclical k = false → s.loop k = .done) :
      Goes cfg s (.member i) (s.enter i .reporting)
  | report {i : Nat} (hi : i < cfg.size) (hp : s.phase i = .reporting) :
      Goes cfg s (.member i) { s.enter i .decrementing with group := s.group.report i }
  | decrement {i : Nat} (hi : i < cfg.size) (hp : s.phase i = .decrementing) :
      Goes cfg s (.member i) { s.enter i .awaitingReady with group := s.group.dec }
  | passReady {i : Nat} (hi : i < cfg.size) (hp : s.phase i = .awaitingReady)
      (hready : s.group.statusPool.passesReady = true) :
      Goes cfg s (.member i) (s.enter i .awaitingQuiescence)
  | lead {i : Nat} (hi : i < cfg.size) (hp : s.phase i = .awaitingQuiescence)
      (hquiet : s.group.statusPool.passesQuiescence = true)
      (hleader : (s.group.member i).leader = true) :
      Goes cfg s (.member i) (s.enter i (.cleaning (cfg.listeners i)))
  | sleep {i : Nat} (hi : i < cfg.size) (hp : s.phase i = .awaitingQuiescence)
      (hquiet : s.group.statusPool.passesQuiescence = true)
      (hleader : (s.group.member i).leader = false) :
      Goes cfg s (.member i) (s.enter i .sleeping)
  | woken {i : Nat} (hi : i < cfg.size) (hp : s.phase i = .sleeping)
      (hawake : (s.group.member i).awake = true) :
      Goes cfg s (.member i) (s.enter i (.cleaning (cfg.listeners i)))
  | cleanup {i l : Nat} {left : List Nat} (hi : i < cfg.size)
      (hp : s.phase i = .cleaning (l :: left)) :
      Goes cfg s (.member i) ((s.enter i (.cleaning left)).close l)
  | cleaned {i : Nat} (hi : i < cfg.size) (hp : s.phase i = .cleaning []) :
      Goes cfg s (.member i) (s.enter i .waking)
  | wake {i : Nat} (hi : i < cfg.size) (hp : s.phase i = .waking) :
      Goes cfg s (.member i) { s.enter i .recursive with group := s.group.wake (s.group.next i) }
  | joinAll {i : Nat} (hi : i < cfg.size) (hp : s.phase i = .recursive)
      (hdone : ∀ k ∈ cfg.senders i, cfg.cyclical k = true → s.loop k = .done) :
      Goes cfg s (.member i) (s.enter i (.leaving (cfg.listeners i)))
  | leave {i l : Nat} {left : List Nat} (hi : i < cfg.size)
      (hp : s.phase i = .leaving (l :: left)) :
      Goes cfg s (.member i) ((s.enter i (.leaving left)).close l)
  | left {i : Nat} (hi : i < cfg.size) (hp : s.phase i = .leaving []) :
      Goes cfg s (.member i) (s.enter i .returned)
  | receive {k : Nat} {msg : List V} {rest : List (List V)} (hk : k < cfg.links)
      (hl : s.loop k = .receiving) (hq : s.queue k = msg :: rest) :
      Goes cfg s (.loop k .receive)
        { s.turn k (.offering msg) with queue := update s.queue k rest }
  | exhaust {k : Nat} (hk : k < cfg.links) (hl : s.loop k = .receiving)
      (hends : recvEnds cfg s k = true) : Goes cfg s (.loop k .exhaust) (s.turn k .closing)
  | giveUp {k : Nat} {msg : List V} (hk : k < cfg.links) (hl : s.loop k = .offering msg)
      (hc : s.cancelled = true) :
      Goes cfg s (.loop k .giveUp) { s.turn k .closing with group := cfg.settle k s.group }
  | shut {k : Nat} (hk : k < cfg.links) (hl : s.loop k = .closing)
      (hended : ∀ p < cfg.numProcs, s.work (k, p) = .ended) :
      Goes cfg s (.loop k .shut) (s.turn k .draining)
  | drain {k : Nat} {msg : List V} {rest : List (List V)} (hk : k < cfg.links)
      (hl : s.loop k = .draining) (hq : s.queue k = msg :: rest) :
      Goes cfg s (.loop k .drain)
        { s with queue := update s.queue k rest, group := cfg.settle k s.group }
  | drained {k : Nat} (hk : k < cfg.links) (hl : s.loop k = .draining) (hq : s.queue k = [])
      (hclosed : s.closed k = true) : Goes cfg s (.loop k .drain) (s.turn k .done)
  | take {q : ProcId} {msg : List V} (hq : cfg.HasProc q) (hl : s.loop q.1 = .offering msg)
      (hw : s.work q = .idle) :
      Goes cfg s (.proc q .take) ((s.turn q.1 .receiving).go q (.filtering msg []))
  | retire {q : ProcId} (hq : cfg.HasProc q) (hl : s.loop q.1 = .closing) (hw : s.work q = .idle) :
      Goes cfg s (.proc q .retire) (s.go q .ended)
  | filter {q : ProcId} {v : V} {todo kept : List V} (hq : cfg.HasProc q)
      (hw : s.work q = .filtering (v :: todo) kept) :
      Goes cfg s (.proc q .filter)
        { s.go q (.filtering todo (kept ++ (preprocess (cfg.cyclical q.1) (s.seen q.1) v).1)) with
          seen := update s.seen q.1 (preprocess (cfg.cyclical q.1) (s.seen q.1) v).2 }
  | interpret {q : ProcId} {kept out : List V} (hq : cfg.HasProc q)
      (hw : s.work q = .filtering [] kept) (hout : cfg.answers q.1 kept out = true) :
      Goes cfg s (.proc q (.interpret out)) (s.go q (.reading out []))
  | readOld {q : ProcId} {v : V} {rest buffer : List V} (hq : cfg.HasProc q)
      (hw : s.work q = .reading (v :: rest) buffer) (hold : v ∈ s.outputs (cfg.owner q.1)) :
      Goes cfg s (.proc q .read) (s.go q (.reading rest buffer))
  | readNew {q : ProcId} {v : V} {rest buffer : List V} (hq : cfg.HasProc q)
      (hw : s.work q = .reading (v :: rest) buffer) (hnew : v ∉ s.outputs (cfg.owner q.1))
      (hchunk : buffer.length + 1 ≠ cfg.chunkSize) :
      Goes cfg s (.proc q .read)
        { s.go q (.reading rest (buffer ++ [v])) with
          outputs := update s.outputs (cfg.owner q.1) (v :: s.outputs (cfg.owner q.1)) }
  | readChunk {q : ProcId} {v : V} {rest buffer : List V} (hq : cfg.HasProc q)
      (hw : s.work q = .reading (v :: rest) buffer) (hnew : v ∉ s.outputs (cfg.owner q.1))
      (hchunk : buffer.length + 1 = cfg.chunkSize) :
      Goes cfg s (.proc q .read)
        { s.go q (.sending rest (buffer ++ [v]) (cfg.listeners (cfg.owner q.1))) with
          outputs := update s.outputs (cfg.owner q.1) (v :: s.outputs (cfg.owner q.1)) }
  | flush {q : ProcId} {b : V} {buffer : List V} (hq : cfg.HasProc q)
      (hw : s.work q = .reading [] (b :: buffer)) :
      Goes cfg s (.proc q .read)
        (s.go q (.sending [] (b :: buffer) (cfg.listeners (cfg.owner q.1))))
  | readEnd {q : ProcId} (hq : cfg.HasProc q) (hw : s.work q = .reading [] []) :
      Goes cfg s (.proc q .read) (s.go q (.finishing false))
  | abort {q : ProcId} {v : V} {rest buffer : List V} (hq : cfg.HasProc q)
      (hw : s.work q = .reading (v :: rest) buffer) :
      Goes cfg s (.proc q .abort) (s.go q (.reading [] buffer))
  | panicInterpret {q : ProcId} {kept : List V} (hq : cfg.HasProc q)
      (hw : s.work q = .filtering [] kept) :
      Goes cfg s (.proc q .panic) (s.go q (.finishing true))
  | panicRead {q : ProcId} {rest buffer : List V} (hq : cfg.HasProc q)
      (hw : s.work q = .reading rest buffer) :
      Goes cfg s (.proc q .panic) (s.go q (.finishing true))
  | count {q : ProcId} {rest buffer : List V} {l : Nat} {left : List Nat} (hq : cfg.HasProc q)
      (hw : s.work q = .sending rest buffer (l :: left)) :
      Goes cfg s (.proc q .send)
        { s.go q (.counted rest buffer l left) with group := s.group.inc }
  | sent {q : ProcId} {rest buffer : List V} (hq : cfg.HasProc q)
      (hw : s.work q = .sending rest buffer []) :
      Goes cfg s (.proc q .send) (s.go q (.reading rest []))
  | deliver {q : ProcId} {rest buffer : List V} {l : Nat} {left : List Nat} (hq : cfg.HasProc q)
      (hw : s.work q = .counted rest buffer l left) (hopen : s.closed l = false) :
      Goes cfg s (.proc q .deliver)
        { s.go q (.sending rest buffer left) with
          queue := update s.queue l (s.queue l ++ [buffer]) }
  | fail {q : ProcId} {rest buffer : List V} {l : Nat} {left : List Nat} (hq : cfg.HasProc q)
      (hw : s.work q = .counted rest buffer l left) (hc : s.closed l = true ∨ s.cancelled = true) :
      Goes cfg s (.proc q .fail)
        { s.go q (.sending rest buffer left) with group := cfg.settle l s.group }
  | finish {q : ProcId} {panicked : Bool} (hq : cfg.HasProc q)
      (hw : s.work q = .finishing panicked) :
      Goes cfg s (.proc q .finish)
        { s.go q (if panicked then .ended else .idle) with group := cfg.settle q.1 s.group }

variable {cfg : Config V} {s s' : State V} {a : Act V}

lemma goes_of_memberStep {i} (hi : i < cfg.size) (h : memberStep cfg s i = some s') :
    Goes cfg s (.member i) s' := by
  unfold memberStep at h
  split at h
  case h_1 hp =>
      split at h
      case isTrue hnone => cases h; exact .skip hi hp hnone
      case isFalse hsome =>
        split at h
        case isTrue hdone => cases h; exact .exhausted hi hp hsome hdone
        case isFalse => cases h
  case h_2 hp => cases h; exact .report hi hp
  case h_3 hp => cases h; exact .decrement hi hp
  case h_4 hp =>
      split at h
      case isTrue hready => cases h; exact .passReady hi hp hready
      case isFalse => cases h
  case h_5 hp =>
      split at h
      case isTrue hquiet =>
        split at h
        case isTrue hleader => cases h; exact .lead hi hp hquiet hleader
        case isFalse hleader => cases h; exact .sleep hi hp hquiet (eq_false_of_ne_true hleader)
      case isFalse => cases h
  case h_6 hp =>
      split at h
      case isTrue hawake => cases h; exact .woken hi hp hawake
      case isFalse => cases h
  case h_7 hp => cases h; exact .cleanup hi hp
  case h_8 hp => cases h; exact .cleaned hi hp
  case h_9 hp => cases h; exact .wake hi hp
  case h_10 hp =>
      split at h
      case isTrue hdone => cases h; exact .joinAll hi hp hdone
      case isFalse => cases h
  case h_11 hp => cases h; exact .leave hi hp
  case h_12 hp => cases h; exact .left hi hp
  case h_13 => cases h

lemma goes_of_loopStep {k move} (hk : k < cfg.links)
    (h : loopStep cfg s k move = some s') : Goes cfg s (.loop k move) s' := by
  cases move <;> simp only [loopStep] at h
  case receive =>
    split at h <;> cases h
    case h_1 hl hq => exact .receive hk hl hq
  case exhaust =>
    split at h <;> cases h
    case isTrue hends => exact .exhaust hk hends.1 hends.2
  case giveUp =>
    split at h
    case h_1 hl =>
      split at h <;> cases h
      case isTrue hc => exact .giveUp hk hl hc
    case h_2 => cases h
  case shut =>
    split at h <;> cases h
    case isTrue hended => exact .shut hk hended.1 hended.2
  case drain =>
    split at h
    case h_1 hl hq => cases h; exact .drain hk hl hq
    case h_2 hl hq =>
      split at h <;> cases h
      case isTrue hclosed => exact .drained hk hl hq hclosed
    case h_3 => cases h

lemma goes_of_procStep {q move} (hq : cfg.HasProc q)
    (h : procStep cfg s q move = some s') : Goes cfg s (.proc q move) s' := by
  cases move <;> simp only [procStep] at h
  case take =>
    split at h <;> cases h
    case h_1 hl hw => exact .take hq hl hw
  case retire =>
    split at h <;> cases h
    case isTrue hidle => exact .retire hq hidle.1 hidle.2
  case filter =>
    split at h <;> cases h
    case h_1 hw => exact .filter hq hw
  case interpret out =>
    split at h
    case h_1 hw =>
      split at h <;> cases h
      case isTrue hout => exact .interpret hq hw hout
    case h_2 => cases h
  case read =>
    split at h
    case h_1 hw =>
      split at h
      case isTrue hold => cases h; exact .readOld hq hw hold
      case isFalse hnew =>
        split at h <;> cases h
        case isTrue hchunk => exact .readChunk hq hw hnew hchunk
        case isFalse hchunk => exact .readNew hq hw hnew hchunk
    case h_2 hw => cases h; exact .flush hq hw
    case h_3 hw => cases h; exact .readEnd hq hw
    case h_4 => cases h
  case abort =>
    split at h <;> cases h
    case h_1 hw => exact .abort hq hw
  case panic =>
    split at h <;> cases h
    case h_1 hw => exact .panicInterpret hq hw
    case h_2 hw => exact .panicRead hq hw
  case send =>
    split at h <;> cases h
    case h_1 hw => exact .count hq hw
    case h_2 hw => exact .sent hq hw
  case deliver =>
    split at h
    case h_1 hw =>
      split at h <;> cases h
      case isFalse hopen => exact .deliver hq hw (eq_false_of_ne_true hopen)
    case h_2 => cases h
  case fail =>
    split at h
    case h_1 hw =>
      split at h <;> cases h
      case isTrue hc => exact .fail hq hw hc
    case h_2 => cases h
  case finish =>
    split at h <;> cases h
    case h_1 hw => exact .finish hq hw

lemma goes_of_step (h : step cfg s a = some s') : Goes cfg s a s' := by
  cases a <;> simp only [step] at h
  case cancel =>
    split at h
    case isTrue => cases h
    case isFalse hc => cases h; exact .cancel (eq_false_of_ne_true hc)
  case member i =>
    split at h
    case isTrue hi => exact goes_of_memberStep hi h
    case isFalse => cases h
  case loop k move =>
    split at h
    case isTrue hk => exact goes_of_loopStep hk h
    case isFalse => cases h
  case proc q move =>
    split at h
    case isTrue hq => exact goes_of_procStep hq h
    case isFalse => cases h

end

end OpenFGA.Pipeline.BasicGroup
