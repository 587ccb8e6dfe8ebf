/-
  Shared iterators
  (`pkg/storage/storagewrappers/sharediterator/shared_iterator_datastore.go`).

  The clones of a shared iterator read one underlying iterator.  What was read is kept in a
  slice that all clones share; a clone that is at its end fetches more.  `await.Do` lets one
  clone fetch at a time, the others wait for its wait group.  A count of the clones that are
  not stopped decides who stops the underlying iterator.

  Each clone has a mutex around `Head`, `Next` and `Stop`, so at most one call runs on it:
  a handle has the phase of that call.  A call that waits for the mutex has not begun.  The
  contexts of the calls are not done.

  To its callers a clone is an iterator of its own over the same
  tuples (`Follows`); the underlying iterator is stopped once, after the last clone, and is not
  used afterwards; and the calls end, unless they spin on a fetch that has been
  signalled but not reset: `clones_transparent`.
-/

import OpenFGA.Lib.Run
import OpenFGA.Lib.Tasks

namespace OpenFGA.SharedIterator.Clones
open List Option Bool

variable {T E : Type}

/-- What the underlying iterator yields: tuples, then an error. -/
structure Underlying (T E : Type) where
  items : List T
  err : E

/-- What an iterator at the position answers. -/
def Underlying.at (u : Underlying T E) (pos : Nat) : Except E T :=
  match u.items[pos]? with
  | some t => .ok t
  | none => .error u.err

/-- An answer of `Next`, or of `Head`. -/
structure Answer (T E : Type) where
  next : Bool
  result : Except E T

/-- The position after an answer. -/
def Answer.advance (a : Answer T E) (pos : Nat) : Nat :=
  match a.next, a.result with
  | true, .ok _ => pos + 1
  | _, _ => pos

/-- The answers are those of an iterator of its own that starts at the position. -/
def Follows (u : Underlying T E) : Nat → List (Answer T E) → Prop
  | _, [] => True
  | pos, a :: as => a.result = u.at pos ∧ Follows u (a.advance pos) as

/-- The position after the answers. -/
def position (pos : Nat) (as : List (Answer T E)) : Nat := as.foldl (fun pos a => a.advance pos) pos

/-! ## The shared iterator -/

/-- The number of items to fetch at a time. -/
def bufferSize : Nat := 100

/-- A call on a handle. -/
inductive Op where
  /-- `Next`, or `Head`. -/
  | current (next : Bool)
  | stop
deriving DecidableEq, Repr

inductive Phase (T E : Type) where
  /-- The mutex is free. -/
  | idle
  | locked (op : Op)
  /-- At the head of the loop of `fetchAndWait`. -/
  | loading (next : Bool)
  /-- Before `await.Do`. -/
  | entering (next : Bool)
  | waiting (next : Bool) (wg : Nat)
  /-- It runs the function of `await.Do`. -/
  | fetching (next : Bool)
  | loaded (next : Bool) (items : List T) (err : Option E)
  /-- It is stopped and decrements the count next. -/
  | decrementing
  /-- It stops the underlying iterator. -/
  | stopping

/-- `sharedIterator`, and what its calls answered. -/
structure Handle (T E : Type) where
  head : Nat
  stopped : Bool
  phase : Phase T E
  answers : List (Answer T E)

open Handle

/-- A new instance. -/
def Handle.new : Handle T E := ⟨0, false, .idle, []⟩

/-- How far the function of `await.Do` is. -/
inductive Fetch (T E : Type) where
  | reading (buf : List T)
  | storing (buf : List T) (err : Option E)
  | stored
  /-- The wait group is done. -/
  | signalled

structure State (T E : Type) where
  /-- What the underlying iterator has not yielded yet. -/
  remaining : List T
  /-- How often the underlying iterator was stopped. -/
  stops : Nat
  items : List T
  error : Option E
  /-- `await.active`. -/
  fetch : Option (Fetch T E)
  /-- The wait groups are numbered; this is `await.wg`. -/
  wg : Nat
  /-- The wait groups up to this one are done. -/
  completed : Nat
  refs : Int
  handles : List (Handle T E)

/-- `newSharedIterator`. -/
def start (u : Underlying T E) : State T E := ⟨u.items, 0, [], none, none, 0, 0, 1, [.new]⟩

inductive Act where
  /-- A call locks the mutex of the handle. -/
  | call (h : Nat) (op : Op)
  | clone (h : Nat)
  /-- The call on the handle goes on. -/
  | go (h : Nat)
deriving DecidableEq, Repr

/-- The call returns. -/
def Handle.answer (x : Handle T E) (next : Bool) (result : Except E T) : Handle T E :=
  let a : Answer T E := ⟨next, result⟩
  { x with head := a.advance x.head, phase := .idle, answers := x.answers ++ [a] }

/-- There is something to answer. -/
def State.ready (s : State T E) (x : Handle T E) : Bool := x.head < s.items.length || s.error.isSome

namespace State

variable (u : Underlying T E) (errIteratorDone : E) (s : State T E)

def set (h : Nat) (x : Handle T E) : State T E := { s with handles := s.handles.set h x }

/-- A step of `fetchMore`, and what follows it in `await.Do`. -/
def fetchMore (h : Nat) (x : Handle T E) (next : Bool) : Fetch T E → State T E
  | .reading buf =>
    if buf.length = bufferSize then { s with fetch := some (.storing buf none) }
    else match s.remaining with
      | t :: remaining => { s with remaining, fetch := some (.reading (buf ++ [t])) }
      | [] => { s with fetch := some (.storing buf (some u.err)) }
  | .storing buf err =>
    { s with items := s.items ++ buf, error := err.or s.error, fetch := some .stored }
  | .stored => { s with completed := s.wg, fetch := some .signalled }
  | .signalled => { s with fetch := none }.set h { x with phase := .loading next }

/-- A step of the call on the handle. -/
def go (h : Nat) (x : Handle T E) : Option (State T E) :=
  match x.phase with
  | .idle => none
  | .locked (.current next) =>
    if x.stopped then some (s.set h (x.answer next (.error errIteratorDone)))
    else some (s.set h { x with phase := .loading next })
  | .loading next =>
    if s.ready x then some (s.set h { x with phase := .loaded next s.items s.error })
    else some (s.set h { x with phase := .entering next })
  | .entering next =>
    match s.fetch with
    | some _ => some (s.set h { x with phase := .waiting next s.wg })
    | none =>
      some ({ s with fetch := some (.reading []), wg := s.wg + 1 }.set h
        { x with phase := .fetching next })
  | .waiting next wg =>
    if wg ≤ s.completed then some (s.set h { x with phase := .loading next }) else none
  | .fetching next => s.fetch.map (s.fetchMore u h x next)
  | .loaded next items err =>
    match items[x.head]? with
    | some t => some (s.set h (x.answer next (.ok t)))
    | none => some (s.set h (x.answer next (.error (err.getD errIteratorDone))))
  | .locked .stop =>
    if x.stopped then some (s.set h { x with phase := .idle })
    else some (s.set h { x with stopped := true, phase := .decrementing })
  | .decrementing =>
    let refs := s.refs - 1
    if refs = 0 then some ({ s with refs }.set h { x with phase := .stopping })
    else some ({ s with refs }.set h { x with phase := .idle })
  | .stopping => some ({ s with stops := s.stops + 1 }.set h { x with phase := .idle })

def step : Act → Option (State T E)
  | .call h op => do
      let x ← s.handles[h]?
      match x.phase with
      | .idle => some (s.set h { x with phase := .locked op })
      | _ => none
  | .clone h => do
      let x ← s.handles[h]?
      match x.phase with
      | .idle =>
        if x.stopped then some s
        else some { s with refs := s.refs + 1, handles := s.handles ++ [.new] }
      | _ => none
  | .go h => do s.go u errIteratorDone h (← s.handles[h]?)

end State

/-! ## What a step does -/

/-- The steps of a call, one constructor for each way the code can go. -/
inductive Goes (u : Underlying T E) (errIteratorDone : E) (s : State T E) (h : Nat)
    (x : Handle T E) : State T E → Prop where
  | done {next} (hphase : x.phase = .locked (.current next)) (hstopped : x.stopped = true) :
      Goes u errIteratorDone s h x (s.set h (x.answer next (.error errIteratorDone)))
  | begin {next} (hphase : x.phase = .locked (.current next)) (hlive : x.stopped = false) :
      Goes u errIteratorDone s h x (s.set h { x with phase := .loading next })
  | load {next} (hphase : x.phase = .loading next) (hready : s.ready x = true) :
      Goes u errIteratorDone s h x (s.set h { x with phase := .loaded next s.items s.error })
  | enter {next} (hphase : x.phase = .loading next) (hready : s.ready x = false) :
      Goes u errIteratorDone s h x (s.set h { x with phase := .entering next })
  | wait {next f} (hphase : x.phase = .entering next)
      (hfetch : s.fetch = some f) :
      Goes u errIteratorDone s h x (s.set h { x with phase := .waiting next s.wg })
  | acquire {next} (hphase : x.phase = .entering next) (hfetch : s.fetch = none) :
      Goes u errIteratorDone s h x ({ s with fetch := some (.reading []), wg := s.wg + 1 }.set h
        { x with phase := .fetching next })
  | wake {next wg} (hphase : x.phase = .waiting next wg) (hwg : wg ≤ s.completed) :
      Goes u errIteratorDone s h x (s.set h { x with phase := .loading next })
  | fill {next buf} (hphase : x.phase = .fetching next)
      (hfetch : s.fetch = some (.reading buf)) (hlength : buf.length = bufferSize) :
      Goes u errIteratorDone s h x { s with fetch := some (.storing buf none) }
  | read {next buf remaining t} (hphase : x.phase = .fetching next)
      (hfetch : s.fetch = some (.reading buf)) (hlength : buf.length ≠ bufferSize)
      (hremaining : s.remaining = t :: remaining) :
      Goes u errIteratorDone s h x { s with remaining, fetch := some (.reading (buf ++ [t])) }
  | exhaust {next buf} (hphase : x.phase = .fetching next)
      (hfetch : s.fetch = some (.reading buf)) (hremaining : s.remaining = []) :
      Goes u errIteratorDone s h x { s with fetch := some (.storing buf (some u.err)) }
  | store {next buf err} (hphase : x.phase = .fetching next)
      (hfetch : s.fetch = some (.storing buf err)) :
      Goes u errIteratorDone s h x
        { s with items := s.items ++ buf, error := err.or s.error, fetch := some .stored }
  | signal {next} (hphase : x.phase = .fetching next) (hfetch : s.fetch = some .stored) :
      Goes u errIteratorDone s h x { s with completed := s.wg, fetch := some .signalled }
  | reset {next} (hphase : x.phase = .fetching next) (hfetch : s.fetch = some .signalled) :
      Goes u errIteratorDone s h x
        ({ s with fetch := none }.set h { x with phase := .loading next })
  | item {next items err t}
      (hphase : x.phase = .loaded next items err) (hitem : items[x.head]? = some t) :
      Goes u errIteratorDone s h x (s.set h (x.answer next (.ok t)))
  | error {next items err}
      (hphase : x.phase = .loaded next items err) (hitem : items[x.head]? = none) :
      Goes u errIteratorDone s h x (s.set h (x.answer next (.error (err.getD errIteratorDone))))
  | stopAgain (hphase : x.phase = .locked .stop) (hstopped : x.stopped = true) :
      Goes u errIteratorDone s h x (s.set h { x with phase := .idle })
  | stop (hphase : x.phase = .locked .stop) (hlive : x.stopped = false) :
      Goes u errIteratorDone s h x (s.set h { x with stopped := true, phase := .decrementing })
  | last (hphase : x.phase = .decrementing) (hrefs : s.refs - 1 = 0) :
      Goes u errIteratorDone s h x
        ({ s with refs := s.refs - 1 }.set h { x with phase := .stopping })
  | release (hphase : x.phase = .decrementing) (hrefs : s.refs - 1 ≠ 0) :
      Goes u errIteratorDone s h x ({ s with refs := s.refs - 1 }.set h { x with phase := .idle })
  | stopUnderlying (hphase : x.phase = .stopping) :
      Goes u errIteratorDone s h x ({ s with stops := s.stops + 1 }.set h { x with phase := .idle })

section
variable {u : Underlying T E} {errIteratorDone : E} {s s' : State T E} {h : Nat} {x : Handle T E}

lemma goes_of_go (hgo : s.go u errIteratorDone h x = some s') :
    Goes u errIteratorDone s h x s' := by
  unfold State.go at hgo
  split at hgo
  · cases hgo
  next hphase =>
    split_ifs at hgo with hstopped
    · cases hgo
      exact .done hphase hstopped
    · cases hgo
      exact .begin hphase (eq_false_of_ne_true hstopped)
  next hphase =>
    split_ifs at hgo with hready
    · cases hgo
      exact .load hphase hready
    · cases hgo
      exact .enter hphase (eq_false_of_ne_true hready)
  next hphase =>
    split at hgo <;> cases hgo
    next hfetch => exact .wait hphase hfetch
    next hfetch => exact .acquire hphase hfetch
  next hphase =>
    split_ifs at hgo with hwg
    cases hgo
    exact .wake hphase hwg
  next hphase =>
    obtain ⟨f, hfetch, rfl⟩ := map_eq_some_iff.mp hgo
    cases f with
    | reading buf =>
      rw [State.fetchMore]
      split_ifs with hlength
      · exact .fill hphase hfetch hlength
      · split
        next hremaining => exact .read hphase hfetch hlength hremaining
        next hremaining => exact .exhaust hphase hfetch hremaining
    | storing buf err => exact .store hphase hfetch
    | stored => exact .signal hphase hfetch
    | signalled => exact .reset hphase hfetch
  next hphase =>
    split at hgo <;> cases hgo
    next hitem => exact .item hphase hitem
    next hitem => exact .error hphase hitem
  next hphase =>
    split_ifs at hgo with hstopped
    · cases hgo
      exact .stopAgain hphase hstopped
    · cases hgo
      exact .stop hphase (eq_false_of_ne_true hstopped)
  next hphase =>
    dsimp only at hgo
    split_ifs at hgo with hrefs
    · cases hgo
      exact .last hphase hrefs
    · cases hgo
      exact .release hphase hrefs
  next hphase =>
    cases hgo
    exact .stopUnderlying hphase

end

/-! ## The invariant -/

/-- The clones that a handle counts for. -/
@[simp] def Handle.refs (x : Handle T E) : Nat :=
  (!x.stopped).toNat +
    match x.phase with
    | .decrementing => 1
    | _ => 0

@[simp] def Handle.fetching (x : Handle T E) : Nat :=
  match x.phase with
  | .fetching _ => 1
  | _ => 0

@[simp] def Handle.stopping (x : Handle T E) : Nat :=
  match x.phase with
  | .stopping => 1
  | _ => 0

/-- What a handle counts for. -/
@[simp] def Handle.tally (x : Handle T E) : Nat × Nat × Nat := (x.fetching, x.refs, x.stopping)

/-- What was read and is not stored yet. -/
def State.buffered (s : State T E) : List T :=
  match s.fetch with
  | some (.reading buf) | some (.storing buf _) => buf
  | _ => []

/-- The wait group is not done. -/
def State.running (s : State T E) : Bool :=
  match s.fetch with
  | some (.reading _) | some (.storing _ _) | some .stored => true
  | _ => false

/-- What was read is stored. -/
def State.isStored (s : State T E) : Bool :=
  match s.fetch with
  | some .stored | some .signalled => true
  | _ => false

def Handle.PhaseOk (u : Underlying T E) (s : State T E) (x : Handle T E) : Prop :=
  match x.phase with
  | .idle | .locked _ => True
  | .loading _ | .entering _ => x.stopped = false
  | .waiting _ wg => x.stopped = false ∧ wg ≤ s.wg
  -- what it fetched is enough for itself
  | .fetching _ => x.stopped = false ∧ (s.isStored = true → s.ready x = true)
  | .loaded _ items err => x.stopped = false ∧ items.length ≤ s.items.length ∧ items <+: u.items ∧
      (x.head < items.length ∨ (err = some u.err ∧ items = u.items))
  | .decrementing | .stopping => x.stopped = true

structure Handle.Ok (u : Underlying T E) (s : State T E) (x : Handle T E) : Prop where
  head : x.head ≤ s.items.length
  answers : x.stopped = false → Follows u 0 x.answers ∧ position 0 x.answers = x.head
  phase : x.PhaseOk u s

structure Inv (u : Underlying T E) (s : State T E) : Prop where
  handles : ∀ x ∈ s.handles, x.Ok u s
  data : s.items ++ s.buffered ++ s.remaining = u.items
  error : ∀ e, s.error = some e → e = u.err ∧ s.items = u.items
  reading : ∀ buf, s.fetch = some (.reading buf) → buf.length ≤ bufferSize
  storing : ∀ buf err, s.fetch = some (.storing buf err) →
    (err = none ∧ buf ≠ []) ∨ (err = some u.err ∧ s.remaining = [])
  wg : s.wg = s.completed + if s.running then 1 else 0
  fetching : (s.handles.map fetching).sum = if s.fetch.isSome then 1 else 0
  refs : s.refs = ((s.handles.map refs).sum : Nat)
  stops : s.stops + (s.handles.map stopping).sum = if s.refs = 0 then 1 else 0

open State (ready buffered running isStored)
section
variable {u : Underlying T E} {errIteratorDone : E} {s s' : State T E} {h : Nat} {x x' : Handle T E}

lemma follows_append {pos as a}
    (has : Follows u pos as) (ha : a.result = u.at (position pos as)) :
    Follows u pos (as ++ [a]) := by
  induction as generalizing pos with
  | nil => exact ⟨ha, trivial⟩
  | cons b as ih => exact ⟨has.1, ih has.2 ha⟩

lemma position_append {pos as} {a : Answer T E} :
    position pos (as ++ [a]) = a.advance (position pos as) := by
  rw [position, foldl_append]
  rfl

lemma ready_phase (phase : Phase T E) : s.ready { x with phase } = s.ready x := rfl

lemma ready_mono (hitems : s.items.length ≤ s'.items.length)
    (herror : s.error.isSome = true → s'.error.isSome = true) (hready : s.ready x = true) :
    s'.ready x = true := by
  rw [ready, or_eq_true, decide_eq_true_eq] at hready ⊢
  exact hready.imp (fun hlt => lt_of_lt_of_le hlt hitems) herror

/-- What is known of a handle stays true while the shared state grows. -/
lemma Handle.Ok.mono (hx : x.Ok u s) (hitems : s.items.length ≤ s'.items.length)
    (hwg : s.wg ≤ s'.wg)
    (hfetch : x.fetching = 1 → s'.isStored = true → (s.isStored = true → s.ready x = true) →
      s'.ready x = true) : x.Ok u s' := by
  refine ⟨hx.head.trans hitems, hx.answers, ?_⟩
  have hphase := hx.phase
  unfold Handle.PhaseOk at hphase ⊢
  cases hcase : x.phase with
  | waiting next wg =>
    rw [hcase] at hphase
    exact ⟨hphase.1, hphase.2.trans hwg⟩
  | fetching next =>
    rw [hcase] at hphase
    exact ⟨hphase.1, fun hstored => hfetch (by rw [fetching, hcase]) hstored hphase.2⟩
  | loaded next items err =>
    rw [hcase] at hphase
    exact ⟨hphase.1, hphase.2.1.trans hitems, hphase.2.2⟩
  | _ =>
    rw [hcase] at hphase
    exact hphase

/-- While a fetch goes on, nothing is said of what it stores. -/
lemma Handle.Ok.unstored (hx : x.Ok u s) (hitems : s'.items = s.items) (hwg : s.wg ≤ s'.wg)
    (hstored : s'.isStored = false) : x.Ok u s' :=
  hx.mono (by rw [hitems]) hwg fun _ htrue => absurd (hstored ▸ htrue) Bool.false_ne_true

lemma Handle.Ok.of_set (hx : x.Ok u s) : x.Ok u (s.set h x') :=
  hx.mono le_rfl le_rfl fun _ hstored hready => hready hstored

lemma inv_start (u : Underlying T E) : Inv u (start u) where
  handles x hx := by
    rw [mem_singleton.mp hx]
    exact ⟨Nat.le_refl 0, fun _ => ⟨trivial, rfl⟩, trivial⟩
  data := rfl
  error := nofun
  reading := nofun
  storing := nofun
  wg := rfl
  fetching := rfl
  refs := rfl
  stops := rfl

section
variable (hinv : Inv u s) (hx : s.handles[h]? = some x)
include hinv hx

/-- A step that changes the handle and the shared state. -/
lemma Inv.replace {s₁}
    (hhandles : s₁.handles = s.handles) (hothers : ∀ y ∈ s.handles, y.Ok u s → y.Ok u s₁)
    (hok : x'.Ok u s₁) (hdata : s₁.items ++ s₁.buffered ++ s₁.remaining = u.items)
    (herror : ∀ e, s₁.error = some e → e = u.err ∧ s₁.items = u.items)
    (hreading : ∀ buf, s₁.fetch = some (.reading buf) → buf.length ≤ bufferSize)
    (hstoring : ∀ buf err, s₁.fetch = some (.storing buf err) →
      (err = none ∧ buf ≠ []) ∨ (err = some u.err ∧ s₁.remaining = []))
    (hwg : s₁.wg = s₁.completed + if s₁.running then 1 else 0)
    (hfetching : (if s₁.fetch.isSome then 1 else 0) + x.fetching =
      (if s.fetch.isSome then 1 else 0) + x'.fetching) (hrefs : s₁.refs + x.refs = s.refs + x'.refs)
    (hstops : s₁.stops + x'.stopping + (if s.refs = 0 then 1 else 0) =
      s.stops + x.stopping + if s₁.refs = 0 then 1 else 0) : Inv u (s₁.set h x') := by
  have hsumFetching := Tasks.sum_set Handle.fetching hx x'
  have hsumRefs := Tasks.sum_set Handle.refs hx x'
  have hsumStopping := Tasks.sum_set Handle.stopping hx x'
  refine ⟨fun y hy => ?_, hdata, herror, hreading, hstoring, hwg, ?_, ?_, ?_⟩
  · rw [State.set, hhandles] at hy
    obtain hy | rfl := mem_or_eq_of_mem_set hy
    · exact (hothers y hy (hinv.handles y hy)).of_set
    · exact hok.of_set
  · have := hinv.fetching
    show ((s₁.handles.set h x').map Handle.fetching).sum = if s₁.fetch.isSome then 1 else 0
    rw [hhandles]
    omega
  · have := hinv.refs
    show s₁.refs = (((s₁.handles.set h x').map Handle.refs).sum : Nat)
    rw [hhandles]
    omega
  · have := hinv.stops
    show s₁.stops + ((s₁.handles.set h x').map stopping).sum = if s₁.refs = 0 then 1 else 0
    rw [hhandles]
    omega

/-- A step that changes the handle and the counts. -/
theorem Inv.count {refs stops} (hok : x'.Ok u s) (hfetching : x'.fetching = x.fetching)
    (hrefs : refs + x.refs = s.refs + x'.refs)
    (hstops : stops + x'.stopping + (if s.refs = 0 then 1 else 0) =
      s.stops + x.stopping + if refs = 0 then 1 else 0) : Inv u ({ s with refs, stops }.set h x') :=
  have hsame (y : Handle T E) (hy : y.Ok u s) : y.Ok u { s with refs, stops } :=
    hy.mono le_rfl le_rfl fun _ hstored hready => hready hstored
  hinv.replace hx rfl (fun y _ => hsame y) (hsame x' hok) hinv.data hinv.error hinv.reading
    hinv.storing hinv.wg (congrArg _ hfetching.symm) hrefs hstops

theorem Inv.set (hok : x'.Ok u s) (htally : x'.tally = x.tally) : Inv u (s.set h x') := by
  simp only [tally, Prod.mk.injEq] at htally
  exact hinv.count hx hok htally.1 (by omega) (by omega)

end

/-- The call returns what an iterator of its own would. -/
theorem Handle.Ok.answer (hx : x.Ok u s) {next r} (hresult : x.stopped = false → r = u.at x.head)
    (hhead : ∀ t, r = .ok t → x.head < s.items.length) : (x.answer next r).Ok u s := by
  refine ⟨?_, fun hlive => ?_, trivial⟩
  · have := hx.head
    show Answer.advance ⟨next, r⟩ x.head ≤ s.items.length
    cases next with
    | false => exact this
    | true =>
      cases r with
      | error e => exact this
      | ok t => exact hhead t rfl
  · obtain ⟨hfollows, hposition⟩ := hx.answers hlive
    refine ⟨follows_append hfollows ?_, ?_⟩
    · rw [hposition]
      exact hresult hlive
    · show position 0 (x.answers ++ [_]) = _
      rw [position_append, hposition]
      rfl

section
variable (hinv : Inv u s)
include hinv

/-- The items stored so far are the first ones. -/
lemma Inv.items_first : s.items <+: u.items := by
  rw [← hinv.data, append_assoc]
  exact prefix_append _ _

/-- Only one handle fetches at a time. -/
lemma Inv.fetch_ne_none (hx : x ∈ s.handles) (hfetching : x.fetching = 1) :
    s.fetch ≠ none := by
  intro hnone
  have hsum := hinv.fetching
  rw [hnone] at hsum
  have hle : x.fetching ≤ (s.handles.map Handle.fetching).sum :=
    le_sum_of_mem (mem_map_of_mem hx)
  rw [hsum, hfetching] at hle
  exact absurd hle (Nat.not_succ_le_zero 0)

lemma Inv.refs_pos (hx : x ∈ s.handles) (hrefs : 0 < x.refs) : 0 < s.refs := by
  have hle : x.refs ≤ (s.handles.map Handle.refs).sum :=
    le_sum_of_mem (mem_map_of_mem hx)
  have := hinv.refs
  omega

/-- A step of the fetch that leaves the handles alone. -/
theorem Inv.fetch {remaining items error f f' completed}
    (hs' : s' = { s with remaining, items, error, fetch := some f, completed })
    (hfetch : s.fetch = some f') (hhandles : ∀ y ∈ s.handles, y.Ok u s → y.Ok u s')
    (hdata : s'.items ++ s'.buffered ++ s'.remaining = u.items)
    (herror : ∀ e, s'.error = some e → e = u.err ∧ s'.items = u.items)
    (hreading : ∀ buf, s'.fetch = some (.reading buf) → buf.length ≤ bufferSize)
    (hstoring : ∀ buf err, s'.fetch = some (.storing buf err) →
      (err = none ∧ buf ≠ []) ∨ (err = some u.err ∧ s'.remaining = []))
    (hwg : s'.wg = s'.completed + if s'.running then 1 else 0) : Inv u s' := by
  subst hs'
  refine ⟨fun y hy => hhandles y hy (hinv.handles y hy), hdata, herror, hreading, hstoring, hwg, ?_,
    hinv.refs, hinv.stops⟩
  have hsum := hinv.fetching
  rw [hfetch] at hsum
  exact hsum

theorem Inv.goes (hx : s.handles[h]? = some x)
    (hgoes : Goes u errIteratorDone s h x s') : Inv u s' := by
  have hmem := mem_of_getElem? hx
  have hok := hinv.handles x hmem
  have hphaseOk := hok.phase
  unfold Handle.PhaseOk at hphaseOk
  cases hgoes with
  | done hphase hstopped =>
    refine hinv.set hx (hok.answer (fun hlive => ?_) nofun) ?_
    · rw [hstopped] at hlive
      cases hlive
    · simp [answer, hphase]
  | begin hphase hlive =>
    refine hinv.set hx ⟨hok.head, hok.answers, hlive⟩ ?_
    simp [hphase]
  | load hphase hready =>
    rw [hphase] at hphaseOk
    refine hinv.set hx ⟨hok.head, hok.answers, hphaseOk, le_rfl, hinv.items_first, ?_⟩ ?_
    · rw [ready, or_eq_true, decide_eq_true_eq] at hready
      refine hready.imp id fun hsome => ?_
      obtain ⟨e, he⟩ := isSome_iff_exists.mp hsome
      obtain ⟨rfl, hitems⟩ := hinv.error e he
      exact ⟨he, hitems⟩
    · simp [hphase]
  | enter hphase hready =>
    rw [hphase] at hphaseOk
    refine hinv.set hx ⟨hok.head, hok.answers, hphaseOk⟩ ?_
    simp [hphase]
  | wait hphase hfetch =>
    rw [hphase] at hphaseOk
    refine hinv.set hx ⟨hok.head, hok.answers, hphaseOk, le_rfl⟩ ?_
    simp [hphase]
  | wake hphase hwg =>
    rw [hphase] at hphaseOk
    refine hinv.set hx ⟨hok.head, hok.answers, hphaseOk.1⟩ ?_
    simp [hphase]
  | @item next items err t hphase hitem =>
    rw [hphase] at hphaseOk
    obtain ⟨-, hlength, hfirst, -⟩ := hphaseOk
    obtain ⟨hlt, -⟩ := List.getElem?_eq_some_iff.mp hitem
    refine hinv.set hx (hok.answer (fun _ => ?_) fun _ _ => hlt.trans_le hlength) ?_
    · obtain ⟨rest, hrest⟩ := hfirst
      rw [Underlying.at, ← hrest, getElem?_append_left hlt, hitem]
    · simp [answer, hphase]
  | error hphase hitem =>
    rw [hphase] at hphaseOk
    obtain ⟨-, hlength, hfirst, hready⟩ := hphaseOk
    have hle := getElem?_eq_none_iff.mp hitem
    obtain ⟨rfl, rfl⟩ := hready.resolve_left (Nat.not_lt.mpr hle)
    refine hinv.set hx (hok.answer (fun _ => ?_) nofun) ?_
    · rw [Underlying.at, hitem]
      rfl
    · simp [answer, hphase]
  | stopAgain hphase hstopped =>
    refine hinv.set hx ⟨hok.head, hok.answers, trivial⟩ ?_
    simp [hphase]
  | stop hphase hlive =>
    refine hinv.set hx ⟨hok.head, nofun, rfl⟩ ?_
    simp [hphase, hlive]
  | @acquire next hphase hfetch =>
    rw [hphase] at hphaseOk
    refine hinv.replace hx rfl ?_ ⟨hok.head, hok.answers, hphaseOk, nofun⟩ ?_ hinv.error ?_ nofun
      ?_ ?_ ?_ ?_
    · exact fun y _ hy => hy.unstored rfl (Nat.le_succ _) rfl
    · simpa [buffered, hfetch] using hinv.data
    · intro buf heq
      cases heq
      exact Nat.zero_le _
    · have hwg := hinv.wg
      rw [running, hfetch] at hwg
      exact congrArg (· + 1) hwg
    · simp [hphase, hfetch]
    · simp [hphase]
    · simp [hphase]
  | @fill next buf hphase hfetch hlength =>
    refine hinv.fetch rfl hfetch (fun y _ hy => hy.unstored rfl le_rfl rfl) ?_ hinv.error
      nofun ?_ ?_
    · simpa [buffered, hfetch] using hinv.data
    · intro buf' err' heq
      cases heq
      refine .inl ⟨rfl, ne_nil_of_length_pos ?_⟩
      rw [hlength]
      decide
    · simpa [running, hfetch] using hinv.wg
  | @read next buf remaining t hphase hfetch hlength hremaining =>
    refine hinv.fetch rfl hfetch (fun y _ hy => hy.unstored rfl le_rfl rfl) ?_ hinv.error
      ?_ nofun ?_
    · have hdata := hinv.data
      rw [buffered, hfetch, hremaining] at hdata
      simp only [buffered, ← hdata, append_assoc, singleton_append]
    · intro buf' heq
      cases heq
      have hle := hinv.reading buf hfetch
      rw [length_append, length_singleton]
      omega
    · simpa [running, hfetch] using hinv.wg
  | @exhaust next buf hphase hfetch hremaining =>
    refine hinv.fetch rfl hfetch (fun y _ hy => hy.unstored rfl le_rfl rfl) ?_ hinv.error
      nofun ?_ ?_
    · simpa [buffered, hfetch] using hinv.data
    · intro buf' err' heq
      cases heq
      exact .inr ⟨rfl, hremaining⟩
    · simpa [running, hfetch] using hinv.wg
  | @store next buf err hphase hfetch =>
    have hstoring := hinv.storing buf err hfetch
    have hdata := hinv.data
    rw [buffered, hfetch] at hdata
    refine hinv.fetch rfl hfetch (fun y _ hy => ?_) ?_ ?_ nofun nofun ?_
    · refine hy.mono (by simp) le_rfl fun _ _ _ => ?_
      have hhead := hy.head
      rw [ready, or_eq_true, decide_eq_true_eq]
      obtain ⟨-, hne⟩ | ⟨rfl, -⟩ := hstoring
      · have hpos := length_pos_of_ne_nil hne
        exact .inl (by rw [length_append]; omega)
      · exact .inr rfl
    · simp only [buffered, append_nil]
      exact hdata
    · intro e he
      obtain ⟨rfl, hne⟩ | ⟨rfl, hremaining⟩ := hstoring
      · -- the error was stored before, so there was nothing left to read
        obtain ⟨rfl, hitems⟩ := hinv.error e he
        rw [hitems, append_assoc, append_right_eq_self, append_eq_nil_iff] at hdata
        exact absurd hdata.1 hne
      · cases he
        rw [hremaining, append_nil] at hdata
        exact ⟨rfl, hdata⟩
    · simpa [running, hfetch] using hinv.wg
  | signal hphase hfetch =>
    refine hinv.fetch rfl hfetch
      (fun y _ hy => hy.mono le_rfl le_rfl fun _ _ hready => ?_) ?_ hinv.error nofun nofun rfl
    · exact hready (by rw [isStored, hfetch])
    · simpa [buffered, hfetch] using hinv.data
  | reset hphase hfetch =>
    rw [hphase] at hphaseOk
    refine hinv.replace hx rfl ?_ ⟨hok.head, hok.answers, hphaseOk.1⟩ ?_ hinv.error nofun nofun
      ?_ ?_ ?_ ?_
    · exact fun y _ hy => hy.unstored rfl le_rfl rfl
    · simpa [buffered, hfetch] using hinv.data
    · simpa [running, hfetch] using hinv.wg
    · simp [hphase, hfetch]
    · simp [hphase]
    · simp [hphase]
  | last hphase hrefs =>
    rw [hphase] at hphaseOk
    refine hinv.count hx ⟨hok.head, hok.answers, hphaseOk⟩ ?_ ?_ ?_
    · simp [hphase]
    · simp [hphase, hphaseOk]
    · rw [if_pos hrefs, if_neg (by omega)]
      simp [hphase]
  | release hphase hrefs =>
    rw [hphase] at hphaseOk
    have hpos := hinv.refs_pos hmem (by simp [hphase])
    refine hinv.count hx ⟨hok.head, hok.answers, trivial⟩ ?_ ?_ ?_
    · simp [hphase]
    · simp [hphase, hphaseOk]
    · rw [if_neg hrefs, if_neg (by omega)]
      simp [hphase]
  | stopUnderlying hphase =>
    rw [hphase] at hphaseOk
    refine hinv.count hx ⟨hok.head, hok.answers, trivial⟩ ?_ ?_ ?_
    · simp [hphase]
    · simp [hphase, hphaseOk]
    · simp [hphase]

theorem Inv.step {a} (hstep : s.step u errIteratorDone a = some s') :
    Inv u s' := by
  cases a with
  | call h op =>
    obtain ⟨x, hx, hstep⟩ := bind_eq_some_iff.mp hstep
    have hok := hinv.handles x (mem_of_getElem? hx)
    cases hphase : x.phase with
    | idle =>
      rw [hphase] at hstep
      cases hstep
      refine hinv.set hx ⟨hok.head, hok.answers, trivial⟩ ?_
      simp [hphase]
    | _ =>
      rw [hphase] at hstep
      cases hstep
  | clone h =>
    obtain ⟨x, hx, hstep⟩ := bind_eq_some_iff.mp hstep
    have hmem := mem_of_getElem? hx
    cases hphase : x.phase with
    | idle =>
      rw [hphase] at hstep
      dsimp only at hstep
      split_ifs at hstep with hstopped
      · cases hstep
        exact hinv
      · cases hstep
        have hpos := hinv.refs_pos hmem (by simp [hstopped])
        have hstops := hinv.stops
        rw [if_neg (by omega)] at hstops
        refine { hinv with handles := fun y hy => ?_, fetching := ?_, refs := ?_, stops := ?_ }
        · obtain hy | hy := mem_append.mp hy
          · exact (hinv.handles y hy).mono le_rfl le_rfl fun _ hstored hready => hready hstored
          · rw [mem_singleton.mp hy]
            exact ⟨Nat.zero_le _, fun _ => ⟨trivial, rfl⟩, trivial⟩
        · have hfetching := hinv.fetching
          simp only [map_append, sum_append]
          exact hfetching
        · have hrefs := hinv.refs
          simp only [map_append, sum_append, map_cons, map_nil, sum_cons,
            List.sum_nil, Handle.refs, Handle.new] at hrefs ⊢
          simp only [Bool.not_false, Bool.toNat_true]
          omega
        · simp only [List.map_append, List.sum_append]
          rw [if_neg (by omega)]
          exact hstops
    | _ =>
      rw [hphase] at hstep
      cases hstep
  | go h =>
    obtain ⟨x, hx, hstep⟩ := bind_eq_some_iff.mp hstep
    exact hinv.goes hx (goes_of_go hstep)

end

end

/-! ## The calls end -/

/-- The call finds a fetch whose wait group is done, and will look again. -/
def State.spins (s : State T E) : Act → Bool
  | .go h =>
    match s.handles[h]?.map phase, s.fetch with
    | some (.entering _), some .signalled => true
    | _, _ => false
  | _ => false

/-- The step of a call that does not spin. -/
def State.works (s : State T E) (a : Act) : Bool :=
  match a with
  | .go _ => !s.spins a
  | _ => false

/-- No call is running. -/
def State.quiet (s : State T E) : Prop := ∀ x ∈ s.handles, x.phase = .idle

section
variable (s : State T E) (x : Handle T E)

/-- The call may still fetch. -/
def Handle.mayFetch : Nat :=
  match x.phase with
  | .locked (.current _) | .entering _ | .waiting _ _ => 1
  | .loading _ => if s.ready x then 0 else 1
  | _ => 0

/-- The steps of a fetch, and those after it. -/
def State.fetchRemains : Nat :=
  match s.fetch with
  | some (.reading buf) => 10 + (bufferSize - buf.length)
  | some (.storing _ _) => 9
  | some .stored => 8
  | some .signalled => 4
  | none => 0

/-- The steps that remain until the call may have to look again. -/
def Handle.remains : Nat :=
  match x.phase with
  | .idle => 0
  | .locked _ => 19
  | .loading _ => if s.ready x then 3 else if s.running then 11 else 7
  | .entering _ => if s.running then 10 else 6
  | .waiting _ wg => if s.running && wg ≤ s.completed then 12 else 8
  | .fetching _ => s.fetchRemains
  | .loaded _ _ _ => 2
  | .decrementing => 2
  | .stopping => 1

/-- The steps of the call, where a fetch counts for `k`. -/
def Handle.work (k : Nat) : Nat := x.mayFetch s * k + x.remains s

/-- What a fetch counts for: all calls may look again after it, which costs each of them up to
    four steps more. -/
def State.fetchWork : Nat := 4 * s.handles.length + bufferSize + 30

/-- A bound on the steps of the running calls. -/
def State.work : Nat := (s.handles.map (fun x => x.work s s.fetchWork)).sum

end

section
variable {u : Underlying T E} {errIteratorDone : E} {s s' : State T E} {h : Nat} {x x' : Handle T E}

/-- One call goes on, and the others do not get more work, or up to `d` more steps. -/
lemma work_set {s₁} (d : Nat) (hx : s.handles[h]? = some x) (hhandles : s₁.handles = s.handles)
    (hothers : ∀ y ∈ s.handles, y.work s₁ s.fetchWork ≤ y.work s s.fetchWork + d)
    (hless : x'.work s₁ s.fetchWork + d * s.handles.length < x.work s s.fetchWork) :
    (s₁.set h x').work < s.work := by
  have hle := Tasks.sum_set_le hx x' hothers
  have hsame : (s₁.set h x').fetchWork = s.fetchWork := by
    rw [State.fetchWork, State.fetchWork, State.set, length_set, hhandles]
  have hwork : (s₁.set h x').work =
      ((s.handles.set h x').map fun y => y.work s₁ s.fetchWork).sum := by
    rw [State.work, hsame, ← hhandles]
    rfl
  rw [hwork, State.work]
  omega

lemma work_le {k} (hready : s.ready x = true → s'.ready x = true)
    (hrunning : s'.running = true → s.running = true ∧ s'.completed = s.completed)
    (hfetch : s'.fetchRemains ≤ s.fetchRemains) : x.work s' k ≤ x.work s k := by
  apply Nat.add_le_add
  · apply Nat.mul_le_mul_right
    unfold mayFetch
    cases x.phase with
    | locked op => cases op <;> exact le_rfl
    | loading next =>
      dsimp only
      by_cases hs : s.ready x = true
      · rw [if_pos hs, if_pos (hready hs)]
      · rw [if_neg hs]
        split_ifs <;> omega
    | _ => exact le_rfl
  · unfold remains
    cases x.phase with
    | loading next =>
      dsimp only
      by_cases hs : s.ready x = true
      · rw [if_pos hs, if_pos (hready hs)]
      · by_cases hr : s'.running = true
        · rw [if_neg hs, if_pos hr, if_pos (hrunning hr).1]
          split_ifs <;> omega
        · rw [if_neg hs, if_neg hr]
          split_ifs <;> omega
    | entering next =>
      dsimp only
      by_cases hr : s'.running = true
      · rw [if_pos hr, if_pos (hrunning hr).1]
      · rw [if_neg hr]
        split_ifs <;> omega
    | waiting next wg =>
      dsimp only
      by_cases hr : s'.running = true
      · rw [hr, (hrunning hr).1, (hrunning hr).2]
      · rw [eq_false_of_ne_true hr, Bool.false_and, if_neg Bool.false_ne_true]
        split_ifs <;> omega
    | fetching next => exact hfetch
    | _ => exact le_rfl

lemma work_fetching {f remaining items error completed next} (hx : s.handles[h]? = some x)
    (hphase : x.phase = .fetching next)
    (hs' : s' = { s with remaining, items, error, fetch := some f, completed })
    (hready : ∀ y ∈ s.handles, s.ready y = true → s'.ready y = true)
    (hrunning : s'.running = true → s.running = true ∧ s'.completed = s.completed)
    (hless : s'.fetchRemains < s.fetchRemains) : s'.work < s.work := by
  have hset : s' = s'.set h x := by
    obtain ⟨hlt, rfl⟩ := List.getElem?_eq_some_iff.mp hx
    subst hs'
    rw [State.set, List.set_getElem_self]
  rw [hset]
  apply work_set 0 hx (by rw [hs'])
  · exact fun y hy => (work_le (hready y hy) hrunning hless.le).trans (Nat.le_add_right _ 0)
  · simp only [work, mayFetch, remains, hphase]
    omega

/-- The others when a call starts to fetch. -/
lemma work_acquire {k} (hfetch : s.fetch = none) (hx : x.fetching ≠ 1) :
    x.work { s with fetch := some (.reading []), wg := s.wg + 1 } k ≤ x.work s k + 4 := by
  have hrunning : s.running = false := by rw [running, hfetch]
  rw [work, work, add_assoc]
  apply Nat.add_le_add
  · apply Nat.mul_le_mul_right
    unfold mayFetch
    cases x.phase with
    | locked op => cases op <;> exact le_rfl
    | _ => exact le_rfl
  · unfold remains
    cases hphase : x.phase with
    | loading next =>
      rw [hrunning]
      show (if s.ready x = true then 3 else 11) ≤ (if s.ready x = true then 3 else 7) + 4
      split_ifs <;> omega
    | entering next =>
      rw [hrunning]
      exact le_rfl
    | waiting next wg =>
      rw [hrunning]
      show (if decide (wg ≤ s.completed) = true then 12 else 8) ≤ 8 + 4
      split_ifs <;> omega
    | fetching next =>
      rw [fetching, hphase] at hx
      exact absurd rfl hx
    | _ => exact Nat.le_add_right _ _

section
variable (hinv : Inv u s)
include hinv

lemma work_goes (hx : s.handles[h]? = some x)
    (hspin : s.spins (.go h) = false) (hgoes : Goes u errIteratorDone s h x s') :
    s'.work < s.work := by
  have hmem := List.mem_of_getElem? hx
  have hphaseOk := (hinv.handles x hmem).phase
  unfold Handle.PhaseOk at hphaseOk
  have hwg := hinv.wg
  have hsame : ∀ y ∈ s.handles, y.work s s.fetchWork ≤ y.work s s.fetchWork + 0 := fun _ _ => le_rfl
  cases hgoes with
  | done hphase hstopped | item hphase hitem | error hphase hitem =>
    apply work_set 0 hx rfl hsame
    simp [work, mayFetch, remains, answer, hphase]
  | begin hphase hlive =>
    apply work_set 0 hx rfl hsame
    simp only [work, mayFetch, remains, hphase]
    split_ifs <;> omega
  | load hphase hready =>
    apply work_set 0 hx rfl hsame
    simp [work, mayFetch, remains, hphase, hready]
  | enter hphase hready =>
    apply work_set 0 hx rfl hsame
    simp only [work, mayFetch, remains, hphase, hready, Bool.false_eq_true,
      if_false]
    split_ifs <;> omega
  | @wait next f hphase hfetch =>
    apply work_set 0 hx rfl hsame
    have hrunning : s.running = true := by
      rw [State.spins, hx, Option.map_some, hphase, hfetch] at hspin
      rw [running, hfetch]
      cases f with
      | signalled => cases hspin
      | _ => rfl
    rw [hrunning, if_pos rfl] at hwg
    have hlt : ¬ s.wg ≤ s.completed := by omega
    simp [work, mayFetch, remains, hphase, hrunning, hlt]
  | acquire hphase hfetch =>
    have hrunning : s.running = false := by rw [running, hfetch]
    apply work_set 4 hx
    · rfl
    · intro y hy
      exact work_acquire hfetch fun hone => hinv.fetch_ne_none hy hone hfetch
    · simp only [work, mayFetch, remains, State.fetchRemains, hphase, hrunning,
        State.fetchWork, List.length_nil, Bool.false_eq_true, if_false]
      omega
  | wake hphase hwg' =>
    apply work_set 0 hx rfl hsame
    simp only [work, mayFetch, remains, hphase, hwg', decide_true, Bool.and_true]
    rw [ready_phase]
    split_ifs <;> omega
  | fill hphase hfetch hlength | exhaust hphase hfetch hremaining =>
    have hrunning : s.running = true := by rw [running, hfetch]
    refine work_fetching hx hphase rfl (fun y _ => id) (fun _ => ⟨hrunning, rfl⟩) ?_
    simp only [State.fetchRemains, hfetch]
    omega
  | @read next buf remaining t hphase hfetch hlength hremaining =>
    have hrunning : s.running = true := by rw [running, hfetch]
    refine work_fetching hx hphase rfl (fun y _ => id) (fun _ => ⟨hrunning, rfl⟩) ?_
    have hle := hinv.reading buf hfetch
    simp only [State.fetchRemains, hfetch, List.length_append, List.length_singleton]
    omega
  | store hphase hfetch =>
    have hrunning : s.running = true := by rw [running, hfetch]
    refine work_fetching hx hphase rfl (fun y _ hready => ?_) (fun _ => ⟨hrunning, rfl⟩) ?_
    · refine ready_mono (by simp) (fun hsome => ?_) hready
      rw [Option.isSome_or, hsome, Bool.or_true]
    · simp only [State.fetchRemains, hfetch]
      omega
  | signal hphase hfetch =>
    refine work_fetching hx hphase rfl (fun y _ => id) nofun ?_
    simp only [State.fetchRemains, hfetch]
    omega
  | @reset next hphase hfetch =>
    rw [hphase] at hphaseOk
    have hready : ready { s with fetch := none } { x with phase := .loading next } = true :=
      hphaseOk.2 (by rw [isStored, hfetch])
    have hothers (y : Handle T E) :
        y.work { s with fetch := none } s.fetchWork ≤ y.work s s.fetchWork :=
      work_le id nofun (Nat.zero_le _)
    apply work_set 0 hx
    · rfl
    · exact fun y _ => (hothers y).trans (Nat.le_add_right _ 0)
    · simp only [work, mayFetch, remains, State.fetchRemains, hphase, hfetch]
      rw [if_pos hready, if_pos hready]
      omega
  | stopAgain hphase hstopped | stop hphase hlive | last hphase hrefs | release hphase hrefs
  | stopUnderlying hphase =>
    apply work_set 0 hx rfl hsame
    simp [work, mayFetch, remains, hphase]

lemma Inv.exists_fetching (hfetch : s.fetch ≠ none) :
    ∃ (h : Nat) (x : Handle T E) (next : Bool), s.handles[h]? = some x ∧
      x.phase = .fetching next := by
  by_contra hnone
  push Not at hnone
  have hzero : (s.handles.map Handle.fetching).sum = 0 := by
    refine sum_eq_zero fun n hn => ?_
    obtain ⟨x, hx, rfl⟩ := mem_map.mp hn
    obtain ⟨h, hh⟩ := mem_iff_getElem?.mp hx
    cases hphase : x.phase with
    | fetching next => exact absurd hphase (hnone h x next hh)
    | _ => rw [Handle.fetching, hphase]
  have hone := hinv.fetching
  rw [hzero, if_pos (isSome_iff_ne_none.mpr hfetch)] at hone
  cases hone

/-- A call that runs can go on, or waits for a fetch that goes on. -/
lemma exists_work (hquiet : ¬ s.quiet) :
    ∃ a s', s.works a = true ∧ s.step u errIteratorDone a = some s' := by
  have hgo (h : Nat) (x : Handle T E) (hx : s.handles[h]? = some x)
      (hspin : s.spins (.go h) = false) (hgoes : (s.go u errIteratorDone h x).isSome = true) :
      ∃ a s', s.works a = true ∧ s.step u errIteratorDone a = some s' := by
    obtain ⟨s', hs'⟩ := isSome_iff_exists.mp hgoes
    refine ⟨.go h, s', ?_, ?_⟩
    · rw [State.works, hspin]
      rfl
    · rw [State.step, hx]
      exact hs'
  cases hfetch : s.fetch with
  | some f =>
    -- the handle that fetches goes on
    obtain ⟨h, x, next, hx, hphase⟩ := hinv.exists_fetching (by rw [hfetch]; nofun)
    apply hgo h x hx
    · rw [State.spins, hx, map_some, hphase]
    · rw [State.go, hphase, hfetch]
      rfl
  | none =>
    -- all wait groups are done
    obtain ⟨x, hx, hphase⟩ : ∃ x ∈ s.handles, x.phase ≠ .idle := by
      by_contra hall
      push Not at hall
      exact hquiet hall
    have hwg : s.wg = s.completed := by
      rw [hinv.wg, running, hfetch]
      rfl
    have hphaseOk := (hinv.handles x hx).phase
    unfold Handle.PhaseOk at hphaseOk
    obtain ⟨h, hh⟩ := mem_iff_getElem?.mp hx
    apply hgo h x hh
    · rw [State.spins, hh, map_some, hfetch]
      cases x.phase <;> rfl
    · unfold State.go
      split
      next hcase => exact absurd hcase hphase
      · split_ifs <;> rfl
      · split_ifs <;> rfl
      · rw [hfetch]
        rfl
      next hcase =>
        rw [hcase] at hphaseOk
        rw [if_pos (hphaseOk.2.trans hwg.le)]
        rfl
      next hcase => exact absurd hfetch (hinv.fetch_ne_none hx (by rw [fetching, hcase]))
      · split <;> rfl
      · split_ifs <;> rfl
      · dsimp only
        split_ifs <;> rfl
      · rfl

lemma work_step {a} (hworks : s.works a = true)
    (hstep : s.step u errIteratorDone a = some s') : s'.work < s.work := by
  cases a with
  | go h =>
    obtain ⟨x, hx, hstep⟩ := bind_eq_some_iff.mp hstep
    rw [State.works, not_eq_true'] at hworks
    exact work_goes hinv hx hworks (goes_of_go hstep)
  | _ => cases hworks

/-! ## Transparency -/

/-- Once the underlying iterator is stopped, all handles are, and none fetches. -/
theorem Inv.stopped (hrefs : s.refs = 0) :
    (∀ x ∈ s.handles, x.stopped = true) ∧ s.fetch = none := by
  have hstopped (x : Handle T E) (hx : x ∈ s.handles) : x.stopped = true := by
    by_contra hlive
    have hpos := hinv.refs_pos hx (by simp [hlive])
    omega
  refine ⟨hstopped, ?_⟩
  by_contra hfetch
  obtain ⟨h, x, next, hx, hphase⟩ := hinv.exists_fetching hfetch
  have hmem := mem_of_getElem? hx
  have hphaseOk := (hinv.handles x hmem).phase
  rw [Handle.PhaseOk, hphase, hstopped x hmem] at hphaseOk
  cases hphaseOk.1

/-- When no call runs and all handles are stopped, the underlying iterator is. -/
lemma Inv.stops_eq_one (hquiet : s.quiet)
    (hstopped : ∀ x ∈ s.handles, x.stopped = true) : s.stops = 1 := by
  have hrefs : (s.handles.map Handle.refs).sum = 0 := by
    refine sum_eq_zero fun n hn => ?_
    obtain ⟨x, hx, rfl⟩ := mem_map.mp hn
    simp [hquiet x hx, hstopped x hx]
  have hstopping : (s.handles.map stopping).sum = 0 := by
    refine sum_eq_zero fun n hn => ?_
    obtain ⟨x, hx, rfl⟩ := mem_map.mp hn
    simp [hquiet x hx]
  have hzero : s.refs = 0 := by rw [hinv.refs, hrefs]; rfl
  have hstops := hinv.stops
  rw [hstopping, if_pos hzero] at hstops
  exact hstops

end

/-- In every state of every run of calls on the clones of a shared iterator: a clone that is not
    stopped has answered like an iterator of its own; the underlying iterator was stopped at
    most once, then every clone is stopped and nothing is fetched, and it is stopped when all
    clones are; and the running calls end, if none of them spins forever. -/
theorem clones_transparent (u : Underlying T E) (errIteratorDone : E) (acts : List Act)
    (s : State T E) (hrun : Lts.run (State.step u errIteratorDone) (start u) acts = some s) :
    (∀ x ∈ s.handles, x.stopped = false → Follows u 0 x.answers) ∧
    (s.stops ≤ 1 ∧
      (0 < s.stops → (∀ x ∈ s.handles, x.stopped = true) ∧ s.fetch = none) ∧
      (s.quiet → (∀ x ∈ s.handles, x.stopped = true) → s.stops = 1)) ∧
    ((¬ s.quiet → ∃ a s', s.works a = true ∧ s.step u errIteratorDone a = some s') ∧
      ∀ more s', Lts.Meets (State.step u errIteratorDone) (fun s a => s.works a = true) s more →
        Lts.run (State.step u errIteratorDone) s more = some s' → more.length ≤ s.work) := by
  have hinv : Inv u s := Lts.run_invariant' (fun _ _ _ hI h => hI.step h) (inv_start u) hrun
  have hstops := hinv.stops
  refine ⟨fun x hx hlive => ((hinv.handles x hx).answers hlive).1, ⟨?_, fun hpos => ?_,
    hinv.stops_eq_one⟩, exists_work hinv, fun more s' hmeets hmore => ?_⟩
  · split_ifs at hstops <;> omega
  · apply hinv.stopped
    by_contra hne
    rw [if_neg hne] at hstops
    omega
  · have hle := Lts.run_length_le_within (I := Inv u) (μ := State.work)
      (fun _ _ _ hI _ h => hI.step h) (fun _ _ _ hI hw h => work_step hI hw h) hinv hmeets hmore
    omega

/-- Two handles read an item. -/
private def twoReads : List Act :=
  [.clone 0, .call 0 (.current true), .go 0, .go 0, .go 0, .go 0, .go 0, .go 0, .go 0, .go 0, .go 0,
    .call 1 (.current true), .go 1, .go 0, .go 1, .go 1, .call 1 (.current true), .go 1, .go 1,
    .go 1]

/-- They are stopped. -/
private def twoStops : List Act :=
  [.call 0 .stop, .go 0, .go 0, .call 1 .stop, .go 1, .go 1, .go 1]

private def one : Underlying String String := ⟨["a"], "e"⟩

theorem clones_transparent_twoReaders :
    (∃ s : State String String,
      Lts.run (State.step one "done") (start one) twoReads = some s ∧
      s.handles.map (·.answers.length) = [1, 2] ∧ ∀ x ∈ s.handles, Follows one 0 x.answers) ∧
    ∃ s : State String String,
      Lts.run (State.step one "done") (start one) (twoReads ++ twoStops) = some s ∧
      s.stops = 1 ∧ (∀ x ∈ s.handles, x.stopped = true) ∧ s.fetch = none := by
  constructor
  · obtain ⟨s, hrun⟩ : ∃ s : State String String,
      Lts.run (State.step one "done") (start one) twoReads = some s := ⟨_, rfl⟩
    have ⟨hlengths, hlive⟩ : s.handles.map (·.answers.length) = [1, 2] ∧
        s.handles.all (!·.stopped) = true := by
      cases hrun
      exact ⟨rfl, rfl⟩
    refine ⟨s, hrun, hlengths, fun x hx => ?_⟩
    have hstopped : x.stopped = false := by simpa using all_eq_true.mp hlive x hx
    exact (clones_transparent one "done" twoReads s hrun).1 x hx hstopped
  · refine ⟨_, rfl, rfl, ?_⟩
    exact (clones_transparent one "done" (twoReads ++ twoStops) _ rfl).2.1.2.1 Nat.zero_lt_one

end

end OpenFGA.SharedIterator.Clones
