/-
  Iterators of `pkg/storage/tuple_iterators.go` that are read with `Head` and `Next` in any order.

  `Head` is not a pure look ahead: it takes away the items that are rejected in front of the one
  it answers, and it writes the fields that decide how `Next` ends.  The answers of the two
  calls are compared with those of a stream (`Iter.answers`): `Head` shows its front, `Next` takes
  it, and one `Next` reports the error at the end.

  Of combined sources the iterator stops each one that it finds exhausted.  It notices that only
  when it looks for the next head, so a source that `Next` has just emptied is stopped by the call
  after it.
-/

import OpenFGA.Storage.OrderedCombined

namespace OpenFGA
open Iter List

variable {α σ : Type}

/-- A call of an iterator. -/
inductive Call where
  | head
  | next
deriving DecidableEq, Repr

namespace Iter

/-- What both calls answer. -/
def front (it : Iter α) : Except (Option Err) α :=
  match it.items with
  | [] => .error it.err
  | x :: _ => .ok x

/-- The stream after a call. -/
def after (it : Iter α) : Call → Iter α
  | .head => it
  | .next => ⟨it.items.tail, if it.items = [] then none else it.err⟩

/-- What the calls answer that read a stream. -/
def answers : Iter α → List Call → List (Except (Option Err) α)
  | _, [] => []
  | it, call :: calls => it.front :: (it.after call).answers calls

end Iter

/-- What the calls answer that read an iterator. -/
def reads (step : Call → σ → Except (Option Err) α × σ) :
    σ → List Call → List (Except (Option Err) α)
  | _, [] => []
  | s, call :: calls => (step call s).1 :: reads step (step call s).2 calls

/-- An iterator that follows a stream answers as the stream does. -/
lemma reads_eq_answers {step : Call → σ → Except (Option Err) α × σ} {R : σ → Iter α → Prop}
    {s it} (calls : List Call) (hR : R s it) (hstep : ∀ call ∈ calls, ∀ s it, R s it →
      (step call s).1 = it.front ∧ R (step call s).2 (it.after call)) :
    reads step s calls = it.answers calls ∧
      ∃ it', R (calls.foldl (fun s call => (step call s).2) s) it' := by
  induction calls generalizing s it with
  | nil => exact ⟨rfl, it, hR⟩
  | cons call calls ih =>
    obtain ⟨hfront, hafter⟩ := hstep call mem_cons_self s it hR
    obtain ⟨hreads, hend⟩ := ih hafter fun c hc => hstep c (mem_cons_of_mem _ hc)
    exact ⟨by rw [reads, answers, hfront, hreads], hend⟩

/-! ## Filters -/

/-- `ConditionsFilteredTupleKeyIterator` and `filter`, over an iterator that yields `items`. -/
structure Filtering (α : Type) where
  items : List α
  lastError : Option Err
  onceValid : Bool

namespace Filtering

/-- The loop of `Next` and `Head`.  `Head` leaves the tuple it answers in its place, and the
    error for `Next`. -/
def loop (filter : α → Except Err Bool) (call : Call) (onceValid : Bool) :
    (lastError : Option Err) → List α → Except (Option Err) α × Filtering α
  | lastError, [] =>
    if onceValid || lastError.isNone then (.error none, ⟨[], lastError, onceValid⟩)
    else (.error lastError, ⟨[], if call = .next then none else lastError, onceValid⟩)
  | lastError, tuple :: items =>
    match filter tuple with
    | .error err => loop filter call onceValid (some err) items
    | .ok false => loop filter call onceValid lastError items
    | .ok true => (.ok tuple, ⟨if call = .next then items else tuple :: items, lastError, true⟩)

def applyFilters : List (α → Except Err Bool) → α → Except Err Bool
  | [], _ => .ok true
  | filter :: filters, entry =>
    match filter entry with
    | .ok true => applyFilters filters entry
    | r => r

/-- `filter.Next` and `Head` of `internal/iterator`. -/
def filter (filters : List (α → Except Err Bool)) : Call → Filtering α →
    Except (Option Err) α × Filtering α
  | .head, f => (.error (some (.other "head() not supported on filter iterator")), f)
  | .next, f => loop (applyFilters filters) .next f.onceValid f.lastError f.items

/-- The error of a filter. -/
def failed : Except Err Bool → Option Err
  | .error err => some err
  | .ok _ => none

/-- The items that pass; if there are none, the last error of the filter at the end. -/
def passing (filter : α → Except Err Bool) (items : List α) : Iter α :=
  ⟨items.filter fun x => passed (filter x),
    if items.any fun x => passed (filter x) then none
    else (items.filterMap fun x => failed (filter x)).getLast?⟩

section
variable {filter : α → Except Err Bool}

/-- `Follows f it` says that `it` is the stream that `f` has left. -/
def Follows (filter : α → Except Err Bool) (f : Filtering α) (it : Iter α) : Prop :=
  it = filterAux filter none f.onceValid f.lastError f.items

end

end Filtering

/-! ## Combined sources -/

namespace OrderedCombined

variable {κ : Type} [LinearOrder κ]

/-- A source of the iterator, and whether it was stopped. -/
structure Source (α : Type) extends Iter α where
  stopped : Bool

/-- The sources that are not nil in `pending`. -/
def unstopped (sources : List (Source α)) : List (Iter α) :=
  sources.filterMap fun s => if s.stopped then none else some s.toIter

/-- The loop of `head` stops a source that it finds exhausted and sets it to nil. -/
def Source.visit (mapper : α → κ) (lastYielded : Option α) (s : Source α) : Source α :=
  if s.stopped then s
  else
    match advance mapper lastYielded 0 s.toIter with
    | .ok (some it) => ⟨it, false⟩
    | .ok none => ⟨⟨[], none⟩, true⟩
    | .error _ => s

/-- The sources, with `its` in place of those that are not stopped. -/
def refill : List (Source α) → List (Iter α) → List (Source α)
  | [], _ => []
  | s :: sources, [] => s :: sources
  | s :: sources, it :: its =>
    if s.stopped then s :: refill sources (it :: its) else ⟨it, false⟩ :: refill sources its

/-- The iterator between two calls. -/
structure Cursor (α : Type) where
  sources : List (Source α)
  lastYielded : Option α
  lastHead : Option α

/-- `NewOrderedCombinedIterator`. -/
def Cursor.new (sortedIters : List (Iter α)) : Cursor α :=
  ⟨sortedIters.map (⟨·, false⟩), none, none⟩

/-- `Next` and `Head`. -/
def Cursor.call (mapper : α → κ) (call : Call) (c : Cursor α) :
    Except (Option Err) α × Cursor α :=
  match call, c.lastHead with
  | .head, some x => (.ok x, c)
  | _, _ =>
    match advanceAll mapper c.lastYielded 0 (unstopped c.sources) with
    -- the code keeps the sources as far as it got; ordered ones give no error
    | .error err => (.error (some err), c)
    | .ok its =>
      let sources := c.sources.map (Source.visit mapper c.lastYielded)
      match takeMin mapper its with
      | none => (.error none, { c with sources })
      | some (x, rest) =>
        match call with
        | .head => (.ok x, { c with sources, lastHead := some x })
        | .next => (.ok x, ⟨refill sources rest, some x, none⟩)

/-- What the iterator reads from. -/
def Cursor.combined (c : Cursor α) : OrderedCombined α := ⟨unstopped c.sources, c.lastYielded⟩

/-! ### Stopped sources -/

/-- Only an exhausted source is stopped. -/
def StoppedEmpty (sources : List (Source α)) : Prop :=
  ∀ s ∈ sources, s.stopped = true → s.items = []

/-- Every exhausted source is stopped. -/
def EmptyStopped (sources : List (Source α)) : Prop :=
  ∀ s ∈ sources, s.items = [] → s.stopped = true

lemma mem_unstopped {sources : List (Source α)} {s : Source α} (hs : s ∈ sources)
    (hstopped : s.stopped = false) : s.toIter ∈ unstopped sources :=
  mem_filterMap.mpr ⟨s, hs, by simp [hstopped]⟩

lemma unstopped_new (its : List (Iter α)) : unstopped (Cursor.new its).sources = its := by
  simp [unstopped, Cursor.new, filterMap_map]

/-- When only sources with items are left, the exhausted ones are stopped. -/
lemma emptyStopped_of_unstopped {sources : List (Source α)}
    (h : ∀ it ∈ unstopped sources, it.items ≠ []) : EmptyStopped sources := by
  intro s hs hitems
  by_contra hstopped
  exact h s.toIter (mem_unstopped hs (by simpa using hstopped)) hitems

/-- `advance` answers the same whatever number the source has. -/
lemma advance_eq_ok {mapper : α → κ} {lastYielded idx it o}
    (h : advance mapper lastYielded idx it = .ok o) : advance mapper lastYielded 0 it = .ok o := by
  unfold advance at h ⊢
  split at h
  · split_ifs at h ⊢
    exact h
  · exact h

lemma unstopped_visit {mapper : α → κ} {lastYielded} {sources : List (Source α)} {idx its}
    (h : advanceAll mapper lastYielded idx (unstopped sources) = .ok its) :
    unstopped (sources.map (Source.visit mapper lastYielded)) = its := by
  induction sources generalizing idx its with
  | nil => exact Except.ok.inj h
  | cons s sources ih =>
    cases hstopped : s.stopped with
    | true =>
      simp only [unstopped, filterMap_cons, map_cons, Source.visit, hstopped, if_true] at h ⊢
      exact ih h
    | false =>
      have hcons : unstopped (s :: sources) = s.toIter :: unstopped sources := by
        simp [unstopped, hstopped]
      rw [hcons, advanceAll] at h
      -- the loop goes on with the later sources only if this one did not fail
      split at h
      · cases h
      next o ho =>
        split at h <;> cases h
        next hrest =>
          have htail := ih hrest
          rw [unstopped] at htail
          cases o <;> simp [unstopped, Source.visit, hstopped, advance_eq_ok ho, htail]

lemma StoppedEmpty.visit {mapper : α → κ} {lastYielded} {sources : List (Source α)}
    (h : StoppedEmpty sources) : StoppedEmpty (sources.map (Source.visit mapper lastYielded)) := by
  intro s' hs'
  obtain ⟨s, hs, rfl⟩ := mem_map.mp hs'
  unfold Source.visit
  split
  · exact h s hs
  · split
    · simp
    · simp
    · exact h s hs

lemma unstopped_refill {sources : List (Source α)} {its}
    (h : its.length = (unstopped sources).length) : unstopped (refill sources its) = its := by
  induction sources generalizing its with
  | nil => exact (eq_nil_of_length_eq_zero h).symm
  | cons s sources ih =>
    cases its with
    | nil => exact eq_nil_of_length_eq_zero h.symm
    | cons it its =>
      cases hstopped : s.stopped with
      | true =>
        simp only [unstopped, filterMap_cons, hstopped, if_true, refill] at h ⊢
        exact ih h
      | false =>
        have hlength : its.length = (unstopped sources).length := by
          simpa [unstopped, hstopped] using h
        have htail := ih hlength
        rw [unstopped] at htail
        simp [unstopped, refill, hstopped, htail]

lemma StoppedEmpty.refill {sources : List (Source α)} (its : List (Iter α))
    (h : StoppedEmpty sources) : StoppedEmpty (refill sources its) := by
  induction sources generalizing its with
  | nil => exact h
  | cons s sources ih =>
    have htail : StoppedEmpty sources := fun s' hs' => h s' (mem_cons_of_mem _ hs')
    cases its with
    | nil => exact h
    | cons it its =>
      rw [OrderedCombined.refill]
      split
      · exact forall_mem_cons.mpr ⟨h s mem_cons_self, ih _ htail⟩
      · exact forall_mem_cons.mpr ⟨by simp, ih _ htail⟩

lemma length_refill (sources : List (Source α)) (its : List (Iter α)) :
    (refill sources its).length = sources.length := by
  induction sources generalizing its with
  | nil => rfl
  | cons s sources ih =>
    cases its with
    | nil => rfl
    | cons it its =>
      rw [refill]
      split <;> simp [ih]

lemma takeMin_length {mapper : α → κ} {its x rest} (h : takeMin mapper its = some (x, rest)) :
    rest.length = its.length := by
  induction its generalizing x rest with
  | nil => cases h
  | cons it its ih =>
    rw [takeMin] at h
    split at h
    · obtain ⟨⟨y, rest'⟩, hmin, heq⟩ := Option.map_eq_some_iff.mp h
      cases heq
      simp [ih hmin]
    · cases h
      rfl
    next hmin =>
      split_ifs at h
      · cases h
        simp [ih hmin]
      · cases h
        rfl

/-! ### Any order of the calls -/

/-- `it` is what the iterator has left. -/
structure Follows (mapper : α → κ) (c : Cursor α) (it : Iter α) : Prop where
  ready : Ready mapper c.combined
  err : it.err = none
  shows : Shows mapper c.combined it.items
  head : ∀ x ∈ c.lastHead, it.items.head? = some x ∧ EmptyStopped c.sources
  stopped : StoppedEmpty c.sources

section
variable {mapper : α → κ} {c : OrderedCombined α} {xs ys : List α}

theorem Shows.unique (hxs : Shows mapper c xs) (hys : Shows mapper c ys) : xs = ys := by
  have : Std.Irrefl fun x y : α => mapper x < mapper y := ⟨fun _ => lt_irrefl _⟩
  have : Std.Antisymm fun x y : α => mapper x < mapper y := ⟨fun _ _ h h' => absurd h h'.not_gt⟩
  exact hxs.sorted.eq_of_mem_iff hys.sorted fun x => (hxs.mem x).trans (hys.mem x).symm

/-- The loop of `head` changes nothing that the calls show. -/
theorem Shows.left {pending} (h : Shows mapper c xs)
    (hleft : Left mapper c.lastYielded (c.pending.flatMap items) pending) :
    Ready mapper ⟨pending, c.lastYielded⟩ ∧ Shows mapper ⟨pending, c.lastYielded⟩ xs := by
  refine ⟨⟨hleft.ordered, fun y hy x hx => (hleft.fresh x hx y hy).le⟩, h.sorted, fun x => ?_⟩
  rw [h.mem]
  refine and_congr_right fun hx => ?_
  rw [hleft.first _ hx, first]

/-- A call answers the front of what is left.  When it answers that nothing is left all
    sources are stopped, and after every `Head` the exhausted ones are. -/
lemma follows_call (k : Call) (c : Cursor α) (it : Iter α) (h : Follows mapper c it) :
    ((c.call mapper k).1 = it.front ∧ Follows mapper (c.call mapper k).2 (it.after k)) ∧
      (c.call mapper k).2.sources.length = c.sources.length ∧
      ((c.call mapper k).1 = .error none → ∀ s ∈ (c.call mapper k).2.sources, s.stopped = true) ∧
      (k = .head → EmptyStopped (c.call mapper k).2.sources) := by
  obtain ⟨items, err⟩ := it
  obtain rfl : err = none := h.err
  obtain ⟨its, hadvance, hleft⟩ := advanceAll_ok 0 h.ready.ordered h.ready.le
  obtain ⟨hready, hshows⟩ := h.shows.left hleft
  obtain ⟨sources, hsources⟩ :
      ∃ sources, c.sources.map (Source.visit mapper c.lastYielded) = sources := ⟨_, rfl⟩
  have hpending : unstopped sources = its := hsources ▸ unstopped_visit hadvance
  have hempty : EmptyStopped sources := emptyStopped_of_unstopped (hpending ▸ hleft.live)
  have hstopped : StoppedEmpty sources := hsources ▸ h.stopped.visit
  have hlength : sources.length = c.sources.length := by rw [← hsources, length_map]
  generalize hr : c.call mapper k = r
  unfold Cursor.call at hr
  rw [show advanceAll mapper c.lastYielded 0 (unstopped c.sources) = _ from hadvance] at hr
  split at hr
  next x hhead =>
    -- `Head` answers again what it has kept
    subst hr
    obtain ⟨hitems, hlive⟩ := h.head x hhead
    obtain ⟨ys, rfl⟩ := head?_eq_some_iff.mp hitems
    exact ⟨⟨rfl, h⟩, rfl, by simp, fun _ => hlive⟩
  rename_i k _ _ _
  cases hmin : takeMin mapper its with
  | none =>
    simp only [hmin, hsources] at hr
    subst hr
    have hnone := takeMin_none hmin
    obtain rfl : items = [] := by
      refine eq_nil_iff_forall_not_mem.mpr fun x hx => ?_
      have hfirst := ((hshows.mem x).mp hx).2
      rw [first, hnone] at hfirst
      cases hfirst
    -- every source that was not stopped would have an item for `takeMin`
    have hall : ∀ s ∈ sources, s.stopped = true := by
      intro s hs
      by_contra hn
      have hmem := mem_unstopped hs (by simpa using hn)
      rw [hpending] at hmem
      exact hleft.live _ hmem (flatMap_eq_nil_iff.mp hnone _ hmem)
    refine ⟨⟨rfl, ?_⟩, hlength, fun _ => hall, fun _ => hempty⟩
    have hafter : Iter.after ⟨[], none⟩ k = (⟨[], none⟩ : Iter α) := by cases k <;> rfl
    rw [hafter]
    refine ⟨?_, rfl, ?_, fun x hx => (by cases (h.head x hx).1), hstopped⟩
    · rwa [Cursor.combined, hpending]
    · rwa [Cursor.combined, hpending]
  | some p =>
    obtain ⟨x, rest⟩ := p
    have hnext : c.combined.next mapper = .ok (x, ⟨rest, some x⟩) := by
      simp only [next, hadvance, hmin]
    have hx := next_ok h.ready hnext
    obtain ⟨-, hrest⟩ := drain_spec _ hx.ready (Nat.lt_succ_self _)
    obtain rfl := h.shows.unique (hx.shows hrest)
    simp only [hmin, hsources] at hr
    cases k with
    | head =>
      subst hr
      refine ⟨⟨rfl, ?_, rfl, ?_, fun y hy => ?_, hstopped⟩, hlength, by simp, fun _ => hempty⟩
      · rwa [Cursor.combined, hpending]
      · rwa [Cursor.combined, hpending]
      · cases hy
        exact ⟨rfl, hempty⟩
    | next =>
      subst hr
      have hrefill : unstopped (refill sources rest) = rest :=
        unstopped_refill (by rw [hpending, takeMin_length hmin])
      refine ⟨⟨rfl, ?_, rfl, ?_, by simp, hstopped.refill rest⟩,
        (length_refill _ _).trans hlength, by simp, by simp⟩
      · rw [Cursor.combined, hrefill]
        exact hx.ready
      · rw [Cursor.combined, hrefill]
        exact hrest

end

/-- In whatever order `Head` and `Next` are called, ordered sources are read as one that yields
    each of their keys once, in ascending order, with the first item that has it.  A source is
    stopped only when it is exhausted; all sources are stopped when a call answers that it is
    done, and those that are exhausted when a `Head` has answered. -/
theorem combined_answers (mapper : α → κ) (its : List (Iter α))
    (hits : ∀ it ∈ its, Ordered mapper it) :
    ∃ out : List α, out.Pairwise (fun x y => mapper x < mapper y) ∧
      (∀ k, k ∈ out.map mapper ↔ k ∈ (its.flatMap items).map mapper) ∧
      (∀ x ∈ out, first mapper its (mapper x) = some x) ∧
      ∀ calls, reads (Cursor.call mapper) (Cursor.new its) calls =
          (⟨out, none⟩ : Iter α).answers calls ∧
        let c := calls.foldl (fun c call => (Cursor.call mapper call c).2) (Cursor.new its)
        c.sources.length = its.length ∧ StoppedEmpty c.sources ∧
        ∀ call, ((c.call mapper call).1 = .error none →
            ∀ s ∈ (c.call mapper call).2.sources, s.stopped = true) ∧
          (call = .head → EmptyStopped (c.call mapper call).2.sources) := by
  obtain ⟨herr, hsorted, hmem⟩ := combine_spec hits
  have hstart : Follows mapper (Cursor.new its) (combine mapper its) := by
    refine ⟨?_, herr, ?_, nofun, ?_⟩
    · rw [Cursor.combined, unstopped_new]
      exact ⟨hits, nofun⟩
    · rw [Cursor.combined, unstopped_new]
      exact ⟨hsorted, fun x => (hmem x).trans (and_iff_right nofun).symm⟩
    · simp [StoppedEmpty, Cursor.new]
  refine ⟨_, hsorted, fun _ => mem_keys_combine hits, fun x => (hmem x).mp, fun calls => ?_⟩
  obtain ⟨hreads, it, hend, hlength⟩ := reads_eq_answers
    (R := fun c it => Follows mapper c it ∧ c.sources.length = its.length) calls
    ⟨hstart, by simp [Cursor.new]⟩ fun call _ c it h => by
      obtain ⟨⟨hfront, hafter⟩, hsources, -⟩ := follows_call call c it h.1
      exact ⟨hfront, hafter, hsources.trans h.2⟩
  refine ⟨?_, hlength, hend.stopped, fun call => (follows_call call _ it hend).2.2⟩
  rw [hreads, ← herr]

private def twoSources : List (Iter Nat) := [⟨[1, 1, 2], none⟩, ⟨[2, 3], none⟩]

private def fourCalls : List Call := [.head, .next, .next, .next]

private def afterFourCalls : Cursor Nat :=
  fourCalls.foldl (fun c call => (Cursor.call id call c).2) (Cursor.new twoSources)

/-- Three items are read with a look at the first; the next call is done and has stopped both
    sources. -/
theorem combined_answers_two :
    (∃ out : List Nat, reads (Cursor.call id) (Cursor.new twoSources) fourCalls =
      (⟨out, none⟩ : Iter Nat).answers fourCalls) ∧
    (afterFourCalls.call id .next).1 = .error none ∧
    ∀ s ∈ (afterFourCalls.call id .next).2.sources, s.stopped = true := by
  obtain ⟨out, -, -, -, h⟩ := combined_answers id twoSources (by simp [twoSources, Ordered])
  have hdone : (afterFourCalls.call id .next).1 = .error none := by decide +kernel
  exact ⟨⟨out, (h fourCalls).1⟩, hdone, ((h fourCalls).2.2.2 .next).1 hdone⟩

end OrderedCombined
end OpenFGA
