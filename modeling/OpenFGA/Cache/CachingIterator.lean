/-
  The iterator cache of `CachedTupleReader` (`pkg/storage/storagewrappers/iterator_cache.go`).

  On a miss a `CachingIterator` hands the tuples of the datastore through and collects them.
  After `Stop` a goroutine reads what is left; several iterators of one key share a
  singleflight group, so that only one of them does that at a time.  Only an iterator that has
  seen the end of its tuples stores them, without their type and relation,
  which a hit takes from its request.

  Any number of iterators for one request run in any order.  A call that is cancelled
  fails and does nothing.
-/

import OpenFGA.Lib.Parties
import OpenFGA.Lib.Source
import OpenFGA.Iterator
import OpenFGA.Storage.WriteSql

namespace OpenFGA.CachingIterator

open OpenFGA.Tuple Feed List

/-! ## Requests and cached tuples -/

/-- A request, as far as it says which objects and which relation it is about. -/
inductive Request where
  | readUsersetTuples (object relation : String)
  | read (object relation : String)
  | readStartingWithUser (objectType relation : String)
deriving DecidableEq, Repr

/-- The type that a hit puts before the ids. -/
def Request.objectType : Request → String
  | .readUsersetTuples object _ => (splitObject object).1
  | .read object _ => (splitObject object).1
  | .readStartingWithUser objectType _ => objectType

def Request.relation : Request → String
  | .readUsersetTuples _ relation => relation
  | .read _ relation => relation
  | .readStartingWithUser _ relation => relation

section
variable {S : Type}

/-- The tuple has the object and the relation that are asked for. -/
def Request.Answers : Request → Write.TupleKey S → Prop
  | .readStartingWithUser objectType relation, t =>
    getType t.object = objectType ∧ t.relation = relation
  | .readUsersetTuples object relation, t | .read object relation, t =>
    ((splitObject object).1 ≠ "" → (splitObject t.object).1 = (splitObject object).1) ∧
      ((splitObject object).2 ≠ "" → (splitObject t.object).2 = (splitObject object).2) ∧
      (relation ≠ "" → t.relation = relation)

variable (S) in
structure MinimalCacheEntry where
  objectID : String
  user : String
  conditionName : String
  conditionContext : Option S
deriving DecidableEq, Repr

def extractObjectID (object : String) : String :=
  match Cut.first ':' object.toList with
  | none => object
  | some (_, id) => String.ofList id

/-- The entry that `flush` makes of a tuple. -/
def minimalCacheEntry (t : Write.TupleKey S) : MinimalCacheEntry S :=
  ⟨extractObjectID t.object, t.user, t.conditionName, t.conditionContext⟩

variable (S) in
structure LockFreeCachedIterator where
  entries : List (MinimalCacheEntry S)
  index : Nat
  stopped : Bool
  objectType : String
  relation : String
deriving DecidableEq, Repr

namespace LockFreeCachedIterator

/-- `NewLockFreeCachedIterator`. -/
def new (entries : List (MinimalCacheEntry S)) (objectType relation : String) :
    LockFreeCachedIterator S :=
  ⟨entries, 0, false, objectType, relation⟩

def reconstruct (c : LockFreeCachedIterator S) (e : MinimalCacheEntry S) : Write.TupleKey S :=
  ⟨⟨c.objectType ++ ":" ++ e.objectID, c.relation, e.user⟩,
    if e.conditionName ≠ "" then some ⟨e.conditionName, e.conditionContext⟩ else none⟩

/-- `Next`, where `none` is `ErrIteratorDone`. -/
def next (c : LockFreeCachedIterator S) : Option (Write.TupleKey S) × LockFreeCachedIterator S :=
  if c.stopped then (none, c)
  else (c.entries[c.index]?.map c.reconstruct, { c with index := c.index + 1 })

/-- What the first `n` calls of `Next` yield. -/
def take : Nat → LockFreeCachedIterator S → List (Write.TupleKey S)
  | 0, _ => []
  | n + 1, c =>
    match c.next with
    | (none, _) => []
    | (some t, c) => t :: take n c

end LockFreeCachedIterator

open LockFreeCachedIterator

/-- What a hit of the request yields, if it is read to its end. -/
def Request.replay (f : Request) (entries : List (MinimalCacheEntry S)) : List (Write.TupleKey S) :=
  (new entries f.objectType f.relation).take (entries.length + 1)

end

/-! ## Iterators that collect -/

/-- Where an iterator is. -/
inductive Stage where
  /-- The caller reads; `closing` is not set. -/
  | reading
  /-- `drainInBackground` has been started. -/
  | starting
  /-- It is about to call `Head`. -/
  | probing
  /-- It is about to enter the singleflight group. -/
  | joining
  /-- It reads what is left. -/
  | draining
  /-- Another iterator is in the group. -/
  | waiting
  | finished
deriving DecidableEq, Repr

variable (S : Type)

/-- `CachingIterator`. -/
structure Caching (f : Request) where
  /-- What the datastore yields. -/
  answer : List (Write.TupleKey S)
  inner : Source (Write.TupleKey S) Err
  /-- `none` is a nil slice. -/
  tuples : Option (List (Write.TupleKey S))
  stage : Stage

/-- The iterators of one request, the singleflight group and the cache entry of its key. -/
structure World (f : Request) where
  iterators : List (Caching S f)
  /-- The iterator that drains. -/
  flight : Option Nat
  cache : Option (List (MinimalCacheEntry S))
  /-- What was stored, and by which iterator. -/
  stored : List (Nat × List (MinimalCacheEntry S))

inductive Act (f : Request) where
  /-- A request misses the cache. -/
  | miss (answer : List (Write.TupleKey S)) (err : Option Err)
  /-- The entry expires, is evicted or is invalidated. -/
  | evict
  /-- `Next` of the caller, which may be cancelled. -/
  | next (i : Nat) (cancelled : Bool)
  /-- `Head` of the caller. -/
  | head (i : Nat) (cancelled : Bool)
  /-- `Stop` of the caller. -/
  | stop (i : Nat)
  /-- The goroutine looks into the cache. -/
  | start (i : Nat)
  /-- The goroutine calls `Head`; the drain timeout may have passed. -/
  | probe (i : Nat) (cancelled : Bool)
  /-- The goroutine calls `Do` of the group. -/
  | join (i : Nat)
  /-- One round of the loop; the timeout is noticed before or in `Next`. -/
  | drain (i : Nat) (timeout cancelled : Bool)
  /-- The group is left by the one who drained. -/
  | leave (i : Nat)

variable {S} {f : Request}

/-- Append a tuple, unless there are too many. -/
def collect (maxSize : Nat) (tuples : Option (List (Write.TupleKey S))) (t : Write.TupleKey S) :
    Option (List (Write.TupleKey S)) :=
  match tuples with
  | none => none
  | some ts => if maxSize < (ts ++ [t]).length then none else some (ts ++ [t])

namespace World

def init : World S f := ⟨[], none, none, []⟩

/-- Iterator `i` has changed. -/
def update (w : World S f) (i : Nat) (c : Caching S f) : World S f :=
  { w with iterators := w.iterators.set i c }

/-- `flush` of iterator `i`, which ends its goroutine. -/
def flush (w : World S f) (i : Nat) (c : Caching S f) : World S f :=
  match c.tuples with
  | none | some [] => w.update i { c with stage := .finished }
  | some tuples =>
    { w.update i { c with tuples := none, stage := .finished } with
      cache := some (tuples.map minimalCacheEntry)
      stored := w.stored ++ [(i, tuples.map minimalCacheEntry)] }

/-- The goroutine of iterator `i` gives up. -/
def abandon (w : World S f) (i : Nat) (c : Caching S f) : World S f :=
  w.update i { c with tuples := none, stage := .finished }

/-- The group is free again. -/
def release (w : World S f) : World S f := { w with flight := none }

def step (maxSize : Nat) (w : World S f) : Act S f → Option (World S f)
  | .miss answer err =>
    some { w with
      iterators := w.iterators ++ [⟨answer, Source.start answer err, some [], .reading⟩] }
  | .evict => some { w with cache := none }
  | .next i cancelled =>
    match w.iterators[i]? with
    | none => none
    | some c =>
      -- `ErrIteratorDone` once it is closing; a cancelled call leaves the tuples alone
      if c.stage ≠ .reading ∨ cancelled then some w
      else match c.inner.next with
        | .ok (t, inner) =>
          some (w.update i { c with inner := inner, tuples := collect maxSize c.tuples t })
        | .error err =>
          some (w.update i
            { c with tuples := if iterIsDoneOrCancelled err then c.tuples else none })
  | .head i _ => if i < w.iterators.length then some w else none
  | .stop i =>
    match w.iterators[i]? with
    | none => none
    | some c =>
      if c.stage ≠ .reading then some w
      else if c.tuples = none then some (w.update i { c with stage := .finished })
      else some (w.update i { c with stage := .starting })
  | .start i =>
    match w.iterators[i]? with
    | none => none
    | some c =>
      if c.stage ≠ .starting then none
      else if w.cache.isSome then some (w.abandon i c)
      else some (w.update i { c with stage := .probing })
  | .probe i cancelled =>
    match w.iterators[i]? with
    | none => none
    | some c =>
      if c.stage ≠ .probing then none
      else if cancelled then some (w.update i { c with stage := .joining })
      else match c.inner.head with
        | .error none => some (w.flush i c)
        | _ => some (w.update i { c with stage := .joining })
  | .join i =>
    match w.iterators[i]? with
    | none => none
    | some c =>
      if c.stage ≠ .joining then none
      else if w.flight.isSome then some (w.update i { c with stage := .waiting })
      else some { w.update i { c with stage := .draining } with flight := some i }
  | .drain i timeout cancelled =>
    match w.iterators[i]? with
    | none => none
    | some c =>
      if c.stage ≠ .draining then none
      else if timeout ∨ cancelled then some (w.abandon i c).release
      else match c.inner.next with
        | .error none => some (w.flush i c).release
        | .error (some _) => some (w.abandon i c).release
        | .ok (t, inner) =>
          match collect maxSize c.tuples t with
          | none => some (w.abandon i { c with inner := inner }).release
          | some tuples => some (w.update i { c with inner := inner, tuples := some tuples })
  | .leave i =>
    match w.iterators[i]? with
    | none => none
    | some c =>
      if c.stage = .waiting ∧ w.flight = none then
        some (w.update i { c with stage := .finished })
      else none

end World

open World

/-! ## Replay -/

section
variable {S : Type}

lemma LockFreeCachedIterator.take_eq (entries : List (MinimalCacheEntry S))
    (objectType relation : String) (n index : Nat) :
    take n ⟨entries, index, false, objectType, relation⟩ =
      ((entries.drop index).take n).map (new entries objectType relation).reconstruct := by
  induction n generalizing index with
  | zero => simp [take]
  | succ n ih =>
    unfold take next
    by_cases hindex : index < entries.length
    · rw [drop_eq_getElem_cons hindex, take_succ_cons, map_cons, ← ih]
      simp only [Bool.false_eq_true, if_false, getElem?_eq_getElem hindex, Option.map_some]
      rfl
    · have hle : entries.length ≤ index := Nat.le_of_not_lt hindex
      simp [hle]

lemma Request.replay_eq (f : Request) (entries : List (MinimalCacheEntry S)) :
    f.replay entries =
      entries.map (LockFreeCachedIterator.new entries f.objectType f.relation).reconstruct := by
  rw [replay, LockFreeCachedIterator.new, LockFreeCachedIterator.take_eq, drop_zero,
    take_of_length_le (Nat.le_succ _)]
  rfl

lemma extractObjectID_eq (object : String) : extractObjectID object = (splitObject object).2 := by
  unfold extractObjectID splitObject
  cases Cut.first ':' object.toList <;> rfl

/-- A hit of the request rebuilds the tuple: type and relation are those of the request, and a
    condition has a name. -/
def Request.Replays (f : Request) (t : Write.TupleKey S) : Prop :=
  t.object = f.objectType ++ ":" ++ extractObjectID t.object ∧ t.relation = f.relation ∧
    ∀ c, t.condition = some c → c.name ≠ ""

lemma condition_replayed_iff (t : Write.TupleKey S) :
    (if (minimalCacheEntry t).conditionName ≠ "" then
      some (⟨(minimalCacheEntry t).conditionName, (minimalCacheEntry t).conditionContext⟩ :
        Write.Condition S) else none) = t.condition ↔
      ∀ c, t.condition = some c → c.name ≠ "" := by
  unfold minimalCacheEntry Write.TupleKey.conditionName Write.TupleKey.conditionContext
  cases t.condition with
  | none => simp
  | some c => by_cases hname : c.name = "" <;> simp [hname]

lemma reconstruct_minimalCacheEntry_iff (f : Request) (entries : List (MinimalCacheEntry S))
    (t : Write.TupleKey S) :
    (LockFreeCachedIterator.new entries f.objectType f.relation).reconstruct
    (minimalCacheEntry t) = t ↔
      f.Replays t := by
  rw [Request.Replays, ← condition_replayed_iff t]
  obtain ⟨⟨object, relation, user⟩, condition⟩ := t
  simp only [LockFreeCachedIterator.reconstruct, LockFreeCachedIterator.new,
    Write.TupleKey.mk.injEq,
    Write.KeyWithoutCondition.mk.injEq, minimalCacheEntry, and_assoc, true_and]
  exact and_congr eq_comm (and_congr eq_comm Iff.rfl)

/-- A hit yields the tuples that were stored if each of them can be rebuilt. -/
lemma Request.replay_eq_iff (f : Request) (ts : List (Write.TupleKey S)) :
    f.replay (ts.map minimalCacheEntry) = ts ↔ ∀ t ∈ ts, f.Replays t := by
  rw [replay_eq, map_map]
  constructor
  · intro h t ht
    have hall := map_inj_left.mp (h.trans (map_id _).symm)
    exact (reconstruct_minimalCacheEntry_iff f _ t).mp (hall t ht)
  · intro h
    have hmap := map_congr_left fun t ht => (reconstruct_minimalCacheEntry_iff f
      (ts.map minimalCacheEntry) t).mpr (h t ht)
    exact hmap.trans (map_id _)

variable {f : Request} {t : Write.TupleKey S}

lemma Request.Answers.relation_eq (h : f.Answers t) (hrelation : f.relation ≠ "") :
    t.relation = f.relation := by
  cases f with
  | readStartingWithUser objectType relation => exact h.2
  | readUsersetTuples object relation => exact h.2.2 hrelation
  | read object relation => exact h.2.2 hrelation

lemma Request.Answers.getType_eq (h : f.Answers t) (htype : f.objectType ≠ "") :
    getType t.object = f.objectType := by
  cases f with
  | readStartingWithUser objectType relation => exact h.1
  | readUsersetTuples object relation => exact h.1 htype
  | read object relation => exact h.1 htype

/-- A tuple that a datastore returns is rebuilt if the request names its type. -/
lemma Request.Answers.replays_iff (h : f.Answers t) (ht : t.Valid) (hrelation : f.relation ≠ "") :
    f.Replays t ↔ f.objectType ≠ "" := by
  have hobject : t.object = getType t.object ++ ":" ++ extractObjectID t.object := by
    rw [extractObjectID_eq]
    exact (buildObject_splitObject ht.1.1).symm
  constructor
  · intro hreplays
    have htoList := congrArg String.toList (hreplays.1.symm.trans hobject)
    simp only [String.toList_append, append_cancel_right_eq, String.toList_inj] at htoList
    rw [htoList]
    exact type_ne_empty ht.1.1
  · intro htype
    refine ⟨?_, h.relation_eq hrelation, ht.2⟩
    rw [← h.getType_eq htype]
    exact hobject

end

/-! ## What is stored -/

section
variable {S : Type} {f : Request} {maxSize : Nat} {w w' : World S f} {c c' : Caching S f} {i : Nat}

/-- The iterator has collected what its source has yielded, if it has not given up. -/
structure Caching.Collected (c : Caching S f) : Prop where
  all : c.inner.all = c.answer
  tuples : ∀ ts, c.tuples = some ts → ts = c.inner.consumed

/-- The entry is everything the iterator could read, to the end. -/
def Caching.Complete (c : Caching S f) (entries : List (MinimalCacheEntry S)) : Prop :=
  c.inner.err = none ∧ c.answer ≠ [] ∧ entries = c.answer.map minimalCacheEntry

/-- The iterator goes on with the same source. -/
abbrev Caching.Continues (c c' : Caching S f) : Prop :=
  Parties.Continues Caching.Collected Caching.Complete c c'

lemma Caching.continues_stage (c : Caching S f) (stage : Stage) :
    c.Continues { c with stage := stage } :=
  ⟨fun h => ⟨h.all, h.tuples⟩, fun _ h => h⟩

lemma Caching.continues_abandon (c : Caching S f) (stage : Stage) :
    c.Continues { c with tuples := none, stage := stage } :=
  ⟨fun h => ⟨h.all, nofun⟩, fun _ h => h⟩

lemma collect_eq_some {tuples : Option (List (Write.TupleKey S))} {t : Write.TupleKey S}
    {ts : List (Write.TupleKey S)} (h : collect maxSize tuples t = some ts) :
    ∃ us, tuples = some us ∧ ts = us ++ [t] := by
  unfold collect at h
  cases tuples with
  | none => cases h
  | some us =>
    simp only at h
    split_ifs at h
    cases h
    exact ⟨us, rfl, rfl⟩

lemma Caching.continues_next {t inner tuples} (h : c.inner.next = .ok (t, inner))
    (htuples : ∀ ts, tuples = some ts → ∃ us, c.tuples = some us ∧ ts = us ++ [t]) (stage : Stage) :
    c.Continues ⟨c.answer, inner, tuples, stage⟩ := by
  obtain ⟨hconsumed, hall, herr⟩ := Source.next_ok h
  constructor
  · intro hc
    refine ⟨hall.trans hc.all, fun ts hts => ?_⟩
    obtain ⟨us, hus, rfl⟩ := htuples ts hts
    rw [hc.tuples us hus]
    exact hconsumed.symm
  · intro entries hcomplete
    exact ⟨herr.trans hcomplete.1, hcomplete.2⟩

/-- Each iterator has collected what it has read, and what was stored is all that one of them
    could read. -/
abbrev Inv (w : World S f) : Prop :=
  Parties.Inv Caching.Collected Caching.Complete w.iterators w.stored

lemma inv_flush (hw : Inv w) (hi : w.iterators[i]? = some c)
    (hdone : c.inner.consumed = c.inner.all ∧ c.inner.err = none) : Inv (w.flush i c) := by
  have hc := hw.get hi
  unfold flush
  split
  · exact hw.update hi (c.continues_stage _)
  · exact hw.update hi (c.continues_stage _)
  · rename_i ts hne htuples
    have hcollected : ts = c.answer := by
      rw [hc.tuples _ htuples, hdone.1, hc.all]
    have hcomplete : c.Complete (ts.map minimalCacheEntry) := by
      refine ⟨hdone.2, ?_, by rw [hcollected]⟩
      rw [← hcollected]
      exact fun hnil => hne (hnil ▸ rfl)
    exact hw.write_update hi hcomplete (c.continues_abandon _)

lemma inv_abandon (hw : Inv w) (hi : w.iterators[i]? = some c) : Inv (w.abandon i c) :=
  hw.update hi (c.continues_abandon _)

lemma inv_step {a : Act S f} (hw : Inv w) (h : step maxSize w a = some w') : Inv w' := by
  cases a <;> simp only [step] at h
  case miss answer err =>
    cases h
    exact hw.join ⟨rfl, fun ts hts => by cases hts; rfl⟩
  case evict =>
    cases h
    exact hw
  case head i cancelled =>
    split_ifs at h
    cases h
    exact hw
  case next i cancelled =>
    split at h
    · cases h
    next c hi =>
      split_ifs at h
      · cases h
        exact hw
      · cases hnext : c.inner.next with
        | ok r =>
          simp only [hnext] at h
          cases h
          exact hw.update hi (Caching.continues_next hnext (fun _ => collect_eq_some) _)
        | error err =>
          simp only [hnext] at h
          cases h
          apply hw.update hi
          refine ⟨fun hc => ⟨hc.all, fun ts hts => ?_⟩, fun _ h => h⟩
          simp only at hts
          split_ifs at hts
          exact hc.tuples ts hts
  case stop i =>
    split at h
    · cases h
    next c hi =>
      split_ifs at h <;> cases h
      · exact hw
      · exact hw.update hi (c.continues_stage _)
      · exact hw.update hi (c.continues_stage _)
  case start i =>
    split at h
    · cases h
    next c hi =>
      split_ifs at h <;> cases h
      · exact inv_abandon hw hi
      · exact hw.update hi (c.continues_stage _)
  case probe i cancelled =>
    split at h
    · cases h
    next c hi =>
      split_ifs at h
      · cases h
        exact hw.update hi (c.continues_stage _)
      · split at h
        · rename_i hhead
          cases h
          exact inv_flush hw hi (Source.head_done hhead)
        · cases h
          exact hw.update hi (c.continues_stage _)
  case join i =>
    split at h
    · cases h
    next c hi =>
      split_ifs at h <;> cases h
      · exact hw.update hi (c.continues_stage _)
      · exact hw.update hi (c.continues_stage .draining)
  case drain i timeout cancelled =>
    split at h
    · cases h
    next hi =>
      split_ifs at h
      · cases h
        exact inv_abandon hw hi
      · split at h
        · rename_i hnext
          cases h
          exact inv_flush hw hi (Source.next_done hnext)
        · cases h
          exact inv_abandon hw hi
        · rename_i hnext
          split at h
          · cases h
            exact hw.update hi (Caching.continues_next hnext (fun _ hts => by cases hts) _)
          · rename_i hcollect
            cases h
            refine hw.update hi (Caching.continues_next hnext (fun us hus => ?_) _)
            exact collect_eq_some (hcollect.trans hus)
  case leave i =>
    split at h
    · cases h
    next c hi =>
      split_ifs at h
      cases h
      exact hw.update hi (c.continues_stage _)

lemma inv_init : Inv (init : World S f) := Parties.inv_nil

/-- Whatever the callers, the timeouts and the datastore do: what is stored are all tuples of an
    iterator that has ended without an error, in their order.  A hit yields them again exactly if it
    can rebuild each of them, for what a datastore returns: if its request says which type they
    have. -/
theorem stored_complete_replay_iff (maxSize : Nat) (as : List (Act S f)) (w : World S f)
    (h : Lts.run (step maxSize) init as = some w) :
    ∀ p ∈ w.stored, ∃ c, w.iterators[p.1]? = some c ∧ c.inner.err = none ∧
      p.2 = c.answer.map minimalCacheEntry ∧
      (f.replay p.2 = c.answer ↔ ∀ t ∈ c.answer, f.Replays t) ∧
      (f.relation ≠ "" → (∀ t ∈ c.answer, t.Valid ∧ f.Answers t) →
        (f.replay p.2 = c.answer ↔ f.objectType ≠ "")) := by
  intro p hp
  have hinv : Inv w := Lts.run_invariant' (fun _ _ _ hw hstep => inv_step hw hstep) inv_init h
  obtain ⟨c, hc, herr, hne, hentries⟩ := hinv.logged p hp
  refine ⟨c, hc, herr, hentries, ?_⟩
  rw [hentries, f.replay_eq_iff]
  refine ⟨Iff.rfl, fun hrelation hanswers => ?_⟩
  have hiff : ∀ t ∈ c.answer, f.Replays t ↔ f.objectType ≠ "" := fun t ht =>
    (hanswers t ht).2.replays_iff (hanswers t ht).1 hrelation
  obtain ⟨t, ht⟩ := exists_mem_of_ne_nil _ hne
  exact ⟨fun h => (hiff t ht).mp (h t ht), fun h t ht => (hiff t ht).mpr h⟩

end

-- Everything that anne views, whatever its type: the tuples of the answer have a type, the request
-- has none.

private def everyType : Request := .read "" "viewer"

private def annesViews : List (Write.TupleKey Unit) :=
  [⟨⟨"document:1", "viewer", "user:anne"⟩, none⟩]

private def readOne : List (Act Unit everyType) :=
  [.miss annesViews none, .next 0 false, .stop 0, .start 0, .probe 0 false]

theorem stored_complete_readOne :
    ∃ w, Lts.run (step 10) init readOne = some w ∧
      ∀ p ∈ w.stored, ∃ c, w.iterators[p.1]? = some c ∧ c.inner.err = none ∧
        p.2 = c.answer.map minimalCacheEntry ∧
        (everyType.replay p.2 = c.answer ↔ ∀ t ∈ c.answer, everyType.Replays t) ∧
        (everyType.relation ≠ "" → (∀ t ∈ c.answer, t.Valid ∧ everyType.Answers t) →
          (everyType.replay p.2 = c.answer ↔ everyType.objectType ≠ "")) :=
  ⟨_, rfl, stored_complete_replay_iff 10 readOne _ rfl⟩

/-- The object comes back without its type. -/
theorem replay_without_type :
    (Lts.run (step 10) init readOne).map
      (fun w => w.stored.map fun p => everyType.replay p.2) =
        some [[⟨⟨":1", "viewer", "user:anne"⟩, none⟩]] ∧
    (∀ t ∈ annesViews, t.Valid ∧ everyType.Answers t) ∧ everyType.relation ≠ "" := by
  refine ⟨by decide, fun t ht => ?_, by decide⟩
  rw [mem_singleton.mp ht]
  exact ⟨⟨⟨by decide, by decide, by decide⟩, nofun⟩, fun h => absurd rfl h, fun h => absurd rfl h,
    fun _ => rfl⟩

end OpenFGA.CachingIterator
