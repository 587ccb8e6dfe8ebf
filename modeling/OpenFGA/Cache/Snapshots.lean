/-
  What a cached result has seen of the store.

  A read goes to the datastore, which fixes its snapshot at any time between the call and the
  first `Next`.  The time of the result is taken when the call has returned: `initializedAt`
  of `CachedDatastore` and `createdAt` of `CachedTupleReader`.  If the snapshot is fixed in the
  call, a change may be committed and processed by the cache controller before that time, and then
  the result is taken to be newer than the marker although it does not include the change.

  Nothing expires here: `Served` is what a lookup finds if no entry and no marker has reached its
  TTL.
-/

import OpenFGA.Cache.Lifetimes

namespace OpenFGA.IteratorCache

/-- The two iterator caches: `CachedDatastore` and `CachedTupleReader`. -/
inductive Version where
  | v1
  | v2
deriving DecidableEq, Repr

/-- A result: `TupleIteratorCacheEntry` or `V2IteratorCacheEntry`. -/
structure Result where
  version : Version
  /-- How many changes were committed when the snapshot was fixed.  The code does not store this. -/
  snapshot : Nat
deriving DecidableEq, Repr

section
variable {κ : Type} [DecidableEq κ]

/-- `isCacheEntryInvalidated`; `none` is the key of the store. -/
def isCacheEntryInvalidated (cache : InMemoryCache κ Result) (now : Int)
    (invalidKey : Option EntityKey) (lastModified : Int) : Bool :=
  match invalidKey with
  | none => newer lastModified (cache.get now .invalidStore)
  | some e => newer lastModified (cache.get now (.invalid e))

def tryGetFromCache (cache : InMemoryCache κ Result) (now : Int) (key : κ)
    (invalidEntityKeys : List EntityKey) : Option (IteratorEntry Result) × InMemoryCache κ Result :=
  match cache.get now (.iterator key) with
  | none => (none, cache)
  | some (cached : IteratorEntry Result) =>
    if cached.tuples.version ≠ .v2 then (none, cache)
    else if isCacheEntryInvalidated cache now none cached.lastModified then
      (none, cache.delete (.iterator key))
    else if invalidEntityKeys.any fun e => isCacheEntryInvalidated cache now
      (some e) cached.lastModified then
      (none, cache.delete (.iterator key))
    else (some cached, cache)

/-- The lookup of each cache; an entry of the other one is not found. -/
def lookup (version : Version) (cache : InMemoryCache κ Result) (now : Int) (key : κ)
    (invalidEntityKeys : List EntityKey) : Option (IteratorEntry Result) × InMemoryCache κ Result :=
  match version with
  | .v2 => tryGetFromCache cache now key invalidEntityKeys
  | .v1 =>
    match cache.get now (.iterator key) with
    | none => (none, cache)
    | some (tupleEntry : IteratorEntry Result) =>
      if tupleEntry.tuples.version ≠ .v1 then (none, cache)
      else findInCache cache now key invalidEntityKeys

/-- What `Stop` of `cachedIterator` and `drainInBackground` of `CachingIterator` look at before they
    go on: whether to drop the result, and the cache afterwards. -/
def stop (version : Version) (cache : InMemoryCache κ Result) (now : Int) (key : κ)
    (invalidEntityKeys : List EntityKey) (startedAt : Int) : Bool × InMemoryCache κ Result :=
  match version with
  | .v1 =>
    let found := lookup .v1 cache now key invalidEntityKeys
    (found.1.isSome || isInvalidAt found.2 now startedAt invalidEntityKeys, found.2)
  | .v2 =>
    (match cache.get now (.iterator key) with
      | none => false
      | some (entry : IteratorEntry Result) => decide (entry.tuples.version = .v2), cache)

end

namespace Snapshots

/-- A committed change. -/
structure Committed where
  change : Change
  /-- How many changes were committed before it. -/
  number : Nat
deriving DecidableEq, Repr

/-- A read that has missed the cache. -/
structure Call (κ : Type) where
  version : Version
  key : κ
  /-- The snapshot, once it is fixed. -/
  snapshot : Option Nat
  /-- `initializedAt` or `createdAt`, once the call of the datastore has returned. -/
  startedAt : Option Int
  /-- `Stop` was called, and the result may be stored. -/
  draining : Bool
deriving DecidableEq, Repr

structure World (κ : Type) where
  clock : Int
  commits : Nat
  /-- The changelog by descending ULID. -/
  changelog : List Committed
  calls : List (Call κ)
  cache : InMemoryCache κ Result
  /-- The changes for which the controller has set markers, and when. -/
  processed : List (Int × Committed)

inductive Act (κ : Type) where
  | tick (d : Nat)
  /-- A change is committed; it gets position `n` of the changelog. -/
  | commit (n : Nat) (c : Change)
  /-- A request looks its key up, and calls the datastore if nothing is found. -/
  | read (version : Version) (key : κ)
  /-- The datastore fixes the snapshot of call `i`. -/
  | fix (i : Nat)
  /-- Call `i` returns, and the time is taken. -/
  | returned (i : Nat)
  /-- `Stop` of the iterator of call `i`. -/
  | stop (i : Nat)
  /-- The result of call `i` is stored. -/
  | flush (i : Nat) (random : Nat)
  /-- Call `i` ends without a result that can be stored. -/
  | discard (i : Nat)
  /-- A run of the controller. -/
  | invalidate
deriving DecidableEq, Repr

section
variable {κ : Type} (cfg : Config κ)

def World.init : World κ := ⟨0, 0, [], [], Expiring.Cache.empty, []⟩

/-- The newest page of the changelog. -/
def World.page (w : World κ) : List Committed := w.changelog.take defaultPageSize

/-- What a run of the controller decides. -/
def World.nextInvalidation (w : World κ) : Invalidation :=
  invalidation cfg.iteratorCacheTTL w.clock (lastChangeTime w.cache w.clock)
    (w.page.map Committed.change)

/-- The changes for which a run of the controller sets markers. -/
def World.nextProcessed (w : World κ) : List Committed :=
  w.page.filter fun l => l.change ∈ (w.nextInvalidation cfg).changes (w.page.map Committed.change)

/-- The TTL with which a result is stored; only the first cache adds jitter. -/
def resultTTL (version : Version) (random : Nat) : Int :=
  match version with
  | .v1 => jitteredTTL cfg.iteratorCacheTTL cfg.jitterPercentage random
  | .v2 => cfg.iteratorCacheTTL

variable [DecidableEq κ]

def World.step (w : World κ) : Act κ → Option (World κ)
  | .tick d => some { w with clock := w.clock + d }
  | .commit n c =>
    if n ≤ w.changelog.length then
      some { w with
        changelog := w.changelog.insertIdx n ⟨c, w.commits⟩
        commits := w.commits + 1 }
    else none
  | .read version key =>
    let found := lookup version w.cache w.clock key (cfg.invalidEntityKeys key)
    if found.1.isSome then some { w with cache := found.2 }
    else some { w with cache := found.2, calls := w.calls ++ [⟨version, key, none, none, false⟩] }
  | .fix i =>
    match w.calls[i]? with
    | some r =>
      if r.snapshot = none then
        some { w with calls := w.calls.set i { r with snapshot := some w.commits } }
      else none
    | none => none
  | .returned i =>
    match w.calls[i]? with
    | some r =>
      if r.startedAt = none then
        some { w with calls := w.calls.set i { r with startedAt := some w.clock } }
      else none
    | none => none
  | .stop i =>
    match w.calls[i]? with
    | some ⟨version, key, snapshot, some startedAt, false⟩ =>
      let (drop, cache) := stop version w.cache w.clock key (cfg.invalidEntityKeys key) startedAt
      if drop then some { w with cache := cache, calls := w.calls.eraseIdx i }
      else some { w with
        cache := cache
        calls := w.calls.set i ⟨version, key, snapshot, some startedAt, true⟩ }
    | _ => none
  | .flush i random =>
    match w.calls[i]? with
    | some ⟨version, key, some snapshot, some startedAt, true⟩ =>
      some { w with
        cache := set w.cache w.clock (.iterator key) ⟨⟨version, snapshot⟩, startedAt⟩
          (resultTTL cfg version random)
        calls := w.calls.eraseIdx i }
    | _ => none
  | .discard i =>
    if i < w.calls.length then some { w with calls := w.calls.eraseIdx i } else none
  | .invalidate =>
    some { w with
      cache := findChangesAndInvalidateIfNecessary w.cache w.clock cfg.queryCacheTTL
        cfg.iteratorCacheTTL (w.page.map Committed.change)
      processed := w.processed ++ (w.nextProcessed cfg).map fun l => (w.clock, l) }

end

/-! ## Results that include what was processed -/

section
variable {κ : Type} (cfg : Config κ) (w : World κ)

/-- A marker of the request is newer than this time. -/
def Discarded (key : κ) (lastModified : Int) : Prop :=
  ∃ m ∈ scopes (cfg.invalidEntityKeys key), ∃ s, marker w.cache m = some s ∧ lastModified < s.value

/-- What a lookup finds if nothing has expired. -/
def Served (key : κ) (entry : IteratorEntry Result) : Prop :=
  ∃ s, w.cache (.iterator key) = some s ∧ s.value = entry ∧ ¬ Discarded cfg w key entry.lastModified

/-- A processed change that the request covers is not in the snapshot. -/
def Misses (key : κ) (snapshot : Nat) : Prop :=
  ∃ p ∈ w.processed, Covers cfg key p.2.change ∧ snapshot ≤ p.2.number

/-- What is served includes every change that a run of the controller has processed. -/
def Sound : Prop := ∀ key entry, Served cfg w key entry → ¬ Misses cfg w key entry.tuples.snapshot

/-- A result that is stored without a change that was processed is older than a marker; and a
    result that is in the cache without a change that a run processes is older than the run. -/
def Current : Act κ → Prop
  | .flush i random => ∀ version key snapshot startedAt,
      w.calls[i]? = some ⟨version, key, some snapshot, some startedAt, true⟩ →
      0 ≤ resultTTL cfg version random → Misses cfg w key snapshot → Discarded cfg w key startedAt
  | .invalidate => ∀ key entry, Served cfg w key entry →
      (∃ l ∈ w.nextProcessed cfg, Covers cfg key l.change ∧ entry.tuples.snapshot ≤ l.number) →
        entry.lastModified < w.clock
  | _ => True

end

section
variable {κ : Type} [DecidableEq κ] {cache : InMemoryCache κ Result} {now : Int} {key : κ}
  {keys : List EntityKey}

/-- Both lookups are the same, up to the type of the entry. -/
lemma tryGetFromCache_eq (cache : InMemoryCache κ Result) (now : Int) (key : κ)
    (keys : List EntityKey) : tryGetFromCache cache now key keys =
      match cache.get now (.iterator key) with
      | none => (none, cache)
      | some (cached : IteratorEntry Result) =>
        if cached.tuples.version ≠ .v2 then (none, cache) else findInCache cache now key keys := by
  unfold tryGetFromCache findInCache
  cases cache.get now (.iterator key) with
  | none => rfl
  | some cached =>
    simp only [isInvalidAt, isCacheEntryInvalidated]
    by_cases hversion : cached.tuples.version ≠ .v2
    · rw [if_pos hversion, if_pos hversion]
    · rw [if_neg hversion, if_neg hversion]
      by_cases hstore : newer cached.lastModified (cache.get now .invalidStore) = true
      · simp [hstore]
      · simp [hstore]

section
variable (version : Version) (cache : InMemoryCache κ Result) (now : Int) (key : κ)
  (keys : List EntityKey)

lemma lookup_eq : lookup version cache now key keys =
      match cache.get now (.iterator key) with
      | none => (none, cache)
      | some (entry : IteratorEntry Result) =>
        if entry.tuples.version ≠ version then (none, cache)
          else findInCache cache now key keys := by
  cases version with
  | v1 => rfl
  | v2 => exact tryGetFromCache_eq cache now key keys

lemma lookup_cache : (lookup version cache now key keys).2 = cache ∨
      (lookup version cache now key keys).2 = cache.delete (.iterator key) := by
  rw [lookup_eq]
  cases cache.get now (.iterator key) with
  | none => exact .inl rfl
  | some entry =>
    by_cases hversion : entry.tuples.version ≠ version
    · simp only [hversion, ne_eq, not_false_eq_true, if_true, true_or]
    · simp only [hversion, if_false]
      exact findInCache_cache cache now key keys

lemma stop_cache (startedAt : Int) : (stop version cache now key keys startedAt).2 = cache ∨
      (stop version cache now key keys startedAt).2 = cache.delete (.iterator key) := by
  cases version with
  | v1 => exact lookup_cache .v1 cache now key keys
  | v2 => exact .inl rfl

end

variable {cfg : Config κ} {w w' : World κ} {version : Version} {a : Act κ}

/-- If nothing has expired, a lookup finds what is served. -/
theorem lookup_eq_some {entry} (halive : ∀ k s, w.cache k = some s → w.clock < s.expiry) :
    (lookup version w.cache w.clock key (cfg.invalidEntityKeys key)).1 = some entry ↔
      Served cfg w key entry ∧ entry.tuples.version = version := by
  have hinvalid : isInvalidAt w.cache w.clock entry.lastModified
    (cfg.invalidEntityKeys key) = false ↔
      ¬ Discarded cfg w key entry.lastModified := by
    rw [Bool.eq_false_iff, ne_eq, isInvalidAt_iff]
    refine not_congr (exists_congr fun m => and_congr_right fun _ => exists_congr fun s => ?_)
    refine and_congr_right fun hs => and_iff_right ?_
    cases m with
    | none => exact halive .invalidStore s hs
    | some e => exact halive (.invalid e) s hs
  rw [lookup_eq]
  cases hget : w.cache.get w.clock (.iterator key) with
  | none =>
    simp only [reduceCtorEq, false_iff]
    rintro ⟨⟨s, hs, -, -⟩, -⟩
    rw [Expiring.Cache.get_eq_some.mpr ⟨s, hs, halive _ s hs, rfl⟩] at hget
    cases hget
  | some found =>
    obtain ⟨s, hs, hlt, hvalue⟩ := Expiring.Cache.get_eq_some.mp hget
    have hserved : Served cfg w key entry ↔
        found = entry ∧ ¬ Discarded cfg w key entry.lastModified := by
      constructor
      · rintro ⟨s', hs', rfl, hnot⟩
        rw [hs] at hs'
        cases hs'
        exact ⟨hvalue.symm, hnot⟩
      · rintro ⟨rfl, hnot⟩
        exact ⟨s, hs, hvalue, hnot⟩
    have hfind : (findInCache w.cache w.clock key (cfg.invalidEntityKeys key)).1 = some entry ↔
        Served cfg w key entry := by
      rw [findInCache_eq_some, hinvalid]
      exact ⟨fun ⟨s, hs, _, hv, hnot⟩ => ⟨s, hs, hv, hnot⟩,
        fun ⟨s, hs, hv, hnot⟩ => ⟨s, hs, halive _ s hs, hv, hnot⟩⟩
    by_cases hversion : found.tuples.version ≠ version
    · simp only [hversion, ne_eq, not_false_eq_true, if_true, reduceCtorEq, false_iff]
      rintro ⟨h, heq⟩
      rw [← (hserved.mp h).1] at heq
      exact hversion heq
    · simp only [hversion, if_false, hfind]
      refine (and_iff_left_of_imp fun h => ?_).symm
      rw [← (hserved.mp h).1]
      exact not_not.mp hversion

/-- Entries are deleted, but nothing else happens to the cache. -/
structure Shrinks (w w' : World κ) : Prop where
  processed : w'.processed = w.processed
  clock : w.clock ≤ w'.clock
  markers : marker w'.cache = marker w.cache
  iterators : ∀ key s, w'.cache (.iterator key) = some s → w.cache (.iterator key) = some s

omit [DecidableEq κ] in
lemma Shrinks.sound (h : Shrinks w w') (hsound : Sound cfg w) : Sound cfg w' := by
  rintro key entry ⟨s, hs, hvalue, hnot⟩ hmisses
  unfold Discarded at hnot
  rw [h.markers] at hnot
  unfold Misses at hmisses
  rw [h.processed] at hmisses
  exact hsound key entry ⟨s, h.iterators key s hs, hvalue, hnot⟩ hmisses

theorem Shrinks.delete {cache} (calls : List (Call κ))
    (h : cache = w.cache ∨ cache = w.cache.delete (.iterator key)) :
    Shrinks w { w with cache := cache, calls := calls } := by
  rcases h with rfl | rfl
  · exact ⟨rfl, Int.le_refl _, rfl, fun _ _ => id⟩
  · exact ⟨rfl, Int.le_refl _, marker_delete_iterator, fun _ _ => delete_iterator_eq_some⟩

lemma World.step_cases (h : step cfg w a = some w') :
    (Shrinks w w' ∧ Current cfg w a) ∨
    (∃ i random version key snapshot startedAt, a = .flush i random ∧
      w.calls[i]? = some ⟨version, key, some snapshot, some startedAt, true⟩ ∧
      w'.clock = w.clock ∧ w'.processed = w.processed ∧
      w'.cache = set w.cache w.clock (.iterator key) ⟨⟨version, snapshot⟩, startedAt⟩
        (resultTTL cfg version random)) ∨
    (a = .invalidate ∧ w'.clock = w.clock ∧
      w'.processed = w.processed ++ (w.nextProcessed cfg).map (fun l => (w.clock, l)) ∧
      w'.cache = findChangesAndInvalidateIfNecessary w.cache w.clock cfg.queryCacheTTL
        cfg.iteratorCacheTTL (w.page.map Committed.change)) := by
  cases a with
  | tick d =>
    cases h
    exact .inl ⟨⟨rfl, by simp only; omega, rfl, fun _ _ => id⟩, trivial⟩
  | commit n c | discard i =>
    simp only [step] at h
    split_ifs at h
    cases h
    exact .inl ⟨⟨rfl, Int.le_refl _, rfl, fun _ _ => id⟩, trivial⟩
  | read version key =>
    have hcache := lookup_cache version w.cache w.clock key (cfg.invalidEntityKeys key)
    simp only [step] at h
    split_ifs at h <;> cases h
    · exact .inl ⟨Shrinks.delete _ hcache, trivial⟩
    · exact .inl ⟨Shrinks.delete _ hcache, trivial⟩
  | fix i | returned i =>
    simp only [step] at h
    cases hr : w.calls[i]? with
    | none => simp [hr] at h
    | some r =>
      simp only [hr] at h
      split_ifs at h
      cases h
      exact .inl ⟨⟨rfl, Int.le_refl _, rfl, fun _ _ => id⟩, trivial⟩
  | stop i =>
    simp only [step] at h
    split at h
    · rename_i version key snapshot startedAt _
      have hcache := stop_cache version w.cache w.clock key (cfg.invalidEntityKeys key) startedAt
      split_ifs at h <;> cases h
      · exact .inl ⟨Shrinks.delete _ hcache, trivial⟩
      · exact .inl ⟨Shrinks.delete _ hcache, trivial⟩
    · cases h
  | flush i random =>
    simp only [step] at h
    split at h
    · rename_i version key snapshot startedAt hr
      cases h
      exact .inr (.inl ⟨i, random, version, key, snapshot, startedAt, rfl, hr, rfl, rfl, rfl⟩)
    · cases h
  | invalidate =>
    cases h
    exact .inr (.inr ⟨rfl, rfl, rfl, rfl⟩)

lemma sound_flush_iff {key snapshot startedAt ttl}
    (hsound : Sound cfg w) (hprocessed : w'.processed = w.processed)
    (hcache : w'.cache = set w.cache w.clock (.iterator key) ⟨⟨version, snapshot⟩, startedAt⟩ ttl) :
    Sound cfg w' ↔ (0 ≤ ttl → Misses cfg w key snapshot → Discarded cfg w key startedAt) := by
  have hmisses : ∀ key snapshot, Misses cfg w' key snapshot ↔ Misses cfg w key snapshot := by
    intro key snapshot
    rw [Misses, Misses, hprocessed]
  have hdiscarded : ∀ key ts, Discarded cfg w' key ts ↔ Discarded cfg w key ts := by
    intro key ts
    rw [Discarded, Discarded, hcache, marker_set_iterator]
  constructor
  · intro h hpos hmiss
    by_contra hnot
    refine h key ⟨⟨version, snapshot⟩, startedAt⟩
      ⟨⟨⟨⟨version, snapshot⟩, startedAt⟩, w.clock + lifetime ttl⟩, ?_, rfl, ?_⟩
        ((hmisses _ _).mpr hmiss)
    · rw [hcache, set_of_nonneg hpos]
      exact Expiring.Cache.set_same
    · rwa [hdiscarded]
  · rintro h key' entry ⟨s, hs, hvalue, hnot⟩ hmiss
    rw [hdiscarded] at hnot
    rw [hmisses] at hmiss
    rw [hcache] at hs
    rcases set_iterator_eq_some hs with hold | ⟨hpos, rfl, rfl⟩
    · exact hsound key' entry ⟨s, hold, hvalue, hnot⟩ hmiss
    · subst hvalue
      exact hnot (h hpos hmiss)

/-- Nothing is stored with a negative TTL, and a marker is not from the future. -/
structure Inv (cfg : Config κ) (w : World κ) : Prop where
  iterators : ∀ key s, w.cache (.iterator key) = some s → 0 ≤ cfg.iteratorCacheTTL
  markers : ∀ m s, marker w.cache m = some s → s.value ≤ w.clock

lemma sound_invalidate_iff (hinv : Inv cfg w) (hsound : Sound cfg w)
    (hprocessed : w'.processed = w.processed ++ (w.nextProcessed cfg).map (fun l => (w.clock, l)))
    (hcache : w'.cache = findChangesAndInvalidateIfNecessary w.cache w.clock cfg.queryCacheTTL
      cfg.iteratorCacheTTL (w.page.map Committed.change)) :
    Sound cfg w' ↔ Current cfg w .invalidate := by
  have hmarker := invalidate_marker w.cache w.clock cfg.queryCacheTTL cfg.iteratorCacheTTL
    (w.page.map Committed.change)
  rw [← hcache] at hmarker
  have hiterator : ∀ key, w'.cache (.iterator key) = w.cache (.iterator key) := by
    intro key
    rw [hcache, invalidate_iterator]
  -- an earlier marker is replaced by a newer one
  have hkeep : ∀ {key ts}, Discarded cfg w key ts → Discarded cfg w' key ts := by
    rintro key ts ⟨m, hm, s, hs, hnewer⟩
    rcases hmarker m with ⟨-, hnew⟩ | ⟨-, hsame⟩
    · have hvalue := hinv.markers m s hs
      exact ⟨m, hm, _, hnew, by simp only; omega⟩
    · exact ⟨m, hm, s, hsame.trans hs, hnewer⟩
  constructor
  · rintro h key entry ⟨s, hs, hvalue, hnot⟩ ⟨l, hl, hcovers, hmiss⟩
    have hmisses : Misses cfg w' key entry.tuples.snapshot := by
      refine ⟨(w.clock, l), ?_, hcovers, hmiss⟩
      rw [hprocessed]
      exact List.mem_append_right _ (List.mem_map.mpr ⟨l, hl, rfl⟩)
    have hdiscarded : Discarded cfg w' key entry.lastModified := by
      by_contra hnot'
      exact h key entry ⟨s, (hiterator key).trans hs, hvalue, hnot'⟩ hmisses
    obtain ⟨m, hm, s', hs', hnewer⟩ := hdiscarded
    rcases hmarker m with ⟨-, hnew⟩ | ⟨-, hsame⟩
    · rw [hnew] at hs'
      cases hs'
      exact hnewer
    · exact absurd ⟨m, hm, s', hsame.symm.trans hs', hnewer⟩ hnot
  · rintro h key entry ⟨s, hs, hvalue, hnot⟩ ⟨p, hp, hcovers, hmiss⟩
    rw [hiterator] at hs
    have hserved : Served cfg w key entry := ⟨s, hs, hvalue, fun hd => hnot (hkeep hd)⟩
    rw [hprocessed] at hp
    rcases List.mem_append.mp hp with hp | hp
    · exact hsound key entry hserved ⟨p, hp, hcovers, hmiss⟩
    · obtain ⟨l, hl, rfl⟩ := List.mem_map.mp hp
      have hbefore := h key entry hserved ⟨l, hl, hcovers, hmiss⟩
      have hchange := (List.mem_filter.mp hl).2
      obtain ⟨e, he, hce⟩ := hcovers
      obtain ⟨m, hm, hsets⟩ := Invalidation.exists_sets (hinv.iterators key s hs)
        (of_decide_eq_true hchange) he hce
      rcases hmarker m with ⟨-, hnew⟩ | ⟨hnot', -⟩
      · exact hnot ⟨m, hm, _, hnew, hbefore⟩
      · exact hnot' hsets

/-! ## Whole runs -/

omit [DecidableEq κ] in
lemma resultTTL_nonneg_iff {random} :
    0 ≤ resultTTL cfg version random ↔ 0 ≤ cfg.iteratorCacheTTL := by
  cases version with
  | v1 => exact (jitteredTTL_sign _ _).1
  | v2 => exact Iff.rfl

omit [DecidableEq κ] in
lemma inv_init : Inv cfg (World.init : World κ) := by
  constructor
  · intro key s hs
    cases hs
  · intro m s hs
    cases m <;> cases hs

omit [DecidableEq κ] in
lemma sound_init : Sound cfg (World.init : World κ) := by
  rintro key entry ⟨s, hs, -⟩
  cases hs

theorem Inv.step (hinv : Inv cfg w) (h : World.step cfg w a = some w') : Inv cfg w' := by
  rcases World.step_cases h with ⟨hshrinks, -⟩ |
    ⟨i, random, version, key, snapshot, startedAt, -, -, hclock, -, hcache⟩ | ⟨-, hclock, -, hcache⟩
  · constructor
    · exact fun key s hs => hinv.iterators key s (hshrinks.iterators key s hs)
    · intro m s hs
      rw [hshrinks.markers] at hs
      exact Int.le_trans (hinv.markers m s hs) hshrinks.clock
  · constructor
    · intro key' s hs
      rw [hcache] at hs
      rcases set_iterator_eq_some hs with hold | ⟨hpos, -⟩
      · exact hinv.iterators key' s hold
      · exact resultTTL_nonneg_iff.mp hpos
    · intro m s hs
      rw [hcache, marker_set_iterator] at hs
      rw [hclock]
      exact hinv.markers m s hs
  · constructor
    · intro key s hs
      rw [hcache, invalidate_iterator] at hs
      exact hinv.iterators key s hs
    · intro m s hs
      rw [hcache] at hs
      rw [hclock]
      rcases invalidate_marker w.cache w.clock cfg.queryCacheTTL cfg.iteratorCacheTTL
        (w.page.map Committed.change) m with ⟨-, hnew⟩ | ⟨-, hsame⟩
      · rw [hnew] at hs
        cases hs
        exact Int.le_refl _
      · exact hinv.markers m s (hsame.symm.trans hs)

lemma sound_step_iff (hinv : Inv cfg w) (hsound : Sound cfg w)
    (h : World.step cfg w a = some w') : Sound cfg w' ↔ Current cfg w a := by
  rcases World.step_cases h with ⟨hshrinks, hcurrent⟩ |
    ⟨i, random, version, key, snapshot, startedAt, rfl, hr, -, hprocessed, hcache⟩ |
    ⟨rfl, -, hprocessed, hcache⟩
  · exact ⟨fun _ => hcurrent, fun _ => hshrinks.sound hsound⟩
  · rw [sound_flush_iff hsound hprocessed hcache]
    constructor
    · intro h' version' key' snapshot' startedAt' hr'
      rw [hr] at hr'
      cases hr'
      exact h'
    · exact fun h' => h' version key snapshot startedAt hr
  · exact sound_invalidate_iff hinv hsound hprocessed hcache

/-- In every state of a run what is served includes the changes that the controller has processed
    if and only if every flush and every run of the controller is current. -/
theorem served_includes_processed_iff (cfg : Config κ) (as : List (Act κ)) (w : World κ)
    (h : Lts.run (World.step cfg) World.init as = some w) :
    Lts.Always (World.step cfg) (Sound cfg) World.init as ↔
      Lts.Meets (World.step cfg) (Current cfg) World.init as :=
  Lts.always_iff_meets (fun _ _ _ hinv hstep => hinv.step hstep)
    (fun _ _ _ hinv hsound hstep => sound_step_iff hinv hsound hstep) inv_init sound_init h

end

-- The datastore fixes its snapshot in the call; the change is committed and processed before the
-- call returns.

private def eagerConfig : Config Unit where
  iteratorCacheTTL := 1000
  queryCacheTTL := 1000
  jitterPercentage := 0
  invalidEntityKeys _ := [.objectRelation "document:1" "viewer"]

private def lateGrant : Change := ⟨6, "document:1", "viewer", "user:anne"⟩

private def eagerRead (version : Version) : List (Act Unit) :=
  [.tick 5, .read version (), .fix 0, .tick 1, .commit 0 lateGrant, .tick 1, .invalidate, .tick 1,
    .returned 0, .stop 0, .flush 0 0]

private lemma run_eagerRead :
    (Lts.run (World.step eagerConfig) World.init (eagerRead .v1)).isSome = true := by
  decide

theorem served_includes_processed_eagerRead :
    (Lts.Always (World.step eagerConfig) (Sound eagerConfig) World.init (eagerRead .v1) ↔
      Lts.Meets (World.step eagerConfig) (Current eagerConfig) World.init (eagerRead .v1)) :=
  served_includes_processed_iff eagerConfig (eagerRead .v1) _ (Option.some_get run_eagerRead).symm

/-- In both caches the change, which was the first to be committed, is processed at 7, and then a
    lookup finds the result of a snapshot without any change. -/
theorem eager_read_hides_change :
    (Lts.run (World.step eagerConfig) World.init (eagerRead .v1)).map
      (fun w =>
        (w.processed, (lookup .v1 w.cache w.clock () (eagerConfig.invalidEntityKeys ())).1)) =
        some ([(7, ⟨lateGrant, 0⟩)], some ⟨⟨.v1, 0⟩, 8⟩) ∧
    (Lts.run (World.step eagerConfig) World.init (eagerRead .v2)).map
      (fun w =>
        (w.processed, (lookup .v2 w.cache w.clock () (eagerConfig.invalidEntityKeys ())).1)) =
        some ([(7, ⟨lateGrant, 0⟩)], some ⟨⟨.v2, 0⟩, 8⟩) ∧
    Covers eagerConfig () lateGrant :=
  ⟨by decide, by decide, .objectRelation "document:1" "viewer", List.mem_cons_self,
    List.mem_cons_self⟩

end Snapshots
end OpenFGA.IteratorCache
