/-
  The cache of iterators and its invalidation.

  A cached result is found under the key of its request.  It is not deleted when a tuple changes:
  the cache controller (`internal/cachecontroller`) reads the changelog now and then and sets
  markers, for the whole store or for what a change is about, and a lookup (`findInCache` in
  `pkg/storage/storagewrappers/cached_datastore.go`) discards an entry that is older than a marker
  of its request.

  There is one store.  A key is what it was built from; the entries under it have the type that
  the code asserts.  Times and durations are integers, in nanoseconds; `0` is the zero `time.Time`.
-/

import OpenFGA.Lib.Expiring
import OpenFGA.TupleStrings

namespace OpenFGA.IteratorCache

open OpenFGA.Tuple List

/-! ## The cache -/

/-- `InvalidIteratorByObjectRelationCacheKey` and `InvalidIteratorByUserObjectTypeCacheKey`. -/
inductive EntityKey where
  | objectRelation (object relation : String)
  | userObjectType (user objectType : String)
deriving DecidableEq, Repr

/-- The keys of a store; `κ` are those of the requests. -/
inductive Key (κ : Type) where
  | iterator (key : κ)
  | invalidStore
  | invalid (entity : EntityKey)
  | changelog
deriving DecidableEq, Repr

/-- `TupleIteratorCacheEntry`, with what was read. -/
structure IteratorEntry (ρ : Type) where
  tuples : ρ
  lastModified : Int
deriving DecidableEq, Repr

/-- `ChangelogCacheEntry`. -/
structure ChangelogEntry where
  lastModified : Int
  lastChecked : Int
deriving DecidableEq, Repr

/-- What is stored under a key.  Of an `InvalidEntityCacheEntry` this is its `LastModified`. -/
abbrev Value (κ ρ : Type) : Key κ → Type
  | .iterator _ => IteratorEntry ρ
  | .invalidStore => Int
  | .invalid _ => Int
  | .changelog => ChangelogEntry

abbrev InMemoryCache (κ ρ : Type) := Expiring.Cache (Value κ ρ)

def oneYear : Int := 365 * 24 * 60 * 60 * 1000000000

/-- `math.MaxInt` -/
def maxInt : Int := 2 ^ 63 - 1

section
variable {κ ρ : Type} [DecidableEq κ]

/-- The time for which `Set` keeps an entry. -/
def lifetime (ttl : Int) : Int := if oneYear ≤ ttl then oneYear else ttl

def set (cache : InMemoryCache κ ρ) (now : Int) (k : Key κ) (v : Value κ ρ k) (ttl : Int) :
    InMemoryCache κ ρ :=
  if lifetime ttl < 0 then cache else cache.set now k v (lifetime ttl)

/-- The largest jitter of a TTL. -/
def maxJitter (baseTTL : Int) (jitterPercentage : Nat) : Int :=
  let jitterPercentage := if 100 < jitterPercentage then 100 else jitterPercentage
  let quotient := baseTTL / 100
  let remainder := baseTTL % 100
  quotient * jitterPercentage + remainder * jitterPercentage / 100

/-- `JitteredTTL`, where `random` stands for what `rand` returns. -/
def jitteredTTL (baseTTL : Int) (jitterPercentage random : Nat) : Int :=
  if baseTTL ≤ 0 ∨ jitterPercentage = 0 then baseTTL
  else
    let jitter := random % (maxJitter baseTTL jitterPercentage + 1)
    if maxInt - baseTTL < jitter then maxInt else baseTTL + jitter

/-! ## Lookups -/

/-- A marker is newer than `ts`. -/
def newer (ts : Int) : Option Int → Bool
  | none => false
  | some lastModified => ts < lastModified

def isInvalidAt (cache : InMemoryCache κ ρ) (now ts : Int) (invalidEntityKeys : List EntityKey) :
    Bool :=
  newer ts (cache.get now .invalidStore) ||
    invalidEntityKeys.any fun e => newer ts (cache.get now (.invalid e))

/-- `findInCache`: the entry, and the cache afterwards. -/
def findInCache (cache : InMemoryCache κ ρ) (now : Int) (key : κ)
    (invalidEntityKeys : List EntityKey) : Option (IteratorEntry ρ) × InMemoryCache κ ρ :=
  match cache.get now (.iterator key) with
  | none => (none, cache)
  | some (tupleEntry : IteratorEntry ρ) =>
    if isInvalidAt cache now tupleEntry.lastModified invalidEntityKeys then
      (none, cache.delete (.iterator key))
    else (some tupleEntry, cache)

end

/-! ## The controller -/

/-- `TupleChange`; of the tuple only its key matters here. -/
structure Change where
  timestamp : Int
  object : String
  relation : String
  user : String
deriving DecidableEq, Repr

/-- The markers for a change. -/
def Change.entityKeys (c : Change) : List EntityKey :=
  [.objectRelation c.object c.relation, .userObjectType c.user (getType c.object)]

/-- What a run does, by the `invalidationType` that it reports. -/
inductive Invalidation where
  | none
  | full
  /-- The changes that get markers, the oldest first. -/
  | only (changes : List Change)
deriving DecidableEq, Repr

/-- The decision of `findChangesAndInvalidateIfNecessary`, from the newest changes in descending
    order.  Without any change `ReadChanges` fails, and the run invalidates everything. -/
def invalidation (iteratorCacheTTL : Int) (now lastChangeTimeCached : Int)
    (changes : List Change) : Invalidation :=
  match changes with
  | [] => .full
  | newest :: _ =>
    if ¬ lastChangeTimeCached < newest.timestamp then .none
    else
      let lastIteratorInvalidation := now - iteratorCacheTTL
      -- from the oldest change up to the first one that is recent
      let recent :=
        changes.reverse.dropWhile fun c => !decide (lastIteratorInvalidation < c.timestamp)
      if recent.length = changes.length then .full else .only recent

section
variable {κ ρ : Type} [DecidableEq κ]

def invalidateIteratorCache (cache : InMemoryCache κ ρ) (now : Int) : InMemoryCache κ ρ :=
  set cache now .invalidStore now maxInt

/-- `invalidateIteratorCacheByObjectRelation` and `invalidateIteratorCacheByUserAndObjectType`. -/
def invalidateIteratorCacheBy (cache : InMemoryCache κ ρ) (now : Int) (iteratorCacheTTL : Int)
    (e : EntityKey) : InMemoryCache κ ρ :=
  set cache now (.invalid e) now iteratorCacheTTL

/-- The markers of a run. -/
def Invalidation.apply (cache : InMemoryCache κ ρ) (now : Int) (iteratorCacheTTL : Int) :
    Invalidation → InMemoryCache κ ρ
  | .none => cache
  | .full => invalidateIteratorCache cache now
  | .only changes =>
    (changes.flatMap Change.entityKeys).foldl
      (fun cache e => invalidateIteratorCacheBy cache now iteratorCacheTTL e) cache

/-- The time of the last change that the controller has recorded. -/
def lastChangeTime (cache : InMemoryCache κ ρ) (now : Int) : Int :=
  match cache.get now .changelog with
  | some (e : ChangelogEntry) => e.lastModified
  | none => 0

/-- The run records the newest change. -/
def recordChange (cache : InMemoryCache κ ρ) (now : Int) (queryCacheTTL : Int) :
    List Change → InMemoryCache κ ρ
  | [] => cache
  | newest :: _ => set cache now .changelog ⟨newest.timestamp, now⟩ queryCacheTTL

def findChangesAndInvalidateIfNecessary (cache : InMemoryCache κ ρ) (now : Int)
    (queryCacheTTL iteratorCacheTTL : Int) (changes : List Change) : InMemoryCache κ ρ :=
  (invalidation iteratorCacheTTL now (lastChangeTime cache now) changes).apply
    (recordChange cache now queryCacheTTL changes) now iteratorCacheTTL

end

/-! ## Markers -/

section
variable {κ ρ : Type} {cache : InMemoryCache κ ρ} {now ts : Int} {ttl : Int} {k : Key κ}
  {keys : List EntityKey}

/-- The marker of the store, or of an entity. -/
def marker (cache : InMemoryCache κ ρ) : Option EntityKey → Option (Expiring.Slot Int)
  | none => cache .invalidStore
  | some e => cache (.invalid e)

/-- The markers that a lookup asks for. -/
def scopes (invalidEntityKeys : List EntityKey) : List (Option EntityKey) :=
  none :: invalidEntityKeys.map some

/-- There is a marker that is newer than `ts` and outlives `expiry`. -/
def Guarded (cache : InMemoryCache κ ρ) (keys : List EntityKey) (ts : Int) (expiry : Int) : Prop :=
  ∃ m ∈ scopes keys, ∃ s, marker cache m = some s ∧ ts < s.value ∧ expiry ≤ s.expiry

lemma lifetime_le (ttl : Int) : lifetime ttl ≤ oneYear := by
  unfold lifetime
  split_ifs <;> omega

lemma lifetime_neg_iff : lifetime ttl < 0 ↔ ttl < 0 := by
  have : (0 : Int) < oneYear := by decide
  unfold lifetime
  split_ifs <;> omega

lemma lifetime_pos_iff : 0 < lifetime ttl ↔ 0 < ttl := by
  have : (0 : Int) < oneYear := by decide
  unfold lifetime
  split_ifs <;> omega

lemma lifetime_maxInt : lifetime maxInt = oneYear := rfl

lemma isInvalidAt_iff : isInvalidAt cache now ts keys = true ↔
    ∃ m ∈ scopes keys, ∃ s, marker cache m = some s ∧ now < s.expiry ∧ ts < s.value := by
  have hone : ∀ o : Option (Expiring.Slot Int), newer ts (Expiring.live now o) = true ↔
      ∃ s, o = some s ∧ now < s.expiry ∧ ts < s.value := by
    intro o
    cases o with
    | none => simp [Expiring.live, newer]
    | some s => by_cases h : now < s.expiry <;> simp [Expiring.live, newer, h]
  unfold isInvalidAt scopes
  rw [Bool.or_eq_true, any_eq_true, exists_mem_cons_iff]
  refine or_congr (hone (cache .invalidStore)) ?_
  simp only [mem_map, exists_exists_and_eq_and]
  exact exists_congr fun e => and_congr_right fun _ => hone (cache (.invalid e))

lemma marker_congr {cache'} (hstore : cache' .invalidStore = cache .invalidStore)
    (hentity : ∀ e, cache' (.invalid e) = cache (.invalid e)) : marker cache' = marker cache := by
  funext m
  cases m with
  | none => exact hstore
  | some e => exact hentity e

variable [DecidableEq κ] {key key' : κ} {entry : IteratorEntry ρ} {v : Value κ ρ k} {queryTTL : Int}
  {m : Option EntityKey} {inv : Invalidation}

lemma set_of_neg (h : ttl < 0) : set cache now k v ttl = cache :=
  if_pos (lifetime_neg_iff.mpr h)

lemma set_of_nonneg (h : 0 ≤ ttl) :
    set cache now k v ttl = cache.set now k v (lifetime ttl) :=
  if_neg fun hneg => absurd (lifetime_neg_iff.mp hneg) (by omega)

lemma set_of_ne {k'} (h : k' ≠ k) :
    set cache now k v ttl k' = cache k' := by
  unfold set
  split_ifs
  · rfl
  · exact Expiring.Cache.set_of_ne h

/-- Where an entry comes from after one was stored. -/
lemma set_iterator_eq_some {s}
    (h : set cache now (.iterator key) entry ttl (.iterator key') = some s) :
    cache (.iterator key') = some s ∨
      0 ≤ ttl ∧ key' = key ∧ s = ⟨entry, now + lifetime ttl⟩ := by
  by_cases hkey : key' = key
  · subst hkey
    rcases Int.lt_or_le ttl 0 with hneg | hpos
    · rw [set_of_neg hneg] at h
      exact .inl h
    · rw [set_of_nonneg hpos, Expiring.Cache.set_same] at h
      cases h
      exact .inr ⟨hpos, rfl, rfl⟩
  · rw [set_of_ne fun heq => hkey (Key.iterator.inj heq)] at h
    exact .inl h

lemma delete_iterator_eq_some {s} (h : cache.delete (.iterator key) (.iterator key') = some s) :
    cache (.iterator key') = some s := by
  by_cases hkey : key' = key
  · subst hkey
    rw [Expiring.Cache.delete_same] at h
    cases h
  · rwa [Expiring.Cache.delete_of_ne fun heq => hkey (Key.iterator.inj heq)] at h

lemma findInCache_eq_some : (findInCache cache now key keys).1 = some entry ↔
    ∃ s, cache (.iterator key) = some s ∧ now < s.expiry ∧ s.value = entry ∧
      isInvalidAt cache now entry.lastModified keys = false := by
  unfold findInCache
  cases hget : cache.get now (.iterator key) with
  | none =>
    simp only [reduceCtorEq, false_iff]
    rintro ⟨s, hs, hlt, hv, -⟩
    rw [Expiring.Cache.get_eq_some.mpr ⟨s, hs, hlt, hv⟩] at hget
    cases hget
  | some e =>
    obtain ⟨s, hs, hlt, hv⟩ := Expiring.Cache.get_eq_some.mp hget
    constructor
    · intro h
      by_cases hinv : isInvalidAt cache now e.lastModified keys = true
      · simp [hinv] at h
      · simp only [hinv, Bool.false_eq_true, if_false, Option.some.injEq] at h
        rw [← h]
        exact ⟨s, hs, hlt, hv, by simpa using hinv⟩
    · rintro ⟨s', hs', -, hv', hinv⟩
      rw [hs] at hs'
      cases hs'
      have he : e = entry := hv.symm.trans hv'
      simp only [he, hinv, Bool.false_eq_true, if_false]

lemma findInCache_cache (cache : InMemoryCache κ ρ) (now : Int) (key : κ) (keys : List EntityKey) :
    (findInCache cache now key keys).2 = cache ∨
    (findInCache cache now key keys).2 = cache.delete (.iterator key) := by
  unfold findInCache
  cases cache.get now (.iterator key) with
  | none => exact .inl rfl
  | some e =>
    by_cases hinv : isInvalidAt cache now e.lastModified keys = true
    · exact .inr (by simp only [hinv, if_true])
    · exact .inl (by simp only [hinv, Bool.false_eq_true, if_false])

/-- The changes that a run sets markers for. -/
def Invalidation.changes (page : List Change) : Invalidation → List Change
  | .none => []
  | .full => page
  | .only changes => changes

/-- A run sets this marker. -/
def Invalidation.Sets (ttl : Int) : Invalidation → Option EntityKey → Prop
  | .none, _ => False
  | .full, m => m = Option.none
  | .only changes, m => 0 ≤ ttl ∧ ∃ e ∈ changes.flatMap Change.entityKeys, m = some e

/-- For how long. -/
def Invalidation.lifetime (ttl : Int) : Invalidation → Int
  | .full => oneYear
  | _ => IteratorCache.lifetime ttl

lemma marker_set_iterator {v} :
    marker (set cache now (.iterator key) v ttl) = marker cache :=
  marker_congr (set_of_ne nofun) fun _ => set_of_ne nofun

lemma marker_delete_iterator : marker (cache.delete (.iterator key)) = marker cache :=
  marker_congr (Expiring.Cache.delete_of_ne nofun) fun _ => Expiring.Cache.delete_of_ne nofun

lemma marker_recordChange {changes} :
    marker (recordChange cache now queryTTL changes) = marker cache := by
  cases changes with
  | nil => rfl
  | cons newest changes => exact marker_congr (set_of_ne nofun) fun _ => set_of_ne nofun

lemma recordChange_iterator {changes} :
    recordChange cache now queryTTL changes (.iterator key) = cache (.iterator key) := by
  cases changes with
  | nil => rfl
  | cons newest changes => exact set_of_ne nofun

lemma marker_invalidateIteratorCacheBy {e} :
    marker (invalidateIteratorCacheBy cache now ttl e) m =
      if 0 ≤ ttl ∧ m = some e then some ⟨now, now + IteratorCache.lifetime ttl⟩
        else marker cache m := by
  unfold invalidateIteratorCacheBy
  by_cases httl : 0 ≤ ttl
  · rw [set_of_nonneg httl]
    by_cases hm : m = some e
    · rw [if_pos ⟨httl, hm⟩, hm]
      exact Expiring.Cache.set_same
    · rw [if_neg fun h => hm h.2]
      cases m with
      | none => exact Expiring.Cache.set_of_ne nofun
      | some e' =>
        refine Expiring.Cache.set_of_ne fun h => hm ?_
        rw [(Key.invalid.inj h)]
  · rw [set_of_neg (by omega), if_neg fun h => httl h.1]

lemma marker_foldl (es : List EntityKey) :
    marker (es.foldl (fun cache e => invalidateIteratorCacheBy cache now ttl e) cache) m =
      if 0 ≤ ttl ∧ ∃ e ∈ es, m = some e then some ⟨now, now + IteratorCache.lifetime ttl⟩
      else marker cache m := by
  induction es generalizing cache with
  | nil => simp
  | cons e es ih =>
    rw [foldl_cons, ih, marker_invalidateIteratorCacheBy]
    by_cases httl : 0 ≤ ttl
    · by_cases hes : ∃ e ∈ es, m = some e
      · simp [httl, hes]
      · by_cases hm : m = some e <;> simp [httl, hes, hm]
    · simp [httl]

theorem Invalidation.apply_of_sets (h : inv.Sets ttl m) :
    marker (inv.apply cache now ttl) m = some ⟨now, now + inv.lifetime ttl⟩ := by
  cases inv with
  | none => exact h.elim
  | full =>
    cases h
    show set cache now .invalidStore now maxInt .invalidStore = _
    rw [set_of_nonneg (by decide), lifetime_maxInt]
    exact Expiring.Cache.set_same
  | only changes => exact (marker_foldl _).trans (if_pos h)

theorem Invalidation.apply_of_not_sets
    (h : ¬ inv.Sets ttl m) : marker (inv.apply cache now ttl) m = marker cache m := by
  cases inv with
  | none => rfl
  | full =>
    cases m with
    | none => exact absurd rfl h
    | some e =>
      show set cache now .invalidStore now maxInt (.invalid e) = _
      exact set_of_ne nofun
  | only changes => exact (marker_foldl _).trans (if_neg h)

/-- A run changes nothing but markers. -/
lemma Invalidation.apply_of_ne (hstore : k ≠ .invalidStore) (hentity : ∀ e, k ≠ .invalid e) :
    inv.apply cache now ttl k = cache k := by
  cases inv with
  | none => rfl
  | full =>
    show set cache now .invalidStore now maxInt k = _
    exact set_of_ne hstore
  | only changes =>
    show foldl _ cache (changes.flatMap Change.entityKeys) k = _
    induction changes.flatMap Change.entityKeys generalizing cache with
    | nil => rfl
    | cons e es ih =>
      rw [foldl_cons, ih]
      exact set_of_ne (hentity e)

lemma invalidate_iterator {changes} :
    findChangesAndInvalidateIfNecessary cache now queryTTL ttl changes (.iterator key) =
      cache (.iterator key) :=
  (Invalidation.apply_of_ne (k := .iterator key) nofun nofun).trans recordChange_iterator

lemma invalidate_marker (cache : InMemoryCache κ ρ) (now queryTTL ttl : Int) (changes : List Change)
    (m : Option EntityKey) :
    ((invalidation ttl now (lastChangeTime cache now) changes).Sets ttl m ∧
      marker (findChangesAndInvalidateIfNecessary cache now queryTTL ttl changes) m =
        some ⟨now, now + (invalidation ttl now (lastChangeTime cache now) changes).lifetime ttl⟩) ∨
    (¬ (invalidation ttl now (lastChangeTime cache now) changes).Sets ttl m ∧
      marker (findChangesAndInvalidateIfNecessary cache now queryTTL ttl changes) m =
        marker cache m) := by
  by_cases hsets : (invalidation ttl now (lastChangeTime cache now) changes).Sets ttl m
  · exact .inl ⟨hsets, Invalidation.apply_of_sets hsets⟩
  · refine .inr ⟨hsets, (Invalidation.apply_of_not_sets hsets).trans ?_⟩
    rw [marker_recordChange]

/-- A run sets a marker that a request asks for, for each change that is about one of its keys. -/
lemma Invalidation.exists_sets {page c e}
    (httl : 0 ≤ ttl) (hc : c ∈ inv.changes page) (he : e ∈ keys) (hce : e ∈ c.entityKeys) :
    ∃ m ∈ scopes keys, inv.Sets ttl m := by
  cases inv with
  | none => cases hc
  | full => exact ⟨_, mem_cons_self, rfl⟩
  | only changes =>
    exact ⟨some e, mem_cons_of_mem _ (mem_map.mpr ⟨e, he, rfl⟩), httl, e,
      mem_flatMap.mpr ⟨c, hc, hce⟩, rfl⟩

end

end OpenFGA.IteratorCache
