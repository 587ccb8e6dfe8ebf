/-
  How long markers and iterator entries live.

  An iterator entry is stored for `JitteredTTL`, which is up to twice the base TTL, at a time
  that may be long after its `LastModified`; a marker for an entity is set for the base TTL.  A
  stale entry is never served as long as each one expires with or before a marker that is newer than
  it.
-/

import OpenFGA.Lib.Run
import OpenFGA.Cache.Invalidation

namespace OpenFGA.IteratorCache
variable {baseTTL : Int}

/-- `cachedIterator`: a request that has missed the cache. -/
structure Reader (κ : Type) where
  key : κ
  initializedAt : Int
  /-- `Stop` was called, and what is left is read in the background. -/
  draining : Bool
deriving DecidableEq, Repr

/-- A committed change. -/
structure Logged where
  change : Change
  /-- It was there when the controller ran. -/
  seen : Bool
deriving DecidableEq, Repr

structure Config (κ : Type) where
  /-- The TTL of iterator entries and of the markers of entities. -/
  iteratorCacheTTL : Int
  queryCacheTTL : Int
  jitterPercentage : Nat
  /-- The `invalidEntityKeys` of a request. -/
  invalidEntityKeys : κ → List EntityKey

structure World (κ ρ : Type) where
  clock : Int
  /-- The changelog by descending ULID. -/
  changelog : List Logged
  readers : List (Reader κ)
  cache : InMemoryCache κ ρ
  /-- The changes for which the controller has set markers, and when. -/
  processed : List (Int × Change)

inductive Act (κ ρ : Type) where
  /-- Time passes. -/
  | tick (d : Nat)
  /-- A change becomes visible at position `n` of the changelog. -/
  | commit (n : Nat) (c : Change)
  /-- A request looks its key up, and reads from the datastore if nothing is found. -/
  | read (key : κ)
  /-- `Stop` of reader `i`. -/
  | stop (i : Nat)
  /-- `flush` of reader `i`. -/
  | flush (i : Nat) (tuples : ρ) (random : Nat)
  /-- Reader `i` ends without a result that can be stored. -/
  | discard (i : Nat)
  /-- A run of the controller. -/
  | invalidate
deriving DecidableEq, Repr

def defaultPageSize : Nat := 50

section
variable {κ ρ : Type} [DecidableEq κ] (cfg : Config κ)

namespace World

def init : World κ ρ := ⟨0, [], [], Expiring.Cache.empty, []⟩

def findChangesDescending (w : World κ ρ) : List Change :=
  (w.changelog.take defaultPageSize).map Logged.change

/-- What a run of the controller decides. -/
def nextInvalidation (w : World κ ρ) : Invalidation :=
  invalidation cfg.iteratorCacheTTL w.clock (lastChangeTime w.cache w.clock) w.findChangesDescending

/-- The changes for which a run of the controller sets markers. -/
def nextProcessed (w : World κ ρ) : List Change :=
  (w.nextInvalidation cfg).changes w.findChangesDescending

/-- For how long `flush` stores an entry. -/
def flushLifetime (random : Nat) : Int :=
  lifetime (jitteredTTL cfg.iteratorCacheTTL cfg.jitterPercentage random)

def step (w : World κ ρ) : Act κ ρ → Option (World κ ρ)
  | .tick d => some { w with clock := w.clock + d }
  | .commit n c =>
    if n ≤ w.changelog.length then
      some { w with changelog := w.changelog.insertIdx n ⟨c, false⟩ }
    else none
  | .read key =>
    let found := findInCache w.cache w.clock key (cfg.invalidEntityKeys key)
    if found.1.isSome then some { w with cache := found.2 }
    else some { w with cache := found.2, readers := w.readers ++ [⟨key, w.clock, false⟩] }
  | .stop i =>
    match w.readers[i]? with
    | none => none
    | some r =>
      if r.draining then none
      else
        let found := findInCache w.cache w.clock r.key (cfg.invalidEntityKeys r.key)
        if found.1.isSome ∨ isInvalidAt found.2 w.clock r.initializedAt
            (cfg.invalidEntityKeys r.key) then
          some { w with cache := found.2, readers := w.readers.eraseIdx i }
        else
          some { w with cache := found.2, readers := w.readers.set i { r with draining := true } }
  | .flush i tuples random =>
    match w.readers[i]? with
    | none => none
    | some r =>
      if r.draining then
        some { w with
          cache := set w.cache w.clock (.iterator r.key) ⟨tuples, r.initializedAt⟩
            (jitteredTTL cfg.iteratorCacheTTL cfg.jitterPercentage random)
          readers := w.readers.eraseIdx i }
      else none
  | .discard i =>
    if i < w.readers.length then some { w with readers := w.readers.eraseIdx i } else none
  | .invalidate =>
    some { w with
      changelog := w.changelog.map fun l => { l with seen := true }
      cache := findChangesAndInvalidateIfNecessary w.cache w.clock cfg.queryCacheTTL
        cfg.iteratorCacheTTL w.findChangesDescending
      processed := w.processed ++ (w.nextProcessed cfg).map fun c => (w.clock, c) }

end World

/-- The request reads tuples that the change is about. -/
def Covers (key : κ) (c : Change) : Prop := ∃ e ∈ cfg.invalidEntityKeys key, e ∈ c.entityKeys

/-- An entry of this time is older than a run that has processed a change it covers. -/
def Stale (w : World κ ρ) (key : κ) (lastModified : Int) : Prop :=
  ∃ p ∈ w.processed, Covers cfg key p.2 ∧ lastModified < p.1

/-- Now and later, as long as nothing else happens, no lookup finds a stale entry. -/
def Fresh (w : World κ ρ) : Prop :=
  ∀ (n : Nat) (key : κ) (entry : IteratorEntry ρ),
    (findInCache w.cache (w.clock + n) key (cfg.invalidEntityKeys key)).1 = some entry →
      ¬ Stale cfg w key entry.lastModified

/-- What a flush stores expires with or before a newer marker, if it is stale; and what a run makes
    stale expires with or before the new markers, or an earlier one that is newer than it. -/
def Timely (w : World κ ρ) : Act κ ρ → Prop
  | .flush i _ random => ∀ r, w.readers[i]? = some r → 0 < World.flushLifetime cfg random →
      Stale cfg w r.key r.initializedAt →
        Guarded w.cache (cfg.invalidEntityKeys r.key) r.initializedAt
          (w.clock + World.flushLifetime cfg random)
  | .invalidate => ∀ key s, w.cache (.iterator key) = some s → w.clock < s.expiry →
      s.value.lastModified < w.clock → (∃ c ∈ w.nextProcessed cfg, Covers cfg key c) →
        s.expiry ≤ w.clock + (w.nextInvalidation cfg).lifetime cfg.iteratorCacheTTL ∨
          Guarded w.cache (cfg.invalidEntityKeys key) s.value.lastModified s.expiry
  | _ => True

end

/-! ## The lifetime of an entry -/

lemma jitteredTTL_of_nonpos (h : baseTTL ≤ 0) (jitterPercentage random : Nat) :
    jitteredTTL baseTTL jitterPercentage random = baseTTL := if_pos (.inl h)

lemma maxJitter_nonneg (h : 0 < baseTTL) (jitterPercentage : Nat) :
    0 ≤ maxJitter baseTTL jitterPercentage := by
  have hquotient : 0 ≤ baseTTL / 100 := by omega
  have hremainder : 0 ≤ baseTTL % 100 := by omega
  refine Int.add_nonneg (Int.mul_nonneg hquotient (Int.natCast_nonneg _)) ?_
  exact Int.ediv_nonneg (Int.mul_nonneg hremainder (Int.natCast_nonneg _)) (by decide)

lemma jitteredTTL_pos (h : 0 < baseTTL) (jitterPercentage random : Nat) :
    0 < jitteredTTL baseTTL jitterPercentage random := by
  have hmax : (0 : Int) < maxInt := by decide
  have hjitter : 0 ≤ (random : Int) % (maxJitter baseTTL jitterPercentage + 1) :=
    Int.emod_nonneg _ (by have := maxJitter_nonneg h jitterPercentage; omega)
  simp only [jitteredTTL]
  split_ifs
  · exact h
  · exact hmax
  · omega

lemma jitteredTTL_sign (jitterPercentage random : Nat) :
    (0 ≤ jitteredTTL baseTTL jitterPercentage random ↔ 0 ≤ baseTTL) ∧
      (0 < jitteredTTL baseTTL jitterPercentage random ↔ 0 < baseTTL) := by
  rcases Int.lt_or_le 0 baseTTL with h | h
  · have hpos := jitteredTTL_pos h jitterPercentage random
    omega
  · rw [jitteredTTL_of_nonpos h]
    exact ⟨Iff.rfl, Iff.rfl⟩

section
variable {κ ρ : Type} {cfg : Config κ} {w w' : World κ ρ}

/-- Time passes and entries are deleted, but nothing else happens to the cache. -/
structure Shrinks (w w' : World κ ρ) : Prop where
  clock : w.clock ≤ w'.clock
  processed : w'.processed = w.processed
  markers : marker w'.cache = marker w.cache
  iterators : ∀ key s, w'.cache (.iterator key) = some s → w.cache (.iterator key) = some s

/-- Nothing is stored with a negative TTL.  A marker is not from the future, and lives for
    its TTL at most. -/
structure Inv (cfg : Config κ) (w : World κ ρ) : Prop where
  iterators : ∀ key s, w.cache (.iterator key) = some s → 0 ≤ cfg.iteratorCacheTTL
  markers : ∀ m s, marker w.cache m = some s → s.value ≤ w.clock ∧
    s.expiry ≤ w.clock + if m = none then oneYear else lifetime cfg.iteratorCacheTTL

lemma Shrinks.inv (h : Shrinks w w') (hinv : Inv cfg w) : Inv cfg w' := by
  have hclock := h.clock
  constructor
  · exact fun key s hs => hinv.iterators key s (h.iterators key s hs)
  · intro m s hs
    rw [h.markers] at hs
    obtain ⟨hvalue, hexpiry⟩ := hinv.markers m s hs
    exact ⟨by omega, by omega⟩

end

section
variable {κ ρ : Type} [DecidableEq κ] {cfg : Config κ} {w w' : World κ ρ} {a : Act κ ρ}

/-- Freshness in terms of what is stored: it is enough to look at the last moment of an entry. -/
lemma fresh_iff : Fresh cfg w ↔ ∀ key s, w.cache (.iterator key) = some s → w.clock < s.expiry →
    Stale cfg w key s.value.lastModified →
      Guarded w.cache (cfg.invalidEntityKeys key) s.value.lastModified s.expiry := by
  constructor
  · intro h key s hs halive hstale
    have hlast : w.clock + (s.expiry - 1 - w.clock).toNat = s.expiry - 1 := by omega
    by_contra hnot
    refine h (s.expiry - 1 - w.clock).toNat key s.value ?_ hstale
    rw [hlast, findInCache_eq_some]
    refine ⟨s, hs, by omega, rfl, ?_⟩
    rw [Bool.eq_false_iff]
    intro hinv
    obtain ⟨m, hm, s', hs', halive', hnewer⟩ := isInvalidAt_iff.mp hinv
    exact hnot ⟨m, hm, s', hs', hnewer, by omega⟩
  · intro h n key entry hfound hstale
    obtain ⟨s, hs, halive, rfl, hinv⟩ := findInCache_eq_some.mp hfound
    obtain ⟨m, hm, s', hs', hnewer, hexpiry⟩ := h key s hs (by omega) hstale
    rw [Bool.eq_false_iff] at hinv
    exact hinv (isInvalidAt_iff.mpr ⟨m, hm, s', hs', by omega, hnewer⟩)

theorem Shrinks.fresh (h : Shrinks w w') (hfresh : Fresh cfg w) : Fresh cfg w' := by
  rw [fresh_iff] at hfresh ⊢
  intro key s hs halive hstale
  have hclock := h.clock
  unfold Stale at hstale
  rw [h.processed] at hstale
  unfold Guarded
  rw [h.markers]
  exact hfresh key s (h.iterators key s hs) (by omega) hstale

lemma Shrinks.find (key : κ) (keys : List EntityKey) (readers : List (Reader κ)) :
    Shrinks w { w with cache := (findInCache w.cache w.clock key keys).2, readers := readers } := by
  rcases findInCache_cache w.cache w.clock key keys with h | h
  · rw [h]
    exact ⟨Int.le_refl _, rfl, rfl, fun _ _ => id⟩
  · rw [h]
    exact ⟨Int.le_refl _, rfl, marker_delete_iterator, fun _ _ => delete_iterator_eq_some⟩

lemma World.step_cases (h : step cfg w a = some w') :
    (Shrinks w w' ∧ Timely cfg w a) ∨
    (∃ i tuples random r, a = .flush i tuples random ∧ w.readers[i]? = some r ∧
      w'.clock = w.clock ∧ w'.processed = w.processed ∧
      w'.cache = set w.cache w.clock (.iterator r.key) ⟨tuples, r.initializedAt⟩
        (jitteredTTL cfg.iteratorCacheTTL cfg.jitterPercentage random)) ∨
    (a = .invalidate ∧ w'.clock = w.clock ∧
      w'.processed = w.processed ++ (w.nextProcessed cfg).map (fun c => (w.clock, c)) ∧
      w'.cache = findChangesAndInvalidateIfNecessary w.cache w.clock cfg.queryCacheTTL
        cfg.iteratorCacheTTL w.findChangesDescending) := by
  cases a <;> simp only [step] at h
  case tick d =>
    cases h
    exact .inl ⟨⟨by simp only; omega, rfl, rfl, fun _ _ => id⟩, trivial⟩
  case commit n c | discard i =>
    split_ifs at h
    cases h
    exact .inl ⟨⟨Int.le_refl _, rfl, rfl, fun _ _ => id⟩, trivial⟩
  case read key =>
    split_ifs at h <;> cases h
    · exact .inl ⟨Shrinks.find _ _ _, trivial⟩
    · exact .inl ⟨Shrinks.find _ _ _, trivial⟩
  case stop i =>
    split at h
    · cases h
    next r hr =>
      split_ifs at h <;> cases h
      · exact .inl ⟨Shrinks.find _ _ _, trivial⟩
      · exact .inl ⟨Shrinks.find _ _ _, trivial⟩
  case flush i tuples random =>
    split at h
    · cases h
    next r hr =>
      split_ifs at h
      cases h
      exact .inr (.inl ⟨i, tuples, random, r, rfl, hr, rfl, rfl, rfl⟩)
  case invalidate =>
    cases h
    exact .inr (.inr ⟨rfl, rfl, rfl, rfl⟩)

/-! ## A flush -/

section
variable {r : Reader κ} {tuples : ρ} {random : Nat}

lemma flush_iterator {key s} (hs : set w.cache w.clock (.iterator r.key) ⟨tuples, r.initializedAt⟩
      (jitteredTTL cfg.iteratorCacheTTL cfg.jitterPercentage random) (.iterator key) = some s) :
    w.cache (.iterator key) = some s ∨
      (0 ≤ cfg.iteratorCacheTTL ∧ key = r.key ∧ s.value.lastModified = r.initializedAt ∧
        s.expiry = w.clock + World.flushLifetime cfg random) := by
  rcases set_iterator_eq_some hs with hold | ⟨hpos, hkey, rfl⟩
  · exact .inl hold
  · exact .inr ⟨(jitteredTTL_sign _ _).1.mp hpos, hkey, rfl, rfl⟩

lemma fresh_flush_iff (hfresh : Fresh cfg w) (hclock : w'.clock = w.clock)
    (hprocessed : w'.processed = w.processed)
    (hcache : w'.cache = set w.cache w.clock (.iterator r.key) ⟨tuples, r.initializedAt⟩
      (jitteredTTL cfg.iteratorCacheTTL cfg.jitterPercentage random)) :
    Fresh cfg w' ↔ (0 < World.flushLifetime cfg random → Stale cfg w r.key r.initializedAt →
      Guarded w.cache (cfg.invalidEntityKeys r.key) r.initializedAt
        (w.clock + World.flushLifetime cfg random)) := by
  have hstale : ∀ key ts, Stale cfg w' key ts ↔ Stale cfg w key ts := by
    intro key ts
    rw [Stale, Stale, hprocessed]
  have hguarded : ∀ keys ts expiry, Guarded w'.cache keys ts expiry ↔
      Guarded w.cache keys ts expiry := by
    intro keys ts expiry
    rw [Guarded, Guarded, hcache, marker_set_iterator]
  rw [fresh_iff] at hfresh ⊢
  simp only [hstale, hguarded, hclock]
  simp only [hcache]
  constructor
  · intro h hpos
    have hjittered : 0 ≤ jitteredTTL cfg.iteratorCacheTTL cfg.jitterPercentage random :=
      Int.le_of_lt (lifetime_pos_iff.mp hpos)
    have hslot := h r.key ⟨⟨tuples, r.initializedAt⟩, w.clock + World.flushLifetime cfg random⟩
    rw [set_of_nonneg hjittered] at hslot
    exact hslot Expiring.Cache.set_same (by simp only; omega)
  · intro h key s hs halive
    rcases flush_iterator hs with hold | ⟨-, rfl, hmodified, hexpiry⟩
    · exact hfresh key s hold halive
    · rw [hmodified, hexpiry]
      exact h (by omega)

end

/-! ## A run of the controller -/

/-- The new markers live as long as a marker can. -/
lemma lifetime_of_sets {inv : Invalidation} {ttl m} (h : inv.Sets ttl m) :
    inv.lifetime ttl = if m = none then oneYear else IteratorCache.lifetime ttl := by
  cases inv with
  | none => exact h.elim
  | full =>
    cases h
    rfl
  | only changes =>
    obtain ⟨-, e, -, rfl⟩ := h
    rfl

lemma fresh_invalidate_iff (hinv : Inv cfg w) (hfresh : Fresh cfg w) (hclock : w'.clock = w.clock)
    (hprocessed : w'.processed = w.processed ++ (w.nextProcessed cfg).map (fun c => (w.clock, c)))
    (hcache : w'.cache = findChangesAndInvalidateIfNecessary w.cache w.clock cfg.queryCacheTTL
      cfg.iteratorCacheTTL w.findChangesDescending) :
    Fresh cfg w' ↔ Timely cfg w .invalidate := by
  have hmarker := invalidate_marker w.cache w.clock cfg.queryCacheTTL cfg.iteratorCacheTTL
    w.findChangesDescending
  rw [← hcache] at hmarker
  -- an earlier marker is replaced by one that is newer and lives longer
  have hkeep : ∀ {keys ts expiry}, Guarded w.cache keys ts expiry →
      Guarded w'.cache keys ts expiry := by
    rintro keys ts expiry ⟨m, hm, s, hs, hnewer, hexpiry⟩
    rcases hmarker m with ⟨hsets, hnew⟩ | ⟨-, hsame⟩
    · obtain ⟨hvalue, hbound⟩ := hinv.markers m s hs
      refine ⟨m, hm, _, hnew, by simp only; omega, ?_⟩
      rw [lifetime_of_sets hsets]
      simp only
      omega
    · exact ⟨m, hm, s, hsame.trans hs, hnewer, hexpiry⟩
  rw [fresh_iff] at hfresh ⊢
  simp only [hclock, hcache, invalidate_iterator]
  rw [← hcache]
  constructor
  · rintro h key s hs halive hbefore ⟨c, hc, hcovers⟩
    have hstale : Stale cfg w' key s.value.lastModified := by
      refine ⟨(w.clock, c), ?_, hcovers, hbefore⟩
      rw [hprocessed]
      exact List.mem_append_right _ (List.mem_map.mpr ⟨c, hc, rfl⟩)
    obtain ⟨m, hm, s', hs', hnewer, hexpiry⟩ := h key s hs halive hstale
    rcases hmarker m with ⟨-, hnew⟩ | ⟨-, hsame⟩
    · rw [hnew] at hs'
      cases hs'
      exact .inl hexpiry
    · exact .inr ⟨m, hm, s', hsame.symm.trans hs', hnewer, hexpiry⟩
  · rintro h key s hs halive ⟨p, hp, hcovers, hbefore⟩
    rw [hprocessed] at hp
    rcases List.mem_append.mp hp with hp | hp
    · exact hkeep (hfresh key s hs halive ⟨p, hp, hcovers, hbefore⟩)
    · obtain ⟨c, hc, rfl⟩ := List.mem_map.mp hp
      rcases h key s hs halive hbefore ⟨c, hc, hcovers⟩ with hexpiry | hguarded
      · obtain ⟨e, he, hce⟩ := hcovers
        obtain ⟨m, hm, hsets⟩ := Invalidation.exists_sets (hinv.iterators key s hs) hc he hce
        rcases hmarker m with ⟨-, hnew⟩ | ⟨hnot, -⟩
        · exact ⟨m, hm, _, hnew, hbefore, hexpiry⟩
        · exact absurd hsets hnot
      · exact hkeep hguarded

/-! ## Whole runs -/

omit [DecidableEq κ] in
lemma inv_init : Inv cfg (World.init : World κ ρ) := by
  constructor
  · intro key s hs
    cases hs
  · intro m s hs
    cases m <;> cases hs

theorem Inv.step (hinv : Inv cfg w) (h : World.step cfg w a = some w') : Inv cfg w' := by
  rcases World.step_cases h with ⟨hshrinks, -⟩ | ⟨i, tuples, random, r, -, -, hclock, -, hcache⟩ |
    ⟨-, hclock, -, hcache⟩
  · exact hshrinks.inv hinv
  · constructor
    · intro key s hs
      rw [hcache] at hs
      rcases flush_iterator hs with hold | ⟨httl, -⟩
      · exact hinv.iterators key s hold
      · exact httl
    · intro m s hs
      rw [hcache, marker_set_iterator] at hs
      rw [hclock]
      exact hinv.markers m s hs
  · constructor
    · intro key s hs
      rw [hcache, invalidate_iterator] at hs
      exact hinv.iterators key s hs
    · intro m s hs
      rw [hcache] at hs
      rw [hclock]
      rcases invalidate_marker w.cache w.clock cfg.queryCacheTTL cfg.iteratorCacheTTL
        w.findChangesDescending m with ⟨hsets, hnew⟩ | ⟨-, hsame⟩
      · rw [hnew] at hs
        cases hs
        rw [lifetime_of_sets hsets]
        exact ⟨Int.le_refl _, Int.le_refl _⟩
      · exact hinv.markers m s (hsame.symm.trans hs)

lemma fresh_init : Fresh cfg (World.init : World κ ρ) := by
  rw [fresh_iff]
  intro key s hs
  cases hs

lemma fresh_step_iff (hinv : Inv cfg w) (hfresh : Fresh cfg w)
    (h : World.step cfg w a = some w') : Fresh cfg w' ↔ Timely cfg w a := by
  rcases World.step_cases h with ⟨hshrinks, htimely⟩ |
    ⟨i, tuples, random, r, rfl, hr, hclock, hprocessed, hcache⟩ | ⟨rfl, hclock, hprocessed, hcache⟩
  · exact ⟨fun _ => htimely, fun _ => hshrinks.fresh hfresh⟩
  · rw [fresh_flush_iff hfresh hclock hprocessed hcache]
    constructor
    · intro hr' r' hr''
      rw [hr] at hr''
      cases hr''
      exact hr'
    · exact fun h => h r hr
  · exact fresh_invalidate_iff hinv hfresh hclock hprocessed hcache

/-- No run of the controller since the start of a read has processed a change that the read covers
    when its result is stored. -/
def OnTime (cfg : Config κ) (w : World κ ρ) : Act κ ρ → Prop
  | .flush i _ _ => ∀ r, w.readers[i]? = some r → ¬ Stale cfg w r.key r.initializedAt
  | _ => True

/-- Without jitter an entry lives no longer than a marker that is set now. -/
lemma expiry_le_step (hjitter : cfg.jitterPercentage = 0)
    (h : ∀ key s, w.cache (.iterator key) = some s →
      s.expiry ≤ w.clock + lifetime cfg.iteratorCacheTTL)
    (hstep : World.step cfg w a = some w') : ∀ key s, w'.cache (.iterator key) = some s →
      s.expiry ≤ w'.clock + lifetime cfg.iteratorCacheTTL := by
  intro key s hs
  rcases World.step_cases hstep with ⟨hshrinks, -⟩ |
    ⟨i, tuples, random, r, -, -, hclock, -, hcache⟩ |
    ⟨-, hclock, -, hcache⟩
  · have hold := h key s (hshrinks.iterators key s hs)
    have hclock := hshrinks.clock
    omega
  · rw [hcache] at hs
    rw [hclock]
    rcases flush_iterator hs with hold | ⟨-, -, -, hexpiry⟩
    · exact h key s hold
    · rw [hexpiry, World.flushLifetime, jitteredTTL, if_pos (.inr hjitter)]
  · rw [hcache, invalidate_iterator] at hs
    rw [hclock]
    exact h key s hs

/-- Without jitter, and if results are stored on time, no stale entry is ever served. -/
theorem always_fresh_of_no_jitter (hjitter : cfg.jitterPercentage = 0) {as}
    (hrun : Lts.run (World.step cfg) World.init as = some w)
    (hontime : Lts.Meets (World.step cfg) (OnTime cfg) World.init as) :
    Lts.Always (World.step cfg) (Fresh cfg) World.init as := by
  refine (Lts.always_iff_meets (fun _ _ _ hinv hstep => Inv.step hinv hstep)
    (fun _ _ _ hinv hfresh hstep => fresh_step_iff hinv hfresh hstep) inv_init fresh_init
      hrun).mpr ?_
  refine Lts.Meets.mono_within (fun _ _ _ h _ hstep => expiry_le_step hjitter h hstep) ?_
    (fun key s hs => by cases hs) hontime
  intro w a hexpiry hontime
  cases a with
  | flush i tuples random => exact fun r hr _ hstale => absurd hstale (hontime r hr)
  | invalidate =>
    intro key s hs _ _ ⟨c, hc, _⟩
    have hle := hexpiry key s hs
    have hyear := lifetime_le cfg.iteratorCacheTTL
    refine .inl ?_
    cases hnext : w.nextInvalidation cfg with
    | none =>
      rw [World.nextProcessed, hnext] at hc
      cases hc
    | full =>
      show s.expiry ≤ w.clock + oneYear
      omega
    | only changes => exact hle
  | _ => trivial

theorem always_fresh_stored :
    let cfg : Config Unit := ⟨10, 10, 0, fun _ => [.objectRelation "document:1" "viewer"]⟩
    Lts.Always (World.step cfg) (Fresh cfg) World.init [.read (), .stop 0, .flush 0 () 0] := by
  refine always_fresh_of_no_jitter rfl rfl
    ⟨trivial, fun _ h => ⟨trivial, fun _ h' => ⟨?_, by simp [Lts.Meets]⟩⟩⟩
  cases h
  cases h'
  rintro _ _ ⟨_, hp, _⟩
  cases hp

/-- In every state of a run no stale entry is served, then or later, if and only if every flush
    and every run of the controller is timely. -/
theorem markers_outlive_iff (cfg : Config κ) (as : List (Act κ ρ)) (w : World κ ρ)
    (h : Lts.run (World.step cfg) World.init as = some w) :
    Lts.Always (World.step cfg) (Fresh cfg) World.init as ↔
      Lts.Meets (World.step cfg) (Timely cfg) World.init as :=
  Lts.always_iff_meets (fun _ _ _ hinv hstep => hinv.step hstep)
    (fun _ _ _ hinv hfresh hstep => fresh_step_iff hinv hfresh hstep) inv_init fresh_init h

end

-- An entry is stored with the largest jitter, one moment before a run of the controller.

private def jittered : Config Unit where
  iteratorCacheTTL := 10
  queryCacheTTL := 10
  jitterPercentage := 100
  invalidEntityKeys _ := [.objectRelation "document:1" "viewer"]

private def grantViewer : Change := ⟨101, "document:1", "viewer", "user:anne"⟩

private def storeThenChange : List (Act Unit Unit) :=
  [.tick 1, .commit 0 ⟨1, "document:0", "viewer", "user:bob"⟩, .tick 99, .read (), .stop 0,
    .flush 0 () 10, .tick 1, .commit 0 grantViewer, .invalidate]

private lemma run_storeThenChange :
    (Lts.run (World.step jittered) World.init storeThenChange).isSome = true := by
  decide

theorem markers_outlive_storeThenChange :
    (Lts.Always (World.step jittered) (Fresh jittered) World.init storeThenChange ↔
      Lts.Meets (World.step jittered) (Timely jittered) World.init storeThenChange) :=
  markers_outlive_iff jittered storeThenChange _ (Option.some_get run_storeThenChange).symm

/-- The controller has processed the change at 101; the entry of time 100 is discarded at 110,
    and served at 111, when the marker is gone. -/
theorem entry_outlives_marker :
    (Lts.run (World.step jittered) World.init storeThenChange).map
      (fun w => (w.processed, (findInCache w.cache 110 () (jittered.invalidEntityKeys ())).1,
        (findInCache w.cache 111 () (jittered.invalidEntityKeys ())).1)) =
      some ([(101, grantViewer)], none, some ⟨(), 100⟩) ∧
    Covers jittered () grantViewer :=
  ⟨by decide, .objectRelation "document:1" "viewer", List.mem_cons_self, List.mem_cons_self⟩

end OpenFGA.IteratorCache
