/-
  Who may be served a cached check result, and from what it was computed.

  Four parties share the cache: writers that commit changes, the cache controller
  (`internal/cachecontroller`) that publishes the timestamp of the newest change,
  checks that read tuples and store their result, and checks that look a result
  up (`isCached` in `internal/check`, `CachedCheckResolver` in `internal/graph`).
  An entry is served when its `LastModified` is after the invalidation time `T`
  of the request, so it should rest only on reads made after every change
  stamped at most `T`.

  `LastModified` is the time of the store and not of the reads.  A change that is
  committed between the two is older than the entry although the entry has not
  seen it: this is the step `overtaken`, and runs without it serve fresh entries
  only (`served_entry_reads_after_changes`).
-/

import OpenFGA.Lib.Run
import OpenFGA.Tuple

namespace OpenFGA.Cache
open List Option

/-- A point in time; `0` is the zero `time.Time`. -/
abbrev Time := Nat

/-- `ResponseCacheEntry` and `CheckResponseCacheEntry`. -/
structure Entry where
  lastModified : Time
  allowed : Bool
  /-- For each read the result rests on, how many changes were committed when it
      was made.  The code does not store this. -/
  reads : List Nat
deriving DecidableEq, Repr

/-- The two resolvers that use the cache. -/
inductive Api where
  | localChecker
  | resolver
deriving DecidableEq, Repr

/-- The evaluation of one cacheable problem. -/
structure Check (κ : Type) where
  api : Api
  key : κ
  consistency : Consistency
  lastCacheInvalidationTime : Time
  /-- As in `Entry`, for the reads made so far. -/
  reads : List Nat
deriving DecidableEq, Repr

structure World (κ : Type) where
  clock : Time
  /-- The timestamps of the committed changes, in the order of the commits. -/
  changes : List Time
  /-- The newest timestamp the controller has found and not published yet. -/
  found : Option Time
  /-- `LastModified` of the store's `ChangelogCacheEntry`. -/
  changelogEntry : Option Time
  checks : List (Check κ)
  cache : List (κ × Entry)
deriving Repr

section
variable {κ : Type} [DecidableEq κ]

def isCached (consistency : Consistency) (cache : List (κ × Entry)) (key : κ)
    (lastCacheInvalidationTime : Time) : Option Entry :=
  if consistency = .higherConsistency then none
  else
    match cache.lookup key with
    | none => none
    | some res => if ¬ lastCacheInvalidationTime < res.lastModified then none else some res

/-- The lookup in `CachedCheckResolver.ResolveCheck`. -/
def cachedCheckResolverGet (consistency : Consistency) (cache : List (κ × Entry)) (key : κ)
    (lastCacheInvalidationTime : Time) : Option Entry :=
  let tryCache := decide (consistency ≠ .higherConsistency)
  if tryCache then
    match cache.lookup key with
    | some res =>
      let isValid := decide (lastCacheInvalidationTime < res.lastModified)
      if isValid then some res else none
    | none => none
  else none

namespace World

def determineInvalidationTime (w : World κ) : Time := w.changelogEntry.getD 0

/-- What check `c` gets when it looks `key` up. -/
def served (w : World κ) (c : Check κ) (key : κ) : Option Entry :=
  match c.api with
  | .resolver => isCached c.consistency w.cache key c.lastCacheInvalidationTime
  | .localChecker =>
    cachedCheckResolverGet c.consistency w.cache key c.lastCacheInvalidationTime

/-- Check `i` rests on further reads. -/
def addReads (w : World κ) (i : Nat) (c : Check κ) (reads : List Nat) : World κ :=
  { w with checks := w.checks.set i { c with reads := reads ++ c.reads } }

end World

inductive Act (κ : Type) where
  /-- Time passes. -/
  | tick (d : Nat)
  /-- A write commits a change that was stamped `ts`, now or earlier. -/
  | write (ts : Time)
  /-- `findChangesDescending`: the controller reads the newest change. -/
  | findChanges
  /-- The controller sets the `ChangelogCacheEntry`. -/
  | publish
  /-- The `ChangelogCacheEntry` reaches its TTL. -/
  | expire
  /-- A request arrives and determines its invalidation time. -/
  | begin (api : Api) (key : κ) (consistency : Consistency)
  /-- Check `i` evaluates a subproblem within its request. -/
  | dispatch (i : Nat) (key : κ)
  /-- Check `i` reads tuples. -/
  | read (i : Nat)
  /-- Check `i` uses a cached result. -/
  | hit (i : Nat) (key : κ)
  /-- Check `i` uses the result of check `j`, a subproblem of the same request. -/
  | join (i j : Nat)
  /-- Check `i` stores its result. -/
  | store (i : Nat) (allowed cycleDetected : Bool)
  /-- An entry reaches its TTL, or the cache makes room. -/
  | evict (key : κ)
deriving DecidableEq, Repr

namespace World

def step (w : World κ) : Act κ → Option (World κ)
  | .tick d => some { w with clock := w.clock + d }
  | .write ts =>
    if 0 < ts ∧ ts ≤ w.clock then some { w with changes := w.changes ++ [ts] } else none
  | .findChanges =>
    -- `ReadChanges` of a store without changes is an error, and nothing is published
    if w.changes = [] then none else some { w with found := some (w.changes.foldr max 0) }
  | .publish => w.found.map fun ts => { w with found := none, changelogEntry := some ts }
  | .expire => some { w with changelogEntry := none }
  | .begin api key consistency =>
    some { w with checks := w.checks ++
      [⟨api, key, consistency, w.determineInvalidationTime, []⟩] }
  | .dispatch i key => w.checks[i]?.map fun c =>
    { w with checks := w.checks ++ [{ c with key, reads := [] }] }
  | .read i => w.checks[i]?.map fun c => w.addReads i c [w.changes.length]
  | .hit i key => do
      let c ← w.checks[i]?
      let e ← w.served c key
      return w.addReads i c e.reads
  | .join i j => do
      let c ← w.checks[i]?
      let d ← w.checks[j]?
      if d.api = c.api ∧ d.lastCacheInvalidationTime = c.lastCacheInvalidationTime then
        return w.addReads i c d.reads
      else none
  | .store i allowed cycleDetected => w.checks[i]?.map fun c =>
    -- `CachedCheckResolver` does not save a result that met a cycle
    if c.api = .localChecker ∧ cycleDetected then w
    else { w with cache := (c.key, ⟨w.clock, allowed, c.reads⟩) ::
             w.cache.filter fun p => p.1 ≠ c.key }
  | .evict key => some { w with cache := w.cache.filter fun p => p.1 ≠ key }

end World
end

/-- A server that has just started. -/
def World.init (κ : Type) : World κ := ⟨1, [], none, none, [], []⟩

/-! ## Freshness -/

/-- Every change stamped at most `t` was committed before each of the reads. -/
def ReadsAfter (changes : List Time) (reads : List Nat) (t : Time) : Prop :=
  ∀ r ∈ reads, ∀ (n : Nat) (ts : Time), changes[n]? = some ts → ts ≤ t → n < r

/-- A check stores its result although a change stamped before now was committed
    after one of its reads; or a write commits a change stamped before the
    `LastModified` of a cached result. -/
def World.overtaken {κ : Type} (w : World κ) : Act κ → Prop
  | .store i _ _ => ∃ c, w.checks[i]? = some c ∧ ∃ r ∈ c.reads, ∃ (n : Nat) (ts : Time),
      r ≤ n ∧ w.changes[n]? = some ts ∧ ts < w.clock
  | .write ts => ∃ p ∈ w.cache, p.2.reads ≠ [] ∧ ts < p.2.lastModified
  | _ => False

/-- Every cached result is fresh for every request that it is served to. -/
def World.Fresh {κ : Type} (w : World κ) : Prop :=
  ∀ p ∈ w.cache, ∀ t < p.2.lastModified, ReadsAfter w.changes p.2.reads t

section
variable {κ : Type} [DecidableEq κ] {w w' : World κ} {c : Check κ} {key : κ} {e : Entry}

lemma mem_of_lookup {l : List (κ × Entry)} (h : l.lookup key = some e) :
    (key, e) ∈ l := by
  induction l with
  | nil => cases h
  | cons p l ih =>
    rw [lookup_cons] at h
    split at h
    next heq =>
      cases h
      rw [beq_iff_eq.mp heq]
      exact mem_cons_self
    · exact mem_cons_of_mem _ (ih h)

/-- Both lookups serve an entry of the cache that is after the invalidation time. -/
lemma served_eq_some (h : w.served c key = some e) :
    (key, e) ∈ w.cache ∧ c.lastCacheInvalidationTime < e.lastModified := by
  unfold World.served at h
  split at h
  · unfold isCached at h
    split_ifs at h
    split at h
    · cases h
    next hres =>
      split_ifs at h with hafter
      cases h
      exact ⟨mem_of_lookup hres, hafter⟩
  · simp only [cachedCheckResolverGet] at h
    split_ifs at h
    split at h
    next hres =>
      split_ifs at h with hafter
      cases h
      exact ⟨mem_of_lookup hres, of_decide_eq_true hafter⟩
    · cases h

omit [DecidableEq κ] in
lemma World.Fresh.mono (h : w.Fresh) (hchanges : w'.changes = w.changes)
    (hcache : ∀ p ∈ w'.cache, p ∈ w.cache) : w'.Fresh := by
  intro p hp t ht
  rw [hchanges]
  exact h p (hcache p hp) t ht

/-- Every step that is not overtaken keeps the cache fresh. -/
theorem World.Fresh.step {a} (h : w.Fresh) (hok : ¬ w.overtaken a)
    (hs : w.step a = some w') : w'.Fresh := by
  cases a with
  | tick d | expire | begin api key consistency =>
    cases hs
    exact h.mono rfl fun _ => id
  | write ts =>
    simp only [World.step] at hs
    split at hs <;> cases hs
    intro p hp t ht r hr n ts' hn hle
    rcases lt_or_ge n w.changes.length with hlt | hge
    · rw [getElem?_append_left hlt] at hn
      exact h p hp t ht r hr n ts' hn hle
    · -- the new change is stamped no earlier than the entry was stored
      have hts : ts' = ts := by
        rw [getElem?_append_right hge, getElem?_singleton] at hn
        split_ifs at hn
        exact (some.inj hn).symm
      subst hts
      exact absurd ⟨p, hp, ne_nil_of_mem hr, lt_of_le_of_lt hle ht⟩ hok
  | findChanges =>
    simp only [World.step] at hs
    split at hs <;> cases hs
    exact h.mono rfl fun _ => id
  | publish =>
    simp only [World.step, map_eq_some_iff] at hs
    obtain ⟨ts, -, rfl⟩ := hs
    exact h.mono rfl fun _ => id
  | dispatch i key | read i =>
    simp only [World.step, map_eq_some_iff] at hs
    obtain ⟨c, -, rfl⟩ := hs
    exact h.mono rfl fun _ => id
  | hit i key =>
    simp only [World.step, Option.bind_eq_bind, Option.bind_eq_some_iff, Option.pure_def,
      Option.some.injEq] at hs
    obtain ⟨c, -, e, -, rfl⟩ := hs
    exact h.mono rfl fun _ => id
  | join i j =>
    simp only [World.step, bind_eq_bind, bind_eq_some_iff] at hs
    obtain ⟨c, -, d, -, hs⟩ := hs
    split at hs <;> cases hs
    exact h.mono rfl fun _ => id
  | store i allowed cycleDetected =>
    simp only [World.step, map_eq_some_iff] at hs
    obtain ⟨c, hc, rfl⟩ := hs
    split
    · exact h
    · intro p hp t ht
      rcases mem_cons.mp hp with rfl | hp
      · intro r hr n ts hn hle
        by_contra hge
        exact hok ⟨c, hc, r, hr, n, ts, not_lt.mp hge, hn, lt_of_le_of_lt hle ht⟩
      · exact h p (mem_filter.mp hp).1 t ht
  | evict key =>
    cases hs
    exact h.mono rfl fun p hp => (mem_filter.mp hp).1

omit [DecidableEq κ] in
lemma World.Fresh.init : (World.init κ).Fresh := by
  intro p hp
  cases hp

/-- In every run in which no store and no write is overtaken, a cached result that
    a check `c` is served, at whatever invalidation time, rests only on reads made
    after every change stamped at most that time. -/
theorem served_entry_reads_after_changes {acts : List (Act κ)}
    (hrun : Lts.run World.step (World.init κ) acts = some w)
    (hmeets : Lts.Meets World.step (fun w a => ¬ World.overtaken w a) (World.init κ) acts)
    (hserved : w.served c key = some e) :
    ReadsAfter w.changes e.reads c.lastCacheInvalidationTime := by
  have hfresh : w.Fresh :=
    Lts.run_invariant (fun _ _ _ hI hok hs => hI.step hok hs) World.Fresh.init hmeets hrun
  obtain ⟨hmem, hafter⟩ := served_eq_some hserved
  exact hfresh (key, e) hmem _ hafter

/-- The condition is sharp: a store that a change stamped `ts` has overtaken leaves
    an entry that is served under the invalidation time `ts` and has not seen the
    change. -/
theorem overtaken_store_served_stale {i allowed} (hc : w.checks[i]? = some c)
    (hover : w.overtaken (.store i allowed false))
    (hs : w.step (.store i allowed false) = some w') :
    ∃ e ts, ¬ ReadsAfter w'.changes e.reads ts ∧
      ∀ d : Check κ, d.consistency ≠ .higherConsistency → d.lastCacheInvalidationTime = ts →
        w'.served d c.key = some e := by
  obtain ⟨c', hc', r, hr, n, ts, hle, hn, hlt⟩ := hover
  rw [hc] at hc'
  cases hc'
  simp only [World.step, hc, map_some, Bool.false_eq_true, and_false, if_false,
    some.injEq] at hs
  subst hs
  refine ⟨⟨w.clock, allowed, c.reads⟩, ts, fun hafter => ?_, fun d hd hT => ?_⟩
  · exact absurd (hafter r hr n ts hn le_rfl) (not_lt.mpr hle)
  · cases hapi : d.api <;>
      simp [World.served, hapi, isCached, cachedCheckResolverGet, hd, hT, hlt]

end

section Instances

/-- A check that reads and stores between two changes, and a later request under
    the first change. -/
private def quietSchedule : List (Act Unit) :=
  [.write 1, .findChanges, .publish, .begin .resolver () .minimizeLatency, .read 0, .tick 1,
   .store 0 true false, .begin .resolver () .minimizeLatency]

/-- A change is committed between the read and the store. -/
private def racingSchedule : List (Act Unit) :=
  [.begin .resolver () .minimizeLatency, .read 0, .tick 1, .write 2, .tick 1,
   .store 0 true false, .findChanges, .publish, .begin .resolver () .minimizeLatency]

private def secondCheck (t : Time) : Check Unit := ⟨.resolver, (), .minimizeLatency, t, []⟩

theorem served_entry_reads_after_changes_quiet :
    ∃ w, Lts.run World.step (World.init Unit) quietSchedule = some w ∧
      w.checks[1]? = some (secondCheck 1) ∧
      w.served (secondCheck 1) () = some ⟨2, true, [1]⟩ ∧ ReadsAfter w.changes [1] 1 := by
  have hmeets : Lts.Meets World.step (fun w a => ¬ World.overtaken w a) (World.init Unit)
      quietSchedule := by
    simp [quietSchedule, Lts.Meets, World.step, World.overtaken, World.init, World.addReads,
      World.determineInvalidationTime]
    -- the store comes after the read of the one change
    intro n hn ts h
    rw [getElem?_eq_none (by simpa using hn)] at h
    cases h
  obtain ⟨w, hrun⟩ : ∃ w, Lts.run World.step (World.init Unit) quietSchedule = some w := ⟨_, rfl⟩
  have hserved : w.served (secondCheck 1) () = some ⟨2, true, [1]⟩ := by
    cases hrun
    rfl
  refine ⟨w, hrun, ?_, hserved, served_entry_reads_after_changes hrun hmeets hserved⟩
  cases hrun
  rfl

/-- The second request runs under the invalidation time 2 and is served an entry
    whose only read precedes the change stamped 2. -/
theorem served_entry_stale :
    ¬ ∀ (acts : List (Act Unit)) (w : World Unit) (c : Check Unit) (e : Entry),
      Lts.run World.step (World.init Unit) acts = some w → c ∈ w.checks →
      w.served c () = some e → ReadsAfter w.changes e.reads c.lastCacheInvalidationTime := by
  intro h
  have hstale := h racingSchedule _ (secondCheck 2) ⟨3, true, [0]⟩ rfl
    (mem_of_getElem? (i := 1) rfl) rfl
  exact absurd (hstale 0 (by simp) 0 2 rfl le_rfl) (lt_irrefl 0)

end Instances

end OpenFGA.Cache
