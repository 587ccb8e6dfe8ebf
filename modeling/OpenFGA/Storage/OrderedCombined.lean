/-
  `OrderedCombinedIterator` (`pkg/storage/tuple_iterators.go`): several sources, each of them
  ordered by a key, are read as one ordered source that yields each key once.

  Of the items with one key the first is kept that the earliest source has (`combine_spec`).
  The others are thrown away before anybody has looked at more of them than the key.

  An exhausted source is dropped at once here; the code sets it to nil and drops it at
  the next call.  `Head` is in `OpenFGA.Storage.Peeking`.
-/

import OpenFGA.Iterator

namespace OpenFGA
open Iter List Option

variable {α κ : Type} [LinearOrder κ]

/-- The sources that are not exhausted, and the item that was yielded last. -/
structure OrderedCombined (α : Type) where
  pending : List (Iter α)
  lastYielded : Option α

namespace OrderedCombined

/-- A source that has an item, or is exhausted. -/
def live : Iter α → Except Err (Option (Iter α))
  | ⟨[], none⟩ => .ok none
  | ⟨[], some err⟩ => .error err
  | it => .ok (some it)

/-- What the loop of `head` does with the source number `idx`: items with the key that was
    yielded last are discarded. -/
def advance (mapper : α → κ) (lastYielded : Option α) (idx : Nat) (it : Iter α) :
    Except Err (Option (Iter α)) :=
  match lastYielded, it.items with
  | some y, head :: _ =>
    if mapper head < mapper y then .error (.other s!"iterator {idx} is not in ascending order")
    else live ⟨it.items.dropWhile fun x => mapper x = mapper y, it.err⟩
  | _, _ => live it

/-- The loop of `head`. -/
def advanceAll (mapper : α → κ) (lastYielded : Option α) : Nat → List (Iter α) →
    Except Err (List (Iter α))
  | _, [] => .ok []
  | idx, it :: its =>
    match advance mapper lastYielded idx it with
    | .error err => .error err
    | .ok it' =>
      match advanceAll mapper lastYielded (idx + 1) its with
      | .error err => .error err
      | .ok its' => .ok (it'.toList ++ its')

/-- The first of the smallest heads, and the sources behind it. -/
def takeMin (mapper : α → κ) : List (Iter α) → Option (α × List (Iter α))
  | [] => none
  | it :: its =>
    match it.items, takeMin mapper its with
    | [], rest => rest.map fun (y, its') => (y, it :: its')
    | x :: xs, none => some (x, ⟨xs, it.err⟩ :: its)
    | x :: xs, some (y, its') =>
      if mapper y < mapper x then some (y, it :: its') else some (x, ⟨xs, it.err⟩ :: its)

def next (mapper : α → κ) (c : OrderedCombined α) :
    Except (Option Err) (α × OrderedCombined α) :=
  match advanceAll mapper c.lastYielded 0 c.pending with
  | .error err => .error (some err)
  | .ok pending =>
    match takeMin mapper pending with
    | none => .error none
    | some (x, pending) => .ok (x, ⟨pending, some x⟩)

/-- `Next` until it answers an error. -/
def drain (mapper : α → κ) : Nat → OrderedCombined α → Iter α
  | 0, _ => ⟨[], none⟩
  | n + 1, c =>
    match c.next mapper with
    | .error err => ⟨[], err⟩
    | .ok (x, c) => (drain mapper n c).cons x

/-- `NewOrderedCombinedIterator`, read to its end. -/
def combine (mapper : α → κ) (sortedIters : List (Iter α)) : Iter α :=
  drain mapper ((sortedIters.flatMap items).length + 1) ⟨sortedIters, none⟩

/-! ## One call -/

/-- A source that does not fail and is ordered. -/
def Ordered (mapper : α → κ) (it : Iter α) : Prop :=
  it.err = none ∧ it.items.Pairwise fun x y => mapper x ≤ mapper y

/-- The key comes behind the one that was yielded last. -/
def Fresh (mapper : α → κ) (lastYielded : Option α) (k : κ) : Prop :=
  ∀ y ∈ lastYielded, mapper y < k

/-- The first item with the key, in the order of the sources. -/
def first (mapper : α → κ) (its : List (Iter α)) (k : κ) : Option α :=
  (its.flatMap items).find? fun x => mapper x = k

section
variable {mapper : α → κ} {lastYielded : Option α} {its its' : List (Iter α)} {it : Iter α}
  {x y : α} {k : κ}

lemma first_cons (it : Iter α) (its : List (Iter α)) (k : κ) :
    first mapper (it :: its) k = (it.items.find? fun x => mapper x = k).or
      (first mapper its k) := by
  rw [first, flatMap_cons, find?_append, first]

lemma mapper_first (h : first mapper its k = some x) : mapper x = k := by
  simpa using find?_some h

lemma exists_first {z} (hz : z ∈ its.flatMap items) :
    ∃ x, first mapper its (mapper z) = some x := by
  rw [← isSome_iff_exists, first, find?_isSome]
  exact ⟨z, hz, decide_eq_true rfl⟩

/-- In an ordered list the items with the smallest key are in front. -/
lemma dropWhile_eq_filter {xs : List α} (hsorted : xs.Pairwise fun x y => mapper x ≤ mapper y)
    (hle : ∀ x ∈ xs, k ≤ mapper x) :
    xs.dropWhile (fun x => mapper x = k) = xs.filter fun x => k < mapper x := by
  induction xs with
  | nil => rfl
  | cons x xs ih =>
    rw [pairwise_cons] at hsorted
    by_cases hx : mapper x = k
    · rw [dropWhile_cons_of_pos (by simpa using hx),
        filter_cons_of_neg (by simp [hx]),
        ih hsorted.2 fun y hy => hle y (mem_cons_of_mem _ hy)]
    · have hlt : k < mapper x := lt_of_le_of_ne (hle x mem_cons_self) (Ne.symm hx)
      rw [dropWhile_cons_of_neg (by simpa using hx), eq_comm, filter_eq_self]
      intro y hy
      rcases mem_cons.mp hy with rfl | hy
      · exact decide_eq_true hlt
      · exact decide_eq_true (hlt.trans_le (hsorted.1 y hy))

/-- What the loop of `head` leaves of sources with the items `xs`: their fresh items. -/
structure Left (mapper : α → κ) (lastYielded : Option α) (xs : List α) (its : List (Iter α)) :
    Prop where
  ordered : ∀ it ∈ its, Ordered mapper it
  live : ∀ it ∈ its, it.items ≠ []
  sublist : (its.flatMap items).Sublist xs
  fresh : ∀ x ∈ its.flatMap items, Fresh mapper lastYielded (mapper x)
  first : ∀ k, Fresh mapper lastYielded k → first mapper its k = xs.find? fun x => mapper x = k

lemma live_ok {xs} (hit : Ordered mapper it) (hsub : it.items.Sublist xs)
    (hfresh : ∀ x ∈ it.items, Fresh mapper lastYielded (mapper x))
    (hfind : ∀ k, Fresh mapper lastYielded k →
      it.items.find? (fun x => mapper x = k) = xs.find? fun x => mapper x = k) :
    ∃ o, live it = .ok o ∧ Left mapper lastYielded xs o.toList := by
  obtain ⟨items, err⟩ := it
  obtain rfl : err = none := hit.1
  cases items with
  | nil => exact ⟨none, rfl, nofun, nofun, nil_sublist xs, nofun, hfind⟩
  | cons x items =>
    refine ⟨some ⟨x :: items, none⟩, rfl, ?_, ?_, ?_, ?_, ?_⟩
    · simpa using hit
    · simp
    · simpa using hsub
    · simpa using hfresh
    · simpa [first] using hfind

lemma advance_ok (idx : Nat) (hit : Ordered mapper it)
    (hle : ∀ y ∈ lastYielded, ∀ x ∈ it.items, mapper y ≤ mapper x) :
    ∃ o, advance mapper lastYielded idx it = .ok o ∧ Left mapper lastYielded it.items o.toList := by
  unfold advance
  split
  next y head tail hitems =>
    have hge : ∀ x ∈ it.items, mapper y ≤ mapper x := hle y rfl
    have hdrop := dropWhile_eq_filter hit.2 hge
    rw [if_neg (not_lt.mpr (hge head (hitems ▸ mem_cons_self))), hdrop]
    refine live_ok ⟨hit.1, hit.2.filter _⟩ filter_sublist (fun x hx => ?_) fun k hk => ?_
    · obtain ⟨-, hlt⟩ := mem_filter.mp hx
      exact fun y' hy' => some.inj hy' ▸ of_decide_eq_true hlt
    · rw [find?_filter]
      congr 1
      funext x
      by_cases hx : mapper x = k
      · simp [hx, hk y rfl]
      · simp [hx]
  next hcases =>
    refine live_ok hit (List.Sublist.refl _) (fun x hx y hy => ?_) fun k _ => rfl
    obtain ⟨head, tail, hitems⟩ := exists_cons_of_ne_nil (ne_nil_of_mem hx)
    exact absurd hitems (hcases y head tail hy)

lemma advanceAll_ok (idx : Nat) (hits : ∀ it ∈ its, Ordered mapper it)
    (hle : ∀ y ∈ lastYielded, ∀ x ∈ its.flatMap items, mapper y ≤ mapper x) :
    ∃ its', advanceAll mapper lastYielded idx its = .ok its' ∧
      Left mapper lastYielded (its.flatMap items) its' := by
  induction its generalizing idx with
  | nil => exact ⟨[], rfl, nofun, nofun, List.Sublist.refl _, nofun, fun _ _ => rfl⟩
  | cons it its ih =>
    obtain ⟨o, ho, hhere⟩ := advance_ok idx (hits it mem_cons_self)
      fun y hy x hx => hle y hy x (mem_flatMap_of_mem mem_cons_self hx)
    obtain ⟨rest, hrest, hlater⟩ := ih (idx + 1) (fun it' h => hits it' (mem_cons_of_mem _ h))
      fun y hy x hx => hle y hy x (mem_append_right _ hx)
    refine ⟨o.toList ++ rest, by rw [advanceAll, ho, hrest], ?_, ?_, ?_, ?_, ?_⟩
    · exact fun it' h => (mem_append.mp h).elim (hhere.ordered it') (hlater.ordered it')
    · exact fun it' h => (mem_append.mp h).elim (hhere.live it') (hlater.live it')
    · rw [flatMap_append]
      exact hhere.sublist.append hlater.sublist
    · intro x hx
      rw [flatMap_append, mem_append] at hx
      exact hx.elim (hhere.fresh x) (hlater.fresh x)
    · intro k hk
      rw [first, flatMap_append, find?_append, flatMap_cons, find?_append, ← hhere.first k hk,
        ← hlater.first k hk]
      rfl

/-- What `takeMin` takes: the first item with the smallest key. -/
structure Takes (mapper : α → κ) (its : List (Iter α)) (x : α) (its' : List (Iter α)) : Prop where
  ordered : ∀ it ∈ its', Ordered mapper it
  mem : ∀ z ∈ its'.flatMap items, z ∈ its.flatMap items
  least : ∀ z ∈ its.flatMap items, mapper x ≤ mapper z
  first_self : first mapper its (mapper x) = some x
  first_other : ∀ k, k ≠ mapper x → first mapper its' k = first mapper its k
  length : (its'.flatMap items).length + 1 = (its.flatMap items).length

/-- The smallest head is that of the first source. -/
theorem Takes.here {xs err} (hit : Ordered mapper ⟨x :: xs, err⟩)
    (hits : ∀ it ∈ its, Ordered mapper it) (hle : ∀ z ∈ its.flatMap items, mapper x ≤ mapper z) :
    Takes mapper (⟨x :: xs, err⟩ :: its) x (⟨xs, err⟩ :: its) := by
  obtain ⟨herr, hsorted⟩ := hit
  rw [pairwise_cons] at hsorted
  constructor
  · intro it h
    rcases mem_cons.mp h with rfl | h
    · exact ⟨herr, hsorted.2⟩
    · exact hits it h
  · intro z hz
    exact mem_cons_of_mem _ hz
  · intro z hz
    rcases mem_cons.mp hz with rfl | hz
    · exact le_rfl
    · rcases mem_append.mp hz with hz | hz
      · exact hsorted.1 z hz
      · exact hle z hz
  · simp [first]
  · intro k hk
    simp [first_cons, Ne.symm hk]
  · simp

/-- The smallest head is that of a later source. -/
theorem Takes.later (hit : Ordered mapper it) (hlt : ∀ z ∈ it.items, mapper x < mapper z)
    (h : Takes mapper its x its') : Takes mapper (it :: its) x (it :: its') := by
  constructor
  · intro it' h'
    rcases mem_cons.mp h' with rfl | h'
    · exact hit
    · exact h.ordered it' h'
  · intro z hz
    rcases mem_append.mp hz with hz | hz
    · exact mem_append_left _ hz
    · exact mem_append_right _ (h.mem z hz)
  · intro z hz
    rcases mem_append.mp hz with hz | hz
    · exact (hlt z hz).le
    · exact h.least z hz
  · have hnone : it.items.find? (fun z => mapper z = mapper x) = none :=
      find?_eq_none.mpr fun z hz heq => (hlt z hz).ne' (of_decide_eq_true heq)
    rw [first_cons, hnone, none_or, h.first_self]
  · intro k hk
    rw [first_cons, first_cons, h.first_other k hk]
  · have := h.length
    simp only [flatMap_cons, length_append]
    omega

lemma takeMin_none (h : takeMin mapper its = none) : its.flatMap items = [] := by
  induction its with
  | nil => rfl
  | cons it its ih =>
    rw [takeMin] at h
    split at h
    next hitems =>
      rw [flatMap_cons, hitems, ih (map_eq_none_iff.mp h)]
      rfl
    · cases h
    · split_ifs at h

lemma takeMin_some (hits : ∀ it ∈ its, Ordered mapper it)
    (h : takeMin mapper its = some (x, its')) : Takes mapper its x its' := by
  induction its generalizing x its' with
  | nil => cases h
  | cons it its ih =>
    have hit := hits it mem_cons_self
    have hrest : ∀ it ∈ its, Ordered mapper it := fun it' h => hits it' (mem_cons_of_mem _ h)
    obtain ⟨items, err⟩ := it
    rw [takeMin] at h
    cases items with
    | nil =>
      obtain ⟨⟨y, rest⟩, hmin, heq⟩ := map_eq_some_iff.mp h
      cases heq
      exact (ih hrest hmin).later hit nofun
    | cons z zs =>
      cases hmin : takeMin mapper its with
      | none =>
        simp only [hmin, some.injEq, Prod.mk.injEq] at h
        obtain ⟨rfl, rfl⟩ := h
        refine Takes.here hit hrest fun w hw => ?_
        rw [takeMin_none hmin] at hw
        exact absurd hw not_mem_nil
      | some p =>
        obtain ⟨y, rest⟩ := p
        have hy := ih hrest hmin
        simp only [hmin] at h
        split_ifs at h with hlt
        · cases h
          refine hy.later hit fun w hw => ?_
          rcases mem_cons.mp hw with rfl | hw
          · exact hlt
          · exact hlt.trans_le (rel_of_pairwise_cons hit.2 hw)
        · cases h
          exact Takes.here hit hrest fun w hw => (not_lt.mp hlt).trans (hy.least w hw)

/-! ## All calls -/

/-- What holds between two calls. -/
structure Ready (mapper : α → κ) (c : OrderedCombined α) : Prop where
  ordered : ∀ it ∈ c.pending, Ordered mapper it
  le : ∀ y ∈ c.lastYielded, ∀ x ∈ c.pending.flatMap items, mapper y ≤ mapper x

variable {c c' : OrderedCombined α}

/-- A call ends only when no fresh item is left. -/
lemma next_error (hc : Ready mapper c) {err} (h : c.next mapper = .error err) :
    err = none ∧ ∀ k, Fresh mapper c.lastYielded k → first mapper c.pending k = none := by
  obtain ⟨its, hits, hleft⟩ := advanceAll_ok 0 hc.ordered hc.le
  rw [next, hits] at h
  simp only at h
  split at h <;> cases h
  next hnone =>
    refine ⟨rfl, fun k hk => ?_⟩
    rw [first, ← hleft.first k hk, first, takeMin_none hnone, find?_nil]

/-- What a call yields: the first item with the smallest fresh key. -/
structure Yields (mapper : α → κ) (c : OrderedCombined α) (x : α) (c' : OrderedCombined α) :
    Prop where
  ready : Ready mapper c'
  last : c'.lastYielded = some x
  fresh : Fresh mapper c.lastYielded (mapper x)
  first_self : first mapper c.pending (mapper x) = some x
  least : ∀ k, Fresh mapper c.lastYielded k → k < mapper x → first mapper c.pending k = none
  first_later : ∀ k, mapper x < k → first mapper c'.pending k = first mapper c.pending k
  length : (c'.pending.flatMap items).length < (c.pending.flatMap items).length

lemma fresh_of_lt {j} (h : Fresh mapper lastYielded j) (hlt : j < k) :
    Fresh mapper lastYielded k := fun y hy => (h y hy).trans hlt

lemma next_ok (hc : Ready mapper c) (h : c.next mapper = .ok (x, c')) : Yields mapper c x c' := by
  obtain ⟨its, hits, hleft⟩ := advanceAll_ok 0 hc.ordered hc.le
  have hfirst : ∀ k, _ → first mapper its k = first mapper c.pending k := hleft.first
  rw [next, hits] at h
  simp only at h
  split at h <;> cases h
  next its' hmin =>
    have htakes := takeMin_some hleft.ordered hmin
    have hx : Fresh mapper c.lastYielded (mapper x) :=
      hleft.fresh x (mem_of_find?_eq_some htakes.first_self)
    constructor
    · refine ⟨htakes.ordered, fun y hy z hz => ?_⟩
      cases hy
      exact htakes.least z (htakes.mem z hz)
    · rfl
    · exact hx
    · rw [← hfirst _ hx, htakes.first_self]
    · intro k hk hlt
      rw [← hfirst k hk, first, find?_eq_none]
      intro z hz heq
      exact absurd (htakes.least z hz) (not_le.mpr (of_decide_eq_true heq ▸ hlt))
    · intro k hk
      rw [htakes.first_other k hk.ne', hfirst k (fresh_of_lt hx hk)]
    · have hle := hleft.sublist.length_le
      have hlen := htakes.length
      show (its'.flatMap items).length < _
      omega

/-- The items that are left: the fresh keys in ascending order, with the first item of each. -/
structure Shows (mapper : α → κ) (c : OrderedCombined α) (xs : List α) : Prop where
  sorted : xs.Pairwise fun x y => mapper x < mapper y
  mem : ∀ x, x ∈ xs ↔
    Fresh mapper c.lastYielded (mapper x) ∧ first mapper c.pending (mapper x) = some x

theorem Yields.shows {xs} (hx : Yields mapper c x c') (hc' : Shows mapper c' xs) :
    Shows mapper c (x :: xs) := by
  have hfresh : ∀ k, Fresh mapper c'.lastYielded k ↔ mapper x < k := by
    intro k
    rw [Fresh, hx.last]
    simp
  refine ⟨pairwise_cons.mpr ⟨fun y hy => ?_, hc'.sorted⟩, fun y => ?_⟩
  · exact (hfresh _).mp ((hc'.mem y).mp hy).1
  · rw [mem_cons, hc'.mem y, hfresh]
    constructor
    · rintro (rfl | ⟨hlt, hfirst⟩)
      · exact ⟨hx.fresh, hx.first_self⟩
      · exact ⟨fresh_of_lt hx.fresh hlt, by rw [← hx.first_later _ hlt, hfirst]⟩
    · rintro ⟨hy, hfirst⟩
      rcases lt_trichotomy (mapper y) (mapper x) with hlt | heq | hgt
      · rw [hx.least _ hy hlt] at hfirst
        cases hfirst
      · rw [heq, hx.first_self] at hfirst
        exact .inl (some.inj hfirst).symm
      · exact .inr ⟨hgt, by rw [hx.first_later _ hgt, hfirst]⟩

lemma drain_spec (n : Nat) (hc : Ready mapper c) (hn : (c.pending.flatMap items).length < n) :
    (drain mapper n c).err = none ∧ Shows mapper c (drain mapper n c).items := by
  induction n generalizing c with
  | zero => exact absurd hn (Nat.not_lt_zero _)
  | succ n ih =>
    rw [drain]
    cases hnext : c.next mapper with
    | error err =>
      obtain ⟨rfl, hnone⟩ := next_error hc hnext
      refine ⟨rfl, .nil, fun x => ⟨nofun, fun h => ?_⟩⟩
      rw [hnone _ h.1] at h
      cases h.2
    | ok p =>
      have hx := next_ok hc hnext
      obtain ⟨herr, hshows⟩ := ih hx.ready (by have := hx.length; omega)
      exact ⟨herr, hx.shows hshows⟩

/-- Ordered sources are combined to an ordered source that yields each of their keys once, with
    the first item that has it. -/
theorem combine_spec (hits : ∀ it ∈ its, Ordered mapper it) :
    (combine mapper its).err = none ∧
      (combine mapper its).items.Pairwise (fun x y => mapper x < mapper y) ∧
      ∀ x, x ∈ (combine mapper its).items ↔ first mapper its (mapper x) = some x := by
  have hready : Ready mapper (⟨its, none⟩ : OrderedCombined α) := ⟨hits, nofun⟩
  obtain ⟨herr, hshows⟩ := drain_spec _ hready (Nat.lt_succ_self _)
  exact ⟨herr, hshows.sorted, fun x => (hshows.mem x).trans (and_iff_right nofun)⟩

lemma mem_keys_combine (hits : ∀ it ∈ its, Ordered mapper it) :
    k ∈ (combine mapper its).items.map mapper ↔ k ∈ (its.flatMap items).map mapper := by
  obtain ⟨-, -, hmem⟩ := combine_spec hits
  constructor
  · intro h
    obtain ⟨x, hx, rfl⟩ := mem_map.mp h
    exact mem_map_of_mem (mem_of_find?_eq_some ((hmem x).mp hx))
  · intro h
    obtain ⟨z, hz, rfl⟩ := mem_map.mp h
    obtain ⟨x, hx⟩ : ∃ x, first mapper its (mapper z) = some x := exists_first hz
    rw [← mapper_first hx]
    refine mem_map_of_mem ((hmem x).mpr ?_)
    rw [mapper_first hx, hx]

end

end OrderedCombined
end OpenFGA
