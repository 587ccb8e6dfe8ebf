/-
  The iterators of `internal/iterator` and `pkg/storage` that the resolvers read
  tuples and ids through.

  An iterator is read with `Next` until it answers an error, and nobody calls it
  again after that; so an iterator is the list of the items it will yield and the
  error it ends with, `none` for `ErrIteratorDone`.  The combinators turn such
  streams into streams.

  Three of them lose data when a stream fails, which the resolvers above them
  cannot see: `filtered` forgets the error of a condition once one tuple has
  passed, `merge` drops the item it holds when the next read fails, and
  `fromChannel` takes an error that wraps a cancellation for the end of the stream.
-/

import OpenFGA.Tuple

namespace OpenFGA
open List

/-- An iterator: what it yields, and the error it ends with. -/
structure Iter (α : Type) where
  items : List α
  err : Option Err
deriving DecidableEq, Repr

/-- `storage.IterIsDoneOrCancelled`, where `none` is `ErrIteratorDone`. -/
def iterIsDoneOrCancelled : Option Err → Bool
  | none => true
  | some e => e.isCancellation

namespace Iter

variable {α β : Type}

def next : Iter α → Except (Option Err) (α × Iter α)
  | ⟨[], e⟩ => .error e
  | ⟨x :: xs, e⟩ => .ok (x, ⟨xs, e⟩)

/-- The stream that yields `x` first. -/
def cons (x : α) (it : Iter α) : Iter α := ⟨x :: it.items, it.err⟩

@[simp] lemma cons_items (x : α) (it : Iter α) : (it.cons x).items = x :: it.items := rfl

@[simp] lemma cons_err (x : α) (it : Iter α) : (it.cons x).err = it.err := rfl

/-- `storage.WrapIterator` with a mapper that answers no errors. -/
def map (f : α → β) (it : Iter α) : Iter β := ⟨it.items.map f, it.err⟩

@[simp] lemma map_items (f : α → β) (it : Iter α) : (it.map f).items = it.items.map f := rfl

@[simp] lemma map_err (f : α → β) (it : Iter α) : (it.map f).err = it.err := rfl

/-- The error the stream reports when it is not taken for an end of the stream. -/
def failure (it : Iter α) : Option Err := it.err.filter fun e => !e.isCancellation

/-- `iterator.FromChannel` over the channel the stream is sent through. -/
def fromChannel (it : Iter α) : Iter α := ⟨it.items, it.failure⟩

@[simp] lemma fromChannel_items (it : Iter α) : it.fromChannel.items = it.items := rfl

@[simp] lemma failure_fromChannel (it : Iter α) : it.fromChannel.failure = it.failure := by
  simp [fromChannel, failure, Option.filter_filter]

/-! ## Filters -/

/-- The loop of `filter.Next` over the rest of the inner stream, which ends with
    `e`. -/
def filterAux (passes : α → Except Err Bool) (e : Option Err) :
    (onceValid : Bool) → (lastErr : Option Err) → List α → Iter α
  | onceValid, lastErr, [] =>
    match e with
    | some err => ⟨[], some err⟩
    | none => ⟨[], if onceValid then none else lastErr⟩
  | onceValid, lastErr, x :: xs =>
    match passes x with
    | .error err => filterAux passes e onceValid (some err) xs
    | .ok false => filterAux passes e onceValid lastErr xs
    | .ok true => (filterAux passes e true lastErr xs).cons x

/-- The filter let the item through. -/
def passed : Except Err Bool → Bool
  | .ok b => b
  | .error _ => false

@[simp] lemma passed_iff {r : Except Err Bool} : passed r = true ↔ r = .ok true := by
  cases r <;> simp [passed]

/-- `NewFilteredIterator` with one filter. -/
def filtered (passes : α → Except Err Bool) (it : Iter α) : Iter α :=
  filterAux passes it.err false none it.items

/-- The tuples that pass are what a filtered stream yields. -/
lemma filterAux_items (passes : α → Except Err Bool) (e : Option Err) (onceValid : Bool)
    (lastErr : Option Err) (xs : List α) :
    (filterAux passes e onceValid lastErr xs).items = xs.filter fun x => passed (passes x) := by
  induction xs generalizing onceValid lastErr with
  | nil => cases e <;> rfl
  | cons x xs ih =>
    rw [filterAux, filter_cons]
    split
    next h => simp only [h, passed, Bool.false_eq_true, if_false, ih]
    next h => simp only [h, passed, Bool.false_eq_true, if_false, ih]
    next h => simp only [h, passed, if_true, cons_items, ih]

@[simp] lemma filtered_items (passes : α → Except Err Bool) (it : Iter α) :
    (it.filtered passes).items = it.items.filter fun x => passed (passes x) :=
  filterAux_items ..

/-! ## Merge -/

/-- Read the item after the current one: `rest` is what is left of the stream, which
    ends with `e`.  When the read fails the item in hand is not returned either. -/
def fetch (e : Option Err) (rest : List α) (k : Iter α) : Iter α :=
  match rest, e with
  | [], some err => ⟨[], some err⟩
  | _, _ => k

/-- `MergedIterator.Next` until its end.  The heads of the two lists are `current1`
    and `current2`; an empty list is `hasNext = false`. -/
def mergeAux (compareFn : α → α → Ordering) (e₁ e₂ : Option Err) :
    Nat → List α → List α → Iter α
  | 0, _, _ => ⟨[], none⟩
  | _ + 1, [], [] => ⟨[], none⟩
  | n + 1, [], y :: ys => fetch e₂ ys ((mergeAux compareFn e₁ e₂ n [] ys).cons y)
  | n + 1, x :: xs, [] => fetch e₁ xs ((mergeAux compareFn e₁ e₂ n xs []).cons x)
  | n + 1, x :: xs, y :: ys =>
    match compareFn x y with
    | .lt => fetch e₁ xs ((mergeAux compareFn e₁ e₂ n xs (y :: ys)).cons x)
    | .gt => fetch e₂ ys ((mergeAux compareFn e₁ e₂ n (x :: xs) ys).cons y)
    | .eq => fetch e₁ xs (fetch e₂ ys ((mergeAux compareFn e₁ e₂ n xs ys).cons x))

/-- `iterator.Merge`; its first read initializes both sides. -/
def merge (compareFn : α → α → Ordering) (iter₁ iter₂ : Iter α) : Iter α :=
  fetch iter₁.err iter₁.items (fetch iter₂.err iter₂.items
    (mergeAux compareFn iter₁.err iter₂.err (iter₁.items.length + iter₂.items.length)
      iter₁.items iter₂.items))

section
variable {compareFn : α → α → Ordering} {e e₁ e₂ : Option Err} {n : Nat}

lemma fetch_items_isPrefix {rest l : List α} {k : Iter α} (h : k.items <+: l) :
    (fetch e rest k).items <+: l := by
  unfold fetch
  split
  · exact nil_prefix
  · exact h

/-- With a comparison that never answers equal, as much of the two streams as the
    merge yields is in the order of `List.merge`, the second stream first. -/
lemma mergeAux_items_isPrefix (hne : ∀ a b, compareFn a b ≠ .eq) (n : Nat) (xs ys : List α) :
    (mergeAux compareFn e₁ e₂ n xs ys).items <+: ys.merge xs fun b a => compareFn a b = .gt := by
  induction n generalizing xs ys with
  | zero => exact nil_prefix
  | succ n ih =>
    match xs, ys with
    | [], [] => exact nil_prefix
    | [], y :: ys =>
      refine fetch_items_isPrefix ?_
      have h := ih [] ys
      rw [merge_right] at h ⊢
      exact (prefix_cons_inj y).mpr h
    | x :: xs, [] =>
      refine fetch_items_isPrefix ?_
      have h := ih xs []
      rw [nil_merge] at h ⊢
      exact (prefix_cons_inj x).mpr h
    | x :: xs, y :: ys =>
      rw [mergeAux, cons_merge_cons]
      cases h : compareFn x y with
      | lt => exact fetch_items_isPrefix ((prefix_cons_inj x).mpr (ih xs (y :: ys)))
      | eq => exact absurd h (hne x y)
      | gt => exact fetch_items_isPrefix ((prefix_cons_inj y).mpr (ih (x :: xs) ys))

lemma merge_items_isPrefix (hne : ∀ a b, compareFn a b ≠ .eq) (iter₁ iter₂ : Iter α) :
    (merge compareFn iter₁ iter₂).items <+:
      iter₂.items.merge iter₁.items fun b a => compareFn a b = .gt :=
  fetch_items_isPrefix (fetch_items_isPrefix (mergeAux_items_isPrefix hne _ _ _))

end

/-! ## What a merge yields -/

section
variable (compareFn : α → α → Ordering)

/-- The merge of both lists has the item: of equal ones it has that of the first. -/
def Merged (xs ys : List α) (z : α) : Prop :=
  z ∈ xs ∨ z ∈ ys ∧ ∀ x ∈ xs, compareFn x z ≠ .eq

/-- The item comes before the last one of a stream that fails. -/
def Ahead (e : Option Err) (items : List α) (z : α) : Prop :=
  e = none ∨ ∃ b ∈ items, compareFn z b = .lt

/-- What the merge of the two streams is. -/
structure MergeSpec (e₁ e₂ : Option Err) (xs ys : List α) (out : Iter α) : Prop where
  sorted : out.items.Pairwise (compareFn · · = .lt)
  mem : ∀ z, z ∈ out.items ↔
    Merged compareFn xs ys z ∧ Ahead compareFn e₁ xs z ∧ Ahead compareFn e₂ ys z
  err₁ : e₂ = none → out.err = e₁
  err₂ : e₁ = none → out.err = e₂

end

section
variable {compareFn : α → α → Ordering} {e e₁ e₂ : Option Err} {xs ys xs' ys' : List α}
  {x y v : α} {out : Iter α}

lemma fetch_cases (e : Option Err) (rest : List α) (k : Iter α) :
    rest = [] ∧ e ≠ none ∧ fetch e rest k = ⟨[], e⟩ ∨
      (rest = [] → e = none) ∧ fetch e rest k = k := by
  cases rest <;> cases e <;> simp [fetch]

/-- Both streams are read before `k` goes on; one that fails has nothing ahead. -/
theorem MergeSpec.fetch {k : Iter α}
    (h₁ : xs' = [] → ∀ z, Merged compareFn xs ys z → Ahead compareFn e₁ xs z → e₁ = none)
    (h₂ : ys' = [] → ∀ z, Merged compareFn xs ys z → Ahead compareFn e₂ ys z → e₂ = none)
    (hk : (xs' = [] → e₁ = none) → (ys' = [] → e₂ = none) → MergeSpec compareFn e₁ e₂ xs ys k) :
    MergeSpec compareFn e₁ e₂ xs ys (Iter.fetch e₁ xs' (Iter.fetch e₂ ys' k)) := by
  obtain ⟨hnil, he, hfetch⟩ | ⟨hne₁, hfetch⟩ := fetch_cases e₁ xs' (Iter.fetch e₂ ys' k)
  · rw [hfetch]
    exact ⟨.nil, fun z => ⟨nofun, fun h => absurd (h₁ hnil z h.1 h.2.1) he⟩, fun _ => rfl,
      fun h => absurd h he⟩
  rw [hfetch]
  obtain ⟨hnil, he, hfetch⟩ | ⟨hne₂, hfetch⟩ := fetch_cases e₂ ys' k
  · rw [hfetch]
    exact ⟨.nil, fun z => ⟨nofun, fun h => absurd (h₂ hnil z h.1 h.2.2) he⟩,
      fun h => absurd h he, fun _ => rfl⟩
  rw [hfetch]
  exact hk hne₁ hne₂

/-- `v` is yielded, and `xs'` and `ys'` are left. -/
theorem MergeSpec.yield (hxs : ∀ z ∈ xs', compareFn v z = .lt)
    (hys : ∀ z ∈ ys', compareFn v z = .lt)
    (hmem : ∀ z, Merged compareFn xs ys z ↔ z = v ∨ Merged compareFn xs' ys' z)
    (h₁ : ∀ z, z = v ∨ compareFn v z = .lt → (Ahead compareFn e₁ xs z ↔ Ahead compareFn e₁ xs' z))
    (h₂ : ∀ z, z = v ∨ compareFn v z = .lt → (Ahead compareFn e₂ ys z ↔ Ahead compareFn e₂ ys' z))
    (hout : (xs' = [] → e₁ = none) → (ys' = [] → e₂ = none) →
      MergeSpec compareFn e₁ e₂ xs' ys' out) :
    MergeSpec compareFn e₁ e₂ xs ys (Iter.fetch e₁ xs' (Iter.fetch e₂ ys' (out.cons v))) := by
  have hlt (z : α) (hz : Merged compareFn xs' ys' z) : compareFn v z = .lt :=
    hz.elim (hxs z) fun hz => hys z hz.1
  have hge (z : α) (hz : Merged compareFn xs ys z) : z = v ∨ compareFn v z = .lt :=
    ((hmem z).mp hz).imp_right (hlt z)
  have hnil {e : Option Err} {z : α} (h : Ahead compareFn e [] z) : e = none := h.elim id nofun
  have hahead {e : Option Err} {l : List α} (hl : ∀ z ∈ l, compareFn v z = .lt)
      (hne : l = [] → e = none) : Ahead compareFn e l v := by
    cases l with
    | nil => exact .inl (hne rfl)
    | cons b l => exact .inr ⟨b, mem_cons_self, hl b mem_cons_self⟩
  refine .fetch ?_ ?_ fun hne₁ hne₂ => ?_
  · rintro rfl z hz ha
    exact hnil ((h₁ z (hge z hz)).mp ha)
  · rintro rfl z hz ha
    exact hnil ((h₂ z (hge z hz)).mp ha)
  · obtain ⟨hsorted, hout, herr₁, herr₂⟩ := hout hne₁ hne₂
    refine ⟨hsorted.cons fun z hz => hlt z ((hout z).mp hz).1, fun z => ?_, herr₁, herr₂⟩
    rw [cons_items, mem_cons, hout, hmem]
    constructor
    · rintro (rfl | ⟨hz, ha⟩)
      · exact ⟨.inl rfl, (h₁ z (.inl rfl)).mpr (hahead hxs hne₁),
          (h₂ z (.inl rfl)).mpr (hahead hys hne₂)⟩
      · have hv := Or.inr (a := z = v) (hlt z hz)
        exact ⟨.inr hz, (h₁ z hv).mpr ha.1, (h₂ z hv).mpr ha.2⟩
    · rintro ⟨rfl | hz, ha⟩
      · exact .inl rfl
      · have hv := Or.inr (a := z = v) (hlt z hz)
        exact .inr ⟨hz, (h₁ z hv).mp ha.1, (h₂ z hv).mp ha.2⟩

lemma merged_left (h : ∀ z, z ∈ ys' ↔ z ∈ ys ∧ compareFn x z ≠ .eq) (z : α) :
    Merged compareFn (x :: xs) ys z ↔ z = x ∨ Merged compareFn xs ys' z := by
  simp only [Merged, mem_cons, forall_eq_or_imp, h]
  tauto

lemma merged_right (h : ∀ x ∈ xs, compareFn x y ≠ .eq) (z : α) :
    Merged compareFn xs (y :: ys) z ↔ z = y ∨ Merged compareFn xs ys z := by
  simp only [Merged, mem_cons]
  by_cases hz : z = y
  · subst hz
    exact iff_of_true (.inr ⟨.inl rfl, h⟩) (.inl rfl)
  · simp [hz]

variable [Std.TransCmp compareFn]

lemma ahead_tail (hv : compareFn v x ≠ .lt) (z : α) (hz : z = v ∨ compareFn v z = .lt) :
    Ahead compareFn e (x :: xs) z ↔ Ahead compareFn e xs z := by
  have hnot : compareFn z x ≠ .lt := by
    rcases hz with rfl | hz
    · exact hv
    · exact fun hlt => hv (Std.TransCmp.lt_trans hz hlt)
  simp [Ahead, hnot]

lemma mergeAux_spec (n : Nat) (hxs : xs.Pairwise (compareFn · · = .lt))
    (hys : ys.Pairwise (compareFn · · = .lt)) (hn : xs.length + ys.length ≤ n)
    (h₁ : xs = [] → e₁ = none) (h₂ : ys = [] → e₂ = none) :
    MergeSpec compareFn e₁ e₂ xs ys (mergeAux compareFn e₁ e₂ n xs ys) := by
  have hself (v : α) : compareFn v v ≠ .lt := by simp [Std.ReflCmp.compare_self]
  have hend (h₁ : e₁ = none) (h₂ : e₂ = none) : MergeSpec compareFn e₁ e₂ [] [] ⟨[], none⟩ :=
    ⟨.nil, by simp [Merged], fun _ => h₁.symm, fun _ => h₂.symm⟩
  induction n generalizing xs ys with
  | zero =>
    obtain ⟨rfl, rfl⟩ : xs = [] ∧ ys = [] := by simpa using hn
    exact hend (h₁ rfl) (h₂ rfl)
  | succ n ih =>
    match xs, ys with
    | [], [] => exact hend (h₁ rfl) (h₂ rfl)
    | [], y :: ys =>
      obtain rfl := h₁ rfl
      obtain ⟨hy, hys⟩ := pairwise_cons.mp hys
      exact .yield (by simp) hy (merged_right (by simp)) (fun _ _ => .rfl) (ahead_tail (hself y))
        (ih .nil hys (by simpa using hn))
    | x :: xs, [] =>
      obtain rfl := h₂ rfl
      obtain ⟨hx, hxs⟩ := pairwise_cons.mp hxs
      exact .yield hx (by simp) (merged_left (by simp)) (ahead_tail (hself x)) (fun _ _ => .rfl)
        (ih hxs .nil (by simpa using hn))
    | x :: xs, y :: ys =>
      obtain ⟨hx, hxs'⟩ := pairwise_cons.mp hxs
      obtain ⟨hy, hys'⟩ := pairwise_cons.mp hys
      simp only [length_cons] at hn
      rw [mergeAux]
      cases h : compareFn x y with
      | lt =>
        have hlt : ∀ z ∈ y :: ys, compareFn x z = .lt :=
          forall_mem_cons.mpr ⟨h, fun z hz => Std.TransCmp.lt_trans h (hy z hz)⟩
        refine .yield hx hlt (merged_left fun z => ?_) (ahead_tail (hself x)) (fun _ _ => .rfl)
          (ih hxs' hys (by rw [length_cons]; omega))
        exact (and_iff_left_of_imp fun hz => by simp [hlt z hz]).symm
      | gt =>
        have hyx := Std.OrientedCmp.gt_iff_lt.mp h
        have hlt : ∀ z ∈ x :: xs, compareFn y z = .lt :=
          forall_mem_cons.mpr ⟨hyx, fun z hz => Std.TransCmp.lt_trans hyx (hx z hz)⟩
        refine .yield hlt hy (merged_right fun z hz => ?_) (fun _ _ => .rfl) (ahead_tail (hself y))
          (ih hxs hys' (by rw [length_cons]; omega))
        simp [Std.OrientedCmp.gt_iff_lt.mpr (hlt z hz)]
      | eq =>
        have hlt (z : α) (hz : z ∈ ys) : compareFn x z = .lt :=
          Std.TransCmp.lt_of_eq_of_lt h (hy z hz)
        refine .yield hx hlt (merged_left fun z => ⟨fun hz => ?_, fun ⟨hz, hne⟩ => ?_⟩)
          (ahead_tail (hself x)) (ahead_tail (by simp [h])) (ih hxs' hys' (by omega))
        · exact ⟨mem_cons_of_mem _ hz, by simp [hlt z hz]⟩
        · exact (mem_cons.mp hz).resolve_left fun heq => hne (heq ▸ h)

end

/-- Two ascending streams are merged to an ascending one that has every item, of equal ones that
    of the first.  Of a stream that fails, the items from its last one on are missing. -/
theorem merge_yields (compareFn : α → α → Ordering) [Std.TransCmp compareFn] (iter₁ iter₂ : Iter α)
    (h₁ : iter₁.items.Pairwise (compareFn · · = .lt))
    (h₂ : iter₂.items.Pairwise (compareFn · · = .lt)) :
    MergeSpec compareFn iter₁.err iter₂.err iter₁.items iter₂.items
      (merge compareFn iter₁ iter₂) := by
  refine .fetch (fun hnil z _ ha => ?_) (fun hnil z _ ha => ?_) (mergeAux_spec _ h₁ h₂ le_rfl)
  · rw [hnil] at ha
    exact ha.elim id nofun
  · rw [hnil] at ha
    exact ha.elim id nofun

theorem merge_yields_failing :
    let out := merge (α := Nat) compare ⟨[1, 3], some .canceled⟩ ⟨[2, 3, 4], none⟩
    out.items = [1, 2] ∧ MergeSpec compare (some .canceled) none [1, 3] [2, 3, 4] out :=
  ⟨rfl, merge_yields compare ⟨[1, 3], some .canceled⟩ ⟨[2, 3, 4], none⟩ (by decide) (by decide)⟩

/-- A stream that fails after one item: the item is not returned without the error. -/
theorem merge_drops_last :
    (merge (α := Nat) compare ⟨[1], some .canceled⟩ ⟨[2], none⟩) = ⟨[], some .canceled⟩ := rfl

end Iter

end OpenFGA
