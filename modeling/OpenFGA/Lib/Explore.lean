/-
  OpenFGA.Lib.Explore

  Depth-first search that collects items, with a set of visited nodes that is threaded
  through the whole search.

  A collector takes the nodes visited so far and returns items and the nodes visited
  after it.  `search` turns the collector of a single node, which may ask for other nodes, into
  a search that enters every node at most once.  Its specification says that each node it
  enters is finished when it returns: what the node refers to was visited, and what the
  node contributes was collected.  Items may be altered on their way up; `le` says how.
-/

import Mathlib

namespace Explore
open List

variable {α β ε : Type}

/-- Collects items of type `β` over nodes of type `α`, or fails. -/
abbrev Collect (α β ε : Type) := List α → Except ε (List β × List α)

namespace Collect

/-- Items without a visit. -/
def emit (items : List β) : Collect α β ε := fun v => .ok (items, v)

/-- One collector after the other. -/
def andThen (c d : Collect α β ε) : Collect α β ε := fun v =>
  match c v with
  | .error e => .error e
  | .ok (items, v₁) =>
    match d v₁ with
    | .error e => .error e
    | .ok (items', v₂) => .ok (items ++ items', v₂)

/-- Several collectors in a row. -/
def all : List (Collect α β ε) → Collect α β ε
  | [] => emit []
  | c :: cs => c.andThen (all cs)

/-- Alter the items that a collector returns. -/
def mark (f : β → β) (c : Collect α β ε) : Collect α β ε := fun v =>
  match c v with
  | .error e => .error e
  | .ok (items, v₁) => .ok (items.map f, v₁)

end Collect

section
variable [DecidableEq α]

/-- Search from a node, at most `n` nodes deep. -/
def search (content : (α → Collect α β ε) → α → Collect α β ε) : Nat → α → Collect α β ε
  | 0, _ => Collect.emit []
  | n + 1, x => fun v =>
    if x ∈ v then .ok ([], v) else content (search content n) x (x :: v)

end

/-! ## Specification -/

section Spec
variable (refs : α → List α) (own : α → List β) (le : β → β → Prop)

/-- The node is finished: its references are visited, its own items are among those collected. -/
structure Done (x : α) (v : List α) (items : List β) : Prop where
  refs_mem : ∀ y ∈ refs x, y ∈ v
  own_mem : ∀ i ∈ own x, ∃ j ∈ items, le i j

/-- What a collector that stands for the references `R` and the items `I` makes of the
    nodes `v`. -/
structure Outcome (R : List α) (I : List β) (v : List α) (items : List β) (v' : List α) :
    Prop where
  subset : v ⊆ v'
  refs_mem : ∀ y ∈ R, y ∈ v'
  own_mem : ∀ i ∈ I, ∃ j ∈ items, le i j
  done : ∀ x ∈ v', x ∉ v → Done refs own le x v' items
  sound : ∀ j ∈ items, (∃ i ∈ I, le i j) ∨ ∃ x ∈ v', x ∉ v ∧ ∃ i ∈ own x, le i j

variable [DecidableEq α] (nodes : Finset α)

/-- The nodes that are left to visit. -/
def unvisited (v : List α) : Nat := (nodes.filter (· ∉ v)).card

/-- The collector succeeds wherever less than `n` nodes are left, and its outcome is as it
    should be. -/
def Spec (n : Nat) (R : List α) (I : List β) (c : Collect α β ε) : Prop :=
  ∀ v, unvisited nodes v < n → ∃ items v', c v = .ok (items, v') ∧
    Outcome refs own le R I v items v'

end Spec

section
variable {refs : α → List α} {own : α → List β} {le : β → β → Prop}

lemma Done.mono {x v v' items items'}
    (h : Done refs own le x v items) (hv : v ⊆ v') (hi : items ⊆ items') :
    Done refs own le x v' items' where
  refs_mem y hy := hv (h.refs_mem y hy)
  own_mem i hI := by
    obtain ⟨j, hj, hle⟩ := h.own_mem i hI
    exact ⟨j, hi hj, hle⟩

lemma Outcome.andThen {R R' I I' v v₁ v₂ items items'} (h : Outcome refs own le R I v items v₁)
    (h' : Outcome refs own le R' I' v₁ items' v₂) :
    Outcome refs own le (R ++ R') (I ++ I') v (items ++ items') v₂ where
  subset := List.Subset.trans h.subset h'.subset
  refs_mem y hy := (mem_append.mp hy).elim (fun hy => h'.subset (h.refs_mem y hy))
    (h'.refs_mem y)
  own_mem i hi := by
    rcases mem_append.mp hi with hi | hi
    · obtain ⟨j, hj, hle⟩ := h.own_mem i hi
      exact ⟨j, mem_append_left _ hj, hle⟩
    · obtain ⟨j, hj, hle⟩ := h'.own_mem i hi
      exact ⟨j, mem_append_right _ hj, hle⟩
  done x hx hxv := by
    by_cases hx₁ : x ∈ v₁
    · exact (h.done x hx₁ hxv).mono h'.subset (subset_append_left ..)
    · exact (h'.done x hx hx₁).mono (List.Subset.refl _) (subset_append_right ..)
  sound j hj := by
    rcases mem_append.mp hj with hj | hj
    · rcases h.sound j hj with ⟨i, hi, hle⟩ | ⟨x, hx, hxv, hown⟩
      · exact .inl ⟨i, mem_append_left _ hi, hle⟩
      · exact .inr ⟨x, h'.subset hx, hxv, hown⟩
    · rcases h'.sound j hj with ⟨i, hi, hle⟩ | ⟨x, hx, hxv, hown⟩
      · exact .inl ⟨i, mem_append_right _ hi, hle⟩
      · exact .inr ⟨x, hx, fun h₀ => hxv (h.subset h₀), hown⟩

variable [DecidableEq α] {nodes : Finset α}

lemma unvisited_le {v v'} (h : v ⊆ v') : unvisited nodes v' ≤ unvisited nodes v := by
  refine Finset.card_le_card fun x hx => ?_
  rw [Finset.mem_filter] at hx ⊢
  exact ⟨hx.1, fun hv => hx.2 (h hv)⟩

lemma unvisited_cons {x v} (hx : x ∈ nodes) (hv : x ∉ v) :
    unvisited nodes (x :: v) < unvisited nodes v := by
  refine Finset.card_lt_card ⟨fun y hy => ?_, fun hsub => ?_⟩
  · rw [Finset.mem_filter] at hy ⊢
    exact ⟨hy.1, fun h => hy.2 (mem_cons_of_mem _ h)⟩
  · have hmem := hsub (Finset.mem_filter.mpr ⟨hx, hv⟩)
    exact (Finset.mem_filter.mp hmem).2 mem_cons_self

namespace Spec

variable {n : Nat} {R R' : List α} {I I' : List β} {c d : Collect α β ε}

lemma emit (hrefl : ∀ i, le i i) :
    Spec refs own le nodes n [] I (Collect.emit I : Collect α β ε) :=
  fun v _ => ⟨I, v, rfl,
    { subset := List.Subset.refl _
      refs_mem := nofun
      own_mem := fun i hi => ⟨i, hi, hrefl i⟩
      done := fun _ hx hxv => absurd hx hxv
      sound := fun j hj => .inl ⟨j, hj, hrefl j⟩ }⟩

lemma andThen (hc : Spec refs own le nodes n R I c) (hd : Spec refs own le nodes n R' I' d) :
    Spec refs own le nodes n (R ++ R') (I ++ I') (c.andThen d) := by
  intro v hv
  obtain ⟨items, v₁, hcv, hout⟩ := hc v hv
  obtain ⟨items', v₂, hdv, hout'⟩ := hd v₁ ((unvisited_le hout.subset).trans_lt hv)
  exact ⟨items ++ items', v₂, by simp only [Collect.andThen, hcv, hdv], hout.andThen hout'⟩

/-- Items ahead of a collector without any of its own. -/
lemma emit_then (hrefl : ∀ i, le i i) (hd : Spec refs own le nodes n R [] d) :
    Spec refs own le nodes n R I ((Collect.emit I).andThen d) := by
  simpa using (Spec.emit hrefl).andThen hd

/-- A row of collectors, each of which stands for its part of the references and items. -/
theorem all {γ : Type} {f : γ → Collect α β ε} {R : γ → List α} {I : γ → List β}
    (hrefl : ∀ i, le i i) : ∀ {xs : List γ},
    (∀ x ∈ xs, Spec refs own le nodes n (R x) (I x) (f x)) →
    Spec refs own le nodes n (xs.flatMap R) (xs.flatMap I) (Collect.all (xs.map f))
  | [], _ => Spec.emit hrefl
  | x :: xs, h => by
      rw [flatMap_cons, flatMap_cons]
      exact (h x mem_cons_self).andThen
        (all hrefl fun y hy => h y (mem_cons_of_mem _ hy))

/-- A row of visits. -/
lemma visits {next : α → Collect α β ε} : ∀ {xs : List α},
    (∀ x ∈ xs, Spec refs own le nodes n [x] [] (next x)) →
    Spec refs own le nodes n xs [] (Collect.all (xs.map next))
  | [], _ => fun v _ => ⟨[], v, rfl,
      { subset := List.Subset.refl _
        refs_mem := nofun
        own_mem := nofun
        done := fun _ hx hxv => absurd hx hxv
        sound := nofun }⟩
  | x :: _, h => (h x mem_cons_self).andThen
      (visits fun y hy => h y (mem_cons_of_mem _ hy))

/-- Altering the items upwards alters what the collector stands for in the same way. -/
theorem mark {f : β → β} (hf : ∀ i, le i (f i)) (hmono : ∀ i j, le i j → le (f i) (f j))
    (htrans : ∀ i j k, le i j → le j k → le i k) (hc : Spec refs own le nodes n R I c) :
    Spec refs own le nodes n R (I.map f) (c.mark f) := by
  intro v hv
  obtain ⟨items, v₁, hcv, hout⟩ := hc v hv
  refine ⟨items.map f, v₁, by simp only [Collect.mark, hcv], ?_⟩
  refine { subset := hout.subset, refs_mem := hout.refs_mem, own_mem := ?_, done := ?_,
           sound := ?_ }
  · intro i' hi'
    obtain ⟨i, hi, rfl⟩ := mem_map.mp hi'
    obtain ⟨j, hj, hle⟩ := hout.own_mem i hi
    exact ⟨f j, mem_map_of_mem hj, hmono i j hle⟩
  · intro x hx hxv
    refine ⟨(hout.done x hx hxv).refs_mem, fun i hi => ?_⟩
    obtain ⟨j, hj, hle⟩ := (hout.done x hx hxv).own_mem i hi
    exact ⟨f j, mem_map_of_mem hj, htrans _ _ _ hle (hf j)⟩
  · intro j' hj'
    obtain ⟨j, hj, rfl⟩ := mem_map.mp hj'
    rcases hout.sound j hj with ⟨i, hi, hle⟩ | ⟨x, hx, hxv, i, hi, hle⟩
    · exact .inl ⟨f i, mem_map_of_mem hi, hmono i j hle⟩
    · exact .inr ⟨x, hx, hxv, i, hi, htrans _ _ _ hle (hf j)⟩

/-- A search from a node stands for a visit of that node, if the content of a node stands
    for the node's references and items wherever the visits it asks for do. -/
theorem search {content : (α → Collect α β ε) → α → Collect α β ε}
    (hcontent : ∀ n next, (∀ y ∈ nodes, Spec refs own le nodes n [y] [] (next y)) →
      ∀ x ∈ nodes, Spec refs own le nodes n (refs x) (own x) (content next x)) :
    ∀ n, ∀ x ∈ nodes, Spec refs own le nodes n [x] [] (search content n x) := by
  intro n
  induction n with
  | zero => exact fun x _ v hv => absurd hv (Nat.not_lt_zero _)
  | succ n ih =>
    intro x hx v hv
    by_cases hmem : x ∈ v
    · refine ⟨[], v, if_pos hmem, ?_⟩
      exact { subset := List.Subset.refl _
              refs_mem := fun y hy => mem_singleton.mp hy ▸ hmem
              own_mem := nofun
              done := fun y hy hyv => absurd hy hyv
              sound := nofun }
    · have hleft : unvisited nodes (x :: v) < n :=
        (unvisited_cons hx hmem).trans_le (Nat.lt_succ_iff.mp hv)
      obtain ⟨items, v', hrun, hout⟩ := hcontent n _ ih x hx (x :: v) hleft
      refine ⟨items, v', (if_neg hmem).trans hrun, ?_⟩
      have hxv : x ∈ v' := hout.subset mem_cons_self
      refine { subset := fun y hy => hout.subset (mem_cons_of_mem _ hy)
               refs_mem := fun y hy => mem_singleton.mp hy ▸ hxv
               own_mem := nofun, done := ?_, sound := ?_ }
      · intro y hy hyv
        by_cases heq : y = x
        · exact heq ▸ ⟨hout.refs_mem, hout.own_mem⟩
        · exact hout.done y hy fun hcons => (mem_cons.mp hcons).elim heq hyv
      · intro j hj
        rcases hout.sound j hj with hown | ⟨y, hy, hyv, hown⟩
        · exact .inr ⟨x, hxv, hmem, hown⟩
        · exact .inr ⟨y, hy, fun h => hyv (mem_cons_of_mem _ h), hown⟩

end Spec

end

end Explore
