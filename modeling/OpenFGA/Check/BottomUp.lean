/-
  The streams that `bottomUp` sets up (`internal/check/bottom_up.go`).

  A rewrite is resolved by a tree of goroutines.  A leaf reads the objects that one
  user is directly related to, merges contextual tuples in and applies the
  conditions of its edge; an inner node combines the streams of its children with
  the resolver of its operator, each behind a channel.  `Plan` is such a tree and
  `Plan.stream` what arrives at its top while the context of the request is live.

  The tuples a leaf holds are kept in full next to the place where its read
  fails, so that what a failed read withholds can be stated.
-/

import OpenFGA.Storage
import OpenFGA.Graph
import OpenFGA.Check.Difference

namespace OpenFGA.Check
open List

/-! ## resolveIntersection -/

/-- A stream and its head in `compareValues`. -/
structure Cursor where
  value : String
  iter : Iter String
deriving DecidableEq, Repr

/-- Read one id from each stream, in order; the first error ends it. -/
def nextAll : List (Iter String) → Except (Option Err) (List Cursor)
  | [] => .ok []
  | it :: its => do
      let (value, iter) ← it.next
      return ⟨value, iter⟩ :: (← nextAll its)

/-- Advance the streams whose head is below `maxValue`. -/
def skipAll (maxValue : String) : List Cursor → Except (Option Err) (List Cursor)
  | [] => .ok []
  | c :: cs => do
      if c.value < maxValue then
        let (value, iter) ← skipTo maxValue c.iter.items c.iter.err
        return ⟨value, iter⟩ :: (← skipAll maxValue cs)
      else
        return c :: (← skipAll maxValue cs)

/-- The greatest head. -/
def maxValue (value : String) (cs : List Cursor) : String :=
  cs.foldl (fun m c => if m < c.value then c.value else m) value

def intersectionLoop : Nat → List Cursor → Iter String
  | 0, _ => ⟨[], none⟩
  | _ + 1, [] => ⟨[], none⟩
  | n + 1, c :: cs =>
    if cs.all (·.value == c.value) then
      match nextAll ((c :: cs).map (·.iter)) with
      | .error err => add c.value ⟨[], noteError none err⟩
      | .ok next => add c.value (intersectionLoop n next)
    else
      match skipAll (maxValue c.value cs) (c :: cs) with
      | .error err => ⟨[], noteError none err⟩
      | .ok next => intersectionLoop n next

def resolveIntersection (iters : List (Iter String)) : Iter String :=
  match nextAll iters with
  | .error err => ⟨[], noteError none err⟩
  | .ok cs => intersectionLoop ((iters.map (·.items.length)).sum + 1) cs

/-! ## Leaves -/

/-- What `specificType` and `specificTypeWildcard` read for one edge. -/
structure Leaf where
  /-- The tuples `ReadStartingWithUser` finds, by object. -/
  stored : List TupleKey
  stored_sorted : stored.Pairwise fun a b => a.object.toString ≤ b.object.toString
  /-- The read fails after so many tuples with this error. -/
  failure : Option (Nat × Err)
  /-- `GetContextualTuplesByUserID`, by object. -/
  contextual : List TupleKey
  contextual_sorted : contextual.Pairwise fun a b => a.object.toString ≤ b.object.toString
  /-- The conditions of the edge. -/
  conditions : List String

namespace Leaf

variable (eval : Evaluation) (l : Leaf)

/-- The iterator of the datastore. -/
def read : Iter TupleKey :=
  match l.failure with
  | none => ⟨l.stored, none⟩
  | some (n, e) => ⟨l.stored.take n, some e⟩

/-- The comparison that `buildIterator` merges with; it never answers equal. -/
def compareFn (a b : TupleKey) : Ordering :=
  if a.object.toString < b.object.toString then .lt else .gt

/-- What the filters of the leaf say about a tuple. -/
def passes (t : TupleKey) : Except Err Bool :=
  if hasConditions l.conditions then evaluateCondition eval l.conditions t else .ok true

/-- `bottomUp.buildIterator`, before the objects are taken. -/
def tuples : Iter TupleKey :=
  let iter := if l.contextual = [] then l.read else l.read.merge compareFn ⟨l.contextual, none⟩
  if hasConditions l.conditions then iter.filtered (evaluateCondition eval l.conditions) else iter

/-- `bottomUp.buildIterator`. -/
def iter : Iter String := (l.tuples eval).map (·.object.toString)

/-- The objects of the leaf, with every tuple read and every condition answered. -/
def Holds (x : String) : Prop :=
  ∃ t ∈ l.stored ++ l.contextual, l.passes eval t = .ok true ∧ t.object.toString = x

/-- The same when a tuple whose condition cannot be evaluated counts as well. -/
def MayHold (x : String) : Prop :=
  ∃ t ∈ l.stored ++ l.contextual, l.passes eval t ≠ .ok false ∧ t.object.toString = x

variable {eval : Evaluation} {l : Leaf} {x : String}

lemma compareFn_ne_eq (a b : TupleKey) : compareFn a b ≠ .eq := by
  unfold compareFn
  split <;> simp

lemma compareFn_eq_gt {a b} :
    compareFn a b = .gt ↔ b.object.toString ≤ a.object.toString := by
  unfold compareFn
  split
  next h => simpa only [reduceCtorEq, false_iff, not_le] using h
  next h => simpa only [true_iff] using not_lt.mp h

lemma read_items_isPrefix : l.read.items <+: l.stored := by
  unfold read
  split
  · exact prefix_refl _
  · exact take_prefix _ _

/-- The tuples before the filters come in the order of their objects. -/
lemma merged_isPrefix :
    (if l.contextual = [] then l.read else l.read.merge compareFn ⟨l.contextual, none⟩).items <+:
      l.contextual.merge l.read.items fun b a => compareFn a b = .gt := by
  split
  next h =>
    have hnil : (l.contextual.merge l.read.items fun b a => compareFn a b = .gt) =
        l.read.items := by rw [h, nil_merge]
    exact ⟨[], by rw [append_nil, hnil]⟩
  · exact Iter.merge_items_isPrefix compareFn_ne_eq _ _

lemma tuples_items :
    (l.tuples eval).items = (if l.contextual = [] then l.read
      else l.read.merge compareFn ⟨l.contextual, none⟩).items.filter
        fun t => Iter.passed (l.passes eval t) := by
  unfold tuples passes
  by_cases h : hasConditions l.conditions
  · simp only [h, if_true, Iter.filtered_items]
  · simp only [h, Bool.false_eq_true, if_false, Iter.passed, filter_true]

lemma tuples_sublist :
    (l.tuples eval).items.Sublist
      (l.contextual.merge l.read.items fun b a => compareFn a b = .gt) := by
  rw [tuples_items]
  exact filter_sublist.trans merged_isPrefix.sublist

lemma iter_sorted : (l.iter eval).items.Pairwise (· ≤ ·) := by
  rw [iter, Iter.map_items, pairwise_map]
  refine List.Pairwise.sublist tuples_sublist (List.Pairwise.imp ?_ (pairwise_merge
    (fun a b c hab hbc => ?_) (fun a b => ?_) _ _ ?_ ?_))
  · exact fun {a b} h => compareFn_eq_gt.mp (of_decide_eq_true h)
  · rw [decide_eq_true_iff, compareFn_eq_gt] at hab hbc ⊢
    exact hab.trans hbc
  · rw [Bool.or_eq_true, decide_eq_true_iff, decide_eq_true_iff, compareFn_eq_gt, compareFn_eq_gt]
    exact le_total _ _
  · simpa only [decide_eq_true_iff, compareFn_eq_gt] using l.contextual_sorted
  · simpa only [decide_eq_true_iff, compareFn_eq_gt] using
      l.stored_sorted.sublist read_items_isPrefix.sublist

lemma holds_of_mem_iter (h : x ∈ (l.iter eval).items) : l.Holds eval x := by
  obtain ⟨t, ht, rfl⟩ := mem_map.mp h
  have hmem : t ∈ l.contextual ∨ t ∈ l.read.items := mem_merge.mp (tuples_sublist.subset ht)
  refine ⟨t, ?_, ?_, rfl⟩
  · rw [mem_append]
    exact hmem.symm.imp_left fun h => read_items_isPrefix.subset h
  · rw [tuples_items, mem_filter] at ht
    exact Iter.passed_iff.mp ht.2

lemma empty_notMem_iter : "" ∉ (l.iter eval).items := by
  intro h
  obtain ⟨t, -, ht⟩ := mem_map.mp h
  exact Object.toString_ne_empty t.object ht

end Leaf

/-! ## Plans -/

/-- The goroutines set up for a rewrite. -/
inductive Plan where
  | leaf (l : Leaf)
  | op (operator : Operator) (children : List Plan)

/-- The resolver of an operator node. -/
def resolver : Operator → List (Iter String) → Iter String
  | .union => resolveUnion
  | .intersection => resolveIntersection
  | .exclusion => resolveDifference

mutual

/-- What arrives at the channel of a plan. -/
def Plan.stream (eval : Evaluation) : Plan → Iter String
  | .leaf l => l.iter eval
  | .op operator children => resolver operator (Plan.streams eval children)

/-- The iterators over the channels of the children. -/
def Plan.streams (eval : Evaluation) : List Plan → List (Iter String)
  | [] => []
  | p :: ps => (p.stream eval).fromChannel :: Plan.streams eval ps

end

namespace Plan

lemma streams_eq_map (eval : Evaluation) (ps : List Plan) :
    streams eval ps = ps.map fun p => (p.stream eval).fromChannel := by
  induction ps with
  | nil => rfl
  | cons p ps ih => rw [streams, ih, map_cons]

/-- The plan reads a leaf. -/
inductive HasLeaf : Plan → Leaf → Prop where
  | leaf (l : Leaf) : HasLeaf (.leaf l) l
  | child {p l operator ps} :
      p ∈ ps → HasLeaf p l → HasLeaf (.op operator ps) l

/-- The plan is made of unions and leaves. -/
inductive UnionsOnly : Plan → Prop where
  | leaf (l : Leaf) : UnionsOnly (.leaf l)
  | union {ps} : (∀ p ∈ ps, UnionsOnly p) → UnionsOnly (.op .union ps)

section
variable {eval : Evaluation} {p : Plan} {x : String}

lemma hasLeaf_leaf {l l'} : HasLeaf (.leaf l) l' ↔ l' = l := by
  constructor
  · intro h
    cases h
    rfl
  · rintro rfl
    exact .leaf _

lemma hasLeaf_op {operator ps l} :
    HasLeaf (.op operator ps) l ↔ ∃ p ∈ ps, HasLeaf p l := by
  constructor
  · intro h
    cases h with
    | child hmem h => exact ⟨_, hmem, h⟩
  · rintro ⟨p, hmem, h⟩
    exact .child hmem h

lemma streams_sorted (eval : Evaluation) {ps}
    (h : ∀ p ∈ ps, (p.stream eval).items.Pairwise (· ≤ ·)) :
    ∀ it ∈ streams eval ps, it.items.Pairwise (· ≤ ·) := by
  intro it hit
  rw [streams_eq_map] at hit
  obtain ⟨p, hp, rfl⟩ := mem_map.mp hit
  exact h p hp

theorem UnionsOnly.sorted (h : p.UnionsOnly) : (p.stream eval).items.Pairwise (· ≤ ·) := by
  induction h with
  | leaf l => exact Leaf.iter_sorted
  | union _ ih =>
    rw [stream]
    exact (resolveUnion_spec (fun _ _ => le_of_lt) (streams_sorted eval ih)).1

/-- A tree of unions yields the ids its leaves yield. -/
lemma UnionsOnly.mem_stream (h : p.UnionsOnly) :
    x ∈ (p.stream eval).items ↔ ∃ l, p.HasLeaf l ∧ x ∈ (l.iter eval).items := by
  induction h with
  | leaf l => simp [stream, hasLeaf_leaf]
  | @union ps hps ih =>
    have hs := streams_sorted eval fun p hp => (hps p hp).sorted
    rw [stream, resolver, (resolveUnion_spec (fun _ _ => le_of_lt) hs).2.1, streams_eq_map]
    constructor
    · rintro ⟨-, it, hit, hx⟩
      obtain ⟨p, hp, rfl⟩ := mem_map.mp hit
      obtain ⟨l, hl, hx⟩ := (ih p hp).mp hx
      exact ⟨l, .child hp hl, hx⟩
    · rintro ⟨l, hl, hx⟩
      obtain ⟨p, hp, hl⟩ := hasLeaf_op.mp hl
      refine ⟨fun h => Leaf.empty_notMem_iter (h ▸ hx), _, mem_map_of_mem hp, ?_⟩
      exact (ih p hp).mpr ⟨l, hl, hx⟩

lemma UnionsOnly.failure_stream (h : p.UnionsOnly) :
    (p.stream eval).failure.isSome ↔ ∃ l, p.HasLeaf l ∧ (l.iter eval).failure.isSome := by
  induction h with
  | leaf l => simp [stream, hasLeaf_leaf]
  | @union ps hps ih =>
    have hs := streams_sorted eval fun p hp => (hps p hp).sorted
    rw [stream, resolver, (resolveUnion_spec (fun _ _ => le_of_lt) hs).2.2, streams_eq_map]
    constructor
    · rintro ⟨it, hit, hx⟩
      obtain ⟨p, hp, rfl⟩ := mem_map.mp hit
      rw [Iter.failure_fromChannel] at hx
      obtain ⟨l, hl, hx⟩ := (ih p hp).mp hx
      exact ⟨l, .child hp hl, hx⟩
    · rintro ⟨l, hl, hx⟩
      obtain ⟨p, hp, hl⟩ := hasLeaf_op.mp hl
      refine ⟨_, mem_map_of_mem hp, ?_⟩
      rw [Iter.failure_fromChannel]
      exact (ih p hp).mpr ⟨l, hl, hx⟩

lemma UnionsOnly.empty_notMem (h : p.UnionsOnly) : "" ∉ (p.stream eval).items := fun hx => by
  obtain ⟨l, -, hx⟩ := h.mem_stream.mp hx
  exact Leaf.empty_notMem_iter hx

end

end Plan

end OpenFGA.Check
