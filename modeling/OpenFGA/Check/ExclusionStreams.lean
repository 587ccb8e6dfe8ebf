/-
  When the bottom-up exclusion fails closed.

  Errors on the subtract side should make an exclusion pass on less, never more: a
  tuple whose condition cannot be evaluated counts as present, and so does what a
  failed read withholds (`Plan.MayHold`).  The streams do not keep to that.

  * The filter of a leaf forgets the error of a condition once one tuple passed.
  * A union goes on with its other streams and reports an error at the end, when
    the difference has passed on what lies below.
  * An error that wraps a cancellation ends a stream like `ErrIteratorDone`.

  `SubtractCovers` says when none of these lets an id through, and is exact for the
  ids passed on and for the answers of Weight2
  (`bottomUp_exclusion_fails_closed_iff`).
-/

import OpenFGA.Check.Weight2

namespace OpenFGA.Check

open Weight2 Weight2.Execute
open Plan List

/-! ## What a subtract side may hold -/

/-- The objects of a tree of unions, with every tuple read and every condition
    answered. -/
def Plan.Holds (eval : Evaluation) (p : Plan) (x : String) : Prop :=
  ∃ l, p.HasLeaf l ∧ l.Holds eval x

/-- The same when tuples whose condition cannot be evaluated count as well. -/
def Plan.MayHold (eval : Evaluation) (p : Plan) (x : String) : Prop :=
  ∃ l, p.HasLeaf l ∧ l.MayHold eval x

/-- Some leaf of the tree reports an error that is not taken for the end of its
    stream. -/
def Plan.Reports (eval : Evaluation) (p : Plan) : Prop :=
  ∃ l, p.HasLeaf l ∧ (l.iter eval).failure.isSome

/-- Each id that the subtract side may hold is subtracted as often as the base
    yields it, or lies at or above all that the subtract side yields before it reports
    an error. -/
def SubtractCovers (eval : Evaluation) (base subtract : Plan) : Prop :=
  ∀ x, subtract.MayHold eval x →
    (base.stream eval).items.count x ≤ (subtract.stream eval).items.count x ∨
      (subtract.Reports eval ∧ ∀ l, subtract.HasLeaf l → ∀ y ∈ (l.iter eval).items, y ≤ x)

/-- The same, leaf by leaf, for a base that yields no id twice. -/
def LeavesCover (eval : Evaluation) (base subtract : Plan) : Prop :=
  ∀ x, subtract.MayHold eval x → (∃ l, base.HasLeaf l ∧ x ∈ (l.iter eval).items) →
    (∃ l, subtract.HasLeaf l ∧ x ∈ (l.iter eval).items) ∨
      (subtract.Reports eval ∧ ∀ l, subtract.HasLeaf l → ∀ y ∈ (l.iter eval).items, y ≤ x)

section
variable {eval : Evaluation} {base subtract : Plan} {x : String}

lemma mem_exclusion_stream (hbase : base.UnionsOnly) (hsub : subtract.UnionsOnly) :
    x ∈ ((op .exclusion [base, subtract]).stream eval).items ↔
      (subtract.stream eval).items.count x < (base.stream eval).items.count x ∧
        ¬ (subtract.Reports eval ∧ ∀ l, subtract.HasLeaf l → ∀ y ∈ (l.iter eval).items, y ≤ x) := by
  have hmem : x ∈ (resolveDifference [(base.stream eval).fromChannel,
      (subtract.stream eval).fromChannel]).items ↔ _ :=
    mem_resolveDifference hbase.sorted hsub.sorted hbase.empty_notMem
  have hall : (∀ d ∈ (subtract.stream eval).items, d ≤ x) ↔
      ∀ l, subtract.HasLeaf l → ∀ y ∈ (l.iter eval).items, y ≤ x :=
    ⟨fun h l hl y hy => h y (hsub.mem_stream.mpr ⟨l, hl, hy⟩), fun h d hd => by
      obtain ⟨l, hl, hd⟩ := hsub.mem_stream.mp hd
      exact h l hl d hd⟩
  rw [Iter.failure_fromChannel, hsub.failure_stream, Iter.fromChannel_items,
    Iter.fromChannel_items, hall] at hmem
  exact hmem

lemma holds_of_mem_exclusion (hbase : base.UnionsOnly) (hsub : subtract.UnionsOnly)
    (hx : x ∈ ((op .exclusion [base, subtract]).stream eval).items) : base.Holds eval x := by
  have hcount := ((mem_exclusion_stream hbase hsub).mp hx).1
  have hmem : x ∈ (base.stream eval).items := count_pos_iff.mp (by omega)
  obtain ⟨l, hl, hx⟩ := hbase.mem_stream.mp hmem
  exact ⟨l, hl, Leaf.holds_of_mem_iter hx⟩

lemma exclusion_fails_closed_iff (eval : Evaluation) (hbase : base.UnionsOnly)
    (hsub : subtract.UnionsOnly) :
    (∀ x ∈ ((op .exclusion [base, subtract]).stream eval).items,
      base.Holds eval x ∧ ¬ subtract.MayHold eval x) ↔ SubtractCovers eval base subtract := by
  constructor
  · intro h x hmay
    by_contra hcover
    rw [not_or, not_le] at hcover
    exact (h x ((mem_exclusion_stream hbase hsub).mpr hcover)).2 hmay
  · intro h x hx
    refine ⟨holds_of_mem_exclusion hbase hsub hx, fun hmay => ?_⟩
    obtain ⟨hcount, hopen⟩ := (mem_exclusion_stream hbase hsub).mp hx
    rcases h x hmay with hle | hstop
    · omega
    · exact hopen hstop

/-- A base whose leaves yield no object twice yields no id twice. -/
theorem Plan.UnionsOnly.strict (hbase : base.UnionsOnly)
    (hnodup : ∀ l, base.HasLeaf l → (l.iter eval).items.Nodup) :
    (base.stream eval).items.Pairwise (· < ·) := by
  induction hbase with
  | leaf l =>
    rw [stream]
    refine (List.Pairwise.and Leaf.iter_sorted (hnodup l (.leaf l))).imp ?_
    exact fun h => lt_of_le_of_ne h.1 h.2
  | union hps ih =>
    rw [stream, streams_eq_map]
    refine (resolveUnion_spec (fun _ _ => id) fun it hit => ?_).1
    obtain ⟨p, hp, rfl⟩ := mem_map.mp hit
    exact ih p hp fun l hl => hnodup l (.child hp hl)

lemma subtractCovers_iff_leaves (hbase : base.UnionsOnly) (hsub : subtract.UnionsOnly)
    (hnodup : ∀ l, base.HasLeaf l → (l.iter eval).items.Nodup) :
    SubtractCovers eval base subtract ↔ LeavesCover eval base subtract := by
  have hle : ∀ x, (base.stream eval).items.count x ≤ (subtract.stream eval).items.count x ↔
      ((∃ l, base.HasLeaf l ∧ x ∈ (l.iter eval).items) →
        ∃ l, subtract.HasLeaf l ∧ x ∈ (l.iter eval).items) := by
    intro x
    have hone : (base.stream eval).items.count x ≤ 1 :=
      nodup_iff_count_le_one.mp ((hbase.strict hnodup).imp ne_of_lt) x
    rw [← hbase.mem_stream, ← hsub.mem_stream, ← count_pos_iff, ← count_pos_iff]
    omega
  refine forall_congr' fun x => imp_congr_right fun _ => ?_
  rw [hle x]
  refine ⟨fun h hb => h.imp_left fun h => h hb, fun h => ?_⟩
  by_cases hb : ∃ l, base.HasLeaf l ∧ x ∈ (l.iter eval).items
  · exact (h hb).imp_left fun h _ => h
  · exact .inl fun hb' => absurd hb' hb

lemma mem_leftIDs_exclusion (hbase : base.UnionsOnly) (hsub : subtract.UnionsOnly) :
    x ∈ leftIDs (messages
        ((op .union [op .exclusion [base, subtract]]).stream eval)) ↔
      x ∈ ((op .exclusion [base, subtract]).stream eval).items := by
  have hsorted : ((op .exclusion [base, subtract]).stream eval).items.Pairwise (· ≤ ·) :=
    hbase.sorted.sublist (resolveDifference_sublist (base.stream eval).fromChannel _)
  have hstreams : ∀ it ∈ streams eval [op .exclusion [base, subtract]],
      it.items.Pairwise (· ≤ ·) := streams_sorted eval (by simpa using hsorted)
  rw [leftIDs_messages]
  refine ((resolveUnion_spec (fun _ _ => le_of_lt) hstreams).2.1 _).trans ?_
  simp only [streams, mem_singleton, exists_eq_left, Iter.fromChannel_items]
  refine and_iff_right_of_imp fun hx => ?_
  rintro rfl
  obtain ⟨l, -, t, -, -, ht⟩ := holds_of_mem_exclusion hbase hsub hx
  exact Object.toString_ne_empty t.object ht

end

/-- The bottom-up exclusion fails closed exactly when the subtract side covers what it
    may hold, and so does Weight2 over it, whatever the right channel delivers and in
    every schedule.  When no leaf of the base yields an object twice the condition is one
    on the leaves. -/
theorem bottomUp_exclusion_fails_closed_iff (eval : Evaluation) (base subtract : Plan)
    (hbase : base.UnionsOnly) (hsub : subtract.UnionsOnly) :
    ((∀ x ∈ ((op .exclusion [base, subtract]).stream eval).items,
        base.Holds eval x ∧ ¬ subtract.MayHold eval x) ↔ SubtractCovers eval base subtract) ∧
      ((∀ (pruningEnabled : Bool) (right : List (Except Err String)) (acts : List Act) (s : Execute)
          (e : Option Err),
          Lts.run (Execute.step pruningEnabled) (start (messages
            ((op .union [op .exclusion [base, subtract]]).stream eval)) right) acts =
              some s →
          s.ret = some (⟨true⟩, e) →
          ∃ x ∈ rightIDs right, base.Holds eval x ∧ ¬ subtract.MayHold eval x) ↔
        SubtractCovers eval base subtract) ∧
      ((∀ l, base.HasLeaf l → (l.iter eval).items.Nodup) →
        (SubtractCovers eval base subtract ↔ LeavesCover eval base subtract)) := by
  have hstreams := exclusion_fails_closed_iff eval hbase hsub
  refine ⟨hstreams, ⟨fun h => hstreams.mp fun x hx => ?_, fun h => ?_⟩,
    subtractCovers_iff_leaves hbase hsub⟩
  · -- the id alone on the right side makes Weight2 answer true
    obtain ⟨acts, s, hrun, hret⟩ := exists_run_of_mem false
      ((mem_leftIDs_exclusion hbase hsub).mpr hx)
    obtain ⟨y, hy, hgood⟩ := h false [.ok x] acts s none hrun hret
    rw [rightIDs_ok, rightIDs_nil, mem_singleton] at hy
    exact hy ▸ hgood
  · intro pruningEnabled right acts s e hrun hret
    obtain ⟨-, x, hleft, hright⟩ := (answer_of_run hrun hret).1 rfl
    exact ⟨x, hright, hstreams.mpr h x ((mem_leftIDs_exclusion hbase hsub).mp hleft)⟩

/-! ## Instances -/

private def doc (id : String) : Object := ⟨"document", id⟩

private def blocked (id condition : String) : TupleKey :=
  ⟨doc id, "blocked", .object ⟨"user", "anne"⟩, condition, ""⟩

/-- `define viewer: [user] but not blocked`; the base has `document:b`. -/
private def viewers : Plan :=
  .leaf ⟨[⟨doc "b", "viewer", .object ⟨"user", "anne"⟩, "", ""⟩], by simp, none, [], by simp, [""]⟩

/-- `define blocked: [user, user with in_region]`; anne is blocked from `document:a`, and
    from `document:b` under a condition. -/
private def blockedFrom : Plan :=
  .leaf ⟨[blocked "a" "", blocked "b" "in_region"], by simp only [pairwise_pair]; decide,
    none, [], by simp, ["", "in_region"]⟩

/-- The context of the request lacks a parameter of the condition. -/
private def missingContext : Evaluation := fun t =>
  if t.condition = "" then .ok true else .error (.other "missing context")

/-- Every condition is answered. -/
private def inRegion : Evaluation := fun _ => .ok true

theorem bottomUp_exclusion_fails_closed_in_region :
    viewers.UnionsOnly ∧ blockedFrom.UnionsOnly ∧
      ∀ x ∈ ((op .exclusion [viewers, blockedFrom]).stream inRegion).items,
        viewers.Holds inRegion x ∧ ¬ blockedFrom.MayHold inRegion x := by
  refine ⟨.leaf _, .leaf _,
    (bottomUp_exclusion_fails_closed_iff inRegion viewers blockedFrom (.leaf _) (.leaf _)).1.mpr ?_⟩
  rintro x ⟨l, hl, t, ht, -, rfl⟩
  obtain rfl := hasLeaf_leaf.mp hl
  simp only [append_nil, mem_cons, not_mem_nil, or_false] at ht
  rcases ht with rfl | rfl
  · exact .inl (by decide)
  · exact .inl (by decide)

/-- The condition of the tuple for `document:b` cannot be evaluated, but the one for
    `document:a` has passed before: the stream of the subtract side ends without an
    error, and the exclusion passes `document:b` on. -/
theorem bottomUp_exclusion_fails_open :
    ((op .exclusion [viewers, blockedFrom]).stream missingContext).items = ["document:b"] ∧
      blockedFrom.MayHold missingContext "document:b" ∧
      ∃ s, Lts.run (Execute.step false) (start (messages
          ((op .union [op .exclusion [viewers, blockedFrom]]).stream missingContext))
            [.ok "document:b"]) [.right, .left] = some s ∧ s.ret = some (⟨true⟩, none) := by
  refine ⟨by decide, ⟨_, .leaf _, blocked "b" "in_region", ?_, ?_, by decide⟩, _, rfl, rfl⟩
  · exact mem_append_left _ (mem_cons_of_mem _ mem_cons_self)
  · simp [Leaf.passes, hasConditions, evaluateCondition, evaluateTupleCondition, blocked,
      missingContext]

end OpenFGA.Check
