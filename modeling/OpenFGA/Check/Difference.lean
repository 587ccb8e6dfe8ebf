/-
  `resolveDifference` (`internal/check/bottom_up.go`): the difference of two
  sorted streams of object ids.

  The loop compares the two heads: equal heads are both dropped, a base head below
  the subtract head is passed on, and a subtract head below the base head is
  skipped.  When the subtract stream is done the rest of the base is passed on; when
  it fails with an error that is not taken for its end, the difference stops.

  So a base id is passed on when it has more copies than the subtract stream
  yields, and the subtract stream has either ended or gone past it
  (`mem_resolveDifference`).
-/

import OpenFGA.Check.Union

namespace OpenFGA.Check
open List

def skipTo (target : String) : List String → Option Err → Except (Option Err) (String × Iter String)
  | [], err => .error err
  | t :: ts, err => if target ≤ t then .ok (t, ⟨ts, err⟩) else skipTo target ts err

/-- The loop at `drainBase`; `value` is the head of the base. -/
def drainBase (value : String) : List String → Option Err → Iter String
  | [], err => add value ⟨[], noteError none err⟩
  | v :: vs, err => add value (drainBase v vs err)

/-- The subtract iterator answered the error `err`. -/
def onDifferenceError (err : Option Err) (value : String) (base : Iter String) : Iter String :=
  if handleError err then ⟨[], err⟩ else drainBase value base.items base.err

/-- The loop of `resolveDifference`; `b` and `d` are the two heads. -/
def differenceLoop : Nat → (b : String) → (base : Iter String) → (d : String) →
    (diff : Iter String) → Iter String
  | 0, _, _, _, _ => ⟨[], none⟩
  | n + 1, b, base, d, diff =>
    if b = d then
      match base.next with
      | .error err => ⟨[], noteError none err⟩
      | .ok (b', base') =>
        match diff.next with
        | .error err => onDifferenceError err b' base'
        | .ok (d', diff') => differenceLoop n b' base' d' diff'
    else if b < d then
      match base.next with
      | .error err => add b ⟨[], noteError none err⟩
      | .ok (b', base') => add b (differenceLoop n b' base' d diff)
    else
      match skipTo b diff.items diff.err with
      | .error err => onDifferenceError err b base
      | .ok (d', diff') => differenceLoop n b base d' diff'

/-- `resolveDifference`.  An exclusion has two edges; the second is missing when it
    has no path to the user type. -/
def resolveDifference : List (Iter String) → Iter String
  | [] => ⟨[], some .panicRequest⟩
  | base :: rest =>
    match base.next with
    | .error err => ⟨[], noteError none err⟩
    | .ok (b, base') =>
      match rest with
      | [] => drainBase b base'.items base'.err
      | diff :: _ =>
        match diff.next with
        | .error err => onDifferenceError err b base'
        | .ok (d, diff') =>
          differenceLoop (base.items.length + diff.items.length) b base' d diff'

/-! ## What is passed on -/

section
variable {x : String}

lemma count_add {val} (hval : val ≠ "") (later : Iter String) :
    (add val later).items.count x = (val :: later.items).count x := by
  rw [add, if_neg hval, Iter.cons_items]

lemma drainBase_items (value : String) (vs : List String) (err : Option Err)
    (hne : "" ∉ value :: vs) : (drainBase value vs err).items = value :: vs := by
  induction vs generalizing value with
  | nil =>
    rw [drainBase, add, if_neg (by simpa [eq_comm] using hne)]
    rfl
  | cons v vs ih =>
    rw [mem_cons, not_or] at hne
    rw [drainBase, add, if_neg (Ne.symm hne.1), Iter.cons_items, ih v hne.2]

lemma skipTo_eq (target : String) (ts : List String) (err : Option Err) :
    skipTo target ts err = (Iter.mk (ts.dropWhile (· < target)) err).next := by
  induction ts with
  | nil => rfl
  | cons t ts ih =>
    rw [skipTo]
    split
    next h =>
      rw [dropWhile_cons_of_neg (by rw [decide_eq_true_iff]; exact not_lt.mpr h)]
      rfl
    next h => rw [dropWhile_cons_of_pos (by rw [decide_eq_true_iff]; exact not_le.mp h), ih]

/-- What the difference passes on: the surplus copies of the base, for ids that the
    subtract stream has gone past or whose end it has reached. -/
def surplus (base diff : List String) (failed : Prop) [Decidable failed] (x : String) : Nat :=
  if failed ∧ ∀ d ∈ diff, d ≤ x then 0 else base.count x - diff.count x

lemma count_eq_zero_of_lt {a} {l : List String} (h : ∀ y ∈ l, a ≤ y) (hx : x < a) :
    l.count x = 0 :=
  count_eq_zero.mpr fun hmem => absurd (h x hmem) (not_le.mpr hx)

lemma handleError_iff (it : Iter String) : handleError it.err = true ↔ it.failure.isSome := by
  obtain ⟨xs, _ | e⟩ := it
  · simp [handleError, iterIsDoneOrCancelled, Iter.failure]
  · cases h : e.isCancellation <;> simp [handleError, iterIsDoneOrCancelled, Iter.failure, h]

section
variable {B D : List String} {b d : String} {failed : Prop} [Decidable failed]

lemma surplus_of_count_eq_zero (h : B.count x = 0) : surplus B D failed x = 0 := by
  unfold surplus
  split
  · rfl
  · omega

/-- Equal heads are dropped on both sides. -/
lemma surplus_cons_cons (hB : ∀ y ∈ B, b ≤ y) :
    surplus (b :: B) (b :: D) failed x = surplus B D failed x := by
  by_cases hx : b ≤ x
  · have hcond : (∀ y ∈ b :: D, y ≤ x) ↔ ∀ y ∈ D, y ≤ x := by simp [hx]
    unfold surplus
    simp only [hcond, count_cons, Nat.add_sub_add_right]
  · have hx := not_le.mp hx
    rw [surplus_of_count_eq_zero (count_eq_zero_of_lt hB hx),
      surplus_of_count_eq_zero (count_eq_zero_of_lt _ hx)]
    simpa using hB

/-- A base head below the subtract stream is passed on. -/
lemma surplus_cons_of_lt (hbd : b < d) (hD : ∀ y ∈ D, d ≤ y) :
    surplus (b :: B) (d :: D) failed x = surplus B (d :: D) failed x + if b = x then 1 else 0 := by
  by_cases hx : b = x
  · subst hx
    have hzero : (d :: D).count b = 0 := count_eq_zero_of_lt (by simpa using hD) hbd
    have hcond : ¬ ∀ y ∈ d :: D, y ≤ b := fun h => absurd (h d (by simp)) (not_le.mpr hbd)
    simp only [surplus, hcond, and_false, if_false, hzero, count_cons_self, if_true]
    omega
  · simp only [surplus, count_cons_of_ne hx, if_neg hx, Nat.add_zero]

lemma surplus_dropWhile (hB : ∀ y ∈ B, b ≤ y) :
    surplus B D failed x = surplus B (D.dropWhile (· < b)) failed x := by
  by_cases hx : b ≤ x
  · have hbelow : ∀ y ∈ D.takeWhile (· < b), y < b := fun y hy => by
      simpa only [decide_eq_true_iff] using mem_takeWhile_imp hy
    have happ := takeWhile_append_dropWhile (p := (· < b)) (l := D)
    have hcond : (∀ y ∈ D, y ≤ x) ↔ ∀ y ∈ D.dropWhile (· < b), y ≤ x := by
      refine ⟨fun h y hy => h y (dropWhile_suffix _ |>.subset hy), fun h y hy => ?_⟩
      rw [← happ] at hy
      rcases mem_append.mp hy with hy | hy
      · exact (hbelow y hy).le.trans hx
      · exact h y hy
    have hcount : D.count x = (D.dropWhile (· < b)).count x := by
      have hzero : (D.takeWhile (· < b)).count x = 0 :=
        count_eq_zero.mpr fun h => absurd (hbelow x h) (not_lt.mpr hx)
      conv_lhs => rw [← happ, count_append, hzero, Nat.zero_add]
    simp only [surplus, hcond, hcount]
  · have hzero := count_eq_zero_of_lt hB (not_le.mp hx)
    rw [surplus_of_count_eq_zero hzero, surplus_of_count_eq_zero hzero]

end

lemma count_onDifferenceError (base diff : Iter String) {b} (hne : "" ∉ b :: base.items) :
    (onDifferenceError diff.err b base).items.count x =
      surplus (b :: base.items) [] (diff.failure.isSome = true) x := by
  unfold onDifferenceError surplus
  by_cases h : diff.failure.isSome
  · rw [if_pos ((handleError_iff diff).mpr h), if_pos ⟨h, by simp⟩]
    rfl
  · rw [if_neg (mt (handleError_iff diff).mp h), if_neg (fun hc => h hc.1),
      drainBase_items _ _ _ hne]
    rfl

lemma count_differenceLoop (n : Nat) (b : String) (base : Iter String) (d : String)
    (diff : Iter String) (hB : (b :: base.items).Pairwise (· ≤ ·))
    (hD : (d :: diff.items).Pairwise (· ≤ ·)) (hne : "" ∉ b :: base.items)
    (hn : base.items.length + diff.items.length < n) :
    (differenceLoop n b base d diff).items.count x =
      surplus (b :: base.items) (d :: diff.items) (diff.failure.isSome = true) x := by
  induction n generalizing b base d diff with
  | zero => omega
  | succ n ih =>
    obtain ⟨hb, hB'⟩ := pairwise_cons.mp hB
    obtain ⟨hd, hD'⟩ := pairwise_cons.mp hD
    have hneb : b ≠ "" := fun h => hne (by simp [h])
    have hne' : "" ∉ base.items := fun h => hne (mem_cons_of_mem _ h)
    obtain ⟨bs, berr⟩ := base
    rw [differenceLoop]
    split
    next heq =>
      subst heq
      rw [surplus_cons_cons hb]
      cases bs with
      | nil => rw [surplus_of_count_eq_zero (by simp)]; rfl
      | cons b' bs =>
        obtain ⟨ds, derr⟩ := diff
        cases ds with
        | nil => exact count_onDifferenceError ⟨bs, berr⟩ ⟨[], derr⟩ hne'
        | cons d' ds =>
          refine ih b' ⟨bs, berr⟩ d' ⟨ds, derr⟩ hB' hD' hne' ?_
          simp only [length_cons] at hn ⊢
          omega
    · split
      next hlt =>
        rw [surplus_cons_of_lt hlt hd]
        cases bs with
        | nil =>
          rw [surplus_of_count_eq_zero (by simp)]
          exact (count_add hneb _).trans (by simp [count_singleton])
        | cons b' bs =>
          refine (count_add hneb _).trans ?_
          rw [count_cons, ih b' ⟨bs, berr⟩ d diff hB' hD hne' ?_]
          · simp
          · simp only [length_cons] at hn
            show bs.length + diff.items.length < n
            omega
      next hne₁ hnlt =>
        have hlt : d < b := lt_of_le_of_ne (not_lt.mp hnlt) (Ne.symm hne₁)
        rw [surplus_dropWhile (b := b) (by simpa using hb),
          dropWhile_cons_of_pos (by rwa [decide_eq_true_iff]), skipTo_eq]
        have hsub := dropWhile_sublist (l := diff.items) (· < b)
        cases hdrop : diff.items.dropWhile (· < b) with
        | nil => exact count_onDifferenceError ⟨bs, berr⟩ diff hne
        | cons d' ds =>
          rw [hdrop] at hsub
          refine ih b ⟨bs, berr⟩ d' ⟨ds, diff.err⟩ hB (hD'.sublist hsub) hne ?_
          have hlen := hsub.length_le
          rw [length_cons] at hlen
          have hn : bs.length + diff.items.length < n + 1 := hn
          show bs.length + ds.length < n
          omega

lemma drainBase_sublist (value : String) (vs : List String) (err : Option Err) :
    (drainBase value vs err).items.Sublist (value :: vs) := by
  induction vs generalizing value with
  | nil => exact add_sublist _ _
  | cons v vs ih => exact (add_sublist _ _).trans ((ih v).cons_cons value)

lemma onDifferenceError_sublist (err : Option Err) (value : String) (base : Iter String) :
    (onDifferenceError err value base).items.Sublist (value :: base.items) := by
  unfold onDifferenceError
  split
  · exact nil_sublist _
  · exact drainBase_sublist _ _ _

lemma differenceLoop_sublist (n : Nat) (b : String) (base : Iter String) (d : String)
    (diff : Iter String) :
    (differenceLoop n b base d diff).items.Sublist (b :: base.items) := by
  induction n generalizing b base d diff with
  | zero => exact nil_sublist _
  | succ n ih =>
    obtain ⟨bs, berr⟩ := base
    rw [differenceLoop]
    split
    · refine List.Sublist.trans ?_ (sublist_cons_self b bs)
      cases bs with
      | nil => exact nil_sublist _
      | cons b' bs =>
        simp only [Iter.next]
        split
        · exact onDifferenceError_sublist _ b' ⟨bs, berr⟩
        · exact ih b' ⟨bs, berr⟩ _ _
    · split
      · cases bs with
        | nil => exact add_sublist _ _
        | cons b' bs => exact (add_sublist _ _).trans ((ih b' ⟨bs, berr⟩ d diff).cons_cons b)
      · split
        · exact onDifferenceError_sublist _ b ⟨bs, berr⟩
        · exact ih b ⟨bs, berr⟩ _ _

lemma resolveDifference_sublist (base : Iter String) (rest : List (Iter String)) :
    (resolveDifference (base :: rest)).items.Sublist base.items := by
  obtain ⟨bs, berr⟩ := base
  cases bs with
  | nil => exact nil_sublist _
  | cons b bs =>
    simp only [resolveDifference, Iter.next]
    split
    · exact drainBase_sublist _ _ _
    · split
      · exact onDifferenceError_sublist _ b ⟨bs, berr⟩
      · exact differenceLoop_sublist _ b ⟨bs, berr⟩ _ _

section
variable {base diff : Iter String} (hB : base.items.Pairwise (· ≤ ·))
  (hD : diff.items.Pairwise (· ≤ ·)) (hne : "" ∉ base.items)
include hB hD hne

lemma count_resolveDifference :
    (resolveDifference [base, diff]).items.count x =
      surplus base.items diff.items (diff.failure.isSome = true) x := by
  obtain ⟨bs, berr⟩ := base
  cases bs with
  | nil => rw [surplus_of_count_eq_zero (by simp)]; rfl
  | cons b bs =>
    obtain ⟨ds, derr⟩ := diff
    cases ds with
    | nil => exact count_onDifferenceError ⟨bs, berr⟩ ⟨[], derr⟩ hne
    | cons d ds =>
      refine count_differenceLoop _ b ⟨bs, berr⟩ d ⟨ds, derr⟩ hB hD hne ?_
      simp only [length_cons]
      omega

theorem mem_resolveDifference :
    x ∈ (resolveDifference [base, diff]).items ↔
      diff.items.count x < base.items.count x ∧
        ¬ (diff.failure.isSome ∧ ∀ d ∈ diff.items, d ≤ x) := by
  rw [← count_pos_iff, count_resolveDifference hB hD hne, surplus]
  split
  next h => exact iff_of_false (lt_irrefl 0) fun hc => hc.2 h
  next h =>
    simp only [h, not_false_eq_true, and_true]
    omega

end

end

end OpenFGA.Check
