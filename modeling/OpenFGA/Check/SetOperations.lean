/-
  The set operations of `internal/check/bottom_up.go` as operations on sets.

  `resolveUnion`, `resolveIntersection` and `resolveDifference` read sorted streams
  and send batches; a deferred `batcher.close` sends what is left, closes the channel
  and stops the inputs.  Union and intersection of sorted streams are the union and
  the intersection of their ids.  The difference is not: equal heads advance both
  streams by one, so an id that the base yields more often than the subtracted
  stream comes through.
-/

import OpenFGA.Check.Weight2

namespace OpenFGA.Check
open Cursor List

/-! ## resolveIntersection -/

/-- The stream with its head put back. -/
def Cursor.stream (c : Cursor) : Iter String := c.iter.cons c.value

/-- The stream from the first id on that is not below `m`. -/
def notBelow (m : String) (it : Iter String) : Iter String :=
  ⟨it.items.dropWhile (· < m), it.err⟩

/-- The number of ids the streams still yield. -/
def size (its : List (Iter String)) : Nat := (its.map (·.items.length)).sum

@[simp] lemma size_cons (it : Iter String) (its : List (Iter String)) :
    size (it :: its) = it.items.length + size its := rfl

lemma nextAll_ok {its cs} (h : nextAll its = .ok cs) :
    cs.map stream = its := by
  induction its generalizing cs with
  | nil => cases h; rfl
  | cons it its ih =>
    obtain ⟨_ | ⟨x, xs⟩, err⟩ := it
    · cases h
    · cases hrest : nextAll its with
      | error e => simp [nextAll, Iter.next, hrest, bind, Except.bind] at h
      | ok cs' =>
        simp only [nextAll, Iter.next, hrest, bind, Except.bind, pure, Except.pure,
          Except.ok.injEq] at h
        rw [← h, map_cons, ih hrest]
        rfl

lemma nextAll_error {its err} (h : nextAll its = .error err) : ∃ it ∈ its, it.items = [] := by
  induction its with
  | nil => cases h
  | cons it its ih =>
    obtain ⟨_ | ⟨x, xs⟩, err'⟩ := it
    · exact ⟨_, mem_cons_self, rfl⟩
    · cases hrest : nextAll its with
      | error e =>
        obtain rfl : e = err := by
          simpa [nextAll, Iter.next, hrest, bind, Except.bind] using h
        obtain ⟨it, hit, hnil⟩ := ih hrest
        exact ⟨it, mem_cons_of_mem _ hit, hnil⟩
      | ok cs' => simp [nextAll, Iter.next, hrest, bind, Except.bind, pure, Except.pure] at h

lemma notBelow_stream_of_lt {m} {c : Cursor} (h : c.value < m) :
    notBelow m c.stream = notBelow m c.iter := by
  rw [notBelow, stream, Iter.cons_items,
    dropWhile_cons_of_pos (by rwa [decide_eq_true_iff])]
  rfl

lemma notBelow_stream_of_le {m} {c : Cursor} (h : ¬ c.value < m) :
    notBelow m c.stream = c.stream := by
  rw [notBelow, stream, Iter.cons_items,
    dropWhile_cons_of_neg (by rwa [decide_eq_true_iff])]
  rfl

/-- To advance the streams whose head is below `m` is to read the heads of the
    streams from `m` on. -/
lemma skipAll_eq (m : String) (cs : List Cursor) :
    skipAll m cs = nextAll (cs.map fun c => notBelow m c.stream) := by
  induction cs with
  | nil => rfl
  | cons c cs ih =>
    rw [skipAll, map_cons, nextAll, ← ih]
    split
    next h =>
      rw [skipTo_eq, notBelow_stream_of_lt h]
      rfl
    next h =>
      rw [notBelow_stream_of_le h]
      rfl

lemma maxValue_spec (v : String) (cs : List Cursor) :
    v ≤ maxValue v cs ∧ (∀ c ∈ cs, c.value ≤ maxValue v cs) ∧
      (maxValue v cs = v ∨ ∃ c ∈ cs, maxValue v cs = c.value) := by
  induction cs generalizing v with
  | nil => exact ⟨le_refl v, by simp, .inl rfl⟩
  | cons c cs ih =>
    obtain ⟨hv, hcs, hmem⟩ := ih (if v < c.value then c.value else v)
    have hmax : maxValue v (c :: cs) = maxValue (if v < c.value then c.value else v) cs := rfl
    rw [hmax]
    split at hv
    next h =>
      rw [if_pos h] at hcs hmem ⊢
      refine ⟨h.le.trans hv, forall_mem_cons.mpr ⟨hv, hcs⟩, .inr ?_⟩
      rw [exists_mem_cons_iff]
      exact hmem
    next h =>
      rw [if_neg h] at hcs hmem ⊢
      refine ⟨hv, forall_mem_cons.mpr ⟨(not_lt.mp h).trans hv, hcs⟩, hmem.imp_right ?_⟩
      rintro ⟨c', hc', heq⟩
      exact ⟨c', mem_cons_of_mem _ hc', heq⟩

/-- The ids of `out` are those that all streams share, in order. -/
structure Intersects (its : List (Iter String)) (out : Iter String) : Prop where
  sorted : out.items.Pairwise (· ≤ ·)
  mem : ∀ x, x ∈ out.items ↔ ∀ it ∈ its, x ∈ it.items

section
variable {its : List (Iter String)} {out : Iter String} {m v : String}

theorem Intersects.nil (h : ∃ it ∈ its, it.items = []) (err : Option Err) :
    Intersects its ⟨[], err⟩ where
  sorted := List.Pairwise.nil
  mem x := by
    obtain ⟨it, hit, hnil⟩ := h
    refine iff_of_false not_mem_nil fun hall => ?_
    have := hall it hit
    rw [hnil] at this
    cases this

lemma Intersects.head (h : Intersects its out) (hne : its ≠ [])
    (hs : ∀ it ∈ its, (v :: it.items).Pairwise (· ≤ ·)) (hv : v ≠ "") :
    Intersects (its.map (·.cons v)) (add v out) := by
  obtain ⟨it₀, hit₀⟩ := exists_mem_of_ne_nil its hne
  refine ⟨?_, fun x => ?_⟩
  · rw [add, if_neg hv, Iter.cons_items, pairwise_cons]
    exact ⟨fun x hx => (pairwise_cons.mp (hs it₀ hit₀)).1 x ((h.mem x).mp hx it₀ hit₀),
      h.sorted⟩
  · rw [add, if_neg hv, Iter.cons_items, mem_cons, h.mem, forall_mem_map]
    simp only [Iter.cons_items, mem_cons]
    by_cases hx : x = v
    · simp [hx]
    · simp [hx]

/-- Ids below the head of some stream are not shared. -/
lemma Intersects.of_notBelow (h : Intersects (its.map (notBelow m)) out)
    (hm : ∃ it ∈ its, ∀ y ∈ it.items, m ≤ y) : Intersects its out := by
  refine ⟨h.sorted, fun x => (h.mem x).trans ?_⟩
  rw [forall_mem_map]
  constructor
  · exact fun hall it hit => (dropWhile_sublist _).subset (hall it hit)
  · intro hall it hit
    obtain ⟨it', hit', hle⟩ := hm
    have hmx : m ≤ x := hle x (hall it' hit')
    have hsplit := hall it hit
    rw [← takeWhile_append_dropWhile (p := (· < m)) (l := it.items),
      mem_append] at hsplit
    refine hsplit.resolve_left fun htake => ?_
    have hlt := mem_takeWhile_imp (p := fun y => decide (y < m)) htake
    exact absurd (of_decide_eq_true hlt) (not_lt.mpr hmx)

lemma size_notBelow_le (m : String) (its : List (Iter String)) :
    size (its.map (notBelow m)) ≤ size its := by
  induction its with
  | nil => exact le_refl _
  | cons it its ih =>
    rw [map_cons, size_cons, size_cons]
    exact Nat.add_le_add (dropWhile_sublist _).length_le ih

lemma size_notBelow_lt {cs : List Cursor} (h : ∃ c ∈ cs, c.value < m) :
    size (cs.map fun c => notBelow m c.stream) < size (cs.map stream) := by
  obtain ⟨c, hc, hlt⟩ := h
  obtain ⟨cs₁, cs₂, rfl⟩ := append_of_mem hc
  have hrest (cs : List Cursor) :
      size (cs.map fun c => notBelow m c.stream) ≤ size (cs.map stream) := by
    have := size_notBelow_le m (cs.map stream)
    rwa [map_map] at this
  have hhead : (notBelow m c.stream).items.length < c.stream.items.length := by
    rw [notBelow_stream_of_lt hlt]
    exact Nat.lt_succ_of_le (dropWhile_sublist _).length_le
  have h₁ := hrest cs₁
  have h₂ := hrest cs₂
  simp only [size, map_append, map_cons, sum_append, sum_cons] at h₁ h₂ ⊢
  omega

end

lemma size_iter_lt {cs} (h : cs ≠ []) :
    size (cs.map (·.iter)) < size (cs.map stream) := by
  have hle (cs : List Cursor) : size (cs.map (·.iter)) ≤ size (cs.map stream) := by
    induction cs with
    | nil => exact le_refl _
    | cons c cs ih =>
      rw [map_cons, map_cons, size_cons, size_cons]
      exact Nat.add_le_add (Nat.le_succ _) ih
  cases cs with
  | nil => exact absurd rfl h
  | cons c cs =>
    rw [map_cons, map_cons, size_cons, size_cons]
    exact Nat.add_lt_add_of_lt_of_le (Nat.lt_succ_self _) (hle cs)

/-- With fuel for every id, the loop yields what the streams share. -/
lemma intersectionLoop_spec (n : Nat) (cs : List Cursor) (hne : cs ≠ [])
    (hs : ∀ it ∈ cs.map stream, it.items.Pairwise (· ≤ ·) ∧ "" ∉ it.items)
    (hn : size (cs.map stream) ≤ n) :
    Intersects (cs.map stream) (intersectionLoop n cs) := by
  induction n generalizing cs with
  | zero => exact absurd (size_iter_lt hne) (by omega)
  | succ n ih =>
    obtain ⟨c, cs, rfl⟩ := exists_cons_of_ne_nil hne
    have hhead : ∀ c' ∈ c :: cs, c'.stream.items.Pairwise (· ≤ ·) ∧ "" ∉ c'.stream.items :=
      fun c' hc' => hs _ (mem_map_of_mem hc')
    rw [intersectionLoop]
    split
    next hall =>
      have hvalue : ∀ c' ∈ c :: cs, c'.value = c.value := by
        refine forall_mem_cons.mpr ⟨rfl, fun c' hc' => ?_⟩
        exact beq_iff_eq.mp (all_eq_true.mp hall c' hc')
      have hstreams : (c :: cs).map stream =
          ((c :: cs).map (·.iter)).map (·.cons c.value) := by
        rw [map_map]
        exact map_congr_left fun c' hc' => by simp [stream, hvalue c' hc']
      have hsorted : ∀ it ∈ (c :: cs).map (·.iter), (c.value :: it.items).Pairwise (· ≤ ·) := by
        refine forall_mem_map.mpr fun c' hc' => ?_
        rw [← hvalue c' hc']
        exact (hhead c' hc').1
      have hv : c.value ≠ "" := fun h =>
        (hhead c mem_cons_self).2 (by simp [stream, h])
      rw [hstreams]
      split
      next herr => exact (Intersects.nil (nextAll_error herr) _).head (by simp) hsorted hv
      next next hok =>
        have hnext := nextAll_ok hok
        refine Intersects.head ?_ (by simp) hsorted hv
        rw [← hnext]
        refine ih next ?_ ?_ ?_
        · rintro rfl
          cases hnext
        · rw [hnext]
          refine forall_mem_map.mpr fun c' hc' => ?_
          exact ⟨(hhead c' hc').1.of_cons,
            fun hmem => (hhead c' hc').2 (mem_cons_of_mem _ hmem)⟩
        · rw [hnext]
          exact Nat.le_of_lt_succ ((size_iter_lt hne).trans_le hn)
    next hall =>
      obtain ⟨hv, hcs, hmem⟩ := maxValue_spec c.value cs
      generalize hm : maxValue c.value cs = m at hv hcs hmem ⊢
      have hbelow : ∃ c' ∈ c :: cs, c'.value < m := by
        by_contra hnone
        simp only [not_exists, not_and, not_lt] at hnone
        have hc := le_antisymm hv (hnone c mem_cons_self)
        refine hall (all_eq_true.mpr fun c' hc' => beq_iff_eq.mpr ?_)
        exact (le_antisymm (hcs c' hc') (hnone c' (mem_cons_of_mem _ hc'))).trans hc.symm
      have hreach : ∃ it ∈ (c :: cs).map stream, ∀ y ∈ it.items, m ≤ y := by
        obtain ⟨c', hc', rfl⟩ : ∃ c' ∈ c :: cs, m = c'.value := by
          rw [exists_mem_cons_iff]
          exact hmem
        refine ⟨_, mem_map_of_mem hc', fun y hy => ?_⟩
        rcases mem_cons.mp hy with rfl | hy
        · exact le_refl _
        · exact (pairwise_cons.mp (hhead c' hc').1).1 y hy
      have hdrop : (c :: cs).map (fun c' => notBelow m c'.stream) =
          ((c :: cs).map stream).map (notBelow m) := by
        rw [map_map]
        rfl
      refine Intersects.of_notBelow ?_ hreach
      rw [skipAll_eq, ← hdrop]
      split
      next herr => exact Intersects.nil (nextAll_error herr) _
      next next hok =>
        have hnext := nextAll_ok hok
        rw [← hnext]
        refine ih next ?_ ?_ ?_
        · rintro rfl
          cases hnext
        · rw [hnext]
          refine forall_mem_map.mpr fun c' hc' => ?_
          have hsub := dropWhile_sublist (l := c'.stream.items) (· < m)
          exact ⟨(hhead c' hc').1.sublist hsub, fun hmem => (hhead c' hc').2 (hsub.subset hmem)⟩
        · rw [hnext]
          exact Nat.le_of_lt_succ ((size_notBelow_lt hbelow).trans_le hn)

lemma resolveIntersection_spec {iters} (hne : iters ≠ [])
    (hs : ∀ it ∈ iters, it.items.Pairwise (· ≤ ·) ∧ "" ∉ it.items) :
    Intersects iters (resolveIntersection iters) := by
  unfold resolveIntersection
  split
  next herr => exact Intersects.nil (nextAll_error herr) _
  next cs hok =>
    have hstreams := nextAll_ok hok
    have := intersectionLoop_spec (size iters + 1) cs (by rintro rfl; exact hne hstreams.symm)
      (by rw [hstreams]; exact hs) (by rw [hstreams]; exact Nat.le_succ _)
    rwa [hstreams] at this

/-! ## What goes through the channel -/

/-- What a set operation does to its channel and its inputs. -/
inductive Event where
  | send (msg : Except Err (List String))
  | close
  /-- `Stop` of the input iterator with this index. -/
  | stop (idx : Nat)
deriving DecidableEq

/-- A set operation with its deferred `batcher.close`. -/
def events (resolve : List (Iter String) → Iter String) (iters : List (Iter String)) :
    List Event :=
  (messages (resolve iters)).map .send ++ .close :: (range iters.length).map .stop

/-- The ids in the batches that are sent. -/
def sentIDs (evs : List Event) : List String :=
  evs.flatMap fun
    | .send (.ok ids) => ids
    | _ => []

/-- The operation sends the ids in `S` in order, closes the channel once and stops
    every input. -/
structure Computes (resolve : List (Iter String) → Iter String) (iters : List (Iter String))
    (S : String → Prop) : Prop where
  sorted : (sentIDs (events resolve iters)).Pairwise (· ≤ ·)
  mem : ∀ x, x ∈ sentIDs (events resolve iters) ↔ S x
  closed : (events resolve iters).count .close = 1
  stopped : ∀ i < iters.length, Event.stop i ∈ events resolve iters

section
variable {resolve : List (Iter String) → Iter String} {iters : List (Iter String)}
  {S : String → Prop}

lemma sentIDs_events (resolve : List (Iter String) → Iter String) (iters : List (Iter String)) :
    sentIDs (events resolve iters) = (resolve iters).items := by
  rw [← Weight2.Execute.leftIDs_messages, sentIDs, events, Weight2.Execute.leftIDs,
    flatMap_append, flatMap_cons, flatMap_map, flatMap_map]
  have hstops : (range iters.length).flatMap (fun _ => ([] : List String)) = [] := by simp
  rw [hstops, append_nil, append_nil]
  refine flatMap_congr fun msg _ => ?_
  cases msg <;> rfl

lemma computes_iff :
    Computes resolve iters S ↔
      (resolve iters).items.Pairwise (· ≤ ·) ∧ ∀ x, x ∈ (resolve iters).items ↔ S x := by
  constructor
  · intro h
    rw [← sentIDs_events]
    exact ⟨h.sorted, h.mem⟩
  · intro h
    rw [← sentIDs_events] at h
    refine ⟨h.1, h.2, ?_, fun i hi => by simp [events, hi]⟩
    have hsend : ((messages (resolve iters)).map Event.send).count .close = 0 :=
      count_eq_zero.mpr (by simp)
    have hstop : ((range iters.length).map Event.stop).count .close = 0 :=
      count_eq_zero.mpr (by simp)
    rw [events, count_append, count_cons_self, hsend, hstop]

end

/-- A stream of ids as the operations expect it: sorted, and at its end done. -/
structure SortedIDs (it : Iter String) : Prop where
  sorted : it.items.Pairwise (· ≤ ·)
  ne_empty : "" ∉ it.items
  done : it.err = none

/-- No id of the second stream comes more often in the first. -/
def NoSurplus : List (Iter String) → Prop
  | [base, diff] => ∀ x ∈ diff.items, base.items.count x ≤ diff.items.count x
  | _ => True

/-- The difference of one or two streams. -/
def InDifference : List (Iter String) → String → Prop
  | [], _ => False
  | base :: rest, x => x ∈ base.items ∧ ∀ diff ∈ rest, x ∉ diff.items

lemma computes_resolveDifference_iff {iters} (hne : iters ≠ [])
    (hlen : iters.length ≤ 2) (hs : ∀ it ∈ iters, SortedIDs it) :
    Computes resolveDifference iters (InDifference iters) ↔ NoSurplus iters := by
  rw [computes_iff]
  match iters, hne, hlen, hs with
  | [base], _, _, hs =>
    have hbase := hs base mem_cons_self
    have hitems : (resolveDifference [base]).items = base.items := by
      obtain ⟨_ | ⟨b, bs⟩, err⟩ := base
      · rfl
      · exact drainBase_items b bs err hbase.ne_empty
    rw [hitems]
    exact iff_of_true ⟨hbase.sorted, fun x => by simp [InDifference]⟩ trivial
  | [base, diff], _, _, hs =>
    have hbase := hs base mem_cons_self
    have hdiff := hs diff (mem_cons_of_mem _ mem_cons_self)
    have hmem (x : String) : x ∈ (resolveDifference [base, diff]).items ↔
        diff.items.count x < base.items.count x := by
      rw [mem_resolveDifference hbase.sorted hdiff.sorted hbase.ne_empty, Iter.failure, hdiff.done]
      simp
    have hsorted : (resolveDifference [base, diff]).items.Pairwise (· ≤ ·) :=
      hbase.sorted.sublist (resolveDifference_sublist base [diff])
    constructor
    · rintro ⟨-, hset⟩ x hx
      by_contra hlt
      have := (hset x).mp ((hmem x).mpr (not_le.mp hlt))
      exact this.2 diff mem_cons_self hx
    · refine fun hcount => ⟨hsorted, fun x => (hmem x).trans ?_⟩
      simp only [InDifference, forall_mem_singleton]
      constructor
      · intro hlt
        exact ⟨count_pos_iff.mp (Nat.zero_lt_of_lt hlt),
          fun hx => absurd (hcount x hx) (not_le.mpr hlt)⟩
      · rintro ⟨hx, hnot⟩
        rw [count_eq_zero.mpr hnot]
        exact count_pos_iff.mpr hx

/-- Union and intersection compute the sets they are named after; the difference of
    one or two streams does exactly when no id of the second stream comes more often
    in the first. -/
theorem setOperations_iff {iters : List (Iter String)} (hne : iters ≠ [])
    (hs : ∀ it ∈ iters, SortedIDs it) :
    (Computes resolveUnion iters (fun x => ∃ it ∈ iters, x ∈ it.items) ∧
      Computes resolveIntersection iters (fun x => ∀ it ∈ iters, x ∈ it.items) ∧
      (iters.length ≤ 2 → Computes resolveDifference iters (InDifference iters))) ↔
    NoSurplus iters := by
  have hunion : Computes resolveUnion iters fun x => ∃ it ∈ iters, x ∈ it.items := by
    have hsorted (it : Iter String) (hit : it ∈ iters) := (hs it hit).sorted
    obtain ⟨hpair, hmem, -⟩ := resolveUnion_spec (fun _ _ => le_of_lt) hsorted
    refine computes_iff.mpr ⟨hpair, fun x => ?_⟩
    rw [hmem, and_iff_right_iff_imp]
    rintro ⟨it, hit, hx⟩ rfl
    exact (hs it hit).ne_empty hx
  have hinter := resolveIntersection_spec hne fun it hit =>
    ⟨(hs it hit).sorted, (hs it hit).ne_empty⟩
  constructor
  · rintro ⟨-, -, hdiff⟩
    match iters, hdiff, hne, hs with
    | [base, diff], hdiff, hne, hs =>
      exact (computes_resolveDifference_iff hne (le_refl 2) hs).mp (hdiff (le_refl 2))
    | [], _, _, _ => trivial
    | [_], _, _, _ => trivial
    | _ :: _ :: _ :: _, _, _, _ => trivial
  · exact fun h => ⟨hunion, computes_iff.mpr ⟨hinter.sorted, hinter.mem⟩,
      fun hlen => (computes_resolveDifference_iff hne hlen hs).mpr h⟩

/-- `anne` is blocked from one document by a stored and a contextual tuple. -/
theorem setOperations_iff_blocked :
    Computes resolveDifference [⟨["doc:1", "doc:2"], none⟩, ⟨["doc:1", "doc:1"], none⟩]
      (InDifference [⟨["doc:1", "doc:2"], none⟩, ⟨["doc:1", "doc:1"], none⟩]) :=
  ((setOperations_iff (by simp) (by
    simp only [forall_mem_cons]
    exact ⟨⟨by decide, by decide, rfl⟩, ⟨by decide, by decide, rfl⟩, by simp⟩)).mpr
      (by simp [NoSurplus])).2.2 (le_refl 2)

/-- A contextual tuple that repeats a stored one survives the exclusion. -/
theorem resolveDifference_leaks :
    ¬ Computes resolveDifference [⟨["doc:1", "doc:1"], none⟩, ⟨["doc:1"], none⟩]
      (InDifference [⟨["doc:1", "doc:1"], none⟩, ⟨["doc:1"], none⟩]) := by
  intro h
  have hleak :
      "doc:1" ∈ (resolveDifference [⟨["doc:1", "doc:1"], none⟩, ⟨["doc:1"], none⟩]).items := by
    decide
  exact (((computes_iff.mp h).2 "doc:1").mp hleak).2 _ mem_cons_self mem_cons_self

end OpenFGA.Check
