/-
  `Weight2.execute` (`internal/check/weight2.go`): the Weight2 strategy looks for an
  id that two streams share.

  The left channel delivers batches of the ids at which the user holds the relation,
  built bottom-up; the right channel delivers the ids below the requested object one
  by one.  The loop receives from both in any order, remembers what it has seen on
  each side and answers true at the first id seen on both.  When the right iterator is
  ordered, ids that can no longer match are not remembered.

  A schedule is the order in which the select takes the two channels; both are read
  under the live context of the request.
-/

import OpenFGA.Lib.Run
import OpenFGA.Check.Response
import OpenFGA.Check.BottomUp

namespace OpenFGA.Check
open List Option

def iteratorMinBatchThreshold : Nat := 100

/-- The batches `batcher` sends; `items` is the batch being filled. -/
def batches (items : List String) : List String → List (List String)
  | [] => if items = [] then [] else [items]
  | val :: vals =>
    if iteratorMinBatchThreshold ≤ items.length + 1 then (items ++ [val]) :: batches [] vals
    else batches (items ++ [val]) vals

/-- The messages on the channel of a plan: the batches, then the error. -/
def messages (it : Iter String) : List (Except Err (List String)) :=
  (batches [] it.items).map .ok ++ it.failure.toList.map .error

lemma flatten_batches (items vals : List String) :
    (batches items vals).flatten = items ++ vals := by
  induction vals generalizing items with
  | nil =>
    rw [batches]
    split
    next h => simp [h]
    · simp
  | cons val vals ih =>
    rw [batches]
    split
    · simp [ih]
    · simp [ih]

namespace Weight2

/-- The variables of `execute`, and the messages still to be received. -/
structure Execute where
  left : List (Except Err (List String))
  right : List (Except Err String)
  leftNil : Bool
  rightNil : Bool
  leftSeen : List String
  rightSeen : List String
  lastLeftVal : String
  lastRightVal : String
  lastErr : Option Err
  ret : Option (Response × Option Err)

namespace Execute

def start (left : List (Except Err (List String))) (right : List (Except Err String)) : Execute :=
  ⟨left, right, false, false, [], [], "", "", none, none⟩

/-- Go through the ids of one left message. -/
def addLeft (pruningEnabled : Bool) (s : Execute) : List String → Execute
  | [] => s
  | t :: ts =>
    if t ∈ s.rightSeen then { s with ret := some (⟨true⟩, none) }
    else if !pruningEnabled || s.lastLeftVal == "" || s.lastRightVal == "" ||
        decide (s.lastRightVal < t) then
      addLeft pruningEnabled { s with lastLeftVal := t, leftSeen := t :: s.leftSeen } ts
    else addLeft pruningEnabled s ts

/-- Receive from the left channel. -/
def onLeft (pruningEnabled : Bool) (s : Execute) : Execute :=
  match s.left with
  | [] =>
    let s := { s with leftNil := true }
    if s.leftSeen = [] then { s with ret := some (⟨false⟩, s.lastErr) } else s
  | .error e :: left => { s with left, lastErr := some e }
  | .ok ts :: left => addLeft pruningEnabled { s with left } ts

/-- Receive from the right channel. -/
def onRight (pruningEnabled : Bool) (s : Execute) : Execute :=
  match s.right with
  | [] =>
    let s := { s with rightNil := true }
    if s.rightSeen = [] then { s with ret := some (⟨false⟩, s.lastErr) } else s
  | .error e :: right => { s with right, lastErr := some e }
  | .ok t :: right =>
    let s := { s with right }
    if t ∈ s.leftSeen then { s with ret := some (⟨true⟩, none) }
    else if !pruningEnabled || s.lastLeftVal == "" || s.lastRightVal == "" ||
        decide (s.lastLeftVal < t) then
      { s with lastRightVal := t, rightSeen := t :: s.rightSeen }
    else s

inductive Act where
  | left
  | right
  /-- Both channels are drained and the loop ends. -/
  | finish
deriving DecidableEq, Repr

def step (pruningEnabled : Bool) (s : Execute) : Act → Option Execute
  | .left => if s.ret = none ∧ s.leftNil = false then some (s.onLeft pruningEnabled) else none
  | .right => if s.ret = none ∧ s.rightNil = false then some (s.onRight pruningEnabled) else none
  | .finish =>
    if s.ret = none ∧ s.leftNil = true ∧ s.rightNil = true then
      some { s with ret := some (⟨false⟩, s.lastErr) }
    else none

/-- The ids in the messages of the left channel. -/
def leftIDs (left : List (Except Err (List String))) : List String :=
  left.flatMap fun msg => msg.toOption.getD []

/-- The ids in the messages of the right channel. -/
def rightIDs (right : List (Except Err String)) : List String :=
  right.filterMap Except.toOption

@[simp] lemma leftIDs_nil : leftIDs [] = [] := rfl

@[simp] lemma leftIDs_ok (ts : List String) (left : List (Except Err (List String))) :
    leftIDs (.ok ts :: left) = ts ++ leftIDs left := rfl

@[simp] lemma leftIDs_error (e : Err) (left : List (Except Err (List String))) :
    leftIDs (.error e :: left) = leftIDs left := rfl

@[simp] lemma rightIDs_nil : rightIDs [] = [] := rfl

@[simp] lemma rightIDs_ok (t : String) (right : List (Except Err String)) :
    rightIDs (.ok t :: right) = t :: rightIDs right := rfl

@[simp] lemma rightIDs_error (e : Err) (right : List (Except Err String)) :
    rightIDs (.error e :: right) = rightIDs right := rfl

/-! ## The answer is whether the two channels share an id -/

/-- One side of the loop: of the ids `received`, those that are not remembered are
    below an id remembered on the other side. -/
structure Side (pruningEnabled : Bool) (received seen : List String) (last : String)
    (other : List String) : Prop where
  subset : ∀ x ∈ seen, x ∈ received
  covered : ∀ x ∈ received, x ∈ seen ∨ (pruningEnabled = true ∧ ∃ y ∈ other, x < y)
  last_mem : last = "" ∨ last ∈ seen
  nonempty : seen = [] → received = []

section Side
variable {pruningEnabled : Bool} {received seen other : List String} {last otherLast t : String}

section
variable (h : Side pruningEnabled received seen last other)
include h

theorem Side.store :
    Side pruningEnabled (received ++ [t]) (t :: seen) t other where
  subset x hx := by
    rcases mem_cons.mp hx with rfl | hx
    · simp
    · exact mem_append_left _ (h.subset x hx)
  covered x hx := by
    rcases mem_append.mp hx with hx | hx
    · exact (h.covered x hx).imp_left (mem_cons_of_mem _)
    · exact .inl (by simp [mem_singleton.mp hx])
  last_mem := .inr mem_cons_self
  nonempty hnil := by cases hnil

/-- An id that is not remembered is below the last one of the other side. -/
lemma Side.skip (hother : otherLast = "" ∨ otherLast ∈ other) (ht : t ∉ other)
    (hskip : ¬ (!pruningEnabled || last == "" || otherLast == "" || decide (otherLast < t)) =
      true) :
    Side pruningEnabled (received ++ [t]) seen last other := by
  simp only [Bool.or_eq_true, Bool.not_eq_true', beq_iff_eq, decide_eq_true_iff, not_or,
    Bool.not_eq_false] at hskip
  obtain ⟨⟨⟨hprune, hlast⟩, hotherLast⟩, hle⟩ := hskip
  have hmem := hother.resolve_left hotherLast
  have hlt : t < otherLast := lt_of_le_of_ne (not_lt.mp hle) fun heq => ht (heq ▸ hmem)
  refine ⟨fun x hx => mem_append_left _ (h.subset x hx), fun x hx => ?_, h.last_mem,
    fun hnil => ?_⟩
  · rcases mem_append.mp hx with hx | hx
    · exact h.covered x hx
    · rw [mem_singleton.mp hx]
      exact .inr ⟨hprune, otherLast, hmem, hlt⟩
  · have := h.last_mem.resolve_left hlast
    rw [hnil] at this
    cases this

lemma Side.mono :
    Side pruningEnabled received seen last (t :: other) :=
  { h with covered := fun x hx => (h.covered x hx).imp_right fun ⟨hp, y, hy, hlt⟩ =>
      ⟨hp, y, mem_cons_of_mem _ hy, hlt⟩ }

/-- The next id of a sorted side is not among the ids that the other side has
    passed over. -/
theorem Side.fresh {all}
    (hsorted : pruningEnabled = true → all.Pairwise (· ≤ ·)) {rest before}
    (hall : all = before ++ t :: rest) (hbefore : ∀ y ∈ other, y ∈ before)
    (ht : t ∉ seen) : t ∉ received := by
  intro hmem
  obtain ⟨hp, y, hy, hlt⟩ := (h.covered t hmem).resolve_left ht
  have hs := hsorted hp
  rw [hall, pairwise_append] at hs
  exact absurd (hs.2.2 y (hbefore y hy) t mem_cons_self) (not_le.mpr hlt)

end

end Side

/-- While the loop runs: `l` and `r` are the ids received so far. -/
structure Running (pruningEnabled : Bool) (L R : List String) (l r : List String) (s : Execute) :
    Prop where
  left_ids : L = l ++ leftIDs s.left
  right_ids : R = r ++ rightIDs s.right
  left : Side pruningEnabled l s.leftSeen s.lastLeftVal s.rightSeen
  right : Side pruningEnabled r s.rightSeen s.lastRightVal s.leftSeen
  leftNil : s.leftNil = true → s.left = []
  rightNil : s.rightNil = true → s.right = []
  /-- No id has come from both sides, if the streams are sorted where pruning needs it. -/
  disjoint : (pruningEnabled = true → L.Pairwise (· ≤ ·) ∧ R.Pairwise (· ≤ ·)) →
    ∀ x ∈ l, x ∉ r

/-- What `execute` may answer. -/
def Answer (pruningEnabled : Bool) (L R : List String) (ret : Response × Option Err) : Prop :=
  (ret.1.allowed = true → ret.2 = none ∧ ∃ x ∈ L, x ∈ R) ∧
    ((pruningEnabled = true → L.Pairwise (· ≤ ·) ∧ R.Pairwise (· ≤ ·)) →
      ret.1.allowed = false → ∀ x ∈ L, x ∉ R)

def Inv (pruningEnabled : Bool) (L R : List String) (s : Execute) : Prop :=
  (s.ret = none → ∃ l r, Running pruningEnabled L R l r s) ∧
    ∀ ret, s.ret = some ret → Answer pruningEnabled L R ret

section
variable {pruningEnabled : Bool} {L R l r : List String} {s s' : Execute}
  {ret : Response × Option Err} {left : List (Except Err (List String))}

lemma Running.inv (h : Running pruningEnabled L R l r s) (hret : s.ret = none) :
    Inv pruningEnabled L R s :=
  ⟨fun _ => ⟨l, r, h⟩, fun ret h => by rw [hret] at h; cases h⟩

lemma inv_of_answer (h : Answer pruningEnabled L R ret)
    (hret : s.ret = some ret) : Inv pruningEnabled L R s :=
  ⟨fun h => (by rw [hret] at h; cases h), fun ret' h' => by rw [hret] at h'; cases h'; exact h⟩

lemma answer_true {x} (hl : x ∈ L) (hr : x ∈ R) :
    Answer pruningEnabled L R (⟨true⟩, none) :=
  ⟨fun _ => ⟨rfl, x, hl, hr⟩, fun _ h => by cases h⟩

lemma answer_false {e}
    (h : (pruningEnabled = true → L.Pairwise (· ≤ ·) ∧ R.Pairwise (· ≤ ·)) → ∀ x ∈ L, x ∉ R) :
    Answer pruningEnabled L R (⟨false⟩, e) :=
  ⟨fun h => (by cases h), fun hs _ => h hs⟩

/-- The ids of a left message, one after the other: `s` before the message is taken
    off still has it in front. -/
lemma Running.addLeft (ts : List String)
    (h : Running pruningEnabled L R l r { s with left := .ok ts :: left })
    (hleft : s.left = left) (hret : s.ret = none) :
    Inv pruningEnabled L R (s.addLeft pruningEnabled ts) := by
  induction ts generalizing s l with
  | nil =>
    refine inv (l := l) (r := r) ?_ hret
    refine ⟨?_, h.right_ids, h.left, h.right, fun hnil => ?_, h.rightNil, h.disjoint⟩
    · rw [h.left_ids, leftIDs_ok, nil_append, ← hleft]
      rfl
    · exact absurd (h.leftNil hnil) (by simp)
  | cons t ts ih =>
    have hids : L = l ++ t :: (ts ++ leftIDs left) := by
      simpa using h.left_ids
    have hids' : L = (l ++ [t]) ++ (ts ++ leftIDs left) := by rw [hids]; simp
    have htL : t ∈ L := by rw [hids]; simp
    rw [Execute.addLeft]
    split
    next hmatch =>
      refine inv_of_answer (answer_true htL ?_) rfl
      rw [h.right_ids]
      exact mem_append_left _ (h.right.subset t hmatch)
    next hfresh =>
      have hdisj : (pruningEnabled = true → L.Pairwise (· ≤ ·) ∧ R.Pairwise (· ≤ ·)) →
          ∀ x ∈ l ++ [t], x ∉ r := by
        intro hs x hx
        rcases mem_append.mp hx with hx | hx
        · exact h.disjoint hs x hx
        · rw [mem_singleton.mp hx]
          exact h.right.fresh (fun hp => (hs hp).1) hids h.left.subset hfresh
      have hleftIDs : L = (l ++ [t]) ++ leftIDs (.ok ts :: left) := by
        rw [hids', leftIDs_ok]
      split
      · refine ih (l := l ++ [t]) (s := { s with lastLeftVal := t, leftSeen := t :: s.leftSeen })
          ?_ hleft hret
        exact ⟨hleftIDs, h.right_ids, h.left.store, h.right.mono,
          fun hnil => absurd (h.leftNil hnil) (by simp), h.rightNil, hdisj⟩
      next hskip =>
        refine ih (l := l ++ [t]) (s := s) ?_ hleft hret
        exact ⟨hleftIDs, h.right_ids, h.left.skip h.right.last_mem hfresh hskip, h.right,
          fun hnil => absurd (h.leftNil hnil) (by simp), h.rightNil, hdisj⟩

lemma Running.onLeft (h : Running pruningEnabled L R l r s) (hret : s.ret = none)
    (hopen : s.leftNil = false) : Inv pruningEnabled L R (s.onLeft pruningEnabled) := by
  unfold Execute.onLeft
  cases hleft : s.left with
  | nil =>
    have hL : L = l := by rw [h.left_ids, hleft]; simp
    simp only
    split
    next hnil =>
      refine inv_of_answer (answer_false fun _ x hx => ?_) rfl
      rw [hL, h.left.nonempty hnil] at hx
      cases hx
    · refine inv (l := l) (r := r) ?_ hret
      exact ⟨by rw [h.left_ids, hleft], h.right_ids, h.left, h.right, fun _ => rfl, h.rightNil,
        h.disjoint⟩
  | cons msg left =>
    cases msg with
    | error e =>
      refine inv (l := l) (r := r) ?_ hret
      refine ⟨?_, h.right_ids, h.left, h.right, fun hnil => ?_, h.rightNil, h.disjoint⟩
      · rw [h.left_ids, hleft, leftIDs_error]
      · rw [show s.leftNil = true from hnil] at hopen
        cases hopen
    | ok ts =>
      refine addLeft (s := { s with left }) (l := l) (r := r) ts ?_ rfl hret
      rw [← hleft]
      exact h

lemma Running.onRight (h : Running pruningEnabled L R l r s) (hret : s.ret = none)
    (hopen : s.rightNil = false) : Inv pruningEnabled L R (s.onRight pruningEnabled) := by
  unfold Execute.onRight
  cases hright : s.right with
  | nil =>
    have hR : R = r := by rw [h.right_ids, hright]; simp
    simp only
    split
    next hnil =>
      refine inv_of_answer (answer_false fun _ x _ hx => ?_) rfl
      rw [hR, h.right.nonempty hnil] at hx
      cases hx
    · refine inv (l := l) (r := r) ?_ hret
      exact ⟨h.left_ids, by rw [h.right_ids, hright], h.left, h.right, h.leftNil, fun _ => rfl,
        h.disjoint⟩
  | cons msg right =>
    have hnil : ∀ {P : Prop}, s.rightNil = true → P := fun hnil => by
      rw [hnil] at hopen
      cases hopen
    cases msg with
    | error e =>
      refine inv (l := l) (r := r) ?_ hret
      refine ⟨h.left_ids, ?_, h.left, h.right, h.leftNil, hnil, h.disjoint⟩
      rw [h.right_ids, hright, rightIDs_error]
    | ok t =>
      have hids : R = r ++ t :: rightIDs right := by
        rw [h.right_ids, hright, rightIDs_ok]
      have hids' : R = (r ++ [t]) ++ rightIDs right := by rw [hids]; simp
      simp only
      split
      next hmatch =>
        refine inv_of_answer (answer_true (x := t) ?_ (by rw [hids]; simp)) rfl
        rw [h.left_ids]
        exact mem_append_left _ (h.left.subset t hmatch)
      next hfresh =>
        have hdisj : (pruningEnabled = true → L.Pairwise (· ≤ ·) ∧ R.Pairwise (· ≤ ·)) →
            ∀ x ∈ l, x ∉ r ++ [t] := by
          intro hs x hx hmem
          rcases mem_append.mp hmem with hmem | hmem
          · exact h.disjoint hs x hx hmem
          · rw [mem_singleton.mp hmem] at hx
            exact h.left.fresh (fun hp => (hs hp).2) hids h.right.subset hfresh hx
        split
        · refine inv (l := l) (r := r ++ [t]) ?_ hret
          exact ⟨h.left_ids, hids', h.left.mono, h.right.store, h.leftNil, hnil, hdisj⟩
        next hskip =>
          refine inv (l := l) (r := r ++ [t]) ?_ hret
          refine ⟨h.left_ids, hids', h.left, h.right.skip h.left.last_mem hfresh ?_,
            h.leftNil, hnil, hdisj⟩
          rwa [Bool.or_right_comm (!pruningEnabled)]

theorem Inv.step {a} (h : Inv pruningEnabled L R s)
    (hs : s.step pruningEnabled a = some s') : Inv pruningEnabled L R s' := by
  cases a <;> simp only [Execute.step, ite_none_right_eq_some, some.injEq] at hs
  case left =>
    obtain ⟨⟨hret, hopen⟩, rfl⟩ := hs
    obtain ⟨l, r, hrun⟩ := h.1 hret
    exact hrun.onLeft hret hopen
  case right =>
    obtain ⟨⟨hret, hopen⟩, rfl⟩ := hs
    obtain ⟨l, r, hrun⟩ := h.1 hret
    exact hrun.onRight hret hopen
  case finish =>
    obtain ⟨⟨hret, hleft, hright⟩, rfl⟩ := hs
    obtain ⟨l, r, hrun⟩ := h.1 hret
    have hL : L = l := by rw [hrun.left_ids, hrun.leftNil hleft]; simp
    have hR : R = r := by rw [hrun.right_ids, hrun.rightNil hright]; simp
    refine inv_of_answer (answer_false fun hs => ?_) rfl
    have hdisj := hrun.disjoint hs
    rwa [← hL, ← hR] at hdisj

/-- In every schedule the answer of `execute` says whether the two channels share an
    id; a negative answer needs sorted streams where ids are pruned. -/
lemma answer_of_run {right acts}
    (hrun : Lts.run (Execute.step pruningEnabled) (start left right) acts = some s)
    (hret : s.ret = some ret) : Answer pruningEnabled (leftIDs left) (rightIDs right) ret := by
  have hstart : Running pruningEnabled (leftIDs left) (rightIDs right) [] []
      (start left right) := by
    refine ⟨by simp [start], by simp [start], ?_, ?_, by simp [start], by simp [start], by simp⟩
    · exact ⟨by simp [start], by simp, .inl rfl, by simp⟩
    · exact ⟨by simp [start], by simp, .inl rfl, by simp⟩
  exact (Lts.run_invariant' (fun _ _ _ hI hs => Inv.step hI hs) (hstart.inv rfl) hrun).2 ret hret

end

section
variable {pruningEnabled : Bool} {s : Execute} {x : String}

/-- A left message either ends the loop with a match, or leaves the right side as it
    was. -/
lemma addLeft_cases (s : Execute) (ts : List String) :
    (s.addLeft pruningEnabled ts).ret = some (⟨true⟩, none) ∨
      ((∀ t ∈ ts, t ∉ s.rightSeen) ∧ (s.addLeft pruningEnabled ts).ret = s.ret ∧
        (s.addLeft pruningEnabled ts).left = s.left ∧
        (s.addLeft pruningEnabled ts).leftNil = s.leftNil ∧
        (s.addLeft pruningEnabled ts).rightSeen = s.rightSeen) := by
  induction ts generalizing s with
  | nil => exact .inr ⟨by simp, rfl, rfl, rfl, rfl⟩
  | cons t ts ih =>
    rw [addLeft]
    split
    · exact .inl rfl
    next hfresh =>
      split
      · refine (ih _).imp_right fun ⟨hts, hrest⟩ => ⟨?_, hrest⟩
        exact forall_mem_cons.mpr ⟨hfresh, hts⟩
      · refine (ih _).imp_right fun ⟨hts, hrest⟩ => ⟨?_, hrest⟩
        exact forall_mem_cons.mpr ⟨hfresh, hts⟩

/-- An id remembered from the right and still to come from the left is found by
    draining the left channel. -/
lemma exists_run_true (pruningEnabled : Bool) (left : List (Except Err (List String)))
    (hleft : s.left = left) (hx : x ∈ leftIDs left) (hseen : x ∈ s.rightSeen) (hret : s.ret = none)
    (hopen : s.leftNil = false) :
    ∃ acts s', Lts.run (step pruningEnabled) s acts = some s' ∧ s'.ret = some (⟨true⟩, none) := by
  induction left generalizing s with
  | nil => cases hx
  | cons msg left ih =>
    have hstep : s.step pruningEnabled .left = some (s.onLeft pruningEnabled) := by
      rw [step, if_pos ⟨hret, hopen⟩]
    -- the first left message, then what is left to do
    suffices h : (s.onLeft pruningEnabled).ret = some (⟨true⟩, none) ∨
        ∃ acts s', Lts.run (step pruningEnabled) (s.onLeft pruningEnabled) acts = some s' ∧
          s'.ret = some (⟨true⟩, none) by
      rcases h with h | ⟨acts, s', hrun, h⟩
      · exact ⟨[.left], _, by rw [Lts.run_cons, hstep]; rfl, h⟩
      · exact ⟨.left :: acts, s', by rw [Lts.run_cons, hstep]; exact hrun, h⟩
    cases msg with
    | error e =>
      have hon : s.onLeft pruningEnabled = { s with left, lastErr := some e } := by
        rw [onLeft, hleft]
      rw [hon]
      exact .inr (ih rfl hx hseen hret hopen)
    | ok ts =>
      have hon : s.onLeft pruningEnabled = addLeft pruningEnabled { s with left } ts := by
        rw [onLeft, hleft]
      rw [hon]
      refine (addLeft_cases { s with left } ts).imp_right fun h => ?_
      obtain ⟨hts, hret', hleft', hnil', hseen'⟩ := h
      refine ih hleft' ?_ (by rw [hseen']; exact hseen) (hret'.trans hret) (hnil'.trans hopen)
      rw [leftIDs_ok] at hx
      exact (mem_append.mp hx).resolve_left fun h => hts x h hseen

/-- For an id of the left channel and a right channel that delivers just this id,
    some schedule answers true. -/
lemma exists_run_of_mem (pruningEnabled : Bool) {left} (hx : x ∈ leftIDs left) :
    ∃ acts s', Lts.run (step pruningEnabled) (start left [.ok x]) acts = some s' ∧
      s'.ret = some (⟨true⟩, none) := by
  have hstep : (start left [.ok x]).step pruningEnabled .right =
      some { start left [] with lastRightVal := x, rightSeen := [x] } := by
    simp [step, onRight, start]
  obtain ⟨acts, s', hrun, hret⟩ := exists_run_true pruningEnabled
    (s := { start left [] with lastRightVal := x, rightSeen := [x] }) left rfl hx (by simp) rfl rfl
  exact ⟨.right :: acts, s', by rw [Lts.run_cons, hstep]; exact hrun, hret⟩

end

lemma leftIDs_messages (it : Iter String) : leftIDs (messages it) = it.items := by
  have herr : (it.failure.toList.map (Except.error (α := List String))).flatMap
      (fun msg => msg.toOption.getD []) = [] := by
    cases it.failure <;> simp [Except.toOption]
  have hok : ((batches [] it.items).map (Except.ok (ε := Err))).flatMap
      (fun msg => msg.toOption.getD []) = (batches [] it.items).flatten := by
    rw [flatMap_map]
    simp [Except.toOption, flatMap_id']
  rw [leftIDs, messages, flatMap_append, herr, hok, flatten_batches]
  simp

/-! ## execute returns -/

section
variable (pruningEnabled : Bool) {s s' : Execute}

lemma addLeft_frame (s : Execute) (ts : List String) :
    (s.addLeft pruningEnabled ts).left = s.left ∧ (s.addLeft pruningEnabled ts).right = s.right ∧
      (s.addLeft pruningEnabled ts).leftNil = s.leftNil ∧
      (s.addLeft pruningEnabled ts).rightNil = s.rightNil ∧
      (s.addLeft pruningEnabled ts).lastErr = s.lastErr := by
  induction ts generalizing s with
  | nil => exact ⟨rfl, rfl, rfl, rfl, rfl⟩
  | cons t ts ih =>
    rw [addLeft]
    split
    · exact ⟨rfl, rfl, rfl, rfl, rfl⟩
    · split <;> exact ih _

/-- A receive from the left takes a message off or finds the channel closed. -/
lemma onLeft_takes (s : Execute) :
    (s.onLeft pruningEnabled).right = s.right ∧
      (s.onLeft pruningEnabled).rightNil = s.rightNil ∧
      (s.left = (s.onLeft pruningEnabled).left ∧ (s.onLeft pruningEnabled).leftNil = true ∨
        s.left.tail = (s.onLeft pruningEnabled).left ∧ s.left ≠ [] ∧
          (s.onLeft pruningEnabled).leftNil = s.leftNil) := by
  unfold onLeft
  split
  · simp only
    split <;> exact ⟨rfl, rfl, .inl ⟨rfl, rfl⟩⟩
  next hleft => exact ⟨rfl, rfl, .inr ⟨by simp [hleft], by simp [hleft], rfl⟩⟩
  next ts left hleft =>
    obtain ⟨h₁, h₂, h₃, h₄, -⟩ := addLeft_frame pruningEnabled { s with left } ts
    exact ⟨h₂, h₄, .inr ⟨by simp [hleft, h₁], by simp [hleft], h₃⟩⟩

lemma onRight_takes (s : Execute) :
    (s.onRight pruningEnabled).left = s.left ∧
      (s.onRight pruningEnabled).leftNil = s.leftNil ∧
      (s.right = (s.onRight pruningEnabled).right ∧ (s.onRight pruningEnabled).rightNil = true ∨
        s.right.tail = (s.onRight pruningEnabled).right ∧ s.right ≠ [] ∧
          (s.onRight pruningEnabled).rightNil = s.rightNil) := by
  unfold onRight
  split
  · simp only
    split <;> exact ⟨rfl, rfl, .inl ⟨rfl, rfl⟩⟩
  next hright => exact ⟨rfl, rfl, .inr ⟨by simp [hright], by simp [hright], rfl⟩⟩
  next hright =>
    simp only
    split
    · exact ⟨rfl, rfl, .inr ⟨by simp [hright], by simp [hright], rfl⟩⟩
    · split <;> exact ⟨rfl, rfl, .inr ⟨by simp [hright], by simp [hright], rfl⟩⟩

/-- What `execute` has still to receive from the left. -/
def leftWork (s : Execute) : Nat := s.left.length + (!s.leftNil).toNat

def rightWork (s : Execute) : Nat := s.right.length + (!s.rightNil).toNat

lemma leftWork_onLeft (h : s.leftNil = false) :
    (s.onLeft pruningEnabled).leftWork < s.leftWork ∧
      (s.onLeft pruningEnabled).rightWork = s.rightWork := by
  obtain ⟨hright, hnil, hleft⟩ := onLeft_takes pruningEnabled s
  refine ⟨?_, by rw [rightWork, hright, hnil, rightWork]⟩
  rcases hleft with ⟨heq, hclosed⟩ | ⟨htail, hne, hopen⟩
  · simp [leftWork, h, hclosed, ← heq]
  · have := length_pos_iff.mpr hne
    simp [leftWork, hopen, ← htail]
    omega

lemma rightWork_onRight (h : s.rightNil = false) :
    (s.onRight pruningEnabled).rightWork < s.rightWork ∧
      (s.onRight pruningEnabled).leftWork = s.leftWork := by
  obtain ⟨hleft, hnil, hright⟩ := onRight_takes pruningEnabled s
  refine ⟨?_, by rw [leftWork, hleft, hnil, leftWork]⟩
  rcases hright with ⟨heq, hclosed⟩ | ⟨htail, hne, hopen⟩
  · simp [rightWork, h, hclosed, ← heq]
  · have := length_pos_iff.mpr hne
    simp [rightWork, hopen, ← htail]
    omega

variable {pruningEnabled}

def work (s : Execute) : Nat := s.leftWork + s.rightWork + s.ret.isNone.toNat

lemma work_step {a} (h : s.step pruningEnabled a = some s') : s'.work < s.work := by
  have hle : s'.ret.isNone.toNat ≤ 1 := Bool.toNat_le _
  cases a <;> simp only [step, ite_none_right_eq_some, some.injEq] at h
  case left =>
    obtain ⟨⟨hret, hopen⟩, rfl⟩ := h
    obtain ⟨hlt, heq⟩ := leftWork_onLeft pruningEnabled hopen
    simp only [work, hret, isNone_none, Bool.toNat_true]
    omega
  case right =>
    obtain ⟨⟨hret, hopen⟩, rfl⟩ := h
    obtain ⟨hlt, heq⟩ := rightWork_onRight pruningEnabled hopen
    simp only [work, hret, isNone_none, Bool.toNat_true]
    omega
  case finish =>
    obtain ⟨⟨hret, -, -⟩, rfl⟩ := h
    simp [work, leftWork, rightWork, hret]

theorem exists_step (pruningEnabled : Bool) (h : s.ret = none) :
    ∃ a s', s.step pruningEnabled a = some s' := by
  by_cases hleft : s.leftNil = false
  · exact ⟨.left, _, if_pos ⟨h, hleft⟩⟩
  · by_cases hright : s.rightNil = false
    · exact ⟨.right, _, if_pos ⟨h, hright⟩⟩
    · exact ⟨.finish, _, if_pos ⟨h, by simpa using hleft, by simpa using hright⟩⟩

/-- With pruning or without, on every order of receiving `execute` returns, and it
    answers whether the sequences have an id in common. -/
theorem execute_settles {left : List (List String)} {right : List String}
    (hleft : left.flatten.Pairwise (· ≤ ·))
    (hright : pruningEnabled = true → right.Pairwise (· ≤ ·)) :
    Lts.Settles (step pruningEnabled) (start (left.map .ok) (right.map .ok)) (·.ret.isSome)
      fun s => ∃ res err, s.ret = some (res, err) ∧
        (res.allowed = true ↔ ∃ x ∈ left.flatten, x ∈ right) := by
  have hL : leftIDs (left.map .ok) = left.flatten := by
    rw [leftIDs, flatMap_map]
    simp [Except.toOption, flatMap_id']
  have hR : rightIDs (right.map .ok) = right := by
    rw [rightIDs, filterMap_map]
    exact filterMap_some
  refine ⟨⟨work (start (left.map .ok) (right.map .ok)), fun acts s' hrun => ?_⟩,
    fun acts s' hrun hended => ?_, fun acts s' hrun hended => ?_⟩
  · exact Nat.le_of_add_right_le (Lts.run_length_le (I := fun _ => True)
      (fun _ _ _ _ _ => trivial) (fun _ _ _ _ h => work_step h) trivial hrun)
  · exact exists_step pruningEnabled (by simpa using hended)
  · obtain ⟨⟨res, err⟩, hret⟩ := isSome_iff_exists.mp hended
    have hanswer := answer_of_run hrun hret
    rw [hL, hR] at hanswer
    refine ⟨res, err, hret, fun h => (hanswer.1 h).2, fun ⟨x, hx, hx'⟩ => ?_⟩
    by_contra hno
    exact hanswer.2 (fun hp => ⟨hleft, hright hp⟩) (Bool.eq_false_of_not_eq_true hno) x hx hx'

end

end Execute

/-- Repeated ids and an empty batch on the left, an ordered iterator on the right. -/
theorem execute_settles_batches :
    ∃ acts s', Lts.run (Execute.step true) (Execute.start ([["1"], [], ["1", "3"]].map .ok)
        (["2", "3"].map .ok)) acts = some s' ∧
      ∃ res err, s'.ret = some (res, err) ∧ res.allowed = true := by
  obtain ⟨acts, s', hrun, hret⟩ : ∃ acts s', Lts.run (Execute.step true)
      (Execute.start ([["1"], [], ["1", "3"]].map .ok) (["2", "3"].map .ok)) acts = some s' ∧
      s'.ret.isSome := ⟨[.right, .left, .left, .right, .left], _, rfl, rfl⟩
  obtain ⟨res, err, hres, hanswer⟩ :=
    (Execute.execute_settles (by decide) (by decide)).good acts s' hrun hret
  exact ⟨acts, s', hrun, res, err, hres, hanswer.mpr ⟨"3", by decide, by decide⟩⟩

end Weight2
end OpenFGA.Check
