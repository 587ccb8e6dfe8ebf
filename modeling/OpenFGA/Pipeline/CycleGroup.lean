/-
  The group of workers on one cycle of the model graph: `track.StatusPool`
  (pipeline/internal/track/reporting.go), `worker.Membership` and
  `worker.CycleGroup` (pipeline/internal/worker/cycle.go).

  A channel that is only ever closed is a Boolean.  The pointers between members are
  indices in the order of joining, which are also the members' indices in the pool.
  `dec` adds to the counter and closes the channel in one step: once the counter is
  zero it stays zero, so that nothing can be seen in between.
-/

import Mathlib

namespace OpenFGA.Pipeline
open Function

/-! ## track.StatusPool -/

/-- `track.StatusPool`; `quiescence` and `ready` say whether the channel is closed
    (the flag `zero` is set exactly when `quiescence` is closed). -/
structure StatusPool where
  pool : List Bool
  inflight : Int
  total : Int
  ready : Bool
  quiescence : Bool
deriving DecidableEq, Repr

namespace StatusPool

def newStatusPool : StatusPool := ⟨[], 0, 0, false, false⟩

def inc (sp : StatusPool) : StatusPool :=
  { sp with total := sp.total + 1, inflight := sp.inflight + 1 }

def dec (sp : StatusPool) : StatusPool :=
  { sp with
    inflight := sp.inflight - 1
    quiescence := sp.quiescence || sp.inflight - 1 == 0 }

/-- Appends a pending source; its index is the old length. -/
def register (sp : StatusPool) : StatusPool := { sp with pool := sp.pool ++ [true] }

/-- `StatusPool.set`: the source at `index` is ready; the last one closes `ready`. -/
def set (sp : StatusPool) (index : Nat) : StatusPool :=
  if sp.pool[index]? = some true then
    let pool := sp.pool.set index false
    { sp with pool, ready := sp.ready || pool.all (! ·) }
  else sp

/-- The first `select` of `Wait` goes through. -/
def passesReady (sp : StatusPool) : Bool := sp.pool.isEmpty || sp.ready

/-- The second `select` of `Wait` goes through. -/
def passesQuiescence (sp : StatusPool) : Bool := decide (sp.total ≤ 0) || sp.quiescence

end StatusPool

/-! ## worker.Membership and worker.CycleGroup -/

/-- `worker.Membership`.  The label and the `next` pointer, which no method but
    `String` reads or which none reads, are left out. -/
structure Membership where
  prev : Nat
  leader : Bool
  /-- `wake` has been closed. -/
  awake : Bool
deriving DecidableEq, Repr

/-- `worker.CycleGroup` with the memberships it hands out. -/
structure CycleGroup where
  statusPool : StatusPool
  size : Nat
  head : Option Nat
  tail : Option Nat
  member : Nat → Membership

namespace CycleGroup

variable {g : CycleGroup} {i j n : Nat}

def newCycleGroup : CycleGroup :=
  ⟨.newStatusPool, 0, none, none, fun _ => ⟨0, false, false⟩⟩

/-- `CycleGroup.Join`: the new member is linked between the tail and the head and takes
    over as the leader. -/
def join (g : CycleGroup) : CycleGroup :=
  let m := g.statusPool.pool.length
  let head := g.head.getD m
  let tail := g.tail.getD m
  -- `g.tail.prev = &m`, then `m.prev = g.head`
  let member := update g.member tail { g.member tail with prev := m }
  let member := update member m ⟨head, false, false⟩
  -- `g.head.leader = false`, then `g.head = &m; g.head.leader = true`
  let member := update member head { member head with leader := false }
  let member := update member m { member m with leader := true }
  { statusPool := g.statusPool.register.inc
    size := g.size + 1
    head := some m
    tail := some tail
    member }

/-- The group after `n` calls of `Join`. -/
def joined : Nat → CycleGroup
  | 0 => newCycleGroup
  | n + 1 => (joined n).join

/-- `Membership.Next`: the member to wake. -/
def next (g : CycleGroup) (i : Nat) : Nat := (g.member i).prev

def wake (g : CycleGroup) (i : Nat) : CycleGroup :=
  { g with member := update g.member i { g.member i with awake := true } }

@[simp] lemma member_wake_self :
    (g.wake i).member i = { g.member i with awake := true } := update_self ..

lemma member_wake_of_ne (h : j ≠ i) : (g.wake i).member j = g.member j :=
  update_of_ne h ..

/-- A call of `Wake` touches nothing but a flag that it sets. -/
lemma wake_keeps (g : CycleGroup) (i j : Nat) :
    ((g.wake i).member j).prev = (g.member j).prev ∧
      ((g.wake i).member j).leader = (g.member j).leader ∧
      ((g.member j).awake = true → ((g.wake i).member j).awake = true) := by
  by_cases hij : j = i
  · subst hij
    rw [member_wake_self]
    exact ⟨rfl, rfl, fun _ => rfl⟩
  · rw [member_wake_of_ne hij]
    exact ⟨rfl, rfl, id⟩

def inc (g : CycleGroup) : CycleGroup := { g with statusPool := g.statusPool.inc }

def dec (g : CycleGroup) : CycleGroup := { g with statusPool := g.statusPool.dec }

/-- `Reporter.Report` of member `i`, the first half of `SignalReady`. -/
def report (g : CycleGroup) (i : Nat) : CycleGroup :=
  { g with statusPool := g.statusPool.set i }

/-! ## The ring that Join builds -/

/-- The pointer that `Next` follows in a ring of `n` members: downwards, and from the
    first member to the last. -/
def ringNext (n i : Nat) : Nat := if i = 0 then n - 1 else i - 1

lemma joined_statusPool (n : Nat) :
    (joined n).statusPool = ⟨List.replicate n true, n, n, false, false⟩ := by
  induction n with
  | zero => rfl
  | succ n ih =>
    show (joined n).statusPool.register.inc = _
    rw [ih, List.replicate_succ']
    simp [StatusPool.register, StatusPool.inc]

lemma joined_ends (n : Nat) :
    (joined (n + 1)).head = some n ∧ (joined (n + 1)).tail = some 0 := by
  induction n with
  | zero => exact ⟨rfl, rfl⟩
  | succ n ih =>
    have hlength : (joined (n + 1)).statusPool.pool.length = n + 1 := by
      rw [joined_statusPool, List.length_replicate]
    refine ⟨congrArg some hlength, ?_⟩
    show some ((joined (n + 1)).tail.getD _) = some 0
    rw [ih.2]
    rfl

/-- Every member points to the one that joined before it, the first to the last, and the
    last is the leader. -/
lemma joined_member (hi : i < n) :
    (joined n).member i = ⟨ringNext n i, decide (i + 1 = n), false⟩ := by
  induction n with
  | zero => exact absurd hi (Nat.not_lt_zero i)
  | succ n ih =>
    have hlength : (joined n).statusPool.pool.length = n := by
      rw [joined_statusPool, List.length_replicate]
    cases n with
    | zero =>
      obtain rfl : i = 0 := by omega
      rfl
    | succ n =>
      show ((joined (n + 1)).join).member i = _
      simp only [join, hlength, (joined_ends n).1, (joined_ends n).2, Option.getD_some]
      rcases Nat.lt_trichotomy i n with hlt | rfl | hgt
      · -- neither the old head nor the new member; the tail gets a new pointer
        have hne : i ≠ n := by omega
        have hne' : i ≠ n + 1 := by omega
        rw [update_of_ne hne', update_of_ne hne, update_of_ne hne']
        rcases Nat.eq_zero_or_pos i with rfl | hpos
        · rw [update_self, ih (by omega)]
          simp [ringNext, Ne.symm hne]
        · rw [update_of_ne (by omega), ih (by omega)]
          simp [ringNext, hne, hne', Nat.ne_of_gt hpos]
      · -- the old head stops being the leader
        have hne : i ≠ i + 1 := by omega
        rw [update_of_ne hne, update_self, update_of_ne hne]
        rcases Nat.eq_zero_or_pos i with rfl | hpos
        · rw [update_self, ih (by omega)]
          simp [ringNext]
        · rw [update_of_ne (by omega), ih (by omega)]
          simp [ringNext, Nat.ne_of_gt hpos]
      · obtain rfl : i = n + 1 := by omega
        have hne : n + 1 ≠ n := by omega
        rw [update_self, update_of_ne hne, update_self]
        simp [ringNext]

end CycleGroup

end OpenFGA.Pipeline
