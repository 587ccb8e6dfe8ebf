/-
  OpenFGA.Lib.Expiring

  A cache whose entries live for the time they were set with.

  The type of an entry depends on its key.  An entry that is set at `now` for `ttl` is there at
  every time before `now + ttl`; expiry is a comparison with the clock and not a step.
-/

import Mathlib

namespace Expiring
open Function

variable {K : Type*} {V : K → Type*}

/-- A value and the first moment at which it is gone. -/
structure Slot (α : Type*) where
  value : α
  expiry : Int
deriving DecidableEq, Repr

/-- What is there of a slot at a time. -/
def live {α : Type*} (now : Int) : Option (Slot α) → Option α
  | none => none
  | some s => if now < s.expiry then some s.value else none

lemma live_eq_some {α : Type*} {now : Int} {o : Option (Slot α)} {v : α} :
    live now o = some v ↔ ∃ s, o = some s ∧ now < s.expiry ∧ s.value = v := by
  cases o with
  | none => simp [live]
  | some s => simp [live, Option.ite_none_right_eq_some]

/-- What was set last under each key. -/
abbrev Cache (V : K → Type*) : Type _ := (k : K) → Option (Slot (V k))

namespace Cache

/-- Nothing was set. -/
def empty : Cache V := fun _ => none

/-- What is there at a time. -/
def get (c : Cache V) (now : Int) (k : K) : Option (V k) := live now (c k)

section
variable [DecidableEq K]

/-- Set an entry. -/
def set (c : Cache V) (now : Int) (k : K) (v : V k) (ttl : Int) : Cache V :=
  update c k (some ⟨v, now + ttl⟩)

/-- Delete an entry. -/
def delete (c : Cache V) (k : K) : Cache V := update c k none

end

section
variable {c : Cache V} {now ttl : Int} {k k' : K} {v : V k}

@[simp] lemma empty_apply : (empty : Cache V) k = none := rfl

lemma get_eq_some : c.get now k = some v ↔ ∃ s, c k = some s ∧ now < s.expiry ∧ s.value = v :=
  live_eq_some

variable [DecidableEq K]

@[simp] lemma set_same : c.set now k v ttl k = some ⟨v, now + ttl⟩ := update_self ..

lemma set_of_ne (h : k' ≠ k) : c.set now k v ttl k' = c k' := update_of_ne h ..

@[simp] lemma delete_same : c.delete k k = none := update_self ..

lemma delete_of_ne (h : k' ≠ k) : c.delete k k' = c k' := update_of_ne h ..

end

end Cache

end Expiring
