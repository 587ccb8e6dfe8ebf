/-
  OpenFGA.Lib.Chan

  Buffered channels of a CSP-style language: a bounded FIFO buffer with a
  close flag.  `send` and `recv` are partial: they are `none` in the states
  where the operation blocks.  A receive from a closed channel drains the
  buffer first and then answers `none` forever, without blocking.
-/

import Mathlib

/-- A channel of capacity `cap`. -/
structure Chan (α : Type*) where
  cap : Nat
  buf : List α
  closed : Bool
deriving DecidableEq, Repr

namespace Chan

variable {α : Type*}

/-- A fresh open channel. -/
def make (cap : Nat) : Chan α := ⟨cap, [], false⟩

/-- Send a value; blocks while the buffer is full.  No value is ever sent on a
    closed channel. -/
def send (c : Chan α) (v : α) : Option (Chan α) :=
  if c.buf.length < c.cap ∧ c.closed = false then some { c with buf := c.buf ++ [v] } else none

/-- Receive: `some (some v, _)` is a value, `some (none, _)` the closed and
    drained channel; blocks while the channel is open and empty. -/
def recv (c : Chan α) : Option (Option α × Chan α) :=
  match c.buf with
  | v :: vs => some (some v, { c with buf := vs })
  | [] => if c.closed then some (none, c) else none

/-- Close the channel. -/
def close (c : Chan α) : Chan α := { c with closed := true }

section
variable {c c' : Chan α} {v : α}

@[simp] lemma make_buf (cap : Nat) : (make cap : Chan α).buf = [] := rfl
@[simp] lemma make_closed (cap : Nat) : (make cap : Chan α).closed = false := rfl
@[simp] lemma close_buf : c.close.buf = c.buf := rfl
@[simp] lemma close_closed : c.close.closed = true := rfl

lemma send_eq_some (h : c.send v = some c') :
    c.closed = false ∧ c' = { c with buf := c.buf ++ [v] } := by
  unfold send at h
  split at h
  next hc => exact ⟨hc.2, (Option.some.inj h).symm⟩
  · cases h

/-- A received value is the head of the buffer, and the rest of the buffer is left. -/
lemma recv_eq_value (h : c.recv = some (some v, c')) :
    ∃ buf, c.buf = v :: buf ∧ c' = { c with buf } := by
  unfold recv at h
  split at h
  next vs hb =>
    simp only [Option.some.injEq, Prod.mk.injEq] at h
    obtain ⟨rfl, rfl⟩ := h
    exact ⟨vs, hb, rfl⟩
  · split at h <;> simp at h

lemma recv_value (h : c.recv = some (some v, c')) :
    c.buf = v :: c'.buf ∧ c'.closed = c.closed := by
  obtain ⟨buf, hbuf, rfl⟩ := recv_eq_value h
  exact ⟨hbuf, rfl⟩

lemma recv_cap {r : Option α} (h : c.recv = some (r, c')) : c'.cap = c.cap := by
  unfold recv at h
  split at h
  · simp only [Option.some.injEq, Prod.mk.injEq] at h
    rw [← h.2]
  · split at h
    · simp only [Option.some.injEq, Prod.mk.injEq] at h
      rw [← h.2]
    · cases h

lemma recv_closed (h : c.recv = some (none, c')) :
    c.buf = [] ∧ c.closed = true ∧ c' = c := by
  unfold recv at h
  split at h
  · simp at h
  next hb =>
    split at h
    next hc =>
      simp only [Option.some.injEq, Prod.mk.injEq, true_and] at h
      exact ⟨hb, hc, h.symm⟩
    · cases h

end

end Chan
