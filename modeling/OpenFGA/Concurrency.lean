/-
  `internal/concurrency`, and the goroutine shape the reducers share.

  `TrySendThroughChannel` selects between the context's done channel and the
  send.  Go picks any case that is ready, so the model takes the picked case as
  an argument and answers `none` when that case is not ready.

  A `Producer` is the goroutine

      res, err := evaluate(); TrySendThroughChannel(ctx, msg, out); close(out)

  over a channel of its own with one slot.  Both exclusion reducers start two of
  them.
-/

import OpenFGA.Lib.Chan
import OpenFGA.Tuple

namespace OpenFGA

/-- What `ctx.Err()` answers: `none` while the context is live. -/
abbrev Context := Option Err

/-- The caller cancels the context, or its deadline passes; the first cause
    stays. -/
def Context.cancel (ctx : Context) (deadline : Bool) : Context :=
  match ctx with
  | some e => some e
  | none => some (if deadline then .deadlineExceeded else .canceled)

/-- The cases of the select in `TrySendThroughChannel`. -/
inductive SendCase where
  | done
  | send
deriving DecidableEq, Repr

/-- `TrySendThroughChannel`: whether the message was sent, and the channel. -/
def trySendThroughChannel {α : Type} (ctx : Context) (msg : α) (ch : Chan α) :
    SendCase → Option (Bool × Chan α)
  | .done => if ctx.isSome then some (false, ch) else none
  | .send => (ch.send msg).map fun ch' => (true, ch')

inductive Phase where
  /-- The evaluation has not handed its result over yet. -/
  | evaluating
  /-- `TrySendThroughChannel` has returned. -/
  | offered
  /-- The channel is closed and the goroutine has ended. -/
  | finished
deriving DecidableEq, Repr

/-- A goroutine that evaluates, tries to send the result and closes its channel. -/
structure Producer (α : Type) where
  /-- What the evaluation returns. -/
  result : α
  phase : Phase
  chan : Chan α
deriving Repr

namespace Producer

variable {α : Type}

/-- The goroutine just after `go func()`. -/
def start (result : α) : Producer α := ⟨result, .evaluating, Chan.make 1⟩

inductive Act where
  | offer (c : SendCase)
  | close
deriving DecidableEq, Repr

def step (ctx : Context) (p : Producer α) : Act → Option (Producer α)
  | .offer c =>
    if p.phase = .evaluating then
      (trySendThroughChannel ctx p.result p.chan c).map fun r =>
        { p with phase := .offered, chan := r.2 }
    else none
  | .close =>
    if p.phase = .offered then some { p with phase := .finished, chan := p.chan.close }
    else none

/-- The result is in the channel at most once, and only after it was offered. -/
def Ok (r : α) (p : Producer α) : Prop :=
  p.result = r ∧ (p.chan.buf = [] ∨ (p.chan.buf = [r] ∧ p.phase ≠ .evaluating))

lemma start_ok (r : α) : Ok r (start r) := ⟨rfl, .inl rfl⟩

/-- Once the goroutine has offered its result, its buffer only shrinks. -/
def Spent (p : Producer α) : Prop := p.phase ≠ .evaluating ∧ p.chan.buf = []

variable {ctx : Context} {r : α} {p p' : Producer α} {a : Act}

lemma step_ok (h : Ok r p) (hs : p.step ctx a = some p') : Ok r p' := by
  obtain ⟨hr, hbuf⟩ := h
  cases a with
  | offer c =>
    simp only [step] at hs
    split at hs
    next hph =>
      have hnil : p.chan.buf = [] := by
        rcases hbuf with h | ⟨_, h⟩
        · exact h
        · exact absurd hph h
      cases c with
      | done =>
        simp only [trySendThroughChannel] at hs
        split at hs <;> cases hs
        exact ⟨hr, .inl hnil⟩
      | send =>
        simp only [trySendThroughChannel, Option.map_map, Option.map_eq_some_iff] at hs
        obtain ⟨ch, hch, rfl⟩ := hs
        obtain ⟨-, rfl⟩ := Chan.send_eq_some hch
        exact ⟨hr, .inr ⟨by simp [hnil, hr], by simp⟩⟩
    · cases hs
  | close =>
    simp only [step] at hs
    split at hs <;> cases hs
    next hph =>
      refine ⟨hr, ?_⟩
      rcases hbuf with h | ⟨h, _⟩
      · exact .inl h
      · exact .inr ⟨h, by simp⟩

lemma step_spent (h : Spent p) (hs : p.step ctx a = some p') : Spent p' := by
  obtain ⟨hph, hbuf⟩ := h
  cases a with
  | offer c =>
    rw [step, if_neg hph] at hs
    cases hs
  | close =>
    simp only [step] at hs
    split at hs <;> cases hs
    exact ⟨by simp, hbuf⟩

/-- The message received from a producer is its result, and it is received
    once. -/
lemma recv_ok {v ch} (h : Ok r p) (hr : p.chan.recv = some (some v, ch)) :
    v = r ∧ ¬ Spent p ∧ Ok r { p with chan := ch } ∧ Spent { p with chan := ch } := by
  obtain ⟨hb, -⟩ := Chan.recv_value hr
  obtain ⟨hres, hbuf | ⟨hbuf, hph⟩⟩ := h
  · rw [hbuf] at hb
    cases hb
  · rw [hbuf] at hb
    obtain ⟨rfl, hch⟩ := List.cons.inj hb
    refine ⟨rfl, ?_, ⟨hres, .inl hch.symm⟩, ⟨hph, hch.symm⟩⟩
    rintro ⟨-, hnil⟩
    rw [hbuf] at hnil
    cases hnil

/-! ## A producer comes to its end -/

/-- The channel has one slot, and it is closed when the goroutine has ended. -/
def Sound (p : Producer α) : Prop :=
  p.chan.cap = 1 ∧ (p.chan.closed = true ↔ p.phase = .finished)

/-- The steps that the goroutine has before it, and the message that can be received. -/
def work (p : Producer α) : Nat :=
  (match p.phase with
    | .evaluating => 3
    | .offered => 1
    | .finished => 0) + p.chan.buf.length

lemma start_sound (r : α) : Sound (start r) := ⟨rfl, by simp [start]⟩

lemma step_cases (hs : p.step ctx a = some p') :
    (p.phase = .evaluating ∧ ctx.isSome = true ∧ p' = { p with phase := .offered }) ∨
    (p.phase = .evaluating ∧ p' = { p with
      phase := .offered, chan := { p.chan with buf := p.chan.buf ++ [p.result] } }) ∨
    (p.phase = .offered ∧ p' = { p with phase := .finished, chan := p.chan.close }) := by
  cases a with
  | offer c =>
    simp only [step] at hs
    split_ifs at hs with hphase
    obtain ⟨x, hx, rfl⟩ := Option.map_eq_some_iff.mp hs
    cases c with
    | done =>
      simp only [trySendThroughChannel] at hx
      split_ifs at hx with hctx
      cases hx
      exact .inl ⟨hphase, hctx, rfl⟩
    | send =>
      obtain ⟨ch, hch, rfl⟩ := Option.map_eq_some_iff.mp hx
      obtain ⟨-, rfl⟩ := Chan.send_eq_some hch
      exact .inr (.inl ⟨hphase, rfl⟩)
  | close =>
    simp only [step] at hs
    split_ifs at hs with hphase
    cases hs
    exact .inr (.inr ⟨hphase, rfl⟩)

lemma step_sound (h : Sound p) (hs : p.step ctx a = some p') : Sound p' := by
  obtain ⟨hcap, hclosed⟩ := h
  obtain ⟨hphase, -, rfl⟩ | ⟨hphase, rfl⟩ | ⟨hphase, rfl⟩ := step_cases hs
  · exact ⟨hcap, by simpa [hphase] using hclosed⟩
  · exact ⟨hcap, by simpa [hphase] using hclosed⟩
  · exact ⟨hcap, by simp⟩

lemma step_work_lt (hs : p.step ctx a = some p') : p'.work < p.work := by
  obtain ⟨hphase, -, rfl⟩ | ⟨hphase, rfl⟩ | ⟨hphase, rfl⟩ := step_cases hs
  · simp [work, hphase]
  · simp only [work, hphase, List.length_append, List.length_singleton]
    omega
  · simp only [work, hphase, Chan.close_buf]
    omega

lemma step_not_spent (h : ¬ Spent p) (hs : p.step none a = some p') : ¬ Spent p' := by
  obtain ⟨hphase, hctx, rfl⟩ | ⟨hphase, rfl⟩ | ⟨hphase, rfl⟩ := step_cases hs
  · cases hctx
  · rintro ⟨-, hbuf⟩
    simp at hbuf
  · rintro ⟨-, hbuf⟩
    exact h ⟨by simp [hphase], hbuf⟩

theorem exists_step (hok : Ok r p) (h : Sound p) (hphase : p.phase ≠ .finished) :
    ∃ a p', p.step ctx a = some p' := by
  cases hp : p.phase with
  | evaluating =>
    have hbuf : p.chan.buf = [] := hok.2.resolve_right fun hb => hb.2 hp
    have hclosed : p.chan.closed = false := by
      rw [Bool.eq_false_iff]
      exact fun hc => hphase (h.2.mp hc)
    have hsend : p.chan.send p.result = some { p.chan with buf := p.chan.buf ++ [p.result] } :=
      if_pos ⟨by rw [hbuf, h.1]; exact Nat.one_pos, hclosed⟩
    refine ⟨.offer .send, Option.isSome_iff_exists.mp ?_⟩
    simp [step, hp, trySendThroughChannel, hsend]
  | offered => exact ⟨.close, _, if_pos hp⟩
  | finished => exact absurd hp hphase

lemma recv_sound {x ch} (h : Sound p) (hr : p.chan.recv = some (x, ch)) :
    Sound { p with chan := ch } := by
  refine ⟨(Chan.recv_cap hr).trans h.1, ?_⟩
  cases x with
  | none => rw [(Chan.recv_closed hr).2.2]; exact h.2
  | some v => rw [(Chan.recv_value hr).2]; exact h.2

lemma recv_work {v ch} (hr : p.chan.recv = some (some v, ch)) :
    work { p with chan := ch } + 1 = p.work := by
  simp only [work, (Chan.recv_value hr).1, List.length_cons]
  omega

/-- The channel is seen closed only after the result was received or lost. -/
lemma spent_of_recv_closed {ch} (h : Sound p) (hr : p.chan.recv = some (none, ch)) :
    Spent p := by
  obtain ⟨hbuf, hclosed, -⟩ := Chan.recv_closed hr
  exact ⟨by rw [h.2.mp hclosed]; nofun, hbuf⟩

lemma exists_recv (h : Sound p) (hphase : p.phase = .finished) : ∃ x, p.chan.recv = some x := by
  refine Option.isSome_iff_exists.mp ?_
  unfold Chan.recv
  split
  · rfl
  · rw [if_pos (h.2.mpr hphase)]
    rfl

end Producer

end OpenFGA
