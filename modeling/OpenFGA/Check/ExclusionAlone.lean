/-
  `ResolveExclusion` when nobody cancels its context from outside.  The deferred `cancel` is then
  the only cancellation, and it comes after the function has decided on its answer, so no result
  is lost before: the answer is the exclusion of the two results, every schedule ends, and the loop
  never waits for a result that is not sent (`resolveExclusion_settles`).
-/

import OpenFGA.Check.Exclusion

namespace OpenFGA.Check

namespace Exclusion
open Producer Option Bool

/-- A step when nobody cancels the context from outside: the only cancellation is the deferred
    one, when the function has decided on its answer. -/
def stepAlone (s : Exclusion) (a : Act) : Option Exclusion :=
  match a with
  | .cancel deadline =>
    if s.ret.isSome ∧ s.ctx = none ∧ deadline = false then s.step (.cancel deadline) else none
  | a => s.step a

/-- `wg.Wait` has returned. -/
def Returned (s : Exclusion) : Prop :=
  s.ret ≠ none ∧ s.base.phase = .finished ∧ ∀ p, s.subtract = some p → p.phase = .finished

/-- The exclusion of the two results; the second is `none` when the subtract edge has no weight
    for the user type. -/
structure IsExclusion (b : ResponseMsg) (r : Option ResponseMsg) (answer : ResponseMsg) : Prop where
  allows : answer.Allows ↔ Justified b r
  denies : answer.Denies → b.Denies ∨ ∃ m, r = some m ∧ m.Allows
  fails : ∀ e, answer.err = some e → b.err = some e ∨ ∃ m, r = some m ∧ m.err = some e

variable {b : ResponseMsg} {r : Option ResponseMsg} {s s' : Exclusion}

/-- What a step does. -/
inductive Moves (s : Exclusion) : Exclusion → Prop where
  | cancel (hret : s.ret ≠ none) (hctx : s.ctx = none) : Moves s { s with ctx := some .canceled }
  | base {a p} (hp : s.base.step s.ctx a = some p) :
      Moves s { s with base := p }
  | subtract {a p p'} (hsub : s.subtract = some p)
      (hp : p.step s.ctx a = some p') : Moves s { s with subtract := some p' }
  | done {e} (hret : s.ret = none) (hctx : s.ctx = some e) :
      Moves s (s.return' none (some e))
  | baseClosed {ch} (hret : s.ret = none) (hnil : s.baseNil = false)
      (hrecv : s.base.chan.recv = some (none, ch)) : Moves s { s with baseNil := true }
  | onBase {m ch} (hret : s.ret = none)
      (hrecv : s.base.chan.recv = some (some m, ch)) :
      Moves s ({ s with base := { s.base with chan := ch } }.onBase m)
  | subtractClosed {p ch} (hret : s.ret = none)
      (hnil : s.subtractNil = false) (hsub : s.subtract = some p)
      (hrecv : p.chan.recv = some (none, ch)) : Moves s { s with subtractNil := true }
  | onSubtract {p m ch}
      (hret : s.ret = none) (hsub : s.subtract = some p)
      (hrecv : p.chan.recv = some (some m, ch)) :
      Moves s ({ s with subtract := some { p with chan := ch } }.onSubtract m)

lemma stepAlone_cases {a} (hs : s.stepAlone a = some s') : Moves s s' := by
  cases a with
  | cancel deadline =>
    simp only [stepAlone] at hs
    split_ifs at hs with hguard
    obtain ⟨hret, hctx, rfl⟩ := hguard
    cases hs
    rw [hctx]
    exact .cancel (isSome_iff_ne_none.mp hret) hctx
  | base a =>
    obtain ⟨p, hp, rfl⟩ := map_eq_some_iff.mp hs
    exact .base hp
  | subtract a =>
    simp only [stepAlone, Exclusion.step, bind_eq_bind, bind_eq_some_iff,
      pure_def, some.injEq] at hs
    obtain ⟨p, hsub, p', hp, rfl⟩ := hs
    exact .subtract hsub hp
  | selectDone =>
    simp only [stepAlone, Exclusion.step] at hs
    split at hs <;> cases hs
    next hret hctx => exact .done hret hctx
  | selectBase =>
    simp only [stepAlone, Exclusion.step] at hs
    split_ifs at hs with hguard
    split at hs <;> cases hs
    next hrecv => exact .baseClosed hguard.1 hguard.2 hrecv
    next hrecv => exact .onBase hguard.1 hrecv
  | selectSubtract =>
    simp only [stepAlone, Exclusion.step] at hs
    split_ifs at hs with hguard
    split at hs
    · cases hs
    next hsub =>
      split at hs <;> cases hs
      next hrecv => exact .subtractClosed hguard.1 hguard.2 hsub hrecv
      next hrecv => exact .onSubtract hguard.1 hsub hrecv

/-! ## The answer -/

/-- What the loop has received: nothing, or one of two results that does not decide the
    exclusion.  A result that is spent was received. -/
def Received (b : ResponseMsg) (r : Option ResponseMsg) (s : Exclusion) : Prop :=
  (s.resultsReceived = 0 ∧ ¬ s.base.Spent ∧ ∀ p, s.subtract = some p → ¬ p.Spent) ∨
    s.resultsReceived = 1 ∧ ∃ p m, s.subtract = some p ∧ r = some m ∧
      ((s.base.Spent ∧ b.Allows ∧ ¬ p.Spent) ∨ (¬ s.base.Spent ∧ p.Spent ∧ m.Denies))

/-- The two goroutines. -/
structure Running (b : ResponseMsg) (r : Option ResponseMsg) (s : Exclusion) : Prop where
  links : Links b r s
  base_sound : s.base.Sound
  subtract_sound : ∀ p, s.subtract = some p → p.Sound

/-- The invariant of a run that nobody cancels from outside. -/
structure Alone (b : ResponseMsg) (r : Option ResponseMsg) (s : Exclusion) : Prop where
  running : Running b r s
  live : s.ret = none → s.ctx = none
  received : s.ret = none → Received b r s
  base_nil : s.ret = none → s.baseNil = true → s.base.Spent
  subtract_nil : s.ret = none → s.subtractNil = true → ∀ p, s.subtract = some p → p.Spent
  answer : ∀ res err, s.ret = some (res, err) → IsExclusion b r ⟨res, err⟩

lemma Running.alone_return (h : Running b r s) {res err}
    (hanswer : IsExclusion b r ⟨res, err⟩) : Alone b r (s.return' res err) where
  running := ⟨⟨h.links.base_ok, h.links.subtract_ok, h.links.subtract_none⟩, h.base_sound,
    h.subtract_sound⟩
  live := nofun
  received := nofun
  base_nil := nofun
  subtract_nil := nofun
  answer := by
    intro res' err' hret
    cases hret
    exact hanswer

lemma isExclusion_true {answer} (ha : answer.Allows) (h : Justified b r) :
    IsExclusion b r answer where
  allows := iff_of_true ha h
  denies hd := absurd hd (ResponseMsg.not_denies_of_allows ha)
  fails _ he := absurd ha (ResponseMsg.not_allows_of_err he)

lemma isExclusion_false (h : b.Denies ∨ ∃ m, r = some m ∧ m.Allows) :
    IsExclusion b r ⟨some ⟨false⟩, none⟩ where
  allows := by
    refine iff_of_false nofun ?_
    rintro ⟨hb, hr⟩
    rcases h with hd | ⟨m, hm, ha⟩
    · exact ResponseMsg.not_denies_of_allows hb hd
    · rcases hr with hr | ⟨x, hx, hd⟩
      · rw [hr] at hm
        cases hm
      · rw [hx] at hm
        cases hm
        exact ResponseMsg.not_denies_of_allows ha hd
  denies _ := h
  fails := nofun

lemma isExclusion_error {e} (h : b.err = some e ∨ ∃ m, r = some m ∧ m.err = some e) :
    IsExclusion b r ⟨none, some e⟩ where
  allows := by
    refine iff_of_false nofun ?_
    rintro ⟨hb, hr⟩
    rcases h with he | ⟨m, hm, he⟩
    · exact ResponseMsg.not_allows_of_err he hb
    · rcases hr with hr | ⟨x, hx, hd⟩
      · rw [hr] at hm
        cases hm
      · rw [hx] at hm
        cases hm
        exact ResponseMsg.not_denies_of_err he hd
  denies := nofun
  fails e' he' := by
    cases he'
    exact h

lemma Alone.onBase (h : Alone b r s) (hret : s.ret = none) {ch m}
    (hrecv : s.base.chan.recv = some (some m, ch)) :
    Alone b r ({ s with base := { s.base with chan := ch } }.onBase m) := by
  obtain ⟨rfl, hunread, hok, hspent⟩ := recv_ok h.running.links.base_ok hrecv
  have hrun : Running m r { s with base := { s.base with chan := ch },
                                   resultsReceived := s.resultsReceived + 1 } :=
    ⟨⟨hok, h.running.links.subtract_ok, h.running.links.subtract_none⟩,
      recv_sound h.running.base_sound hrecv, h.running.subtract_sound⟩
  -- the base result is received only now: an earlier result is the subtract's
  have hearlier : (s.resultsReceived = 0 ∧ ∀ p, s.subtract = some p → ¬ p.Spent) ∨
      s.resultsReceived = 1 ∧ ∃ x, r = some x ∧ x.Denies := by
    rcases h.received hret with ⟨h0, -, hp⟩ | ⟨h1, p, x, hp, hx, ⟨hs, -⟩ | ⟨-, -, hd⟩⟩
    · exact .inl ⟨h0, hp⟩
    · exact absurd hs hunread
    · exact .inr ⟨h1, x, hx, hd⟩
  unfold Exclusion.onBase
  cases herr : m.err with
  | some e => exact hrun.alone_return (isExclusion_error (.inl herr))
  | none =>
    simp only
    by_cases hden : m.getAllowed = false
    · rw [if_pos hden]
      exact hrun.alone_return (isExclusion_false (.inl ⟨herr, hden⟩))
    · have hallowed : m.getAllowed = true := by simpa using hden
      rw [if_neg hden]
      by_cases hnil : s.subtractNil = true
      · -- nil means that no subtract was scheduled, or that its result was received
        rw [if_pos hnil]
        refine hrun.alone_return (isExclusion_true ⟨rfl, hallowed⟩ ⟨⟨herr, hallowed⟩, ?_⟩)
        cases hsub : s.subtract with
        | none => exact .inl (h.running.links.subtract_none hsub).1
        | some p =>
          rcases hearlier with ⟨-, hp⟩ | ⟨-, hx⟩
          · exact absurd (h.subtract_nil hret hnil p hsub) (hp p hsub)
          · exact .inr hx
      · rw [if_neg hnil]
        obtain ⟨p, hp⟩ : ∃ p, s.subtract = some p := by
          cases hsub : s.subtract with
          | none => exact absurd (h.running.links.subtract_none hsub).2 hnil
          | some p => exact ⟨p, rfl⟩
        obtain ⟨x, hx, -⟩ := h.running.links.subtract_ok p hp
        rcases hearlier with ⟨h0, hfresh⟩ | ⟨h1, hy⟩
        · rw [loopHead, if_pos (by simp [scheduledHandlers, hp, h0])]
          refine ⟨hrun, fun _ => h.live hret, fun _ => .inr ⟨by simp [h0], p, x, hp, hx, .inl ?_⟩,
            fun _ _ => hspent, fun _ => h.subtract_nil hret, ?_⟩
          · exact ⟨hspent, ⟨herr, hallowed⟩, hfresh p hp⟩
          · intro res err hr
            simp [hret] at hr
        · rw [loopHead, if_neg (by simp [scheduledHandlers, hp, h1])]
          exact hrun.alone_return (isExclusion_true ⟨rfl, rfl⟩ ⟨⟨herr, hallowed⟩, .inr hy⟩)

lemma Alone.onSubtract (h : Alone b r s) (hret : s.ret = none) {p}
    (hsub : s.subtract = some p) {ch m} (hrecv : p.chan.recv = some (some m, ch)) :
    Alone b r ({ s with subtract := some { p with chan := ch } }.onSubtract m) := by
  obtain ⟨x, hx, hpx⟩ := h.running.links.subtract_ok p hsub
  obtain ⟨rfl, hunread, hok, hspent⟩ := recv_ok hpx hrecv
  have hrun : Running b r { s with subtract := some { p with chan := ch },
                                   resultsReceived := s.resultsReceived + 1 } := by
    refine ⟨⟨h.running.links.base_ok, ?_, by simp⟩, h.running.base_sound, ?_⟩
    · intro q hq
      cases hq
      exact ⟨m, hx, hok⟩
    · intro q hq
      cases hq
      exact recv_sound (h.running.subtract_sound p hsub) hrecv
  -- the subtract result is received only now: an earlier result is the base's
  have hearlier : (s.resultsReceived = 0 ∧ ¬ s.base.Spent) ∨ s.resultsReceived = 1 ∧ b.Allows := by
    rcases h.received hret with ⟨h0, hb, -⟩ | ⟨h1, q, y, hq, -, ⟨-, hb, -⟩ | ⟨-, hs, -⟩⟩
    · exact .inl ⟨h0, hb⟩
    · exact .inr ⟨h1, hb⟩
    · rw [hsub] at hq
      cases hq
      exact absurd hs hunread
  unfold Exclusion.onSubtract
  cases herr : m.err with
  | some e => exact hrun.alone_return (isExclusion_error (.inr ⟨m, hx, herr⟩))
  | none =>
    simp only
    by_cases hallowed : m.getAllowed = true
    · rw [if_pos hallowed]
      exact hrun.alone_return (isExclusion_false (.inr ⟨m, hx, herr, hallowed⟩))
    · have hden := ResponseMsg.denies_of_not herr hallowed
      rw [if_neg hallowed]
      rcases hearlier with ⟨h0, hb⟩ | ⟨h1, hb⟩
      · rw [loopHead, if_pos (by simp [scheduledHandlers, h0])]
        refine ⟨hrun, fun _ => h.live hret, fun _ => .inr ⟨by simp [h0], _, m, rfl, hx, .inr ?_⟩,
          fun _ => h.base_nil hret, fun _ _ q hq => ?_, ?_⟩
        · exact ⟨hb, hspent, hden⟩
        · cases hq
          exact hspent
        · intro res err hr
          simp [hret] at hr
      · rw [loopHead, if_neg (by simp [scheduledHandlers, h1])]
        exact hrun.alone_return (isExclusion_true ⟨rfl, rfl⟩ ⟨hb, .inr ⟨m, hx, hden⟩⟩)

lemma Alone.moves (h : Alone b r s) (hs : Moves s s') : Alone b r s' := by
  have hlinks := h.running.links
  cases hs with
  | cancel hret hctx =>
    refine ⟨⟨⟨hlinks.base_ok, hlinks.subtract_ok, hlinks.subtract_none⟩, h.running.base_sound,
      h.running.subtract_sound⟩, fun hn => absurd hn hret, fun hn => absurd hn hret,
      fun hn => absurd hn hret, fun hn => absurd hn hret, h.answer⟩
  | @base a p hp =>
    refine ⟨⟨⟨step_ok hlinks.base_ok hp, hlinks.subtract_ok, hlinks.subtract_none⟩,
      step_sound h.running.base_sound hp, h.running.subtract_sound⟩, h.live,
      fun hret => ?_, fun hret hnil => step_spent (h.base_nil hret hnil) hp,
      h.subtract_nil, h.answer⟩
    rw [h.live hret] at hp
    rcases h.received hret with ⟨h0, hb, hsub⟩ | ⟨h1, q, m, hq, hm, ⟨hb, hcase⟩ | ⟨hb, hcase⟩⟩
    · exact .inl ⟨h0, step_not_spent hb hp, hsub⟩
    · exact .inr ⟨h1, q, m, hq, hm, .inl ⟨step_spent hb hp, hcase⟩⟩
    · exact .inr ⟨h1, q, m, hq, hm, .inr ⟨step_not_spent hb hp, hcase⟩⟩
  | @subtract a p p' hsub hp =>
    obtain ⟨m, hm, hpm⟩ := hlinks.subtract_ok p hsub
    refine ⟨⟨⟨hlinks.base_ok, ?_, by simp⟩, h.running.base_sound, ?_⟩, h.live, fun hret => ?_,
      h.base_nil, fun hret hnil q hq => ?_, h.answer⟩
    · intro q hq
      cases hq
      exact ⟨m, hm, step_ok hpm hp⟩
    · intro q hq
      cases hq
      exact step_sound (h.running.subtract_sound p hsub) hp
    · rw [h.live hret] at hp
      rcases h.received hret with ⟨h0, hb, hfresh⟩ |
        ⟨h1, q, x, hq, hx, ⟨hb, ha, hq'⟩ | ⟨hb, hq', hd⟩⟩
      · refine .inl ⟨h0, hb, fun q hq => ?_⟩
        cases hq
        exact step_not_spent (hfresh p hsub) hp
      · rw [hsub] at hq
        cases hq
        exact .inr ⟨h1, p', x, rfl, hx, .inl ⟨hb, ha, step_not_spent hq' hp⟩⟩
      · rw [hsub] at hq
        cases hq
        exact .inr ⟨h1, p', x, rfl, hx, .inr ⟨hb, step_spent hq' hp, hd⟩⟩
    · cases hq
      exact step_spent (h.subtract_nil hret hnil p hsub) hp
  | done hret hctx =>
    rw [h.live hret] at hctx
    cases hctx
  | baseClosed hret hnil hrecv =>
    exact ⟨⟨⟨hlinks.base_ok, hlinks.subtract_ok, hlinks.subtract_none⟩, h.running.base_sound,
      h.running.subtract_sound⟩, h.live, h.received,
      fun _ _ => spent_of_recv_closed h.running.base_sound hrecv, h.subtract_nil, h.answer⟩
  | onBase hret hrecv => exact h.onBase hret hrecv
  | subtractClosed hret hnil hsub hrecv =>
    refine ⟨⟨⟨hlinks.base_ok, hlinks.subtract_ok, fun hn => ⟨(hlinks.subtract_none hn).1, rfl⟩⟩,
      h.running.base_sound, h.running.subtract_sound⟩, h.live, h.received, h.base_nil,
      fun _ _ q hq => ?_, h.answer⟩
    rw [hsub] at hq
    cases hq
    exact spent_of_recv_closed (h.running.subtract_sound _ hsub) hrecv
  | onSubtract hret hsub hrecv => exact h.onSubtract hret hsub hrecv

/-! ## Termination and progress -/

/-- What is left to do. -/
def measure (s : Exclusion) : Nat :=
  s.base.work + (s.subtract.map work).getD 0 + (!s.baseNil).toNat +
    (!s.subtractNil).toNat + s.ret.isNone.toNat + s.ctx.isNone.toNat

lemma measure_return'_le (s : Exclusion) (res : Option Response) (err : Option Err) :
    (s.return' res err).measure ≤ s.measure := by
  simp only [measure, Exclusion.return', isNone_some, toNat_false]
  omega

lemma measure_loopHead_le (s : Exclusion) : s.loopHead.measure ≤ s.measure := by
  unfold loopHead
  split_ifs
  · exact Nat.le_refl _
  · exact measure_return'_le ..

lemma measure_onBase_le (s : Exclusion) (m : ResponseMsg) : (s.onBase m).measure ≤ s.measure := by
  unfold Exclusion.onBase
  cases m.err with
  | some e => exact measure_return'_le _ _ _
  | none =>
    simp only
    split_ifs
    · exact measure_return'_le _ _ _
    · exact measure_return'_le _ _ _
    · exact measure_loopHead_le _

lemma measure_onSubtract_le (s : Exclusion) (m : ResponseMsg) :
    (s.onSubtract m).measure ≤ s.measure := by
  unfold Exclusion.onSubtract
  cases m.err with
  | some e => exact measure_return'_le _ _ _
  | none =>
    simp only
    split_ifs
    · exact measure_return'_le _ _ _
    · exact measure_loopHead_le _

lemma Moves.measure_lt (h : Moves s s') : s'.measure < s.measure := by
  cases h with
  | cancel hret hctx =>
    simp only [measure, hctx, isNone_none, isNone_some, toNat_true,
      toNat_false]
    omega
  | base hp =>
    have := step_work_lt hp
    simp only [measure]
    omega
  | subtract hsub hp =>
    have := step_work_lt hp
    simp only [measure, hsub, map_some, getD_some]
    omega
  | done hret hctx =>
    simp only [measure, Exclusion.return', hret, isNone_none, isNone_some,
      toNat_true, toNat_false]
    omega
  | baseClosed hret hnil hrecv | subtractClosed hret hnil hsub hrecv =>
    simp only [measure, hnil, Bool.not_true, Bool.not_false, Bool.toNat_true, Bool.toNat_false]
    omega
  | onBase hret hrecv =>
    have := recv_work hrecv
    refine Nat.lt_of_le_of_lt (measure_onBase_le _ _) ?_
    simp only [measure]
    omega
  | onSubtract hret hsub hrecv =>
    have := recv_work hrecv
    refine Nat.lt_of_le_of_lt (measure_onSubtract_le _ _) ?_
    simp only [measure, hsub, map_some, getD_some]
    omega

theorem Alone.exists_step (h : Alone b r s) (hreturned : ¬ s.Returned) :
    ∃ a s', s.stepAlone a = some s' := by
  by_cases hbase : s.base.phase = .finished
  · by_cases hsub : ∀ p, s.subtract = some p → p.phase = .finished
    · have hret : s.ret = none := by
        by_contra hn
        exact hreturned ⟨hn, hbase, hsub⟩
      -- one of the two results has not been received
      by_cases hspent : s.base.Spent
      · obtain ⟨p, hp, hunread⟩ : ∃ p, s.subtract = some p ∧ ¬ p.Spent := by
          rcases h.received hret with ⟨-, hn, -⟩ | ⟨-, p, m, hp, -, ⟨-, -, hn⟩ | ⟨hn, -⟩⟩
          · exact absurd hspent hn
          · exact ⟨p, hp, hn⟩
          · exact absurd hspent hn
        have hnil : s.subtractNil = false := by
          rw [eq_false_iff]
          exact fun hn => hunread (h.subtract_nil hret hn p hp)
        obtain ⟨⟨x, ch⟩, hx⟩ := exists_recv (h.running.subtract_sound p hp) (hsub p hp)
        refine ⟨.selectSubtract, isSome_iff_exists.mp ?_⟩
        cases x <;> simp [stepAlone, Exclusion.step, hret, hnil, hp, hx]
      · have hnil : s.baseNil = false := by
          rw [eq_false_iff]
          exact fun hn => hspent (h.base_nil hret hn)
        obtain ⟨⟨x, ch⟩, hx⟩ := exists_recv h.running.base_sound hbase
        refine ⟨.selectBase, isSome_iff_exists.mp ?_⟩
        cases x <;> simp [stepAlone, Exclusion.step, hret, hnil, hx]
    · push Not at hsub
      obtain ⟨p, hp, hphase⟩ := hsub
      obtain ⟨m, -, hok⟩ := h.running.links.subtract_ok p hp
      obtain ⟨a, p', ha⟩ : ∃ a p', p.step s.ctx a = some p' :=
        Producer.exists_step hok (h.running.subtract_sound p hp) hphase
      refine ⟨.subtract a, { s with subtract := some p' }, ?_⟩
      simp [stepAlone, Exclusion.step, hp, ha]
  · obtain ⟨a, p', ha⟩ : ∃ a p', s.base.step s.ctx a = some p' :=
      Producer.exists_step h.running.links.base_ok h.running.base_sound hbase
    refine ⟨.base a, { s with base := p' }, ?_⟩
    simp [stepAlone, Exclusion.step, ha]

lemma Alone.settles (h : Alone b r s) :
    Lts.Settles stepAlone s Returned
      (fun s => ∃ res err, s.ret = some (res, err) ∧ IsExclusion b r ⟨res, err⟩) := by
  refine Lts.Settles.of_invariant (I := Alone b r) measure ?_ ?_ ?_ ?_ h
  · exact fun t a t' ht hs => ht.moves (stepAlone_cases hs)
  · exact fun t a t' _ hs => (stepAlone_cases hs).measure_lt
  · exact fun t ht => ht.exists_step
  · rintro t ht ⟨hret, -⟩
    obtain ⟨⟨res, err⟩, hr⟩ := ne_none_iff_exists'.mp hret
    exact ⟨res, err, hr, ht.answer res err hr⟩

end Exclusion

/-- What `ResolveExclusion` does when its node has these edges: an error without evaluating
    them, or the exclusion of their results. -/
theorem resolveExclusion_settles {g node base subtract rest}
    (hedges : g.getEdgesFromNode node = some (base :: subtract :: rest))
    (user : User) (eval : Edge → ResponseMsg) :
    if base.weight user.userType = none then
      resolveExclusion g user node none eval = .error .panicRequest
    else if user.isObjectRelation = true ∧ subtract.weight user.userType = none then
      resolveExclusion g user node none eval = .error .usersetInvalidRequest
    else ∃ s, resolveExclusion g user node none eval = .ok s ∧
      Lts.Settles Exclusion.stepAlone s Exclusion.Returned
        (fun s => ∃ res err, s.ret = some (res, err) ∧
          Exclusion.IsExclusion (eval base)
            ((subtract.weight user.userType).map fun _ => eval subtract)
            ⟨res, err⟩) := by
  have hguard : (user.isObjectRelation && (subtract.weight user.userType).isNone) = true ↔
      user.isObjectRelation = true ∧ subtract.weight user.userType = none := by
    rw [Bool.and_eq_true, Option.isNone_iff_eq_none]
  simp only [resolveExclusion, hedges, Option.isNone_iff_eq_none, hguard]
  split_ifs with hbase huserset
  · rfl
  · rfl
  · refine ⟨_, rfl, Exclusion.Alone.settles ⟨⟨⟨Producer.start_ok _, ?_, ?_⟩, Producer.start_sound _,
      ?_⟩, fun _ => rfl, fun _ => .inl ⟨rfl, ?_, ?_⟩, nofun, ?_, nofun⟩⟩
    · intro p hp
      obtain ⟨w, hw, rfl⟩ := Option.map_eq_some_iff.mp hp
      exact ⟨eval subtract, by rw [hw]; rfl, Producer.start_ok _⟩
    · intro hnone
      rw [Option.map_eq_none_iff] at hnone
      simp [hnone]
    · intro p hp
      obtain ⟨w, hw, rfl⟩ := Option.map_eq_some_iff.mp hp
      exact Producer.start_sound _
    · exact fun hspent => hspent.1 rfl
    · intro p hp hspent
      obtain ⟨w, hw, rfl⟩ := Option.map_eq_some_iff.mp hp
      exact hspent.1 rfl
    · intro _ hnil p hp
      obtain ⟨w, hw, rfl⟩ := Option.map_eq_some_iff.mp hp
      simp [hw] at hnil

end OpenFGA.Check
