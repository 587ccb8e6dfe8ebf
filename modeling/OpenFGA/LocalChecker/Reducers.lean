/-
  The third reducer of `internal/graph/check.go`, `exclusion`, and the soundness of
  all three.

  `exclusion` gives each operand a channel of its own and counts the results it
  has received.  A closed channel is only taken out of the select; the loop ends
  on two received results and nothing else, so a dropped outcome can keep it
  waiting for the context but never makes it answer.  That is the difference from
  `union` and `intersection`, whose loops count iterations.
-/

import OpenFGA.LocalChecker.Fanout

namespace OpenFGA.LocalChecker
open Reducer
open Producer

/-- The state of a running `exclusion`. -/
structure Exclusion where
  ctx : Context
  base : Producer CheckOutcome
  sub : Producer CheckOutcome
  /-- The local variable `baseChan` is nil. -/
  baseNil : Bool
  /-- The local variable `subChan` is nil. -/
  subNil : Bool
  baseErr : Option Err
  subErr : Option Err
  resultsReceived : Nat
  ret : Option (Option ResolveCheckResponse × Option Err)
deriving Repr

namespace Exclusion

/-- The derived context: the deferred `cancel()` ends it when the reducer returns. -/
def cancellableCtx (s : Exclusion) : Context :=
  if s.ret.isSome then s.ctx.cancel false else s.ctx

def return' (s : Exclusion) (res : Option ResolveCheckResponse) (err : Option Err) : Exclusion :=
  { s with ret := some (res, err) }

/-- The loop condition, and what follows the loop. -/
def loopHead (s : Exclusion) : Exclusion :=
  if s.resultsReceived < 2 then s
  else
    match s.baseErr, s.subErr with
    | some e, _ => s.return' none (some e)
    | none, some e => s.return' none (some e)
    | none, none => s.return' (some ⟨true, false⟩) none

/-- The body of `case res, ok := <-baseChan` for a received outcome. -/
def onBase (s : Exclusion) (o : CheckOutcome) : Exclusion :=
  let s := { s with resultsReceived := s.resultsReceived + 1 }
  match o.err with
  | some e => { s with baseErr := some e }.loopHead
  | none =>
    if o.getCycleDetected || !o.getAllowed then
      s.return' (some ⟨false, o.getCycleDetected⟩) none
    else s.loopHead

/-- The body of `case res, ok := <-subChan` for a received outcome. -/
def onSub (s : Exclusion) (o : CheckOutcome) : Exclusion :=
  let s := { s with resultsReceived := s.resultsReceived + 1 }
  match o.err with
  | some e => { s with subErr := some e }.loopHead
  | none =>
    if o.getCycleDetected || o.getAllowed then
      s.return' (some ⟨false, o.getCycleDetected⟩) none
    else s.loopHead

inductive Act where
  | cancel (deadline : Bool)
  | base (a : Producer.Act)
  | sub (a : Producer.Act)
  | selectDone
  | selectBase
  | selectSub
deriving DecidableEq, Repr

def step (s : Exclusion) : Act → Option Exclusion
  | .cancel deadline => some { s with ctx := s.ctx.cancel deadline }
  | .base a => (s.base.step s.cancellableCtx a).map fun p => { s with base := p }
  | .sub a => (s.sub.step s.cancellableCtx a).map fun p => { s with sub := p }
  | .selectDone =>
    match s.ret, s.ctx with
    | none, some e => some (s.return' none (some e))
    | _, _ => none
  | .selectBase =>
    if s.ret = none ∧ s.baseNil = false then
      match s.base.chan.recv with
      | none => none
      | some (none, _) => some { s with baseNil := true }
      | some (some o, ch) => some ({ s with base := { s.base with chan := ch } }.onBase o)
    else none
  | .selectSub =>
    if s.ret = none ∧ s.subNil = false then
      match s.sub.chan.recv with
      | none => none
      | some (none, _) => some { s with subNil := true }
      | some (some o, ch) => some ({ s with sub := { s.sub with chan := ch } }.onSub o)
    else none

end Exclusion

/-- `exclusion`, up to the select loop. -/
def exclusion (ctx : Context) (handlers : List CheckOutcome) : Except Err Exclusion :=
  match handlers with
  | [base, sub] =>
    match ctx with
    | some e => .error e
    | none => .ok
        { ctx, base := start base, sub := start sub, baseNil := false,
          subNil := false, baseErr := none, subErr := none, resultsReceived := 0, ret := none }
  | _ =>
    .error (.other ("internal server error, expected two rewrite operands for exclusion " ++
      "operator, but got '" ++ toString handlers.length ++ "'"))

namespace CheckOutcome

/-- Denied, without an error and without a cycle; a nil response reads as denied. -/
def Refuses (o : CheckOutcome) : Prop :=
  o.err = none ∧ o.getAllowed = false ∧ o.getCycleDetected = false

end CheckOutcome

/-! ## The exclusion loop -/

namespace Exclusion

/-- `gb` and `gs` say which results have been received; a received result set its
    error variable or leaves the exclusion open. -/
structure Received (b m : CheckOutcome) (s : Exclusion) (gb gs : Bool) : Prop where
  count : s.resultsReceived = gb.toNat + gs.toNat
  base : gb = true → s.base.Spent ∧ (s.baseErr = none → b.Allows)
  sub : gs = true → s.sub.Spent ∧ (s.subErr = none → m.Refuses)

structure Inv (b m : CheckOutcome) (s : Exclusion) : Prop where
  base_ok : s.base.Ok b
  sub_ok : s.sub.Ok m
  waiting : s.ret = none → ∃ gb gs, Received b m s gb gs
  returned : ∀ res, s.ret = some (some res, none) → res.allowed = true → b.Allows ∧ m.Refuses

variable {b m : CheckOutcome} {s s' : Exclusion}

lemma Inv.return' (hb : s.base.Ok b) (hm : s.sub.Ok m) {res err}
    (hret : ∀ x, res = some x → err = none → x.allowed = true → b.Allows ∧ m.Refuses) :
    Inv b m (s.return' res err) where
  base_ok := hb
  sub_ok := hm
  waiting := by simp [Exclusion.return']
  returned := by
    intro x hx
    simp only [Exclusion.return', Option.some.injEq, Prod.mk.injEq] at hx
    exact hret x hx.1 hx.2

/-- At the loop head: the loop ends only when both results were received. -/
lemma Inv.loopHead (gb gs : Bool) (hb : s.base.Ok b) (hm : s.sub.Ok m) (hret : s.ret = none)
    (h : Received b m s gb gs) : Inv b m s.loopHead := by
  unfold Exclusion.loopHead
  split
  · exact ⟨hb, hm, fun _ => ⟨gb, gs, h⟩, by simp [hret]⟩
  next hge =>
    have hcount := h.count
    have hboth : gb = true ∧ gs = true := by
      cases gb <;> cases gs <;> simp_all
    split
    · exact return' hb hm (by simp)
    · exact return' hb hm (by simp)
    next hbe hse =>
      exact return' hb hm fun _ _ _ _ => ⟨(h.base hboth.1).2 hbe, (h.sub hboth.2).2 hse⟩

section
variable (h : Inv b m s) (hret : s.ret = none) {o : CheckOutcome} {ch : Chan CheckOutcome}
include h hret

lemma Inv.onBase (hrecv : s.base.chan.recv = some (some o, ch)) :
    Inv b m ({ s with base := { s.base with chan := ch } }.onBase o) := by
  obtain ⟨rfl, hnot, hok, hspent⟩ := recv_ok h.base_ok hrecv
  obtain ⟨gb, gs, hr⟩ := h.waiting hret
  -- the base outcome had not been received before
  have hgb : gb = false := by
    by_contra hc
    exact hnot (hr.base (by simpa using hc)).1
  subst hgb
  have hcount := hr.count
  unfold Exclusion.onBase
  cases herr : o.err with
  | some e =>
    exact loopHead true gs hok h.sub_ok hret
      ⟨by simp [hcount, Nat.add_comm], fun _ => ⟨hspent, by simp⟩, hr.sub⟩
  | none =>
    simp only
    split
    · refine return' ?_ ?_ (by simp)
      · exact hok
      · exact h.sub_ok
    next hopen =>
      have hall : o.Allows := by
        obtain ⟨_ | ⟨allowed, cycle⟩, _⟩ := o <;>
          simp_all [CheckOutcome.Allows, CheckOutcome.getAllowed,
            CheckOutcome.getCycleDetected]
      exact loopHead true gs hok h.sub_ok hret
        ⟨by simp [hcount, Nat.add_comm], fun _ => ⟨hspent, fun _ => hall⟩, hr.sub⟩

lemma Inv.onSub (hrecv : s.sub.chan.recv = some (some o, ch)) :
    Inv b m ({ s with sub := { s.sub with chan := ch } }.onSub o) := by
  obtain ⟨rfl, hnot, hok, hspent⟩ := recv_ok h.sub_ok hrecv
  obtain ⟨gb, gs, hr⟩ := h.waiting hret
  have hgs : gs = false := by
    by_contra hc
    exact hnot (hr.sub (by simpa using hc)).1
  subst hgs
  have hcount := hr.count
  unfold Exclusion.onSub
  cases herr : o.err with
  | some e =>
    exact loopHead gb true h.base_ok hok hret
      ⟨by simp [hcount], hr.base, fun _ => ⟨hspent, by simp⟩⟩
  | none =>
    simp only
    split
    · refine return' ?_ ?_ (by simp)
      · exact h.base_ok
      · exact hok
    next hopen =>
      have href : o.Refuses := by simpa [CheckOutcome.Refuses, herr, and_comm] using hopen
      exact loopHead gb true h.base_ok hok hret
        ⟨by simp [hcount], hr.base, fun _ => ⟨hspent, fun _ => href⟩⟩

end

theorem Inv.step {a} (h : Inv b m s) (hs : s.step a = some s') : Inv b m s' := by
  cases a <;> simp only [Exclusion.step] at hs
  case cancel deadline =>
    cases hs
    refine ⟨h.base_ok, h.sub_ok, fun hret => ?_, h.returned⟩
    obtain ⟨gb, gs, hr⟩ := h.waiting hret
    exact ⟨gb, gs, hr.count, hr.base, hr.sub⟩
  case base a =>
    simp only [Option.map_eq_some_iff] at hs
    obtain ⟨p, hp, rfl⟩ := hs
    refine ⟨step_ok h.base_ok hp, h.sub_ok, fun hret => ?_, h.returned⟩
    obtain ⟨gb, gs, hr⟩ := h.waiting hret
    exact ⟨gb, gs, hr.count,
      fun hg => ⟨step_spent (hr.base hg).1 hp, (hr.base hg).2⟩, hr.sub⟩
  case sub a =>
    simp only [Option.map_eq_some_iff] at hs
    obtain ⟨p, hp, rfl⟩ := hs
    refine ⟨h.base_ok, step_ok h.sub_ok hp, fun hret => ?_, h.returned⟩
    obtain ⟨gb, gs, hr⟩ := h.waiting hret
    exact ⟨gb, gs, hr.count, hr.base,
      fun hg => ⟨step_spent (hr.sub hg).1 hp, (hr.sub hg).2⟩⟩
  case selectDone =>
    split at hs <;> cases hs
    exact return' h.base_ok h.sub_ok (by simp)
  case selectBase =>
    split at hs
    next hopen =>
      split at hs <;> cases hs
      · refine ⟨h.base_ok, h.sub_ok, fun hret => ?_, h.returned⟩
        obtain ⟨gb, gs, hr⟩ := h.waiting hret
        exact ⟨gb, gs, hr.count, hr.base, hr.sub⟩
      next hrecv => exact h.onBase hopen.1 hrecv
    · cases hs
  case selectSub =>
    split at hs
    next hopen =>
      split at hs <;> cases hs
      · refine ⟨h.base_ok, h.sub_ok, fun hret => ?_, h.returned⟩
        obtain ⟨gb, gs, hr⟩ := h.waiting hret
        exact ⟨gb, gs, hr.count, hr.base, hr.sub⟩
      next hrecv => exact h.onSub hopen.1 hrecv
    · cases hs

theorem Inv.start {ctx handlers}
    (h : exclusion ctx handlers = .ok s) : ∃ b m, handlers = [b, m] ∧ Inv b m s := by
  unfold exclusion at h
  split at h
  next b m =>
    split at h <;> cases h
    exact ⟨b, m, rfl, start_ok b, start_ok m,
      fun _ => ⟨false, false, rfl, by simp, by simp⟩, by simp⟩
  · cases h

end Exclusion

/-! ## Soundness of the reducers -/

/-- Over every interleaving of the tasks, the closing of the channels, dropped
    sends and cancellation:

    * `intersection` answers allowed only for handlers that all allow, exactly when
      no step answers for a dropped outcome;
    * `exclusion` answers allowed only for an allowed base and a denied subtract;
    * `union` answers denied only for handlers that all deny, exactly when no step
      answers for a dropped outcome. -/
theorem reducers_sound_iff (ctx : Context) (limit : Nat) (handlers : List CheckOutcome) :
    (∀ (s₀ s : Reducer) (acts : List Reducer.Act),
      intersection ctx limit handlers = .ok s₀ →
      Lts.run (step intersectionBody) s₀ acts = some s →
      ((∀ res, s.ret = some (some res, none) → res.allowed = true →
          ∀ o ∈ handlers, o.Allows) ↔
        Lts.Meets (step intersectionBody)
          (fun s a => ¬ answersForDropped CheckOutcome.Allows s a) s₀ acts)) ∧
    (∀ (s₀ s : Exclusion) (acts : List Exclusion.Act),
      exclusion ctx handlers = .ok s₀ → Lts.run Exclusion.step s₀ acts = some s →
      ∀ res, s.ret = some (some res, none) → res.allowed = true →
        ∃ base sub, handlers = [base, sub] ∧ base.Allows ∧ sub.Refuses) ∧
    (∀ (s₀ s : Reducer) (acts : List Reducer.Act),
      union ctx limit handlers = .ok s₀ →
      Lts.run (step unionBody) s₀ acts = some s →
      ((∀ res, s.ret = some (some res, none) → res.allowed = false →
          ∀ o ∈ handlers, o.Denies) ↔
        Lts.Meets (step unionBody)
          (fun s a => ¬ answersForDropped CheckOutcome.Denies s a) s₀ acts)) := by
  refine ⟨?_, ?_, ?_⟩
  · intro s₀ s acts hstart hrun
    have hs₀ : s₀ = start ctx limit handlers true := by
      unfold intersection at hstart
      split at hstart
      · cases hstart
      · split at hstart <;> cases hstart
        rfl
    subst hs₀
    exact sound_iff_meets intersectionBody_spec (Reducer.Inv.start ctx limit) hrun
  · intro s₀ s acts hstart hrun res hres hall
    obtain ⟨b, m, rfl, hinv⟩ := Exclusion.Inv.start hstart
    have hend := Lts.run_invariant' (fun _ _ _ hI ht => Exclusion.Inv.step hI ht) hinv hrun
    exact ⟨b, m, rfl, hend.returned res hres hall⟩
  · intro s₀ s acts hstart hrun
    have hs₀ : s₀ = start ctx limit handlers false := by
      unfold union at hstart
      split at hstart <;> cases hstart
      rfl
    subst hs₀
    exact sound_iff_meets unionBody_spec (Reducer.Inv.start ctx limit) hrun

section Instances

private def allow : CheckOutcome := ⟨some ⟨true, false⟩, none⟩
private def deny : CheckOutcome := ⟨some ⟨false, false⟩, none⟩

/-- Both tasks deliver, then the loop receives both outcomes. -/
private def deliverBoth : List Reducer.Act :=
  [.launch, .launch, .offer 0 .send, .offer 1 .send, .closeOut, .selectOut, .selectOut]

/-- The context is cancelled between the two sends; the loop receives the first
    outcome and then the closed channel. -/
private def dropSecond : List Reducer.Act :=
  [.launch, .launch, .offer 0 .send, .cancel false, .offer 1 .done, .closeOut,
   .selectOut, .selectOut]

/-- Both operands deliver; the loop receives the subtracted one first. -/
private def subThenBase : List Exclusion.Act :=
  [.base (.offer .send), .sub (.offer .send), .selectSub, .selectBase]

theorem reducers_sound_deliver :
    (∃ s, Lts.run (step intersectionBody) (start none 10 [allow, allow] true)
        deliverBoth = some s ∧ s.ret = some (some ⟨true, false⟩, none) ∧
      ((∀ res, s.ret = some (some res, none) → res.allowed = true →
          ∀ o ∈ [allow, allow], o.Allows) ↔
        Lts.Meets (step intersectionBody)
          (fun s a => ¬ answersForDropped CheckOutcome.Allows s a)
          (start none 10 [allow, allow] true) deliverBoth)) ∧
    (∃ s, Lts.run Exclusion.step
        { ctx := none, base := start allow, sub := start deny,
          baseNil := false, subNil := false, baseErr := none, subErr := none,
          resultsReceived := 0, ret := none }
        subThenBase = some s ∧
      s.ret = some (some ⟨true, false⟩, none) ∧
      ∃ base sub, [allow, deny] = [base, sub] ∧ base.Allows ∧ sub.Refuses) ∧
    (∃ s, Lts.run (step unionBody) (start none 10 [deny, deny] false)
        deliverBoth = some s ∧ s.ret = some (some ⟨false, false⟩, none) ∧
      ((∀ res, s.ret = some (some res, none) → res.allowed = false →
          ∀ o ∈ [deny, deny], o.Denies) ↔
        Lts.Meets (step unionBody)
          (fun s a => ¬ answersForDropped CheckOutcome.Denies s a)
          (start none 10 [deny, deny] false) deliverBoth)) :=
  ⟨⟨_, rfl, rfl, (reducers_sound_iff none 10 [allow, allow]).1 _ _ deliverBoth rfl rfl⟩,
   ⟨_, rfl, rfl,
    (reducers_sound_iff none 10 [allow, deny]).2.1 _ _ subThenBase rfl rfl ⟨true, false⟩ rfl rfl⟩,
   ⟨_, rfl, rfl, (reducers_sound_iff none 10 [deny, deny]).2.2 _ _ deliverBoth rfl rfl⟩⟩

/-- An intersection with a handler that denies answers allowed, and a union with a
    handler that allows answers denied. -/
theorem reducers_unsound :
    (∃ s, intersection none 10 [allow, deny] = .ok (start none 10 [allow, deny] true) ∧
      Lts.run (step intersectionBody) (start none 10 [allow, deny] true)
        dropSecond = some s ∧ s.ret = some (some ⟨true, false⟩, none) ∧
      ¬ ∀ o ∈ [allow, deny], o.Allows) ∧
    (∃ s, union none 10 [deny, allow] = .ok (start none 10 [deny, allow] false) ∧
      Lts.run (step unionBody) (start none 10 [deny, allow] false)
        dropSecond = some s ∧ s.ret = some (some ⟨false, false⟩, none) ∧
      ¬ ∀ o ∈ [deny, allow], o.Denies) :=
  ⟨⟨_, rfl, rfl, rfl, by simp [CheckOutcome.Allows, allow, deny]⟩,
   ⟨_, rfl, rfl, rfl, by simp [CheckOutcome.Denies, allow, deny]⟩⟩

end Instances

end OpenFGA.LocalChecker
