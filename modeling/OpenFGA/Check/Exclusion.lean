/-
  `Resolver.ResolveExclusion` (internal/check/check.go) as a step function over
  its three goroutines: the base evaluation, the subtract evaluation and the
  select loop.

  The loop keeps two local channel variables and sets one of them to nil when it
  sees that channel closed.  `subtract == nil` therefore has two readings: no
  subtract edge was scheduled, or the subtract channel was closed.  A closed
  subtract channel has delivered its result unless `TrySendThroughChannel`
  dropped it because the context was done.  In that case the short-circuit "base
  is true and there's no subtract" answers for a subtract edge whose result
  nobody has seen.

  `answersForLostSubtract` is that step.  A run is safe exactly when it does not
  take it (`resolveExclusion_fails_closed_iff`).
-/

import OpenFGA.Lib.Run
import OpenFGA.Concurrency
import OpenFGA.Graph
import OpenFGA.Check.Response

namespace OpenFGA.Check
open Producer Option

/-- The state of a running `ResolveExclusion`. -/
structure Exclusion where
  ctx : Context
  base : Producer ResponseMsg
  /-- `none` when the subtract edge has no weight for the user type. -/
  subtract : Option (Producer ResponseMsg)
  /-- The local variable `base` is nil. -/
  baseNil : Bool
  /-- The local variable `subtract` is nil. -/
  subtractNil : Bool
  resultsReceived : Nat
  /-- The returned response and error, once the function has returned. -/
  ret : Option (Option Response × Option Err)
deriving Repr

namespace Exclusion

def scheduledHandlers (s : Exclusion) : Nat := if s.subtract.isSome then 2 else 1

/-- Leave the function. -/
def return' (s : Exclusion) (res : Option Response) (err : Option Err) : Exclusion :=
  { s with ret := some (res, err) }

/-- The loop condition; past the loop base was allowed and subtract denied. -/
def loopHead (s : Exclusion) : Exclusion :=
  if s.resultsReceived < s.scheduledHandlers then s else s.return' (some ⟨true⟩) none

/-- The body of `case msg := <-base`. -/
def onBase (s : Exclusion) (m : ResponseMsg) : Exclusion :=
  let s := { s with resultsReceived := s.resultsReceived + 1 }
  match m.err with
  | some e => s.return' none (some e)
  | none =>
    if m.getAllowed = false then s.return' (some ⟨false⟩) none
    else if s.subtractNil then s.return' m.res none
    else s.loopHead

/-- The body of `case msg := <-subtract`. -/
def onSubtract (s : Exclusion) (m : ResponseMsg) : Exclusion :=
  let s := { s with resultsReceived := s.resultsReceived + 1 }
  match m.err with
  | some e => s.return' none (some e)
  | none => if m.getAllowed then s.return' (some ⟨false⟩) none else s.loopHead

inductive Act where
  /-- The caller cancels the context, or its deadline passes. -/
  | cancel (deadline : Bool)
  | base (a : Producer.Act)
  | subtract (a : Producer.Act)
  | selectDone
  | selectBase
  | selectSubtract
deriving DecidableEq, Repr

def step (s : Exclusion) : Act → Option Exclusion
  | .cancel deadline => some { s with ctx := s.ctx.cancel deadline }
  | .base a => (s.base.step s.ctx a).map fun p => { s with base := p }
  | .subtract a => do
      let p ← s.subtract
      let p' ← p.step s.ctx a
      return { s with subtract := some p' }
  | .selectDone =>
    match s.ret, s.ctx with
    | none, some e => some (s.return' none (some e))
    | _, _ => none
  | .selectBase =>
    if s.ret = none ∧ s.baseNil = false then
      match s.base.chan.recv with
      | none => none
      | some (none, _) => some { s with baseNil := true }
      | some (some m, ch) => some ({ s with base := { s.base with chan := ch } }.onBase m)
    else none
  | .selectSubtract =>
    if s.ret = none ∧ s.subtractNil = false then
      match s.subtract with
      | none => none
      | some p =>
        match p.chan.recv with
        | none => none
        | some (none, _) => some { s with subtractNil := true }
        | some (some m, ch) =>
          some ({ s with subtract := some { p with chan := ch } }.onSubtract m)
    else none

end Exclusion

/-- `ResolveExclusion` up to the select loop.  `eval` gives what `ResolveEdge`
    returns for each of the two edges. -/
def resolveExclusion (g : Graph) (user : User) (node : NodeKey) (ctx : Context)
    (eval : Edge → ResponseMsg) : Except Err Exclusion :=
  match g.getEdgesFromNode node with
  | none => .error .panicRequest
  | some (baseEdge :: subtractEdge :: _) =>
    if (baseEdge.weight user.userType).isNone then .error .panicRequest
    else if user.isObjectRelation && (subtractEdge.weight user.userType).isNone then
      -- no way to the userset in the exclusion part: there is no answer
      .error .usersetInvalidRequest
    else
      let subtract := (subtractEdge.weight user.userType).map fun _ =>
        start (eval subtractEdge)
      .ok { ctx, base := start (eval baseEdge), subtract, baseNil := false,
            subtractNil := subtract.isNone, resultsReceived := 0, ret := none }
  | some _ => .error .panicRequest -- indexing `edges[1]` panics, and the caller recovers

namespace Exclusion

/-- The loop receives an allowed base result while `subtract` is nil although a
    subtract edge was scheduled, none of its results has been received, and it did
    not evaluate to false. -/
def answersForLostSubtract (s : Exclusion) (a : Act) : Prop :=
  a = .selectBase ∧ (∃ m, s.base.chan.buf.head? = some m ∧ m.Allows) ∧
    s.subtractNil = true ∧ s.resultsReceived = 0 ∧
    ∃ p, s.subtract = some p ∧ ¬ p.result.Denies

/-! ## The invariant of the select loop -/

/-- The goroutines hold the results `b` and `r` of the two evaluations; `r` is
    `none` when no subtract edge was scheduled. -/
structure Links (b : ResponseMsg) (r : Option ResponseMsg) (s : Exclusion) : Prop where
  base_ok : s.base.Ok b
  subtract_ok : ∀ p, s.subtract = some p → ∃ m, r = some m ∧ p.Ok m
  subtract_none : s.subtract = none → r = none ∧ s.subtractNil = true

/-- Nothing was received, or exactly one of two results was and it does not
    decide the exclusion. -/
def Pending (b : ResponseMsg) (r : Option ResponseMsg) (s : Exclusion) : Prop :=
  s.resultsReceived = 0 ∨
    s.resultsReceived = 1 ∧ ∃ p m, s.subtract = some p ∧ r = some m ∧
      (s.base.Spent ∧ b.Allows ∨ p.Spent ∧ m.Denies)

/-- The two results make the exclusion true. -/
def Justified (b : ResponseMsg) (r : Option ResponseMsg) : Prop :=
  b.Allows ∧ (r = none ∨ ∃ m, r = some m ∧ m.Denies)

/-- The loop invariant. -/
structure Inv (b : ResponseMsg) (r : Option ResponseMsg) (s : Exclusion) : Prop where
  links : Links b r s
  pending : s.ret = none → Pending b r s
  returned : ∀ res, s.ret = some (some res, none) → res.allowed = true → Justified b r

variable {b : ResponseMsg} {r : Option ResponseMsg} {s s' : Exclusion} {ch : Chan ResponseMsg}
  {a : Act}

/-- Leaving the function keeps the invariant when an allowed answer is justified. -/
lemma Links.inv_return (h : Links b r s) {res err}
    (hret : ∀ x, res = some x → err = none → x.allowed = true → Justified b r) :
    Inv b r (s.return' res err) where
  links := ⟨h.base_ok, h.subtract_ok, h.subtract_none⟩
  pending := by simp [Exclusion.return']
  returned := by
    intro x hx hallowed
    simp only [Exclusion.return', some.injEq, Prod.mk.injEq] at hx
    exact hret x hx.1 hx.2 hallowed

/-- Back at the loop head: two received results are a justified answer, one is
    still pending. -/
lemma Links.inv_loopHead (h : Links b r s) (hret : s.ret = none)
    (hlt : s.resultsReceived < s.scheduledHandlers → Pending b r s)
    (hge : ¬ s.resultsReceived < s.scheduledHandlers → Justified b r) :
    Inv b r s.loopHead := by
  unfold loopHead
  split
  next hc => exact ⟨h, fun _ => hlt hc, by simp [hret]⟩
  next hc => exact h.inv_return fun _ _ _ _ => hge hc

/-- Receiving the base result keeps the invariant, unless the subtract result was
    lost. -/
lemma Inv.onBase (h : Inv b r s) (hret : s.ret = none)
    {m} (hrecv : s.base.chan.recv = some (some m, ch))
    (hlost : m.Allows → s.subtractNil = true → s.resultsReceived = 0 →
      ∀ p, s.subtract = some p → p.result.Denies) :
    Inv b r ({ s with base := { s.base with chan := ch } }.onBase m) := by
  obtain ⟨rfl, hnot, hok, hspent⟩ := recv_ok h.links.base_ok hrecv
  have hl : Links m r { s with base := { s.base with chan := ch },
                               resultsReceived := s.resultsReceived + 1 } :=
    ⟨hok, h.links.subtract_ok, h.links.subtract_none⟩
  -- the base result is received only now: an earlier result is the subtract's
  have hearlier : s.resultsReceived = 0 ∨
      s.resultsReceived = 1 ∧ ∃ x, r = some x ∧ x.Denies := by
    refine (h.pending hret).imp_right ?_
    rintro ⟨h1, p, x, -, hx, ⟨hsp, -⟩ | ⟨-, hd⟩⟩
    · exact absurd hsp hnot
    · exact ⟨h1, x, hx, hd⟩
  unfold Exclusion.onBase
  cases herr : m.err with
  | some e => exact hl.inv_return (by simp)
  | none =>
    simp only
    by_cases hden : m.getAllowed = false
    · rw [if_pos hden]
      exact hl.inv_return (by simp)
    · have hall : m.Allows := ⟨herr, by simpa using hden⟩
      rw [if_neg hden]
      by_cases hnil : s.subtractNil = true
      · -- the short-circuit: nil means not scheduled, or received before
        rw [if_pos hnil]
        refine hl.inv_return fun x _ _ _ => ⟨hall, ?_⟩
        cases hsub : s.subtract with
        | none => exact .inl (h.links.subtract_none hsub).1
        | some p =>
          rcases hearlier with h0 | ⟨-, x, hx, hd⟩
          · obtain ⟨x, hx, hpx⟩ := h.links.subtract_ok p hsub
            have hd := hlost hall hnil h0 p hsub
            rw [hpx.1] at hd
            exact .inr ⟨x, hx, hd⟩
          · exact .inr ⟨x, hx, hd⟩
      · rw [if_neg hnil]
        obtain ⟨p, hp⟩ : ∃ p, s.subtract = some p := by
          cases hsub : s.subtract with
          | none => exact absurd (h.links.subtract_none hsub).2 hnil
          | some p => exact ⟨p, rfl⟩
        obtain ⟨x, hx, -⟩ := h.links.subtract_ok p hp
        refine hl.inv_loopHead hret ?_ ?_
        · intro hc
          simp only [scheduledHandlers, hp, isSome_some, if_true] at hc
          exact .inr ⟨by simp only; omega, p, x, hp, hx, .inl ⟨hspent, hall⟩⟩
        · intro hc
          simp only [scheduledHandlers, hp, isSome_some, if_true] at hc
          rcases hearlier with h0 | ⟨-, y, hy, hd⟩
          · omega
          · exact ⟨hall, .inr ⟨y, hy, hd⟩⟩

lemma Inv.onSubtract (h : Inv b r s) (hret : s.ret = none) {p}
    (hp : s.subtract = some p) {m} (hrecv : p.chan.recv = some (some m, ch)) :
    Inv b r ({ s with subtract := some { p with chan := ch } }.onSubtract m) := by
  obtain ⟨x, hx, hpx⟩ := h.links.subtract_ok p hp
  obtain ⟨rfl, hnot, hok, hspent⟩ := recv_ok hpx hrecv
  have hl : Links b r { s with subtract := some { p with chan := ch },
                               resultsReceived := s.resultsReceived + 1 } := by
    refine ⟨h.links.base_ok, ?_, by simp⟩
    intro q hq
    cases hq
    exact ⟨m, hx, hok⟩
  -- the subtract result is received only now: an earlier result is the base's
  have hearlier : s.resultsReceived = 0 ∨ s.resultsReceived = 1 ∧ b.Allows := by
    refine (h.pending hret).imp_right ?_
    rintro ⟨h1, q, y, hq, -, ⟨-, hall⟩ | ⟨hsp, -⟩⟩
    · exact ⟨h1, hall⟩
    · rw [hp] at hq
      cases hq
      exact absurd hsp hnot
  unfold Exclusion.onSubtract
  cases herr : m.err with
  | some e => exact hl.inv_return (by simp)
  | none =>
    simp only
    by_cases hall : m.getAllowed = true
    · rw [if_pos hall]
      exact hl.inv_return (by simp)
    · have hden : m.Denies := ⟨herr, by simpa using hall⟩
      rw [if_neg hall]
      refine hl.inv_loopHead hret ?_ ?_
      · intro hc
        simp only [scheduledHandlers, isSome_some, if_true] at hc
        exact .inr ⟨by simp only; omega, _, m, rfl, hx, .inr ⟨hspent, hden⟩⟩
      · intro hc
        simp only [scheduledHandlers, isSome_some, if_true] at hc
        rcases hearlier with h0 | ⟨-, hb⟩
        · omega
        · exact ⟨hb, .inr ⟨m, hx, hden⟩⟩

/-- A step of a goroutine around the loop keeps the invariant: it changes neither
    what was received nor what was returned. -/
lemma Inv.frame (h : Inv b r s) (hl : Links b r s') (hret : s'.ret = s.ret)
    (hpend : Pending b r s → Pending b r s') : Inv b r s' where
  links := hl
  pending := fun hr => hpend (h.pending (hret ▸ hr))
  returned := by
    rw [hret]
    exact h.returned

/-- Every step that does not answer for a lost subtract result keeps the
    invariant. -/
theorem Inv.step (h : Inv b r s) (hok : ¬ answersForLostSubtract s a)
    (hs : s.step a = some s') : Inv b r s' := by
  cases a <;> simp only [Exclusion.step] at hs
  case cancel deadline =>
    cases hs
    exact h.frame ⟨h.links.base_ok, h.links.subtract_ok, h.links.subtract_none⟩ rfl id
  case base a =>
    simp only [map_eq_some_iff] at hs
    obtain ⟨p, hp, rfl⟩ := hs
    refine h.frame ⟨step_ok h.links.base_ok hp, h.links.subtract_ok,
      h.links.subtract_none⟩ rfl ?_
    rintro (h0 | ⟨h1, q, m, hq, hm, hcase⟩)
    · exact .inl h0
    · exact .inr ⟨h1, q, m, hq, hm,
        hcase.imp_left fun hb => ⟨step_spent hb.1 hp, hb.2⟩⟩
  case subtract a =>
    simp only [bind_eq_bind, bind_eq_some_iff, pure_def, some.injEq] at hs
    obtain ⟨p, hp, p', hp', rfl⟩ := hs
    obtain ⟨m, hm, hpm⟩ := h.links.subtract_ok p hp
    refine h.frame ⟨h.links.base_ok, ?_, by simp⟩ rfl ?_
    · intro q hq
      cases hq
      exact ⟨m, hm, step_ok hpm hp'⟩
    · rintro (h0 | ⟨h1, q, x, hq, hx, hcase⟩)
      · exact .inl h0
      · rw [hp] at hq
        cases hq
        exact .inr ⟨h1, p', x, rfl, hx,
          hcase.imp_right fun hd => ⟨step_spent hd.1 hp', hd.2⟩⟩
  case selectDone =>
    split at hs <;> cases hs
    exact h.links.inv_return (by simp)
  case selectBase =>
    split at hs
    next hopen =>
      split at hs <;> cases hs
      · exact h.frame ⟨h.links.base_ok, h.links.subtract_ok, h.links.subtract_none⟩ rfl id
      next m ch hrecv =>
        refine h.onBase hopen.1 hrecv fun hall hnil h0 p hp => ?_
        by_contra hden
        have hhead : s.base.chan.buf.head? = some m := by
          rw [(Chan.recv_value hrecv).1]
          rfl
        exact hok ⟨rfl, ⟨m, hhead, hall⟩, hnil, h0, p, hp, hden⟩
    · cases hs
  case selectSubtract =>
    split at hs
    next hopen =>
      split at hs
      · cases hs
      next hp =>
        split at hs <;> cases hs
        · exact h.frame ⟨h.links.base_ok, h.links.subtract_ok,
            fun hn => ⟨(h.links.subtract_none hn).1, rfl⟩⟩ rfl id
        next hrecv => exact h.onSubtract hopen.1 hp hrecv
    · cases hs

theorem Inv.start {g user node ctx}
    {eval : Edge → ResponseMsg} (h : resolveExclusion g user node ctx eval = .ok s) :
    ∃ e d rest, g.getEdgesFromNode node = some (e :: d :: rest) ∧
      Inv (eval e) ((d.weight user.userType).map fun _ => eval d) s := by
  unfold resolveExclusion at h
  split at h
  · cases h
  next e d rest hedges =>
    split_ifs at h
    obtain rfl := Except.ok.inj h
    refine ⟨e, d, rest, hedges, ⟨start_ok _, ?_, ?_⟩, fun _ => .inl rfl, by simp⟩
    · intro p hp
      simp only [map_eq_some_iff] at hp
      obtain ⟨w, hw, rfl⟩ := hp
      exact ⟨eval d, by simp [hw], start_ok _⟩
    · intro hp
      simp only [map_eq_none_iff] at hp
      simp [hp]
  · cases h

lemma step_ret {x} (hs : s.step a = some s') (hret : s.ret = some x) : s'.ret = some x := by
  cases a with
  | cancel deadline =>
    cases hs
    exact hret
  | base a =>
    simp only [Exclusion.step, map_eq_some_iff] at hs
    obtain ⟨p, -, rfl⟩ := hs
    exact hret
  | subtract a =>
    simp only [Exclusion.step, bind_eq_bind, bind_eq_some_iff,
      pure_def, some.injEq] at hs
    obtain ⟨p, -, p', -, rfl⟩ := hs
    exact hret
  | selectDone | selectBase | selectSubtract => simp [Exclusion.step, hret] at hs

lemma step_answersForLostSubtract (h : answersForLostSubtract s a) (hs : s.step a = some s') :
    ∃ res : Response, s'.ret = some (some res, none) ∧ res.allowed = true := by
  obtain ⟨rfl, ⟨m, hm, herr, hall⟩, hnil, -⟩ := h
  simp only [Exclusion.step] at hs
  split at hs
  · split at hs
    · cases hs
    next hrecv =>
      rw [(Chan.recv_closed hrecv).1] at hm
      cases hm
    next hrecv =>
      rw [(Chan.recv_value hrecv).1] at hm
      cases hm
      cases hs
      obtain ⟨res, hres⟩ : ∃ res, m.res = some res := by
        cases hr : m.res with
        | none => simp [ResponseMsg.getAllowed, hr] at hall
        | some res => exact ⟨res, rfl⟩
      refine ⟨res, ?_, by simpa [ResponseMsg.getAllowed, hres] using hall⟩
      simp [onBase, herr, hall, hnil, hres, Exclusion.return']
  · cases hs

/-- The answer of a run: an allowed answer comes from an allowed base and an
    unscheduled or denied subtract. -/
def FailsClosed (b : ResponseMsg) (r : Option ResponseMsg) (s : Exclusion) : Prop :=
  ∀ res, s.ret = some (some res, none) → res.allowed = true → Justified b r

/-- A lost subtract result that is not a denial makes an allowed answer
    unjustified. -/
lemma Inv.not_justified (h : Inv b r s) (hlost : answersForLostSubtract s a) :
    ¬ Justified b r := by
  obtain ⟨-, -, -, -, p, hp, hden⟩ := hlost
  obtain ⟨x, hx, hpx⟩ := h.links.subtract_ok p hp
  rintro ⟨-, hr | ⟨y, hy, hd⟩⟩
  · rw [hr] at hx
    cases hx
  · rw [hy] at hx
    cases hx
    rw [← hpx.1] at hd
    exact hden hd

/-- Along a run from an invariant state, the answer is safe exactly when no step
    answers for a lost subtract result. -/
lemma failsClosed_iff_meets {acts} (h : Inv b r s) (hrun : Lts.run step s acts = some s') :
    FailsClosed b r s' ↔ Lts.Meets step (fun s a => ¬ answersForLostSubtract s a) s acts := by
  -- the unjustified answer, once given, stays
  refine Lts.iff_meets (I := Inv b r)
    (B := fun t => (∃ res : Response, t.ret = some (some res, none) ∧ res.allowed = true) ∧
      ¬ Justified b r)
    (fun _ _ _ hI hok ht => hI.step hok ht) ?_ ?_ (fun _ hI => hI.returned) ?_ h hrun
  · intro t a t' hI hlost ht
    rw [not_not] at hlost
    exact ⟨step_answersForLostSubtract hlost ht, hI.not_justified hlost⟩
  · rintro t a t' ⟨⟨res, hres, hall⟩, hj⟩ ht
    exact ⟨⟨res, step_ret ht hres, hall⟩, hj⟩
  · rintro t ⟨⟨res, hres, hall⟩, hj⟩ hsafe
    exact hj (hsafe res hres hall)

end Exclusion

open Exclusion

/-! ## When the exclusion fails closed -/

/-- Over every interleaving of the two evaluations, the closing of their channels,
    dropped sends and cancellation: an allowed answer of `ResolveExclusion` is
    justified by its two edges exactly when the run takes no step that answers for
    a lost subtract result. -/
theorem resolveExclusion_fails_closed_iff {g : Graph} {user : User} {node : NodeKey}
    {ctx : Context} {eval : Edge → ResponseMsg} {s₀ s : Exclusion} {acts : List Exclusion.Act}
    (hstart : resolveExclusion g user node ctx eval = .ok s₀)
    (hrun : Lts.run step s₀ acts = some s) :
    (∀ res, s.ret = some (some res, none) → res.allowed = true →
      ∃ base subtract rest, g.getEdgesFromNode node = some (base :: subtract :: rest) ∧
        (eval base).Allows ∧
        (subtract.weight user.userType = none ∨ (eval subtract).Denies)) ↔
      Lts.Meets step (fun s a => ¬ answersForLostSubtract s a) s₀ acts := by
  obtain ⟨e, d, rest, hedges, hinv⟩ := Exclusion.Inv.start hstart
  rw [← failsClosed_iff_meets hinv hrun]
  -- the edges are determined by the node, so both sides speak of the same results
  have hjust : Exclusion.Justified (eval e) ((d.weight user.userType).map fun _ => eval d) ↔
      (eval e).Allows ∧ (d.weight user.userType = none ∨ (eval d).Denies) := by
    cases hw : d.weight user.userType <;> simp [Exclusion.Justified]
  constructor
  · intro h res hres hall
    obtain ⟨e', d', rest', hedges', hcase⟩ := h res hres hall
    rw [hedges] at hedges'
    cases hedges'
    exact hjust.mpr hcase
  · intro h res hres hall
    exact ⟨e, d, rest, hedges, hjust.mp (h res hres hall)⟩

section Instances

/-- `define viewer: [user] but not [user]`, the smallest graph with an exclusion. -/
private def exclusionNode : NodeKey := .operatorNode .exclusion "0"

private def userEdge (id : String) : Edge where
  edgeType := .directEdge
  source := exclusionNode
  target := .specificType "user"
  relationDefinition := ("document", id)
  tuplesetRelation := none
  conditions := [""]
  recursiveRelation := none
  tupleCycle := false
  wildcards := []
  weights := [(.type "user", 1)]

private def exclusionGraph : Graph where
  nodes := []
  edges := [(exclusionNode, [userEdge "allowed", userEdge "blocked"])]

private def anne : User := .object ⟨"user", "anne"⟩

private def answers (allowed blocked : Bool) (e : Edge) : ResponseMsg :=
  ⟨some ⟨if e.relationDefinition.2 = "blocked" then blocked else allowed⟩, none⟩

/-- Both results are delivered, then the loop reads them. -/
private def orderlySchedule : List Exclusion.Act :=
  [.subtract (.offer .send), .subtract .close, .base (.offer .send), .base .close,
   .selectSubtract, .selectSubtract, .selectBase]

/-- The context is cancelled before the subtract result is sent, the send is
    dropped, and the loop sees the closed channel before the base result. -/
private def lossySchedule : List Exclusion.Act :=
  [.base (.offer .send), .cancel false, .subtract (.offer .done), .subtract .close,
   .selectSubtract, .selectBase]

private def startState (allowed blocked : Bool) : Exclusion where
  ctx := none
  base := start ⟨some ⟨allowed⟩, none⟩
  subtract := some (start ⟨some ⟨blocked⟩, none⟩)
  baseNil := false
  subtractNil := false
  resultsReceived := 0
  ret := none

theorem resolveExclusion_fails_closed_orderly :
    ∃ s, Lts.run step (startState true false) orderlySchedule = some s ∧
      s.ret = some (some ⟨true⟩, none) ∧
      ((∀ res, s.ret = some (some res, none) → res.allowed = true →
        ∃ base subtract rest,
          exclusionGraph.getEdgesFromNode exclusionNode = some (base :: subtract :: rest) ∧
          (answers true false base).Allows ∧
          (subtract.weight anne.userType = none ∨ (answers true false subtract).Denies)) ↔
        Lts.Meets step (fun s a => ¬ answersForLostSubtract s a)
          (startState true false) orderlySchedule) := by
  have hstart : resolveExclusion exclusionGraph anne exclusionNode none (answers true false) =
      .ok (startState true false) := rfl
  exact ⟨_, rfl, rfl, resolveExclusion_fails_closed_iff hstart rfl⟩

/-- Base and subtract both evaluate to true, and the answer is allowed. -/
theorem resolveExclusion_fails_open :
    ¬ ∀ (g : Graph) (user : User) (node : NodeKey) (ctx : Context)
        (eval : Edge → ResponseMsg) (s₀ s : Exclusion) (acts : List Exclusion.Act)
        (res : Response),
      resolveExclusion g user node ctx eval = .ok s₀ →
      Lts.run step s₀ acts = some s →
      s.ret = some (some res, none) → res.allowed = true →
      ∃ base subtract rest, g.getEdgesFromNode node = some (base :: subtract :: rest) ∧
        (eval base).Allows ∧
        (subtract.weight user.userType = none ∨ (eval subtract).Denies) := by
  intro h
  obtain ⟨base, subtract, rest, hedges, -, hsub⟩ :=
    h exclusionGraph anne exclusionNode none (answers true true) (startState true true) _
      lossySchedule ⟨true⟩ rfl rfl rfl rfl
  have hd : subtract = userEdge "blocked" := by
    have : exclusionGraph.getEdgesFromNode exclusionNode =
        some [userEdge "allowed", userEdge "blocked"] := rfl
    rw [this] at hedges
    cases hedges
    rfl
  subst hd
  revert hsub
  decide

end Instances

end OpenFGA.Check
