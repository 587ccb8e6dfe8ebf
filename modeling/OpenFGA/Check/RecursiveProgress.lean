/-
  The search of `recursiveMatch` never blocks before it has answered, and it ends.

  Termination is by a measure that every step of every schedule decreases: the
  tuples still to be read, where an id that has not been visited stands for the
  tuples its resolver would read.  It needs no condition on the run; only the
  absence of a deadlock does.
-/

import OpenFGA.Check.RecursiveMatch

namespace OpenFGA.Check
namespace Match
open List Option

variable {q : MatchInput} {s s' : Match} {starts : List Object} {f : Frame}
  {others : Multiset Frame}

/-! ## No deadlock -/

/-- A goroutine can go on unless it waits for room in the response channel. -/
lemma resume_enabled {k fs} (hk : s.goroutines[k]? = some (f :: fs))
    (hsend : ∀ msg, f.mode = .sending msg → (s.out.send msg).isSome) :
    ∃ s', s.resume q k = some s' := by
  obtain ⟨rest, onceValid, lastErr, mode⟩ := f
  unfold resume
  rw [hk]
  cases mode with
  | reading =>
    cases rest with
    | nil | cons t ts =>
      simp only
      split <;> exact ⟨_, rfl⟩
  | yielded id =>
    simp only
    split
    · exact ⟨_, rfl⟩
    · split <;> exact ⟨_, rfl⟩
  | sending msg =>
    obtain ⟨out, hout⟩ := isSome_iff_exists.mp (hsend msg rfl)
    simp only [hout, map_some]
    exact ⟨_, rfl⟩

lemma receive_enabled (h : s.out.buf ≠ [] ∨ s.out.closed = true) : ∃ s', s.receive = some s' := by
  unfold receive
  cases hbuf : s.out.buf with
  | nil =>
    have hclosed : s.out.closed = true := by simpa [hbuf] using h
    simp [Chan.recv, hbuf, hclosed]
  | cons m ms =>
    simp only [Chan.recv, hbuf]
    cases m.err <;> cases m.res <;> exact ⟨_, rfl⟩

/-- What keeps the channel from blocking the search. -/
structure Flow (q : MatchInput) (s : Match) : Prop where
  closed : s.out.closed = true → s.frames = 0 ∧ ¬ s.launching
  cap_eq : s.out.cap = q.concurrencyLimit
  room : s.launching → s.out.buf.length + s.sendingCount ≤ s.out.cap

/-- Before the answer, some step is enabled. -/
theorem Flow.progress (h : Flow q s) (hlimit : 0 < q.concurrencyLimit) (hret : s.ret = none) :
    ∃ a s', s.step q a = some s' := by
  have hresume : ∀ k, s.step q (.resume k) = s.resume q k := fun k => by simp [Match.step, hret]
  have hreceive : ¬ s.launching → s.step q .receive = s.receive :=
    fun hl => by simp [Match.step, hret, hl]
  by_cases hframes : s.frames = 0
  · -- no goroutine is left: the launch loop, the closing or the consumer goes on
    have hidle : s.active = 0 := by
      rw [frames, Stacks.frames_eq_zero] at hframes
      simpa [active, countP_eq_zero] using hframes
    cases hwaiting : s.waiting with
    | some id => exact ⟨.launch, _, by simp [Match.step, hret, hwaiting, hidle, hlimit]; rfl⟩
    | none =>
      cases htoLaunch : s.toLaunch with
      | cons id ids => exact ⟨.store, _, by simp [Match.step, hret, hwaiting, htoLaunch]; rfl⟩
      | nil =>
        have hl : ¬ s.launching := by simp [launching, hwaiting, htoLaunch]
        by_cases hclosed : s.out.closed = true
        · obtain ⟨s', hs'⟩ := receive_enabled (.inr hclosed)
          exact ⟨.receive, s', (hreceive hl).trans hs'⟩
        · exact ⟨.closeOut, _, by
            simp only [Match.step, hret, if_true]
            rw [if_pos ⟨hl, hidle, by simpa using hclosed⟩]⟩
  · -- a goroutine goes on, or its channel is full and the consumer does
    obtain ⟨k, f, fs, hk⟩ := Stacks.exists_top hframes
    have hfmem : f ∈ s.frames :=
      Stacks.mem_frames.mpr ⟨f :: fs, mem_of_getElem? hk, mem_cons_self⟩
    have hopen : s.out.closed = false := by
      by_contra hc
      exact hframes (h.closed (by simpa using hc)).1
    by_cases hroom : s.out.buf.length < s.out.cap
    · obtain ⟨s', hs'⟩ := resume_enabled (q := q) hk fun msg _ => by
        simp [Chan.send, hroom, hopen]
      exact ⟨.resume k, s', (hresume k).trans hs'⟩
    · by_cases hsending : ∃ msg, f.mode = .sending msg
      · obtain ⟨msg, hmode⟩ := hsending
        have hpos : 0 < s.sendingCount := by
          rw [sendingCount_eq]
          exact Multiset.countP_pos.mpr ⟨f, hfmem, by simp [Frame.isSending, hmode]⟩
        have hl : ¬ s.launching := fun hl => by
          have := h.room hl
          omega
        have hfull : s.out.buf ≠ [] := by
          intro hnil
          rw [hnil, length_nil, h.cap_eq] at hroom
          omega
        obtain ⟨s', hs'⟩ := receive_enabled (.inl hfull)
        exact ⟨.receive, s', (hreceive hl).trans hs'⟩
      · obtain ⟨s', hs'⟩ := resume_enabled (q := q) hk fun msg hmode =>
          absurd ⟨msg, hmode⟩ hsending
        exact ⟨.resume k, s', (hresume k).trans hs'⟩

/-! ## Termination -/

/-- What a resolver for `id` still has to do. -/
def cost (q : MatchInput) (id : Object) : Nat := 3 * (q.tuplesForID id).length + 4

/-- What is left of a call. -/
def frameCost (q : MatchInput) (f : Frame) : Nat :=
  match f.mode with
  | .reading => 3 * f.rest.length + 3
  | .yielded id => 3 * f.rest.length + 3 + cost q id
  | .sending _ => 2

/-- The work left: for the launch loop, the goroutines, the ids that were not
    visited, the closing of the channel and the consumer. -/
def measure (q : MatchInput) (s : Match) : Nat :=
  (s.toLaunch.map fun id => cost q id + 1).sum + (s.waiting.map (cost q)).getD 0 +
    (s.frames.map (frameCost q)).sum + (∑ id ∈ q.ids.toFinset with id ∉ s.visited, cost q id) +
    s.out.buf.length + (if s.out.closed then 0 else 1) + (if s.ret = none then 1 else 0)

lemma unvisited_mono (ids : Finset Object) {v w : List Object} (h : ∀ x ∈ v, x ∈ w) :
    (∑ id ∈ ids with id ∉ w, cost q id) ≤ ∑ id ∈ ids with id ∉ v, cost q id :=
  Finset.sum_le_sum_of_subset fun x hx => by
    rw [Finset.mem_filter] at hx ⊢
    exact ⟨hx.1, fun hv => hx.2 (h x hv)⟩

lemma unvisited_cons {ids v x} (hx : x ∈ ids) (hv : x ∉ v) :
    (∑ id ∈ ids with id ∉ x :: v, cost q id) + cost q x = ∑ id ∈ ids with id ∉ v, cost q id := by
  rw [add_comm, ← Finset.add_sum_erase (ids.filter (· ∉ v)) (cost q)
    (Finset.mem_filter.mpr ⟨hx, hv⟩)]
  congr 2
  ext y
  simp only [Finset.mem_filter, Finset.mem_erase, mem_cons]
  tauto

/-- Every tuple that is still to be read leads to a known id. -/
def ReadsKnown (q : MatchInput) (s : Match) : Prop :=
  ∀ f ∈ s.frames, ∀ t ∈ f.rest, q.key t ∈ q.ids

lemma readsKnown_frame (id : Object) : ∀ t ∈ (q.frame id).rest, q.key t ∈ q.ids :=
  fun t ht => q.key_mem id t ht

lemma afterFilter_rest (f : Frame) (t : TupleKey) (rest : List TupleKey) :
    (q.afterFilter f t rest).rest = rest := by
  unfold MatchInput.afterFilter
  split <;> rfl

/-- The condition filter turns the tuple into at most a held id. -/
lemma frameCost_afterFilter (hmode : f.mode = .reading) (t : TupleKey) (rest : List TupleKey) :
    frameCost q (q.afterFilter f t rest) ≤ 3 * rest.length + 3 + cost q (q.key t) := by
  unfold MatchInput.afterFilter
  split <;> simp [frameCost, hmode]

section
variable (h : ReadsKnown q s)
include h

/-- The frames `new` in place of `f` read known tuples when they read what `f` read
    or what a new resolver reads. -/
lemma ReadsKnown.replaced (new : Multiset Frame)
    (hf : s.frames = f ::ₘ others) (hframes : s'.frames = new + others)
    (hnew : ∀ x ∈ new, ∀ t ∈ x.rest, t ∈ f.rest ∨ q.key t ∈ q.ids) : ReadsKnown q s' := by
  intro x hx t ht
  rw [hframes] at hx
  rcases Multiset.mem_add.mp hx with hx | hx
  · rcases hnew x hx t ht with ht | ht
    · exact h f (hf ▸ Multiset.mem_cons_self _ _) t ht
    · exact ht
  · exact h x (hf ▸ Multiset.mem_cons_of_mem hx) t ht

lemma ReadsKnown.moved
    (hf : s.frames = f ::ₘ others) (hm : Moved q s f others s') : ReadsKnown q s' := by
  cases hm with
  | finish hmode hrest hframes hids hout | send msg hmode hframes hids hsend =>
    exact h.replaced 0 hf (by simpa using hframes) (by simp)
  | fail e hmode hrest herr hframes hids hout =>
    exact h.replaced {_} hf hframes (by simp [hrest])
  | skip t rest hmode hrest hseen hframes hids hout =>
    exact h.replaced {_} hf hframes (by simp +contextual [hrest])
  | mark t rest hmode hrest hfresh hframes hvisited hexplored hout =>
    exact h.replaced {_} hf hframes (by simp +contextual [hrest, afterFilter_rest])
  | found id hmode hid hframes hids hout =>
    exact h.replaced {_} hf hframes (by simp +contextual)
  | descend id hmode hid hframes hids hout =>
    refine h.replaced {q.frame id, { f with mode := .reading }} hf
      (by simpa using hframes) ?_
    intro x hx t ht
    simp only [Multiset.insert_eq_cons, Multiset.mem_cons, Multiset.mem_singleton] at hx
    rcases hx with rfl | rfl
    · exact .inr (readsKnown_frame id t ht)
    · exact .inl ht

lemma measure_moved
    (hsame : s'.toLaunch = s.toLaunch ∧ s'.waiting = s.waiting ∧ s'.err = s.err ∧ s'.ret = s.ret)
    (hf : s.frames = f ::ₘ others) (hm : Moved q s f others s') : measure q s' < measure q s := by
  obtain ⟨h1, h2, -, h4⟩ := hsame
  unfold measure
  rw [h1, h2, h4, hf, Multiset.map_cons, Multiset.sum_cons]
  cases hm with
  | finish hmode hrest hframes hids hout =>
    rw [hframes, hids.1, hout]
    simp only [frameCost, hmode]
    omega
  | fail e hmode hrest herr hframes hids hout | found id hmode hid hframes hids hout =>
    rw [hframes, hids.1, hout, Multiset.map_cons, Multiset.sum_cons]
    simp only [frameCost, hmode]
    omega
  | skip t rest hmode hrest hseen hframes hids hout =>
    rw [hframes, hids.1, hout, Multiset.map_cons, Multiset.sum_cons]
    simp only [frameCost, hmode, hrest, length_cons]
    omega
  | mark t rest hmode hrest hfresh hframes hvisited hexplored hout =>
    have hknown : q.key t ∈ q.ids.toFinset := mem_toFinset.mpr
      (h f (hf ▸ Multiset.mem_cons_self _ _) t (hrest ▸ mem_cons_self))
    have hpaid := unvisited_cons (q := q) hknown hfresh
    have hcost := frameCost_afterFilter (q := q) hmode t rest
    rw [hframes, hvisited, hout, Multiset.map_cons, Multiset.sum_cons]
    have hfcost : frameCost q f = 3 * rest.length + 6 := by
      simp only [frameCost, hmode, hrest, length_cons]
      omega
    omega
  | descend id hmode hid hframes hids hout =>
    rw [hframes, hids.1, hout, Multiset.map_cons, Multiset.sum_cons, Multiset.map_cons,
      Multiset.sum_cons]
    simp only [frameCost, hmode, MatchInput.frame, cost]
    omega
  | send msg hmode hframes hids hsend =>
    obtain ⟨-, hout⟩ := Chan.send_eq_some hsend
    rw [hframes, hids.1, hout]
    simp only [frameCost, hmode, length_append, length_singleton]
    omega

lemma measure_receive (hret : s.ret = none) (hs : s.receive = some s') :
    ReadsKnown q s' ∧ measure q s' < measure q s := by
  unfold Match.receive at hs
  split at hs
  · cases hs
  · cases hs
    exact ⟨h, by simp [measure, hret, frames]⟩
  next out hrecv =>
    obtain ⟨hbuf, hclosed⟩ := Chan.recv_value hrecv
    -- one message less; the answer only lowers the measure further
    have hless : ∀ (err : Option Err) (ret : Option (Response × Option Err)),
        measure q { s with out, err, ret } < measure q s := by
      intro err ret
      simp only [measure, hret, if_true, hbuf, length_cons, hclosed, frames]
      split_ifs <;> omega
    split at hs
    · cases hs
      exact ⟨h, hless _ _⟩
    · split at hs <;> cases hs <;> exact ⟨h, hless _ _⟩

lemma measure_step {a : Act} (hs : s.step q a = some s') :
    ReadsKnown q s' ∧ measure q s' < measure q s := by
  unfold Match.step at hs
  split at hs
  next hret =>
    cases a <;> simp only at hs
    case store =>
      split at hs <;> cases hs
      next id ids htoLaunch hwaiting =>
        refine ⟨h, ?_⟩
        have hmono := unvisited_mono (q := q) q.ids.toFinset (v := s.visited)
          (w := id :: s.visited) fun x hx => mem_cons_of_mem _ hx
        simp only [measure, htoLaunch, hwaiting, map_cons, sum_cons,
          map_some, map_none, getD_some, getD_none, frames]
        omega
    case launch =>
      split at hs
      next id hwaiting =>
        split at hs <;> cases hs
        have hframes : Stacks.frames (s.goroutines ++ [[q.frame id]]) =
            q.frame id ::ₘ s.frames := by
          rw [frames, Stacks.frames_append, Stacks.frames_singleton, add_comm,
            Multiset.coe_singleton, Multiset.singleton_add]
        constructor
        · intro f hf
          rw [frames, hframes] at hf
          rcases Multiset.mem_cons.mp hf with rfl | hf
          · exact readsKnown_frame id
          · exact h f hf
        · have hcost : frameCost q (q.frame id) < cost q id := by
            simp [frameCost, MatchInput.frame, cost]
          simp only [measure, hwaiting, map_some, map_none, getD_some,
            getD_none]
          rw [frames, hframes, Multiset.map_cons, Multiset.sum_cons]
          omega
      · cases hs
    case resume k =>
      obtain ⟨hsame, f, fs, others, -, hf, hm⟩ := resume_cases hs
      exact ⟨h.moved hf hm, measure_moved h hsame hf hm⟩
    case closeOut =>
      split at hs <;> cases hs
      next hdone =>
        refine ⟨h, ?_⟩
        simp [measure, hdone.2.2, frames]
    case receive =>
      split at hs
      · exact measure_receive h hret hs
      · cases hs
  · cases hs

end

lemma run_length_le {acts} (hrun : Lts.run (Match.step q) (start q starts) acts = some s) :
    acts.length ≤ measure q (start q starts) := by
  have h := Lts.run_length_le (I := ReadsKnown q) (μ := measure q)
    (fun _ _ _ hI hs => (measure_step hI hs).1) (fun _ _ _ hI hs => (measure_step hI hs).2)
    (by simp [ReadsKnown, start, frames]) hrun
  omega

end Match

open Match

/-! ## `recursiveMatch` -/

/-- `recursiveMatch` searches from `idsFromObject` for `idsFromUser`, both as given. -/
lemma recursiveMatch_eq_ok {g store env eval edge type limit idsFromUser idsFromObject q s}
    (h : recursiveMatch g store env eval edge type limit idsFromUser idsFromObject = .ok (q, s)) :
    ∃ direct, q = matchInput store env eval direct type idsFromUser limit ∧
      s = start q idsFromObject := by
  unfold recursiveMatch at h
  split at h
  · obtain ⟨rfl, rfl⟩ := Prod.mk.inj (Except.ok.inj h)
    exact ⟨_, rfl, rfl⟩
  · split at h
    · split at h
      · obtain ⟨rfl, rfl⟩ := Prod.mk.inj (Except.ok.inj h)
        exact ⟨_, rfl, rfl⟩
      · cases h
    · cases h

/-- Without evaluation errors the condition filter answers. -/
lemma matchInput_passes {store env eval edge type idsFromUser limit}
    (heval : ∀ t, ∃ b, eval t = .ok b) (t : TupleKey) :
    ∃ b, (matchInput store env eval edge type idsFromUser limit).passes t = .ok b := by
  obtain ⟨b, hb⟩ := heval t
  simp only [matchInput, evaluateCondition, evaluateTupleCondition, hb]
  split_ifs
  · exact ⟨true, rfl⟩
  · exact ⟨b, rfl⟩
  · exact ⟨false, rfl⟩
  · exact ⟨true, rfl⟩

/-- For every graph, store and request, every bootstrap of `execute` that calls
    `recursiveMatch`, every order in which the ids are launched and every schedule in
    which no tuple with a true condition is dropped for an id that a false one took
    away, and no match finds the channel full while the launch loop runs:

    * the answer is true exactly when a path of tuples whose conditions are true leads
      from `idsFromObject` to `idsFromUser`, and there is no error;
    * until the answer some goroutine can go on;
    * the search ends. -/
theorem recursiveMatch_correct {g : Graph} {store : Store} {env : RequestEnv} {eval : Evaluation}
    {edge : Edge} {type : RecursiveType} {limit : Nat}
    {left : List (Except Err (List Object × Option Err))} {right : List (Except Err Object)}
    {b : Bootstrap} {pre : List Bootstrap.Act} {order : List Object} {q : MatchInput}
    {s₀ s : Match} {acts : List Match.Act} (hlimit : 0 < limit) (heval : ∀ t, ∃ v, eval t = .ok v)
    (hboot : Lts.run Bootstrap.step (Bootstrap.start left right) pre = some b) (hready : b.Ready)
    (horder : ∀ o, o ∈ order ↔ o ∈ b.idsFromObject)
    (hcall : recursiveMatch g store env eval edge type limit b.idsFromUser order = .ok (q, s₀))
    (hrun : Lts.run (step q) s₀ acts = some s) (hmeets : Lts.Meets (step q)
      (fun s a => (!Match.dropsPassing q s a && !Match.overfills q s a) = true) s₀ acts) :
    (∀ r, s.ret = some r → r.2 = none ∧ (r.1.allowed = true ↔
      ∃ u ∈ b.idsFromUser, ∃ o ∈ b.idsFromObject,
        Relation.ReflTransGen (Match.Follows q) o u)) ∧
    (s.ret = none → ∃ a s', step q s a = some s') ∧
    acts.length ≤ measure q s₀ := by
  obtain ⟨direct, rfl, rfl⟩ := recursiveMatch_eq_ok hcall
  have hdisj : ∀ o ∈ order, o ∉ b.idsFromUser := fun o ho =>
    Bootstrap.disjoint_of_run hboot hready o ((horder o).mp ho)
  have hinv : Match.Inv _ order s := Lts.run_invariant
    (fun _ _ _ hI hok hs => hI.step (fun _ t _ => matchInput_passes heval t) hdisj
      (by simpa using hok) hs) Match.Inv.start hmeets hrun
  refine ⟨fun r hr => ?_, Match.Flow.progress ⟨hinv.closed, hinv.cap_eq, hinv.room⟩ hlimit,
    run_length_le hrun⟩
  have hanswer : Match.Answer (matchInput store env eval direct type b.idsFromUser limit) order ↔
      ∃ u ∈ b.idsFromUser, ∃ o ∈ b.idsFromObject, Relation.ReflTransGen
        (Match.Follows (matchInput store env eval direct type b.idsFromUser limit)) o u := by
    simp only [Match.Answer, Match.Reached, horder]
    rfl
  rw [← hanswer]
  exact hinv.returned r hr

section Instances

private def group (id : String) : Object := ⟨"group", id⟩

/-- `define member: [user, group#member with c]`, the recursive edge. -/
private def memberEdge : Edge where
  edgeType := .directEdge
  source := .specificTypeAndRelation "group" "member"
  target := .specificTypeAndRelation "group" "member"
  relationDefinition := ("group", "member")
  tuplesetRelation := none
  conditions := ["c"]
  recursiveRelation := some (.specificTypeAndRelation "group" "member")
  tupleCycle := false
  wildcards := []
  weights := []

private def nested (parent child context : String) : TupleKey :=
  ⟨group parent, "member", .userset (group child) "member", "c", context⟩

/-- The user is a member of group 4; groups 2 and 3 each have group 4 as a member, the
    first under a condition that is false. -/
private def nestedStore : Store :=
  ⟨[nested "2" "4" "off", nested "3" "4" "on"], by decide⟩

private def contextIsOn : Evaluation := fun t => .ok (t.conditionContext == "on")

private def memberEnv : RequestEnv :=
  ⟨"store", "model", .object ⟨"user", "anne"⟩, [], .unspecified, 0⟩

private def call (order : List Object) : MatchInput × Match :=
  let q := matchInput nestedStore memberEnv contextIsOn memberEdge .userset [group "4"] 10
  (q, start q order)

theorem recursiveMatch_correct_three :
    ∃ s, Lts.run (step (call [group "3"]).1) (call [group "3"]).2
        [.store, .launch, .resume 0, .resume 0, .resume 0, .receive] = some s ∧
      s.ret = some (⟨true⟩, none) ∧
      ∃ u ∈ [group "4"], ∃ o ∈ [group "3"],
        Relation.ReflTransGen (Match.Follows (call [group "3"]).1) o u := by
  obtain ⟨b, hboot⟩ : ∃ b, Lts.run Bootstrap.step
      (Bootstrap.start [.ok ([group "4"], none)] [.ok (group "3")])
      [.left, .right, .left, .right] = some b := ⟨_, rfl⟩
  obtain ⟨s, hrun⟩ : ∃ s, Lts.run (step (call [group "3"]).1) (call [group "3"]).2
      [.store, .launch, .resume 0, .resume 0, .resume 0, .receive] = some s := ⟨_, rfl⟩
  have hret : s.ret = some (⟨true⟩, none) := by
    cases hrun
    rfl
  have hb : b.idsFromUser = [group "4"] ∧ b.idsFromObject = [group "3"] ∧ b.Ready := by
    cases hboot
    exact ⟨rfl, rfl, rfl, rfl, rfl⟩
  have hcall : recursiveMatch ⟨[], []⟩ nestedStore memberEnv contextIsOn memberEdge .userset 10
      b.idsFromUser [group "3"] = .ok (call [group "3"]) := by
    rw [hb.1]
    rfl
  have h := recursiveMatch_correct (by decide) (fun t => ⟨_, rfl⟩) hboot hb.2.2
    (fun o => by rw [hb.2.1]) hcall hrun (Lts.meets_of_check rfl)
  rw [hb.1, hb.2.1] at h
  exact ⟨s, hrun, hret, (h.1 (⟨true⟩, none) hret).2.mp rfl⟩

/-- The false tuple from group 2 marks group 4 as visited, so the true tuple from
    group 3 is dropped: the answer is false although the tuple leads to group 4. -/
theorem recursiveMatch_misses :
    recursiveMatch ⟨[], []⟩ nestedStore memberEnv contextIsOn memberEdge .userset 10
      [group "4"] [group "2", group "3"] = .ok (call [group "2", group "3"]) ∧
    ∃ s, Lts.run (step (call [group "2", group "3"]).1) (call [group "2", group "3"]).2
        [.store, .launch, .resume 0, .resume 0, .store, .launch, .resume 1, .resume 1,
         .closeOut, .receive] = some s ∧
      s.ret = some (⟨false⟩, none) ∧
      ∃ u ∈ [group "4"], ∃ o ∈ [group "2", group "3"],
        Relation.ReflTransGen (Match.Follows (call [group "2", group "3"]).1) o u := by
  refine ⟨rfl, _, rfl, rfl, group "4", by simp, group "3", by simp, ?_⟩
  exact Relation.ReflTransGen.single ⟨nested "3" "4" "on", by decide, rfl, rfl⟩

/-- Group 1 leads to group 4 through group 2, and to group 5. -/
private def branchingStore : Store :=
  ⟨[nested "1" "2" "on", nested "1" "5" "on", nested "2" "4" "on"], by decide⟩

private def branchingCall : MatchInput × Match :=
  let q := matchInput branchingStore memberEnv contextIsOn memberEdge .userset
    [group "4", group "5"] 1
  (q, start q [group "1", group "3"])

/-- With one slot, the call for group 2 runs on the stack of the call for group 1 and
    fills the channel; the match of group 5 then waits for room, the launch loop for the
    slot, and the consumer has not started.  Nothing can go on. -/
theorem recursiveMatch_deadlocks :
    ∃ s, Lts.run (step branchingCall.1) branchingCall.2
        [.store, .launch, .store, .resume 0, .resume 0, .resume 0, .resume 0, .resume 0,
         .resume 0, .resume 0] = some s ∧
      s.ret = none ∧ ∀ a, step branchingCall.1 s a = none := by
  refine ⟨_, rfl, rfl, fun a => ?_⟩
  cases a with
  | store => rfl
  | launch => rfl
  | closeOut => rfl
  | receive => rfl
  | resume k =>
    cases k with
    | zero => rfl
    | succ k => rfl

end Instances

end OpenFGA.Check
