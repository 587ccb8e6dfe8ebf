/-
  `ResolveUnionEdges` and `ResolveIntersection` (internal/check/check.go): the main goroutine
  starts one evaluation for each edge in an errgroup with a limit, waits for a fixed
  number of messages, and on its way out cancels the context and waits for the group.

  The two functions differ in what they start and in the body of the loop, so there is one `Fan`
  with these as parameters.  Nobody cancels the context from outside; it is done once the function
  has decided on its answer, and the sends of the evaluations that still run may then be dropped.

  Cached answers are queued before anything is started.  A cached allowed answer cuts the list of
  evaluations off, and the number of expected messages with it.
-/

import OpenFGA.Lib.Run
import OpenFGA.Concurrency
import OpenFGA.Graph
import OpenFGA.Check.Response

namespace OpenFGA.Check
open List Option

/-- What the loop does with a message. -/
inductive Flow where
  | next (err : Option Err)
  | return (answer : ResponseMsg)

/-- The body of the loop, from the error recorded so far, and what follows the loop. -/
structure Loop where
  body : Option Err → ResponseMsg → Flow
  last : Option Err → ResponseMsg

/-- The state of a running reducer. -/
structure Fan where
  limit : Nat
  /-- The edges that `pool.Go` was not called for yet, with the results of their evaluations;
      `none` is an edge without a weight. -/
  waiting : List (Option ResponseMsg)
  /-- The evaluations that are running. -/
  running : List ResponseMsg
  out : Chan ResponseMsg
  /-- How many messages are still to be received. -/
  expectedMessages : Nat
  err : Option Err
  /-- The answer, once the function has decided on it. -/
  ret : Option ResponseMsg
  /-- `pool.Wait` has returned, and so has the function. -/
  returned : Bool

namespace Fan

/-- The channel holds the messages that were queued before anything is started. -/
def start (limit cap expectedMessages : Nat) (queued : List ResponseMsg)
    (waiting : List (Option ResponseMsg)) : Fan where
  limit
  waiting
  running := []
  out := ⟨cap, queued, false⟩
  expectedMessages
  err := none
  ret := none
  returned := false

/-- The context of the evaluations. -/
def ctx (s : Fan) : Context := if s.ret.isSome then some .canceled else none

def return' (s : Fan) (answer : ResponseMsg) : Fan := { s with ret := some answer }

inductive Act where
  /-- The main goroutine goes on to the next edge; `pool.Go` waits for a slot. -/
  | launch
  /-- The `k`-th running evaluation ends and offers its message. -/
  | finish (k : Nat) (c : SendCase)
  | receive
  /-- The loop ends. -/
  | exit
  /-- `pool.Wait` returns, and `out` is closed. -/
  | wait

def step (l : Loop) (s : Fan) : Act → Option Fan
  | .launch =>
    match s.ret, s.waiting with
    | none, none :: _ => some (s.return' ⟨none, some .panicRequest⟩)
    | none, some m :: waiting =>
      if s.running.length < s.limit then
        some { s with waiting, running := s.running ++ [m] }
      else none
    | _, _ => none
  | .finish k c =>
    match s.running[k]? with
    | none => none
    | some m =>
      (trySendThroughChannel s.ctx m s.out c).map fun r =>
        { s with running := s.running.eraseIdx k, out := r.2 }
  | .receive =>
    if s.ret = none ∧ s.waiting = [] ∧ 0 < s.expectedMessages then
      match s.out.recv with
      | some (some m, out) =>
        match l.body s.err m with
        | .next err => some { s with out, err, expectedMessages := s.expectedMessages - 1 }
        | .return answer => some ({ s with out }.return' answer)
      | _ => none
    else none
  | .exit =>
    if s.ret = none ∧ s.waiting = [] ∧ s.expectedMessages = 0 then
      some (s.return' (l.last s.err))
    else none
  | .wait =>
    if s.ret.isSome ∧ s.running = [] ∧ s.returned = false then
      some { s with out := s.out.close, returned := true }
    else none

/-- The messages that are on their way. -/
def pending (s : Fan) : List (Option ResponseMsg) :=
  s.out.buf.map some ++ (s.running.map some ++ s.waiting)

/-! ## Steps -/

/-- What a step does. -/
inductive Moves (l : Loop) (s : Fan) : Fan → Prop where
  | panic {waiting} (hret : s.ret = none)
      (hwaiting : s.waiting = none :: waiting) : Moves l s (s.return' ⟨none, some .panicRequest⟩)
  | launch {m waiting} (hret : s.ret = none)
      (hwaiting : s.waiting = some m :: waiting) :
      Moves l s { s with waiting, running := s.running ++ [m] }
  | send {k m} (hrunning : s.running[k]? = some m)
      (hroom : s.out.buf.length < s.out.cap) :
      Moves l s { s with running := s.running.eraseIdx k,
                         out := { s.out with buf := s.out.buf ++ [m] } }
  | drop {k m} (hret : s.ret ≠ none) (hrunning : s.running[k]? = some m) :
      Moves l s { s with running := s.running.eraseIdx k }
  | next {m buf err} (hret : s.ret = none)
      (hwaiting : s.waiting = []) (hexpected : 0 < s.expectedMessages)
      (hbuf : s.out.buf = m :: buf) (hbody : l.body s.err m = .next err) :
      Moves l s { s with out := { s.out with buf }, err
                         expectedMessages := s.expectedMessages - 1 }
  | answer {m buf answer} (hret : s.ret = none)
      (hwaiting : s.waiting = []) (hbuf : s.out.buf = m :: buf)
      (hbody : l.body s.err m = .return answer) :
      Moves l s ({ s with out := { s.out with buf } }.return' answer)
  | exit (hret : s.ret = none) (hwaiting : s.waiting = []) (hexpected : s.expectedMessages = 0) :
      Moves l s (s.return' (l.last s.err))
  | wait (hret : s.ret ≠ none) (hrunning : s.running = []) (hreturned : s.returned = false) :
      Moves l s { s with out := s.out.close, returned := true }

section
variable {l : Loop} {s s' : Fan}

lemma ctx_of_ret_none (h : s.ret = none) : s.ctx = none := by simp [ctx, h]

lemma step_cases {a} (hs : s.step l a = some s') : Moves l s s' := by
  cases a <;> simp only [step] at hs
  case launch =>
    split at hs
    next hret hwaiting =>
      cases hs
      exact .panic hret hwaiting
    next hret hwaiting =>
      split_ifs at hs
      cases hs
      exact .launch hret hwaiting
    · cases hs
  case finish k c =>
    split at hs
    · cases hs
    next hrunning =>
      obtain ⟨r, hr, rfl⟩ := map_eq_some_iff.mp hs
      cases c with
      | done =>
        simp only [trySendThroughChannel] at hr
        split_ifs at hr with hctx
        cases hr
        refine .drop (fun hret => ?_) hrunning
        rw [ctx_of_ret_none hret] at hctx
        cases hctx
      | send =>
        obtain ⟨out, hout, rfl⟩ := map_eq_some_iff.mp hr
        have hroom : s.out.buf.length < s.out.cap := by
          by_contra h
          simp [Chan.send, h] at hout
        obtain ⟨-, rfl⟩ := Chan.send_eq_some hout
        exact .send hrunning hroom
  case receive =>
    split_ifs at hs with hguard
    obtain ⟨hret, hwaiting, hexpected⟩ := hguard
    split at hs
    next hrecv =>
      obtain ⟨buf, hbuf, rfl⟩ := Chan.recv_eq_value hrecv
      split at hs <;> cases hs
      next hbody => exact .next hret hwaiting hexpected hbuf hbody
      next hbody => exact .answer hret hwaiting hbuf hbody
    · cases hs
  case exit =>
    split_ifs at hs with hguard
    cases hs
    exact .exit hguard.1 hguard.2.1 hguard.2.2
  case wait =>
    split_ifs at hs with hguard
    cases hs
    exact .wait (isSome_iff_ne_none.mp hguard.1) hguard.2.1 hguard.2.2

end

/-! ## Termination and progress -/

/-- What is left to do. -/
def measure (s : Fan) : Nat :=
  3 * s.waiting.length + 2 * s.running.length + s.out.buf.length +
    s.ret.isNone.toNat + (!s.returned).toNat

section
variable {l : Loop} {s s' : Fan}

lemma length_eraseIdx_running {k m} (h : s.running[k]? = some m) :
    (s.running.eraseIdx k).length + 1 = s.running.length := by
  obtain ⟨hk, -⟩ := List.getElem?_eq_some_iff.mp h
  rw [List.length_eraseIdx_of_lt hk]
  omega

lemma measure_return' (hret : s.ret = none) (r : ResponseMsg) :
    (s.return' r).measure < s.measure := by
  simp only [measure, return', hret, isNone_some, isNone_none, Bool.toNat_true,
    Bool.toNat_false]
  omega

theorem Moves.limit (h : Moves l s s') : s'.limit = s.limit := by
  cases h <;> rfl

lemma Moves.ret {r} (h : Moves l s s') (hr : s.ret = some r) : s'.ret = some r := by
  cases h with
  | panic hret => simp [hret] at hr
  | launch hret => simp [hret] at hr
  | send => exact hr
  | drop => exact hr
  | next hret => simp [hret] at hr
  | answer hret => simp [hret] at hr
  | exit hret => simp [hret] at hr
  | wait => exact hr

lemma Moves.measure_lt (h : Moves l s s') : s'.measure < s.measure := by
  cases h with
  | panic hret hwaiting | exit hret hwaiting hexpected => exact measure_return' hret _
  | launch hret hwaiting =>
    simp only [measure, hwaiting, length_cons, length_append, length_nil]
    omega
  | send hrunning hroom =>
    have := length_eraseIdx_running hrunning
    simp only [measure, length_append, length_cons, length_nil]
    omega
  | drop hret hrunning =>
    have := length_eraseIdx_running hrunning
    simp only [measure]
    omega
  | next hret hwaiting hexpected hbuf hbody =>
    simp only [measure, hbuf, length_cons]
    omega
  | @answer m buf answer hret hwaiting hbuf hbody =>
    refine Nat.lt_trans (measure_return' (s := { s with out := { s.out with buf } }) hret answer) ?_
    simp only [measure, hbuf, length_cons]
    omega
  | wait hret hrunning hreturned =>
    simp only [measure, Chan.close_buf, hreturned, Bool.not_true, Bool.not_false, Bool.toNat_true,
      Bool.toNat_false]
    omega

/-- What holds on the way: the channel has room for everything that is on its way, and as many
    messages are expected as are. -/
structure Sound (s : Fan) : Prop where
  room : s.pending.length ≤ s.out.cap
  opened : s.returned = false → s.out.closed = false
  expected : s.ret = none → s.expectedMessages = s.pending.length
  returned : s.returned = true → s.ret ≠ none

lemma length_pending (s : Fan) :
    s.pending.length = s.out.buf.length + s.running.length + s.waiting.length := by
  simp [pending, Nat.add_assoc]

lemma Moves.sound (hs : Sound s) (h : Moves l s s') : Sound s' := by
  have hroom := hs.room
  have hexpected := hs.expected
  rw [length_pending] at hroom hexpected
  cases h with
  | panic hret hwaiting | exit hret hwaiting hzero =>
    exact ⟨hs.room, hs.opened, nofun, fun _ => nofun⟩
  | launch hret hwaiting =>
    have hexp := hexpected hret
    rw [hwaiting] at hroom hexp
    refine ⟨?_, hs.opened, fun _ => ?_, hs.returned⟩ <;>
    · simp only [length_pending, length_append, length_cons, length_nil] at *
      omega
  | send hrunning _ =>
    have := length_eraseIdx_running hrunning
    refine ⟨?_, hs.opened, fun hret => ?_, hs.returned⟩
    · simp only [length_pending, length_append, length_cons, length_nil]
      omega
    · have hexp := hexpected hret
      simp only [length_pending, length_append, length_cons, length_nil]
      omega
  | drop hret hrunning =>
    have := length_eraseIdx_running hrunning
    refine ⟨?_, hs.opened, fun h => absurd h hret, hs.returned⟩
    simp only [length_pending]
    omega
  | next hret hwaiting hpos hbuf hbody =>
    have hexp := hexpected hret
    rw [hbuf, length_cons] at hroom hexp
    refine ⟨?_, hs.opened, fun _ => ?_, hs.returned⟩ <;>
    · simp only [length_pending]
      omega
  | answer hret hwaiting hbuf hbody =>
    rw [hbuf, length_cons] at hroom
    refine ⟨?_, hs.opened, nofun, fun _ => nofun⟩
    simp only [length_pending, return']
    omega
  | wait hret hrunning hreturned =>
    exact ⟨hs.room, nofun, fun h => absurd h hret, fun _ => hret⟩

lemma exists_finish (hs : Sound s) (hreturned : s.returned = false) (hrunning : s.running ≠ []) :
    ∃ a s', s.step l a = some s' := by
  obtain ⟨m, running, hcons⟩ := exists_cons_of_ne_nil hrunning
  have hroom := hs.room
  rw [length_pending, hcons, length_cons] at hroom
  have hsend : s.out.send m = some { s.out with buf := s.out.buf ++ [m] } :=
    if_pos ⟨by omega, hs.opened hreturned⟩
  refine ⟨.finish 0 .send, isSome_iff_exists.mp ?_⟩
  simp [step, hcons, trySendThroughChannel, hsend]

/-- Until the function has returned, somebody can go on: no one waits for a message that is not
    sent, or for a slot that is not given back. -/
theorem exists_step (hlimit : 1 ≤ s.limit) (hs : Sound s) (hreturned : s.returned = false) :
    ∃ a s', s.step l a = some s' := by
  by_cases hrunning : s.running = []
  · cases hret : s.ret with
    | some r =>
      have hsome : s.ret.isSome := by rw [hret]; rfl
      exact ⟨.wait, _, if_pos ⟨hsome, hrunning, hreturned⟩⟩
    | none =>
      cases hwaiting : s.waiting with
      | cons o waiting =>
        cases o with
        | none =>
          refine ⟨.launch, isSome_iff_exists.mp ?_⟩
          simp [step, hret, hwaiting]
        | some m =>
          have hslot : s.running.length < s.limit := by
            rw [hrunning]
            exact hlimit
          refine ⟨.launch, isSome_iff_exists.mp ?_⟩
          simp [step, hret, hwaiting, hslot]
      | nil =>
        have hexpected := hs.expected hret
        simp only [length_pending, hrunning, hwaiting, length_nil, Nat.add_zero]
          at hexpected
        cases hbuf : s.out.buf with
        | nil =>
          rw [hbuf, length_nil] at hexpected
          exact ⟨.exit, _, if_pos ⟨hret, hwaiting, hexpected⟩⟩
        | cons m buf =>
          rw [hbuf, length_cons] at hexpected
          refine ⟨.receive, ?_⟩
          simp only [step, if_pos (⟨hret, hwaiting, by omega⟩ :
            s.ret = none ∧ s.waiting = [] ∧ 0 < s.expectedMessages), Chan.recv, hbuf]
          cases l.body s.err m with
          | next err => exact ⟨_, rfl⟩
          | «return» answer => exact ⟨_, rfl⟩
  · exact exists_finish hs hreturned hrunning

end

/-! ## Answers -/

/-- What a loop guarantees: `Seen` holds of the messages that it went on after, and `Good` of
    all messages and the answer. -/
structure LoopSpec (l : Loop) (Seen : List ResponseMsg → Option Err → Prop)
    (Good : List ResponseMsg → ResponseMsg → Prop) : Prop where
  nil : Seen [] none
  next : ∀ {seen err m err'}, Seen seen err → l.body err m = .next err' → Seen (seen ++ [m]) err'
  answer : ∀ {seen err m answer all}, Seen seen err → l.body err m = .return answer → m ∈ all →
    Good all answer
  last : ∀ {seen err all}, Seen seen err → (∀ m, m ∈ all ↔ m ∈ seen) → Good all (l.last err)

/-- The answer for edges of which some may have no weight. -/
def Answers (Good : List ResponseMsg → ResponseMsg → Prop) (all : List (Option ResponseMsg))
    (answer : ResponseMsg) : Prop :=
  if none ∈ all then answer = ⟨none, some .panicRequest⟩ else Good all.reduceOption answer

/-- What was seen and what is on its way are all messages, and the answer is good. -/
structure Exact (Seen : List ResponseMsg → Option Err → Prop)
    (Good : List ResponseMsg → ResponseMsg → Prop) (all : List (Option ResponseMsg)) (s : Fan) :
    Prop where
  running : s.ret = none → ∃ seen, Seen seen s.err ∧ (seen.map some ++ s.pending).Perm all
  answer : ∀ r, s.ret = some r → Answers Good all r

section
variable {l : Loop} {s s' : Fan} {Seen : List ResponseMsg → Option Err → Prop}
  {Good : List ResponseMsg → ResponseMsg → Prop} {all : List (Option ResponseMsg)}

lemma mem_reduceOption {m} : m ∈ all.reduceOption ↔ some m ∈ all :=
  reduceOption_mem_iff

lemma answers_map_some {ms answer} :
    Answers Good (ms.map some) answer ↔ Good ms answer := by
  have hreduce : (ms.map some).reduceOption = ms := by simp [reduceOption]
  rw [Answers, if_neg (by simp), hreduce]

/-- Messages of edges with a weight. -/
lemma none_notMem {seen rest : List ResponseMsg} (h : (seen.map some ++ rest.map some).Perm all) :
    none ∉ all := by
  rw [← h.mem_iff]
  simp

lemma perm_eraseIdx {α : Type} {xs : List α} {k x} (h : xs[k]? = some x) :
    xs.Perm (x :: xs.eraseIdx k) := by
  obtain ⟨hk, rfl⟩ := List.getElem?_eq_some_iff.mp h
  exact (List.getElem_cons_eraseIdx_perm hk).symm

theorem Moves.exact (hspec : LoopSpec l Seen Good) (hsound : Sound s) (hs : Exact Seen Good all s)
    (h : Moves l s s') : Exact Seen Good all s' := by
  cases h with
  | panic hret hwaiting =>
    obtain ⟨seen, -, hperm⟩ := hs.running hret
    refine ⟨nofun, fun r hr => ?_⟩
    cases hr
    rw [Answers, if_pos]
    rw [← hperm.mem_iff, pending, hwaiting]
    simp
  | launch hret hwaiting =>
    obtain ⟨seen, hseen, hperm⟩ := hs.running hret
    refine ⟨fun _ => ⟨seen, hseen, ?_⟩, hs.answer⟩
    rw [pending, hwaiting] at hperm
    simpa [pending] using hperm
  | send hrunning hroom =>
    refine ⟨fun hret => ?_, hs.answer⟩
    obtain ⟨seen, hseen, hperm⟩ := hs.running hret
    refine ⟨seen, hseen, List.Perm.trans ?_ hperm⟩
    refine List.Perm.append_left _ ?_
    have hmap := ((perm_eraseIdx hrunning).map some).symm
    simp only [pending, map_append, map_cons, map_nil, append_assoc]
    refine List.Perm.append_left _ ?_
    exact hmap.append_right _
  | drop hret hrunning | wait hret hrunning hreturned => exact ⟨fun h => absurd h hret, hs.answer⟩
  | next hret hwaiting hpos hbuf hbody =>
    obtain ⟨seen, hseen, hperm⟩ := hs.running hret
    refine ⟨fun _ => ⟨_, hspec.next hseen hbody, ?_⟩, hs.answer⟩
    rw [pending, hbuf] at hperm
    simpa [pending] using hperm
  | @answer m buf answer hret hwaiting hbuf hbody =>
    obtain ⟨seen, hseen, hperm⟩ := hs.running hret
    refine ⟨nofun, fun r hr => ?_⟩
    cases hr
    rw [pending, hwaiting, append_nil, ← map_append] at hperm
    rw [Answers, if_neg (none_notMem hperm)]
    refine hspec.answer hseen hbody (mem_reduceOption.mpr (hperm.mem_iff.mp ?_))
    simp [hbuf]
  | exit hret hwaiting hzero =>
    obtain ⟨seen, hseen, hperm⟩ := hs.running hret
    refine ⟨nofun, fun r hr => ?_⟩
    cases hr
    have hnil : s.pending = [] := by
      rw [← length_eq_zero_iff, ← hsound.expected hret, hzero]
    rw [hnil, append_nil] at hperm
    have hsome : (seen.map some ++ ([] : List ResponseMsg).map some).Perm all := by
      rwa [map_nil, append_nil]
    rw [Answers, if_neg (none_notMem hsome)]
    refine hspec.last hseen fun m => ?_
    rw [mem_reduceOption, ← hperm.mem_iff]
    simp

end

/-! ## Whole runs -/

section
variable {l : Loop} {s : Fan} {Seen : List ResponseMsg → Option Err → Prop}
  {Good : List ResponseMsg → ResponseMsg → Prop}

/-- A reducer that starts with all its messages queued or waiting settles. -/
lemma start_settles (hspec : LoopSpec l Seen Good) {limit cap} (hlimit : 1 ≤ limit)
    {queued waiting} (hcap : queued.length + waiting.length ≤ cap) :
    Lts.Settles (step l) (start limit cap (queued.length + waiting.length) queued waiting)
      (fun s => s.returned = true)
      (fun s => ∃ r, s.ret = some r ∧ Answers Good (queued.map some ++ waiting) r) := by
  refine Lts.Settles.of_invariant
    (I := fun s => 1 ≤ s.limit ∧ Sound s ∧ Exact Seen Good (queued.map some ++ waiting) s)
    measure ?_ ?_ ?_ ?_ ⟨hlimit, ⟨?_, fun _ => rfl, fun _ => ?_, nofun⟩, ⟨fun _ => ?_, nofun⟩⟩
  · rintro t a t' ⟨hl, hs, he⟩ ht
    have hmoves := step_cases ht
    exact ⟨hmoves.limit ▸ hl, hmoves.sound hs, hmoves.exact hspec hs he⟩
  · rintro t a t' - ht
    exact (step_cases ht).measure_lt
  · rintro t ⟨hl, hs, -⟩ hended
    exact exists_step hl hs (Bool.eq_false_iff.mpr hended)
  · rintro t ⟨-, hs, he⟩ hended
    obtain ⟨r, hr⟩ := ne_none_iff_exists'.mp (hs.returned hended)
    exact ⟨r, hr, he.answer r hr⟩
  · simpa [start, pending] using hcap
  · simp [start, pending]
  · exact ⟨[], hspec.nil, List.Perm.refl _⟩

lemma settles_of_ret {limit cap} (hlimit : 1 ≤ limit) (r : ResponseMsg) :
    Lts.Settles (step l) ((start limit cap 0 [] []).return' r) (fun s => s.returned = true)
      (fun s => s.ret = some r) := by
  refine Lts.Settles.of_invariant (I := fun s => 1 ≤ s.limit ∧ Sound s ∧ s.ret = some r)
    measure ?_ ?_ ?_ ?_ ⟨hlimit, ⟨Nat.zero_le _, fun _ => rfl, nofun, nofun⟩, rfl⟩
  · rintro t a t' ⟨hl, hs, hr⟩ ht
    have hmoves := step_cases ht
    exact ⟨hmoves.limit ▸ hl, hmoves.sound hs, hmoves.ret hr⟩
  · rintro t a t' - ht
    exact (step_cases ht).measure_lt
  · rintro t ⟨hl, hs, -⟩ hended
    exact exists_step hl hs (Bool.eq_false_iff.mpr hended)
  · rintro t ⟨-, -, hr⟩ -
    exact hr

end

end Fan
end OpenFGA.Check
