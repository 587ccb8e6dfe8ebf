/-
  The end of a cycle group: when no goroutine can go on, has every `Execute` returned?

  `Core.ProcessSender` gives each message to one of `NumProcs` processors, and a
  processor that panics is recovered and ends.  Once all processors of a sender are gone,
  its message loop keeps offering the next message to nobody until the context is
  cancelled, and the member waits for that loop.  `returned_iff` says that this, and a
  worker without senders in a group with others, is all that can go wrong.
-/

import OpenFGA.Pipeline.Measure

namespace OpenFGA.Pipeline.BasicGroup

open CycleGroup (ringNext)
open List

universe u
variable {V : Type u} [DecidableEq V] {cfg : Config V} {s s' : State V}

/-! ## The conditions -/

/-- No goroutine can go on. -/
def Halted (cfg : Config V) (s : State V) : Prop := ∀ a, a ≠ .cancel → step cfg s a = none

/-- Every `Execute` has returned and every listener is closed. -/
def Returned (cfg : Config V) (s : State V) : Prop :=
  ∀ i < cfg.size, s.phase i = .returned ∧ ∀ l ∈ cfg.listeners i, s.closed l = true

/-- Every worker of the group has a sender, or none has. -/
def Config.Fed (cfg : Config V) : Prop :=
  (∀ i < cfg.size, cfg.senders i ≠ []) ∨ ∀ i < cfg.size, cfg.senders i = []

/-- The processor takes no more messages: it has panicked or it has ended. -/
def Work.gone : Work V → Bool
  | .finishing true | .ended => true
  | _ => false

/-- A message loop takes a message only while one of its processors is left, and the
    last processor does not panic while the loop offers a message. -/
def Attended (cfg : Config V) (s : State V) : Act V → Prop
  | .loop k .receive => ∃ p < cfg.numProcs, (s.work (k, p)).gone = false
  | .proc q .panic =>
    (∀ msg, s.loop q.1 ≠ .offering msg) ∨
      ∃ p < cfg.numProcs, p ≠ q.2 ∧ (s.work (q.1, p)).gone = false
  | _ => True

/-- The loop of sender `k` offers a message and no processor is left to take it. -/
def Deserted (cfg : Config V) (s : State V) (k : Nat) : Prop :=
  (∃ msg, s.loop k = .offering msg) ∧ ∀ p < cfg.numProcs, (s.work (k, p)).gone = true

/-! ## Where goroutines wait in a halted group -/

namespace Halted

variable {i k : Nat} {q : ProcId}

section
variable (h : Halted cfg s)
include h

lemma proc (hq : cfg.HasProc q) (move : ProcMove V) :
    procStep cfg s q move = none := by
  have hnone := h (.proc q move) nofun
  simp only [step] at hnone
  exact (if_pos hq).symm.trans hnone

theorem loop (hk : k < cfg.links) (move : LoopMove) :
    loopStep cfg s k move = none := by
  have hnone := h (.loop k move) nofun
  rwa [step, if_pos hk] at hnone

theorem member (hi : i < cfg.size) : memberStep cfg s i = none := by
  have hnone := h (.member i) nofun
  rwa [step, if_pos hi] at hnone

lemma idle_or_ended (hq : cfg.HasProc q) :
    s.work q = .idle ∨ s.work q = .ended := by
  cases hw : s.work q with
  | idle => exact .inl rfl
  | ended => exact .inr rfl
  | filtering todo kept =>
    cases todo with
    | nil =>
      obtain ⟨out, hout⟩ := cfg.answers_total q.1 kept
      have hnone := h.proc hq (.interpret out)
      simp [procStep, hw, hout] at hnone
    | cons v todo =>
      have hnone := h.proc hq .filter
      simp [procStep, hw] at hnone
  | reading rest buffer =>
    have hnone := h.proc hq .read
    simp only [procStep, hw] at hnone
    cases rest with
    | nil => cases buffer <;> cases hnone
    | cons v rest =>
      dsimp only at hnone
      split at hnone
      · cases hnone
      · split at hnone <;> cases hnone
  | sending rest buffer left =>
    have hnone := h.proc hq .send
    cases left <;> simp [procStep, hw] at hnone
  | counted rest buffer l left =>
    cases hclosed : s.closed l with
    | true =>
      have hnone := h.proc hq .fail
      simp [procStep, hw, hclosed] at hnone
    | false =>
      have hnone := h.proc hq .deliver
      simp [procStep, hw, hclosed] at hnone
  | finishing panicked =>
    have hnone := h.proc hq .finish
    simp [procStep, hw] at hnone

/-- A loop that offers a message in a halted group is deserted. -/
lemma deserted (hk : k < cfg.links) {msg}
    (hl : s.loop k = .offering msg) : s.cancelled = false ∧ Deserted cfg s k := by
  have hnone := h.loop hk .giveUp
  refine ⟨?_, ⟨msg, hl⟩, ?_⟩
  · simpa [loopStep, hl] using hnone
  · intro p hp
    rcases h.idle_or_ended (q := (k, p)) ⟨hk, hp⟩ with hidle | hended
    · have htake := h.proc (q := (k, p)) ⟨hk, hp⟩ .take
      simp [procStep, hl, hidle] at htake
    · rw [hended]
      rfl

/-- A loop that is not done and not deserted waits for its cyclical medium. -/
lemma open_of_not_done (hk : k < cfg.links)
    (hattended : ∀ msg, s.loop k ≠ .offering msg) (hne : s.loop k ≠ .done) :
    s.queue k = [] ∧ s.closed k = false := by
  cases hl : s.loop k with
  | offering msg => exact absurd hl (hattended msg)
  | done => exact absurd hl hne
  | receiving =>
    have hreceive := h.loop hk .receive
    have hexhaust := h.loop hk .exhaust
    cases hqueue : s.queue k with
    | cons msg rest => simp [loopStep, hl, hqueue] at hreceive
    | nil =>
      simp only [loopStep, hl, recvEnds, hqueue, isEmpty_nil, Bool.true_and] at hexhaust
      refine ⟨rfl, eq_false_of_ne_true fun hclosed => ?_⟩
      simp [hclosed] at hexhaust
  | closing =>
    exfalso
    have hshut := h.loop hk .shut
    have hended : ∀ p < cfg.numProcs, s.work (k, p) = .ended := by
      intro p hp
      rcases h.idle_or_ended (q := (k, p)) ⟨hk, hp⟩ with hidle | hended
      · have hretire := h.proc (q := (k, p)) ⟨hk, hp⟩ .retire
        simp [procStep, hl, hidle] at hretire
      · exact hended
    rw [loopStep, if_pos ⟨hl, hended⟩] at hshut
    cases hshut
  | draining =>
    have hdrain := h.loop hk .drain
    cases hqueue : s.queue k with
    | cons msg rest => simp [loopStep, hl, hqueue] at hdrain
    | nil =>
      refine ⟨rfl, eq_false_of_ne_true fun hclosed => ?_⟩
      simp [loopStep, hl, hqueue, hclosed] at hdrain

end

end Halted

/-! ## A halted group without deserted loops has returned -/

namespace Inv

variable {d i k : Nat} {q : ProcId}

omit [DecidableEq V] in
lemma listeners_closed (h : Inv cfg d s) (hp : s.phase i = .returned) :
    ∀ l ∈ cfg.listeners i, s.closed l = true :=
  fun l hl => h.closed_of_closes hp l hl rfl

section
variable (h : Inv cfg 0 s)
include h

section
variable (hhalted : Halted cfg s)
include hhalted

lemma returned_of_senderless (hi : i < cfg.size)
    (hnone : cfg.senders i = []) : s.phase i = .returned := by
  have hmember := hhalted.member hi
  have houtside := h.senderless i hi hnone
  cases hp : s.phase i with
  | returned => rfl
  | standard => simp [memberStep, hp, hnone] at hmember
  | leaving left => cases left <;> simp [memberStep, hp] at hmember
  | _ =>
    rw [hp] at houtside
    cases houtside

lemma standard_done (hk : k < cfg.links)
    (hattended : ∀ msg, s.loop k ≠ .offering msg) (hc : cfg.cyclical k = false) :
    s.loop k = .done := by
  by_contra hne
  have hopen := (hhalted.open_of_not_done hk hattended hne).2
  rw [h.standardClosed k hk hc] at hopen
  cases hopen

/-- A member with senders has reported in a halted group. -/
lemma awaiting_or_tearing
    (hattended : ∀ k < cfg.links, ∀ msg, s.loop k ≠ .offering msg) (hi : i < cfg.size)
    (hsenders : cfg.senders i ≠ []) :
    s.phase i = .awaitingReady ∨ s.phase i = .awaitingQuiescence ∨ s.phase i = .sleeping ∨
      s.phase i = .recursive ∨ s.phase i = .returned := by
  have hmember := hhalted.member hi
  cases hp : s.phase i with
  | standard =>
    have hdone : ∀ k ∈ cfg.senders i, cfg.cyclical k = false → s.loop k = .done := by
      intro k hk hc
      obtain ⟨hk, -⟩ := Config.mem_senders.mp hk
      exact h.standard_done hhalted hk (hattended k hk) hc
    simp only [memberStep, hp] at hmember
    rw [if_neg hsenders, if_pos hdone] at hmember
    cases hmember
  | reporting | decrementing | waking => simp [memberStep, hp] at hmember
  | cleaning left | leaving left => cases left <;> simp [memberStep, hp] at hmember
  | awaitingReady => simp
  | awaitingQuiescence => simp
  | sleeping => simp
  | recursive => simp
  | returned => simp

/-- With all members past their standard senders, nothing is left to count. -/
lemma quiescence_of_halted (hattended : ∀ k < cfg.links, ∀ msg, s.loop k ≠ .offering msg)
    (hsenders : ∀ i < cfg.size, cfg.senders i ≠ []) (hsize : 0 < cfg.size) :
    s.group.statusPool.ready = true ∧ s.group.statusPool.quiescence = true := by
  have hphase := fun i hi => h.awaiting_or_tearing hhalted hattended (i := i) hi (hsenders i hi)
  have hpool : ∀ b ∈ s.group.statusPool.pool, b = false := by
    intro b hb
    obtain ⟨i, hi, rfl⟩ := mem_iff_getElem.mp hb
    have hlt : i < cfg.size := h.length ▸ hi
    have hentry := h.reported i hlt
    rw [getElem?_eq_getElem hi, decide_eq_false (hsenders i hlt), Bool.or_false] at hentry
    rw [Option.some.inj hentry]
    rcases hphase i hlt with hp | hp | hp | hp | hp <;> rw [hp] <;> rfl
  refine ⟨(h.ready hsize).mpr ?_, (h.quiescence hsize).mpr ?_⟩
  · rw [all_eq_true]
    intro b hb
    rw [hpool b hb]
    rfl
  · have htokens : (s.group.statusPool.pool.map Bool.toNat).sum = 0 := by
      apply sum_eq_zero
      intro n hn
      obtain ⟨b, hb, rfl⟩ := mem_map.mp hn
      rw [hpool b hb]
      rfl
    have hsignalling : ∀ i ∈ Finset.range cfg.size, (s.phase i).signalling = 0 := by
      intro i hi
      rcases hphase i (Finset.mem_range.mp hi) with hp | hp | hp | hp | hp <;> rw [hp] <;> rfl
    have hqueue : ∀ k ∈ Finset.range cfg.links,
        (cfg.cyclical k).toNat * (s.queue k).length = 0 := by
      intro k hk
      have hk := Finset.mem_range.mp hk
      by_cases hdone : s.loop k = .done
      · rw [(h.drained k hk hdone).1]
        exact Nat.mul_zero _
      · rw [(hhalted.open_of_not_done hk (hattended k hk) hdone).1]
        exact Nat.mul_zero _
    have hloop : ∀ k ∈ Finset.range cfg.links,
        (cfg.cyclical k).toNat * (s.loop k).offered = 0 := by
      intro k hk
      have hne := hattended k (Finset.mem_range.mp hk)
      cases hl : s.loop k with
      | offering msg => exact absurd hl (hne msg)
      | _ => exact Nat.mul_zero _
    have hwork : ∀ q ∈ cfg.procs, (s.work q).weight (cfg.cyclical q.1) = 0 := by
      intro q hq
      rcases hhalted.idle_or_ended (Config.mem_procs.mp hq) with hw | hw <;> rw [hw] <;>
        exact Nat.mul_zero (cfg.cyclical q.1).toNat
    rw [h.count, unsettled, htokens, Finset.sum_eq_zero hsignalling, Finset.sum_eq_zero hqueue,
      Finset.sum_eq_zero hloop, Finset.sum_eq_zero hwork]
    rfl

/-- In a halted group nobody sleeps: the member above has woken it. -/
lemma not_sleeping (hphase : ∀ i < cfg.size, s.phase i = .sleeping ∨ s.phase i = .recursive ∨
      s.phase i = .returned) (hsenders : ∀ i < cfg.size, cfg.senders i ≠ []) (n : Nat) :
    ∀ i < cfg.size, cfg.size ≤ i + n → s.phase i ≠ .sleeping := by
  -- from the leader downwards
  induction n with
  | zero => exact fun i hi hle => absurd hi (Nat.not_lt.mpr hle)
  | succ n ih =>
    intro i hi hle hp
    have hnext := h.follower i hi hp
    have hpassed : (s.phase (i + 1)).passed = true := by
      rcases hphase (i + 1) hnext with hsleeping | hrecursive | hreturned
      · exact absurd hsleeping (ih (i + 1) hnext (by omega))
      · rw [hrecursive]
        rfl
      · rw [hreturned]
        rfl
    have hawake := h.chain (i + 1) hnext (hsenders _ hnext) hpassed
    rw [ringNext, if_neg (Nat.succ_ne_zero i), Nat.add_sub_cancel] at hawake
    have hmember := hhalted.member hi
    simp [memberStep, hp, hawake] at hmember

/-- A halted group of workers with senders has returned, unless a loop is deserted. -/
lemma returned_of_attended (hattended : ∀ k < cfg.links, ∀ msg, s.loop k ≠ .offering msg)
    (hsenders : ∀ i < cfg.size, cfg.senders i ≠ []) (hi : i < cfg.size) :
    s.phase i = .returned := by
  have hsize := Nat.zero_lt_of_lt hi
  obtain ⟨hready, hquiescence⟩ := h.quiescence_of_halted hhalted hattended hsenders hsize
  have hphase : ∀ j < cfg.size, s.phase j = .sleeping ∨ s.phase j = .recursive ∨
      s.phase j = .returned := by
    intro j hj
    have hmember := hhalted.member hj
    rcases h.awaiting_or_tearing hhalted hattended hj (hsenders j hj) with hp | hp | hp
    · simp [memberStep, hp, StatusPool.passesReady, hready] at hmember
    · simp only [memberStep, hp, StatusPool.passesQuiescence, hquiescence, Bool.or_true,
        if_true] at hmember
      split at hmember <;> cases hmember
    · exact hp
  have htorn : ∀ j < cfg.size, s.phase j = .recursive ∨ s.phase j = .returned := by
    intro j hj
    rcases hphase j hj with hp | hp
    · exact absurd hp (h.not_sleeping hhalted hphase hsenders cfg.size j hj (Nat.le_add_left _ _))
    · exact hp
  have hdone : ∀ k < cfg.links, s.loop k = .done := by
    intro k hk
    by_contra hne
    have hopen := (hhalted.open_of_not_done hk (hattended k hk) hne).2
    have hclosed : s.closed k = true := by
      cases hsource : cfg.source k with
      | none => exact h.standardClosed k hk (by rw [Config.cyclical, hsource]; rfl)
      | some j =>
        apply h.closing k hk j hsource
        rcases htorn j (cfg.source_lt k hk j hsource) with hp | hp <;> rw [hp] <;> rfl
    rw [hclosed] at hopen
    cases hopen
  rcases htorn i hi with hp | hp
  · have hmember := hhalted.member hi
    have hall : ∀ k ∈ cfg.senders i, cfg.cyclical k = true → s.loop k = .done :=
      fun k hk _ => hdone k (Config.mem_senders.mp hk).1
    simp only [memberStep, hp] at hmember
    rw [if_pos hall] at hmember
    cases hmember
  · exact hp

end

omit [DecidableEq V] in
/-- A group with and without senders cannot return: the workers without senders never
    report. -/
lemma fed_of_returned (hreturned : Returned cfg s) : cfg.Fed := by
  by_contra hnot
  rw [Config.Fed, not_or] at hnot
  obtain ⟨hsome, hnone⟩ := hnot
  push Not at hsome hnone
  obtain ⟨j, hj, hempty⟩ := hsome
  obtain ⟨i, hi, hsenders⟩ := hnone
  have hquiescence := h.quiet i hi hsenders (by rw [(hreturned i hi).1]; rfl)
  have hzero := h.unsettled_eq_zero (Nat.zero_lt_of_lt hi) hquiescence
  have hentry := h.reported j hj
  rw [decide_eq_true hempty, Bool.or_true] at hentry
  have hle := le_sum_of_mem (mem_map_of_mem (f := Bool.toNat) (mem_of_getElem? hentry))
  rw [Bool.toNat_true] at hle
  unfold unsettled at hzero
  omega

theorem returned_iff (hhalted : Halted cfg s) :
    Returned cfg s ↔ cfg.Fed ∧ (s.cancelled = true ∨ ∀ k < cfg.links, ¬ Deserted cfg s k) := by
  constructor
  · intro hreturned
    refine ⟨h.fed_of_returned hreturned, .inr ?_⟩
    rintro k hk ⟨⟨msg, hl⟩, -⟩
    have hdone := h.allDone k hk (by rw [(hreturned _ (cfg.owner_lt k hk)).1]; rfl)
    rw [hl] at hdone
    cases hdone
  · rintro ⟨hfed, hattended⟩
    have hloops : ∀ k < cfg.links, ∀ msg, s.loop k ≠ .offering msg := by
      intro k hk msg hl
      obtain ⟨hcancelled, hdeserted⟩ := hhalted.deserted hk hl
      rcases hattended with hc | hnot
      · rw [hcancelled] at hc
        cases hc
      · exact hnot k hk hdeserted
    intro i hi
    have hp : s.phase i = .returned := by
      rcases hfed with hsenders | hnone
      · exact h.returned_of_attended hhalted hloops hsenders hi
      · exact h.returned_of_senderless hhalted hi (hnone i hi)
    exact ⟨hp, h.listeners_closed hp⟩

end

end Inv

/-! ## How a loop gets deserted -/

section
omit [DecidableEq V]
variable {k : Nat} {q : ProcId} {w : Work V} {loop : Loop V}

/-- A processor that is left keeps its loop from being deserted. -/
lemma Deserted.ne (hd : Deserted cfg s k) (hq : cfg.HasProc q) (hw : (s.work q).gone = false) :
    k ≠ q.1 := by
  rintro rfl
  have hgone := hd.2 q.2 hq.2
  rw [hw] at hgone
  cases hgone

lemma Deserted.ne_of_loop (hd : Deserted cfg s k) {j} (hl : ∀ msg, s.loop j ≠ .offering msg) :
    k ≠ j := by
  rintro rfl
  obtain ⟨⟨msg, hmsg⟩, -⟩ := hd
  exact hl msg hmsg

lemma deserted_go_iff (hne : k ≠ q.1) : Deserted cfg (s.go q w) k ↔ Deserted cfg s k := by
  have hwork : ∀ p, (s.go q w).work (k, p) = s.work (k, p) := by
    intro p
    apply State.work_go_of_ne
    rintro rfl
    exact hne rfl
  simp only [Deserted, hwork]
  rfl

lemma deserted_turn_iff {j} (hne : k ≠ j) :
    Deserted cfg (s.turn j loop) k ↔ Deserted cfg s k := by
  simp only [Deserted, State.loop_turn_of_ne hne]
  rfl

/-- A step of a processor that was left touches another sender. -/
theorem Deserted.go (hd : Deserted cfg s k) (hq : cfg.HasProc q) {w₀}
    (hw : s.work q = w₀) (hleft : w₀.gone = false) : Deserted cfg (s.go q w) k :=
  (deserted_go_iff (hd.ne hq (hw ▸ hleft))).mpr hd

lemma Deserted.of_go (hd : Deserted cfg (s.go q w) k) (hq : cfg.HasProc q)
    (hleft : w.gone = false) : Deserted cfg s k := by
  have hne := hd.ne hq (by rw [State.work_go_self]; exact hleft)
  exact (deserted_go_iff hne).mp hd

/-- A step of a loop that offered nothing touches another sender. -/
lemma Deserted.turn (hd : Deserted cfg s k) {j loop₀} (hl : s.loop j = loop₀)
    (hoffers : ∀ msg, loop₀ ≠ .offering msg) : Deserted cfg (s.turn j loop) k :=
  (deserted_turn_iff (hd.ne_of_loop (hl ▸ hoffers))).mpr hd

lemma Deserted.of_turn {j} (hd : Deserted cfg (s.turn j loop) k)
    (hoffers : ∀ msg, loop ≠ .offering msg) : Deserted cfg s k := by
  have hne := hd.ne_of_loop (j := j) (by rw [State.loop_turn_self]; exact hoffers)
  exact (deserted_turn_iff hne).mp hd

/-- Giving a message back after a panic leaves the processor gone. -/
lemma deserted_finish_iff {panicked} (hw : s.work q = .finishing panicked) :
    Deserted cfg (s.go q (if panicked then .ended else .idle)) k ↔ Deserted cfg s k := by
  by_cases hne : k = q.1
  · subst hne
    have hgone : ∀ p, ((s.go q (if panicked then .ended else .idle)).work (q.1, p)).gone =
        (s.work (q.1, p)).gone := by
      intro p
      by_cases hp : p = q.2
      · subst hp
        rw [State.work_go_self, hw]
        cases panicked <;> rfl
      · rw [State.work_go_of_ne fun heq => hp (congrArg Prod.snd heq)]
    simp only [Deserted, hgone]
    rfl
  · exact deserted_go_iff hne

end

variable {k : Nat} {a : Act V}

/-- Without a cancellation a deserted loop stays deserted. -/
theorem Deserted.goes (hd : Deserted cfg s k) (hcancelled : s.cancelled = false)
    (hgoes : Goes cfg s a s') : Deserted cfg s' k := by
  cases hgoes
  case receive hk hl hq => exact hd.turn hl nofun
  case exhaust hk hl hends => exact hd.turn hl nofun
  case giveUp hk hl hc =>
    rw [hcancelled] at hc
    cases hc
  case shut hk hl hended => exact hd.turn hl nofun
  case drained hk hl hq hclosed => exact hd.turn hl nofun
  case take hq hl hw =>
    have hne := hd.ne hq (hw ▸ rfl)
    exact (deserted_go_iff hne).mpr ((deserted_turn_iff hne).mpr hd)
  case retire hq hl hw => exact hd.go hq hw rfl
  case filter hq hw => exact hd.go hq hw rfl
  case interpret hq hw hout => exact hd.go hq hw rfl
  case readOld hq hw hold => exact hd.go hq hw rfl
  case readNew hq hw hnew hchunk => exact hd.go hq hw rfl
  case readChunk hq hw hnew hchunk => exact hd.go hq hw rfl
  case flush hq hw => exact hd.go hq hw rfl
  case readEnd hq hw => exact hd.go hq hw rfl
  case abort hq hw => exact hd.go hq hw rfl
  case panicInterpret hq hw => exact hd.go hq hw rfl
  case panicRead hq hw => exact hd.go hq hw rfl
  case count hq hw => exact hd.go hq hw rfl
  case sent hq hw => exact hd.go hq hw rfl
  case deliver hq hw hopen => exact hd.go hq hw rfl
  case fail hq hw hc => exact hd.go hq hw rfl
  case finish hq hw => exact (deserted_finish_iff hw).mpr hd
  all_goals exact hd

omit [DecidableEq V] in
/-- A panic deserts the loop only if it is the last processor's and the loop offers a
    message. -/
lemma Deserted.of_panic {q} (hd : Deserted cfg (s.go q (.finishing true)) k)
    (hattended : Attended cfg s (.proc q .panic)) : Deserted cfg s k := by
  by_cases hne : k = q.1
  · subst hne
    rcases hattended with hoffers | ⟨p, hp, hother, hleft⟩
    · obtain ⟨⟨msg, hmsg⟩, -⟩ := hd
      exact absurd hmsg (hoffers msg)
    · have hgone := hd.2 p hp
      rw [State.work_go_of_ne fun heq => hother (congrArg Prod.snd heq), hleft] at hgone
      cases hgone
  · exact (deserted_go_iff hne).mp hd

/-- An attended step deserts no loop. -/
lemma Deserted.of_goes (hd : Deserted cfg s' k) (hattended : Attended cfg s a)
    (hgoes : Goes cfg s a s') : Deserted cfg s k := by
  cases hgoes
  case receive j msg rest hk hl hq =>
    by_cases hne : k = j
    · subst hne
      obtain ⟨p, hp, hleft⟩ := hattended
      have hgone := hd.2 p hp
      cases hleft.symm.trans hgone
    · exact (deserted_turn_iff hne).mp hd
  case exhaust hk hl hends => exact hd.of_turn nofun
  case giveUp j msg hk hl hc =>
    have hturn : Deserted cfg (s.turn j .closing) k := hd
    exact hturn.of_turn nofun
  case shut hk hl hended => exact hd.of_turn nofun
  case drained hk hl hq hclosed => exact hd.of_turn nofun
  case take hq hl hw => exact (hd.of_go hq rfl).of_turn nofun
  case retire q hq hl hw =>
    have hne : k ≠ q.1 := hd.ne_of_loop (j := q.1) (hl ▸ nofun)
    exact (deserted_go_iff hne).mp hd
  case filter hq hw => exact of_go (w := .filtering _ _) hd hq rfl
  case interpret hq hw hout => exact hd.of_go hq rfl
  case readOld hq hw hold => exact hd.of_go hq rfl
  case readNew hq hw hnew hchunk => exact of_go (w := .reading _ _) hd hq rfl
  case readChunk hq hw hnew hchunk => exact of_go (w := .sending _ _ _) hd hq rfl
  case flush hq hw => exact hd.of_go hq rfl
  case readEnd hq hw => exact hd.of_go hq rfl
  case abort hq hw => exact hd.of_go hq rfl
  case panicInterpret hq hw => exact hd.of_panic hattended
  case panicRead hq hw => exact hd.of_panic hattended
  case count hq hw => exact of_go (w := .counted _ _ _ _) hd hq rfl
  case sent hq hw => exact hd.of_go hq rfl
  case deliver hq hw hopen => exact of_go (w := .sending _ _ _) hd hq rfl
  case fail hq hw hc => exact of_go (w := .sending _ _ _) hd hq rfl
  case finish hq hw => exact (deserted_finish_iff hw).mp hd
  all_goals exact hd

/-- A step that is not attended deserts a loop. -/
lemma exists_deserted_of_goes (hnot : ¬ Attended cfg s a) (hgoes : Goes cfg s a s') :
    ∃ k < cfg.links, Deserted cfg s' k := by
  have hpanic : ∀ q, cfg.HasProc q → ¬ Attended cfg s (.proc q .panic) →
      Deserted cfg (s.go q (.finishing true)) q.1 := by
    intro q hq hnot
    simp only [Attended, not_or, not_forall, not_not, not_exists, not_and] at hnot
    obtain ⟨⟨msg, hmsg⟩, hothers⟩ := hnot
    refine ⟨⟨msg, hmsg⟩, fun p hp => ?_⟩
    by_cases hpq : p = q.2
    · subst hpq
      rw [State.work_go_self]
      rfl
    · rw [State.work_go_of_ne fun heq => hpq (congrArg Prod.snd heq)]
      exact Bool.eq_true_of_not_eq_false (hothers p hp hpq)
  cases hgoes
  case receive j msg rest hk hl hq =>
    simp only [Attended, not_exists, not_and] at hnot
    refine ⟨j, hk, ⟨msg, State.loop_turn_self⟩, fun p hp => ?_⟩
    exact Bool.eq_true_of_not_eq_false (hnot p hp)
  case panicInterpret q kept hq hw => exact ⟨q.1, hq.1, hpanic q hq hnot⟩
  case panicRead q rest buffer hq hw => exact ⟨q.1, hq.1, hpanic q hq hnot⟩
  all_goals exact absurd trivial hnot

/-! ## Whole runs -/

lemma cancelled_goes (hgoes : Goes cfg s a s') (hcancelled : s.cancelled = true) :
    s'.cancelled = true := by
  cases hgoes
  case cancel => rfl
  all_goals exact hcancelled

lemma meets_of_not_cancelled {acts}
    (hrun : Lts.run (step cfg) s acts = some s') (hcancelled : s'.cancelled = false) :
    Lts.Meets (step cfg) (fun s _ => s.cancelled = false) s acts := by
  induction acts generalizing s with
  | nil => trivial
  | cons a acts ih =>
    refine ⟨?_, fun m hm => ih ?_⟩
    · apply eq_false_of_ne_true
      intro hc
      have hend := Lts.run_invariant' (I := fun s => s.cancelled = true)
        (fun _ _ _ hm hstep => cancelled_goes (goes_of_step hstep) hm) hc hrun
      rw [hcancelled] at hend
      cases hend
    · obtain ⟨m', hm', hrest⟩ := Lts.run_cons_eq_some.mp hrun
      rw [hm] at hm'
      cases hm'
      exact hrest

/-- In a run without cancellation no loop is deserted at the end exactly when every step
    was attended. -/
lemma not_deserted_iff {acts}
    (hrun : Lts.run (step cfg) cfg.start acts = some s) (hcancelled : s.cancelled = false) :
    (∀ k < cfg.links, ¬ Deserted cfg s k) ↔ Lts.Meets (step cfg) (Attended cfg) cfg.start acts := by
  refine Lts.iff_meets_within (I := fun s => ∀ k < cfg.links, ¬ Deserted cfg s k)
    (B := fun s => ∃ k < cfg.links, Deserted cfg s k) ?_ ?_ ?_ (fun _ h => h) ?_ ?_
    (meets_of_not_cancelled hrun hcancelled) hrun
  · intro m a m' hI _ hattended hstep k hk hd
    exact hI k hk (hd.of_goes hattended (goes_of_step hstep))
  · intro m a m' _ _ hnot hstep
    exact exists_deserted_of_goes hnot (goes_of_step hstep)
  · rintro m a m' ⟨k, hk, hd⟩ hwithin hstep
    exact ⟨k, hk, hd.goes hwithin (goes_of_step hstep)⟩
  · rintro m ⟨k, hk, hd⟩ h
    exact h k hk hd
  · rintro k _ ⟨⟨msg, hmsg⟩, -⟩
    cases hmsg

/-- The termination protocol of a cycle group.  The quiescence channel is closed only when
    every standard sender is exhausted and every cyclical message is processed, and after
    that no message is sent on a cyclical edge.  Every run ends; when it has, every
    `Execute` has returned with its listeners closed exactly when the workers all have
    senders (or none has) and either the context was cancelled or no message loop was
    left alone with a message by the panics of all its processors. -/
theorem cycleGroup_terminates_iff (cfg : Config V) (acts : List (Act V)) (s : State V)
    (hrun : Lts.run (step cfg) cfg.start acts = some s) :
    (s.group.statusPool.quiescence = true → Exhausted cfg s ∧ Processed cfg s ∧
      ∀ later s', Lts.run (step cfg) s later = some s' → ∀ q, .proc q .deliver ∉ later) ∧
    (¬ ∃ f : Nat → State V, f 0 = s ∧ ∀ n, ∃ a, step cfg (f n) a = some (f (n + 1))) ∧
    (Halted cfg s → (Returned cfg s ↔ cfg.Fed ∧
      (s.cancelled = true ∨ Lts.Meets (step cfg) (Attended cfg) cfg.start acts))) := by
  have h := Inv.run hrun
  refine ⟨fun hquiescence => ⟨h.exhausted hquiescence, h.processed hquiescence, ?_⟩,
    h.no_infinite_run, fun hhalted => ?_⟩
  · exact fun later s' hlater => h.no_delivery hquiescence hlater
  · rw [h.returned_iff hhalted]
    cases hcancelled : s.cancelled with
    | true => simp
    | false => rw [not_deserted_iff hrun hcancelled]

/-! ## One worker with a standard and a cyclical sender -/

/-- A recursive relation: the worker listens to itself, and its interpreter finds
    nothing. -/
private def recursiveWorker (messages : List (List Nat)) : Config Nat where
  size := 1
  links := 2
  owner _ := 0
  source k := if k = 0 then none else some 0
  messages _ := messages
  numProcs := 1
  chunkSize := 1
  answers _ _ out := out.isEmpty
  results := ∅
  owner_lt := by decide
  source_lt := by
    intro k _ j hj
    split at hj <;> cases hj
    exact Nat.zero_lt_one
  answers_total _ _ := ⟨[], rfl⟩
  answers_mem _ _ out hout v hv := by
    rw [isEmpty_iff.mp hout] at hv
    cases hv

/-- The standard sender is processed, the worker signals, tears down and returns. -/
private def wholeRun : List (Act Nat) :=
  [.loop 0 .receive, .proc (0, 0) .take, .proc (0, 0) .filter, .proc (0, 0) (.interpret []),
    .proc (0, 0) .read, .proc (0, 0) .finish, .loop 0 .exhaust, .proc (0, 0) .retire,
    .loop 0 .shut, .loop 0 .drain, .member 0, .member 0, .member 0, .member 0, .member 0,
    .member 0, .member 0, .member 0, .loop 1 .exhaust, .proc (1, 0) .retire, .loop 1 .shut,
    .loop 1 .drain, .member 0, .member 0, .member 0]

/-- The only processor panics, and the loop takes the second message. -/
private def panickingRun : List (Act Nat) :=
  [.loop 0 .receive, .proc (0, 0) .take, .proc (0, 0) .filter, .proc (0, 0) .panic,
    .proc (0, 0) .finish, .loop 0 .receive]

private lemma halted_recursiveWorker {messages s}
    (hmember : memberStep (recursiveWorker messages) s 0 = none)
    (hloop : ∀ k < 2, ∀ move, loopStep (recursiveWorker messages) s k move = none)
    (hproc : ∀ k < 2, ∀ move, procStep (recursiveWorker messages) s (k, 0) move = none) :
    Halted (recursiveWorker messages) s := by
  intro a ha
  cases a with
  | cancel => exact absurd rfl ha
  | member i =>
    cases i with
    | zero => exact hmember
    | succ i => rfl
  | loop k move =>
    by_cases hk : k < 2
    · exact (if_pos hk).trans (hloop k hk move)
    · exact if_neg hk
  | proc q move =>
    obtain ⟨k, p⟩ := q
    by_cases hq : k < 2 ∧ p < 1
    · obtain rfl : p = 0 := Nat.lt_one_iff.mp hq.2
      exact (if_pos hq).trans (hproc k hq.1 move)
    · exact if_neg hq

/-- The state after the whole run. -/
private def tornDown : State Nat :=
  (Lts.run (step (recursiveWorker [[0]])) (recursiveWorker [[0]]).start wholeRun).get rfl

private lemma halted_tornDown : Halted (recursiveWorker [[0]]) tornDown := by
  apply halted_recursiveWorker
  · rfl
  · intro k hk move
    interval_cases k <;> cases move <;> rfl
  · intro k hk move
    interval_cases k <;> cases move <;> rfl

theorem cycleGroup_terminates_iff_wholeRun :
    Lts.run (step (recursiveWorker [[0]])) (recursiveWorker [[0]]).start wholeRun = some tornDown ∧
      Halted (recursiveWorker [[0]]) tornDown ∧ Returned (recursiveWorker [[0]]) tornDown ∧
      Exhausted (recursiveWorker [[0]]) tornDown ∧ Processed (recursiveWorker [[0]]) tornDown ∧
      Lts.Meets (step (recursiveWorker [[0]])) (Attended (recursiveWorker [[0]]))
        (recursiveWorker [[0]]).start wholeRun := by
  have hprotocol := cycleGroup_terminates_iff (recursiveWorker [[0]]) wholeRun tornDown rfl
  have hreturned : Returned (recursiveWorker [[0]]) tornDown := by
    intro i hi
    obtain rfl : i = 0 := Nat.lt_one_iff.mp hi
    exact ⟨rfl, by decide⟩
  obtain ⟨hexhausted, hprocessed, -⟩ := hprotocol.1 rfl
  obtain ⟨-, hcancelled | hmeets⟩ := (hprotocol.2.2 halted_tornDown).mp hreturned
  · cases hcancelled
  · exact ⟨rfl, halted_tornDown, hreturned, hexhausted, hprocessed, hmeets⟩

theorem cycleGroup_deserted :
    ∃ s, Lts.run (step (recursiveWorker [[0], [0]])) (recursiveWorker [[0], [0]]).start
        panickingRun = some s ∧
      Halted (recursiveWorker [[0], [0]]) s ∧ s.cancelled = false ∧
      ¬ Returned (recursiveWorker [[0], [0]]) s := by
  refine ⟨_, rfl, ?_, rfl, ?_⟩
  · apply halted_recursiveWorker
    · rfl
    · intro k hk move
      interval_cases k <;> cases move <;> rfl
    · intro k hk move
      interval_cases k <;> cases move <;> rfl
  · intro hreturned
    cases (hreturned 0 Nat.zero_lt_one).1

end OpenFGA.Pipeline.BasicGroup
