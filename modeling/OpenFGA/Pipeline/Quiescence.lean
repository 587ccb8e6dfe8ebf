/-
  What the in-flight counter of a cycle group counts.  Every member starts with one
  token, which `SignalReady` gives back, and every message on a cyclical edge is
  counted from `MsgFunc` to its `Done`.  `Inv` says that the counter is the number of
  tokens and messages, and how the phases of the members, the message loops, the
  processors and the media depend on each other.

  The invariant is stated with `d` messages in the hands of the goroutine that is
  going on, so that a step that moves a message is made of two parts.
-/

import OpenFGA.Lib.Tasks
import OpenFGA.Pipeline.BasicGroup

namespace OpenFGA.Pipeline.BasicGroup

open CycleGroup (ringNext)
open State List Bool Function

universe u
variable {V : Type u} {cfg : Config V} {s s' : State V}

/-! ## What is counted -/

namespace Phase

/-- `Report` is still to come. -/
def unreported : Phase → Bool
  | .standard | .reporting => true
  | _ => false

/-- Between `Report` and `Dec`. -/
def signalling : Phase → Nat
  | .decrementing => 1
  | _ => 0

/-- Only the deferred `Cleanup` is left to do. -/
def exits : Phase → Bool
  | .leaving _ | .returned => true
  | _ => false

/-- After `WaitForAllReady`, if the worker has senders. -/
def tearing : Phase → Bool
  | .sleeping | .cleaning _ | .waking | .recursive | .leaving _ | .returned => true
  | _ => false

/-- Phases of a worker without senders. -/
def outside (p : Phase) : Bool := p = .standard || p.exits

/-- The next member has been woken. -/
def passed (p : Phase) : Bool := p = .recursive || p.exits

lemma of_passed {p : Phase} (h : p.passed = true) :
    p.unreported = false ∧ p.tearing = true ∧ p.signalling = 0 := by
  cases p with
  | recursive | leaving | returned => exact ⟨rfl, rfl, rfl⟩
  | _ => cases h

/-- The listener `k` has been closed. -/
def closes (k : Nat) : Phase → Bool
  | .cleaning left | .leaving left => k ∉ left
  | .waking | .recursive | .returned => true
  | _ => false

end Phase

/-- The loop holds a message. -/
def Loop.offered : Loop V → Nat
  | .offering _ => 1
  | _ => 0

namespace Work

/-- The processor holds a message of its sender. -/
def held : Work V → Nat
  | .idle | .ended => 0
  | _ => 1

/-- The processor holds a counted message for a listener. -/
def inSend : Work V → Nat
  | .counted .. => 1
  | _ => 0

/-- Results that are still to be read. -/
def rest : Work V → List V
  | .reading rest _ | .sending rest _ _ | .counted rest _ _ _ => rest
  | _ => []

/-- Listeners that are still to be sent to. -/
def targets : Work V → List Nat
  | .sending _ _ left => left
  | .counted _ _ l left => l :: left
  | _ => []

/-- What a processor of sender `k` contributes to the count. -/
def weight (cyclical : Bool) (w : Work V) : Nat := cyclical.toNat * w.held + w.inSend

end Work

namespace Config

lemma target_of_listener {l j} (hl : l ∈ cfg.listeners j) :
    l < cfg.links ∧ cfg.cyclical l = true := by
  obtain ⟨hlt, hsource⟩ := mem_listeners.mp hl
  exact ⟨hlt, Option.isSome_iff_exists.mpr ⟨j, hsource⟩⟩

/-- The processors of all senders. -/
def procs (cfg : Config V) : Finset ProcId := Finset.range cfg.links ×ˢ Finset.range cfg.numProcs

@[simp] lemma mem_procs {q : ProcId} : q ∈ cfg.procs ↔ cfg.HasProc q := by
  simp [procs, HasProc]

end Config

/-- Tokens of members, and messages on cyclical edges that are not done: queued, offered
    to the processors, being processed, or counted and not sent yet. -/
def unsettled (cfg : Config V) (s : State V) : Nat :=
  (s.group.statusPool.pool.map toNat).sum +
    ∑ i ∈ Finset.range cfg.size, (s.phase i).signalling +
    ∑ k ∈ Finset.range cfg.links, (cfg.cyclical k).toNat * (s.queue k).length +
    ∑ k ∈ Finset.range cfg.links, (cfg.cyclical k).toNat * (s.loop k).offered +
    ∑ q ∈ cfg.procs, (s.work q).weight (cfg.cyclical q.1)

/-- What holds in every state, with `d` counted messages in hand. -/
structure Inv (cfg : Config V) (d : Nat) (s : State V) : Prop where
  count : s.group.statusPool.inflight = (unsettled cfg s + d : Nat)
  quiescence : 0 < cfg.size →
    (s.group.statusPool.quiescence = true ↔ s.group.statusPool.inflight = 0)
  total : (cfg.size : Int) ≤ s.group.statusPool.total
  length : s.group.statusPool.pool.length = cfg.size
  ready : 0 < cfg.size →
    (s.group.statusPool.ready = true ↔ s.group.statusPool.pool.all (! ·) = true)
  reported : ∀ i < cfg.size, s.group.statusPool.pool[i]? =
    some ((s.phase i).unreported || decide (cfg.senders i = []))
  ring : ∀ i < cfg.size, (s.group.member i).prev = ringNext cfg.size i ∧
    (s.group.member i).leader = decide (i + 1 = cfg.size)
  senderless : ∀ i < cfg.size, cfg.senders i = [] → (s.phase i).outside = true
  standardDone : ∀ k < cfg.links, cfg.cyclical k = false → s.phase (cfg.owner k) ≠ .standard →
    s.loop k = .done
  allDone : ∀ k < cfg.links, (s.phase (cfg.owner k)).exits = true → s.loop k = .done
  drained : ∀ k < cfg.links, s.loop k = .done → s.queue k = [] ∧ s.closed k = true
  ended : ∀ q, cfg.HasProc q → s.loop q.1 = .draining ∨ s.loop q.1 = .done → s.work q = .ended
  quiet : ∀ i < cfg.size, cfg.senders i ≠ [] → (s.phase i).tearing = true →
    s.group.statusPool.quiescence = true
  chain : ∀ i < cfg.size, cfg.senders i ≠ [] → (s.phase i).passed = true →
    (s.group.member (ringNext cfg.size i)).awake = true
  follower : ∀ i < cfg.size, s.phase i = .sleeping → i + 1 < cfg.size
  closing : ∀ k < cfg.links, ∀ j, cfg.source k = some j → (s.phase j).closes k = true →
    s.closed k = true
  standardClosed : ∀ k < cfg.links, cfg.cyclical k = false → s.closed k = true
  sound : ∀ q, ∀ v ∈ (s.work q).rest, v ∈ cfg.results
  targets : ∀ q, ∀ l ∈ (s.work q).targets, l < cfg.links ∧ cfg.cyclical l = true

namespace Inv

variable {d d' i j k l : Nat} {q : ProcId}

/-! ## Quiescence -/

lemma size_pos (hq : cfg.HasProc q) : 0 < cfg.size :=
  Nat.zero_lt_of_lt (cfg.owner_lt q.1 hq.1)

/-- A processor that holds a message keeps the count above zero: a cyclical message is
    counted itself, a standard one keeps its worker from signalling. -/
lemma unsettled_pos_of_held (h : Inv cfg d s) (hq : cfg.HasProc q) (hheld : (s.work q).held = 1) :
    0 < unsettled cfg s := by
  cases hc : cfg.cyclical q.1 with
  | true =>
    have hle : (s.work q).weight (cfg.cyclical q.1) ≤
        ∑ q ∈ cfg.procs, (s.work q).weight (cfg.cyclical q.1) :=
      Finset.single_le_sum (f := fun q => (s.work q).weight (cfg.cyclical q.1))
        (fun _ _ => Nat.zero_le _) (Config.mem_procs.mpr hq)
    have hpos : 1 ≤ (s.work q).weight (cfg.cyclical q.1) := by
      rw [hc, Work.weight, hheld]
      exact Nat.le_add_right 1 _
    unfold unsettled
    omega
  | false =>
    have hphase : s.phase (cfg.owner q.1) = .standard := by
      by_contra hne
      have hended := h.ended q hq (.inr (h.standardDone q.1 hq.1 hc hne))
      rw [hended] at hheld
      cases hheld
    have hpool := h.reported _ (cfg.owner_lt q.1 hq.1)
    rw [hphase, Phase.unreported, Bool.true_or] at hpool
    have hmem : Bool.toNat true ∈ s.group.statusPool.pool.map Bool.toNat :=
      List.mem_map_of_mem (List.mem_of_getElem? hpool)
    have hle := le_sum_of_mem hmem
    rw [toNat_true] at hle
    unfold unsettled
    omega

/-- With a message in hand or one being processed the group is not quiescent. -/
lemma not_quiescent (h : Inv cfg d s) (hsize : 0 < cfg.size) (hpos : 0 < unsettled cfg s + d) :
    s.group.statusPool.quiescence = false := by
  apply eq_false_of_ne_true
  intro hquiescence
  have hzero := (h.quiescence hsize).mp hquiescence
  rw [h.count] at hzero
  omega

end Inv

/-! ## How the parts of a step change the count -/

section
variable {i k : Nat} {q : ProcId}

lemma unsettled_go (hq : cfg.HasProc q) (w : Work V) :
    unsettled cfg (s.go q w) + (s.work q).weight (cfg.cyclical q.1) =
      unsettled cfg s + w.weight (cfg.cyclical q.1) := by
  have hsum := Tasks.sum_update (fun q w => Work.weight (cfg.cyclical q.1) w) s.work
    (Config.mem_procs.mpr hq) w
  simp only [unsettled, go]
  omega

lemma unsettled_turn (hk : k < cfg.links) (loop : Loop V) :
    unsettled cfg (s.turn k loop) + (cfg.cyclical k).toNat * (s.loop k).offered =
      unsettled cfg s + (cfg.cyclical k).toNat * loop.offered := by
  have hsum := Tasks.sum_update (fun k loop => (cfg.cyclical k).toNat * Loop.offered loop) s.loop
    (Finset.mem_range.mpr hk) loop
  simp only [unsettled, turn]
  omega

lemma unsettled_queue (hk : k < cfg.links) (queue : List (List V)) :
    unsettled cfg { s with queue := update s.queue k queue } +
        (cfg.cyclical k).toNat * (s.queue k).length =
      unsettled cfg s + (cfg.cyclical k).toNat * queue.length := by
  have hsum := Tasks.sum_update (fun k queue => (cfg.cyclical k).toNat * length queue) s.queue
    (Finset.mem_range.mpr hk) queue
  simp only [unsettled]
  omega

lemma unsettled_enter (hi : i < cfg.size) (p : Phase) :
    unsettled cfg (s.enter i p) + (s.phase i).signalling = unsettled cfg s + p.signalling := by
  have hsum := Tasks.sum_update (fun _ p => Phase.signalling p) s.phase (Finset.mem_range.mpr hi) p
  simp only [unsettled, enter]
  omega

end

/-! ## The parts of a step keep the invariant -/

namespace Inv

variable {d d' i j k l : Nat} {q : ProcId}

theorem go (h : Inv cfg d s) (hq : cfg.HasProc q) {w₀ w} (hw : s.work q = w₀)
    (hne : w₀ ≠ .ended) (hrest : ∀ v ∈ w.rest, v ∈ cfg.results)
    (htargets : ∀ l ∈ w.targets, l < cfg.links ∧ cfg.cyclical l = true)
    (hweight : w.weight (cfg.cyclical q.1) + d' = w₀.weight (cfg.cyclical q.1) + d) :
    Inv cfg d' (s.go q w) :=
  { h with
    count := by
      have hgo := unsettled_go (s := s) hq w
      rw [hw] at hgo
      have hcount := h.count
      show s.group.statusPool.inflight = _
      omega
    ended := by
      intro q' hq' hloop
      rcases eq_or_ne q' q with rfl | hqq
      · exact absurd (hw.symm.trans (h.ended q' hq hloop)) hne
      · rw [work_go_of_ne hqq]
        exact h.ended q' hq' hloop
    sound := by
      intro q'
      rcases eq_or_ne q' q with rfl | hqq
      · rw [work_go_self]
        exact hrest
      · rw [work_go_of_ne hqq]
        exact h.sound q'
    targets := by
      intro q'
      rcases eq_or_ne q' q with rfl | hqq
      · rw [work_go_self]
        exact htargets
      · rw [work_go_of_ne hqq]
        exact h.targets q' }

/-- A message loop that is not done goes on. -/
lemma turn (h : Inv cfg d s) (hk : k < cfg.links) {loop₀ loop} (hl : s.loop k = loop₀)
    (hne : loop₀ ≠ .done)
    (hended : loop = .draining ∨ loop = .done → ∀ p < cfg.numProcs, s.work (k, p) = .ended)
    (hdrained : loop = .done → s.queue k = [] ∧ s.closed k = true)
    (hoffered : (cfg.cyclical k).toNat * loop.offered + d' =
      (cfg.cyclical k).toNat * loop₀.offered + d) :
    Inv cfg d' (s.turn k loop) :=
  { h with
    count := by
      have hturn := unsettled_turn (s := s) hk loop
      rw [hl] at hturn
      have hcount := h.count
      show s.group.statusPool.inflight = _
      omega
    standardDone := by
      intro k' hk' hc hphase
      have hdone := h.standardDone k' hk' hc hphase
      rcases eq_or_ne k' k with rfl | hkk
      · exact absurd (hl.symm.trans hdone) hne
      · rw [loop_turn_of_ne hkk]
        exact hdone
    allDone := by
      intro k' hk' hphase
      have hdone := h.allDone k' hk' hphase
      rcases eq_or_ne k' k with rfl | hkk
      · exact absurd (hl.symm.trans hdone) hne
      · rw [loop_turn_of_ne hkk]
        exact hdone
    drained := by
      intro k' hk'
      rcases eq_or_ne k' k with rfl | hkk
      · rw [loop_turn_self]
        exact hdrained
      · rw [loop_turn_of_ne hkk]
        exact h.drained k' hk'
    ended := by
      intro q hq
      rcases eq_or_ne q.1 k with rfl | hkk
      · rw [loop_turn_self]
        exact fun hloop => hended hloop q.2 hq.2
      · rw [loop_turn_of_ne hkk]
        exact h.ended q hq }

theorem queued (h : Inv cfg d s) (hk : k < cfg.links) (hne : s.loop k ≠ .done)
    {queue} (hlength : (cfg.cyclical k).toNat * queue.length + d' =
      (cfg.cyclical k).toNat * (s.queue k).length + d) :
    Inv cfg d' { s with queue := update s.queue k queue } :=
  { h with
    count := by
      have hqueue := unsettled_queue (s := s) hk queue
      have hcount := h.count
      show s.group.statusPool.inflight = _
      omega
    drained := by
      intro k' hk' hdone
      by_cases hkk : k' = k
      · exact absurd (hkk ▸ hdone) hne
      · show update s.queue k queue k' = [] ∧ _
        rw [update_of_ne hkk]
        exact h.drained k' hk' hdone }

lemma dec (h : Inv cfg 1 s) : Inv cfg 0 { s with group := s.group.dec } :=
  { h with
    count := by
      have hcount := h.count
      show s.group.statusPool.inflight - 1 = (unsettled cfg s + 0 : Nat)
      omega
    quiescence := by
      intro hsize
      show (s.group.statusPool.quiescence || s.group.statusPool.inflight - 1 == 0) = true ↔
        s.group.statusPool.inflight - 1 = 0
      rw [h.not_quiescent hsize (Nat.succ_pos _), Bool.false_or, beq_iff_eq]
    quiet := by
      intro i hi hsenders hphase
      show (s.group.statusPool.quiescence || _) = true
      rw [h.quiet i hi hsenders hphase, Bool.true_or] }

lemma inc (h : Inv cfg d s) (hq : cfg.HasProc q) (hheld : (s.work q).held = 1) :
    Inv cfg (d + 1) { s with group := s.group.inc } :=
  { h with
    count := by
      have hcount := h.count
      show s.group.statusPool.inflight + 1 = (unsettled cfg s + (d + 1) : Nat)
      omega
    quiescence := by
      intro hsize
      show s.group.statusPool.quiescence = true ↔ s.group.statusPool.inflight + 1 = 0
      have hpos := h.unsettled_pos_of_held hq hheld
      have hcount := h.count
      rw [h.not_quiescent hsize (Nat.add_pos_left hpos d)]
      constructor
      · intro hfalse
        cases hfalse
      · intro hzero
        omega
    total := by
      have htotal := h.total
      show (cfg.size : Int) ≤ s.group.statusPool.total + 1
      omega }

lemma settle (h : Inv cfg (cfg.cyclical k).toNat s) :
    Inv cfg 0 { s with group := cfg.settle k s.group } := by
  unfold Config.settle
  cases hc : cfg.cyclical k with
  | true =>
    rw [hc] at h
    exact h.dec
  | false =>
    rw [hc] at h
    exact h

theorem close (h : Inv cfg d s) (l : Nat) : Inv cfg d (s.close l) :=
  { h with
    drained := fun k hk hdone =>
      ⟨(h.drained k hk hdone).1, closed_close (h.drained k hk hdone).2⟩
    closing := fun k hk j hj hphase => closed_close (h.closing k hk j hj hphase)
    standardClosed := fun k hk hc => closed_close (h.standardClosed k hk hc) }

theorem wake (h : Inv cfg d s) (j : Nat) : Inv cfg d { s with group := s.group.wake j } :=
  { h with
    ring := by
      intro i hi
      rw [(s.group.wake_keeps j i).1, (s.group.wake_keeps j i).2.1]
      exact h.ring i hi
    chain := fun i hi hsenders hphase =>
      (s.group.wake_keeps j _).2.2 (h.chain i hi hsenders hphase) }

section
variable {p₀ p : Phase} (h : Inv cfg d s) (hi : i < cfg.size) (hp : s.phase i = p₀)
  (hsenderless : cfg.senders i = [] → p.outside = true)
  (hstandard : p ≠ .standard → ∀ k ∈ cfg.senders i, cfg.cyclical k = false → s.loop k = .done)
  (hall : p.exits = true → ∀ k ∈ cfg.senders i, s.loop k = .done)
  (hquiet : cfg.senders i ≠ [] → p.tearing = true → s.group.statusPool.quiescence = true)
  (hchain : cfg.senders i ≠ [] → p.passed = true →
    (s.group.member (ringNext cfg.size i)).awake = true)
  (hfollower : p = .sleeping → i + 1 < cfg.size)
  (hclosing : ∀ k ∈ cfg.listeners i, p.closes k = true → s.closed k = true)
include h hsenderless hstandard hall hquiet hchain hfollower hclosing

/-- A member goes on to a phase that its senders, the quiescence channel and its
    listeners allow, and the pool follows. -/
lemma enterWith {pool ready}
    (hcount : s.group.statusPool.inflight = (unsettled cfg { s.enter i p with
      group := { s.group with statusPool := { s.group.statusPool with pool, ready } } } + d' : Nat))
    (hlength : pool.length = cfg.size)
    (hready : 0 < cfg.size → (ready = true ↔ pool.all (! ·) = true)) (hreported : ∀ j < cfg.size,
      pool[j]? = some (((s.enter i p).phase j).unreported || decide (cfg.senders j = []))) :
    Inv cfg d' { s.enter i p with
      group := { s.group with statusPool := { s.group.statusPool with pool, ready } } } :=
  { h with
    count := hcount
    length := hlength
    ready := hready
    reported := hreported
    senderless := by
      intro j hj
      show cfg.senders j = [] → ((s.enter i p).phase j).outside = true
      rcases eq_or_ne j i with rfl | hij
      · rw [phase_enter_self]
        exact hsenderless
      · rw [phase_enter_of_ne hij]
        exact h.senderless j hj
    standardDone := by
      intro k hk hc
      show (s.enter i p).phase (cfg.owner k) ≠ .standard → _
      rcases eq_or_ne (cfg.owner k) i with hij | hij
      · rw [hij, phase_enter_self]
        exact fun hphase => hstandard hphase k (Config.mem_senders.mpr ⟨hk, hij⟩) hc
      · rw [phase_enter_of_ne hij]
        exact h.standardDone k hk hc
    allDone := by
      intro k hk
      show ((s.enter i p).phase (cfg.owner k)).exits = true → _
      rcases eq_or_ne (cfg.owner k) i with hij | hij
      · rw [hij, phase_enter_self]
        exact fun hphase => hall hphase k (Config.mem_senders.mpr ⟨hk, hij⟩)
      · rw [phase_enter_of_ne hij]
        exact h.allDone k hk
    quiet := by
      intro j hj
      show _ → ((s.enter i p).phase j).tearing = true → _
      rcases eq_or_ne j i with rfl | hij
      · rw [phase_enter_self]
        exact hquiet
      · rw [phase_enter_of_ne hij]
        exact h.quiet j hj
    chain := by
      intro j hj
      show _ → ((s.enter i p).phase j).passed = true → _
      rcases eq_or_ne j i with rfl | hij
      · rw [phase_enter_self]
        exact hchain
      · rw [phase_enter_of_ne hij]
        exact h.chain j hj
    follower := by
      intro j hj
      show (s.enter i p).phase j = .sleeping → _
      rcases eq_or_ne j i with rfl | hij
      · rw [phase_enter_self]
        exact hfollower
      · rw [phase_enter_of_ne hij]
        exact h.follower j hj
    closing := by
      intro k hk j hj
      show ((s.enter i p).phase j).closes k = true → _
      rcases eq_or_ne j i with rfl | hij
      · rw [phase_enter_self]
        exact hclosing k (Config.mem_listeners.mpr ⟨hk, hj⟩)
      · rw [phase_enter_of_ne hij]
        exact h.closing k hk j hj }

include hi hp

lemma enter (hreported : (p.unreported || decide (cfg.senders i = [])) =
      (p₀.unreported || decide (cfg.senders i = [])))
    (hsignalling : p.signalling + d' = p₀.signalling + d) : Inv cfg d' (s.enter i p) := by
  refine h.enterWith hsenderless hstandard hall hquiet hchain hfollower hclosing ?_ h.length h.ready
    fun j hj => ?_
  · have henter := unsettled_enter (s := s) hi p
    rw [hp] at henter
    have hcount := h.count
    show s.group.statusPool.inflight = (unsettled cfg (s.enter i p) + d' : Nat)
    omega
  · rcases eq_or_ne j i with rfl | hij
    · rw [phase_enter_self, hreported, ← hp]
      exact h.reported j hj
    · rw [phase_enter_of_ne hij]
      exact h.reported j hj

end

/-- A member that has senders is not in a phase of a worker without any. -/
lemma senders_ne_nil (h : Inv cfg d s) (hi : i < cfg.size) (hphase : (s.phase i).outside = false) :
    cfg.senders i ≠ [] := by
  intro hnone
  have houtside := h.senderless i hi hnone
  rw [hphase] at houtside
  cases houtside

lemma standardDone_of_ne (h : Inv cfg d s) (hphase : s.phase i ≠ .standard) :
    ∀ k ∈ cfg.senders i, cfg.cyclical k = false → s.loop k = .done := by
  intro k hsender hc
  obtain ⟨hk, rfl⟩ := Config.mem_senders.mp hsender
  exact h.standardDone k hk hc hphase

/-- A member reports: its entry in the pool is cleared, and the token passes to the
    member. -/
lemma report (h : Inv cfg 0 s) (hi : i < cfg.size) (hp : s.phase i = .reporting) :
    Inv cfg 0 { s.enter i .decrementing with group := s.group.report i } := by
  have hsenders := h.senders_ne_nil hi (by rw [hp]; rfl)
  have hentry := h.reported i hi
  rw [hp, Phase.unreported, Bool.true_or] at hentry
  have hnotReady : s.group.statusPool.ready = false := by
    apply eq_false_of_ne_true
    intro hready
    have hall := List.all_eq_true.mp ((h.ready (Nat.zero_lt_of_lt hi)).mp hready) true
      (List.mem_of_getElem? hentry)
    cases hall
  rw [CycleGroup.report, StatusPool.set, if_pos hentry]
  refine h.enterWith (p := .decrementing) (fun hnone => absurd hnone hsenders)
    (fun _ => h.standardDone_of_ne (by rw [hp]; nofun)) nofun nofun nofun nofun nofun ?_ ?_ ?_
    fun j hj => ?_
  · have hpool := Tasks.sum_set Bool.toNat hentry false
    have hphase := Tasks.sum_update (fun _ p => Phase.signalling p) s.phase
      (Finset.mem_range.mpr hi) .decrementing
    have hcount := h.count
    rw [Bool.toNat_true, Bool.toNat_false] at hpool
    rw [hp] at hphase
    simp only [unsettled, State.enter, Phase.signalling] at hphase hcount ⊢
    omega
  · rw [List.length_set]
    exact h.length
  · intro hsize
    rw [hnotReady, Bool.false_or]
  · rcases eq_or_ne j i with rfl | hij
    · rw [List.getElem?_set_self (h.length ▸ hi), phase_enter_self, decide_eq_false hsenders]
      rfl
    · rw [List.getElem?_set_ne (Ne.symm hij), h.reported j hj, phase_enter_of_ne hij]

/-! ## Every state that is reached -/

theorem start : Inv cfg 0 cfg.start where
  count := by
    have hphase : ∀ i ∈ Finset.range cfg.size, (cfg.start.phase i).signalling = 0 := fun _ _ => rfl
    have hqueue : ∀ k ∈ Finset.range cfg.links,
        (cfg.cyclical k).toNat * (cfg.start.queue k).length = 0 := by
      intro k _
      show _ * List.length (if cfg.cyclical k then [] else cfg.messages k) = 0
      cases cfg.cyclical k <;> simp
    have hloop : ∀ k ∈ Finset.range cfg.links,
        (cfg.cyclical k).toNat * (cfg.start.loop k).offered = 0 := fun _ _ => rfl
    have hwork : ∀ q ∈ cfg.procs, (cfg.start.work q).weight (cfg.cyclical q.1) = 0 := fun _ _ => rfl
    rw [unsettled, Finset.sum_eq_zero hphase, Finset.sum_eq_zero hqueue, Finset.sum_eq_zero hloop,
      Finset.sum_eq_zero hwork]
    show (CycleGroup.joined cfg.size).statusPool.inflight =
      (((CycleGroup.joined cfg.size).statusPool.pool.map Bool.toNat).sum + 0 + 0 + 0 + 0 + 0 : Nat)
    rw [CycleGroup.joined_statusPool]
    simp
  quiescence := by
    intro hsize
    show (CycleGroup.joined cfg.size).statusPool.quiescence = true ↔ _ = (0 : Int)
    rw [show cfg.start.group = .joined cfg.size from rfl, CycleGroup.joined_statusPool]
    simp only [Bool.false_eq_true, false_iff]
    omega
  total := by
    show (cfg.size : Int) ≤ (CycleGroup.joined cfg.size).statusPool.total
    rw [CycleGroup.joined_statusPool]
  length := by
    show (CycleGroup.joined cfg.size).statusPool.pool.length = _
    rw [CycleGroup.joined_statusPool, List.length_replicate]
  ready := by
    intro hsize
    show (CycleGroup.joined cfg.size).statusPool.ready = true ↔
      (CycleGroup.joined cfg.size).statusPool.pool.all (! ·) = true
    rw [CycleGroup.joined_statusPool]
    simp [Nat.ne_of_gt hsize]
  reported := by
    intro i hi
    show (CycleGroup.joined cfg.size).statusPool.pool[i]? = some (true || _)
    rw [CycleGroup.joined_statusPool, List.getElem?_replicate, if_pos hi, Bool.true_or]
  ring := by
    intro i hi
    show ((CycleGroup.joined cfg.size).member i).prev = _ ∧
      ((CycleGroup.joined cfg.size).member i).leader = _
    rw [CycleGroup.joined_member hi]
    exact ⟨rfl, rfl⟩
  senderless _ _ _ := rfl
  standardDone _ _ _ hphase := absurd rfl hphase
  allDone _ _ hphase := by cases hphase
  drained _ _ hdone := by cases hdone
  ended _ _ hloop := by rcases hloop with hloop | hloop <;> cases hloop
  quiet _ _ _ hphase := by cases hphase
  chain _ _ _ hphase := by cases hphase
  follower _ _ hphase := by cases hphase
  closing _ _ _ _ hphase := by cases hphase
  standardClosed := by
    intro k _ hc
    show (!cfg.cyclical k) = true
    rw [hc]
    rfl
  sound _ _ hv := by cases hv
  targets _ _ hl := by cases hl

section
variable (h : Inv cfg d s)
include h

lemma leader_iff (hi : i < cfg.size) :
    (s.group.member i).leader = true ↔ i + 1 = cfg.size := by
  rw [(h.ring i hi).2, decide_eq_true_iff]

/-- The second wait of `WaitForAllReady` ends only after quiescence. -/
lemma quiescence_of_passes (hi : i < cfg.size)
    (hpasses : s.group.statusPool.passesQuiescence = true) :
    s.group.statusPool.quiescence = true := by
  have htotal := h.total
  rw [StatusPool.passesQuiescence, or_eq_true, decide_eq_true_iff] at hpasses
  rcases hpasses with hnone | hquiescence
  · omega
  · exact hquiescence

lemma closed_of_closes {p} (hp : s.phase i = p) :
    ∀ k ∈ cfg.listeners i, p.closes k = true → s.closed k = true := by
  intro k hlistener hcloses
  obtain ⟨hk, hsource⟩ := Config.mem_listeners.mp hlistener
  exact h.closing k hk i hsource (hp ▸ hcloses)

/-- One listener less is left to close. -/
lemma closed_close_of_closes {p left} (hp : s.phase i = p)
    (hcloses : ∀ k, p.closes k = decide (k ∉ l :: left)) :
    ∀ k ∈ cfg.listeners i, decide (k ∉ left) = true → (s.close l).closed k = true := by
  intro k hk hleft
  rcases eq_or_ne k l with rfl | hkl
  · exact closed_close_self
  · apply closed_close
    apply h.closed_of_closes hp k hk
    rw [hcloses]
    exact decide_eq_true (not_mem_cons_of_ne_of_not_mem hkl (of_decide_eq_true hleft))

lemma allDone_of_exits (hphase : (s.phase i).exits = true) :
    ∀ k ∈ cfg.senders i, s.loop k = .done := by
  intro k hsender
  obtain ⟨hk, rfl⟩ := Config.mem_senders.mp hsender
  exact h.allDone k hk hphase

/-- Phases between the standard senders and the return: the senders are done as before and
    a worker without senders does not get here. -/
theorem advance (hi : i < cfg.size) {p₀ p} (hp : s.phase i = p₀)
    (hinside : p₀.outside = false) (hreported : p.unreported = p₀.unreported)
    (houtside : p.outside = false)
    (hquiet : p.tearing = true → p₀.tearing = true ∨ s.group.statusPool.quiescence = true)
    (hchain : p.passed = true → (s.group.member (ringNext cfg.size i)).awake = true)
    (hfollower : p = .sleeping → i + 1 < cfg.size)
    (hclosing : ∀ k ∈ cfg.listeners i, p.closes k = true → s.closed k = true)
    (hsignalling : p.signalling + d' = p₀.signalling + d) : Inv cfg d' (s.enter i p) := by
  have hsenders := h.senders_ne_nil hi (hp ▸ hinside)
  rw [Phase.outside, or_eq_false_iff, decide_eq_false_iff_not] at houtside hinside
  refine h.enter hi hp (fun hnone => absurd hnone hsenders)
    (fun _ => h.standardDone_of_ne (hp ▸ hinside.1)) (fun hover => ?_)
    (fun hsome htearing => (hquiet htearing).elim (fun hold => h.quiet i hi hsome (hp ▸ hold)) id)
    (fun _ => hchain) hfollower hclosing ?_ hsignalling
  · rw [houtside.2] at hover
    cases hover
  · rw [hreported]

/-- Phases after the next member has been woken. -/
lemma exit (hi : i < cfg.size) {p₀ p : Phase} (hp : s.phase i = p₀)
    (hpassed : p₀.passed = true) (hexits : p.exits = true)
    (hdone : ∀ k ∈ cfg.senders i, s.loop k = .done)
    (hclosing : ∀ k ∈ cfg.listeners i, p.closes k = true → s.closed k = true) :
    Inv cfg d (s.enter i p) := by
  have houtside : p.outside = true := by rw [Phase.outside, hexits, Bool.or_true]
  obtain ⟨hreported₀, htearing, hsignalling₀⟩ := Phase.of_passed hpassed
  obtain ⟨hreported, -, hsignalling⟩ :=
    Phase.of_passed (p := p) (by rw [Phase.passed, hexits, Bool.or_true])
  refine h.enter hi hp (fun _ => houtside) (fun _ k hk _ => hdone k hk) (fun _ => hdone)
    (fun hsome _ => h.quiet i hi hsome (hp ▸ htearing))
    (fun hsome _ => h.chain i hi hsome (hp ▸ hpassed)) ?_ hclosing ?_ ?_
  · rintro rfl
    cases hexits
  · rw [hreported, hreported₀]
  · rw [hsignalling, hsignalling₀]

end

lemma goes_member [DecidableEq V] (h : Inv cfg 0 s) (hgoes : Goes cfg s (.member i) s') :
    Inv cfg 0 s' := by
  have hnothing (k : Nat) (hk : k ∈ cfg.listeners i)
    (hcloses : decide (k ∉ cfg.listeners i) = true) :
      s.closed k = true := absurd hk (of_decide_eq_true hcloses)
  cases hgoes with
  | skip hi hp hnone =>
    refine h.enter hi hp (fun _ => rfl) ?_ ?_ (absurd hnone) (absurd hnone) nofun hnothing
      (by simp [hnone]) rfl
    · rw [hnone]
      exact fun _ => nofun
    · rw [hnone]
      exact fun _ => nofun
  | exhausted hi hp hsome hdone =>
    exact h.enter hi hp (fun hnone => absurd hnone hsome) (fun _ => hdone) nofun nofun nofun nofun
      nofun rfl rfl
  | report hi hp => exact h.report hi hp
  | decrement hi hp =>
    apply Inv.dec (s := s.enter i .awaitingReady)
    exact h.advance hi hp rfl rfl rfl nofun nofun nofun nofun rfl
  | passReady hi hp hready => exact h.advance hi hp rfl rfl rfl nofun nofun nofun nofun rfl
  | lead hi hp hquiet hleader =>
    exact h.advance hi hp rfl rfl rfl (fun _ => .inr (h.quiescence_of_passes hi hquiet)) nofun nofun
      hnothing rfl
  | sleep hi hp hquiet hleader =>
    have hlast : i + 1 ≠ cfg.size := by
      intro hlast
      rw [(h.leader_iff hi).mpr hlast] at hleader
      cases hleader
    exact h.advance hi hp rfl rfl rfl (fun _ => .inr (h.quiescence_of_passes hi hquiet)) nofun
      (fun _ => by omega) nofun rfl
  | woken hi hp hawake =>
    exact h.advance hi hp rfl rfl rfl (fun _ => .inl rfl) nofun nofun hnothing rfl
  | cleanup hi hp =>
    exact (h.close _).advance hi hp rfl rfl rfl (fun _ => .inl rfl) nofun nofun
      (h.closed_close_of_closes hp fun _ => rfl) rfl
  | cleaned hi hp =>
    exact h.advance hi hp rfl rfl rfl (fun _ => .inl rfl) nofun nofun
      (fun k hk _ => h.closed_of_closes hp k hk rfl) rfl
  | wake hi hp =>
    have hnext : s.group.next i = ringNext cfg.size i := (h.ring i hi).1
    refine (h.wake (s.group.next i)).advance hi hp rfl rfl rfl (fun _ => .inl rfl)
      (fun _ => ?_) nofun
      (fun k hk _ => h.closed_of_closes hp k hk rfl) rfl
    rw [hnext]
    exact congrArg Membership.awake CycleGroup.member_wake_self
  | joinAll hi hp hdone =>
    refine h.exit hi hp rfl rfl (fun k hk => ?_) hnothing
    cases hc : cfg.cyclical k with
    | true => exact hdone k hk hc
    | false => exact h.standardDone_of_ne (by rw [hp]; nofun) k hk hc
  | leave hi hp =>
    exact (h.close _).exit hi hp rfl rfl (h.allDone_of_exits (by rw [hp]; rfl))
      (h.closed_close_of_closes hp fun _ => rfl)
  | left hi hp =>
    exact h.exit hi hp rfl rfl (h.allDone_of_exits (by rw [hp]; rfl))
      fun k hk _ => h.closed_of_closes hp k hk rfl

lemma goes_loop [DecidableEq V] {move} (h : Inv cfg 0 s)
    (hgoes : Goes cfg s (.loop k move) s') : Inv cfg 0 s' := by
  cases hgoes with
  | @receive _ msg rest hk hl hq =>
    have hpop : Inv cfg (cfg.cyclical k).toNat { s with queue := update s.queue k rest } := by
      apply h.queued hk
      · rw [hl]
        nofun
      · rw [hq, length_cons, Nat.mul_add_one]
        rfl
    refine hpop.turn hk hl nofun nofun nofun ?_
    show _ * 1 + 0 = _ * 0 + _
    omega
  | exhaust hk hl hends => exact h.turn hk hl nofun nofun nofun rfl
  | giveUp hk hl hc =>
    apply Inv.settle (s := s.turn k .closing)
    refine h.turn hk hl nofun nofun nofun ?_
    show _ * 0 + _ = _ * 1 + 0
    omega
  | shut hk hl hended => exact h.turn hk hl nofun (fun _ => hended) nofun rfl
  | @drain _ _ rest hk hl hq =>
    apply Inv.settle (s := { s with queue := update s.queue k rest })
    apply h.queued hk
    · rw [hl]
      nofun
    · rw [hq, length_cons, Nat.mul_add_one]
      rfl
  | drained hk hl hq hclosed =>
    exact h.turn hk hl nofun (fun _ p hp => h.ended (k, p) ⟨hk, hp⟩ (.inl hl))
      (fun _ => ⟨hq, hclosed⟩) rfl

lemma goes_proc [DecidableEq V] {move} (h : Inv cfg 0 s)
    (hgoes : Goes cfg s (.proc q move) s') : Inv cfg 0 s' := by
  have hsound := h.sound q
  have htargets := h.targets q
  cases hgoes with
  | take hq hl hw =>
    have hturn : Inv cfg (cfg.cyclical q.1).toNat (s.turn q.1 .receiving) := by
      refine h.turn hq.1 hl nofun nofun nofun ?_
      show _ * 0 + _ = _ * 1 + 0
      omega
    refine hturn.go hq hw nofun nofun nofun ?_
    show _ * 1 + 0 + 0 = _ * 0 + 0 + _
    omega
  | retire hq hl hw | readEnd hq hw | abort hq hw | panicInterpret hq hw | panicRead hq hw =>
    exact h.go hq hw nofun nofun nofun rfl
  | @filter _ v todo kept hq hw =>
    have hgo : Inv cfg 0
        (s.go q (.filtering todo (kept ++ (preprocess (cfg.cyclical q.1) (s.seen q.1) v).1))) :=
      h.go hq hw nofun nofun nofun rfl
    exact { hgo with }
  | interpret hq hw hout => exact h.go hq hw nofun (cfg.answers_mem _ _ _ hout) nofun rfl
  | @readOld _ v rest buffer hq hw hold =>
    rw [hw] at hsound
    exact h.go hq hw nofun (fun x hx => hsound x (mem_cons_of_mem v hx)) nofun rfl
  | @readNew _ v rest buffer hq hw hnew hchunk =>
    rw [hw] at hsound
    have hgo : Inv cfg 0 (s.go q (.reading rest (buffer ++ [v]))) :=
      h.go hq hw nofun (fun x hx => hsound x (mem_cons_of_mem v hx)) nofun rfl
    exact { hgo with }
  | @readChunk _ v rest buffer hq hw hnew hchunk =>
    rw [hw] at hsound
    have hgo : Inv cfg 0
        (s.go q (.sending rest (buffer ++ [v]) (cfg.listeners (cfg.owner q.1)))) :=
      h.go hq hw nofun (fun x hx => hsound x (mem_cons_of_mem v hx))
        (fun l hl => Config.target_of_listener hl) rfl
    exact { hgo with }
  | flush hq hw => exact h.go hq hw nofun nofun (fun l hl => Config.target_of_listener hl) rfl
  | count hq hw =>
    have hinc := h.inc hq (congrArg Work.held hw)
    rw [hw] at hsound htargets
    exact hinc.go hq hw nofun hsound htargets rfl
  | sent hq hw =>
    rw [hw] at hsound
    exact h.go hq hw nofun hsound nofun rfl
  | @deliver _ rest buffer l left hq hw hopen =>
    rw [hw] at hsound htargets
    have hl := htargets l mem_cons_self
    have hgo : Inv cfg 1 (s.go q (.sending rest buffer left)) :=
      h.go hq hw nofun hsound (fun l' hl' => htargets l' (mem_cons_of_mem l hl')) rfl
    apply hgo.queued hl.1
    · intro hdone
      have hclosed := (h.drained l hl.1 hdone).2
      rw [hopen] at hclosed
      cases hclosed
    · rw [hl.2]
      show 1 * (s.queue l ++ [buffer]).length + 0 = 1 * (s.queue l).length + 1
      rw [length_append, length_singleton]
      omega
  | @fail _ rest buffer l left hq hw hc =>
    rw [hw] at hsound htargets
    have hl := htargets l mem_cons_self
    apply Inv.settle (s := s.go q (.sending rest buffer left))
    refine h.go hq hw nofun hsound (fun l' hl' => htargets l' (mem_cons_of_mem l hl')) ?_
    rw [hl.2]
    rfl
  | @finish _ panicked hq hw =>
    apply Inv.settle (s := s.go q (if panicked then .ended else .idle))
    apply h.go hq hw nofun
    · cases panicked <;> nofun
    · cases panicked <;> nofun
    · have hweight : (if panicked then Work.ended else .idle : Work V).weight
          (cfg.cyclical q.1) = 0 := by
        cases panicked <;> rfl
      rw [hweight]
      show 0 + _ = _ * 1 + 0 + 0
      omega

theorem goes [DecidableEq V] {a} (h : Inv cfg 0 s) (hgoes : Goes cfg s a s') :
    Inv cfg 0 s' := by
  cases a with
  | cancel =>
    cases hgoes
    exact { h with }
  | member i => exact h.goes_member hgoes
  | loop k move => exact h.goes_loop hgoes
  | proc q move => exact h.goes_proc hgoes

theorem run [DecidableEq V] {acts} (hrun : Lts.run (step cfg) cfg.start acts = some s) :
    Inv cfg 0 s :=
  Lts.run_invariant' (fun _ _ _ h hstep => h.goes (goes_of_step hstep)) start hrun

end Inv

/-! ## What quiescence means -/

/-- Every member has exhausted its standard senders. -/
def Exhausted (cfg : Config V) (s : State V) : Prop :=
  ∀ k < cfg.links, cfg.cyclical k = false → s.loop k = .done ∧ s.queue k = []

/-- No message that was sent on a cyclical edge is queued, offered to the processors or
    being processed. -/
def Processed (cfg : Config V) (s : State V) : Prop :=
  ∀ k < cfg.links, cfg.cyclical k = true → s.queue k = [] ∧ (∀ msg, s.loop k ≠ .offering msg) ∧
    ∀ p < cfg.numProcs, s.work (k, p) = .idle ∨ s.work (k, p) = .ended

namespace Inv

variable {d i k : Nat} {q : ProcId}

/-- After quiescence nothing is counted any more. -/
lemma unsettled_eq_zero (h : Inv cfg 0 s) (hsize : 0 < cfg.size)
    (hquiescence : s.group.statusPool.quiescence = true) : unsettled cfg s = 0 := by
  have hzero := (h.quiescence hsize).mp hquiescence
  rw [h.count] at hzero
  omega

theorem exhausted (h : Inv cfg 0 s) (hquiescence : s.group.statusPool.quiescence = true) :
    Exhausted cfg s := by
  intro k hk hc
  have howner := cfg.owner_lt k hk
  have hzero := h.unsettled_eq_zero (Nat.zero_lt_of_lt howner) hquiescence
  have hstandard : s.phase (cfg.owner k) ≠ .standard := by
    intro hphase
    have hpool := h.reported _ howner
    rw [hphase, Phase.unreported, Bool.true_or] at hpool
    have hle :=
      List.le_sum_of_mem (List.mem_map_of_mem (f := Bool.toNat) (List.mem_of_getElem? hpool))
    rw [Bool.toNat_true] at hle
    unfold unsettled at hzero
    omega
  have hdone := h.standardDone k hk hc hstandard
  exact ⟨hdone, (h.drained k hk hdone).1⟩

theorem processed (h : Inv cfg 0 s) (hquiescence : s.group.statusPool.quiescence = true) :
    Processed cfg s := by
  intro k hk hc
  have hzero := h.unsettled_eq_zero (Nat.zero_lt_of_lt (cfg.owner_lt k hk)) hquiescence
  have hqueue : (cfg.cyclical k).toNat * (s.queue k).length ≤ _ :=
    Finset.single_le_sum (f := fun k => (cfg.cyclical k).toNat * (s.queue k).length)
      (fun _ _ => Nat.zero_le _) (Finset.mem_range.mpr hk)
  have hloop : (cfg.cyclical k).toNat * (s.loop k).offered ≤ _ :=
    Finset.single_le_sum (f := fun k => (cfg.cyclical k).toNat * (s.loop k).offered)
      (fun _ _ => Nat.zero_le _) (Finset.mem_range.mpr hk)
  rw [hc, toNat_true, Nat.one_mul] at hqueue hloop
  refine ⟨?_, ?_, ?_⟩
  · apply eq_nil_of_length_eq_zero
    unfold unsettled at hzero
    omega
  · intro msg hoffering
    rw [hoffering, Loop.offered] at hloop
    unfold unsettled at hzero
    omega
  · intro p hp
    have hq : cfg.HasProc (k, p) := ⟨hk, hp⟩
    cases hw : s.work (k, p) with
    | idle => exact .inl rfl
    | ended => exact .inr rfl
    | _ =>
      have hpos := h.unsettled_pos_of_held hq (by rw [hw]; rfl)
      omega

lemma quiescence_goes [DecidableEq V] {a}
    (hquiescence : s.group.statusPool.quiescence = true) (hgoes : Goes cfg s a s') :
    s'.group.statusPool.quiescence = true := by
  have hdec : s.group.dec.statusPool.quiescence = true := by
    show (s.group.statusPool.quiescence || _) = true
    rw [hquiescence, Bool.true_or]
  have hsettle : ∀ k, (cfg.settle k s.group).statusPool.quiescence = true := by
    intro k
    unfold Config.settle
    split
    · exact hdec
    · exact hquiescence
  cases hgoes
  case report i hi hp =>
    show (s.group.statusPool.set i).quiescence = true
    unfold StatusPool.set
    split
    · exact hquiescence
    · exact hquiescence
  case decrement => exact hdec
  case giveUp => exact hsettle _
  case drain => exact hsettle _
  case fail => exact hsettle _
  case finish => exact hsettle _
  all_goals exact hquiescence

/-- After quiescence no message is sent on a cyclical edge. -/
lemma no_delivery [DecidableEq V] {later} (h : Inv cfg 0 s)
    (hquiescence : s.group.statusPool.quiescence = true)
    (hrun : Lts.run (step cfg) s later = some s') : ∀ q, .proc q .deliver ∉ later := by
  induction later generalizing s with
  | nil => nofun
  | cons a later ih =>
    obtain ⟨m, hm, hrest⟩ := Lts.run_cons_eq_some.mp hrun
    have hgoes := goes_of_step hm
    intro q hmem
    rcases mem_cons.mp hmem with heq | hlater
    · subst heq
      cases hgoes with
      | deliver hq hw hopen =>
        have hpos := h.unsettled_pos_of_held hq (by rw [hw]; rfl)
        have hzero := h.unsettled_eq_zero (size_pos hq) hquiescence
        omega
    · exact ih (h.goes hgoes) (quiescence_goes hquiescence hgoes) hrest q hlater

end Inv

end OpenFGA.Pipeline.BasicGroup
