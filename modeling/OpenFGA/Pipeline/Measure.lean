/-
  No run of a cycle group goes on for ever.  The measure has three levels, compared
  lexicographically: the values that members have not emitted yet (`fresh`), the messages
  and the sends on the way (`load`), and the steps that goroutines have left until they
  wait for one of those (`toil`).

  A new value may start any number of sends, so it is paid on the first level; a message
  may be interpreted to results of any length, so it is paid on the second.
-/

import OpenFGA.Pipeline.Quiescence

namespace OpenFGA.Pipeline.BasicGroup
open List Function

universe u
variable {V : Type u} {cfg : Config V} {s s' : State V}

/-! ## The three levels -/

/-- Messages and sends on the way; `n` bounds the number of listeners. -/
def Work.load (n : Nat) : Work V → Nat
  | .filtering .. => 1
  | .reading _ (_ :: _) => 4 * n
  | .sending _ _ left => 4 * left.length
  | .counted _ _ _ left => 4 * left.length + 4
  | _ => 0

def Work.toil (n : Nat) : Work V → Nat
  | .idle => 1
  | .filtering todo _ => todo.length
  | .reading rest [] => rest.length + 3
  | .reading rest (_ :: _) => rest.length + 5 + 2 * n
  | .sending rest _ left => rest.length + 4 + 2 * left.length
  | .counted rest _ _ left => rest.length + 5 + 2 * left.length
  | .finishing _ => 2
  | .ended => 0

def Loop.toil : Loop V → Nat
  | .receiving | .offering _ => 3
  | .closing => 2
  | .draining => 1
  | .done => 0

def Phase.toil (n : Nat) : Phase → Nat
  | .standard => 2 * n + 10
  | .reporting => 2 * n + 9
  | .decrementing => 2 * n + 8
  | .awaitingReady => 2 * n + 7
  | .awaitingQuiescence => 2 * n + 6
  | .sleeping => 2 * n + 5
  | .cleaning left => n + 4 + left.length
  | .waking => n + 3
  | .recursive => n + 2
  | .leaving left => 1 + left.length
  | .returned => 0

/-- Values that the members have not emitted. -/
def fresh [DecidableEq V] (cfg : Config V) (s : State V) : Nat :=
  ∑ i ∈ Finset.range cfg.size, (cfg.results.filter (· ∉ s.outputs i)).card

def load (cfg : Config V) (s : State V) : Nat :=
  ∑ k ∈ Finset.range cfg.links, 3 * (s.queue k).length +
    ∑ k ∈ Finset.range cfg.links, 2 * (s.loop k).offered +
    ∑ q ∈ cfg.procs, (s.work q).load cfg.links

def toil (cfg : Config V) (s : State V) : Nat :=
  (!s.cancelled).toNat + ∑ i ∈ Finset.range cfg.size, (s.phase i).toil cfg.links +
    ∑ k ∈ Finset.range cfg.links, (s.loop k).toil + ∑ q ∈ cfg.procs, (s.work q).toil cfg.links

section
variable {i k : Nat} {q : ProcId}

lemma load_go (hq : cfg.HasProc q) (w : Work V) :
    load cfg (s.go q w) + (s.work q).load cfg.links = load cfg s + w.load cfg.links := by
  have hsum := Tasks.sum_update (fun _ w => Work.load cfg.links w) s.work
    (Config.mem_procs.mpr hq) w
  simp only [load, State.go]
  omega

lemma load_turn (hk : k < cfg.links) (loop : Loop V) :
    load cfg (s.turn k loop) + 2 * (s.loop k).offered = load cfg s + 2 * loop.offered := by
  have hsum := Tasks.sum_update (fun _ loop => 2 * Loop.offered loop) s.loop
    (Finset.mem_range.mpr hk) loop
  simp only [load, State.turn]
  omega

lemma load_queue (hk : k < cfg.links) (queue : List (List V)) :
    load cfg { s with queue := update s.queue k queue } + 3 * (s.queue k).length =
      load cfg s + 3 * queue.length := by
  have hsum := Tasks.sum_update (fun _ queue => 3 * length queue) s.queue
    (Finset.mem_range.mpr hk) queue
  simp only [load]
  omega

lemma toil_go (hq : cfg.HasProc q) (w : Work V) :
    toil cfg (s.go q w) + (s.work q).toil cfg.links = toil cfg s + w.toil cfg.links := by
  have hsum := Tasks.sum_update (fun _ w => Work.toil cfg.links w) s.work
    (Config.mem_procs.mpr hq) w
  simp only [toil, State.go]
  omega

lemma toil_turn (hk : k < cfg.links) (loop : Loop V) :
    toil cfg (s.turn k loop) + (s.loop k).toil = toil cfg s + loop.toil := by
  have hsum := Tasks.sum_update (fun _ loop => Loop.toil loop) s.loop (Finset.mem_range.mpr hk) loop
  simp only [toil, State.turn]
  omega

lemma toil_enter (hi : i < cfg.size) (p : Phase) :
    toil cfg (s.enter i p) + (s.phase i).toil cfg.links = toil cfg s + p.toil cfg.links := by
  have hsum := Tasks.sum_update (fun _ p => Phase.toil cfg.links p) s.phase
    (Finset.mem_range.mpr hi) p
  simp only [toil, State.enter]
  omega

/-- A value that is emitted for the first time is not fresh any more. -/
lemma fresh_emit [DecidableEq V] {v} {work : ProcId → Work V} (hi : i < cfg.size)
    (hv : v ∈ cfg.results) (hnew : v ∉ s.outputs i) :
    fresh cfg { s with outputs := update s.outputs i (v :: s.outputs i), work } <
      fresh cfg s := by
  have hsum := Tasks.sum_update (fun _ outputs => (cfg.results.filter (· ∉ outputs)).card) s.outputs
    (Finset.mem_range.mpr hi) (v :: s.outputs i)
  have hlt : (cfg.results.filter (· ∉ v :: s.outputs i)).card <
      (cfg.results.filter (· ∉ s.outputs i)).card := by
    apply Finset.card_lt_card
    rw [Finset.ssubset_iff_of_subset]
    · refine ⟨v, Finset.mem_filter.mpr ⟨hv, hnew⟩, ?_⟩
      simp
    · intro x hx
      simp only [Finset.mem_filter, mem_cons, not_or] at hx ⊢
      exact ⟨hx.1, hx.2.2⟩
  simp only [fresh]
  omega

end

lemma Config.length_listeners_le (cfg : Config V) (j : Nat) :
    (cfg.listeners j).length ≤ cfg.links := by
  have hle := length_filter_le (fun k => decide (cfg.source k = some j)) (range cfg.links)
  rw [length_range] at hle
  exact hle

/-! ## Every step decreases the measure -/

/-- The order of the three levels. -/
def Below : Nat × Nat × Nat → Nat × Nat × Nat → Prop :=
  Prod.Lex (· < ·) (Prod.Lex (· < ·) (· < ·))

lemma below_wellFounded : WellFounded Below :=
  WellFounded.prod_lex Nat.lt_wfRel.wf (WellFounded.prod_lex Nat.lt_wfRel.wf Nat.lt_wfRel.wf)

def measure [DecidableEq V] (cfg : Config V) (s : State V) : Nat × Nat × Nat :=
  (fresh cfg s, load cfg s, toil cfg s)

section
variable [DecidableEq V]

lemma below_of_load (hfresh : fresh cfg s' = fresh cfg s) (hload : load cfg s' < load cfg s) :
    Below (measure cfg s') (measure cfg s) := by
  rw [measure, hfresh]
  exact Prod.Lex.right _ (Prod.Lex.left _ _ hload)

lemma below_of_toil (hfresh : fresh cfg s' = fresh cfg s) (hload : load cfg s' ≤ load cfg s)
    (htoil : toil cfg s' < toil cfg s) : Below (measure cfg s') (measure cfg s) := by
  rcases Nat.lt_or_eq_of_le hload with hlt | heq
  · exact below_of_load hfresh hlt
  · rw [measure, hfresh, heq]
    exact Prod.Lex.right _ (Prod.Lex.right _ htoil)

variable {i k : Nat} {q : ProcId}

lemma below_enter (hi : i < cfg.size) {p₀ p} (hp : s.phase i = p₀)
    (hlt : p.toil cfg.links < p₀.toil cfg.links) :
    Below (measure cfg (s.enter i p)) (measure cfg s) := by
  have htoil := toil_enter (s := s) hi p
  rw [hp] at htoil
  apply below_of_toil
  · rfl
  · exact Nat.le_refl (load cfg s)
  · omega

lemma below_turn (hk : k < cfg.links) {loop₀ loop} (hl : s.loop k = loop₀)
    (hoffered : loop.offered = loop₀.offered) (hlt : loop.toil < loop₀.toil) :
    Below (measure cfg (s.turn k loop)) (measure cfg s) := by
  have hload := load_turn (s := s) hk loop
  have htoil := toil_turn (s := s) hk loop
  rw [hl] at hload htoil
  apply below_of_toil
  · rfl
  · omega
  · omega

lemma below_go (hq : cfg.HasProc q) {w₀ w} (hw : s.work q = w₀)
    (hload : w.load cfg.links < w₀.load cfg.links ∨
      w.load cfg.links ≤ w₀.load cfg.links ∧ w.toil cfg.links < w₀.toil cfg.links) :
    Below (measure cfg (s.go q w)) (measure cfg s) := by
  have hgo := load_go (s := s) hq w
  have htoil := toil_go (s := s) hq w
  rw [hw] at hgo htoil
  rcases hload with hlt | ⟨hle, hlt⟩
  · apply below_of_load
    · rfl
    · omega
  · apply below_of_toil
    · rfl
    · omega
    · omega

lemma below_member (hgoes : Goes cfg s (.member i) s') :
    Below (measure cfg s') (measure cfg s) := by
  have hlength := cfg.length_listeners_le i
  cases hgoes with
  | skip hi hp | exhausted hi hp | report hi hp | decrement hi hp | passReady hi hp | lead hi hp
  | sleep hi hp | woken hi hp | cleaned hi hp | wake hi hp | joinAll hi hp | left hi hp =>
    apply below_enter hi hp
    simp only [Phase.toil]
    omega
  | cleanup hi hp | leave hi hp =>
    apply below_enter hi hp
    simp only [Phase.toil, length_cons]
    omega

lemma below_loop {move} (hgoes : Goes cfg s (.loop k move) s') :
    Below (measure cfg s') (measure cfg s) := by
  cases hgoes with
  | @receive _ msg rest hk hl hq =>
    have hqueue := load_queue (s := s) hk rest
    have hturn := load_turn (s := { s with queue := update s.queue k rest }) hk
      (.offering msg)
    rw [hq, length_cons] at hqueue
    simp only [hl, Loop.offered] at hturn
    apply below_of_load
    · rfl
    · show load cfg (State.turn { s with queue := update s.queue k rest } k _) < _
      omega
  | exhaust hk hl =>
    apply below_turn hk hl
    · rfl
    · exact Nat.lt_succ_self 2
  | giveUp hk hl hc =>
    have hturn := load_turn (s := s) hk .closing
    simp only [hl, Loop.offered] at hturn
    apply below_of_load
    · rfl
    · show load cfg (s.turn k .closing) < _
      omega
  | shut hk hl =>
    apply below_turn hk hl
    · rfl
    · exact Nat.lt_succ_self 1
  | @drain _ _ rest hk hl hq =>
    have hqueue := load_queue (s := s) hk rest
    rw [hq, length_cons] at hqueue
    apply below_of_load
    · rfl
    · show load cfg { s with queue := update s.queue k rest } < _
      omega
  | drained hk hl =>
    apply below_turn hk hl
    · rfl
    · exact Nat.zero_lt_one

lemma below_proc {d move} (h : Inv cfg d s)
    (hgoes : Goes cfg s (.proc q move) s') : Below (measure cfg s') (measure cfg s) := by
  have hlength := cfg.length_listeners_le (cfg.owner q.1)
  cases hgoes with
  | @take _ msg hq hl hw =>
    have hturn := load_turn (s := s) hq.1 .receiving
    have hgo := load_go (s := s.turn q.1 .receiving) hq (.filtering msg [])
    simp only [hl, Loop.offered] at hturn
    rw [show (s.turn q.1 .receiving).work q = .idle from hw] at hgo
    simp only [Work.load] at hgo
    apply below_of_load
    · rfl
    · omega
  | retire hq hl hw =>
    apply below_go hq hw
    exact .inr ⟨Nat.le_refl 0, Nat.zero_lt_one⟩
  | filter hq hw =>
    apply below_go hq hw
    exact .inr ⟨Nat.le_refl 1, Nat.lt_succ_self _⟩
  | interpret hq hw | panicInterpret hq hw =>
    apply below_go hq hw
    exact .inl Nat.zero_lt_one
  | @readOld _ v rest buffer hq hw =>
    apply below_go hq hw
    cases buffer with
    | nil | cons =>
      simp only [Work.load, Work.toil, length_cons]
      omega
  | @readNew _ v rest buffer hq hw hnew | @readChunk _ v rest buffer hq hw hnew =>
    have hsound := h.sound q
    rw [hw] at hsound
    exact Prod.Lex.left _ _ (fresh_emit (cfg.owner_lt q.1 hq.1) (hsound v mem_cons_self) hnew)
  | flush hq hw | sent hq hw =>
    apply below_go hq hw
    simp only [Work.load, Work.toil, length_nil]
    omega
  | readEnd hq hw =>
    apply below_go hq hw
    exact .inr ⟨Nat.le_refl 0, Nat.lt_succ_self 2⟩
  | @abort _ v rest buffer hq hw =>
    apply below_go hq hw
    cases buffer with
    | nil | cons =>
      simp only [Work.load, Work.toil, length_cons, length_nil]
      omega
  | @panicRead _ rest buffer hq hw =>
    apply below_go hq hw
    cases buffer with
    | nil | cons =>
      simp only [Work.load, Work.toil]
      omega
  | count hq hw =>
    apply below_go hq hw
    simp only [Work.load, Work.toil, length_cons]
    omega
  | @deliver _ rest buffer l left hq hw hopen =>
    have htargets := h.targets q
    rw [hw] at htargets
    have hl := (htargets l mem_cons_self).1
    have hgo := load_go (s := s) hq (.sending rest buffer left)
    have hqueue := load_queue (s := s.go q (.sending rest buffer left)) hl
      (s.queue l ++ [buffer])
    rw [hw] at hgo
    simp only [Work.load] at hgo
    rw [show (s.go q (.sending rest buffer left)).queue = s.queue from rfl, length_append,
      length_singleton] at hqueue
    apply below_of_load
    · rfl
    · dsimp only
      omega
  | fail hq hw hc =>
    apply below_go hq hw
    simp only [Work.load]
    omega
  | @finish _ panicked hq hw =>
    apply below_go hq hw
    cases panicked
    · exact .inr ⟨Nat.le_refl 0, Nat.lt_succ_self 1⟩
    · exact .inr ⟨Nat.le_refl 0, Nat.zero_lt_succ 1⟩

lemma below_of_goes {d a} (h : Inv cfg d s) (hgoes : Goes cfg s a s') :
    Below (measure cfg s') (measure cfg s) := by
  cases a with
  | cancel =>
    cases hgoes with
    | cancel hc =>
      apply below_of_toil
      · rfl
      · exact Nat.le_refl (load cfg s)
      · simp only [toil, hc, Bool.not_true, Bool.not_false, Bool.toNat_true, Bool.toNat_false]
        omega
  | member i => exact below_member hgoes
  | loop k move => exact below_loop hgoes
  | proc q move => exact below_proc h hgoes

lemma Inv.no_infinite_run (h : Inv cfg 0 s) :
    ¬ ∃ f : Nat → State V, f 0 = s ∧ ∀ n, ∃ a, step cfg (f n) a = some (f (n + 1)) :=
  Lts.no_infinite_run below_wellFounded (I := Inv cfg 0)
    (fun _ _ _ h hstep => h.goes (goes_of_step hstep))
    (fun _ _ _ h hstep => below_of_goes h (goes_of_step hstep)) h

end

end OpenFGA.Pipeline.BasicGroup
