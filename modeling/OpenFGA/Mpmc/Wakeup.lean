/-
  The wake-up channels of `internal/containers/mpmc/queue.go`.

  A `Send` that finds the ring full and a `Recv` that finds it empty release the lock and
  wait for a token on `full` or `empty`.  A call that went through offers a token to the
  other side, and the offer is dropped when the channel holds one already.  Rounds through
  the loop of a call are single steps, since a round decides under the lock; the contexts
  are live.  A call that has decided to wait counts as parked before it reaches the
  `select`: a token that comes in between stays in the channel.
-/

import OpenFGA.Lib.Run
import OpenFGA.Lib.Tasks
import OpenFGA.Mpmc.Queue

namespace OpenFGA.Mpmc
open List Option

/-- A running call. -/
inductive Call (α : Type) where
  | send (item : α)
  /-- It found the ring full with this capacity and is about to extend it. -/
  | extending (item : α) (capacity : Nat)
  | sendParked (item : α)
  | recv
  | recvParked

structure State (α : Type) where
  queue : Queue α
  /-- The channel `full` holds a token. -/
  full : Bool
  /-- The channel `empty` holds a token. -/
  empty : Bool
  calls : List (Call α)

inductive Act (α : Type) where
  /-- A goroutine calls `Send`. -/
  | send (item : α)
  /-- A goroutine calls `Recv`. -/
  | recv
  | close
  /-- A call takes its next step. -/
  | go (i : Nat)

namespace Call
variable {α : Type}

@[simp] def sendAwake : Call α → Nat
  | .send _ | .extending _ _ => 1
  | _ => 0

@[simp] def sendWaits : Call α → Nat
  | .sendParked _ => 1
  | _ => 0

@[simp] def recvAwake : Call α → Nat
  | .recv => 1
  | _ => 0

@[simp] def recvWaits : Call α → Nat
  | .recvParked => 1
  | _ => 0

end Call

/-- `Send` may still double the buffer. -/
def Queue.extensible {α : Type} (q : Queue α) : Prop :=
  q.extensions < 0 ∨ q.extended < q.extensions

instance {α : Type} (q : Queue α) : Decidable q.extensible := inferInstanceAs (Decidable (_ ∨ _))

namespace State

variable {α : Type}

/-- A new queue that nobody uses yet. -/
def start (q : Queue α) : State α := ⟨q, false, false, []⟩

/-- The call goes on as another one, or ends. -/
def become (s : State α) (i : Nat) (calls : List (Call α)) : State α :=
  { s with calls := Tasks.become s.calls i calls }

section
variable [Inhabited α]

def go (s : State α) (i : Nat) : Call α → Option (State α)
  | .send item =>
    let q := s.queue
    let cell := q.data (q.mask q.head)
    if q.done then some (s.become i [])
    else if cell.sequence = q.head then
      some ({ s with queue := (q.send false item).1, empty := true }.become i [])
    else if cell.sequence < q.head then
      if q.extensible then some (s.become i [.extending item q.capacity])
      else some (s.become i [.sendParked item])
    else some s
  | .extending item capacity =>
    let q := s.queue
    if capacity = q.capacity ∧ q.done = false then
      some ({ s with queue := q.extend (q.capacity <<< 1) }.become i [.send item])
    else some (s.become i [.send item])
  | .sendParked item =>
    -- a closed channel answers at once
    if s.full || s.queue.done then some ({ s with full := false }.become i [.send item]) else none
  | .recv =>
    match s.queue.recv false with
    | (q, .received (some _)) =>
      some ({ s with queue := q, full := s.full || !q.done }.become i [])
    | (_, .received none) => some (s.become i [])
    | (_, .parked) => some (s.become i [.recvParked])
    | _ => some s
  | .recvParked =>
    if s.empty || s.queue.done then some ({ s with empty := false }.become i [.recv]) else none

def step (s : State α) : Act α → Option (State α)
  | .send item => some { s with calls := s.calls ++ [.send item] }
  | .recv => some { s with calls := s.calls ++ [.recv] }
  | .close => some { s with queue := (s.queue.step .close).1 }
  | .go i => s.calls[i]?.bind (s.go i)

end

/-- How many calls are of a kind. -/
def count (s : State α) (kind : Call α → Nat) : Nat := (s.calls.map kind).sum

/-- No token that somebody waits for is dropped: where a call goes through while the channel
    holds a token and calls of the other side are parked, the values (the free slots) that
    were there before are no more than the calls of the other side that are awake. -/
def Heard (s : State α) : Act α → Prop
  | .go i =>
    match s.calls[i]? with
    | some (.send _) => s.empty = true → 0 < s.count Call.recvWaits →
        s.queue.size < s.queue.capacity → s.queue.size ≤ s.count Call.recvAwake
    | some .recv => s.full = true → 0 < s.count Call.sendWaits →
        0 < s.queue.size → s.queue.capacity - s.queue.size ≤ s.count Call.sendAwake
    | _ => True
  | _ => True

/-! ## The invariant -/

/-- What holds until the queue is closed. -/
structure Open (s : State α) : Prop where
  ring : s.queue.Ring
  live : s.queue.done = false
  /-- Where receivers are parked, each value has a token or a receiver that is awake. -/
  recv : 0 < s.count Call.recvWaits → s.queue.size ≤ s.count Call.recvAwake + s.empty.toNat
  /-- Where senders are parked, each free slot has a token or a sender that is awake. -/
  send : 0 < s.count Call.sendWaits →
    s.queue.capacity - s.queue.size ≤ s.count Call.sendAwake + s.full.toNat
  exhausted : 0 < s.count Call.sendWaits → ¬ s.queue.extensible
  extending : ∀ item capacity, .extending item capacity ∈ s.calls →
    capacity ≤ s.queue.capacity ∧ (capacity = s.queue.capacity → s.queue.extensible)

section
variable {s s' : State α} {i : Nat} {c : Call α} {q : Queue α} {item : α}

lemma le_count (hc : s.calls[i]? = some c) (kind : Call α → Nat) : kind c ≤ s.count kind :=
  le_sum_of_mem (mem_map_of_mem (mem_of_getElem? hc))

/-- The call at `i` goes on as `calls`. -/
lemma Open.become (hc : s.calls[i]? = some c) {full empty : Bool} {calls : List (Call α)}
    (hring : q.Ring) (hlive : q.done = false)
    (hrecv : c.recvWaits < s.count Call.recvWaits + (calls.map Call.recvWaits).sum →
      q.size + c.recvAwake ≤ s.count Call.recvAwake + (calls.map Call.recvAwake).sum + empty.toNat)
    (hsend : c.sendWaits < s.count Call.sendWaits + (calls.map Call.sendWaits).sum →
      q.capacity - q.size + c.sendAwake ≤
        s.count Call.sendAwake + (calls.map Call.sendAwake).sum + full.toNat)
    (hexhausted : c.sendWaits < s.count Call.sendWaits + (calls.map Call.sendWaits).sum →
      ¬ q.extensible)
    (hextending : ∀ item capacity, .extending item capacity ∈ s.calls ∨
      .extending item capacity ∈ calls → capacity ≤ q.capacity ∧
        (capacity = q.capacity → q.extensible)) :
    (State.become ⟨q, full, empty, s.calls⟩ i calls).Open := by
  have hcount (kind : Call α → Nat) : (State.become ⟨q, full, empty, s.calls⟩ i calls).count kind +
      kind c = s.count kind + (calls.map kind).sum := Tasks.sum_become kind hc calls
  have hrw := hcount Call.recvWaits
  have hra := hcount Call.recvAwake
  have hsw := hcount Call.sendWaits
  have hsa := hcount Call.sendAwake
  refine ⟨hring, hlive, fun hpos => ?_, fun hpos => ?_, fun hpos => hexhausted (by omega),
    fun item capacity hitem => hextending item capacity (Tasks.mem_become hitem)⟩
  · have := hrecv (by omega)
    show q.size ≤ _ + empty.toNat
    omega
  · have := hsend (by omega)
    show q.capacity - q.size ≤ _ + full.toNat
    omega

variable [Inhabited α]

/-- A value is written where there is room. -/
lemma send_spec (h : q.Ring) (hlive : q.done = false) (item : α)
    (hseq : (q.data (q.mask q.head)).sequence = q.head) :
    ∃ q', (q.send false item).1 = q' ∧ q'.Ring ∧ q'.done = false ∧ q'.size = q.size + 1 ∧
      q'.capacity = q.capacity ∧ (q'.extensible ↔ q.extensible) := by
  have hroom := (h.head_sequence.resolve_right fun hr => hr.1.ne hseq).2
  refine ⟨_, rfl, ?_⟩
  rw [Queue.send, hlive, Bool.or_false, if_neg Bool.false_ne_true, Queue.sendLoop, if_pos hseq]
  exact ⟨(h.push hroom item).1, hlive, Nat.succ_sub h.tail_le, rfl, Iff.rfl⟩

/-- A value is taken where there is one. -/
lemma recv_spec (h : q.Ring) (hlive : q.done = false) :
    (∃ q' x, q.recv false = (q', .received (some x)) ∧ q'.Ring ∧ q'.done = false ∧
        q.size = q'.size + 1 ∧ q'.capacity = q.capacity ∧ (q'.extensible ↔ q.extensible)) ∨
      q.recv false = (q, .parked) ∧ q.size = 0 := by
  unfold Queue.recv
  rcases h.tail_sequence with ⟨hseq, hne⟩ | ⟨hseq, hempty⟩
  · rw [if_pos hseq]
    refine Or.inl ⟨_, _, rfl, (h.pop hne).1, hlive, ?_, rfl, Iff.rfl⟩
    show q.head - q.tail = q.head - (q.tail + 1) + 1
    rw [Queue.size] at hne
    omega
  · rw [if_neg hseq.ne, if_pos hseq, hlive, Bool.or_false, if_neg Bool.false_ne_true]
    exact Or.inr ⟨rfl, hempty⟩

/-- A doubled ring has more room. -/
lemma extend_spec (h : q.Ring) :
    (q.extend (q.capacity <<< 1)).Ring ∧ (q.extend (q.capacity <<< 1)).done = q.done ∧
      (q.extend (q.capacity <<< 1)).size = q.size ∧
      q.capacity < (q.extend (q.capacity <<< 1)).capacity := by
  have hpow := Nat.isPowerOfTwo_mul_two_of_isPowerOfTwo h.pow
  have htwo := h.two_le
  rw [Nat.shiftLeft_eq]
  refine ⟨(h.extend hpow).1, ?_⟩
  rw [Queue.extend, if_neg (by omega)]
  exact ⟨rfl, rfl, by show q.capacity < q.capacity * 2 ^ 1; omega⟩

/-- The round of a sender. -/
lemma Open.go_send (h : s.Open) (hc : s.calls[i]? = some (.send item)) (hheard : s.Heard (.go i))
    (hgo : s.go i (.send item) = some s') : s'.Open := by
  obtain ⟨hring, hlive, hrecv, hsend, hexhausted, hextending⟩ := h
  simp only [Heard, hc] at hheard
  simp only [go, hlive, Bool.false_eq_true, if_false] at hgo
  rcases hring.head_sequence with ⟨hseq, hroom⟩ | ⟨hseq, hfull⟩
  · -- the value is written, and the token offered
    obtain ⟨q', hq', hring', hlive', hsize, hcap, hext⟩ := send_spec hring hlive item hseq
    rw [if_pos hseq, hq'] at hgo
    cases hgo
    rw [← hcap] at hextending
    refine .become hc hring' hlive' (fun hpos => ?_) (fun hpos => ?_) ?_ ?_
    · -- an earlier token that is still there counts only once
      simp only [Call.recvWaits, map_nil, sum_nil, Nat.add_zero] at hpos
      cases hempty : s.empty with
      | false =>
        have := hrecv hpos
        simp [hempty] at this ⊢
        omega
      | true =>
        have := hheard hempty hpos hroom
        simp
        omega
    · simp at hpos ⊢
      have := hsend hpos
      omega
    · simpa [hext] using hexhausted
    · simpa [hext] using hextending
  · rw [if_neg hseq.ne, if_pos hseq] at hgo
    split_ifs at hgo with hext <;> cases hgo
    · refine .become hc hring hlive (by simpa using hrecv) (fun hpos => ?_)
        (by simpa using hexhausted) fun item' capacity hmem => ?_
      · rw [hfull]
        simp
        omega
      · rcases hmem with hmem | hmem
        · exact hextending item' capacity hmem
        · cases mem_singleton.mp hmem
          exact ⟨le_refl _, fun _ => hext⟩
    · -- the sender parks at a full ring, where no slot is free
      refine .become hc hring hlive (by simpa using hrecv) (fun hpos => ?_) (fun _ => hext)
        (by simpa using hextending)
      have := le_count hc Call.sendAwake
      rw [hfull]
      simp at this ⊢
      omega

/-- A sender that extends the ring: no other one is parked then. -/
lemma Open.go_extending (h : s.Open) {capacity : Nat}
    (hc : s.calls[i]? = some (.extending item capacity))
    (hgo : s.go i (.extending item capacity) = some s') : s'.Open := by
  obtain ⟨hring, hlive, hrecv, hsend, hexhausted, hextending⟩ := h
  simp only [go, hlive, and_true] at hgo
  split_ifs at hgo with hcap <;> cases hgo
  · subst hcap
    have hext := (hextending item _ (mem_of_getElem? hc)).2 rfl
    have hnone : ¬ 0 < s.count Call.sendWaits := fun hpos => hexhausted hpos hext
    obtain ⟨hring', hlive', hsize, hcap⟩ := extend_spec hring
    refine .become hc hring' (hlive'.trans hlive) (by simpa [hsize] using hrecv)
      (fun hpos => absurd (by simpa using hpos) hnone)
      (fun hpos => absurd (by simpa using hpos) hnone) fun item' capacity hmem => ?_
    -- what another sender has seen is a capacity of before
    obtain ⟨hle, -⟩ := hextending item' capacity (by simpa using hmem)
    exact ⟨by omega, fun heq => by omega⟩
  · refine .become hc hring hlive (by simpa using hrecv) (fun hpos => ?_)
      (by simpa using hexhausted) (by simpa using hextending)
    have := hsend (by simpa using hpos)
    simp
    omega

lemma Open.go_recv (h : s.Open) (hc : s.calls[i]? = some .recv) (hheard : s.Heard (.go i))
    (hgo : s.go i .recv = some s') : s'.Open := by
  obtain ⟨hring, hlive, hrecv, hsend, hexhausted, hextending⟩ := h
  simp only [Heard, hc] at hheard
  rcases recv_spec hring hlive with ⟨q', x, hq', hring', hlive', hsize, hcap, hext⟩ | ⟨hq', hempty⟩
  · simp only [go, hq', hlive', Bool.not_false, Bool.or_true] at hgo
    cases hgo
    rw [← hcap] at hextending
    have hle := hring.size_le
    refine .become hc hring' hlive' (fun hpos => ?_) (fun hpos => ?_) ?_ ?_
    · simp at hpos ⊢
      have := hrecv hpos
      omega
    · simp only [Call.sendWaits, map_nil, sum_nil, Nat.add_zero] at hpos
      cases hfull : s.full with
      | false =>
        have := hsend hpos
        simp [hfull] at this ⊢
        omega
      | true =>
        have := hheard hfull hpos (by omega)
        simp
        omega
    · simpa [hext] using hexhausted
    · simpa [hext] using hextending
  · simp only [go, hq'] at hgo
    cases hgo
    refine .become hc hring hlive (fun hpos => ?_) (by simpa using hsend)
      (by simpa using hexhausted) (by simpa using hextending)
    have := le_count hc Call.recvAwake
    simp [hempty] at this ⊢
    omega

/-- A call that takes the token of its channel. -/
lemma Open.go_parked (h : s.Open) (hc : s.calls[i]? = some c)
    (hparked : (∃ item, c = .sendParked item) ∨ c = .recvParked) (hgo : s.go i c = some s') :
    s'.Open := by
  obtain ⟨hring, hlive, hrecv, hsend, hexhausted, hextending⟩ := h
  rcases hparked with ⟨item, rfl⟩ | rfl
  · simp only [go, hlive, Bool.or_false] at hgo
    split_ifs at hgo with hfull
    cases hgo
    refine .become hc hring hlive (by simpa using hrecv) (fun hpos => ?_) (fun hpos => ?_)
      (by simpa using hextending)
    · have := hsend (by simp at hpos; omega)
      simp [hfull] at this ⊢
      omega
    · exact hexhausted (by simp at hpos; omega)
  · simp only [go, hlive, Bool.or_false] at hgo
    split_ifs at hgo with hempty
    cases hgo
    refine .become hc hring hlive (fun hpos => ?_) (by simpa using hsend)
      (by simpa using hexhausted) (by simpa using hextending)
    have := hrecv (by simp at hpos; omega)
    simp [hempty] at this ⊢
    omega

/-- Until the queue is closed, every step that drops no token somebody waits for keeps the
    invariant. -/
theorem Open.step {a : Act α} (h : s.Open) (hheard : s.Heard a) (hstep : s.step a = some s') :
    s'.queue.done = true ∨ s'.Open := by
  cases a with
  | send item =>
    cases hstep
    refine Or.inr ⟨h.ring, h.live, ?_, ?_, ?_, ?_⟩
    · simpa [count] using h.recv
    · have := h.send
      simp [count] at this ⊢
      omega
    · simpa [count] using h.exhausted
    · simpa using h.extending
  | recv =>
    cases hstep
    refine Or.inr ⟨h.ring, h.live, ?_, ?_, ?_, ?_⟩
    · have := h.recv
      simp [count] at this ⊢
      omega
    · simpa [count] using h.send
    · simpa [count] using h.exhausted
    · simpa using h.extending
  | close =>
    cases hstep
    exact Or.inl rfl
  | go i =>
    obtain ⟨c, hc, hgo⟩ := bind_eq_some_iff.mp hstep
    cases c with
    | send item => exact Or.inr (h.go_send hc hheard hgo)
    | extending item capacity => exact Or.inr (h.go_extending hc hgo)
    | sendParked item => exact Or.inr (h.go_parked hc (Or.inl ⟨item, rfl⟩) hgo)
    | recv => exact Or.inr (h.go_recv hc hheard hgo)
    | recvParked => exact Or.inr (h.go_parked hc (Or.inr rfl) hgo)

/-- A call that is awake can go on. -/
lemma exists_go (hawake : c.sendAwake ≠ 0 ∨ c.recvAwake ≠ 0) : s.go i c ≠ none := by
  cases c with
  | recv =>
    simp only [go]
    split <;> simp
  | sendParked => simp at hawake
  | recvParked => simp at hawake
  | _ =>
    simp only [go]
    split_ifs <;> simp

lemma count_eq_zero (kind : Call α → Nat) (hstuck : ∀ i, s.step (.go i) = none)
    (hkind : ∀ c : Call α, kind c ≠ 0 → c.sendAwake ≠ 0 ∨ c.recvAwake ≠ 0) : s.count kind = 0 := by
  refine sum_eq_zero fun n hn => ?_
  obtain ⟨c, hc, rfl⟩ := mem_map.mp hn
  obtain ⟨i, hi⟩ := mem_iff_getElem?.mp hc
  by_contra hne
  have := hstuck i
  rw [step, hi, bind_some] at this
  exact exists_go (hkind c hne) this

end
end State

end OpenFGA.Mpmc
