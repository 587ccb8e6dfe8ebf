/-
  The ring buffer of `internal/containers/mpmc/queue.go` as a FIFO queue.

  A slot is writable at position `pos` when its sequence is `pos` and readable when it
  is `pos + 1`; `head` and `tail` count the values written and read since the last
  extension.  `Send`, `Recv`, `Grow` and `Close` are taken as single steps here; a call
  that has to wait leaves the queue as it is and says so.  Positions are natural numbers;
  the wake-up channels are in `OpenFGA.Mpmc.Wakeup`.
-/

import Mathlib

namespace OpenFGA.Mpmc
open List Function

structure Slot (α : Type) where
  sequence : Nat
  data : α

/-- `Queue`; an index of `data` is one below `capacity`. -/
structure Queue (α : Type) where
  data : Nat → Slot α
  capacity : Nat
  extensions : Int
  extended : Nat
  done : Bool
  head : Nat
  tail : Nat

/-- A call; `cancelled` is `ctx.Err() != nil`. -/
inductive Op (α : Type) where
  | send (cancelled : Bool) (item : α)
  | recv (cancelled : Bool)
  | grow (n : Nat)
  | close

/-- What a call comes to. -/
inductive Outcome (α : Type) where
  | sent (ok : Bool)
  /-- `Recv` with `true`, or with `false` for `none`. -/
  | received (value : Option α)
  /-- The call waits on a channel. -/
  | parked
  /-- `Grow`, with `false` for `ErrInvalidCapacity`. -/
  | grown (ok : Bool)
  | closed
  /-- The call still runs through its loop. -/
  | spinning

def isPowerOfTwo (n : Nat) : Bool := 0 < n && n &&& (n - 1) == 0

namespace Queue

variable {α : Type}

def mask (q : Queue α) (value : Nat) : Nat := value &&& (q.capacity - 1)

def size (q : Queue α) : Nat := q.head - q.tail

section
variable [Inhabited α]

def newQueue (capacity : Nat) (extensions : Int) : Option (Queue α) :=
  if capacity < 2 || !isPowerOfTwo capacity then none
  else some ⟨fun i => ⟨i, default⟩, capacity, extensions, 0, false, 0, 0⟩

def extend (q : Queue α) (n : Nat) : Queue α :=
  if n ≤ q.capacity then q
  else
    { q with
      data := fun i =>
        if i < q.size then ⟨i + 1, (q.data (q.mask (q.tail + i))).data⟩ else ⟨i, default⟩
      tail := 0
      head := q.size
      extended := q.extended + 1
      capacity := n }

def grow (q : Queue α) (n : Nat) : Queue α × Outcome α :=
  if isPowerOfTwo n then (q.extend n, .grown true) else (q, .grown false)

/-- The loop of `Send`, for so many rounds. -/
def sendLoop (item : α) : Nat → Queue α → Queue α × Outcome α
  | 0, q => (q, .spinning)
  | n + 1, q =>
    let cell := q.data (q.mask q.head)
    if cell.sequence = q.head then
      ({ q with data := update q.data (q.mask q.head) ⟨q.head + 1, item⟩
                head := q.head + 1 }, .sent true)
    else if cell.sequence < q.head then
      if q.extensions < 0 ∨ q.extended < q.extensions then
        sendLoop item n (q.extend (q.capacity <<< 1))
      else (q, .parked)
    else sendLoop item n q

def send (q : Queue α) (cancelled : Bool) (item : α) : Queue α × Outcome α :=
  if q.done || cancelled then (q, .sent false) else sendLoop item 2 q

/-- `Recv`; its loop has no second round unless another receiver interferes. -/
def recv (q : Queue α) (cancelled : Bool) : Queue α × Outcome α :=
  let cell := q.data (q.mask q.tail)
  if cell.sequence = q.tail + 1 then
    ({ q with data := update q.data (q.mask q.tail) ⟨q.tail + q.capacity, default⟩
              tail := q.tail + 1 }, .received (some cell.data))
  else if cell.sequence < q.tail + 1 then
    if q.done || cancelled then (q, .received none) else (q, .parked)
  else (q, .spinning)

def step (q : Queue α) : Op α → Queue α × Outcome α
  | .send cancelled item => q.send cancelled item
  | .recv cancelled => q.recv cancelled
  | .grow n => q.grow n
  | .close => ({ q with done := true }, .closed)

/-- Run the calls one after the other. -/
def runAll (q : Queue α) : List (Op α) → Queue α × List (Op α × Outcome α)
  | [] => (q, [])
  | op :: ops =>
    let r := runAll (q.step op).1 ops
    (r.1, (op, (q.step op).2) :: r.2)

end

/-! ## The queue as a list -/

/-- The values between `tail` and `head`. -/
def contents (q : Queue α) : List α :=
  (range q.size).map fun i => (q.data (q.mask (q.tail + i))).data

/-- What a call may do to a list that is written at its end and read at its front. -/
inductive FifoStep : List α → Op α → Outcome α → List α → Prop where
  | send {xs x c} : FifoStep xs (.send c x) (.sent true) (xs ++ [x])
  | refuse {xs x c} : FifoStep xs (.send c x) (.sent false) xs
  | sendParks {xs x c} : FifoStep xs (.send c x) .parked xs
  | recv {xs x c} : FifoStep (x :: xs) (.recv c) (.received (some x)) xs
  | drained {c} : FifoStep [] (.recv c) (.received none) []
  | recvParks {c} : FifoStep [] (.recv c) .parked []
  | grow {xs n ok} : FifoStep xs (.grow n) (.grown ok) xs
  | close {xs} : FifoStep xs .close .closed xs

/-- The values for which `Send` returned true. -/
def sentValues (log : List (Op α × Outcome α)) : List α :=
  log.filterMap fun
    | (.send _ x, .sent true) => some x
    | _ => none

/-- The values that `Recv` returned. -/
def recvValues (log : List (Op α × Outcome α)) : List α :=
  log.filterMap fun
    | (_, .received v) => v
    | _ => none

lemma sentValues_cons (e : Op α × Outcome α) (log : List (Op α × Outcome α)) :
    sentValues (e :: log) = sentValues [e] ++ sentValues log :=
  filterMap_append (l := [e])

lemma recvValues_cons (e : Op α × Outcome α) (log : List (Op α × Outcome α)) :
    recvValues (e :: log) = recvValues [e] ++ recvValues log :=
  filterMap_append (l := [e])

lemma FifoStep.conserves {xs ys : List α} {op : Op α} {o : Outcome α} (h : FifoStep xs op o ys) :
    xs ++ sentValues [(op, o)] = recvValues [(op, o)] ++ ys := by
  cases h <;> simp [sentValues, recvValues]

/-- The slots between `tail` and `head` are readable, the others writable. -/
structure Ring (q : Queue α) : Prop where
  two_le : 2 ≤ q.capacity
  pow : q.capacity.isPowerOfTwo
  tail_le : q.tail ≤ q.head
  head_le : q.head ≤ q.tail + q.capacity
  readable : ∀ p, q.tail ≤ p → p < q.head → (q.data (p % q.capacity)).sequence = p + 1
  writable : ∀ p, q.head ≤ p → p < q.tail + q.capacity → (q.data (p % q.capacity)).sequence = p

section
variable {q : Queue α} {item : α} {c : Bool}

lemma mask_eq (h : q.capacity.isPowerOfTwo) (v : Nat) : q.mask v = v % q.capacity := by
  obtain ⟨k, hk⟩ := h
  rw [mask, hk, Nat.and_two_pow_sub_one_eq_mod]

/-- Positions less than a capacity apart have slots of their own. -/
lemma eq_of_mod_eq {a p p' n : Nat} (hp : a ≤ p) (hp' : p < a + n) (hq : a ≤ p') (hq' : p' < a + n)
    (h : p % n = p' % n) : p = p' := by
  have hsub : (p - p') % n = 0 := Nat.sub_mod_eq_zero_of_mod_eq h
  have hsub' : (p' - p) % n = 0 := Nat.sub_mod_eq_zero_of_mod_eq h.symm
  rw [Nat.mod_eq_of_lt (by omega)] at hsub hsub'
  omega

namespace Ring

lemma size_le (h : q.Ring) : q.size ≤ q.capacity := by
  have := h.head_le
  rw [size]
  omega

lemma contents_eq (h : q.Ring) :
    q.contents = (range q.size).map fun i => (q.data ((q.tail + i) % q.capacity)).data :=
  map_congr_left fun i _ => by rw [mask_eq h.pow]

lemma contents_eq_nil : q.contents = [] ↔ q.size = 0 := by
  simp [contents]

/-- Slots with room: the one at `head` is writable. -/
lemma head_sequence (h : q.Ring) :
    (q.data (q.mask q.head)).sequence = q.head ∧ q.size < q.capacity ∨
      (q.data (q.mask q.head)).sequence < q.head ∧ q.size = q.capacity := by
  have hle := h.head_le
  have htail := h.tail_le
  have htwo := h.two_le
  rw [mask_eq h.pow, size]
  rcases Nat.lt_or_ge q.head (q.tail + q.capacity) with hlt | hge
  · exact .inl ⟨h.writable _ (le_refl _) hlt, by omega⟩
  · -- the ring is full, and the slot still holds the value at `tail`
    have heq : q.head = q.tail + q.capacity := by omega
    have hread := h.readable q.tail (le_refl _) (by omega)
    rw [heq, Nat.add_mod_right, hread]
    omega

/-- Slots with values: the one at `tail` is readable. -/
lemma tail_sequence (h : q.Ring) :
    (q.data (q.mask q.tail)).sequence = q.tail + 1 ∧ 0 < q.size ∨
      (q.data (q.mask q.tail)).sequence < q.tail + 1 ∧ q.size = 0 := by
  have htail := h.tail_le
  have htwo := h.two_le
  rw [mask_eq h.pow, size]
  rcases Nat.lt_or_ge q.tail q.head with hlt | hge
  · exact .inl ⟨h.readable _ (le_refl _) hlt, by omega⟩
  · rw [h.writable q.tail hge (by omega)]
    omega

lemma push (h : q.Ring) (hroom : q.size < q.capacity) (item : α) :
    let q' : Queue α := { q with data := update q.data (q.mask q.head) ⟨q.head + 1, item⟩
                                 head := q.head + 1 }
    q'.Ring ∧ q'.contents = q.contents ++ [item] := by
  intro q'
  have htail := h.tail_le
  have htwo := h.two_le
  rw [size] at hroom
  have hother {p : Nat} (hp : q.tail ≤ p) (hp' : p < q.tail + q.capacity) (hne : p ≠ q.head) :
      q'.data (p % q.capacity) = q.data (p % q.capacity) := by
    refine update_of_ne (fun heq => hne ?_) _ _
    rw [mask_eq h.pow] at heq
    exact eq_of_mod_eq hp hp' htail (by omega) heq
  have hself : q'.data (q.head % q.capacity) = ⟨q.head + 1, item⟩ := by
    rw [← mask_eq h.pow]
    exact update_self ..
  have hring : q'.Ring := by
    refine ⟨htwo, h.pow, Nat.le_succ_of_le htail, ?_, fun p hp hp' => ?_, fun p hp hp' => ?_⟩
    · show q.head + 1 ≤ q.tail + q.capacity
      omega
    · rcases Nat.lt_succ_iff_lt_or_eq.mp hp' with hlt | rfl
      · rw [hother hp (by omega) hlt.ne, h.readable p hp hlt]
      · rw [hself]
    · have hp : q.head + 1 ≤ p := hp
      rw [hother (by omega) hp' (by omega), h.writable p (by omega) hp']
  refine ⟨hring, ?_⟩
  have hsize : q'.size = q.size + 1 := Nat.succ_sub htail
  rw [hring.contents_eq, h.contents_eq, hsize, range_succ, map_append, map_singleton]
  congr 1
  · refine map_congr_left fun i hi => ?_
    rw [mem_range, size] at hi
    show (q'.data ((q.tail + i) % q.capacity)).data = _
    rw [hother (by omega) (by omega) (by omega)]
  · rw [size, show q'.tail + (q.head - q.tail) = q.head from Nat.add_sub_of_le htail, hself]

variable [Inhabited α]

section
variable (h : q.Ring)
include h

lemma pop (hne : 0 < q.size) :
    let q' : Queue α :=
      { q with data := update q.data (q.mask q.tail) ⟨q.tail + q.capacity, default⟩
               tail := q.tail + 1 }
    q'.Ring ∧ q.contents = (q.data (q.mask q.tail)).data :: q'.contents := by
  intro q'
  have hhead := h.head_le
  have htwo := h.two_le
  rw [size] at hne
  have hother {p : Nat} (hp : q.tail < p) (hp' : p < q.tail + q.capacity) :
      q'.data (p % q.capacity) = q.data (p % q.capacity) := by
    refine update_of_ne (fun heq => hp.ne' ?_) _ _
    rw [mask_eq h.pow] at heq
    exact eq_of_mod_eq hp.le hp' (le_refl _) (by omega) heq
  have hself : q'.data (q.tail % q.capacity) = ⟨q.tail + q.capacity, default⟩ := by
    rw [← mask_eq h.pow]
    exact update_self ..
  have hring : q'.Ring := by
    refine ⟨htwo, h.pow, by show q.tail + 1 ≤ q.head; omega, ?_, fun p hp hp' => ?_,
      fun p hp hp' => ?_⟩
    · show q.head ≤ q.tail + 1 + q.capacity
      omega
    · have hp' : p < q.head := hp'
      rw [hother hp (by omega), h.readable p (Nat.le_of_succ_le hp) hp']
    · have hp : q.head ≤ p := hp
      have hp' : p < q.tail + 1 + q.capacity := hp'
      by_cases hlast : p = q.tail + q.capacity
      · rw [hlast, Nat.add_mod_right, hself]
      · rw [hother (by omega) (by omega), h.writable p hp (by omega)]
  refine ⟨hring, ?_⟩
  have hsize : q.size = q'.size + 1 := by
    show q.head - q.tail = q.head - (q.tail + 1) + 1
    omega
  rw [hring.contents_eq, h.contents_eq, hsize, range_succ_eq_map, map_cons, map_map,
    mask_eq h.pow]
  congr 1
  refine map_congr_left fun i hi => ?_
  have hi : i < q.head - (q.tail + 1) := mem_range.mp hi
  have hshift : q'.tail + i = q.tail + (i + 1) := by
    show q.tail + 1 + i = q.tail + (i + 1)
    omega
  rw [hshift, hother (by omega) (by omega)]
  rfl

/-- A larger buffer holds the same values in the same order. -/
lemma extend {n} (hn : n.isPowerOfTwo) :
    (q.extend n).Ring ∧ (q.extend n).contents = q.contents := by
  have hsize := h.size_le
  have htwo := h.two_le
  unfold Queue.extend
  split
  · exact ⟨h, rfl⟩
  next hlt =>
    refine ⟨⟨by show 2 ≤ n; omega, hn, Nat.zero_le _, by show q.size ≤ 0 + n; omega,
      fun p _ hp => ?_, fun p hp hp' => ?_⟩, ?_⟩
    · have hp : p < q.size := hp
      show (if p % n < q.size then Slot.mk (p % n + 1) _ else ⟨p % n, default⟩).sequence = p + 1
      rw [Nat.mod_eq_of_lt (by omega), if_pos hp]
    · have hp : q.size ≤ p := hp
      have hp' : p < 0 + n := hp'
      show (if p % n < q.size then Slot.mk (p % n + 1) _ else ⟨p % n, default⟩).sequence = p
      rw [Nat.mod_eq_of_lt (by omega), if_neg (by omega)]
    · refine map_congr_left fun i hi => ?_
      have hi : i < q.size := mem_range.mp hi
      rw [mask_eq hn]
      show (if (0 + i) % n < q.size then _ else Slot.mk ((0 + i) % n) default).data = _
      rw [Nat.zero_add, Nat.mod_eq_of_lt (show i < n by omega), if_pos hi]

/-- `Send` writes, or finds the queue closed or its context cancelled, or the ring full
    with no extension left. -/
lemma send_cases (c : Bool) (item : α) :
    (q.send c item).1.Ring ∧ (q.send c item).1.done = q.done ∧
      ((q.send c item).2 = .sent true ∧ (q.send c item).1.contents = q.contents ++ [item] ∨
        (q.send c item).2 = .sent false ∧ (q.done || c) = true ∧ (q.send c item).1 = q ∨
        (q.send c item).2 = .parked ∧ q.size = q.capacity ∧ (q.send c item).1 = q) := by
  unfold send
  split
  next hdone => exact ⟨h, rfl, .inr (.inl ⟨rfl, hdone, rfl⟩)⟩
  · rw [sendLoop]
    rcases h.head_sequence with ⟨hseq, hroom⟩ | ⟨hseq, hfull⟩
    · obtain ⟨hring, hcontents⟩ := h.push hroom item
      rw [if_pos hseq]
      exact ⟨hring, rfl, .inl ⟨rfl, hcontents⟩⟩
    · rw [if_neg hseq.ne, if_pos hseq]
      split
      · -- after the extension there is room
        have hpow : (q.capacity <<< 1).isPowerOfTwo := by
          rw [Nat.shiftLeft_eq]
          exact Nat.isPowerOfTwo_mul_two_of_isPowerOfTwo h.pow
        have htwo := h.two_le
        have hlt : ¬ q.capacity <<< 1 ≤ q.capacity := by
          rw [Nat.shiftLeft_eq]
          omega
        obtain ⟨hring, hkept⟩ := h.extend hpow
        have hsize : (q.extend (q.capacity <<< 1)).size <
            (q.extend (q.capacity <<< 1)).capacity := by
          simp only [Queue.extend, if_neg hlt]
          show q.size - 0 < q.capacity <<< 1
          omega
        have hdone : (q.extend (q.capacity <<< 1)).done = q.done := by
          simp only [Queue.extend, if_neg hlt]
        obtain ⟨hring', hcontents⟩ := hring.push hsize item
        rw [sendLoop, if_pos (hring.head_sequence.resolve_right fun hr => hsize.ne hr.2).1]
        exact ⟨hring', hdone, .inl ⟨rfl, by rw [hcontents, hkept]⟩⟩
      · exact ⟨h, rfl, .inr (.inr ⟨rfl, hfull, rfl⟩)⟩

lemma recv_cases (c : Bool) :
    (∃ x, (q.recv c).2 = .received (some x) ∧ q.contents = x :: (q.recv c).1.contents ∧
        (q.recv c).1.Ring ∧ (q.recv c).1.done = q.done) ∨
      q.contents = [] ∧ (q.recv c).1 = q ∧
        (q.recv c).2 = if q.done || c then .received none else .parked := by
  unfold recv
  rcases h.tail_sequence with ⟨hseq, hne⟩ | ⟨hseq, hempty⟩
  · obtain ⟨hring, hcontents⟩ := h.pop hne
    rw [if_pos hseq]
    exact .inl ⟨_, rfl, hcontents, hring, rfl⟩
  · rw [if_neg hseq.ne, if_pos hseq]
    refine .inr ⟨contents_eq_nil.mpr hempty, ?_⟩
    split <;> exact ⟨rfl, rfl⟩

/-- Every call acts on the contents as on a list. -/
lemma fifoStep (op : Op α) :
    (q.step op).1.Ring ∧ FifoStep q.contents op (q.step op).2 (q.step op).1.contents := by
  cases op with
  | send c item =>
    obtain ⟨hring, -, ⟨ho, hx⟩ | ⟨ho, -, hx⟩ | ⟨ho, -, hx⟩⟩ := h.send_cases c item
    · rw [step, ho, hx]
      exact ⟨hring, .send⟩
    · rw [step, ho, hx]
      exact ⟨h, .refuse⟩
    · rw [step, ho, hx]
      exact ⟨h, .sendParks⟩
  | recv c =>
    rcases h.recv_cases c with ⟨x, ho, hx, hring, -⟩ | ⟨hnil, hx, ho⟩
    · rw [step, ho, hx]
      exact ⟨hring, .recv⟩
    · rw [step, ho, hx, hnil]
      refine ⟨h, ?_⟩
      split
      · exact .drained
      · exact .recvParks
  | grow n =>
    rw [step, grow]
    split
    next hpow =>
      obtain ⟨hpos, hand⟩ := Bool.and_eq_true_iff.mp hpow
      have hne : n ≠ 0 := (of_decide_eq_true hpos).ne'
      obtain ⟨hring, hkept⟩ :=
        h.extend ((Nat.and_sub_one_eq_zero_iff_isPowerOfTwo hne).mp (beq_iff_eq.mp hand))
      rw [hkept]
      exact ⟨hring, .grow⟩
    · exact ⟨h, .grow⟩
  | close => exact ⟨⟨h.two_le, h.pow, h.tail_le, h.head_le, h.readable, h.writable⟩, .close⟩

/-- What was in the queue and what was sent is what was received and what is left. -/
lemma runAll (ops : List (Op α)) :
    (q.runAll ops).1.Ring ∧ q.contents ++ sentValues (q.runAll ops).2 =
      recvValues (q.runAll ops).2 ++ (q.runAll ops).1.contents := by
  induction ops generalizing q with
  | nil => exact ⟨h, by simp [Queue.runAll, sentValues, recvValues]⟩
  | cons op ops ih =>
    obtain ⟨hring, hstep⟩ := h.fifoStep op
    obtain ⟨hring', hrest⟩ := ih hring
    refine ⟨hring', ?_⟩
    calc q.contents ++ sentValues (q.runAll (op :: ops)).2
        = q.contents ++ sentValues [(op, (q.step op).2)] ++
            sentValues ((q.step op).1.runAll ops).2 := by
          rw [Queue.runAll, sentValues_cons, append_assoc]
      _ = recvValues [(op, (q.step op).2)] ++ ((q.step op).1.contents ++
            sentValues ((q.step op).1.runAll ops).2) := by
          rw [hstep.conserves, append_assoc]
      _ = recvValues (q.runAll (op :: ops)).2 ++ (q.runAll (op :: ops)).1.contents := by
          rw [hrest, Queue.runAll, ← append_assoc, ← recvValues_cons]

theorem drain (c : Bool) :
    recvValues (q.runAll (replicate q.size (.recv c))).2 = q.contents := by
  generalize hn : q.size = n
  induction n generalizing q with
  | zero => rw [contents_eq_nil.mpr hn]; rfl
  | succ n ih =>
    rcases h.recv_cases c with ⟨x, ho, hx, hring, -⟩ | ⟨hnil, -⟩
    · have hlen := congrArg length hx
      rw [length_cons, contents, contents, length_map, length_map, length_range,
        length_range, hn] at hlen
      rw [hx, ← ih hring (Nat.succ.inj hlen).symm, replicate_succ, Queue.runAll]
      simp [recvValues, step, ho]
    · rw [contents_eq_nil] at hnil
      omega

end

end Ring

variable [Inhabited α]

lemma ring_newQueue {capacity extensions} (h : newQueue capacity extensions = some q) :
    q.Ring ∧ q.contents = [] := by
  unfold newQueue at h
  split at h <;> cases h
  next hcap =>
    simp only [Bool.or_eq_true, decide_eq_true_eq, Bool.not_eq_true', not_or, not_lt,
      Bool.not_eq_false, isPowerOfTwo, Bool.and_eq_true, beq_iff_eq] at hcap
    obtain ⟨htwo, hpos, hand⟩ := hcap
    refine ⟨⟨htwo, (Nat.and_sub_one_eq_zero_iff_isPowerOfTwo hpos.ne').mp hand, le_refl _,
      Nat.zero_le _, fun p _ hp => absurd hp (Nat.not_lt_zero _), fun p _ hp => ?_⟩, rfl⟩
    exact Nat.mod_eq_of_lt (by simpa using hp)

/-- A new queue under any calls is a FIFO list: what was sent is what was received
    followed by what is left; the size counts the difference and stays within the
    capacity; an extension keeps the values; and a closed queue gives out what is left
    before `Recv` returns false. -/
theorem queue_refines_list {capacity : Nat} {extensions : Int} {q₀ : Queue α}
    (h : newQueue capacity extensions = some q₀) (ops : List (Op α)) :
    let q := (q₀.runAll ops).1
    let log := (q₀.runAll ops).2
    sentValues log = recvValues log ++ q.contents ∧
      q.size + (recvValues log).length = (sentValues log).length ∧ q.size ≤ q.capacity ∧
      (∀ n, isPowerOfTwo n → (q.extend n).contents = q.contents) ∧
      (∀ c, recvValues ((q.step .close).1.runAll (replicate q.size (.recv c))).2 = q.contents) ∧
      ∀ c, (q.step (.recv c)).2 = .received none → q.contents = [] := by
  intro q log
  obtain ⟨hring₀, hnil⟩ := ring_newQueue h
  obtain ⟨hring, hlog⟩ := hring₀.runAll ops
  rw [hnil, nil_append] at hlog
  refine ⟨hlog, ?_, hring.size_le, fun n hn => ?_, fun c => ?_, fun c hc => ?_⟩
  · have hlen := congrArg length hlog
    have hsize : q.contents.length = q.size := by simp [contents]
    rw [length_append, hsize] at hlen
    exact (Nat.add_comm _ _).trans hlen.symm
  · have := (hring.fifoStep (.grow n)).2
    rw [step, grow, if_pos hn] at this
    exact this.conserves.symm.trans (append_nil _)
  · exact (hring.fifoStep .close).1.drain c
  · rcases hring.recv_cases c with ⟨x, ho, -⟩ | ⟨hnil, -⟩
    · rw [step, ho] at hc
      cases hc
    · exact hnil

/-- Two values, an extension for the third while the ring is wrapped, and one receive. -/
theorem queue_refines_list_wrapped :
    ∃ q₀ : Queue Nat, newQueue 2 1 = some q₀ ∧
      let ops := [.send false 1, .send false 2, .recv false, .send false 3, .send false 4, .close]
      sentValues (q₀.runAll ops).2 = recvValues (q₀.runAll ops).2 ++ (q₀.runAll ops).1.contents ∧
        (q₀.runAll ops).1.contents = [2, 3, 4] :=
  ⟨_, rfl, (queue_refines_list (show newQueue 2 1 = some _ from rfl) _).1, by decide⟩

end
end Queue
end OpenFGA.Mpmc
