/-
  The queue of several producers and one consumer (`internal/containers/mpsc/accumulator.go`).

  A `Send` swaps its node in as the head and only then links the node before to it; the signals
  of several sends fall together; and `Close` takes the head away from sends that have read it.
-/

import OpenFGA.Lib.Run

namespace OpenFGA.Mpsc
open List

/-- What a call of `Send` does after its swap. -/
inductive Stage where
  | linking
  | signalling
  | returned
deriving DecidableEq

/-- Nodes are numbered as they become the head.  The first has no value.  The link to a node is set
    by the call that swapped it in, and kept with it. -/
structure Node (T : Type) where
  value : T
  stage : Stage

/-- What the first call of `Close` does next. -/
inductive Close where
  | opened
  | swapping
  | linking
  | signalling
  | closed
deriving DecidableEq

/-- The consumer is in no call, before the load of `Recv`, or in its select. -/
inductive Recv where
  | idle
  | loading
  | waiting
deriving DecidableEq

structure Accumulator (T : Type) where
  /-- The nodes after the first, one for each swap of a `Send`. -/
  nodes : List (Node T) := []
  /-- The calls of `Send` in their loop, and the head they have read. -/
  sends : List (T × Option Nat) := []
  close : Close := .opened
  tail : Nat := 0
  signal : Bool := false
  recv : Recv := .idle
  received : List T := []
  /-- A call has found the sentinel. -/
  ended : Bool := false

inductive Link (T : Type) where
  | nil
  | data (value : T)
  | sentinel

inductive Act (T : Type) where
  | send (value : T)
  | goSend (i : Nat)
  | goNode (n : Nat)
  | close
  | goClose
  | recv
  | load
  | signal
  | done
  | cancelled
  | tryRecv

variable {T : Type}

namespace Accumulator

variable (a : Accumulator T)

/-- `a.head.Load()`; `nil` from the swap of `Close` on. -/
def head : Option Nat :=
  if a.close = .opened ∨ a.close = .swapping then some a.nodes.length else none

/-- `a.tail.Next.Load()`. -/
def next : Link T :=
  match a.nodes[a.tail]? with
  | some x => if x.stage = .linking then .nil else .data x.value
  | none => if a.close = .signalling ∨ a.close = .closed then .sentinel else .nil

/-- A load or a swap in the loop of `Send`; with no head, it returns false. -/
def goSend (i : Nat) : T × Option Nat → Accumulator T
  | (v, none) =>
    match a.head with
    | none => { a with sends := a.sends.eraseIdx i }
    | some n => { a with sends := a.sends.set i (v, some n) }
  | (v, some n) =>
    if a.head = some n then
      { a with sends := a.sends.eraseIdx i, nodes := a.nodes ++ [⟨v, .linking⟩] }
    else { a with sends := a.sends.set i (v, none) }

/-- `currentHead.Next.Store(&head)`, then the signal. -/
def goNode (n : Nat) (x : Node T) : Accumulator T :=
  match x.stage with
  | .linking => { a with nodes := a.nodes.set n ⟨x.value, .signalling⟩ }
  | _ => { a with nodes := a.nodes.set n ⟨x.value, .returned⟩, signal := true }

def goClose : Option (Accumulator T) :=
  match a.close with
  | .swapping => some { a with close := .linking }
  | .linking => some { a with close := .signalling }
  | .signalling => some { a with close := .closed }
  | _ => none

/-- `Recv` and `TryRecv` from the load on; they differ where there is no node. -/
def load (empty : Recv) : Accumulator T :=
  match a.next with
  | .nil => { a with recv := empty }
  | .data v => { a with tail := a.tail + 1, received := a.received ++ [v], recv := .idle }
  | .sentinel => { a with recv := .idle, ended := true }

def step : Act T → Option (Accumulator T)
  | .send value => some { a with sends := a.sends ++ [(value, none)] }
  | .goSend i => a.sends[i]?.map (a.goSend i)
  | .goNode n => (a.nodes[n]?.filter (·.stage ≠ .returned)).map (a.goNode n)
  | .close => some { a with close := if a.close = .opened then .swapping else a.close }
  | .goClose => a.goClose
  | .recv => if a.recv = .idle then some { a with recv := .loading } else none
  | .load => if a.recv = .loading then some (a.load .waiting) else none
  | .signal =>
    if a.recv = .waiting ∧ a.signal then some { a with signal := false, recv := .loading } else none
  | .done =>
    if a.recv = .waiting ∧ a.close = .closed then some { a with recv := .loading } else none
  | .cancelled => if a.recv = .waiting then some { a with recv := .idle } else none
  | .tryRecv => if a.recv = .idle then some (a.load .idle) else none

end Accumulator

structure Inv (a : Accumulator T) : Prop where
  tail : a.tail ≤ a.nodes.length
  received : a.received = (a.nodes.map Node.value).take a.tail
  /-- What a waiting consumer could take has been signalled, or will be. -/
  waiting : a.recv = .waiting → ∀ x, a.nodes[a.tail]? = some x → x.stage ≠ .linking →
    a.signal = true ∨ ∃ y ∈ a.nodes, y.stage = .signalling
  ended : a.ended = true → a.tail = a.nodes.length ∧ a.head = none

variable {a a' : Accumulator T} {i n : Nat}

lemma Inv.goSend (h : Inv a) (x : T × Option Nat) : Inv (a.goSend i x) := by
  have ⟨htail, hreceived, hwaiting, hended⟩ := h
  unfold Accumulator.goSend
  split <;> split
  case h_2.isTrue => constructor <;> grind
  all_goals exact { h with }

lemma Inv.goNode (h : Inv a) {x : Node T} (hn : a.nodes[n]? = some x) : Inv (a.goNode n x) := by
  have hvalues (stage) : (a.nodes.set n ⟨x.value, stage⟩).map Node.value =
      a.nodes.map Node.value := ext_getElem? (by grind)
  have hmem (stage) : ⟨x.value, stage⟩ ∈ a.nodes.set n ⟨x.value, stage⟩ := mem_set (by grind) _
  have ⟨htail, hreceived, hwaiting, hended⟩ := h
  unfold Accumulator.goNode
  split <;> constructor <;> grind [Accumulator.head]

lemma Inv.load (h : Inv a) {empty : Recv} : Inv (a.load empty) := by
  have htake := take_add_one (l := a.nodes.map Node.value) (i := a.tail)
  have ⟨htail, hreceived, hwaiting, hended⟩ := h
  unfold Accumulator.load
  split <;> constructor <;> grind [Accumulator.next, Accumulator.head]

lemma Inv.step (act : Act T) (h : Inv a) (hstep : a.step act = some a') : Inv a' := by
  have hended := h.ended
  cases act with
  | send value =>
    cases hstep
    exact { h with }
  | goSend i =>
    obtain ⟨x, hx, rfl⟩ := Option.map_eq_some_iff.mp hstep
    exact h.goSend x
  | goNode n =>
    obtain ⟨x, hx, rfl⟩ := Option.map_eq_some_iff.mp hstep
    exact h.goNode (Option.filter_eq_some_iff.mp hx).1
  | close =>
    cases hstep
    exact { h with ended := by grind [Accumulator.head] }
  | goClose =>
    simp only [Accumulator.step, Accumulator.goClose] at hstep
    split at hstep <;> cases hstep
    all_goals exact { h with ended := by grind [Accumulator.head] }
  | load | tryRecv =>
    obtain ⟨-, hload⟩ := Option.ite_none_right_eq_some.mp hstep
    cases hload
    exact h.load
  | _ =>
    obtain ⟨-, hrecv⟩ := Option.ite_none_right_eq_some.mp hstep
    cases hrecv
    exact { h with waiting := by simp }

/-- What is received is a first part of what was sent, in the order of the swaps, and all of it once
    the end is found.  A consumer that waits while something is left is woken, if no send is on its
    way. -/
theorem accumulator_fifo {as} (hrun : Lts.run Accumulator.step ({} : Accumulator T) as = some a) :
    a.received <+: a.nodes.map Node.value ∧
    (a.ended = true → a.received = a.nodes.map Node.value ∧ a.head = none) ∧
    (a.recv = .waiting → a.received.length < a.nodes.length →
      (∀ x ∈ a.nodes, x.stage = .returned) → ∃ a', a.step .signal = some a') := by
  have ⟨htail, hreceived, hwaiting, hended⟩ : Inv a := by
    apply Lts.run_invariant' (fun a act a' => Inv.step act) _ hrun
    constructor <;> simp
  refine ⟨hreceived ▸ take_prefix _ _, by grind [take_of_length_le], fun hrecv hlt hall => ?_⟩
  have hlt : a.tail < a.nodes.length := by grind
  have hsignal := hwaiting hrecv _ (getElem?_eq_getElem hlt)
  have hsignal : a.signal = true := by grind
  exact ⟨_, if_pos ⟨hrecv, hsignal⟩⟩

/-- The consumer waits, is signalled and takes the value; after `Close` it finds the end. -/
private def waitTakeEnd : List (Act Nat) :=
  [.send 7, .goSend 0, .goSend 0, .recv, .load, .goNode 0, .goNode 0, .signal, .load,
    .close, .goClose, .goClose, .goClose, .recv, .load]

theorem accumulator_fifo_seven : ∃ a, Lts.run Accumulator.step {} waitTakeEnd = some a ∧
    a.received = [7] ∧ a.received <+: a.nodes.map Node.value ∧
    a.ended = true ∧ a.received = a.nodes.map Node.value ∧ a.head = none := by
  obtain ⟨a, hrun⟩ : ∃ a, Lts.run Accumulator.step {} waitTakeEnd = some a := ⟨_, rfl⟩
  obtain ⟨hfront, hend, -⟩ := accumulator_fifo hrun
  have ⟨hseven, hended⟩ : a.received = [7] ∧ a.ended = true := by
    cases hrun
    exact ⟨rfl, rfl⟩
  exact ⟨a, hrun, hseven, hfront, hended, hend hended⟩

end OpenFGA.Mpsc
