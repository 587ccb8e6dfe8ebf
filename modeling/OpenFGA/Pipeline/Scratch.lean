/-
  `Basic.ProcessMessage` on an identity edge (`basic.go`, `core.go` and `edge.go` of
  `internal/listobjects/pipeline`).

  A goroutine has one scratch array for all its messages.  The preprocessor of a cyclical
  sender writes what it lets through into this array, the identity receiver reads it from
  there, and `Broadcast` collects its chunks in the same array and clears it behind them.
  The arrays are explicit here, so that a write shows in every slice of its array.

  The context is live, and no other goroutine uses the maps meanwhile.
-/

import Mathlib

namespace OpenFGA.Pipeline.Scratch
open List Function

/-- The arrays by their addresses. -/
structure Heap where
  arrays : Nat → List String
  /-- The addresses from here on are not in use. -/
  next : Nat

/-- A slice from the front of an array; its capacity is the length of the array. -/
structure Slice where
  addr : Nat
  len : Nat

namespace Heap

def read (h : Heap) (s : Slice) : List String := (h.arrays s.addr).take s.len

/-- `make([]string, n)`. -/
def make (h : Heap) (n : Nat) : Heap × Slice :=
  (⟨update h.arrays h.next (replicate n ""), h.next + 1⟩, ⟨h.next, n⟩)

/-- `append(s, value)`: in place where there is room, and into a new array otherwise. -/
def append (h : Heap) (s : Slice) (value : String) : Heap × Slice :=
  if s.len < (h.arrays s.addr).length then
    ({ h with arrays := update h.arrays s.addr ((h.arrays s.addr).set s.len value) },
      { s with len := s.len + 1 })
  else
    (⟨update h.arrays h.next (h.read s ++ [value]), h.next + 1⟩, ⟨h.next, s.len + 1⟩)

/-- `clear(s)`. -/
def clear (h : Heap) (s : Slice) : Heap :=
  { h with
    arrays := update h.arrays s.addr
      (replicate s.len "" ++ (h.arrays s.addr).drop s.len) }

end Heap

/-- The loop of `DeduplicatingProcessor.Process`; `m` holds the values seen before. -/
def process : List String → List String → Heap → Slice → List String × Heap × Slice
  | m, [], h, buffer => (m, h, buffer)
  | m, value :: values, h, buffer =>
    if value ∈ m then process m values h buffer
    else process (value :: m) values (h.append buffer value).1 (h.append buffer value).2

/-- `Broadcast` over a `DeduplicatingReceiver` whose inner receiver stands at `pos`. -/
structure Broadcast where
  heap : Heap
  output : List String
  buffer : Slice
  pos : Nat
  sent : List (List String)

namespace Broadcast

/-- `send`, which copies the chunk; then the chunk is cleared. -/
def flush (b : Broadcast) : Broadcast :=
  { b with
    heap := b.heap.clear b.buffer
    buffer := { b.buffer with len := 0 }
    sent := b.sent ++ [b.heap.read b.buffer] }

/-- Receive the next value of the slice, and append it to the chunk unless it is a duplicate. -/
def round (chunkSize : Nat) (values : Slice) (b : Broadcast) : Broadcast :=
  let value := (b.heap.arrays values.addr).getD b.pos ""
  if value ∈ b.output then { b with pos := b.pos + 1 }
  else
    let (heap, buffer) := b.heap.append b.buffer value
    let b' : Broadcast := { b with heap, buffer, pos := b.pos + 1, output := value :: b.output }
    if buffer.len = chunkSize then b'.flush else b'

/-- What is left after the last value. -/
def finish (b : Broadcast) : Broadcast := if 0 < b.buffer.len then b.flush else b

end Broadcast

/-- The scratch slice of the context, or a new one, at length 0. -/
def bufferOf (chunkSize : Nat) (scratch : Option Slice) (h : Heap) : Heap × Slice :=
  match scratch with
  | some buffer => (h, { buffer with len := 0 })
  | none => ((h.make chunkSize).1, { (h.make chunkSize).2 with len := 0 })

/-- `Basic.ProcessMessage` with the identity handler.  `dedup` is the map of the preprocessor,
    and `none` for the `IdentityProcessor`; the message has an array of its own. -/
def processMessage (chunkSize : Nat) (scratch : Option Slice) (dedup : Option (List String))
    (output : List String) (h : Heap) (msg : Slice) : Broadcast :=
  let (h, buffer) := bufferOf chunkSize scratch h
  let (h, values) :=
    match dedup with
    | none => (h, msg)
    | some m => (process m (h.read msg) h buffer).2
  let (h, buffer) := bufferOf chunkSize scratch h
  ((Broadcast.round chunkSize values)^[values.len] ⟨h, output, buffer, 0, []⟩).finish

/-- The values that a map has not seen, each of them once. -/
def fresh : List String → List String → List String
  | _, [] => []
  | seen, value :: values =>
    if value ∈ seen then fresh seen values else value :: fresh (value :: seen) values

/-! ## The preprocessor -/

section
variable {h : Heap} {s : Slice}

/-- The heap after an append in place. -/
def Heap.write (h : Heap) (s : Slice) (value : String) : Heap :=
  { h with arrays := update h.arrays s.addr (set (h.arrays s.addr) s.len value) }

lemma append_of_lt (hlt : s.len < (h.arrays s.addr).length) (value : String) :
    h.append s value = (h.write s value, { s with len := s.len + 1 }) :=
  if_pos hlt

lemma length_write (value : String) (addr : Nat) :
    ((h.write s value).arrays addr).length = (h.arrays addr).length := by
  by_cases haddr : addr = s.addr
  · simp [Heap.write, haddr]
  · simp [Heap.write, update_of_ne haddr]

lemma read_write (hlt : s.len < (h.arrays s.addr).length) (value : String) :
    (h.write s value).read { s with len := s.len + 1 } = h.read s ++ [value] := by
  show take (s.len + 1) (update h.arrays s.addr _ s.addr) = _
  rw [update_self, take_add_one, getElem?_set_self hlt,
    take_set_of_le (Nat.le_refl _)]
  rfl

/-- While the array has room, the preprocessor appends the new values in place. -/
lemma process_spec (m values : List String)
    (hroom : s.len + values.length ≤ (h.arrays s.addr).length) :
    (process m values h s).2.2 = { s with len := s.len + (fresh m values).length } ∧
      (process m values h s).2.1.read (process m values h s).2.2 = h.read s ++ fresh m values ∧
      ((process m values h s).2.1.arrays s.addr).length = (h.arrays s.addr).length ∧
      (process m values h s).2.1.next = h.next := by
  induction values generalizing m h s with
  | nil => simp [process, fresh]
  | cons value values ih =>
    rw [length_cons] at hroom
    rw [process, fresh]
    split
    · exact ih m (by omega)
    · have hlt : s.len < (h.arrays s.addr).length := by omega
      rw [append_of_lt hlt]
      have hroom' : s.len + 1 + values.length ≤ ((h.write s value).arrays s.addr).length := by
        rw [length_write]
        omega
      obtain ⟨hslice, hread, harray, hnext⟩ :=
        ih (value :: m) (s := { s with len := s.len + 1 }) hroom'
      refine ⟨?_, ?_, by rw [harray, length_write], hnext⟩
      · rw [hslice, length_cons, Nat.add_right_comm, Nat.add_assoc]
      · rw [hread, read_write hlt, append_assoc]
        rfl

end

/-! ## The broadcast -/

namespace Broadcast

/-- The chunk is written behind the reading position, so the values still to be read are in
    place; what was sent, the chunk and what is still to come make up the whole. -/
structure Inv (chunkSize : Nat) (values : Slice) (vs expected : List String) (b : Broadcast) :
    Prop where
  array : (b.heap.arrays b.buffer.addr).length = chunkSize
  behind : b.buffer.len ≤ b.pos
  inside : b.pos ≤ values.len
  unread : ∀ i, b.pos ≤ i → i < values.len → (b.heap.arrays values.addr)[i]? = vs[i]?
  total : b.sent.flatten ++ b.heap.read b.buffer ++ fresh b.output (vs.drop b.pos) = expected

section
variable {chunkSize : Nat} {values : Slice} {vs expected : List String} {b : Broadcast}

section
variable (h : Inv chunkSize values vs expected b)
include h

/-- A chunk is cleared where nothing is left to read in its array. -/
theorem Inv.flush (hroom : values.len ≤ chunkSize)
    (hpos : values.len ≤ b.pos) : Inv chunkSize values vs expected b.flush := by
  have hbehind := h.behind
  have hinside := h.inside
  have harray := h.array
  refine ⟨?_, Nat.zero_le _, hinside,
    fun i hi hlt => absurd (hpos.trans hi) (Nat.not_le.mpr hlt), ?_⟩
  · simp only [Broadcast.flush, Heap.clear, update_self, length_append,
      length_replicate, length_drop]
    omega
  · rw [← h.total]
    simp [Broadcast.flush, Heap.read]

/-- The next value is read as it was, before anything is written over it. -/
theorem Inv.round (hroom : values.len ≤ chunkSize)
    (hvs : vs.length = values.len) (hpos : b.pos < values.len) :
    Inv chunkSize values vs expected (b.round chunkSize values) ∧
      (b.round chunkSize values).pos = b.pos + 1 := by
  have hbehind := h.behind
  have harray := h.array
  have hlt : b.pos < vs.length := hvs ▸ hpos
  have hvalue : (b.heap.arrays values.addr).getD b.pos "" = vs[b.pos] := by
    rw [getD_eq_getElem?_getD, h.unread _ (le_refl _) hpos, getElem?_eq_getElem hlt]
    rfl
  have htotal := h.total
  rw [drop_eq_getElem_cons hlt, fresh] at htotal
  simp only [Broadcast.round, hvalue]
  split
  next hseen =>
    rw [if_pos hseen] at htotal
    exact ⟨⟨harray, Nat.le_succ_of_le hbehind, hpos,
      fun i hi => h.unread i (Nat.le_of_succ_le hi), htotal⟩, rfl⟩
  next hseen =>
    have hwrite : b.buffer.len < (b.heap.arrays b.buffer.addr).length := by omega
    rw [if_neg hseen] at htotal
    rw [append_of_lt hwrite]
    have hinv : Inv chunkSize values vs expected
        { b with heap := b.heap.write b.buffer vs[b.pos]
                 buffer := { b.buffer with len := b.buffer.len + 1 }
                 pos := b.pos + 1, output := vs[b.pos] :: b.output } := by
      refine ⟨?_, Nat.succ_le_succ hbehind, hpos, fun i hi hlt' => ?_, ?_⟩
      · rw [length_write]
        exact harray
      · -- the slot written is at most the one that was just read
        have hne : b.buffer.len ≠ i := by
          have : b.pos + 1 ≤ i := hi
          omega
        rw [← h.unread i (Nat.le_of_succ_le hi) hlt']
        by_cases haddr : values.addr = b.buffer.addr
        · simp [Heap.write, haddr, getElem?_set_ne hne]
        · simp [Heap.write, update_of_ne haddr]
      · rw [← htotal, read_write hwrite]
        simp
    split
    next hfull =>
      have hfull : b.buffer.len + 1 = chunkSize := hfull
      exact ⟨hinv.flush hroom (by show _ ≤ b.pos + 1; omega), rfl⟩
    · exact ⟨hinv, rfl⟩

/-- The loop reads all values and sends the new ones. -/
lemma Inv.rounds (hroom : values.len ≤ chunkSize)
    (hvs : vs.length = values.len) (n : Nat) (hn : b.pos + n = values.len) :
    ((Broadcast.round chunkSize values)^[n] b).finish.sent.flatten = expected := by
  induction n generalizing b with
  | zero =>
    have hpos : values.len ≤ b.pos := hn.ge
    have htotal := h.total
    rw [drop_of_length_le (hvs ▸ hpos), fresh, append_nil] at htotal
    rw [← htotal, iterate_zero, id, finish]
    split
    · simp [Broadcast.flush]
    next hlen => simp [Heap.read, Nat.eq_zero_of_not_pos hlen]
  | succ n ih =>
    obtain ⟨hinv, hpos⟩ := h.round hroom hvs (by omega)
    exact ih hinv (by omega)

end

lemma sent_eq {h : Heap} (output : List String) (buffer : Slice)
    (harray : (h.arrays buffer.addr).length = chunkSize) (hvalues : h.read values = vs)
    (hroom : values.len ≤ chunkSize) (hvs : vs.length = values.len) :
    ((Broadcast.round chunkSize values)^[values.len]
      ⟨h, output, { buffer with len := 0 }, 0, []⟩).finish.sent.flatten = fresh output vs := by
  refine Inv.rounds ⟨harray, le_refl _, Nat.zero_le _, fun i _ hi => ?_, ?_⟩ hroom hvs _
    (Nat.zero_add _)
  · rw [← hvalues, Heap.read, getElem?_take_of_lt hi]
  · simp [Heap.read]

end
end Broadcast

/-! ## A message -/

/-- A goroutine with a message in hand; its scratch array holds what earlier messages left. -/
def goroutine (msg scratch : List String) : Heap := ⟨fun | 0 => msg | _ => scratch, 2⟩

lemma length_fresh_le (seen values : List String) : (fresh seen values).length ≤ values.length := by
  induction values generalizing seen with
  | nil => exact Nat.le_refl _
  | cons value values ih =>
    rw [fresh]
    split
    · exact Nat.le_succ_of_le (ih seen)
    · exact Nat.succ_le_succ (ih (value :: seen))

/-- The chunks broadcast for a message are, put together, the values of the message that pass
    the preprocessor and are new to the output map; with the scratch array of the context
    and without. -/
theorem processMessage_sent (chunkSize : Nat) (dedup : Option (List String))
    (output msg scratch : List String) (shared : Bool) (hmsg : msg.length ≤ chunkSize)
    (hscratch : scratch.length = chunkSize) :
    (processMessage chunkSize (if shared then some ⟨1, 0⟩ else none) dedup output
        (goroutine msg scratch) ⟨0, msg.length⟩).sent.flatten =
      fresh output (dedup.elim msg fun m => fresh m msg) := by
  have hread : (goroutine msg scratch).read ⟨0, msg.length⟩ = msg := take_length
  cases dedup with
  | none =>
    cases shared with
    | true => exact Broadcast.sent_eq output ⟨1, 0⟩ hscratch hread hmsg rfl
    | false => exact Broadcast.sent_eq output ⟨3, 0⟩ length_replicate hread hmsg rfl
  | some m =>
    have hle := (length_fresh_le m msg).trans hmsg
    cases shared with
    | true =>
      obtain ⟨hslice, hvalues, harray, -⟩ := process_spec m msg (h := goroutine msg scratch)
        (s := ⟨1, 0⟩) (by simpa [goroutine, hscratch] using hmsg)
      simp only [processMessage, bufferOf, if_true, hread]
      refine Broadcast.sent_eq output ⟨1, 0⟩ (harray.trans hscratch) hvalues ?_ ?_
      · simpa [hslice] using hle
      · simp [hslice]
    | false =>
      -- two arrays of their own, one behind the other
      have hmade : ((goroutine msg scratch).make chunkSize).1.read ⟨0, msg.length⟩ = msg := hread
      simp only [processMessage, bufferOf, Bool.false_eq_true, if_false, hmade]
      generalize hh : ((goroutine msg scratch).make chunkSize).1 = h
      have hnew : ((goroutine msg scratch).make chunkSize).2.addr = 2 := rfl
      have harray : (h.arrays 2).length = chunkSize := by simp [← hh, Heap.make, goroutine]
      obtain ⟨hslice, hvalues, -, hnext⟩ :=
        process_spec m msg (h := h) (s := ⟨2, 0⟩) (by simpa [harray] using hmsg)
      rw [hnew]
      refine Broadcast.sent_eq output _ (by simp [Heap.make]) ?_ ?_ ?_
      · refine Eq.trans ?_ hvalues
        rw [hslice, Heap.read, Heap.read, Heap.make, hnext, ← hh]
        rfl
      · simpa [hslice] using hle
      · simp [hslice]

/-- One of the values is new to neither map, and the array has old contents. -/
theorem processMessage_sent_cyclical :
    (processMessage 4 (some ⟨1, 0⟩) (some ["b"]) ["c"]
      (goroutine ["a", "b", "a", "d"] ["v", "x", "y", "z"]) ⟨0, 4⟩).sent.flatten = ["a", "d"] :=
  processMessage_sent 4 (some ["b"]) ["c"] ["a", "b", "a", "d"] ["v", "x", "y", "z"] true
    (by decide) (by decide)

end OpenFGA.Pipeline.Scratch
