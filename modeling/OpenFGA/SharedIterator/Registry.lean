/-
  The registry of shared iterators
  (`pkg/storage/storagewrappers/sharediterator/shared_iterator_datastore.go`).

  `Read`, `ReadUsersetTuples` and `ReadStartingWithUser` each have a map from cache keys to
  storage items, and share a counter of the entries of all maps.  The three methods are
  the same but for the map, so a call names its map.  The counter and the maps are
  changed in separate steps, by calls and by the callbacks of two timers.

  When the producer of an iterator fails, the call that stored the item deletes it again but
  does not decrement the counter.  Otherwise the counter is right, but for the moment in which
  a callback has deleted an entry and not yet decremented: `ctr_eq_entries_iff`.
-/

import OpenFGA.Lib.Run
import OpenFGA.Lib.Tasks

namespace OpenFGA.SharedIterator.Registry
open List Option

/-- The map that an operation uses. -/
inductive Operation where
  | read
  | readUsersetTuples
  | readStartingWithUser
deriving DecidableEq, Repr

/-- `sync.Once` around the producer, and what it answered. -/
inductive Once where
  | notRun
  | running
  | produced
  | failed
deriving DecidableEq, Repr

/-- A key of one of the maps. -/
abbrev Slot (K : Type) := Operation × K

/-- `storageItem`, with the key that its cleanup deletes. -/
structure Item (K : Type) where
  slot : Slot K
  once : Once
  /-- The shared iterator was stopped. -/
  stopped : Bool
  /-- The admission timer is running. -/
  admission : Bool
  /-- The idle timer is running. -/
  idle : Bool

/-- `new(storageItem)`. -/
def Item.new {K : Type} (slot : Slot K) : Item K := ⟨slot, .notRun, false, false, false⟩

/-- A goroutine: a call in progress, or the callback of a timer. -/
inductive Task (K : Type) where
  /-- A call before it loads the counter. -/
  | load (slot : Slot K)
  | loadOrStore (slot : Slot K)
  /-- It stored its own item, and the counter is next. -/
  | add (slot : Slot K) (own : Nat)
  | unwrap (slot : Slot K) (own item : Nat)
  /-- It runs the producer. -/
  | producing (slot : Slot K) (own item : Nat)
  | clone (slot : Slot K) (own item : Nat)
  | resetIdle (item : Nat)
  /-- Unwrapping failed; it deletes its own item if that is stored. -/
  | deleteOwn (slot : Slot K) (own : Nat)
  /-- The idle timer expired. -/
  | idleExpired (item : Nat)
  | stopIter (item : Nat)
  | cleanup (item : Nat)
  | decrement

/-- `Storage`, the storage items, and the goroutines. -/
structure State (K : Type) where
  limit : Int
  ctr : Int
  /-- The entries of the three maps. -/
  entries : List (Slot K × Nat)
  items : List (Item K)
  tasks : List (Task K)

inductive Act (K : Type) where
  | call (higherConsistency : Bool) (slot : Slot K)
  /-- A goroutine goes on; `succeeds` is for the producer. -/
  | go (i : Nat) (succeeds : Bool)
  | admissionExpires (item : Nat)
  | idleExpires (item : Nat)

def start {K : Type} (limit : Int) : State K := ⟨limit, 0, [], [], []⟩

namespace State

variable {K : Type} [DecidableEq K] (s : State K)

/-- The registry is bypassed. -/
def full : Bool := s.limit = 0 || s.limit ≤ s.ctr

/-- The goroutine goes on as `new`. -/
def become (i : Nat) (new : List (Task K)) : State K :=
  { s with tasks := Tasks.become s.tasks i new }

def setItem (id : Nat) (f : Item K → Item K) : State K := { s with items := s.items.modify id f }

/-- `LoadOrStore` with a new item. -/
def loadOrStore (i : Nat) (slot : Slot K) : State K :=
  let own := s.items.length
  let items := s.items ++ [Item.new slot]
  match s.entries.lookup slot with
  | none => { s with items, entries := (slot, own) :: s.entries }.become i [.add slot own]
  | some item => { s with items }.become i [.unwrap slot own item]

def compareAndDelete (slot : Slot K) (id : Nat) : Option (State K) :=
  if s.entries.lookup slot = some id then some { s with entries := s.entries.erase (slot, id) }
  else none

/-- A step of the goroutine at `i`. -/
def go (i : Nat) (succeeds : Bool) : Task K → Option (State K)
  | .load slot => if s.full then some (s.become i []) else some (s.become i [.loadOrStore slot])
  | .loadOrStore slot => some (s.loadOrStore i slot)
  | .add slot own => some ({ s with ctr := s.ctr + 1 }.become i [.unwrap slot own own])
  | .unwrap slot own item => do
      match (← s.items[item]?).once with
      | .notRun => some ((s.setItem item fun x => { x with once := .running }).become i
          [.producing slot own item])
      -- another goroutine is inside `once.Do`
      | .running => none
      | _ => some (s.become i [.clone slot own item])
  | .producing slot own item =>
    let s := if succeeds then
        s.setItem item fun x => { x with once := .produced, admission := true, idle := true }
      else s.setItem item fun x => { x with once := .failed }
    some (s.become i [.clone slot own item])
  | .clone slot own item => do
      match (← s.items[item]?).once with
      | .failed => some (s.become i [.deleteOwn slot own])
      | _ => some (s.become i [.resetIdle item])
  | .resetIdle item => some ((s.setItem item fun x => { x with idle := true }).become i [])
  | .deleteOwn slot own => some (((s.compareAndDelete slot own).getD s).become i [])
  | .idleExpired item => do
      if (← s.items[item]?).admission then
        some ((s.setItem item fun x => { x with admission := false }).become i [.stopIter item])
      else some (s.become i [])
  | .stopIter item =>
    some ((s.setItem item fun x => { x with stopped := true }).become i [.cleanup item])
  | .cleanup item => do
      match s.compareAndDelete (← s.items[item]?).slot item with
      | some s => some (s.become i [.decrement])
      | none => some (s.become i [])
  | .decrement => some ({ s with ctr := s.ctr - 1 }.become i [])

/-- A callback is started. -/
def spawn (t : Task K) : State K := { s with tasks := s.tasks ++ [t] }

def step (s : State K) : Act K → Option (State K)
  -- a read with the preference `HIGHER_CONSISTENCY` goes to the inner reader
  | .call higherConsistency slot =>
    if higherConsistency then some s else some (s.spawn (.load slot))
  | .go i succeeds => do s.go i succeeds (← s.tasks[i]?)
  | .admissionExpires item => do
      if (← s.items[item]?).admission then
        some ((s.setItem item fun x => { x with admission := false }).spawn (.stopIter item))
      else none
  | .idleExpires item => do
      if (← s.items[item]?).idle then
        some ((s.setItem item fun x => { x with idle := false }).spawn (.idleExpired item))
      else none

end State

open State

/-! ## The balance of the counter -/

/-- A call in progress, not the callback of a timer. -/
def Task.isCall {K : Type} : Task K → Bool
  | .idleExpired _ | .stopIter _ | .cleanup _ | .decrement => false
  | _ => true

/-- What a goroutine still owes to the counter. -/
def Task.owes {K : Type} : Task K → Int
  | .add _ _ => 1
  | .decrement => -1
  | _ => 0

/-- A callback that deleted an entry and decrements the counter next. -/
def Task.decrements {K : Type} : Task K → Bool
  | .decrement => true
  | _ => false

/-- By how much the counter exceeds the number of entries, when every goroutine has paid. -/
def State.excess {K : Type} (s : State K) : Int :=
  s.ctr - s.entries.length + (s.tasks.map Task.owes).sum

section
variable {K : Type} {s : State K} {i : Nat} {t : Task K}

lemma excess_become (h : s.tasks[i]? = some t) (new : List (Task K)) :
    (s.become i new).excess = s.excess - t.owes + (new.map Task.owes).sum := by
  show s.ctr - s.entries.length + ((Tasks.become s.tasks i new).map Task.owes).sum = _
  have hsum := Tasks.sum_become Task.owes h new
  rw [excess]
  omega

lemma excess_spawn : (s.spawn t).excess = s.excess + t.owes := by
  show s.ctr - s.entries.length + ((s.tasks ++ [t]).map Task.owes).sum = _
  rw [map_append, sum_append, excess]
  simp only [map_cons, map_nil, sum_cons, sum_nil]
  omega

/-- A goroutine that neither owes nor paid goes on without changing the balance. -/
lemma excess_go_on (h : s.tasks[i]? = some t) (ht : t.owes = 0) {new}
    (hnew : (new.map Task.owes).sum = 0) : (s.become i new).excess = s.excess := by
  rw [excess_become h, ht, hnew]
  omega

/-- The callbacks that still have to decrement the counter. -/
lemma sum_owes_callbacks {tasks : List (Task K)} (h : ∀ t ∈ tasks, t.isCall = false) :
    (tasks.map Task.owes).sum = -(tasks.countP Task.decrements) := by
  induction tasks with
  | nil => rfl
  | cons t tasks ih =>
    have ht := h t mem_cons_self
    have hrest := ih fun t' ht' => h t' (mem_cons_of_mem t ht')
    rw [map_cons, sum_cons, hrest, countP_cons]
    cases t with
    | decrement =>
      simp only [Task.owes, Task.decrements, if_true]
      omega
    | idleExpired | stopIter | cleanup =>
      simp only [Task.owes, Task.decrements, Bool.false_eq_true, if_false]
      omega
    | _ => cases ht

end

section
variable {K : Type} [DecidableEq K] {s s' : State K} {i : Nat} {slot : Slot K} {id : Nat}
  {a : Act K}

/-- A call deletes the item it stored, since its producer failed. -/
def State.deletesOwn (s : State K) : Act K → Bool
  | .go i _ =>
    match s.tasks[i]? with
    | some (.deleteOwn slot own) => (s.compareAndDelete slot own).isSome
    | _ => false
  | _ => false

lemma compareAndDelete_some (h : s.compareAndDelete slot id = some s') :
    s'.tasks = s.tasks ∧ s'.excess = s.excess + 1 := by
  unfold compareAndDelete at h
  split_ifs at h with hlookup
  cases h
  refine ⟨rfl, ?_⟩
  obtain ⟨l₁, l₂, heq, -⟩ := lookup_eq_some_iff.mp hlookup
  have hmem : (slot, id) ∈ s.entries := by
    rw [heq]
    simp
  have hlen := length_erase_of_mem hmem
  have hpos := length_pos_of_mem hmem
  show s.ctr - ((s.entries.erase (slot, id)).length : Int) + (s.tasks.map Task.owes).sum =
    s.ctr - s.entries.length + (s.tasks.map Task.owes).sum + 1
  omega

lemma excess_loadOrStore (h : s.tasks[i]? = some (.loadOrStore slot)) :
    (s.loadOrStore i slot).excess = s.excess := by
  have hplain : s.excess = s.ctr - s.entries.length + (s.tasks.map Task.owes).sum := rfl
  unfold loadOrStore
  cases s.entries.lookup slot with
  | none =>
    have hbecome := excess_become
      (s := { s with items := s.items ++ [.new slot],
                      entries := (slot, s.items.length) :: s.entries })
      h [.add slot s.items.length]
    simp only [excess, Task.owes, map_cons, map_nil, sum_cons, sum_nil,
      length_cons] at hbecome hplain ⊢
    omega
  | some item => exact excess_go_on (t := .loadOrStore slot) h rfl rfl

/-- Deleting the own item adds to the excess, nothing else changes it. -/
lemma step_excess (h : s.step a = some s') :
    s'.excess = s.excess + if s.deletesOwn a then 1 else 0 := by
  cases a with
  | call higherConsistency slot =>
    rw [step] at h
    split_ifs at h
    · cases h
      exact (add_zero _).symm
    · cases h
      exact excess_spawn
  | admissionExpires item | idleExpires item =>
    obtain ⟨x, -, h⟩ := bind_eq_some_iff.mp h
    split_ifs at h
    cases h
    exact excess_spawn
  | go i succeeds =>
    obtain ⟨t, ht, h⟩ := bind_eq_some_iff.mp h
    rw [deletesOwn, ht]
    cases t with
    | load slot =>
      rw [go] at h
      split_ifs at h
      · cases h
        exact (excess_go_on ht rfl rfl).trans (add_zero _).symm
      · cases h
        exact (excess_go_on ht rfl rfl).trans (add_zero _).symm
    | loadOrStore slot =>
      cases h
      exact (excess_loadOrStore ht).trans (add_zero _).symm
    | add slot own =>
      cases h
      have hbecome := excess_become (s := { s with ctr := s.ctr + 1 }) ht [.unwrap slot own own]
      simp only [excess, Task.owes, map_cons, map_nil, sum_cons, sum_nil,
        Bool.false_eq_true, if_false] at hbecome ⊢
      omega
    | unwrap slot own item =>
      obtain ⟨x, -, h⟩ := bind_eq_some_iff.mp h
      cases honce : x.once with
      | running =>
        rw [honce] at h
        cases h
      | _ =>
        rw [honce] at h
        cases h
        exact (excess_go_on (t := .unwrap slot own item) ht rfl rfl).trans (add_zero _).symm
    | producing slot own item =>
      cases h
      cases succeeds with
      | true | false =>
        exact (excess_go_on (t := .producing slot own item) ht rfl rfl).trans (add_zero _).symm
    | clone slot own item =>
      obtain ⟨x, -, h⟩ := bind_eq_some_iff.mp h
      cases honce : x.once with
      | _ =>
        rw [honce] at h
        cases h
        exact (excess_go_on (t := .clone slot own item) ht rfl rfl).trans (add_zero _).symm
    | resetIdle item =>
      cases h
      exact (excess_go_on (t := .resetIdle item) ht rfl rfl).trans (add_zero _).symm
    | deleteOwn slot own =>
      cases h
      cases hdelete : s.compareAndDelete slot own with
      | none =>
        simp only [hdelete, getD_none, isSome_none, Bool.false_eq_true, if_false]
        exact (excess_go_on ht rfl rfl).trans (add_zero _).symm
      | some s₁ =>
        obtain ⟨htasks, hexcess⟩ := compareAndDelete_some hdelete
        rw [← htasks] at ht
        simp only [hdelete, getD_some, isSome_some, if_true]
        exact (excess_go_on ht rfl rfl).trans hexcess
    | idleExpired item =>
      obtain ⟨x, -, h⟩ := bind_eq_some_iff.mp h
      split_ifs at h
      · cases h
        exact (excess_go_on (t := .idleExpired item) ht rfl rfl).trans (add_zero _).symm
      · cases h
        exact (excess_go_on ht rfl rfl).trans (add_zero _).symm
    | stopIter item =>
      cases h
      exact (excess_go_on (t := .stopIter item) ht rfl rfl).trans (add_zero _).symm
    | cleanup item =>
      obtain ⟨x, -, h⟩ := bind_eq_some_iff.mp h
      cases hdelete : s.compareAndDelete x.slot item with
      | none =>
        rw [hdelete] at h
        cases h
        exact (excess_go_on ht rfl rfl).trans (add_zero _).symm
      | some s₁ =>
        rw [hdelete] at h
        cases h
        obtain ⟨htasks, hexcess⟩ := compareAndDelete_some hdelete
        rw [← htasks] at ht
        rw [excess_become ht, hexcess]
        simp only [Task.owes, map_cons, map_nil, sum_cons, sum_nil,
          Bool.false_eq_true, if_false]
        omega
    | decrement =>
      cases h
      have hbecome := excess_become (s := { s with ctr := s.ctr - 1 }) ht []
      simp only [excess, Task.owes, map_nil, sum_nil, Bool.false_eq_true,
        if_false] at hbecome ⊢
      omega

section
variable {limit : Int} {acts : List (Act K)} (hrun : Lts.run step (start limit) acts = some s)
include hrun

lemma excess_nonneg : 0 ≤ s.excess := by
  refine Lts.run_invariant' (I := fun s => 0 ≤ s.excess) (fun s a s' hs h => ?_)
    (Int.le_refl _) hrun
  rw [step_excess h]
  split_ifs <;> omega

/-- No call has deleted its own item. -/
lemma excess_eq_zero_iff :
    s.excess = 0 ↔ Lts.Meets step (fun s a => s.deletesOwn a = false) (start limit) acts := by
  refine Lts.iff_meets (I := fun s => s.excess = 0) (B := fun s => 1 ≤ s.excess) ?_ ?_ ?_
    (fun _ h => h) ?_ rfl hrun
  · intro s a s' hs hok h
    rw [step_excess h, hok, hs]
    rfl
  · intro s a s' hs hok h
    rw [step_excess h, if_pos (Bool.not_eq_false _ ▸ hok), hs]
    exact Int.le_refl _
  · intro s a s' hs h
    rw [step_excess h]
    split_ifs <;> omega
  · intro s hs
    omega

end

/-- When no call is in progress, the counter is the number of entries exactly if
    no call has deleted its own item and no callback is between its
    deletion and its decrement. -/
theorem ctr_eq_entries_iff (limit : Int) (acts : List (Act K)) (s : State K)
    (hrun : Lts.run step (start limit) acts = some s) (hidle : ∀ t ∈ s.tasks, t.isCall = false) :
    (s.ctr = s.entries.length ∧ (s.full = true → s.limit ≤ s.entries.length)) ↔
      Lts.Meets step (fun s a => s.deletesOwn a = false) (start limit) acts ∧
        ∀ t ∈ s.tasks, t.decrements = false := by
  have hexcess : s.excess = s.ctr - s.entries.length - s.tasks.countP Task.decrements := by
    rw [excess, sum_owes_callbacks hidle]
    omega
  have hpending : (∀ t ∈ s.tasks, t.decrements = false) ↔ s.tasks.countP Task.decrements = 0 := by
    simp only [countP_eq_zero, Bool.not_eq_true]
  rw [← excess_eq_zero_iff hrun, hpending]
  have hnonneg := excess_nonneg hrun
  constructor
  · intro h
    omega
  · intro h
    refine ⟨by omega, fun hfull => ?_⟩
    rw [full, Bool.or_eq_true, decide_eq_true_eq, decide_eq_true_eq] at hfull
    omega

end

/-- One call of `Read`, whose entry the admission timer removes. -/
private def removed : List (Act Unit) :=
  [.call false (.read, ()), .go 0 true, .go 0 true, .go 0 true, .go 0 true, .go 0 true, .go 0 true,
    .go 0 true, .admissionExpires 0, .go 0 true, .go 0 true, .go 0 true]

theorem ctr_eq_entries_iff_removed :
    ∃ s, Lts.run step (start 1) removed = some s ∧ (∀ t ∈ s.tasks, t.isCall = false) ∧
      ((s.ctr = s.entries.length ∧ (s.full = true → s.limit ≤ s.entries.length)) ↔
        Lts.Meets step (fun s a => s.deletesOwn a = false) (start 1) removed ∧
          ∀ t ∈ s.tasks, t.decrements = false) :=
  ⟨_, rfl, by decide, ctr_eq_entries_iff 1 removed _ rfl (by decide)⟩

/-- One call of `Read` whose producer fails. -/
private def failing : List (Act Unit) :=
  [.call false (.read, ()), .go 0 true, .go 0 true, .go 0 true, .go 0 true, .go 0 false, .go 0 true,
    .go 0 true]

/-- With the limit 1, the registry is bypassed from then on, and stores nothing. -/
theorem ctr_after_failed_producer :
    ∃ s, Lts.run step (start 1) failing = some s ∧ s.tasks = [] ∧ s.entries = [] ∧
      s.ctr = 1 ∧ s.full = true :=
  ⟨_, rfl, rfl, rfl, rfl, rfl⟩

end OpenFGA.SharedIterator.Registry
