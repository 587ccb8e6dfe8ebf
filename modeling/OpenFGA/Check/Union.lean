/-
  `resolveUnion` (`internal/check/bottom_up.go`): the merge-style union of sorted
  streams of object ids.

  Each round finds the smallest head and passes it on.  Heads that equal the
  minimum found so far are taken off on the way, so an id that several streams
  yield at the same time is passed on once; an id that one stream yields twice is
  passed on twice.  A stream that fails leaves the union and its error is only
  reported after all the other streams have ended.

  One round is specified once (`unionRound_spec`) over any transitive relation
  `R` that contains `<`: with `≤` it keeps streams sorted, with `<` it keeps them
  free of repetitions.
-/

import OpenFGA.Iterator

namespace OpenFGA.Check
open List

def handleError (err : Option Err) : Bool := !iterIsDoneOrCancelled err

/-- `if batch.handleError(err) { lastError = err }`. -/
def noteError (lastError err : Option Err) : Option Err :=
  if handleError err then err else lastError

/-- `batcher.add`, before what is added later. -/
def add (val : String) (later : Iter String) : Iter String :=
  if val = "" then later else later.cons val

/-- The error is one that `handleError` accepts. -/
def Noted (lastError : Option Err) : Prop := ∀ e ∈ lastError, e.isCancellation = false

section
variable {α : Type} {lastError : Option Err}

lemma noteError_isSome (lastError : Option Err) (it : Iter α) :
    (noteError lastError it.err).isSome ↔ lastError.isSome ∨ it.failure.isSome := by
  obtain ⟨xs, _ | e⟩ := it
  · simp [noteError, handleError, iterIsDoneOrCancelled, Iter.failure]
  · cases h : e.isCancellation <;>
      simp [noteError, handleError, iterIsDoneOrCancelled, Iter.failure, h]

lemma Noted.noteError (h : Noted lastError) (err : Option Err) :
    Noted (noteError lastError err) := by
  intro e he
  unfold Check.noteError at he
  split at he
  next hreal =>
    obtain rfl := Option.mem_def.mp he
    simpa [handleError, iterIsDoneOrCancelled] using hreal
  · exact h e he

lemma Noted.failure_eq (h : Noted lastError) (xs : List α) :
    (Iter.mk xs lastError).failure = lastError := by
  cases lastError with
  | none => rfl
  | some e => simp [Iter.failure, h e rfl]

end

@[simp] lemma add_err (val : String) (later : Iter String) : (add val later).err = later.err := by
  unfold add
  split <;> rfl

lemma mem_add {x val later} :
    x ∈ (add val later).items ↔ (x = val ∧ x ≠ "") ∨ x ∈ later.items := by
  unfold add
  split
  next h =>
    subst h
    constructor
    · exact .inr
    · rintro (⟨h, h'⟩ | h)
      · exact absurd h h'
      · exact h
  next h =>
    simp only [Iter.cons_items, mem_cons]
    exact ⟨fun hx => hx.imp_left fun hx => ⟨hx, hx ▸ h⟩, fun hx => hx.imp_left And.left⟩

lemma add_sublist (val : String) (later : Iter String) :
    (add val later).items.Sublist (val :: later.items) := by
  unfold add
  split
  · exact sublist_cons_self ..
  · exact List.Sublist.refl _

/-! ## The loop -/

/-- An active stream: its index, its head in `compareValues`, and the rest. -/
structure Head where
  idx : Nat
  value : String
  iter : Iter String
deriving DecidableEq, Repr

/-- What an active stream has still to contribute. -/
def Head.pending (h : Head) : List String := h.value :: h.iter.items

def pendings (heads : List Head) : List String := heads.flatMap Head.pending

/-- Read the head of each stream. -/
def openHead (acc : List Head × Option Err) (p : Iter String × Nat) : List Head × Option Err :=
  match p.1.next with
  | .error err => (acc.1, noteError acc.2 err)
  | .ok (value, iter) => (acc.1 ++ [⟨p.2, value, iter⟩], acc.2)

/-- The variables of the scan for the smallest head. -/
structure Scan where
  /-- `minValue` and `minIndexValue`, once initialized. -/
  min : Option (String × Nat)
  /-- `newIndexes`, with the heads. -/
  kept : List Head
  lastError : Option Err
deriving DecidableEq, Repr

def scanHead (s : Scan) (h : Head) : Scan :=
  match s.min with
  | none => { s with min := some (h.value, h.idx), kept := s.kept ++ [h] }
  | some (minValue, _) =>
    if h.value < minValue then
      { s with min := some (h.value, h.idx), kept := s.kept ++ [h] }
    else if h.value = minValue then
      match h.iter.next with
      | .error err => { s with lastError := noteError s.lastError err }
      | .ok (v, it) => { s with kept := s.kept ++ [{ h with value := v, iter := it }] }
    else { s with kept := s.kept ++ [h] }

/-- Advance the stream with the smallest head. -/
def advanceMin (i : Nat) (kept : List Head) (lastError : Option Err) : List Head × Option Err :=
  match kept.find? (·.idx == i) with
  | none => (kept, lastError)
  | some h =>
    match h.iter.next with
    | .error err => (kept.filter (·.idx != i), noteError lastError err)
    | .ok (v, it) =>
      (kept.map fun h' => if h'.idx = i then { h' with value := v, iter := it } else h', lastError)

def unionLoop : Nat → List Head → Option Err → Iter String
  | 0, _, lastError => ⟨[], lastError⟩
  | n + 1, heads, lastError =>
    let s := heads.foldl scanHead ⟨none, [], lastError⟩
    match s.min with
    | none => ⟨[], s.lastError⟩
    | some (minValue, i) =>
      let next := advanceMin i s.kept s.lastError
      add minValue (unionLoop n next.1 next.2)

def resolveUnion (iters : List (Iter String)) : Iter String :=
  let opened := iters.zipIdx.foldl openHead ([], none)
  unionLoop ((pendings opened.1).length + 1) opened.1 opened.2

/-! ## One round -/

section Round

variable {R : String → String → Prop} {heads P : List Head} {s : Scan} {h : Head}
  {e₀ : Option Err} {m : String} {i : Nat}

/-- Some active stream ends with an error that is reported, or one has been noted. -/
def Reports (lastError : Option Err) (heads : List Head) : Prop :=
  lastError.isSome ∨ ∃ h ∈ heads, h.iter.failure.isSome

/-- Active streams: distinct indices, each stream in order. -/
structure Active (R : String → String → Prop) (heads : List Head) : Prop where
  nodup : (heads.map Head.idx).Nodup
  sorted : ∀ h ∈ heads, h.pending.Pairwise R

/-- After the scan has passed over the heads `P`. -/
structure ScanInv (R : String → String → Prop) (e₀ : Option Err) (P : List Head) (s : Scan) :
    Prop where
  idx : (s.kept.map Head.idx).Sublist (P.map Head.idx)
  sorted : ∀ h ∈ s.kept, h.pending.Pairwise R
  mem : ∀ x, x ∈ pendings s.kept ↔ x ∈ pendings P
  size : (pendings s.kept).length ≤ (pendings P).length
  noted : Noted e₀ → Noted s.lastError
  reports : Reports s.lastError s.kept ↔ Reports e₀ P
  empty : s.min = none → P = []
  /-- The minimum is the head of a kept stream, and stands before all the others. -/
  least : ∀ m i, s.min = some (m, i) → (∃ h ∈ s.kept, h.idx = i ∧ h.value = m) ∧
    ∀ h ∈ s.kept, h.idx ≠ i → ∀ x ∈ h.pending, R m x

@[simp] lemma pendings_append (hs hs' : List Head) :
    pendings (hs ++ hs') = pendings hs ++ pendings hs' := flatMap_append

@[simp] lemma pendings_singleton (h : Head) : pendings [h] = h.pending := by
  simp [pendings]

lemma mem_pendings {x} : x ∈ pendings heads ↔ ∃ h ∈ heads, x ∈ h.pending :=
  mem_flatMap

theorem Reports.append (l : Option Err) (hs : List Head) (h : Head) :
    Reports l (hs ++ [h]) ↔ Reports l hs ∨ h.iter.failure.isSome := by
  simp only [Reports, mem_append, mem_singleton]
  constructor
  · rintro (hl | ⟨h', h' | rfl, hf⟩)
    · exact .inl (.inl hl)
    · exact .inl (.inr ⟨_, h', hf⟩)
    · exact .inr hf
  · rintro ((hl | ⟨h', hm, hf⟩) | hf)
    · exact .inl hl
    · exact .inr ⟨h', .inl hm, hf⟩
    · exact .inr ⟨h, .inr rfl, hf⟩

lemma Reports.note (l : Option Err) (hs : List Head) (it : Iter String) :
    Reports (noteError l it.err) hs ↔ Reports l hs ∨ it.failure.isSome := by
  rw [Reports, noteError_isSome, Reports, or_right_comm]

lemma ScanInv.le (hI : ScanInv R e₀ P s) (hmin : s.min = some (m, i))
    {x} (hx : x ∈ pendings s.kept) (hnd : (P.map Head.idx).Nodup) : x = m ∨ R m x := by
  obtain ⟨⟨h₀, hmem₀, hidx₀, hval₀⟩, hrest⟩ := hI.least m i hmin
  obtain ⟨h, hmem, hx⟩ := mem_pendings.mp hx
  by_cases hi : h.idx = i
  · have hnd' := hI.idx.nodup hnd
    obtain rfl : h = h₀ := inj_on_of_nodup_map hnd' hmem hmem₀ (hi.trans hidx₀.symm)
    rcases mem_cons.mp hx with rfl | hx
    · exact .inl hval₀
    · have := rel_of_pairwise_cons (hI.sorted h hmem) hx
      rw [hval₀] at this
      exact .inr this
  · exact .inr (hrest h hmem hi x hx)

theorem ScanInv.keep (hI : ScanInv R e₀ P s) (hs : h.pending.Pairwise R)
    (hleast : (∃ h' ∈ s.kept ++ [h], h'.idx = i ∧ h'.value = m) ∧
      ∀ h' ∈ s.kept ++ [h], h'.idx ≠ i → ∀ x ∈ h'.pending, R m x) :
    ScanInv R e₀ (P ++ [h]) { s with min := some (m, i), kept := s.kept ++ [h] } where
  idx := by
    simp only [map_append]
    exact hI.idx.append (List.Sublist.refl _)
  sorted h' hh' := by
    rcases mem_append.mp hh' with hh' | hh'
    · exact hI.sorted h' hh'
    · rwa [mem_singleton.mp hh']
  mem x := by simp only [pendings_append, pendings_singleton, mem_append, hI.mem]
  size := by
    have := hI.size
    simp only [pendings_append, pendings_singleton, length_append]
    omega
  noted := hI.noted
  reports := by rw [Reports.append, Reports.append, hI.reports]
  empty hmin := by cases hmin
  least m' i' hmin := by
    cases hmin
    exact hleast

/-- The scan takes off a head that equals the minimum and keeps the rest of its
    stream, if there is any. -/
lemma ScanInv.pop (hI : ScanInv R e₀ P s) (hs : h.pending.Pairwise R)
    (hmin : s.min = some (m, i)) (hval : h.value = m) :
    ScanInv R e₀ (P ++ [h]) (match h.iter.next with
      | .error err => { s with lastError := noteError s.lastError err }
      | .ok (v, it) => { s with kept := s.kept ++ [{ h with value := v, iter := it }] }) := by
  obtain ⟨⟨h₀, hmem₀, hidx₀, hval₀⟩, hrest⟩ := hI.least m i hmin
  -- the id that is taken off is still held by the stream of the minimum
  have hm : m ∈ pendings P := by
    rw [← hI.mem]
    exact mem_pendings.mpr ⟨h₀, hmem₀, by simp [Head.pending, hval₀]⟩
  have hsize := hI.size
  obtain ⟨hvs, htail⟩ := pairwise_cons.mp hs
  obtain ⟨j, v, items, err⟩ := h
  obtain rfl : v = m := hval
  cases items with
  | nil =>
    show ScanInv R e₀ _ { s with lastError := noteError s.lastError err }
    refine ⟨?_, hI.sorted, fun x => ?_, ?_, fun h => (hI.noted h).noteError _, ?_, ?_, hI.least⟩
    · rw [map_append]
      exact hI.idx.trans (sublist_append_left _ _)
    · rw [hI.mem, pendings_append, pendings_singleton, mem_append]
      refine ⟨.inl, fun h => h.elim id fun hx => ?_⟩
      rwa [mem_singleton.mp hx]
    · rw [pendings_append, length_append]
      exact Nat.le_add_right_of_le hsize
    · rw [Reports.append, ← hI.reports]
      exact Reports.note s.lastError s.kept ⟨[], err⟩
    · intro h
      rw [hmin] at h
      cases h
  | cons w ws =>
    show ScanInv R e₀ _ { s with kept := s.kept ++ [⟨j, w, ws, err⟩] }
    refine ⟨?_, ?_, fun x => ?_, ?_, hI.noted, ?_, ?_, ?_⟩
    · simp only [map_append]
      exact hI.idx.append (List.Sublist.refl _)
    · intro h' hh'
      rcases mem_append.mp hh' with hh' | hh'
      · exact hI.sorted h' hh'
      · rw [mem_singleton.mp hh']
        exact htail
    · simp only [pendings_append, pendings_singleton, mem_append, hI.mem]
      refine or_congr_right' fun hx => ?_
      refine ⟨mem_cons_of_mem _, fun h => (mem_cons.mp h).resolve_left ?_⟩
      rintro rfl
      exact hx hm
    · simp only [pendings_append, pendings_singleton, length_append, Head.pending,
        length_cons]
      omega
    · rw [Reports.append, Reports.append, hI.reports]
      exact Iff.rfl
    · intro h
      rw [show s.min = none from h] at hmin
      cases hmin
    · intro m' i' h
      rw [show s.min = some (m', i') from h] at hmin
      cases hmin
      refine ⟨⟨h₀, mem_append_left _ hmem₀, hidx₀, hval₀⟩, fun h' hh' hi' x hx => ?_⟩
      rcases mem_append.mp hh' with hh' | hh'
      · exact hrest h' hh' hi' x hx
      · rw [mem_singleton.mp hh'] at hx
        exact hvs x hx

lemma ScanInv.scanHead [IsTrans String R] (hlt : ∀ a b, a < b → R a b) (hI : ScanInv R e₀ P s)
    (hs : h.pending.Pairwise R) (hnd : (P.map Head.idx).Nodup) :
    ScanInv R e₀ (P ++ [h]) (scanHead s h) := by
  have hhead : ∀ x ∈ h.pending, x = h.value ∨ R h.value x := fun x hx =>
    (mem_cons.mp hx).imp_right fun hx => rel_of_pairwise_cons hs hx
  unfold Check.scanHead
  cases hmin : s.min with
  | none =>
    obtain rfl := hI.empty hmin
    have hkept : s.kept = [] := map_eq_nil_iff.mp (sublist_nil.mp hI.idx)
    refine hI.keep hs ⟨⟨h, by simp⟩, fun h' hh' hi' => ?_⟩
    rw [hkept, nil_append, mem_singleton] at hh'
    exact absurd (congrArg Head.idx hh') hi'
  | some p =>
    obtain ⟨m, i⟩ := p
    obtain ⟨⟨h₀, hmem₀, hidx₀, hval₀⟩, hrest⟩ := hI.least m i hmin
    simp only
    split
    next hless =>
      refine hI.keep hs ⟨⟨h, by simp⟩, fun h' hh' hi' x hx => ?_⟩
      have hh' : h' ∈ s.kept := by
        refine (mem_append.mp hh').resolve_right fun hh' => hi' ?_
        rw [mem_singleton.mp hh']
      rcases hI.le hmin (mem_pendings.mpr ⟨h', hh', hx⟩) hnd with rfl | hx
      · exact hlt _ _ hless
      · exact trans_of R (hlt _ _ hless) hx
    next hless =>
      split
      next heq =>
        have hpop := hI.pop hs hmin heq
        rwa [hmin] at hpop
      next hne =>
        have hgt : m < h.value := lt_of_le_of_ne (not_lt.mp hless) (Ne.symm hne)
        refine hI.keep hs ⟨⟨h₀, mem_append_left _ hmem₀, hidx₀, hval₀⟩,
          fun h' hh' hi' x hx => ?_⟩
        rcases mem_append.mp hh' with hh' | hh'
        · exact hrest h' hh' hi' x hx
        · rw [mem_singleton.mp hh'] at hx
          rcases hhead x hx with rfl | hx
          · exact hlt _ _ hgt
          · exact trans_of R (hlt _ _ hgt) hx

lemma ScanInv.foldl [IsTrans String R] (hlt : ∀ a b, a < b → R a b) (hs : List Head)
    (hI : ScanInv R e₀ P s) (hact : Active R (P ++ hs)) :
    ScanInv R e₀ (P ++ hs) (hs.foldl Check.scanHead s) := by
  induction hs generalizing P s with
  | nil => rwa [append_nil]
  | cons h hs ih =>
    have happ : P ++ h :: hs = P ++ [h] ++ hs := by simp
    have hnd : (P.map Head.idx).Nodup := by
      have := hact.nodup
      rw [map_append] at this
      exact this.of_append_left
    rw [happ] at hact ⊢
    exact ih (hI.scanHead hlt (hact.sorted h (by simp)) hnd) hact

lemma scan_spec [IsTrans String R] (hlt : ∀ a b, a < b → R a b) (hact : Active R heads)
    (lastError : Option Err) :
    ScanInv R lastError heads (heads.foldl Check.scanHead ⟨none, [], lastError⟩) :=
  ScanInv.foldl hlt heads (P := [])
    ⟨List.Sublist.refl _, by simp, fun _ => Iff.rfl, le_rfl, id, Iff.rfl, fun _ => rfl,
      fun m i h => by cases h⟩ hact

lemma pendings_middle (l r : List Head) (h : Head) :
    (pendings (l ++ h :: r)).Perm (h.pending ++ pendings (l ++ r)) :=
  perm_middle.flatMap_right _

lemma Reports.middle (e : Option Err) (l r : List Head) (h : Head) :
    Reports e (l ++ h :: r) ↔ Reports e (l ++ r) ∨ h.iter.failure.isSome := by
  rw [← Reports.append]
  simp only [Reports, mem_append, mem_cons]
  grind

lemma advanceMin_eq {l r} (hnd : ((l ++ h :: r).map Head.idx).Nodup) (lastError : Option Err) :
    advanceMin h.idx (l ++ h :: r) lastError = match h.iter.next with
      | .error err => (l ++ r, noteError lastError err)
      | .ok (v, it) => (l ++ { h with value := v, iter := it } :: r, lastError) := by
  simp only [map_append, map_cons, nodup_append, nodup_cons, mem_map,
    mem_cons] at hnd
  obtain ⟨-, ⟨hr, -⟩, hl⟩ := hnd
  have hl' : ∀ h' ∈ l, h'.idx ≠ h.idx := fun h' hh' => hl _ ⟨h', hh', rfl⟩ _ (.inl rfl)
  have hr' : ∀ h' ∈ r, h'.idx ≠ h.idx := fun h' hh' heq => hr ⟨h', hh', heq⟩
  have hfind : (l ++ h :: r).find? (·.idx == h.idx) = some h := by
    rw [find?_append, find?_eq_none.mpr (by simpa using hl')]
    simp
  have hfilter : (l ++ h :: r).filter (·.idx != h.idx) = l ++ r := by
    rw [filter_append, filter_cons_of_neg (by simp),
      filter_eq_self.mpr (by simpa using hl'), filter_eq_self.mpr (by simpa using hr')]
  have hmap : ∀ h₁ : Head, (l ++ h :: r).map (fun h' => if h'.idx = h.idx then h₁ else h') =
      l ++ h₁ :: r := by
    intro h₁
    rw [map_append, map_cons, if_pos rfl]
    congr 1
    · exact (map_congr_left fun h' hh' => if_neg (hl' h' hh')).trans (map_id _)
    · congr 1
      exact (map_congr_left fun h' hh' => if_neg (hr' h' hh')).trans (map_id _)
  unfold advanceMin
  rw [hfind]
  cases hnext : h.iter.next with
  | error err => simp only [hnext, hfilter]
  | ok p =>
    simp only [hnext]
    rw [← hmap { h with value := p.1, iter := p.2 }]
    refine congrArg (·, lastError) (map_congr_left fun h' _ => ?_)
    split
    next heq => rw [heq]
    · rfl

/-- What one round does: it passes on `m`, which stands before all that is left. -/
structure RoundSpec (R : String → String → Prop) (e₀ : Option Err) (heads : List Head) (m : String)
    (next : List Head × Option Err) : Prop where
  active : Active R next.1
  after : ∀ x ∈ pendings next.1, R m x
  mem : ∀ x, x ∈ pendings heads ↔ x = m ∨ x ∈ pendings next.1
  size : (pendings next.1).length < (pendings heads).length
  noted : Noted e₀ → Noted next.2
  reports : Reports next.2 next.1 ↔ Reports e₀ heads

theorem unionRound_spec (hI : ScanInv R e₀ P s) (hnd : (P.map Head.idx).Nodup)
    (hmin : s.min = some (m, i)) :
    RoundSpec R e₀ P m (advanceMin i s.kept s.lastError) := by
  obtain ⟨⟨h, hmem, rfl, rfl⟩, hrest⟩ := hI.least m i hmin
  obtain ⟨l, r, hkept⟩ := append_of_mem hmem
  have hnd' := hI.idx.nodup hnd
  have hsize := hI.size
  have hsorted := hI.sorted
  have hP := hI.mem
  have hreports := hI.reports
  rw [hkept] at hrest hnd' hsize hsorted hP hreports ⊢
  rw [advanceMin_eq hnd']
  obtain ⟨hvs, htail⟩ := pairwise_cons.mp (hsorted h (by simp))
  have hothers : ∀ h' ∈ l ++ r, h'.idx ≠ h.idx ∧ h' ∈ l ++ h :: r := by
    intro h' hh'
    rw [(perm_middle.map _).nodup_iff, map_cons, nodup_cons] at hnd'
    refine ⟨fun heq => hnd'.1 (heq ▸ mem_map_of_mem hh'), ?_⟩
    exact perm_middle.mem_iff.mpr (mem_cons_of_mem _ hh')
  have hafter : ∀ x ∈ pendings (l ++ r), R h.value x := by
    intro x hx
    obtain ⟨h', hh', hx⟩ := mem_pendings.mp hx
    exact hrest h' (hothers h' hh').2 (hothers h' hh').1 x hx
  have hsortedOthers : ∀ h' ∈ l ++ r, h'.pending.Pairwise R :=
    fun h' hh' => hsorted h' (hothers h' hh').2
  have hperm := pendings_middle l r h
  rw [Reports.middle] at hreports
  obtain ⟨j, v, items, err⟩ := h
  cases items with
  | nil =>
    show RoundSpec R e₀ P v (l ++ r, noteError s.lastError err)
    refine ⟨⟨?_, hsortedOthers⟩, hafter, fun x => ?_, ?_, fun h => (hI.noted h).noteError _, ?_⟩
    · rw [(perm_middle.map _).nodup_iff, map_cons] at hnd'
      exact (nodup_cons.mp hnd').2
    · rw [← hP, hperm.mem_iff]
      simp [Head.pending]
    · refine lt_of_lt_of_le ?_ hsize
      rw [hperm.length_eq, length_append]
      simp [Head.pending]
    · rw [← hreports]
      exact Reports.note s.lastError (l ++ r) ⟨[], err⟩
  | cons w ws =>
    show RoundSpec R e₀ P v (l ++ ⟨j, w, ws, err⟩ :: r, s.lastError)
    have hperm' := pendings_middle l r ⟨j, w, ws, err⟩
    refine ⟨⟨?_, fun h' hh' => ?_⟩, fun x hx => ?_, fun x => ?_, ?_, hI.noted, ?_⟩
    · simpa only [map_append, map_cons] using hnd'
    · rcases mem_cons.mp (perm_middle.mem_iff.mp hh') with rfl | hh'
      · exact htail
      · exact hsortedOthers h' hh'
    · rcases mem_append.mp (hperm'.mem_iff.mp hx) with hx | hx
      · exact hvs x hx
      · exact hafter x hx
    · rw [← hP, hperm.mem_iff, hperm'.mem_iff]
      simp [Head.pending]
    · refine lt_of_lt_of_le ?_ hsize
      rw [hperm.length_eq, hperm'.length_eq, length_append, length_append]
      simp [Head.pending]
    · rw [Reports.middle]
      exact hreports

end Round

/-! ## The whole union -/

section

variable {R : String → String → Prop}

lemma unionLoop_spec [IsTrans String R] (hlt : ∀ a b, a < b → R a b) (n : Nat) (heads : List Head)
    (lastError : Option Err) (hact : Active R heads) (hn : (pendings heads).length < n) :
    (unionLoop n heads lastError).items.Pairwise R ∧
      (∀ x, x ∈ (unionLoop n heads lastError).items ↔ x ≠ "" ∧ x ∈ pendings heads) ∧
      (Noted lastError → Noted (unionLoop n heads lastError).err) ∧
      ((unionLoop n heads lastError).err.isSome ↔ Reports lastError heads) := by
  induction n generalizing heads lastError with
  | zero => omega
  | succ n ih =>
    have hscan := scan_spec hlt hact lastError
    rw [unionLoop]
    cases hmin : (heads.foldl scanHead ⟨none, [], lastError⟩).min with
    | none =>
      simp only
      have hempty := hscan.empty hmin
      subst hempty
      refine ⟨List.Pairwise.nil, fun x => ?_, id, ?_⟩
      · simp [pendings]
      · simp [Reports]
    | some p =>
      obtain ⟨m, i⟩ := p
      simp only
      have hround := unionRound_spec hscan hact.nodup hmin
      have hsize := hround.size
      obtain ⟨hsorted, hmem, hnoted, herr⟩ := ih _
        (advanceMin i (heads.foldl scanHead ⟨none, [], lastError⟩).kept
          (heads.foldl scanHead ⟨none, [], lastError⟩).lastError).2 hround.active (by omega)
      refine ⟨?_, fun x => ?_, fun h => ?_, ?_⟩
      · refine List.Pairwise.sublist (add_sublist _ _) (pairwise_cons.mpr ⟨?_, hsorted⟩)
        exact fun x hx => hround.after x ((hmem x).mp hx).2
      · rw [mem_add, hmem, hround.mem]
        grind
      · rw [add_err]
        exact hnoted (hround.noted h)
      · rw [add_err, herr, hround.reports]

lemma openHeads_spec (iters : List (Iter String)) (k : Nat) (acc : List Head)
    (lastError : Option Err) (hact : Active R acc) (hidx : ∀ h ∈ acc, h.idx < k)
    (hs : ∀ it ∈ iters, it.items.Pairwise R) :
    Active R ((iters.zipIdx k).foldl openHead (acc, lastError)).1 ∧
      (∀ x, x ∈ pendings ((iters.zipIdx k).foldl openHead (acc, lastError)).1 ↔
        x ∈ pendings acc ∨ ∃ it ∈ iters, x ∈ it.items) ∧
      (Noted lastError → Noted ((iters.zipIdx k).foldl openHead (acc, lastError)).2) ∧
      (Reports ((iters.zipIdx k).foldl openHead (acc, lastError)).2
          ((iters.zipIdx k).foldl openHead (acc, lastError)).1 ↔
        Reports lastError acc ∨ ∃ it ∈ iters, it.failure.isSome) := by
  induction iters generalizing k acc lastError with
  | nil => simpa using hact
  | cons it iters ih =>
    have hs' : ∀ it ∈ iters, it.items.Pairwise R := fun it h => hs it (mem_cons_of_mem _ h)
    rw [zipIdx_cons, foldl_cons]
    obtain ⟨items, err⟩ := it
    cases items with
    | nil =>
      obtain ⟨hact', hmem, hnoted, hrep⟩ := ih (k + 1) acc (noteError lastError err) hact
        (fun h hh => Nat.lt_succ_of_lt (hidx h hh)) hs'
      refine ⟨hact', fun x => ?_, fun h => hnoted (h.noteError _), ?_⟩
      · refine (hmem x).trans ?_
        simp
      · refine hrep.trans ?_
        rw [Reports.note lastError acc ⟨[], err⟩, exists_mem_cons_iff, or_assoc]
    | cons v vs =>
      have hact₁ : Active R (acc ++ [⟨k, v, vs, err⟩]) := by
        refine ⟨?_, fun h hh => ?_⟩
        · rw [map_append, nodup_append]
          refine ⟨hact.nodup, by simp, fun a ha b hb => ?_⟩
          obtain ⟨h, hh, rfl⟩ := mem_map.mp ha
          have := hidx h hh
          simp only [map_cons, map_nil, mem_singleton] at hb
          omega
        · rcases mem_append.mp hh with hh | hh
          · exact hact.sorted h hh
          · rw [mem_singleton.mp hh]
            exact hs ⟨v :: vs, err⟩ mem_cons_self
      have hidx₁ : ∀ h ∈ acc ++ [⟨k, v, vs, err⟩], h.idx < k + 1 := by
        intro h hh
        rcases mem_append.mp hh with hh | hh
        · exact Nat.lt_succ_of_lt (hidx h hh)
        · rw [mem_singleton.mp hh]
          exact Nat.lt_succ_self k
      obtain ⟨hact', hmem, hnoted, hrep⟩ := ih (k + 1) _ lastError hact₁ hidx₁ hs'
      refine ⟨hact', fun x => ?_, hnoted, ?_⟩
      · refine (hmem x).trans ?_
        rw [pendings_append, pendings_singleton, mem_append, exists_mem_cons_iff,
          or_assoc]
        exact Iff.rfl
      · refine hrep.trans ?_
        rw [Reports.append, exists_mem_cons_iff, or_assoc]
        exact Iff.rfl

/-- The union of ordered streams is in order, yields the ids its streams yield, and reports an error
    exactly when one of them does. -/
lemma resolveUnion_spec [IsTrans String R] (hlt : ∀ a b, a < b → R a b) {iters}
    (hs : ∀ it ∈ iters, it.items.Pairwise R) : (resolveUnion iters).items.Pairwise R ∧
      (∀ x, x ∈ (resolveUnion iters).items ↔ x ≠ "" ∧ ∃ it ∈ iters, x ∈ it.items) ∧
      ((resolveUnion iters).failure.isSome ↔ ∃ it ∈ iters, it.failure.isSome) := by
  obtain ⟨hact, hmem, hnoted, hrep⟩ :=
    openHeads_spec iters 0 [] none ⟨by simp, by simp⟩ (by simp) hs
  obtain ⟨hpair, hmem', hnoted', herr⟩ := unionLoop_spec hlt _ _ _ hact (Nat.lt_succ_self _)
  refine ⟨hpair, fun x => (hmem' x).trans ?_, ?_⟩
  · rw [hmem]
    simp [pendings]
  · have hfail := (hnoted' (hnoted (by simp [Noted]))).failure_eq (resolveUnion iters).items
    rw [show (resolveUnion iters).failure = (resolveUnion iters).err from hfail]
    refine herr.trans (hrep.trans ?_)
    simp [Reports]

end

end OpenFGA.Check
