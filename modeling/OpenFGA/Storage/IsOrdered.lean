/-
  What `IsOrdered` of an iterator promises about the strings that `WrapIterator` makes of its
  tuples (`pkg/storage/tuple_mappers.go`).

  The iterators that wrap one other iterator and yield what it yields (tuple-key, caching and
  cached iterators that keep the flag, shared ones) forward its `IsOrdered` and are left out.  A
  `cachedTupleIterator` is a static iterator over the tuples that were stored, whatever
  `IsOrdered` of the read was.
-/

import OpenFGA.Storage.OrderedCombined
import OpenFGA.TupleStrings

namespace OpenFGA.IsOrdered

open OpenFGA.Tuple
open OrderedCombined List

/-- `TupleMapperKind`. -/
inductive Kind where
  | userset
  | ttu
  | objectID

def mapUserset (t : Key) : Except Err String :=
  let (usersetName, relation) := splitObjectRelation t.user
  if relation = "" ∧ ¬ isWildcard usersetName then
    .error (.other s!"unexpected userset {t.user} with no relation")
  else .ok usersetName

namespace Kind

/-- `MapUserset`, `MapTTU` and `MapObjectID`. -/
def map : Kind → Key → Except Err String
  | .userset, t => mapUserset t
  | .ttu, t => .ok t.user
  | .objectID, t => .ok t.object

/-- The field that is mapped: `UserMapper` or `ObjectMapper`. -/
def mapper : Kind → Key → String
  | .userset, t | .ttu, t => t.user
  | .objectID, t => t.object

/-- The string of a tuple that is mapped without an error. -/
def string : Kind → Key → String
  | .userset, t => (splitObjectRelation t.user).1
  | kind, t => kind.mapper t

end Kind

/-- The loop over `WrapIterator`, which ends with the first error. -/
def wrapIterator (kind : Kind) (it : Iter Key) : Iter String :=
  it.items.foldr (fun t strings =>
    match kind.map t with
    | .ok s => strings.cons s
    | .error err => ⟨[], some err⟩) ⟨[], it.err⟩

/-- `Concat`: the second iterator is read when the first one has ended. -/
def concat (it₁ it₂ : Iter Key) : Iter Key :=
  match it₁.err with
  | none => ⟨it₁.items ++ it₂.items, it₂.err⟩
  | some err => ⟨it₁.items, some err⟩

/-- Where the tuples come from. -/
structure Sources (kind : Kind) where
  /-- `IsOrdered` of the iterators of a datastore, and what they yield. -/
  leaves : Set (Bool × List Key)
  /-- The slices that static iterators are made of. -/
  statics : Set (List Key)
  ascending : ∀ items, (true, items) ∈ leaves →
    items.Pairwise fun t t' => kind.mapper t ≤ kind.mapper t'
  mapped : ∀ items, items ∈ statics ∨ (true, items) ∈ leaves → ∀ t ∈ items, ∃ s, kind.map t = .ok s

variable {kind : Kind}

/-- An iterator over the sources, with its `IsOrdered`. -/
inductive Built (S : Sources kind) : Bool → Iter Key → Prop where
  | leaf {ordered : Bool} {items : List Key} (h : (ordered, items) ∈ S.leaves) (err : Option Err) :
      Built S ordered ⟨items, err⟩
  | static {items : List Key} (h : items ∈ S.statics) : Built S true ⟨items, none⟩
  | filtered {ordered : Bool} {it : Iter Key} (passes : Key → Except Err Bool)
      (h : Built S ordered it) : Built S ordered (it.filtered passes)
  | combined {its : List (Bool × Iter Key)} (h : ∀ p ∈ its, Built S p.1 p.2) :
      Built S false ((its.map Prod.snd).foldr concat ⟨[], none⟩)
  | orderedCombined {its : List (Bool × Iter Key)} (h : ∀ p ∈ its, Built S p.1 p.2) :
      Built S (its.all Prod.fst) (combine kind.mapper (its.map Prod.snd))
  | merged {ordered₁ ordered₂ : Bool} {it₁ it₂ : Iter Key} {compareFn : Key → Key → Ordering}
      (hgt : ∀ t t', compareFn t t' = .gt → kind.mapper t' ≤ kind.mapper t)
      (hle : ∀ t t', compareFn t t' ≠ .gt → kind.mapper t ≤ kind.mapper t')
      (h₁ : Built S ordered₁ it₁) (h₂ : Built S ordered₂ it₂) :
      Built S (ordered₁ && ordered₂) (it₁.merge compareFn it₂)

namespace Sources

/-- A tuple of a source that says it is ordered. -/
def Yields (S : Sources kind) (t : Key) : Prop :=
  ∃ items, (items ∈ S.statics ∨ (true, items) ∈ S.leaves) ∧ t ∈ items

/-- The slices of static iterators ascend, and the strings of the tuples are in the order of
    the fields they are made of. -/
def Keeps (S : Sources kind) : Prop :=
  (∀ items ∈ S.statics, items.Pairwise fun t t' => kind.string t ≤ kind.string t') ∧
    ∀ t t', S.Yields t → S.Yields t' → kind.mapper t < kind.mapper t' →
      kind.string t ≤ kind.string t'

end Sources

/-! ## Reading several sources in order -/

section
variable {α : Type} {P : α → Prop} {g : α → String} {src src' out xs ys : List α} {x : α}

/-- Items with the property, in ascending order. -/
def Ascends (P : α → Prop) (g : α → String) (l : List α) : Prop :=
  (∀ x ∈ l, P x) ∧ l.Pairwise fun x y => g x ≤ g y

lemma Ascends.sublist {l l'} (h : Ascends P g l) (hsub : l'.Sublist l) : Ascends P g l' :=
  ⟨fun x hx => h.1 x (hsub.subset hx), h.2.sublist hsub⟩

lemma Ascends.head_le (h : Ascends P g (x :: xs)) : ∀ z ∈ x :: xs, g x ≤ g z :=
  forall_mem_cons.mpr ⟨le_rfl, (pairwise_cons.mp h.2).1⟩

/-- The items come out of the sources in ascending order. -/
def Draws (P : α → Prop) (g : α → String) (src out : List α) : Prop := Ascends P g out ∧ out ⊆ src

theorem Draws.nil : Draws P g src [] := ⟨⟨nofun, .nil⟩, nofun⟩

/-- An item that no item behind it is below. -/
lemma Draws.cons (h : Draws P g src' out) (hP : P x) (hx : x ∈ src) (hle : ∀ z ∈ src, g x ≤ g z)
    (hsub : src' ⊆ src) : Draws P g src (x :: out) :=
  ⟨⟨forall_mem_cons.mpr ⟨hP, h.1.1⟩,
    pairwise_cons.mpr ⟨fun z hz => hle z (hsub (h.2 hz)), h.1.2⟩⟩,
    cons_subset.mpr ⟨hx, List.Subset.trans h.2 hsub⟩⟩

theorem Draws.fetch {e rest k} (h : Draws P g src k.items) :
    Draws P g src (Iter.fetch e rest k).items := by
  unfold Iter.fetch
  split
  · exact .nil
  · exact h

lemma draws_mergeAux {compareFn : α → α → Ordering} {e₁ e₂}
    (hgt : ∀ x y, P x → P y → compareFn x y = .gt → g y ≤ g x)
    (hle : ∀ x y, P x → P y → compareFn x y ≠ .gt → g x ≤ g y) (n : Nat)
    (hxs : Ascends P g xs) (hys : Ascends P g ys) :
    Draws P g (xs ++ ys) (Iter.mergeAux compareFn e₁ e₂ n xs ys).items := by
  induction n generalizing xs ys with
  | zero => exact .nil
  | succ n ih =>
    match xs, ys with
    | [], [] => exact .nil
    | [], y :: ys =>
      exact .fetch ((ih hxs (hys.sublist (sublist_cons_self ..))).cons
        (hys.1 y mem_cons_self) mem_cons_self hys.head_le (subset_cons_self _ _))
    | x :: xs, [] =>
      refine .fetch ((ih (hxs.sublist (sublist_cons_self ..)) hys).cons
        (hxs.1 x mem_cons_self) mem_cons_self ?_ (subset_cons_self _ _))
      rw [append_nil]
      exact hxs.head_le
    | x :: xs, y :: ys =>
      have hx := hxs.1 x mem_cons_self
      have hy := hys.1 y mem_cons_self
      have hxs' := hxs.sublist (sublist_cons_self x xs)
      have hys' := hys.sublist (sublist_cons_self y ys)
      have hleft (h : compareFn x y ≠ .gt) : ∀ z ∈ x :: xs ++ y :: ys, g x ≤ g z :=
        forall_mem_append.mpr
          ⟨hxs.head_le, fun z hz => (hle x y hx hy h).trans (hys.head_le z hz)⟩
      rw [Iter.mergeAux]
      split
      next h =>
        exact .fetch ((ih hxs' hys).cons hx mem_cons_self (hleft (by rw [h]; decide))
          (subset_cons_self _ _))
      next h =>
        exact .fetch ((ih hxs hys').cons hy (by simp) (forall_mem_append.mpr
          ⟨fun z hz => (hgt x y hx hy h).trans (hxs.head_le z hz), hys.head_le⟩)
          ((sublist_cons_self y ys).append_left _).subset)
      next h =>
        exact .fetch (.fetch ((ih hxs' hys').cons hx mem_cons_self
          (hleft (by rw [h]; decide)) ((sublist_cons_self x xs).append
            (sublist_cons_self y ys)).subset))

section
variable {mapper : α → String} {lastYielded : Option α} {it it' : Iter α} {its its' : List (Iter α)}

open OrderedCombined

/-- What is left of some of the sources. -/
def Within (its' its : List (Iter α)) : Prop := ∀ it' ∈ its', ∃ it ∈ its, it'.items <:+ it.items

lemma Within.subset (h : Within its' its) : its'.flatMap Iter.items ⊆ its.flatMap Iter.items := by
  intro z hz
  obtain ⟨it', hit', hz⟩ := mem_flatMap.mp hz
  obtain ⟨it, hit, hsuffix⟩ := h it' hit'
  exact mem_flatMap_of_mem hit (hsuffix.subset hz)

theorem Within.ascends (h : Within its' its) (hits : ∀ it ∈ its, Ascends P g it.items) :
    ∀ it ∈ its', Ascends P g it.items := by
  intro it' hit'
  obtain ⟨it, hit, hsuffix⟩ := h it' hit'
  exact (hits it hit).sublist hsuffix.sublist

lemma Within.tail (h : Within its' its) (hit : it'.items <:+ it.items) :
    Within (it' :: its') (it :: its) :=
  forall_mem_cons.mpr ⟨⟨it, mem_cons_self, hit⟩, fun it' hit' =>
    (h it' hit').imp fun _ h => ⟨mem_cons_of_mem _ h.1, h.2⟩⟩

lemma advance_suffix {idx} (h : advance mapper lastYielded idx it = .ok (some it')) :
    it'.items <:+ it.items := by
  have hlive {it : Iter α} (h : live it = .ok (some it')) : it' = it := by
    unfold live at h
    split at h <;> cases h
    rfl
  unfold advance at h
  split at h
  · split_ifs at h
    rw [hlive h]
    exact dropWhile_suffix _
  · exact hlive h ▸ suffix_rfl

lemma advanceAll_within {idx} (h : advanceAll mapper lastYielded idx its = .ok its') :
    Within its' its := by
  induction its generalizing idx its' with
  | nil =>
    cases h
    nofun
  | cons it its ih =>
    rw [advanceAll] at h
    split at h
    · cases h
    next o hadvance =>
      split at h <;> cases h
      next its' hall =>
      have := ih hall
      cases o with
      | none => exact fun it' hit' => (this it' hit').imp fun _ h => ⟨mem_cons_of_mem _ h.1, h.2⟩
      | some it' => exact this.tail (advance_suffix hadvance)

/-- What is taken of the sources is below all that they yield. -/
structure Least (g : α → String) (its : List (Iter α)) (x : α) (its' : List (Iter α)) : Prop where
  mem : x ∈ its.flatMap Iter.items
  below : ∀ z ∈ its.flatMap Iter.items, g x ≤ g z
  within : Within its' its

lemma within_self : Within its its := fun it hit => ⟨it, hit, suffix_rfl⟩

theorem Least.here {err} (hit : Ascends P g (x :: xs))
    (hle : ∀ z ∈ its.flatMap Iter.items, g x ≤ g z) :
    Least g (⟨x :: xs, err⟩ :: its) x (⟨xs, err⟩ :: its) where
  mem := mem_cons_self
  below := forall_mem_append.mpr ⟨hit.head_le, hle⟩
  within := within_self.tail (suffix_cons x xs)

theorem Least.later (h : Least g its x its') (hle : ∀ z ∈ it.items, g x ≤ g z) :
    Least g (it :: its) x (it :: its') where
  mem := mem_append_right _ h.mem
  below := forall_mem_append.mpr ⟨hle, h.below⟩
  within := h.within.tail suffix_rfl

variable (hmono : ∀ x y, P x → P y → mapper x ≤ mapper y → g x ≤ g y)
include hmono

lemma takeMin_least (hits : ∀ it ∈ its, Ascends P g it.items)
    (h : takeMin mapper its = some (x, its')) : Least g its x its' ∧ P x := by
  induction its generalizing x its' with
  | nil => cases h
  | cons it its ih =>
    obtain ⟨items, err⟩ := it
    obtain ⟨hit, hrest⟩ := forall_mem_cons.mp hits
    rw [takeMin] at h
    cases items with
    | nil =>
      obtain ⟨⟨y, rest⟩, hmin, heq⟩ := Option.map_eq_some_iff.mp h
      cases heq
      exact (ih hrest hmin).imp_left (·.later (by simp))
    | cons z zs =>
      have hz := hit.1 z mem_cons_self
      cases hmin : takeMin mapper its with
      | none =>
        simp only [hmin] at h
        cases h
        refine ⟨.here hit fun w hw => ?_, hz⟩
        rw [takeMin_none hmin] at hw
        cases hw
      | some p =>
        obtain ⟨y, rest⟩ := p
        obtain ⟨hleast, hy⟩ := ih hrest hmin
        simp only [hmin] at h
        split_ifs at h with hlt <;> obtain ⟨⟩ := h
        · exact ⟨hleast.later fun w hw => (hmono x z hy hz hlt.le).trans (hit.head_le w hw), hy⟩
        · exact ⟨.here hit fun w hw =>
            (hmono x y hz hy (not_lt.mp hlt)).trans (hleast.below w hw), hz⟩

lemma draws_drain (n : Nat) {c} (hc : ∀ it ∈ c.pending, Ascends P g it.items) :
    Draws P g (c.pending.flatMap Iter.items) (drain mapper n c).items := by
  induction n generalizing c with
  | zero => exact .nil
  | succ n ih =>
    rw [drain]
    split
    · exact .nil
    next x c' hnext =>
      unfold OrderedCombined.next at hnext
      split at hnext
      · cases hnext
      next hall =>
        split at hnext <;> cases hnext
        next its' hmin =>
        have hwithin := advanceAll_within hall
        have hits := hwithin.ascends hc
        obtain ⟨hleast, hx⟩ := takeMin_least hmono hits hmin
        obtain ⟨hout, hsub⟩ := (@ih ⟨its', some x⟩ (hleast.within.ascends hits)).cons hx
          hleast.mem hleast.below hleast.within.subset
        exact ⟨hout, List.Subset.trans hsub hwithin.subset⟩

end

end

/-! ## What the flag promises -/

section
variable {S : Sources kind} {it : Iter Key}

lemma Kind.map_eq_string {t s} (h : kind.map t = .ok s) : s = kind.string t := by
  cases kind with
  | userset =>
    simp only [Kind.map, mapUserset] at h
    split_ifs at h
    cases h
    rfl
  | ttu | objectID =>
    cases h
    rfl

lemma wrapIterator_items (h : ∀ t ∈ it.items, ∃ s, kind.map t = .ok s) :
    (wrapIterator kind it).items = it.items.map kind.string := by
  obtain ⟨items, err⟩ := it
  unfold wrapIterator
  induction items with
  | nil => rfl
  | cons t items ih =>
    obtain ⟨⟨s, hs⟩, hitems⟩ := forall_mem_cons.mp h
    simp only [foldr_cons, hs, Iter.cons_items, map_cons, ih hitems, Kind.map_eq_string hs]

lemma wrapIterator_ascends (h : ∀ t ∈ it.items, S.Yields t) :
    (wrapIterator kind it).items.Pairwise (· ≤ ·) ↔
      it.items.Pairwise fun t t' => kind.string t ≤ kind.string t' := by
  rw [wrapIterator_items fun t ht => ?_, pairwise_map]
  obtain ⟨items, hmem, hitems⟩ := h t ht
  exact S.mapped items hmem t hitems

lemma Sources.Keeps.mono (h : S.Keeps) {t t'} (ht : S.Yields t) (ht' : S.Yields t')
    (hle : kind.mapper t ≤ kind.mapper t') : kind.string t ≤ kind.string t' := by
  rcases hle.lt_or_eq with hlt | heq
  · exact h.2 t t' ht ht' hlt
  · cases kind with
    | userset => exact (congrArg (fun user => (splitObjectRelation user).1) heq).le
    | ttu | objectID => exact heq.le

theorem Built.ascends {ordered} (hS : S.Keeps) (h : Built S ordered it)
    (hordered : ordered = true) : Ascends S.Yields kind.string it.items := by
  induction h with
  | leaf hmem _ =>
    subst hordered
    have hyields : ∀ t ∈ _, S.Yields t := fun t ht => ⟨_, .inr hmem, ht⟩
    exact ⟨hyields, (S.ascending _ hmem).imp_of_mem fun ht ht' =>
      hS.mono (hyields _ ht) (hyields _ ht')⟩
  | static hmem => exact ⟨fun t ht => ⟨_, .inl hmem, ht⟩, hS.1 _ hmem⟩
  | filtered passes _ ih =>
    rw [Iter.filtered_items]
    exact (ih hordered).sublist filter_sublist
  | combined => cases hordered
  | orderedCombined _ ih =>
    refine (draws_drain (fun t t' => hS.mono) _ ?_).1
    intro it hit
    obtain ⟨p, hp, rfl⟩ := mem_map.mp hit
    exact ih p hp (all_eq_true.mp hordered p hp)
  | merged hgt hle _ _ ih₁ ih₂ =>
    obtain ⟨h₁, h₂⟩ := Bool.and_eq_true_iff.mp hordered
    exact (Draws.fetch (.fetch (draws_mergeAux (fun t t' ht ht' h => hS.mono ht' ht (hgt t t' h))
      (fun t t' ht ht' h => hS.mono ht ht' (hle t t' h)) _ (ih₁ h₁) (ih₂ h₂)))).1

/-- A source that says it is ordered, with one of its tuples left in. -/
lemma Sources.Yields.built {t} (h : S.Yields t) :
    ∃ it, Built S true it ∧ it.err = none ∧ t ∈ it.items ∧ ∀ t' ∈ it.items, t' = t := by
  obtain ⟨items, hmem, ht⟩ := h
  have hbuilt : Built S true ⟨items, none⟩ := by
    rcases hmem with hmem | hmem
    · exact .static hmem
    · exact .leaf hmem none
  have herr (onceValid : Bool) (l : List Key) :
      (Iter.filterAux (fun t' => .ok (t' == t)) none onceValid none l).err = none := by
    induction l generalizing onceValid with
    | nil => cases onceValid <;> rfl
    | cons t' l ih =>
      rw [Iter.filterAux]
      split <;> first | contradiction | exact ih _
  refine ⟨_, hbuilt.filtered fun t' => .ok (t' == t), herr _ _, ?_, ?_⟩
  · simp [Iter.passed, ht]
  · simp [Iter.passed]

/-- Two tuples whose strings are in the wrong order come out of an ordered combination in the
    order of their fields. -/
lemma Sources.keeps_of_sound
    (h : ∀ it, Built S true it → (wrapIterator kind it).items.Pairwise (· ≤ ·)) : S.Keeps := by
  refine ⟨fun items hmem => (wrapIterator_ascends fun t ht => ⟨items, .inl hmem, ht⟩).mp
    (h _ (.static hmem)), fun t t' ht ht' hlt => ?_⟩
  obtain ⟨it, hit, herr, hmem, honly⟩ := ht.built
  obtain ⟨it', hit', herr', hmem', honly'⟩ := ht'.built
  have hbuilt := @Built.orderedCombined _ S [(true, it), (true, it')] (by simpa using ⟨hit, hit'⟩)
  have hordered {t : Key} {it : Iter Key} (herr : it.err = none) (honly : ∀ t' ∈ it.items, t' = t) :
      OrderedCombined.Ordered kind.mapper it :=
    ⟨herr, pairwise_of_forall_mem_list fun x hx y hy => by rw [honly x hx, honly y hy]⟩
  have hits : ∀ it₀ ∈ [it, it'], OrderedCombined.Ordered kind.mapper it₀ := by
    simpa using ⟨hordered herr honly, hordered herr' honly'⟩
  obtain ⟨-, hlts, hfirst⟩ := combine_spec hits
  have hof : ∀ x ∈ (combine kind.mapper [it, it']).items, x = t ∨ x = t' := by
    intro x hx
    have := mem_of_find?_eq_some ((hfirst x).mp hx)
    simp only [flatMap_cons, flatMap_nil, append_nil, mem_append] at this
    exact this.imp (honly x) (honly' x)
  have hkey {z : Key} (hmem : z ∈ [it, it'].flatMap Iter.items) :=
    mem_map.mp ((mem_keys_combine hits).mpr (mem_map_of_mem hmem))
  obtain ⟨x, hx, hxt⟩ := hkey (z := t) (by simp [hmem])
  obtain ⟨y, hy, hyt⟩ := hkey (z := t') (by simp [hmem'])
  obtain rfl : x = t := (hof x hx).resolve_right fun h => hlt.ne' (h ▸ hxt)
  obtain rfl : y = t' := (hof y hy).resolve_left fun h => hlt.ne (h ▸ hyt)
  have hyields : ∀ z ∈ (combine kind.mapper [it, it']).items, S.Yields z := by
    intro z hz
    rcases hof z hz with rfl | rfl
    · exact ht
    · exact ht'
  have hpair := pairwise_iff_getElem.mp
    (hlts.and ((wrapIterator_ascends hyields).mp (h _ hbuilt)))
  obtain ⟨i, hi, rfl⟩ := mem_iff_getElem.mp hx
  obtain ⟨j, hj, rfl⟩ := mem_iff_getElem.mp hy
  rcases lt_trichotomy i j with hij | rfl | hji
  · exact (hpair i j hi hj hij).2
  · exact absurd hlt (lt_irrefl _)
  · exact absurd hlt (hpair j i hj hi hji).1.not_gt

/-- Every iterator over the sources whose `IsOrdered` is true yields its strings in ascending
    order, if and only if the slices of static iterators ascend and the strings are in the order
    of the fields. -/
theorem isOrdered_sound_iff (S : Sources kind) :
    (∀ it, Built S true it → (wrapIterator kind it).items.Pairwise (· ≤ ·)) ↔ S.Keeps := by
  refine ⟨Sources.keeps_of_sound, fun hS it hit => ?_⟩
  obtain ⟨hyields, hstrings⟩ := hit.ascends hS rfl
  exact (wrapIterator_ascends hyields).mpr hstrings

end

/-- A tuple of `doc:1` without a condition. -/
def docTuple (user : String) : Key := ⟨"doc:1", "viewer", user, "", ""⟩

/-- A datastore that reads usersets in the order of the users does not read them in the order of
    their objects when an id goes on with a character below `#`. -/
def usersets : Sources .userset where
  leaves := {(true, [docTuple "group:a!#member", docTuple "group:a#member"])}
  statics := ∅
  ascending _ h := by
    cases h
    simp only [pairwise_cons, mem_singleton, forall_eq]
    decide +kernel
  mapped _ h t ht := by
    rcases h with h | h <;> cases h
    simp only [mem_cons, not_mem_nil, or_false] at ht
    rcases ht with rfl | rfl
    · exact ⟨"group:a!", by decide +kernel⟩
    · exact ⟨"group:a", by decide +kernel⟩

/-- Tuples that were stored in the order of a read without an order. -/
def stored : Sources .ttu where
  leaves := ∅
  statics := {[docTuple "folder:b", docTuple "folder:a"]}
  ascending := nofun
  mapped _ _ t _ := ⟨t.user, rfl⟩

theorem isOrdered_unsound :
    (∃ it, Built usersets true it ∧ (∀ t ∈ it.items, isValidUser t.user = true) ∧
      ¬ (wrapIterator .userset it).items.Pairwise (· ≤ ·)) ∧
    ∃ it, Built stored true it ∧ ¬ (wrapIterator .ttu it).items.Pairwise (· ≤ ·) :=
  ⟨⟨_, .leaf (Set.mem_singleton _) none, by decide +kernel, by decide +kernel⟩,
    _, .static (Set.mem_singleton _), by decide +kernel⟩

end OpenFGA.IsOrdered
