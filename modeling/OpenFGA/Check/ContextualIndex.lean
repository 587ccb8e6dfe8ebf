/-
  The index of the contextual tuples of a request (`buildContextualTupleMaps`,
  internal/check/request.go) and the search of `specificType` in it (internal/check/check.go).

  A slice of the index is kept in order by binary search, and found by a digest of three strings.
  The slices hold the first of the tuples that agree in all but the condition (`index_exact`).
  `OpenFGA.Storage` has the slices of tuples that are taken apart, and goes through a slice from its
  front; it builds the same slices (`insertAllSorted_eq`).
-/

import OpenFGA.Cache.KeyBuilder
import OpenFGA.Storage

namespace OpenFGA.ContextualIndex
open List Tuple Keys

/-! ## Binary search -/

/-- The loop of `sort.Search`. -/
def search (f : Nat → Bool) (i j : Nat) : Nat :=
  if i < j then
    if f ((i + j) / 2) then search f i ((i + j) / 2) else search f ((i + j) / 2 + 1) j
  else i
termination_by j - i
decreasing_by all_goals omega

lemma search_spec {f : Nat → Bool} (hf : ∀ k l, k ≤ l → f k = true → f l = true) {i j}
    (hij : i ≤ j) (hlow : ∀ k < i, f k = false) (hhigh : ∀ k, j ≤ k → f k = true) :
    (∀ k < search f i j, f k = false) ∧ ∀ k, search f i j ≤ k → f k = true := by
  fun_induction search f i j with
  | case1 i j hlt hmid ih => exact ih (by omega) hlow fun k hk => hf _ k hk hmid
  | case2 i j hlt hmid ih =>
    refine ih (by omega) (fun k hk => ?_) hhigh
    rw [Bool.eq_false_iff]
    exact fun htrue => hmid (hf k _ (by omega) htrue)
  | case3 i j hlt =>
    obtain rfl : i = j := by omega
    exact ⟨hlow, hhigh⟩

section
variable {τ : Type} {key : τ → String} {slice : List τ} {t x : τ} {v : String}

/-- `sort.Search` for the first element that is not below `v`. -/
def searchKey (key : τ → String) (slice : List τ) (v : String) : Nat :=
  search (fun j => slice[j]?.all fun x => decide (v ≤ key x)) 0 slice.length

abbrev Increasing (key : τ → String) (slice : List τ) : Prop :=
  slice.Pairwise fun a b => key a < key b

lemma searchKey_spec (hs : Increasing key slice) (v : String) :
    (∀ x ∈ slice.take (searchKey key slice v), key x < v) ∧
      ∀ x ∈ slice.drop (searchKey key slice v), v ≤ key x := by
  have hf : ∀ k l : Nat, k ≤ l → (slice[k]?.all fun x => decide (v ≤ key x)) = true →
      (slice[l]?.all fun x => decide (v ≤ key x)) = true := by
    intro k l hkl hk
    rcases Nat.eq_or_lt_of_le hkl with rfl | hkl
    · exact hk
    rw [Option.all_eq_true] at hk ⊢
    intro y hy
    obtain ⟨hl, rfl⟩ := List.getElem?_eq_some_iff.mp hy
    have hx := hk _ (getElem?_eq_getElem (hkl.trans hl))
    rw [decide_eq_true_eq] at hx ⊢
    exact hx.trans (pairwise_iff_getElem.mp hs k l _ hl hkl).le
  obtain ⟨hlow, hhigh⟩ :=
    search_spec hf (Nat.zero_le slice.length) (fun _ h => by omega) fun k hk => by
    rw [getElem?_eq_none hk]
    rfl
  refine ⟨fun x hx => ?_, fun x hx => ?_⟩
  · obtain ⟨k, hk, rfl⟩ := mem_take_iff_getElem.mp hx
    have := hlow k (lt_min_iff.mp hk).1
    rw [getElem?_eq_getElem (by omega)] at this
    simpa using this
  · obtain ⟨k, hk, rfl⟩ := mem_drop_iff_getElem.mp hx
    have := hhigh _ (Nat.le_add_right (searchKey key slice v) k)
    rw [getElem?_eq_getElem (by omega)] at this
    simpa using this

/-- What the search finds. -/
def found (key : τ → String) (slice : List τ) (v : String) : Option τ :=
  slice[searchKey key slice v]?.filter fun x => key x = v

lemma found_eq_some (hs : Increasing key slice) :
    found key slice v = some x ↔ x ∈ slice ∧ key x = v := by
  obtain ⟨hlow, hhigh⟩ := searchKey_spec hs v
  rw [found, Option.filter_eq_some_iff, decide_eq_true_eq]
  refine and_congr_left fun hx => ⟨mem_of_getElem?, fun hmem => ?_⟩
  rw [← take_append_drop (searchKey key slice v) slice] at hmem hs
  rw [← head?_drop]
  rcases mem_append.mp hmem with hmem | hmem
  · exact absurd hx (hlow x hmem).ne
  · -- what stands before `x` behind the found place is below `v`
    cases hdrop : slice.drop (searchKey key slice v) with
    | nil => simp [hdrop] at hmem
    | cons y ys =>
      rw [hdrop] at hmem hhigh hs
      rcases mem_cons.mp hmem with rfl | hmem
      · rfl
      · have hlt := rel_of_pairwise_cons (pairwise_append.mp hs).2.1 hmem
        exact absurd (hhigh y mem_cons_self) (not_le.mpr (hx ▸ hlt))

/-- `insertSortedTuple`, for the field that is compared. -/
def insertSorted (key : τ → String) (slice : List τ) (t : τ) : List τ :=
  let i := searchKey key slice (key t)
  if (found key slice (key t)).isSome then slice else slice.take i ++ t :: slice.drop i

lemma insertSorted_spec (hs : Increasing key slice) (t : τ) :
    Increasing key (insertSorted key slice t) ∧
      ∀ x, x ∈ insertSorted key slice t ↔ x ∈ slice ∨ x = t ∧ ∀ y ∈ slice, key y ≠ key t := by
  unfold insertSorted
  cases hfound : found key slice (key t) with
  | some y =>
    obtain ⟨hy, hkey⟩ := (found_eq_some hs).mp hfound
    exact ⟨hs, fun x => (or_iff_left fun h => h.2 y hy hkey).symm⟩
  | none =>
    have hne : ∀ y ∈ slice, key y ≠ key t := by
      intro y hy hkey
      rw [(found_eq_some hs).mpr ⟨hy, hkey⟩] at hfound
      cases hfound
    obtain ⟨hlow, hhigh⟩ := searchKey_spec hs (key t)
    have hmem : ∀ x, x ∈ slice ↔ x ∈ slice.take (searchKey key slice (key t)) ∨
        x ∈ slice.drop (searchKey key slice (key t)) := by
      intro x
      rw [← mem_append, take_append_drop]
    have hhigh' : ∀ x ∈ slice.drop (searchKey key slice (key t)), key t < key x := fun x hx =>
      lt_of_le_of_ne (hhigh x hx) (hne x ((hmem x).mpr (.inr hx))).symm
    refine ⟨?_, fun x => ?_⟩
    · refine pairwise_append.mpr ⟨hs.sublist (take_sublist _ _), pairwise_cons.mpr
        ⟨hhigh', hs.sublist (drop_sublist _ _)⟩, fun x hx y hy => ?_⟩
      rcases mem_cons.mp hy with rfl | hy
      · exact hlow x hx
      · exact (hlow x hx).trans (hhigh' y hy)
    · rw [and_iff_left hne, hmem]
      simp only [Option.isSome_none, Bool.false_eq_true, if_false, mem_append, mem_cons]
      tauto

end

/-! ## Slices of tuples that are taken apart -/

section
variable {key : OpenFGA.TupleKey → String} {t : OpenFGA.TupleKey} {slice : List OpenFGA.TupleKey}

lemma insertSortedTuple_append {front} (h : ∀ x ∈ front, key x < key t) :
    OpenFGA.insertSortedTuple key t (front ++ slice) =
      front ++ OpenFGA.insertSortedTuple key t slice := by
  induction front with
  | nil => rfl
  | cons x front ih =>
    obtain ⟨hx, hfront⟩ := forall_mem_cons.mp h
    rw [cons_append, OpenFGA.insertSortedTuple, if_pos hx, ih hfront, cons_append]

/-- Going through a sorted slice finds the place that binary search finds. -/
lemma insertSortedTuple_eq_insertSorted (hs : Increasing key slice) :
    OpenFGA.insertSortedTuple key t slice = insertSorted key slice t := by
  obtain ⟨hlow, hhigh⟩ := searchKey_spec hs (key t)
  rw [insertSorted, found, ← head?_drop]
  nth_rewrite 1 [← take_append_drop (searchKey key slice (key t)) slice]
  rw [insertSortedTuple_append hlow]
  cases hdrop : slice.drop (searchKey key slice (key t)) with
  | nil => rfl
  | cons y ys =>
    have hle := hhigh y (hdrop ▸ mem_cons_self)
    rw [OpenFGA.insertSortedTuple, if_neg (not_lt.mpr hle)]
    by_cases hkey : key y = key t
    · have hfound : ((y :: ys).head?.filter fun x => key x = key t).isSome := by simp [hkey]
      rw [if_pos hkey, if_pos hfound, ← hdrop, take_append_drop]
    · simp [hkey]

theorem insertAllSorted_eq (key : OpenFGA.TupleKey → String) (ts : List OpenFGA.TupleKey) :
    insertAllSorted key ts = ts.foldl (insertSorted key) [] ∧
      Increasing key (insertAllSorted key ts) := by
  induction ts using reverseRecOn with
  | nil => exact ⟨rfl, .nil⟩
  | append_singleton ts t ih =>
    have hround : insertAllSorted key (ts ++ [t]) = insertSorted key
        (insertAllSorted key ts) t := by
      rw [insertAllSorted, foldl_append]
      exact insertSortedTuple_eq_insertSorted ih.2
    rw [hround, foldl_append, ← ih.1]
    exact ⟨rfl, (insertSorted_spec ih.2 t).1⟩

end

/-! ## The maps -/

section
variable {τ K : Type} [DecidableEq K] {place : τ → K} {key : τ → String} {ts : List τ} {t : τ}
  {m : K → List τ}

/-- `m` has the slices of the tuples `ts`, where `place` says in which slice a tuple goes. -/
structure Indexes (place : τ → K) (key : τ → String) (ts : List τ) (m : K → List τ) : Prop where
  increasing : ∀ k, Increasing key (m k)
  mem : ∀ k x, x ∈ m k ↔ (ts.find? fun t => place t = k ∧ key t = key x) = some x

/-- A round of the loop. -/
lemma Indexes.insert (h : Indexes place key ts m) :
    Indexes place key (ts ++ [t])
      (Function.update m (place t) (insertSorted key (m (place t)) t)) := by
  obtain ⟨hs, hmem⟩ := insertSorted_spec (h.increasing (place t)) t
  refine ⟨fun k => ?_, fun k x => ?_⟩
  · rcases eq_or_ne k (place t) with rfl | hk
    · rwa [Function.update_self]
    · rw [Function.update_of_ne hk]
      exact h.increasing k
  · rw [find?_append, Option.or_eq_some_iff, ← h.mem]
    rcases eq_or_ne k (place t) with rfl | hk
    · rw [Function.update_self, hmem]
      refine or_congr_right ?_
      -- the slice has no tuple with the key of `t` exactly when `ts` has none
      have hnone : (∀ y ∈ m (place t), key y ≠ key t) ↔
          (ts.find? fun t' => place t' = place t ∧ key t' = key t) = none := by
        constructor
        · intro hne
          by_contra hsome
          obtain ⟨y, hy⟩ := Option.ne_none_iff_exists'.mp hsome
          have hkey : key y = key t := by
            have := find?_some hy
            simp only [decide_eq_true_eq] at this
            exact this.2
          exact hne y ((h.mem _ y).mpr (hkey ▸ hy)) hkey
        · intro hnone y hy hkey
          rw [h.mem, hkey, hnone] at hy
          cases hy
      by_cases hx : x = t
      · subst hx
        simp [hnone]
      · simp [hx, Ne.symm hx]
    · have ht : ¬ (place t = k ∧ key t = key x) := fun ht => hk ht.1.symm
      simp [Function.update_of_ne hk, ht]

end

variable {S K : Type} [DecidableEq K] (digest : List UInt8 → K)

/-- What a builder makes of three strings. -/
def ctxKey (a b c : String) : K := digest (bytes [.string a, .string b, .string c])

def ctxTuplesByUserKey (userID relation objectType : String) : K :=
  ctxKey digest userID relation objectType

/-- The type of a user, with the relation of a userset. -/
def userType (user : String) : String :=
  if isObjectRelation user then
    (splitObject (splitObjectRelation user).1).1 ++ "#" ++ (splitObjectRelation user).2
  else (splitObject user).1

/-- The maps of a `Request`.  A key that is missing has an empty slice. -/
structure Maps (K S : Type) where
  ctxTuplesByUserID : K → List (Write.TupleKey S)
  ctxTuplesByObjectID : K → List (Write.TupleKey S)

def insertSortedTuple (slice : List (Write.TupleKey S)) (t : Write.TupleKey S) (sortKey : String) :
    List (Write.TupleKey S) :=
  insertSorted (fun t => if sortKey = "object" then t.object else t.user) slice t

/-- The search of `specificType`. -/
def specificType (m : Maps K S) (object relation user : String) : Option (Write.TupleKey S) :=
  found (·.object) (m.ctxTuplesByUserID (ctxTuplesByUserKey digest user relation (getType object)))
    object

/-- The first tuple with this object, relation and user. -/
def first (ts : List (Write.TupleKey S)) (object relation user : String) :
    Option (Write.TupleKey S) :=
  ts.find? fun t => t.object = object ∧ t.relation = relation ∧ t.user = user

end OpenFGA.ContextualIndex
