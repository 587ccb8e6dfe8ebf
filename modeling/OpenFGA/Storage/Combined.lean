/-
  `CombinedTupleReader` (`pkg/storage/storagewrappers/combinedtuplereader.go`): the contextual
  tuples of a request read together with the stored ones.

  The reader asks the datastore with the whole filter, and makes the tests for the contextual
  tuples itself.  It leaves some of them out: `Read` does not look at the user and the
  conditions, `ReadUsersetTuples` not at the conditions, and `ReadStartingWithUser` not at the
  ids of the objects and the conditions.  An object that is given by its type matches no contextual
  tuple, and neither does a filter for usersets without restrictions.

  The order in which `slices.SortFunc` leaves tuples of one object is open.
-/

import OpenFGA.Storage.OrderedCombined
import OpenFGA.Storage.Read
import OpenFGA.Storage.UsersetTuples

namespace OpenFGA

open OpenFGA.Tuple Storage
open Validation (RelationReference)
open List

/-- `NewCombinedTupleReader`: the contextual tuples, ordered by object. -/
structure CombinedTupleReader where
  contextualTuples : List Key
  orderedByObjectID : List Key
  perm : orderedByObjectID.Perm contextualTuples
  sorted : orderedByObjectID.Pairwise fun a b => a.object ≤ b.object

namespace CombinedTupleReader

/-- The test of `filterTuples`. -/
def passes (targetObject targetRelation : String) (targetUsers : List String) (tk : Key) : Bool :=
  (targetObject = "" || tk.object = targetObject) &&
    (targetRelation = "" || tk.relation = targetRelation) &&
    (targetUsers = [] || targetUsers.contains tk.user)

def filterTuples (tuples : List Key) (targetObject targetRelation : String)
    (targetUsers : List String) : List Key :=
  tuples.filter (passes targetObject targetRelation targetUsers)

/-- The test of the loop of `tupleMatchesAllowedUserTypeRestrictions`. -/
def allowedBy (tupleUser : String) (allowedUserType : RelationReference) : Bool :=
  match allowedUserType.shape with
  | .wildcard => isTypedWildcard tupleUser && getType tupleUser = allowedUserType.type
  | .userset relation => isObjectRelation tupleUser && getType tupleUser = allowedUserType.type &&
      getRelation tupleUser = relation
  | .object => false

def tupleMatchesAllowedUserTypeRestrictions (t : Key)
    (allowedUserTypeRestrictions : List RelationReference) : Bool :=
  if getUserTypeFromUser t.user ≠ .userSet then false
  else allowedUserTypeRestrictions.any (allowedBy t.user)

/-- `NewCombinedIterator` with a static iterator in front, read to its end. -/
def combined (tuples : List Key) (iter2 : Iter Key) : Iter Key := ⟨tuples ++ iter2.items, iter2.err⟩

variable (c : CombinedTupleReader)

/-- `Read`; `iter2` is what the datastore returns for the filter. -/
def read (filter : ReadTuples.Filter) (iter2 : Iter Key) : Iter Key :=
  combined (filterTuples c.orderedByObjectID filter.object filter.relation []) iter2

def readUsersetTuples (filter : UsersetTuples.Filter) (iter2 : Iter Key) : Iter Key :=
  combined ((filterTuples c.orderedByObjectID filter.object filter.relation []).filter fun t =>
    tupleMatchesAllowedUserTypeRestrictions t filter.allowedUserTypeRestrictions) iter2

/-- The contextual tuples of `ReadStartingWithUser`. -/
def startingWithUser (filter : StartingWithUser.Filter) : List Key :=
  (filterTuples c.orderedByObjectID "" filter.relation filter.users).filter fun t =>
    getType t.object = filter.objectType

def readStartingWithUser (filter : StartingWithUser.Filter) (withResultsSortedAscending : Bool)
    (iter2 : Iter Key) : Iter Key :=
  if withResultsSortedAscending then
    OrderedCombined.combine (·.object) [⟨c.startingWithUser filter, none⟩, iter2]
  else combined (c.startingWithUser filter) iter2

end CombinedTupleReader

/-! ## What the reads are for -/

/-- The user matches: it is the one that is asked for, or has the type that is asked for. -/
def MatchesUser (user : String) (t : Key) : Prop :=
  user ≠ "" → if (splitObject user).1 ≠ "" ∧ (splitObject user).2 = ""
    then getType t.user = (splitObject user).1 else t.user = user

instance (user : String) (t : Key) : Decidable (MatchesUser user t) :=
  inferInstanceAs (Decidable (_ → _))

/-- The tuple is to be returned by `Read`. -/
def ReadTuples.Filter.Matches (f : ReadTuples.Filter) (t : Key) : Prop :=
  f.MatchesRest t ∧ MatchesUser f.user t

instance (f : ReadTuples.Filter) (t : Key) : Decidable (f.Matches t) :=
  inferInstanceAs (Decidable (_ ∧ _))

/-- The tuple is to be returned by `ReadUsersetTuples`: without restrictions, every userset
    and every wildcard. -/
def UsersetTuples.Filter.MatchesAny (f : UsersetTuples.Filter) (t : Key) : Prop :=
  f.MatchesRest t ∧ getUserTypeFromUser t.user = .userSet ∧
    (f.allowedUserTypeRestrictions = [] ∨
      ∃ d ∈ f.allowedUserTypeRestrictions, UsersetTuples.Allows t.user d) ∧
    MatchesConditions f.conditions t

instance (f : UsersetTuples.Filter) (t : Key) : Decidable (f.MatchesAny t) :=
  inferInstanceAs (Decidable (_ ∧ _))

namespace CombinedTupleReader

/-- The contextual tuple has the object and the relation, as far as `filterTuples` looks at
    them. -/
def Passes (object relation : String) (t : Key) : Prop :=
  (object = "" ∨ t.object = object) ∧ (relation = "" ∨ t.relation = relation)

/-- What the contextual tuples have to meet for `Read` to be exact. -/
structure ReadExact (contextualTuples : List Key) (f : ReadTuples.Filter) : Prop where
  /-- The tuples of the object and the relation have the user and the condition. -/
  untested : ∀ t ∈ contextualTuples, Passes f.object f.relation t →
    MatchesUser f.user t ∧ MatchesConditions f.conditions t
  /-- No tuple is asked for by a part of its object. -/
  object : ∀ t ∈ contextualTuples, f.Matches t → f.object = "" ∨ t.object = f.object

/-- What the contextual tuples have to meet for `ReadUsersetTuples` to be exact. -/
structure UsersetsExact (contextualTuples : List Key) (f : UsersetTuples.Filter) : Prop where
  /-- The tuples that a restriction allows have the condition; and none is returned for a filter
      without an object or a relation. -/
  untested : ∀ t ∈ contextualTuples, Passes f.object f.relation t →
    (∃ d ∈ f.allowedUserTypeRestrictions, UsersetTuples.Allows t.user d) →
      f.MatchesRest t ∧ MatchesConditions f.conditions t
  /-- A filter without restrictions asks for no contextual tuple. -/
  restrictions : f.allowedUserTypeRestrictions = [] → ∀ t ∈ contextualTuples, ¬ f.MatchesAny t

/-- The contextual tuple passes the tests of `ReadStartingWithUser`. -/
def StartsWith (f : StartingWithUser.Filter) (t : Key) : Prop :=
  (f.relation = "" ∨ t.relation = f.relation) ∧ (f.users = [] ∨ t.user ∈ f.users) ∧
    getType t.object = f.objectType

/-- What the contextual tuples have to meet for `ReadStartingWithUser` to be exact: those that
    pass have the id and the condition, and the relation and the user where the filter names
    none. -/
def StartingExact (contextualTuples : List Key) (f : StartingWithUser.Filter) : Prop :=
  ∀ t ∈ contextualTuples, StartsWith f t → f.Matches t

/-- The same for the sorted read, where only the objects count. -/
def SortedExact (stored contextualTuples : List Key) (f : StartingWithUser.Filter) : Prop :=
  ∀ t ∈ contextualTuples, StartsWith f t →
    ∃ t' ∈ stored ++ contextualTuples, f.Matches t' ∧ t'.object = t.object

/-! ## The tests -/

section
variable {t : Key} {f : ReadTuples.Filter}

lemma passes_nil {object relation} :
    passes object relation [] t = true ↔ Passes object relation t := by
  simp [passes, Passes]

lemma allowedBy_iff {user d} :
    allowedBy user d = true ↔ UsersetTuples.Allows user d := by
  unfold allowedBy UsersetTuples.Allows
  cases d.shape with
  | object => simp
  | wildcard =>
    simp only [Bool.and_eq_true, decide_eq_true_eq]
    refine and_congr_right fun hwild => ?_
    obtain ⟨type, -, hc, rfl⟩ := isTypedWildcard_iff.mp hwild
    rw [getType, splitObject_buildObject hc]
    constructor
    · rintro rfl
      rfl
    · intro h
      have hlist := congrArg String.toList h
      simpa [buildObject, String.toList_inj] using hlist
  | userset relation =>
    simp only [Bool.and_eq_true, decide_eq_true_eq, and_assoc]
    refine and_congr_right fun huserset => ?_
    have hvalid : isValidUser user = true := by
      rw [isValidUser, show isValidUserset user = true from huserset, Bool.or_true]
    rw [getType, toUserParts_type hvalid]
    rfl

lemma tupleMatches_iff {restrictions} :
    tupleMatchesAllowedUserTypeRestrictions t restrictions = true ↔
      ∃ d ∈ restrictions, UsersetTuples.Allows t.user d := by
  rw [tupleMatchesAllowedUserTypeRestrictions]
  split_ifs with h
  · refine ⟨nofun, ?_⟩
    rintro ⟨d, -, hallows⟩
    exact absurd hallows.userSet h
  · rw [any_eq_true]
    exact exists_congr fun d => and_congr_right fun _ => allowedBy_iff

/-- What `Read` has to return passes its tests, the object apart. -/
lemma passes_of_matches (h : f.Matches t)
    (hobject : f.object = "" ∨ t.object = f.object) : Passes f.object f.relation t :=
  ⟨hobject, Classical.or_iff_not_imp_left.mpr h.1.2.1⟩

/-- A tuple with the object and the relation matches them. -/
lemma matchesRest_of_passes (h : Passes f.object f.relation t)
    (hconditions : MatchesConditions f.conditions t) : f.MatchesRest t := by
  refine ⟨?_, fun hne => h.2.resolve_left hne, hconditions⟩
  rcases h.1 with hempty | hobject
  · rw [hempty]
    exact ⟨fun hne => absurd rfl hne, fun hne => absurd rfl hne⟩
  · rw [MatchesObject, hobject]
    exact ⟨fun _ => rfl, fun _ => rfl⟩

lemma startsWith_of_matches {f} (h : f.Matches t) : StartsWith f t :=
  ⟨.inr h.1.2.1, .inr h.2, h.1.1⟩

end

/-! ## Exactness -/

/-- Two filters keep the same of a list exactly when they agree on it. -/
lemma filter_perm_iff {α : Type} {p q : α → Bool} {xs : List α} :
    (xs.filter p).Perm (xs.filter q) ↔ ∀ x ∈ xs, (p x = true ↔ q x = true) := by
  constructor
  · intro h x hx
    have hmem : x ∈ xs.filter p ↔ x ∈ xs.filter q := h.mem_iff
    simpa [mem_filter, hx] using hmem
  · intro h
    rw [filter_congr fun x hx => Bool.eq_iff_iff.mpr (h x hx)]

section
variable {c : CombinedTupleReader} {stored result : List Key} {f : StartingWithUser.Filter}

/-- A read is exact when the overlay keeps the contextual tuples that match. -/
lemma combined_perm_iff {keeps : Key → Bool} {Matches : Key → Prop} [DecidablePred Matches]
    (hresult : result.Perm (stored.filter fun t => Matches t)) :
    (combined (c.orderedByObjectID.filter keeps) ⟨result, none⟩).items.Perm
        ((stored ++ c.contextualTuples).filter fun t => Matches t) ↔
      ∀ t ∈ c.contextualTuples, (keeps t = true ↔ Matches t) := by
  have hkept : (c.orderedByObjectID.filter keeps).Perm (c.contextualTuples.filter keeps) :=
    c.perm.filter _
  have hleft : (combined (c.orderedByObjectID.filter keeps) ⟨result, none⟩).items.Perm
      (stored.filter (fun t => Matches t) ++ c.contextualTuples.filter keeps) :=
    (hkept.append hresult).trans perm_append_comm
  rw [filter_append, hleft.congr_left, perm_append_left_iff, filter_perm_iff]
  exact forall₂_congr fun t _ => by rw [decide_eq_true_eq]

lemma read_perm_iff {f} (hresult : result.Perm (stored.filter fun t => f.Matches t)) :
    (c.read f ⟨result, none⟩).items.Perm
        ((stored ++ c.contextualTuples).filter fun t => f.Matches t) ↔
      ReadExact c.contextualTuples f := by
  rw [read, filterTuples, combined_perm_iff hresult]
  constructor
  · intro h
    constructor
    · intro t ht hpasses
      have hmatches := (h t ht).mp (passes_nil.mpr hpasses)
      exact ⟨hmatches.2, hmatches.1.2.2⟩
    · intro t ht hmatches
      exact (passes_nil.mp ((h t ht).mpr hmatches)).1
  · intro h t ht
    rw [passes_nil]
    constructor
    · intro hpasses
      obtain ⟨huser, hconditions⟩ := h.untested t ht hpasses
      exact ⟨matchesRest_of_passes hpasses hconditions, huser⟩
    · intro hmatches
      exact passes_of_matches hmatches (h.object t ht hmatches)

lemma readUsersetTuples_perm_iff {f}
    (hresult : result.Perm (stored.filter fun t => f.MatchesAny t)) :
    (c.readUsersetTuples f ⟨result, none⟩).items.Perm
        ((stored ++ c.contextualTuples).filter fun t => f.MatchesAny t) ↔
      UsersetsExact c.contextualTuples f := by
  rw [readUsersetTuples, filterTuples, filter_filter, combined_perm_iff hresult]
  have hkeeps : ∀ t, (tupleMatchesAllowedUserTypeRestrictions t f.allowedUserTypeRestrictions &&
      passes f.object f.relation [] t) = true ↔
      (∃ d ∈ f.allowedUserTypeRestrictions, UsersetTuples.Allows t.user d) ∧
        Passes f.object f.relation t := by
    intro t
    rw [Bool.and_eq_true, tupleMatches_iff, passes_nil]
  constructor
  · intro h
    constructor
    · intro t ht hpasses hallowed
      obtain ⟨hrest, -, -, hconditions⟩ := (h t ht).mp ((hkeeps t).mpr ⟨hallowed, hpasses⟩)
      exact ⟨hrest, hconditions⟩
    · intro hnone t ht hmatches
      obtain ⟨⟨d, hd, -⟩, -⟩ := (hkeeps t).mp ((h t ht).mpr hmatches)
      rw [hnone] at hd
      exact absurd hd not_mem_nil
  · intro h t ht
    rw [hkeeps]
    constructor
    · rintro ⟨⟨d, hd, hallows⟩, hpasses⟩
      obtain ⟨hrest, hconditions⟩ := h.untested t ht hpasses ⟨d, hd, hallows⟩
      exact ⟨hrest, hallows.userSet, .inr ⟨d, hd, hallows⟩, hconditions⟩
    · intro hmatches
      obtain ⟨hrest, -, hallowed, -⟩ := id hmatches
      refine ⟨hallowed.resolve_left fun hnone => h.restrictions hnone t ht hmatches, ?_⟩
      exact ⟨.inr hrest.1, .inr hrest.2⟩

lemma mem_startingWithUser {t} :
    t ∈ c.startingWithUser f ↔ t ∈ c.contextualTuples ∧ StartsWith f t := by
  simp only [startingWithUser, filterTuples, mem_filter, c.perm.mem_iff, passes, StartsWith]
  simp [and_assoc]

lemma readStartingWithUser_perm_iff (hresult : result.Perm (stored.filter fun t => f.Matches t)) :
    (c.readStartingWithUser f false ⟨result, none⟩).items.Perm
        ((stored ++ c.contextualTuples).filter fun t => f.Matches t) ↔
      StartingExact c.contextualTuples f := by
  have hkeeps : ∀ t, (decide (getType t.object = f.objectType) &&
      passes "" f.relation f.users t) = true ↔ StartsWith f t := by
    intro t
    simp only [passes, StartsWith, Bool.and_eq_true, Bool.or_eq_true, decide_eq_true_eq,
      contains_iff_mem]
    tauto
  rw [readStartingWithUser, if_neg Bool.false_ne_true, startingWithUser, filterTuples,
    filter_filter, combined_perm_iff hresult]
  refine forall₂_congr fun t _ => ?_
  rw [hkeeps]
  exact ⟨fun h => h.mp, fun h => ⟨h, startsWith_of_matches⟩⟩

/-- The sorted read yields the objects of the kept and of the stored tuples, each once. -/
lemma readStartingWithUser_sorted (hsorted : result.Pairwise fun a b => a.object ≤ b.object) :
    (c.readStartingWithUser f true ⟨result, none⟩).err = none ∧
      ((c.readStartingWithUser f true ⟨result, none⟩).items.map (·.object)).Pairwise (· < ·) ∧
      ∀ o, o ∈ (c.readStartingWithUser f true ⟨result, none⟩).items.map (·.object) ↔
        ∃ t, (t ∈ c.startingWithUser f ∨ t ∈ result) ∧ t.object = o := by
  have hordered : ∀ it ∈ [(⟨c.startingWithUser f, none⟩ : Iter Key), ⟨result, none⟩],
      OrderedCombined.Ordered (·.object) it := by
    intro it h
    rcases mem_cons.mp h with rfl | h
    · exact ⟨rfl, (c.sorted.filter _).filter _⟩
    · cases mem_singleton.mp h
      exact ⟨rfl, hsorted⟩
  rw [readStartingWithUser, if_pos rfl]
  obtain ⟨herr, hlt, -⟩ := OrderedCombined.combine_spec hordered
  refine ⟨herr, pairwise_map.mpr hlt, fun o => ?_⟩
  rw [OrderedCombined.mem_keys_combine hordered, mem_map]
  simp only [flatMap_cons, flatMap_nil, append_nil, mem_append]

lemma readStartingWithUser_sorted_iff (hresult : result.Perm (stored.filter fun t => f.Matches t))
    (hsorted : result.Pairwise fun a b => a.object ≤ b.object) :
    (((c.readStartingWithUser f true ⟨result, none⟩).items.map (·.object)).Pairwise (· < ·) ∧
      ∀ o, o ∈ (c.readStartingWithUser f true ⟨result, none⟩).items.map (·.object) ↔
        ∃ t ∈ stored ++ c.contextualTuples, f.Matches t ∧ t.object = o) ↔
      SortedExact stored c.contextualTuples f := by
  obtain ⟨-, hlt, hmem⟩ := @readStartingWithUser_sorted c result f hsorted
  have hstored : ∀ t, t ∈ result ↔ t ∈ stored ∧ f.Matches t := by
    intro t
    rw [hresult.mem_iff, mem_filter, decide_eq_true_eq]
  rw [and_iff_right hlt]
  constructor
  · intro h t ht hstarts
    exact (h t.object).mp ((hmem _).mpr ⟨t, .inl (mem_startingWithUser.mpr ⟨ht, hstarts⟩), rfl⟩)
  · intro h o
    rw [hmem]
    constructor
    · rintro ⟨t, hkept | ht, rfl⟩
      · obtain ⟨ht, hstarts⟩ := mem_startingWithUser.mp hkept
        exact h t ht hstarts
      · obtain ⟨ht, hmatches⟩ := (hstored t).mp ht
        exact ⟨t, mem_append_left _ ht, hmatches, rfl⟩
    · rintro ⟨t, ht, hmatches, rfl⟩
      rcases mem_append.mp ht with ht | ht
      · exact ⟨t, .inr ((hstored t).mpr ⟨ht, hmatches⟩), rfl⟩
      · exact ⟨t, .inl (mem_startingWithUser.mpr ⟨ht, startsWith_of_matches hmatches⟩), rfl⟩

end

/-- Which contextual tuples make the reads return what matches the filter: for `Read`,
    `ReadUsersetTuples`, `ReadStartingWithUser` and the sorted `ReadStartingWithUser`, over a
    datastore that returns the stored tuples that match. -/
theorem reads_exact_iff (c : CombinedTupleReader) (stored result : List Key) :
    (∀ f : ReadTuples.Filter, result.Perm (stored.filter fun t => f.Matches t) →
      ((c.read f ⟨result, none⟩).items.Perm
          ((stored ++ c.contextualTuples).filter fun t => f.Matches t) ↔
        ReadExact c.contextualTuples f)) ∧
    (∀ f : UsersetTuples.Filter, result.Perm (stored.filter fun t => f.MatchesAny t) →
      ((c.readUsersetTuples f ⟨result, none⟩).items.Perm
          ((stored ++ c.contextualTuples).filter fun t => f.MatchesAny t) ↔
        UsersetsExact c.contextualTuples f)) ∧
    (∀ f : StartingWithUser.Filter, result.Perm (stored.filter fun t => f.Matches t) →
      ((c.readStartingWithUser f false ⟨result, none⟩).items.Perm
          ((stored ++ c.contextualTuples).filter fun t => f.Matches t) ↔
        StartingExact c.contextualTuples f)) ∧
    ∀ f : StartingWithUser.Filter, result.Perm (stored.filter fun t => f.Matches t) →
      (result.Pairwise fun a b => a.object ≤ b.object) →
      ((((c.readStartingWithUser f true ⟨result, none⟩).items.map (·.object)).Pairwise (· < ·) ∧
        ∀ o, o ∈ (c.readStartingWithUser f true ⟨result, none⟩).items.map (·.object) ↔
          ∃ t ∈ stored ++ c.contextualTuples, f.Matches t ∧ t.object = o) ↔
        SortedExact stored c.contextualTuples f) :=
  ⟨fun _ => read_perm_iff, fun _ => readUsersetTuples_perm_iff,
    fun _ => readStartingWithUser_perm_iff, fun _ => readStartingWithUser_sorted_iff⟩

-- A contextual tuple with a condition, under a filter for tuples without one.

private def regionalGrant : Key := ⟨"document:1", "viewer", "user:anne", "in_region", ""⟩

private def regionalReader : CombinedTupleReader where
  contextualTuples := [regionalGrant]
  orderedByObjectID := [regionalGrant]
  perm := List.Perm.refl _
  sorted := pairwise_singleton _ _

private def unconditioned : StartingWithUser.Filter where
  objectType := "document"
  relation := "viewer"
  userFilter := [⟨"user:anne", ""⟩]
  objectIDs := none
  conditions := [""]

/-- Over an empty datastore the filter of `unconditioned` is not met. -/
theorem reads_exact_iff_regional :
    regionalReader.contextualTuples = [regionalGrant] ∧
      ((regionalReader.readStartingWithUser unconditioned false ⟨[], none⟩).items.Perm
          ((([] : List Key) ++ regionalReader.contextualTuples).filter
            fun t => unconditioned.Matches t) ↔
        StartingExact regionalReader.contextualTuples unconditioned) :=
  ⟨rfl, (reads_exact_iff regionalReader [] []).2.2.1 unconditioned (List.Perm.refl _)⟩

/-- A contextual tuple with a condition that the filter does not list is returned, sorted or
    not. -/
theorem reads_ignore_conditions :
    (regionalReader.readStartingWithUser unconditioned false ⟨[], none⟩).items = [regionalGrant] ∧
      (regionalReader.readStartingWithUser unconditioned true ⟨[], none⟩).items =
        [regionalGrant] ∧
      ¬ unconditioned.Matches regionalGrant := by
  decide

end CombinedTupleReader
end OpenFGA
