/-
  The iterator cache of `CachedDatastore` (`cached_datastore.go`, `cached_iterators.go`).

  A `cachedIterator` collects the tuples it hands out.  After `Stop` a goroutine makes records of
  them and reads what is left, one goroutine at a time for a key; at the end it stores the
  records.  A field of a record that is known from the request is left empty, and put back by
  the `cachedTupleIterator` of a hit.

  What the request says of the type of the users is computed by a loop for which the empty
  string is both "not known yet" and "has no type".  So users without a type may get one.
-/

import OpenFGA.Cache.CachingIterator
import OpenFGA.Cache.Keys
import OpenFGA.Storage.WriteAgreement

namespace OpenFGA.CachedIterator

open OpenFGA.Tuple Feed
open CachingIterator (Stage)
open List

/-! ## Requests -/

inductive Request where
  | readStartingWithUser (f : StartingWithUser.Filter)
  | readUsersetTuples (f : UsersetTuples.Filter)
  | read (f : ReadTuples.Filter)

/-- The call of the key function. -/
def Request.key (store : String) : Request → Keys.Call
  | .readStartingWithUser f => .readStartingWithUser store f
  | .readUsersetTuples f => .readUsersetTuples store f
  | .read f => .read store f

/-- What `CachedDatastore` caches. -/
def Request.cached : Request → Bool
  | .read f => f.relation ≠ "" && isValidObject f.object
  | _ => true

/-- The fields that are known from the request; an empty one is not known. -/
structure Constants where
  objectType : String
  objectID : String
  relation : String
  userType : String
deriving DecidableEq, Repr

/-- The type of a user as the loop sees it. -/
def typeOf (user : String) : String := (splitObject user).1

/-- The loop of `newCachedIteratorByUserObjectType`. -/
def userTypeLoop (userType : String) : List String → String
  | [] => userType
  | user :: users =>
    if userType = "" then userTypeLoop (typeOf user) users
    else if userType ≠ typeOf user then ""
    else userTypeLoop userType users

/-- The constants that `newCachedIterator` is given. -/
def Request.constants : Request → Constants
  | .readStartingWithUser f => ⟨f.objectType, "", "", userTypeLoop "" f.users⟩
  | .readUsersetTuples f => ⟨(splitObject f.object).1, (splitObject f.object).2, f.relation, ""⟩
  | .read f => ⟨(splitObject f.object).1, (splitObject f.object).2, f.relation, ""⟩

/-! ## Records -/

variable (S : Type)

/-- `openfgav1.Tuple`; the timestamp is an instant. -/
structure Tuple where
  key : Write.TupleKey S
  timestamp : Option Int
deriving DecidableEq, Repr

/-- The fields of `storage.TupleRecord` that the cache uses. -/
structure TupleRecord where
  objectID : String
  objectType : String
  relation : String
  userObjectType : String
  userObjectID : String
  userRelation : String
  conditionName : String
  conditionContext : Option S
  insertedAt : Int
deriving DecidableEq, Repr

variable {S}

/-- The zero value of `time.Time`, in nanoseconds. -/
def zeroTime : Int := -62135596800000000000

/-- Leave a field empty that is known. -/
def erase (constant field : String) : String :=
  if constant ≠ "" ∧ constant = field then "" else field

/-- Put a field back that is known. -/
def restore (constant field : String) : String := if constant ≠ "" then constant else field

/-- The record that `addToBuffer` makes of a tuple. -/
def Constants.record (k : Constants) (t : Tuple S) : TupleRecord S where
  objectID := erase k.objectID (splitObject t.key.object).2
  objectType := erase k.objectType (splitObject t.key.object).1
  relation := erase k.relation t.key.relation
  userObjectType := erase k.userType (toUserParts t.key.user).1
  userObjectID := (toUserParts t.key.user).2.1
  userRelation := (toUserParts t.key.user).2.2
  conditionName := t.key.conditionName
  conditionContext := t.key.conditionContext
  insertedAt := t.timestamp.getD zeroTime

def Constants.buildTuple (P : Write.Structs S) (k : Constants) (r : TupleRecord S) : Tuple S where
  key :=
    ⟨⟨buildObject (restore k.objectType r.objectType) (restore k.objectID r.objectID),
      restore k.relation r.relation,
      fromUserParts (restore k.userType r.userObjectType) r.userObjectID r.userRelation⟩,
      Write.newRelationshipCondition P r.conditionName r.conditionContext⟩
  timestamp := some r.insertedAt

/-- What the first `n` calls of `Next` of a `cachedTupleIterator` yield. -/
def Constants.take (P : Write.Structs S) (k : Constants) :
    Nat → Source (TupleRecord S) Err → List (Tuple S)
  | 0, _ => []
  | n + 1, iter =>
    match iter.next with
    | .error _ => []
    | .ok (r, iter) => k.buildTuple P r :: k.take P n iter

/-- What a hit of the request yields, if it is read to its end. -/
def Request.replay (P : Write.Structs S) (f : Request) (records : List (TupleRecord S)) :
    List (Tuple S) :=
  f.constants.take P (records.length + 1) (Source.start records none)

/-! ## Iterators -/

variable (S)

/-- `cachedIterator`. -/
structure Cached where
  /-- What the datastore yields. -/
  answer : List (Tuple S)
  inner : Source (Tuple S) Err
  /-- `none` is a nil slice, here and in `records`. -/
  tuples : Option (List (Tuple S))
  records : Option (List (TupleRecord S))
  stage : Stage

/-- The iterators of a request, the singleflight group and the entry of its key. -/
structure World where
  iterators : List (Cached S)
  flight : Option Nat
  /-- The entry, unless it is invalid. -/
  cache : Option (List (TupleRecord S))
  /-- The context of the datastore is cancelled. -/
  cancelled : Bool
  /-- What was stored, and by which iterator. -/
  stored : List (Nat × List (TupleRecord S))

inductive Act where
  /-- A request misses the cache. -/
  | miss (answer : List (Tuple S)) (err : Option Err)
  /-- The entry expires, is evicted or is invalidated. -/
  | evict
  | cancel
  /-- `Next` of the caller, whose own context may be cancelled. -/
  | next (i : Nat) (cancelled : Bool)
  /-- `Head` of the caller. -/
  | head (i : Nat) (cancelled : Bool)
  /-- `Stop` of the caller. -/
  | stop (i : Nat)
  /-- The goroutine looks into the cache; `invalid` is what `isInvalidAt` says. -/
  | start (i : Nat) (invalid : Bool)
  /-- The goroutine calls `Head`, which may fail once the context is cancelled. -/
  | probe (i : Nat) (fails : Bool)
  /-- The goroutine calls `Do` of the group. -/
  | join (i : Nat)
  /-- One round of the loop, whose `Next` may fail once the context is cancelled. -/
  | drain (i : Nat) (fails : Bool)
  /-- The group is left by the one who drained. -/
  | leave (i : Nat)

variable {S}

def addToBuffer (k : Constants) (maxResultSize : Nat) (c : Cached S) (t : Tuple S) :
    Bool × Cached S :=
  match c.tuples with
  | none => (false, c)
  | some _ =>
    let records := c.records.getD [] ++ [k.record t]
    if maxResultSize ≤ records.length then (true, { c with tuples := none, records := none })
    else (true, { c with records := some records })

/-- The records that are made of the tuples that were handed out. -/
def buffer (k : Constants) (maxResultSize : Nat) (c : Cached S) : Cached S :=
  (c.tuples.getD []).foldl (fun c t => (addToBuffer k maxResultSize c t).2)
    { c with records := some [] }

namespace World

def init : World S := ⟨[], none, none, false, []⟩

/-- Iterator `i` has changed. -/
def update (w : World S) (i : Nat) (c : Cached S) : World S :=
  { w with iterators := w.iterators.set i c }

/-- The goroutine of iterator `i` ends. -/
def finish (w : World S) (i : Nat) (c : Cached S) : World S :=
  w.update i { c with stage := .finished }

/-- The goroutine of iterator `i` ends without its tuples. -/
def abandon (w : World S) (i : Nat) (c : Cached S) : World S := w.finish i { c with tuples := none }

/-- `flush` of iterator `i`, which ends its goroutine. -/
def flush (w : World S) (i : Nat) (c : Cached S) : World S :=
  if c.tuples = none ∨ w.cancelled then w.finish i c
  else
    let records := c.records.getD []
    { w.finish i { c with tuples := none, records := none } with
      cache := some records
      stored := w.stored ++ [(i, records)] }

/-- The group is free again. -/
def release (w : World S) : World S := { w with flight := none }

def step (f : Request) (maxResultSize : Nat) (w : World S) : Act S → Option (World S)
  | .miss answer err =>
    if f.cached then
      some { w with
        iterators := w.iterators ++ [⟨answer, Source.start answer err, some [], none, .reading⟩] }
    else none
  | .evict => some { w with cache := none }
  | .cancel => some { w with cancelled := true }
  | .next i cancelled =>
    match w.iterators[i]? with
    | none => none
    | some c =>
      -- `ErrIteratorDone` once it is closing; a cancelled call leaves the tuples alone
      if c.stage ≠ .reading ∨ cancelled then some w
      else match c.inner.next with
        | .ok (t, inner) =>
          let tuples := c.tuples.bind fun ts =>
            if maxResultSize ≤ (ts ++ [t]).length then none else some (ts ++ [t])
          some (w.update i { c with inner := inner, tuples := tuples })
        | .error err =>
          some (w.update i
            { c with tuples := if iterIsDoneOrCancelled err then c.tuples else none })
  | .head i _ => if i < w.iterators.length then some w else none
  | .stop i =>
    match w.iterators[i]? with
    | none => none
    | some c =>
      if c.stage ≠ .reading then some w
      else if c.tuples = none ∨ w.cancelled then some (w.finish i c)
      else some (w.update i { c with stage := .starting })
  | .start i invalid =>
    match w.iterators[i]? with
    | none => none
    | some c =>
      if c.stage ≠ .starting then none
      else if w.cache.isSome ∨ invalid then some (w.abandon i c)
      else some (w.update i { buffer f.constants maxResultSize c with stage := .probing })
  | .probe i fails =>
    match w.iterators[i]? with
    | none => none
    | some c =>
      if c.stage ≠ .probing ∨ (fails ∧ ¬ w.cancelled) then none
      else if fails then some (w.update i { c with stage := .joining })
      else match c.inner.head with
        | .error none => some (w.flush i c)
        | _ => some (w.update i { c with stage := .joining })
  | .join i =>
    match w.iterators[i]? with
    | none => none
    | some c =>
      if c.stage ≠ .joining then none
      else if w.flight.isSome then some (w.update i { c with stage := .waiting })
      else some { w.update i { c with stage := .draining } with flight := some i }
  | .drain i fails =>
    match w.iterators[i]? with
    | none => none
    | some c =>
      if c.stage ≠ .draining ∨ (fails ∧ ¬ w.cancelled) then none
      else if fails then some (w.finish i c).release
      else match c.inner.next with
        | .error none => some (w.flush i c).release
        | .error (some _) => some (w.finish i c).release
        | .ok (t, inner) =>
          match addToBuffer f.constants maxResultSize { c with inner := inner } t with
          | (true, c) => some (w.update i c)
          | (false, c) => some (w.finish i c).release
  | .leave i =>
    match w.iterators[i]? with
    | none => none
    | some c =>
      if c.stage = .waiting ∧ w.flight = none then some (w.finish i c) else none

end World

open World Cached

/-! ## The type of the users -/

/-- Behind the users without a type there are others, and these have one type. -/
def Grouped (users : List String) : Prop :=
  ∃ a as, (users.map typeOf).dropWhile (fun b => decide (b = "")) = a :: as ∧ ∀ b ∈ as, b = a

lemma userTypeLoop_of_ne {a} (ha : a ≠ "") (users : List String) :
    userTypeLoop a users = if ∀ b ∈ users.map typeOf, b = a then a else "" := by
  induction users with
  | nil => simp [userTypeLoop]
  | cons user users ih =>
    rw [userTypeLoop, if_neg ha, ih]
    by_cases htype : typeOf user = a
    · simp [htype]
    · rw [if_pos (Ne.symm htype), if_neg]
      simp [htype]

/-- The loop finds a type exactly for such users, and then it is the type of all that have one. -/
lemma userTypeLoop_spec (users : List String) :
    (userTypeLoop "" users ≠ "" ↔ Grouped users) ∧
      (userTypeLoop "" users ≠ "" → ∀ user ∈ users, typeOf user ≠ "" →
        typeOf user = userTypeLoop "" users) := by
  induction users with
  | nil => simp [userTypeLoop, Grouped]
  | cons user users ih =>
    by_cases htype : typeOf user = ""
    · have hloop : userTypeLoop "" (user :: users) = userTypeLoop "" users := by
        rw [userTypeLoop, if_pos rfl, htype]
      have hgrouped : Grouped (user :: users) ↔ Grouped users := by
        simp [Grouped, htype]
      rw [hloop, hgrouped]
      refine ⟨ih.1, fun hne => forall_mem_cons.mpr ⟨fun h => absurd htype h, ih.2 hne⟩⟩
    · have hloop : userTypeLoop "" (user :: users) =
          if ∀ b ∈ users.map typeOf, b = typeOf user then typeOf user else "" := by
        rw [userTypeLoop, if_pos rfl, userTypeLoop_of_ne htype]
      have hgrouped : Grouped (user :: users) ↔ ∀ b ∈ users.map typeOf, b = typeOf user := by
        simp [Grouped, htype]
      rw [hloop, hgrouped]
      by_cases hall : ∀ b ∈ users.map typeOf, b = typeOf user
      · rw [if_pos hall]
        refine ⟨iff_of_true htype hall,
          fun _ => forall_mem_cons.mpr ⟨fun _ => rfl, fun v hv _ => ?_⟩⟩
        exact hall _ (mem_map_of_mem hv)
      · rw [if_neg hall]
        exact ⟨iff_of_false (not_not.mpr rfl) hall, fun h => absurd rfl h⟩

/-! ## Fields -/

lemma restore_erase_iff {w r x} :
    restore r (erase w x) = x ↔ if r = "" then w ≠ x ∨ x = "" else r = x := by
  unfold restore erase
  by_cases hr : r = ""
  · rw [if_neg (not_not.mpr hr), if_pos hr]
    by_cases hw : w = x
    · by_cases hx : x = ""
      · simp [hw, hx]
      · simp [hw, hx, Ne.symm hx]
    · simp [hw]
  · rw [if_pos hr, if_neg hr]

lemma restore_erase_self {w x} (h : w ≠ "" → x = w) : restore w (erase w x) = x := by
  rw [restore_erase_iff]
  by_cases hw : w = ""
  · rw [if_pos hw, hw]
    exact (em (x = "")).symm.imp Ne.symm id
  · rw [if_neg hw, h hw]

lemma fromUserParts_inj {a b id relation} :
    fromUserParts a id relation = fromUserParts b id relation ↔ a = b := by
  constructor
  · intro h
    have htoList := congrArg String.toList h
    have hlength := congrArg length htoList
    unfold fromUserParts at htoList hlength
    by_cases ha : a = "" <;> by_cases hb : b = ""
    · rw [ha, hb]
    · simp [ha, hb] at hlength
      omega
    · simp [ha, hb] at hlength
      omega
    · exact String.toList_inj.mp (by simpa [ha, hb] using htoList)
  · rintro rfl
    rfl

/-! ## Tuples -/

section
variable {f g : Request} {t : Tuple S} {P : Write.Structs S}

/-- A datastore may return the tuple for the request.  SQLite compares the parts of a user. -/
def Request.Admits : Request → Tuple S → Prop
  | .readStartingWithUser f, t =>
    (CachingIterator.Request.readStartingWithUser f.objectType f.relation).Answers t.key ∧
      ∃ u ∈ f.userFilter, getObjectRelationAsString u = t.key.user ∨
        StartingWithUser.SQLite.Selects u t.key.user
  | .readUsersetTuples f, t =>
    (CachingIterator.Request.readUsersetTuples f.object f.relation).Answers t.key
  | .read f, t => (CachingIterator.Request.read f.object f.relation).Answers t.key

/-- The requests have the same key, before anything is digested. -/
def SameKey (K : Keys.Primitives) (store : String) (f g : Request) : Prop :=
  (f.key store).contents K = (g.key store).contents K

/-- The user comes back to `g` as `f` has read it. -/
def KeepsUser : Request → Request → Tuple S → Prop
  | .readStartingWithUser f, .readStartingWithUser g, t =>
    if (toUserParts t.key.user).1 = "" then ¬ Grouped g.users else Grouped f.users → Grouped g.users
  | _, _, _ => True

/-- The tuple comes back to `g` as `f` has read it. -/
structure ComesBack (f g : Request) (t : Tuple S) : Prop where
  user : KeepsUser f g t
  context : Write.ContextGiven t.key
  timestamp : t.timestamp ≠ none

lemma condition_comes_back_iff (P : Write.Structs S)
    (hname : ∀ c, t.key.condition = some c → c.name ≠ "") :
    Write.newRelationshipCondition P t.key.conditionName t.key.conditionContext = t.key.condition ↔
      Write.ContextGiven t.key := by
  unfold Write.TupleKey.conditionName Write.TupleKey.conditionContext Write.ContextGiven
  cases hcondition : t.key.condition with
  | none => simp [Write.newRelationshipCondition]
  | some c =>
    obtain ⟨name, context⟩ := c
    have hne : name ≠ "" := hname _ hcondition
    show Write.newRelationshipCondition P name context = some ⟨name, context⟩ ↔ _
    rw [Write.newRelationshipCondition_of_ne hne]
    cases context <;> simp

lemma timestamp_comes_back_iff (t : Tuple S) :
    some (t.timestamp.getD zeroTime) = t.timestamp ↔ t.timestamp ≠ none := by
  cases t.timestamp <;> simp

/-- A tuple whose object and relation are rebuilt. -/
lemma buildTuple_record_iff {k k' : Constants} (ht : t.key.Valid)
    (hobjectType : restore k'.objectType (erase k.objectType (splitObject t.key.object).1) =
      (splitObject t.key.object).1)
    (hobjectID : restore k'.objectID (erase k.objectID (splitObject t.key.object).2) =
      (splitObject t.key.object).2)
    (hrelation : restore k'.relation (erase k.relation t.key.relation) = t.key.relation) :
    k'.buildTuple P (k.record t) = t ↔
      restore k'.userType (erase k.userType (toUserParts t.key.user).1) =
        (toUserParts t.key.user).1 ∧ Write.ContextGiven t.key ∧ t.timestamp ≠ none := by
  have hbuild : k'.buildTuple P (k.record t) =
      ⟨⟨⟨t.key.object, t.key.relation,
        fromUserParts (restore k'.userType (erase k.userType (toUserParts t.key.user).1))
          (toUserParts t.key.user).2.1 (toUserParts t.key.user).2.2⟩,
        Write.newRelationshipCondition P t.key.conditionName t.key.conditionContext⟩,
        some (t.timestamp.getD zeroTime)⟩ := by
    simp only [Constants.buildTuple, Constants.record, hobjectType, hobjectID, hrelation,
      buildObject_splitObject ht.1.1]
  have huser := fromUserParts_toUserParts ht.1.2.2
  rw [hbuild, ← condition_comes_back_iff P ht.2, ← timestamp_comes_back_iff]
  obtain ⟨⟨⟨object, relation, user⟩, condition⟩, timestamp⟩ := t
  simp only [Tuple.mk.injEq, Write.TupleKey.mk.injEq, Write.KeyWithoutCondition.mk.injEq, true_and,
    and_assoc]
  refine and_congr_left fun _ => ?_
  constructor
  · intro h
    exact fromUserParts_inj.mp (h.trans huser.symm)
  · intro h
    rw [h]
    exact huser

/-- The type of a user is found in a string that begins with the user's object. -/
lemma typeOf_getObjectRelationAsString {u} (h : (splitObject u.object).1 ≠ "") :
    typeOf (getObjectRelationAsString u) = (splitObject u.object).1 := by
  unfold typeOf splitObject at *
  cases hfirst : Cut.first ':' u.object.toList with
  | none =>
    rw [hfirst] at h
    exact absurd rfl h
  | some p =>
    obtain ⟨hobject, hnotMem⟩ := Cut.first_eq_some.mp hfirst
    obtain ⟨rest, hrest⟩ : ∃ rest, (getObjectRelationAsString u).toList = p.1 ++ ':' :: rest := by
      unfold getObjectRelationAsString
      split
      · exact ⟨p.2 ++ "#".toList ++ u.relation.toList, by simp [hobject]⟩
      · exact ⟨p.2, hobject⟩
    rw [hrest, Cut.first_append hnotMem]

/-- The type of a user that a datastore returns is that of one of the users asked for. -/
lemma exists_typeOf_eq {f} (ht : t.key.Valid)
    (h : Request.Admits (.readStartingWithUser f) t) (htype : (toUserParts t.key.user).1 ≠ "") :
    ∃ user ∈ f.users, typeOf user = (toUserParts t.key.user).1 := by
  obtain ⟨-, u, hu, hselects⟩ := h
  refine ⟨getObjectRelationAsString u, mem_map_of_mem hu, ?_⟩
  rcases hselects with heq | hselects
  · rw [heq, toUserParts_type ht.1.2.2, typeOf]
  · rw [hselects.1] at htype ⊢
    exact typeOf_getObjectRelationAsString htype

/-- The type of the user, between two requests for the same users. -/
lemma userType_comes_back_iff {f g} (hperm : f.users.Perm g.users)
    (ht : t.key.Valid) (h : Request.Admits (.readStartingWithUser f) t) :
    restore (userTypeLoop "" g.users) (erase (userTypeLoop "" f.users) (toUserParts t.key.user).1) =
        (toUserParts t.key.user).1 ↔
      KeepsUser (.readStartingWithUser f) (.readStartingWithUser g) t := by
  obtain ⟨hf, hftyped⟩ := userTypeLoop_spec f.users
  obtain ⟨hg, hgtyped⟩ := userTypeLoop_spec g.users
  rw [restore_erase_iff, KeepsUser]
  by_cases htype : (toUserParts t.key.user).1 = ""
  · rw [if_pos htype, htype, ← hg, not_not]
    by_cases hr : userTypeLoop "" g.users = ""
    · simp [hr]
    · simp [hr]
  · rw [if_neg htype, ← hf, ← hg]
    obtain ⟨user, huser, heq⟩ := exists_typeOf_eq ht h htype
    by_cases hr : userTypeLoop "" g.users = ""
    · -- nothing is put back, so that nothing must have been left out
      have hleft : userTypeLoop "" f.users ≠ (toUserParts t.key.user).1 ↔
          userTypeLoop "" f.users = "" := by
        constructor
        · intro hne
          by_contra hw
          exact hne ((hftyped hw user huser (by rw [heq]; exact htype)).symm.trans heq)
        · intro hw
          rw [hw]
          exact Ne.symm htype
      rw [if_pos hr, hr, or_iff_left htype, hleft]
      simp
    · rw [if_neg hr]
      have hrtype := hgtyped hr user (hperm.mem_iff.mp huser) (by rw [heq]; exact htype)
      exact iff_of_true (by rw [← hrtype, heq]) fun _ => hr

lemma Constants.take_eq (k : Constants) (n : Nat) (iter : Source (TupleRecord S) Err) :
    k.take P n iter = (iter.rest.take n).map (k.buildTuple P) := by
  induction n generalizing iter with
  | zero => rfl
  | succ n ih =>
    obtain ⟨consumed, rest, err⟩ := iter
    cases rest with
    | nil => rfl
    | cons r rest => simp only [take, Source.next, ih, take_succ_cons, map_cons]

lemma Request.replay_eq (f : Request) (records : List (TupleRecord S)) :
    f.replay P records = records.map (f.constants.buildTuple P) := by
  rw [replay, Constants.take_eq]
  exact congrArg _ (take_of_length_le (Nat.le_succ _))

/-- Requests with one key are of one kind and know the same of objects and relations. -/
inductive SameFields : Request → Request → Prop where
  | readStartingWithUser {f g : StartingWithUser.Filter} (hobjectType : f.objectType = g.objectType)
      (husers : f.users.Perm g.users) : SameFields (.readStartingWithUser f)
      (.readStartingWithUser g)
  | readUsersetTuples {f g : UsersetTuples.Filter} (hobject : f.object = g.object)
      (hrelation : f.relation = g.relation) : SameFields (.readUsersetTuples f)
      (.readUsersetTuples g)
  | read {f g : ReadTuples.Filter} (hobject : f.object = g.object)
      (hrelation : f.relation = g.relation) :
      SameFields (.read f) (.read g)

lemma SameKey.sameFields {K store} (h : SameKey K store f g) :
    SameFields f g := by
  have htokens := Keys.Call.tokens_eq_of_contents_eq h
  have hfunction := Keys.function_eq_of_tokens_eq htokens
  cases f <;> cases g <;> simp only [Request.key, Keys.Call.function, reduceCtorEq] at hfunction
  case readStartingWithUser.readStartingWithUser f g =>
    simp only [Request.key, Keys.Call.tokens, Keys.readStartingWithUserKey, cons.injEq,
      Keys.Token.string.injEq, true_and] at htokens
    obtain ⟨hsuffix, ⟨hobjectType, -, -⟩, -⟩ := htokens
    exact .readStartingWithUser hobjectType (Keys.readStartingWithUserSuffix_inj hsuffix).1
  case readUsersetTuples.readUsersetTuples f g =>
    simp only [Request.key, Keys.Call.tokens, Keys.readUsersetTuplesKey, cons.injEq,
      Keys.Token.string.injEq, true_and] at htokens
    obtain ⟨-, ⟨hobject, hrelation, -⟩, -⟩ := htokens
    exact .readUsersetTuples hobject hrelation
  case read.read f g =>
    simp only [Request.key, Keys.Call.tokens, Keys.readKey, cons.injEq,
      Keys.Token.string.injEq, true_and] at htokens
    obtain ⟨-, ⟨hobject, hrelation, -⟩, -⟩ := htokens
    exact .read hobject hrelation

lemma SameFields.constants (h : SameFields f g) :
    g.constants = { f.constants with userType := g.constants.userType } := by
  cases h with
  | readStartingWithUser hobjectType husers => simp [Request.constants, hobjectType]
  | readUsersetTuples hobject hrelation | read hobject hrelation =>
    simp [Request.constants, hobject, hrelation]

/-- What is known from a request holds of what a datastore returns for it. -/
lemma Request.Admits.constants (h : f.Admits t) :
    (f.constants.objectType ≠ "" → (splitObject t.key.object).1 = f.constants.objectType) ∧
      (f.constants.objectID ≠ "" → (splitObject t.key.object).2 = f.constants.objectID) ∧
      (f.constants.relation ≠ "" → t.key.relation = f.constants.relation) := by
  cases f with
  | readStartingWithUser f =>
    exact ⟨fun _ => h.1.1, fun hne => absurd rfl hne, fun hne => absurd rfl hne⟩
  | readUsersetTuples f => exact h
  | read f => exact h

lemma SameFields.userType_iff (h : SameFields f g) (ht : t.key.Valid) (hadmits : f.Admits t) :
    restore g.constants.userType (erase f.constants.userType (toUserParts t.key.user).1) =
      (toUserParts t.key.user).1 ↔ KeepsUser f g t := by
  cases h with
  | readStartingWithUser hobjectType husers => exact userType_comes_back_iff husers ht hadmits
  | readUsersetTuples hobject hrelation | read hobject hrelation =>
    exact iff_of_true (restore_erase_self fun hne => absurd rfl hne) trivial

/-- A tuple that a datastore returns for `f`, in a hit of `g`. -/
lemma buildTuple_record_iff_comesBack (h : SameFields f g) (ht : t.key.Valid)
    (hadmits : f.Admits t) :
    g.constants.buildTuple P (f.constants.record t) = t ↔ ComesBack f g t := by
  obtain ⟨hobjectType, hobjectID, hrelation⟩ := hadmits.constants
  have hconstants := h.constants
  rw [buildTuple_record_iff ht, h.userType_iff ht hadmits]
  · exact ⟨fun h => ⟨h.1, h.2.1, h.2.2⟩, fun h => ⟨h.user, h.context, h.timestamp⟩⟩
  · rw [hconstants]
    exact restore_erase_self hobjectType
  · rw [hconstants]
    exact restore_erase_self hobjectID
  · rw [hconstants]
    exact restore_erase_self hrelation

lemma replay_record_iff (h : SameFields f g) {ts} (hts : ∀ t ∈ ts, t.key.Valid ∧ f.Admits t) :
    g.replay P (ts.map f.constants.record) = ts ↔ ∀ t ∈ ts, ComesBack f g t := by
  rw [Request.replay_eq, map_map]
  constructor
  · intro heq t ht
    have hall := map_inj_left.mp (heq.trans (map_id _).symm)
    exact (buildTuple_record_iff_comesBack h (hts t ht).1 (hts t ht).2).mp (hall t ht)
  · intro hall
    have hmap := map_congr_left fun t ht =>
      (buildTuple_record_iff_comesBack (P := P) h (hts t ht).1 (hts t ht).2).mpr (hall t ht)
    exact hmap.trans (map_id _)

end

/-! ## What is stored -/

section
variable {f : Request} {k : Constants} {maxResultSize : Nat} {w w' : World S}
  {c c' : Cached S} {i : Nat}
  {t : Tuple S} {b : Bool}

/-- Tuples are collected. -/
def collecting : Stage → Bool
  | .reading | .starting => true
  | _ => false

/-- The goroutine has made records. -/
def buffering : Stage → Bool
  | .probing | .joining | .draining | .waiting => true
  | _ => false

/-- The iterator has collected what its source has yielded, as tuples and then as records, if it has
    not given up. -/
structure Cached.Collected (k : Constants) (c : Cached S) : Prop where
  all : c.inner.all = c.answer
  tuples : collecting c.stage = true → ∀ ts, c.tuples = some ts → ts = c.inner.consumed
  records : buffering c.stage = true → c.tuples ≠ none →
    c.records = some (c.inner.consumed.map k.record)

/-- The records are those of everything the iterator could read, to the end. -/
def Cached.Complete (k : Constants) (c : Cached S) (records : List (TupleRecord S)) : Prop :=
  c.inner.err = none ∧ records = c.answer.map k.record

abbrev Cached.Continues (k : Constants) (c c' : Cached S) : Prop :=
  Parties.Continues (Cached.Collected k) (Cached.Complete k) c c'

lemma addToBuffer_spec (h : addToBuffer k maxResultSize c t = (b, c')) :
    c'.answer = c.answer ∧ c'.inner = c.inner ∧ c'.stage = c.stage ∧
      (c'.tuples ≠ none → c.tuples ≠ none ∧
        c'.records = some (c.records.getD [] ++ [k.record t])) := by
  unfold addToBuffer at h
  cases htuples : c.tuples with
  | none =>
    simp only [htuples, Prod.mk.injEq] at h
    rw [← h.2]
    exact ⟨rfl, rfl, rfl, fun hne => absurd htuples hne⟩
  | some ts =>
    simp only [htuples] at h
    split_ifs at h <;> cases h
    · exact ⟨rfl, rfl, rfl, fun hne => absurd rfl hne⟩
    · exact ⟨rfl, rfl, rfl, fun _ => ⟨Option.some_ne_none _, rfl⟩⟩

lemma foldl_addToBuffer_spec (ts : List (Tuple S)) {rs}
    (hrecords : c.tuples ≠ none → c.records = some rs)
    (h : ts.foldl (fun c t => (addToBuffer k maxResultSize c t).2) c = c') :
    c'.answer = c.answer ∧ c'.inner = c.inner ∧
      (c'.tuples ≠ none → c.tuples ≠ none ∧ c'.records = some (rs ++ ts.map k.record)) := by
  induction ts generalizing c rs with
  | nil =>
    cases h
    exact ⟨rfl, rfl, fun hne => ⟨hne, by simpa using hrecords hne⟩⟩
  | cons t ts ih =>
    rw [foldl_cons] at h
    cases hadd : addToBuffer k maxResultSize c t with
    | mk b d =>
      rw [hadd] at h
      obtain ⟨hanswer, hinner, -, hd⟩ := addToBuffer_spec hadd
      have hd' : d.tuples ≠ none → d.records = some (rs ++ [k.record t]) := by
        intro hne
        obtain ⟨hne', heq⟩ := hd hne
        rw [heq, hrecords hne', Option.getD_some]
      obtain ⟨hanswer', hinner', hc'⟩ := ih hd' h
      refine ⟨hanswer'.trans hanswer, hinner'.trans hinner, fun hne => ?_⟩
      obtain ⟨hdne, heq⟩ := hc' hne
      refine ⟨(hd hdne).1, ?_⟩
      rw [heq, append_assoc]
      rfl

lemma buffer_spec (k : Constants) (maxResultSize : Nat) (c : Cached S) :
    (buffer k maxResultSize c).answer = c.answer ∧ (buffer k maxResultSize c).inner = c.inner ∧
      ((buffer k maxResultSize c).tuples ≠ none →
        ∃ ts, c.tuples = some ts ∧ (buffer k maxResultSize c).records =
          some (ts.map k.record)) := by
  have hempty : ({ c with records := some [] } : Cached S).tuples ≠ none →
      ({ c with records := some [] } : Cached S).records = some [] := fun _ => rfl
  obtain ⟨hanswer, hinner, hrecords⟩ :=
    foldl_addToBuffer_spec (k := k) (c.tuples.getD []) hempty rfl
  refine ⟨hanswer, hinner, fun hne => ?_⟩
  obtain ⟨hsome, heq⟩ := hrecords hne
  obtain ⟨ts, hts⟩ := Option.ne_none_iff_exists'.mp hsome
  refine ⟨ts, hts, ?_⟩
  rw [buffer, heq, show c.tuples = some ts from hts]
  rfl

/-- What the iterator has collected stays what it is. -/
lemma Cached.continues_stage {stage}
    (hcollecting : collecting stage = true → collecting c.stage = true)
    (hbuffering : buffering stage = true → buffering c.stage = true) :
    c.Continues k { c with stage := stage } :=
  ⟨fun h => ⟨h.all, fun hs => h.tuples (hcollecting hs), fun hs => h.records (hbuffering hs)⟩,
    fun _ h => h⟩

lemma Cached.continues_finished (tuples : Option (List (Tuple S)))
    (records : Option (List (TupleRecord S))) :
    c.Continues k ⟨c.answer, c.inner, tuples, records, .finished⟩ :=
  ⟨fun h => ⟨h.all, nofun, nofun⟩, fun _ h => h⟩

lemma Cached.continues_next {inner tuples} (h : c.inner.next = .ok (t, inner))
    (htuples : ∀ ts, tuples = some ts → ∃ us, c.tuples = some us ∧ ts = us ++ [t])
    (hstage : c.stage = .reading) : c.Continues k { c with inner := inner, tuples := tuples } := by
  obtain ⟨hconsumed, hall, herr⟩ := Source.next_ok h
  constructor
  · intro hc
    refine ⟨hall.trans hc.all, fun hs ts hts => ?_, fun hs => ?_⟩
    · obtain ⟨us, hus, rfl⟩ := htuples ts hts
      rw [hc.tuples hs us hus]
      exact hconsumed.symm
    · rw [hstage] at hs
      cases hs
  · intro records hcomplete
    exact ⟨herr.trans hcomplete.1, hcomplete.2⟩

lemma Cached.continues_drain {inner} (h : c.inner.next = .ok (t, inner))
    (hadd : addToBuffer k maxResultSize { c with inner := inner } t = (b, c'))
    (hstage : c.stage = .draining) : c.Continues k c' := by
  obtain ⟨hconsumed, hall, herr⟩ := Source.next_ok h
  obtain ⟨hanswer, hinner, hstage', hrecords⟩ := addToBuffer_spec hadd
  constructor
  · intro hc
    refine ⟨?_, fun hs => ?_, fun _ hne => ?_⟩
    · rw [hinner, hanswer]
      exact hall.trans hc.all
    · rw [hstage', hstage] at hs
      cases hs
    · obtain ⟨hne', heq⟩ := hrecords hne
      have hold : c.records = some (c.inner.consumed.map k.record) :=
        hc.records (by rw [hstage]; rfl) hne'
      rw [heq, hinner]
      show some (c.records.getD [] ++ [k.record t]) = some (inner.consumed.map k.record)
      rw [hold, hconsumed, Option.getD_some, map_append, map_singleton]
  · intro records hcomplete
    rw [Cached.Complete, hinner, hanswer]
    exact ⟨herr.trans hcomplete.1, hcomplete.2⟩

lemma Cached.continues_buffer (maxResultSize : Nat) (hstage : c.stage = .starting) :
    c.Continues k { buffer k maxResultSize c with stage := .probing } := by
  obtain ⟨hanswer, hinner, hrecords⟩ := buffer_spec k maxResultSize c
  constructor
  · intro hc
    refine ⟨?_, nofun, fun _ hne => ?_⟩
    · show (buffer k maxResultSize c).inner.all = (buffer k maxResultSize c).answer
      rw [hinner, hanswer, hc.all]
    · obtain ⟨ts, hts, heq⟩ := hrecords hne
      show (buffer k maxResultSize c).records =
        some ((buffer k maxResultSize c).inner.consumed.map k.record)
      rw [heq, hinner, hc.tuples (by rw [hstage]; rfl) ts hts]
  · intro records hcomplete
    show (buffer k maxResultSize c).inner.err = none ∧
      records = (buffer k maxResultSize c).answer.map k.record
    rw [hinner, hanswer]
    exact hcomplete

abbrev Inv (f : Request) (w : World S) : Prop :=
  Parties.Inv (Cached.Collected f.constants) (Cached.Complete f.constants) w.iterators w.stored

/-- An iterator that has read everything stores everything. -/
lemma inv_flush (hw : Inv f w) (hi : w.iterators[i]? = some c) (hstage : buffering c.stage = true)
    (hdone : c.inner.consumed = c.inner.all ∧ c.inner.err = none) : Inv f (w.flush i c) := by
  have hc := hw.get hi
  unfold flush
  split_ifs with hnoop
  · exact hw.update hi (continues_finished _ _)
  · have hrecords := hc.records hstage (fun hnone => hnoop (.inl hnone))
    have hcomplete : c.Complete f.constants (c.records.getD []) := by
      refine ⟨hdone.2, ?_⟩
      rw [hrecords, Option.getD_some, hdone.1, hc.all]
    exact hw.write_update hi hcomplete (continues_finished _ _)

lemma buffering_of_guard {stage stage'} {p : Prop} (h : ¬ (stage ≠ stage' ∨ p))
    (hstage : buffering stage' = true) : buffering stage = true := by
  rw [not_not.mp fun hne => h (.inl hne), hstage]

lemma inv_step {a} (hw : Inv f w) (h : step f maxResultSize w a = some w') : Inv f w' := by
  cases a <;> simp only [step] at h
  case miss answer err =>
    split_ifs at h
    cases h
    refine hw.join ⟨rfl, fun _ ts hts => ?_, nofun⟩
    cases hts
    rfl
  case evict | cancel =>
    cases h
    exact hw
  case head i cancelled =>
    split_ifs at h
    cases h
    exact hw
  case next i cancelled =>
    split at h
    · cases h
    next c hi =>
      split_ifs at h with hstage
      · cases h
        exact hw
      · have hreading : c.stage = .reading := not_not.mp fun hne => hstage (.inl hne)
        cases hnext : c.inner.next with
        | ok r =>
          simp only [hnext] at h
          cases h
          refine hw.update hi (continues_next hnext (fun ts hts => ?_) hreading)
          obtain ⟨us, hus, hif⟩ := Option.bind_eq_some_iff.mp hts
          split_ifs at hif
          cases hif
          exact ⟨us, hus, rfl⟩
        | error err =>
          simp only [hnext] at h
          cases h
          apply hw.update hi
          refine ⟨fun hc => ⟨hc.all, fun hs ts hts => ?_, fun hs => ?_⟩, fun _ h => h⟩
          · simp only at hts
            split_ifs at hts
            exact hc.tuples hs ts hts
          · rw [hreading] at hs
            cases hs
  case stop i =>
    split at h
    · cases h
    next c hi =>
      split_ifs at h with hstage <;> cases h
      · exact hw
      · exact hw.update hi (continues_finished _ _)
      · have hreading : c.stage = .reading := not_not.mp hstage
        exact hw.update hi (continues_stage (fun _ => by rw [hreading]; rfl) nofun)
  case start i invalid =>
    split at h
    · cases h
    next hi =>
      split_ifs at h with hstage <;> cases h
      · exact hw.update hi (continues_finished _ _)
      · exact hw.update hi (continues_buffer maxResultSize (not_not.mp hstage))
  case probe i fails =>
    split at h
    · cases h
    next hi =>
      split_ifs at h with hguard hfails
      · cases h
        have hprobing := buffering_of_guard hguard rfl
        exact hw.update hi (continues_stage nofun fun _ => hprobing)
      · have hprobing := buffering_of_guard hguard rfl
        split at h
        · rename_i hhead
          cases h
          exact inv_flush hw hi hprobing (Source.head_done hhead)
        · cases h
          exact hw.update hi (continues_stage nofun fun _ => hprobing)
  case join i =>
    split at h
    · cases h
    next c hi =>
      split_ifs at h with hstage <;> cases h
      · have hjoining : buffering c.stage = true := congrArg buffering (not_not.mp hstage)
        exact hw.update hi (continues_stage nofun fun _ => hjoining)
      · have hjoining : buffering c.stage = true := congrArg buffering (not_not.mp hstage)
        exact hw.update hi (continues_stage nofun fun _ => hjoining)
  case drain i fails =>
    split at h
    · cases h
    next c hi =>
      split_ifs at h with hguard hfails
      · cases h
        exact hw.update hi (continues_finished _ _)
      · have hdraining : c.stage = .draining := not_not.mp fun hne => hguard (.inl hne)
        split at h
        · rename_i hnext
          cases h
          exact inv_flush hw hi (by rw [hdraining]; rfl) (Source.next_done hnext)
        · cases h
          exact hw.update hi (continues_finished _ _)
        · rename_i hnext
          split at h
          · rename_i hadd
            cases h
            exact hw.update hi (continues_drain hnext hadd hdraining)
          · rename_i hadd
            cases h
            have hc := continues_drain hnext hadd hdraining
            exact hw.update hi (hc.trans (continues_finished _ _))
  case leave i =>
    split at h
    · cases h
    next hi =>
      split_ifs at h
      cases h
      exact hw.update hi (continues_finished _ _)

lemma inv_init : Inv f (init : World S) := Parties.inv_nil

/-- Whatever the callers and the datastore do: what is stored are the records of all tuples of an
    iterator that has ended without an error, in their order.  A hit of a request with the same key
    yields these tuples again exactly if each of them comes back. -/
theorem stored_comes_back_iff (K : Keys.Primitives) (P : Write.Structs S) (store : String)
    (f : Request) (maxResultSize : Nat) (as : List (Act S)) (w : World S)
    (h : Lts.run (step f maxResultSize) init as = some w) :
    ∀ p ∈ w.stored, ∃ c, w.iterators[p.1]? = some c ∧ c.inner.err = none ∧
      p.2 = c.answer.map f.constants.record ∧
      ∀ g, SameKey K store f g → (∀ t ∈ c.answer, t.key.Valid ∧ f.Admits t) →
        (g.replay P p.2 = c.answer ↔ ∀ t ∈ c.answer, ComesBack f g t) := by
  intro p hp
  have hinv : Inv f w := Lts.run_invariant' (fun _ _ _ hw hstep => inv_step hw hstep) inv_init h
  obtain ⟨c, hc, herr, hrecords⟩ := hinv.logged p hp
  refine ⟨c, hc, herr, hrecords, fun g hkey hts => ?_⟩
  rw [hrecords]
  exact replay_record_iff hkey.sameFields hts

end

-- The first user has no type, so that the loop takes the type of the second for both.

private def anneAndBob : Request := .readStartingWithUser
  ⟨"document", "viewer", [⟨"anne", ""⟩, ⟨"user:bob", ""⟩], none, []⟩

private def annesGrant : Tuple Unit := ⟨⟨⟨"document:1", "viewer", "anne"⟩, none⟩, some 7⟩

private def readGrant : List (Act Unit) :=
  [.miss [annesGrant] none, .next 0 false, .stop 0, .start 0 false, .probe 0 false]

private def noFields : Write.Structs Unit where
  empty := ()
  hasFields _ := false
  text _ := ""
  equal _ _ := true
  marshal _ := []
  unmarshal _ := ()
  hasFields_iff _ := iff_of_true rfl rfl
  equal_refl _ := rfl
  unmarshal_marshal _ := rfl

private def keepOrder : Keys.Primitives := Keys.noOrder

theorem stored_comes_back_readGrant :
    ∃ w, Lts.run (step anneAndBob 10) init readGrant = some w ∧
      ∀ p ∈ w.stored, ∃ c, w.iterators[p.1]? = some c ∧ c.inner.err = none ∧
        p.2 = c.answer.map anneAndBob.constants.record ∧
        ∀ g, SameKey keepOrder "store" anneAndBob g →
          (∀ t ∈ c.answer, t.key.Valid ∧ anneAndBob.Admits t) →
            (g.replay noFields p.2 = c.answer ↔ ∀ t ∈ c.answer, ComesBack anneAndBob g t) :=
  ⟨_, rfl, stored_comes_back_iff keepOrder noFields "store" anneAndBob 10 readGrant _ rfl⟩

theorem user_comes_back_typed :
    (Lts.run (step anneAndBob 10) init readGrant).map
      (fun w => w.stored.map fun p => anneAndBob.replay noFields p.2) =
        some [[⟨⟨⟨"document:1", "viewer", "user:anne"⟩, none⟩, some 7⟩]] ∧
    annesGrant.key.Valid ∧ anneAndBob.Admits annesGrant :=
  ⟨by decide, ⟨⟨by decide, by decide, by decide⟩, nofun⟩, ⟨rfl, rfl⟩, _, mem_cons_self, .inl rfl⟩

end OpenFGA.CachedIterator
