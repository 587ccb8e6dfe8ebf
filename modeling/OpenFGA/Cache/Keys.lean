/-
  The keys under which subproblems, edges, iterators and invalidations are cached
  (`pkg/storage/cache.go`, `pkg/storage/keys.go`, `EdgeCacheKey`).

  A key function is given by the calls of its builder.  Where a key ends in a digest, what is
  digested is a sequence of calls of its own.

  What the builder holds says which function was called and with which arguments
  (`contents_unambiguous`), up to the order of lists that are sorted.  A nil set of object ids is
  the same argument as an empty one, although the memory backend reads every object for the one and
  none for the other.  The keys of filters write a userset as one string, so that `group:1#member`
  as an object is also the userset of `group:1`; no name that is written or read has a separator in
  it.
-/

import OpenFGA.Cache.KeyBuilder
import OpenFGA.Storage.SameFilter

namespace OpenFGA.Keys

open OpenFGA.Tuple
open Validation (RelationReference Shape)
open Token List

/-! ## Tuples -/

def newStructValue (s : Option Struct) : Value := .struct (s.getD [])

def tupleWriteTo (t : Write.TupleKey Struct) : List Token :=
  [.string t.object, .string t.relation, .string t.user] ++
    match t.condition with
    | none => []
    | some c => .string c.name :: (newStructValue c.context).writeTo

/-- `TupleKeys.Less`. -/
def tupleLess (a b : Write.TupleKey Struct) : Bool :=
  if a.object ≠ b.object then a.object < b.object
  else if a.relation ≠ b.relation then a.relation < b.relation
  else if a.user ≠ b.user then a.user < b.user
  else if (a.condition.isSome ∨ b.condition.isSome) ∧ a.conditionName ≠ b.conditionName then
    a.conditionName < b.conditionName
  else true

/-- What the keys take from elsewhere. -/
structure Primitives where
  /-- `sort.Sort`.  `Less` holds both ways for tuples that differ only in the context of their
      condition, so that the order of these is open. -/
  sort : (Write.TupleKey Struct → Write.TupleKey Struct → Bool) → List (Write.TupleKey Struct) →
    List (Write.TupleKey Struct)
  sort_perm : ∀ less ts, (sort less ts).Perm ts
  /-- `Digest.Sum64`. -/
  digest : List UInt8 → UInt64

/-! ## Keys -/

def prefixSubproblemCache : String := "SP"
def prefixIteratorCache : String := "IC"
def prefixChangelogCache : String := "CC"
def prefixInvalidIteratorCache : String := "IQ"
def prefixEdgeCacheKey : String := "EDGE"

def changelogCacheKey (storeID : String) : List Token :=
  [.string prefixChangelogCache, .string storeID]

def invalidIteratorCacheKey (storeID : String) : List Token :=
  [.string prefixInvalidIteratorCache, .string storeID]

def invalidIteratorByObjectRelationCacheKey (storeID object relation : String) : List Token :=
  [.string prefixInvalidIteratorCache, .string "OR", .string storeID, .string object,
    .string relation]

def invalidIteratorByUserObjectTypeCacheKey (storeID user objectType : String) : List Token :=
  [.string prefixInvalidIteratorCache, .string "UOT", .string storeID, .string user,
    .string objectType]

def checkCacheKey (storeID object relation user : String) (hash : UInt64) : List Token :=
  [.string prefixSubproblemCache, .string storeID, .string object, .string relation, .string user,
    .uint64 hash]

/-- What `InvariantCacheKey` digests. -/
def invariantCacheKey (P : Primitives) (storeID modelID : String) (ctx : Option Struct)
    (contextualTuples : List (Write.TupleKey Struct)) : List Token :=
  [.string storeID, .string modelID] ++ encodeArray tupleWriteTo
    (P.sort tupleLess contextualTuples) ++
    (newStructValue ctx).writeTo

/-- The number of a type of edges. -/
def edgeTypeNumber : EdgeType → UInt64
  | .directEdge => 0
  | .rewriteEdge => 1
  | .ttuEdge => 2
  | .computedEdge => 3
  | .directLogicalEdge => 4
  | .ttuLogicalEdge => 5

/-- The fields of the request and of the edge that `EdgeCacheKey` reads. -/
structure EdgeArgs where
  storeID : String
  authorizationModelID : String
  object : String
  user : String
  relationDefinition : String
  edgeType : EdgeType
  toUniqueLabel : String
  tuplesetRelation : String
  invariantCacheKey : UInt64
deriving DecidableEq, Repr

def edgeCacheKey (a : EdgeArgs) : List Token :=
  [.string prefixEdgeCacheKey, .string a.storeID, .string a.authorizationModelID, .string a.object,
    .string a.user, .string a.relationDefinition, .uint64 (edgeTypeNumber a.edgeType),
    .string a.toUniqueLabel, .string a.tuplesetRelation, .uint64 a.invariantCacheKey]

/-- `slices.Sort` of strings. -/
def sortStrings (ss : List String) : List String := ss.mergeSort fun a b => decide (a ≤ b)

/-- An array of strings. -/
def encodeStrings (ss : List String) : List Token := encodeArray (fun s => [.string s]) ss

/-- `copyConditions`, into an array that has room for all of them. -/
def copyConditions (conditions : List String) : List String := sortStrings conditions

def copyObjectRelations (rels : List ObjectRelation) : List String :=
  sortStrings (rels.map getObjectRelationAsString)

/-- The part that `copyRelationReferences` makes of a reference. -/
def relationReferencePart (ref : RelationReference) : String :=
  match ref.shape with
  | .userset relation => ref.type ++ "#" ++ relation
  | .wildcard => ref.type ++ ":*"
  | .object => ref.type

def copyRelationReferences (refs : List RelationReference) : List String :=
  sortStrings (refs.map relationReferencePart)

/-- What `ReadStartingWithUserKey` digests. -/
def readStartingWithUserSuffix (f : StartingWithUser.Filter) : List Token :=
  encodeStrings (copyObjectRelations f.userFilter) ++
    encodeStrings (match f.objectIDs with | none => [] | some ids => ids) ++
    encodeStrings (copyConditions f.conditions)

def readStartingWithUserKey (P : Primitives) (store : String) (f : StartingWithUser.Filter) :
    List Token :=
  [.string prefixIteratorCache, .string "RSWU", .string store, .string f.objectType,
    .string f.relation, .uint64 (P.digest (bytes (readStartingWithUserSuffix f)))]

/-- What `ReadUsersetTuplesKey` digests. -/
def readUsersetTuplesSuffix (f : UsersetTuples.Filter) : List Token :=
  encodeStrings (copyRelationReferences f.allowedUserTypeRestrictions) ++
    encodeStrings (copyConditions f.conditions)

def readUsersetTuplesKey (P : Primitives) (store : String) (f : UsersetTuples.Filter) :
    List Token :=
  [.string prefixIteratorCache, .string "RUT", .string store, .string f.object, .string f.relation,
    .uint64 (P.digest (bytes (readUsersetTuplesSuffix f)))]

/-- What `ReadKey` digests. -/
def readSuffix (f : ReadTuples.Filter) : List Token := encodeStrings (copyConditions f.conditions)

def readKey (P : Primitives) (store : String) (f : ReadTuples.Filter) : List Token :=
  [.string prefixIteratorCache, .string "READ", .string store, .string f.object, .string f.relation,
    .string f.user, .uint64 (P.digest (bytes (readSuffix f)))]

/-! ## Calls -/

/-- A call of a key function. -/
inductive Call where
  | check (storeID object relation user : String) (hash : UInt64)
  | invariant (storeID modelID : String) (ctx : Option Struct)
      (contextualTuples : List (Write.TupleKey Struct))
  | edge (args : EdgeArgs)
  | changelog (storeID : String)
  | invalidIterator (storeID : String)
  | invalidIteratorByObjectRelation (storeID object relation : String)
  | invalidIteratorByUserObjectType (storeID user objectType : String)
  | read (store : String) (f : ReadTuples.Filter)
  | readUsersetTuples (store : String) (f : UsersetTuples.Filter)
  | readStartingWithUser (store : String) (f : StartingWithUser.Filter)

/-- The key functions. -/
inductive KeyFunction where
  | check
  | invariant
  | edge
  | changelog
  | invalidIterator
  | invalidIteratorByObjectRelation
  | invalidIteratorByUserObjectType
  | read
  | readUsersetTuples
  | readStartingWithUser
deriving DecidableEq, Repr

namespace Call

def function : Call → KeyFunction
  | .check .. => .check
  | .invariant .. => .invariant
  | .edge .. => .edge
  | .changelog .. => .changelog
  | .invalidIterator .. => .invalidIterator
  | .invalidIteratorByObjectRelation .. => .invalidIteratorByObjectRelation
  | .invalidIteratorByUserObjectType .. => .invalidIteratorByUserObjectType
  | .read .. => .read
  | .readUsersetTuples .. => .readUsersetTuples
  | .readStartingWithUser .. => .readStartingWithUser

/-- The calls of the builder up to each use of what it holds, for a digest or for a key. -/
def tokens (P : Primitives) : Call → List (List Token)
  | .check storeID object relation user hash => [checkCacheKey storeID object relation user hash]
  | .invariant storeID modelID ctx contextualTuples =>
    [invariantCacheKey P storeID modelID ctx contextualTuples]
  | .edge args => [edgeCacheKey args]
  | .changelog storeID => [changelogCacheKey storeID]
  | .invalidIterator storeID => [invalidIteratorCacheKey storeID]
  | .invalidIteratorByObjectRelation storeID object relation =>
    [invalidIteratorByObjectRelationCacheKey storeID object relation]
  | .invalidIteratorByUserObjectType storeID user objectType =>
    [invalidIteratorByUserObjectTypeCacheKey storeID user objectType]
  | .read store f => [readSuffix f, readKey P store f]
  | .readUsersetTuples store f => [readUsersetTuplesSuffix f, readUsersetTuplesKey P store f]
  | .readStartingWithUser store f =>
    [readStartingWithUserSuffix f, readStartingWithUserKey P store f]

/-- The bytes that are digested, and those of the key. -/
def contents (P : Primitives) (c : Call) : List (List UInt8) := (c.tokens P).map bytes

lemma tokens_eq_of_contents_eq {P} {c c' : Call} (h : c.contents P = c'.contents P) :
    c.tokens P = c'.tokens P :=
  map_injective_iff.mpr bytes_injective h

end Call

/-! ## Tuples and contexts -/

/-- The fields of a context; a nil context has none. -/
def structArg (s : Option Struct) : Struct := sortFields (Value.canonicalFields (s.getD []))

/-- A tuple, with the fields of its context. -/
def tupleArg (t : Write.TupleKey Struct) : Write.KeyWithoutCondition × Option (String × Struct) :=
  (t.toKeyWithoutCondition, t.condition.map fun c => (c.name, structArg c.context))

lemma newStructValue_writeTo (s : Option Struct) :
    (newStructValue s).writeTo = (Value.struct (structArg s)).tokens := by
  rw [Value.writeTo_eq, newStructValue, Value.canonical, structArg]

/-- What is written for a tuple. -/
def argTokens (a : Write.KeyWithoutCondition × Option (String × Struct)) : List Token :=
  [.string a.1.object, .string a.1.relation, .string a.1.user] ++
    match a.2 with
    | none => []
    | some c => .string c.1 :: (Value.struct c.2).tokens

lemma tupleWriteTo_eq (t : Write.TupleKey Struct) : tupleWriteTo t = argTokens (tupleArg t) := by
  unfold tupleWriteTo argTokens tupleArg
  cases t.condition with
  | none => rfl
  | some c => simp only [Option.map_some, newStructValue_writeTo]

/-- Behind a tuple without a condition there is no string that a struct follows: either another
    tuple follows or the struct of the context. -/
lemma flatMap_argTokens_ne (as : List (Write.KeyWithoutCondition × Option (String × Struct)))
    {n k name r s} :
    as.flatMap argTokens ++ .map n :: r ≠ .string name :: .map k :: s := by
  cases as with
  | nil => simp
  | cons a as => simp [argTokens]

/-- Tuples can be told from what is written for them, if a struct follows. -/
lemma flatMap_argTokens_inj {as bs : List (Write.KeyWithoutCondition × Option (String × Struct))}
    {n m : Nat} {r s : List Token} (hlength : as.length = bs.length)
    (h : as.flatMap argTokens ++ .map n :: r = bs.flatMap argTokens ++ .map m :: s) :
    as = bs ∧ map n :: r = .map m :: s := by
  induction as generalizing bs with
  | nil =>
    cases length_eq_zero_iff.mp hlength.symm
    exact ⟨rfl, h⟩
  | cons a as ih =>
    cases bs with
    | nil => cases hlength
    | cons b bs =>
      obtain ⟨⟨object, relation, user⟩, condition⟩ := a
      obtain ⟨⟨object', relation', user'⟩, condition'⟩ := b
      simp only [flatMap_cons, argTokens, append_assoc, cons_append, nil_append,
        cons.injEq, string.injEq] at h
      obtain ⟨rfl, rfl, rfl, h⟩ := h
      cases condition with
      | none =>
        cases condition' with
        | none =>
          obtain ⟨rfl, hrest⟩ := ih (Nat.succ.inj hlength) h
          exact ⟨rfl, hrest⟩
        | some c' => exact absurd h (flatMap_argTokens_ne as)
      | some c =>
        cases condition' with
        | none => exact absurd h.symm (flatMap_argTokens_ne bs)
        | some c' =>
          simp only [cons_append, cons.injEq, string.injEq] at h
          obtain ⟨hname, h⟩ := h
          obtain ⟨hstruct, h⟩ := Value.delimited_tokens _ _ _ _ h
          obtain ⟨rfl, hrest⟩ := ih (Nat.succ.inj hlength) h
          rw [Prod.ext hname (Value.struct.inj hstruct)]
          exact ⟨rfl, hrest⟩

lemma encodeStrings_inj {ss ss' r s}
    (h : encodeStrings ss ++ r = encodeStrings ss' ++ s) : ss = ss' ∧ r = s := by
  simp only [encodeStrings, encodeArray, cons_append, cons.injEq, array.injEq] at h
  have hstring : Wire.Delimited fun s : String => [string s] :=
    Wire.Delimited.of_length 1 (fun _ => rfl) fun _ _ h => string.inj (cons.inj h).1
  exact Wire.ReadsOff.flatMap (fun s _ => hstring s) h.1 h.2

lemma encodeStrings_eq (ss : List String) :
    encodeStrings ss = .array ss.length :: ss.map .string := by
  rw [encodeStrings, encodeArray, map_eq_flatMap]

lemma perm_of_sortStrings_eq {ss ss'} (h : sortStrings ss = sortStrings ss') :
    ss.Perm ss' := by
  have hperm : (sortStrings ss').Perm ss' := mergeSort_perm ss' _
  rw [← h] at hperm
  exact (mergeSort_perm ss _).symm.trans hperm

/-! ## The function of a call -/

/-- The function that was called, from what the builder held at a use.  What is digested for a
    filter has as many arrays as the filter has lists. -/
def owner : List Token → KeyFunction
  | .array n :: ts =>
    match ts.drop n with
    | .array m :: ts => if ts.drop m = [] then .readUsersetTuples else .readStartingWithUser
    | _ => .read
  | .string _ :: .string _ :: .array _ :: _ => .invariant
  | [.string p, _] => if p = prefixChangelogCache then .changelog else .invalidIterator
  | .string p :: .string kind :: _ =>
    if p = prefixSubproblemCache then .check
    else if p = prefixEdgeCacheKey then .edge
    else if p = prefixInvalidIteratorCache then
      if kind = "OR" then .invalidIteratorByObjectRelation else .invalidIteratorByUserObjectType
    else if kind = "READ" then .read
    else if kind = "RUT" then .readUsersetTuples
    else .readStartingWithUser
  | _ => .read

lemma owner_eq_function {P} {c : Call} {ts} (h : ts ∈ c.tokens P) : owner ts = c.function := by
  have hdrop : ∀ ss : List String, (ss.map string).drop ss.length = [] := by simp
  cases c <;> simp only [Call.tokens, mem_cons, not_mem_nil, or_false] at h
  case read | readUsersetTuples | readStartingWithUser =>
    rcases h with rfl | rfl
    · simp [readSuffix, readUsersetTuplesSuffix, readStartingWithUserSuffix,
        encodeStrings_eq, owner, Call.function, hdrop]
    · rfl
  all_goals
    obtain rfl := h
    rfl

lemma function_eq_of_tokens_eq {P} {c c' : Call} (h : c.tokens P = c'.tokens P) :
    c.function = c'.function := by
  obtain ⟨ts, hts⟩ : ∃ ts, ts ∈ c.tokens P := by cases c <;> exact ⟨_, mem_cons_self⟩
  rw [← owner_eq_function hts, owner_eq_function (h ▸ hts)]

/-- No function leaves what another function leaves, whether it is digested or becomes a key. -/
lemma Call.function_eq_of_mem {P} {c c' : Call} {bs} (h : bs ∈ c.contents P)
    (h' : bs ∈ c'.contents P) : c.function = c'.function := by
  obtain ⟨ts, hts, rfl⟩ := mem_map.mp h
  obtain ⟨ts', hts', heq⟩ := mem_map.mp h'
  rw [← owner_eq_function hts, ← bytes_injective heq, owner_eq_function hts']

/-! ## Same arguments -/

/-- The same function with the same arguments: contexts by their fields, lists that are sorted as
    multisets, filters by what they ask a datastore for. -/
def Call.Same : Call → Call → Prop
  | .invariant storeID modelID ctx ts, .invariant storeID' modelID' ctx' ts' =>
    storeID = storeID' ∧ modelID = modelID' ∧ structArg ctx = structArg ctx' ∧
      (ts.map tupleArg).Perm (ts'.map tupleArg)
  | .read store f, .read store' g => store = store' ∧ f.Same g
  | .readUsersetTuples store f, .readUsersetTuples store' g => store = store' ∧ f.Same g
  | .readStartingWithUser store f, .readStartingWithUser store' g =>
    store = store' ∧ f.Same g
  | c, c' => c = c'

/-- An element of a user filter that can be told from its string. -/
def PlainUser (u : ObjectRelation) : Prop := '#' ∉ u.object.toList

/-- A restriction that can be told from its part. -/
def PlainTarget (x : String × Shape) : Prop := ':' ∉ x.1.toList ∧ '#' ∉ x.1.toList

instance (u : ObjectRelation) : Decidable (PlainUser u) := inferInstanceAs (Decidable (¬ _))

instance (x : String × Shape) : Decidable (PlainTarget x) := inferInstanceAs (Decidable (_ ∧ _))

/-- The calls agree in what their keys do not tell: which objects and types with a separator in
    their name there are. -/
def Call.Clear : Call → Call → Prop
  | .readStartingWithUser _ f, .readStartingWithUser _ g =>
    (f.userFilter.filter fun u => ¬ PlainUser u).Perm (g.userFilter.filter fun u => ¬ PlainUser u)
  | .readUsersetTuples _ f, .readUsersetTuples _ g =>
    ((f.allowedUserTypeRestrictions.map UsersetTuples.target).filter fun x => ¬ PlainTarget x).Perm
      ((g.allowedUserTypeRestrictions.map UsersetTuples.target).filter fun x => ¬ PlainTarget x)
  | _, _ => True

lemma perm_of_map_perm_of_injOn {α β : Type} {f : α → β} {xs ys : List α}
    (hinj : ∀ x ∈ xs, ∀ y ∈ ys, f x = f y → x = y) (h : (xs.map f).Perm (ys.map f)) :
    xs.Perm ys := by
  induction xs generalizing ys with
  | nil => simpa using h.symm
  | cons x xs ih =>
    obtain ⟨y, hy, hxy⟩ := mem_map.mp (h.mem_iff.mp mem_cons_self)
    obtain rfl : x = y := hinj x mem_cons_self y hy hxy.symm
    obtain ⟨zs, zs', rfl⟩ := append_of_mem hy
    have hmiddle : (zs ++ x :: zs').Perm (x :: (zs ++ zs')) := perm_middle
    have htail : (xs.map f).Perm ((zs ++ zs').map f) := (h.trans (hmiddle.map f)).cons_inv
    refine .trans (.cons x (ih (fun a ha b hb => hinj a (mem_cons_of_mem _ ha) b ?_) htail))
      hmiddle.symm
    exact hmiddle.mem_iff.mpr (mem_cons_of_mem _ hb)

/-- Lists whose elements have the same labels are the same if they agree in the elements that cannot
    be told from their label. -/
lemma perm_iff_of_map_perm {α β : Type} {label : α → β} {plain : α → Prop} [DecidablePred plain]
    (hinj : ∀ x y, plain x → plain y → label x = label y → x = y) {xs ys : List α}
    (h : (xs.map label).Perm (ys.map label)) :
    xs.Perm ys ↔ (xs.filter fun x => ¬ plain x).Perm (ys.filter fun x => ¬ plain x) := by
  have hsplit : ∀ zs : List α,
      (zs.filter (fun x => plain x) ++ zs.filter fun x => ¬ plain x).Perm zs := by
    intro zs
    simpa using filter_append_perm (fun x => decide (plain x)) zs
  constructor
  · intro hperm
    exact hperm.filter _
  · intro hrest
    -- the labels of the plain elements are the same, and so are these
    have hlabels : ((xs.filter fun x => plain x).map label).Perm
        ((ys.filter fun x => plain x).map label) := by
      have hall := (((hsplit xs).map label).trans h).trans ((hsplit ys).map label).symm
      rw [map_append, map_append] at hall
      exact (perm_append_right_iff _).mp
        (hall.trans (List.Perm.append_left _ (hrest.map label).symm))
    have hplain : (xs.filter fun x => plain x).Perm (ys.filter fun x => plain x) :=
      perm_of_map_perm_of_injOn (fun x hx y hy => hinj x y (of_decide_eq_true (mem_filter.mp hx).2)
        (of_decide_eq_true (mem_filter.mp hy).2)) hlabels
    exact ((hsplit xs).symm.trans (hplain.append hrest)).trans (hsplit ys)

/-- The string of a plain element ends at the first separator, or has none. -/
lemma first_getObjectRelationAsString {u} (hu : PlainUser u) :
    Cut.first '#' (getObjectRelationAsString u).toList =
      if u.relation = "" then none else some (u.object.toList, u.relation.toList) := by
  unfold getObjectRelationAsString
  by_cases hrel : u.relation = ""
  · rw [if_neg (not_not.mpr hrel), if_pos hrel]
    exact Cut.first_eq_none.mpr hu
  · rw [if_pos hrel, if_neg hrel, String.toList_append, String.toList_append, append_assoc]
    exact Cut.first_append hu _

lemma getObjectRelationAsString_inj {u v} (hu : PlainUser u) (hv : PlainUser v)
    (h : getObjectRelationAsString u = getObjectRelationAsString v) : u = v := by
  have hfirst := first_getObjectRelationAsString hu
  rw [h, first_getObjectRelationAsString hv] at hfirst
  obtain ⟨object, relation⟩ := u
  obtain ⟨object', relation'⟩ := v
  by_cases hrel : relation = ""
  · by_cases hrel' : relation' = ""
    · subst hrel hrel'
      simpa [getObjectRelationAsString] using h
    · simp [hrel, hrel'] at hfirst
  · by_cases hrel' : relation' = ""
    · simp [hrel, hrel'] at hfirst
    · simp only [hrel, hrel', if_false, Option.some.injEq, Prod.mk.injEq,
        String.toList_inj] at hfirst
      rw [hfirst.1, hfirst.2]

/-- The part of a restriction, by what a datastore reads of it. -/
def targetPart (x : String × Shape) : String := relationReferencePart ⟨x.1, x.2, ""⟩

lemma first_targetPart {x} (hx : PlainTarget x) :
    Cut.first '#' (targetPart x).toList =
      match x.2 with
      | .userset relation => some (x.1.toList, relation.toList)
      | .wildcard | .object => none := by
  obtain ⟨type, shape⟩ := x
  obtain ⟨-, hx⟩ := hx
  unfold targetPart relationReferencePart
  cases shape with
  | userset relation =>
    simp only [String.toList_append, append_assoc]
    exact Cut.first_append hx _
  | wildcard =>
    refine Cut.first_eq_none.mpr ?_
    simpa using hx
  | object => exact Cut.first_eq_none.mpr hx

lemma targetPart_inj {x y} (hx : PlainTarget x) (hy : PlainTarget y)
    (h : targetPart x = targetPart y) : x = y := by
  have hfirst := first_targetPart hx
  rw [h, first_targetPart hy] at hfirst
  obtain ⟨type, shape⟩ := x
  obtain ⟨type', shape'⟩ := y
  cases shape <;> cases shape' <;>
    simp only [reduceCtorEq, Option.some.injEq, Prod.mk.injEq, String.toList_inj] at hfirst <;>
    simp only [targetPart, relationReferencePart] at h
  case userset.userset => rw [hfirst.1, hfirst.2]
  case wildcard.wildcard =>
    have htype : type = type' := by simpa using h
    rw [htype]
  case object.object => rw [h]
  case wildcard.object =>
    refine absurd ?_ hy.1
    simp [← h]
  case object.wildcard =>
    refine absurd ?_ hx.1
    simp [h]

/-! ## What a key tells -/

section
variable {P : Primitives}

lemma invariantCacheKey_inj {storeID storeID' modelID modelID' ctx ctx'}
    {ts ts' : List (Write.TupleKey Struct)}
    (h : invariantCacheKey P storeID modelID ctx ts =
      invariantCacheKey P storeID' modelID' ctx' ts') :
    storeID = storeID' ∧ modelID = modelID' ∧ structArg ctx = structArg ctx' ∧
      (ts.map tupleArg).Perm (ts'.map tupleArg) := by
  have hwriteTo : ∀ us : List (Write.TupleKey Struct),
      us.flatMap tupleWriteTo = (us.map tupleArg).flatMap argTokens := by
    intro us
    rw [flatMap_map]
    exact congrArg us.flatMap (funext tupleWriteTo_eq)
  simp only [invariantCacheKey, encodeArray, newStructValue_writeTo, hwriteTo, Value.tokens,
    cons_append, nil_append, cons.injEq, string.injEq, array.injEq] at h
  obtain ⟨hstore, hmodel, hlength, h⟩ := h
  obtain ⟨hts, hctx⟩ := flatMap_argTokens_inj (by rw [length_map, length_map, hlength]) h
  have hstruct : Value.tokens (.struct (structArg ctx)) =
      Value.tokens (.struct (structArg ctx')) := by
    rw [Value.tokens, Value.tokens, hctx]
  refine ⟨hstore, hmodel, Value.struct.inj (Value.delimited_tokens.injective hstruct), ?_⟩
  have hsort := (P.sort_perm tupleLess ts').map tupleArg
  rw [← hts] at hsort
  exact ((P.sort_perm tupleLess ts).map tupleArg).symm.trans hsort

lemma readSuffix_inj {f g} (h : readSuffix f = readSuffix g) :
    f.conditions.Perm g.conditions := by
  have hstrings := encodeStrings_inj (congrArg (· ++ []) h)
  exact perm_of_sortStrings_eq hstrings.1

lemma readUsersetTuplesSuffix_inj {f g}
    (h : readUsersetTuplesSuffix f = readUsersetTuplesSuffix g) :
    (f.allowedUserTypeRestrictions.map relationReferencePart).Perm
        (g.allowedUserTypeRestrictions.map relationReferencePart) ∧
      f.conditions.Perm g.conditions := by
  obtain ⟨hparts, h⟩ := encodeStrings_inj h
  have hconditions := encodeStrings_inj (congrArg (· ++ []) h)
  exact ⟨perm_of_sortStrings_eq hparts, perm_of_sortStrings_eq hconditions.1⟩

lemma readStartingWithUserSuffix_inj {f g}
    (h : readStartingWithUserSuffix f = readStartingWithUserSuffix g) :
    (f.userFilter.map getObjectRelationAsString).Perm (g.userFilter.map getObjectRelationAsString) ∧
      f.objectIDs.getD [] = g.objectIDs.getD [] ∧ f.conditions.Perm g.conditions := by
  have hids : ∀ f : StartingWithUser.Filter,
      (match f.objectIDs with | none => [] | some ids => ids) = f.objectIDs.getD [] := by
    intro f
    cases f.objectIDs <;> rfl
  simp only [readStartingWithUserSuffix, hids, append_assoc] at h
  obtain ⟨husers, h⟩ := encodeStrings_inj h
  obtain ⟨hids, h⟩ := encodeStrings_inj h
  have hconditions := encodeStrings_inj (congrArg (· ++ []) h)
  exact ⟨perm_of_sortStrings_eq husers, hids, perm_of_sortStrings_eq hconditions.1⟩

lemma edgeTypeNumber_injective : Function.Injective edgeTypeNumber := by
  intro a b h
  cases a <;> cases b <;> first | rfl | exact absurd h (by decide)

lemma edgeCacheKey_injective : Function.Injective edgeCacheKey := by
  intro a b h
  simp only [edgeCacheKey, cons.injEq, string.injEq, uint64.injEq, true_and, and_true] at h
  obtain ⟨hstore, hmodel, hobject, huser, hrelation, htype, hto, htupleset, hinvariant⟩ := h
  cases a
  cases b
  simp only [EdgeArgs.mk.injEq]
  exact ⟨hstore, hmodel, hobject, huser, hrelation, edgeTypeNumber_injective htype, hto, htupleset,
    hinvariant⟩

/-- Calls that leave the same bytes have the same arguments, exactly if they agree in what a key
    does not tell. -/
lemma Call.same_iff_clear {c c' : Call} (h : c.contents P = c'.contents P) :
    c.Same c' ↔ c.Clear c' := by
  have htokens := Call.tokens_eq_of_contents_eq h
  have hfunction := function_eq_of_tokens_eq htokens
  cases c <;> cases c' <;> simp only [Call.function, reduceCtorEq] at hfunction
  case invariant.invariant => exact iff_of_true (invariantCacheKey_inj (cons.inj htokens).1) trivial
  case read.read store f store' g =>
    simp only [Call.tokens, readKey, cons.injEq, string.injEq, true_and] at htokens
    obtain ⟨hsuffix, ⟨hstore, hobject, hrelation, huser, -⟩, -⟩ := htokens
    exact iff_of_true ⟨hstore, hobject, hrelation, huser, readSuffix_inj hsuffix⟩ trivial
  case readUsersetTuples.readUsersetTuples store f store' g =>
    simp only [Call.tokens, readUsersetTuplesKey, cons.injEq, string.injEq, true_and] at htokens
    obtain ⟨hsuffix, ⟨hstore, hobject, hrelation, -⟩, -⟩ := htokens
    obtain ⟨hparts, hconditions⟩ := readUsersetTuplesSuffix_inj hsuffix
    have hiff := perm_iff_of_map_perm (fun _ _ => targetPart_inj)
      (by rw [map_map, map_map]; exact hparts :
        ((f.allowedUserTypeRestrictions.map UsersetTuples.target).map targetPart).Perm
          ((g.allowedUserTypeRestrictions.map UsersetTuples.target).map targetPart))
    exact ⟨fun hsame => hiff.mp hsame.2.restrictions,
      fun hclear => ⟨hstore, hobject, hrelation, hiff.mpr hclear, hconditions⟩⟩
  case readStartingWithUser.readStartingWithUser store f store' g =>
    simp only [Call.tokens, readStartingWithUserKey, cons.injEq, string.injEq, true_and] at htokens
    obtain ⟨hsuffix, ⟨hstore, hobjectType, hrelation, -⟩, -⟩ := htokens
    obtain ⟨husers, hids, hconditions⟩ := readStartingWithUserSuffix_inj hsuffix
    have hiff := perm_iff_of_map_perm (fun _ _ => getObjectRelationAsString_inj) husers
    exact ⟨fun hsame => hiff.mp hsame.2.userFilter,
      fun hclear => ⟨hstore, hobjectType, hrelation, hiff.mpr hclear, hids, hconditions⟩⟩
  case edge.edge a b =>
    exact iff_of_true (congrArg Call.edge (edgeCacheKey_injective (cons.inj htokens).1)) trivial
  all_goals
    simp only [Call.tokens, checkCacheKey, changelogCacheKey, invalidIteratorCacheKey,
      invalidIteratorByObjectRelationCacheKey, invalidIteratorByUserObjectTypeCacheKey, cons.injEq,
      string.injEq, uint64.injEq, true_and, and_true] at htokens
    simp [Call.Same, Call.Clear, htokens]

end

/-- Whatever one call digests or makes a key of, no call of another function does.  Calls that leave
    the same bytes have the same arguments, exactly if they agree in what a key does not tell. -/
theorem contents_unambiguous (P : Primitives) (c c' : Call) :
    (∀ bs ∈ c.contents P, bs ∈ c'.contents P → c.function = c'.function) ∧
    (c.contents P = c'.contents P → (c.Same c' ↔ c.Clear c')) :=
  ⟨fun _ => Call.function_eq_of_mem, Call.same_iff_clear⟩

-- The documents that the members of a group view.

private def membersDocuments (user : ObjectRelation) (ids : Option (List String)) :
    StartingWithUser.Filter where
  objectType := "document"
  relation := "viewer"
  userFilter := [user]
  objectIDs := ids
  conditions := []

private def membersOf (d : RelationReference) : UsersetTuples.Filter where
  object := "document:1"
  relation := "viewer"
  allowedUserTypeRestrictions := [d]
  conditions := []

private def documentStore : StartingWithUser.Database where
  rows := [("store", ⟨"document:1", "viewer", "group:1#member", "", ""⟩),
    ("store", ⟨"document:1", "viewer", "user:anne", "", ""⟩)]
  valid := by decide
  unique := by decide

def noOrder : Primitives where
  sort _ ts := ts
  sort_perm _ ts := .refl ts
  digest _ := 0

/-- Filters with a separator in a name, and a nil and an empty set of object ids, leave the same
    bytes and get different answers. -/
theorem separators_and_nil_ids_collide :
    (∀ P : Primitives,
      (Call.readStartingWithUser "store"
        (membersDocuments ⟨"group:1#member", ""⟩ none)).contents P =
        (Call.readStartingWithUser "store"
          (membersDocuments ⟨"group:1", "member"⟩ none)).contents P ∧
      (Call.readUsersetTuples "store" (membersOf ⟨"group#member", .object, ""⟩)).contents P =
        (Call.readUsersetTuples "store" (membersOf ⟨"group", .userset "member", ""⟩)).contents P ∧
      (Call.readStartingWithUser "store" (membersDocuments ⟨"user:anne", ""⟩ none)).contents P =
        (Call.readStartingWithUser "store"
          (membersDocuments ⟨"user:anne", ""⟩ (some []))).contents P) ∧
    (StartingWithUser.Backend.sqlite.readStartingWithUser documentStore "store"
        (membersDocuments ⟨"group:1#member", ""⟩ none) = [] ∧
      (StartingWithUser.Backend.sqlite.readStartingWithUser documentStore "store"
        (membersDocuments ⟨"group:1", "member"⟩ none)).length = 1) ∧
    (UsersetTuples.readUsersetTuples .sqlite documentStore "store"
        (membersOf ⟨"group#member", .object, ""⟩) = [] ∧
      (UsersetTuples.readUsersetTuples .sqlite documentStore "store"
        (membersOf ⟨"group", .userset "member", ""⟩)).length = 1) ∧
    (StartingWithUser.Backend.memory.readStartingWithUser documentStore "store"
        (membersDocuments ⟨"user:anne", ""⟩ none)).length = 1 ∧
      StartingWithUser.Backend.memory.readStartingWithUser documentStore "store"
        (membersDocuments ⟨"user:anne", ""⟩ (some [])) = [] :=
  ⟨fun _ => ⟨rfl, rfl, rfl⟩, ⟨by decide, by decide⟩, ⟨by decide, by decide⟩, by decide, by decide⟩

/-! ## What is read under a key -/

open StartingWithUser (Backend Database)

section
variable {b : Backend} {db : Database}

/-- A backend may return this where it selects `tuples`: a `SELECT` leaves the order open. -/
def Returns (b : Backend) (tuples ts : List Key) : Prop :=
  match b with
  | .memory => ts = tuples
  | .sqlite | .mysql | .postgres => ts.Perm tuples

instance (b : Backend) (tuples ts : List Key) : Decidable (Returns b tuples ts) :=
  match b with
  | .memory => inferInstanceAs (Decidable (ts = tuples))
  | .sqlite | .mysql | .postgres => inferInstanceAs (Decidable (ts.Perm tuples))

/-- What a backend selects for the filter of a call. -/
def Call.tuples (b : Backend) (db : Database) : Call → Option (List Key)
  | .read store f => some (ReadTuples.read b db store f)
  | .readUsersetTuples store f => some (UsersetTuples.readUsersetTuples b db store f)
  | .readStartingWithUser store f => some (b.readStartingWithUser db store f)
  | _ => none

def Call.Answers (b : Backend) (db : Database) (c : Call) (ts : List Key) : Prop :=
  ∃ tuples, c.tuples b db = some tuples ∧ Returns b tuples ts

lemma Returns.unique {tuples ts ts'} (h : Returns b tuples ts) (h' : Returns b tuples ts') :
    ts.Perm ts' ∧ (b = .memory → ts = ts') := by
  cases b with
  | memory =>
    obtain rfl : ts = tuples := h
    obtain rfl : ts' = ts := h'
    exact ⟨.refl _, fun _ => rfl⟩
  | sqlite | mysql | postgres =>
    exact ⟨List.Perm.trans h (List.Perm.symm h'), fun hb => by cases hb⟩

end

-- The viewers of a document, with or without a condition, as SQLite may return them.

end OpenFGA.Keys
