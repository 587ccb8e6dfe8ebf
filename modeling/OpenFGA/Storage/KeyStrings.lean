/-
  Tuples and users as single strings (`pkg/tuple/tuple.go`), and back.

  `TupleKeyToString` is what the SQL path compares tuples by, and the parts of a user are what
  SQLite and the iterator cache store of it.  What was valid comes back (`strings_round_trip`).
-/

import OpenFGA.Storage.Write

namespace OpenFGA.Write
open Tuple

/-- The strings of the key are well formed. -/
def KeyWithoutCondition.Valid (tk : KeyWithoutCondition) : Prop :=
  isValidObject tk.object = true ∧ isValidRelation tk.relation = true ∧ isValidUser tk.user = true

def parseTupleString (s : String) : Except String KeyWithoutCondition :=
  match Cut.first '#' s.toList with
  | none => .error "expected at least one '#' separating the object and relation"
  | some (object, rhs) =>
    if !isValidObject (String.ofList object) then .error "invalid tuple 'object' field format"
    else
      match Cut.first '@' rhs with
      | none => .error "expected at least one '@' separating the relation and user"
      | some (relation, user) =>
        if !isValidRelation (String.ofList relation) then
          .error "invalid tuple 'relation' field format"
        else if !isValidUser (String.ofList user) then .error "invalid tuple 'user' field format"
        else .ok ⟨String.ofList object, String.ofList relation, String.ofList user⟩

/-- `User` of the API. -/
inductive UserProto where
  | wildcard (type : String)
  | userset (type id relation : String)
  | object (type id : String)
deriving DecidableEq, Repr

def userProtoToString : UserProto → String
  | .wildcard t => t ++ ":*"
  | .userset t id r => t ++ ":" ++ id ++ "#" ++ r
  | .object t id => t ++ ":" ++ id

def stringToUserProto (userKey : String) : UserProto :=
  let (userObj, userRel) := splitObjectRelation userKey
  let (userObjType, userObjID) := splitObject userObj
  if userRel = "" ∧ userObjID = "*" then .wildcard userObjType
  else if userRel = "" then .object userObjType userObjID
  else .userset userObjType userObjID userRel

lemma parseTupleString_tupleKeyToString {tk} (h : tk.Valid) :
    parseTupleString (tupleKeyToString tk) = .ok tk := by
  obtain ⟨hobject, hrelation, huser⟩ := h
  have hlist : (tupleKeyToString tk).toList =
      tk.object.toList ++ '#' :: (tk.relation.toList ++ '@' :: tk.user.toList) := by
    simp [tupleKeyToString]
  rw [parseTupleString, hlist, Cut.first_append (hash_notMem hobject)]
  simp [hobject, Cut.first_append (isValidRelation_iff.mp hrelation).2, hrelation, huser]

lemma tupleKeyToString_inj {tk tk'} (h : tk.Valid) (h' : tk'.Valid)
    (heq : tupleKeyToString tk = tupleKeyToString tk') : tk = tk' := by
  have hparse := parseTupleString_tupleKeyToString h
  rw [heq, parseTupleString_tupleKeyToString h'] at hparse
  exact (Except.ok.inj hparse).symm

lemma userProtoToString_stringToUserProto {u}
    (h : isValidObject u = true ∨ isValidUserset u = true) :
    userProtoToString (stringToUserProto u) = u := by
  rcases h with h | h
  · obtain ⟨type, id, rfl, -, htc, hh⟩ := exists_of_isValidObject h
    simp only [stringToUserProto, splitObjectRelation_of_notMem hh, splitObject_buildObject htc]
    by_cases hid : id = "*"
    · simp [hid, userProtoToString, buildObject, String.append_assoc]
    · simp [hid, userProtoToString, buildObject]
  · obtain ⟨type, id, relation, rfl, -, htc, -, hrh, hrne⟩ := exists_of_isValidUserset h
    simp only [stringToUserProto, splitObjectRelation_append hrh, splitObject_buildObject htc]
    simp [hrne, userProtoToString, buildObject]

/-- The strings of valid tuples and users give them back, so that different ones have different
    strings and parts. -/
theorem strings_round_trip :
    (∀ tk : KeyWithoutCondition, tk.Valid → parseTupleString (tupleKeyToString tk) = .ok tk) ∧
    (∀ tk tk' : KeyWithoutCondition, tk.Valid → tk'.Valid →
      tupleKeyToString tk = tupleKeyToString tk' → tk = tk') ∧
    (∀ u, isValidUser u = true →
      fromUserParts (toUserParts u).1 (toUserParts u).2.1 (toUserParts u).2.2 = u) ∧
    (∀ u u', isValidUser u = true → isValidUser u' = true →
      toUserParts u = toUserParts u' → u = u') ∧
    ∀ u, isValidObject u = true ∨ isValidUserset u = true →
      userProtoToString (stringToUserProto u) = u := by
  refine ⟨fun _ => parseTupleString_tupleKeyToString, fun _ _ => tupleKeyToString_inj,
    fun _ => fromUserParts_toUserParts, fun u u' hu hu' heq => ?_,
    fun _ => userProtoToString_stringToUserProto⟩
  rw [← fromUserParts_toUserParts hu, heq, fromUserParts_toUserParts hu']

theorem strings_round_trip_members :
    parseTupleString (tupleKeyToString ⟨"doc:1", "viewer", "group:a@b#member"⟩) =
      .ok ⟨"doc:1", "viewer", "group:a@b#member"⟩ :=
  strings_round_trip.1 _ ⟨by decide, by decide, by decide⟩

end OpenFGA.Write
