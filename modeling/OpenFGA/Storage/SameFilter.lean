/-
  Filters that ask a datastore for the same.

  The order of a list in a filter makes no difference to any of the four backends, and of a type
  restriction they read the type and the relation or wildcard only.  A nil set of object ids asks
  the SQL backends for the same as an empty one, and the memory backend for something else.
-/

import OpenFGA.Storage.Read
import OpenFGA.Storage.UsersetTuples

namespace OpenFGA

open OpenFGA.Tuple StartingWithUser Storage List

section
variable {t : Key} {conditions conditions' : List String}

lemma perm_eq_nil_iff {α : Type} {l l' : List α} (h : l.Perm l') : l = [] ↔ l' = [] := by
  rw [← length_eq_zero_iff, h.length_eq, length_eq_zero_iff]

lemma Storage.matchesConditions_congr (h : conditions.Perm conditions') :
    MatchesConditions conditions t ↔ MatchesConditions conditions' t := by
  rw [MatchesConditions, MatchesConditions, Ne, perm_eq_nil_iff h, h.mem_iff]

end

/-! ## Read -/

namespace ReadTuples

structure Filter.Same (f g : Filter) : Prop where
  object : f.object = g.object
  relation : f.relation = g.relation
  user : f.user = g.user
  conditions : f.conditions.Perm g.conditions

variable {f g : Filter}

lemma Filter.Same.isEmpty_iff (h : f.Same g) : f.IsEmpty ↔ g.IsEmpty := by
  rw [Filter.IsEmpty, h.object, h.relation, h.user, Filter.IsEmpty]

lemma Filter.Same.select_eq {C R : Type} {T : Table C R}
    {userConds : String → List (Sql.Cond (Column C))} (h : f.Same g) (db : Database)
    (store : String) :
    T.select (wheres T userConds store f) db = T.select (wheres T userConds store g) db := by
  refine T.select_congr fun x => ?_
  simp only [wheres, forall_mem_append, Table.eval_conditionConds, h.object, h.relation, h.user,
    matchesConditions_congr h.conditions]

end ReadTuples

/-! ## ReadUsersetTuples -/

namespace UsersetTuples

open Validation (RelationReference Shape)

/-- What a backend reads of a restriction. -/
def target (d : RelationReference) : String × Shape := (d.type, d.shape)

structure Filter.Same (f g : Filter) : Prop where
  object : f.object = g.object
  relation : f.relation = g.relation
  restrictions : (f.allowedUserTypeRestrictions.map target).Perm
    (g.allowedUserTypeRestrictions.map target)
  conditions : f.conditions.Perm g.conditions

variable {f g : Filter}

lemma Filter.Same.restrictions_eq_nil_iff (h : f.Same g) :
    f.allowedUserTypeRestrictions = [] ↔ g.allowedUserTypeRestrictions = [] := by
  rw [← map_eq_nil_iff, perm_eq_nil_iff h.restrictions, map_eq_nil_iff]

/-- Some restriction has a condition that holds, where these conditions are made of what is read of
    the restriction. -/
lemma Filter.Same.exists_restriction_iff (h : f.Same g) {α : Type}
    {conds : RelationReference → List α}
    (hconds : ∀ d, conds d = conds ⟨d.type, d.shape, ""⟩) {P : α → Prop} :
    (∃ c ∈ f.allowedUserTypeRestrictions.flatMap conds, P c) ↔
      ∃ c ∈ g.allowedUserTypeRestrictions.flatMap conds, P c := by
  have hmap : ∀ ds : List RelationReference, ds.flatMap conds =
      (ds.map target).flatMap fun x => conds ⟨x.1, x.2, ""⟩ := by
    intro ds
    rw [flatMap_map]
    exact congrArg ds.flatMap (funext hconds)
  rw [hmap, hmap]
  simp only [mem_flatMap, h.restrictions.mem_iff]

lemma Filter.Same.select_eq {C R : Type} {T : Table C R}
    {restriction : RelationReference → List (Sql.Cond (Column C))} (h : f.Same g)
    (hrestriction : ∀ d, restriction d = restriction ⟨d.type, d.shape, ""⟩) (db : Database)
    (store : String) :
    T.select (wheres T restriction store f) db = T.select (wheres T restriction store g) db := by
  refine T.select_congr fun x => ?_
  have hany : (∀ p ∈ (if f.allowedUserTypeRestrictions ≠ [] then
        [Sql.Cond.any (f.allowedUserTypeRestrictions.flatMap restriction)] else []),
        p.eval T.getColumn (T.typedRow x) = true) ↔
      ∀ p ∈ (if g.allowedUserTypeRestrictions ≠ [] then
        [Sql.Cond.any (g.allowedUserTypeRestrictions.flatMap restriction)] else []),
        p.eval T.getColumn (T.typedRow x) = true := by
    by_cases hnil : f.allowedUserTypeRestrictions = []
    · rw [if_neg (not_not.mpr hnil), if_neg (not_not.mpr (h.restrictions_eq_nil_iff.mp hnil))]
    · rw [if_pos hnil, if_pos (mt h.restrictions_eq_nil_iff.mpr hnil), forall_mem_singleton,
        forall_mem_singleton, Sql.eval_any, Sql.eval_any, h.exists_restriction_iff hrestriction]
  simp only [wheres, forall_mem_append, hany, Table.eval_conditionConds, h.object, h.relation,
    matchesConditions_congr h.conditions]

lemma Filter.Same.countP_allows (h : f.Same g) (user : String) :
    f.allowedUserTypeRestrictions.countP (Memory.allows user) =
      g.allowedUserTypeRestrictions.countP (Memory.allows user) := by
  have htarget : ∀ ds : List RelationReference, ds.countP (Memory.allows user) =
      (ds.map target).countP fun x => Memory.allows user ⟨x.1, x.2, ""⟩ := by
    intro ds
    rw [countP_map]
    rfl
  rw [htarget, htarget, h.restrictions.countP_eq]

theorem Filter.Same.readUsersetTuples_eq (h : f.Same g) (b : Backend) (db : Database)
    (store : String) :
    UsersetTuples.readUsersetTuples b db store f =
      UsersetTuples.readUsersetTuples b db store g := by
  cases b with
  | memory =>
    have hmatched : ∀ t, Memory.matched f t = Memory.matched g t := by
      intro t
      simp only [Memory.matched, h.object, h.relation, h.restrictions_eq_nil_iff,
        Memory.filterMap_allows, h.countP_allows]
    show Memory.readUsersetTuples db store f = Memory.readUsersetTuples db store g
    rw [Memory.readUsersetTuples, funext hmatched, Memory.readUsersetTuples]
  | sqlite | mysql | postgres => exact h.select_eq (fun _ => rfl) db store

end UsersetTuples

/-! ## ReadStartingWithUser -/

namespace StartingWithUser

structure Filter.Same (f g : Filter) : Prop where
  objectType : f.objectType = g.objectType
  relation : f.relation = g.relation
  userFilter : f.userFilter.Perm g.userFilter
  objectIDs : f.objectIDs.getD [] = g.objectIDs.getD []
  conditions : f.conditions.Perm g.conditions

variable {f g : Filter} {t : Key}

lemma forall_objectIDs_iff {id} :
    (∀ ids, f.objectIDs = some ids → ids ≠ [] → id ∈ ids) ↔
      (f.objectIDs.getD [] ≠ [] → id ∈ f.objectIDs.getD []) := by
  cases f.objectIDs <;> simp

section
variable (h : f.Same g)
include h

theorem Filter.Same.users : f.users.Perm g.users := h.userFilter.map _

lemma Filter.Same.matchesRest_iff : f.MatchesRest t ↔ g.MatchesRest t := by
  simp only [Filter.MatchesRest, forall_objectIDs_iff, h.objectType, h.relation, h.objectIDs, ne_eq,
    perm_eq_nil_iff h.conditions, h.conditions.mem_iff]

end

end StartingWithUser
end OpenFGA
