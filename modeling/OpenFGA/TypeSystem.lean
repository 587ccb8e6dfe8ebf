/-
  Authorization models as trees of rewrites (`pkg/typesystem/typesystem.go`), for the
  parts of the server that do not go through the weighted graph, and
  `ValidateTupleForRead` on tuples that are taken apart already.  `OpenFGA.Validation` has the
  check of the strings, which is the same one (`validateTupleForRead_iff_strings`).

  A `TypeSystem` is a model that passed `NewAndValidate`.  Of its checks the model keeps
  names, rewrites, type restrictions and the number of operands; the search for
  entrypoints and for cycles of computed usersets, the compilation of the conditions and
  the reserved names are left out, so that everything proved here is about more models
  than the server accepts.
-/

import OpenFGA.Validation

namespace OpenFGA

open Validation (Shape RelationReference containsForbiddenChars)
open List Bool

/-- The rewrite of a relation. -/
inductive Userset where
  | this
  | computedUserset (relation : String)
  | tupleToUserset (tupleset computed : String)
  | union (child : List Userset)
  | intersection (child : List Userset)
  | difference (base subtract : Userset)
deriving Repr

namespace Userset

/-- Induction over rewrites, with one hypothesis for all operands of an operator. -/
@[elab_as_elim, induction_eliminator]
lemma induct {P : Userset → Prop} (this : P .this) (computedUserset : ∀ r, P (.computedUserset r))
    (tupleToUserset : ∀ s c, P (.tupleToUserset s c))
    (union : ∀ cs, (∀ c ∈ cs, P c) → P (.union cs))
    (intersection : ∀ cs, (∀ c ∈ cs, P c) → P (.intersection cs))
    (difference : ∀ b s, P b → P s → P (.difference b s)) (w : Userset) : P w := by
  refine @Userset.rec P (fun cs => ∀ c ∈ cs, P c) this computedUserset tupleToUserset union
    intersection difference nofun (fun d ds hd hds c hc => ?_) w
  rcases mem_cons.mp hc with rfl | hc
  · exact hd
  · exact hds c hc

/-- The rewrite is `This`. -/
def isThis : Userset → Bool
  | .this => true
  | _ => false

mutual

/-- The rewrites without operands that occur in a rewrite. -/
def leaves : Userset → List Userset
  | .union cs => leavesOf cs
  | .intersection cs => leavesOf cs
  | .difference b s => leaves b ++ leaves s
  | w => [w]

def leavesOf : List Userset → List Userset
  | [] => []
  | c :: cs => leaves c ++ leavesOf cs

end

lemma mem_leavesOf {l cs} :
    l ∈ leavesOf cs ↔ ∃ c ∈ cs, l ∈ c.leaves := by
  induction cs with
  | nil => simp [leavesOf]
  | cons c cs ih => simp [leavesOf, ih]

/-- `RewriteContainsSelf`. -/
def containsSelf (w : Userset) : Bool := w.leaves.any isThis

end Userset

/-- `Relation`: its rewrite and its type restrictions. -/
structure Relation where
  rewrite : Userset
  directlyRelatedUserTypes : List RelationReference
deriving Repr

structure TypeDefinition where
  type : String
  relations : List (String × Relation)
deriving Repr

structure AuthorizationModel where
  typeDefinitions : List TypeDefinition
  conditions : List String
deriving Repr

inductive GetRelationError where
  | objectTypeUndefined (objectType : String)
  | relationUndefined (objectType relation : String)
deriving DecidableEq, Repr

namespace AuthorizationModel

variable (m : AuthorizationModel)

def getTypeDefinition (objectType : String) : Option TypeDefinition :=
  m.typeDefinitions.find? fun td => td.type = objectType

def getRelation (objectType relation : String) : Except GetRelationError Relation :=
  match m.getTypeDefinition objectType with
  | none => .error (.objectTypeUndefined objectType)
  | some td =>
    match td.relations.lookup relation with
    | none => .error (.relationUndefined objectType relation)
    | some r => .ok r

/-- The relation is defined. -/
def defines (objectType relation : String) : Bool :=
  match m.getRelation objectType relation with
  | .ok _ => true
  | .error _ => false

/-- `GetDirectlyRelatedUserTypes`, without its error: the callers drop it. -/
def getDirectlyRelatedUserTypes (objectType relation : String) : List RelationReference :=
  match m.getRelation objectType relation with
  | .ok r => r.directlyRelatedUserTypes
  | .error _ => []

/-- `IsTuplesetRelation`, for a relation that is defined. -/
def isTuplesetRelation (objectType relation : String) : Bool :=
  match m.getTypeDefinition objectType with
  | none => false
  | some td => td.relations.any fun p => p.2.rewrite.leaves.any fun
      | .tupleToUserset tupleset _ => tupleset = relation
      | _ => false

/-! ## NewAndValidate -/

mutual

/-- `isUsersetRewriteValid`, with the number of operands that `hasEntrypoints` asks for. -/
def isUsersetRewriteValid (objectType relation : String) : Userset → Bool
  | .this => true
  | .computedUserset computed => computed ≠ relation && m.defines objectType computed
  | .tupleToUserset tupleset computed =>
    match m.getRelation objectType tupleset with
    | .error _ => false
    | .ok r => r.rewrite.isThis && r.directlyRelatedUserTypes.any fun d => m.defines d.type computed
  | .union cs => 2 ≤ cs.length && areUsersetRewritesValid objectType relation cs
  | .intersection cs => 2 ≤ cs.length && areUsersetRewritesValid objectType relation cs
  | .difference b s =>
    isUsersetRewriteValid objectType relation b && isUsersetRewriteValid objectType relation s

def areUsersetRewritesValid (objectType relation : String) : List Userset → Bool
  | [] => true
  | c :: cs =>
    isUsersetRewriteValid objectType relation c && areUsersetRewritesValid objectType relation cs

end

/-- One type restriction in `validateTypeRestrictions` of a relation.  An empty name of a
    userset's relation does not get past the validation of the request. -/
def isTypeRestrictionValid (objectType relation : String) (d : RelationReference) : Bool :=
  (m.getTypeDefinition d.type).isSome &&
    (match d.shape with
      | .object => true
      | .wildcard => !m.isTuplesetRelation objectType relation
      | .userset r => !m.isTuplesetRelation objectType relation && r ≠ "" && m.defines d.type r) &&
    (d.condition = "" || m.conditions.contains d.condition)

def validateTypeRestrictions (objectType relation : String) (r : Relation) : Bool :=
  (r.rewrite.containsSelf == !r.directlyRelatedUserTypes.isEmpty) &&
    r.directlyRelatedUserTypes.all (m.isTypeRestrictionValid objectType relation)

def validateRelation (objectType relation : String) (r : Relation) : Bool :=
  m.isUsersetRewriteValid objectType relation r.rewrite &&
    m.validateTypeRestrictions objectType relation r

/-- `NewAndValidate`. -/
def validate : Bool :=
  m.typeDefinitions.all fun td => td.type ≠ "" && td.relations.all fun p =>
    p.1 ≠ "" && m.validateRelation td.type p.1 p.2

end AuthorizationModel

/-- A validated model.  `validContext` stands for the checks of the context that is stored
    with the condition of a tuple. -/
structure TypeSystem extends AuthorizationModel where
  valid : toAuthorizationModel.validate = true
  validContext : TupleKey → Bool

namespace AuthorizationModel

variable {m : AuthorizationModel} {objectType relation : String} {r : Relation}

lemma getRelation_eq_ok : m.getRelation objectType relation = .ok r ↔
    ∃ td, m.getTypeDefinition objectType = some td ∧ td.relations.lookup relation = some r := by
  unfold getRelation
  cases m.getTypeDefinition objectType with
  | none => simp
  | some td => cases h : td.relations.lookup relation <;> simp [h]

lemma defines_iff : m.defines objectType relation = true ↔
    ∃ r, m.getRelation objectType relation = .ok r := by
  unfold defines
  cases m.getRelation objectType relation <;> simp

lemma getDirectlyRelatedUserTypes_of_ok (h : m.getRelation objectType relation = .ok r) :
    m.getDirectlyRelatedUserTypes objectType relation = r.directlyRelatedUserTypes := by
  simp [getDirectlyRelatedUserTypes, h]

/-- What a read looks up was listed in the definition of its type. -/
lemma mem_of_getRelation (h : m.getRelation objectType relation = .ok r) :
    ∃ td ∈ m.typeDefinitions, td.type = objectType ∧ (relation, r) ∈ td.relations := by
  obtain ⟨td, htd, hr⟩ := getRelation_eq_ok.mp h
  refine ⟨td, mem_of_find?_eq_some htd, by simpa using find?_some htd, ?_⟩
  obtain ⟨l₁, l₂, heq, -⟩ := lookup_eq_some_iff.mp hr
  rw [heq]
  simp

lemma areUsersetRewritesValid_iff {cs} :
    m.areUsersetRewritesValid objectType relation cs = true ↔
      ∀ c ∈ cs, m.isUsersetRewriteValid objectType relation c = true := by
  induction cs with
  | nil => simp [areUsersetRewritesValid]
  | cons c cs ih => simp [areUsersetRewritesValid, ih]

lemma isUsersetRewriteValid_leaf {w l} (hl : l ∈ w.leaves)
    (h : m.isUsersetRewriteValid objectType relation w = true) :
    m.isUsersetRewriteValid objectType relation l = true := by
  induction w with
  | this | computedUserset _ | tupleToUserset _ _ => rwa [mem_singleton.mp hl]
  | union cs ih | intersection cs ih =>
    obtain ⟨c, hc, hlc⟩ := Userset.mem_leavesOf.mp hl
    simp only [isUsersetRewriteValid, and_eq_true] at h
    exact ih c hc hlc (areUsersetRewritesValid_iff.mp h.2 c hc)
  | difference b s ihb ihs =>
    simp only [isUsersetRewriteValid, and_eq_true] at h
    rcases mem_append.mp hl with hl | hl
    · exact ihb hl h.1
    · exact ihs hl h.2

end AuthorizationModel

namespace TypeSystem

open AuthorizationModel

variable {ts : TypeSystem} {objectType relation : String} {r : Relation}

section
variable (h : ts.getRelation objectType relation = .ok r)
include h

lemma validateRelation_of_getRelation :
    relation ≠ "" ∧ ts.validateRelation objectType relation r = true := by
  obtain ⟨td, htd, rfl, hr⟩ := mem_of_getRelation h
  have hvalid := ts.valid
  simp only [validate, all_eq_true, and_eq_true, decide_eq_true_eq] at hvalid
  exact (hvalid td htd).2 (relation, r) hr

lemma rewrite_valid :
    ts.isUsersetRewriteValid objectType relation r.rewrite = true := by
  have hvalid := (validateRelation_of_getRelation h).2
  simp only [validateRelation, and_eq_true] at hvalid
  exact hvalid.1

lemma restriction_valid {d} (hd : d ∈ r.directlyRelatedUserTypes) :
    ts.isTypeRestrictionValid objectType relation d = true := by
  have hvalid := (validateRelation_of_getRelation h).2
  simp only [validateRelation, AuthorizationModel.validateTypeRestrictions, and_eq_true,
    all_eq_true] at hvalid
  exact hvalid.2.2 d hd

lemma computed_defined {computed} (hl : .computedUserset computed ∈ r.rewrite.leaves) :
    ∃ r', ts.getRelation objectType computed = .ok r' := by
  have hleaf := isUsersetRewriteValid_leaf hl (rewrite_valid h)
  simp only [isUsersetRewriteValid, and_eq_true] at hleaf
  exact defines_iff.mp hleaf.2

lemma isTuplesetRelation_of_leaf
    {tupleset computed} (hl : .tupleToUserset tupleset computed ∈ r.rewrite.leaves) :
    ts.isTuplesetRelation objectType tupleset = true := by
  obtain ⟨td, htd, hr⟩ := getRelation_eq_ok.mp h
  obtain ⟨l₁, l₂, heq, -⟩ := lookup_eq_some_iff.mp hr
  simp only [isTuplesetRelation, htd, any_eq_true]
  exact ⟨(relation, r), by rw [heq]; simp, _, hl, by simp⟩

lemma restriction_type_defined {d} (hd : d ∈ r.directlyRelatedUserTypes) :
    (ts.getTypeDefinition d.type).isSome = true := by
  have hvalid := restriction_valid h hd
  simp only [isTypeRestrictionValid, and_eq_true] at hvalid
  exact hvalid.1.1

lemma restriction_defined {d} (hd : d ∈ r.directlyRelatedUserTypes) {relation'}
    (hshape : d.shape = .userset relation') :
    relation' ≠ "" ∧ ∃ r', ts.getRelation d.type relation' = .ok r' := by
  have hvalid := restriction_valid h hd
  simp only [isTypeRestrictionValid, hshape, and_eq_true, decide_eq_true_eq] at hvalid
  exact ⟨hvalid.1.2.1.2, defines_iff.mp hvalid.1.2.2⟩

end

/-- The rewrite is the rewrite of `objectType#relation` or an operand in it. -/
def PartOf (ts : TypeSystem) (objectType relation : String) (w : Userset) : Prop :=
  (∃ r, ts.getRelation objectType relation = .ok r ∧ ∀ l ∈ w.leaves, l ∈ r.rewrite.leaves) ∧
    ts.isUsersetRewriteValid objectType relation w = true

namespace PartOf

variable {cs : List Userset} {c b s : Userset}

lemma root (h : ts.getRelation objectType relation = .ok r) :
    ts.PartOf objectType relation r.rewrite :=
  ⟨⟨r, h, fun _ hl => hl⟩, rewrite_valid h⟩

lemma of_union (h : ts.PartOf objectType relation (.union cs)) (hc : c ∈ cs) :
    ts.PartOf objectType relation c := by
  obtain ⟨⟨r, hr, hl⟩, hvalid⟩ := h
  simp only [isUsersetRewriteValid, and_eq_true] at hvalid
  exact ⟨⟨r, hr, fun l hlc => hl l (Userset.mem_leavesOf.mpr ⟨c, hc, hlc⟩)⟩,
    areUsersetRewritesValid_iff.mp hvalid.2 c hc⟩

lemma of_intersection (h : ts.PartOf objectType relation (.intersection cs)) (hc : c ∈ cs) :
    ts.PartOf objectType relation c := of_union h hc

lemma intersection_ne_nil (h : ts.PartOf objectType relation (.intersection cs)) : cs ≠ [] := by
  rintro rfl
  simpa [isUsersetRewriteValid] using h.2

theorem base (h : ts.PartOf objectType relation (.difference b s)) :
    ts.PartOf objectType relation b := by
  obtain ⟨⟨r, hr, hl⟩, hvalid⟩ := h
  simp only [isUsersetRewriteValid, and_eq_true] at hvalid
  exact ⟨⟨r, hr, fun l hlb => hl l (mem_append_left _ hlb)⟩, hvalid.1⟩

theorem subtract (h : ts.PartOf objectType relation (.difference b s)) :
    ts.PartOf objectType relation s := by
  obtain ⟨⟨r, hr, hl⟩, hvalid⟩ := h
  simp only [isUsersetRewriteValid, and_eq_true] at hvalid
  exact ⟨⟨r, hr, fun l hls => hl l (mem_append_right _ hls)⟩, hvalid.2⟩

end PartOf

/-! ## ValidateTupleForRead -/

variable (ts) (tk : TupleKey)

/-- `validateTuplesetRestrictions`.  The rewrite of a tupleset relation was checked with the
    model. -/
def validateTuplesetRestrictions : Bool :=
  if ts.isTuplesetRelation tk.object.type tk.relation then
    match tk.user with
    | .object _ => true
    | .wildcard _ => false
    | .userset _ _ => false
  else true

/-- `validateTypeRestrictions`, for a relation with these restrictions.  The relation of a
    userset is never empty. -/
def validateTypeRestrictions (restrictions : List RelationReference) : Bool :=
  match tk.user with
  | .userset o userRel => restrictions.any fun d => d.type = o.type && d.shape = .userset userRel
  | .wildcard userType => restrictions.any fun d => d.type = userType && d.shape = .wildcard
  | .object o => restrictions.any fun d =>
    d.type = o.type && d.shape ≠ .wildcard && d.getRelation = ""

/-- The shape a restriction must have for the user. -/
def shape : User → Shape
  | .object _ => .object
  | .wildcard _ => .wildcard
  | .userset _ r => .userset r

/-- The relation of a user: empty unless it is a userset. -/
def userRelation : User → String
  | .userset _ r => r
  | _ => ""

/-- The body of the loop of `validateCondition` for a tuple without a condition. -/
def passesUnconditioned (d : RelationReference) : Bool :=
  if d.condition ≠ "" then false
  else if d.type ≠ tk.user.type then false
  else if d.shape ≠ .object then
    if d.getRelation ≠ "" && d.getRelation ≠ userRelation tk.user then false
    else if d.shape = .wildcard && !tk.user.isTypedWildcard then false
    else true
  else !tk.user.isTypedWildcard

def validateCondition (restrictions : List RelationReference) : Bool :=
  if tk.condition = "" then restrictions.any (passesUnconditioned tk)
  else !containsForbiddenChars tk.condition && ts.conditions.contains tk.condition &&
    (restrictions.any fun d => d.type = tk.user.type && d.condition = tk.condition) &&
    ts.validContext tk

/-- `ValidateTupleForRead`: no error. -/
def validateTupleForRead : Bool :=
  match ts.getRelation tk.object.type tk.relation with
  | .error _ => false
  | .ok r =>
    ts.validateTuplesetRestrictions tk &&
      validateTypeRestrictions tk r.directlyRelatedUserTypes &&
      ts.validateCondition tk r.directlyRelatedUserTypes

variable {ts tk}

section
variable (h : ts.validateTupleForRead tk = true)
include h

lemma exists_relation_of_valid :
    ∃ r, ts.getRelation tk.object.type tk.relation = .ok r ∧
      validateTypeRestrictions tk r.directlyRelatedUserTypes = true := by
  unfold validateTupleForRead at h
  cases hr : ts.getRelation tk.object.type tk.relation with
  | error e => simp [hr] at h
  | ok r =>
    simp only [hr, and_eq_true] at h
    exact ⟨r, rfl, h.1.2⟩

/-- Some restriction of the relation has the type and the shape of the user. -/
def Admits (ts : TypeSystem) (objectType relation : String) (u : User) : Prop :=
  ∃ r, ts.getRelation objectType relation = .ok r ∧
    ∃ d ∈ r.directlyRelatedUserTypes, d.type = u.type ∧ d.shape = shape u

omit h in
lemma validateTypeRestrictions_iff {restrictions : List RelationReference}
    (hne : ∀ d ∈ restrictions, d.shape ≠ .userset "") :
    validateTypeRestrictions tk restrictions = true ↔
      ∃ d ∈ restrictions, d.type = tk.user.type ∧ d.shape = shape tk.user := by
  cases hu : tk.user with
  | userset o s | wildcard t => simp [validateTypeRestrictions, hu, shape, User.type]
  | object o =>
    simp only [validateTypeRestrictions, hu, any_eq_true, and_eq_true, decide_eq_true_eq]
    refine exists_congr fun d => and_congr_right fun hd => ?_
    have hd := hne d hd
    unfold RelationReference.getRelation
    cases hshape : d.shape with
    | object | wildcard => simp [shape, User.type]
    | userset s =>
      rw [hshape] at hd
      simpa [shape] using fun _ hs => hd (by rw [hs])

lemma admits_of_valid :
    ts.Admits tk.object.type tk.relation tk.user := by
  obtain ⟨r, hr, hrestr⟩ := exists_relation_of_valid h
  refine ⟨r, hr, (validateTypeRestrictions_iff fun d hd hshape => ?_).mp hrestr⟩
  exact (restriction_defined hr hd hshape).1 rfl

lemma object_of_tupleset {o relation tupleset computed}
    (ho : tk.object = o) (hrel : tk.relation = tupleset)
    (hpart : ts.PartOf o.type relation (.tupleToUserset tupleset computed)) :
    ∃ o', tk.user = .object o' := by
  obtain ⟨⟨r, hr, hleaves⟩, -⟩ := hpart
  have hl := hleaves (.tupleToUserset tupleset computed) (by simp [Userset.leaves])
  obtain ⟨r', hr', -⟩ := exists_relation_of_valid h
  simp only [validateTupleForRead, hr', and_eq_true] at h
  have hset := h.1.1
  rw [validateTuplesetRestrictions, ho, hrel, if_pos (isTuplesetRelation_of_leaf hr hl)] at hset
  cases hu : tk.user with
  | object o' => exact ⟨o', rfl⟩
  | wildcard t => simp [hu] at hset
  | userset o' s => simp [hu] at hset

end

/-! ## The check of the strings -/

section
open Validation (WellFormed shapeOf)

/-- The strings of the key stand for the parts of the tuple. -/
structure Reads (tk : TupleKey) (key : Tuple.Key) : Prop where
  objectType : tk.object.type = Tuple.getType key.object
  relation : tk.relation = key.relation
  userType : tk.user.type = Tuple.getType key.user
  shape : shape tk.user = shapeOf key.user
  condition : tk.condition = key.condition

variable {key : Tuple.Key} {m : Validation.Model} {restrictions : List RelationReference}
  (hread : Reads tk key) (hwf : WellFormed key)
include hread hwf

lemma Reads.passesUnconditioned (d : RelationReference) :
    passesUnconditioned tk d = Validation.passesUnconditioned key d := by
  have huser : userRelation tk.user = Tuple.getRelation key.user ∧
      tk.user.isTypedWildcard = Tuple.isTypedWildcard key.user := by
    have hshape := hread.shape
    unfold shapeOf at hshape
    rcases hwf.2 with hobject | huserset
    · obtain ⟨-, hrel, hno⟩ := Validation.object_parts hobject
      cases hu : tk.user <;> cases hwild : Tuple.isTypedWildcard key.user <;>
        simp_all [TypeSystem.shape, userRelation, User.isTypedWildcard]
    · obtain ⟨-, -, hwild⟩ := Validation.userset_parts huserset
      cases hu : tk.user <;>
        simp_all [TypeSystem.shape, userRelation, User.isTypedWildcard, Tuple.isObjectRelation]
  unfold TypeSystem.passesUnconditioned Validation.passesUnconditioned
  rw [hread.userType, huser.1, huser.2]

lemma Reads.validateCondition (hconditions : m.conditions = ts.conditions) :
    ts.validateCondition tk restrictions = true ↔
      Validation.validateCondition m restrictions key = .ok () ∧
        (tk.condition ≠ "" → ts.validContext tk = true) := by
  have hpasses : TypeSystem.passesUnconditioned tk = Validation.passesUnconditioned key :=
    funext (hread.passesUnconditioned hwf)
  unfold TypeSystem.validateCondition Validation.validateCondition
  rw [hread.condition, hread.userType, hpasses, hconditions]
  by_cases hcond : key.condition = ""
  · simp [hcond]
  · rw [if_neg hcond, if_neg hcond]
    split_ifs with hchars hdefined hany <;> simp_all

/-- `OpenFGA.Validation` checks the same of the strings, but for the tuplesets and the contexts. -/
theorem validateTupleForRead_iff_strings (hconditions : m.conditions = ts.conditions)
    (hm : ∀ objectType relation, m.getDirectlyRelatedUserTypes objectType relation =
      (ts.getRelation objectType relation).toOption.map Relation.directlyRelatedUserTypes) :
    ts.validateTupleForRead tk = true ↔ Validation.validateTupleForRead m key = .ok () ∧
      ts.validateTuplesetRestrictions tk = true ∧
        (tk.condition ≠ "" → ts.validContext tk = true) := by
  have hds := hm (Tuple.getType key.object) key.relation
  rw [← hread.objectType, ← hread.relation] at hds
  unfold TypeSystem.validateTupleForRead
  cases hr : ts.getRelation tk.object.type tk.relation with
  | error e =>
    rw [hr] at hds
    unfold Validation.validateTupleForRead
    rw [← hread.objectType, ← hread.relation, hds]
    simp [Except.toOption]
  | ok r =>
    rw [hr, hread.objectType, hread.relation] at hds
    have hne : ∀ d ∈ r.directlyRelatedUserTypes, d.shape ≠ .userset "" :=
      m.userset_ne _ (Validation.mem_relations hds)
    have hdef := m.defined _ (Validation.mem_relations hds)
    rw [Validation.validateTupleForRead_ok hwf hds, ← Validation.validateCondition_ok hwf hne hdef]
    simp only [and_eq_true, validateTypeRestrictions_iff hne,
      hread.validateCondition hwf hconditions, hread.userType, hread.shape]
    unfold RelationReference.Allows
    tauto

end

end TypeSystem

end OpenFGA
