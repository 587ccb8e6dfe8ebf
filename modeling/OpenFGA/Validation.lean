/-
  Tuples against the type restrictions of a model (`internal/validation/validation.go`,
  `internal/check/request.go`).

  A relation lists the users it may be assigned to: a type, whether the user is an object,
  a userset or a typed wildcard, and the name of the condition the tuple must
  have.  `ValidateTupleForRead` looks for the type and shape in one loop and for the
  condition in another, so that a tuple may take its condition from a restriction that
  does not admit its user.  `validateCtxTupleInModel` of the v2 resolver looks both up
  on one edge.

  Left out are the restrictions on tuplesets and the checks of the context that
  comes with a condition.
-/

import OpenFGA.Graph
import OpenFGA.TupleStrings

namespace OpenFGA.Validation

open OpenFGA.Tuple

/-- The `RelationOrWildcard` of a `RelationReference`. -/
inductive Shape where
  | object
  | userset (relation : String)
  | wildcard
deriving DecidableEq, Repr

/-- A type restriction. -/
structure RelationReference where
  type : String
  shape : Shape
  /-- Empty where tuples must have no condition. -/
  condition : String
deriving DecidableEq, Repr

def RelationReference.getRelation (d : RelationReference) : String :=
  match d.shape with
  | .userset relation => relation
  | _ => ""

/-- The type restrictions of each type and relation, and the conditions of a model that was
    validated. -/
structure Model where
  relations : List ((String × String) × List RelationReference)
  conditions : List String
  userset_ne : ∀ p ∈ relations, ∀ d ∈ p.2, d.shape ≠ .userset ""
  defined : ∀ p ∈ relations, ∀ d ∈ p.2, d.condition ≠ "" → d.condition ∈ conditions

namespace Model

variable (m : Model)

/-- `GetDirectlyRelatedUserTypes`; `none` for an undefined relation. -/
def getDirectlyRelatedUserTypes (objectType relation : String) : Option (List RelationReference) :=
  m.relations.lookup (objectType, relation)

end Model

inductive ValidationError where
  | relationUndefined (objectType relation : String)
  | invalidTuple (cause : String)
  | invalidConditionalTuple (cause : String)
deriving DecidableEq, Repr

def containsForbiddenChars (s : String) : Bool := s.toList.any isControl

/-- `validateTypeRestrictions`, for a relation with these restrictions. -/
def validateTypeRestrictions (restrictions : List RelationReference) (tk : Key) :
    Except ValidationError Unit :=
  let objectType := getType tk.object
  let (userObject, userRel) := splitObjectRelation tk.user
  let (userType, _) := splitObject userObject
  let user := tk.user
  if isObjectRelation user then
    if restrictions.any fun d => d.type = userType && d.getRelation = userRel then .ok ()
    else .error (.invalidTuple ("'" ++ userType ++ "#" ++ userRel ++
      "' is not an allowed type restriction for '" ++ objectType ++ "#" ++ tk.relation ++ "'"))
  else if isTypedWildcard user then
    if restrictions.any fun d => d.type = userType && d.shape = .wildcard then .ok ()
    else .error (.invalidTuple ("the typed wildcard '" ++ user ++
      "' is not an allowed type restriction for '" ++ objectType ++ "#" ++ tk.relation ++ "'"))
  else
    if restrictions.any fun d => d.type = userType && d.shape ≠ .wildcard && d.getRelation = "" then
      .ok ()
    else .error (.invalidTuple ("type '" ++ userType ++
      "' is not an allowed type restriction for '" ++ objectType ++ "#" ++ tk.relation ++ "'"))

/-- The restriction lets a tuple without a condition pass: the body of the first loop of
    `validateCondition`. -/
def passesUnconditioned (tk : Key) (d : RelationReference) : Bool :=
  let userType := getType tk.user
  let userRelation := getRelation tk.user
  if d.condition ≠ "" then false
  else if d.type ≠ userType then false
  else if d.shape ≠ .object then
    if d.getRelation ≠ "" && d.getRelation ≠ userRelation then false
    else if d.shape = .wildcard && !isTypedWildcard tk.user then false
    else true
  else !isTypedWildcard tk.user

/-- `validateCondition`, without the context. -/
def validateCondition (m : Model) (restrictions : List RelationReference) (tk : Key) :
    Except ValidationError Unit :=
  if tk.condition = "" then
    if restrictions.any (passesUnconditioned tk) then .ok ()
    else .error (.invalidConditionalTuple "condition is missing")
  else if containsForbiddenChars tk.condition then
    .error (.invalidConditionalTuple "condition name contains forbidden characters")
  else if !m.conditions.contains tk.condition then
    .error (.invalidConditionalTuple "undefined condition")
  else if restrictions.any fun d => d.type = getType tk.user && d.condition =
    tk.condition then .ok ()
  else .error (.invalidConditionalTuple "invalid condition for type restriction")

def validateTupleForRead (m : Model) (tk : Key) : Except ValidationError Unit :=
  match m.getDirectlyRelatedUserTypes (getType tk.object) tk.relation with
  | none => .error (.relationUndefined (getType tk.object) tk.relation)
  | some restrictions => do
      validateTypeRestrictions restrictions tk
      validateCondition m restrictions tk

/-- The node of the user type in `validateCtxTupleInModel`. -/
def userNode (user : String) : NodeKey :=
  if isObjectRelation user then .specificTypeAndRelation (getType user) (getRelation user)
  else if isTypedWildcard user then .specificTypeWildcard (getType user)
  else .specificType (getType user)

/-- `validateCtxTupleInModel`.  `directEdge` is `GetDirectEdgeForUserType` of the graph. -/
def validateCtxTupleInModel (g : Graph) (directEdge : NodeKey → NodeKey → Option Edge) (tk : Key) :
    Bool :=
  let node := NodeKey.specificTypeAndRelation (getType tk.object) tk.relation
  (g.getNodeByID node).isSome &&
    (directEdge node (userNode tk.user)).any fun e => e.conditions.contains tk.condition

/-! ## What the restrictions are for -/

/-- The shape of the user of a tuple. -/
def shapeOf (user : String) : Shape :=
  if isObjectRelation user then .userset (getRelation user)
  else if isTypedWildcard user then .wildcard
  else .object

/-- The restriction has the type and the shape of the user. -/
def RelationReference.Allows (d : RelationReference) (tk : Key) : Prop :=
  d.type = getType tk.user ∧ d.shape = shapeOf tk.user

/-- The restriction admits the tuple: type, shape and condition match. -/
def RelationReference.Admits (d : RelationReference) (tk : Key) : Prop :=
  d.Allows tk ∧ d.condition = tk.condition

/-- A restriction that the tuple may take its condition from: any of its type for a tuple
    with a condition, and for a userset without one also those of the plain type. -/
def RelationReference.Lends (d : RelationReference) (tk : Key) : Prop :=
  d.type = getType tk.user ∧ d.condition = tk.condition ∧
    (tk.condition = "" → d.shape = shapeOf tk.user ∨
      (d.shape = .object ∧ isObjectRelation tk.user = true))

/-- The tuple is well formed: object and user are, and the user has a type. -/
def WellFormed (tk : Key) : Prop :=
  isValidObject tk.object = true ∧ (isValidObject tk.user = true ∨ isValidUserset tk.user = true)

section
variable {user : String}

lemma userset_parts (h : isValidUserset user = true) :
    getType (splitObjectRelation user).1 = getType user ∧ getRelation user ≠ "" ∧
      isTypedWildcard user = false := by
  obtain ⟨type, id, relation, rfl, -, htc, -, hrh, hrne⟩ := exists_of_isValidUserset h
  have hassoc : buildObject type id ++ "#" ++ relation =
      buildObject type (id ++ "#" ++ relation) := by
    simp [buildObject, String.append_assoc]
  have hstar : id ++ "#" ++ relation ≠ "*" := by
    intro heq
    have hmem : '#' ∈ (id ++ "#" ++ relation).toList := by simp
    rw [heq] at hmem
    exact absurd hmem (by decide)
  refine ⟨?_, ?_, ?_⟩
  · rw [splitObjectRelation_append hrh, hassoc, getType, getType, splitObject_buildObject htc,
      splitObject_buildObject htc]
  · rw [getRelation, splitObjectRelation_append hrh]
    exact hrne
  · rw [isTypedWildcard, hassoc, splitObject_buildObject htc]
    simp only [hstar, decide_false, Bool.and_false]

lemma object_parts (h : isValidObject user = true) :
    (splitObjectRelation user).1 = user ∧ getRelation user = "" ∧
      isObjectRelation user = false := by
  obtain ⟨-, -, -, -, -, hh⟩ := exists_of_isValidObject h
  refine ⟨?_, ?_, ?_⟩
  · rw [splitObjectRelation_of_notMem hh]
  · rw [getRelation, splitObjectRelation_of_notMem hh]
  · by_contra huserset
    rw [Bool.not_eq_false] at huserset
    obtain ⟨type, id, relation, rfl, -⟩ := exists_of_isValidUserset huserset
    exact hh (by simp)

end

section
variable {tk : Key} {d : RelationReference} {ds : List RelationReference} {m : Model}

lemma ok_iff {b : Bool} {e : ValidationError} :
    (if b = true then Except.ok () else .error e) = .ok () ↔ b = true := by
  cases b <;> simp

lemma getType_userObject (h : WellFormed tk) :
    (splitObject (splitObjectRelation tk.user).1).1 = getType tk.user := by
  rcases h.2 with hobject | huserset
  · rw [(object_parts hobject).1]
    rfl
  · exact (userset_parts huserset).1

lemma validateTypeRestrictions_ok (h : WellFormed tk) (hds : ∀ d ∈ ds, d.shape ≠ .userset "") :
    validateTypeRestrictions ds tk = .ok () ↔ ∃ d ∈ ds, d.Allows tk := by
  have htype := getType_userObject h
  unfold validateTypeRestrictions RelationReference.Allows shapeOf
  simp only [htype]
  by_cases huserset : isObjectRelation tk.user = true
  · have hne := (userset_parts huserset).2.1
    rw [if_pos huserset, if_pos huserset]
    have hshape : ∀ d : RelationReference, d.getRelation = getRelation tk.user ↔
        d.shape = .userset (getRelation tk.user) := by
      intro d
      unfold RelationReference.getRelation
      cases d.shape with
      | object | wildcard => simpa using fun heq : "" = _ => hne heq.symm
      | userset r => simp
    have hrel : (splitObjectRelation tk.user).2 = getRelation tk.user := rfl
    rw [ok_iff, List.any_eq_true, hrel]
    simp [hshape]
  · rw [if_neg huserset, if_neg huserset]
    by_cases hwild : isTypedWildcard tk.user = true
    · rw [if_pos hwild, if_pos hwild, ok_iff, List.any_eq_true]
      simp
    · rw [if_neg hwild, if_neg hwild]
      have hshape : ∀ d ∈ ds, (d.shape ≠ .wildcard ∧ d.getRelation = "") ↔ d.shape = .object := by
        intro d hd
        have hd := hds d hd
        unfold RelationReference.getRelation
        cases hs : d.shape with
        | object => simp
        | userset r =>
          rw [hs] at hd
          simpa using hd
        | wildcard => simp
      rw [ok_iff, List.any_eq_true]
      refine exists_congr fun d => and_congr_right fun hd => ?_
      rw [← hshape d hd]
      simp [and_assoc]

/-- The second loop finds the restrictions that lend the absence of a condition. -/
lemma passesUnconditioned_iff (h : WellFormed tk) (hd : d.shape ≠ .userset "")
    (hcond : tk.condition = "") : passesUnconditioned tk d = true ↔ d.Lends tk := by
  unfold passesUnconditioned RelationReference.Lends shapeOf RelationReference.getRelation
  by_cases hc : d.condition = ""
  · by_cases ht : d.type = getType tk.user
    · rcases h.2 with hobject | huserset
      · obtain ⟨-, hrel, hno⟩ := object_parts hobject
        cases hs : d.shape with
        | object => simp [hc, ht, hcond, hno]
        | userset r =>
          rw [hs] at hd
          have hr : r ≠ "" := fun heq => hd (by rw [heq])
          by_cases hw : isTypedWildcard tk.user = true
          · simp [hc, ht, hcond, hno, hrel, hr, hw]
          · simp [hc, ht, hcond, hno, hrel, hr, hw]
        | wildcard =>
          by_cases hw : isTypedWildcard tk.user = true
          · simp [hc, ht, hcond, hno, hw]
          · simp [hc, ht, hcond, hno, hw]
      · obtain ⟨-, hrel, hw⟩ := userset_parts huserset
        have hor : isObjectRelation tk.user = true := huserset
        cases hs : d.shape with
        | object | wildcard => simp [hc, ht, hcond, hw, hor]
        | userset r =>
          rw [hs] at hd
          have hr : r ≠ "" := fun heq => hd (by rw [heq])
          simp [hc, ht, hcond, hw, hor, hr]
    · simp [hc, ht]
  · simp [hc, hcond]

lemma validateCondition_ok (h : WellFormed tk) (hds : ∀ d ∈ ds, d.shape ≠ .userset "")
    (hdef : ∀ d ∈ ds, d.condition ≠ "" → d.condition ∈ m.conditions) :
    validateCondition m ds tk = .ok () ↔
      (∃ d ∈ ds, d.Lends tk) ∧ containsForbiddenChars tk.condition = false := by
  unfold validateCondition
  by_cases hcond : tk.condition = ""
  · have hany : ds.any (passesUnconditioned tk) = true ↔ ∃ d ∈ ds, d.Lends tk := by
      rw [List.any_eq_true]
      exact exists_congr fun d => and_congr_right fun hd =>
        passesUnconditioned_iff h (hds d hd) hcond
    have hchars : containsForbiddenChars "" = false := by decide
    rw [if_pos hcond, ok_iff, hany, hcond, hchars, and_iff_left rfl]
  · have hany : (ds.any fun d => d.type = getType tk.user && d.condition = tk.condition) = true ↔
        ∃ d ∈ ds, d.Lends tk := by
      rw [List.any_eq_true]
      refine exists_congr fun d => and_congr_right fun _ => ?_
      simp [RelationReference.Lends, hcond]
    have hmem : (∃ d ∈ ds, d.Lends tk) → tk.condition ∈ m.conditions := by
      rintro ⟨d, hd, -, heq, -⟩
      exact heq ▸ hdef d hd (heq ▸ hcond)
    rw [if_neg hcond]
    cases hchars : containsForbiddenChars tk.condition with
    | true => simp
    | false =>
      rw [if_neg Bool.false_ne_true, and_iff_left rfl]
      by_cases hin : tk.condition ∈ m.conditions
      · rw [if_neg (by simpa using hin), ok_iff, hany]
      · rw [if_pos (by simpa using hin)]
        exact ⟨fun hok => (nomatch hok), fun hlends => absurd (hmem hlends) hin⟩

lemma mem_relations {objectType relation}
    (h : m.getDirectlyRelatedUserTypes objectType relation = some ds) :
    ((objectType, relation), ds) ∈ m.relations := by
  obtain ⟨l₁, l₂, heq, -⟩ := List.lookup_eq_some_iff.mp h
  rw [heq]
  simp

lemma validateTupleForRead_ok (h : WellFormed tk)
    (hds : m.getDirectlyRelatedUserTypes (getType tk.object) tk.relation = some ds) :
    validateTupleForRead m tk = .ok () ↔ (∃ d ∈ ds, d.Allows tk) ∧ (∃ d ∈ ds, d.Lends tk) ∧
      containsForbiddenChars tk.condition = false := by
  have hne : ∀ d ∈ ds, d.shape ≠ .userset "" := m.userset_ne _ (mem_relations hds)
  have hdef : ∀ d ∈ ds, d.condition ≠ "" → d.condition ∈ m.conditions :=
    m.defined _ (mem_relations hds)
  rw [← validateCondition_ok h hne hdef, ← validateTypeRestrictions_ok h hne,
    validateTupleForRead, hds]
  show (validateTypeRestrictions ds tk >>= fun _ => validateCondition m ds tk) = .ok () ↔ _
  cases validateTypeRestrictions ds tk with
  | error e => exact ⟨fun hok => (nomatch hok), fun hok => (nomatch hok.1)⟩
  | ok u => exact ⟨fun hok => ⟨rfl, hok⟩, fun hok => hok.2⟩

/-- The graph was built from the model: for each type and shape that a relation is
    restricted to it has one direct edge, with the conditions of those restrictions. -/
def Restricts (m : Model) (g : Graph) (directEdge : NodeKey → NodeKey → Option Edge) : Prop :=
  ∀ objectType relation ds, m.getDirectlyRelatedUserTypes objectType relation = some ds →
    (g.getNodeByID (.specificTypeAndRelation objectType relation)).isSome = true ∧
    ∀ user, ((directEdge (.specificTypeAndRelation objectType relation) (userNode user)).map
        fun e => e.conditions) =
      match ds.filter fun d => d.type = getType user && d.shape = shapeOf user with
      | [] => none
      | d :: rest => some ((d :: rest).map fun d => d.condition)

lemma validateCtxTupleInModel_iff {g} {directEdge : NodeKey → NodeKey → Option Edge}
    (hg : Restricts m g directEdge)
    (hds : m.getDirectlyRelatedUserTypes (getType tk.object) tk.relation = some ds) :
    validateCtxTupleInModel g directEdge tk = true ↔ ∃ d ∈ ds, d.Admits tk := by
  obtain ⟨hnode, hedge⟩ := hg _ _ ds hds
  have hedge := hedge tk.user
  have hadmits : (∃ d ∈ ds, d.Admits tk) ↔ tk.condition ∈
      (ds.filter fun d => d.type = getType tk.user && d.shape = shapeOf tk.user).map
        fun d => d.condition := by
    simp only [List.mem_map, List.mem_filter, Bool.and_eq_true, decide_eq_true_iff,
      RelationReference.Admits, RelationReference.Allows, and_assoc]
  rw [validateCtxTupleInModel, hnode, Bool.true_and, hadmits]
  generalize ds.filter (fun d => d.type = getType tk.user && d.shape = shapeOf tk.user) =
    es at hedge
  cases es with
  | nil =>
    rw [Option.map_eq_none_iff.mp hedge]
    simp
  | cons d rest =>
    obtain ⟨e, he, hconds⟩ := Option.map_eq_some_iff.mp hedge
    rw [he, ← hconds]
    simp

/-- No restriction lends its condition to a tuple that no single one admits, and the
    name of the condition is one that is accepted. -/
structure Unmixed (ds : List RelationReference) (tk : Key) : Prop where
  single : containsForbiddenChars tk.condition = false → (∃ d ∈ ds, d.Allows tk) →
    (∃ d ∈ ds, d.Lends tk) → ∃ d ∈ ds, d.Admits tk
  name : (∃ d ∈ ds, d.Admits tk) → containsForbiddenChars tk.condition = false

lemma lends_of_admits (h : d.Admits tk) : d.Lends tk := ⟨h.1.1, h.2, fun _ => .inl h.1.2⟩

end

/-- For every model, every relation with type restrictions and every well-formed tuple:
    `ValidateTupleForRead` accepts exactly the tuples that one restriction admits, and the
    same as `validateCtxTupleInModel`, exactly when the restrictions are not mixed for
    the tuple. -/
theorem validateTupleForRead_iff_unmixed (m : Model) (g : Graph)
    (directEdge : NodeKey → NodeKey → Option Edge) (hg : Restricts m g directEdge) (tk : Key)
    (htk : WellFormed tk) (ds : List RelationReference)
    (hds : m.getDirectlyRelatedUserTypes (getType tk.object) tk.relation = some ds) :
    ((validateTupleForRead m tk = .ok () ↔ ∃ d ∈ ds, d.Admits tk) ∧
      (validateTupleForRead m tk = .ok () ↔ validateCtxTupleInModel g directEdge tk = true)) ↔
    Unmixed ds tk := by
  rw [validateCtxTupleInModel_iff hg hds, and_self, validateTupleForRead_ok htk hds]
  constructor
  · intro h
    exact ⟨fun hchars hallows hlends => h.mp ⟨hallows, hlends, hchars⟩,
      fun hadmits => (h.mpr hadmits).2.2⟩
  · rintro ⟨hsingle, hname⟩
    refine ⟨fun h => hsingle h.2.2 h.1 h.2.1, fun hadmits => ⟨?_, ?_, hname hadmits⟩⟩
    · obtain ⟨d, hd, h⟩ := hadmits
      exact ⟨d, hd, h.1⟩
    · obtain ⟨d, hd, h⟩ := hadmits
      exact ⟨d, hd, lends_of_admits h⟩

-- Groups may view a document; their members may only under a condition.

private def mixedRestrictions : List RelationReference :=
  [⟨"group", .object, ""⟩, ⟨"group", .userset "member", "inRegion"⟩]

private def mixedModel : Model where
  relations := [(("document", "viewer"), mixedRestrictions)]
  conditions := ["inRegion"]
  userset_ne := by decide
  defined := by decide

private def restrictionEdge (target : NodeKey) (conditions : List String) : Edge where
  edgeType := .directEdge
  source := .specificTypeAndRelation "document" "viewer"
  target
  relationDefinition := ("document", "viewer")
  tuplesetRelation := none
  conditions
  recursiveRelation := none
  tupleCycle := false
  wildcards := []
  weights := []

private def mixedGraph : Graph where
  nodes := [⟨.specificTypeAndRelation "document" "viewer", none, false, [], []⟩]
  edges := []

private def mixedEdge (_ target : NodeKey) : Option Edge :=
  if target = .specificType "group" then some (restrictionEdge target [""])
  else if target = .specificTypeAndRelation "group" "member" then
    some (restrictionEdge target ["inRegion"])
  else none

private lemma restricts_mixed : Restricts mixedModel mixedGraph mixedEdge := by
  intro objectType relation ds hds
  have hmem := mem_relations hds
  simp only [mixedModel, List.mem_singleton, Prod.mk.injEq] at hmem
  obtain ⟨⟨rfl, rfl⟩, rfl⟩ := hmem
  refine ⟨by decide, fun user => ?_⟩
  unfold userNode shapeOf mixedEdge mixedRestrictions
  by_cases htype : "group" = getType user
  · by_cases huserset : isObjectRelation user = true
    · by_cases hrel : "member" = getRelation user
      · simp [huserset, ← htype, ← hrel, restrictionEdge]
      · simp [huserset, ← htype, hrel, Ne.symm hrel]
    · by_cases hwild : isTypedWildcard user = true
      · simp [huserset, hwild, ← htype]
      · simp [huserset, hwild, ← htype, restrictionEdge]
  · have hne : ¬ getType user = "group" := fun heq => htype heq.symm
    by_cases huserset : isObjectRelation user = true
    · simp [huserset, htype, hne]
    · by_cases hwild : isTypedWildcard user = true
      · simp [huserset, hwild, htype]
      · simp [huserset, hwild, htype, hne]

private def engViewer (user condition : String) : Key :=
  ⟨"document:1", "viewer", user, condition, ""⟩

/-- A group without a condition is accepted, and a restriction admits it. -/
theorem validateTupleForRead_iff_unmixed_group :
    WellFormed (engViewer "group:eng" "") ∧
      (validateTupleForRead mixedModel (engViewer "group:eng" "") = .ok () ↔
        ∃ d ∈ mixedRestrictions, d.Admits (engViewer "group:eng" "")) := by
  have hwf : WellFormed (engViewer "group:eng" "") := by
    unfold WellFormed
    decide
  have hunmixed : Unmixed mixedRestrictions (engViewer "group:eng" "") :=
    ⟨fun _ _ _ => ⟨⟨"group", .object, ""⟩, by decide, ⟨by decide, by decide⟩, by decide⟩,
      fun _ => by decide⟩
  exact ⟨hwf, ((validateTupleForRead_iff_unmixed mixedModel mixedGraph mixedEdge restricts_mixed
    (engViewer "group:eng" "") hwf mixedRestrictions rfl).mpr hunmixed).1⟩

/-- The members of a group are accepted without the condition they need. -/
theorem validateTupleForRead_mixed :
    WellFormed (engViewer "group:eng#member" "") ∧ Restricts mixedModel mixedGraph mixedEdge ∧
    validateTupleForRead mixedModel (engViewer "group:eng#member" "") = .ok () ∧
    (¬ ∃ d ∈ mixedRestrictions, d.Admits (engViewer "group:eng#member" "")) ∧
    validateCtxTupleInModel mixedGraph mixedEdge (engViewer "group:eng#member" "") = false := by
  refine ⟨?_, restricts_mixed, by decide, ?_, by decide⟩
  · unfold WellFormed
    decide
  · unfold RelationReference.Admits RelationReference.Allows
    decide

end OpenFGA.Validation
