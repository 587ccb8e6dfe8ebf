/-
  `hasEntrypoints` (pkg/typesystem/typesystem.go), with which `validateRelation` rejects
  relations that can have no members: a depth-first walk over the rewrites with a map of maps
  `visitedRelations[type][relation]`.

  Only the outer map is cloned on the way down.  The inner maps are shared with everybody who had
  the type in the outer map at that time, so the model has a heap of inner maps, and an outer map
  holds their addresses.  Operands of an operator are walked with the map that the operator was
  called with.

  Go stops the program where a recursion is too deep; `stackOverflow` stands for it, and
  `hasEntrypoints` has the depth as an argument.
-/

import OpenFGA.TypeSystem.Meaning

namespace OpenFGA.Entrypoints

open Validation (Shape RelationReference)
open List Option

/-! ## The visited relations -/

/-- The inner maps of type `map[string]bool`, by their address.  A later entry for a relation
    stands in front of an earlier one. -/
abbrev Heap := List (List (String × Bool))

/-- The outer map: the address of the inner map of each type. -/
abbrev Visited := List (String × Nat)

/-- `v[typeName][relationName]`. -/
def seen (v : Visited) (h : Heap) (x : String × String) : Option Bool :=
  (v.lookup x.1).bind fun a => (h[a]?).bind fun marks => marks.lookup x.2

/-- Write to the inner map at the address. -/
def put (h : Heap) (a : Nat) (relation : String) (value : Bool) : Heap :=
  h.modify a fun marks => (relation, value) :: marks

/-- The clone of `visitedRelations` in which the relation is marked. -/
def enter (visitedRelations : Visited) (h : Heap) (x : String × String) : Visited × Heap :=
  match visitedRelations.lookup x.1 with
  | some a => (visitedRelations, put h a x.2 false)
  | none => ((x.1, h.length) :: visitedRelations, h ++ [[(x.2, false)]])

/-- `v[typeName][relationName] = true`, where the type is in the map. -/
def assign (v : Visited) (h : Heap) (x : String × String) : Heap :=
  match v.lookup x.1 with
  | some a => put h a x.2 true
  | none => h

/-! ## hasEntrypoints -/

inductive Error where
  /-- `undefined type definition for '%s#%s'` -/
  | undefined (typeName relationName : String)
  /-- `'%s#%s' as union has less than 2 children` -/
  | unionTooSmall (typeName relationName : String)
  /-- `'%s#%s' as intersection has less than 2 children` -/
  | intersectionTooSmall (typeName relationName : String)
  | stackOverflow
deriving DecidableEq, Repr

/-- Whether there is an entrypoint, whether a loop was found, and the inner maps. -/
abbrev Result := Except Error (Bool × Bool × Heap)

/-- The walk of another relation, with its rewrite. -/
abbrev Hop := String × String → Userset → Visited → Heap → Result

section
variable (m : AuthorizationModel) (hop : Hop)

/-- The loop over the type restrictions of a direct assignment. -/
def walkThis (x : String × String) (v : Visited) : List RelationReference → Heap → Result
  | [], h => .ok (false, false, h)
  | d :: ds, h =>
    match d.shape with
    | .object => .ok (true, false, assign v h x)
    | .wildcard => .ok (true, false, assign v h x)
    | .userset relation =>
      match m.getRelation d.type relation with
      | .error _ => .error (.undefined d.type relation)
      | .ok assignable =>
        if (seen v h (d.type, relation)).isSome then walkThis x v ds h
        else
          match hop (d.type, relation) assignable.rewrite v h with
          | .error e => .error e
          | .ok (has, _, h') => if has then .ok (true, false, h') else walkThis x v ds h'

/-- The loop over the type restrictions of a tupleset. -/
def walkTupleset (computed : String) (v : Visited) : List RelationReference → Heap → Result
  | [], h => .ok (false, false, h)
  | d :: ds, h =>
    match m.getRelation d.type computed with
    | .error _ => walkTupleset computed v ds h
    | .ok assignable =>
      match seen v h (d.type, computed) with
      | some has => if has then .ok (true, false, h) else walkTupleset computed v ds h
      | none =>
        match hop (d.type, computed) assignable.rewrite v h with
        | .error e => .error e
        | .ok (has, _, h') =>
          if has then .ok (true, false, h') else walkTupleset computed v ds h'

/-- The case of a computed userset. -/
def walkComputed (y : String × String) (v : Visited) (h : Heap) : Result :=
  match m.getRelation y.1 y.2 with
  | .error _ => .error (.undefined y.1 y.2)
  | .ok computed =>
    match seen v h y with
    | some has => .ok (has, true, h)
    | none => hop y computed.rewrite v h

mutual

/-- The calls of `hasEntrypoints` for one relation and the operands of its rewrite. -/
def walk (x : String × String) (visitedRelations : Visited) (rewrite : Userset)
    (h : Heap) : Result :=
  match m.getRelation x.1 x.2 with
  | .error _ => .error (.undefined x.1 x.2)
  | .ok relation =>
    let v := (enter visitedRelations h x).1
    let h' := (enter visitedRelations h x).2
    match rewrite with
    | .this => walkThis m hop x v relation.directlyRelatedUserTypes h'
    | .computedUserset computed => walkComputed m hop (x.1, computed) v h'
    | .tupleToUserset tupleset computed =>
      match m.getRelation x.1 tupleset with
      | .error _ => .error (.undefined x.1 tupleset)
      | .ok tuplesetRelation =>
        walkTupleset m hop computed v tuplesetRelation.directlyRelatedUserTypes h'
    | .union child =>
      if child.length < 2 then .error (.unionTooSmall x.1 x.2)
      else walkUnion x visitedRelations false child h'
    | .intersection child =>
      if child.length < 2 then .error (.intersectionTooSmall x.1 x.2)
      else walkIntersection x visitedRelations child h'
    | .difference base subtract =>
      match walk x visitedRelations base h' with
      | .error e => .error e
      | .ok (false, loop, h'') => .ok (false, loop, h'')
      | .ok (true, _, h'') =>
        match walk x visitedRelations subtract h'' with
        | .error e => .error e
        | .ok (false, loop, h₃) => .ok (false, loop, h₃)
        | .ok (true, _, h₃) => .ok (true, false, h₃)

def walkUnion (x : String × String) (visitedRelations : Visited) (loop : Bool)
    (child : List Userset) (h : Heap) : Result :=
  match child with
  | [] => .ok (false, loop, h)
  | c :: cs =>
    match walk x visitedRelations c h with
    | .error e => .error e
    | .ok (true, _, h') => .ok (true, false, h')
    | .ok (false, childLoop, h') => walkUnion x visitedRelations (loop || childLoop) cs h'

def walkIntersection (x : String × String) (visitedRelations : Visited) (child : List Userset)
    (h : Heap) : Result :=
  match child with
  | [] => .ok (true, false, h)
  | c :: cs =>
    match walk x visitedRelations c h with
    | .error e => .error e
    | .ok (false, childLoop, h') => .ok (false, childLoop, h')
    | .ok (true, _, h') => walkIntersection x visitedRelations cs h'

end

end

/-- `hasEntrypoints`, with a stack for so many relations. -/
def hasEntrypoints (m : AuthorizationModel) : Nat → Hop
  | 0, _, _, _, _ => .error .stackOverflow
  | n + 1, x, rewrite, visitedRelations, h =>
    walk m (hasEntrypoints m n) x visitedRelations rewrite h

/-- The relations of the model. -/
def relationKeys (m : AuthorizationModel) : List (String × String) :=
  m.typeDefinitions.flatMap fun td => td.relations.map fun p => (td.type, p.1)

/-- The errors of `validateRelation` that come from the entrypoints. -/
inductive InvalidRelation where
  | failed (e : Error)
  | noEntrypoints (objectType relation : String)
  | noEntryPointsLoop (objectType relation : String)
deriving DecidableEq, Repr

/-- The part of `validateRelation` that asks for entrypoints, on a stack that has room for every
    relation once. -/
def validateEntrypoints (m : AuthorizationModel) (typeName relationName : String)
    (rewrite : Userset) : Except InvalidRelation Unit :=
  match hasEntrypoints m ((relationKeys m).length + 1) (typeName, relationName) rewrite [] [] with
  | .error e => .error (.failed e)
  | .ok (true, _, _) => .ok ()
  | .ok (false, true, _) => .error (.noEntryPointsLoop typeName relationName)
  | .ok (false, false, _) => .error (.noEntrypoints typeName relationName)

/-! ## Marks -/

/-- Addresses are in the heap, and no two types share one. -/
structure Wf (v : Visited) (h : Heap) : Prop where
  bound : ∀ t a, v.lookup t = some a → a < h.length
  inj : ∀ t t' a, v.lookup t = some a → v.lookup t' = some a → t = t'

/-- The inner maps only get more entries. -/
structure Grows (h h' : Heap) : Prop where
  length : h.length ≤ h'.length
  keys : ∀ (a : Nat) (r : String), ((h[a]?).bind (lookup r)).isSome →
    ((h'[a]?).bind (lookup r)).isSome

/-- What the one outer map has, the other has too. -/
def Sub (v v' : Visited) : Prop := ∀ t a, v.lookup t = some a → v'.lookup t = some a

section
variable {v v' : Visited} {h h' h'' : Heap} {x y : String × String}

lemma Grows.refl : Grows h h := ⟨Nat.le_refl _, fun _ _ hk => hk⟩

lemma Grows.trans (h₁ : Grows h h') (h₂ : Grows h' h'') : Grows h h'' :=
  ⟨Nat.le_trans h₁.length h₂.length, fun a r hk => h₂.keys a r (h₁.keys a r hk)⟩

lemma Wf.grows (hwf : Wf v h) (hg : Grows h h') : Wf v h' :=
  ⟨fun t a ha => Nat.lt_of_lt_of_le (hwf.bound t a ha) hg.length, hwf.inj⟩

theorem Grows.seen (hg : Grows h h') (hs : (seen v h x).isSome) : (seen v h' x).isSome := by
  unfold Entrypoints.seen at hs ⊢
  cases hv : v.lookup x.1 with
  | none => simp [hv] at hs
  | some a =>
    rw [hv] at hs
    exact hg.keys a x.2 hs

theorem Sub.seen (hsub : Sub v v') {b : Bool} (hs : seen v h x = some b) :
    seen v' h x = some b := by
  unfold Entrypoints.seen at hs ⊢
  cases hv : v.lookup x.1 with
  | none => simp [hv] at hs
  | some a =>
    rw [hv] at hs
    rw [hsub _ _ hv]
    exact hs

lemma put_grows (a : Nat) (r : String) (b : Bool) : Grows h (put h a r b) := by
  refine ⟨by simp [put], fun a' r' hk => ?_⟩
  rw [put, getElem?_modify]
  cases ha : h[a']? with
  | none => simp [ha] at hk
  | some marks =>
    rw [ha] at hk
    by_cases heq : a = a'
    · by_cases hr : r' = r
      · simp [heq, hr]
      · have hne : (r' == r) = false := by simpa using hr
        simp only [heq, if_true, Option.map_eq_map, Option.map_some, Option.bind_some,
          List.lookup_cons, hne]
        exact hk
    · simp only [heq, if_false, Option.map_eq_map, Option.map_some]
      exact hk

lemma seen_put (hwf : Wf v h) {a : Nat} (ha : v.lookup x.1 = some a) (b : Bool) :
    seen v (put h a x.2 b) y = if y = x then some b else seen v h y := by
  unfold seen
  cases hv : v.lookup y.1 with
  | none =>
    have hne : y ≠ x := by
      rintro rfl
      rw [ha] at hv
      cases hv
    rw [if_neg hne]
    rfl
  | some a' =>
    simp only [Option.bind_some, put, List.getElem?_modify]
    by_cases haa : a = a'
    · subst haa
      have htype : y.1 = x.1 := hwf.inj _ _ _ hv ha
      obtain ⟨marks, hmarks⟩ : ∃ marks, h[a]? = some marks :=
        ⟨_, List.getElem?_eq_getElem (hwf.bound _ _ ha)⟩
      simp only [hmarks, if_true, Option.map_eq_map, Option.map_some, Option.bind_some,
        List.lookup_cons]
      by_cases hr : y.2 = x.2
      · rw [if_pos (Prod.ext htype hr)]
        simp [hr]
      · have hne : (y.2 == x.2) = false := by simpa using hr
        rw [hne, if_neg fun heq => hr (congrArg Prod.snd heq)]
    · have hne : y ≠ x := by
        rintro rfl
        rw [ha] at hv
        exact haa (Option.some.inj hv)
      rw [if_neg hne]
      simp [haa]

lemma enter_sub : Sub v (enter v h x).1 := by
  intro t a ha
  unfold enter
  cases hv : v.lookup x.1 with
  | some b => exact ha
  | none =>
    have hne : (t == x.1) = false := by
      rw [beq_eq_false_iff_ne]
      rintro rfl
      rw [hv] at ha
      cases ha
    simp only [lookup_cons, hne]
    exact ha

lemma enter_grows : Grows h (enter v h x).2 := by
  unfold enter
  cases v.lookup x.1 with
  | some a => exact put_grows a x.2 false
  | none =>
    refine ⟨by simp, fun a r hk => ?_⟩
    cases ha : h[a]? with
    | none => simp [ha] at hk
    | some marks =>
      rw [List.getElem?_append_left (List.getElem?_eq_some_iff.mp ha).1]
      exact hk

lemma enter_wf (hwf : Wf v h) : Wf (enter v h x).1 (enter v h x).2 := by
  have hg : Grows h (enter v h x).2 := enter_grows
  unfold enter at hg ⊢
  cases hv : v.lookup x.1 with
  | some a =>
    simp only [hv] at hg
    exact hwf.grows hg
  | none =>
    refine ⟨fun t a ha => ?_, fun t t' a ha ha' => ?_⟩
    · simp only [lookup_cons] at ha
      simp only [length_append, length_singleton]
      split at ha
      · cases ha
        omega
      · have := hwf.bound t a ha
        omega
    · simp only [lookup_cons] at ha ha'
      split at ha <;> split at ha'
      next hx _ hx' => exact (beq_iff_eq.mp hx).trans (beq_iff_eq.mp hx').symm
      next =>
        cases ha
        exact absurd (hwf.bound t' _ ha') (Nat.lt_irrefl _)
      next =>
        cases ha'
        exact absurd (hwf.bound t _ ha) (Nat.lt_irrefl _)
      next => exact hwf.inj t t' a ha ha'

lemma seen_enter (hwf : Wf v h) :
    seen (enter v h x).1 (enter v h x).2 y = if y = x then some false else seen v h y := by
  unfold enter
  cases hv : v.lookup x.1 with
  | some a => exact seen_put hwf hv false
  | none =>
    simp only [seen, lookup_cons]
    by_cases htype : y.1 = x.1
    · have hbeq : (y.1 == x.1) = true := by simpa using htype
      simp only [hbeq, bind_some, getElem?_concat_length, lookup_cons,
        lookup_nil]
      by_cases hr : y.2 = x.2
      · rw [if_pos (Prod.ext htype hr)]
        simp [hr]
      · have hne : (y.2 == x.2) = false := by simpa using hr
        rw [hne, if_neg fun heq => hr (congrArg Prod.snd heq), htype, hv]
        rfl
    · have hne : (y.1 == x.1) = false := by simpa using htype
      rw [if_neg fun heq => htype (congrArg Prod.fst heq)]
      simp only [hne]
      cases hy : v.lookup y.1 with
      | none => rfl
      | some a =>
        simp only [bind_some]
        rw [getElem?_append_left (hwf.bound _ _ hy)]

lemma true_enter (hwf : Wf v h) (hy : seen (enter v h x).1 (enter v h x).2 y = some true) :
    y ≠ x ∧ seen v h y = some true := by
  rw [seen_enter hwf] at hy
  by_cases heq : y = x
  · rw [if_pos heq] at hy
    cases hy
  · rw [if_neg heq] at hy
    exact ⟨heq, hy⟩

lemma exists_lookup_enter : ∃ a, (enter v h x).1.lookup x.1 = some a := by
  unfold enter
  cases hv : v.lookup x.1 with
  | some a => exact ⟨a, hv⟩
  | none => exact ⟨h.length, by simp⟩

lemma assign_grows : Grows h (assign v h x) := by
  unfold assign
  cases v.lookup x.1 with
  | some a => exact put_grows a x.2 true
  | none => exact .refl

lemma seen_assign (hwf : Wf v h) (hx : ∃ a, v.lookup x.1 = some a) :
    seen v (assign v h x) y = if y = x then some true else seen v h y := by
  obtain ⟨a, ha⟩ := hx
  rw [assign, ha]
  exact seen_put hwf ha true

end

end OpenFGA.Entrypoints
