/-
  What `hasEntrypoints` answers, against the least set of productive relations.

  The walk ends on every model whose references exist, with a stack for each relation once, and a
  relation that it accepts is productive.  A mark says that a relation was visited, though, and not
  that it is on the current path.  Where two operands of an intersection lead to one relation, the
  second one finds the mark of the first, which says `false` unless the relation is directly
  assignable.  When every mark that is taken for a `no` is right (`Faithful`), the answer is exact.

  The specification of a call (`HopPost`) and of a part of it (`Post`) have the same parts: that
  marks are only added, that a positive answer is right, and that a negative one is.
-/

import OpenFGA.TypeSystem.Entrypoints
import OpenFGA.TypeSystem.Productive

namespace OpenFGA.Entrypoints
open AuthorizationModel
open Userset List
variable {m : AuthorizationModel}

open Validation (Shape RelationReference)

/-! ## Marks that are right -/

section
variable (m : AuthorizationModel) (hop : Hop)
  (faithful : List (String × String) → String × String → Userset → Visited → Heap → Prop)
  (V : List (String × String))

/-- What follows a call that answers like this. -/
def After (answer : Bool) (result : Result) (rest : Heap → Prop) : Prop :=
  ∀ loop h, result = .ok (answer, loop, h) → rest h

/-- In the loop of `walkThis` a marked relation is left out. -/
def FaithfulThis (v : Visited) : List RelationReference → Heap → Prop
  | [], _ => True
  | d :: ds, h =>
    match d.shape with
    | .object => True
    | .wildcard => True
    | .userset relation =>
      match m.getRelation d.type relation with
      | .error _ => True
      | .ok assignable =>
        if (seen v h (d.type, relation)).isSome then
          ¬ Avoiding m.rule V (d.type, relation) ∧ FaithfulThis v ds h
        else
          faithful V (d.type, relation) assignable.rewrite v h ∧
            After false (hop (d.type, relation) assignable.rewrite v h) (FaithfulThis v ds)

/-- In the loop of `walkTupleset` a mark is the answer. -/
def FaithfulTupleset (computed : String) (v : Visited) : List RelationReference → Heap → Prop
  | [], _ => True
  | d :: ds, h =>
    match m.getRelation d.type computed with
    | .error _ => FaithfulTupleset computed v ds h
    | .ok assignable =>
      match seen v h (d.type, computed) with
      | some true => True
      | some false => ¬ Avoiding m.rule V (d.type, computed) ∧ FaithfulTupleset computed v ds h
      | none =>
        faithful V (d.type, computed) assignable.rewrite v h ∧
          After false (hop (d.type, computed) assignable.rewrite v h)
            (FaithfulTupleset computed v ds)

def FaithfulComputed (y : String × String) (v : Visited) (h : Heap) : Prop :=
  match m.getRelation y.1 y.2 with
  | .error _ => True
  | .ok computed =>
    match seen v h y with
    | some true => True
    | some false => ¬ Avoiding m.rule V y
    | none => faithful V y computed.rewrite v h

mutual

/-- Whenever the walk over a rewrite of `x` takes a mark for a no, the marked relation has no
    members that do not come from `x` or from the relations `V` on the stack. -/
def FaithfulWalk (x : String × String) (visitedRelations : Visited) (rewrite : Userset)
    (h : Heap) : Prop :=
  let v := (enter visitedRelations h x).1
  let h' := (enter visitedRelations h x).2
  match rewrite with
  | .this => FaithfulThis m hop faithful (x :: V) v (m.getDirectlyRelatedUserTypes x.1 x.2) h'
  | .computedUserset computed => FaithfulComputed m faithful (x :: V) (x.1, computed) v h'
  | .tupleToUserset tupleset computed =>
    FaithfulTupleset m hop faithful (x :: V) computed v
      (m.getDirectlyRelatedUserTypes x.1 tupleset) h'
  | .union child => FaithfulUnion x visitedRelations child h'
  | .intersection child => FaithfulIntersection x visitedRelations child h'
  | .difference base subtract =>
    FaithfulWalk x visitedRelations base h' ∧
      After true (walk m hop x visitedRelations base h') fun h'' =>
        FaithfulWalk x visitedRelations subtract h''

def FaithfulUnion (x : String × String) (visitedRelations : Visited) (child : List Userset)
    (h : Heap) : Prop :=
  match child with
  | [] => True
  | c :: cs => FaithfulWalk x visitedRelations c h ∧
      After false (walk m hop x visitedRelations c h) fun h' =>
        FaithfulUnion x visitedRelations cs h'

def FaithfulIntersection (x : String × String) (visitedRelations : Visited)
    (child : List Userset) (h : Heap) : Prop :=
  match child with
  | [] => True
  | c :: cs => FaithfulWalk x visitedRelations c h ∧
      After true (walk m hop x visitedRelations c h) fun h' =>
        FaithfulIntersection x visitedRelations cs h'

end

end

/-- The same for a call of `hasEntrypoints`. -/
def Faithful (m : AuthorizationModel) : Nat → List (String × String) → String × String → Userset →
    Visited → Heap → Prop
  | 0, _, _, _, _, _ => True
  | n + 1, V, x, rewrite, visitedRelations, h =>
    FaithfulWalk m (hasEntrypoints m n) (Faithful m n) V x visitedRelations rewrite h

/-! ## What a call and its parts guarantee -/

section
variable (m : AuthorizationModel)

/-- A mark that says `true` is of a productive relation. -/
def TrueMarks (v : Visited) (h : Heap) : Prop := ∀ y, seen v h y = some true → m.Productive y

/-- The same, apart from the mark of `p`, whose operands are being walked. -/
def TrueExcept (p : String × String) (v : Visited) (h : Heap) : Prop :=
  ∀ y, y ≠ p → seen v h y = some true → m.Productive y

/-- A call for the relation `q` with the relations `V` on the stack, which is faithful if `F`. -/
structure HopPost (V : List (String × String)) (q : String × String) (v : Visited) (F : Prop)
    (h : Heap) (b : Bool) (h' : Heap) : Prop where
  grows : Grows h h'
  sound : TrueMarks m v h → TrueMarks m v h' ∧ (b = true → m.Productive q)
  complete : F → b = false → ¬ Avoiding m.rule V q

/-- A part of a call for the relation `p` that decides `Y`. -/
structure Post (V : List (String × String)) (p : String × String) (v : Visited) (F : Prop)
    (Y : (String × String → Prop) → Prop) (Pre : Prop) (h : Heap) (b : Bool)
    (h' : Heap) : Prop where
  grows : Grows h h'
  sound : Pre → TrueExcept m p v h' ∧ (b = false → TrueMarks m v h') ∧ (b = true → Y m.Productive)
  complete : F → b = false → ¬ Y (Avoiding m.rule V)

/-- The relations on the stack are marked. -/
structure Ready (V : List (String × String)) (v : Visited) (h : Heap) : Prop where
  wf : Wf v h
  nodup : V.Nodup
  keys : ∀ y ∈ V, y ∈ relationKeys m
  marked : ∀ y ∈ V, (seen v h y).isSome

/-- Calls on a stack that has room for `n` more relations. -/
def HopSpec (hop : Hop)
    (faithful : List (String × String) → String × String → Userset → Visited → Heap → Prop)
    (n : Nat) : Prop :=
  ∀ V q rel v h, m.getRelation q.1 q.2 = .ok rel → Ready m V v h →
    (relationKeys m).length < V.length + n → q ∉ V →
    ∃ b loop h', hop q rel.rewrite v h = .ok (b, loop, h') ∧
      HopPost m V q v (faithful V q rel.rewrite v h) h b h'

end

section
variable {m : AuthorizationModel} {p q : String × String} {V : List (String × String)}
  {v : Visited} {F F₁ F₂ : Prop} {Y Y₁ Y₂ : (String × String → Prop) → Prop} {Pre : Prop}
  {h h₁ h' : Heap} {b : Bool} {n : Nat} {hop : Hop} {ds : List RelationReference}
  {faithful : List (String × String) → String × String → Userset → Visited → Heap → Prop}

theorem TrueMarks.except (ht : TrueMarks m v h) : TrueExcept m p v h := fun y _ => ht y

theorem TrueExcept.marks (ht : TrueExcept m p v h) (hp : m.Productive p) : TrueMarks m v h := by
  intro y hy
  by_cases hyp : y = p
  · exact hyp ▸ hp
  · exact ht y hyp hy

lemma Ready.grows (hr : Ready m V v h) (hg : Grows h h') : Ready m V v h' :=
  ⟨hr.wf.grows hg, hr.nodup, hr.keys, fun y hy => hg.seen (hr.marked y hy)⟩

-- ----------------------------------------------------------------------------
-- Loops over references
-- ----------------------------------------------------------------------------

theorem Post.nil : Post m V p v F (fun _ => False) (TrueMarks m v h) h false h where
  grows := .refl
  sound ht := ⟨ht.except, fun _ => ht, nofun⟩
  complete _ _ := id

lemma HopPost.post (hpost : HopPost m V q v F h b h') :
    Post m V p v F (fun S => S q) (TrueMarks m v h) h b h' where
  grows := hpost.grows
  sound ht := by
    obtain ⟨ht', hprod⟩ := hpost.sound ht
    exact ⟨ht'.except, fun _ => ht', hprod⟩
  complete := hpost.complete

/-- A relation that has no members is left out. -/
theorem Post.skipped (hdead : F → ¬ Avoiding m.rule V q) :
    Post m V p v F (fun S => S q) (TrueMarks m v h) h false h where
  grows := .refl
  sound ht := ⟨ht.except, fun _ => ht, nofun⟩
  complete hF _ := hdead hF

/-- The first part answers true, and the loop ends. -/
theorem Post.found (hpost : Post m V p v F₁ Y₁ Pre h true h') :
    Post m V p v F (fun S => Y₁ S ∨ Y₂ S) Pre h true h' where
  grows := hpost.grows
  sound hpre := by
    obtain ⟨hexcept, -, htrue⟩ := hpost.sound hpre
    exact ⟨hexcept, nofun, fun _ => .inl (htrue rfl)⟩
  complete := nofun

/-- The first part answers false, and the loop goes on. -/
lemma Post.orElse (hpost : Post m V p v F₁ Y₁ Pre h false h₁)
    (hrest : Post m V p v F₂ Y₂ (TrueMarks m v h₁) h₁ b h') (hF : F → F₁ ∧ F₂) :
    Post m V p v F (fun S => Y₁ S ∨ Y₂ S) Pre h b h' where
  grows := hpost.grows.trans hrest.grows
  sound hpre := by
    obtain ⟨hexcept, hfalse, htrue⟩ := hrest.sound ((hpost.sound hpre).2.1 rfl)
    exact ⟨hexcept, hfalse, fun hb => .inr (htrue hb)⟩
  complete hfaithful hb := by
    rintro (hy | hy)
    · exact hpost.complete (hF hfaithful).1 rfl hy
    · exact hrest.complete (hF hfaithful).2 hb hy

lemma Post.congr {Y' : (String × String → Prop) → Prop} (hY : ∀ S, Y S ↔ Y' S)
    (hpost : Post m V p v F Y Pre h b h') : Post m V p v F Y' Pre h b h' := by
  have hYY : Y = Y' := funext fun S => propext (hY S)
  exact hYY ▸ hpost

lemma Post.imp_pre {Pre' : Prop} (hpost : Post m V p v F Y Pre h b h')
    (hpre : Pre' → Pre) : Post m V p v F Y Pre' h b h' :=
  { hpost with sound := fun h => hpost.sound (hpre h) }

section
variable (hhop : HopSpec m hop faithful n)
include hhop

/-- A call for a reference that is not marked. -/
theorem HopSpec.call (hready : Ready m V v h) (hn : (relationKeys m).length < V.length + n) {rel}
    (hrel : m.getRelation q.1 q.2 = .ok rel) (hseen : ¬ (seen v h q).isSome) :
    ∃ b loop h', hop q rel.rewrite v h = .ok (b, loop, h') ∧
      HopPost m V q v (faithful V q rel.rewrite v h) h b h' :=
  hhop V q rel v h hrel hready hn fun hV => hseen (hready.marked q hV)

section
variable (hn : (relationKeys m).length < V.length + n)
include hn

lemma walkThis_spec (hlookup : ∃ a, v.lookup p.1 = some a)
    (hdefined : ∀ d ∈ ds, ∀ relation, d.shape = .userset relation →
      m.defines d.type relation = true)
    (hready : Ready m V v h) :
    ∃ b loop h', walkThis m hop p v ds h = .ok (b, loop, h') ∧
      Post m V p v (FaithfulThis m hop faithful V v ds h)
        (fun S => ∃ d ∈ ds, ∀ relation, d.shape = .userset relation → S (d.type, relation))
        (TrueMarks m v h) h b h' := by
  induction ds generalizing h with
  | nil => exact ⟨false, false, h, rfl, Post.nil.congr fun S => by simp⟩
  | cons d ds ih =>
    have hdirect (hshape : ∀ relation, d.shape ≠ .userset relation) :
        Post m V p v (FaithfulThis m hop faithful V v (d :: ds) h)
          (fun S => ∃ e ∈ d :: ds, ∀ relation, e.shape = .userset relation → S (e.type, relation))
          (TrueMarks m v h) h true (assign v h p) := by
      refine ⟨assign_grows, fun ht => ⟨fun y hne hy => ?_, nofun, fun _ => ?_⟩, nofun⟩
      · rw [seen_assign hready.wf hlookup, if_neg hne] at hy
        exact ht y hy
      · exact ⟨d, mem_cons_self, fun relation hs => absurd hs (hshape relation)⟩
    have hds : ∀ d ∈ ds, ∀ relation, d.shape = .userset relation →
        m.defines d.type relation = true := fun d hd => hdefined d (mem_cons_of_mem _ hd)
    rw [walkThis]
    cases hshape : d.shape with
    | object | wildcard => exact ⟨true, false, _, rfl, hdirect (by simp [hshape])⟩
    | userset relation =>
      obtain ⟨rel, hrel⟩ := defines_iff.mp
        (hdefined d mem_cons_self relation hshape)
      have hY (S : String × String → Prop) :
          (S (d.type, relation) ∨ ∃ d ∈ ds, ∀ relation, d.shape = .userset relation →
            S (d.type, relation)) ↔
          ∃ e ∈ d :: ds, ∀ relation, e.shape = .userset relation → S (e.type, relation) := by
        simp [hshape]
      simp only [FaithfulThis, hshape, hrel]
      split_ifs with hseen
      · obtain ⟨b, loop, h', hwalk, hpost⟩ := ih hds hready
        exact ⟨b, loop, h', hwalk, ((Post.skipped id).orElse hpost id).congr hY⟩
      · obtain ⟨b, loop, h₁, hcall, hpost⟩ := hhop.call hready hn hrel hseen
        simp only [hcall]
        cases b with
        | true => exact ⟨true, false, h₁, rfl, hpost.post.found.congr hY⟩
        | false =>
          obtain ⟨b, loop', h', hwalk, hrest⟩ := ih hds (hready.grows hpost.grows)
          exact ⟨b, loop', h', hwalk, (hpost.post.orElse hrest fun hF =>
            ⟨hF.1, hF.2 loop h₁ rfl⟩).congr hY⟩

lemma walkTupleset_spec (computed : String) (ds : List RelationReference)
    (hready : Ready m V v h) :
    ∃ b loop h', walkTupleset m hop computed v ds h = .ok (b, loop, h') ∧
      Post m V p v (FaithfulTupleset m hop faithful V computed v ds h)
        (fun S => ∃ d ∈ ds, S (d.type, computed)) (TrueMarks m v h) h b h' := by
  induction ds generalizing h with
  | nil => exact ⟨false, false, h, rfl, Post.nil.congr fun S => by simp⟩
  | cons d ds ih =>
    have hY (S : String × String → Prop) :
        (S (d.type, computed) ∨ ∃ d ∈ ds, S (d.type, computed)) ↔
          ∃ e ∈ d :: ds, S (e.type, computed) := by simp
    rw [walkTupleset]
    cases hrel : m.getRelation d.type computed with
    | error e =>
      simp only [FaithfulTupleset, hrel]
      obtain ⟨b, loop, h', hwalk, hpost⟩ := ih hready
      have hdead : ¬ Avoiding m.rule V (d.type, computed) :=
        not_avoiding_of_undefined (by simp [hrel])
      exact ⟨b, loop, h', hwalk, ((Post.skipped fun _ => hdead).orElse hpost fun hF =>
        ⟨trivial, hF⟩).congr hY⟩
    | ok rel =>
      cases hseen : seen v h (d.type, computed) with
      | some has =>
        simp only [FaithfulTupleset, hrel, hseen]
        cases has with
        | true =>
          refine ⟨true, false, h, rfl, .refl, fun ht => ?_, nofun⟩
          exact ⟨ht.except, nofun, fun _ => ⟨d, mem_cons_self, ht _ hseen⟩⟩
        | false =>
          obtain ⟨b, loop, h', hwalk, hpost⟩ := ih hready
          exact ⟨b, loop, h', hwalk, ((Post.skipped id).orElse hpost id).congr hY⟩
      | none =>
        obtain ⟨b, loop, h₁, hcall, hpost⟩ :=
          hhop.call (q := (d.type, computed)) hready hn hrel (by simp [hseen])
        simp only [FaithfulTupleset, hrel, hseen, hcall]
        cases b with
        | true => exact ⟨true, false, h₁, rfl, hpost.post.found.congr hY⟩
        | false =>
          obtain ⟨b, loop', h', hwalk, hrest⟩ := ih (hready.grows hpost.grows)
          exact ⟨b, loop', h', hwalk, (hpost.post.orElse hrest fun hF =>
            ⟨hF.1, hF.2 loop h₁ rfl⟩).congr hY⟩

lemma walkComputed_spec (hdefined : m.defines q.1 q.2 = true) (hready : Ready m V v h) :
    ∃ b loop h', walkComputed m hop q v h = .ok (b, loop, h') ∧
      Post m V p v (FaithfulComputed m faithful V q v h) (fun S => S q)
        (TrueMarks m v h) h b h' := by
  obtain ⟨rel, hrel⟩ := defines_iff.mp hdefined
  simp only [walkComputed, FaithfulComputed, hrel]
  cases hseen : seen v h q with
  | some has =>
    refine ⟨has, true, h, rfl, .refl, fun ht => ?_, fun hF hhas => ?_⟩
    · exact ⟨ht.except, fun _ => ht, fun hhas => ht q (hhas ▸ hseen)⟩
    · subst hhas
      exact hF
  | none =>
    obtain ⟨b, loop, h₁, hcall, hpost⟩ := hhop.call hready hn hrel (by simp [hseen])
    exact ⟨b, loop, h₁, hcall, hpost.post⟩

end

end

end

/-! ## The references of a model -/

section
variable (m : AuthorizationModel) (t r : String)

mutual

/-- What the rewrite of `t#r` refers to exists, and operators have two operands. -/
def referencesExist : Userset → Bool
  | .this => (m.getDirectlyRelatedUserTypes t r).all fun d =>
    match d.shape with
    | .userset relation => m.defines d.type relation
    | _ => true
  | .computedUserset computed => m.defines t computed
  | .tupleToUserset tupleset _ => m.defines t tupleset
  | .union cs => 2 ≤ cs.length && allReferencesExist cs
  | .intersection cs => 2 ≤ cs.length && allReferencesExist cs
  | .difference b s => referencesExist b && referencesExist s

def allReferencesExist : List Userset → Bool
  | [] => true
  | c :: cs => referencesExist c && allReferencesExist cs

end

end

lemma allReferencesExist_iff {t r cs} :
    allReferencesExist m t r cs = true ↔ ∀ c ∈ cs, referencesExist m t r c = true := by
  induction cs with
  | nil => simp [allReferencesExist]
  | cons c cs ih => simp [allReferencesExist, ih]

/-- The model refers only to what exists. -/
def WellReferenced (m : AuthorizationModel) : Bool :=
  m.typeDefinitions.all fun td => td.relations.all fun p =>
    referencesExist m td.type p.1 p.2.rewrite

lemma referencesExist_of_getRelation (hm : WellReferenced m = true)
    {x : String × String} {rel : Relation} (hrel : m.getRelation x.1 x.2 = .ok rel) :
    referencesExist m x.1 x.2 rel.rewrite = true := by
  obtain ⟨td, htd, htype, hmem⟩ := mem_of_getRelation hrel
  simp only [WellReferenced, all_eq_true] at hm
  rw [← htype]
  exact hm td htd (x.2, rel) hmem

lemma mem_relationKeys {x rel} (hrel : m.getRelation x.1 x.2 = .ok rel) : x ∈ relationKeys m := by
  obtain ⟨td, htd, htype, hmem⟩ := mem_of_getRelation hrel
  exact mem_flatMap.mpr ⟨td, htd, mem_map.mpr ⟨_, hmem, Prod.ext htype rfl⟩⟩

/-! ## The walk over a rewrite -/

section
variable {m : AuthorizationModel} {p : String × String} {V : List (String × String)}
  {v : Visited} {h h₁ h' : Heap} {b : Bool} {F F₁ F₂ : Prop}
  {Y Y₁ Y₂ : (String × String → Prop) → Prop} {hop : Hop} {cs : List Userset} {rel : Relation}
  {faithful : List (String × String) → String × String → Userset → Visited → Heap → Prop}

lemma trueMarks_enter (hwf : Wf v h) (ht : TrueExcept m p v h) :
    TrueMarks m (enter v h p).1 (enter v h p).2 := by
  intro y hy
  obtain ⟨hne, hseen⟩ := true_enter hwf hy
  exact ht y hne hseen

/-- The operands are walked with the marks that the operator was called with. -/
lemma Post.of_operator {Pre : Prop} (hwf : Wf v h)
    (hpost : Post m V p v F Y Pre (enter v h p).2 b h')
    (hpre : TrueMarks m v (enter v h p).2 → Pre) :
    Post m V p v F Y (TrueExcept m p v h) h b h' where
  grows := enter_grows.trans hpost.grows
  sound ht := hpost.sound (hpre fun y hy => trueMarks_enter hwf ht y (enter_sub.seen hy))
  complete := hpost.complete

/-- A leaf is walked with the clone. -/
lemma Post.of_enter (hwf : Wf v h) (hpost : Post m V p (enter v h p).1 F Y
      (TrueMarks m (enter v h p).1 (enter v h p).2) (enter v h p).2 b h') :
    Post m V p v F Y (TrueExcept m p v h) h b h' where
  grows := enter_grows.trans hpost.grows
  sound ht := by
    obtain ⟨hexcept, hfalse, htrue⟩ := hpost.sound (trueMarks_enter hwf ht)
    exact ⟨fun y hne hy => hexcept y hne (enter_sub.seen hy),
      fun hb y hy => hfalse hb y (enter_sub.seen hy), htrue⟩
  complete := hpost.complete

/-- The specification of the walk over a rewrite of `p`. -/
def WalkSpec (m : AuthorizationModel) (hop : Hop)
    (faithful : List (String × String) → String × String → Userset → Visited → Heap → Prop)
    (V : List (String × String)) (p : String × String) (w : Userset) : Prop :=
  ∀ v h, Ready m V v h → ∃ b loop h', walk m hop p v w h = .ok (b, loop, h') ∧
    Post m (p :: V) p v (FaithfulWalk m hop faithful V p v w h) (fun S => w.Yields m S p.1 p.2)
      (TrueExcept m p v h) h b h'

lemma walkUnion_spec (loop : Bool)
    (hcs : ∀ c ∈ cs, WalkSpec m hop faithful V p c) (hready : Ready m V v h) :
    ∃ b loop' h', walkUnion m hop p v loop cs h = .ok (b, loop', h') ∧
      Post m (p :: V) p v (FaithfulUnion m hop faithful V p v cs h)
        (fun S => Userset.YieldsAny m S p.1 p.2 cs) (TrueMarks m v h) h b h' := by
  induction cs generalizing h loop with
  | nil => exact ⟨false, loop, h, rfl, Post.nil⟩
  | cons c cs ih =>
    obtain ⟨b, childLoop, h₁, hwalk, hpost⟩ := hcs c mem_cons_self v h hready
    rw [walkUnion, hwalk]
    have hpost := hpost.imp_pre TrueMarks.except
    cases b with
    | true => exact ⟨true, false, h₁, rfl, hpost.found⟩
    | false =>
      obtain ⟨b, loop', h', hwalk', hrest⟩ :=
        ih (loop || childLoop) (fun c hc => hcs c (mem_cons_of_mem _ hc))
          (hready.grows hpost.grows)
      exact ⟨b, loop', h', hwalk', hpost.orElse hrest fun hF =>
        ⟨hF.1, hF.2 childLoop h₁ hwalk⟩⟩

/-- The first operand of a conjunction, and the others. -/
lemma Post.conjunction (hpost : Post m V p v F₁ Y₁ (TrueExcept m p v h) h true h₁)
    (hrest : Post m V p v F₂ Y₂ (TrueExcept m p v h₁) h₁ b h') (hF : F → F₂) :
    Post m V p v F (fun S => Y₁ S ∧ Y₂ S) (TrueExcept m p v h) h b h' where
  grows := hpost.grows.trans hrest.grows
  sound ht := by
    obtain ⟨hmid, -, htrue₁⟩ := hpost.sound ht
    obtain ⟨hexcept, hfalse, htrue⟩ := hrest.sound hmid
    exact ⟨hexcept, hfalse, fun hb => ⟨htrue₁ rfl, htrue hb⟩⟩
  complete hfaithful hb hy := hrest.complete (hF hfaithful) hb hy.2

/-- The first operand of a conjunction fails. -/
lemma Post.conjunction_false (hpost : Post m V p v F₁ Y₁ (TrueExcept m p v h) h false h₁)
    (hF : F → F₁) :
    Post m V p v F (fun S => Y₁ S ∧ Y₂ S) (TrueExcept m p v h) h false h₁ where
  grows := hpost.grows
  sound ht := by
    obtain ⟨hexcept, hfalse, -⟩ := hpost.sound ht
    exact ⟨hexcept, hfalse, nofun⟩
  complete hfaithful hb hy := hpost.complete (hF hfaithful) hb hy.1

lemma walkIntersection_spec (hcs : ∀ c ∈ cs, WalkSpec m hop faithful V p c)
    (hready : Ready m V v h) :
    ∃ b loop h', walkIntersection m hop p v cs h = .ok (b, loop, h') ∧
      Post m (p :: V) p v (FaithfulIntersection m hop faithful V p v cs h)
        (fun S => Userset.YieldsAll m S p.1 p.2 cs) (TrueExcept m p v h) h b h' := by
  induction cs generalizing h with
  | nil => exact ⟨true, false, h, rfl, .refl, fun ht => ⟨ht, nofun, fun _ => trivial⟩, nofun⟩
  | cons c cs ih =>
    obtain ⟨b, childLoop, h₁, hwalk, hpost⟩ := hcs c mem_cons_self v h hready
    rw [walkIntersection, hwalk]
    cases b with
    | false => exact ⟨false, childLoop, h₁, rfl, hpost.conjunction_false And.left⟩
    | true =>
      obtain ⟨b, loop, h', hwalk', hrest⟩ :=
        ih (fun c hc => hcs c (mem_cons_of_mem _ hc)) (hready.grows hpost.grows)
      exact ⟨b, loop, h', hwalk', hpost.conjunction hrest fun hF => hF.2 childLoop h₁ hwalk⟩

lemma walk_spec {n} (hhop : HopSpec m hop faithful n)
    (hrel : m.getRelation p.1 p.2 = .ok rel) (hp : p ∉ V)
    (hn : (relationKeys m).length < (p :: V).length + n) {w}
    (href : referencesExist m p.1 p.2 w = true) : WalkSpec m hop faithful V p w := by
  -- the stack with `p` on it, and the clone
  have hready' {v : Visited} {h : Heap} (hready : Ready m V v h) :
      Ready m (p :: V) (enter v h p).1 (enter v h p).2 := by
    refine ⟨enter_wf hready.wf, nodup_cons.mpr ⟨hp, hready.nodup⟩, ?_, ?_⟩
    · exact forall_mem_cons.mpr ⟨mem_relationKeys hrel, hready.keys⟩
    · intro y hy
      rw [seen_enter hready.wf]
      split_ifs with heq
      · rfl
      · exact hready.marked y ((mem_cons.mp hy).resolve_left heq)
  induction w with
  | this =>
    intro v h hready
    have hdefined : ∀ d ∈ rel.directlyRelatedUserTypes, ∀ relation,
        d.shape = .userset relation → m.defines d.type relation = true := by
      rw [referencesExist, getDirectlyRelatedUserTypes_of_ok hrel,
        all_eq_true] at href
      intro d hd relation hshape
      simpa [hshape] using href d hd
    obtain ⟨b, loop, h', hwalk, hpost⟩ :=
      walkThis_spec hhop hn exists_lookup_enter hdefined (hready' hready)
    rw [walk, hrel]
    simp only [FaithfulWalk, Userset.Yields, getDirectlyRelatedUserTypes_of_ok hrel]
    exact ⟨b, loop, h', hwalk, hpost.of_enter hready.wf⟩
  | computedUserset computed =>
    intro v h hready
    obtain ⟨b, loop, h', hwalk, hpost⟩ :=
      walkComputed_spec (q := (p.1, computed)) hhop hn href (hready' hready)
    rw [walk, hrel]
    exact ⟨b, loop, h', hwalk, hpost.of_enter hready.wf⟩
  | tupleToUserset tupleset computed =>
    intro v h hready
    obtain ⟨tuplesetRelation, htupleset⟩ := defines_iff.mp href
    obtain ⟨b, loop, h', hwalk, hpost⟩ := walkTupleset_spec hhop hn computed
      tuplesetRelation.directlyRelatedUserTypes (hready' hready)
    rw [walk, hrel]
    simp only [FaithfulWalk, Userset.Yields, htupleset, getDirectlyRelatedUserTypes_of_ok htupleset]
    exact ⟨b, loop, h', hwalk, hpost.of_enter hready.wf⟩
  | union cs ih =>
    intro v h hready
    rw [referencesExist, Bool.and_eq_true, decide_eq_true_eq, allReferencesExist_iff] at href
    obtain ⟨b, loop, h', hwalk, hpost⟩ := walkUnion_spec false
      (fun c hc => ih c hc (href.2 c hc)) (hready.grows enter_grows)
    rw [walk, hrel]
    simp only [if_neg (Nat.not_lt.mpr href.1)]
    exact ⟨b, loop, h', hwalk, hpost.of_operator hready.wf id⟩
  | intersection cs ih =>
    intro v h hready
    rw [referencesExist, Bool.and_eq_true, decide_eq_true_eq, allReferencesExist_iff] at href
    obtain ⟨b, loop, h', hwalk, hpost⟩ := walkIntersection_spec
      (fun c hc => ih c hc (href.2 c hc)) (hready.grows enter_grows)
    rw [walk, hrel]
    simp only [if_neg (Nat.not_lt.mpr href.1)]
    exact ⟨b, loop, h', hwalk, hpost.of_operator hready.wf TrueMarks.except⟩
  | difference base subtract ihb ihs =>
    intro v h hready
    rw [referencesExist, Bool.and_eq_true] at href
    have hready₁ : Ready m V v (enter v h p).2 := hready.grows enter_grows
    obtain ⟨b, loop, h₁, hwalk, hpost⟩ := ihb href.1 v _ hready₁
    rw [walk, hrel]
    simp only [hwalk]
    cases b with
    | false =>
      exact ⟨false, loop, h₁, rfl,
        (hpost.conjunction_false And.left).of_operator hready.wf TrueMarks.except⟩
    | true =>
      obtain ⟨b, loop', h', hwalk', hrest⟩ := ihs href.2 v h₁ (hready₁.grows hpost.grows)
      simp only [hwalk']
      have hboth : Post m (p :: V) p v
          (FaithfulWalk m hop faithful V p v (.difference base subtract) h)
          (fun S => (Userset.difference base subtract).Yields m S p.1 p.2)
          (TrueExcept m p v h) h b h' :=
        (hpost.conjunction hrest fun hF => hF.2 loop h₁ hwalk).of_operator hready.wf
          TrueMarks.except
      cases b with
      | false => exact ⟨false, loop', h', rfl, hboth⟩
      | true => exact ⟨true, false, h', rfl, hboth⟩

/-- The walk over the rewrite of a relation is a call for it. -/
lemma Post.hopPost (hrel : m.getRelation p.1 p.2 = .ok rel)
    (hpost : Post m (p :: V) p v F (fun S => rel.rewrite.Yields m S p.1 p.2)
      (TrueExcept m p v h) h b h') : HopPost m V p v F h b h' where
  grows := hpost.grows
  sound ht := by
    obtain ⟨hexcept, hfalse, htrue⟩ := hpost.sound ht.except
    have hproductive (hb : b = true) : m.Productive p :=
      productive_iff.mpr ⟨rel, hrel, htrue hb⟩
    refine ⟨?_, hproductive⟩
    cases b with
    | true => exact hexcept.marks (hproductive rfl)
    | false => exact hfalse rfl
  complete hF hb hav := by
    obtain ⟨-, rel', hrel', hyields⟩ := (Avoiding.avoiding_iff rule_local).mp hav
    rw [hrel] at hrel'
    cases hrel'
    exact hpost.complete hF hb hyields

lemma hasEntrypoints_hopSpec (hm : WellReferenced m = true) (n : Nat) :
    HopSpec m (hasEntrypoints m n) (Faithful m n) n := by
  induction n with
  | zero =>
    -- the relations on the stack are different relations of the model
    intro V q rel v h _ hready hn _
    have hle := (subperm_of_subset hready.nodup hready.keys).length_le
    omega
  | succ n ih =>
    intro V q rel v h hrel hready hn hq
    have hn' : (relationKeys m).length < (q :: V).length + n := by
      rw [length_cons]
      omega
    obtain ⟨b, loop, h', hwalk, hpost⟩ :=
      walk_spec ih hrel hq hn' (referencesExist_of_getRelation hm hrel) v h hready
    exact ⟨b, loop, h', hwalk, hpost.hopPost hrel⟩

end

/-- On every model whose references exist, and with a stack that has room for every relation,
    `hasEntrypoints` answers for every relation.  A relation that it accepts is productive, and one
    whose walk is faithful is accepted exactly when it is. -/
theorem hasEntrypoints_exact {m : AuthorizationModel} (hm : WellReferenced m = true)
    {x : String × String} {rel : Relation} (hrel : m.getRelation x.1 x.2 = .ok rel) {n : Nat}
    (hn : (relationKeys m).length < n) :
    ∃ has loop h, hasEntrypoints m n x rel.rewrite [] [] = .ok (has, loop, h) ∧
      (has = true → m.Productive x) ∧
      (Faithful m n [] x rel.rewrite [] [] → (has = true ↔ m.Productive x)) := by
  have hready : Ready m [] [] [] := ⟨⟨nofun, nofun⟩, nodup_nil, nofun, nofun⟩
  obtain ⟨b, loop, h, hwalk, hpost⟩ :=
    hasEntrypoints_hopSpec hm n [] x rel [] [] hrel hready (by simpa using hn) not_mem_nil
  have hsound := (hpost.sound nofun).2
  refine ⟨b, loop, h, hwalk, hsound, fun hfaithful => ⟨hsound, fun hproductive => ?_⟩⟩
  cases b with
  | true => rfl
  | false => exact absurd hproductive (hpost.complete hfaithful rfl)

section Instances

/-- `b: [user]`, `a: b`, `c: a`, `x: a and c`, `y: x` -/
private def reusing : AuthorizationModel where
  typeDefinitions := [⟨"user", []⟩, ⟨"doc", [
    ("b", ⟨.this, [⟨"user", .object, ""⟩]⟩), ("a", ⟨.computedUserset "b", []⟩),
    ("c", ⟨.computedUserset "a", []⟩),
    ("x", ⟨.intersection [.computedUserset "a", .computedUserset "c"], []⟩),
    ("y", ⟨.computedUserset "x", []⟩)]⟩]
  conditions := []

private lemma productive_a : reusing.Productive ("doc", "a") := by
  have hb : reusing.Productive ("doc", "b") :=
    productive_iff.mpr ⟨_, rfl, ⟨"user", .object, ""⟩, mem_cons_self, nofun⟩
  exact productive_iff.mpr ⟨_, rfl, hb⟩

/-- `group#member: [user]`, `group#m2: member`, `doc#r1: [group#m2]`, `doc#r2: [group#m2]`,
    `doc#x: r1 and r2`, `doc#y: x` -/
private def sharing : AuthorizationModel where
  typeDefinitions := [⟨"user", []⟩,
    ⟨"group",
      [("member", ⟨.this, [⟨"user", .object, ""⟩]⟩), ("m2", ⟨.computedUserset "member", []⟩)]⟩,
    ⟨"doc", [("r1", ⟨.this, [⟨"group", .userset "m2", ""⟩]⟩),
      ("r2", ⟨.this, [⟨"group", .userset "m2", ""⟩]⟩),
      ("x", ⟨.intersection [.computedUserset "r1", .computedUserset "r2"], []⟩),
      ("y", ⟨.computedUserset "x", []⟩)]⟩]
  conditions := []

/-- Both operands of `x` lead to `m2`, but the marks of its type are not shared between them. -/
theorem hasEntrypoints_exact_sharing :
    Faithful sharing 7 [] ("doc", "y") (.computedUserset "x") [] [] ∧
      ∃ has loop h, hasEntrypoints sharing 7 ("doc", "y") (.computedUserset "x") [] [] =
          .ok (has, loop, h) ∧ (has = true → sharing.Productive ("doc", "y")) ∧
        (Faithful sharing 7 [] ("doc", "y") (.computedUserset "x") [] [] →
          (has = true ↔ sharing.Productive ("doc", "y"))) := by
  refine ⟨⟨⟨trivial, nofun⟩, fun loop h hx => ?_⟩,
    hasEntrypoints_exact (m := sharing) (x := ("doc", "y")) (n := 7) (by decide) rfl (by decide)⟩
  cases hx
  exact ⟨⟨trivial, nofun⟩, fun _ _ _ => trivial⟩

/-- The same `x` is accepted by itself, and `y`, which is `x`, is rejected as a loop: the walk of
    `c` finds the mark that the walk of `a` has left. -/
theorem accepts_x_rejects_y :
    WellReferenced reusing = true ∧ reusing.Productive ("doc", "y") ∧
      validateEntrypoints reusing "doc" "x"
        (.intersection [.computedUserset "a", .computedUserset "c"]) = .ok () ∧
      validateEntrypoints reusing "doc" "y" (.computedUserset "x") =
        .error (.noEntryPointsLoop "doc" "y") := by
  have hc : reusing.Productive ("doc", "c") :=
    productive_iff.mpr ⟨_, rfl, productive_a⟩
  have hx : reusing.Productive ("doc", "x") :=
    productive_iff.mpr ⟨_, rfl, productive_a, hc, trivial⟩
  exact ⟨by decide, productive_iff.mpr ⟨_, rfl, hx⟩, rfl, rfl⟩

end Instances

end OpenFGA.Entrypoints
