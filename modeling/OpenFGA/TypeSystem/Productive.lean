/-
  Which relations of a model can have members at all: the least set of relations that is closed
  under the rules of the rewrites.  A rewrite is productive relative to a set of relations
  (`Userset.Yields`), and the relations are a least fixed point in the sense of `Avoiding`.
-/

import OpenFGA.Lib.Avoiding
import OpenFGA.TypeSystem

namespace OpenFGA

open Validation (Shape RelationReference)

namespace Userset
open List

section
variable (m : AuthorizationModel) (S : String × String → Prop) (t r : String)

mutual

/-- A rewrite of `t#r` is productive when the relations in `S` are. -/
def Yields : Userset → Prop
  | .this => ∃ d ∈ m.getDirectlyRelatedUserTypes t r,
      ∀ relation, d.shape = .userset relation → S (d.type, relation)
  | .computedUserset computed => S (t, computed)
  | .tupleToUserset tupleset computed =>
    ∃ d ∈ m.getDirectlyRelatedUserTypes t tupleset, S (d.type, computed)
  | .union cs => YieldsAny cs
  | .intersection cs => YieldsAll cs
  | .difference b s => Yields b ∧ Yields s

def YieldsAny : List Userset → Prop
  | [] => False
  | c :: cs => Yields c ∨ YieldsAny cs

def YieldsAll : List Userset → Prop
  | [] => True
  | c :: cs => Yields c ∧ YieldsAll cs

end

end

variable {m : AuthorizationModel} {S S' : String × String → Prop} {t r : String} {cs : List Userset}

lemma yieldsAny_iff :
    YieldsAny m S t r cs ↔ ∃ c ∈ cs, c.Yields m S t r := by
  induction cs with
  | nil => simp [YieldsAny]
  | cons c cs ih => simp [YieldsAny, ih]

lemma yieldsAll_iff :
    YieldsAll m S t r cs ↔ ∀ c ∈ cs, c.Yields m S t r := by
  induction cs with
  | nil => simp [YieldsAll]
  | cons c cs ih => simp [YieldsAll, ih]

lemma Yields.mono {w : Userset} (h : ∀ y, S y → S' y) (hw : w.Yields m S t r) :
    w.Yields m S' t r := by
  induction w with
  | this =>
    obtain ⟨d, hd, hS⟩ := hw
    exact ⟨d, hd, fun relation hshape => h _ (hS relation hshape)⟩
  | computedUserset computed => exact h _ hw
  | tupleToUserset tupleset computed =>
    obtain ⟨d, hd, hS⟩ := hw
    exact ⟨d, hd, h _ hS⟩
  | union cs ih =>
    obtain ⟨c, hc, hyields⟩ := yieldsAny_iff.mp hw
    exact yieldsAny_iff.mpr ⟨c, hc, ih c hc hyields⟩
  | intersection cs ih =>
    exact yieldsAll_iff.mpr fun c hc => ih c hc (yieldsAll_iff.mp hw c hc)
  | difference b s ihb ihs => exact ⟨ihb hw.1, ihs hw.2⟩

end Userset

/-! ## Productive relations -/

namespace AuthorizationModel

variable (m : AuthorizationModel)

/-- The rule of a relation. -/
def rule (S : String × String → Prop) (x : String × String) : Prop :=
  ∃ rel, m.getRelation x.1 x.2 = .ok rel ∧ rel.rewrite.Yields m S x.1 x.2

/-- The relation is in the least set that is closed under the rules. -/
def Productive (x : String × String) : Prop := Avoiding m.rule [] x

variable {m} {x : String × String} {V : List (String × String)}

lemma rule_local : Avoiding.Local m.rule fun _ _ => True := by
  rintro S S' x h ⟨rel, hrel, hyields⟩
  exact ⟨rel, hrel, hyields.mono fun y => h y trivial⟩

/-- The least set is closed under the rules, and below every set that is. -/
lemma productive_iff : m.Productive x ↔ m.rule m.Productive x := by
  constructor
  · intro h
    cases h with
    | intro S hS _ hrule => exact rule_local (fun y _ => hS y) hrule
  · exact fun h => .intro _ (fun _ hy => hy) List.not_mem_nil h

lemma not_avoiding_of_undefined (hundef : ∀ rel, m.getRelation x.1 x.2 ≠ .ok rel) :
    ¬ Avoiding m.rule V x := by
  rintro ⟨S, -, -, rel, hrel, -⟩
  exact hundef rel hrel

end AuthorizationModel

end OpenFGA
