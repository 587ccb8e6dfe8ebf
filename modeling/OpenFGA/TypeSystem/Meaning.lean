/-
  What the relations of a model mean for a set of tuples.

  A rewrite is satisfied relative to the usersets that hold.  The relations themselves are
  the least solution of the rewrites, built up level by level, where the operands that
  exclusions subtract are read from a fixed set `Not`.  A meaning is such a set that
  agrees with its own relations.  Models without a recursion through the subtracted operand of an
  exclusion have exactly one; statements below hold for every meaning.
-/

import OpenFGA.TypeSystem

namespace OpenFGA
open List

/-- What a set of tuples grants. -/
structure Grants where
  /-- The tuple of this very user grants the relation. -/
  own : Object → String → User → Prop
  /-- Some tuple relates the typed wildcard, the userset or the parent. -/
  any : Object → String → User → Prop

/-- Objects and the typed wildcard of a type. -/
def User.OfType : User → String → Prop
  | .object o, t => o.type = t
  | .wildcard t', t => t' = t
  | .userset _ _, _ => False

/-- A leaf of the rewrite of `o#r` leads to this userset. -/
inductive Grants.LeafLeads (G : Grants) (o : Object) (r : String) :
    Userset → Object × String → Prop where
  | this {o' r'} : G.any o r (.userset o' r') → LeafLeads G o r .this (o', r')
  | computedUserset {computed} : LeafLeads G o r (.computedUserset computed) (o, computed)
  | tupleToUserset {o' tupleset computed} : G.any o tupleset (.object o') →
      LeafLeads G o r (.tupleToUserset tupleset computed) (o', computed)

namespace Userset

section
variable (G : Grants) (S : Object → String → Prop) (N : Userset → Prop) (u : User) (o : Object)
  (r : String)

mutual

/-- The user satisfies the rewrite of `o#r`, where `S` are the usersets it is in and `N` are
    the operands it is not in. -/
def Sat : Userset → Prop
  | .this => G.own o r u ∨ (∃ t, u.OfType t ∧ G.any o r (.wildcard t)) ∨
      ∃ o' r', G.any o r (.userset o' r') ∧ S o' r'
  | .computedUserset computed => S o computed
  | .tupleToUserset tupleset computed => ∃ o', G.any o tupleset (.object o') ∧ S o' computed
  | .union cs => SatAny cs
  | .intersection cs => SatAll cs
  | .difference b s => Sat b ∧ N s

def SatAny : List Userset → Prop
  | [] => False
  | c :: cs => Sat c ∨ SatAny cs

def SatAll : List Userset → Prop
  | [] => True
  | c :: cs => Sat c ∧ SatAll cs

end
end

variable {G : Grants} {S S' : Object → String → Prop} {N : Userset → Prop} {u : User} {o : Object}
  {r : String} {cs : List Userset}

lemma sat_union : Sat G S N u o r (.union cs) ↔ ∃ c ∈ cs, Sat G S N u o r c := by
  show SatAny G S N u o r cs ↔ _
  induction cs with
  | nil => simp [SatAny]
  | cons c cs ih => simp [SatAny, ih]

lemma sat_intersection : Sat G S N u o r (.intersection cs) ↔ ∀ c ∈ cs, Sat G S N u o r c := by
  show SatAll G S N u o r cs ↔ _
  induction cs with
  | nil => simp [SatAll]
  | cons c cs ih => simp [SatAll, ih]

/-- Satisfaction depends only on the usersets that the leaves lead to. -/
lemma Sat.mono_of_leads {w : Userset} (h : ∀ l ∈ w.leaves, ∀ y, G.LeafLeads o r l y →
    S y.1 y.2 → S' y.1 y.2) (hw : w.Sat G S N u o r) : w.Sat G S' N u o r := by
  induction w with
  | this =>
    rcases hw with hown | hwild | ⟨o', r', hany, hs⟩
    · exact .inl hown
    · exact .inr (.inl hwild)
    · exact .inr (.inr ⟨o', r', hany, h _ (mem_singleton_self _) (o', r') (.this hany) hs⟩)
  | computedUserset computed => exact h _ (mem_singleton_self _) (o, computed) .computedUserset hw
  | tupleToUserset _ computed =>
    obtain ⟨o', hany, hs⟩ := hw
    exact ⟨o', hany, h _ (mem_singleton_self _) (o', computed) (.tupleToUserset hany) hs⟩
  | union cs ih =>
    obtain ⟨c, hc, hs⟩ := sat_union.mp hw
    exact sat_union.mpr ⟨c, hc, ih c hc (fun l hl => h l (mem_leavesOf.mpr ⟨c, hc, hl⟩)) hs⟩
  | intersection cs ih =>
    exact sat_intersection.mpr fun c hc => ih c hc
      (fun l hl => h l (mem_leavesOf.mpr ⟨c, hc, hl⟩)) (sat_intersection.mp hw c hc)
  | difference b s ihb _ =>
    exact ⟨ihb (fun l hl => h l (mem_append_left _ hl)) hw.1, hw.2⟩

lemma Sat.mono (h : ∀ o r, S o r → S' o r) {w : Userset} (hw : w.Sat G S N u o r) :
    w.Sat G S' N u o r := hw.mono_of_leads fun _ _ _ _ => h _ _

/-- Finitely many operands need only finitely many levels of an increasing chain. -/
lemma Sat.exists_level {L : Nat → Object → String → Prop}
    (hmono : ∀ n o r, L n o r → L (n + 1) o r) {w : Userset}
    (hw : w.Sat G (fun o r => ∃ n, L n o r) N u o r) : ∃ n, w.Sat G (L n) N u o r := by
  have hle : ∀ {n k : Nat}, n ≤ k → ∀ o r, L n o r → L k o r := by
    intro n k hnk
    induction hnk with
    | refl => exact fun _ _ h => h
    | step _ ih => exact fun o r h => hmono _ o r (ih o r h)
  induction w with
  | this =>
    rcases hw with hown | hwild | ⟨o', r', hany, n, hs⟩
    · exact ⟨0, .inl hown⟩
    · exact ⟨0, .inr (.inl hwild)⟩
    · exact ⟨n, .inr (.inr ⟨o', r', hany, hs⟩)⟩
  | computedUserset _ => exact hw
  | tupleToUserset _ _ =>
    obtain ⟨o', hany, n, hs⟩ := hw
    exact ⟨n, o', hany, hs⟩
  | union cs ih =>
    obtain ⟨c, hc, hs⟩ := sat_union.mp hw
    obtain ⟨n, hn⟩ := ih c hc hs
    exact ⟨n, sat_union.mpr ⟨c, hc, hn⟩⟩
  | intersection cs ih =>
    have hall : ∀ c ∈ cs, ∃ n, c.Sat G (L n) N u o r :=
      fun c hc => ih c hc (sat_intersection.mp hw c hc)
    -- one level for all operands, by induction on the list of operands
    obtain ⟨n, hn⟩ : ∃ n, ∀ c ∈ cs, c.Sat G (L n) N u o r := by
      clear ih hw
      induction cs with
      | nil => exact ⟨0, nofun⟩
      | cons c cs ih =>
        obtain ⟨n, hn⟩ := ih fun d hd => hall d (mem_cons_of_mem _ hd)
        obtain ⟨k, hk⟩ := hall c mem_cons_self
        refine ⟨max n k, fun d hd => ?_⟩
        rcases mem_cons.mp hd with rfl | hd
        · exact hk.mono (hle (le_max_right n k))
        · exact (hn d hd).mono (hle (le_max_left n k))
    exact ⟨n, sat_intersection.mpr hn⟩
  | difference b s ihb _ =>
    obtain ⟨n, hn⟩ := ihb hw.1
    exact ⟨n, hn, hw.2⟩

end Userset

/-! ## Levels and meanings -/

section
variable (m : AuthorizationModel) (G : Grants) (N : Object → String → Userset → Prop) (u : User)

/-- The usersets the user is in after `n` rounds.  A userset is in itself. -/
def Level : Nat → Object → String → Prop
  | 0, _, _ => False
  | n + 1, o, r => u = .userset o r ∨
      ∃ rel, m.getRelation o.type r = .ok rel ∧ rel.rewrite.Sat G (Level n) (N o r) u o r

/-- The usersets the user is in. -/
def Related (o : Object) (r : String) : Prop := ∃ n, Level m G N u n o r

end

section
variable {m : AuthorizationModel} {G : Grants} {N : Object → String → Userset → Prop} {u : User}

lemma Level.succ {n} : ∀ {o : Object} {r : String},
    Level m G N u n o r → Level m G N u (n + 1) o r := by
  induction n with
  | zero => exact fun h => h.elim
  | succ n ih =>
    intro o r h
    rcases h with hself | ⟨rel, hrel, hsat⟩
    · exact .inl hself
    · exact .inr ⟨rel, hrel, hsat.mono fun _ _ => ih⟩

lemma Level.defines {v o r n} (h : Level m G N (.object v) n o r) :
    m.defines o.type r = true := by
  cases n with
  | zero => exact h.elim
  | succ n =>
    rcases h with hself | ⟨rel, hrel, -⟩
    · exact nomatch hself
    · exact AuthorizationModel.defines_iff.mpr ⟨rel, hrel⟩

lemma related_iff {o : Object} {r} : Related m G N u o r ↔ u = .userset o r ∨
    ∃ rel, m.getRelation o.type r = .ok rel ∧
      rel.rewrite.Sat G (Related m G N u) (N o r) u o r := by
  constructor
  · rintro ⟨n, hn⟩
    cases n with
    | zero => exact hn.elim
    | succ n =>
      rcases hn with hself | ⟨rel, hrel, hsat⟩
      · exact .inl hself
      · exact .inr ⟨rel, hrel, hsat.mono fun _ _ h => ⟨n, h⟩⟩
  · rintro (hself | ⟨rel, hrel, hsat⟩)
    · exact ⟨1, .inl hself⟩
    · obtain ⟨n, hn⟩ := hsat.exists_level fun _ _ _ => Level.succ
      exact ⟨n + 1, .inr ⟨rel, hrel, hn⟩⟩

end

/-- A choice of the operands that users are not in, which agrees with what they are in. -/
structure Meaning (m : AuthorizationModel) (G : Grants) where
  Not : User → Object → String → Userset → Prop
  not_iff : ∀ u o r w, Not u o r w ↔ ¬ w.Sat G (Related m G (Not u) u) (Not u o r) u o r

namespace Meaning

variable {m : AuthorizationModel} {G : Grants} (M : Meaning m G)

/-- The user has the relation to the object. -/
def Has (u : User) (o : Object) (r : String) : Prop := Related m G (M.Not u) u o r

/-- The user satisfies the rewrite of `o#r`. -/
def Sat (u : User) (o : Object) (r : String) (w : Userset) : Prop :=
  w.Sat G (M.Has u) (M.Not u o r) u o r

variable {M} {u : User} {o : Object} {r : String} {w b s : Userset}

lemma has_iff : M.Has u o r ↔ u = .userset o r ∨
    ∃ rel, m.getRelation o.type r = .ok rel ∧ M.Sat u o r rel.rewrite := related_iff

lemma sat_difference : M.Sat u o r (.difference b s) ↔ M.Sat u o r b ∧ ¬ M.Sat u o r s :=
  and_congr_right fun _ => M.not_iff u o r s

end Meaning

/-! ## Where the tuples lead -/

/-- The rewrite of the first userset leads to the second. -/
def AuthorizationModel.Leads (m : AuthorizationModel) (G : Grants) (x y : Object × String) : Prop :=
  ∃ rel, m.getRelation x.1.type x.2 = .ok rel ∧ ∃ l ∈ rel.rewrite.leaves, G.LeafLeads x.1 x.2 l y

namespace Userset

variable {G : Grants} {S S' : Object → String → Prop} {N : Userset → Prop} {u : User} {o : Object}
  {r : String} {w : Userset}

section
variable (G S u o r)

mutual

/-- Satisfaction where the subtracted operands are read off the same usersets. -/
def Eval : Userset → Prop
  | .union cs => EvalAny cs
  | .intersection cs => EvalAll cs
  | .difference b s => Eval b ∧ ¬ Eval s
  | w => w.Sat G S (fun _ => True) u o r

def EvalAny : List Userset → Prop
  | [] => False
  | c :: cs => Eval c ∨ EvalAny cs

def EvalAll : List Userset → Prop
  | [] => True
  | c :: cs => Eval c ∧ EvalAll cs

end
end

lemma sat_iff_eval :
    w.Sat G S (fun s => ¬ s.Eval G S u o r) u o r ↔ w.Eval G S u o r := by
  induction w with
  | this => exact Iff.rfl
  | computedUserset _ => exact Iff.rfl
  | tupleToUserset _ _ => exact Iff.rfl
  | union cs ih =>
    rw [sat_union]
    show _ ↔ EvalAny G S u o r cs
    induction cs with
    | nil => simp [EvalAny]
    | cons c cs ihcs =>
      simp only [EvalAny, exists_mem_cons_iff, ih c mem_cons_self]
      exact or_congr Iff.rfl (ihcs fun d hd => ih d (mem_cons_of_mem _ hd))
  | intersection cs ih =>
    rw [sat_intersection]
    show _ ↔ EvalAll G S u o r cs
    induction cs with
    | nil => simp [EvalAll]
    | cons c cs ihcs =>
      simp only [EvalAll, forall_mem_cons, ih c mem_cons_self]
      exact and_congr Iff.rfl (ihcs fun d hd => ih d (mem_cons_of_mem _ hd))
  | difference b s ihb _ => exact and_congr ihb Iff.rfl

lemma eval_congr (h : ∀ l ∈ w.leaves, ∀ y, G.LeafLeads o r l y →
    (S y.1 y.2 ↔ S' y.1 y.2)) : w.Eval G S u o r ↔ w.Eval G S' u o r := by
  have hleaf : ∀ {w : Userset}, (∀ l ∈ w.leaves, ∀ y, G.LeafLeads o r l y →
      (S y.1 y.2 ↔ S' y.1 y.2)) →
      (w.Sat G S (fun _ => True) u o r ↔ w.Sat G S' (fun _ => True) u o r) := fun h =>
    ⟨Sat.mono_of_leads fun l hl y hy => (h l hl y hy).mp,
      Sat.mono_of_leads fun l hl y hy => (h l hl y hy).mpr⟩
  induction w with
  | this => exact hleaf h
  | computedUserset _ => exact hleaf h
  | tupleToUserset _ _ => exact hleaf h
  | union cs ih =>
    rw [← sat_iff_eval, ← sat_iff_eval, sat_union, sat_union]
    exact exists_congr fun c => and_congr_right fun hc => by
      rw [sat_iff_eval, sat_iff_eval]
      exact ih c hc fun l hl => h l (mem_leavesOf.mpr ⟨c, hc, hl⟩)
  | intersection cs ih =>
    rw [← sat_iff_eval, ← sat_iff_eval, sat_intersection, sat_intersection]
    exact forall_congr' fun c => forall_congr' fun hc => by
      rw [sat_iff_eval, sat_iff_eval]
      exact ih c hc fun l hl => h l (mem_leavesOf.mpr ⟨c, hc, hl⟩)
  | difference b s ihb ihs =>
    exact and_congr (ihb fun l hl => h l (mem_append_left _ hl))
      (not_congr (ihs fun l hl => h l (mem_append_right _ hl)))

end Userset

/-! ## A meaning where the tuples have no cycles -/

namespace Meaning

variable {m : AuthorizationModel} {G : Grants} {ρ : Object × String → Nat} {o : Object} {r : String}

/-- The usersets the user is in, as far as `k` steps show. -/
def Stage (m : AuthorizationModel) (G : Grants) (u : User) : Nat → Object → String → Prop
  | 0, _, _ => False
  | k + 1, o, r => u = .userset o r ∨
      ∃ rel, m.getRelation o.type r = .ok rel ∧ rel.rewrite.Eval G (Stage m G u k) u o r

/-- The usersets the user is in, where `ρ` bounds the length of the paths. -/
def Final (m : AuthorizationModel) (G : Grants) (ρ : Object × String → Nat) (u : User) (o : Object)
    (r : String) : Prop := Stage m G u (ρ (o, r) + 1) o r

section
variable (hρ : ∀ x y, m.Leads G x y → ρ y < ρ x)
include hρ

/-- Nothing changes after as many steps as the paths are long. -/
lemma stage_iff_final {u k} (hk : ρ (o, r) < k) : Stage m G u k o r ↔ Final m G ρ u o r := by
  obtain ⟨j, hj⟩ : ∃ j, j = ρ (o, r) := ⟨_, rfl⟩
  induction j using Nat.strong_induction_on generalizing o r k with
  | h j ih =>
    obtain ⟨k, rfl⟩ := Nat.exists_eq_succ_of_ne_zero (Nat.ne_zero_of_lt hk)
    refine or_congr Iff.rfl (exists_congr fun rel => and_congr_right fun hrel => ?_)
    refine Userset.eval_congr fun l hl y hy => ?_
    have hlt : ρ y < ρ (o, r) := hρ (o, r) y ⟨rel, hrel, l, hl, hy⟩
    rw [ih (ρ y) (hj ▸ hlt) (show ρ (y.1, y.2) < k from hlt.trans_le (Nat.lt_succ_iff.mp hk)) rfl,
      ih (ρ y) (hj ▸ hlt) (show ρ (y.1, y.2) < ρ (o, r) from hlt) rfl]

lemma final_iff {u} :
    Final m G ρ u o r ↔ u = .userset o r ∨
      ∃ rel, m.getRelation o.type r = .ok rel ∧ rel.rewrite.Eval G (Final m G ρ u) u o r := by
  refine or_congr Iff.rfl (exists_congr fun rel => and_congr_right fun hrel => ?_)
  exact Userset.eval_congr fun l hl y hy =>
    stage_iff_final hρ (show ρ (y.1, y.2) < ρ (o, r) from hρ (o, r) y ⟨rel, hrel, l, hl, hy⟩)

/-- What the operands say about the final usersets makes these the related ones. -/
lemma related_iff_final {u} :
    Related m G (fun o r w => ¬ w.Eval G (Final m G ρ u) u o r) u o r ↔ Final m G ρ u o r := by
  constructor
  · rintro ⟨n, hn⟩
    induction n generalizing o r with
    | zero => exact hn.elim
    | succ n ih =>
      refine (final_iff hρ).mpr (hn.imp_right ?_)
      rintro ⟨rel, hrel, hsat⟩
      exact ⟨rel, hrel, Userset.sat_iff_eval.mp (hsat.mono fun _ _ => ih)⟩
  · obtain ⟨j, hj⟩ : ∃ j, j = ρ (o, r) := ⟨_, rfl⟩
    induction j using Nat.strong_induction_on generalizing o r with
    | h j ih =>
      intro hfinal
      refine related_iff.mpr (((final_iff hρ).mp hfinal).imp_right ?_)
      rintro ⟨rel, hrel, heval⟩
      refine ⟨rel, hrel, (Userset.sat_iff_eval.mpr heval).mono_of_leads fun l hl y hy => ?_⟩
      exact ih (ρ y) (hj ▸ hρ (o, r) y ⟨rel, hrel, l, hl, hy⟩) rfl

end

/-- Where every path is finite there is a meaning. -/
def ofRank (hρ : ∀ x y, m.Leads G x y → ρ y < ρ x) : Meaning m G where
  Not u o r w := ¬ w.Eval G (Final m G ρ u) u o r
  not_iff u o r w := by
    have heq : Related m G (fun o r w => ¬ w.Eval G (Final m G ρ u) u o r) u = Final m G ρ u :=
      funext fun o => funext fun r => propext (related_iff_final hρ)
    rw [heq, Userset.sat_iff_eval]

end Meaning

/-! ## What a rewrite refers to -/

namespace AuthorizationModel

variable (m : AuthorizationModel)

/-- The relations that a leaf of the rewrite of `t#r` refers to. -/
def leafRefs (t r : String) : Userset → List (String × String)
  | .this => (m.getDirectlyRelatedUserTypes t r).filterMap fun d =>
    match d.shape with
    | .userset r' => some (d.type, r')
    | _ => none
  | .computedUserset computed => [(t, computed)]
  | .tupleToUserset tupleset computed =>
    (m.getDirectlyRelatedUserTypes t tupleset).map fun d => (d.type, computed)
  | _ => []

/-- The relations that a rewrite of `t#r` refers to. -/
def refs (t r : String) (w : Userset) : List (String × String) := w.leaves.flatMap (m.leafRefs t r)

/-- The rewrite of one relation refers to the other. -/
def Refers (x y : String × String) : Prop :=
  ∃ rel, m.getRelation x.1 x.2 = .ok rel ∧ y ∈ m.refs x.1 x.2 rel.rewrite

end AuthorizationModel

namespace TypeSystem

open AuthorizationModel

variable {ts : TypeSystem} {t r : String} {m : AuthorizationModel} {x y : String × String}

lemma mem_refs_this {o r'} (h : ts.Admits t r (.userset o r')) :
    (o.type, r') ∈ ts.refs t r .this := by
  obtain ⟨rel, hrel, d, hd, htype, hshape⟩ := h
  simp only [AuthorizationModel.refs, Userset.leaves, flatMap_cons, flatMap_nil,
    append_nil, leafRefs, getDirectlyRelatedUserTypes_of_ok hrel, mem_filterMap]
  refine ⟨d, hd, ?_⟩
  rw [hshape, htype]
  rfl

lemma mem_refs_ttu {o tupleset computed} (h : ts.Admits t tupleset (.object o)) :
    (o.type, computed) ∈ ts.refs t r (.tupleToUserset tupleset computed) := by
  obtain ⟨rel, hrel, d, hd, htype, -⟩ := h
  simp only [AuthorizationModel.refs, Userset.leaves, flatMap_cons, flatMap_nil,
    append_nil, leafRefs, getDirectlyRelatedUserTypes_of_ok hrel, mem_map]
  refine ⟨d, hd, ?_⟩
  rw [htype]
  rfl

/-- References go down in this rank. -/
def RefsRanked (m : AuthorizationModel) (ρ : String × String → Nat) : Bool :=
  m.typeDefinitions.all fun td => td.relations.all fun p =>
    (m.refs td.type p.1 p.2.rewrite).all fun x => ρ x < ρ (td.type, p.1)

lemma rank_lt_of_refers {ρ : String × String → Nat}
    (h : RefsRanked m ρ = true) (hxy : m.Refers x y) : ρ y < ρ x := by
  obtain ⟨rel, hrel, href⟩ := hxy
  obtain ⟨td, htd, htype, hmem⟩ := mem_of_getRelation hrel
  simp only [RefsRanked, all_eq_true, decide_eq_true_eq] at h
  have hlt := h td htd (x.2, rel) hmem y (htype ▸ href)
  rwa [htype] at hlt

end TypeSystem

end OpenFGA
