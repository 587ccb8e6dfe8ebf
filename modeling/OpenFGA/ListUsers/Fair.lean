/-
  Expansions in which every operator is right about one user.

  The set operators trust what they receive, and with some messages they go wrong (see `Marks`).
  `Fair` says that none of them does, all the way down: each operator finds its condition met by
  the messages of its operands.  What is needed of the base of an exclusion is needed of the
  exclusion, and of the subtracted operand the converse.

  An expansion does not go to a userset on its path again.  So it is about the users that
  are in a userset without those on the path, which for an empty path are all of them.
-/

import OpenFGA.Lib.Avoiding
import OpenFGA.ListUsers.Marks
import OpenFGA.ListUsers.Paths

namespace OpenFGA.ListUsers.Query

open AuthorizationModel TypeSystem List

/-! ## Users without the usersets on the path -/

section
variable (q : Query) (M : Meaning q.typesys.toAuthorizationModel q.grants) (u : User)

/-- The user satisfies the rewrite of a userset, where `S` are the usersets it is in. -/
def Rule (S : Object × String → Prop) (x : Object × String) : Prop :=
  ∃ rel, q.typesys.getRelation x.1.type x.2 = .ok rel ∧
    rel.rewrite.Sat q.grants (fun o r => S (o, r)) (M.Not u x.1 x.2) u x.1 x.2

/-- The user is in the userset, and would be if nobody were in those on the path. -/
def InWithout (visited : List (Object × String)) (o : Object) (r : String) : Prop :=
  Avoiding (q.Rule M u) visited (o, r)

end

variable {q : Query} {σ : Schedule} {M : Meaning q.typesys.toAuthorizationModel q.grants}
  {o v : Object} {r : String} {w : Userset} {u : User} {need : Need} {path : List Nat} {n : Nat}
  {dispatch : List Nat → Object → String → Expansion} {visited : List (Object × String)}

lemma local_rule : Avoiding.Local (q.Rule M u) q.Leads := by
  rintro S S' x hS ⟨rel, hrel, hsat⟩
  exact ⟨rel, hrel, hsat.mono_of_leads fun l hl y hy => hS y ⟨rel, hrel, l, hl, hy⟩⟩

lemma has_of_inWithout (h : q.InWithout M u visited o r) : M.Has u o r := by
  have hind : ∀ x, Avoiding (q.Rule M u) visited x → M.Has u x.1 x.2 := by
    intro x hx
    induction hx with
    | intro S _ _ h ih =>
      obtain ⟨rel, hrel, hsat⟩ := h
      exact Meaning.has_iff.mpr (.inr ⟨rel, hrel, hsat.mono fun o r => ih (o, r)⟩)
  exact hind _ h

lemma inWithout_nil (h : M.Has (.object v) o r) : q.InWithout M (.object v) [] o r := by
  obtain ⟨n, hn⟩ := h
  induction n generalizing o r with
  | zero => exact hn.elim
  | succ n ih =>
    rcases hn with hself | ⟨rel, hrel, hsat⟩
    · exact nomatch hself
    · exact .of_rule not_mem_nil ⟨rel, hrel, hsat.mono fun _ _ => ih⟩

/-- The path makes no difference if the tuples have no cycles. -/
lemma sat_inWithout (h : q.Acyclic) (hpart : q.typesys.PartOf o.type r w)
    (hvisited : ∀ x ∈ visited, Relation.ReflTransGen q.Leads x (o, r))
    (hsat : M.Sat (.object v) o r w) :
    w.Sat q.grants (q.InWithout M (.object v) visited) (M.Not (.object v) o r) (.object v) o r := by
  obtain ⟨⟨rel, hrel, hleaves⟩, -⟩ := hpart
  refine hsat.mono_of_leads fun l hl y hy hhas => ?_
  refine (inWithout_nil hhas).of_not_reached local_rule fun x hx hyx => h x ?_
  exact (Relation.TransGen.tail' (hvisited x hx) ⟨rel, hrel, l, hleaves l hl, hy⟩).trans_left hyx

/-! ## Fair expansions -/

section
variable (q : Query) (σ : Schedule) (M : Meaning q.typesys.toAuthorizationModel q.grants) (u : User)

section
variable (dispatch : List Nat → Object → String → Expansion)
  (fair : Need → List Nat → Object → String → Prop) (visited : List (Object × String))
  (o : Object) (r : String)

/-- No earlier tuple of the user hides one that grants the relation, and no expansion denies what
    another one claims. -/
def DirectKeeps (path : List Nat) : Need → Prop
  | .sound => q.grants.any o r u → q.grants.own o r u
  | .complete => q.Settled ((q.read o r).1.zipIdx.map fun p =>
      (q.expandDirectTuple dispatch (p.2 :: path) p.1).sent) u

mutual

/-- In the expansion of a rewrite every operator finds its condition met. -/
def FairRewrite (need : Need) (path : List Nat) : Userset → Prop
  | .this =>
    (∀ p ∈ (q.read o r).1.zipIdx, ∀ o' r', p.1.user = .userset o' r' →
      fair need (p.2 :: path) o' r') ∧ q.DirectKeeps u dispatch o r path need
  | .computedUserset computed => fair need (0 :: path) o computed
  | .tupleToUserset tupleset computed =>
    (∀ p ∈ (q.read o tupleset).1.zipIdx, fair need (p.2 :: path) (splitObject p.1.user) computed) ∧
    (need = .complete → q.Settled ((q.read o tupleset).1.zipIdx.map fun p =>
      (dispatch (p.2 :: path) (splitObject p.1.user) computed).sent) u)
  | .union cs => FairRewrites need path 0 cs ∧
      q.UnionKeeps ((q.expandRewrites σ dispatch o r path 0 cs).map (·.sent)) u need
  | .intersection cs => FairRewrites need path 0 cs
  | .difference b s =>
    let base := q.expandRewrite σ dispatch o r (0 :: path) b
    let subtract := q.expandRewrite σ dispatch o r (1 :: path) s
    if subtract.hasCycle then
      -- nothing is sent, which is not complete if the base claims the user
      need = .complete → base.errs = [] ∧ FairRewrite need (0 :: path) b ∧ ¬ q.Claims base.sent u
    else
      FairRewrite need (0 :: path) b ∧ FairRewrite need.other (1 :: path) s ∧
      q.ExclusionKeeps base.sent subtract.sent u need ∧
      -- a cycle that ends the expansion of the subtracted operand is not always reported
      (need = .sound → M.Sat u o r s →
        s.Sat q.grants (q.InWithout M u visited) (M.Not u o r) u o r)

def FairRewrites (need : Need) (path : List Nat) (i : Nat) : List Userset → Prop
  | [] => True
  | c :: cs => FairRewrite need (i :: path) c ∧ FairRewrites need path (i + 1) cs

end

end

/-- In the expansion of a userset every operator finds its condition met. -/
def Fair : Nat → List (Object × String) → Need → List Nat → Object → String → Prop
  | 0, _, _, _, _, _ => True
  | n + 1, visited, need, path, o, r =>
    (o, r) ∉ visited → ∀ rel, q.typesys.getRelation o.type r = .ok rel →
      q.FairRewrite σ M u (q.expand σ n ((o, r) :: visited)) (Fair n ((o, r) :: visited))
        ((o, r) :: visited) o r need path rel.rewrite

end

lemma fairRewrites_iff {fair} {cs : List Userset} {i : Nat} :
    q.FairRewrites σ M u dispatch fair visited o r need path i cs ↔
      ∀ p ∈ cs.zipIdx i, q.FairRewrite σ M u dispatch fair visited o r need (p.2 :: path) p.1 := by
  induction cs generalizing i with
  | nil => simp [FairRewrites]
  | cons c cs ih => simp [FairRewrites, ih, zipIdx_cons]

lemma fairRewrite_difference {fair} {b s : Userset} (hacyclic : q.Acyclic)
    (hpart : q.typesys.PartOf o.type r s)
    (hvisited : ∀ x ∈ visited, Relation.ReflTransGen q.Leads x (o, r))
    (hcycle : (q.expandRewrite σ dispatch o r (1 :: path) s).hasCycle = false)
    (hb : q.FairRewrite σ M (.object v) dispatch fair visited o r need (0 :: path) b)
    (hs : q.FairRewrite σ M (.object v) dispatch fair visited o r need.other (1 :: path) s)
    (hkeeps : q.ExclusionKeeps (q.expandRewrite σ dispatch o r (0 :: path) b).sent
      (q.expandRewrite σ dispatch o r (1 :: path) s).sent (.object v) need) :
    q.FairRewrite σ M (.object v) dispatch fair visited o r need path (.difference b s) := by
  unfold FairRewrite
  rw [if_neg (by simp [hcycle])]
  exact ⟨hb, hs, hkeeps, fun _ => sat_inWithout hacyclic hpart hvisited⟩

/-- Tuples of objects and typed wildcards are fair to everybody. -/
lemma fairRewrite_this {fair} (hdist : q.Distinct)
    (hread : ∀ t ∈ (q.read o r).1, t.user.isObjectRelation = false) :
    q.FairRewrite σ M u dispatch fair visited o r need path .this := by
  refine ⟨fun p hp o' r' hu => ?_, ?_⟩
  · have := hread p.1 (fst_mem_of_mem_zipIdx hp)
    rw [hu] at this
    cases this
  · cases need with
    | sound => exact grants_own_of_any hdist
    | complete =>
      rintro ⟨ms, hms, hd⟩
      obtain ⟨p, hp, rfl⟩ := mem_map.mp hms
      rw [expandDirectTuple_of_not_userset (hread p.1 (fst_mem_of_mem_zipIdx hp))] at hd
      split_ifs at hd <;> simp [Denies, excluded, FoundUser.of] at hd

/-! ## Expansions are tidy -/

lemma tidy_expandRewrite (hd : ∀ path o r, q.Tidy (dispatch path o r).sent) :
    q.Tidy (q.expandRewrite σ dispatch o r path w).sent := by
  induction w generalizing path with
  | this =>
    refine Tidy.perm (σ.perm ..) (sent_parts ▸ tidy_flatten (forall_mem_map.mpr fun p hp => ?_))
    cases hu : p.1.user.isObjectRelation with
    | false =>
      rw [expandDirectTuple_of_not_userset hu]
      split_ifs with htype
      · exact tidy_of (.inr htype.symm)
      · exact forall_mem_nil _
    | true =>
      obtain ⟨o', r', hu⟩ := exists_userset hu
      rw [expandDirectTuple_userset hu]
      exact hd _ _ _
  | computedUserset computed => exact hd _ _ _
  | tupleToUserset tupleset computed =>
    exact Tidy.perm (σ.perm ..) (sent_parts ▸ tidy_flatten (forall_mem_map.mpr fun p _ => hd _ _ _))
  | union cs ih =>
    refine Tidy.perm (σ.perm ..) (tidy_unionOf (forall_mem_map.mpr fun e he => ?_))
    obtain ⟨c, hc, path', rfl⟩ := exists_operand he
    exact ih c hc
  | intersection cs ih =>
    refine Tidy.perm (σ.perm ..) (tidy_intersectionOf (forall_mem_map.mpr fun e he => ?_))
    obtain ⟨c, hc, path', rfl⟩ := exists_operand he
    exact ih c hc
  | difference b s ihb ihs =>
    simp only [expandRewrite]
    split_ifs
    · exact forall_mem_nil _
    · exact Tidy.perm (σ.perm ..) (tidy_differenceOf ihb ihs)

lemma tidy_expand : q.Tidy (q.expand σ n visited path o r).sent := by
  induction n generalizing visited path o r with
  | zero => exact forall_mem_nil _
  | succ n ih =>
    intro m hm
    rcases mem_expand hm with hm | ⟨k, rel, hk, -, hm⟩
    · rw [mem_selfUser hm]
      exact tidy_of (.inl rfl) _ (mem_singleton_self _)
    · obtain rfl := Nat.succ.inj hk
      exact tidy_expandRewrite (fun _ _ _ => ih) m hm

end OpenFGA.ListUsers.Query
