/-
  The computed usersets of one type (`pkg/typesystem/typesystem.go`): `HasCycle`, which looks
  for a cycle of them, and `ResolveComputedRelation`, which follows a chain of them and
  remembers where it ends.

  A call of `hasCycle` marks its relation in the map that it was given and hands copies on, so a
  call here also returns what it leaves in that map.  The type is the same in all keys of the
  map; a key is a relation.  Go stops the program where a recursion is too deep:
  `stackOverflow`, with the depth as an argument.

  What is remembered is shared by all types under the key `type-relation`, and a type and
  a relation may have a `-` in their names.
-/

import OpenFGA.Lib.Explore
import OpenFGA.TypeSystem

namespace OpenFGA.ComputedChains

open AuthorizationModel Explore List

inductive Error where
  | undefined (e : GetRelationError)
  /-- `unsupported rewrite %s` -/
  | unsupported (w : Userset)
  | stackOverflow

/-! ## HasCycle -/

/-- What a call answers, and the map that it was given. -/
abbrev Result := Except Error (Bool × List String)

section
variable (m : AuthorizationModel) (objectType : String)
  (hop : String → Userset → List String → Result)

mutual

/-- The calls of `hasCycle` for one relation; `hop` is the call for another one. -/
def walk (relationName : String) (visited : List String) : Userset → Result
  | .this => .ok (false, relationName :: visited)
  | .tupleToUserset _ _ => .ok (false, relationName :: visited)
  | .computedUserset rewrittenRelation =>
    if rewrittenRelation ∈ relationName :: visited then .ok (true, relationName :: visited)
    else
      match m.getRelation objectType rewrittenRelation with
      | .error e => .error (.undefined e)
      | .ok rewritten =>
        (hop rewrittenRelation rewritten.rewrite (relationName :: visited)).map fun (b, _) =>
          (b, relationName :: visited)
  | .union cs => walkChildren relationName visited (relationName :: visited) cs
  | .intersection cs => walkChildren relationName visited (relationName :: visited) cs
  | .difference base subtract =>
    match walk relationName (relationName :: visited) base with
    | .error e => .error e
    | .ok (true, _) => .ok (true, relationName :: visited)
    | .ok (false, visitedCopy) =>
      match walk relationName visitedCopy subtract with
      | .error e => .error e
      | .ok (b, _) => .ok (b, relationName :: visited)

/-- The loop over the children, which share a copy of the map. -/
def walkChildren (relationName : String) (visited visitedCopy : List String) :
    List Userset → Result
  | [] => .ok (false, relationName :: visited)
  | c :: cs =>
    match walk relationName visitedCopy c with
    | .error e => .error e
    | .ok (true, _) => .ok (true, relationName :: visited)
    | .ok (false, visitedCopy) => walkChildren relationName visited visitedCopy cs

end

/-- `hasCycle`, so many relations deep. -/
def hasCycle : Nat → String → Userset → List String → Result
  | 0 => fun _ _ _ => .error .stackOverflow
  | n + 1 => fun relationName rewrite visited =>
    walk m objectType (hasCycle n) relationName visited rewrite

def HasCycle (n : Nat) (relationName : String) : Except Error Bool :=
  match m.getRelation objectType relationName with
  | .error e => .error (.undefined e)
  | .ok relation => (hasCycle m objectType n relationName relation.rewrite []).map Prod.fst

/-- The rewrite of `r` has a computed userset `c`. -/
def Computes (r c : String) : Prop :=
  ∃ rel, m.getRelation objectType r = .ok rel ∧ .computedUserset c ∈ rel.rewrite.leaves

/-- A cycle of computed usersets is reached from `r`. -/
def Cyclic (r : String) : Prop :=
  ∃ y, Relation.ReflTransGen (Computes m objectType) r y ∧
    Relation.TransGen (Computes m objectType) y y

end

/-- All computed relations exist. -/
def computedExist (m : AuthorizationModel) : Bool :=
  m.typeDefinitions.all fun td => td.relations.all fun p => p.2.rewrite.leaves.all fun
    | .computedUserset c => m.defines td.type c
    | _ => true

/-- The names of relations. -/
def relationNames (m : AuthorizationModel) : List String :=
  m.typeDefinitions.flatMap fun td => td.relations.map Prod.fst

section
variable {m : AuthorizationModel} {t r c : String} {rel : Relation} {n : Nat} {V : List String}
  {hop : String → Userset → List String → Result} {w : Userset} {cs : List Userset}

lemma mem_relationNames (h : m.getRelation t r = .ok rel) : r ∈ (relationNames m).toFinset := by
  obtain ⟨td, htd, -, hmem⟩ := mem_of_getRelation h
  exact mem_toFinset.mpr (mem_flatMap.mpr ⟨td, htd, mem_map_of_mem hmem⟩)

lemma unvisited_nil (hn : (relationNames m).length < n) :
    unvisited (relationNames m).toFinset [] < n :=
  (Finset.card_filter_le _ _).trans_lt ((toFinset_card_le _).trans_lt hn)

lemma exists_of_computes (hm : computedExist m = true) (h : Computes m t r c) :
    ∃ rel, m.getRelation t c = .ok rel := by
  obtain ⟨rel, hrel, hc⟩ := h
  obtain ⟨td, htd, rfl, hmem⟩ := mem_of_getRelation hrel
  simp only [computedExist, all_eq_true] at hm
  exact defines_iff.mp (hm td htd (r, rel) hmem _ hc)

/-- A cycle is reached from a relation when it is reached from one that it computes. -/
lemma cyclic_iff : Cyclic m t r ↔ ∃ c, Computes m t r c ∧ Cyclic m t c := by
  constructor
  · rintro ⟨y, hry, hyy⟩
    rcases hry.cases_head with rfl | ⟨c, hc, hcy⟩
    · obtain ⟨c, hc, hcr⟩ := Relation.TransGen.head'_iff.mp hyy
      exact ⟨c, hc, r, hcr, hyy⟩
    · exact ⟨c, hc, y, hcy, hyy⟩
  · rintro ⟨c, hc, y, hcy, hyy⟩
    exact ⟨y, .head hc hcy, hyy⟩

/-- What a call for another relation answers, when all that is visited leads there. -/
def HopSpec (m : AuthorizationModel) (t : String) (n : Nat)
    (hop : String → Userset → List String → Result) : Prop :=
  ∀ r rel V, m.getRelation t r = .ok rel → r ∉ V → (∀ y ∈ V, Relation.TransGen (Computes m t) y r) →
    unvisited (relationNames m).toFinset V < n →
    ∃ b V', hop r rel.rewrite V = .ok (b, V') ∧ (b = true ↔ Cyclic m t r)

/-- All that is visited when a part of the rewrite of `r` is looked at leads on as `r` does, and
    the calls may go deep enough for the rest. -/
structure Marks (m : AuthorizationModel) (t : String) (n : Nat) (r : String) (V : List String) :
    Prop where
  leads : ∀ y ∈ V, ∀ c, Computes m t r c → Relation.TransGen (Computes m t) y c
  room : unvisited (relationNames m).toFinset (r :: V) < n

/-- The call for a part of the rewrite of `r`. -/
def WalkSpec (m : AuthorizationModel) (t : String) (n : Nat)
    (hop : String → Userset → List String → Result) (r : String) (w : Userset) : Prop :=
  ∀ V, Marks m t n r V → ∃ b, walk m t hop r V w = .ok (b, r :: V) ∧
    (b = true ↔ ∃ c, .computedUserset c ∈ w.leaves ∧ Cyclic m t c)

/-- A child leaves only a mark in the copy that is there already. -/
theorem Marks.mark (h : Marks m t n r V) : Marks m t n r (r :: V) :=
  ⟨forall_mem_cons.mpr ⟨fun _ hc => .single hc, h.leads⟩,
    (unvisited_le (subset_cons_self r _)).trans_lt h.room⟩

lemma walkChildren_spec (hcs : ∀ c ∈ cs, WalkSpec m t n hop r c) {V'} (hV : Marks m t n r V') :
    ∃ b, walkChildren m t hop r V V' cs = .ok (b, r :: V) ∧
      (b = true ↔ ∃ c, .computedUserset c ∈ Userset.leavesOf cs ∧ Cyclic m t c) := by
  induction cs generalizing V' with
  | nil => exact ⟨false, rfl, by simp [Userset.leavesOf]⟩
  | cons d ds ih =>
    obtain ⟨hd, hds⟩ := forall_mem_cons.mp hcs
    obtain ⟨b, hwalk, hb⟩ := hd V' hV
    rw [walkChildren, hwalk]
    simp only [Userset.leavesOf, mem_append, or_and_right, exists_or]
    cases b with
    | true => exact ⟨true, rfl, iff_of_true rfl (.inl (hb.mp rfl))⟩
    | false =>
      obtain ⟨b, hwalk, hrest⟩ := ih hds hV.mark
      exact ⟨b, hwalk, hrest.trans (or_iff_right (hb.not.mp Bool.false_ne_true)).symm⟩

lemma walk_difference (b s : Userset) :
    walk m t hop r V (.difference b s) = walkChildren m t hop r V (r :: V) [b, s] := by
  rw [walk, walkChildren]
  split
  · rfl
  · rfl
  next visitedCopy _ =>
    rw [walkChildren]
    cases walk m t hop r visitedCopy s with
    | error e => rfl
    | ok p => obtain ⟨_ | _, _⟩ := p <;> rfl

section
variable (hm : computedExist m = true)
include hm

lemma walk_spec (hhop : HopSpec m t n hop)
    (hrel : m.getRelation t r = .ok rel) (hw : ∀ l ∈ w.leaves, l ∈ rel.rewrite.leaves) :
    WalkSpec m t n hop r w := by
  induction w with
  | this | tupleToUserset _ _ => exact fun V _ => ⟨false, rfl, by simp [Userset.leaves]⟩
  | computedUserset c =>
    intro V hV
    have hc : Computes m t r c := ⟨rel, hrel, hw _ (mem_singleton_self _)⟩
    have hpath : ∀ y ∈ r :: V, Relation.TransGen (Computes m t) y c :=
      fun y hy => hV.mark.leads y hy c hc
    have hiff : (∃ c', .computedUserset c' ∈ (Userset.computedUserset c).leaves ∧ Cyclic m t c') ↔
        Cyclic m t c := by simp [Userset.leaves]
    rw [walk, hiff]
    split_ifs with hmem
    · exact ⟨true, rfl, iff_of_true rfl ⟨c, .refl, hpath c hmem⟩⟩
    · obtain ⟨rel', hrel'⟩ := exists_of_computes hm hc
      obtain ⟨b, V', hcall, hb⟩ := hhop c rel' (r :: V) hrel' hmem hpath hV.room
      simp only [hrel', hcall]
      exact ⟨b, rfl, hb⟩
  | union cs ih | intersection cs ih =>
    exact fun V hV => walkChildren_spec (fun c hc => ih c hc fun l hl =>
      hw l (Userset.mem_leavesOf.mpr ⟨c, hc, hl⟩)) hV.mark
  | difference b s ihb ihs =>
    intro V hV
    have hchildren : ∀ c ∈ [b, s], WalkSpec m t n hop r c := by
      simpa using ⟨ihb fun l hl => hw l (mem_append_left _ hl),
        ihs fun l hl => hw l (mem_append_right _ hl)⟩
    obtain ⟨found, hwalk, hfound⟩ := walkChildren_spec hchildren hV.mark
    refine ⟨found, (walk_difference ..).trans hwalk, ?_⟩
    rwa [Userset.leavesOf, Userset.leavesOf, Userset.leavesOf, append_nil] at hfound

lemma hopSpec (n : Nat) : HopSpec m t n (hasCycle m t n) := by
  induction n with
  | zero => exact fun _ _ _ _ _ _ hn => absurd hn (Nat.not_lt_zero _)
  | succ n ih =>
    intro r rel V hrel hr hV hn
    have hlt := unvisited_cons (mem_relationNames hrel) hr
    obtain ⟨b, hwalk, hb⟩ := walk_spec hm ih hrel (fun _ hl => hl) V
      ⟨fun y hy c hc => (hV y hy).tail hc, by omega⟩
    refine ⟨b, r :: V, hwalk, hb.trans ?_⟩
    rw [cyclic_iff]
    simp [Computes, hrel]

lemma HasCycle_spec (hrel : m.getRelation t r = .ok rel) (hn : (relationNames m).length < n) :
    ∃ b, HasCycle m t n r = .ok b ∧ (b = true ↔ Cyclic m t r) := by
  obtain ⟨b, V, hcall, hb⟩ := hopSpec hm n r rel [] hrel not_mem_nil nofun (unvisited_nil hn)
  refine ⟨b, ?_, hb⟩
  rw [HasCycle, hrel]
  simp only [hcall]
  rfl

lemma acyclic_of_hasCycle (hn : (relationNames m).length < n)
    (hcycle : ∀ r rel, m.getRelation t r = .ok rel → HasCycle m t n r = .ok false) (r : String) :
    ¬ Cyclic m t r := by
  intro hr
  obtain ⟨c, ⟨rel, hrel, -⟩, -⟩ := cyclic_iff.mp hr
  obtain ⟨b, hanswer, hb⟩ := HasCycle_spec hm hrel hn
  cases (hcycle r rel hrel).symm.trans hanswer
  cases hb.mpr hr

end

/-- `HasCycle` answers for every relation, and finds a cycle exactly where one is reached. -/
theorem hasCycle_exact (hm : computedExist m = true) (hrel : m.getRelation t r = .ok rel)
    (hn : (relationNames m).length < n) :
    ∃ b, HasCycle m t n r = .ok b ∧
      (b = true ↔ ∃ y, Relation.ReflTransGen (Computes m t) r y ∧
        Relation.TransGen (Computes m t) y y) :=
  HasCycle_spec hm hrel hn

end

/-- `a: b or c`, `b: d`, `c: d`, `d: [user]`, `e: a but not f`, `f: e` -/
def diamond : AuthorizationModel where
  typeDefinitions := [⟨"user", []⟩, ⟨"doc", [
    ("a", ⟨.union [.computedUserset "b", .computedUserset "c"], []⟩),
    ("b", ⟨.computedUserset "d", []⟩), ("c", ⟨.computedUserset "d", []⟩),
    ("d", ⟨.this, [⟨"user", .object, ""⟩]⟩),
    ("e", ⟨.difference (.computedUserset "a") (.computedUserset "f"), []⟩),
    ("f", ⟨.computedUserset "e", []⟩)]⟩]
  conditions := []

theorem hasCycle_exact_diamond :
    computedExist diamond = true ∧ (∃ b, HasCycle diamond "doc" 7 "a" = .ok b ∧
      (b = true ↔ ∃ y, Relation.ReflTransGen (Computes diamond "doc") "a" y ∧
        Relation.TransGen (Computes diamond "doc") y y)) ∧
      HasCycle diamond "doc" 7 "a" = .ok false ∧ HasCycle diamond "doc" 7 "e" = .ok true :=
  ⟨by decide, hasCycle_exact (by decide) rfl (by decide), rfl, rfl⟩

/-! ## ResolveComputedRelation -/

section
variable (m : AuthorizationModel)

def memoizeKey (objectType relation : String) : String := objectType ++ "-" ++ relation

/-- `ResolveComputedRelation`, and what `computedRelations` holds after it. -/
def resolve (objectType : String) : Nat → List (String × String) → String →
    Except Error String × List (String × String)
  | 0, memo, _ => (.error .stackOverflow, memo)
  | n + 1, memo, relation =>
    match memo.lookup (memoizeKey objectType relation) with
    | some val => (.ok val, memo)
    | none =>
      match m.getRelation objectType relation with
      | .error e => (.error (.undefined e), memo)
      | .ok rel =>
        match rel.rewrite with
        | .computedUserset computed => resolve objectType n memo computed
        | .this => (.ok relation, (memoizeKey objectType relation, relation) :: memo)
        | w => (.error (.unsupported w), memo)

/-- What is remembered after some calls. -/
def remembered (n : Nat) (calls : List (String × String)) : List (String × String) :=
  calls.foldl (fun memo x => (resolve m x.1 n memo x.2).2) []

/-- Where the chain of computed usersets ends. -/
inductive Resolves (t : String) : String → Except Error String → Prop where
  | undefined {r e} (h : m.getRelation t r = .error e) :
      Resolves t r (.error (.undefined e))
  | this {r rel} (h : m.getRelation t r = .ok rel) (hw : rel.rewrite = .this) :
      Resolves t r (.ok r)
  | computed {r c rel res}
      (h : m.getRelation t r = .ok rel) (hw : rel.rewrite = .computedUserset c)
      (hc : Resolves t c res) : Resolves t r res
  | unsupported {r rel} (h : m.getRelation t r = .ok rel)
      (hthis : rel.rewrite ≠ .this) (hcomputed : ∀ c, rel.rewrite ≠ .computedUserset c) :
      Resolves t r (.error (.unsupported rel.rewrite))

/-- What is remembered is right for everybody who looks it up. -/
def Recalls (memo : List (String × String)) : Prop :=
  ∀ t r val, memo.lookup (memoizeKey t r) = some val → Resolves m t r (.ok val)

end

section
variable {m : AuthorizationModel} {t r : String} {rel : Relation} {n : Nat}
  {memo : List (String × String)}

theorem Resolves.unique {res res'} (h : Resolves m t r res) (h' : Resolves m t r res') :
    res = res' := by
  induction h with
  | undefined h | this h hw | unsupported h hthis hcomputed => cases h' <;> simp_all
  | computed h hw hc ih =>
    refine ih ?_
    cases h' <;> simp_all

/-- Whether relation `r` of type `t` is assigned directly. -/
def Direct (m : AuthorizationModel) (t r : String) : Prop :=
  ∃ rel, m.getRelation t r = .ok rel ∧ rel.rewrite = .this

/-- A call answers where the chain ends, and remembers at most a relation that is assigned
    directly. -/
lemma resolve_spec (hacyclic : ∀ r, ¬ Cyclic m t r) (hmemo : Recalls m memo) {V}
    (hV : ∀ y ∈ V, Relation.TransGen (Computes m t) y r)
    (hn : unvisited (relationNames m).toFinset V < n) :
    Resolves m t r (resolve m t n memo r).1 ∧ ((resolve m t n memo r).2 = memo ∨
      ∃ r', Direct m t r' ∧ (resolve m t n memo r).2 = (memoizeKey t r', r') :: memo) := by
  induction n generalizing r V with
  | zero => exact absurd hn (Nat.not_lt_zero _)
  | succ n ih =>
    have hr : r ∉ V := fun hmem => hacyclic r ⟨r, .refl, hV r hmem⟩
    rw [resolve]
    split
    next val hval => exact ⟨hmemo t r val hval, .inl rfl⟩
    · cases hrel : m.getRelation t r with
      | error e => exact ⟨.undefined hrel, .inl rfl⟩
      | ok rel =>
        cases hw : rel.rewrite with
        | this =>
          simp only [hw]
          exact ⟨.this hrel hw, .inr ⟨r, ⟨rel, hrel, hw⟩, rfl⟩⟩
        | computedUserset c =>
          have hc : Computes m t r c := ⟨rel, hrel, by rw [hw]; exact mem_singleton_self _⟩
          have hlt := unvisited_cons (mem_relationNames hrel) hr
          have hpath : ∀ y ∈ r :: V, Relation.TransGen (Computes m t) y c :=
            forall_mem_cons.mpr ⟨.single hc, fun y hy => (hV y hy).tail hc⟩
          obtain ⟨hres, hmem⟩ := ih hpath (by omega)
          simp only [hw]
          exact ⟨.computed hrel hw hres, hmem⟩
        | tupleToUserset _ _ | union _ | intersection _ | difference _ _ =>
          simp only [hw, true_or, and_true]
          exact hw ▸ .unsupported hrel (by simp [hw]) (by simp [hw])

/-- For every model that passes the checks for computed relations and for cycles, a new
    `TypeSystem` answers where the chain ends.  It answers the same after any calls, if and only
    if no other pair of a type and a relation has the key of a directly assigned relation,
    unless its chain ends in a relation of that name. -/
theorem resolve_history_iff (hm : computedExist m = true) (hn : (relationNames m).length < n)
    (hcycle : ∀ t r rel, m.getRelation t r = .ok rel → HasCycle m t n r = .ok false) :
    (∀ t r, Resolves m t r (resolve m t n [] r).1) ∧
      ((∀ calls t r, (resolve m t n (remembered m n calls) r).1 = (resolve m t n [] r).1) ↔
        ∀ t r, Direct m t r → ∀ t' r', memoizeKey t' r' = memoizeKey t r →
          Resolves m t' r' (.ok r)) := by
  have hspec (t r : String) {memo : List (String × String)} (hmemo : Recalls m memo) :=
    resolve_spec (r := r) (acyclic_of_hasCycle hm hn (hcycle t)) hmemo (V := []) nofun
      (unvisited_nil hn)
  have hnil : Recalls m [] := fun _ _ _ h => nomatch h
  refine ⟨fun t r => (hspec t r hnil).1, fun h t r ⟨rel, hrel, hw⟩ t' r' hkey => ?_,
    fun h calls => ?_⟩
  · -- after the call for `r`, the lookup for `r'` finds it
    obtain ⟨n, rfl⟩ := Nat.exists_eq_succ_of_ne_zero (Nat.ne_zero_of_lt hn)
    have hmemo : remembered m (n + 1) [(t, r)] = [(memoizeKey t r, r)] := by
      simp [remembered, resolve, hrel, hw]
    have hcall := h [(t, r)] t' r'
    rw [hmemo, resolve, hkey, lookup_cons_self] at hcall
    rw [show Except.ok r = _ from hcall]
    exact (hspec t' r' hnil).1
  · have hrecalls : Recalls m (remembered m n calls) := by
      refine foldlRecOn calls _ hnil fun memo hmemo x _ => ?_
      rcases (hspec x.1 x.2 hmemo).2 with hsame | ⟨r', hr', hnew⟩
      · rwa [hsame]
      · rw [hnew]
        intro t r val hval
        rw [lookup_cons] at hval
        split at hval
        next hkey =>
          cases hval
          exact h x.1 r' hr' t r (beq_iff_eq.mp hkey)
        · exact hmemo t r val hval
    exact fun t r => (hspec t r hrecalls).1.unique (hspec t r hnil).1

/-- Two relations with the key `a-b-c`, and `d: b-c` in type `a` -/
def sameKey : AuthorizationModel where
  typeDefinitions := [⟨"user", []⟩, ⟨"a-b", [("c", ⟨.this, [⟨"user", .object, ""⟩]⟩)]⟩,
    ⟨"a", [("b-c", ⟨.this, [⟨"user", .object, ""⟩]⟩), ("d", ⟨.computedUserset "b-c", []⟩)]⟩]
  conditions := []

lemma sameKey_hasCycle (h : sameKey.getRelation t r = .ok rel) :
    HasCycle sameKey t 4 r = .ok false := by
  obtain ⟨td, htd, rfl, hr⟩ := mem_of_getRelation h
  simp only [sameKey, mem_cons, not_mem_nil, or_false] at htd
  rcases htd with rfl | rfl | rfl
  · cases hr
  · cases mem_singleton.mp hr
    rfl
  · rcases mem_cons.mp hr with hr | hr
    · cases hr
      rfl
    · cases mem_singleton.mp hr
      rfl

theorem resolve_history_iff_chain :
    computedExist sameKey = true ∧ Resolves sameKey "a" "d" (resolve sameKey "a" 4 [] "d").1 ∧
      (resolve sameKey "a" 4 [] "d").1 = .ok "b-c" :=
  ⟨by decide,
    (resolve_history_iff (by decide) (by decide) fun _ _ _ => sameKey_hasCycle).1 "a" "d", rfl⟩

/-- `b-c` of type `a` is answered with `c`, a relation that `a` does not have. -/
theorem resolve_other_type :
    sameKey.validate = true ∧ computedExist sameKey = true ∧
      (∀ t r rel, sameKey.getRelation t r = .ok rel → HasCycle sameKey t 4 r = .ok false) ∧
      (resolve sameKey "a" 4 [] "b-c").1 = .ok "b-c" ∧
      (resolve sameKey "a" 4 (remembered sameKey 4 [("a-b", "c")]) "b-c").1 = .ok "c" ∧
      sameKey.defines "a" "c" = false :=
  ⟨by decide, by decide, fun _ _ _ => sameKey_hasCycle, rfl, rfl, rfl⟩

end
end OpenFGA.ComputedChains
