/-
  Every check ends.

  A step lowers the cost of an evaluation; where it starts the evaluation of a new
  user within a region, the new entry of the visited map pays for it (`Bounded`).
  Until an evaluation has answered or failed, some goroutine can go on
  (`exists_step`).
-/

import OpenFGA.Check.ResolverCost

namespace OpenFGA.Check

open OpenFGA.Graph
open Config List Option

/-- A step within a region of rank `R`: new entries of the visited map pay for what
    they start. -/
structure Bounded (c : Config) (R : Nat) (s s' : Shared) (p p' : Proc) : Prop where
  fits : Fits c R p'
  keys : KeysOk c s.visited → KeysOk c s'.visited
  paid : cost c R p' + c.regionCost (c.lower R) * s.visited.length <
    cost c R p + c.regionCost (c.lower R) * s'.visited.length

section
variable {c : Config} {R : Nat} {s s' : Shared} {p p' : Proc}

lemma bounded_of_within (h : Within c R (cost c R p) p') : Bounded c R s s p p' :=
  ⟨h.1, id, Nat.add_lt_add_right h.2 _⟩

lemma bounded_next {visited onceValid t rest lastErr d}
    (hfits : Fits c R (.iter visited (t :: rest) onceValid lastErr p))
    (h : next s visited t rest onceValid lastErr p = (s', d, p')) :
    Bounded c R s s' (.iter visited (t :: rest) onceValid lastErr p) p' := by
  obtain ⟨hp, husers, hrank⟩ := hfits
  have hrest : ∀ t' ∈ rest, t'.user ∈ c.users := fun t' ht' => husers t' (mem_cons_of_mem _ ht')
  have hrank' : visited = true → ∀ t' ∈ rest, c.graph.rank t'.request.node ≤ R :=
    fun hv t' ht' => hrank hv t' (mem_cons_of_mem _ ht')
  have hcost : ∀ onceValid lastErr, cost c R (.iter visited (t :: rest) onceValid lastErr p) =
      tupleBudget c visited t + (rest.map (tupleBudget c visited)).sum + 1 + cost c R p := by
    intro onceValid lastErr
    simp only [cost, map_cons, sum_cons]
  have hpos : 0 < tupleBudget c visited t := by
    unfold tupleBudget
    split <;> omega
  unfold Config.next at h
  cases visited with
  | false =>
    cases h
    apply bounded_of_within
    rw [hcost]
    have hbudget : tupleBudget c false t =
      c.unionCost (c.lower (c.graph.rank t.request.node)) + 1 := rfl
    rcases filterCondition_cases (p := p) with ⟨-, heq⟩ | ⟨-, lastErr', heq⟩
    · rw [heq]
      refine ⟨⟨⟨.inl trivial, hp⟩, hrest, hrank'⟩, ?_⟩
      simp only [cost, Bool.false_eq_true, if_false]
      omega
    · rw [heq]
      refine ⟨⟨hp, hrest, hrank'⟩, ?_⟩
      simp only [cost]
      omega
  | true =>
    rw [if_pos rfl] at h
    split at h <;> cases h
    · refine bounded_of_within ⟨⟨hp, hrest, hrank'⟩, ?_⟩
      rw [hcost]
      simp only [cost]
      omega
    next hany =>
      -- the new entry pays for the evaluation
      have hlen : (visit t :: s.visited).length = s.visited.length + 1 := rfl
      have hkeys : KeysOk c s.visited → KeysOk c (visit t :: s.visited) := by
        rintro ⟨hnodup, x, hx⟩
        refine ⟨?_, x, fun v hv => ?_⟩
        · rw [map_cons, nodup_cons]
          refine ⟨fun hmem => hany ?_, hnodup⟩
          obtain ⟨v, hv, hkey⟩ := mem_map.mp hmem
          exact any_eq_true.mpr ⟨v, hv, decide_eq_true hkey⟩
        · rcases mem_cons.mp hv with rfl | hv
          · exact .inr (husers t mem_cons_self)
          · exact hx v hv
      rcases filterCondition_cases (p := p) with ⟨-, heq⟩ | ⟨-, lastErr', heq⟩
      · rw [heq]
        refine ⟨⟨⟨hrank rfl t mem_cons_self, hp⟩, hrest, hrank'⟩, hkeys, ?_⟩
        rw [hcost, hlen, Nat.mul_succ]
        simp only [cost, if_true]
        omega
      · rw [heq]
        refine ⟨⟨hp, hrest, hrank'⟩, hkeys, ?_⟩
        rw [hcost, hlen, Nat.mul_succ]
        simp only [cost]
        omega

/-- The bound on the steps of an evaluation that sees the visited map `W`. -/
noncomputable def bound (c : Config) (R : Nat) (W : List Visited) (p : Proc) : Nat :=
  (c.users.length + 1 - W.length) * c.regionCost (c.lower R) + cost c R p

lemma Bounded.bound_lt (h : Bounded c R s s' p p') (hkeys : KeysOk c s.visited) :
    bound c R s'.visited p' < bound c R s.visited p := by
  have hpaid := h.paid
  have hle := Nat.mul_le_mul_right (c.regionCost (c.lower R)) hkeys.length_le
  have hle' := Nat.mul_le_mul_right (c.regionCost (c.lower R)) (h.keys hkeys).length_le
  unfold bound
  rw [Nat.mul_comm _ s.visited.length, Nat.mul_comm _ s'.visited.length] at hpaid
  rw [Nat.sub_mul, Nat.sub_mul]
  omega

/-- Steps within a region bring it closer to its end. -/
lemma Bounded.region {root W s₁} (hkeys : KeysOk c W)
    (h : Bounded c (c.graph.rank root.2) { s with visited := W } s₁ p p') :
    Bounded c R s { s₁ with visited := s.visited } (.region root W p)
      (.region root s₁.visited p') :=
  ⟨⟨h.keys hkeys, h.fits⟩, id, Nat.add_lt_add_right (h.bound_lt hkeys) _⟩

/-- A step of a part, where the rest of the evaluation stays as it is. -/
lemma Bounded.lift {P P'} (h : Bounded c R s s' p p') (k : Nat) (hfits : Fits c R P')
    (hcost : cost c R P = cost c R p + k) (hcost' : cost c R P' = cost c R p' + k) :
    Bounded c R s s' P P' := by
  refine ⟨hfits, h.keys, ?_⟩
  have hpaid := h.paid
  omega

lemma bounded_step (hg : c.graph.Marked) (hflat : c.graph.Flattens) (hrec : c.graph.Recursive)
    {a d} (hfits : Fits c R p) (hstep : c.step s p a = some (s', d, p')) :
    Bounded c R s s' p p' := by
  induction p generalizing R s a s' d p' with
  | done b | failed => simp [step] at hstep
  | union r n visited =>
    cases a with
    | go =>
      cases hstep
      exact bounded_of_within (within_resolveUnion hg hrec hfits)
    | _ => simp [step] at hstep
  | edges r todo evaluations visited =>
    have hevaluate : ∀ e todo, Fits c R (.edges r (e :: todo) evaluations visited) →
        Bounded c R s s (.edges r (e :: todo) evaluations visited)
          (.edges r todo (evaluations ++ [e]) visited) := by
      intro e todo hfits
      refine bounded_of_within ⟨fun e' he' => hfits e' ?_, ?_⟩
      · simp only [mem_append, mem_cons, not_mem_nil, or_false] at he' ⊢
        tauto
      · simp only [cost, map_cons, sum_cons, map_append, sum_append,
          map_nil, sum_nil]
        omega
    cases a with
    | go =>
      cases todo with
      | nil =>
        cases hstep
        exact bounded_of_within (within_startAll hfits)
      | cons e todo =>
        simp only [step] at hstep
        split at hstep <;> cases hstep
        · refine bounded_of_within (within_done ?_)
          simp only [cost]
          omega
        · refine bounded_of_within ⟨fun e' he' => hfits e' (mem_cons_of_mem _ he'), ?_⟩
          simp only [cost, map_cons, sum_cons]
          omega
        · exact hevaluate e todo hfits
    | miss =>
      cases todo with
      | nil => simp [step] at hstep
      | cons e todo =>
        cases hstep
        exact hevaluate e todo hfits
    | _ => cases todo <;> simp [step] at hstep
  | edge r e visited =>
    have hwithin := within_resolveEdge (r := r) hg hflat hfits
    cases a with
    | go =>
      cases hstep
      exact bounded_of_within hwithin
    | answer b =>
      simp only [step] at hstep
      split at hstep <;> cases hstep
      exact bounded_of_within (within_done (Nat.zero_lt_of_lt hwithin.2))
    | _ => simp [step] at hstep
  | recursiveEdge r e visited opt =>
    have hstart : Bounded c R s s (.recursiveEdge r e visited opt)
        (.store r e [] (.recursive r e visited opt)) := by
      refine bounded_of_within ⟨hfits, ?_⟩
      simp only [cost]
      omega
    cases a with
    | go =>
      simp only [step] at hstep
      split at hstep <;> cases hstep
      · refine bounded_of_within (within_done ?_)
        simp only [cost]
        omega
      · exact hstart
    | miss =>
      cases hstep
      exact hstart
    | _ => simp [step] at hstep
  | recursive r e visited opt =>
    obtain ⟨rfl, hrank⟩ := hfits
    cases a with
    | go =>
      cases hstep
      exact bounded_of_within (within_resolveRecursive hrank)
    | answer b =>
      simp only [step] at hstep
      split at hstep <;> cases hstep
      refine bounded_of_within (within_done ?_)
      simp only [cost]
      omega
    | _ => simp [step] at hstep
  | store r e dropped p ih =>
    cases a with
    | go =>
      obtain ⟨b, -, ⟨⟩⟩ := map_eq_some_iff.mp hstep
      refine ⟨trivial, fun hk => by rw [set_visited]; exact hk, ?_⟩
      rw [set_visited]
      simp only [cost]
      omega
    | down a =>
      obtain ⟨⟨s₁, d₁, p₁⟩, hinner, ⟨⟩⟩ := map_eq_some_iff.mp hstep
      have h := ih hfits hinner
      exact h.lift 1 h.fits rfl rfl
    | _ => simp [step] at hstep
  | or p q ihp ihq | and p q ihp ihq | diff p q ihp ihq =>
    cases a with
    | left a =>
      obtain ⟨⟨s₁, d₁, p₁⟩, hinner, ⟨⟩⟩ := map_eq_some_iff.mp hstep
      have h := ihp hfits.1 hinner
      exact h.lift (cost c R q) ⟨h.fits, hfits.2⟩ rfl rfl
    | right a =>
      obtain ⟨⟨s₁, d₁, q₁⟩, hinner, ⟨⟩⟩ := map_eq_some_iff.mp hstep
      have h := ihq hfits.2 hinner
      exact h.lift (cost c R p) ⟨hfits.1, h.fits⟩ (Nat.add_comm _ _) (Nat.add_comm _ _)
    | _ => simp [step] at hstep
  | iter visited rest onceValid lastErr p ih =>
    cases a with
    | go =>
      cases rest with
      | nil => simp [step] at hstep
      | cons t rest =>
        simp only [step, some.injEq] at hstep
        exact bounded_next hfits hstep
    | down a =>
      rw [step_iter_down] at hstep
      obtain ⟨⟨s₁, d₁, p₁⟩, hinner, ⟨⟩⟩ := map_eq_some_iff.mp hstep
      have h := ih hfits.1 hinner
      exact h.lift _ ⟨h.fits, hfits.2⟩ (Nat.add_comm _ _) (Nat.add_comm _ _)
    | _ => cases rest <;> simp [step] at hstep
  | region root W p ih =>
    cases a with
    | down a =>
      obtain ⟨⟨s₁, d₁, p₁⟩, hinner, ⟨⟩⟩ := map_eq_some_iff.mp hstep
      exact (ih hfits.2 hinner).region hfits.1
    | _ => simp [step] at hstep

/-- Until it has answered, an evaluation that did not fail can go on. -/
theorem exists_step (hok : p.ok = true) (hres : p.result = none) :
    ∃ a out, c.step s p a = some out := by
  induction p generalizing s with
  | done b => cases hres
  | failed => cases hok
  | union r n visited | edge r e visited | recursive r e visited opt => exact ⟨.go, _, rfl⟩
  | edges r todo evaluations visited =>
    cases todo with
    | nil => exact ⟨.go, _, rfl⟩
    | cons e todo => exact ⟨.miss, _, rfl⟩
  | recursiveEdge r e visited opt => exact ⟨.miss, _, rfl⟩
  | store r e dropped p ih =>
    cases hp : p.result with
    | some b => exact ⟨.go, _, by rw [step, hp]; rfl⟩
    | none =>
      obtain ⟨a, out, h⟩ := ih hok hp
      exact ⟨.down a, _, by rw [step, h]; rfl⟩
  | or p q ihp ihq | and p q ihp ihq | diff p q ihp ihq =>
    obtain ⟨hokp, hokq⟩ := Bool.and_eq_true_iff.mp hok
    cases hp : p.result with
    | none =>
      obtain ⟨a, out, h⟩ := ihp hokp hp
      exact ⟨.left a, _, by rw [step, h]; rfl⟩
    | some b =>
      cases hq : q.result with
      | none =>
        obtain ⟨a, out, h⟩ := ihq hokq hq
        exact ⟨.right a, _, by rw [step, h]; rfl⟩
      | some b' =>
        cases b <;> cases b' <;> simp [Proc.result, hp, hq, orResult, andResult, diffResult] at hres
  | iter visited rest onceValid lastErr p ih =>
    obtain ⟨hvalid, hokp⟩ := Bool.and_eq_true_iff.mp hok
    cases rest with
    | cons t rest => exact ⟨.go, _, rfl⟩
    | nil =>
      cases hp : p.result with
      | none =>
        obtain ⟨a, out, h⟩ := ih hokp hp
        exact ⟨.down a, _, by rw [step, h]; rfl⟩
      | some b => cases b <;> simp [Proc.result, hp, hvalid] at hres
  | region root W p ih =>
    obtain ⟨a, out, h⟩ := ih hok hres
    exact ⟨.down a, _, by rw [step, h]; rfl⟩

lemma run_start_length_le (hg : c.graph.Marked) (hflat : c.graph.Flattens)
    (hrec : c.graph.Recursive) {r cache acts σ}
    (hrun : Lts.run c.advance (c.start cache r) acts = some σ) :
    acts.length ≤ bound c 0 [] (c.resolveCheck r) := by
  have hstart : Fits c 0 (c.resolveCheck r) := by
    unfold resolveCheck
    split
    · trivial
    · split_ifs
      · trivial
      · trivial
      · exact .inl trivial
  have hinit : Fits c 0 (c.start cache r).2 ∧ KeysOk c (c.start cache r).1.visited :=
    ⟨hstart, nodup_nil, .wildcard "", fun v hv => by cases hv⟩
  have hstep : ∀ (σ : Shared × Proc) (a : Turn) (σ' : Shared × Proc),
      Fits c 0 σ.2 ∧ KeysOk c σ.1.visited → c.advance σ a = some σ' →
        Bounded c 0 σ.1 σ'.1 σ.2 σ'.2 := by
    intro σ a σ' h hadvance
    obtain ⟨out, hinner, rfl⟩ := map_eq_some_iff.mp hadvance
    exact bounded_step hg hflat hrec h.1 hinner
  have hle := Lts.run_length_le (μ := fun σ : Shared × Proc => bound c 0 σ.1.visited σ.2)
    (fun σ a σ' h hadvance => ⟨(hstep σ a σ' h hadvance).fits, (hstep σ a σ' h hadvance).keys h.2⟩)
    (fun σ a σ' h hadvance => (hstep σ a σ' h hadvance).bound_lt h.2)
    hinit hrun
  exact (Nat.le_add_right _ _).trans hle

end

end OpenFGA.Check
