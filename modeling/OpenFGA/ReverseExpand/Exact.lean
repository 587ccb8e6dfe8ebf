/-
  Reverse expansion is sound and complete.

  A call carries no mark only if the user is in the userset that it expands.  What the calls have
  found and not yet expanded is owed by some task: a call that finds its userset visited may
  end, because the call that entered it owes everything that it leads to.
-/

import OpenFGA.ReverseExpand.Edges

namespace OpenFGA.ReverseExpand

open AuthorizationModel TypeSystem
open ListObjects (ResultStatus)
open List

/-! ## Soundness -/

/-- The user is in the userset that an unmarked call expands. -/
def Query.Sound (q : Query) (N : Object → String → Userset → Prop) (req : Request) : Prop :=
  req.intersectionOrExclusionInPreviousEdges = false → q.Holds N req.user

/-- The call expands this userset of the target. -/
structure Query.Candidate (q : Query) (N : Object → String → Userset → Prop) (req : Request)
    (o : Object) :
    Prop where
  user : req.user = .userset o q.relation
  type : o.type = q.objectType
  sound : q.Sound N req

/-- The call follows an edge that the relationship graph has. -/
structure Query.OnEdge (q : Query) (N : Object → String → Userset → Prop) (req : Request)
    (e : RelationshipEdge) : Prop where
  edge : req.edge = some e
  sound : req.intersectionOrExclusionInPreviousEdges = false → q.Holds N req.user ∧
    e.targetReferenceInvolvesIntersectionOrExclusion = false ∧
    ∃ y, ∃ e₀ ∈ q.typesystem.relationEdges (sourceUserRef req.user) y, RelationshipEdge.Le e₀ e

/-- What is known of a task. -/
def Query.Fits (q : Query) (N : Object → String → Userset → Prop) : Task → Prop
  | .execute req => q.Sound N req ∧
      ∀ e, req.edge = some e → ∃ o, req.user = .userset o e.targetReference.2
  | .trySendCandidate req o => q.Candidate N req o
  | .send req o => q.Candidate N req o
  | .loopOnEdges req => q.Sound N req
  | .followEdge req e => q.OnEdge N req e

/-- A result that needs no further evaluation is right. -/
def Query.Right (q : Query) (N : Object → String → Userset → Prop) (res : Result) : Prop :=
  res.object.type = q.objectType ∧ (res.status = .noFurtherEval →
    Related q.typesystem.toAuthorizationModel q.grants N q.user res.object q.relation)

section
variable {q : Query} {N : Object → String → Userset → Prop} {s s' : State} {sh sh' : Shared}
  {t t' : Task}
  {new tasks : List Task} {req : Request} {e : RelationshipEdge} {o : Object} {i : Nat} {p : Place}
  {k : Object × RelationshipEdge}

lemma fits_entered (h : q.Sound N req) : q.Fits N (q.entered req) := by
  unfold Query.entered
  split
  · next huser =>
    split
    next hmatch => exact ⟨by rw [huser, hmatch.1], hmatch.2, h⟩
    · exact h
  · exact h

lemma fits_dispatched (h : q.OnEdge N req e) (ht : ∃ o, q.Follows req.user e o ∧
    t = .execute { req with user := .userset o e.targetReference.2 }) : q.Fits N t := by
  obtain ⟨o, hfollows, rfl⟩ := ht
  refine ⟨fun hmark => ?_, fun e' he' => ?_⟩
  · obtain ⟨hx, hedge, y, e₀, he₀, hle⟩ := h.sound hmark
    exact related_of_follows he₀ hle hedge hx hfollows
  · have heq : e = e' := Option.some.inj (h.edge.symm.trans he')
    exact ⟨o, by rw [heq]⟩

/-- The edges of a sound call are those of the relationship graph. -/
lemma fits_edge (h : q.Sound N req) {edges}
    (hedges : q.typesystem.getPrunedRelationshipEdges q.targetObjRef
      (sourceUserRef req.user) = .ok edges)
    (he : e ∈ edges) : q.Fits N (.followEdge (Query.edgeRequest req e) e) := by
  refine ⟨rfl, fun hmark => ?_⟩
  obtain ⟨hreq, hedge⟩ := Bool.or_eq_false_iff.mp hmark
  refine ⟨h hreq, hedge, ?_⟩
  cases hrel : q.typesystem.getRelation q.targetObjRef.1 q.targetObjRef.2 with
  | error err =>
    simp [getPrunedRelationshipEdges, getRelationshipEdges, Explore.search, relationshipEdgesOf,
      hrel] at hedges
  | ok rel =>
    obtain ⟨edges', V, hedges', hout⟩ :=
      getPrunedRelationshipEdges_spec hrel (sourceUserRef req.user)
    rw [hedges'] at hedges
    cases hedges
    rcases hout.sound e he with ⟨i, hi, -⟩ | ⟨y, -, -, e₀, he₀, hle⟩
    · exact absurd hi not_mem_nil
    · exact ⟨y, e₀, he₀, hle⟩

/-- The status of a candidate says whether a call was marked. -/
lemma right_of_candidate (h : q.Candidate N req o) : q.Right N ⟨o, req.status⟩ := by
  refine ⟨h.type, fun hstatus => ?_⟩
  have hmark : req.intersectionOrExclusionInPreviousEdges = false := by
    cases hmark : req.intersectionOrExclusionInPreviousEdges with
    | false => rfl
    | true => simp [Request.status, hmark] at hstatus
  have hholds := h.sound hmark
  rwa [h.user] at hholds

theorem Moves.fits (h : Moves q sh t sh' new) (ht : q.Fits N t)
    (hright : ∀ res ∈ sh.results, q.Right N res) :
    (∀ t' ∈ new, q.Fits N t') ∧ ∀ res ∈ sh'.results, q.Right N res := by
  cases h with
  | exceeded | again _ _ | undefined | cancelled _ => exact ⟨forall_mem_nil _, hright⟩
  | enter _ _ _ | enterFirst _ _ =>
    exact ⟨forall_mem_singleton.mpr (fits_entered ht.1), hright⟩
  | known _ | dropped _ => exact ⟨forall_mem_singleton.mpr ht.sound, hright⟩
  | candidate _ => exact ⟨forall_mem_singleton.mpr ht, hright⟩
  | @sent req o =>
    refine ⟨forall_mem_singleton.mpr ht.sound, fun res hres => ?_⟩
    rcases mem_append.mp hres with hres | hres
    · exact hright res hres
    · obtain rfl := mem_singleton.mp hres
      exact right_of_candidate ht
  | edges hedges =>
    refine ⟨fun t' ht' => ?_, hright⟩
    obtain ⟨e, he, rfl⟩ := mem_map.mp ht'
    exact fits_edge ht hedges he
  | follow => exact ⟨fun t' ht' => fits_dispatched ht (mem_followEdge.mp ht'), hright⟩
  | readFails _ => exact ⟨fun t' ht' => fits_dispatched ht (follows_of_mem_readTuples ht'), hright⟩

/-! ## No object is sent twice -/

/-- The task is about to send this object. -/
def Task.sends (o : Object) : Task → Nat
  | .send _ o' => if o' = o then 1 else 0
  | _ => 0

/-- How often the object was sent. -/
def Shared.sent (sh : Shared) (o : Object) : Nat := (sh.results.map Result.object).count o

def Shared.known (sh : Shared) (o : Object) : Nat := if o ∈ sh.candidateObjects then 1 else 0

lemma sends_entered : (q.entered req).sends o = 0 := by
  unfold Query.entered
  split
  · split <;> rfl
  · rfl

lemma sum_sends_eq_zero (h : ∀ t ∈ new, t.sends o = 0) : (new.map (Task.sends o)).sum = 0 := by
  refine sum_eq_zero fun n hn => ?_
  obtain ⟨t, ht, rfl⟩ := mem_map.mp hn
  exact h t ht

lemma sends_dispatched (h : ∃ o, q.Follows req.user e o ∧
    t = .execute { req with user := .userset o e.targetReference.2 }) : t.sends o = 0 := by
  obtain ⟨o', -, rfl⟩ := h
  rfl

/-- An object is sent at most once for each time it becomes a candidate. -/
lemma Moves.sent_le (h : Moves q sh t sh' new) :
    sh'.sent o + (new.map (Task.sends o)).sum + sh.known o ≤
      sh.sent o + t.sends o + sh'.known o := by
  cases h with
  | exceeded => exact Nat.le_refl _
  | again _ _ => exact Nat.le_refl _
  | enter _ _ _ | enterFirst _ _ =>
    rw [map_singleton, sum_singleton, sends_entered]
    exact Nat.le_refl _
  | known _ => exact Nat.le_refl _
  | @candidate req o' ho' =>
    by_cases heq : o' = o
    · subst heq
      simp [Shared.sent, Shared.known, Task.sends, ho']
    · have hne : o ≠ o' := fun h => heq h.symm
      simp [Shared.sent, Shared.known, Task.sends, heq, hne]
  | @sent req o' =>
    have hcount : [o'].count o = if o' = o then 1 else 0 := by
      rw [count_singleton]
      simp
    simp only [Shared.sent, Shared.known, Task.sends, map_append, map_cons, map_nil,
      count_append, hcount, sum_cons, sum_nil]
    omega
  | undefined => exact Nat.le_refl _
  | edges _ =>
    rw [sum_sends_eq_zero]
    · exact Nat.le_refl _
    · intro t ht
      obtain ⟨e, -, rfl⟩ := mem_map.mp ht
      rfl
  | follow =>
    rw [sum_sends_eq_zero fun t ht => sends_dispatched (mem_followEdge.mp ht)]
    exact Nat.le_refl _
  | readFails _ =>
    rw [sum_sends_eq_zero fun t ht => sends_dispatched (follows_of_mem_readTuples ht)]
    exact Nat.le_refl _
  | dropped _ | cancelled _ => exact Nat.add_le_add_right (Nat.le_add_right _ _) _

/-! ## Completeness -/

/-- What an expansion comes across. -/
inductive Place where
  | user (x : User)
  | candidate (o : Object)
  | result (o : Object)

/-- The expansion of a user leads to other users, and that of a userset of the target to a
    result. -/
inductive Query.Leads (q : Query) : Place → Place → Prop where
  | follow {x y : User} : q.FollowsTo x y → Leads q (.user x) (.user y)
  | candidate {o : Object} : o.type = q.objectType →
      Leads q (.user (.userset o q.relation)) (.candidate o)
  | result {o : Object} : Leads q (.candidate o) (.result o)

/-- The task will find the place, unless another one does. -/
def Query.Owes (q : Query) : Task → Place → Prop
  | .execute req, p =>
    match req.edge with
    | none => q.Leads (.user req.user) p
    | some _ => p = .user req.user
  | .trySendCandidate req _, p => q.Leads (.user req.user) p
  | .send req o, p => p = .result o ∨ ∃ y, p = .user y ∧ q.FollowsTo req.user y
  | .loopOnEdges req, p => ∃ y, p = .user y ∧ q.FollowsTo req.user y
  | .followEdge req e, p => ∃ o, p = .user (.userset o e.targetReference.2) ∧ q.Follows req.user e o

/-- The calls have recorded the place. -/
def Shared.Reached (sh : Shared) : Place → Prop
  | .user x => ∃ o e, x = .userset o e.targetReference.2 ∧ visitedKey o e ∈ sh.visitedUsersets
  | .candidate o => o ∈ sh.candidateObjects
  | .result o => ∃ res ∈ sh.results, res.object = o

/-- What the calls have found is recorded or owed. -/
abbrev Query.Covers (q : Query) (tasks : List Task) (sh : Shared) : Prop :=
  Frontier.Covers q.Owes q.Leads (.user q.user) tasks sh.Reached

lemma leads_user {x} (h : q.Leads (.user x) p) :
    (∃ y, p = .user y ∧ q.FollowsTo x y) ∨
      ∃ o, x = .userset o q.relation ∧ o.type = q.objectType ∧ p = .candidate o := by
  cases h with
  | follow hy => exact .inl ⟨_, rfl, hy⟩
  | candidate htype => exact .inr ⟨_, rfl, htype, rfl⟩

/-- A call that has entered its userset owes whatever this leads to. -/
lemma owes_entered (h : q.Leads (.user req.user) p) : q.Owes (q.entered req) p := by
  unfold Query.entered
  split
  · next huser =>
    split
    · exact h
    · next hmatch =>
      refine (leads_user h).resolve_right ?_
      rintro ⟨o', huser', htype, -⟩
      obtain ⟨rfl, rfl⟩ := User.userset.inj (huser.symm.trans huser')
      exact hmatch ⟨rfl, htype⟩
  · next hno =>
    refine (leads_user h).resolve_right ?_
    rintro ⟨o', huser, -, -⟩
    exact hno _ _ huser

/-- The key of a call along an edge names the userset that it expands. -/
lemma exists_of_key (hkey : Query.key req = some k)
    (hreq : ∀ e, req.edge = some e → ∃ o, req.user = .userset o e.targetReference.2) :
    ∃ o e, req.edge = some e ∧ req.user = .userset o e.targetReference.2 ∧ k = visitedKey o e := by
  unfold Query.key at hkey
  split at hkey
  · next o r e huser hedge =>
    obtain ⟨o', huser'⟩ := hreq e hedge
    obtain ⟨rfl, rfl⟩ := User.userset.inj (huser.symm.trans huser')
    exact ⟨o, e, hedge, huser', (Option.some.inj hkey).symm⟩
  · cases hkey

lemma owes_execute_of_edge (hedge : req.edge = some e) (h : q.Owes (.execute req) p) :
    p = .user req.user := by
  simpa only [Query.Owes, hedge] using h

lemma edge_of_key_eq_none (hkey : Query.key req = none)
    (hreq : ∀ e, req.edge = some e → ∃ o, req.user = .userset o e.targetReference.2) :
    req.edge = none := by
  cases hedge : req.edge with
  | none => rfl
  | some e =>
    obtain ⟨o, huser⟩ := hreq e hedge
    simp [Query.key, huser, hedge] at hkey

lemma reached_enter (hkey : Query.key req = some k)
    (hreq : ∀ e, req.edge = some e → ∃ o, req.user = .userset o e.targetReference.2) :
    { sh with visitedUsersets := k :: sh.visitedUsersets : Shared }.Reached p ↔
      p = .user req.user ∨ sh.Reached p := by
  obtain ⟨o, e, -, huser, rfl⟩ := exists_of_key hkey hreq
  cases p with
  | candidate o' => simp [Shared.Reached]
  | result o' => simp [Shared.Reached]
  | user x =>
    simp only [Shared.Reached, mem_cons, huser]
    constructor
    · rintro ⟨o', e', rfl, hk | hk⟩
      · obtain ⟨rfl, heq⟩ := Prod.mk.inj hk
        have htarget : e'.targetReference = e.targetReference := congrArg (·.targetReference) heq
        exact .inl (by rw [htarget])
      · exact .inr ⟨o', e', rfl, hk⟩
    · rintro (hx | ⟨o', e', rfl, hk⟩)
      · cases hx
        exact ⟨o, e, rfl, .inl rfl⟩
      · exact ⟨o', e', rfl, .inr hk⟩

/-- A task is replaced by others that owe what it owed. -/
theorem Query.Covers.same (h : q.Covers tasks sh) (ht : tasks[i]? = some t)
    (howes : ∀ p, q.Owes t p → sh.Reached p ∨ ∃ t' ∈ new, q.Owes t' p) :
    q.Covers (Tasks.become tasks i new) sh :=
  h.become ht (fun _ hp => hp) howes (fun _ _ hp _ => .inl hp)

/-- Nothing that was found gets lost, as long as there are no errors. -/
theorem Moves.covers (h : Moves q sh t sh' new) (hfits : q.Fits N t) (herrs : sh'.errs = [])
    (ht : tasks[i]? = some t) (hcovers : q.Covers tasks sh) :
    q.Covers (Tasks.become tasks i new) sh' := by
  cases h with
  | exceeded => cases herrs
  | again hkey hk =>
    obtain ⟨o, e, hedge, huser, rfl⟩ := exists_of_key hkey hfits.2
    refine Query.Covers.same hcovers ht fun p hp => .inl ?_
    rw [owes_execute_of_edge hedge hp]
    exact ⟨o, e, huser, hk⟩
  | @enter req k depth _ hkey _ =>
    obtain ⟨o, e, hedge, -, -⟩ := exists_of_key hkey hfits.2
    refine hcovers.become ht (fun p hp => (reached_enter hkey hfits.2).mpr (.inr hp))
      (fun p hp => .inl ((reached_enter hkey hfits.2).mpr (.inl (owes_execute_of_edge hedge hp))))
      (fun p p' hp hlead => ?_)
    rcases (reached_enter hkey hfits.2).mp hp with rfl | hp
    · exact .inr (.inr ⟨_, mem_singleton_self _, owes_entered hlead⟩)
    · exact .inl hp
  | @enterFirst req depth _ hkey =>
    have hedge := edge_of_key_eq_none hkey hfits.2
    refine Query.Covers.same hcovers ht fun p hp => .inr ⟨_, mem_singleton_self _, ?_⟩
    exact owes_entered (by simpa only [Query.Owes, hedge] using hp)
  | known ho =>
    refine Query.Covers.same hcovers ht fun p hp => ?_
    rcases leads_user hp with hy | ⟨o', huser, -, rfl⟩
    · exact .inr ⟨_, mem_singleton_self _, hy⟩
    · obtain ⟨rfl, -⟩ := User.userset.inj (hfits.user.symm.trans huser)
      exact .inl ho
  | @candidate req o ho =>
    refine hcovers.become ht (fun p hp => ?_) (fun p hp => ?_) (fun p p' hp hlead => ?_)
    · cases p with
      | user x => exact hp
      | candidate o' => exact mem_cons_of_mem _ hp
      | result o' => exact hp
    · rcases leads_user hp with hy | ⟨o', huser, -, rfl⟩
      · exact .inr ⟨_, mem_singleton_self _, .inr hy⟩
      · obtain ⟨rfl, -⟩ := User.userset.inj (hfits.user.symm.trans huser)
        exact .inl mem_cons_self
    · cases hlead with
      | follow _ => exact .inl hp
      | candidate _ => exact .inl hp
      | result =>
        rcases mem_cons.mp hp with rfl | hp
        · exact .inr (.inr ⟨_, mem_singleton_self _, .inl rfl⟩)
        · exact .inl hp
  | @sent req o =>
    have hmem : ∃ res ∈ sh.results ++ [⟨o, req.status⟩], res.object = o :=
      ⟨_, mem_append_right _ (mem_singleton_self _), rfl⟩
    refine hcovers.become ht (fun p hp => ?_) (fun p hp => ?_) (fun p p' hp hlead => ?_)
    · cases p with
      | user x => exact hp
      | candidate o' => exact hp
      | result o' =>
        obtain ⟨res, hres, hobject⟩ := hp
        exact ⟨res, mem_append_left _ hres, hobject⟩
    · rcases hp with rfl | hy
      · exact .inl hmem
      · exact .inr ⟨_, mem_singleton_self _, hy⟩
    · cases hlead with
      | follow _ => exact .inl hp
      | candidate _ => exact .inl hp
      | result => exact .inl hp
  | undefined => cases herrs
  | edges hedges =>
    refine Query.Covers.same hcovers ht fun p hp => .inr ?_
    obtain ⟨y, rfl, edges', hedges', e, he, o, hfollows, rfl⟩ := hp
    rw [hedges] at hedges'
    cases hedges'
    exact ⟨_, mem_map_of_mem he, o, rfl, hfollows⟩
  | @follow req e =>
    refine Query.Covers.same hcovers ht fun p hp => .inr ?_
    obtain ⟨o, rfl, hfollows⟩ := hp
    refine ⟨_, mem_followEdge.mpr ⟨o, hfollows, rfl⟩, ?_⟩
    simp only [Query.Owes, hfits.edge]
  | @readFails req e n err _ =>
    have hread := (append_eq_nil_iff.mp herrs).1
    unfold Query.readTuplesAndExecute at hread
    split at hread
    · cases hread
    · exact absurd (append_eq_nil_iff.mp hread).2 (cons_ne_nil _ _)
  | dropped hne => exact absurd herrs hne
  | cancelled _ => cases herrs

/-! ## Runs -/

/-- What holds in every state of an expansion. -/
structure Inv (q : Query) (N : Object → String → Userset → Prop) (s : State) : Prop where
  fits : ∀ t ∈ s.tasks, q.Fits N t
  right : ∀ res ∈ s.results, q.Right N res
  sent : ∀ o, s.sent o + (s.tasks.map (Task.sends o)).sum ≤ s.known o
  covers : s.errs = [] → q.Covers s.tasks s.toShared

lemma inv_start : Inv q N q.start where
  fits := by
    intro t ht
    obtain rfl := mem_singleton.mp ht
    refine ⟨fun _ => ?_, fun e he => nomatch he⟩
    cases huser : q.user with
    | object o => exact huser.symm
    | wildcard t => exact huser.symm
    | userset o r => exact related_iff.mpr (.inl huser)
  right := forall_mem_nil _
  sent _ := Nat.le_refl _
  covers _ :=
    { start := fun p hp => .inr ⟨_, mem_singleton_self _, hp⟩
      closed := by
        intro p p' hp
        cases p with
        | user x =>
          obtain ⟨o, e, -, hk⟩ := hp
          exact absurd hk not_mem_nil
        | candidate o => exact absurd hp not_mem_nil
        | result o =>
          obtain ⟨res, hres, -⟩ := hp
          exact absurd hres not_mem_nil }

lemma inv_step {a} (h : Inv q N s) (hstep : q.step s a = some s') : Inv q N s' := by
  obtain ⟨t, sh', new, ht, hmoves, rfl⟩ := step_cases hstep
  have hfits := h.fits t (mem_of_getElem? ht)
  obtain ⟨hnew, hright⟩ := hmoves.fits hfits h.right
  refine { fits := fun t' ht' => ?_, right := hright, sent := fun o => ?_,
           covers := fun herrs => ?_ }
  · rcases Tasks.mem_become ht' with ht' | ht'
    · exact h.fits t' ht'
    · exact hnew t' ht'
  · have hsum := Tasks.sum_become (Task.sends o) ht new
    have hmove := hmoves.sent_le (o := o)
    have hinv := h.sent o
    show sh'.sent o + ((Tasks.become s.tasks a.1 new).map (Task.sends o)).sum ≤ sh'.known o
    omega
  · exact hmoves.covers hfits herrs ht (h.covers (hmoves.errs_eq_nil herrs))

/-- Whatever the schedule, no object is sent twice, and a result without further evaluation
    is right.  If `Execute` returns nil, every object that has the relation was sent. -/
theorem execute_exact (q : Query) (M : Meaning q.typesystem.toAuthorizationModel q.grants)
    (schedule : List (Nat × Act)) (s : State) (hrun : Lts.run q.step q.start schedule = some s) :
    (s.succeeded = true → ∀ o, o.type = q.objectType → M.Has q.user o q.relation →
        ∃ res ∈ s.results, res.object = o) ∧
      (s.results.map Result.object).Nodup ∧
      ∀ res ∈ s.results, res.status = .noFurtherEval →
        res.object.type = q.objectType ∧ M.Has q.user res.object q.relation := by
  have hinv : Inv q (M.Not q.user) s := Lts.run_invariant' (fun _ _ _ => inv_step) inv_start hrun
  refine ⟨fun hdone o htype hhas => ?_, ?_, fun res hres hstatus => ?_⟩
  · rw [State.succeeded, Bool.and_eq_true, List.isEmpty_iff, List.isEmpty_iff] at hdone
    have hcovers := hinv.covers hdone.2
    rw [hdone.1] at hcovers
    have hpath : Relation.ReflTransGen q.Leads (.user q.user) (.user (.userset o q.relation)) :=
      (path_of_related hhas htype).lift Place.user fun _ _ => .follow
    exact hcovers.of_path (.tail (.tail' hpath (.candidate htype)) .result)
  · refine nodup_iff_count_le_one.mpr fun o => ?_
    have hsent := hinv.sent o
    have hknown : s.known o ≤ 1 := by
      unfold Shared.known
      split <;> omega
    exact (Nat.le_add_right _ _).trans (hsent.trans hknown)
  · have hright := hinv.right res hres
    exact ⟨hright.1, hright.2 hstatus⟩

end

/-! ## An expansion through a group -/

private def staff : Object := ⟨"group", "staff"⟩

private def handbook : Object := ⟨"document", "handbook"⟩

/-- The members of a group view a document. -/
private def groupViewers : TypeSystem where
  typeDefinitions := [⟨"user", []⟩, ⟨"group", [("member", ⟨.this, [⟨"user", .object, ""⟩]⟩)]⟩,
    ⟨"document", [("viewer", ⟨.this, [⟨"group", .userset "member", ""⟩]⟩)]⟩]
  conditions := []
  valid := by decide
  validContext _ := true

private def staffQuery : Query where
  typesystem := groupViewers
  tuples := [⟨handbook, "viewer", .userset staff "member", "", ""⟩,
    ⟨staff, "member", .object ⟨"user", "anne"⟩, "", ""⟩]
  evaluation _ := .ok true
  resolveNodeLimit := 25
  objectType := "document"
  relation := "viewer"
  user := .object ⟨"user", "anne"⟩
  user_defined := nofun

private def staffRank (x : String × String) : Nat := if x.2 = "viewer" then 1 else 0

private def staffMeaning : Meaning staffQuery.typesystem.toAuthorizationModel staffQuery.grants :=
  .ofRank (ρ := fun x => staffRank (x.1.type, x.2))
    ((grantsAdmitted staffQuery).rank_lt_of_leads (show RefsRanked _ staffRank = true by rfl))

/-- Each task goes on in turn until none is left. -/
theorem execute_exact_staff :
    ∃ s, Lts.run staffQuery.step staffQuery.start (replicate 10 (0, .go)) = some s ∧
      s.succeeded = true ∧ ∃ res ∈ s.results, res.object = handbook := by
  obtain ⟨s, hrun, hdone⟩ : ∃ s, Lts.run staffQuery.step staffQuery.start (replicate 10 (0, .go)) =
      some s ∧ s.succeeded = true := ⟨_, by rfl, by rfl⟩
  refine ⟨s, hrun, hdone, (execute_exact staffQuery staffMeaning _ s hrun).1 hdone handbook rfl ?_⟩
  have hmember : staffMeaning.Has staffQuery.user staff "member" :=
    Meaning.has_iff.mpr (.inr ⟨_, rfl, .inl ⟨⟨staff, "member", .object ⟨"user", "anne"⟩, "", ""⟩,
      by decide, by decide, rfl, rfl, by decide, rfl⟩⟩)
  exact Meaning.has_iff.mpr (.inr ⟨_, rfl, .inr (.inr ⟨staff, "member",
    ⟨⟨handbook, "viewer", .userset staff "member", "", ""⟩, by decide, by decide, rfl, rfl,
      by decide, rfl⟩,
    hmember⟩)⟩)

end OpenFGA.ReverseExpand
