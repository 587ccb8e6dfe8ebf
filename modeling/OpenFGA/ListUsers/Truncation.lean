/-
  The collector of `ListUsers` under a limit on the number of users.

  The collector keeps the last message about each user and stops reading when it has
  as many users as the response may hold.  Users that are marked as not having the
  relation take a place in this count and are left out of the response afterwards, so a
  response below the limit may miss users, and the last message about a user wins
  whatever the others said.
-/

import OpenFGA.ListUsers.Soundness

namespace OpenFGA.ListUsers
open List

/-- `m` is the last message about its user. -/
def LastAbout (ms : List FoundUser) (m : FoundUser) : Prop :=
  (ms.filter (·.user = m.user)).getLast? = some m

/-- The messages up to the one with which `limit` users have been named, where `read`
    has been read. -/
def untilLimit (limit : Nat) (read : List FoundUser) : List FoundUser → List FoundUser
  | [] => read
  | m :: ms =>
    if limit ≤ ((read ++ [m]).map (·.user)).dedup.length then read ++ [m]
    else untilLimit limit (read ++ [m]) ms

section
variable {ms : List FoundUser} {m m' : FoundUser}

lemma mem_lastOf_iff : m ∈ Query.lastOf ms ↔ LastAbout ms m := by
  unfold LastAbout
  induction ms using reverseRecOn with
  | nil => simp [Query.lastOf]
  | append_singleton ms m' ih =>
    rw [lastOf_append, mem_append, mem_filter, mem_singleton, filter_append, ih]
    by_cases heq : m'.user = m.user
    · simp [heq, eq_comm]
    · have hne : m ≠ m' := fun h => heq (h ▸ rfl)
      simp [heq, Ne.symm heq, hne]

lemma length_lastOf (ms : List FoundUser) :
    (Query.lastOf ms).length = (ms.map (·.user)).dedup.length := by
  have hperm : ((Query.lastOf ms).map (·.user)).Perm (ms.map (·.user)).dedup := by
    refine (perm_ext_iff_of_nodup (nodup_lastOf ms) (nodup_dedup _)).mpr fun u => ?_
    rw [mem_dedup, mem_map, mem_map]
    constructor
    · rintro ⟨m, hm, rfl⟩
      exact ⟨m, mem_of_mem_lastOf hm, rfl⟩
    · rintro ⟨m, hm, rfl⟩
      exact exists_mem_lastOf hm
  simpa using hperm.length_eq

lemma untilLimit_first (limit : Nat) (read ms : List FoundUser) :
    untilLimit limit read ms <+: read ++ ms := by
  induction ms generalizing read with
  | nil => simp [untilLimit]
  | cons m ms ih =>
    rw [untilLimit]
    split
    · exact ⟨ms, by simp⟩
    · simpa using ih (read ++ [m])

/-- The collector reads everything or has as many users as the limit allows. -/
lemma untilLimit_cases (limit : Nat) (read ms : List FoundUser) :
    untilLimit limit read ms = read ++ ms ∨
      limit ≤ (Query.lastOf (untilLimit limit read ms)).length := by
  induction ms generalizing read with
  | nil => simp [untilLimit]
  | cons m ms ih =>
    rw [untilLimit]
    split
    next h => exact .inr (by rwa [length_lastOf])
    · simpa using ih (read ++ [m])

/-- One message adds at most one user, so the limit is met and not passed. -/
lemma length_untilLimit_le {limit read}
    (h : (Query.lastOf read).length < limit) (ms : List FoundUser) :
    (Query.lastOf (untilLimit limit read ms)).length ≤ limit := by
  induction ms generalizing read with
  | nil => exact h.le
  | cons m ms ih =>
    rw [untilLimit, ← length_lastOf]
    split
    · rw [lastOf_append, length_append, length_singleton]
      exact Nat.succ_le_of_lt ((length_filter_le _ _).trans_lt h)
    next hlt => exact ih (not_le.mp hlt)

end

namespace Query
variable {q : Query} {σ : Schedule}

/-- What the collector holds are the last messages about the users it has read of. -/
lemma collect_eq (hmax : 0 < q.maxResults) (read ms : List FoundUser) :
    q.collect (lastOf read) ms = lastOf (untilLimit q.maxResults read ms) := by
  induction ms generalizing read with
  | nil => rfl
  | cons m ms ih =>
    simp only [collect, untilLimit]
    rw [← lastOf_append, ← length_lastOf, ih]
    simp only [hmax, decide_true, Bool.true_and, decide_eq_true_eq]
    split <;> rfl

/-- A response below the limit has every user about whom all messages are positive, and
    no response has a user about whom some message is negative. -/
def Exact (limit : Nat) (sent : List FoundUser) (users : List User) : Prop :=
  (users.length < limit → ∀ m ∈ sent,
    (∀ m' ∈ sent, m'.user = m.user → m'.relationshipStatus = .hasRelationship) → m.user ∈ users) ∧
  ∀ m ∈ sent, m.relationshipStatus = .noRelationship → m.user ∉ users

/-- Among the messages up to the one with which the limit of users is reached, the last
    one about a user is negative where any message about that user is; and if there is
    such a user, they name every user about whom all messages are positive. -/
structure NegationsStand (limit : Nat) (sent : List FoundUser) : Prop where
  last : ∀ m ∈ sent, m.relationshipStatus = .noRelationship →
    ∀ m', LastAbout (untilLimit limit [] sent) m' → m'.user = m.user →
      m'.relationshipStatus = .noRelationship
  room : (∃ m, LastAbout (untilLimit limit [] sent) m ∧ m.relationshipStatus = .noRelationship) →
    ∀ m ∈ sent, (∀ m' ∈ sent, m'.user = m.user → m'.relationshipStatus = .hasRelationship) →
      ∃ m' ∈ untilLimit limit [] sent, m'.user = m.user

lemma status_ne {s : Status} : s ≠ .noRelationship ↔ s = .hasRelationship := by
  cases s <;> simp

/-- A response returned without an error and without a deadline is exact exactly when the
    negations stand. -/
theorem respond_exact_iff {e : Expansion} {users : List User} (hmax : 0 < q.maxResults)
    (hdeadline : NoDeadline e.errs) (h : q.respond σ e = .ok users) :
    Exact q.maxResults e.sent users ↔ NegationsStand q.maxResults e.sent := by
  have hread := (untilLimit_first q.maxResults [] e.sent).subset
  have hcases := untilLimit_cases q.maxResults [] e.sent
  have hle : (lastOf (untilLimit q.maxResults [] e.sent)).length ≤ q.maxResults :=
    length_untilLimit_le hmax e.sent
  have hcollect := collect_eq hmax [] e.sent
  have husers := (of_respond hdeadline h).2
  rw [show lastOf [] = [] from rfl] at hcollect
  rw [nil_append] at hread hcases
  rw [hcollect] at husers
  generalize hr : untilLimit q.maxResults [] e.sent = read at *
  have hmem {m : FoundUser} (hm : m ∈ lastOf read) :
      m.user ∈ users ↔ m.relationshipStatus = .hasRelationship := by
    rw [husers]
    constructor
    · intro hu
      obtain ⟨m', hm', huser⟩ := mem_map.mp hu
      obtain ⟨hm', hstatus⟩ := mem_filter.mp hm'
      rw [← eq_of_mem_lastOf hm' hm huser]
      exact of_decide_eq_true hstatus
    · exact fun hs => mem_map_of_mem (mem_filter.mpr ⟨hm, decide_eq_true hs⟩)
  constructor
  · rintro ⟨hall, hnone⟩
    refine ⟨fun m hm hno m' hm' huser => ?_, fun ⟨m, hm, hno⟩ m' hm' hpos => ?_⟩
    · by_contra hyes
      rw [hr] at hm'
      refine hnone m hm hno (huser ▸ (hmem (mem_lastOf_iff.mpr hm')).mpr (status_ne.mp hyes))
    · rw [hr] at hm ⊢
      have hm := mem_lastOf_iff.mpr hm
      have hlt : users.length < q.maxResults := by
        rw [husers, length_map]
        refine lt_of_lt_of_le ?_ hle
        rw [length_filter_lt_length_iff_exists]
        exact ⟨m, hm, by simp [hno]⟩
      have hu := hall hlt m' hm' hpos
      rw [husers] at hu
      obtain ⟨m'', hm'', huser⟩ := mem_map.mp hu
      exact ⟨m'', mem_of_mem_lastOf (mem_of_mem_filter hm''), huser⟩
  · rintro ⟨hlast, hroom⟩
    rw [hr] at hlast hroom
    refine ⟨fun hlt m hm hpos => ?_, fun m hm hno hu => ?_⟩
    · have hnamed : ∃ m' ∈ read, m'.user = m.user := by
        rcases hcases with hall | hfull
        · exact ⟨m, hall ▸ hm, rfl⟩
        · refine hroom ?_ m hm hpos
          by_contra hnone
          push Not at hnone
          refine absurd hlt (not_lt.mpr (hfull.trans (le_of_eq ?_)))
          rw [husers, length_map, filter_eq_self.mpr fun m hm => ?_]
          exact decide_eq_true (status_ne.mp (hnone m (mem_lastOf_iff.mp hm)))
      obtain ⟨m', hm', huser⟩ := hnamed
      obtain ⟨m'', hm'', huser'⟩ := exists_mem_lastOf hm'
      rw [← huser, ← huser', hmem hm'']
      exact hpos m'' (hread (mem_of_mem_lastOf hm'')) (huser'.trans huser)
    · have hu' := hu
      rw [husers] at hu'
      obtain ⟨m', hm', huser⟩ := mem_map.mp hu'
      have hm' := mem_of_mem_filter hm'
      have := hlast m hm hno m' (mem_lastOf_iff.mp hm') huser
      rw [(hmem hm').mp (huser ▸ hu)] at this
      cases this

end Query

/-! ## A negated user takes a place -/

/-- `can_view: viewer but not blocked`, asked for at most `n` users. -/
private def viewersUpTo (n : Nat) : Query where
  typesys := {
    typeDefinitions := [⟨"user", []⟩, ⟨"document",
      [("viewer", ⟨.this, [⟨"user", .object, ""⟩]⟩),
        ("blocked", ⟨.this, [⟨"user", .object, ""⟩]⟩),
        ("can_view", ⟨.difference (.computedUserset "viewer") (.computedUserset "blocked"), []⟩)]⟩]
    conditions := []
    valid := by decide
    validContext _ := true }
  tuples := [⟨⟨"document", "1"⟩, "viewer", .object ⟨"user", "anne"⟩, "", ""⟩,
    ⟨⟨"document", "1"⟩, "viewer", .object ⟨"user", "bob"⟩, "", ""⟩,
    ⟨⟨"document", "1"⟩, "blocked", .object ⟨"user", "anne"⟩, "", ""⟩]
  failure _ _ := none
  evaluation _ := .ok true
  evaluationFailed _ := false
  userFilter := ⟨"user", ""⟩
  resolveNodeLimit := 25
  maxResults := n

/-- What the exclusion sends to the collector. -/
private def anneNotBob : List FoundUser :=
  [⟨.object ⟨"user", "anne"⟩, [], .noRelationship⟩, ⟨.object ⟨"user", "bob"⟩, [], .hasRelationship⟩]

theorem respond_exact_iff_room : Query.NegationsStand 3 anneNotBob :=
  (Query.respond_exact_iff (q := viewersUpTo 3) (σ := inOrder) (e := ⟨anneNotBob, false, []⟩)
    (by decide) (by simp [Query.NoDeadline])
    (show _ = Except.ok [User.object ⟨"user", "bob"⟩] from rfl)).mp
      (by simp [Query.Exact, anneNotBob])

/-- With room for one user the blocked viewer takes the place, and nobody is listed. -/
theorem listUsers_negated_takes_place :
    (viewersUpTo 1).listUsers inOrder ⟨"document", "1"⟩ "can_view" = .ok [] ∧
      ((viewersUpTo 1).expand inOrder 25 [] [] ⟨"document", "1"⟩ "can_view") =
        ⟨anneNotBob, false, []⟩ ∧ ¬ Query.Exact 1 anneNotBob [] := by
  refine ⟨by rfl, by rfl, fun h => ?_⟩
  have := h.1 (by decide) ⟨.object ⟨"user", "bob"⟩, [], .hasRelationship⟩ (by simp [anneNotBob])
    (by simp [anneNotBob])
  cases this

end OpenFGA.ListUsers
