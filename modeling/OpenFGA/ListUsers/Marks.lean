/-
  What the messages of a channel say about one user, and when the set operators get it right.

  A channel is sound about a user if it claims only what holds: a user that it reports has the
  relation, and so have all users under the typed wildcard that it does not except.  It is complete
  if the user is reported or under the wildcard whenever it has the relation, and is denied only
  where it has not.

  Intersections keep both.  A union counts the exceptions of its operands by messages, an
  exclusion looks neither at the status of the users of its base nor at exceptions that are no
  entries of their own, and leaves put what several expansions say on one channel.  For each of
  them there is a condition on the messages it receives under which it is right, and if what it
  receives is right, it is so only under that condition.
-/

import OpenFGA.ListUsers.Messages

namespace OpenFGA.ListUsers
open List Query

/-! ## Entries -/

section
variable {ms : List FoundUser} {m m' : FoundUser} {u : User} {s : Status}

lemma lastOf_append (ms : List FoundUser) (m : FoundUser) :
    lastOf (ms ++ [m]) = (lastOf ms).filter (·.user ≠ m.user) ++ [m] := by
  simp [lastOf]

lemma mem_of_mem_lastOf (h : m ∈ lastOf ms) : m ∈ ms := by
  induction ms using reverseRecOn with
  | nil => exact h
  | append_singleton ms m' ih =>
    rw [lastOf_append] at h
    rcases mem_append.mp h with h | h
    · exact mem_append_left _ (ih (mem_of_mem_filter h))
    · exact mem_append_right _ h

lemma exists_mem_lastOf (h : m ∈ ms) : ∃ m' ∈ lastOf ms, m'.user = m.user := by
  induction ms using reverseRecOn with
  | nil => exact absurd h not_mem_nil
  | append_singleton ms m' ih =>
    rw [lastOf_append]
    by_cases heq : m'.user = m.user
    · exact ⟨m', by simp, heq⟩
    · rcases mem_append.mp h with h | h
      · obtain ⟨m'', hm'', hu⟩ := ih h
        refine ⟨m'', mem_append_left _ (mem_filter.mpr ⟨hm'', ?_⟩), hu⟩
        simpa [hu] using fun h => heq h.symm
      · exact absurd (congrArg FoundUser.user (mem_singleton.mp h)).symm heq

lemma nodup_lastOf (ms : List FoundUser) : ((lastOf ms).map (·.user)).Nodup := by
  induction ms using reverseRecOn with
  | nil => exact nodup_nil
  | append_singleton ms m ih =>
    rw [lastOf_append, map_append]
    refine nodup_append.mpr ⟨ih.sublist (filter_sublist.map _), by simp, ?_⟩
    rintro u hu _ hm rfl
    obtain ⟨m', hm', rfl⟩ := mem_map.mp hu
    simp_all

lemma eq_of_mem_lastOf (h : m ∈ lastOf ms) (h' : m' ∈ lastOf ms) (hu : m.user = m'.user) : m = m' :=
  inj_on_of_nodup_map (nodup_lastOf ms) h h' hu

/-- The status under which a map of the messages holds the user. -/
def entry (ms : List FoundUser) (u : User) : Option Status :=
  ((lastOf ms).find? fun m => m.user = u).map (·.relationshipStatus)

lemma entry_eq_some :
    entry ms u = some s ↔ ∃ m ∈ lastOf ms, m.user = u ∧ m.relationshipStatus = s := by
  rw [entry, Option.map_eq_some_iff]
  constructor
  · rintro ⟨m, hfind, rfl⟩
    exact ⟨m, mem_of_find?_eq_some hfind, by simpa using find?_some hfind, rfl⟩
  · rintro ⟨m, hm, rfl, rfl⟩
    obtain ⟨m', hfind⟩ : ∃ m', (lastOf ms).find? (fun m' => m'.user = m.user) = some m' :=
      Option.isSome_iff_exists.mp (find?_isSome.mpr ⟨m, hm, by simp⟩)
    have huser : m'.user = m.user := by simpa using find?_some hfind
    obtain rfl := eq_of_mem_lastOf (mem_of_find?_eq_some hfind) hm huser
    exact ⟨m', hfind, rfl⟩

lemma entry_eq_none : entry ms u = none ↔ ∀ m ∈ ms, m.user ≠ u := by
  rw [entry, Option.map_eq_none_iff, find?_eq_none]
  constructor
  · rintro h m hm rfl
    obtain ⟨m', hm', hu⟩ := exists_mem_lastOf hm
    exact h m' hm' (by simpa using hu)
  · exact fun h m hm => by simpa using h m (mem_of_mem_lastOf hm)

lemma entry_ne_none : entry ms u ≠ none ↔ ∃ m ∈ lastOf ms, m.user = u := by
  rw [ne_eq, entry, Option.map_eq_none_iff, find?_eq_none]
  simp

lemma mem_found_of_entry (h : entry ms u = some .hasRelationship) : u ∈ found ms := by
  obtain ⟨m, hm, hu, hs⟩ := entry_eq_some.mp h
  exact mem_found.mpr ⟨m, mem_of_mem_lastOf hm, hs, hu⟩

lemma entry_ne_none_of_found (h : u ∈ found ms) : entry ms u ≠ none := by
  obtain ⟨m, hm, -, hu⟩ := mem_found.mp h
  exact fun hnone => entry_eq_none.mp hnone m hm hu

/-- The messages say that the user does not have the relation. -/
def Denies (ms : List FoundUser) (u : User) : Prop :=
  (∃ m ∈ ms, m.user = u ∧ m.relationshipStatus = .noRelationship) ∨ u ∈ excluded ms

instance (ms : List FoundUser) (u : User) : Decidable (Denies ms u) :=
  inferInstanceAs (Decidable (_ ∨ _))

lemma denies_of_entry (h : entry ms u = some .noRelationship) : Denies ms u := by
  obtain ⟨m, hm, hu, hs⟩ := entry_eq_some.mp h
  exact .inl ⟨m, mem_of_mem_lastOf hm, hu, hs⟩

end

/-! ## Tidy messages -/

namespace Query

variable (q : Query)

/-- Objects and typed wildcards have the type of the filter, and the typed wildcard is neither
    denied nor excepted. -/
def Tidy (ms : List FoundUser) : Prop :=
  ∀ m ∈ ms, (m.user.isObjectRelation = true ∨ m.user.type = q.userFilter.type) ∧
    (m.user = q.wildcardKey → m.relationshipStatus = .hasRelationship) ∧
    q.wildcardKey ∉ m.excludedUsers

variable {q} {ms ms' base subtract : List FoundUser} {operands : List (List FoundUser)}
  {m fu : FoundUser} {u : User}

lemma Tidy.perm (h : ms.Perm ms') (ht : q.Tidy ms') : q.Tidy ms :=
  fun m hm => ht m (h.mem_iff.mp hm)

lemma tidy_of (h : u.isObjectRelation = true ∨ u.type = q.userFilter.type) : q.Tidy [.of u] :=
  forall_mem_singleton.mpr ⟨h, fun _ => rfl, not_mem_nil⟩

lemma Tidy.wildcard (ht : q.Tidy ms) (hm : m ∈ ms) (hw : m.user.isTypedWildcard = true) :
    m.user = q.wildcardKey := by
  have htype := (ht m hm).1
  cases hu : m.user with
  | wildcard t => simpa [hu, User.isObjectRelation, User.type, wildcardKey] using htype
  | object _ | userset _ _ => simp [hu, User.isTypedWildcard] at hw

/-- The typed wildcard is in the map exactly if it was found. -/
lemma Tidy.any_lastOf (ht : q.Tidy ms) :
    ((lastOf ms).any fun m => m.user = q.wildcardKey) = true ↔ q.wildcardKey ∈ found ms := by
  rw [any_eq_true, mem_found]
  constructor
  · rintro ⟨m, hm, hu⟩
    have hu : m.user = q.wildcardKey := by simpa using hu
    exact ⟨m, mem_of_mem_lastOf hm, (ht m (mem_of_mem_lastOf hm)).2.1 hu, hu⟩
  · rintro ⟨m, hm, -, hu⟩
    obtain ⟨m', hm', hu'⟩ := exists_mem_lastOf hm
    exact ⟨m', hm', by simpa using hu'.trans hu⟩

lemma Tidy.not_mem_excluded (ht : q.Tidy ms) : q.wildcardKey ∉ excluded ms := by
  intro h
  obtain ⟨m, hm, hx⟩ := mem_flatMap.mp h
  exact (ht m hm).2.2 hx

lemma tidy_flatten (h : ∀ ms ∈ operands, q.Tidy ms) : q.Tidy operands.flatten := by
  intro m hm
  obtain ⟨ms, hms, hm⟩ := mem_flatten.mp hm
  exact h ms hms m hm

/-- What a union or an intersection sends. -/
lemma tidy_of_found (h : ∀ ms ∈ operands, q.Tidy ms)
    (hms : ∀ m ∈ ms, m.user ∈ found operands.flatten ∧ m.relationshipStatus = .hasRelationship ∧
      m.excludedUsers ⊆ excluded operands.flatten) : q.Tidy ms := by
  have hflatten := tidy_flatten h
  intro m hm
  obtain ⟨hfound, hstatus, hexcl⟩ := hms m hm
  obtain ⟨m', hm', -, hu⟩ := mem_found.mp hfound
  exact ⟨hu ▸ (hflatten m' hm').1, fun _ => hstatus, fun hw => hflatten.not_mem_excluded (hexcl hw)⟩

lemma tidy_unionOf (h : ∀ ms ∈ operands, q.Tidy ms) : q.Tidy (unionOf operands) := by
  refine tidy_of_found h fun m hm => ?_
  simp only [unionOf, mem_map] at hm
  obtain ⟨u, hu, rfl⟩ := hm
  exact ⟨hu, rfl, fun x hx => mem_dedup.mp (mem_of_mem_filter hx)⟩

lemma tidy_intersectionOf (h : ∀ ms ∈ operands, q.Tidy ms) :
    q.Tidy (q.intersectionOf operands) := by
  refine tidy_of_found h fun m hm => ?_
  simp only [intersectionOf, mem_map, mem_filter] at hm
  obtain ⟨u, hu, rfl⟩ := hm
  exact ⟨hu.1, rfl, fun x hx => mem_dedup.mp hx⟩

end Query

/-! ## What an exclusion sends -/

/-- What is sent about a user of the subtracted operand, where the base has the typed wildcard. -/
def FoundUser.flipped (s : FoundUser) : FoundUser :=
  match s.relationshipStatus with
  | .noRelationship => ⟨s.user, [], .hasRelationship⟩
  | .hasRelationship => ⟨s.user, [s.user], .noRelationship⟩

namespace Query

variable {q : Query} {base subtract : List FoundUser} {m fu : FoundUser} {u : User}

/-- The status of a user of the base, where it has no typed wildcard. -/
def statusBeside (q : Query) (subtract : List FoundUser) (fu : FoundUser) : Status :=
  match entry subtract fu.user with
  | some .hasRelationship => .noRelationship
  | some .noRelationship => .hasRelationship
  | none => if q.wildcardKey ∈ found subtract then .noRelationship else fu.relationshipStatus

lemma mem_differenceOf_wildcard (hb : q.Tidy base) (hs : q.Tidy subtract)
    (hwild : q.wildcardKey ∈ found base) : m ∈ q.differenceOf base subtract ↔
      (∃ fu ∈ lastOf base, entry subtract fu.user = none ∧
        m = ⟨fu.user, [], if q.wildcardKey ∈ found subtract then .noRelationship
          else .hasRelationship⟩) ∨
      ∃ s ∈ lastOf subtract, s.user ≠ q.wildcardKey ∧ m = s.flipped := by
  have hany := hb.any_lastOf.mpr hwild
  obtain ⟨w, hw, -⟩ := any_eq_true.mp hany
  have htyped : ∀ s ∈ lastOf subtract, s.user.isTypedWildcard = true ↔ s.user = q.wildcardKey := by
    refine fun s hs' => ⟨hs.wildcard (mem_of_mem_lastOf hs'), fun h => ?_⟩
    rw [h]
    rfl
  have hone : ∀ fu, m ∈ q.excludeOne (lastOf base) (lastOf subtract) fu ↔
      (entry subtract fu.user = none ∧
        m = ⟨fu.user, [], if q.wildcardKey ∈ found subtract then .noRelationship
          else .hasRelationship⟩) ∨
      ∃ s ∈ lastOf subtract, s.user ≠ q.wildcardKey ∧ m = s.flipped := by
    intro fu
    have hsub : ((lastOf subtract).find? fun m => m.user = fu.user).isSome =
        (entry subtract fu.user).isSome := by simp [entry]
    have hflip : ∀ s ∈ lastOf subtract, s.user ≠ q.wildcardKey → ∀ b,
        excludeFromWildcard fu.user b s = [s.flipped] := by
      intro s hs' hne b
      rw [excludeFromWildcard, if_neg fun h => hne ((htyped s hs').mp h), FoundUser.flipped]
      cases s.relationshipStatus <;> rfl
    have hkeep : ∀ s ∈ lastOf subtract, s.user = q.wildcardKey → ∀ b,
        excludeFromWildcard fu.user b s = if !b then [⟨fu.user, [], .noRelationship⟩] else [] :=
      fun s hs' heq b => by rw [excludeFromWildcard, if_pos ((htyped s hs').mpr heq)]
    simp only [excludeOne, hany, if_true, hsub, mem_append, mem_flatMap]
    constructor
    · rintro (h | ⟨s, hs', h⟩)
      · split_ifs at h with hout
        · rw [Bool.and_eq_true, Bool.not_eq_true', Bool.not_eq_true', ← Bool.not_eq_true,
            ← Bool.not_eq_true, hs.any_lastOf] at hout
          refine .inl ⟨by simpa using hout.1, ?_⟩
          rw [if_neg hout.2]
          exact mem_singleton.mp h
        · exact absurd h not_mem_nil
      · by_cases heq : s.user = q.wildcardKey
        · rw [hkeep s hs' heq] at h
          split_ifs at h with hout
          · have hw' : q.wildcardKey ∈ found subtract :=
              hs.any_lastOf.mp (any_eq_true.mpr ⟨s, hs', by simpa using heq⟩)
            refine .inl ⟨by simpa using hout, ?_⟩
            rw [if_pos hw']
            exact mem_singleton.mp h
          · exact absurd h not_mem_nil
        · rw [hflip s hs' heq] at h
          exact .inr ⟨s, hs', heq, mem_singleton.mp h⟩
    · rintro (⟨hnone, rfl⟩ | ⟨s, hs', hne, rfl⟩)
      · by_cases hw' : q.wildcardKey ∈ found subtract
        · obtain ⟨s, hs', heq⟩ := any_eq_true.mp (hs.any_lastOf.mpr hw')
          refine .inr ⟨s, hs', ?_⟩
          rw [if_pos hw', hkeep s hs' (by simpa using heq), hnone]
          exact mem_singleton_self _
        · have hno : ((lastOf subtract).any fun m => m.user = q.wildcardKey) = false :=
            Bool.eq_false_iff.mpr fun h => hw' (hs.any_lastOf.mp h)
          refine .inl ?_
          rw [if_neg hw', hnone, hno]
          exact mem_singleton_self _
      · exact .inr ⟨s, hs', by rw [hflip s hs' hne]; exact mem_singleton_self _⟩
  simp only [differenceOf, mem_flatMap, hone]
  constructor
  · rintro ⟨fu, hfu, h | h⟩
    · exact .inl ⟨fu, hfu, h⟩
    · exact .inr h
  · rintro (⟨fu, hfu, h⟩ | h)
    · exact ⟨fu, hfu, .inl h⟩
    · exact ⟨w, hw, .inr h⟩

lemma mem_differenceOf_plain (hb : q.Tidy base) (hs : q.Tidy subtract)
    (hwild : q.wildcardKey ∉ found base) : m ∈ q.differenceOf base subtract ↔
      ∃ fu ∈ lastOf base, m = ⟨fu.user, [], q.statusBeside subtract fu⟩ := by
  have hany : ((lastOf base).any fun m => m.user = q.wildcardKey) = false :=
    Bool.eq_false_iff.mpr fun h => hwild (hb.any_lastOf.mp h)
  have hone : ∀ fu, q.excludeOne (lastOf base) (lastOf subtract) fu =
      [⟨fu.user, [], q.statusBeside subtract fu⟩] := by
    intro fu
    have hsub : ((lastOf subtract).find? fun m => m.user = fu.user).isSome =
        (entry subtract fu.user).isSome := by simp [entry]
    have hentry : (((lastOf subtract).find? fun m => m.user = fu.user).map (·.relationshipStatus)) =
        entry subtract fu.user := rfl
    have hwild' : ((lastOf subtract).any fun m => m.user = q.wildcardKey) =
        decide (q.wildcardKey ∈ found subtract) := by
      rw [Bool.eq_iff_iff, hs.any_lastOf, decide_eq_true_eq]
    simp only [excludeOne, hany, hsub, hentry, hwild', statusBeside]
    cases hstatus : entry subtract fu.user with
    | none => by_cases hw : q.wildcardKey ∈ found subtract <;> simp [hw]
    | some s => cases s <;> simp
  simp only [differenceOf, mem_flatMap, hone, mem_singleton]

section
variable (hb : q.Tidy base) (hs : q.Tidy subtract)
include hb hs

lemma wildcard_found_differenceOf :
    q.wildcardKey ∈ found (q.differenceOf base subtract) ↔
      q.wildcardKey ∈ found base ∧ q.wildcardKey ∉ found subtract := by
  rw [mem_found]
  by_cases hwild : q.wildcardKey ∈ found base
  · simp only [mem_differenceOf_wildcard hb hs hwild, hwild, true_and]
    constructor
    · rintro ⟨m, ⟨fu, hfu, -, rfl⟩ | ⟨s, hs', hne, rfl⟩, hstatus, huser⟩
      · exact fun hw => by simp [hw] at hstatus
      · refine absurd ?_ hne
        rw [← huser, FoundUser.flipped]
        cases s.relationshipStatus <;> rfl
    · intro hno
      obtain ⟨fu, hfu, hu⟩ := any_eq_true.mp (hb.any_lastOf.mpr hwild)
      have hu : fu.user = q.wildcardKey := by simpa using hu
      have hnone : entry subtract fu.user = none := by
        refine entry_eq_none.mpr fun m hm huser => hno (mem_found.mpr ⟨m, hm, ?_, huser.trans hu⟩)
        exact (hs m hm).2.1 (huser.trans hu)
      exact ⟨_, .inl ⟨fu, hfu, hnone, rfl⟩, by simp [hno], hu⟩
  · simp only [mem_differenceOf_plain hb hs hwild, hwild, false_and, iff_false]
    rintro ⟨m, ⟨fu, hfu, rfl⟩, -, huser⟩
    exact hwild (hb.any_lastOf.mp (any_eq_true.mpr ⟨fu, hfu, by simpa using huser⟩))

variable (hu : u ≠ q.wildcardKey)
include hu

lemma found_differenceOf_wildcard (hwild : q.wildcardKey ∈ found base) :
    u ∈ found (q.differenceOf base subtract) ↔ entry subtract u = some .noRelationship ∨
      entry subtract u = none ∧ q.wildcardKey ∉ found subtract ∧ entry base u ≠ none := by
  rw [mem_found]
  simp only [mem_differenceOf_wildcard hb hs hwild, entry_ne_none, entry_eq_some]
  constructor
  · rintro ⟨m, ⟨fu, hfu, hnone, rfl⟩ | ⟨s, hs', hne, rfl⟩, hstatus, rfl⟩
    · exact .inr ⟨hnone, fun hw => by simp [hw] at hstatus, fu, hfu, rfl⟩
    · refine .inl ⟨s, hs', ?_⟩
      cases hs : s.relationshipStatus <;> simp [FoundUser.flipped, hs] at hstatus ⊢
  · rintro (⟨s, hs', rfl, hstatus⟩ | ⟨hnone, hno, fu, hfu, rfl⟩)
    · exact ⟨s.flipped, .inr ⟨s, hs', hu, rfl⟩, by simp [FoundUser.flipped, hstatus]⟩
    · exact ⟨_, .inl ⟨fu, hfu, hnone, rfl⟩, by simp [hno], rfl⟩

lemma excluded_differenceOf :
    u ∈ excluded (q.differenceOf base subtract) ↔
      q.wildcardKey ∈ found base ∧ entry subtract u = some .hasRelationship := by
  rw [excluded, mem_flatMap]
  by_cases hwild : q.wildcardKey ∈ found base
  · simp only [mem_differenceOf_wildcard hb hs hwild, hwild, true_and, entry_eq_some]
    constructor
    · rintro ⟨m, ⟨fu, hfu, hnone, rfl⟩ | ⟨s, hs', hne, rfl⟩, hx⟩
      · exact absurd hx not_mem_nil
      · refine ⟨s, hs', ?_⟩
        cases hs : s.relationshipStatus <;> simp [FoundUser.flipped, hs] at hx ⊢
        exact hx.symm
    · rintro ⟨s, hs', rfl, hstatus⟩
      exact ⟨s.flipped, .inr ⟨s, hs', hu, rfl⟩, by simp [FoundUser.flipped, hstatus]⟩
  · simp only [mem_differenceOf_plain hb hs hwild, hwild, false_and, iff_false]
    rintro ⟨m, ⟨fu, -, rfl⟩, hx⟩
    exact not_mem_nil hx

omit hu in
lemma found_differenceOf_plain (hwild : q.wildcardKey ∉ found base) :
    u ∈ found (q.differenceOf base subtract) ↔
      entry subtract u = some .noRelationship ∧ entry base u ≠ none ∨
      entry subtract u = none ∧ q.wildcardKey ∉ found subtract ∧
        entry base u = some .hasRelationship := by
  have hstatus : ∀ fu : FoundUser, q.statusBeside subtract fu = .hasRelationship ↔
      entry subtract fu.user = some .noRelationship ∨ entry subtract fu.user = none ∧
        q.wildcardKey ∉ found subtract ∧ fu.relationshipStatus = .hasRelationship := by
    intro fu
    rw [statusBeside]
    cases entry subtract fu.user with
    | none => by_cases hw : q.wildcardKey ∈ found subtract <;> simp [hw]
    | some s => cases s <;> simp
  have hentry : entry base u = some .hasRelationship ↔
      ∃ m ∈ lastOf base, m.user = u ∧ m.relationshipStatus = .hasRelationship := entry_eq_some
  rw [mem_found]
  simp only [mem_differenceOf_plain hb hs hwild, entry_ne_none, hentry]
  constructor
  · rintro ⟨m, ⟨fu, hfu, rfl⟩, hhas, rfl⟩
    rcases (hstatus fu).mp hhas with h | ⟨hnone, hno, h⟩
    · exact .inl ⟨h, fu, hfu, rfl⟩
    · exact .inr ⟨hnone, hno, fu, hfu, rfl, h⟩
  · rintro (⟨h, fu, hfu, rfl⟩ | ⟨hnone, hno, fu, hfu, rfl, h⟩)
    · exact ⟨_, ⟨fu, hfu, rfl⟩, (hstatus fu).mpr (.inl h), rfl⟩
    · exact ⟨_, ⟨fu, hfu, rfl⟩, (hstatus fu).mpr (.inr ⟨hnone, hno, h⟩), rfl⟩

/-- Whoever is denied by an exclusion is found by the subtracted operand, is under its typed
    wildcard or is denied by the base. -/
lemma of_denies_differenceOf (h : Denies (q.differenceOf base subtract) u) :
    entry subtract u = some .hasRelationship ∨
      entry subtract u = none ∧ q.wildcardKey ∈ found subtract ∨
      entry base u = some .noRelationship := by
  rcases h with ⟨m, hm, rfl, hno⟩ | h
  · by_cases hwild : q.wildcardKey ∈ found base
    · rcases (mem_differenceOf_wildcard hb hs hwild).mp hm with ⟨fu, -, hnone, rfl⟩ |
        ⟨s, hs', -, rfl⟩
      · refine .inr (.inl ⟨hnone, ?_⟩)
        by_contra hw
        simp [hw] at hno
      · refine .inl (entry_eq_some.mpr ⟨s, hs', ?_⟩)
        cases hs : s.relationshipStatus <;> simp [FoundUser.flipped, hs] at hno ⊢
    · obtain ⟨fu, hfu, rfl⟩ := (mem_differenceOf_plain hb hs hwild).mp hm
      simp only [statusBeside] at hno ⊢
      cases hentry : entry subtract fu.user with
      | none =>
        by_cases hw : q.wildcardKey ∈ found subtract
        · exact .inr (.inl ⟨rfl, hw⟩)
        · exact .inr (.inr (entry_eq_some.mpr ⟨fu, hfu, rfl, by simpa [hentry, hw] using hno⟩))
      | some s => cases s <;> simp [hentry] at hno ⊢
  · exact .inl ((excluded_differenceOf hb hs hu).mp h).2

omit hu in
lemma tidy_differenceOf : q.Tidy (q.differenceOf base subtract) := by
  intro m hm
  by_cases hwild : q.wildcardKey ∈ found base
  · rcases (mem_differenceOf_wildcard hb hs hwild).mp hm with ⟨fu, hfu, hnone, rfl⟩ |
      ⟨s, hs', hne, rfl⟩
    · refine ⟨(hb fu (mem_of_mem_lastOf hfu)).1, fun hu => if_neg fun hw => ?_, not_mem_nil⟩
      obtain ⟨s, hs', -, hsu⟩ := mem_found.mp hw
      exact entry_eq_none.mp hnone s hs' (hsu.trans hu.symm)
    · have htype := (hs s (mem_of_mem_lastOf hs')).1
      cases hstatus : s.relationshipStatus <;> simp
        [FoundUser.flipped, hstatus, hne, Ne.symm hne, htype]
  · obtain ⟨fu, hfu, rfl⟩ := (mem_differenceOf_plain hb hs hwild).mp hm
    refine ⟨(hb fu (mem_of_mem_lastOf hfu)).1, fun hu => absurd ?_ hwild, not_mem_nil⟩
    exact hb.any_lastOf.mp (any_eq_true.mpr ⟨fu, hfu, by simpa using hu⟩)

end

end Query

/-! ## Sound and complete messages -/

namespace Query

/-- The messages claim the user, or the typed wildcard without an exception for the user. -/
def Claims (q : Query) (ms : List FoundUser) (u : User) : Prop :=
  u ∈ found ms ∨ q.wildcardKey ∈ found ms ∧ u ∉ excluded ms

instance (q : Query) (ms : List FoundUser) (u : User) : Decidable (q.Claims ms u) :=
  inferInstanceAs (Decidable (_ ∨ _))

/-- What the messages claim of the user holds: it has the relation, which is `S`. -/
structure Sound (q : Query) (u : User) (ms : List FoundUser) (S : Prop) : Prop where
  found : u ∈ Query.found ms → S
  wildcard : q.wildcardKey ∈ Query.found ms → S ∨ u ∈ excluded ms

/-- If the user has the relation, the messages name it or the typed wildcard and do not deny it. -/
structure Complete (q : Query) (u : User) (ms : List FoundUser) (S : Prop) : Prop where
  covers : S → u ∈ found ms ∨ q.wildcardKey ∈ found ms
  denies : Denies ms u → ¬ S

variable {q : Query} {u : User} {ms ms' base subtract : List FoundUser}
  {operands : List (List FoundUser)} {S S' T : Prop}

lemma Sound.imp (h : q.Sound u ms S) (hS : S → S') : q.Sound u ms S' :=
  ⟨fun hu => hS (h.found hu), fun hw => (h.wildcard hw).imp_left hS⟩

lemma Complete.imp (h : q.Complete u ms S) (hS : S' → S) : q.Complete u ms S' :=
  ⟨fun hs => h.covers (hS hs), fun hd hs => h.denies hd (hS hs)⟩

lemma Sound.claims (h : q.Sound u ms S) (hc : q.Claims ms u) : S :=
  hc.elim h.found fun ⟨hw, hx⟩ => (h.wildcard hw).resolve_right hx

lemma Complete.claims (h : q.Complete u ms S) (hS : S) : q.Claims ms u :=
  (h.covers hS).imp_right fun hw => ⟨hw, fun hx => h.denies (.inr hx) hS⟩

lemma found_perm (h : ms.Perm ms') : u ∈ found ms ↔ u ∈ found ms' := by
  simp only [mem_found, h.mem_iff]

lemma excluded_perm (h : ms.Perm ms') : u ∈ excluded ms ↔ u ∈ excluded ms' := by
  simp only [excluded, mem_flatMap, h.mem_iff]

lemma Sound.perm (h : ms.Perm ms') (hs : q.Sound u ms' S) : q.Sound u ms S where
  found hu := hs.found ((found_perm h).mp hu)
  wildcard hw := (hs.wildcard ((found_perm h).mp hw)).imp_right (excluded_perm h).mpr

lemma Complete.perm (h : ms.Perm ms') (hs : q.Complete u ms' S) : q.Complete u ms S where
  covers hS := (hs.covers hS).imp (found_perm h).mpr (found_perm h).mpr
  denies hd := hs.denies (hd.imp (fun ⟨m, hm, hu⟩ => ⟨m, h.mem_iff.mp hm, hu⟩) (excluded_perm h).mp)

/-! ## Several expansions on one channel -/

/-- A user that one of the expansions denies is claimed by none of the others. -/
def Settled (q : Query) (parts : List (List FoundUser)) (u : User) : Prop :=
  (∃ ms ∈ parts, Denies ms u) → ∀ ms ∈ parts, Denies ms u ∨ ¬ q.Claims ms u

instance (q : Query) (parts : List (List FoundUser)) (u : User) : Decidable (q.Settled parts u) :=
  inferInstanceAs (Decidable (_ → _))

section
variable {α : Type} {xs : List α} {f : α → List FoundUser} {P : α → Prop}

lemma denies_flatten : Denies operands.flatten u ↔ ∃ ms ∈ operands, Denies ms u := by
  simp only [Denies, excluded, mem_flatten, mem_flatMap]
  constructor
  · rintro (⟨m, ⟨ms, hms, hm⟩, h⟩ | ⟨m, ⟨ms, hms, hm⟩, h⟩)
    · exact ⟨ms, hms, .inl ⟨m, hm, h⟩⟩
    · exact ⟨ms, hms, .inr ⟨m, hm, h⟩⟩
  · rintro ⟨ms, hms, ⟨m, hm, h⟩ | ⟨m, hm, h⟩⟩
    · exact .inl ⟨m, ⟨ms, hms, hm⟩, h⟩
    · exact .inr ⟨m, ⟨ms, hms, hm⟩, h⟩

lemma mem_excluded_flatten : u ∈ excluded operands.flatten ↔ ∃ ms ∈ operands, u ∈ excluded ms := by
  simp only [excluded, mem_flatMap, mem_flatten]
  exact ⟨fun ⟨m, ⟨ms, hms, hm⟩, hx⟩ => ⟨ms, hms, m, hm, hx⟩,
    fun ⟨ms, hms, m, hm, hx⟩ => ⟨m, ⟨ms, hms, hm⟩, hx⟩⟩

lemma found_flatten_map : u ∈ found (xs.map f).flatten ↔ ∃ x ∈ xs, u ∈ found (f x) := by
  simp [mem_found_flatten]

lemma excluded_flatten_map : u ∈ excluded (xs.map f).flatten ↔ ∃ x ∈ xs, u ∈ excluded (f x) := by
  simp [mem_excluded_flatten]

lemma sound_flatten (h : ∀ x ∈ xs, q.Sound u (f x) (P x)) :
    q.Sound u (xs.map f).flatten (∃ x ∈ xs, P x) where
  found hu := by
    obtain ⟨x, hx, hu⟩ := found_flatten_map.mp hu
    exact ⟨x, hx, (h x hx).found hu⟩
  wildcard hw := by
    obtain ⟨x, hx, hw⟩ := found_flatten_map.mp hw
    exact ((h x hx).wildcard hw).imp (⟨x, hx, ·⟩) fun hex => excluded_flatten_map.mpr ⟨x, hx, hex⟩

lemma complete_flatten (h : ∀ x ∈ xs, q.Complete u (f x) (P x))
    (hsettled : q.Settled (xs.map f) u) :
    q.Complete u (xs.map f).flatten (∃ x ∈ xs, P x) where
  covers := by
    rintro ⟨x, hx, hP⟩
    exact ((h x hx).covers hP).imp (fun hu => found_flatten_map.mpr ⟨x, hx, hu⟩)
      fun hw => found_flatten_map.mpr ⟨x, hx, hw⟩
  denies := by
    rintro hd ⟨x, hx, hP⟩
    rcases hsettled (denies_flatten.mp hd) (f x) (mem_map_of_mem hx) with hd | hno
    · exact (h x hx).denies hd hP
    · exact hno ((h x hx).claims hP)

/-- Expansions that are right each on its own are not right together otherwise. -/
lemma settled_of_complete (hs : ∀ x ∈ xs, q.Sound u (f x) (P x))
    (h : q.Complete u (xs.map f).flatten (∃ x ∈ xs, P x)) : q.Settled (xs.map f) u := by
  intro hd ms hms
  obtain ⟨x, hx, rfl⟩ := mem_map.mp hms
  refine or_iff_not_imp_left.mpr fun _ hclaims => h.denies (denies_flatten.mpr hd) ?_
  exact ⟨x, hx, (hs x hx).claims hclaims⟩

/-! ## Unions -/

/-- Soundness and completeness ask for different conditions. -/
inductive Need where
  | sound
  | complete
deriving DecidableEq, Repr

/-- The exceptions that a union passes on.  To be sound it has to pass on those for a user that no
    operand claims, to be complete no others. -/
def UnionKeeps (q : Query) (operands : List (List FoundUser)) (u : User) : Need → Prop
  | .sound => q.wildcardKey ∈ found operands.flatten → (∀ ms ∈ operands, ¬ q.Claims ms u) →
      (excluded operands.flatten).count u = operands.length
  | .complete => u ∈ excluded operands.flatten →
      (excluded operands.flatten).count u = operands.length → ∀ ms ∈ operands, ¬ q.Claims ms u

instance (q : Query) (operands : List (List FoundUser)) (u : User) :
    ∀ need, Decidable (q.UnionKeeps operands u need)
  | .sound => inferInstanceAs (Decidable (_ → _ → _))
  | .complete => inferInstanceAs (Decidable (_ → _ → _))

lemma mem_excluded_unionOf : u ∈ excluded (unionOf operands) ↔
    found operands.flatten ≠ [] ∧ u ∈ excluded operands.flatten ∧
      (excluded operands.flatten).count u = operands.length := by
  constructor
  · intro h
    obtain ⟨m, hm, hu⟩ := mem_flatMap.mp h
    simp only [unionOf, mem_map] at hm
    obtain ⟨x, hx, rfl⟩ := hm
    obtain ⟨hu, hcount⟩ := mem_filter.mp hu
    exact ⟨ne_nil_of_mem hx, mem_dedup.mp hu, of_decide_eq_true hcount⟩
  · rintro ⟨hne, hu, hcount⟩
    obtain ⟨x, hx⟩ := exists_mem_of_ne_nil _ hne
    exact mem_flatMap.mpr ⟨_, mem_map_of_mem hx,
      mem_filter.mpr ⟨mem_dedup.mpr hu, decide_eq_true hcount⟩⟩

lemma sound_unionOf (h : ∀ x ∈ xs, q.Sound u (f x) (P x))
    (hkeeps : q.UnionKeeps (xs.map f) u .sound) :
    q.Sound u (unionOf (xs.map f)) (∃ x ∈ xs, P x) where
  found hu := (sound_flatten h).found (found_unionOf.mp hu)
  wildcard hw := by
    have hw := found_unionOf.mp hw
    refine or_iff_not_imp_left.mpr fun hno => ?_
    have hx := ((sound_flatten h).wildcard hw).resolve_left hno
    refine mem_excluded_unionOf.mpr ⟨ne_nil_of_mem hw, hx, hkeeps hw ?_⟩
    exact forall_mem_map.mpr fun x hx hclaims => hno ⟨x, hx, (h x hx).claims hclaims⟩

lemma complete_unionOf (h : ∀ x ∈ xs, q.Complete u (f x) (P x))
    (hkeeps : q.UnionKeeps (xs.map f) u .complete) :
    q.Complete u (unionOf (xs.map f)) (∃ x ∈ xs, P x) where
  covers := by
    rintro ⟨x, hx, hP⟩
    simp only [found_unionOf, found_flatten_map]
    exact ((h x hx).covers hP).imp (⟨x, hx, ·⟩) (⟨x, hx, ·⟩)
  denies := by
    rintro (⟨m, hm, -, hno⟩ | hx) ⟨x, hmem, hP⟩
    · simp only [unionOf, mem_map] at hm
      obtain ⟨x, -, rfl⟩ := hm
      cases hno
    · obtain ⟨-, hx, hcount⟩ := mem_excluded_unionOf.mp hx
      exact hkeeps hx hcount _ (mem_map_of_mem hmem) ((h x hmem).claims hP)

lemma unionKeeps_of_sound (hc : ∀ x ∈ xs, q.Complete u (f x) (P x))
    (h : q.Sound u (unionOf (xs.map f)) (∃ x ∈ xs, P x)) : q.UnionKeeps (xs.map f) u .sound := by
  intro hw hclaims
  have hx := (h.wildcard (found_unionOf.mpr hw)).resolve_left
    fun ⟨x, hx, hP⟩ => hclaims _ (mem_map_of_mem hx) ((hc x hx).claims hP)
  exact (mem_excluded_unionOf.mp hx).2.2

lemma unionKeeps_of_complete (hs : ∀ x ∈ xs, q.Sound u (f x) (P x))
    (h : q.Complete u (unionOf (xs.map f)) (∃ x ∈ xs, P x)) :
    q.UnionKeeps (xs.map f) u .complete := by
  intro hx hcount ms hms hclaims
  obtain ⟨x, hmem, rfl⟩ := mem_map.mp hms
  have hne : found (xs.map f).flatten ≠ [] := by
    rcases hclaims with hu | ⟨hw, -⟩
    · exact ne_nil_of_mem (found_flatten_map.mpr ⟨x, hmem, hu⟩)
    · exact ne_nil_of_mem (found_flatten_map.mpr ⟨x, hmem, hw⟩)
  exact h.denies (.inr (mem_excluded_unionOf.mpr ⟨hne, hx, hcount⟩))
    ⟨x, hmem, (hs x hmem).claims hclaims⟩

/-! ## Intersections -/

lemma found_intersectionOf : u ∈ found (q.intersectionOf (xs.map f)) ↔
    (∃ x ∈ xs, u ∈ found (f x)) ∧ (∀ x ∈ xs, u ∉ excluded (f x)) ∧
      ∀ x ∈ xs, u ∈ found (f x) ∨ q.wildcardKey ∈ found (f x) := by
  have hcount := count_eq_length_iff (xs.map f) u q.wildcardKey
  rw [forall_mem_map] at hcount
  rw [← found_flatten_map, ← hcount, mem_found]
  have hexcl : u ∉ excluded (xs.map f).flatten ↔ ∀ x ∈ xs, u ∉ excluded (f x) := by
    rw [excluded_flatten_map]
    simp
  rw [← hexcl]
  simp [intersectionOf, and_assoc]

lemma excludedUsers_of_mem_intersectionOf {m} (h : m ∈ q.intersectionOf operands) :
    m.excludedUsers = (excluded operands.flatten).dedup ∧
      m.relationshipStatus = .hasRelationship := by
  simp only [intersectionOf, mem_map] at h
  obtain ⟨x, -, rfl⟩ := h
  exact ⟨rfl, rfl⟩

lemma sound_intersectionOf (h : ∀ x ∈ xs, q.Sound u (f x) (P x)) :
    q.Sound u (q.intersectionOf (xs.map f)) (∀ x ∈ xs, P x) where
  found hu := by
    obtain ⟨-, hno, hall⟩ := found_intersectionOf.mp hu
    exact fun x hx => (h x hx).claims ((hall x hx).imp_right fun hw => ⟨hw, hno x hx⟩)
  wildcard hw := by
    obtain ⟨-, -, hall⟩ := found_intersectionOf.mp hw
    refine or_iff_not_imp_right.mpr fun hno x hx => ?_
    refine ((h x hx).wildcard ((hall x hx).elim id id)).resolve_right fun hex => hno ?_
    obtain ⟨m, hm, -⟩ := mem_found.mp hw
    refine mem_flatMap.mpr ⟨m, hm, ?_⟩
    rw [(excludedUsers_of_mem_intersectionOf hm).1]
    exact mem_dedup.mpr (excluded_flatten_map.mpr ⟨x, hx, hex⟩)

lemma complete_intersectionOf (hne : xs ≠ []) (htidy : ∀ x ∈ xs, q.Tidy (f x))
    (h : ∀ x ∈ xs, q.Complete u (f x) (P x)) :
    q.Complete u (q.intersectionOf (xs.map f)) (∀ x ∈ xs, P x) where
  covers hall := by
    have hcovers : ∀ x ∈ xs, u ∈ found (f x) ∨ q.wildcardKey ∈ found (f x) :=
      fun x hx => (h x hx).covers (hall x hx)
    by_cases hwild : ∀ x ∈ xs, q.wildcardKey ∈ found (f x)
    · obtain ⟨x, hx⟩ := exists_mem_of_ne_nil _ hne
      exact .inr (found_intersectionOf.mpr ⟨⟨x, hx, hwild x hx⟩,
        fun x hx => (htidy x hx).not_mem_excluded, fun x hx => .inl (hwild x hx)⟩)
    · push Not at hwild
      obtain ⟨x, hx, hno⟩ := hwild
      exact .inl (found_intersectionOf.mpr ⟨⟨x, hx, (hcovers x hx).resolve_right hno⟩,
        fun x hx hex => (h x hx).denies (.inr hex) (hall x hx), hcovers⟩)
  denies := by
    rintro (⟨m, hm, -, hno⟩ | hex) hall
    · rw [(excludedUsers_of_mem_intersectionOf hm).2] at hno
      cases hno
    · obtain ⟨m, hm, hex⟩ := mem_flatMap.mp hex
      rw [(excludedUsers_of_mem_intersectionOf hm).1, mem_dedup, excluded_flatten_map] at hex
      obtain ⟨x, hx, hex⟩ := hex
      exact (h x hx).denies (.inr hex) (hall x hx)

end

/-! ## Exclusions -/

/-- What an exclusion does not look at.  To be sound, whoever the base denies has to be
    subtracted anyway, or at least not to be resurfaced by the subtracted operand; to be complete,
    exceptions from the typed wildcard of the subtracted operand have to be entries of their own. -/
def ExclusionKeeps (q : Query) (base subtract : List FoundUser) (u : User) : Need → Prop
  | .sound =>
    if q.wildcardKey ∈ found base then
      entry base u = some .noRelationship ∨ entry base u = none ∧ u ∈ excluded base →
        entry subtract u = some .hasRelationship ∨
          entry subtract u = none ∧ q.wildcardKey ∈ found subtract
    else entry base u = some .noRelationship → entry subtract u ≠ some .noRelationship
  | .complete => q.Claims base u → q.wildcardKey ∈ found subtract → u ∈ excluded subtract →
      entry subtract u ≠ none

instance (q : Query) (base subtract : List FoundUser) (u : User) :
    ∀ need, Decidable (q.ExclusionKeeps base subtract u need)
  | .sound => inferInstanceAs (Decidable (if q.wildcardKey ∈ found base then (_ ∨ _ → _ ∨ _)
      else (_ → _ ≠ _)))
  | .complete => inferInstanceAs (Decidable (_ → _ → _ → _))

section
variable (htb : q.Tidy base) (hts : q.Tidy subtract) (hu : u ≠ q.wildcardKey)
include htb hts hu

lemma sound_differenceOf (hb : q.Sound u base S) (hs : q.Complete u subtract T)
    (hkeeps : q.ExclusionKeeps base subtract u .sound) :
    q.Sound u (q.differenceOf base subtract) (S ∧ ¬ T) := by
  -- whoever the subtracted operand denies or does not cover is not subtracted
  have hno : entry subtract u = some .noRelationship → ¬ T := fun h => hs.denies (denies_of_entry h)
  have hnone : entry subtract u = none → q.wildcardKey ∉ found subtract → ¬ T := fun hnone hw hT =>
    (hs.covers hT).elim (fun h => entry_ne_none_of_found h hnone) hw
  unfold ExclusionKeeps at hkeeps
  by_cases hwild : q.wildcardKey ∈ found base
  · rw [if_pos hwild] at hkeeps
    have hbase (h : ¬ (entry subtract u = some .hasRelationship ∨
        entry subtract u = none ∧ q.wildcardKey ∈ found subtract)) : S := by
      have hkept := mt hkeeps h
      push Not at hkept
      cases hentry : entry base u with
      | none => exact (hb.wildcard hwild).resolve_right (hkept.2 hentry)
      | some s =>
        cases s with
        | hasRelationship => exact hb.found (mem_found_of_entry hentry)
        | noRelationship => exact absurd hentry hkept.1
    refine ⟨fun hfound => ?_, fun hw => ?_⟩
    · rcases (found_differenceOf_wildcard htb hts hu hwild).mp hfound with h | ⟨h, hw, -⟩
      · exact ⟨hbase (by simp [h]), hno h⟩
      · exact ⟨hbase (by simp [h, hw]), hnone h hw⟩
    · obtain ⟨-, hw⟩ := (wildcard_found_differenceOf htb hts).mp hw
      cases hentry : entry subtract u with
      | none => exact .inl ⟨hbase (by simp [hentry, hw]), hnone hentry hw⟩
      | some s =>
        cases s with
        | hasRelationship => exact .inr ((excluded_differenceOf htb hts hu).mpr ⟨hwild, hentry⟩)
        | noRelationship => exact .inl ⟨hbase (by simp [hentry]), hno hentry⟩
  · rw [if_neg hwild] at hkeeps
    refine ⟨fun hfound => ?_, fun hw => ?_⟩
    · rcases (found_differenceOf_plain htb hts hwild).mp hfound with ⟨h, hsome⟩ | ⟨h, hw, hhas⟩
      · obtain ⟨s, hentry⟩ := Option.ne_none_iff_exists'.mp hsome
        cases s with
        | hasRelationship => exact ⟨hb.found (mem_found_of_entry hentry), hno h⟩
        | noRelationship => exact absurd h (hkeeps hentry)
      · exact ⟨hb.found (mem_found_of_entry hhas), hnone h hw⟩
    · exact absurd ((wildcard_found_differenceOf htb hts).mp hw).1 hwild

lemma complete_differenceOf (hb : q.Complete u base S) (hs : q.Sound u subtract T)
    (hkeeps : q.ExclusionKeeps base subtract u .complete) :
    q.Complete u (q.differenceOf base subtract) (S ∧ ¬ T) where
  covers := by
    rintro ⟨hS, hT⟩
    have hentry : entry subtract u ≠ some .hasRelationship :=
      fun h => hT (hs.found (mem_found_of_entry h))
    have hsub (hw : q.wildcardKey ∈ found subtract) : entry subtract u = some .noRelationship := by
      obtain ⟨s, h⟩ := Option.ne_none_iff_exists'.mp
        (hkeeps (hb.claims hS) hw ((hs.wildcard hw).resolve_left hT))
      cases s with
      | hasRelationship => exact absurd h hentry
      | noRelationship => exact h
    by_cases hwild : q.wildcardKey ∈ found base
    · by_cases hw : q.wildcardKey ∈ found subtract
      · exact .inl ((found_differenceOf_wildcard htb hts hu hwild).mpr (.inl (hsub hw)))
      · exact .inr ((wildcard_found_differenceOf htb hts).mpr ⟨hwild, hw⟩)
    · have hfound : u ∈ found base := (hb.covers hS).resolve_right hwild
      obtain ⟨s, hbase⟩ := Option.ne_none_iff_exists'.mp (entry_ne_none_of_found hfound)
      refine .inl ((found_differenceOf_plain htb hts hwild).mpr ?_)
      cases h : entry subtract u with
      | none =>
        refine .inr ⟨rfl, fun hw => absurd (hsub hw) (by simp [h]), ?_⟩
        cases s with
        | hasRelationship => exact hbase
        | noRelationship => exact absurd hS (hb.denies (denies_of_entry hbase))
      | some s' =>
        cases s' with
        | hasRelationship => exact absurd h hentry
        | noRelationship => exact .inl ⟨rfl, by simp [hbase]⟩
  denies := by
    rintro hd ⟨hS, hT⟩
    rcases of_denies_differenceOf htb hts hu hd with h | ⟨h, hw⟩ | h
    · exact hT (hs.found (mem_found_of_entry h))
    · exact hkeeps (hb.claims hS) hw ((hs.wildcard hw).resolve_left hT) h
    · exact hb.denies (denies_of_entry h) hS

lemma exclusionKeeps_of_sound (hb : q.Complete u base S)
    (h : q.Sound u (q.differenceOf base subtract) (S ∧ ¬ T)) :
    q.ExclusionKeeps base subtract u .sound := by
  unfold ExclusionKeeps
  split_ifs with hwild
  · intro hdenied
    have hS : ¬ S := hb.denies (hdenied.elim denies_of_entry fun h => .inr h.2)
    have hfound := mt (fun hf => (h.found hf).1) hS
    rw [found_differenceOf_wildcard htb hts hu hwild] at hfound
    push Not at hfound
    cases hentry : entry subtract u with
    | none =>
      refine .inr ⟨rfl, ?_⟩
      by_contra hw
      have hx := (h.wildcard ((wildcard_found_differenceOf htb hts).mpr ⟨hwild, hw⟩)).resolve_left
        fun h => hS h.1
      have := ((excluded_differenceOf htb hts hu).mp hx).2
      rw [hentry] at this
      cases this
    | some s =>
      cases s with
      | hasRelationship => exact .inl rfl
      | noRelationship => exact absurd hentry hfound.1
  · intro hdenied hno
    refine hb.denies (denies_of_entry hdenied) (h.found ?_).1
    exact (found_differenceOf_plain htb hts hwild).mpr (.inl ⟨hno, by simp [hdenied]⟩)

lemma exclusionKeeps_of_complete (hb : q.Sound u base S) (hs : q.Complete u subtract T)
    (h : q.Complete u (q.differenceOf base subtract) (S ∧ ¬ T)) :
    q.ExclusionKeeps base subtract u .complete := by
  intro hclaims hw hx hnone
  rcases h.covers ⟨hb.claims hclaims, hs.denies (.inr hx)⟩ with hf | hf
  · by_cases hwild : q.wildcardKey ∈ found base
    · simpa [hnone, hw] using (found_differenceOf_wildcard htb hts hu hwild).mp hf
    · simpa [hnone, hw] using (found_differenceOf_plain htb hts hwild).mp hf
  · exact ((wildcard_found_differenceOf htb hts).mp hf).2 hw

end

/-! ## Either need -/

/-- Of what an exclusion subtracts the converse is needed. -/
def Need.other : Need → Need
  | .sound => .complete
  | .complete => .sound

/-- The messages are right in what is needed of them. -/
def Right (q : Query) (u : User) (ms : List FoundUser) (S : Prop) : Need → Prop
  | .sound => q.Sound u ms S
  | .complete => q.Complete u ms S

section
variable {need : Need}

lemma Right.perm (h : ms.Perm ms') (hr : q.Right u ms' S need) : q.Right u ms S need := by
  cases need with
  | sound => exact Sound.perm h hr
  | complete => exact Complete.perm h hr

lemma Right.congr (hr : q.Right u ms S need) (hS : S ↔ S') : q.Right u ms S' need := by
  cases need with
  | sound => exact Sound.imp hr hS.mp
  | complete => exact Complete.imp hr hS.mpr

section
variable {α : Type} {xs : List α} {f : α → List FoundUser} {P : α → Prop}

lemma right_flatten (h : ∀ x ∈ xs, q.Right u (f x) (P x) need)
    (hsettled : need = .complete → q.Settled (xs.map f) u) :
    q.Right u (xs.map f).flatten (∃ x ∈ xs, P x) need := by
  cases need with
  | sound => exact sound_flatten h
  | complete => exact complete_flatten h (hsettled rfl)

lemma right_unionOf (h : ∀ x ∈ xs, q.Right u (f x) (P x) need)
    (hkeeps : q.UnionKeeps (xs.map f) u need) :
    q.Right u (unionOf (xs.map f)) (∃ x ∈ xs, P x) need := by
  cases need with
  | sound => exact sound_unionOf h hkeeps
  | complete => exact complete_unionOf h hkeeps

lemma right_intersectionOf (hne : xs ≠ []) (htidy : ∀ x ∈ xs, q.Tidy (f x))
    (h : ∀ x ∈ xs, q.Right u (f x) (P x) need) :
    q.Right u (q.intersectionOf (xs.map f)) (∀ x ∈ xs, P x) need := by
  cases need with
  | sound => exact sound_intersectionOf h
  | complete => exact complete_intersectionOf hne htidy h

end

/-- A union of operands that are right in both respects is right under its condition only. -/
theorem right_unionOf_iff {α : Type} {xs : List α} {f : α → List FoundUser} {P : α → Prop}
    (h : ∀ x ∈ xs, ∀ need, q.Right u (f x) (P x) need) (need : Need) :
    q.Right u (unionOf (xs.map f)) (∃ x ∈ xs, P x) need ↔ q.UnionKeeps (xs.map f) u need := by
  refine ⟨fun hr => ?_, right_unionOf fun x hx => h x hx need⟩
  cases need with
  | sound => exact unionKeeps_of_sound (fun x hx => h x hx .complete) hr
  | complete => exact unionKeeps_of_complete (fun x hx => h x hx .sound) hr

section
variable (htb : q.Tidy base) (hts : q.Tidy subtract) (hu : u ≠ q.wildcardKey)
include htb hts hu

lemma right_differenceOf (hb : q.Right u base S need) (hs : q.Right u subtract T need.other)
    (hkeeps : q.ExclusionKeeps base subtract u need) :
    q.Right u (q.differenceOf base subtract) (S ∧ ¬ T) need := by
  cases need with
  | sound => exact sound_differenceOf htb hts hu hb hs hkeeps
  | complete => exact complete_differenceOf htb hts hu hb hs hkeeps

/-- And so is an exclusion. -/
theorem right_differenceOf_iff (hb : ∀ need, q.Right u base S need)
    (hs : ∀ need, q.Right u subtract T need) (need : Need) :
    q.Right u (q.differenceOf base subtract) (S ∧ ¬ T) need ↔
      q.ExclusionKeeps base subtract u need := by
  refine ⟨fun hr => ?_, right_differenceOf htb hts hu (hb need) (hs need.other)⟩
  cases need with
  | sound => exact exclusionKeeps_of_sound htb hts hu (hb .complete) hr
  | complete => exact exclusionKeeps_of_complete htb hts hu (hb .sound) (hs .complete) hr

end

end

end Query

end OpenFGA.ListUsers
