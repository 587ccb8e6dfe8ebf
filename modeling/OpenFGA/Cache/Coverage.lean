/-
  Which changes a run of the cache controller covers.

  A run reads the newest page of the changelog, and does nothing if the newest change is not
  later than the one it has recorded.  So it misses a change with the timestamp of a recorded
  one, and a change that becomes visible below it; and if the oldest change of
  the page is old, it misses what lies below the page.  A changelog that grows at its end, with
  timestamps that increase, has none of this.
-/

import OpenFGA.Cache.Lifetimes

namespace OpenFGA.IteratorCache
open World List

/-! ## Coverage -/

section
variable {κ ρ : Type} (cfg : Config κ) (w : World κ ρ)

/-- The change is visible, and no run has seen it. -/
def Unseen (c : Change) : Prop := ⟨c, false⟩ ∈ w.changelog

/-- The change is younger than the TTL. -/
def Young (c : Change) : Prop := w.clock - cfg.iteratorCacheTTL < c.timestamp

/-- A run sets the marker of the store, or those of the change. -/
def Covered (c : Change) : Prop :=
  (w.nextInvalidation cfg).Sets cfg.iteratorCacheTTL none ∨
    ∀ e ∈ c.entityKeys, (w.nextInvalidation cfg).Sets cfg.iteratorCacheTTL (some e)

/-- A run covers what no earlier run has seen, unless it is too old to matter. -/
def CoversUnseen : Act κ ρ → Prop
  | .invalidate => ∀ c, Unseen w c → Young cfg w c → Covered cfg w c
  | _ => True

/-- A change of the page at or above a young one. -/
def Recent (d : Change) : Prop :=
  ∃ older newer, w.findChangesDescending.reverse = older ++ d :: newer ∧
    ∃ y ∈ older ++ [d], Young cfg w y

/-- If there is a young unseen change, the newest change is later than the recorded one; and
    the whole page is new enough, or recent changes have the keys of the unseen one. -/
def InSight : Act κ ρ → Prop
  | .invalidate => ∀ c, Unseen w c → Young cfg w c →
      (∃ newest ∈ w.findChangesDescending.head?,
        lastChangeTime w.cache w.clock < newest.timestamp) ∧
      ((∃ oldest ∈ w.findChangesDescending.getLast?, Young cfg w oldest) ∨
        (0 ≤ cfg.iteratorCacheTTL ∧ ∀ e ∈ c.entityKeys, ∃ d, Recent cfg w d ∧ e ∈ d.entityKeys))
  | _ => True

/-- A change becomes visible above all others, later than all of them and not in the future. -/
def Orderly : Act κ ρ → Prop
  | .commit n c => n = 0 ∧ 0 < c.timestamp ∧ c.timestamp ≤ w.clock ∧
      ∀ l ∈ w.changelog, l.change.timestamp < c.timestamp
  | _ => True

end

/-- What is left from the first element that stops on. -/
lemma mem_dropWhile_iff {α : Type} {p : α → Bool} {l d} :
    d ∈ l.dropWhile p ↔ ∃ us vs, l = us ++ d :: vs ∧ ∃ y ∈ us ++ [d], p y = false := by
  induction l with
  | nil => simp
  | cons a l ih =>
    rw [dropWhile_cons]
    by_cases ha : p a = true
    · rw [if_pos ha, ih]
      constructor
      · rintro ⟨us, vs, rfl, y, hy, hpy⟩
        exact ⟨a :: us, vs, rfl, y, mem_cons_of_mem _ hy, hpy⟩
      · rintro ⟨us, vs, heq, y, hy, hpy⟩
        cases us with
        | nil =>
          cases heq
          rw [nil_append, mem_singleton] at hy
          rw [hy, ha] at hpy
          cases hpy
        | cons b us =>
          cases heq
          rcases mem_cons.mp hy with rfl | hy
          · rw [ha] at hpy
            cases hpy
          · exact ⟨us, vs, rfl, y, hy, hpy⟩
    · rw [if_neg ha]
      constructor
      · intro hd
        obtain ⟨us, vs, heq⟩ := append_of_mem hd
        refine ⟨us, vs, heq, a, ?_, by simpa using ha⟩
        cases us with
        | nil | cons b us =>
          cases heq
          exact mem_cons_self
      · rintro ⟨us, vs, heq, -⟩
        rw [heq]
        simp

lemma length_dropWhile_eq_iff {α : Type} {p : α → Bool} {l : List α} :
    (l.dropWhile p).length = l.length ↔ ∀ a ∈ l.head?, p a = false := by
  cases l with
  | nil => simp
  | cons a l =>
    rw [dropWhile_cons]
    by_cases ha : p a = true
    · have hle := (dropWhile_suffix (l := l) p).length_le
      rw [if_pos ha]
      simp only [length_cons, head?_cons, Option.mem_some_iff, forall_eq', ha]
      constructor
      · intro h
        omega
      · intro h
        cases h
    · simp [ha]

section
variable {κ ρ : Type} {cfg : Config κ} {w : World κ ρ}

lemma recent_iff {d} : Recent cfg w d ↔ d ∈ w.findChangesDescending.reverse.dropWhile
    fun c => !decide (w.clock - cfg.iteratorCacheTTL < c.timestamp) := by
  rw [mem_dropWhile_iff]
  simp only [Recent, Young, Bool.not_eq_false', decide_eq_true_iff]

lemma recent_of_young {c} (hc : c ∈ w.findChangesDescending) (hyoung : Young cfg w c) :
    Recent cfg w c := by
  obtain ⟨us, vs, heq⟩ := append_of_mem (mem_reverse.mpr hc)
  exact ⟨us, vs, heq, c, by simp, hyoung⟩

lemma exists_entityKey (c : Change) : ∃ e, e ∈ c.entityKeys := ⟨_, mem_cons_self⟩

lemma nextInvalidation_cases (cfg : Config κ) (hpage : w.findChangesDescending ≠ []) :
    ((¬ ∃ newest ∈ w.findChangesDescending.head?,
        lastChangeTime w.cache w.clock < newest.timestamp) ∧ w.nextInvalidation cfg = .none) ∨
    ((∃ newest ∈ w.findChangesDescending.head?, lastChangeTime w.cache w.clock < newest.timestamp) ∧
      (∃ oldest ∈ w.findChangesDescending.getLast?, Young cfg w oldest) ∧
      w.nextInvalidation cfg = .full) ∨
    ((∃ newest ∈ w.findChangesDescending.head?, lastChangeTime w.cache w.clock < newest.timestamp) ∧
      (¬ ∃ oldest ∈ w.findChangesDescending.getLast?, Young cfg w oldest) ∧
      ∃ recent, w.nextInvalidation cfg = .only recent ∧ ∀ d, d ∈ recent ↔ Recent cfg w d) := by
  have hrecent : ∀ d, _ ↔ Recent cfg w d := fun d => recent_iff.symm
  unfold nextInvalidation
  unfold Young
  generalize w.findChangesDescending = page at *
  obtain ⟨newest, rest, rfl⟩ := exists_cons_of_ne_nil hpage
  have hhead : (∃ c ∈ (newest :: rest).head?, lastChangeTime w.cache w.clock < c.timestamp) ↔
      lastChangeTime w.cache w.clock < newest.timestamp := by simp
  have hfull : ((newest :: rest).reverse.dropWhile fun c =>
        !decide (w.clock - cfg.iteratorCacheTTL < c.timestamp)).length = (newest :: rest).length ↔
      ∃ oldest ∈ (newest :: rest).getLast?, w.clock - cfg.iteratorCacheTTL < oldest.timestamp := by
    have hlength : (newest :: rest).length = (newest :: rest).reverse.length :=
      length_reverse.symm
    rw [hlength, length_dropWhile_eq_iff, head?_reverse]
    rw [getLast?_eq_some_getLast (cons_ne_nil newest rest)]
    simp
  rw [hhead, ← hfull]
  unfold invalidation
  by_cases hlate : lastChangeTime w.cache w.clock < newest.timestamp
  · by_cases hlength : ((newest :: rest).reverse.dropWhile fun c =>
        !decide (w.clock - cfg.iteratorCacheTTL < c.timestamp)).length = (newest :: rest).length
    · refine .inr (.inl ⟨hlate, hlength, ?_⟩)
      simp only [hlate, not_true, if_false, hlength, if_true]
    · refine .inr (.inr ⟨hlate, hlength, _, ?_, hrecent⟩)
      simp only [hlate, not_true, if_false, hlength]
  · refine .inl ⟨hlate, ?_⟩
    simp only [hlate, not_false_eq_true, if_true]

/-- A change is covered if the run goes on and the page is young, or has the keys of the change. -/
lemma covered_iff {c} (hpage : w.findChangesDescending ≠ []) : Covered cfg w c ↔
    (∃ newest ∈ w.findChangesDescending.head?, lastChangeTime w.cache w.clock < newest.timestamp) ∧
    ((∃ oldest ∈ w.findChangesDescending.getLast?, Young cfg w oldest) ∨
      (0 ≤ cfg.iteratorCacheTTL ∧ ∀ e ∈ c.entityKeys, ∃ d, Recent cfg w d ∧ e ∈ d.entityKeys)) := by
  unfold Covered
  rcases nextInvalidation_cases cfg hpage with ⟨hlate, hinv⟩ | ⟨hlate, hyoung, hinv⟩ |
    ⟨hlate, hold, recent, hinv, hrecent⟩
  · rw [hinv]
    obtain ⟨e, he⟩ := exists_entityKey c
    constructor
    · rintro (h | h)
      · exact h.elim
      · exact (h e he).elim
    · exact fun h => absurd h.1 hlate
  · rw [hinv]
    exact ⟨fun _ => ⟨hlate, .inl hyoung⟩, fun _ => .inl rfl⟩
  · rw [hinv]
    constructor
    · rintro (⟨-, e, -, h⟩ | h)
      · cases h
      · obtain ⟨e₀, he₀⟩ := exists_entityKey c
        refine ⟨hlate, .inr ⟨(h e₀ he₀).1, fun e he => ?_⟩⟩
        obtain ⟨-, e', he', heq⟩ := h e he
        cases heq
        obtain ⟨d, hd, hed⟩ := mem_flatMap.mp he'
        exact ⟨d, (hrecent d).mp hd, hed⟩
    · rintro ⟨-, hyoung | ⟨httl, hkeys⟩⟩
      · exact absurd hyoung hold
      · refine .inr fun e he => ⟨httl, e, ?_, rfl⟩
        obtain ⟨d, hd, hed⟩ := hkeys e he
        exact mem_flatMap.mpr ⟨d, (hrecent d).mpr hd, hed⟩

lemma coversUnseen_iff {a} : CoversUnseen cfg w a ↔ InSight cfg w a := by
  cases a with
  | invalidate =>
    refine forall₃_congr fun c hc _ => covered_iff ?_
    have hne : w.changelog ≠ [] := ne_nil_of_mem hc
    intro hnil
    rw [findChangesDescending, map_eq_nil_iff, take_eq_nil_iff] at hnil
    exact hnil.elim (by decide) hne
  | _ => exact Iff.rfl

end

/-! ## Orderly changelogs -/

section
variable {κ ρ : Type} {cfg : Config κ} {w w' : World κ ρ}

/-- What holds as long as the changelog is orderly. -/
structure Ordered (w : World κ ρ) : Prop where
  increasing : w.changelog.Pairwise fun a b => b.change.timestamp < a.change.timestamp
  bounds : ∀ l ∈ w.changelog, 0 < l.change.timestamp ∧ l.change.timestamp ≤ w.clock
  later : ∀ a ∈ w.changelog, ∀ b ∈ w.changelog, a.seen = true → b.seen = false →
    a.change.timestamp < b.change.timestamp
  recorded : ∀ s, w.cache .changelog = some s →
    ∃ l ∈ w.changelog, l.seen = true ∧ s.value.lastModified = l.change.timestamp

/-- The recorded change is older than one that was not seen. -/
lemma Ordered.lastChangeTime_lt (h : Ordered w) {c} (hc : Unseen w c) :
    lastChangeTime w.cache w.clock < c.timestamp := by
  unfold lastChangeTime
  cases hget : w.cache.get w.clock .changelog with
  | none => exact (h.bounds _ hc).1
  | some e =>
    obtain ⟨s, hs, -, rfl⟩ := Expiring.Cache.get_eq_some.mp hget
    obtain ⟨l, hl, hseen, heq⟩ := h.recorded s hs
    show s.value.lastModified < c.timestamp
    rw [heq]
    exact h.later l hl _ hc hseen rfl

lemma Ordered.inSight (h : Ordered w) : InSight cfg w (.invalidate : Act κ ρ) := by
  intro c hc hyoung
  have httl : 0 ≤ cfg.iteratorCacheTTL := by
    have hle := (h.bounds _ hc).2
    unfold Young at hyoung
    simp only at hle
    omega
  have hrecorded := h.lastChangeTime_lt hc
  unfold Unseen at hc
  obtain ⟨newest, rest, heq⟩ := exists_cons_of_ne_nil (ne_nil_of_mem hc)
  refine ⟨⟨newest.change, ?_, ?_⟩, ?_⟩
  · rw [findChangesDescending, heq]
    rfl
  · have hinc := h.increasing
    rw [heq] at hinc hc
    rcases mem_cons.mp hc with rfl | hc
    · exact hrecorded
    · exact Int.lt_trans hrecorded ((pairwise_cons.mp hinc).1 _ hc)
  · have hsplit := take_append_drop defaultPageSize w.changelog
    have hinc := h.increasing
    rw [← hsplit] at hinc hc
    rcases mem_append.mp hc with hin | hout
    · have hpage : c ∈ w.findChangesDescending := mem_map.mpr ⟨_, hin, rfl⟩
      exact .inr ⟨httl, fun e he => ⟨c, recent_of_young hpage hyoung, he⟩⟩
    · -- the page is full of later changes
      have hne : w.findChangesDescending ≠ [] := by
        rw [findChangesDescending, heq]
        exact cons_ne_nil _ _
      obtain ⟨l, hl, holdest⟩ := mem_map.mp (getLast_mem hne)
      refine .inl ⟨_, getLast?_eq_some_getLast hne, ?_⟩
      rw [← holdest]
      exact Int.lt_trans hyoung ((pairwise_append.mp hinc).2.2 l hl _ hout)

variable [DecidableEq κ]

lemma World.step_changelog {a} (h : step cfg w a = some w') :
    (w'.changelog = w.changelog ∧ w'.cache .changelog = w.cache .changelog ∧ w.clock ≤ w'.clock) ∨
    (∃ n c, a = .commit n c ∧ w'.changelog = w.changelog.insertIdx n ⟨c, false⟩ ∧
      w'.cache = w.cache ∧ w'.clock = w.clock) ∨
    (a = .invalidate ∧ w'.changelog = w.changelog.map (fun l => { l with seen := true }) ∧
      w'.clock = w.clock ∧ w'.cache .changelog =
        recordChange w.cache w.clock cfg.queryCacheTTL w.findChangesDescending .changelog) := by
  have hfind : ∀ key keys, (findInCache w.cache w.clock key keys).2 .changelog =
      w.cache .changelog := by
    intro key keys
    rcases findInCache_cache w.cache w.clock key keys with h | h
    · rw [h]
    · rw [h]
      exact Expiring.Cache.delete_of_ne (by simp)
  cases a <;> simp only [step] at h
  case tick d =>
    cases h
    exact .inl ⟨rfl, rfl, by simp only; omega⟩
  case commit n c =>
    split_ifs at h
    cases h
    exact .inr (.inl ⟨n, c, rfl, rfl, rfl, rfl⟩)
  case read key =>
    split_ifs at h <;> cases h
    · exact .inl ⟨rfl, hfind _ _, Int.le_refl _⟩
    · exact .inl ⟨rfl, hfind _ _, Int.le_refl _⟩
  case stop i =>
    split at h
    · cases h
    next r hr =>
      split_ifs at h <;> cases h
      · exact .inl ⟨rfl, hfind _ _, Int.le_refl _⟩
      · exact .inl ⟨rfl, hfind _ _, Int.le_refl _⟩
  case flush i tuples random =>
    split at h
    · cases h
    next r hr =>
      split_ifs at h
      cases h
      exact .inl ⟨rfl, set_of_ne (by simp), Int.le_refl _⟩
  case discard i =>
    split_ifs at h
    cases h
    exact .inl ⟨rfl, rfl, Int.le_refl _⟩
  case invalidate =>
    cases h
    exact .inr (.inr ⟨rfl, rfl, rfl, Invalidation.apply_of_ne (by simp) (by simp)⟩)

lemma recordChange_changelog {cache : InMemoryCache κ ρ} {now ttl : Int} {changes : List Change}
    {s : Expiring.Slot ChangelogEntry}
    (hs : recordChange cache now ttl changes .changelog = some s) :
    cache .changelog = some s ∨ ∃ newest ∈ changes, s.value.lastModified = newest.timestamp := by
  cases changes with
  | nil => exact .inl hs
  | cons newest changes =>
    rcases Int.lt_or_le ttl 0 with hneg | hpos
    · rw [recordChange, set_of_neg hneg] at hs
      exact .inl hs
    · rw [recordChange, set_of_nonneg hpos, Expiring.Cache.set_same] at hs
      cases hs
      exact .inr ⟨newest, mem_cons_self, rfl⟩

theorem Ordered.step {a : Act κ ρ} (hw : Ordered w) (ha : Orderly w a)
    (h : step cfg w a = some w') : Ordered w' := by
  rcases step_changelog h with ⟨hlog, hrecord, hclock⟩ | ⟨n, c, rfl, hlog, hcache, hclock⟩ |
    ⟨rfl, hlog, hclock, hrecord⟩
  · constructor
    · rw [hlog]
      exact hw.increasing
    · intro l hl
      rw [hlog] at hl
      have hb := hw.bounds l hl
      exact ⟨hb.1, by omega⟩
    · rw [hlog]
      exact hw.later
    · rw [hlog, hrecord]
      exact hw.recorded
  · obtain ⟨rfl, hpos, hle, hlast⟩ := ha
    rw [insertIdx_zero] at hlog
    constructor
    · rw [hlog]
      exact pairwise_cons.mpr ⟨hlast, hw.increasing⟩
    · rw [hlog, hclock]
      exact forall_mem_cons.mpr ⟨⟨hpos, hle⟩, hw.bounds⟩
    · rw [hlog]
      intro a ha b hb hseen hunseen
      rcases mem_cons.mp ha with rfl | ha
      · cases hseen
      · rcases mem_cons.mp hb with rfl | hb
        · exact hlast a ha
        · exact hw.later a ha b hb hseen hunseen
    · rw [hlog, hcache]
      intro s hs
      obtain ⟨l, hl, hseen⟩ := hw.recorded s hs
      exact ⟨l, mem_cons_of_mem _ hl, hseen⟩
  · constructor
    · rw [hlog, pairwise_map]
      exact hw.increasing
    · rw [hlog, hclock, forall_mem_map]
      exact hw.bounds
    · rw [hlog]
      intro a _ b hb _ hunseen
      obtain ⟨l, -, rfl⟩ := mem_map.mp hb
      cases hunseen
    · rw [hlog, hrecord]
      intro s hs
      rcases recordChange_changelog hs with hold | ⟨newest, hnewest, heq⟩
      · obtain ⟨l, hl, -, heq⟩ := hw.recorded s hold
        exact ⟨_, mem_map.mpr ⟨l, hl, rfl⟩, rfl, heq⟩
      · obtain ⟨l, hl, rfl⟩ := mem_map.mp hnewest
        exact ⟨_, mem_map.mpr ⟨l, mem_of_mem_take hl, rfl⟩, rfl, heq⟩

omit [DecidableEq κ] in
lemma ordered_init : Ordered (init : World κ ρ) where
  increasing := List.Pairwise.nil
  bounds := nofun
  later := nofun
  recorded := nofun

/-- Every run of the controller covers the young changes that no earlier run has seen if and
    only if they are in sight; and they are if changes become visible in the order of
    their timestamps, which are different. -/
theorem controller_covers_iff (cfg : Config κ) (as : List (Act κ ρ)) :
    (Lts.Meets (step cfg) (CoversUnseen cfg) init as ↔
      Lts.Meets (step cfg) (InSight cfg) init as) ∧
    (Lts.Meets (step cfg) Orderly init as →
      Lts.Meets (step cfg) (CoversUnseen cfg) init as) := by
  have hiff : Lts.Meets (step cfg) (CoversUnseen cfg) init as ↔
      Lts.Meets (step cfg) (InSight cfg) init as :=
    ⟨Lts.Meets.mono fun _ _ => coversUnseen_iff.mp, Lts.Meets.mono fun _ _ => coversUnseen_iff.mpr⟩
  refine ⟨hiff, fun horderly => hiff.mpr ?_⟩
  refine Lts.Meets.mono_within (fun _ _ _ hw ha h => Ordered.step hw ha h) ?_ ordered_init horderly
  intro w a hw _
  cases a with
  | invalidate => exact hw.inSight
  | _ => trivial

end

-- Two changes with the same timestamp, and a run between them.

private def plainConfig : Config Unit where
  iteratorCacheTTL := 10
  queryCacheTTL := 10
  jitterPercentage := 0
  invalidEntityKeys _ := []

private def firstGrant : Change := ⟨5, "document:1", "viewer", "user:anne"⟩

private def secondGrant : Change := ⟨5, "document:2", "viewer", "user:anne"⟩

/-- The second change is young, visible and new to the run, which does nothing. -/
theorem run_misses_equal_timestamp :
    (Lts.run (step plainConfig) (init : World Unit Unit)
      [.tick 5, .commit 0 firstGrant, .invalidate, .commit 0 secondGrant]).map
        (fun w => (w.clock, w.changelog, w.nextInvalidation plainConfig)) =
      some (5, [⟨secondGrant, false⟩, ⟨firstGrant, true⟩], .none) := by
  decide

end OpenFGA.IteratorCache
