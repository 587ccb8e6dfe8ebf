/-
  OpenFGA.Lib.Run

  Finite runs of a partial step function `step : σ → α → Option σ`.

  A schedule is a list of actions; `run step s as` executes it and is `none`
  when some action is not enabled where the schedule takes it.  Quantifying
  over all schedules is quantifying over all interleavings.

  `Meets step ok s as` says that each action of the schedule satisfies `ok` in
  the state it is taken from.  The rules below are what the developments over it
  use: an invariant is proved for one step (`run_invariant`), a condition on steps
  that is exact for a property of the final state (`iff_meets`), and a measure
  that every step decreases, which bounds the length of every schedule
  (`run_length_le`) or, with values in a well-founded order, excludes infinite runs
  (`no_infinite_run`).  `Settles` puts these together for a system that has to come to an end.
-/

import Mathlib

namespace Lts

variable {σ α : Type*}

/-- Execute a schedule. -/
def run (step : σ → α → Option σ) : σ → List α → Option σ
  | s, [] => some s
  | s, a :: as => (step s a).bind fun s' => run step s' as

/-- Every action of the schedule meets `ok` in the state it is taken from. -/
def Meets (step : σ → α → Option σ) (ok : σ → α → Prop) : σ → List α → Prop
  | _, [] => True
  | s, a :: as => ok s a ∧ ∀ s', step s a = some s' → Meets step ok s' as

/-- `P` holds in every state that the schedule leads through. -/
def Always (step : σ → α → Option σ) (P : σ → Prop) : σ → List α → Prop
  | s, [] => P s
  | s, a :: as => P s ∧ ∀ s', step s a = some s' → Always step P s' as

/-- The system comes to an end on every schedule: schedules have bounded length, until the end some
    action is enabled, and what the system ends in is good. -/
structure Settles (step : σ → α → Option σ) (s : σ) (Ended Good : σ → Prop) : Prop where
  bounded : ∃ n, ∀ as s', run step s as = some s' → as.length ≤ n
  progress : ∀ as s', run step s as = some s' → ¬ Ended s' → ∃ a s'', step s' a = some s''
  good : ∀ as s', run step s as = some s' → Ended s' → Good s'

section
variable {step : σ → α → Option σ} {ok : σ → α → Prop} {s s' : σ} {a : α} {as : List α}
  {ok' : σ → α → Prop} {I : σ → Prop} {within : σ → α → Prop}

@[simp] lemma run_nil : run step s [] = some s := rfl

@[simp] lemma run_cons :
    run step s (a :: as) = (step s a).bind fun s' => run step s' as := rfl

lemma run_cons_eq_some :
    run step s (a :: as) = some s' ↔
      ∃ m, step s a = some m ∧ run step m as = some s' := by
  rw [run_cons, Option.bind_eq_some_iff]

lemma meets_true : Meets step (fun _ _ => True) s as := by
  induction as generalizing s with
  | nil => trivial
  | cons a as ih => exact ⟨trivial, fun _ _ => ih⟩

lemma Meets.mono (h : ∀ s a, ok s a → ok' s a) (hmeets : Meets step ok s as) :
    Meets step ok' s as := by
  induction as generalizing s with
  | nil => trivial
  | cons a as ih => exact ⟨h s a hmeets.1, fun s' hs' => ih (hmeets.2 s' hs')⟩

/-- The same where an invariant of the steps that meet the condition helps. -/
lemma Meets.mono_within (hstep : ∀ s a s', I s → ok s a → step s a = some s' → I s')
    (h : ∀ s a, I s → ok s a → ok' s a) (hs : I s) (hmeets : Meets step ok s as) :
    Meets step ok' s as := by
  induction as generalizing s with
  | nil => trivial
  | cons a as ih =>
    exact ⟨h s a hs hmeets.1, fun s' hs' => ih (hstep s a s' hs hmeets.1 hs') (hmeets.2 s' hs')⟩

theorem Meets.and (h : Meets step ok s as) (h' : Meets step ok' s as) :
    Meets step (fun s a => ok s a ∧ ok' s a) s as := by
  induction as generalizing s with
  | nil => trivial
  | cons a as ih => exact ⟨⟨h.1, h'.1⟩, fun s' hs' => ih (h.2 s' hs') (h'.2 s' hs')⟩

/-- Execute a schedule and test a decidable condition on the way. -/
def check (step : σ → α → Option σ) (ok : σ → α → Bool) : σ → List α → Bool
  | _, [] => true
  | s, a :: as => ok s a && ((step s a).all fun s' => check step ok s' as)

lemma meets_of_check {ok : σ → α → Bool} (h : check step ok s as = true) :
    Meets step (fun s a => ok s a = true) s as := by
  induction as generalizing s with
  | nil => trivial
  | cons a as ih =>
    rw [check, Bool.and_eq_true] at h
    refine ⟨h.1, fun s' hs' => ih ?_⟩
    rw [hs'] at h
    exact h.2

/-- Invariant rule: what every step that meets `ok` preserves holds at the end
    of every run whose steps meet `ok`. -/
theorem run_invariant (hstep : ∀ s a s', I s → ok s a → step s a = some s' → I s')
    (hs : I s) (hok : Meets step ok s as) (hrun : run step s as = some s') : I s' := by
  induction as generalizing s with
  | nil =>
    cases hrun
    exact hs
  | cons a as ih =>
    obtain ⟨m, hm, hrest⟩ := run_cons_eq_some.mp hrun
    exact ih (hstep s a m hs hok.1 hm) (hok.2 m hm) hrest

lemma run_invariant' (hstep : ∀ s a s', I s → step s a = some s' → I s')
    (hs : I s) (hrun : run step s as = some s') : I s' :=
  run_invariant (fun s a s' hI (_ : True) h => hstep s a s' hI h) hs meets_true hrun

/-- Exactness rule: steps that meet `ok` keep the invariant `I`, which implies `P`,
    and a step that does not leads into `B`, which no step leaves and which excludes
    `P`.  Then `P` holds at the end of a run exactly when all its steps
    meet `ok`.  The steps are those of a run that meets `within`. -/
lemma iff_meets_within {I P B : σ → Prop}
    (hstep : ∀ s a s', I s → within s a → ok s a → step s a = some s' → I s')
    (hbreak : ∀ s a s', I s → within s a → ¬ ok s a → step s a = some s' → B s')
    (hbroken : ∀ s a s', B s → within s a → step s a = some s' → B s')
    (hgood : ∀ s, I s → P s) (hbad : ∀ s, B s → ¬ P s)
    (hs : I s) (hwithin : Meets step within s as) (hrun : run step s as = some s') :
    P s' ↔ Meets step ok s as := by
  induction as generalizing s with
  | nil =>
    cases hrun
    exact ⟨fun _ => trivial, fun _ => hgood _ hs⟩
  | cons a as ih =>
    obtain ⟨m, hm, hrest⟩ := run_cons_eq_some.mp hrun
    by_cases hok : ok s a
    · rw [ih (hstep s a m hs hwithin.1 hok hm) (hwithin.2 m hm) hrest]
      refine ⟨fun h => ⟨hok, fun m' hm' => ?_⟩, fun h => h.2 m hm⟩
      rw [hm] at hm'
      cases hm'
      exact h
    · have hend := run_invariant hbroken (hbreak s a m hs hwithin.1 hok hm) (hwithin.2 m hm) hrest
      exact ⟨fun h => absurd h (hbad s' hend), fun h => absurd h.1 hok⟩

theorem iff_meets {I P B : σ → Prop} (hstep : ∀ s a s', I s → ok s a → step s a = some s' → I s')
    (hbreak : ∀ s a s', I s → ¬ ok s a → step s a = some s' → B s')
    (hbroken : ∀ s a s', B s → step s a = some s' → B s')
    (hgood : ∀ s, I s → P s) (hbad : ∀ s, B s → ¬ P s)
    (hs : I s) (hrun : run step s as = some s') : P s' ↔ Meets step ok s as :=
  iff_meets_within (fun s a s' hI (_ : True) => hstep s a s' hI)
    (fun s a s' hI _ => hbreak s a s' hI) (fun s a s' hB _ => hbroken s a s' hB) hgood hbad hs
    meets_true hrun

lemma Always.head {P : σ → Prop} (h : Always step P s as) : P s := by
  cases as with
  | nil => exact h
  | cons a as => exact h.1

/-- Exactness rule for every state on the way: a step from a good state leads to a good
    state exactly when it meets `ok`. -/
lemma always_iff_meets {I P : σ → Prop} (hstep : ∀ s a s', I s → step s a = some s' → I s')
    (hexact : ∀ s a s', I s → P s → step s a = some s' → (P s' ↔ ok s a))
    (hs : I s) (hP : P s) (hrun : run step s as = some s') :
    Always step P s as ↔ Meets step ok s as := by
  induction as generalizing s with
  | nil => exact ⟨fun _ => trivial, fun _ => hP⟩
  | cons a as ih =>
    obtain ⟨m, hm, hrest⟩ := run_cons_eq_some.mp hrun
    have hnext : ∀ {Q : σ → Prop}, (∀ s', step s a = some s' → Q s') ↔ Q m := by
      intro Q
      rw [hm]
      simp
    show (P s ∧ _) ↔ (ok s a ∧ _)
    rw [hnext, hnext, and_iff_right hP, ← hexact s a m hs hP hm]
    constructor
    · intro h
      exact ⟨h.head, (ih (hstep s a m hs hm) h.head hrest).mp h⟩
    · rintro ⟨hPm, h⟩
      exact (ih (hstep s a m hs hm) hPm hrest).mpr h

/-- A measure that every step from an invariant state decreases bounds the
    length of every schedule.  The steps are those of a run that meets `within`. -/
lemma run_length_le_within {μ : σ → Nat}
    (hinv : ∀ s a s', I s → within s a → step s a = some s' → I s')
    (hdec : ∀ s a s', I s → within s a → step s a = some s' → μ s' < μ s)
    (hs : I s) (hwithin : Meets step within s as) (hrun : run step s as = some s') :
    as.length + μ s' ≤ μ s := by
  induction as generalizing s with
  | nil =>
    cases hrun
    simp
  | cons a as ih =>
    obtain ⟨m, hm, hrest⟩ := run_cons_eq_some.mp hrun
    have hlt := hdec s a m hs hwithin.1 hm
    have hle := ih (hinv s a m hs hwithin.1 hm) (hwithin.2 m hm) hrest
    simp only [List.length_cons]
    omega

theorem run_length_le {μ : σ → Nat} (hinv : ∀ s a s', I s → step s a = some s' → I s')
    (hdec : ∀ s a s', I s → step s a = some s' → μ s' < μ s)
    (hs : I s) (hrun : run step s as = some s') : as.length + μ s' ≤ μ s :=
  run_length_le_within (fun s a s' hI (_ : True) => hinv s a s' hI)
    (fun s a s' hI _ => hdec s a s' hI) hs meets_true hrun

lemma Settles.imp {Ended Good Good' : σ → Prop} (h : Settles step s Ended Good)
    (himp : ∀ s', Good s' → Good' s') : Settles step s Ended Good' :=
  ⟨h.bounded, h.progress, fun as s' hrun hended => himp s' (h.good as s' hrun hended)⟩

/-- An invariant with a decreasing measure that gives progress and the answer. -/
lemma Settles.of_invariant {I Ended Good : σ → Prop} (μ : σ → Nat)
    (hinv : ∀ s a s', I s → step s a = some s' → I s')
    (hdec : ∀ s a s', I s → step s a = some s' → μ s' < μ s)
    (hprogress : ∀ s, I s → ¬ Ended s → ∃ a s', step s a = some s')
    (hgood : ∀ s, I s → Ended s → Good s) (hs : I s) : Settles step s Ended Good where
  bounded := ⟨μ s, fun _ _ hrun =>
    Nat.le_trans (Nat.le_add_right _ _) (run_length_le hinv hdec hs hrun)⟩
  progress _ s' hrun := hprogress s' (run_invariant' hinv hs hrun)
  good _ s' hrun := hgood s' (run_invariant' hinv hs hrun)

/-- A measure in a well-founded order that every step from an invariant state decreases
    excludes infinite runs. -/
theorem no_infinite_run {β : Type*} {r : β → β → Prop} (hwf : WellFounded r)
    {μ : σ → β} (hinv : ∀ s a s', I s → step s a = some s' → I s')
    (hdec : ∀ s a s', I s → step s a = some s' → r (μ s') (μ s)) (hs : I s) :
    ¬ ∃ f : Nat → σ, f 0 = s ∧ ∀ n, ∃ a, step (f n) a = some (f (n + 1)) := by
  rintro ⟨f, rfl, hstep⟩
  have hI : ∀ n, I (f n) := by
    intro n
    induction n with
    | zero => exact hs
    | succ n ih =>
      obtain ⟨a, ha⟩ := hstep n
      exact hinv _ a _ ih ha
  obtain ⟨m, ⟨n, rfl⟩, hmin⟩ := hwf.has_min (Set.range fun n => μ (f n)) ⟨_, 0, rfl⟩
  obtain ⟨a, ha⟩ := hstep n
  exact hmin _ ⟨n + 1, rfl⟩ (hdec _ a _ (hI n) ha)

end

end Lts
