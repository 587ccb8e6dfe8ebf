/-
  `internal/check/response.go`: what the resolver and its strategies answer, and
  the message their goroutines pass on.
-/

import OpenFGA.Tuple

namespace OpenFGA.Check

structure Response where
  allowed : Bool
deriving DecidableEq, Repr

/-- `ResponseMsg`: a response, nil when there is an error, and the error. -/
structure ResponseMsg where
  res : Option Response
  err : Option Err
deriving DecidableEq, Repr

namespace ResponseMsg

/-- `Response.GetAllowed`, which reads nil as denied. -/
def getAllowed (m : ResponseMsg) : Bool := (m.res.map Response.allowed).getD false

/-- The evaluation answered true. -/
def Allows (m : ResponseMsg) : Prop := m.err = none ∧ m.getAllowed = true

/-- The evaluation answered false without an error. -/
def Denies (m : ResponseMsg) : Prop := m.err = none ∧ m.getAllowed = false

instance (m : ResponseMsg) : Decidable m.Allows := inferInstanceAs (Decidable (_ ∧ _))
instance (m : ResponseMsg) : Decidable m.Denies := inferInstanceAs (Decidable (_ ∧ _))

variable {m : ResponseMsg}

lemma not_denies_of_allows (h : m.Allows) : ¬ m.Denies := by
  rintro ⟨-, hd⟩
  rw [h.2] at hd
  cases hd

lemma denies_of_not (herr : m.err = none) (h : ¬ m.getAllowed = true) : m.Denies :=
  ⟨herr, Bool.eq_false_iff.mpr h⟩

lemma not_allows_of_err {e : Err} (h : m.err = some e) : ¬ m.Allows := by
  rintro ⟨hn, -⟩
  rw [h] at hn
  cases hn

lemma not_denies_of_err {e : Err} (h : m.err = some e) : ¬ m.Denies := by
  rintro ⟨hn, -⟩
  rw [h] at hn
  cases hn

end ResponseMsg

end OpenFGA.Check
