/-
  OpenFGA.Lib.Sql

  Queries on one table: equality, `IN`, `LIKE`, `AND`, `OR` and `ORDER BY`.

  `NULL` is `none`.  A comparison with `NULL` is unknown; since no condition is negated
  a row for which a condition is unknown is as good as one for which it is false.
-/

import Mathlib

namespace OpenFGA.Sql

/-- A column, or a column with a default for `NULL`. -/
inductive Expr (C : Type) where
  | col (c : C)
  | coalesce (c : C) (default : String)

inductive Cond (C : Type) where
  | always
  | never
  | eq (e : Expr C) (value : String)
  | isIn (e : Expr C) (values : List String)
  | like (e : Expr C) (pattern : String)
  | and (p q : Cond C)
  | or (p q : Cond C)

/-- A query: its conditions, and the column it is ordered by. -/
structure Select (C : Type) where
  wheres : List (Cond C)
  orderBy : C

/-- `LIKE`: `%` stands for any characters and `_` for any one. -/
def like : List Char → List Char → Bool
  | [], s => s.isEmpty
  | c :: p, s =>
    if c = '%' then s.tails.any (like p)
    else match s with
      | [] => false
      | d :: s => (c = '_' || c = d) && like p s

variable {C R : Type} (get : C → R → Option String)

def Expr.eval (r : R) : Expr C → Option String
  | .col c => get c r
  | .coalesce c default => some ((get c r).getD default)

def Cond.eval (r : R) : Cond C → Bool
  | .always => true
  | .never => false
  | .eq e value => e.eval get r = some value
  | .isIn e values => (e.eval get r).any fun v => values.contains v
  | .like e pattern => (e.eval get r).any fun v => Sql.like pattern.toList v.toList
  | .and p q => p.eval r && q.eval r
  | .or p q => p.eval r || q.eval r

/-- All of the conditions. -/
def Cond.all (ps : List (Cond C)) : Cond C := ps.foldr .and .always

/-- One of the conditions; the empty disjunction is false. -/
def Cond.any (ps : List (Cond C)) : Cond C := ps.foldr .or .never

def Select.run (q : Select C) (rows : List R) : List R :=
  (rows.filter fun r => (Cond.all q.wheres).eval get r).insertionSort
    fun a b => (get q.orderBy a).getD "" ≤ (get q.orderBy b).getD ""

/-- A query without an order. -/
def select (wheres : List (Cond C)) (rows : List R) : List R :=
  rows.filter fun r => (Cond.all wheres).eval get r

variable {get} {r : R} {p : Cond C} {ps : List (Cond C)} {c : C}

@[simp] lemma eval_eq_col {value : String} :
    (Cond.eq (.col c) value).eval get r = true ↔ get c r = some value := by
  exact decide_eq_true_iff

@[simp] lemma eval_isIn_col {values : List String} :
    (Cond.isIn (.col c) values).eval get r = true ↔ ∃ v ∈ values, get c r = some v := by
  cases h : get c r <;> simp [Cond.eval, Expr.eval, h]

@[simp] lemma eval_isIn_coalesce {values : List String} {default : String} :
    (Cond.isIn (.coalesce c default) values).eval get r = true ↔
      (get c r).getD default ∈ values := by
  simp [Cond.eval, Expr.eval]

@[simp] lemma eval_all : (Cond.all ps).eval get r = true ↔ ∀ p ∈ ps, p.eval get r = true := by
  induction ps with
  | nil => simp [Cond.all, Cond.eval]
  | cons p ps ih =>
    rw [List.forall_mem_cons, ← ih]
    exact Bool.and_eq_true_iff

@[simp] lemma eval_any : (Cond.any ps).eval get r = true ↔ ∃ p ∈ ps, p.eval get r = true := by
  induction ps with
  | nil => simp [Cond.any, Cond.eval]
  | cons p ps ih =>
    rw [List.exists_mem_cons_iff, ← ih]
    exact Bool.or_eq_true_iff

@[simp] lemma eval_like_col {pattern : String} :
    (Cond.like (.col c) pattern).eval get r = true ↔
      ∃ v, get c r = some v ∧ like pattern.toList v.toList = true := by
  cases h : get c r <;> simp [Cond.eval, Expr.eval, h]

lemma like_percent {p s} :
    like ('%' :: p) s = true ↔ ∃ x y, s = x ++ y ∧ like p y = true := by
  simp only [like, if_pos, List.any_eq_true, List.mem_tails]
  constructor
  · rintro ⟨y, ⟨x, rfl⟩, hy⟩
    exact ⟨x, y, rfl, hy⟩
  · rintro ⟨x, y, rfl, hy⟩
    exact ⟨y, ⟨x, rfl⟩, hy⟩

/-- What a pattern begins with matches itself, also where it has `%` or `_` in it. -/
lemma like_append_self {p y} (x : List Char) (h : like p y = true) :
    like (x ++ p) (x ++ y) = true := by
  induction x with
  | nil => exact h
  | cons c x ih =>
    by_cases hc : c = '%'
    · rw [List.cons_append, hc, like_percent]
      exact ⟨['%'], x ++ y, rfl, ih⟩
    · simp [like, hc, ih]

lemma like_self (x : List Char) : like x x = true := by
  have h := like_append_self (p := []) (y := []) x rfl
  simpa using h

lemma run_perm (get : C → R → Option String) (q : Select C) (rows : List R) :
    (q.run get rows).Perm (rows.filter fun r => (Cond.all q.wheres).eval get r) :=
  List.perm_insertionSort _ _

end OpenFGA.Sql
