import Mathlib
import Simultaneous.Solve

/-!
The stages of a solution: a text is read, its equations are counted against its variables, the
matrix is factorized, and the solution is refined. The first stage that fails decides the outcome.
None of this depends on the arithmetic.
-/

namespace Simultaneous

open Equation (ParseError)
open Number (OfDecimal RatioOrder)
open Solver (Settings Factorization Square block segment toSparse factorize)

variable {α : Type} [Zero α] [Sub α] [Mul α] [Div α] [Neg α] [LT α] [DecidableLT α] [LE α]
  [DecidableLE α]

/-! ### Setups and solutions -/

namespace Solver

variable {n : ℕ}

/-- A setup keeps the factors of the leading block. -/
lemma setup_eq (s : Solver α) (n : ℕ) (a : Sparse (ℕ × ℕ) α) :
    s.setup n a = (factorize s.settings.pivotTolerance (block n a)).map
      fun factors => { s with dim := n, factors } := by
  change (factorize s.settings.pivotTolerance (block n a)).bind _ = _
  cases factorize s.settings.pivotTolerance (block n a) <;> rfl

lemma setup_eq_error_iff (s : Solver α) (a : Sparse (ℕ × ℕ) α) (e : Failure) :
    s.setup n a = .error e ↔
      factorize s.settings.pivotTolerance (block n a) = .error e := by
  rw [setup_eq]
  cases factorize s.settings.pivotTolerance (block n a) <;> simp [Except.map]

lemma setup_eq_ok_iff (s s' : Solver α) (a : Sparse (ℕ × ℕ) α) :
    s.setup n a = .ok s' ↔
      ∃ factors, factorize s.settings.pivotTolerance (block n a) = .ok factors ∧
        s' = { s with dim := n, factors } := by
  rw [setup_eq]
  cases factorize s.settings.pivotTolerance (block n a) <;> simp [Except.map, eq_comm]

variable [One α] [Add α] [RatioOrder α] (s : Solver α) (a : Sparse (ℕ × ℕ) α) (b : Sparse ℕ α)

/-- The refinement that a solution goes by. -/
abbrev refinement : Refinement α s.dim :=
  refine s.settings s.factors (block s.dim a) (segment s.dim b)

omit [LE α] [DecidableLE α] in
lemma solve_eq_ok_iff {x : Sparse ℕ α} : (s.solve a b).value.2 = .ok x ↔
    ∃ y, (s.refinement a b).outcome = .ok y ∧ toSparse y = x := by
  rw [Solver.solve]
  cases (s.refinement a b).outcome <;> simp [Except.map, Except.mapError]

omit [LE α] [DecidableLE α] in
lemma solve_eq_error_iff {cause : Conditioning} :
    (s.solve a b).value.2 = .error (.illConditioned cause) ↔
      (s.refinement a b).outcome = .error cause := by
  rw [Solver.solve]
  cases (s.refinement a b).outcome <;> simp [Except.map, Except.mapError]

end Solver

/-! ### Systems -/

namespace LinearSystem

variable [One α] [Add α] [RatioOrder α] {settings : Settings α} {s : LinearSystem α}

lemma solve_of_lt (h : s.equationCount < s.variableCount) : (s.solve settings).value =
    .error (.tooFewEquations s.equationCount s.variableCount) := by
  rw [LinearSystem.solve, if_pos h]
  rfl

lemma solve_of_gt (h : s.variableCount < s.equationCount) : (s.solve settings).value =
    .error (.tooManyEquations s.equationCount s.variableCount) := by
  rw [LinearSystem.solve, if_neg h.not_gt, if_pos h]
  rfl

lemma solve_of_factorize_error (h : s.equationCount = s.variableCount) {f : Solver.Failure}
    (hf : factorize settings.pivotTolerance (block s.equationCount s.matrix) = .error f) :
    (s.solve settings).value = .error (.unsolvable f) := by
  rw [LinearSystem.solve, if_neg (by omega), if_neg (by omega),
    (Solver.setup_eq_error_iff _ _ _).mpr hf]
  rfl

/-- Once the matrix is factorized, the refinement decides. -/
lemma solve_of_factorize_ok (h : s.equationCount = s.variableCount)
    {f : Factorization α s.equationCount}
    (hf : factorize settings.pivotTolerance (block s.equationCount s.matrix) = .ok f) :
    (s.solve settings).value =
      match (Solver.refine settings f (block s.equationCount s.matrix)
        (segment s.equationCount s.rhs)).outcome with
      | .error cause => .error (.unsolvable (.illConditioned cause))
      | .ok x => .ok ⟨s.names.mapIdx fun column name => (name, (toSparse x).get column)⟩ := by
  rw [LinearSystem.solve, if_neg (by omega), if_neg (by omega),
    (Solver.setup_eq_ok_iff _ _ _).mpr ⟨f, hf, rfl⟩]
  simp only [Logged.value_bind, Solver.solve, Solver.new]
  cases (Solver.refine settings f (block s.equationCount s.matrix)
    (segment s.equationCount s.rhs)).outcome <;> rfl

/-- A solution has come through all stages. -/
lemma exists_refine_of_solve {solution : Solution α}
    (h : (s.solve settings).value = .ok solution) :
    s.equationCount = s.variableCount ∧ ∃ f x,
      factorize settings.pivotTolerance (block s.equationCount s.matrix) = .ok f ∧
        (Solver.refine settings f (block s.equationCount s.matrix)
          (segment s.equationCount s.rhs)).outcome = .ok x ∧
        solution = ⟨s.names.mapIdx fun column name => (name, (toSparse x).get column)⟩ := by
  rcases Nat.lt_trichotomy s.equationCount s.variableCount with hlt | hsquare | hgt
  · exact nomatch (solve_of_lt hlt).symm.trans h
  · refine ⟨hsquare, ?_⟩
    cases hf : factorize settings.pivotTolerance (block s.equationCount s.matrix) with
    | error e => exact nomatch (solve_of_factorize_error hsquare hf).symm.trans h
    | ok f =>
      rw [solve_of_factorize_ok hsquare hf] at h
      split at h
      · exact nomatch h
      · next x hx => exact ⟨f, x, rfl, hx, (Except.ok.inj h).symm⟩
  · exact nomatch (solve_of_gt hgt).symm.trans h

end LinearSystem

/-! ### Texts -/

variable [One α] [Add α] [RatioOrder α] [OfDecimal α] {options : Options α} {text : String}

lemma solveText_of_error {e : ParseError}
    (h : (LinearSystem.ofText options.limits text : Logged (Record α) _).value = .error e) :
    (solveText options text).value = .error (.parse e) := by
  rw [solveText, Logged.value_bind, h]
  rfl

lemma solveText_of_ok {s : LinearSystem α}
    (h : (LinearSystem.ofText options.limits text).value = .ok s) :
    (solveText options text).value = (s.solve options.settings).value := by
  rw [solveText, Logged.value_bind, h]
  rfl

end Simultaneous
