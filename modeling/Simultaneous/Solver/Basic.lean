import Simultaneous.Log.Logged
import Simultaneous.Log.Record
import Simultaneous.Solver.Refinement

/-!
A solver keeps the factorization of one matrix and solves systems with it.

The matrix is given again with each right-hand side, since the corrections are weighed against
it. A factorization that fails leaves the solver as it was.
-/

namespace Simultaneous

open Number (Ratio RatioOrder)

variable {α : Type}

structure Solver (α : Type) where
  settings : Solver.Settings α
  dim : Nat
  factors : Solver.Factorization α dim
  /-- The iterations of the last solution. -/
  iterations : Nat
  /-- The ratio at which the last solution ended. -/
  ratio : Ratio α

namespace Solver

/-- What the log says about a refinement: its passes, and a warning if it failed. -/
def Refinement.records {n : Nat} (r : Refinement α n) : List (Record α) :=
  r.passes.mapIdx (fun i sizes => .pass (i + 1) sizes) ++
    match r.outcome with
    | .error .inaccurateDecomposition => [.distrusted]
    | .error (.noConvergence iterations) => [.unconverged iterations]
    | _ => []

variable [Zero α] [One α]

/-- A solver for no unknowns. -/
def new (settings : Settings α) : Solver α where
  settings
  dim := 0
  factors := ⟨#v[], #v[]⟩
  iterations := 0
  ratio := 0

variable [Add α] [Sub α] [Mul α] [Div α] [Neg α] [LT α] [DecidableLT α]

/-- Takes the leading `n` by `n` block of a matrix for the matrix to solve with. -/
def setup [LE α] [DecidableLE α] (s : Solver α) (n : Nat) (a : Sparse (Nat × Nat) α) :
    Except Failure (Solver α) := do
  let factors ← factorize s.settings.pivotTolerance (block n a)
  return { s with dim := n, factors }

variable [RatioOrder α]

/-- The solver after it has solved `A * x = b`, and the solution. -/
def solve (s : Solver α) (a : Sparse (Nat × Nat) α) (b : Sparse Nat α) :
    Logged (Record α) (Solver α × Except Failure (Sparse Nat α)) :=
  let r := refine s.settings s.factors (block s.dim a) (segment s.dim b)
  { value :=
      ({ s with iterations := r.iterations, ratio := r.ratio },
       (r.outcome.map toSparse).mapError .illConditioned)
    log := r.records }

end Solver

/-- Solves one system under the standard settings. -/
def Solver.solveOnce [Zero α] [One α] [Add α] [Sub α] [Mul α] [Div α] [Neg α] [LT α]
    [DecidableLT α] [LE α] [DecidableLE α] [RatioOrder α] [Number.OfDecimal α]
    (n : Nat) (a : Sparse (Nat × Nat) α) (b : Sparse Nat α) :
    Logged (Record α) (Except Failure (Sparse Nat α)) :=
  match (Solver.new .standard).setup n a with
  | .error f => return .error f
  | .ok solver => do
    let (_, result) ← solver.solve a b
    return result

end Simultaneous
