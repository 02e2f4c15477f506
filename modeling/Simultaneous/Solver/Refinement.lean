import Simultaneous.Number.Arithmetic
import Simultaneous.Solver.Factorization

/-!
Iterative refinement.

A solution from the factorization is put back into the equations, and the system is solved again
for what is missing. Each pass adds such a correction and weighs it against the solution that it
corrects. The passes end when the correction no longer reaches the convergence ratio, and that
last correction is added too. A first correction above the ill-conditioned ratio shows that the
factorization cannot be trusted.
-/

namespace Simultaneous.Solver

open Number

variable {α : Type} {n : Nat}

structure Settings (α : Type) where
  /-- Refinement ends once a correction is below this part of the solution. -/
  convergenceRatio : α
  /-- A first correction above this part of the solution is a failure. -/
  illConditionedRatio : α
  maxIterations : Nat
  /-- Row scales and pivot offers up to this count as zero. -/
  pivotTolerance : α
  deriving Repr

def Settings.standard [Zero α] [OfDecimal α] : Settings α where
  convergenceRatio := ofDecimal ⟨569, -16⟩
  illConditionedRatio := ofDecimal ⟨5, -1⟩
  maxIterations := 200
  pivotTolerance := 0

/-- The sizes of a solution and of its correction. -/
structure Pass (α : Type) where
  solution : α
  correction : α
  deriving DecidableEq, Repr

def Pass.ratio (p : Pass α) : Ratio α := ⟨p.correction, p.solution⟩

structure Refinement (α : Type) (n : Nat) where
  outcome : Except Conditioning (Vector α n)
  /-- The number of substitutions, less the one of a distrusted correction. -/
  iterations : Nat
  /-- The last ratio that passed for good or for another pass, 0 if there was none. -/
  ratio : Ratio α
  /-- The passes that weighed a correction, in order. -/
  passes : List (Pass α)

/-- `b - A * x`. -/
def residual [Sub α] [Mul α] (a : Square α n) (b x : Vector α n) : Vector α n :=
  Vector.ofFn fun i => lessProducts (b.get i) (a.get i).get x.get

variable [Zero α] [One α] [Add α] [Sub α] [Mul α] [Div α] [Neg α] [LT α] [DecidableLT α]
  [RatioOrder α]

/-- The solution that a correction turns `x` into. -/
def correct (x e : Vector α n) : Vector α n := Vector.zipWith (· + ·) x e

/-- Pass `k`, which corrects `x`, and those after it, of which `left` are allowed; `done` are the
passes before it, the last one first. -/
def refineFrom (settings : Settings α) (f : Factorization α n) (a : Square α n) (b : Vector α n)
    (k : Nat) (x : Vector α n) (done : List (Pass α)) (left : Nat) : Refinement α n :=
  let e := f.solve (residual a b x)
  let pass : Pass α := ⟨greatest x, greatest e⟩
  let passes := pass :: done
  if k = 1 && exceeds pass.ratio settings.illConditionedRatio then
    ⟨.error .inaccurateDecomposition, 1, 0, passes.reverse⟩
  else if reaches pass.ratio settings.convergenceRatio then
    match left with
    | 0 => ⟨.error (.noConvergence settings.maxIterations), k + 1, pass.ratio, passes.reverse⟩
    | left + 1 => refineFrom settings f a b (k + 1) (correct x e) passes left
  else ⟨.ok (correct x e), k + 1, pass.ratio, passes.reverse⟩

/-- The solution of `A * x = b`, refined. There is nothing to weigh the first solution against,
and an empty one needs no refinement. -/
def refine (settings : Settings α) (f : Factorization α n) (a : Square α n) (b : Vector α n) :
    Refinement α n :=
  let x := correct (Vector.replicate n 0) (f.solve b)
  if n = 0 then ⟨.ok x, 1, 0, []⟩
  else
    match settings.maxIterations with
    | 0 => ⟨.error (.noConvergence 0), 1, 0, []⟩
    | left + 1 => refineFrom settings f a b 1 x [] left

end Simultaneous.Solver
