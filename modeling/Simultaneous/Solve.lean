import Simultaneous.Solution
import Simultaneous.Solver.Basic
import Simultaneous.LinearSystem.Draft

/-!
From text to solution, and to the line that tells the user about it.
-/

namespace Simultaneous

open Equation (Limits)
open Number (OfDecimal RatioOrder)
open Solver (Settings)

variable {α : Type}

structure Options (α : Type) where
  limits : Limits
  settings : Settings α

def Options.standard [Zero α] [OfDecimal α] : Options α := ⟨{}, .standard⟩

variable [Zero α] [One α] [Add α] [Sub α] [Mul α] [Div α] [Neg α] [LT α] [DecidableLT α]
  [LE α] [DecidableLE α] [RatioOrder α]

/-- The solution of a system with as many equations as variables. -/
def LinearSystem.solve (settings : Settings α) (s : LinearSystem α) :
    Logged (Record α) (Except Error (Solution α)) :=
  if s.equationCount < s.variableCount then
    return .error (.tooFewEquations s.equationCount s.variableCount)
  else if s.variableCount < s.equationCount then
    return .error (.tooManyEquations s.equationCount s.variableCount)
  else
    match (Solver.new settings).setup s.equationCount s.matrix with
    | .error f => return .error f
    | .ok solver => do
      let (solver, result) ← solver.solve s.matrix s.rhs
      match result with
      | .error f => return .error f
      | .ok x => do
        .tell [.solved solver.iterations solver.ratio]
        return .ok ⟨s.names.mapIdx fun column name => (name, x.get column)⟩

/-- The solution of the system that a text writes down. -/
def solveText [OfDecimal α] (options : Options α) (text : String) :
    Logged (Record α) (Except Error (Solution α)) := do
  match ← LinearSystem.ofText options.limits text with
  | .error e => return .error e
  | .ok s => do
    .tell [.parsed s.equationCount s.variableCount]
    s.solve options.settings

/-- The solution of a text, or what is wrong with it, as text. -/
def answer (text : String) : Logged (Record Float) String := do
  match ← solveText .standard text with
  | .ok solution => return solution.text
  | .error e => do
    .tell [.unsolved e]
    return e.message

end Simultaneous
