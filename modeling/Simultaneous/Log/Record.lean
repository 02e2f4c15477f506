import Simultaneous.Error
import Simultaneous.Number.Written
import Simultaneous.Solver.Refinement

/-!
What the log says about the reading and the solution of a text.
-/

namespace Simultaneous

open Number (Layout Ratio)

inductive Record (α : Type) where
  /-- A term with a name was added to the matrix. -/
  | coefficient (row column : Nat) (value : α)
  /-- A term without a name was taken from the right-hand side. -/
  | constant (row : Nat) (value : α)
  /-- An equation is complete. The unknowns are those of all equations so far. -/
  | complete (row unknowns : Nat)
  | parsed (equations unknowns : Nat)
  | pass (index : Nat) (sizes : Solver.Pass α)
  | distrusted
  | unconverged (iterations : Nat)
  | solved (iterations : Nat) (ratio : Ratio α)
  | unsolved (e : Error)

namespace Record

def level {α : Type} : Record α → String
  | coefficient .. | constant .. | pass .. => "TRACE"
  | complete .. | parsed .. | solved .. | unsolved .. => "DEBUG"
  | distrusted | unconverged .. => "WARN"

/-- The part of the program that speaks. -/
def source {α : Type} : Record α → String
  | coefficient .. | constant .. | complete .. => "parser::equation_parser"
  | pass .. | distrusted | unconverged .. => "linear::crout"
  | parsed .. | solved .. | unsolved .. => "lineq"

def message : Record Float → String
  | coefficient row column value => s!"A[{row}, {column}] += {Layout.positional.write value}"
  | constant row value => s!"b[{row}] -= {Layout.positional.write value}"
  | complete row unknowns => s!"equation {row} complete, {unknowns} variables so far"
  | parsed equations unknowns => s!"parsed {equations} equations in {unknowns} variables"
  | pass index sizes =>
    let x := Layout.pointed.write sizes.solution
    let e := Layout.pointed.write sizes.correction
    let ratio := Layout.pointed.write sizes.ratio.toFloat
    s!"refinement iteration={index}, |x|={x}, |e|={e}, ratio={ratio}"
  | distrusted => "First refinement correction exceeds the ill-conditioning ratio"
  | unconverged iterations =>
    s!"Iterative refinement did not converge after {iterations} iterations"
  | solved iterations ratio =>
    let written := Layout.scientific.write ratio.toFloat
    s!"solved after {iterations} refinement iterations, final ratio {written}"
  | unsolved e => s!"could not solve input: {e.detail}"

def line (r : Record Float) : String := s!"{r.level} {r.source}: {r.message}"

end Record

end Simultaneous
