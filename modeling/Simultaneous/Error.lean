import Simultaneous.Equation.Fault
import Simultaneous.Solver.Factorization

/-!
Everything that can keep a text from being solved.
-/

namespace Simultaneous

open Equation (ParseError)

inductive Error where
  | parse (e : ParseError)
  | tooFewEquations (equations unknowns : Nat)
  | tooManyEquations (equations unknowns : Nat)
  | unsolvable (f : Solver.Failure)
  deriving DecidableEq, Repr

instance : Coe ParseError Error := ⟨.parse⟩

instance : Coe Solver.Failure Error := ⟨.unsolvable⟩

/-- The text for the user, who is not told where a fault stands nor what went wrong inside. -/
def Error.message : Error → String
  | parse e => e.fault.description
  | tooFewEquations equations unknowns =>
    s!"Only {equations} equations is too few equations for {unknowns} variables"
  | tooManyEquations equations unknowns =>
    s!"{equations} equations is too many equations for only {unknowns} variables"
  | unsolvable (.singular _) => "Error - the system of equations is singular."
  | unsolvable (.illConditioned _) => "Error - the system of equations is ill conditioned."

/-- A name, and fields in braces if there are any. -/
def braced (name : String) : List (String × String) → String
  | [] => name
  | fields =>
    let written := fields.map fun (field, value) => field ++ ": " ++ value
    name ++ " \x7b " ++ ", ".intercalate written ++ " \x7d"

def Solver.Conditioning.detail : Solver.Conditioning → String
  | zeroPivot column => braced "ZeroPivot" [("col", toString column)]
  | inaccurateDecomposition => braced "InaccurateDecomposition" []
  | noConvergence iterations => braced "NoConvergence" [("iterations", toString iterations)]

/-- The text for the log, with all that the error knows. -/
def Error.detail : Error → String
  | parse e => braced "Parse" [("status", e.fault.name), ("position", toString e.position)]
  | tooFewEquations equations unknowns =>
    braced "TooFewEquations"
      [("equations", toString equations), ("variables", toString unknowns)]
  | tooManyEquations equations unknowns =>
    braced "TooManyEquations"
      [("equations", toString equations), ("variables", toString unknowns)]
  | unsolvable (.singular row) => braced "Singular" [("row", toString row)]
  | unsolvable (.illConditioned cause) => braced "IllConditioned" [("cause", cause.detail)]

end Simultaneous
