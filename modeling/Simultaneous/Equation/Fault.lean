/-!
What can be wrong with an equation, and how the reading of a line ends.
-/

namespace Simultaneous.Equation

inductive Fault where
  /-- Neither an operator nor the end of the line after a term, or a point alone for a number. -/
  | illegalEquation
  | noEqualSign
  | multipleEqualSigns
  /-- Never found by reading: an equation opens with a term. -/
  | noTermBeforeEqualSign
  | noTermAfterEqualSign
  /-- Neither a number nor a name where a term is due. -/
  | noTerm
  | noVariable
  | multipleDecimalPoints
  /-- A number longer than the limit. -/
  | tooManyDigits
  | missingExponent
  /-- An exponent longer than the limit, or with a point in it. -/
  | illegalExponent
  deriving DecidableEq, Repr

inductive Status where
  | success
  /-- There was nothing to read. -/
  | noEquation
  | fault (f : Fault)
  deriving DecidableEq, Repr

def Status.isSuccess : Status → Bool
  | success | noEquation => true
  | fault _ => false

def Fault.description : Fault → String
  | illegalEquation => "The equation syntax is illegal."
  | noEqualSign => "There is no equal sign in the equation."
  | multipleEqualSigns => "There are multiple equal signs in the equation."
  | noTermBeforeEqualSign => "There is no term before the equal sign in the equation."
  | noTermAfterEqualSign => "There is no term after the equal sign in the equation."
  | noTerm => "A number or a variable was expected."
  | noVariable => "There is no variable in the equation."
  | multipleDecimalPoints => "A number contains more than one decimal point."
  | tooManyDigits => "A number contains more than 20 digits."
  | missingExponent => "A number contains the '^' character and is missing an exponent."
  | illegalExponent => "A number contains an illegal exponent."

/-- The text for people. A wider or narrower limit on digits does not change it. -/
def Status.description : Status → String
  | success | noEquation => "The equation was parsed successfully."
  | fault f => f.description

def Fault.name : Fault → String
  | illegalEquation => "ErrorIllegalEquation"
  | noEqualSign => "ErrorNoEqualSign"
  | multipleEqualSigns => "ErrorMultipleEqualSigns"
  | noTermBeforeEqualSign => "ErrorNoTermBeforeEqualSign"
  | noTermAfterEqualSign => "ErrorNoTermAfterEqualSign"
  | noTerm => "ErrorNoTermEncountered"
  | noVariable => "ErrorNoVariableInEquation"
  | multipleDecimalPoints => "ErrorMultipleDecimalPoints"
  | tooManyDigits => "ErrorTooManyDigits"
  | missingExponent => "ErrorMissingExponent"
  | illegalExponent => "ErrorIllegalExponent"

/-- The name under which reports give a status. -/
def Status.name : Status → String
  | success => "Success"
  | noEquation => "SuccessNoEquation"
  | fault f => f.name

/-- A fault and the number of characters of its line that stand before it. -/
structure ParseError where
  fault : Fault
  position : Nat
  deriving DecidableEq, Repr

def ParseError.message (e : ParseError) : String :=
  s!"{e.fault.description} (at position {e.position})"

/-- A fault and the characters of the line from the offending place on. -/
structure Offence where
  fault : Fault
  rest : List Char
  deriving DecidableEq, Repr

/-- Reads something off the front of a line and leaves the rest. -/
abbrev Reader (α : Type) := List Char → Except Offence (α × List Char)

/-- The position of an offence in its line. -/
def Offence.inLine (o : Offence) (line : List Char) : ParseError :=
  ⟨o.fault, line.length - o.rest.length⟩

end Simultaneous.Equation
