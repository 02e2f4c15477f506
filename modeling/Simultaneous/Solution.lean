import Simultaneous.Number.Written

/-!
The values of the variables, in the order in which the variables first appear.
-/

namespace Simultaneous

open Number (Layout)

structure Solution (α : Type) where
  values : List (String × α)

namespace Solution

variable {α : Type}

/-- The value of a variable, if the system has it. -/
def get? (s : Solution α) (name : String) : Option α := s.values.lookup name

def size (s : Solution α) : Nat := s.values.length

def isEmpty (s : Solution α) : Bool := s.values.isEmpty

instance [BEq α] : BEq (Solution α) where
  beq s t := s.values == t.values

/-- `name = value` for each variable, with a space between two. -/
def text (s : Solution Float) : String :=
  " ".intercalate (s.values.map fun (name, value) =>
    name ++ " = " ++ Layout.positional.write value)

end Solution

end Simultaneous
