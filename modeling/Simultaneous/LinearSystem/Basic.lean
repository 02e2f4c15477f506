import Simultaneous.Equation.Session
import Simultaneous.Sparse.Basic

/-!
Systems of linear equations, `matrix * variables = rhs`.

A variable has the column of its name in `names`, the order in which the names first appear; an
equation has the row of its number. Terms with a name add up in the matrix, terms without one in
the right-hand side, with their sign turned.
-/

namespace Simultaneous

open Equation (Entry LineEnd Reading)
open Number (OfDecimal ofDecimal)

variable {α : Type}

structure LinearSystem (α : Type) where
  matrix : Sparse (Nat × Nat) α
  rhs : Sparse Nat α
  names : List String
  equationCount : Nat

/-- The number that an entry adds: its literal, or 1 if it has none, with its sign. -/
def Equation.Entry.value [One α] [Neg α] [OfDecimal α] (e : Entry) : α :=
  let magnitude : α :=
    match e.quantity with
    | .constant literal => ofDecimal literal.decimal
    | .multiple (some literal) _ => ofDecimal literal.decimal
    | .multiple none _ => 1
  if e.negative then -magnitude else magnitude

namespace LinearSystem

def empty [Zero α] : LinearSystem α := ⟨.empty 0, .empty 0, [], 0⟩

def variableCount (s : LinearSystem α) : Nat := s.names.length

/-- The column of a name, which is one past the last if the name is new. -/
def column (s : LinearSystem α) (name : String) : Nat := s.names.idxOf name

/-- Gives a new name the next column. -/
def declare (s : LinearSystem α) (name : String) : LinearSystem α :=
  if name ∈ s.names then s else { s with names := s.names ++ [name] }

instance [BEq α] : BEq (LinearSystem α) where
  beq s t :=
    s.matrix == t.matrix && s.rhs == t.rhs && s.names == t.names
      && s.equationCount == t.equationCount

variable [One α] [Add α] [Neg α] [OfDecimal α]

/-- Adds an entry to a row. -/
def enter (s : LinearSystem α) (row : Nat) (e : Entry) : LinearSystem α :=
  match e.quantity with
  | .constant _ => { s with rhs := s.rhs.add row (-e.value) }
  | .multiple _ name =>
    let s := s.declare name
    { s with matrix := s.matrix.add (row, s.column name) e.value }

/-- Adds what a line holds to a row, and counts the equation if the line completes it. -/
def absorb (s : LinearSystem α) (row : Nat) (r : Reading) : LinearSystem α :=
  let s := r.entries.foldl (·.enter row ·) s
  match r.result with
  | .ok .complete => { s with equationCount := r.session.equations }
  | _ => s

end LinearSystem

end Simultaneous
