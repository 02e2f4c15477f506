import Mathlib
import Simultaneous.Equation.Term

/-!
The grammar of equations.

A token is spelled by characters, a line by tokens with white space between them, and a chain of
terms and operators by one or more lines of which all but the last stop after an operator. None of
this says how a line is read. Only one text has two readings, `=-` before a term, where the sign
may belong to the operator or to the term.
-/

namespace Simultaneous.Equation

open Text (isBlank isNameChar)

/-! ### Tokens -/

def IsBlank (cs : List Char) : Prop := ∀ c ∈ cs, isBlank c = true

/-- A name is a run of letters and underscores. -/
structure IsName (cs : List Char) : Prop where
  ne_nil : cs ≠ []
  chars : ∀ c ∈ cs, isNameChar c = true

/-- A number has at least one digit, at most one point, and no more characters than allowed. -/
structure IsNumber (limit : ℕ) (cs : List Char) : Prop where
  chars : ∀ c ∈ cs, c.isDigit = true ∨ c = '.'
  digit : ∃ c ∈ cs, c.isDigit = true
  points : cs.count '.' ≤ 1
  length_le : cs.length ≤ limit

def signText : Option Sign → List Char
  | none => []
  | some .plus => ['+']
  | some .minus => ['-']

def Operator.text : Operator → List Char
  | .equals s => '=' :: signText s
  | .sign s => signText (some s)

inductive Exponent.Spelled (limit : ℕ) : Exponent → List Char → Prop where
  | mk {ds : List Char} (s : Option Sign) (digits : ∀ c ∈ ds, c.isDigit = true)
    (length_pos : 1 ≤ ds.length) (length_le : ds.length ≤ limit) :
    Spelled limit ⟨s == some .minus, ds⟩ ('^' :: signText s ++ ds)

inductive Literal.Spelled (limits : Limits) : Literal → List Char → Prop where
  | plain {m : List Char} (number : IsNumber limits.numberLength m) : Spelled limits ⟨m, none⟩ m
  | scaled {m cs : List Char} {e : Exponent} (number : IsNumber limits.numberLength m)
    (exponent : e.Spelled limits.exponentLength cs) : Spelled limits ⟨m, some e⟩ (m ++ cs)

inductive Quantity.Spelled (limits : Limits) : Quantity → List Char → Prop where
  | constant {l : Literal} {cs : List Char} (literal : l.Spelled limits cs) :
    Spelled limits (.constant l) cs
  | name {cs : List Char} (name : IsName cs) : Spelled limits (.multiple none (String.ofList cs)) cs
  | multiple {l : Literal} {cs bs ds : List Char} (literal : l.Spelled limits cs)
    (blank : IsBlank bs) (name : IsName ds) :
    Spelled limits (.multiple (some l) (String.ofList ds)) (cs ++ bs ++ ds)

inductive Term.Spelled (limits : Limits) : Term → List Char → Prop where
  | mk {q : Quantity} {bs cs : List Char} (s : Option Sign) (blank : IsBlank bs)
    (quantity : q.Spelled limits cs) : Spelled limits ⟨s, q⟩ (signText s ++ bs ++ cs)

inductive Token where
  | term (t : Term)
  | operator (o : Operator)
  deriving DecidableEq, Repr

inductive Token.Spelled (limits : Limits) : Token → List Char → Prop where
  | term {t : Term} {cs : List Char} (h : t.Spelled limits cs) : Spelled limits (.term t) cs
  | operator (o : Operator) : Spelled limits (.operator o) o.text

/-! ### Lines -/

/-- The line spells the tokens, with white space anywhere between them. -/
inductive SpelledLine (limits : Limits) : List Token → List Char → Prop where
  | nil {bs : List Char} (blank : IsBlank bs) : SpelledLine limits [] bs
  | cons {t : Token} {ts : List Token} {bs cs rest : List Char} (blank : IsBlank bs)
    (token : t.Spelled limits cs) (more : SpelledLine limits ts rest) :
    SpelledLine limits (t :: ts) (bs ++ cs ++ rest)

/-- A line that stops after an operator goes on in the next line that is not blank, and a line
that stops after a term does not. -/
inductive SpelledGroup (limits : Limits) : List Token → List (List Char) → Prop where
  | last {ts : List Token} {t : Term} {line : List Char}
    (spelled : SpelledLine limits (ts ++ [.term t]) line) :
    SpelledGroup limits (ts ++ [.term t]) [line]
  | more {ts rest : List Token} {o : Operator} {line : List Char} {blanks lines : List (List Char)}
    (spelled : SpelledLine limits (ts ++ [.operator o]) line)
    (blank : ∀ b ∈ blanks, IsBlank b) (group : SpelledGroup limits rest lines) :
    SpelledGroup limits (ts ++ [.operator o] ++ rest) (line :: blanks ++ lines)

/-! ### Equations -/

/-- Terms with operators between them. -/
structure Chain where
  first : Term
  rest : List (Operator × Term)
  deriving DecidableEq, Repr

namespace Chain

def terms (e : Chain) : List Term := e.first :: e.rest.map Prod.snd

def operators (e : Chain) : List Operator := e.rest.map Prod.fst

def tokens (e : Chain) : List Token :=
  .term e.first :: e.rest.flatMap fun p => [.operator p.1, .term p.2]

/-- A chain is an equation if it has one equal sign and a term with a name. -/
structure IsEquation (e : Chain) : Prop where
  equals : e.operators.countP Operator.isEquals = 1
  named : ∃ t ∈ e.terms, t.quantity.isMultiple = true

end Chain

/-- A term where it stands in its equation. -/
structure Occurrence where
  /-- The equal sign stands somewhere before it. -/
  right : Bool
  /-- What stands directly before it, unless it is the first. -/
  operator : Option Operator
  term : Term
  deriving DecidableEq, Repr

namespace Occurrence

/-- The number of minus signs before the term, its own included. -/
def minuses (o : Occurrence) : ℕ :=
  [o.operator.any Operator.isMinus, o.term.sign == some .minus].count true

/-- The number of times that the sign of the term turns on the way to the left side. -/
def turns (o : Occurrence) : ℕ := o.right.toNat + o.minuses

end Occurrence

namespace Chain

/-- The terms behind the operators, `right` telling if an equal sign stands before them all. -/
def occurrencesAfter (right : Bool) : List (Operator × Term) → List Occurrence
  | [] => []
  | (o, t) :: rest =>
    ⟨right || o.isEquals, some o, t⟩ :: occurrencesAfter (right || o.isEquals) rest

def occurrences (e : Chain) : List Occurrence :=
  ⟨false, none, e.first⟩ :: occurrencesAfter false e.rest

end Chain

/-- The lines spell the equations, with blank lines anywhere between them. -/
inductive SpelledSystem (limits : Limits) : List Chain → List (List Char) → Prop where
  | nil : SpelledSystem limits [] []
  | blank {es : List Chain} {line : List Char} {lines : List (List Char)} (blank : IsBlank line)
    (more : SpelledSystem limits es lines) : SpelledSystem limits es (line :: lines)
  | equation {e : Chain} {es : List Chain} {group lines : List (List Char)}
    (equation : e.IsEquation) (spelled : SpelledGroup limits e.tokens group)
    (more : SpelledSystem limits es lines) : SpelledSystem limits (e :: es) (group ++ lines)

end Simultaneous.Equation
