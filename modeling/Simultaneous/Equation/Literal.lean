import Simultaneous.Equation.Fault
import Simultaneous.Number.Arithmetic

/-!
Signs and number literals.

A literal is a run of digits with at most one point among them, and directly after it perhaps a
`^`, a sign and a power of ten: `2.5^-3` is 0.0025. Limits bound the length of both parts. What
is too long is a fault and is never cut in two.
-/

namespace Simultaneous.Equation

open Number (Decimal ofDigits)

inductive Sign where
  | plus
  | minus
  deriving DecidableEq, Repr

def readSign : List Char → Option Sign × List Char
  | '+' :: rest => (some .plus, rest)
  | '-' :: rest => (some .minus, rest)
  | cs => (none, cs)

structure Limits where
  /-- The most characters a number may have, the point included. -/
  numberLength : Nat := 20
  /-- The most digits an exponent may have. -/
  exponentLength : Nat := 2
  deriving DecidableEq, Repr

structure Exponent where
  negative : Bool
  digits : List Char
  deriving DecidableEq, Repr

structure Literal where
  /-- Digits, with at most one point among them. -/
  mantissa : List Char
  exponent : Option Exponent
  deriving DecidableEq, Repr

def Exponent.value (e : Exponent) : Int :=
  if e.negative then -(ofDigits e.digits : Int) else ofDigits e.digits

/-- The digits after the point. -/
def Literal.fraction (l : Literal) : List Char :=
  (l.mantissa.dropWhile (· != '.')).drop 1

/-- The number that the literal denotes. -/
def Literal.decimal (l : Literal) : Decimal where
  coefficient := ofDigits (l.mantissa.filter Char.isDigit)
  exponent := (l.exponent.elim 0 Exponent.value) - l.fraction.length

/-- The run of digits and points at the front, given the number of digits before it and whether
a point is among them. The digit past the limit and the second point are faults. -/
def readRun (limit : Nat) (digits : Nat) (pointed : Bool) : Reader (List Char)
  | [] => .ok ([], [])
  | c :: rest =>
    if c.isDigit then
      if digits < limit then do
        let (run, after) ← readRun limit (digits + 1) pointed rest
        return (c :: run, after)
      else .error ⟨.tooManyDigits, c :: rest⟩
    else if c = '.' then
      if pointed then .error ⟨.multipleDecimalPoints, c :: rest⟩
      else do
        let (run, after) ← readRun limit digits true rest
        return (c :: run, after)
    else .ok ([], c :: rest)

/-- The mantissa at the front, empty if there is none. A point alone is none. -/
def readMantissa (limit : Nat) : Reader (List Char) := fun cs => do
  let (run, rest) ← readRun limit 0 false cs
  if limit < run.length then .error ⟨.tooManyDigits, rest⟩
  else if run = ['.'] then .error ⟨.illegalEquation, cs⟩
  else return (run, rest)

/-- The exponent after a `^`. -/
def readExponent (limit : Nat) : Reader Exponent := fun cs =>
  let (sign, cs) := readSign cs
  let run := cs.takeWhile fun c => c.isDigit || c == '.'
  let rest := cs.dropWhile fun c => c.isDigit || c == '.'
  if run.isEmpty then .error ⟨.missingExponent, rest⟩
  else if limit < run.length || run.contains '.' then .error ⟨.illegalExponent, rest⟩
  else .ok (⟨sign == some .minus, run⟩, rest)

def readLiteral (limits : Limits) : Reader (Option Literal) := fun cs => do
  let (mantissa, rest) ← readMantissa limits.numberLength cs
  if mantissa.isEmpty then return (none, rest)
  else match rest with
    | '^' :: rest => do
      let (exponent, rest) ← readExponent limits.exponentLength rest
      return (some ⟨mantissa, some exponent⟩, rest)
    | _ => return (some ⟨mantissa, none⟩, rest)

theorem readSign_suffix (cs : List Char) : (readSign cs).2 <:+ cs := by
  unfold readSign
  split
  · exact List.suffix_cons _ _
  · exact List.suffix_cons _ _
  · exact List.suffix_rfl

/-- A run and what is left of it make up what was there. -/
theorem append_of_readRun {limit digits : Nat} {pointed : Bool} {cs run rest : List Char}
    (h : readRun limit digits pointed cs = .ok (run, rest)) : run ++ rest = cs := by
  induction cs generalizing digits pointed run rest with
  | nil => simp_all [readRun]
  | cons c cs ih =>
    rw [readRun] at h
    split at h
    · split at h
      · cases hr : readRun limit (digits + 1) pointed cs with
        | error o => simp [hr, bind, Except.bind] at h
        | ok r =>
          simp only [hr, bind, Except.bind, pure, Except.pure, Except.ok.injEq, Prod.mk.injEq] at h
          simp [← h.1, ← h.2, ih hr]
      · simp at h
    · split at h
      · split at h
        · simp at h
        · cases hr : readRun limit digits true cs with
          | error o => simp [hr, bind, Except.bind] at h
          | ok r =>
            simp only [hr, bind, Except.bind, pure, Except.pure, Except.ok.injEq,
              Prod.mk.injEq] at h
            simp [← h.1, ← h.2, ih hr]
      · simp_all

theorem append_of_readMantissa {limit : Nat} {cs run rest : List Char}
    (h : readMantissa limit cs = .ok (run, rest)) : run ++ rest = cs := by
  unfold readMantissa at h
  cases hr : readRun limit 0 false cs with
  | error o => simp [hr, bind, Except.bind] at h
  | ok r =>
    simp only [hr, bind, Except.bind, pure, Except.pure] at h
    split at h
    · simp at h
    · split at h
      · simp at h
      · simp only [Except.ok.injEq, Prod.mk.injEq] at h
        exact h.1 ▸ h.2 ▸ append_of_readRun hr

theorem suffix_of_readExponent {limit : Nat} {cs rest : List Char} {e : Exponent}
    (h : readExponent limit cs = .ok (e, rest)) : rest <:+ cs := by
  unfold readExponent at h
  simp only at h
  split at h
  · simp at h
  · split at h
    · simp at h
    · simp only [Except.ok.injEq, Prod.mk.injEq] at h
      exact h.2 ▸ (List.dropWhile_suffix _).trans (readSign_suffix cs)

theorem suffix_of_readLiteral {limits : Limits} {cs rest : List Char} {l : Option Literal}
    (h : readLiteral limits cs = .ok (l, rest)) :
    rest <:+ cs ∧ (l.isSome → rest.length < cs.length) := by
  unfold readLiteral at h
  cases hr : readMantissa limits.numberLength cs with
  | error o => simp [hr, bind, Except.bind] at h
  | ok r =>
    obtain ⟨mantissa, after⟩ := r
    have ha := append_of_readMantissa hr
    simp only [hr, bind, Except.bind, pure, Except.pure] at h
    split at h
    · obtain ⟨rfl, rfl⟩ : none = l ∧ after = rest := by simpa using h
      exact ⟨⟨mantissa, ha⟩, by simp⟩
    · next hm =>
      have hlt : after.length < cs.length := by
        have := congrArg List.length ha
        have : 0 < mantissa.length := by simpa [List.length_pos_iff] using hm
        simp only [List.length_append] at *
        omega
      split at h
      · next tail =>
        cases he : readExponent limits.exponentLength tail with
        | error o => simp [he] at h
        | ok e =>
          simp only [he, Except.ok.injEq, Prod.mk.injEq] at h
          have hs := (@suffix_of_readExponent _ _ e.2 e.1 he).trans
            (List.suffix_cons '^' tail)
          exact h.2 ▸ ⟨hs.trans ⟨mantissa, ha⟩, fun _ => Nat.lt_of_le_of_lt hs.length_le hlt⟩
      · obtain ⟨rfl, rfl⟩ : some ⟨mantissa, none⟩ = l ∧ after = rest := by simpa using h
        exact ⟨⟨mantissa, ha⟩, fun _ => hlt⟩

end Simultaneous.Equation
