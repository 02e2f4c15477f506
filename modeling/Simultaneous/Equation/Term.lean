import Simultaneous.Equation.Literal
import Simultaneous.Text.CharClass

/-!
The terms and operators of an equation.

A term is a number, a name, or a number and a name, perhaps with a sign before it. White space
may stand between these three, but not inside a number or a name. An operator is `+`, `-`
or `=`, and a sign directly after `=` belongs to it.
-/

namespace Simultaneous.Equation

open Text (skipBlanks isNameChar)

inductive Quantity where
  | constant (value : Literal)
  /-- A multiple of a variable, by 1 if no number is given. -/
  | multiple (coefficient : Option Literal) (name : String)
  deriving DecidableEq, Repr

structure Term where
  sign : Option Sign
  quantity : Quantity
  deriving DecidableEq, Repr

inductive Operator where
  | equals (sign : Option Sign)
  | sign (s : Sign)
  deriving DecidableEq, Repr

def Quantity.isMultiple : Quantity → Bool
  | constant _ => false
  | multiple _ _ => true

def Operator.isEquals : Operator → Bool
  | equals _ => true
  | sign _ => false

/-- Whether the operator turns the sign of the term after it. -/
def Operator.isMinus : Operator → Bool
  | equals s => s == some .minus
  | sign s => s == .minus

def readTerm (limits : Limits) : Reader Term := fun cs => do
  let (sign, rest) := readSign cs
  let (literal, rest) ← readLiteral limits (skipBlanks rest)
  let rest := skipBlanks rest
  let name := rest.takeWhile isNameChar
  if name.isEmpty then
    match literal with
    | none => .error ⟨.noTerm, rest⟩
    | some value => return (⟨sign, .constant value⟩, rest)
  else
    return (⟨sign, .multiple literal (String.ofList name)⟩, rest.dropWhile isNameChar)

def readOperator : List Char → Option (Operator × List Char)
  | '=' :: rest =>
    let (sign, rest) := readSign rest
    some (.equals sign, rest)
  | '+' :: rest => some (.sign .plus, rest)
  | '-' :: rest => some (.sign .minus, rest)
  | _ => none

theorem suffix_of_readTerm {limits : Limits} {cs rest : List Char} {t : Term}
    (h : readTerm limits cs = .ok (t, rest)) : rest <:+ cs ∧ rest.length < cs.length := by
  unfold readTerm at h
  simp only at h
  cases hr : readLiteral limits (skipBlanks (readSign cs).2) with
  | error o => simp [hr, bind, Except.bind] at h
  | ok r =>
    obtain ⟨literal, after⟩ := r
    obtain ⟨hs, hl⟩ := suffix_of_readLiteral hr
    have hcs : after <:+ cs :=
      (hs.trans (List.dropWhile_suffix _)).trans (readSign_suffix cs)
    have hb : skipBlanks after <:+ after := List.dropWhile_suffix _
    have hlen := (List.dropWhile_suffix (l := (readSign cs).2) Text.isBlank).length_le
    have hlen' := (readSign_suffix cs).length_le
    simp only [hr, bind, Except.bind, pure, Except.pure] at h
    split at h
    · split at h
      · simp at h
      · simp only [Except.ok.injEq, Prod.mk.injEq] at h
        refine h.2 ▸ ⟨hb.trans hcs, ?_⟩
        have := hl rfl
        have := hb.length_le
        unfold skipBlanks at *
        omega
    · next hname =>
      simp only [Except.ok.injEq, Prod.mk.injEq] at h
      refine h.2 ▸ ⟨((List.dropWhile_suffix _).trans hb).trans hcs, ?_⟩
      have := congrArg List.length
        (List.takeWhile_append_dropWhile (p := isNameChar) (l := skipBlanks after))
      have : 0 < ((skipBlanks after).takeWhile isNameChar).length := by
        simpa [List.length_pos_iff] using hname
      have := (hb.trans hcs).length_le
      simp only [List.length_append] at *
      omega

theorem suffix_of_readOperator {cs rest : List Char} {o : Operator}
    (h : readOperator cs = some (o, rest)) : rest <:+ cs ∧ rest.length < cs.length := by
  unfold readOperator at h
  split at h
  · next tail =>
    simp only [Option.some.injEq, Prod.mk.injEq] at h
    have := readSign_suffix tail
    exact h.2 ▸ ⟨this.trans (List.suffix_cons _ _), Nat.lt_succ_of_le this.length_le⟩
  · simp only [Option.some.injEq, Prod.mk.injEq] at h
    exact h.2 ▸ ⟨List.suffix_cons _ _, Nat.lt_succ_self _⟩
  · simp only [Option.some.injEq, Prod.mk.injEq] at h
    exact h.2 ▸ ⟨List.suffix_cons _ _, Nat.lt_succ_self _⟩
  · simp at h

end Simultaneous.Equation
