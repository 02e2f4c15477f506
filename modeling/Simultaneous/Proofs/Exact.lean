import Mathlib
import Simultaneous.Number.Arithmetic
import Simultaneous.Proofs.Grammar

/-!
Exact arithmetic.

In an ordered field a decimal is the number it denotes, and a ratio with denominator 0 is read
off the sign of its numerator.
-/

namespace Simultaneous

open Number (Decimal OfDecimal Ratio RatioOrder exceeds reaches ofDecimal ofDigits)

variable {α : Type} [Field α]

instance (priority := low) exactOfDecimal : OfDecimal α where
  ofDecimal d := d.coefficient * 10 ^ d.exponent

/-- Zero over zero compares with nothing; any other ratio over zero is infinite. -/
instance (priority := low) exactRatioOrder [LinearOrder α] : RatioOrder α where
  exceeds r bound := if r.den = 0 then 0 < r.num else bound < r.num / r.den
  reaches r bound := if r.den = 0 then 0 < r.num else bound ≤ r.num / r.den

namespace Equation

/-- The digits before the point. -/
def Literal.whole (l : Literal) : List Char := l.mantissa.takeWhile (· != '.')

/-- The number in front of the power of ten. -/
def Literal.significand (l : Literal) : α :=
  ofDigits l.whole + ofDigits l.fraction / 10 ^ l.fraction.length

/-- The number that a literal writes down. -/
def Literal.exact (l : Literal) : α :=
  l.significand * 10 ^ l.exponent.elim 0 Exponent.value

lemma ofDigits_concat (ds : List Char) (c : Char) :
    ofDigits (ds ++ [c]) = 10 * ofDigits ds + (c.toNat - '0'.toNat) :=
  List.foldl_concat _ _ _ _

lemma ofDigits_append (xs ys : List Char) :
    ofDigits (xs ++ ys) = ofDigits xs * 10 ^ ys.length + ofDigits ys := by
  induction ys using List.reverseRecOn with
  | nil => simp [ofDigits]
  | append_singleton ys c ih =>
    rw [← List.append_assoc, ofDigits_concat, ih, ofDigits_concat, List.length_append,
      List.length_singleton, pow_succ]
    ring

/-- Behind the point of a number stand digits alone. -/
lemma filter_isDigit_mantissa {limit : ℕ} {l : Literal} (h : IsNumber limit l.mantissa) :
    l.mantissa.filter Char.isDigit = l.whole ++ l.fraction := by
  have hdigit {c : Char} (hc : c ∈ l.mantissa) (hne : c ≠ '.') : c.isDigit = true :=
    (h.chars c hc).resolve_right hne
  have hsplit : l.whole ++ l.mantissa.dropWhile (· != '.') = l.mantissa :=
    List.takeWhile_append_dropWhile
  have hwhole : l.whole.filter Char.isDigit = l.whole := by
    refine List.filter_eq_self.mpr fun c hc => hdigit (hsplit ▸ List.mem_append_left _ hc) ?_
    simpa using List.mem_takeWhile_imp hc
  conv_lhs => rw [← hsplit, List.filter_append, hwhole]
  rw [Literal.fraction]
  congr 1
  cases htail : l.mantissa.dropWhile (· != '.') with
  | nil => rfl
  | cons c tail =>
    have hc : c = '.' := by
      have := List.head_dropWhile_not (· != '.') (w := by rw [htail]; exact List.cons_ne_nil _ _)
      simpa [htail] using this
    subst hc
    rw [htail] at hsplit
    have hcount : tail.count '.' = 0 := by
      have := h.points
      rw [← hsplit, List.count_append, List.count_cons_self] at this
      omega
    rw [List.filter_cons_of_neg (by decide), List.drop_one, List.tail_cons]
    refine List.filter_eq_self.mpr fun c hc => hdigit ?_ fun hdot => ?_
    · rw [← hsplit]
      exact List.mem_append_right _ (.tail _ hc)
    · exact List.count_eq_zero.mp hcount (hdot ▸ hc)

/-- The digits without the point, and the exponent less the digits behind it, denote the number. -/
lemma ofDecimal_decimal [CharZero α] {limit : ℕ} {l : Literal} (h : IsNumber limit l.mantissa) :
    (ofDecimal l.decimal : α) = l.exact := by
  have hten : (10 : α) ≠ 0 := by norm_num
  change ((ofDigits (l.mantissa.filter Char.isDigit) : ℕ) : α) *
    10 ^ (l.exponent.elim 0 Exponent.value - (l.fraction.length : ℤ)) = _
  rw [filter_isDigit_mantissa h, ofDigits_append, zpow_sub₀ hten, zpow_natCast, Literal.exact,
    Literal.significand]
  push_cast
  field_simp

end Equation

end Simultaneous
