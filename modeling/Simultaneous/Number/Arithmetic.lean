/-!
What the program asks of an arithmetic besides its operations: numbers that decimals are read as,
and comparisons of ratios with bounds.
-/

namespace Simultaneous.Number

/-! ### Decimals -/

/-- The number `coefficient * 10 ^ exponent`. -/
structure Decimal where
  coefficient : Nat
  exponent : Int
  deriving DecidableEq, Repr

/-- The number that a row of decimal digits denotes. -/
def ofDigits (ds : List Char) : Nat :=
  ds.foldl (fun v c => 10 * v + (c.toNat - '0'.toNat)) 0

/-- Numbers that a decimal can be read as, exactly or after rounding. -/
class OfDecimal (α : Type) where
  ofDecimal : Decimal → α

export OfDecimal (ofDecimal)

/-- The double nearest to a decimal; of two equally near ones the one with an even mantissa. -/
instance : OfDecimal Float where
  ofDecimal d := OfScientific.ofScientific d.coefficient (d.exponent < 0) d.exponent.natAbs

/-! ### Ratios -/

/-- A ratio is kept as its two parts, since what a zero denominator means is the business of the
arithmetic: a double ratio is the quotient, which may be infinite or not a number. -/
structure Ratio (α : Type) where
  num : α
  den : α
  deriving DecidableEq, Repr

instance [Zero α] [One α] : Zero (Ratio α) := ⟨⟨0, 1⟩⟩

class RatioOrder (α : Type) where
  /-- Whether the ratio is above the bound. -/
  exceeds : Ratio α → α → Bool
  /-- Whether the ratio is at the bound or above it. -/
  reaches : Ratio α → α → Bool

export RatioOrder (exceeds reaches)

def Ratio.toFloat (r : Ratio Float) : Float := r.num / r.den

instance : RatioOrder Float where
  exceeds r bound := r.toFloat > bound
  reaches r bound := r.toFloat ≥ bound

end Simultaneous.Number
