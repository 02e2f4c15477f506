import Simultaneous.Number.Shortest

/-!
How doubles are written: always with the digits of the shortest decimal that reads back, in one
of three layouts.
-/

namespace Simultaneous.Number

inductive Layout where
  /-- All digits in place, never a power of ten: `1`, `-2.5`, `0.00000001`. -/
  | positional
  /-- As positional with a point in every number, but scientific for magnitudes below `10 ^ -4`
  and from `10 ^ 16` on: `1.0`, `1e16`, `9.91e-7`. -/
  | pointed
  /-- One digit before the point and always a power of ten: `0e0`, `3.608e-16`. -/
  | scientific
  deriving DecidableEq, Repr

def zeros (n : Nat) : List Char :=
  List.replicate n '0'

/-- All digits in place; `whole` follows a number without a fraction. -/
def Decimal.inPlace (d : Decimal) (whole : List Char) : List Char :=
  let digits := Nat.toDigits 10 d.coefficient
  if 0 ≤ d.exponent then digits ++ zeros d.exponent.toNat ++ whole
  else
    let places := d.exponent.natAbs
    if places < digits.length then
      digits.take (digits.length - places) ++ '.' :: digits.drop (digits.length - places)
    else '0' :: '.' :: zeros (places - digits.length) ++ digits

/-- The power of ten of the first digit. -/
def Decimal.magnitude (d : Decimal) : Int :=
  d.exponent + ((Nat.toDigits 10 d.coefficient).length - 1 : Nat)

def Decimal.withPower (d : Decimal) : List Char :=
  let mantissa :=
    match Nat.toDigits 10 d.coefficient with
    | first :: second :: more => first :: '.' :: second :: more
    | digits => digits
  mantissa ++ 'e' :: (toString d.magnitude).toList

def Layout.digits (layout : Layout) (d : Decimal) : List Char :=
  match layout with
  | positional => d.inPlace []
  | pointed =>
    if d.coefficient = 0 ∨ -4 ≤ d.magnitude ∧ d.magnitude < 16 then d.inPlace ['.', '0']
    else d.withPower
  | scientific => d.withPower

/-- The sign of a zero is written, the sign of a `NaN` is not. -/
def Layout.chars (layout : Layout) : Parts → List Char
  | .nan => "NaN".toList
  | .infinite negative => sign negative "inf".toList
  | .finite negative mantissa exponent =>
    sign negative (layout.digits (shortest mantissa exponent))
where
  sign (negative : Bool) (text : List Char) : List Char :=
    if negative then '-' :: text else text

def Layout.write (layout : Layout) (x : Float) : String :=
  String.ofList (layout.chars (.ofFloat x))

end Simultaneous.Number
