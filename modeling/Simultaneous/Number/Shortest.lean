import Simultaneous.Number.Arithmetic

/-!
The shortest decimal that reads back as a given double.

A finite double is `mantissa * 2 ^ exponent`, and a decimal reads back as it when it lies between
the midpoints to the two neighbouring doubles, the midpoints themselves included when the
mantissa is even. The search goes down the grids of multiples of `10 ^ k`, from one too coarse to
tell the double from zero to finer ones, and looks on each at the two points next to the double.
The first grid with a point in the interval has the fewest digits. All arithmetic is on natural
numbers, over a common denominator.
-/

namespace Simultaneous.Number

/-- The parts of a double. -/
inductive Parts where
  | nan
  | infinite (negative : Bool)
  | finite (negative : Bool) (mantissa : Nat) (exponent : Int)
  deriving DecidableEq, Repr

/-- The leading bit of a mantissa, which is not stored unless the double is subnormal. -/
def implicitBit : Nat := 0x10000000000000

def Parts.ofBits (bits : Nat) : Parts :=
  let negative := bits.testBit 63
  let field := bits / implicitBit % 2048
  let fraction := bits % implicitBit
  if field = 2047 then
    if fraction = 0 then .infinite negative else .nan
  else if field = 0 then .finite negative fraction (-1074)
  else .finite negative (implicitBit + fraction) ((field : Int) - 1075)

def Parts.ofFloat (x : Float) : Parts :=
  .ofBits x.toBits.toNat

/-- A positive number `value / unit` and the interval `low / unit` to `high / unit` around it. -/
structure Interval where
  low : Nat
  value : Nat
  high : Nat
  unit : Nat
  closed : Bool
  deriving DecidableEq, Repr

/-- The reals that are nearer to a double than to its neighbours. A double whose mantissa is the
least of its binade has its lower neighbour at half the distance of its upper one. -/
def Interval.around (mantissa : Nat) (exponent : Int) : Interval :=
  let below := if mantissa = implicitBit ∧ -1074 < exponent then 1 else 2
  let scale := Nat.pow 2 (exponent - 2).toNat
  { low := (4 * mantissa - below) * scale
    value := 4 * mantissa * scale
    high := (4 * mantissa + 2) * scale
    unit := Nat.pow 2 (2 - exponent).toNat
    closed := mantissa % 2 == 0 }

/-- The interval as seen from the grid of multiples of `10 ^ k`. -/
def Interval.scaled (i : Interval) (k : Int) : Interval :=
  let up := Nat.pow 10 (-k).toNat
  { i with low := i.low * up, value := i.value * up, high := i.high * up,
           unit := i.unit * Nat.pow 10 k.toNat }

/-- Whether the interval holds the number `n`. -/
def Interval.holds (i : Interval) (n : Nat) : Bool :=
  if i.closed then i.low ≤ n * i.unit && n * i.unit ≤ i.high
  else i.low < n * i.unit && n * i.unit < i.high

/-- The natural number in the interval that is nearest to its value, the upper of two. Only the
two next to the value need a look. -/
def Interval.nearest? (i : Interval) : Option Nat :=
  let down := i.value / i.unit
  match i.holds down, i.holds (down + 1) with
  | true, true =>
    some (if i.value - down * i.unit < (down + 1) * i.unit - i.value then down else down + 1)
  | true, false => some down
  | false, true => some (down + 1)
  | false, false => none

/-- An exponent `k` such that the interval is not above `10 ^ (k + 1)`, at most one too high. -/
def Interval.top (i : Interval) : Int :=
  if i.unit ≤ i.value then (Nat.toDigits 10 (i.value / i.unit)).length
  else 1 - ((Nat.toDigits 10 (i.unit / i.value)).length : Int)

/-- The first hit on the grids from `10 ^ k` on downwards. -/
def Interval.search (i : Interval) (k : Int) : Nat → Decimal
  | 0 => ⟨(i.scaled k).value / (i.scaled k).unit, k⟩
  | grids + 1 =>
    match (i.scaled k).nearest? with
    | some n => ⟨n, k⟩
    | none => i.search (k - 1) grids

/-- The decimal with the fewest digits in the interval. Seventeen digits tell any two doubles
apart, so that twenty grids are enough. -/
def Interval.shortest (i : Interval) : Decimal :=
  i.search i.top 20

/-- The shortest decimal that reads back as the double `mantissa * 2 ^ exponent`. -/
def shortest (mantissa : Nat) (exponent : Int) : Decimal :=
  if mantissa = 0 then ⟨0, 0⟩ else (Interval.around mantissa exponent).shortest

end Simultaneous.Number
