/-!
# The fewest decimal digits that read back

Among the decimals that round to a given binary number, `shortest` takes one with the fewest
digits, and of these the nearest. The search looks at the decimal grids with one digit, two digits
and so on: if any point of a grid rounds to the number, then one of the two points around the
number does. All arithmetic is exact, on fractions with one common denominator.
-/

namespace TensorIR

/-- The decimal `coefficient * 10 ^ exponent`. -/
structure Decimal where
  coefficient : Nat
  exponent : Int
  deriving DecidableEq, Repr, Inhabited

namespace Decimal

/-- The numbers that round to `middle / denominator`: those between `low / denominator` and
`high / denominator`, with the two ends if `closed`. -/
structure Interval where
  low : Nat
  middle : Nat
  high : Nat
  denominator : Nat
  closed : Bool
  deriving DecidableEq, Repr, Inhabited

namespace Interval

/-- The numbers that round to `mantissa * 2 ^ exponent`. The ends are half way to the neighbours, a
quarter of the step below where the neighbour below is nearer, and belong to an even mantissa. -/
def ofBinary (mantissa : Nat) (exponent : Int) (narrow : Bool) : Interval :=
  let up := 1 <<< (exponent - 2).toNat
  { low := (4 * mantissa - (if narrow then 1 else 2)) * up
    middle := 4 * mantissa * up
    high := (4 * mantissa + 2) * up
    denominator := 1 <<< (2 - exponent).toNat
    closed := mantissa % 2 == 0 }

/-- The interval in units of `10 ^ p`. -/
def inUnits (i : Interval) (p : Int) : Interval :=
  let up := Nat.pow 10 (-p).toNat
  { i with
    low := i.low * up
    middle := i.middle * up
    high := i.high * up
    denominator := i.denominator * Nat.pow 10 p.toNat }

/-- The natural number `k` lies in the interval. -/
def contains (i : Interval) (k : Nat) : Bool :=
  let x := k * i.denominator
  if i.closed then i.low ≤ x && x ≤ i.high else i.low < x && x < i.high

/-- The natural number of the interval that is next to its middle: below or above, whichever is
nearer, and by `tieUp` if both are equally near. -/
def nearest? (i : Interval) (tieUp : Bool) : Option Nat :=
  let below := i.middle / i.denominator
  match i.contains below, i.contains (below + 1) with
  | false, false => none
  | true, false => some below
  | false, true => some (below + 1)
  | true, true =>
    let twice := 2 * (i.middle % i.denominator)
    if twice < i.denominator || (twice == i.denominator && !tieUp) then some below
    else some (below + 1)

/-- The exponent of the leading decimal digit of the middle. -/
def leading (i : Interval) : Int :=
  let shift := (Nat.toDigits 10 i.denominator).length
  (Nat.toDigits 10 (i.middle * Nat.pow 10 shift / i.denominator)).length - 1 - shift

end Interval

/-- The first of the grids from `digits` digits on that has a point in the interval, with at most
`fuel` grids tried before the middle is cut off. -/
def search (i : Interval) (tieUp : Bool) : (fuel digits : Nat) → Decimal
  | 0, digits =>
    let p := i.leading + 1 - digits
    ⟨(i.inUnits p).middle / (i.inUnits p).denominator, p⟩
  | fuel + 1, digits =>
    let p := i.leading + 1 - digits
    match (i.inUnits p).nearest? tieUp with
    | some k => ⟨k, p⟩
    | none => search i tieUp fuel (digits + 1)

/-- Move zeros at the end of the coefficient into the exponent, at most `fuel` of them. -/
def strip : (fuel : Nat) → Decimal → Decimal
  | 0, d => d
  | fuel + 1, d =>
    if d.coefficient % 10 = 0 then strip fuel ⟨d.coefficient / 10, d.exponent + 1⟩ else d

/-- The shortest decimal that reads back as `mantissa * 2 ^ exponent`. Seventeen digits are always
enough for a mantissa of 53 bits. -/
def shortest (mantissa : Nat) (exponent : Int) (narrow tieUp : Bool) : Decimal :=
  (search (Interval.ofBinary mantissa exponent narrow) tieUp 17 1).strip 17

end Decimal

end TensorIR
