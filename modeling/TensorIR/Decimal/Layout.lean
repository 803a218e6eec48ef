import TensorIR.Decimal.Shortest

/-!
# Decimal text of binary numbers

A pattern of 64 bits is read as a sign, an exponent of 11 bits and a fraction of 52 bits. A finite
number other than zero is `mantissa * 2 ^ exponent` up to its sign.

A `Layout` fixes what the digits leave open: where positional writing ends and which of two equally
near decimals is taken. Positional numbers always have a digit after the point.
-/

namespace TensorIR.Decimal

/-- What a pattern of 64 bits stands for. -/
inductive Binary64 where
  | nan
  | infinite (negative : Bool)
  | zero (negative : Bool)
  /-- The number `mantissa * 2 ^ exponent`. The flag `narrow` tells that its neighbour below is only
  half as far away as its neighbour above. -/
  | finite (negative : Bool) (mantissa : Nat) (exponent : Int) (narrow : Bool)
  deriving DecidableEq, Repr, Inhabited

/-- Read a pattern of 64 bits. -/
def Binary64.ofBits (bits : UInt64) : Binary64 :=
  let word := bits.toNat
  let negative := word >>> 63 == 1
  let biased : Nat := (word >>> 52) % 2048
  let fraction : Nat := word % (1 <<< 52)
  if biased = 2047 then
    if fraction = 0 then .infinite negative else .nan
  else if biased = 0 then
    if fraction = 0 then .zero negative else .finite negative fraction (-1074) false
  else .finite negative ((1 <<< 52) + fraction) (biased - 1075) (fraction == 0 && 1 < biased)

/-- The decisions of a decimal format. -/
structure Layout where
  /-- The least exponent of a leading digit that is written positionally. -/
  least : Int
  /-- The greatest exponent of a leading digit that is written positionally. -/
  greatest : Int
  /-- Of two equally near decimals, take the larger. -/
  tieUp : Bool
  deriving DecidableEq, Repr, Inhabited

def zeros (n : Nat) : String :=
  String.ofList (List.replicate n '0')

/-- Digits around a point, with a zero on a side that has none. -/
def positional (d : Decimal) : String :=
  let digits := Nat.toDigits 10 d.coefficient
  if 0 ≤ d.exponent then String.ofList digits ++ zeros d.exponent.toNat ++ ".0"
  else
    let places := (-d.exponent).toNat
    if places < digits.length then
      String.ofList (digits.take (digits.length - places)) ++ "." ++
        String.ofList (digits.drop (digits.length - places))
    else "0." ++ zeros (places - digits.length) ++ String.ofList digits

/-- One digit before the point, the others after it, and the exponent of the first. -/
def scientific (d : Decimal) : String :=
  let digits := Nat.toDigits 10 d.coefficient
  let exponent := d.exponent + digits.length - 1
  let fraction := if digits.length = 1 then "" else "." ++ String.ofList (digits.drop 1)
  String.ofList (digits.take 1) ++ fraction ++ "e" ++ toString exponent

/-- The decimal in the form that the layout asks for. -/
def Layout.write (l : Layout) (d : Decimal) : String :=
  let leading := d.exponent + (Nat.toDigits 10 d.coefficient).length - 1
  if l.least ≤ leading && leading ≤ l.greatest then d.positional else d.scientific

def sign (negative : Bool) : String :=
  if negative then "-" else ""

/-- The text of a pattern of 64 bits. -/
def Layout.text (l : Layout) (bits : UInt64) : String :=
  match Binary64.ofBits bits with
  | .nan => "NaN"
  | .infinite negative => sign negative ++ "inf"
  | .zero negative => sign negative ++ "0.0"
  | .finite negative mantissa exponent narrow =>
    sign negative ++ l.write (shortest mantissa exponent narrow l.tieUp)

end TensorIR.Decimal
