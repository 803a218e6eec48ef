import TensorIR.Relay.Defect

/-!
# Extents and axes

Sums and products of extents fail where the result does not fit in 64 bits. An axis is named by its
position from the front, or by a negative number counted from the back.
-/

namespace TensorIR.Relay

def checkedAdd (a b : Nat) : Except Defect Nat :=
  if a + b < extentLimit then .ok (a + b) else .error .overflow

def checkedMul (a b : Nat) : Except Defect Nat :=
  if a * b < extentLimit then .ok (a * b) else .error .overflow

/-- The product of `acc` and the dimensions, from the first to the last. It ends at the first
dynamic dimension, but only if no product before it fails. -/
def productFrom (acc : Nat) : List Dim → Except Defect Dim
  | [] => .ok (.known acc)
  | .dynamic :: _ => .ok .dynamic
  | .known n :: rest =>
    match checkedMul acc n with
    | .error e => .error e
    | .ok p => productFrom p rest

/-- The number of elements of a shape. -/
def product (dims : List Dim) : Except Defect Dim :=
  productFrom 1 dims

/-- The number that the low 64 bits of `n` stand for in two's complement. -/
def signedWord (n : Nat) : Int :=
  Int.bmod n extentLimit

/-- The position of an axis, for axes from `-rank` up to but not including `rank`. -/
def normalizeAxis (axis : Int) (rank : Nat) : Except Defect Nat :=
  let position := if axis < 0 then axis + rank else axis
  if position < 0 ∨ (rank : Int) ≤ position then .error (.axisOutOfRange axis rank)
  else .ok position.toNat

/-- The positions of axes, in the order in which they are listed. -/
def normalizeAxes (axes : List Int) (rank : Nat) : Except Defect (List Nat) :=
  axes.mapM fun axis => normalizeAxis axis rank

end TensorIR.Relay
