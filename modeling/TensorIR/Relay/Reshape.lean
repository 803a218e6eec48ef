import TensorIR.Relay.Extent

/-!
# Reshaping

The attribute `newshape` lists the new extents. An entry 0 copies the extent of the operand at its
place, one entry -1 stands for whatever keeps the number of elements, and -2 copies all remaining
extents of the operand.
-/

namespace TensorIR.Relay

/-- The new dimensions, `none` for the one to infer. The operand's next dimension is at `source`,
and `vacant` tells that no entry so far is one to infer. -/
def layOut (input : List Dim) (source : Nat) (vacant : Bool) :
    List Int → Except Defect (List (Option Dim))
  | [] => .ok []
  | entry :: rest => do
    if 0 < entry then
      return some (.known entry.toNat) :: (← layOut input (source + 1) vacant rest)
    else if entry = 0 then
      match input[source]? with
      | none => .error (.copyBeyondRank source input.length)
      | some d => return some d :: (← layOut input (source + 1) vacant rest)
    else if entry = -1 then
      if vacant then return none :: (← layOut input (source + 1) false rest)
      else .error .secondInferredEntry
    else if entry = -2 then
      return (input.drop source).map some ++ (← layOut input input.length vacant rest)
    else .error (.unsupportedEntry entry)

/-- The product of `acc` and the dimensions beside the one to infer, which must be known. -/
def knownProduct (acc : Nat) : List (Option Dim) → Except Defect Nat
  | [] => .ok acc
  | none :: rest => knownProduct acc rest
  | some .dynamic :: _ => .error .inferBesideDynamic
  | some (.known n) :: rest =>
    match checkedMul acc n with
    | .error e => .error e
    | .ok p => knownProduct p rest

/-- Put the inferred extent where it belongs. -/
def fill (extent : Nat) (slots : List (Option Dim)) : List Dim :=
  slots.map fun slot => slot.getD (.known extent)

/-- The new shape of an operand. -/
def reshapeDims (input : List Dim) (newshape : List Int) : Except Defect (List Dim) := do
  let slots ← layOut input 0 true newshape
  let count ← product input
  if slots.contains none then
    match count with
    | .dynamic => .error .inferFromDynamic
    | .known total =>
      let known ← knownProduct 1 slots
      if known = 0 ∨ total % known ≠ 0 then .error (.indivisible total newshape)
      else return fill (total / known) slots
  else
    let out := slots.filterMap id
    match count, ← product out with
    | .known before, .known after =>
      if before = after then return out else .error (.elementCount before after)
    | _, _ => return out

def reshape : Rule := fun i => do
  let input ← i.operandDims 0
  let newshape ← i.attr Attr.toInts "newshape"
  return single (← Defect.lift (reshapeDims input newshape))

/-- All axes but the first as one. -/
def flattenDims : List Dim → Except Defect (List Dim)
  | [] => .error .flattenRank
  | batch :: rest => do
    let flat ← product rest
    return [batch, flat]

def batchFlatten : Rule := fun i => do
  let input ← i.operandDims 0
  return single (← Defect.lift (flattenDims input))

end TensorIR.Relay
