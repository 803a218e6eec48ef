import TensorIR.Broadcast
import TensorIR.Relay.Extent

/-!
# Operators that work element by element

The shape of the result is that of the operand, or the broadcast of both operands. Bias addition
fits a vector to one axis of its data; a cast sets the element kind.
-/

namespace TensorIR.Relay

/-- One tensor, whose shape the result has. -/
def unary : Rule := fun i => do
  if i.operandCount ≠ 1 then Defect.fail (.operandCount 1 i.operandCount)
  else
    let dims ← i.operandDims 0
    return single dims

/-- Two tensors or scalars, whose broadcast the result is; a scalar has no axes. -/
def binary : Rule := fun i => do
  if i.operandCount ≠ 2 then Defect.fail (.operandCount 2 i.operandCount)
  else
    let left ← i.operandTy 0
    let right ← i.operandTy 1
    let dims ← (Broadcast.dims left.dims right.dims).mapError fun e => Fault.shape e.message
    return single dims

/-- The shape of `data` with the extent of the bias on an axis. -/
def addBias (data : List Dim) (bias : Dim) (axis : Nat) : Except Defect (List Dim) :=
  match data[axis]? with
  | none => .error (.axisOutOfRange axis data.length)
  | some d =>
    match d.unify? bias with
    | none => .error (.biasLength bias d axis)
    | some unified => .ok (data.set axis unified)

/-- Data and a vector, which is added along `axis` (the second axis by default). -/
def biasAdd : Rule := fun i => do
  let data ← i.operandDims 0
  let bias ← i.operandDims 1
  match bias with
  | [channels] =>
    let axis ← Defect.lift (normalizeAxis (← i.attrD Attr.toInt "axis" 1) data.length)
    return single (← Defect.lift (addBias data channels axis))
  | _ => Defect.fail (.biasRank bias.length)

/-- The shape of the operand, which must have `axis` (the last axis by default). -/
def softmax : Rule := fun i => do
  let dims ← i.operandDims 0
  let axis ← i.attrD Attr.toInt "axis" (-1)
  discard (Defect.lift (normalizeAxis axis dims.length))
  return single dims

/-- The shape of the operand with the element kind `dtype`. -/
def cast : Rule := fun i => do
  let dims ← i.operandDims 0
  let element ← i.attr Attr.toElement "dtype"
  return [⟨dims, some element⟩]

end TensorIR.Relay
