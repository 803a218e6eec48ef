import TensorIR.Relay.Defect

/-!
# Matrix products

Both products take their right operand transposed, so the axis that is summed over is the last one
on either side.
-/

namespace TensorIR.Relay

/-- The requested number of rows must be positive and that of the weight, as far as it is known. -/
def denseUnits (requested : Option Int) (rows : Dim) : Except Defect Dim :=
  match requested with
  | none => .ok rows
  | some units =>
    if units ≤ 0 then .error (.notPositive "units" units)
    else
      match rows.unify? (.known units.toNat) with
      | none => .error (.denseUnits units rows)
      | some d => .ok d

/-- Data with any axes in front of the summed one, and a weight matrix of `units` rows. -/
def dense : Rule := fun i => do
  let data ← i.operandDims 0
  let weight ← i.operandDims 1
  match data.getLast?, weight with
  | none, _ => Defect.fail .denseDataRank
  | some summed, [rows, columns] =>
    if (summed.unify? columns).isNone then Defect.fail (.denseReduction summed columns)
    else
      let units ← Defect.lift (denseUnits (← i.attr? Attr.toInt "units") rows)
      return single (data.dropLast ++ [units])
  | some _, _ => Defect.fail (.denseWeightRank weight.length)

/-- The batch extent of a product; a batch of 1 on either side is repeated. -/
def batchDim (left right : Dim) : Except Defect Dim :=
  if left = .known 1 then .ok right
  else if right = .known 1 then .ok left
  else
    match left.unify? right with
    | none => .error (.batchExtent left right)
    | some d => .ok d

/-- Two stacks of matrices. -/
def batchMatmul : Rule := fun i => do
  let left ← i.operandDims 0
  let right ← i.operandDims 1
  match left, right with
  | [b, m, k], [b', n, k'] =>
    if (k.unify? k').isNone then Defect.fail (.batchReduction k k')
    else
      let batch ← Defect.lift (batchDim b b')
      return single [batch, m, n]
  | _, _ => Defect.fail (.batchRanks left.length right.length)

end TensorIR.Relay
