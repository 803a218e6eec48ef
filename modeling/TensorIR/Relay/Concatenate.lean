import TensorIR.Relay.Extent

/-!
# Concatenation

Operands of one rank are joined along an axis. The extents along that axis are added up; all others
must agree as far as they are known.
-/

namespace TensorIR.Relay

/-- The extent of two joined parts. -/
def joinDim : Dim → Dim → Except Defect Dim
  | .known a, .known b => (checkedAdd a b).map .known
  | _, _ => .ok .dynamic

/-- Join an operand to what has been joined so far, axis by axis, starting at `position`. -/
def joinDims (operand axis position : Nat) : List Dim → List Dim → Except Defect (List Dim)
  | a :: as, b :: bs => do
    let d ←
      if position = axis then joinDim a b
      else
        match a.unify? b with
        | none => .error (.operandDim operand position b a)
        | some d => .ok d
    return d :: (← joinDims operand axis (position + 1) as bs)
  | _, _ => .ok []

/-- Join the operands from number `operand` on to what has been joined so far. -/
def joinRest (i : Inputs) (axis : Nat) (joined : List Dim) :
    (operand count : Nat) → Except Fault (List Dim)
  | _, 0 => .ok joined
  | operand, count + 1 => do
    let dims ← i.operandDims operand
    if dims.length ≠ joined.length then
      Defect.fail (.operandRank operand dims.length joined.length)
    else
      let joined ← Defect.lift (joinDims operand axis 0 joined dims)
      joinRest i axis joined (operand + 1) count

/-- All operands, joined along `axis` (the first axis by default). -/
def concatenate : Rule := fun i => do
  if i.operandCount = 0 then Defect.fail .noOperands
  else
    let first ← i.operandDims 0
    let axis ← Defect.lift (normalizeAxis (← i.attrD Attr.toInt "axis" 0) first.length)
    return single (← joinRest i axis first 1 (i.operandCount - 1))

end TensorIR.Relay
