import TensorIR.Func.Basic

/-!
# Checking functions

A function is well formed if every operand is an argument or a result of an earlier operation, there
is exactly one return and it comes last, and recorded uses do not run in a circle.

Uses form a directed graph on operations. Operations that no remaining operation feeds are peeled
off again and again; what can never be peeled off feeds itself in a circle. `hasCycle` stands for
any test for circles: all that is used of it is that it decides whether there is one
(`Func.hasCycle_iff`), not how it finds it.
-/

namespace TensorIR.Func

/-! ## Circles of uses -/

/-- The operations that some operation of the list feeds. -/
def peel (uses : List Use) (ops : List OpId) : List OpId :=
  ops.filter fun id => uses.any fun use => use.consumer == id && ops.contains use.producer

/-- What is left of the operations after as many rounds of peeling as there are operations. -/
def unpeelable (uses : List Use) (ops : List OpId) : List OpId :=
  Nat.repeat (peel uses) ops.length ops

/-- Some operation depends on itself through recorded uses. -/
def hasCycle (f : Func) : Bool :=
  !(unpeelable f.uses f.opIds).isEmpty

/-! ## Operands, operations and functions -/

/-- An operand of the operation at a position must be defined before it. -/
def verifyOperand (f : Func) (position : Nat) (op : Operation) (v : ValueId) :
    Except Error Unit :=
  match f.value? v with
  | none => .error (.unknownUse f.name op.describe v)
  | some value =>
    match value.origin with
    | .argument _ => .ok ()
    | .erased => .error (.erasedUse f.name op.describe v)
    | .result producer _ =>
      if (f.body.position? producer).any (· < position) then .ok ()
      else .error (.useBeforeDefinition f.name op.describe v)

/-- The operation at a position has good operands, and comes last if it is a return. -/
def verifyNode (f : Func) (position : Nat) (node : Node) : Except Error Unit := do
  node.op.operands.forM (f.verifyOperand position node.op)
  if node.op.isReturn && f.opIds.getLast? != some node.id then
    .error (.returnNotLast f.name node.op.describe)
  else .ok ()

/-- The first way in which a function is not well formed. -/
def verify (f : Func) : Except Error Unit := do
  f.body.nodes.zipIdx.forM fun (node, position) => f.verifyNode position node
  discard f.terminator
  if f.hasCycle then .error (.cyclicUses f.name) else .ok ()

end TensorIR.Func
