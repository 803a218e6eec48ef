import TensorIR.Func.Edit

/-!
# Building functions

A draft is a function under construction, item by item in program order. Finishing a draft computes
the declared signature: the types of the arguments, and either the outputs that were declared or the
types of what the one return gives back.
-/

namespace TensorIR

/-- One item of a function's text. -/
inductive Item where
  | argument (ty : Ty)
  | operation (op : Operation) (resultTys : List Ty)
  | ret (values : List ValueId)
  /-- Declare the outputs instead of reading them off the return. -/
  | outputs (tys : List Ty)
  deriving DecidableEq, Inhabited

/-- A function under construction. -/
structure Draft where
  func : Func
  outputs : Option (List Ty) := none
  deriving DecidableEq, Inhabited

namespace Draft

def add (d : Draft) : Item → Except Error Draft
  | .argument ty => .ok { d with func := (d.func.addArgument ty).2 }
  | .operation op resultTys => do
    let (_, func) ← d.func.pushOp op resultTys
    return { d with func }
  | .ret values => do
    let (_, func) ← d.func.pushReturn values
    return { d with func }
  | .outputs tys => .ok { d with outputs := some tys }

/-- The types that the one return gives back. -/
def returnedTys (f : Func) : Except Error (List Ty) := do
  let terminator ← f.terminator
  let op ← f.op terminator
  op.operands.mapM f.valueTy

def finish (d : Draft) : Except Error Func := do
  let outputs ← match d.outputs with
    | some tys => .ok tys
    | none => returnedTys d.func
  return d.func.setSignature ⟨d.func.argumentTys, outputs⟩

end Draft

namespace Func

/-- The items one after the other, with the signature computed at the end. -/
def build (name : String) (items : List Item) : Except Error Func := do
  let draft ← items.foldlM Draft.add { func := Func.empty name }
  draft.finish

end Func

end TensorIR
