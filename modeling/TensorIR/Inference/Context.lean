import TensorIR.Func.Basic
import TensorIR.Inference.Inputs

/-!
# An operation in its function

A context is an operation with the function around it, and a shape rule is given all of it. A rule
reads operands and attributes through the context, which answers with errors that name the operation
where it can. The inputs of a context are the part that is enough to infer shapes from, and
`Context.report` words a fault of a computation on inputs as the context would have done.
-/

namespace TensorIR

structure Context where
  op : Operation
  func : Func
  deriving DecidableEq, Inhabited

namespace Context

/-! ## Errors -/

/-- Where a value comes from, as a reader of a message sees it. -/
def provenance (c : Context) : Origin → Provenance
  | .argument n => .argument n
  | .result op n =>
    match c.func.op? op with
    | some producer => .result n producer.name.text
    | none => .danglingResult n
  | .erased => .erased

def operandNote (c : Context) (v : ValueId) : OperandNote where
  value := v
  known := (c.func.value? v).map fun value => (value.ty, c.provenance value.origin)

/-- A failure to infer a shape, with all that is known about the operands. -/
def shapeError (c : Context) (reason : String) : Error :=
  .ruleFailed c.op.describe (c.op.operands.map c.operandNote) reason

/-! ## Operands and results -/

def operandCount (c : Context) : Nat :=
  c.op.operands.length

def resultCount (c : Context) : Nat :=
  c.op.results.length

/-- The current type of an operand. -/
def operandTy (c : Context) (index : Nat) : Except Error Ty :=
  match c.op.operands[index]? with
  | none =>
    .error (c.shapeError ("expected at least " ++ toString (index + 1) ++ " operands, got " ++
      toString c.operandCount))
  | some v => c.func.valueTy v

/-- The type of an operand that must be a tensor. -/
def operandTensor (c : Context) (index : Nat) : Except Error TensorTy :=
  match c.operandTy index with
  | .error e => .error e
  | .ok ty =>
    match ty.tensor? with
    | some t => .ok t
    | none => .error (c.shapeError ("operand " ++ toString index ++ " must be a tensor"))

def operandDims (c : Context) (index : Nat) : Except Error (List Dim) :=
  (c.operandTensor index).map TensorTy.dims

/-- The extents of an operand that must be a static tensor. -/
def operandExtents (c : Context) (index : Nat) : Except Error (List Nat) :=
  match c.operandTensor index with
  | .error e => .error e
  | .ok t =>
    match t.staticDims? with
    | some extents => .ok extents
    | none => .error (c.shapeError ("operand " ++ toString index ++ " must have a static shape"))

/-- The declared type of a result. -/
def resultTy (c : Context) (index : Nat) : Except Error Ty :=
  match c.op.results[index]? with
  | none => .error (c.shapeError ("result " ++ toString index ++ " out of range"))
  | some v => c.func.valueTy v

/-! ## Attributes -/

def hasAttr (c : Context) (key : String) : Bool :=
  (c.op.attribute? key).isSome

/-- Read an attribute that must be there. -/
def attr {α : Type} (c : Context) (read : Attr → Except Attr.Mismatch α) (key : String) :
    Except Error α :=
  match c.op.attribute? key with
  | none => .error (.missingAttribute c.op.describe key)
  | some a => (read a).mapError (.unreadableAttribute c.op.describe key)

/-- Read an attribute if it is there. One that cannot be read is an error all the same. -/
def attrD {α : Type} (c : Context) (read : Attr → Except Attr.Mismatch α) (key : String)
    (default : α) : Except Error α :=
  match c.op.attribute? key with
  | none => .ok default
  | some a => (read a).mapError (.unreadableAttribute c.op.describe key)

/-! ## Inputs -/

/-- What is enough to infer shapes from. -/
def inputs (c : Context) : Inputs where
  operands := c.op.operands.map c.func.valueTy?
  attributes := c.op.attributes

/-- The error for a fault of a computation on the inputs. -/
def report (c : Context) : Fault → Error
  | .shape reason => c.shapeError reason
  | .missingAttribute key => .missingAttribute c.op.describe key
  | .unreadableAttribute key mismatch => .unreadableAttribute c.op.describe key mismatch
  | .unknownOperand index => .valueNotFound (c.op.operands.getD index index) c.func.name

/-- A computation on the inputs, with the errors of this context. -/
def run {α : Type} (c : Context) (reading : Inputs → Except Fault α) : Except Error α :=
  (reading c.inputs).mapError c.report

end Context

end TensorIR
