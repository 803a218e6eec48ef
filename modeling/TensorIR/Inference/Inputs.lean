import TensorIR.Attr
import TensorIR.Ty

/-!
# What shapes are inferred from

The types of the operands and the attributes of an operation, without the numbers of values, other
operations or the declared types of results. What goes wrong in a computation on these is a `Fault`,
which says nothing about where the operation stands. Shape rules are given more than this, and have
to be shown to look at nothing else.
-/

namespace TensorIR

/-- Why no shape can be inferred from inputs. -/
inductive Fault where
  /-- The shape cannot be inferred. -/
  | shape (reason : String)
  | missingAttribute (key : String)
  | unreadableAttribute (key : String) (mismatch : Attr.Mismatch)
  /-- The operand at a position is a value that is not there. -/
  | unknownOperand (index : Nat)
  deriving DecidableEq, Repr, Inhabited

/-- The operand types, `none` for a value that is not there, and the attributes of an operation. -/
structure Inputs where
  operands : List (Option Ty)
  attributes : Attributes
  deriving DecidableEq, Inhabited

namespace Inputs

/-! ## Operands -/

def operandCount (i : Inputs) : Nat :=
  i.operands.length

def operandTy (i : Inputs) (index : Nat) : Except Fault Ty :=
  match i.operands[index]? with
  | some (some ty) => .ok ty
  | some none => .error (.unknownOperand index)
  | none =>
    .error (.shape ("expected at least " ++ toString (index + 1) ++ " operands, got " ++
      toString i.operandCount))

/-- The type of an operand that must be a tensor. -/
def operandTensor (i : Inputs) (index : Nat) : Except Fault TensorTy :=
  match i.operandTy index with
  | .error e => .error e
  | .ok ty =>
    match ty.tensor? with
    | some t => .ok t
    | none => .error (.shape ("operand " ++ toString index ++ " must be a tensor"))

def operandDims (i : Inputs) (index : Nat) : Except Fault (List Dim) :=
  (i.operandTensor index).map TensorTy.dims

/-- The extents of an operand that must be a static tensor. -/
def operandExtents (i : Inputs) (index : Nat) : Except Fault (List Nat) :=
  match i.operandTensor index with
  | .error e => .error e
  | .ok t =>
    match t.staticDims? with
    | some extents => .ok extents
    | none => .error (.shape ("operand " ++ toString index ++ " must have a static shape"))

/-! ## Attributes -/

def hasAttr (i : Inputs) (key : String) : Bool :=
  i.attributes.contains key

/-- Read an attribute that must be there. -/
def attr {α : Type} (i : Inputs) (read : Attr → Except Attr.Mismatch α) (key : String) :
    Except Fault α :=
  match i.attributes.get? key with
  | none => .error (.missingAttribute key)
  | some a => (read a).mapError (.unreadableAttribute key)

/-- Read an attribute if it is there. One that cannot be read is an error all the same. -/
def attrD {α : Type} (i : Inputs) (read : Attr → Except Attr.Mismatch α) (key : String)
    (default : α) : Except Fault α :=
  match i.attributes.get? key with
  | none => .ok default
  | some a => (read a).mapError (.unreadableAttribute key)

/-- Read an attribute if it is there. -/
def attr? {α : Type} (i : Inputs) (read : Attr → Except Attr.Mismatch α) (key : String) :
    Except Fault (Option α) :=
  i.attrD (fun a => (read a).map some) key none

end Inputs

end TensorIR
