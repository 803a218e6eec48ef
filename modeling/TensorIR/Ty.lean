import TensorIR.Dim
import TensorIR.Element

/-!
# Types of values and functions

A value is a scalar or a ranked tensor. A signature lists the types that a function takes and
returns. A component is what a shape rule says about one result: dimensions, and an element kind
only where the rule sets one.
-/

namespace TensorIR

/-- A ranked tensor: an element kind and one dimension for each axis. -/
structure TensorTy where
  element : Element
  dims : List Dim
  deriving DecidableEq, Repr, Inhabited

namespace TensorTy

/-- The number of axes. -/
def rank (t : TensorTy) : Nat :=
  t.dims.length

/-- Every dimension is known. -/
def isStatic (t : TensorTy) : Bool :=
  t.dims.all Dim.isKnown

/-- The extents of a static tensor. -/
def staticDims? (t : TensorTy) : Option (List Nat) :=
  Dim.knownList? t.dims

/-- The number of elements of a static tensor, in a word of 64 bits. -/
def elementCount? (t : TensorTy) : Option Nat :=
  t.staticDims?.map fun extents => extents.foldl (fun n extent => n * extent % extentLimit) 1

/-- The dimensions, each followed by `x`, and the element kind, between angle brackets. -/
def text (t : TensorTy) : String :=
  "tensor<" ++ String.join (t.dims.map fun d => d.text ++ "x") ++ t.element.text ++ ">"

end TensorTy

/-- The type of a value. -/
inductive Ty where
  | scalar (element : Element)
  | tensor (tensor : TensorTy)
  deriving DecidableEq, Repr, Inhabited

namespace Ty

/-- The kind of a scalar, or of a tensor's elements. -/
def element : Ty → Element
  | scalar e => e
  | tensor t => t.element

def tensor? : Ty → Option TensorTy
  | scalar _ => none
  | tensor t => some t

/-- The dimensions of a type, a scalar having none. -/
def dims : Ty → List Dim
  | scalar _ => []
  | tensor t => t.dims

/-- No dimension is left open. -/
def isStatic : Ty → Bool
  | scalar _ => true
  | tensor t => t.isStatic

def text : Ty → String
  | scalar e => e.text
  | tensor t => t.text

/-- Texts of types, separated by commas. -/
def listText (tys : List Ty) : String :=
  ", ".intercalate (tys.map text)

end Ty

/-- The types that a function takes and returns. -/
structure Signature where
  inputs : List Ty := []
  outputs : List Ty := []
  deriving DecidableEq, Repr, Inhabited

def Signature.text (s : Signature) : String :=
  "(" ++ Ty.listText s.inputs ++ ") -> (" ++ Ty.listText s.outputs ++ ")"

/-- What a shape rule says about one result. -/
structure Component where
  dims : List Dim
  /-- The element kind of the result, where the rule sets it. -/
  element : Option Element := none
  deriving DecidableEq, Repr, Inhabited

/-- The type that a component gives a result of type `old`. The element kind stays unless the
component names one, and a scalar stays a scalar as long as no dimension is inferred. -/
def Component.resolve (c : Component) (old : Ty) : Ty :=
  let element := c.element.getD old.element
  match old, c.dims with
  | .scalar _, [] => .scalar element
  | _, dims => .tensor ⟨element, dims⟩

end TensorIR
