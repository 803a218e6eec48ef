import TensorIR.Attr
import TensorIR.Ty

/-!
# Values and operations

An operation applies a named operator to operand values and owns its result values. A value knows
its type and where it comes from. Both are referred to by numbers inside their function.
-/

namespace TensorIR

/-- The number of a value in its function. -/
abbrev ValueId := Nat

/-- The number of an operation in its function. Numbers of erased operations are given out again. -/
abbrev OpId := Nat

namespace OpId

/-- How many numbers there are: the number of an operation is a word of 32 bits. -/
def limit : Nat := UInt32.size

/-- The operation that a number of any size names: the bits above the word are dropped. -/
def ofNat (n : Nat) : OpId := n % limit

end OpId

/-- Where a value comes from. -/
inductive Origin where
  /-- An argument of the function, by position. -/
  | argument (index : Nat)
  /-- A result of an operation, by position. -/
  | result (op : OpId) (index : Nat)
  /-- A result of an operation that is gone. Since its number may be given out again, the operation
  is forgotten. -/
  | erased
  deriving DecidableEq, Repr, Inhabited

/-- A value: assigned once, by its origin. -/
structure Value where
  ty : Ty
  origin : Origin
  deriving DecidableEq, Repr, Inhabited

/-- The name of an operator: a dialect, a dot and a base name, or a base name alone. -/
structure OpName where
  text : String
  deriving DecidableEq, Repr, Inhabited

namespace OpName

/-- The text up to the first dot, empty if there is none. -/
def dialect (n : OpName) : String :=
  if n.text.toList.contains '.' then String.ofList (n.text.toList.takeWhile (· != '.')) else ""

/-- The text after the first dot, all of it if there is none. -/
def base (n : OpName) : String :=
  if n.text.toList.contains '.' then
    String.ofList ((n.text.toList.dropWhile (· != '.')).drop 1)
  else n.text

/-- The operator that ends a function. -/
def terminator : OpName := ⟨"func.return"⟩

end OpName

/-- One application of an operator. -/
structure Operation where
  name : OpName
  operands : List ValueId := []
  results : List ValueId := []
  attributes : Attributes := ∅
  /-- Where the operation stands in the program it was read from. -/
  loc : Option String := none
  deriving DecidableEq, Inhabited

namespace Operation

def isReturn (op : Operation) : Bool :=
  op.name == OpName.terminator

/-- The name and, where it is known, the location. -/
def describe (op : Operation) : String :=
  match op.loc with
  | some loc => op.name.text ++ " at " ++ loc
  | none => op.name.text

def attribute? (op : Operation) (key : String) : Option Attr :=
  op.attributes.get? key

def setAttribute (op : Operation) (key : String) (value : Attr) : Operation :=
  { op with attributes := op.attributes.insert key value }

end Operation

end TensorIR
