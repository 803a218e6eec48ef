import TensorIR.Error
import TensorIR.Func.Body

/-!
# Functions

A function has values, a body of operations over them, and a declared signature. Uses of results
are recorded beside the operand lists: a use is a value on its way from the operation that produced
it to one that takes it. Consumers of a result are read from the recorded uses, consumers of an
argument from the operand lists.
-/

namespace TensorIR

/-- A result on its way from its producer to an operation that takes it as an operand. -/
structure Use where
  producer : OpId
  consumer : OpId
  value : ValueId
  deriving DecidableEq, Repr, Inhabited

structure Func where
  name : String
  /-- The argument values, in order. -/
  arguments : List ValueId := []
  /-- The declared types. -/
  signature : Signature := {}
  /-- Every value that was ever made, by number. -/
  values : Array Value := #[]
  body : Body := Body.empty
  uses : List Use := []
  deriving DecidableEq, Inhabited

namespace Func

/-- A function without arguments, operations and declared types. -/
def empty (name : String) : Func := { name }

/-! ## Values -/

def value? (f : Func) (v : ValueId) : Option Value :=
  f.values[v]?

def value (f : Func) (v : ValueId) : Except Error Value :=
  match f.value? v with
  | some value => .ok value
  | none => .error (.valueNotFound v f.name)

/-- The current type of a value. -/
def valueTy? (f : Func) (v : ValueId) : Option Ty :=
  (f.value? v).map Value.ty

def valueTy (f : Func) (v : ValueId) : Except Error Ty :=
  (f.value v).map Value.ty

def valueCount (f : Func) : Nat :=
  f.values.size

/-- The current types of the arguments. -/
def argumentTys (f : Func) : List Ty :=
  f.arguments.filterMap f.valueTy?

/-! ## Operations -/

def op? (f : Func) (id : OpId) : Option Operation :=
  f.body.op? id

def op (f : Func) (id : OpId) : Except Error Operation :=
  match f.op? id with
  | some op => .ok op
  | none => .error (.operationNotFound id f.name)

/-- The numbers of the operations, in program order. -/
def opIds (f : Func) : List OpId :=
  f.body.ids

def opCount (f : Func) : Nat :=
  f.body.size

/-- The numbers of the returns, in program order. -/
def returns (f : Func) : List OpId :=
  (f.body.nodes.filter fun node => node.op.isReturn).map Node.id

/-- The one return of the body. -/
def terminator (f : Func) : Except Error OpId :=
  match f.returns with
  | [id] => .ok id
  | [] => .error (.noTerminator f.name)
  | many => .error (.manyTerminators f.name many.length)

/-! ## Producers and consumers -/

/-- The operation that a value is a result of, `none` for an argument. -/
def producer (f : Func) (v : ValueId) : Except Error (Option OpId) :=
  match f.value v with
  | .error e => .error e
  | .ok value =>
    match value.origin with
    | .argument _ => .ok none
    | .result op _ => .ok (some op)
    | .erased => .error (.valueErased v f.name)

/-- The operations that take a value, in program order and once each. -/
def consumers (f : Func) (v : ValueId) : Except Error (List OpId) :=
  match f.producer v with
  | .error e => .error e
  | .ok (some op) => .ok (f.opIds.filter fun consumer => f.uses.contains ⟨op, consumer, v⟩)
  | .ok none =>
    .ok ((f.body.nodes.filter fun node => node.op.operands.contains v).map Node.id)

end Func

end TensorIR
