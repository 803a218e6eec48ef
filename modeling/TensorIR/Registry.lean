import TensorIR.Operator

/-!
# Registries

A registry maps names of operations to operators. A name that is not registered answers like an
operator that can be neither fused nor asked for shapes.
-/

namespace TensorIR

structure Registry where
  operators : StringMap Operator := ∅

namespace Registry

def empty : Registry := {}

instance : Inhabited Registry := ⟨empty⟩

/-- Register an operator under a name; a later registration wins. -/
def register (r : Registry) (name : String) (operator : Operator) : Registry :=
  ⟨r.operators.insert name operator⟩

/-- Register operators under their own names, in order. -/
def ofList (operators : List Operator) : Registry :=
  operators.foldl (fun r operator => r.register operator.name operator) empty

def get? (r : Registry) (name : String) : Option Operator :=
  r.operators.get? name

/-- The shape rule of a name, if it is registered and has one. -/
def rule? (r : Registry) (name : String) : Option ShapeRule :=
  (r.get? name).bind Operator.rule

def pattern (r : Registry) (name : String) : Pattern :=
  match r.get? name with
  | some operator => operator.pattern
  | none => .isolated

def contains (r : Registry) (name : String) : Bool :=
  r.operators.contains name

def size (r : Registry) : Nat :=
  r.operators.size

def isEmpty (r : Registry) : Bool :=
  r.operators.isEmpty

/-- The registered names, in increasing order. -/
def names (r : Registry) : List String :=
  r.operators.keys

/-- What the rule of an operation's name says about it, `none` without a rule. -/
def infer? (r : Registry) (c : Context) : Option (Except Error (List Component)) :=
  (r.rule? c.op.name.text).map fun rule => rule c

end Registry

end TensorIR
