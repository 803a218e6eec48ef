import TensorIR.Inference.Context

/-!
# Operators

What the compiler knows about the operations of one name: how they may be fused with others, and, if
it has one, the rule that infers the shapes of their results.
-/

namespace TensorIR

/-- How an operator may be fused, from the most to the least fusable. -/
inductive Pattern where
  /-- Each element of the result depends on the element at its place. -/
  | elementwise
  /-- Elementwise after broadcasting. -/
  | broadcast
  /-- Each element of the result is an element of the operand. -/
  | injective
  /-- A reduction that may be reordered. -/
  | reduction
  /-- Complex, but elementwise consumers can be worked into its output. -/
  | outputFusable
  /-- Never fused. -/
  | isolated
  deriving DecidableEq, Repr, Inhabited

namespace Pattern

/-- The place of a pattern in the order from most to least fusable. -/
def rank : Pattern → Nat
  | elementwise => 0
  | broadcast => 1
  | injective => 2
  | reduction => 3
  | outputFusable => 4
  | isolated => 5

instance : LE Pattern := ⟨fun a b => a.rank ≤ b.rank⟩

instance (a b : Pattern) : Decidable (a ≤ b) :=
  inferInstanceAs (Decidable (a.rank ≤ b.rank))

/-- The less fusable of two patterns. -/
def max (a b : Pattern) : Pattern :=
  if a ≤ b then b else a

def text : Pattern → String
  | elementwise => "ElemWise"
  | broadcast => "Broadcast"
  | injective => "Injective"
  | reduction => "CommReduce"
  | outputFusable => "OutEWiseFusable"
  | isolated => "Opaque"

def all : List Pattern :=
  [elementwise, broadcast, injective, reduction, outputFusable, isolated]

def parse? (s : String) : Option Pattern :=
  all.find? fun p => p.text == s

end Pattern

/-- One component for each result of the operation, or the reason why there is none. -/
abbrev ShapeRule := Context → Except Error (List Component)

namespace ShapeRule

/-- The rule that sees only operand types and attributes. -/
def ofInputs (rule : Inputs → Except Fault (List Component)) : ShapeRule :=
  fun c => c.run rule

/-- The same components for every operation. -/
def fixed (components : List Component) : ShapeRule :=
  fun _ => .ok components

/-- The dimensions of the first operand. -/
def copyFirst : ShapeRule :=
  fun c => (c.operandDims 0).map fun dims => [⟨dims, none⟩]

/-- The dimensions of the first operand, which must be static. -/
def copyStatic : ShapeRule :=
  fun c => (c.operandExtents 0).map fun extents => [⟨extents.map .known, none⟩]

/-- No shape can be inferred, for a given reason. -/
def refuse (reason : String) : ShapeRule :=
  fun c => .error (c.shapeError reason)

/-- Fail with a given error. -/
def fail (e : Error) : ShapeRule :=
  fun _ => .error e

end ShapeRule

structure Operator where
  name : String
  pattern : Pattern := .isolated
  /-- How to infer the shapes of results, if the operator can tell. -/
  rule : Option ShapeRule := none

end TensorIR
