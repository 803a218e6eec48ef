import TensorIR.Module
import TensorIR.Registry

/-!
# Passes

A pass is a step of compilation that changes functions in place and tells whether it changed
anything. A pass that fails leaves what it has done so far. Passes run in the order of their stages.
-/

namespace TensorIR

/-- When a pass runs, from the first stage to the last. -/
inductive Stage where
  | inference
  | fusion
  | loopLowering
  | loopOptimization
  | structuredLowering
  | parallelLowering
  | targetLowering
  deriving DecidableEq, Repr, Inhabited

namespace Stage

/-- The place of a stage in the order of execution. -/
def rank : Stage → Nat
  | inference => 0
  | fusion => 1
  | loopLowering => 2
  | loopOptimization => 3
  | structuredLowering => 4
  | parallelLowering => 5
  | targetLowering => 6

instance : LE Stage := ⟨fun a b => a.rank ≤ b.rank⟩

instance (a b : Stage) : Decidable (a ≤ b) :=
  inferInstanceAs (Decidable (a.rank ≤ b.rank))

end Stage

/-- What a pass runs on. -/
inductive Scope where
  /-- One function after the other. -/
  | function
  /-- The module as a whole. -/
  | module
  deriving DecidableEq, Repr, Inhabited

/-- What a pass leaves: the function, and whether it was changed or what went wrong. -/
structure Outcome (α : Type) where
  state : α
  result : Except Error Bool

/-- A step of compilation. -/
structure Pass where
  name : String
  stage : Stage
  scope : Scope := .function
  /-- Every function that the pass is run on is put on record. -/
  traced : Bool := false
  run : Registry → Func → Outcome Func
  /-- What the pass does to a module as a whole, if not the same to each of its functions. -/
  moduleRun : Option (Registry → Module → Outcome Module) := none

namespace Pass

/-- Run a pass on functions one after the other, up to the first failure. -/
def runAll (p : Pass) (registry : Registry) : List Func → Outcome (List Func)
  | [] => ⟨[], .ok false⟩
  | f :: rest =>
    let first := p.run registry f
    match first.result with
    | .error e => ⟨first.state :: rest, .error e⟩
    | .ok changed =>
      let others := p.runAll registry rest
      ⟨first.state :: others.state, others.result.map (changed || ·)⟩

/-- The functions that `runAll` runs the pass on. -/
def reached (p : Pass) (registry : Registry) : List Func → List Func
  | [] => []
  | f :: rest =>
    match (p.run registry f).result with
    | .error _ => [f]
    | .ok _ => f :: p.reached registry rest

/-- Run a pass on a module as a whole: in a way of its own, or on each function. -/
def runOnModule (p : Pass) (registry : Registry) (m : Module) : Outcome Module :=
  match p.moduleRun with
  | some run => run registry m
  | none =>
    let outcome := p.runAll registry m.functions
    ⟨{ m with functions := outcome.state }, outcome.result⟩

/-- The functions that `runOnModule` is known to run the pass on; which ones a pass takes up in a
way of its own is its own affair. -/
def reachedInModule (p : Pass) (registry : Registry) (m : Module) : List Func :=
  match p.moduleRun with
  | some _ => []
  | none => p.reached registry m.functions

end Pass

end TensorIR
