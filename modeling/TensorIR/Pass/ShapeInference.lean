import TensorIR.Pass.Basic
import TensorIR.Relay.Dialect

/-!
# Shape inference

One walk over the body in program order. Each operation of the dialect that has a shape rule is
asked for the shapes of its results, and their types are overwritten; since every operand is
defined before it is used, one walk is enough. Then the signature is made to agree with the
arguments and with what is returned. A failure leaves the types inferred so far.
-/

namespace TensorIR.ShapeInference

/-- Errors of a rule that are not about shapes are put down to the operation. -/
def blame (op : Operation) (e : Error) : Error :=
  if e.kind = .shapeInference then e else .ruleRaised op.describe e

/-- The components that a rule infers, one for each result. -/
def components (f : Func) (op : Operation) (rule : ShapeRule) :
    Except Error (List Component) :=
  match rule ⟨op, f⟩ with
  | .error e => .error (blame op e)
  | .ok cs =>
    if cs.length = op.results.length then .ok cs
    else .error (.resultCount op.describe cs.length op.results.length)

/-- The results whose types change, with their new types. -/
def updates (f : Func) : List (ValueId × Component) → Except Error (List (ValueId × Ty))
  | [] => .ok []
  | (v, c) :: rest =>
    match f.valueTy v with
    | .error e => .error e
    | .ok old =>
      match updates f rest with
      | .error e => .error e
      | .ok us => .ok (if c.resolve old = old then us else (v, c.resolve old) :: us)

/-- Overwrite types one after the other. -/
def write (f : Func) (us : List (ValueId × Ty)) : Func :=
  us.foldl (fun f u => { f with values := f.values.modify u.1 fun v => { v with ty := u.2 } }) f

/-- Infer the types of the results of one operation, and tell whether any changes. -/
def inferOp (f : Func) (op : Operation) (rule : ShapeRule) : Except Error (Func × Bool) :=
  match components f op rule with
  | .error e => .error e
  | .ok cs =>
    match updates f (op.results.zip cs) with
    | .error e => .error e
    | .ok us => .ok (write f us, !us.isEmpty)

/-- The rule for an operation, unless the walk passes over it: the return, operations of other
dialects and operations without a rule. -/
def ruleFor? (registry : Registry) (dialect : String) (terminator : OpId) (node : Node) :
    Option ShapeRule :=
  if node.id = terminator || node.op.name.dialect != dialect then none
  else registry.rule? node.op.name.text

/-- Walk over operations in program order. -/
def walk (registry : Registry) (dialect : String) (terminator : OpId) :
    List Node → Func → Outcome Func
  | [], f => ⟨f, .ok false⟩
  | node :: rest, f =>
    match ruleFor? registry dialect terminator node with
    | none => walk registry dialect terminator rest f
    | some rule =>
      match inferOp f node.op rule with
      | .error e => ⟨f, .error e⟩
      | .ok (g, changed) =>
        let others := walk registry dialect terminator rest g
        ⟨others.state, others.result.map (changed || ·)⟩

/-- The signature that the arguments and the return ask for. -/
def actualSignature (f : Func) (terminator : OpId) : Except Error Signature := do
  let op ← f.op terminator
  let outputs ← op.operands.mapM f.valueTy
  return ⟨f.argumentTys, outputs⟩

/-- Declare the signature that the body asks for, and tell whether it changes. -/
def reconcile (f : Func) (terminator : OpId) : Outcome Func :=
  match actualSignature f terminator with
  | .error e => ⟨f, .error e⟩
  | .ok signature =>
    if f.signature = signature then ⟨f, .ok false⟩ else ⟨f.setSignature signature, .ok true⟩

def run (dialect : String) (registry : Registry) (f : Func) : Outcome Func :=
  match f.terminator with
  | .error e => ⟨f, .error e⟩
  | .ok terminator =>
    let walked := walk registry dialect terminator f.body.nodes f
    match walked.result with
    | .error e => ⟨walked.state, .error e⟩
    | .ok changed =>
      let last := reconcile walked.state terminator
      ⟨last.state, last.result.map (changed || ·)⟩

/-- Shape inference for one dialect. -/
def pass (dialect : String) : Pass where
  name := "shape_inference"
  stage := .inference
  run := run dialect

end TensorIR.ShapeInference
