import TensorIR.Func.Edit
import TensorIR.Pass.Basic

/-!
# Fusion groups

The operations of a dialect are divided into groups that can share a loop nest. In program order,
an operation joins the group of the operation that produces its first operand if nothing else takes
that operand and the patterns allow it; otherwise it opens a new group. The anchor of a group is
the least fusable pattern of its members. Each operation gets its group as an attribute. Nothing is
written unless every type is static.
-/

namespace TensorIR.Fusion

/-- The attribute that holds the group of an operation. -/
def groupAttr : String := "fusion_group"

/-- An operation of a pattern may join a group with an anchor. -/
def canJoin (anchor pattern : Pattern) : Bool :=
  pattern ≤ Pattern.injective &&
    (anchor ≤ Pattern.injective ||
      (anchor == .outputFusable && pattern ≤ Pattern.broadcast))

/-! ## Static types -/

def checkArgument (f : Func) (v : ValueId) : Except Error Unit := do
  let ty ← f.valueTy v
  if ty.isStatic then .ok () else .error (.unresolvedArgument f.name v ty)

def checkResult (f : Func) (op : Operation) (v : ValueId) : Except Error Unit := do
  let ty ← f.valueTy v
  if ty.isStatic then .ok () else .error (.unresolvedResult f.name v op.describe ty)

/-- Every argument and every result has a static type. -/
def checkStatic (f : Func) : Except Error Unit := do
  f.arguments.forM (checkArgument f)
  f.body.ops.forM fun op => op.results.forM (checkResult f op)

/-! ## Groups -/

/-- The groups of the operations so far, and the anchor of each group. -/
structure Plan where
  groups : List (OpId × Nat) := []
  anchors : Array Pattern := #[]
  deriving DecidableEq, Inhabited

namespace Plan

def groupOf? (p : Plan) (id : OpId) : Option Nat :=
  p.groups.lookup id

/-- Put an operation into a group that is there. -/
def join (p : Plan) (id : OpId) (pattern : Pattern) (group : Nat) : Plan where
  groups := p.groups ++ [(id, group)]
  anchors := p.anchors.modify group (·.max pattern)

/-- Put an operation into a group of its own. -/
def start (p : Plan) (id : OpId) (pattern : Pattern) : Plan where
  groups := p.groups ++ [(id, p.anchors.size)]
  anchors := p.anchors.push pattern

end Plan

/-- The group of the producer of an operation's first operand, if the operation may join it. -/
def joinable? (f : Func) (p : Plan) (op : Operation) (pattern : Pattern) :
    Except Error (Option Nat) :=
  match op.operands with
  | [] => .ok none
  | first :: _ =>
    match f.producer first with
    | .error e => .error e
    | .ok none => .ok none
    | .ok (some producer) =>
      match p.groupOf? producer with
      | none => .ok none
      | some group =>
        match f.consumers first with
        | .error e => .error e
        | .ok consumers =>
          if consumers.length = 1 && canJoin (p.anchors.getD group .isolated) pattern then
            .ok (some group)
          else .ok none

/-- The operations that are put into groups: those of the dialect, returns apart. -/
def isGrouped (dialect : String) (op : Operation) : Bool :=
  !op.isReturn && op.name.dialect == dialect

/-- Find a group for one operation. -/
def assign (registry : Registry) (dialect : String) (f : Func) (p : Plan) (node : Node) :
    Except Error Plan :=
  if isGrouped dialect node.op then
    let pattern := registry.pattern node.op.name.text
    match joinable? f p node.op pattern with
    | .error e => .error e
    | .ok (some group) => .ok (p.join node.id pattern group)
    | .ok none => .ok (p.start node.id pattern)
  else .ok p

/-- The groups of all operations of a function. -/
def plan (registry : Registry) (dialect : String) (f : Func) : Except Error Plan :=
  f.body.nodes.foldlM (assign registry dialect f) {}

/-! ## Writing groups -/

/-- An operation with its group as an attribute. -/
def mark (p : Plan) (node : Node) : Operation :=
  match p.groupOf? node.id with
  | none => node.op
  | some group => node.op.setAttribute groupAttr (.int group)

/-- The operation does not carry its group yet. -/
def needsMark (p : Plan) (node : Node) : Bool :=
  match p.groupOf? node.id with
  | none => false
  | some group => node.op.attribute? groupAttr != some (.int group)

/-- Give every operation its group. -/
def write (p : Plan) (f : Func) : Func :=
  { f with body := f.body.mapOps (mark p) }

def run (dialect : String) (registry : Registry) (f : Func) : Outcome Func :=
  match checkStatic f with
  | .error e => ⟨f, .error e⟩
  | .ok () =>
    match plan registry dialect f with
    | .error e => ⟨f, .error e⟩
    | .ok p => ⟨write p f, .ok (f.body.nodes.any (needsMark p))⟩

/-- Fusion for one dialect. -/
def pass (dialect : String) : Pass where
  name := "op_fusion"
  stage := .fusion
  run := run dialect

end TensorIR.Fusion
