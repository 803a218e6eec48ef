import TensorIR.Operation

/-!
# Errors

Everything that can go wrong with a program, by cause. Each cause belongs to one of five kinds, and
`Error.message` is the only place that words it.
-/

namespace TensorIR

/-- What kind of mistake an error reports. -/
inductive ErrorKind where
  /-- A function, operation or value that is not there. -/
  | invalidGraph
  /-- A body that breaks the rules of single assignment. -/
  | malformed
  /-- An attribute that is missing or cannot be read. -/
  | badAttribute
  /-- A shape that cannot be inferred. -/
  | shapeInference
  /-- A pass that cannot do its work. -/
  | pass
  deriving DecidableEq, Repr, Inhabited

/-- The words in front of every message of a kind. -/
def ErrorKind.heading : ErrorKind → String
  | invalidGraph => "Invalid graph structure: "
  | malformed => "Malformed IR: "
  | badAttribute => "Attribute error: "
  | shapeInference => "Shape inference error: "
  | pass => "Pass error: "

/-- Where an operand comes from, as far as a reader of a message needs to know. -/
inductive Provenance where
  | argument (index : Nat)
  | result (index : Nat) (operator : String)
  /-- A result of an operation that its value still names, but that is gone. -/
  | danglingResult (index : Nat)
  | erased
  deriving DecidableEq, Repr, Inhabited

/-- An operand of a failed operation: its value, and its type and origin if the value is there. -/
structure OperandNote where
  value : ValueId
  known : Option (Ty × Provenance)
  deriving DecidableEq, Repr, Inhabited

/-- The cause of a failure. A `subject` is the description of an operation. -/
inductive Error where
  | valueNotFound (value : ValueId) (function : String)
  | valueErased (value : ValueId) (function : String)
  | operandUndefined (operator function : String) (value : ValueId)
  | operandErased (operator function : String) (value : ValueId)
  | resultInUse (operator : String) (value : ValueId)
  | operationNotFound (op : OpId) (function : String)
  | functionNotFound (function : String)
  | noTerminator (function : String)
  | manyTerminators (function : String) (count : Nat)
  | unknownUse (function subject : String) (value : ValueId)
  | erasedUse (function subject : String) (value : ValueId)
  | useBeforeDefinition (function subject : String) (value : ValueId)
  | returnNotLast (function subject : String)
  | cyclicUses (function : String)
  | duplicateFunction (function : String)
  | unknownElement (text : String)
  | missingAttribute (subject key : String)
  | unreadableAttribute (subject key : String) (mismatch : Attr.Mismatch)
  | cannotBroadcast (left right : List Dim) (position : Nat)
  | ruleFailed (subject : String) (operands : List OperandNote) (reason : String)
  /-- A shape rule failed with an error of another kind. -/
  | ruleRaised (subject : String) (cause : Error)
  | resultCount (subject : String) (inferred declared : Nat)
  | unresolvedArgument (function : String) (value : ValueId) (ty : Ty)
  | unresolvedResult (function : String) (value : ValueId) (subject : String) (ty : Ty)
  /-- A failure that a caller of the library words. -/
  | custom (kind : ErrorKind) (detail : String)
  deriving DecidableEq, Repr, Inhabited

/-- The text of a value's number in messages. -/
def valueText (v : ValueId) : String :=
  "ValueId(" ++ toString v ++ ")"

/-- The text of an operation's number in messages. -/
def opText (id : OpId) : String :=
  "NodeIndex(" ++ toString id ++ ")"

def unknownElementDetail (text : String) : String :=
  "unknown element type '" ++ text ++ "'"

def Attr.Mismatch.message : Attr.Mismatch → String
  | kind expected found => "expected " ++ expected ++ ", got " ++ found
  | unknownElement text => ErrorKind.badAttribute.heading ++ unknownElementDetail text

def Provenance.text : Provenance → String
  | argument n => "argument " ++ toString n
  | result n operator => "result " ++ toString n ++ " of " ++ operator
  | danglingResult n => "result " ++ toString n ++ " of <erased op>"
  | erased => "result of <erased op>"

/-- One line about the operand at a position. -/
def OperandNote.text (position : Nat) (note : OperandNote) : String :=
  let head := toString position ++ ": %" ++ toString note.value
  match note.known with
  | none => head ++ " <unknown value>"
  | some (ty, source) => head ++ " : " ++ ty.text ++ " (" ++ source.text ++ ")"

/-- One indented line for each operand. -/
def OperandNote.listText (notes : List OperandNote) : String :=
  String.join (notes.zipIdx.map fun (note, i) => "    " ++ note.text i ++ "\n")

namespace Error

def kind : Error → ErrorKind
  | valueNotFound .. | valueErased .. | operandUndefined .. | operandErased .. | resultInUse ..
  | operationNotFound .. | functionNotFound .. => .invalidGraph
  | noTerminator .. | manyTerminators .. | unknownUse .. | erasedUse .. | useBeforeDefinition ..
  | returnNotLast .. | cyclicUses .. | duplicateFunction .. => .malformed
  | unknownElement .. | missingAttribute .. | unreadableAttribute .. => .badAttribute
  | cannotBroadcast .. | ruleFailed .. | ruleRaised .. | resultCount .. => .shapeInference
  | unresolvedArgument .. | unresolvedResult .. => .pass
  | custom kind _ => kind

/-- The wording of an error, after the heading of its kind. -/
def detail : Error → String
  | valueNotFound v f => "Value " ++ valueText v ++ " not found in @" ++ f
  | valueErased v f => "Value " ++ valueText v ++ " in @" ++ f ++ " belongs to an erased operation"
  | operandUndefined op f v =>
    "Operation " ++ op ++ " in @" ++ f ++ " uses undefined value " ++ valueText v
  | operandErased op f v =>
    "Operation " ++ op ++ " in @" ++ f ++ " uses erased value " ++ valueText v
  | resultInUse op v => "Cannot erase " ++ op ++ ": result " ++ valueText v ++ " still has users"
  | operationNotFound id f => "Operation " ++ opText id ++ " not found in @" ++ f
  | functionNotFound f => "Function @" ++ f ++ " not found"
  | noTerminator f => "Function @" ++ f ++ " has no terminating " ++ OpName.terminator.text
  | manyTerminators f n =>
    "Function @" ++ f ++ " has " ++ toString n ++ " " ++ OpName.terminator.text ++
      " operations; exactly one is supported"
  | unknownUse f subject v => "@" ++ f ++ ": " ++ subject ++ " uses unknown value %" ++ toString v
  | erasedUse f subject v =>
    "@" ++ f ++ ": " ++ subject ++ " uses %" ++ toString v ++ " of an erased operation"
  | useBeforeDefinition f subject v =>
    "@" ++ f ++ ": " ++ subject ++ " uses %" ++ toString v ++ " before its definition"
  | returnNotLast f subject =>
    "@" ++ f ++ ": " ++ subject ++ " is not the last operation of the body"
  | cyclicUses f => "@" ++ f ++ ": def-use graph contains a cycle"
  | duplicateFunction f => "duplicate function @" ++ f
  | unknownElement text => unknownElementDetail text
  | missingAttribute subject key => subject ++ ": missing attribute '" ++ key ++ "'"
  | unreadableAttribute subject key mismatch =>
    subject ++ ": attribute '" ++ key ++ "': " ++ mismatch.message
  | cannotBroadcast a b i =>
    "Cannot broadcast shapes [" ++ Dim.listText a ++ "] and [" ++ Dim.listText b ++
      "] at dimension " ++ toString i
  | ruleFailed subject operands reason =>
    "Shape inference failed for " ++ subject ++ "\n\n  Operands:\n" ++
      OperandNote.listText operands ++ "\n  Error: " ++ reason
  | ruleRaised subject cause => subject ++ ": " ++ cause.kind.heading ++ cause.detail
  | resultCount subject inferred declared =>
    subject ++ " inferred " ++ toString inferred ++ " result types but has " ++
      toString declared ++ " results"
  | unresolvedArgument f v ty =>
    "@" ++ f ++ ": argument %" ++ toString v ++ " has unresolved type " ++ ty.text
  | unresolvedResult f v subject ty =>
    "@" ++ f ++ ": result %" ++ toString v ++ " of " ++ subject ++ " has unresolved type " ++
      ty.text
  | custom _ detail => detail

/-- The full text of an error. -/
def message (e : Error) : String :=
  e.kind.heading ++ e.detail

end Error

/-- Read an element kind from either of its texts. -/
def Element.parse (s : String) : Except Error Element :=
  match Element.parse? s with
  | some e => .ok e
  | none => .error (.unknownElement s)

end TensorIR
