import TensorIR.Func.Basic

/-!
# Printing functions

One line for the arguments and declared outputs, one for each operation, and a closing brace.
Arguments are named `%arg0`, `%arg1` and so on, results are numbered `%0`, `%1` and so on over the
whole body, in a signed word of 32 bits. A value that is neither prints as an invalid name.
-/

namespace TensorIR.Func

/-- All results of the body, in program order. -/
def results (f : Func) : List ValueId :=
  f.body.ops.flatMap Operation.results

/-- The last place of a value in a list. -/
def lastIndex? (v : ValueId) (values : List ValueId) : Option Nat :=
  (values.reverse.idxOf? v).map fun i => values.length - 1 - i

/-- The number of the result at place `k`, as a counter of 32 bits with a sign shows it. -/
def resultNumber (k : Nat) : Int :=
  Int.bmod k UInt32.size

/-- The printed name of a value. -/
def valueName (f : Func) (v : ValueId) : String :=
  match lastIndex? v f.results with
  | some k => "%" ++ toString (resultNumber k)
  | none =>
    match if f.arguments.contains v then f.value? v else none with
    | some ⟨_, .argument n⟩ => "%arg" ++ toString n
    | _ => "%<invalid " ++ toString v ++ ">"

/-- The printed names of values, separated by commas. -/
def nameList (f : Func) (values : List ValueId) : String :=
  ", ".intercalate (values.map f.valueName)

/-- The printed type of a value. -/
def tyText (f : Func) (v : ValueId) : String :=
  match f.valueTy? v with
  | some ty => ty.text
  | none => "<invalid>"

/-- The printed types of values, separated by commas. -/
def tyList (f : Func) (values : List ValueId) : String :=
  ", ".intercalate (values.map f.tyText)

/-- The printed types of results: a single one stands alone, others stand in parentheses. -/
def resultTyList (f : Func) : List ValueId → String
  | [v] => f.tyText v
  | values => "(" ++ f.tyList values ++ ")"

/-- Attributes in braces, in order of keys; nothing if there are none. -/
def attributesText (attributes : Attributes) : String :=
  if attributes.isEmpty then ""
  else
    let items := attributes.toList.map fun (key, value) => key ++ " = " ++ value.text
    " \x7b" ++ ", ".intercalate items ++ "\x7d"

def locText : Option String → String
  | some loc => " loc(" ++ Text.quote loc ++ ")"
  | none => ""

/-- The line of an operation, without indentation. -/
def opText (f : Func) (op : Operation) : String :=
  let results := if op.results.isEmpty then "" else f.nameList op.results ++ " = "
  results ++ "\"" ++ op.name.text ++ "\"(" ++ f.nameList op.operands ++ ")" ++
    attributesText op.attributes ++ " : (" ++ f.tyList op.operands ++ ") -> " ++
    f.resultTyList op.results ++ locText op.loc

/-- The first line of a function, without indentation. -/
def headText (f : Func) : String :=
  let arguments := f.arguments.map fun v => f.valueName v ++ ": " ++ f.tyText v
  "func.func @" ++ f.name ++ "(" ++ ", ".intercalate arguments ++ ") -> (" ++
    Ty.listText f.signature.outputs ++ ") \x7b"

/-- The lines of a function, without indentation. -/
def lines (f : Func) : List String :=
  f.headText :: f.body.ops.map (fun op => "  " ++ f.opText op) ++ ["\x7d"]

/-- The printed function, each line behind `indent`. -/
def render (f : Func) (indent : String) : String :=
  String.join (f.lines.map fun line => indent ++ line ++ "\n")

def text (f : Func) : String :=
  f.render ""

end TensorIR.Func
