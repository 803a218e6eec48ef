import TensorIR.Func.Edit
import TensorIR.Func.Printer
import TensorIR.Func.Verify

/-!
# Modules

A module is a list of functions under an optional name. Functions are looked up by name, the first
one winning; a well-formed module has well-formed functions with different names.
-/

namespace TensorIR

structure Module where
  name : Option String := none
  functions : List Func := []
  deriving DecidableEq, Inhabited

namespace Module

/-- The first function with a name. -/
def function (m : Module) (name : String) : Except Error Func :=
  match m.functions.find? fun f => f.name == name with
  | some f => .ok f
  | none => .error (.functionNotFound name)

/-- Check the functions one after the other; `seen` are the names so far. -/
def verifyFrom (seen : List String) : List Func → Except Error Unit
  | [] => .ok ()
  | f :: rest =>
    if seen.contains f.name then .error (.duplicateFunction f.name)
    else
      match f.verify with
      | .error e => .error e
      | .ok () => verifyFrom (f.name :: seen) rest

/-- The first way in which a module is not well formed. -/
def verify (m : Module) : Except Error Unit :=
  verifyFrom [] m.functions

def headText (m : Module) : String :=
  match m.name with
  | some name => "module @" ++ name ++ " \x7b\n"
  | none => "module \x7b\n"

/-- The printed module, its functions indented by two blanks. -/
def text (m : Module) : String :=
  m.headText ++ String.join (m.functions.map fun f => f.render "  ") ++ "\x7d\n"

end Module

end TensorIR
