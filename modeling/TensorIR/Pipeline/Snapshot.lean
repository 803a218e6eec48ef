import TensorIR.Pass.Basic

/-!
# Snapshots

A pipeline can print a unit, or the module around it, before and after a pass runs on it. A snapshot
only reads the program, and a dump that cannot be written is lost.
-/

namespace TensorIR

/-- What a pass runs on. -/
inductive IrUnit where
  | module (m : Module)
  | function (f : Func)
  deriving DecidableEq, Inhabited

def IrUnit.text : IrUnit → String
  | module m =>
    match m.name with
    | some name => "module @" ++ name
    | none => "module"
  | function f => "@" ++ f.name

/-- The side of a pass on which a dump was made. -/
inductive Timing where
  | before
  | after
  deriving DecidableEq, Repr, Inhabited

def Timing.text : Timing → String
  | before => "Before"
  | after => "After"

/-- A printed unit. -/
structure Dump where
  timing : Timing
  pass : String
  unit : String
  body : String
  deriving DecidableEq, Repr, Inhabited

/-- A line that says what follows, the printed unit and an empty line. -/
def Dump.text (d : Dump) : String :=
  "// -----// IR Dump " ++ d.timing.text ++ " " ++ d.pass ++ " (" ++ d.unit ++
    ") //----- //\n" ++ d.body ++ "\n"

/-- Where dumps are written to. Whether the next dump can be written may depend on all that were
tried before, in order. -/
structure Writer where
  accepts : (tried : List Dump) → (next : Dump) → Bool

namespace Writer

def reliable : Writer := ⟨fun _ _ => true⟩

/-- Every write fails. -/
def broken : Writer := ⟨fun _ _ => false⟩

/-- What is written of some dumps, when others have been tried before. -/
def written (w : Writer) (tried : List Dump) : List Dump → List Dump
  | [] => []
  | d :: rest =>
    if w.accepts tried d then d :: w.written (tried ++ [d]) rest
    else w.written (tried ++ [d]) rest

end Writer

/-- Whether to make a dump for a pass and a unit. -/
abbrev SnapshotFilter := Pass → IrUnit → Bool

namespace SnapshotFilter

def never : SnapshotFilter := fun _ _ => false

/-- Named passes on units with given texts; every pass, or every unit, where no list is given. -/
def among (passes units : Option (List String)) : SnapshotFilter :=
  fun pass unit => passes.all (·.contains pass.name) && units.all (·.contains unit.text)

/-- Modules, and the function `main`. -/
def once : SnapshotFilter
  | _, .module _ => true
  | _, .function f => f.name == "main"

end SnapshotFilter

/-- Which dumps to make, and where they go. -/
structure Snapshot where
  before : SnapshotFilter := .never
  after : SnapshotFilter := .never
  /-- Print the module around the unit. -/
  moduleScope : Bool := false
  /-- Make no dump after a pass that changed nothing. -/
  afterOnlyOnChange : Bool := false
  sink : Writer := .reliable

namespace Snapshot

/-- The module after every pass, once for each pass: on passes over the module, and otherwise when
the pass has run on `main`. -/
def printModuleOnce : Snapshot where
  after := .once
  moduleScope := true

def dump (s : Snapshot) (timing : Timing) (pass : Pass) (unit : IrUnit) (m : Module) : Dump where
  timing
  pass := pass.name
  unit := unit.text
  body :=
    match s.moduleScope, unit with
    | false, .function f => f.text
    | _, _ => m.text

/-- The dumps to be made before a pass. -/
def dumpsBefore (s : Snapshot) (pass : Pass) (unit : IrUnit) (m : Module) : List Dump :=
  if s.before pass unit then [s.dump .before pass unit m] else []

/-- The dumps to be made after a pass. -/
def dumpsAfter (s : Snapshot) (pass : Pass) (unit : IrUnit) (m : Module) (changed : Bool) :
    List Dump :=
  if s.afterOnlyOnChange && !changed then []
  else if s.after pass unit then [s.dump .after pass unit m]
  else []

end Snapshot

end TensorIR
