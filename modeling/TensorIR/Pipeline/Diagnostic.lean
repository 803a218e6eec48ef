/-!
# Diagnostics

Messages of a pipeline to its user, and the sinks that they go to.
-/

namespace TensorIR

inductive Severity where
  | error
  | warning
  | note
  deriving DecidableEq, Repr, Inhabited

def Severity.text : Severity → String
  | error => "error"
  | warning => "warning"
  | note => "note"

def Severity.parse? (s : String) : Option Severity :=
  [error, warning, note].find? fun severity => severity.text == s

/-- A message, with the pass and the unit it is about where that is known. -/
structure Diagnostic where
  severity : Severity
  message : String
  pass : Option String := none
  unit : Option String := none
  deriving DecidableEq, Repr, Inhabited

/-- The severity, the pass in brackets, the unit and the message. -/
def Diagnostic.text (d : Diagnostic) : String :=
  let pass := match d.pass with
    | some pass => "[" ++ pass ++ "] "
    | none => ""
  let unit := match d.unit with
    | some unit => unit ++ ": "
    | none => ""
  d.severity.text ++ ": " ++ pass ++ unit ++ d.message

/-- Where diagnostics go. -/
inductive Sink where
  /-- Everything is kept for the caller. -/
  | collecting
  /-- Nothing arrives. A pipeline does not notice. -/
  | losing
  deriving DecidableEq, Repr, Inhabited

/-- What arrives of the diagnostics that were emitted. -/
def Sink.receive (s : Sink) (emitted : List Diagnostic) : List Diagnostic :=
  match s with
  | .collecting => emitted
  | .losing => []

end TensorIR
