import TensorIR.Pass.Fusion
import TensorIR.Pass.ShapeInference
import TensorIR.Pipeline.Diagnostic
import TensorIR.Pipeline.Snapshot

/-!
# Pipelines

A pipeline is a list of passes in order of their stages, with a registry and options. What a run has
to tell besides its result is its journal.
-/

namespace TensorIR

structure Options where
  /-- Check every unit after every pass; a failed check counts as a failure of the pass. -/
  verifyEach : Bool := false
  snapshot : Option Snapshot := none

structure Pipeline where
  registry : Registry
  options : Options := {}
  /-- Where diagnostics go. -/
  diagnostics : Sink := .losing
  /-- The passes in order of execution. -/
  passes : List Pass := []

namespace Pipeline

/-- Add a pass behind all passes of the same or an earlier stage. -/
def addPass (p : Pipeline) (pass : Pass) : Pipeline :=
  let earlier := fun q : Pass => decide (q.stage ≤ pass.stage)
  { p with passes := p.passes.takeWhile earlier ++ pass :: p.passes.dropWhile earlier }

/-- Shape inference and fusion. -/
def standard (registry : Registry) (options : Options) : Pipeline :=
  ((({ registry, options } : Pipeline).addPass (ShapeInference.pass Relay.dialectName)).addPass
    (Fusion.pass Relay.dialectName))

/-- The standard pipeline for the dialect. -/
def relay (options : Options) : Pipeline :=
  standard Relay.registry options

/-- Shape inference alone, for the dialect. -/
def shapesOnly : Pipeline :=
  ({ registry := Relay.registry } : Pipeline).addPass (ShapeInference.pass Relay.dialectName)

/-- The names of the passes, in order of execution. -/
def passNames (p : Pipeline) : List String :=
  p.passes.map Pass.name

end Pipeline

/-- Whether each pass changed anything, in order of execution. -/
structure Report where
  changed : List Bool := []
  deriving DecidableEq, Repr, Inhabited

namespace Report

def passesRun (r : Report) : Nat :=
  r.changed.length

def anyChanged (r : Report) : Bool :=
  r.changed.any id

end Report

/-- A pass failed on a unit. -/
structure PipelineError where
  /-- The place of the pass in the order of execution. -/
  index : Nat
  pass : String
  unit : String
  source : Error
  deriving DecidableEq, Repr, Inhabited

namespace PipelineError

def message (e : PipelineError) : String :=
  "pass #" ++ toString e.index ++ " '" ++ e.pass ++ "' failed on " ++ e.unit ++ ": " ++
    e.source.message

def diagnostic (e : PipelineError) : Diagnostic where
  severity := .error
  message := e.source.message
  pass := some e.pass
  unit := some e.unit

end PipelineError

/-- A pass at its place in the order of execution, about to run on a unit of a module. -/
structure Start where
  index : Nat
  unit : IrUnit
  module : Module
  deriving DecidableEq, Inhabited

/-- A pass at its place in the order of execution, run on a function. -/
structure Visit where
  index : Nat
  pass : String
  /-- The function as the pass found it. -/
  function : Func
  deriving DecidableEq, Inhabited

def Visit.text (v : Visit) : String :=
  v.pass ++ ":@" ++ v.function.name

/-- What happened in a run, in order. -/
structure Journal where
  starts : List Start := []
  visits : List Visit := []
  /-- All dumps that were tried. -/
  dumps : List Dump := []
  /-- Those of them that could be written. -/
  written : List Dump := []
  /-- All diagnostics that were emitted. -/
  diagnostics : List Diagnostic := []
  deriving DecidableEq, Inhabited

namespace Journal

/-- One journal after the other. -/
def append (a b : Journal) : Journal where
  starts := a.starts ++ b.starts
  visits := a.visits ++ b.visits
  dumps := a.dumps ++ b.dumps
  written := a.written ++ b.written
  diagnostics := a.diagnostics ++ b.diagnostics

instance : Append Journal := ⟨append⟩

def join (journals : List Journal) : Journal :=
  journals.foldl (· ++ ·) {}

/-- The dumps as they were written. -/
def dumpText (j : Journal) : String :=
  String.join (j.written.map Dump.text)

end Journal

end TensorIR
