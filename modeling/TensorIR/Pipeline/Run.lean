import TensorIR.Pipeline.Basic

/-!
# Running pipelines

Passes run one after the other, each over all functions of the module in order or over the module as
a whole. A run ends with the first failure, which leaves what the failing pass has done so far.
-/

namespace TensorIR

/-- Try to write dumps, when others have been tried before. What cannot be written is no failure. -/
def Snapshot.write (s : Snapshot) (tried dumps : List Dump) : Journal where
  dumps
  written := s.sink.written tried dumps

namespace Options

/-- The result of a pass on a unit. If units are checked, a failed check fails the pass. -/
def verified {α : Type} (o : Options) (verify : α → Except Error Unit) (outcome : Outcome α) :
    Except Error Bool :=
  match outcome.result with
  | .error e => .error e
  | .ok changed =>
    if o.verifyEach then (verify outcome.state).map fun _ => changed else .ok changed

/-- Dumps before a pass, when others have been tried before. -/
def snapshotBefore (o : Options) (tried : List Dump) (pass : Pass) (unit : IrUnit) (m : Module) :
    Journal :=
  match o.snapshot with
  | some s => s.write tried (s.dumpsBefore pass unit m)
  | none => {}

/-- Dumps after a pass, when others have been tried before. -/
def snapshotAfter (o : Options) (tried : List Dump) (pass : Pass) (unit : IrUnit) (m : Module)
    (changed : Bool) : Journal :=
  match o.snapshot with
  | some s => s.write tried (s.dumpsAfter pass unit m changed)
  | none => {}

end Options

/-- A failure, with the text of the unit. -/
structure UnitFailure where
  unit : String
  source : Error
  deriving DecidableEq, Repr, Inhabited

/-- What one pass leaves of a module. -/
structure PassRun where
  module : Module
  result : Except UnitFailure Bool
  journal : Journal

/-- What a pipeline leaves of a module. -/
structure Run where
  module : Module
  result : Except PipelineError Report
  journal : Journal

namespace Pipeline

/-- A pass run on functions. -/
def visits (index : Nat) (pass : Pass) (functions : List Func) : List Visit :=
  functions.map fun f => ⟨index, pass.name, f⟩

/-- What there is to say when a pass is about to run on a unit of a module, with the functions that
it will be run on. -/
def opening (p : Pipeline) (tried : List Dump) (index : Nat) (pass : Pass) (unit : IrUnit)
    (m : Module) (functions : List Func) : Journal :=
  let start : Journal := { starts := [⟨index, unit, m⟩], visits := visits index pass functions }
  start ++ p.options.snapshotBefore tried pass unit m

/-- Run a pass on a module as a whole, when dumps have been tried before. -/
def runOnModule (p : Pipeline) (tried : List Dump) (index : Nat) (pass : Pass) (m : Module) :
    PassRun :=
  let unit := IrUnit.module m
  let outcome := pass.runOnModule p.registry m
  let after := outcome.state
  let opening := p.opening tried index pass unit m (pass.reachedInModule p.registry m)
  match p.options.verified Module.verify outcome with
  | .error e => ⟨after, .error ⟨unit.text, e⟩, opening⟩
  | .ok changed =>
    let closing :=
      p.options.snapshotAfter (tried ++ opening.dumps) pass (.module after) after changed
    ⟨after, .ok changed, opening ++ closing⟩

/-- Run a pass on the functions `rest` of a module one by one, when it has run on `done`. -/
def runOnFunctions (p : Pipeline) (tried : List Dump) (index : Nat) (pass : Pass)
    (name : Option String) (done : List Func) : (rest : List Func) → PassRun
  | [] => ⟨⟨name, done⟩, .ok false, {}⟩
  | f :: rest =>
    let before : Module := ⟨name, done ++ f :: rest⟩
    let unit := IrUnit.function f
    let outcome := pass.run p.registry f
    let after : Module := ⟨name, done ++ outcome.state :: rest⟩
    let opening := p.opening tried index pass unit before [f]
    match p.options.verified Func.verify outcome with
    | .error e => ⟨after, .error ⟨unit.text, e⟩, opening⟩
    | .ok changed =>
      let closing := p.options.snapshotAfter (tried ++ opening.dumps) pass
        (.function outcome.state) after changed
      let here := opening ++ closing
      let others := runOnFunctions p (tried ++ here.dumps) index pass name
        (done ++ [outcome.state]) rest
      ⟨others.module, others.result.map (changed || ·), here ++ others.journal⟩

/-- Run a pass in its scope. -/
def runPass (p : Pipeline) (tried : List Dump) (index : Nat) (pass : Pass) (m : Module) : PassRun :=
  match pass.scope with
  | .module => p.runOnModule tried index pass m
  | .function => p.runOnFunctions tried index pass m.name [] m.functions

/-- Run passes one after the other; the first of them is at `index` in the order of execution. -/
def runFrom (p : Pipeline) (tried : List Dump) (index : Nat) : List Pass → Module → Run
  | [], m => ⟨m, .ok {}, {}⟩
  | pass :: rest, m =>
    let first := p.runPass tried index pass m
    match first.result with
    | .error failure =>
      let e : PipelineError := ⟨index, pass.name, failure.unit, failure.source⟩
      let emitted : Journal := { diagnostics := [e.diagnostic] }
      ⟨first.module, .error e, first.journal ++ emitted⟩
    | .ok changed =>
      let others := p.runFrom (tried ++ first.journal.dumps) (index + 1) rest first.module
      ⟨others.module, others.result.map fun r => ⟨changed :: r.changed⟩,
        first.journal ++ others.journal⟩

/-- Run every pass of a pipeline on a module, when dumps have been tried in earlier runs. -/
def runAfter (p : Pipeline) (tried : List Dump) (m : Module) : Run :=
  p.runFrom tried 0 p.passes m

/-- Run every pass of a pipeline on a module. -/
def run (p : Pipeline) (m : Module) : Run :=
  p.runAfter [] m

/-- Run a pipeline several times, each time on what the last run has left. -/
def runTimesAfter (p : Pipeline) (tried : List Dump) : Nat → Module → List Run
  | 0, _ => []
  | n + 1, m =>
    let first := p.runAfter tried m
    first :: p.runTimesAfter (tried ++ first.journal.dumps) n first.module

def runTimes (p : Pipeline) (n : Nat) (m : Module) : List Run :=
  p.runTimesAfter [] n m

/-! ## What the caller sees -/

/-- The diagnostics that have arrived at the sink of a pipeline. -/
def received (p : Pipeline) (j : Journal) : List Diagnostic :=
  p.diagnostics.receive j.diagnostics

/-- The visits of traced passes. -/
def log (p : Pipeline) (j : Journal) : List Visit :=
  j.visits.filter fun v => p.passes[v.index]?.any Pass.traced

end Pipeline

/-- Infer the shapes of a module of the dialect. -/
def inferShapes (m : Module) : Run :=
  Pipeline.shapesOnly.run m

end TensorIR
