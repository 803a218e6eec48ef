import TensorIR.Pipeline.Run

/-!
# Snapshots do not alter a run

Dumps go into the journal and nowhere else, and whether one could be written is asked for the
journal only. So two pipelines that differ in their snapshots, each with any dumps behind it, do the
same to a module, call the same passes on the same functions and say the same about it
(`run_apartFromDumps`). A dump may depend on all that went before it; nothing depends on a
dump, and hence it does not matter how often the pipelines have run.
-/

namespace TensorIR

/-- All of a journal but the dumps. -/
def Journal.withoutDumps (j : Journal) : Journal :=
  { j with dumps := [], written := [] }

/-- All that one pass leaves but the dumps. -/
def PassRun.apartFromDumps (r : PassRun) : PassRun :=
  { r with journal := r.journal.withoutDumps }

/-- All that a run leaves but the dumps. -/
def Run.apartFromDumps (r : Run) : Run :=
  { r with journal := r.journal.withoutDumps }

theorem PassRun.apartFromDumps_eq_iff {r r' : PassRun} :
    r.apartFromDumps = r'.apartFromDumps ↔ r.module = r'.module ∧ r.result = r'.result ∧
      r.journal.withoutDumps = r'.journal.withoutDumps := by
  unfold apartFromDumps
  rw [PassRun.mk.injEq]

theorem Run.apartFromDumps_eq_iff {r r' : Run} :
    r.apartFromDumps = r'.apartFromDumps ↔ r.module = r'.module ∧ r.result = r'.result ∧
      r.journal.withoutDumps = r'.journal.withoutDumps := by
  unfold apartFromDumps
  rw [Run.mk.injEq]

@[simp] theorem Journal.withoutDumps_append (a b : Journal) :
    (a ++ b).withoutDumps = a.withoutDumps ++ b.withoutDumps := rfl

namespace Options

variable (o : Options) (tried : List Dump) (pass : Pass) (unit : IrUnit) (m : Module)

@[simp] theorem withoutDumps_snapshotBefore :
    (o.snapshotBefore tried pass unit m).withoutDumps = {} := by
  unfold snapshotBefore
  cases o.snapshot <;> rfl

@[simp] theorem withoutDumps_snapshotAfter (changed : Bool) :
    (o.snapshotAfter tried pass unit m changed).withoutDumps = {} := by
  unfold snapshotAfter
  cases o.snapshot <;> rfl

end Options

namespace Pipeline

/-- A pipeline with other snapshots. -/
def withSnapshot (p : Pipeline) (s : Option Snapshot) : Pipeline :=
  { p with options := { p.options with snapshot := s } }

variable (p : Pipeline) (s : Option Snapshot) (tried tried' : List Dump) (index : Nat)
  (pass : Pass)

@[simp] theorem registry_withSnapshot : (p.withSnapshot s).registry = p.registry := rfl

@[simp] theorem verified_withSnapshot {α : Type} (verify : α → Except Error Unit)
    (outcome : Outcome α) :
    (p.withSnapshot s).options.verified verify outcome = p.options.verified verify outcome := rfl

@[simp] theorem withoutDumps_opening (unit : IrUnit) (m : Module) (functions : List Func) :
    (p.opening tried index pass unit m functions).withoutDumps =
      { starts := [⟨index, unit, m⟩], visits := visits index pass functions } ++
        ({} : Journal) := by
  unfold opening
  rw [Journal.withoutDumps_append, Options.withoutDumps_snapshotBefore]
  rfl

/-! ## One pass -/

theorem runOnModule_withSnapshot (m : Module) :
    ((p.withSnapshot s).runOnModule tried index pass m).apartFromDumps =
      (p.runOnModule tried' index pass m).apartFromDumps := by
  unfold runOnModule
  simp only [registry_withSnapshot, verified_withSnapshot]
  split
  · simp [PassRun.apartFromDumps]
  · simp [PassRun.apartFromDumps]

/-- What is dumped at one function reaches the others as dumps that were tried, and these may be
any. -/
theorem runOnFunctions_withSnapshot (name : Option String) (done rest : List Func) :
    ((p.withSnapshot s).runOnFunctions tried index pass name done rest).apartFromDumps =
      (p.runOnFunctions tried' index pass name done rest).apartFromDumps := by
  induction rest generalizing tried tried' done with
  | nil => rfl
  | cons f rest ih =>
    rw [runOnFunctions, runOnFunctions]
    simp only [registry_withSnapshot, verified_withSnapshot]
    split
    · simp [PassRun.apartFromDumps]
    · rw [PassRun.apartFromDumps_eq_iff]
      simp only [Journal.withoutDumps_append, withoutDumps_opening,
        Options.withoutDumps_snapshotAfter]
      obtain ⟨hmodule, hresult, hjournal⟩ := PassRun.apartFromDumps_eq_iff.1 (ih _ _ _)
      refine ⟨hmodule, ?_, ?_⟩
      · rw [hresult]
      · rw [hjournal]

theorem runPass_withSnapshot (m : Module) :
    ((p.withSnapshot s).runPass tried index pass m).apartFromDumps =
      (p.runPass tried' index pass m).apartFromDumps := by
  unfold runPass
  cases pass.scope with
  | module => exact p.runOnModule_withSnapshot s tried tried' index pass m
  | function => exact p.runOnFunctions_withSnapshot s tried tried' index pass m.name [] m.functions

/-! ## Whole runs -/

theorem runFrom_withSnapshot (passes : List Pass) (m : Module) :
    ((p.withSnapshot s).runFrom tried index passes m).apartFromDumps =
      (p.runFrom tried' index passes m).apartFromDumps := by
  induction passes generalizing tried tried' index m with
  | nil => rfl
  | cons pass rest ih =>
    obtain ⟨hmodule, hresult, hjournal⟩ :=
      PassRun.apartFromDumps_eq_iff.1 (p.runPass_withSnapshot s tried tried' index pass m)
    rw [runFrom, runFrom, Run.apartFromDumps_eq_iff]
    simp only [hresult, hmodule]
    split
    · simp [hjournal]
    · obtain ⟨hmodule', hresult', hjournal'⟩ := Run.apartFromDumps_eq_iff.1 (ih _ _ _ _)
      refine ⟨hmodule', ?_, ?_⟩
      · rw [hresult']
      · rw [Journal.withoutDumps_append, Journal.withoutDumps_append, hjournal, hjournal']

theorem runAfter_withSnapshot (m : Module) :
    ((p.withSnapshot s).runAfter tried m).apartFromDumps = (p.runAfter tried' m).apartFromDumps :=
  p.runFrom_withSnapshot s tried tried' 0 p.passes m

theorem runTimesAfter_withSnapshot (n : Nat) (m : Module) :
    ((p.withSnapshot s).runTimesAfter tried n m).map Run.apartFromDumps =
      (p.runTimesAfter tried' n m).map Run.apartFromDumps := by
  induction n generalizing tried tried' m with
  | zero => rfl
  | succ n ih =>
    have hfirst := p.runAfter_withSnapshot s tried tried' m
    obtain ⟨hmodule, -, -⟩ := Run.apartFromDumps_eq_iff.1 hfirst
    rw [runTimesAfter, runTimesAfter, List.map_cons, List.map_cons, hfirst, hmodule]
    exact congrArg _ (ih _ _ _)

/-- **Snapshots do not alter a run.** Two pipelines that differ in their snapshots only leave the
same module, the same report or error and the same diagnostics, whatever each has dumped before and
whatever became of it; so do any number of runs in a row. -/
theorem run_apartFromDumps (s s' : Option Snapshot) :
    (∀ tried tried' m, ((p.withSnapshot s).runAfter tried m).apartFromDumps =
      ((p.withSnapshot s').runAfter tried' m).apartFromDumps) ∧
    ∀ n m, ((p.withSnapshot s).runTimes n m).map Run.apartFromDumps =
      ((p.withSnapshot s').runTimes n m).map Run.apartFromDumps := by
  constructor
  · intro tried tried' m
    rw [p.runAfter_withSnapshot s tried [] m, p.runAfter_withSnapshot s' tried' [] m]
  · intro n m
    unfold runTimes
    rw [p.runTimesAfter_withSnapshot s [] [] n m, p.runTimesAfter_withSnapshot s' [] [] n m]

-- a writer that takes every other dump loses half of what is dumped around an idle pass
example :
    let idle : Pass := { name := "idle", stage := .inference, run := fun _ f => ⟨f, .ok false⟩ }
    let every : SnapshotFilter := fun _ _ => true
    let s : Snapshot :=
      { before := every, after := every, sink := ⟨fun tried _ => tried.length % 2 = 0⟩ }
    let p : Pipeline := { registry := .empty, options := { snapshot := some s }, passes := [idle] }
    let r := p.run ⟨none, [.empty "a", .empty "b"]⟩
    r.journal.dumps.map Dump.unit = ["@a", "@a", "@b", "@b"] ∧
      r.journal.written.map Dump.timing = [.before, .before] := by
  decide +kernel

end Pipeline

end TensorIR
