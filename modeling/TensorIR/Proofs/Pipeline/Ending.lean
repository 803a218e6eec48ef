import TensorIR.Proofs.Fallible
import TensorIR.Proofs.Pipeline.Snapshots

/-!
# How a pass ends

What a pass does to a module, said without loops. A pass goes from function to function
(`Pass.FunctionWise`), or over a module in a way of its own, of which nothing is known. It goes
through the module (`Succeeds`) and leaves the image of every function, or what its own run leaves;
or it stops (`Stops`): at a function that it fails on or that is not well formed when it is through
with it, in its own run, or, for a pass over the module, at the check of the module. At a function
it leaves the images in front of it and the rest as it was. `runPass_cases` says that there is no
third way, for passes of either scope.
-/

namespace TensorIR

namespace Pass

variable (pass : Pass) (registry : Registry)

/-- What a pass makes of a function, whether it succeeds or fails. -/
def image (f : Func) : Func :=
  (pass.run registry f).state

/-- The pass says that it has changed the function. -/
def changes (f : Func) : Bool :=
  match (pass.run registry f).result with
  | .ok changed => changed
  | .error _ => false

/-- What the pass does to modules in its scope, if it has a way of its own. -/
def ownRun? : Option (Registry → Module → Outcome Module) :=
  match pass.scope with
  | .function => none
  | .module => pass.moduleRun

/-- The pass goes from function to function. -/
def FunctionWise : Prop := pass.ownRun? = none

/-- What a pass makes of a module, unless it stops at a function. -/
def after (m : Module) : Module :=
  match pass.ownRun? with
  | none => { m with functions := m.functions.map (pass.image registry) }
  | some run => (run registry m).state

/-- The pass says that it has changed the module: one of its functions, if it goes from function to
function. -/
def changesModule (m : Module) : Bool :=
  match pass.ownRun? with
  | none => m.functions.any (pass.changes registry)
  | some run =>
    match (run registry m).result with
    | .ok changed => changed
    | .error _ => false

/-- The functions that a pass has been run on when it has gone through a module. Those that it takes
up in a way of its own do not count. -/
def visited (m : Module) : List Func :=
  match pass.ownRun? with
  | none => m.functions
  | some _ => []

variable {pass} {registry} {m : Module}

theorem functionWise_of_function (h : pass.scope = .function) : pass.FunctionWise := by
  unfold FunctionWise ownRun?
  rw [h]

theorem functionWise_of_default (h : pass.moduleRun = none) : pass.FunctionWise := by
  unfold FunctionWise ownRun?
  cases pass.scope with
  | function => rfl
  | module => exact h

theorem ownRun?_of_module (h : pass.scope = .module) : pass.ownRun? = pass.moduleRun := by
  unfold ownRun?
  rw [h]

theorem FunctionWise.after_eq (h : pass.FunctionWise) :
    pass.after registry m = { m with functions := m.functions.map (pass.image registry) } := by
  unfold after
  rw [show pass.ownRun? = none from h]

theorem FunctionWise.changesModule_eq (h : pass.FunctionWise) :
    pass.changesModule registry m = m.functions.any (pass.changes registry) := by
  unfold changesModule
  rw [show pass.ownRun? = none from h]

theorem FunctionWise.visited_eq (h : pass.FunctionWise) : pass.visited m = m.functions := by
  unfold visited
  rw [show pass.ownRun? = none from h]

theorem changes_of_result {f : Func} {changed : Bool}
    (h : (pass.run registry f).result = .ok changed) : pass.changes registry f = changed := by
  unfold changes
  rw [h]

end Pass

/-- A module after passes have gone over it one after the other. -/
def Module.through (m : Module) (registry : Registry) (passes : List Pass) : Module :=
  passes.foldl (fun m q => q.after registry m) m

theorem Module.through_nil (m : Module) (registry : Registry) : m.through registry [] = m := rfl

theorem Module.through_cons (m : Module) (registry : Registry) (pass : Pass) (rest : List Pass) :
    m.through registry (pass :: rest) = (m.through registry [pass]).through registry rest := rfl

theorem Module.through_append (m : Module) (registry : Registry) (pre post : List Pass) :
    m.through registry (pre ++ post) = (m.through registry pre).through registry post :=
  List.foldl_append

theorem Module.through_singleton (m : Module) (registry : Registry) (pass : Pass) :
    m.through registry [pass] = pass.after registry m := rfl

namespace Pipeline

/-! ## Success and failure -/

/-- A pass succeeds on a function, which is well formed then if functions are checked. -/
structure Accepts (p : Pipeline) (pass : Pass) (f : Func) : Prop where
  succeeds : ∃ changed, (pass.run p.registry f).result = .ok changed
  verifies : pass.scope = .function → p.options.verifyEach = true →
    (pass.image p.registry f).verify = .ok ()

/-- A pass fails on a function, or succeeds but leaves it ill formed, and functions are checked. -/
inductive Refuses (p : Pipeline) (pass : Pass) (f : Func) : Error → Prop where
  | fails {e : Error} (run_eq : (pass.run p.registry f).result = .error e) : Refuses p pass f e
  | illFormed {e : Error} (scope_eq : pass.scope = .function)
    (verifyEach_eq : p.options.verifyEach = true)
    (run_eq : ∃ changed, (pass.run p.registry f).result = .ok changed)
    (verify_eq : (pass.image p.registry f).verify = .error e) : Refuses p pass f e

/-- A pass does not fail on a module, and accepts every function if it goes from one to the next. -/
structure Works (p : Pipeline) (pass : Pass) (m : Module) : Prop where
  accepts : pass.FunctionWise → ∀ f ∈ m.functions, Accepts p pass f
  runs : ∀ run, pass.ownRun? = some run → ∃ changed, (run p.registry m).result = .ok changed

/-- A pass goes through a module. -/
structure Succeeds (p : Pipeline) (pass : Pass) (m : Module) : Prop extends Works p pass m where
  verifies : pass.scope = .module → p.options.verifyEach = true →
    (m.through p.registry [pass]).verify = .ok ()

/-- The text of the unit of a module that a pass is at when it runs on a function. -/
def unitText (pass : Pass) (m : Module) (f : Func) : String :=
  match pass.scope with
  | .function => (IrUnit.function f).text
  | .module => (IrUnit.module m).text

/-- A pass stops on a module: the module that it leaves, the functions that it was run on, and the
failure. -/
inductive Stops (p : Pipeline) (pass : Pass) (m : Module) : Module → List Func → UnitFailure → Prop
    where
  /-- It goes over some functions and stops at the next. The others stay as they are. -/
  | atFunction {pre post : List Func} {f : Func} {e : Error} (functionWise : pass.FunctionWise)
    (functions_eq : m.functions = pre ++ f :: post) (accepts : ∀ g ∈ pre, Accepts p pass g)
    (refuses : Refuses p pass f e) :
    Stops p pass m
      { m with
        functions := pre.map (pass.image p.registry) ++ pass.image p.registry f :: post }
      (pre ++ [f]) ⟨unitText pass m f, e⟩
  /-- It fails in its own run over the module. -/
  | inRun {run : Registry → Module → Outcome Module} {e : Error}
    (ownRun_eq : pass.ownRun? = some run)
    (run_eq : (run p.registry m).result = .error e) :
    Stops p pass m (m.through p.registry [pass]) [] ⟨(IrUnit.module m).text, e⟩
  /-- It goes over the module, which is ill formed then. -/
  | atModule {e : Error} (scope_eq : pass.scope = .module)
    (verifyEach_eq : p.options.verifyEach = true) (works : Works p pass m)
    (verify_eq : (m.through p.registry [pass]).verify = .error e) :
    Stops p pass m (m.through p.registry [pass]) (pass.visited m) ⟨(IrUnit.module m).text, e⟩

variable {p : Pipeline} {pass : Pass} {tried : List Dump} {index : Nat} {m : Module}

/-- A check does not turn a failure into a success. -/
theorem verified_eq_ok_iff {α : Type} {o : Options} {verify : α → Except Error Unit}
    {outcome : Outcome α} {changed : Bool} :
    o.verified verify outcome = .ok changed ↔
      outcome.result = .ok changed ∧ (o.verifyEach = true → verify outcome.state = .ok ()) := by
  unfold Options.verified
  cases outcome.result with
  | error e => simp
  | ok now =>
    by_cases hv : o.verifyEach = true
    · simp only [hv, if_true, Fallible.map_eq_ok_iff, Except.ok.injEq, forall_const]
      constructor
      · intro h
        obtain ⟨u, hu, rfl⟩ := h
        exact ⟨rfl, hu⟩
      · intro h
        obtain ⟨rfl, hu⟩ := h
        exact ⟨(), hu, rfl⟩
    · simp [hv]

theorem verified_eq_error_iff {α : Type} {o : Options} {verify : α → Except Error Unit}
    {outcome : Outcome α} {e : Error} :
    o.verified verify outcome = .error e ↔
      outcome.result = .error e ∨ (∃ changed, outcome.result = .ok changed) ∧
        o.verifyEach = true ∧ verify outcome.state = .error e := by
  unfold Options.verified
  cases outcome.result with
  | error e' => simp
  | ok changed =>
    by_cases hv : o.verifyEach = true
    · simp [hv, Fallible.map_eq_error_iff]
    · simp [hv]

/-! ## Journals of single passes -/

section Journal

@[simp] theorem visits_append (a b : Journal) : (a ++ b).visits = a.visits ++ b.visits := rfl

@[simp] theorem diagnostics_append (a b : Journal) :
    (a ++ b).diagnostics = a.diagnostics ++ b.diagnostics := rfl

@[simp] theorem starts_append (a b : Journal) : (a ++ b).starts = a.starts ++ b.starts := rfl

variable (p : Pipeline) (pass : Pass) (tried : List Dump) (index : Nat) (unit : IrUnit) (m : Module)
  (functions : List Func) (changed : Bool)

@[simp] theorem visits_opening :
    (p.opening tried index pass unit m functions).visits = visits index pass functions := by
  have h := congrArg Journal.visits (p.withoutDumps_opening tried index pass unit m functions)
  simpa [Journal.withoutDumps] using h

@[simp] theorem diagnostics_opening :
    (p.opening tried index pass unit m functions).diagnostics = [] :=
  congrArg Journal.diagnostics (p.withoutDumps_opening tried index pass unit m functions)

@[simp] theorem starts_opening :
    (p.opening tried index pass unit m functions).starts = [⟨index, unit, m⟩] :=
  congrArg Journal.starts (p.withoutDumps_opening tried index pass unit m functions)

@[simp] theorem visits_snapshotAfter :
    (p.options.snapshotAfter tried pass unit m changed).visits = [] :=
  congrArg Journal.visits (p.options.withoutDumps_snapshotAfter tried pass unit m changed)

@[simp] theorem diagnostics_snapshotAfter :
    (p.options.snapshotAfter tried pass unit m changed).diagnostics = [] :=
  congrArg Journal.diagnostics (p.options.withoutDumps_snapshotAfter tried pass unit m changed)

@[simp] theorem starts_snapshotAfter :
    (p.options.snapshotAfter tried pass unit m changed).starts = [] :=
  congrArg Journal.starts (p.options.withoutDumps_snapshotAfter tried pass unit m changed)

end Journal

/-! ## How single passes end -/

theorem accepts_of_verified {f : Func} {changed : Bool}
    (h : p.options.verified Func.verify (pass.run p.registry f) = .ok changed) :
    Accepts p pass f ∧ pass.changes p.registry f = changed := by
  obtain ⟨hresult, hverify⟩ := verified_eq_ok_iff.1 h
  exact ⟨⟨⟨changed, hresult⟩, fun _ => hverify⟩, Pass.changes_of_result hresult⟩

theorem refuses_of_verified (hscope : pass.scope = .function) {f : Func} {e : Error}
    (h : p.options.verified Func.verify (pass.run p.registry f) = .error e) :
    Refuses p pass f e := by
  rcases verified_eq_error_iff.1 h with hresult | ⟨hresult, hverify, he⟩
  · exact .fails hresult
  · exact .illFormed hscope hverify hresult he

/-- How a pass ends that runs on the functions `rest` one by one. -/
theorem runOnFunctions_cases (p : Pipeline) (tried : List Dump) (index : Nat)
    (hscope : pass.scope = .function) (name : Option String) (done rest : List Func) :
    let r := p.runOnFunctions tried index pass name done rest
    ((∀ f ∈ rest, Accepts p pass f) ∧ r.result = .ok (rest.any (pass.changes p.registry)) ∧
      r.module = ⟨name, done ++ rest.map (pass.image p.registry)⟩ ∧
      r.journal.visits = visits index pass rest) ∨
    ∃ pre f post e, rest = pre ++ f :: post ∧ (∀ g ∈ pre, Accepts p pass g) ∧
      Refuses p pass f e ∧ r.result = .error ⟨(IrUnit.function f).text, e⟩ ∧
      r.module = ⟨name,
        done ++ (pre.map (pass.image p.registry) ++ pass.image p.registry f :: post)⟩ ∧
      r.journal.visits = visits index pass (pre ++ [f]) := by
  induction rest generalizing tried done with
  | nil => simp [runOnFunctions, visits]
  | cons f rest ih =>
    rw [runOnFunctions]
    simp only
    cases hv : p.options.verified Func.verify (pass.run p.registry f) with
    | error e =>
      refine .inr ⟨[], f, rest, e, rfl, by simp, refuses_of_verified hscope hv, rfl, rfl, ?_⟩
      simp
    | ok changed =>
      obtain ⟨haccepts, rfl⟩ := accepts_of_verified hv
      simp only [visits_append, visits_opening, visits_snapshotAfter]
      rcases ih _ (done ++ [(pass.run p.registry f).state]) with
        ⟨hall, hresult, hmodule, hvisits⟩ |
          ⟨pre, g, post, e, rfl, hpre, hg, hresult, hmodule, hvisits⟩
      · refine .inl ⟨List.forall_mem_cons.2 ⟨haccepts, hall⟩, ?_, ?_, ?_⟩
        · rw [hresult]
          rfl
        · rw [hmodule]
          simp [Pass.image]
        · rw [hvisits]
          rfl
      · refine .inr ⟨f :: pre, g, post, e, rfl, List.forall_mem_cons.2 ⟨haccepts, hpre⟩, hg,
          ?_, ?_, ?_⟩
        · rw [hresult]
          rfl
        · rw [hmodule]
          simp [Pass.image]
        · rw [hvisits]
          rfl

/-- How a pass ends that runs on functions one after the other without a check between them. -/
theorem runAll_cases (pass : Pass) (registry : Registry) (functions : List Func) :
    let outcome := pass.runAll registry functions
    ((∀ f ∈ functions, ∃ changed, (pass.run registry f).result = .ok changed) ∧
      outcome = ⟨functions.map (pass.image registry), .ok (functions.any (pass.changes registry))⟩ ∧
      pass.reached registry functions = functions) ∨
    ∃ pre f post e, functions = pre ++ f :: post ∧
      (∀ g ∈ pre, ∃ changed, (pass.run registry g).result = .ok changed) ∧
      (pass.run registry f).result = .error e ∧
      outcome = ⟨pre.map (pass.image registry) ++ pass.image registry f :: post, .error e⟩ ∧
      pass.reached registry functions = pre ++ [f] := by
  induction functions with
  | nil => simp [Pass.runAll, Pass.reached]
  | cons f rest ih =>
    rw [Pass.runAll, Pass.reached]
    simp only
    cases hr : (pass.run registry f).result with
    | error e => exact .inr ⟨[], f, rest, e, rfl, by simp, hr, rfl, rfl⟩
    | ok changed =>
      rcases ih with ⟨hall, houtcome, hreached⟩ |
        ⟨pre, g, post, e, rfl, hpre, hg, houtcome, hreached⟩
      · refine .inl ⟨List.forall_mem_cons.2 ⟨⟨changed, hr⟩, hall⟩, ?_, ?_⟩
        · simp [houtcome, Pass.image, Pass.changes_of_result hr, Except.map]
        · rw [hreached]
      · refine .inr ⟨f :: pre, g, post, e, rfl, List.forall_mem_cons.2 ⟨⟨changed, hr⟩, hpre⟩, hg,
          ?_, ?_⟩
        · simp [houtcome, Pass.image, Except.map]
        · rw [hreached]
          rfl

/-- How a pass over the module ends before the module is checked. -/
theorem runOnModule_cases (p : Pipeline) (hscope : pass.scope = .module) (m : Module) :
    let outcome := pass.runOnModule p.registry m
    (Works p pass m ∧
      outcome = ⟨m.through p.registry [pass], .ok (pass.changesModule p.registry m)⟩ ∧
      pass.reachedInModule p.registry m = pass.visited m) ∨
    ∃ e, outcome.result = .error e ∧ Stops p pass m outcome.state
      (pass.reachedInModule p.registry m) ⟨(IrUnit.module m).text, e⟩ := by
  have hown := Pass.ownRun?_of_module hscope
  unfold Pass.runOnModule Pass.reachedInModule
  cases hrun : pass.moduleRun with
  | some run =>
    rw [hrun] at hown
    have hthrough : m.through p.registry [pass] = (run p.registry m).state := by
      simp only [Module.through_singleton, Pass.after, hown]
    cases hresult : (run p.registry m).result with
    | ok changed =>
      refine .inl ⟨⟨fun h => ?_, fun run' hrun' => ?_⟩, ?_, ?_⟩
      · cases hown.symm.trans h
      · obtain rfl : run = run' := Option.some.inj (hown.symm.trans hrun')
        exact ⟨changed, hresult⟩
      · simp only [hthrough, Pass.changesModule, hown, hresult]
        rw [← hresult]
      · simp only [Pass.visited, hown]
    | error e =>
      refine .inr ⟨e, hresult, ?_⟩
      have hstops := Stops.inRun hown hresult
      rwa [hthrough] at hstops
  | none =>
    have hwise : pass.FunctionWise := hown.trans hrun
    have haccepts : ∀ {f}, (∃ changed, (pass.run p.registry f).result = .ok changed) →
        Accepts p pass f := by
      refine fun hf => ⟨hf, fun h => ?_⟩
      cases hscope.symm.trans h
    rcases runAll_cases pass p.registry m.functions with
      ⟨hall, houtcome, hreached⟩ | ⟨pre, f, post, e, hm, hpre, hf, houtcome, hreached⟩
    · refine .inl ⟨⟨fun _ f hf => haccepts (hall f hf), fun run h => ?_⟩, ?_, ?_⟩
      · cases hwise.symm.trans h
      · simp only [houtcome, Module.through_singleton, hwise.after_eq, hwise.changesModule_eq]
      · simp only [hreached, hwise.visited_eq]
    · simp only [houtcome, hreached]
      refine .inr ⟨e, rfl, ?_⟩
      have hstops := Stops.atFunction hwise hm (fun g hg => haccepts (hpre g hg)) (.fails hf)
      simpa [unitText, hscope] using hstops

/-- **A pass goes through a module or stops on it.** -/
theorem runPass_cases (p : Pipeline) (tried : List Dump) (index : Nat) (pass : Pass) (m : Module) :
    let r := p.runPass tried index pass m
    (Succeeds p pass m ∧ r.result = .ok (pass.changesModule p.registry m) ∧
      r.module = m.through p.registry [pass] ∧
      r.journal.visits = visits index pass (pass.visited m)) ∨
    ∃ reached failure, Stops p pass m r.module reached failure ∧ r.result = .error failure ∧
      r.journal.visits = visits index pass reached := by
  unfold runPass
  cases hscope : pass.scope with
  | function =>
    have hwise := Pass.functionWise_of_function hscope
    simp only [hwise.changesModule_eq, hwise.visited_eq, Module.through_singleton, hwise.after_eq]
    rcases p.runOnFunctions_cases tried index hscope m.name [] m.functions with
      ⟨hall, hresult, hmodule, hvisits⟩ | ⟨pre, f, post, e, hm, hpre, hf, hresult, hmodule, hvisits⟩
    · refine .inl ⟨⟨⟨fun _ => hall, fun run h => ?_⟩, fun h => ?_⟩, hresult, hmodule, hvisits⟩
      · cases hwise.symm.trans h
      · cases hscope.symm.trans h
    · refine .inr ⟨pre ++ [f], ⟨(IrUnit.function f).text, e⟩, ?_, hresult, hvisits⟩
      have hstops := Stops.atFunction hwise hm hpre hf
      rw [hmodule]
      simpa [unitText, hscope] using hstops
  | module =>
    simp only
    unfold runOnModule
    rcases p.runOnModule_cases hscope m with ⟨hworks, houtcome, hreached⟩ | ⟨e, hresult, hstops⟩
    · simp only [houtcome, hreached]
      cases hv : p.options.verified Module.verify
          ⟨m.through p.registry [pass], .ok (pass.changesModule p.registry m)⟩ with
      | ok changed =>
        obtain ⟨hresult, hverify⟩ := verified_eq_ok_iff.1 hv
        cases hresult
        exact .inl ⟨⟨hworks, fun _ => hverify⟩, rfl, rfl, by simp⟩
      | error e =>
        rcases verified_eq_error_iff.1 hv with hresult | ⟨-, hverify, he⟩
        · cases hresult
        · exact .inr ⟨_, _, .atModule hscope hverify hworks he, rfl, by simp⟩
    · have hv : p.options.verified Module.verify (pass.runOnModule p.registry m) = .error e :=
        verified_eq_error_iff.2 (.inl hresult)
      simp only [hv]
      exact .inr ⟨_, _, hstops, rfl, by simp⟩

theorem diagnostics_runOnFunctions (name : Option String) (done rest : List Func) :
    (p.runOnFunctions tried index pass name done rest).journal.diagnostics = [] := by
  induction rest generalizing tried done with
  | nil => rfl
  | cons f rest ih =>
    rw [runOnFunctions]
    simp only
    split
    · simp
    · simp [ih]

theorem diagnostics_runPass : (p.runPass tried index pass m).journal.diagnostics = [] := by
  unfold runPass
  cases pass.scope with
  | function => exact diagnostics_runOnFunctions m.name [] m.functions
  | module =>
    simp only
    unfold runOnModule
    simp only
    split <;> simp

theorem starts_runOnFunctions (name : Option String) (done rest : List Func) :
    ∀ s ∈ (p.runOnFunctions tried index pass name done rest).journal.starts, s.index = index := by
  induction rest generalizing tried done with
  | nil => simp [runOnFunctions]
  | cons f rest ih =>
    rw [runOnFunctions]
    simp only
    split
    · simp
    · simp only [starts_append, starts_opening, starts_snapshotAfter, List.append_nil,
        List.singleton_append, List.forall_mem_cons]
      exact ⟨trivial, ih _⟩

theorem starts_runPass : ∀ s ∈ (p.runPass tried index pass m).journal.starts, s.index = index := by
  unfold runPass
  cases pass.scope with
  | function => exact starts_runOnFunctions m.name [] m.functions
  | module =>
    simp only
    unfold runOnModule
    simp only
    split <;> simp

end Pipeline

end TensorIR
