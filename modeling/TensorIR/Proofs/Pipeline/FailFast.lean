import TensorIR.Proofs.Pipeline.Ending

/-!
# Pipelines fail fast

A run goes on to the next pass only if a pass has gone through the module. So a successful run is
all passes on all functions (`Completed`), and a failed one is all passes in front of the one that
stops, what that one has left, and nothing behind it (`FailedAt`). `run_fail_fast` says that every
run is one of the two. A pass that goes over modules in a way of its own counts as one step.
-/

namespace TensorIR.Pipeline

variable {p : Pipeline} {pass : Pass} {tried : List Dump} {index : Nat} {m : Module}

/-- Every pass goes through what the passes in front of it leave of a module. -/
def AllSucceed (p : Pipeline) (passes : List Pass) (m : Module) : Prop :=
  ∀ i pass, passes[i]? = some pass → Succeeds p pass (m.through p.registry (passes.take i))

/-- Every pass on every function that it visits, as the passes in front of it leave them; the first
pass is at `index` in the order of execution. -/
def allVisits (registry : Registry) (index : Nat) (passes : List Pass) (m : Module) : List Visit :=
  (passes.mapIdx fun i pass =>
    visits (index + i) pass (pass.visited (m.through registry (passes.take i)))).flatten

/-- All passes have gone through the module. -/
structure Completed (p : Pipeline) (index : Nat) (passes : List Pass) (m : Module) (r : Run)
    (report : Report) : Prop where
  succeed : AllSucceed p passes m
  module_eq : r.module = m.through p.registry passes
  visits_eq : r.journal.visits = allVisits p.registry index passes m
  passesRun_eq : report.passesRun = passes.length
  /-- A pass has changed the module if it says so of what it found: of one of the functions, if it
  goes from function to function. -/
  changed_eq : ∀ i (pass : Pass), passes[i]? = some pass → report.changed[i]? =
    some (pass.changesModule p.registry (m.through p.registry (passes.take i)))
  diagnostics_eq : r.journal.diagnostics = []

/-- The passes `done` have gone through the module, and `pass` has stopped on what they left, when
it had been run on the functions `reached`. -/
structure FailedAt (p : Pipeline) (index : Nat) (done : List Pass) (pass : Pass)
    (reached : List Func) (m : Module) (r : Run) (e : PipelineError) : Prop where
  index_eq : e.index = index + done.length
  pass_eq : e.pass = pass.name
  succeed : AllSucceed p done m
  stops : Stops p pass (m.through p.registry done) r.module reached ⟨e.unit, e.source⟩
  /-- No pass has been run on anything else, -/
  visits_eq : r.journal.visits = allVisits p.registry index done m ++ visits e.index pass reached
  /-- and no unit has been taken up by a pass behind the one that stopped. -/
  starts_le : ∀ s ∈ r.journal.starts, s.index ≤ e.index
  diagnostics_eq : r.journal.diagnostics =
    [{ severity := .error, message := e.source.message, pass := some e.pass, unit := some e.unit }]

theorem allSucceed_nil : AllSucceed p [] m := by
  intro i pass h
  simp at h

theorem allSucceed_cons {rest : List Pass} (h : Succeeds p pass m)
    (hrest : AllSucceed p rest (m.through p.registry [pass])) : AllSucceed p (pass :: rest) m := by
  intro i q hq
  cases i with
  | zero =>
    obtain rfl : pass = q := by simpa using hq
    rw [List.take_zero, Module.through_nil]
    exact h
  | succ i =>
    rw [List.take_succ_cons, Module.through_cons]
    exact hrest i q (by simpa using hq)

theorem allVisits_cons {registry : Registry} {rest : List Pass} :
    allVisits registry index (pass :: rest) m =
      visits index pass (pass.visited m) ++
        allVisits registry (index + 1) rest (m.through registry [pass]) := by
  unfold allVisits
  rw [List.mapIdx_cons, List.flatten_cons, List.take_zero, Module.through_nil, Nat.add_zero]
  congr 3
  funext i q
  rw [List.take_succ_cons, Module.through_cons, Nat.add_right_comm, Nat.add_assoc]

/-- A run whose first pass goes through has completed if the others have. -/
theorem Completed.cons {rest : List Pass} {first : PassRun} {others : Run} {report : Report}
    {changed : Bool} (h : Succeeds p pass m)
    (hchanged : changed = pass.changesModule p.registry m)
    (hvisits : first.journal.visits = visits index pass (pass.visited m))
    (hdiagnostics : first.journal.diagnostics = [])
    (hothers : Completed p (index + 1) rest (m.through p.registry [pass]) others report) :
    Completed p index (pass :: rest) m
      ⟨others.module, .ok ⟨changed :: report.changed⟩, first.journal ++ others.journal⟩
      ⟨changed :: report.changed⟩ where
  succeed := allSucceed_cons h hothers.succeed
  module_eq := by rw [Module.through_cons, hothers.module_eq]
  visits_eq := by rw [visits_append, hvisits, hothers.visits_eq, allVisits_cons]
  passesRun_eq := by
    have hrest := hothers.passesRun_eq
    unfold Report.passesRun at hrest ⊢
    rw [List.length_cons, List.length_cons, hrest]
  changed_eq i q hq := by
    cases i with
    | zero =>
      obtain rfl : pass = q := by simpa using hq
      simp [hchanged, Module.through_nil]
    | succ i =>
      rw [List.take_succ_cons, Module.through_cons, List.getElem?_cons_succ]
      exact hothers.changed_eq i q (by simpa using hq)
  diagnostics_eq := by
    rw [diagnostics_append, hdiagnostics, hothers.diagnostics_eq, List.nil_append]

/-- A run whose first pass goes through has failed if the others have. -/
theorem FailedAt.cons {done : List Pass} {stopped : Pass} {reached : List Func} {first : PassRun}
    {others : Run} {e : PipelineError} {result : Except PipelineError Report}
    (h : Succeeds p pass m) (hvisits : first.journal.visits = visits index pass (pass.visited m))
    (hstarts : ∀ s ∈ first.journal.starts, s.index = index)
    (hdiagnostics : first.journal.diagnostics = [])
    (hothers : FailedAt p (index + 1) done stopped reached (m.through p.registry [pass]) others e) :
    FailedAt p index (pass :: done) stopped reached m
      ⟨others.module, result, first.journal ++ others.journal⟩ e where
  index_eq := by
    rw [hothers.index_eq, List.length_cons]
    omega
  pass_eq := hothers.pass_eq
  succeed := allSucceed_cons h hothers.succeed
  stops := by
    rw [Module.through_cons]
    exact hothers.stops
  visits_eq := by rw [visits_append, hvisits, hothers.visits_eq, allVisits_cons, List.append_assoc]
  starts_le s hs := by
    rcases List.mem_append.1 hs with hs | hs
    · have hindex := hothers.index_eq
      rw [hstarts s hs]
      omega
    · exact hothers.starts_le s hs
  diagnostics_eq := by
    rw [diagnostics_append, hdiagnostics, hothers.diagnostics_eq, List.nil_append]

theorem runFrom_cases (p : Pipeline) (tried : List Dump) (index : Nat) (passes : List Pass)
    (m : Module) :
    let r := p.runFrom tried index passes m
    (∃ report, r.result = .ok report ∧ Completed p index passes m r report) ∨
    ∃ e done pass rest reached, r.result = .error e ∧ passes = done ++ pass :: rest ∧
      FailedAt p index done pass reached m r e := by
  induction passes generalizing tried index m with
  | nil =>
    refine .inl ⟨{}, rfl, allSucceed_nil, ?_, rfl, rfl, by simp, rfl⟩
    exact (Module.through_nil m p.registry).symm
  | cons pass rest ih =>
    have hstarts : ∀ s ∈ (p.runPass tried index pass m).journal.starts, s.index = index :=
      starts_runPass
    have hdiagnostics : (p.runPass tried index pass m).journal.diagnostics = [] :=
      diagnostics_runPass
    rw [runFrom]
    simp only
    rcases p.runPass_cases tried index pass m with
      ⟨hsucceeds, hresult, hmodule, hvisits⟩ | ⟨reached, failure, hstops, hresult, hvisits⟩
    · simp only [hresult, hmodule]
      rcases ih (tried ++ (p.runPass tried index pass m).journal.dumps) (index + 1)
        (m.through p.registry [pass]) with
        ⟨report, hothers, hcompleted⟩ | ⟨e, done, stopped, rest', reached, hothers, rfl, hfailed⟩
      · rw [hothers]
        exact .inl ⟨_, rfl, hcompleted.cons hsucceeds rfl hvisits hdiagnostics⟩
      · rw [hothers]
        exact .inr ⟨e, pass :: done, stopped, rest', reached, rfl, rfl,
          hfailed.cons hsucceeds hvisits hstarts hdiagnostics⟩
    · simp only [hresult]
      refine .inr ⟨_, [], pass, rest, reached, rfl, rfl, rfl, rfl, allSucceed_nil, ?_, ?_, ?_, ?_⟩
      · rw [Module.through_nil]
        exact hstops
      · simp [hvisits, allVisits]
      · intro s hs
        rw [starts_append, List.append_nil] at hs
        exact Nat.le_of_eq (hstarts s hs)
      · simp [hdiagnostics, PipelineError.diagnostic]

/-- **A run fails fast.** It succeeds if every pass goes through what the passes in front leave, and
then it has done just that and has emitted no diagnostic. Otherwise it fails at the first pass that
stops, leaves the module as that pass has left it, has run no pass on anything since, and has
emitted the error as its only diagnostic. -/
theorem run_fail_fast (p : Pipeline) (m : Module) :
    match (p.run m).result with
    | .ok report => Completed p 0 p.passes m (p.run m) report
    | .error e => ∃ done pass rest reached, p.passes = done ++ pass :: rest ∧
      FailedAt p 0 done pass reached m (p.run m) e := by
  rcases p.runFrom_cases [] 0 p.passes m with
    ⟨report, hresult, h⟩ | ⟨e, done, pass, rest, reached, hresult, hpasses, h⟩
  · have hrun : (p.run m).result = .ok report := hresult
    rw [hrun]
    exact h
  · have hrun : (p.run m).result = .error e := hresult
    rw [hrun]
    exact ⟨done, pass, rest, reached, hpasses, h⟩

end TensorIR.Pipeline
