import TensorIR.Proofs.Func.History
import TensorIR.Proofs.Pipeline.FailFast

/-!
# Compiling functions one by one

A run is pass after pass, and within a pass function after function. If every pass works on single
functions, nothing goes from one function to another: whether a pass goes through a module is a
question to each of its functions, and so is whether a run succeeds (`allSucceed_iff`). So the loops
can be exchanged, and a module is compiled as its functions would be in modules of their own
(`run_separately`).
-/

namespace TensorIR

/-- A module of one function. -/
def Module.single (name : Option String) (f : Func) : Module := ⟨name, [f]⟩

/-- A function after passes have gone over it one after the other. -/
def Func.through (f : Func) (registry : Registry) (passes : List Pass) : Func :=
  passes.foldl (fun f q => q.image registry f) f

/-- Passes that go from function to function take each to where it gets alone. -/
theorem Module.through_eq {registry : Registry} {passes : List Pass}
    (hwise : ∀ pass ∈ passes, pass.FunctionWise) (m : Module) :
    m.through registry passes =
      { m with functions := m.functions.map fun f => f.through registry passes } := by
  induction passes generalizing m with
  | nil =>
    change m = { m with functions := m.functions.map id }
    rw [List.map_id]
  | cons pass rest ih =>
    obtain ⟨hpass, hrest⟩ := List.forall_mem_cons.1 hwise
    rw [through_cons, ih hrest, through_singleton, hpass.after_eq, List.map_map]
    rfl

theorem Module.functions_through {registry : Registry} {passes : List Pass}
    (hwise : ∀ pass ∈ passes, pass.FunctionWise) (m : Module) :
    (m.through registry passes).functions =
      m.functions.map fun f => f.through registry passes := by
  rw [through_eq hwise]

theorem Module.through_single {registry : Registry} {passes : List Pass}
    (hwise : ∀ pass ∈ passes, pass.FunctionWise) (name : Option String) (f : Func) :
    (Module.single name f).through registry passes = .single name (f.through registry passes) := by
  rw [through_eq hwise]
  rfl

namespace Pipeline

variable {p : Pipeline} {pass : Pass} {passes : List Pass} {m : Module} {f : Func}

/-! ## When a run succeeds -/

theorem Refuses.not_accepts {e : Error} (h : Refuses p pass f e) : ¬Accepts p pass f := by
  rintro ⟨⟨changed, hchanged⟩, hverifies⟩
  cases h with
  | fails hrun =>
    rw [hchanged] at hrun
    cases hrun
  | illFormed hscope hverify _ he =>
    rw [hverifies hscope hverify] at he
    cases he

/-- A pass that stops on a module does not go through it. -/
theorem Stops.not_succeeds {left : Module} {reached : List Func} {failure : UnitFailure}
    (h : Stops p pass m left reached failure) : ¬Succeeds p pass m := by
  intro hsucceeds
  cases h with
  | atFunction hwise hm _ hrefuses =>
    exact hrefuses.not_accepts (hsucceeds.accepts hwise _ (by simp [hm]))
  | inRun hown hrun =>
    obtain ⟨changed, hchanged⟩ := hsucceeds.runs _ hown
    cases hchanged.symm.trans hrun
  | atModule hscope hverify _ he =>
    rw [hsucceeds.verifies hscope hverify] at he
    cases he

theorem completed_of_runFrom {tried : List Dump} {index : Nat} {report : Report}
    (h : (p.runFrom tried index passes m).result = .ok report) :
    Completed p index passes m (p.runFrom tried index passes m) report := by
  rcases p.runFrom_cases tried index passes m with
    ⟨report', hresult, hcompleted⟩ | ⟨e, _, _, _, _, hresult, -⟩
  · obtain rfl : report' = report := Except.ok.inj (hresult.symm.trans h)
    exact hcompleted
  · cases hresult.symm.trans h

theorem completed_of_run {report : Report} (h : (p.run m).result = .ok report) :
    Completed p 0 p.passes m (p.run m) report :=
  completed_of_runFrom h

/-- A run succeeds exactly if every pass goes through what the passes in front of it leave. -/
theorem exists_report_runFrom_iff (tried : List Dump) (index : Nat) :
    (∃ report, (p.runFrom tried index passes m).result = .ok report) ↔ AllSucceed p passes m := by
  constructor
  · rintro ⟨report, h⟩
    exact (completed_of_runFrom h).succeed
  · intro hall
    rcases p.runFrom_cases tried index passes m with
      ⟨report, hresult, -⟩ | ⟨e, done, pass, rest, reached, -, rfl, hfailed⟩
    · exact ⟨report, hresult⟩
    · have hsucceeds := hall done.length pass (by simp)
      rw [List.take_left] at hsucceeds
      exact absurd hsucceeds hfailed.stops.not_succeeds

theorem exists_report_iff :
    (∃ report, (p.run m).result = .ok report) ↔ AllSucceed p p.passes m :=
  exists_report_runFrom_iff [] 0

/-- The run of the first passes only. -/
def runUpTo (p : Pipeline) (n : Nat) (m : Module) : Run :=
  p.runFrom [] 0 (p.passes.take n) m

theorem AllSucceed.take (h : AllSucceed p passes m) (n : Nat) : AllSucceed p (passes.take n) m := by
  intro i pass hpass
  rw [List.getElem?_take, Option.ite_none_right_eq_some] at hpass
  obtain ⟨hi, hpass⟩ := hpass
  rw [List.take_take, Nat.min_eq_left (Nat.le_of_lt hi)]
  exact h i pass hpass

/-- In a run that succeeds, the first passes have succeeded and have left the module that the next
one finds. -/
theorem module_runUpTo (h : AllSucceed p p.passes m) (n : Nat) :
    (p.runUpTo n m).module = m.through p.registry (p.passes.take n) := by
  obtain ⟨report, hreport⟩ := (exists_report_runFrom_iff [] 0).2 (h.take n)
  exact (completed_of_runFrom hreport).module_eq

/-! ## One function after the other -/

section

variable (hscope : ∀ pass ∈ passes, pass.scope = .function)

include hscope

theorem functionWise_take (n : Nat) : ∀ pass ∈ passes.take n, pass.FunctionWise := fun pass h =>
  Pass.functionWise_of_function (hscope pass (List.mem_of_mem_take h))

/-- Passes over single functions go through a module exactly if each of them accepts every function
as the passes in front of it leave it. -/
theorem allSucceed_iff_accepts :
    AllSucceed p passes m ↔ ∀ f ∈ m.functions, ∀ i pass, passes[i]? = some pass →
      Accepts p pass (f.through p.registry (passes.take i)) := by
  constructor
  · intro h f hf i pass hpass
    have hwise := Pass.functionWise_of_function (hscope pass (List.mem_of_getElem? hpass))
    refine (h i pass hpass).accepts hwise _ ?_
    rw [Module.functions_through (functionWise_take hscope i)]
    exact List.mem_map_of_mem hf
  · intro h i pass hpass
    have hfunction := hscope pass (List.mem_of_getElem? hpass)
    refine ⟨⟨fun _ g hg => ?_, fun run hrun => ?_⟩, fun hmodule => ?_⟩
    · rw [Module.functions_through (functionWise_take hscope i)] at hg
      obtain ⟨f, hf, rfl⟩ := List.mem_map.1 hg
      exact h f hf i pass hpass
    · cases (Pass.functionWise_of_function hfunction).symm.trans hrun
    · cases hfunction.symm.trans hmodule

theorem allSucceed_iff (name : Option String) :
    AllSucceed p passes m ↔ ∀ f ∈ m.functions, AllSucceed p passes (.single name f) := by
  simp only [allSucceed_iff_accepts hscope, Module.single, List.mem_singleton, forall_eq]

end

/-- The pass at a place in the order of execution changes what the passes in front of it leave of a
function. -/
def changesAt (p : Pipeline) (i : Nat) (f : Func) : Bool :=
  p.passes[i]?.any fun pass => pass.changes p.registry (f.through p.registry (p.passes.take i))

/-- A pass has changed a module if it has changed one of its functions. -/
theorem changed_getD (hscope : ∀ pass ∈ p.passes, pass.scope = .function) {report : Report}
    (h : (p.run m).result = .ok report) (i : Nat) :
    report.changed.getD i false = m.functions.any (p.changesAt i) := by
  have hcompleted := completed_of_run h
  unfold changesAt
  cases hpass : p.passes[i]? with
  | none =>
    have hlen : report.changed.length ≤ i := by
      have hrun : report.changed.length = p.passes.length := hcompleted.passesRun_eq
      have hi := List.getElem?_eq_none_iff.1 hpass
      omega
    rw [List.getD_eq_getElem?_getD, List.getElem?_eq_none hlen]
    simp
  | some pass =>
    have hwise := Pass.functionWise_of_function (hscope pass (List.mem_of_getElem? hpass))
    rw [List.getD_eq_getElem?_getD, hcompleted.changed_eq i pass hpass, hwise.changesModule_eq,
      Module.functions_through (functionWise_take hscope i), List.any_map]
    rfl

theorem any_changed (hscope : ∀ pass ∈ p.passes, pass.scope = .function) {name : Option String}
    {functions : List Func} {reports : List Report}
    (h : List.Forall₂ (fun f r => (p.run (.single name f)).result = .ok r) functions reports)
    (i : Nat) :
    (reports.any fun r => r.changed.getD i false) = functions.any (p.changesAt i) := by
  induction h with
  | nil => rfl
  | cons hf _ ih =>
    have hfirst := changed_getD hscope hf i
    simp only [Module.single, List.any_cons, List.any_nil, Bool.or_false] at hfirst
    rw [List.any_cons, List.any_cons, hfirst, ih]

/-- **A module is compiled as its functions are, one by one.** If every pass works on single
functions, a run on a module succeeds exactly if the runs on the modules of its functions do. Then
it leaves, at each place, the function that the run there leaves, and a pass has changed the module
if it has changed one of the functions. -/
theorem run_separately (p : Pipeline) (hscope : ∀ pass ∈ p.passes, pass.scope = .function)
    (m : Module) (name : Option String) :
    ((∃ report, (p.run m).result = .ok report) ↔
      ∀ f ∈ m.functions, ∃ report, (p.run (.single name f)).result = .ok report) ∧
    ∀ report, (p.run m).result = .ok report →
      (p.run m).module.name = m.name ∧
      (p.run m).module.functions.map (.single name) =
        m.functions.map (fun f => (p.run (.single name f)).module) ∧
      report.passesRun = p.passes.length ∧
      ∃ reports,
        List.Forall₂ (fun f r => (p.run (.single name f)).result = .ok r) m.functions reports ∧
        (∀ r ∈ reports, r.passesRun = p.passes.length) ∧
        ∀ i, report.changed.getD i false = reports.any fun r => r.changed.getD i false := by
  have hiff : (∃ report, (p.run m).result = .ok report) ↔
      ∀ f ∈ m.functions, ∃ report, (p.run (.single name f)).result = .ok report := by
    simp only [exists_report_iff]
    exact allSucceed_iff hscope name
  refine ⟨hiff, fun report hreport => ?_⟩
  have hcompleted := completed_of_run hreport
  have hwise : ∀ pass ∈ p.passes, pass.FunctionWise := fun pass hpass =>
    Pass.functionWise_of_function (hscope pass hpass)
  choose! reportOf hof using hiff.1 ⟨report, hreport⟩
  have hreports : List.Forall₂ (fun f r => (p.run (.single name f)).result = .ok r) m.functions
      (m.functions.map reportOf) :=
    List.forall₂_map_right_iff.2 (List.forall₂_same.2 hof)
  refine ⟨?_, ?_, hcompleted.passesRun_eq, m.functions.map reportOf, hreports, ?_, ?_⟩
  · rw [hcompleted.module_eq, Module.through_eq hwise]
  · rw [hcompleted.module_eq, Module.functions_through hwise, List.map_map]
    refine List.map_congr_left fun f hf => ?_
    rw [(completed_of_run (hof f hf)).module_eq, Module.through_single hwise, Function.comp_apply]
  · intro r hr
    obtain ⟨f, hf, rfl⟩ := List.mem_map.1 hr
    exact (completed_of_run (hof f hf)).passesRun_eq
  · intro i
    rw [changed_getD hscope hreport i, any_changed hscope hreports i]

/-- Two functions of one name: inference has something to do on the first only, fusion on both, and
each function is checked after each pass. -/
theorem run_separately_twins :
    let ty : Ty := .tensor ⟨.f32, [.known 2]⟩
    let build (declared : Ty) : Func := (Func.empty "main").after
      [.addArgument ty, .pushOp { name := ⟨"relay.exp"⟩, operands := [0] } [declared],
        .pushOp { name := .terminator, operands := [1] } [],
        .setSignature ⟨[ty], [ty]⟩]
    let f := build (.scalar .f32)
    let g := build ty
    let p := relay { verifyEach := true }
    let m : Module := ⟨some "twins", [f, g]⟩
    (∀ pass ∈ p.passes, pass.scope = .function) ∧
      (p.run m).result = .ok ⟨[true, true]⟩ ∧
      (p.run (.single none f)).result = .ok ⟨[true, true]⟩ ∧
      (p.run (.single none g)).result = .ok ⟨[false, true]⟩ ∧
      (p.run m).module.functions.map (.single none) =
        [(p.run (.single none f)).module, (p.run (.single none g)).module] := by
  intro ty build f g p m
  have hscope : ∀ pass ∈ p.passes, pass.scope = .function := by decide
  obtain ⟨hm, hf, hg⟩ : (p.run m).result = .ok ⟨[true, true]⟩ ∧
      (p.run (.single none f)).result = .ok ⟨[true, true]⟩ ∧
      (p.run (.single none g)).result = .ok ⟨[false, true]⟩ := by decide +kernel
  exact ⟨hscope, hm, hf, hg, ((run_separately p hscope m none).2 _ hm).2.1⟩

end Pipeline

end TensorIR
