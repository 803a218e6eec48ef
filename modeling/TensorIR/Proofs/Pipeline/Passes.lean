import TensorIR.Proofs.Pipeline.Ending
import TensorIR.Proofs.Related

/-!
# What a successful run has done

If all passes go from function to function, a run that succeeds has taken every function through
them, each successful on it (`RunsThrough`), in whatever scope the passes work. If units are
checked, what a run leaves has passed the check (`verify_of_run`). Dumps between the passes have no
part in it.

A run that fails has done so with the passes in front of the one that fails (`failed_of_runFrom`),
and a pass over single functions fails only because it fails on one of them
(`exists_failed_of_runPass`). Passes that leave every function as it is leave the module as it
is (`run_of_fixed`).
-/

namespace TensorIR

namespace Module

theorem verifyFrom_eq_ok_iff {seen : List String} {functions : List Func} :
    verifyFrom seen functions = .ok () ↔
      (∀ f ∈ functions, f.verify = .ok ()) ∧ (functions.map Func.name).Nodup ∧
        ∀ f ∈ functions, f.name ∉ seen := by
  induction functions generalizing seen with
  | nil => simp [verifyFrom]
  | cons f rest ih =>
    rw [verifyFrom, List.forall_mem_cons, List.forall_mem_cons, List.map_cons, List.nodup_cons]
    by_cases hseen : f.name ∈ seen
    · simp [hseen]
    · cases hf : f.verify with
      | error e => simp [hseen]
      | ok u =>
        simp only [List.contains_eq_mem, hseen, decide_false, Bool.false_eq_true, if_false, ih,
          List.mem_map, List.mem_cons, not_or, not_exists, not_and, true_and, not_false_eq_true]
        constructor
        · rintro ⟨hrest, hnodup, hfresh⟩
          exact ⟨hrest, ⟨fun g hg => (hfresh g hg).1, hnodup⟩, fun g hg => (hfresh g hg).2⟩
        · rintro ⟨hrest, ⟨hne, hnodup⟩, hfresh⟩
          exact ⟨hrest, hnodup, fun g hg => ⟨hne g hg, hfresh g hg⟩⟩

/-- A module is well formed if its functions are and have different names. -/
theorem verify_eq_ok_iff {m : Module} :
    m.verify = .ok () ↔
      (∀ f ∈ m.functions, f.verify = .ok ()) ∧ (m.functions.map Func.name).Nodup := by
  simp [verify, verifyFrom_eq_ok_iff]

end Module

namespace Pipeline

/-- A pass takes a function to another one and succeeds. -/
def RunsTo (registry : Registry) (pass : Pass) (f g : Func) : Prop :=
  ∃ changed, pass.run registry f = ⟨g, .ok changed⟩

/-- Passes take a function to another one, and all of them succeed. -/
def RunsThrough (registry : Registry) : List Pass → Func → Func → Prop
  | [], f, g => g = f
  | pass :: rest, f, g => ∃ between, RunsTo registry pass f between ∧
    RunsThrough registry rest between g

variable {p : Pipeline} {pass : Pass} {tried : List Dump} {index : Nat} {m : Module}

theorem runsTo_of_result {f : Func} {changed : Bool}
    (h : (pass.run p.registry f).result = .ok changed) :
    RunsTo p.registry pass f (pass.run p.registry f).state :=
  ⟨changed, by rw [← h]⟩

/-- What a pass leaves when it goes through has passed the check, if units are checked. -/
theorem Succeeds.verify_eq (h : Succeeds p pass m) (hv : p.options.verifyEach = true) :
    ∀ g ∈ (m.through p.registry [pass]).functions, g.verify = .ok () := by
  intro g hg
  cases hscope : pass.scope with
  | function =>
    have hwise := Pass.functionWise_of_function hscope
    rw [Module.through_singleton, hwise.after_eq] at hg
    obtain ⟨f, hf, rfl⟩ := List.mem_map.1 hg
    exact (h.accepts hwise f hf).verifies hscope hv
  | module => exact (Module.verify_eq_ok_iff.1 (h.verifies hscope hv)).1 g hg

theorem verify_of_runPass (hv : p.options.verifyEach = true) {changed : Bool}
    (h : (p.runPass tried index pass m).result = .ok changed) :
    ∀ g ∈ (p.runPass tried index pass m).module.functions, g.verify = .ok () := by
  rcases p.runPass_cases tried index pass m with ⟨hsucceeds, -, hmodule, -⟩ | ⟨_, _, -, hresult, -⟩
  · rw [hmodule]
    exact hsucceeds.verify_eq hv
  · rw [hresult] at h
    cases h

theorem runsTo_of_runPass (hwise : pass.FunctionWise) {changed : Bool}
    (h : (p.runPass tried index pass m).result = .ok changed) :
    List.Forall₂ (RunsTo p.registry pass) m.functions
      (p.runPass tried index pass m).module.functions := by
  rcases p.runPass_cases tried index pass m with ⟨hsucceeds, -, hmodule, -⟩ | ⟨_, _, -, hresult, -⟩
  · rw [hmodule, Module.through_singleton, hwise.after_eq, List.forall₂_map_right_iff,
      List.forall₂_same]
    intro f hf
    obtain ⟨now, hnow⟩ := (hsucceeds.accepts hwise f hf).succeeds
    exact runsTo_of_result hnow
  · rw [hresult] at h
    cases h

theorem runsThrough_of_runFrom {passes : List Pass} {report : Report}
    (hwise : ∀ pass ∈ passes, pass.FunctionWise)
    (h : (p.runFrom tried index passes m).result = .ok report) :
    List.Forall₂ (RunsThrough p.registry passes) m.functions
      (p.runFrom tried index passes m).module.functions := by
  induction passes generalizing tried index m report with
  | nil => exact List.forall₂_same.2 fun f _ => rfl
  | cons pass rest ih =>
    rw [runFrom] at h ⊢
    cases hr : (p.runPass tried index pass m).result with
    | error e => simp [hr] at h
    | ok now =>
      simp only [hr] at h ⊢
      obtain ⟨later, hlater, -⟩ := Fallible.map_eq_ok_iff.1 h
      obtain ⟨hpass, hrest⟩ := List.forall_mem_cons.1 hwise
      exact forall₂_comp (runsTo_of_runPass hpass hr) (ih hrest hlater)

/-- **A successful run** has taken each function through all passes. -/
theorem runsThrough_of_run {report : Report} (hwise : ∀ pass ∈ p.passes, pass.FunctionWise)
    (h : (p.run m).result = .ok report) :
    List.Forall₂ (RunsThrough p.registry p.passes) m.functions (p.run m).module.functions :=
  runsThrough_of_runFrom hwise h

theorem verify_of_runFrom {passes : List Pass} {report : Report}
    (hv : p.options.verifyEach = true) (hpasses : passes ≠ [])
    (h : (p.runFrom tried index passes m).result = .ok report) :
    ∀ g ∈ (p.runFrom tried index passes m).module.functions, g.verify = .ok () := by
  induction passes generalizing tried index m report with
  | nil => exact absurd rfl hpasses
  | cons pass rest ih =>
    rw [runFrom] at h ⊢
    cases hr : (p.runPass tried index pass m).result with
    | error e => simp [hr] at h
    | ok now =>
      simp only [hr] at h ⊢
      obtain ⟨later, hlater, -⟩ := Fallible.map_eq_ok_iff.1 h
      cases rest with
      | cons next rest => exact ih (by simp) hlater
      | nil => exact verify_of_runPass hv hr

/-- What a successful run leaves has passed the check, if units are checked. -/
theorem verify_of_run {report : Report} (hv : p.options.verifyEach = true) (hpasses : p.passes ≠ [])
    (h : (p.run m).result = .ok report) : ∀ g ∈ (p.run m).module.functions, g.verify = .ok () :=
  verify_of_runFrom hv hpasses h

/-! ## Failures of a pass -/

/-- A pass over single functions fails on one of them. -/
theorem exists_failed_of_runPass {failure : UnitFailure} (hscope : pass.scope = .function)
    (h : (p.runPass tried index pass m).result = .error failure) :
    ∃ f ∈ m.functions, ∃ e, p.options.verified Func.verify (pass.run p.registry f) = .error e := by
  rcases p.runPass_cases tried index pass m with ⟨-, hresult, -⟩ | ⟨reached, failure', hstops, -⟩
  · rw [hresult] at h
    cases h
  · generalize (p.runPass tried index pass m).module = left at hstops
    cases hstops with
    | @atFunction pre post f e _ hm _ hrefuses =>
      refine ⟨f, by simp [hm], e, verified_eq_error_iff.2 ?_⟩
      cases hrefuses with
      | fails hrun => exact .inl hrun
      | illFormed _ hverify hrun he => exact .inr ⟨hrun, hverify, he⟩
    | inRun hown => cases (Pass.functionWise_of_function hscope).symm.trans hown
    | atModule hmodule => cases hscope.symm.trans hmodule

/-- A run that fails has taken each function through the passes in front of the one that fails. -/
theorem failed_of_runFrom {passes : List Pass} {e : PipelineError}
    (hwise : ∀ pass ∈ passes, pass.FunctionWise)
    (h : (p.runFrom tried index passes m).result = .error e) :
    ∃ done pass rest m' tried' failure, passes = done ++ pass :: rest ∧
      e.index = index + done.length ∧
      List.Forall₂ (RunsThrough p.registry done) m.functions m'.functions ∧
      (p.runPass tried' e.index pass m').result = .error failure := by
  induction passes generalizing tried index m with
  | nil => simp [runFrom] at h
  | cons first passes ih =>
    rw [runFrom] at h
    cases hr : (p.runPass tried index first m).result with
    | error failure =>
      simp only [hr, Except.error.injEq] at h
      subst h
      exact ⟨[], first, passes, m, tried, failure, rfl, rfl, List.forall₂_same.2 fun f _ => rfl, hr⟩
    | ok now =>
      simp only [hr] at h
      obtain ⟨hfirst, hrest⟩ := List.forall_mem_cons.1 hwise
      obtain ⟨done, pass, rest, m', tried', failure, rfl, hindex, hdone, hfail⟩ :=
        ih hrest (Fallible.map_eq_error_iff.1 h)
      refine ⟨first :: done, pass, rest, m', tried', failure, rfl, ?_, ?_, hfail⟩
      · rw [hindex, List.length_cons]
        omega
      · exact forall₂_comp (runsTo_of_runPass hfirst hr) hdone

/-! ## The standard pipeline -/

theorem mem_standard_passes {registry : Registry} {options : Options} :
    pass ∈ (standard registry options).passes ↔
      pass = ShapeInference.pass Relay.dialectName ∨ pass = Fusion.pass Relay.dialectName := by
  change pass ∈ [ShapeInference.pass Relay.dialectName, Fusion.pass Relay.dialectName] ↔ _
  simp

theorem functionWise_of_mem_standard {registry : Registry} {options : Options}
    (h : pass ∈ (standard registry options).passes) : pass.FunctionWise := by
  rcases mem_standard_passes.1 h with rfl | rfl <;> rfl

/-! ## Passes that have nothing to do -/

/-- A pass leaves a function as it is, and the function is well formed if units are checked. -/
structure Fixed (p : Pipeline) (pass : Pass) (f : Func) : Prop where
  run_eq : pass.run p.registry f = ⟨f, .ok false⟩
  verify_eq : p.options.verifyEach = true → f.verify = .ok ()

theorem runOnFunctions_of_fixed {name : Option String} {rest : List Func} (done : List Func)
    (h : ∀ f ∈ rest, Fixed p pass f) :
    (p.runOnFunctions tried index pass name done rest).module = ⟨name, done ++ rest⟩ ∧
      (p.runOnFunctions tried index pass name done rest).result = .ok false := by
  induction rest generalizing tried done with
  | nil => simp [runOnFunctions]
  | cons f rest ih =>
    obtain ⟨hf, hrest⟩ := List.forall_mem_cons.1 h
    have hv : p.options.verified Func.verify ⟨f, .ok false⟩ = .ok false :=
      verified_eq_ok_iff.2 ⟨rfl, hf.verify_eq⟩
    rw [runOnFunctions]
    simp only [hf.run_eq, hv, ih (done ++ [f]) hrest]
    simp [Except.map]

theorem runFrom_of_fixed {passes : List Pass} (index : Nat)
    (h : ∀ pass ∈ passes, pass.scope = .function ∧ ∀ f ∈ m.functions, Fixed p pass f) :
    (p.runFrom tried index passes m).module = m ∧
      (p.runFrom tried index passes m).result = .ok ⟨passes.map fun _ => false⟩ := by
  induction passes generalizing tried index with
  | nil => exact ⟨rfl, rfl⟩
  | cons pass rest ih =>
    obtain ⟨⟨hscope, hfixed⟩, hrest⟩ := List.forall_mem_cons.1 h
    have hpass : (p.runPass tried index pass m).module = m ∧
        (p.runPass tried index pass m).result = .ok false := by
      unfold runPass
      simp only [hscope]
      exact runOnFunctions_of_fixed [] hfixed
    rw [runFrom]
    simp [hpass, ih (index + 1) hrest, Except.map]

/-- Passes that have nothing to do on any function leave the module as it is. -/
theorem run_of_fixed
    (h : ∀ pass ∈ p.passes, pass.scope = .function ∧ ∀ f ∈ m.functions, Fixed p pass f) :
    (p.run m).module = m ∧ (p.run m).result = .ok ⟨p.passes.map fun _ => false⟩ :=
  runFrom_of_fixed 0 h

end Pipeline

end TensorIR
