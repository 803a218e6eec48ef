import TensorIR.Pass.Script
import TensorIR.Proofs.Pipeline.Passes
import TensorIR.Proofs.Pipeline.Separate

/-!
# Function by function or all at once

A pass can be run on the functions of a module one by one, each checked when the pass is through
with it, or on the module as a whole, which is checked at the end. For a pass that has no way of its
own to go over a module, the two are the same loop without checks (`runPass_inScope`), so a run goes
on in the same way behind the pass, and only the name of the unit in an error tells them apart. With
checks, the module as a whole is asked for one thing more: different names (`succeeds_module_iff`).
`scopes_agree` puts this together for such a pass at any place of a pipeline, among passes of any
kind.
-/

namespace TensorIR

/-- The same pass in a given scope. -/
def Pass.inScope (pass : Pass) (scope : Scope) : Pass := { pass with scope }

section

variable {pass : Pass} (hdefault : pass.moduleRun = none) (scope : Scope)

include hdefault

theorem Pass.functionWise_inScope : (pass.inScope scope).FunctionWise :=
  functionWise_of_default hdefault

/-- What a pass that goes from function to function makes of a module does not depend on its
scope. -/
theorem Pass.after_inScope : (pass.inScope scope).after = pass.after := by
  funext registry m
  rw [(functionWise_inScope hdefault scope).after_eq, (functionWise_of_default hdefault).after_eq]
  rfl

theorem Pass.changesModule_inScope : (pass.inScope scope).changesModule = pass.changesModule := by
  funext registry m
  rw [(functionWise_inScope hdefault scope).changesModule_eq,
    (functionWise_of_default hdefault).changesModule_eq]
  rfl

end

@[simp] theorem Pass.runAll_inScope (pass : Pass) (scope : Scope) (registry : Registry)
    (functions : List Func) :
    (pass.inScope scope).runAll registry functions = pass.runAll registry functions := by
  induction functions with
  | nil => rfl
  | cons f rest ih =>
    rw [Pass.runAll, Pass.runAll, ih]
    rfl

namespace Pipeline

variable {p : Pipeline} {pass : Pass} {tried : List Dump} {index : Nat} {m : Module}

/-! ## One pass without checks -/

theorem verified_unchecked {α : Type} (hv : p.options.verifyEach = false)
    (verify : α → Except Error Unit) (outcome : Outcome α) :
    p.options.verified verify outcome = outcome.result := by
  unfold Options.verified
  cases outcome.result with
  | error e => rfl
  | ok changed => simp [hv]

/-- Function by function, a pass does what it does to a list of functions; a failure names a
function. -/
theorem runOnFunctions_unchecked (hv : p.options.verifyEach = false) (tried : List Dump)
    (index : Nat) (pass : Pass) (name : Option String) (done rest : List Func) :
    let r := p.runOnFunctions tried index pass name done rest
    let outcome := pass.runAll p.registry rest
    r.module = ⟨name, done ++ outcome.state⟩ ∧
      r.result.mapError UnitFailure.source = outcome.result := by
  induction rest generalizing tried done with
  | nil => simp [runOnFunctions, Pass.runAll, Except.mapError]
  | cons f rest ih =>
    rw [runOnFunctions, Pass.runAll]
    simp only [verified_unchecked hv]
    cases (pass.run p.registry f).result with
    | error e => exact ⟨rfl, rfl⟩
    | ok changed =>
      simp only
      refine ⟨?_, ?_⟩
      · rw [(ih _ _).1]
        simp
      · rw [Fallible.mapError_map, (ih _ _).2]

/-- On the module as a whole, a pass does the same; a failure names the module. -/
theorem runOnModule_unchecked (hv : p.options.verifyEach = false) (tried : List Dump)
    (index : Nat) (pass : Pass) (hdefault : pass.moduleRun = none) (m : Module) :
    let r := p.runOnModule tried index pass m
    let outcome := pass.runAll p.registry m.functions
    r.module = { m with functions := outcome.state } ∧
      r.result = outcome.result.mapError fun e => ⟨(IrUnit.module m).text, e⟩ := by
  unfold runOnModule Pass.runOnModule
  simp only [verified_unchecked hv, hdefault]
  cases (pass.runAll p.registry m.functions).result with
  | error e => exact ⟨rfl, rfl⟩
  | ok changed => exact ⟨rfl, rfl⟩

/-- Without checks a pass leaves the same module in either scope, and gives the same answer up to
the name of the unit. -/
theorem runPass_inScope (hv : p.options.verifyEach = false) (hdefault : pass.moduleRun = none)
    (tried : List Dump) (index : Nat) (m : Module) :
    let onModule := p.runPass tried index (pass.inScope .module) m
    let onFunctions := p.runPass tried index (pass.inScope .function) m
    onModule.module = onFunctions.module ∧
      onModule.result =
        onFunctions.result.mapError fun e => ⟨(IrUnit.module m).text, e.source⟩ := by
  obtain ⟨hmodule, hresult⟩ := runOnFunctions_unchecked hv tried index (pass.inScope .function)
    m.name [] m.functions
  obtain ⟨hmodule', hresult'⟩ :=
    runOnModule_unchecked hv tried index (pass.inScope .module) hdefault m
  rw [Pass.runAll_inScope] at hmodule hresult hmodule' hresult'
  refine ⟨hmodule'.trans hmodule.symm, hresult'.trans ?_⟩
  rw [← hresult, Fallible.mapError_mapError]
  rfl

/-! ## Whole runs without checks -/

/-- What was dumped before a run has no part in it. -/
theorem runFrom_tried (p : Pipeline) (tried tried' : List Dump) (index : Nat) (passes : List Pass)
    (m : Module) :
    (p.runFrom tried index passes m).module = (p.runFrom tried' index passes m).module ∧
      (p.runFrom tried index passes m).result = (p.runFrom tried' index passes m).result := by
  obtain ⟨hmodule, hresult, -⟩ := Run.apartFromDumps_eq_iff.1
    (p.runFrom_withSnapshot p.options.snapshot tried tried' index passes m)
  exact ⟨hmodule, hresult⟩

/-- An error with the module as its unit, if it is at a given place in the order of execution. -/
def atModule (i : Nat) (m : Module) (e : PipelineError) : PipelineError :=
  if e.index = i then { e with unit := (IrUnit.module m).text } else e

theorem mapError_atModule_of_lt {i index : Nat} (hi : i < index) (passes : List Pass)
    (m m' : Module) :
    (p.runFrom tried index passes m).result.mapError (atModule i m') =
      (p.runFrom tried index passes m).result := by
  rcases p.runFrom_cases tried index passes m with
    ⟨report, hresult, -⟩ | ⟨e, done, pass, rest, reached, hresult, -, hfailed⟩
  · rw [hresult]
    rfl
  · have hne : e.index ≠ i := by
      have hindex := hfailed.index_eq
      omega
    rw [hresult]
    simp [Except.mapError, atModule, hne]

/-- Without checks a run leaves the same module in whichever scope one of its passes works, and
gives the same answer up to the name of the unit in an error of that pass. -/
theorem runFrom_inScope (hv : p.options.verifyEach = false) (hdefault : pass.moduleRun = none)
    (tried : List Dump) (index : Nat) (pre post : List Pass) (m : Module) :
    let onModule := p.runFrom tried index (pre ++ pass.inScope .module :: post) m
    let onFunctions := p.runFrom tried index (pre ++ pass.inScope .function :: post) m
    let found := (p.runFrom tried index pre m).module
    onModule.module = onFunctions.module ∧
      onModule.result = onFunctions.result.mapError (atModule (index + pre.length) found) := by
  induction pre generalizing tried index m with
  | nil =>
    obtain ⟨hmodule, hresult⟩ := runPass_inScope hv hdefault tried index m
    simp only [List.nil_append, List.length_nil, Nat.add_zero, runFrom, hmodule, hresult]
    cases (p.runPass tried index (pass.inScope .function) m).result with
    | error failure =>
      refine ⟨rfl, ?_⟩
      simp [Except.mapError, atModule, Pass.inScope]
    | ok changed =>
      -- the passes behind run on the same module; only what was dumped so far may differ
      obtain ⟨hmodule', hresult'⟩ := p.runFrom_tried
        (tried ++ (p.runPass tried index (pass.inScope .module) m).journal.dumps)
        (tried ++ (p.runPass tried index (pass.inScope .function) m).journal.dumps) (index + 1) post
        (p.runPass tried index (pass.inScope .function) m).module
      refine ⟨hmodule', ?_⟩
      simp only
      rw [Fallible.mapError_map, mapError_atModule_of_lt (Nat.lt_succ_self index), ← hresult']
      rfl
  | cons first pre ih =>
    simp only [List.cons_append, List.length_cons, runFrom]
    cases (p.runPass tried index first m).result with
    | error failure => simp [Except.mapError, atModule]
    | ok changed =>
      obtain ⟨hmodule, hresult⟩ := ih (tried ++ (p.runPass tried index first m).journal.dumps)
        (index + 1) (p.runPass tried index first m).module
      refine ⟨hmodule, ?_⟩
      simp only
      rw [hresult, Fallible.mapError_map, Nat.add_right_comm index 1, Nat.add_assoc index]

/-! ## With checks -/

theorem allSucceed_cons_iff {rest : List Pass} :
    AllSucceed p (pass :: rest) m ↔
      Succeeds p pass m ∧ AllSucceed p rest (m.through p.registry [pass]) := by
  constructor
  · intro h
    refine ⟨by simpa [Module.through_nil] using h 0 pass rfl, fun i q hq => ?_⟩
    have hsucceeds := h (i + 1) q (by simpa using hq)
    rwa [List.take_succ_cons, Module.through_cons] at hsucceeds
  · rintro ⟨hfirst, hrest⟩
    exact allSucceed_cons hfirst hrest

theorem allSucceed_append_iff {pre post : List Pass} :
    AllSucceed p (pre ++ post) m ↔
      AllSucceed p pre m ∧ AllSucceed p post (m.through p.registry pre) := by
  induction pre generalizing m with
  | nil => simp [allSucceed_nil, Module.through_nil]
  | cons first pre ih =>
    rw [List.cons_append, allSucceed_cons_iff, allSucceed_cons_iff, ih, and_assoc,
      ← Module.through_cons]

/-- The module as a whole is asked for different names, and otherwise for the same as its functions
one by one. -/
theorem succeeds_module_iff (hdefault : pass.moduleRun = none) :
    Succeeds p (pass.inScope .module) m ↔
      Succeeds p (pass.inScope .function) m ∧
        (p.options.verifyEach = true →
          ((pass.after p.registry m).functions.map Func.name).Nodup) := by
  have hwise := Pass.functionWise_inScope hdefault
  have hafter : pass.after p.registry m =
      { m with functions := m.functions.map (pass.image p.registry) } :=
    (Pass.functionWise_of_default hdefault).after_eq
  constructor
  · rintro ⟨hworks, hverifies⟩
    have hmodule : p.options.verifyEach = true →
        (∀ g ∈ (pass.after p.registry m).functions, g.verify = .ok ()) ∧
          ((pass.after p.registry m).functions.map Func.name).Nodup := by
      intro hv
      have hverify := hverifies rfl hv
      rw [Module.through_singleton, Pass.after_inScope hdefault] at hverify
      exact Module.verify_eq_ok_iff.1 hverify
    refine ⟨⟨⟨fun _ f hf => ?_, fun run h => ?_⟩, nofun⟩, fun hv => (hmodule hv).2⟩
    · refine ⟨(hworks.accepts (hwise _) f hf).succeeds, fun _ hv => ?_⟩
      refine (hmodule hv).1 _ ?_
      rw [hafter]
      exact List.mem_map_of_mem hf
    · cases (hwise _).symm.trans h
  · rintro ⟨⟨hworks, -⟩, hnames⟩
    refine ⟨⟨fun _ f hf => ⟨(hworks.accepts (hwise _) f hf).succeeds, nofun⟩, fun run h => ?_⟩,
      fun _ hv => ?_⟩
    · cases (hwise _).symm.trans h
    · rw [Module.through_singleton, Pass.after_inScope hdefault]
      refine Module.verify_eq_ok_iff.2 ⟨fun g hg => ?_, hnames hv⟩
      rw [hafter] at hg
      obtain ⟨f, hf, rfl⟩ := List.mem_map.1 hg
      exact (hworks.accepts (hwise _) f hf).verifies rfl hv

/-- What passes make of a module depends on what each of them makes of modules. -/
theorem through_eq_of_after_eq {passes passes' : List Pass}
    (h : passes'.map Pass.after = passes.map Pass.after) (registry : Registry) :
    m.through registry passes' = m.through registry passes := by
  have hfold : ∀ l : List Pass, m.through registry l =
      (l.map Pass.after).foldl (fun m after => after registry m) m := by
    intro l
    rw [List.foldl_map]
    rfl
  rw [hfold, hfold, h]

theorem through_inScope (hdefault : pass.moduleRun = none) (scope : Scope) (registry : Registry)
    (pre post : List Pass) :
    m.through registry (pre ++ pass.inScope scope :: post) =
      m.through registry (pre ++ pass :: post) := by
  apply through_eq_of_after_eq
  rw [List.map_append, List.map_append, List.map_cons, List.map_cons, Pass.after_inScope hdefault]

/-- A run with a pass over the module as a whole succeeds exactly if it does function by function
and the pass leaves different names. -/
theorem allSucceed_module_iff (hdefault : pass.moduleRun = none) {pre post : List Pass} :
    AllSucceed p (pre ++ pass.inScope .module :: post) m ↔
      AllSucceed p (pre ++ pass.inScope .function :: post) m ∧
        (p.options.verifyEach = true →
          ((m.through p.registry (pre ++ [pass])).functions.map Func.name).Nodup) := by
  rw [allSucceed_append_iff, allSucceed_append_iff, allSucceed_cons_iff, allSucceed_cons_iff,
    succeeds_module_iff hdefault, Module.through_append, Module.through_singleton,
    Module.through_singleton, Module.through_singleton, Pass.after_inScope hdefault,
    Pass.after_inScope hdefault]
  constructor
  · rintro ⟨hpre, ⟨hpass, hnames⟩, hpost⟩
    exact ⟨⟨hpre, hpass, hpost⟩, hnames⟩
  · rintro ⟨⟨hpre, hpass, hpost⟩, hnames⟩
    exact ⟨hpre, ⟨hpass, hnames⟩, hpost⟩

/-- Runs that have completed with passes of the same effects, in whatever scopes, have left the same
module and give the same report. -/
theorem Completed.eq_of_after_eq {passes passes' : List Pass} {r r' : Run} {report report' : Report}
    (h : Completed p index passes m r report) (h' : Completed p index passes' m r' report')
    (hafter : passes'.map Pass.after = passes.map Pass.after)
    (hchanges : passes'.map Pass.changesModule = passes.map Pass.changesModule) :
    r'.module = r.module ∧ report' = report := by
  refine ⟨?_, ?_⟩
  · rw [h'.module_eq, h.module_eq, through_eq_of_after_eq hafter]
  · obtain ⟨changed⟩ := report
    obtain ⟨changed'⟩ := report'
    congr 1
    apply List.ext_getElem?
    intro i
    have hchange := congrArg (·[i]?) hchanges
    have hlen := congrArg List.length hchanges
    simp only [List.getElem?_map, List.length_map] at hchange hlen
    cases hq : passes[i]? with
    | none =>
      have hi := List.getElem?_eq_none_iff.1 hq
      have hchanged : changed.length = passes.length := h.passesRun_eq
      have hchanged' : changed'.length = passes'.length := h'.passesRun_eq
      rw [List.getElem?_eq_none (by omega), List.getElem?_eq_none (by omega)]
    | some q =>
      rw [hq, Option.map_some, Option.map_eq_some_iff] at hchange
      obtain ⟨q', hq', hchange⟩ := hchange
      have htake : (passes'.take i).map Pass.after = (passes.take i).map Pass.after := by
        rw [List.map_take, List.map_take, hafter]
      refine (h'.changed_eq i q' hq').trans ((h.changed_eq i q hq).trans ?_).symm
      rw [through_eq_of_after_eq htake, hchange]

/-! ## A pass at any place -/

/-- The pipeline with other passes. -/
def withPasses (p : Pipeline) (passes : List Pass) : Pipeline := { p with passes }

/-- The pipeline in which the pass at a place in the order of execution works in a given scope. -/
def withScope (p : Pipeline) (i : Nat) (scope : Scope) : Pipeline :=
  p.withPasses (p.passes.modify i fun pass => pass.inScope scope)

theorem runOnFunctions_withPasses (passes : List Pass) (name : Option String)
    (done rest : List Func) :
    (p.withPasses passes).runOnFunctions tried index pass name done rest =
      p.runOnFunctions tried index pass name done rest := by
  induction rest generalizing tried done with
  | nil => rfl
  | cons f rest ih =>
    rw [runOnFunctions, runOnFunctions]
    simp only [ih]
    rfl

/-- How passes are run is a matter of the registry and the options of a pipeline, not of its own
list. -/
theorem runFrom_withPasses (own passes : List Pass) :
    (p.withPasses own).runFrom tried index passes m = p.runFrom tried index passes m := by
  induction passes generalizing tried index m with
  | nil => rfl
  | cons pass rest ih =>
    have hpass : (p.withPasses own).runPass tried index pass m = p.runPass tried index pass m := by
      unfold runPass
      rw [runOnFunctions_withPasses]
      rfl
    rw [runFrom, runFrom]
    simp only [hpass, ih]

/-- **Function scope and module scope agree.** Take a pass, at any place of a pipeline, that goes
from function to function also over a module, and run the pipeline with the pass on single functions
and on the module as a whole. Without checks both runs leave the same module, whether they succeed
or fail, and give the same answer, but an error of that pass names a function in the one and the
module in the other. With checks the run on the module succeeds exactly if the other does and the
names of the functions are different when the pass is through; then they leave the same module and
give the same report. -/
theorem scopes_agree (p : Pipeline) {i : Nat} (hi : i < p.passes.length)
    (hdefault : p.passes[i].moduleRun = none) (m : Module) :
    let onModule := (p.withScope i .module).run m
    let onFunctions := (p.withScope i .function).run m
    (p.options.verifyEach = false →
      onModule.module = onFunctions.module ∧
        onModule.result = onFunctions.result.mapError (atModule i (p.runUpTo i m).module)) ∧
    (p.options.verifyEach = true →
      ((∃ report, onModule.result = .ok report) ↔
        (∃ report, onFunctions.result = .ok report) ∧
          (((p.withScope i .function).runUpTo (i + 1) m).module.functions.map Func.name).Nodup) ∧
      ∀ report, onModule.result = .ok report →
        onFunctions.result = .ok report ∧ onModule.module = onFunctions.module) := by
  have hpasses : ∀ scope, (p.withScope i scope).passes =
      p.passes.take i ++ p.passes[i].inScope scope :: p.passes.drop (i + 1) :=
    fun scope => List.modify_eq_take_cons_drop hi
  have hlen : (p.passes.take i).length = i := List.length_take_of_le (Nat.le_of_lt hi)
  have hrun : ∀ scope, (p.withScope i scope).run m = p.runFrom [] 0
      (p.passes.take i ++ p.passes[i].inScope scope :: p.passes.drop (i + 1)) m := by
    intro scope
    rw [← hpasses scope]
    exact runFrom_withPasses _ _
  have hupTo : (p.withScope i .function).runUpTo (i + 1) m =
      p.runFrom [] 0 (p.passes.take i ++ [p.passes[i].inScope .function]) m := by
    have htake : (p.withScope i .function).passes.take (i + 1) =
        p.passes.take i ++ [p.passes[i].inScope .function] := by
      rw [hpasses, List.take_append, List.take_of_length_le (by omega), hlen]
      simp
    rw [runUpTo, htake]
    exact runFrom_withPasses _ _
  simp only [hrun, hupTo]
  refine ⟨fun hv => ?_, fun hv => ⟨?_, fun report hreport => ?_⟩⟩
  · have hagree :=
      runFrom_inScope hv hdefault [] 0 (p.passes.take i) (p.passes.drop (i + 1)) m
    simpa only [hlen, Nat.zero_add, runUpTo] using hagree
  · rw [exists_report_runFrom_iff, exists_report_runFrom_iff, allSucceed_module_iff hdefault]
    refine and_congr_right fun hall => ?_
    have hpre : AllSucceed p (p.passes.take i ++ [p.passes[i].inScope .function]) m := by
      rw [List.append_cons, allSucceed_append_iff] at hall
      exact hall.1
    obtain ⟨between, hbetween⟩ := (exists_report_runFrom_iff [] 0).2 hpre
    rw [(completed_of_runFrom hbetween).module_eq, through_inScope hdefault]
    exact forall_prop_of_true hv
  · have hcompleted := completed_of_runFrom hreport
    obtain ⟨report', hreport'⟩ := (exists_report_runFrom_iff [] 0).2
      ((allSucceed_module_iff hdefault).1 hcompleted.succeed).1
    obtain ⟨hmodule, rfl⟩ := hcompleted.eq_of_after_eq (completed_of_runFrom hreport')
      (by simp [Pass.after_inScope hdefault]) (by simp [Pass.changesModule_inScope hdefault])
    exact ⟨hreport', hmodule.symm⟩

/-- A pass that fails on the second of three functions, behind one that gives the module a name, and
a pass that leaves two functions of one name to the check. -/
theorem scopes_agree_picky :
    let build (name : String) : Func := (Func.empty name).after
      [.addArgument (.scalar .f32), .pushOp { name := .terminator, operands := [0] } []]
    let baptize : Pass :=
      { name := "baptize", stage := .inference, scope := .module, run := fun _ f => ⟨f, .ok false⟩
        moduleRun := some fun _ m => ⟨{ m with name := some "abc" }, .ok true⟩ }
    let picky := Script.pass "picky" .fusion .function
      [{ action := .setTy 0 (.scalar .i32) },
        { action := .fail (.noTerminator "b"), target := some "b" }]
    let p : Pipeline := { registry := .empty, passes := [baptize, picky] }
    let m : Module := ⟨none, [build "a", build "b", build "c"]⟩
    let idle : Pass := { name := "idle", stage := .inference, run := fun _ f => ⟨f, .ok false⟩ }
    let q : Pipeline := { registry := .empty, options := { verifyEach := true }, passes := [idle] }
    let twins : Module := ⟨none, [build "a", build "a"]⟩
    (1 < p.passes.length ∧ picky.moduleRun = none ∧ p.options.verifyEach = false ∧
      ((p.withScope 1 .function).run m).result = .error ⟨1, "picky", "@b", .noTerminator "b"⟩ ∧
      ((p.withScope 1 .module).run m).result =
        .error ⟨1, "picky", "module @abc", .noTerminator "b"⟩ ∧
      ((p.withScope 1 .module).run m).module = ((p.withScope 1 .function).run m).module) ∧
    0 < q.passes.length ∧ idle.moduleRun = none ∧ q.options.verifyEach = true ∧
      ((q.withScope 0 .function).run twins).result = .ok ⟨[false]⟩ ∧
      ¬ ∃ report, ((q.withScope 0 .module).run twins).result = .ok report := by
  intro build baptize picky p m idle q twins
  have hfunctions : ((p.withScope 1 .function).run m).result =
      .error ⟨1, "picky", "@b", .noTerminator "b"⟩ := by decide +kernel
  obtain ⟨hmodule, hresult⟩ := (scopes_agree p (i := 1) (by decide) rfl m).1 rfl
  obtain ⟨hiff, -⟩ := (scopes_agree q (i := 0) (by decide) rfl twins).2 rfl
  refine ⟨⟨by decide, rfl, rfl, hfunctions, ?_, hmodule⟩, by decide, rfl, rfl, by decide +kernel,
    fun h => ?_⟩
  · rw [hresult, hfunctions]
    decide +kernel
  · exact absurd (hiff.1 h).2 (by decide +kernel)

end Pipeline

end TensorIR
