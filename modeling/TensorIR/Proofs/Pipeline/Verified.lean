import TensorIR.Pass.Script
import TensorIR.Proofs.Pipeline.Passes
import TensorIR.Proofs.Pipeline.Separate

/-!
# Checked pipelines work on well-formed functions

If units are checked, every function has been checked since it was last changed, except the one that
a pass is working on, or all of them while a pass works on the module. So whenever a pass takes up a
unit, every function is well formed: those behind it were left so by the pass before, and those in
front were checked when the pass was through with them (`functionsVerified_starts_runOnFunctions`).
Only the first pass takes the functions as the caller has left them. `checked_run_verified` says
this of whole runs, successful or not, along with what a successful run leaves.
-/

namespace TensorIR

/-- Every function of a module is well formed. -/
def Module.FunctionsVerified (m : Module) : Prop :=
  ∀ f ∈ m.functions, f.verify = .ok ()

instance (m : Module) : Decidable m.FunctionsVerified :=
  inferInstanceAs (Decidable (∀ f ∈ m.functions, f.verify = .ok ()))

/-- A pass runs on functions only inside units that it has started on. -/
def Journal.Announced (j : Journal) : Prop :=
  ∀ v ∈ j.visits, ∃ s ∈ j.starts, s.index = v.index ∧ v.function ∈ s.module.functions ∧
    (s.unit = .function v.function ∨ s.unit = .module s.module)

theorem Journal.Announced.append {a b : Journal} (ha : a.Announced) (hb : b.Announced) :
    (a ++ b).Announced := by
  intro v hv
  rcases List.mem_append.1 hv with hv | hv
  · obtain ⟨s, hs, h⟩ := ha v hv
    exact ⟨s, List.mem_append_left _ hs, h⟩
  · obtain ⟨s, hs, h⟩ := hb v hv
    exact ⟨s, List.mem_append_right _ hs, h⟩

theorem Journal.announced_of_no_visits {j : Journal} (h : j.visits = []) : j.Announced := by
  intro v hv
  rw [h] at hv
  cases hv

theorem Pass.mem_of_mem_reached {pass : Pass} {registry : Registry} {functions : List Func}
    {f : Func} (h : f ∈ pass.reached registry functions) : f ∈ functions := by
  rcases Pipeline.runAll_cases pass registry functions with
    ⟨-, -, hreached⟩ | ⟨pre, g, post, e, rfl, -, -, -, hreached⟩
  · rwa [hreached] at h
  · rw [hreached] at h
    rcases List.mem_append.1 h with h | h
    · exact List.mem_append_left _ h
    · obtain rfl : f = g := by simpa using h
      simp

theorem Pass.mem_of_mem_reachedInModule {pass : Pass} {registry : Registry} {m : Module} {f : Func}
    (h : f ∈ pass.reachedInModule registry m) : f ∈ m.functions := by
  unfold reachedInModule at h
  cases hrun : pass.moduleRun with
  | some run => simp [hrun] at h
  | none =>
    rw [hrun] at h
    exact mem_of_mem_reached h

namespace Pipeline

variable {p : Pipeline} {pass : Pass} {tried : List Dump} {index : Nat} {m : Module}

/-! ## Units that are taken up -/

theorem announced_opening {unit : IrUnit} {functions : List Func}
    (h : ∀ f ∈ functions, f ∈ m.functions ∧ (unit = .function f ∨ unit = .module m)) :
    (p.opening tried index pass unit m functions).Announced := by
  intro v hv
  rw [visits_opening] at hv
  obtain ⟨f, hf, rfl⟩ := List.mem_map.1 hv
  exact ⟨⟨index, unit, m⟩, by simp, rfl, h f hf⟩

theorem announced_snapshotAfter {unit : IrUnit} {changed : Bool} :
    (p.options.snapshotAfter tried pass unit m changed).Announced :=
  Journal.announced_of_no_visits (visits_snapshotAfter ..)

theorem announced_runOnFunctions (name : Option String) (done rest : List Func) :
    (p.runOnFunctions tried index pass name done rest).journal.Announced := by
  induction rest generalizing tried done with
  | nil => exact Journal.announced_of_no_visits rfl
  | cons f rest ih =>
    have hopening : (p.opening tried index pass (.function f) ⟨name, done ++ f :: rest⟩
        [f]).Announced := by
      apply announced_opening
      simp
    rw [runOnFunctions]
    simp only
    split
    · exact hopening
    · exact (hopening.append announced_snapshotAfter).append (ih _)

theorem announced_runPass : (p.runPass tried index pass m).journal.Announced := by
  unfold runPass
  cases pass.scope with
  | function => exact announced_runOnFunctions m.name [] m.functions
  | module =>
    have hopening : (p.opening tried index pass (.module m) m
        (pass.reachedInModule p.registry m)).Announced := by
      apply announced_opening
      intro f hf
      exact ⟨Pass.mem_of_mem_reachedInModule hf, .inr rfl⟩
    simp only
    unfold runOnModule
    simp only
    split
    · exact hopening
    · exact hopening.append announced_snapshotAfter

theorem announced_runFrom (passes : List Pass) :
    (p.runFrom tried index passes m).journal.Announced := by
  induction passes generalizing tried index m with
  | nil => exact Journal.announced_of_no_visits rfl
  | cons pass rest ih =>
    rw [runFrom]
    simp only
    split
    · exact announced_runPass.append (Journal.announced_of_no_visits rfl)
    · exact announced_runPass.append ih

/-! ## Functions when a unit is taken up -/

/-- The functions behind the one taken up are as the pass found them, and those in front have been
checked again. -/
theorem functionsVerified_starts_runOnFunctions (hv : p.options.verifyEach = true)
    (name : Option String) {done rest : List Func} (hdone : ∀ f ∈ done, f.verify = .ok ())
    (hrest : ∀ f ∈ rest, f.verify = .ok ()) :
    ∀ s ∈ (p.runOnFunctions tried index pass name done rest).journal.starts,
      s.module.FunctionsVerified := by
  induction rest generalizing tried done with
  | nil => simp [runOnFunctions]
  | cons f rest ih =>
    have hbefore : Module.FunctionsVerified ⟨name, done ++ f :: rest⟩ := by
      intro g hg
      rcases List.mem_append.1 hg with hg | hg
      · exact hdone g hg
      · exact hrest g hg
    rw [runOnFunctions]
    simp only
    cases hverified : p.options.verified Func.verify (pass.run p.registry f) with
    | error e => simpa using hbefore
    | ok changed =>
      have hstate : (pass.run p.registry f).state.verify = .ok () :=
        (verified_eq_ok_iff.1 hverified).2 hv
      simp only [starts_append, starts_opening, starts_snapshotAfter, List.append_nil,
        List.singleton_append, List.forall_mem_cons]
      refine ⟨hbefore, ih (fun g hg => ?_) (List.forall_mem_cons.1 hrest).2⟩
      rcases List.mem_append.1 hg with hg | hg
      · exact hdone g hg
      · rw [List.mem_singleton.1 hg]
        exact hstate

theorem functionsVerified_starts_runPass (hv : p.options.verifyEach = true)
    (hm : m.FunctionsVerified) :
    ∀ s ∈ (p.runPass tried index pass m).journal.starts, s.module.FunctionsVerified := by
  unfold runPass
  cases pass.scope with
  | function => exact functionsVerified_starts_runOnFunctions hv m.name (by simp) hm
  | module =>
    simp only
    unfold runOnModule
    simp only
    split <;> simpa using hm

/-- The first pass starts on what the caller has left, every other one on well-formed functions. -/
theorem functionsVerified_starts_runFrom (hv : p.options.verifyEach = true) (passes : List Pass) :
    ∀ s ∈ (p.runFrom tried index passes m).journal.starts,
      m.FunctionsVerified ∨ index < s.index → s.module.FunctionsVerified := by
  induction passes generalizing tried index m with
  | nil => simp [runFrom]
  | cons pass rest ih =>
    have hfirst : ∀ s ∈ (p.runPass tried index pass m).journal.starts,
        m.FunctionsVerified ∨ index < s.index → s.module.FunctionsVerified := by
      rintro s hs (hm | hlt)
      · exact functionsVerified_starts_runPass hv hm s hs
      · have hindex := starts_runPass s hs
        omega
    rw [runFrom]
    simp only
    cases hresult : (p.runPass tried index pass m).result with
    | error failure =>
      intro s hs
      rw [starts_append, List.append_nil] at hs
      exact hfirst s hs
    | ok changed =>
      intro s hs
      rcases List.mem_append.1 hs with hs | hs
      · exact hfirst s hs
      · exact fun _ => ih s hs (.inl (verify_of_runPass hv hresult))

/-! ## Whole runs -/

/-- If the last pass works on the module, the module has been checked after it. -/
theorem verify_module_of_run (hv : p.options.verifyEach = true) {report : Report} {last : Pass}
    (h : (p.run m).result = .ok report) (hlast : p.passes.getLast? = some last)
    (hscope : last.scope = .module) : (p.run m).module.verify = .ok () := by
  obtain ⟨front, hfront⟩ := List.getLast?_eq_some_iff.1 hlast
  have hcompleted := completed_of_run h
  have hsucceeds := hcompleted.succeed front.length last (by simp [hfront])
  rw [hcompleted.module_eq, hfront, Module.through_append]
  rw [hfront, List.take_left] at hsucceeds
  exact hsucceeds.verifies hscope hv

/-- **Checks keep ill-formed functions out.** If units are checked, a run that succeeds leaves
well-formed functions, and a well-formed module if its last pass works on the module. In every run,
whenever a pass other than the first takes up a unit, all functions are well formed; and no pass
runs on a function without taking up a unit. -/
theorem checked_run_verified (p : Pipeline) (hv : p.options.verifyEach = true) (m : Module) :
    (∀ report, p.passes ≠ [] → (p.run m).result = .ok report →
      (p.run m).module.FunctionsVerified ∧
        ∀ last, p.passes.getLast? = some last → last.scope = .module →
          (p.run m).module.verify = .ok ()) ∧
    (∀ s ∈ (p.run m).journal.starts, 0 < s.index → s.module.FunctionsVerified) ∧
    (p.run m).journal.Announced := by
  refine ⟨fun report hpasses h => ⟨?_, fun last hlast hscope => ?_⟩, fun s hs hindex => ?_, ?_⟩
  · exact verify_of_run hv hpasses h
  · exact verify_module_of_run hv h hlast hscope
  · exact functionsVerified_starts_runFrom hv p.passes s hs (.inr hindex)
  · exact announced_runFrom p.passes

/-- A pass repairs what the caller has left ill formed, and the next one spoils it again: the run
ends there, after the second pass has found everything well formed. Without the second pass the run
succeeds. -/
theorem checked_run_verified_repair :
    let ill : Func := (Func.empty "a").after [.addArgument (.scalar .f32)]
    let well : Func := ill.after [.pushOp { name := .terminator, operands := [] } []]
    let m : Module := ⟨none, [{ well with name := "b" }, ill]⟩
    let repair := Script.pass "repair" .inference .module
      [{ action := .pushReturn, target := some "a" }]
    let spoil := Script.pass "spoil" .fusion .function
      [{ action := .erase 0, target := some "b" }]
    let p : Pipeline :=
      { registry := .empty, options := { verifyEach := true }, passes := [repair, spoil] }
    let q : Pipeline := { p with passes := [repair] }
    ¬m.FunctionsVerified ∧
    (p.run m).result = .error ⟨1, "spoil", "@b", .noTerminator "b"⟩ ∧
    ¬(p.run m).module.FunctionsVerified ∧
    (p.run m).journal.starts.map Start.index = [0, 1] ∧
    (∀ s ∈ (p.run m).journal.starts, 0 < s.index → s.module.FunctionsVerified) ∧
    (q.run m).result = .ok ⟨[true]⟩ ∧ (q.run m).module.verify = .ok () := by
  intro ill well m repair spoil p q
  have hq : (q.run m).result = .ok ⟨[true]⟩ := by decide +kernel
  obtain ⟨-, hstarts, -⟩ := checked_run_verified p rfl m
  obtain ⟨-, hmodule⟩ := (checked_run_verified q rfl m).1 _ (by simp [q]) hq
  exact ⟨by decide +kernel, by decide +kernel, by decide +kernel, by decide +kernel,
    hstarts, hq, hmodule repair rfl rfl⟩

end Pipeline

end TensorIR
