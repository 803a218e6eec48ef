import TensorIR.Proofs.Fusion.Numbers
import TensorIR.Proofs.Inference.Settled
import TensorIR.Proofs.Pipeline.Separate
import TensorIR.Proofs.Pipeline.Structure

/-!
# Whether a pass has changed anything

A pass compares old and new at every write and says that it has changed a function if one comparison
fails. In a built function every value is a result of one operation at most, so inference writes no
type twice in a walk, and nothing that it writes is undone; fusion writes each operation once. So
their answers are exact: something has changed if they say so, and only then. A report adds up such
answers (`Pass.Exact`), so it is exact, too (`changed_exact`).
-/

namespace TensorIR

/-! ## Inference -/

theorem Func.Retyped.ne_iff {f g : Func} (h : Retyped f g) :
    g ≠ f ↔ (∃ v, g.valueTy? v ≠ f.valueTy? v) ∨ g.signature ≠ f.signature := by
  constructor
  · intro hne
    by_contra hsame
    simp only [not_or, not_exists, not_not] at hsame
    exact hne (h.eq hsame.1 hsame.2)
  · rintro (⟨v, hv⟩ | hsig) rfl
    · exact hv rfl
    · exact hsig rfl

namespace ShapeInference

open Func (Retyped)

variable {registry : Registry} {dialect : String} {f g : Func}

theorem signature_walk (registry : Registry) (dialect : String) (terminator : OpId) (f : Func)
    (nodes : List Node) :
    (walk registry dialect terminator nodes f).state.signature = f.signature := by
  induction nodes generalizing f with
  | nil => rfl
  | cons node rest ih =>
    rw [walk]
    split
    · exact ih f
    · split
      · rfl
      · next g changed hstep =>
        obtain ⟨cs, -, -, -, rfl, -⟩ := inferOp_eq_ok_iff.1 hstep
        exact (ih _).trans (signature_write f _)

/-- A run that succeeds says that something has changed exactly if a type or the signature has. -/
theorem changed_iff_of_run (hf : f.Invariant) {changed : Bool}
    (h : run dialect registry f = ⟨g, .ok changed⟩) :
    changed = true ↔ (∃ v, g.valueTy? v ≠ f.valueTy? v) ∨ g.signature ≠ f.signature := by
  obtain ⟨t, w, now, signature, -, hwalk, -, rfl, rfl⟩ := run_eq_ok_iff.1 h
  have hre : Retyped f w := by
    have hstate := retyped_walk registry dialect t f f.body.nodes
    rwa [hwalk] at hstate
  have hsig : w.signature = f.signature := by
    have hstate := signature_walk registry dialect t f f.body.nodes
    rwa [hwalk] at hstate
  have hnow : now = true ↔ ∃ v, w.valueTy? v ≠ f.valueTy? v := by
    have hwalked := (walk_changed_iff (forward_of_invariant hf) hwalk).not
    rw [Bool.not_eq_false, ← Ne, hre.ne_iff] at hwalked
    simpa [hsig] using hwalked
  rw [Bool.or_eq_true, bne_iff_ne, hsig, hnow]
  exact or_congr_right ne_comm

end ShapeInference

/-! ## Fusion -/

namespace Fusion

variable {registry : Registry} {dialect : String} {f g : Func}

/-- A run that succeeds says that something has changed exactly if an attribute has. -/
theorem changed_iff_of_run {changed : Bool} (h : run dialect registry f = ⟨g, .ok changed⟩) :
    changed = true ↔ ∃ id op op', f.op? id = some op ∧ g.op? id = some op' ∧
      op'.attributes ≠ op.attributes := by
  obtain ⟨-, p, -, rfl, rfl⟩ := run_eq_ok_iff.1 h
  rw [List.any_eq_true]
  constructor
  · rintro ⟨⟨id, op⟩, hnode, hneeds⟩
    have hop : f.op? id = some op := Body.op?_eq_some_iff.2 hnode
    exact ⟨id, op, _, hop, op?_write p hop, needsMark_iff.1 hneeds⟩
  · rintro ⟨id, op, op', hop, hop', hne⟩
    obtain rfl : mark p ⟨id, op⟩ = op' := by simpa [op?_write p hop] using hop'
    exact ⟨⟨id, op⟩, Body.op?_eq_some_iff.1 hop, needsMark_iff.2 hne⟩

theorem eq_of_run_unchanged (h : run dialect registry f = ⟨g, .ok false⟩) : g = f := by
  obtain ⟨-, p, -, rfl, hany⟩ := run_eq_ok_iff.1 h
  exact write_of_not_needsMark fun node hnode =>
    eq_false_of_ne_true (List.any_eq_false.1 hany.symm node hnode)

end Fusion

/-! ## Passes and reports -/

/-- A pass that goes from function to function, keeps the invariant of functions and, where it
succeeds, says that it has changed a function exactly if it has. -/
structure Pass.Exact (pass : Pass) (registry : Registry) : Prop where
  functionWise : pass.FunctionWise
  invariant_image : ∀ {f : Func}, f.Invariant → (pass.image registry f).Invariant
  changes_iff : ∀ {f : Func}, f.Invariant → ∀ {changed},
    (pass.run registry f).result = .ok changed →
      (pass.changes registry f = true ↔ pass.image registry f ≠ f)

theorem ShapeInference.exact_pass (dialect : String) (registry : Registry) :
    (ShapeInference.pass dialect).Exact registry where
  functionWise := rfl
  invariant_image hf := (retyped_run registry dialect _).invariant hf
  changes_iff {f} hf {changed} h := by
    have hrun : run dialect registry f = ⟨(run dialect registry f).state, .ok changed⟩ := by
      rw [← h]
      rfl
    rw [Pass.changes_of_result h, changed_iff_of_run hf hrun]
    exact (retyped_run registry dialect f).ne_iff.symm

theorem Fusion.exact_pass (dialect : String) (registry : Registry) :
    (Fusion.pass dialect).Exact registry where
  functionWise := rfl
  invariant_image hf := invariant_run hf dialect registry
  changes_iff {f} _ {changed} h := by
    have hrun : run dialect registry f = ⟨(run dialect registry f).state, .ok changed⟩ := by
      rw [← h]
      rfl
    rw [Pass.changes_of_result h]
    constructor
    · intro hchanged hsame
      obtain ⟨id, op, op', hop, hop', hne⟩ := (changed_iff_of_run hrun).1 hchanged
      change (run dialect registry f).state = f at hsame
      rw [hsame, hop] at hop'
      cases hop'
      exact hne rfl
    · intro hne
      cases changed with
      | true => rfl
      | false => exact absurd (eq_of_run_unchanged hrun) hne

namespace Pipeline

variable {p : Pipeline} {pass : Pass} {m : Module}

theorem after_eq_self_iff (hwise : pass.FunctionWise) {registry : Registry} :
    pass.after registry m = m ↔ ∀ f ∈ m.functions, pass.image registry f = f := by
  obtain ⟨name, functions⟩ := m
  have hmap : functions.map (pass.image registry) = functions ↔
      ∀ f ∈ functions, pass.image registry f = f := by
    conv_lhs => rhs; rw [← List.map_id functions]
    exact List.map_inj_left
  rw [← hmap, hwise.after_eq]
  simp

theorem invariant_through {registry : Registry} {passes : List Pass}
    (hexact : ∀ pass ∈ passes, pass.Exact registry) (hm : ∀ f ∈ m.functions, f.Invariant) :
    ∀ f ∈ (m.through registry passes).functions, f.Invariant := by
  induction passes generalizing m with
  | nil => rwa [Module.through_nil]
  | cons first rest ih =>
    obtain ⟨hfirst, hrest⟩ := List.forall_mem_cons.1 hexact
    rw [Module.through_cons]
    refine ih hrest fun g hg => ?_
    rw [Module.through_singleton, hfirst.functionWise.after_eq] at hg
    obtain ⟨f, hf, rfl⟩ := List.mem_map.1 hg
    exact hfirst.invariant_image (hm f hf)

/-- A pass that goes through a module has changed it if it says so of a function, and only then. -/
theorem changesModule_iff (hexact : pass.Exact p.registry) (hm : ∀ f ∈ m.functions, f.Invariant)
    (hsucceeds : Succeeds p pass m) :
    pass.changesModule p.registry m = true ↔ pass.after p.registry m ≠ m := by
  have hchanges : ∀ f ∈ m.functions,
      (pass.changes p.registry f = true ↔ ¬pass.image p.registry f = f) := by
    intro f hf
    obtain ⟨changed, hchanged⟩ := (hsucceeds.accepts hexact.functionWise f hf).succeeds
    exact hexact.changes_iff (hm f hf) hchanged
  rw [Ne, after_eq_self_iff hexact.functionWise, hexact.functionWise.changesModule_eq,
    List.any_eq_true]
  simp only [not_forall, exists_prop]
  exact exists_congr fun f => and_congr_right (hchanges f)

/-- The report of a run of exact passes says at each place whether the module was changed there. -/
theorem changed_getElem? (hexact : ∀ pass ∈ p.passes, pass.Exact p.registry)
    (hm : ∀ f ∈ m.functions, f.Invariant) {report : Report} (h : (p.run m).result = .ok report)
    {i : Nat} (hi : i < p.passes.length) :
    report.changed[i]? =
      some (decide ((p.runUpTo (i + 1) m).module ≠ (p.runUpTo i m).module)) := by
  have hcompleted := completed_of_run h
  have hpass : p.passes[i]? = some p.passes[i] := List.getElem?_eq_getElem hi
  have hinvariant : ∀ f ∈ (m.through p.registry (p.passes.take i)).functions, f.Invariant :=
    invariant_through (fun q hq => hexact q (List.mem_of_mem_take hq)) hm
  rw [hcompleted.changed_eq i _ hpass, module_runUpTo hcompleted.succeed,
    module_runUpTo hcompleted.succeed, List.take_succ_eq_append_getElem hi, Module.through_append,
    Option.some.injEq, Bool.eq_iff_iff, decide_eq_true_iff]
  exact changesModule_iff (hexact _ (List.getElem_mem hi)) hinvariant (hcompleted.succeed i _ hpass)

/-- **Passes say exactly whether they have changed something.** Whatever the dialect and the
registry: inference on a built function that succeeds says that it has changed it if the type of a
value or the signature is another one, and only then; fusion that succeeds, on any function, says so
if the attributes of an operation are others, and only then. So the report of a run of such passes,
in any number and order, says of each of them whether the module that it has left is another one
than the module that it has found. -/
theorem changed_exact (registry : Registry) (dialect : String) :
    (∀ f : Func, f.Built → ∀ changed,
      (ShapeInference.run dialect registry f).result = .ok changed →
        let g := (ShapeInference.run dialect registry f).state
        (changed = true ↔ (∃ v, g.valueTy? v ≠ f.valueTy? v) ∨ g.signature ≠ f.signature)) ∧
    (∀ (f : Func) changed, (Fusion.run dialect registry f).result = .ok changed →
      let g := (Fusion.run dialect registry f).state
      (changed = true ↔ ∃ id op op', f.op? id = some op ∧ g.op? id = some op' ∧
        op'.attributes ≠ op.attributes)) ∧
    ∀ p : Pipeline, p.registry = registry →
      (∀ pass ∈ p.passes, ∃ d, pass = ShapeInference.pass d ∨ pass = Fusion.pass d) →
      ∀ m : Module, (∀ f ∈ m.functions, f.Built) →
      ∀ report, (p.run m).result = .ok report →
        report.passesRun = p.passes.length ∧
        ∀ i < p.passes.length, report.changed[i]? =
          some (decide ((p.runUpTo (i + 1) m).module ≠ (p.runUpTo i m).module)) := by
  refine ⟨fun f hf changed h => ?_, fun f changed h => ?_, ?_⟩
  · exact ShapeInference.changed_iff_of_run hf.invariant (by rw [← h])
  · exact Fusion.changed_iff_of_run (by rw [← h])
  · rintro p rfl hpasses m hm report h
    have hexact : ∀ pass ∈ p.passes, pass.Exact p.registry := by
      intro pass hpass
      obtain ⟨d, rfl | rfl⟩ := hpasses pass hpass
      · exact ShapeInference.exact_pass d p.registry
      · exact Fusion.exact_pass d p.registry
    have hinvariant : ∀ f ∈ m.functions, f.Invariant := fun f hf => (hm f hf).invariant
    exact ⟨(completed_of_run h).passesRun_eq, fun i hi => changed_getElem? hexact hinvariant h hi⟩

/-- Types are inferred and groups are found the first time; the second time nothing is new. -/
theorem changed_exact_twice :
    let ty : Ty := .tensor ⟨.f32, [.known 2]⟩
    let f := (Func.empty "main").after
      [.addArgument ty, .pushOp { name := ⟨"relay.exp"⟩, operands := [0] } [.scalar .f32],
        .pushOp { name := .terminator, operands := [1] } [], .setSignature ⟨[ty], [ty]⟩]
    let inference := ShapeInference.pass "relay"
    let fusion := Fusion.pass "relay"
    let p : Pipeline :=
      { registry := Relay.registry, passes := [inference, fusion, inference, fusion] }
    let m : Module := ⟨none, [f]⟩
    f.Built ∧ (ShapeInference.run "relay" Relay.registry f).result = .ok true ∧
      (∃ v, (ShapeInference.run "relay" Relay.registry f).state.valueTy? v ≠ f.valueTy? v) ∧
      (p.run m).result = .ok ⟨[true, true, false, false]⟩ ∧
      (p.runUpTo 1 m).module ≠ (p.runUpTo 0 m).module ∧
      (p.runUpTo 2 m).module ≠ (p.runUpTo 1 m).module ∧
      (p.runUpTo 3 m).module = (p.runUpTo 2 m).module ∧
      (p.runUpTo 4 m).module = (p.runUpTo 3 m).module := by
  intro ty f inference fusion p m
  have hf : f.Built := ⟨_, _, rfl⟩
  obtain ⟨hinferred, hsig, hrun⟩ :
      (ShapeInference.run "relay" Relay.registry f).result = .ok true ∧
      (ShapeInference.run "relay" Relay.registry f).state.signature = f.signature ∧
      (p.run m).result = .ok ⟨[true, true, false, false]⟩ := by decide +kernel
  obtain ⟨hinference, -, hpipeline⟩ := changed_exact Relay.registry "relay"
  have hpasses : ∀ pass ∈ p.passes, ∃ d, pass = ShapeInference.pass d ∨ pass = Fusion.pass d := by
    intro pass hpass
    simp only [p, List.mem_cons, List.not_mem_nil, or_false] at hpass
    rcases hpass with rfl | rfl | rfl | rfl
    · exact ⟨_, .inl rfl⟩
    · exact ⟨_, .inr rfl⟩
    · exact ⟨_, .inl rfl⟩
    · exact ⟨_, .inr rfl⟩
  obtain ⟨-, hreport⟩ := hpipeline p rfl hpasses m (by simpa [m] using hf) _ hrun
  refine ⟨hf, hinferred, ?_, hrun, ?_, ?_, ?_, ?_⟩
  · exact ((hinference f hf true hinferred).1 rfl).resolve_right fun hne => hne hsig
  · exact of_decide_eq_true (Option.some.inj (hreport 0 (by decide))).symm
  · exact of_decide_eq_true (Option.some.inj (hreport 1 (by decide))).symm
  · exact not_not.1 (of_decide_eq_false (Option.some.inj (hreport 2 (by decide))).symm)
  · exact not_not.1 (of_decide_eq_false (Option.some.inj (hreport 3 (by decide))).symm)

end Pipeline

end TensorIR
