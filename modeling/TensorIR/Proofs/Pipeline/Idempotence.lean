import TensorIR.Proofs.Fusion.Marks
import TensorIR.Proofs.Inference.Settled
import TensorIR.Proofs.Pipeline.Passes
import TensorIR.Proofs.Relay.Attributes

/-!
# A second run changes nothing

Inference leaves a settled function, and the marks of fusion keep it settled, since no rule reads
them (`Settled.write`). So inference has nothing to do on what the whole pipeline leaves, and fusion
finds its own marks there (`fixed_of_runsThrough`).
-/

namespace TensorIR

namespace ShapeInference

variable {registry : Registry} {dialect : String} {terminator : OpId} {f : Func}

theorem ruleFor?_mark (p : Fusion.Plan) (node : Node) :
    ruleFor? registry dialect terminator ⟨node.id, Fusion.mark p node⟩ =
      ruleFor? registry dialect terminator node := by
  unfold ruleFor?
  rw [Fusion.name_mark]

/-- A rule that does not read the mark answers as before. -/
theorem eq_ok_mark {rule : ShapeRule} (hpure : rule.Pure) (hmark : rule.Ignores Fusion.groupAttr)
    {node : Node} {cs : List Component} (h : rule ⟨node.op, f⟩ = .ok cs) (p : Fusion.Plan) :
    rule ⟨Fusion.mark p node, Fusion.write p f⟩ = .ok cs := by
  have hmarked : rule ⟨Fusion.mark p node, f⟩ = .ok cs := by
    unfold Fusion.mark
    split
    · exact h
    · exact Fallible.eq_ok_of_toOption_eq (hmark _ _ _).symm h
  refine hpure.ok ?_ hmarked
  rfl

theorem Settled.write (hr : registry.Pure) (hmark : registry.Ignores Fusion.groupAttr)
    (hf : f.Invariant) (h : Settled registry dialect terminator f) (p : Fusion.Plan) :
    Settled registry dialect terminator (Fusion.write p f) where
  terminator_eq := (Fusion.terminator_write p f).trans h.terminator_eq
  solves := by
    refine ⟨fun _ _ => rfl, fun node hnode rule hrule => ?_⟩
    obtain ⟨n, hn, rfl⟩ := List.mem_map.1 hnode
    rw [ruleFor?_mark] at hrule
    obtain ⟨cs, hcs, hlen, hsol⟩ := h.solves.inferred n hn rule hrule
    have hrule' := (ruleFor?_eq_some_iff.1 hrule).2
    rw [Fusion.results_mark]
    exact ⟨cs, eq_ok_mark (hr _ _ hrule') (hmark _ _ hrule') hcs p, hlen, hsol⟩
  signature_eq := by
    have hsig := h.signature_eq
    rw [actualSignature_eq_ok_iff hf] at hsig
    obtain ⟨hinputs, op, hop, houtputs⟩ := hsig
    rw [actualSignature_eq_ok_iff (Fusion.invariant_write hf p)]
    refine ⟨hinputs, _, Fusion.op?_write p hop, ?_⟩
    rw [Fusion.operands_mark]
    exact houtputs

end ShapeInference

namespace Pipeline

variable {registry : Registry} {options : Options} {f g : Func}

/-- On what the two passes leave, neither has anything to do. -/
theorem fixed_of_runsThrough (hr : registry.Pure) (hmark : registry.Ignores Fusion.groupAttr)
    (hf : f.Invariant) (h : RunsThrough registry (standard registry options).passes f g)
    (hverify : options.verifyEach = true → g.verify = .ok ()) :
    ∀ pass ∈ (standard registry options).passes, Fixed (standard registry options) pass g := by
  obtain ⟨f₁, ⟨inferred, hinfer⟩, g₁, ⟨fused, hfuse⟩, rfl⟩ := h
  have hf₁ := (ShapeInference.retyped_of_run hr hf hinfer).invariant hf
  obtain ⟨t, hsettled⟩ := ShapeInference.settled_of_run hr hf hinfer
  obtain ⟨-, p, -, rfl, -⟩ := Fusion.run_eq_ok_iff.1 hfuse
  have hagain : ShapeInference.run Relay.dialectName registry (Fusion.write p f₁) =
      ⟨Fusion.write p f₁, .ok false⟩ :=
    ShapeInference.run_of_settled hr (Fusion.invariant_write hf₁ p) (hsettled.write hr hmark hf₁ p)
  intro pass hpass
  rcases mem_standard_passes.1 hpass with rfl | rfl
  · exact ⟨hagain, hverify⟩
  · exact ⟨Fusion.run_of_run hfuse, hverify⟩

/-- **The standard pipeline is idempotent.** If it succeeds on a module of built functions, then it
succeeds again on what it has left, and neither pass changes anything. -/
theorem relay_run_idempotent (options : Options) (m : Module) {report : Report}
    (hm : ∀ f ∈ m.functions, f.Built) (h : ((relay options).run m).result = .ok report) :
    let first := (relay options).run m
    let second := (relay options).run first.module
    second.module = first.module ∧ ∃ again, second.result = .ok again ∧ again.passesRun = 2 ∧
      again.changed = [false, false] := by
  have hfixed := run_of_fixed (p := relay options) (m := ((relay options).run m).module) ?_
  · exact ⟨hfixed.1, _, hfixed.2, rfl, rfl⟩
  · intro pass hpass
    refine ⟨?_, fun g hg => ?_⟩
    · rcases mem_standard_passes.1 hpass with rfl | rfl <;> rfl
    · have hwise : ∀ q ∈ (relay options).passes, q.FunctionWise := fun _ =>
        functionWise_of_mem_standard
      obtain ⟨f, hf, hrun⟩ := exists_mem_of_forall₂_right (runsThrough_of_run hwise h) hg
      refine fixed_of_runsThrough Relay.registry_pure (Relay.registry_ignores (by decide))
        (hm f hf).invariant hrun ?_ pass hpass
      exact fun hv => verify_of_run hv (by simp [relay, standard, addPass]) h g hg

/-- The first run raises a scalar to a tensor, changes its element kind, and puts its group in the
place of a text; the second finds nothing to do. -/
theorem relay_run_idempotent_cast :
    let ty : Ty := .tensor ⟨.f32, [.known 2]⟩
    let f := (Func.empty "main").after
      [.addArgument ty,
        .pushOp
          { name := ⟨"relay.cast"⟩, operands := [0]
            attributes := StringMap.ofList
              [("dtype", .element .i8), (Fusion.groupAttr, .string "mine")] } [.scalar .f32],
        .pushOp { name := ⟨"relay.exp"⟩, operands := [1] } [.scalar .f32],
        .pushOp { name := .terminator, operands := [2] } []]
    let m : Module := ⟨none, [f]⟩
    let options : Options := { verifyEach := true }
    let first := (relay options).run m
    let second := (relay options).run first.module
    (∀ f ∈ m.functions, f.Built) ∧ first.result = .ok ⟨[true, true]⟩ ∧
      first.module.functions.map Func.tys =
        [#[ty, .tensor ⟨.i8, [.known 2]⟩, ty]] ∧
      second.module = first.module ∧ ∃ again, second.result = .ok again ∧ again.passesRun = 2 ∧
        again.changed = [false, false] := by
  intro ty f m options first second
  have hm : ∀ f ∈ m.functions, f.Built := by
    intro g hg
    rw [List.mem_singleton.1 hg]
    exact ⟨_, _, rfl⟩
  have hrun : first.result = .ok ⟨[true, true]⟩ ∧ first.module.functions.map Func.tys =
      [#[ty, .tensor ⟨.i8, [.known 2]⟩, ty]] := by
    decide +kernel
  exact ⟨hm, hrun.1, hrun.2, relay_run_idempotent options m hm hrun.1⟩

end Pipeline

end TensorIR
