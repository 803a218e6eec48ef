import TensorIR.Proofs.Fusion.Groups
import TensorIR.Proofs.Inference.Typing
import TensorIR.Proofs.Pipeline.Passes
import TensorIR.Proofs.Refinement.Rules

/-!
# The standard pipeline of the dialect

Shape inference, then fusion. Every rule of the dialect infers one component, and inference fails
unless this is one for each result; so the operations that fusion can chain together have one result
each (`singleResults_of_run`). Hence the groups it makes are chains (`relay_run_schedulable`).
-/

namespace TensorIR

namespace ShapeInference

variable {f g : Func} {changed : Bool}

/-- After inference, operations that can be fused have one result. -/
theorem singleResults_of_run (hf : f.Invariant)
    (h : run Relay.dialectName Relay.registry f = ⟨g, .ok changed⟩) :
    Fusion.SingleResults Relay.registry Relay.dialectName g := by
  obtain ⟨t, w, now, signature, ht, hwalk, -, rfl, -⟩ := run_eq_ok_iff.1 h
  obtain ⟨hre, -, hsol⟩ := walk_solves Relay.registry_pure (forward_of_invariant hf) hwalk
  obtain ⟨terminator, hterm, hreturn⟩ := Func.exists_op?_of_terminator ht
  intro node hnode hgrouped hpattern
  have hnode : node ∈ f.body.nodes := by
    rw [← hre.body]
    exact hnode
  unfold Fusion.isGrouped at hgrouped
  rw [Bool.and_eq_true, Bool.not_eq_true', beq_iff_eq] at hgrouped
  obtain ⟨r, hr, hrule⟩ := Relay.exists_rule_of_pattern_ne hpattern
  have hlive : ¬Skipped Relay.registry Relay.dialectName t node := by
    rintro (hid | hdialect | hnone)
    · -- the return is not an operation of the dialect
      have hop : f.op? node.id = some node.op := Body.op?_eq_some_iff.2 hnode
      rw [hid, hterm] at hop
      cases hop
      rw [hreturn] at hgrouped
      cases hgrouped.1
    · exact hdialect hgrouped.2
    · rw [hrule] at hnone
      cases hnone
  obtain ⟨cs, hcs, hlen, -⟩ :=
    hsol.inferred node hnode _ (ruleFor?_eq_some_iff.2 ⟨hlive, hrule⟩)
  rw [Relay.length_eq_one_of_mem_rules hr (ShapeRule.ofInputs_eq_ok_iff.1 hcs)] at hlen
  exact List.length_eq_one_iff.1 hlen.symm

end ShapeInference

namespace Pipeline

open Fusion (Kept Schedulable)

/-- **The standard pipeline leaves chains.** If it succeeds on a module of built functions, then in
each function the operations of the dialect are in groups, every group is a chain whose last member
alone is taken outside, and the groups and the other operations can be put in order. Nothing else
happens to the operations. -/
theorem relay_run_schedulable (options : Options) (m : Module) {report : Report}
    (hm : ∀ f ∈ m.functions, f.Built) (h : ((relay options).run m).result = .ok report) :
    List.Forall₂ (fun f g => Kept Relay.dialectName f g ∧ Schedulable Relay.dialectName g)
      m.functions ((relay options).run m).module.functions := by
  have hrun := runsThrough_of_run (fun _ => functionWise_of_mem_standard) h
  refine List.Forall₂.imp ?_ ((List.forall₂_and_left _ _).2 ⟨hm, hrun⟩)
  rintro f g ⟨hbuilt, f₁, ⟨inferred, hinfer⟩, g₁, ⟨fused, hfuse⟩, rfl⟩
  have hre := ShapeInference.retyped_of_run Relay.registry_pure hbuilt.invariant hinfer
  have hf₁ := hre.invariant hbuilt.invariant
  have hsingle := ShapeInference.singleResults_of_run hbuilt.invariant hinfer
  obtain ⟨hkept, hschedulable⟩ := Fusion.run_schedulable (by decide) hf₁ hsingle hfuse
  refine ⟨?_, hschedulable⟩
  unfold Kept
  rw [← hre.body]
  exact hkept

/-- Two operations in a chain, and a third that cannot join them: an operation of another dialect,
whose own mark counts for nothing, takes the same value. -/
theorem relay_run_schedulable_tanh :
    let ty : Ty := .tensor ⟨.f32, [.known 2]⟩
    let f := (Func.empty "main").after
      [.addArgument ty,
        .pushOp { name := ⟨"relay.exp"⟩, operands := [0] } [ty],
        .pushOp { name := ⟨"relay.add"⟩, operands := [1, 0] } [ty],
        .pushOp
          { name := ⟨"host.log"⟩, operands := [2]
            attributes := StringMap.ofList [(Fusion.groupAttr, .int 0)] } [],
        .pushOp { name := ⟨"relay.tanh"⟩, operands := [2] } [ty],
        .pushOp { name := .terminator, operands := [3] } []]
    let m : Module := ⟨none, [f]⟩
    let options : Options := { verifyEach := true }
    (∀ f ∈ m.functions, f.Built) ∧ ((relay options).run m).result = .ok ⟨[true, true]⟩ ∧
      List.Forall₂ (fun f g => Kept Relay.dialectName f g ∧ Schedulable Relay.dialectName g)
        m.functions ((relay options).run m).module.functions ∧
      ((relay options).run m).module.functions.map (fun g =>
        ((Fusion.members Relay.dialectName g (.int 0)).map Node.id,
          (Fusion.members Relay.dialectName g (.int 1)).map Node.id)) = [([0, 1], [3])] := by
  intro ty f m options
  have hm : ∀ f ∈ m.functions, f.Built := by
    intro g hg
    rw [List.mem_singleton.1 hg]
    exact ⟨_, _, rfl⟩
  have hrun : ((relay options).run m).result = .ok ⟨[true, true]⟩ ∧
      ((relay options).run m).module.functions.map (fun g =>
        ((Fusion.members Relay.dialectName g (.int 0)).map Node.id,
          (Fusion.members Relay.dialectName g (.int 1)).map Node.id)) = [([0, 1], [3])] := by
    decide +kernel
  exact ⟨hm, hrun.1, relay_run_schedulable options m hm hrun.1, hrun.2⟩

end Pipeline

end TensorIR
