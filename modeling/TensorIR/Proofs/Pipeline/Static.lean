import TensorIR.Proofs.Fusion.Marks
import TensorIR.Proofs.Inference.Dims
import TensorIR.Proofs.Pipeline.Passes

/-!
# What inference leaves is what fusion asks for

If the types that inference has no say in are static, it leaves static types only: every operand is
an argument or a result of an earlier operation, and rules keep to static types
(`staticValues_of_run`). Static types are all that fusion asks for, so in the standard pipeline it
cannot be fusion that fails (`relay_run_static`).
-/

namespace TensorIR

/-- The types that inference has no say in are static: those of the arguments, and of the results of
operations without a rule. -/
structure Func.StaticInputs (f : Func) : Prop where
  arguments : ∀ v ∈ f.arguments, f.HasStaticTy v
  results : ∀ node ∈ f.body.nodes,
    (node.op.name.dialect ≠ Relay.dialectName ∨
      Relay.registry.rule? node.op.name.text = none) →
    ∀ v ∈ node.op.results, f.HasStaticTy v

/-- Both sides of the signature are static. -/
def Signature.Static (s : Signature) : Prop :=
  ∀ ty ∈ s.inputs ++ s.outputs, ty.isStatic = true

namespace ShapeInference

variable {f g : Func} {terminator : OpId}

theorem hasStaticTy_iff {v : ValueId} : f.HasStaticTy v ↔ f.DimsHave DimsStatic v := by
  simp [Func.HasStaticTy, Func.DimsHave, Ty.isStatic_iff]

/-- Every type is static: rules keep to static types. -/
theorem staticValues_of_solves (hf : f.Invariant) (hterm : f.terminator = .ok terminator)
    (h : f.StaticInputs)
    (hsol : Solves Relay.registry Relay.dialectName terminator f.body.nodes f g) :
    ∀ v ∈ f.defined, g.HasStaticTy v := by
  obtain ⟨harguments, hresults⟩ := h
  simp only [hasStaticTy_iff] at harguments hresults ⊢
  refine (hsol.forall_dims_iff hf harguments fun node hnode hskip => ?_).2 ?_
  · exact hresults node hnode (foreign_of_skipped hterm (by decide) hnode hskip)
  · intro node _ rule hrule hoperands cs hcs
    obtain ⟨r, hr, rfl⟩ := Relay.mem_rules_of_rule? (ruleFor?_eq_some_iff.1 hrule).2
    exact Relay.static_of_mem_rules hr _ (forall_inputs_of_dimsHave hoperands) cs
      (ShapeRule.ofInputs_eq_ok_iff.1 hcs)

theorem isStatic_of_map_eq {l : List ValueId} {tys : List Ty}
    (h : l.map g.valueTy? = tys.map some) (hstatic : ∀ v ∈ l, g.HasStaticTy v) :
    ∀ ty ∈ tys, ty.isStatic = true := by
  intro ty hty
  have hin : some ty ∈ l.map g.valueTy? := by simp [h, hty]
  obtain ⟨v, hv, htyv⟩ := List.mem_map.1 hin
  obtain ⟨ty', hty', hstatic⟩ := hstatic v hv
  obtain rfl : ty' = ty := by simpa [hty'] using htyv
  exact hstatic

/-- Inference leaves static types and a static signature. -/
theorem staticValues_of_run (hf : f.Invariant) (h : f.StaticInputs) {changed : Bool}
    (hrun : run Relay.dialectName Relay.registry f = ⟨g, .ok changed⟩) :
    g.StaticValues ∧ g.signature.Static := by
  obtain ⟨t, w, now, signature, ht, hwalk, hsig, rfl, -⟩ := run_eq_ok_iff.1 hrun
  obtain ⟨hre, -, hsol⟩ := walk_solves Relay.registry_pure (forward_of_invariant hf) hwalk
  have hstatic := staticValues_of_solves hf ht h hsol
  have harguments : ∀ v ∈ w.arguments, w.HasStaticTy v := by
    rw [hre.arguments]
    exact fun v hv => hstatic v (Func.mem_defined_of_argument hv)
  refine ⟨⟨harguments, fun node hnode v hv => ?_⟩, fun ty hty => ?_⟩
  · have hnode' : node ∈ f.body.nodes := hre.body ▸ hnode
    exact hstatic v (Func.mem_defined_of_result hnode' hv)
  -- a type of the signature is that of an argument or of an operand of the return
  obtain ⟨hinputs, op, hop, houtputs⟩ := (actualSignature_eq_ok_iff (hre.invariant hf)).1 hsig
  rcases List.mem_append.1 hty with hty | hty
  · exact isStatic_of_map_eq hinputs harguments ty hty
  · have hreturn := Body.op?_eq_some_iff.1 hop
    rw [hre.body] at hreturn
    exact isStatic_of_map_eq houtputs
      (fun v hv => hstatic v (hf.operand_mem_defined hreturn hv)) ty hty

end ShapeInference

namespace Pipeline

/-- **Inference does what fusion asks for.** On a module of built functions whose arguments and
operations without a rule have static types, the standard pipeline fails in inference, or it
succeeds and leaves static types and signatures only. -/
theorem relay_run_static (m : Module) (hm : ∀ f ∈ m.functions, f.Built)
    (hstatic : ∀ f ∈ m.functions, f.StaticInputs) :
    let run := (relay {}).run m
    (∃ e, run.result = .error e ∧ e.index = 0) ∨
      (∃ report, run.result = .ok report) ∧
        ∀ g ∈ run.module.functions, g.StaticValues ∧ g.signature.Static := by
  intro run
  have hinferred : ∀ {f g}, f ∈ m.functions →
      RunsTo Relay.registry (ShapeInference.pass Relay.dialectName) f g →
        g.Invariant ∧ g.StaticValues ∧ g.signature.Static := by
    intro f g hf hrun
    obtain ⟨changed, hinfer⟩ := hrun
    have hinv := (hm f hf).invariant
    exact ⟨(ShapeInference.retyped_of_run Relay.registry_pure hinv hinfer).invariant hinv,
      ShapeInference.staticValues_of_run hinv (hstatic f hf) hinfer⟩
  cases hresult : run.result with
  | error e =>
    obtain ⟨done, pass, rest, m', _, failure, hpasses, hindex, hdone, hfail⟩ :=
      failed_of_runFrom (fun _ => functionWise_of_mem_standard) hresult
    change [ShapeInference.pass Relay.dialectName, Fusion.pass Relay.dialectName] = _ at hpasses
    rcases done with _ | ⟨first, _ | ⟨second, done⟩⟩
    · exact .inl ⟨e, rfl, hindex⟩
    · -- fusion has nothing to object to
      obtain ⟨rfl, rfl, -⟩ : ShapeInference.pass Relay.dialectName = first ∧
          Fusion.pass Relay.dialectName = pass ∧ rest = [] := by simpa [eq_comm] using hpasses
      obtain ⟨g, hg, e', he'⟩ := exists_failed_of_runPass rfl hfail
      obtain ⟨f, hf, g', hrun, rfl⟩ := exists_mem_of_forall₂_right hdone hg
      obtain ⟨hinv, hvalues, -⟩ := hinferred hf hrun
      obtain ⟨changed, hchanged⟩ := (Fusion.run_succeeds_iff hinv).2 hvalues
      have hok : ({} : Options).verified Func.verify
          (Fusion.run Relay.dialectName Relay.registry g) = .ok changed :=
        verified_eq_ok_iff.2 ⟨hchanged, by simp⟩
      exact absurd (hok.symm.trans he') (by simp)
    · simp at hpasses
  | ok report =>
    refine .inr ⟨⟨report, rfl⟩, fun g hg => ?_⟩
    obtain ⟨f, hf, f₁, hrun, g', ⟨changed, hfuse⟩, rfl⟩ :=
      exists_mem_of_forall₂_right
        (runsThrough_of_run (fun _ => functionWise_of_mem_standard) hresult) hg
    obtain ⟨-, hvalues, hsignature⟩ := hinferred hf hrun
    obtain ⟨-, p, -, rfl, -⟩ := Fusion.run_eq_ok_iff.1 hfuse
    exact ⟨Fusion.staticValues_write hvalues p, hsignature⟩

/-- Declared types are open or wrong, an operation of another dialect stands between, and an extent
is to be inferred. -/
theorem relay_run_static_reshape :
    let ty : Ty := .tensor ⟨.f32, [.known 2, .known 3]⟩
    let row : Ty := .tensor ⟨.f32, [.known 6]⟩
    let f := (Func.empty "main").after
      [.addArgument ty,
        .pushOp
          { name := ⟨"relay.reshape"⟩, operands := [0]
            attributes := StringMap.ofList [("newshape", .ints [-1])] }
          [.tensor ⟨.f32, [.dynamic]⟩],
        .pushOp { name := ⟨"host.log"⟩, operands := [1] } [row],
        .pushOp { name := ⟨"relay.add"⟩, operands := [1, 2] } [.scalar .f32],
        .pushOp { name := .terminator, operands := [3] } []]
    let m : Module := ⟨none, [f]⟩
    (∀ f ∈ m.functions, f.Built) ∧ (∀ f ∈ m.functions, f.StaticInputs) ∧
      ((relay {}).run m).result = .ok ⟨[true, true]⟩ ∧
      ((relay {}).run m).module.functions.map Func.tys = [#[ty, row, row, row]] ∧
      ∀ g ∈ ((relay {}).run m).module.functions, g.StaticValues ∧ g.signature.Static := by
  intro ty row f m
  have hm : ∀ f ∈ m.functions, f.Built := by
    intro g hg
    rw [List.mem_singleton.1 hg]
    exact ⟨_, _, rfl⟩
  have hstatic : ∀ f ∈ m.functions, f.StaticInputs := by
    intro g hg
    rw [List.mem_singleton.1 hg]
    exact ⟨by decide +kernel, by decide +kernel⟩
  have hrun : ((relay {}).run m).result = .ok ⟨[true, true]⟩ ∧
      ((relay {}).run m).module.functions.map Func.tys = [#[ty, row, row, row]] := by
    decide +kernel
  rcases relay_run_static m hm hstatic with ⟨e, he, -⟩ | ⟨-, hall⟩
  · cases hrun.1.symm.trans he
  · exact ⟨hm, hstatic, hrun.1, hrun.2, hall⟩

end Pipeline

end TensorIR
