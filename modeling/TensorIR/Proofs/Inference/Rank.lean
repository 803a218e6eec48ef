import TensorIR.Proofs.Inference.Dims
import TensorIR.Proofs.Relay.Rank

/-!
# The rank of what inference leaves

Where the types that inference has no say in keep to the greatest rank, all types do after it,
unless an operation asks for an overlong new shape. This is the only way to a greater rank
(`rank_bounded_iff`), and it is open (`rank_unbounded_reshape`).
-/

namespace TensorIR

/-- The types that inference has no say in keep to the greatest rank: those of the arguments, and of
the results of operations without a rule. -/
structure Func.BoundedInputs (f : Func) : Prop where
  arguments : ∀ v ∈ f.arguments, f.DimsHave RankBounded v
  results : ∀ node ∈ f.body.nodes,
    (node.op.name.dialect ≠ Relay.dialectName ∨
      Relay.registry.rule? node.op.name.text = none) →
    ∀ v ∈ node.op.results, f.DimsHave RankBounded v

instance (f : Func) : Decidable f.BoundedInputs :=
  decidable_of_iff
    ((∀ v ∈ f.arguments, f.DimsHave RankBounded v) ∧ ∀ node ∈ f.body.nodes,
      (node.op.name.dialect ≠ Relay.dialectName ∨
        Relay.registry.rule? node.op.name.text = none) →
      ∀ v ∈ node.op.results, f.DimsHave RankBounded v)
    ⟨fun h => ⟨h.1, h.2⟩, fun h => ⟨h.arguments, h.results⟩⟩

namespace ShapeInference

variable {f g : Func} {terminator : OpId}

theorem rank_bounded_of_solves (hf : f.Invariant) (hterm : f.terminator = .ok terminator)
    (h : f.BoundedInputs)
    (hsol : Solves Relay.registry Relay.dialectName terminator f.body.nodes f g) :
    (∀ v ∈ f.defined, g.DimsHave RankBounded v) ↔
      ∀ node ∈ f.body.nodes, node.op.name.text = "relay.reshape" →
        ¬Relay.Overlong (⟨node.op, g⟩ : Context).inputs := by
  have hrules := hsol.forall_dims_iff hf h.arguments fun node hnode hskip =>
    h.results node hnode (foreign_of_skipped hterm (by decide) hnode hskip)
  constructor
  · intro hall node hnode hname hover
    have hrule := hname ▸ Relay.rule?_reshape
    have hvisited := ruleFor?_of_rule? hterm hnode hrule
    have hoperands : ∀ v ∈ node.op.operands, g.DimsHave RankBounded v :=
      fun v hv => hall v (hf.operand_mem_defined hnode hv)
    obtain ⟨cs, hcs, -⟩ := hsol.inferred node hnode _ hvisited
    have hbounded := hrules.1 hall node hnode _ hvisited hoperands cs hcs
    exact (Relay.componentsBounded_iff hrule (forall_inputs_of_dimsHave hoperands) hcs).1 hbounded
      ⟨hname, hover⟩
  · intro hover
    refine hrules.2 fun node hnode rule hvisited hoperands cs hcs => ?_
    have hrule := (ruleFor?_eq_some_iff.1 hvisited).2
    refine (Relay.componentsBounded_iff hrule (forall_inputs_of_dimsHave hoperands) hcs).2 ?_
    rintro ⟨hname, hlong⟩
    exact hover node hnode hname hlong

/-- **The rank of inferred shapes.** Asked about operands that keep to the greatest rank, a rule
infers components that keep to it, unless it is asked for an overlong new shape; then it infers one
that does not. So if all types that inference has no say in keep to the greatest rank, a successful
run leaves types that keep to it exactly if no operation asks for an overlong new shape. -/
theorem rank_bounded_iff (name : String) (rule : ShapeRule) (c : Context) (cs : List Component)
    (f g : Func) (changed : Bool) :
    (Relay.registry.rule? name = some rule → c.inputs.RankBounded → rule c = .ok cs →
      (Relay.ComponentsBounded cs ↔ ¬(name = "relay.reshape" ∧ Relay.Overlong c.inputs))) ∧
    (f.Built → f.BoundedInputs → run Relay.dialectName Relay.registry f = ⟨g, .ok changed⟩ →
      ((∀ v ∈ g.defined, g.DimsHave RankBounded v) ↔
        ∀ node ∈ g.body.nodes, node.op.name.text = "relay.reshape" →
          ¬Relay.Overlong (⟨node.op, g⟩ : Context).inputs)) := by
  constructor
  · intro hrule hc hcs
    exact Relay.componentsBounded_iff hrule hc hcs
  · intro hf h hrun
    have hinv := hf.invariant
    obtain ⟨t, w, now, signature, ht, hwalk, -, rfl, -⟩ := run_eq_ok_iff.1 hrun
    obtain ⟨hre, -, hsol⟩ := walk_solves Relay.registry_pure (forward_of_invariant hinv) hwalk
    have hiff := rank_bounded_of_solves hinv ht h hsol
    have hdefined : w.defined = f.defined := by
      rw [Func.defined, Func.defined, Func.results, Func.results, hre.arguments, hre.body]
    rw [← hdefined, ← hre.body] at hiff
    exact hiff

/-- An extent is to be inferred beside one that is copied, and axes are put in up to the greatest
rank. -/
theorem rank_bounded_iff_expand :
    let ty : Ty := .tensor ⟨.f32, [.known 2, .known 3]⟩
    let widen : Operation :=
      { name := ⟨"relay.expand_dims"⟩, operands := [1]
        attributes := StringMap.ofList [("axis", .int 2), ("num_newaxis", .int 62)] }
    let f := (Func.empty "main").after
      [.addArgument ty,
        .pushOp
          { name := ⟨"relay.reshape"⟩, operands := [0]
            attributes := StringMap.ofList [("newshape", .ints [-1, -2])] }
          [.tensor ⟨.f32, [.dynamic]⟩],
        .pushOp widen [.scalar .f32],
        .pushOp { name := .terminator, operands := [2] } []]
    let g := (run Relay.dialectName Relay.registry f).state
    let wide : List Dim := .known 2 :: .known 3 :: List.replicate 62 (.known 1)
    Relay.registry.rule? "relay.expand_dims" = some (ShapeRule.ofInputs Relay.expand) ∧
      ShapeRule.ofInputs Relay.expand ⟨widen, g⟩ = .ok [⟨wide, none⟩] ∧
      Relay.ComponentsBounded [⟨wide, none⟩] ∧
      f.Built ∧ f.BoundedInputs ∧ g.tys = #[ty, ty, .tensor ⟨.f32, wide⟩] ∧
      ∀ v ∈ g.defined, g.DimsHave RankBounded v := by
  intro ty widen f g wide
  have hf : f.Built := ⟨_, _, rfl⟩
  have hrule : Relay.registry.rule? "relay.expand_dims" =
      some (ShapeRule.ofInputs Relay.expand) :=
    Relay.rule?_of_mem (o := Relay.operator "expand_dims" .injective (.ofInputs Relay.expand))
      (by simp [Relay.operators])
  obtain ⟨hoperands, hcs, hinputs, hrun, htys, hshapes⟩ :
      (∀ v ∈ widen.operands, g.DimsHave RankBounded v) ∧
      ShapeRule.ofInputs Relay.expand ⟨widen, g⟩ = .ok [⟨wide, none⟩] ∧ f.BoundedInputs ∧
      (run Relay.dialectName Relay.registry f).result = .ok true ∧
      g.tys = #[ty, ty, .tensor ⟨.f32, wide⟩] ∧
      ∀ node ∈ g.body.nodes, node.op.name.text = "relay.reshape" →
        (⟨node.op, g⟩ : Context).inputs.operandDims 0 = .ok [.known 2, .known 3] ∧
          (⟨node.op, g⟩ : Context).inputs.attr Attr.toInts "newshape" = .ok [-1, -2] := by
    decide +kernel
  obtain ⟨hcomponents, hvalues⟩ := rank_bounded_iff "relay.expand_dims"
    (ShapeRule.ofInputs Relay.expand) ⟨widen, g⟩ [⟨wide, none⟩] f g true
  refine ⟨hrule, hcs, ?_, hf, hinputs, htys, ?_⟩
  · exact (hcomponents hrule (forall_inputs_of_dimsHave hoperands) hcs).2 (by simp)
  · refine (hvalues hf hinputs (by rw [← hrun])).2 fun node hnode hname => ?_
    obtain ⟨hinput, hnewshape⟩ := hshapes node hnode hname
    rw [Relay.overlong_iff hinput hnewshape]
    decide

/-- As many axes of extent 1 as one likes. -/
theorem rank_unbounded_reshape :
    let ty : Ty := .tensor ⟨.f32, [.known 1]⟩
    let op : Operation :=
      { name := ⟨"relay.reshape"⟩, operands := [0]
        attributes := StringMap.ofList [("newshape", .ints (List.replicate 65 1))] }
    let f := (Func.empty "main").after
      [.addArgument ty, .pushOp op [ty], .pushOp { name := .terminator, operands := [1] } []]
    let run := run Relay.dialectName Relay.registry f
    let dims : List Dim := List.replicate 65 (.known 1)
    (⟨op, f⟩ : Context).inputs.RankBounded ∧
      Relay.registry.infer? ⟨op, f⟩ = some (.ok [⟨dims, none⟩]) ∧
      ¬Relay.ComponentsBounded [⟨dims, none⟩] ∧
      f.Built ∧ f.BoundedInputs ∧ run.result = .ok true ∧
      ¬∀ v ∈ run.state.defined, run.state.DimsHave RankBounded v := by
  intro ty op f run dims
  obtain ⟨hoperands, hinfer, hinputs, hrun, hwide⟩ :
      (∀ v ∈ op.operands, f.DimsHave RankBounded v) ∧
      Relay.registry.infer? ⟨op, f⟩ = some (.ok [⟨dims, none⟩]) ∧ f.BoundedInputs ∧
      run.result = .ok true ∧ ¬∀ v ∈ run.state.defined, run.state.DimsHave RankBounded v := by
    decide +kernel
  refine ⟨forall_inputs_of_dimsHave hoperands, hinfer, ?_, ⟨_, _, rfl⟩, hinputs, hrun, hwide⟩
  simp [Relay.ComponentsBounded, RankBounded, dims, Relay.maxRank]

end ShapeInference

end TensorIR
