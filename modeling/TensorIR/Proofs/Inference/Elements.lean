import TensorIR.Proofs.Func.History
import TensorIR.Proofs.Inference.Dims
import TensorIR.Proofs.Relay.Elements

/-!
# Element kinds after inference

Inference is about shapes. A part of a type that no rule changes stays what it is, on every value
and also in a run that fails half way (`run_keeps`). For the dialect that part is the element kind,
except on the results of casts, and these get the kind that is asked for (`run_keeps_elements`).
-/

namespace TensorIR

/-- A component sets an element kind if it names one. -/
theorem Component.element_resolve (c : Component) (old : Ty) :
    (c.resolve old).element = c.element.getD old.element := by
  obtain ⟨dims, element⟩ := c
  cases old with
  | scalar e => cases dims <;> rfl
  | tensor t => rfl

namespace ShapeInference

variable {registry : Registry} {dialect : String} {terminator : OpId} {f : Func} {v : ValueId}

theorem valueTy?_reconcile : (reconcile f terminator).state.valueTy? v = f.valueTy? v := by
  unfold reconcile
  split
  · rfl
  · split <;> rfl

/-- Part of the type of a value stays if no operation that owns the value infers another one,
whether the run succeeds or fails. -/
theorem run_keeps {α : Type} (part : Ty → α)
    (hpart : ∀ node ∈ f.body.nodes, v ∈ node.op.results →
      ∀ rule, registry.rule? node.op.name.text = some rule →
        ∀ h cs, rule ⟨node.op, h⟩ = .ok cs → ∀ c ∈ cs, ∀ old, part (c.resolve old) = part old) :
    ((run dialect registry f).state.valueTy? v).map part = (f.valueTy? v).map part := by
  unfold run
  split
  · rfl
  · next t _ =>
    have hwalk : ((walk registry dialect t f.body.nodes f).state.valueTy? v).map part =
        (f.valueTy? v).map part :=
      walk_keeps part fun node hnode hv rule hrule =>
        hpart node hnode hv rule (ruleFor?_eq_some_iff.1 hrule).2
    simp only
    split
    · exact hwalk
    · rw [valueTy?_reconcile]
      exact hwalk

/-- A cast has one result, and after a successful run it has the element kind that is asked for. -/
theorem element_of_cast (hf : f.Invariant) {g : Func} {changed : Bool}
    (h : run Relay.dialectName Relay.registry f = ⟨g, .ok changed⟩) {node : Node}
    (hnode : node ∈ f.body.nodes) (hname : node.op.name.text = "relay.cast") :
    ∃ v a e, node.op.results = [v] ∧ node.op.attribute? "dtype" = some a ∧ a.Denotes e ∧
      (g.valueTy? v).map Ty.element = some e := by
  obtain ⟨t, w, now, signature, hterm, hwalk, -, rfl, -⟩ := run_eq_ok_iff.1 h
  obtain ⟨-, -, hsol⟩ := walk_solves Relay.registry_pure (forward_of_invariant hf) hwalk
  have hrule := Relay.rule?_cast
  rw [← hname] at hrule
  obtain ⟨cs, hcs, hlen, htys⟩ := hsol.inferred node hnode _ (ruleFor?_of_rule? hterm hnode hrule)
  obtain ⟨dims, a, e, -, ha, he, rfl⟩ :=
    Relay.cast_eq_ok_iff.1 (ShapeRule.ofInputs_eq_ok_iff.1 hcs)
  obtain ⟨v, hresults⟩ := List.length_eq_one_iff.1 hlen.symm
  refine ⟨v, a, e, hresults, ha, he, ?_⟩
  have hty : w.valueTy? v = (f.valueTy? v).map (Component.resolve ⟨dims, some e⟩) :=
    htys (v, ⟨dims, some e⟩) (by simp [hresults])
  have hv : v ∈ node.op.results := by simp [hresults]
  obtain ⟨old, hold⟩ := Func.exists_valueTy?_iff.2 (hf.result_lt hnode hv)
  change (w.valueTy? v).map Ty.element = some e
  rw [hty, hold, Option.map_some, Option.map_some, Component.element_resolve]
  rfl

/-- **Inference keeps element kinds.** Whatever the function, and whether the run succeeds or fails:
a value that is not a result of a cast has the element kind that it had. If a run on a built
function succeeds, every cast has one result, and that has the element kind that the attribute of
the cast denotes. -/
theorem run_keeps_elements (f : Func) :
    let r := run Relay.dialectName Relay.registry f
    (∀ v, (∀ node ∈ f.body.nodes, node.op.name.text = "relay.cast" → v ∉ node.op.results) →
      (r.state.valueTy? v).map Ty.element = (f.valueTy? v).map Ty.element) ∧
    (f.Built → ∀ changed, r.result = .ok changed →
      ∀ node ∈ f.body.nodes, node.op.name.text = "relay.cast" →
        ∃ v a e, node.op.results = [v] ∧ node.op.attribute? "dtype" = some a ∧ a.Denotes e ∧
          (r.state.valueTy? v).map Ty.element = some e) := by
  refine ⟨fun v hv => ?_, fun hf changed hok node hnode hname => ?_⟩
  · refine run_keeps Ty.element fun node hnode hin rule hrule h cs hcs c hc old => ?_
    have hname : node.op.name.text ≠ "relay.cast" := fun hcast => hv node hnode hcast hin
    rw [Component.element_resolve, Relay.element_eq_none_of_rule? hrule hname hcs c hc]
    rfl
  · exact element_of_cast hf.invariant (by rw [← hok]) hnode hname

/-- A scalar becomes a tensor of its own element kind although the operand has another one, a cast
sets the kind that its text denotes, and a failure at the last operation leaves all kinds but that
of the cast. -/
theorem run_keeps_elements_cast :
    let ty : Ty := .tensor ⟨.f32, [.known 2]⟩
    let dtype : Attributes := StringMap.ofList [("dtype", .string "int64")]
    let build (last : List ValueId) : Func := (Func.empty "main").after
      [.addArgument ty,
        .pushOp { name := ⟨"relay.exp"⟩, operands := [0] } [.scalar .i8],
        .pushOp { name := ⟨"relay.cast"⟩, operands := [1], attributes := dtype } [.scalar .f16],
        .pushOp { name := ⟨"relay.add"⟩, operands := last } [.scalar .bool],
        .pushOp { name := .terminator, operands := [3] } []]
    let f := build [2, 1]
    let g := build [2]
    let r := run Relay.dialectName Relay.registry f
    let s := run Relay.dialectName Relay.registry g
    f.Built ∧ r.result = .ok true ∧
      r.state.valueTy? 1 = some (.tensor ⟨.i8, [.known 2]⟩) ∧
      (r.state.valueTy? 2).map Ty.element = some .i64 ∧
      s.result.toOption = none ∧ (s.state.valueTy? 1).map Ty.element = some .i8 := by
  intro ty dtype build f g r s
  have hf : f.Built := ⟨_, _, rfl⟩
  obtain ⟨hok, hexp, hfails⟩ : r.result = .ok true ∧
      r.state.valueTy? 1 = some (.tensor ⟨.i8, [.known 2]⟩) ∧ s.result.toOption = none := by
    decide +kernel
  let cast : Node :=
    ⟨1, { name := ⟨"relay.cast"⟩, operands := [1], results := [2], attributes := dtype }⟩
  have hcast : cast ∈ f.body.nodes := by decide +kernel
  obtain ⟨v, a, e, hresults, hattr, hdenotes, helement⟩ :=
    (run_keeps_elements f).2 hf true hok _ hcast rfl
  cases hresults
  cases hattr
  obtain rfl : e = .i64 := by
    have hread := Attr.toElement_eq_ok_iff.2 hdenotes
    have hparse : Attr.toElement (.string "int64") = .ok .i64 := by decide
    exact Except.ok.inj (hread.symm.trans hparse)
  have hdeclared : (g.valueTy? 1).map Ty.element = some .i8 := by decide +kernel
  refine ⟨hf, hok, hexp, helement, hfails, ?_⟩
  exact ((run_keeps_elements g).1 1 (by decide +kernel)).trans hdeclared

end ShapeInference

end TensorIR
