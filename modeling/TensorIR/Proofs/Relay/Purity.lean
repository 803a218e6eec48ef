import TensorIR.Proofs.Func.History
import TensorIR.Proofs.Refinement.Rules

/-!
# Rules of the dialect see nothing but types and attributes

A rule is given a whole context, with the function around the operation and the declared types of
its results, and may fail with any error. But what it reads of the context are the inputs, and what
it fails with is the context's report of a fault: each rule of the dialect equals one on inputs
(`InContext.unary_eq` and the others). Two contexts with the same operand types and attributes make
the same inputs (`Context.inputs_eq`), so a rule gives both the same answer: one component, or the
same fault, which each context puts into its own words (`rule_pure`).
-/

namespace TensorIR

/-- What kind of mistake a fault of a rule is reported as. -/
def Fault.kind : Fault → ErrorKind
  | shape _ => .shapeInference
  | missingAttribute _ | unreadableAttribute .. => .badAttribute
  | unknownOperand _ => .invalidGraph

/-- Contexts differ in the words of their reports, not in the kind. -/
theorem Context.kind_report (c : Context) (fault : Fault) : (c.report fault).kind = fault.kind := by
  cases fault <;> rfl

/-- Contexts with operands of the same types and the same attributes make the same inputs. -/
theorem Context.inputs_eq {c c' : Context}
    (htys : List.Forall₂ (fun v v' => c.func.valueTy? v = c'.func.valueTy? v')
      c.op.operands c'.op.operands)
    (hattributes : c.op.attributes = c'.op.attributes) : c.inputs = c'.inputs := by
  have hoperands : c.op.operands.map c.func.valueTy? = c'.op.operands.map c'.func.valueTy? :=
    map_eq_of_forall₂ htys fun _ _ hty => hty
  unfold inputs
  rw [hoperands, hattributes]

namespace Relay

/-- **The rules are pure.** In any two contexts whose operations have as many operands, of the same
types one by one, and the same attributes, a rule of the dialect infers the same single component,
or fails with the same fault and so with an error of the same kind. Nothing else about the contexts
matters: not the numbers of the values, the declared types and the number of results, the location,
the other operations or the signature. -/
theorem rule_pure {name : String} {rule : ShapeRule} (hrule : registry.rule? name = some rule)
    {c c' : Context}
    (htys : List.Forall₂ (fun v v' => c.func.valueTy? v = c'.func.valueTy? v')
      c.op.operands c'.op.operands)
    (hattributes : c.op.attributes = c'.op.attributes) :
    (∃ component, rule c = .ok [component] ∧ rule c' = .ok [component]) ∨
      ∃ fault, rule c = .error (c.report fault) ∧ rule c' = .error (c'.report fault) ∧
        (c.report fault).kind = (c'.report fault).kind := by
  obtain ⟨r, hr, rfl⟩ := mem_rules_of_rule? hrule
  have hinputs := Context.inputs_eq htys hattributes
  cases hanswer : r c.inputs with
  | ok cs =>
    obtain ⟨component, rfl⟩ := List.length_eq_one_iff.1 (length_eq_one_of_mem_rules hr hanswer)
    have hanswer' : r c'.inputs = .ok [component] := hinputs ▸ hanswer
    exact .inl ⟨component, ShapeRule.ofInputs_eq_ok_iff.2 hanswer,
      ShapeRule.ofInputs_eq_ok_iff.2 hanswer'⟩
  | error fault =>
    have hanswer' : r c'.inputs = .error fault := hinputs ▸ hanswer
    refine .inr ⟨fault, ShapeRule.ofInputs_eq_error_iff.2 ⟨fault, hanswer, rfl⟩,
      ShapeRule.ofInputs_eq_error_iff.2 ⟨fault, hanswer', rfl⟩, ?_⟩
    rw [Context.kind_report, Context.kind_report]

/-- The same two types reach the operation as arguments in order, and as results of another
operation in reverse order, with other results declared for it. Addition infers the same shape, and
a convolution is refused for the same fault. -/
theorem rule_pure_elsewhere :
    let row : Ty := .tensor ⟨.f32, [.dynamic, .known 3]⟩
    let column : Ty := .tensor ⟨.i8, [.known 5, .known 1]⟩
    let here : Context :=
      ⟨{ name := ⟨"relay.add"⟩, operands := [0, 1] },
        (Func.empty "main").after [.addArgument row, .addArgument column]⟩
    let there : Context :=
      ⟨{ name := ⟨"relay.add"⟩, operands := [3, 2], results := [1, 0], loc := some "model.py:4" },
        (Func.empty "helper").after
          [.addArgument (.scalar .bool), .addArgument row,
            .pushOp { name := ⟨"host.load"⟩, operands := [0] } [column, row],
            .setSignature ⟨[], [column]⟩]⟩
    List.Forall₂ (fun v v' => here.func.valueTy? v = there.func.valueTy? v')
        here.op.operands there.op.operands ∧
      here.op.attributes = there.op.attributes ∧
      registry.rule? "relay.add" = some (ShapeRule.ofInputs binary) ∧
      registry.rule? "relay.nn.conv2d" = some (ShapeRule.ofInputs conv2d) ∧
      ShapeRule.ofInputs binary there = .ok [⟨[.known 5, .known 3], none⟩] ∧
      ∃ e, ShapeRule.ofInputs conv2d there = .error e ∧ e.kind = .shapeInference := by
  intro row column here there
  have htys : List.Forall₂ (fun v v' => here.func.valueTy? v = there.func.valueTy? v')
      here.op.operands there.op.operands :=
    .cons (by decide +kernel) (.cons (by decide +kernel) .nil)
  have hadd : registry.rule? "relay.add" = some (ShapeRule.ofInputs binary) :=
    rule?_of_mem (o := operator "add" .broadcast (.ofInputs binary)) (by simp [operators])
  have hconv : registry.rule? "relay.nn.conv2d" = some (ShapeRule.ofInputs conv2d) :=
    rule?_of_mem (o := operator "nn.conv2d" .outputFusable (.ofInputs conv2d)) (by simp [operators])
  obtain ⟨hsum, hrefused⟩ :
      ShapeRule.ofInputs binary here = .ok [⟨[.known 5, .known 3], none⟩] ∧
      ShapeRule.ofInputs conv2d here =
        .error (here.report (Defect.convolutionRanks 2 2).fault) := by decide +kernel
  refine ⟨htys, rfl, hadd, hconv, ?_, ?_⟩
  · rcases rule_pure hadd htys rfl with ⟨component, h, h'⟩ | ⟨fault, h, -⟩
    · rw [hsum] at h
      cases h
      exact h'
    · cases hsum.symm.trans h
  · rcases rule_pure hconv htys rfl with ⟨component, h, -⟩ | ⟨fault, h, h', hkind⟩
    · cases hrefused.symm.trans h
    · refine ⟨_, h', ?_⟩
      rw [← hkind, ← Except.error.inj (hrefused.symm.trans h)]
      rfl

end Relay

end TensorIR
