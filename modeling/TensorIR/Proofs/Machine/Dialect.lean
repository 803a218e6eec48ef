import TensorIR.Proofs.Func.History
import TensorIR.Proofs.Machine.Axes
import TensorIR.Proofs.Machine.Reshape

/-!
# No rule of the dialect traps

Every operator of the dialect that has a rule has one on machine words (`rules`), and on all
operands and attributes that a machine can hold it comes to what the rule says
(`rules_never_trap`). So no rule ever reads outside a list, divides by zero or computes a word that
does not fit.
-/

namespace TensorIR.Machine

/-- The rules of the dialect on machine words, by the names of their operators. -/
def rules : List (String × Rule) :=
  [ ("relay.nn.relu", unary),
    ("relay.negative", unary),
    ("relay.exp", unary),
    ("relay.sqrt", unary),
    ("relay.sigmoid", unary),
    ("relay.tanh", unary),
    ("relay.add", binary),
    ("relay.subtract", binary),
    ("relay.multiply", binary),
    ("relay.divide", binary),
    ("relay.maximum", binary),
    ("relay.minimum", binary),
    ("relay.sum", reduction),
    ("relay.mean", reduction),
    ("relay.max", reduction),
    ("relay.nn.max_pool2d", pool2d),
    ("relay.nn.avg_pool2d", pool2d),
    ("relay.nn.global_avg_pool2d", globalPool2d),
    ("relay.reshape", reshape),
    ("relay.transpose", transpose),
    ("relay.expand_dims", expand),
    ("relay.squeeze", squeeze),
    ("relay.concatenate", concatenate),
    ("relay.nn.batch_flatten", batchFlatten),
    ("relay.nn.bias_add", biasAdd),
    ("relay.nn.softmax", softmax),
    ("relay.nn.dense", dense),
    ("relay.nn.batch_matmul", batchMatmul),
    ("relay.nn.conv2d", conv2d),
    ("relay.cast", cast) ]

def rule? (name : String) : Option Rule :=
  rules.lookup name

/-- The evaluation of a rule for an operation in its function. -/
def Rule.eval (m : Rule) (c : Context) : Except Trap (Except Error (List Component)) :=
  (m c.inputs).run.map fun r => r.mapError c.report

theorem Rule.Follows.eval {m : Rule} {rule : Relay.Rule} (h : m.Follows rule) {c : Context}
    (hc : Fits c.inputs) : m.eval c = .ok (ShapeRule.ofInputs rule c) := by
  have hrun : (m c.inputs).run = .ok (rule c.inputs) := h c.inputs hc
  rw [Rule.eval, hrun]
  rfl

theorem follows_of_mem_operators {o : Operator} (h : o ∈ Relay.operators) {r : ShapeRule}
    (hr : o.rule = some r) :
    ∃ m rule, rule? o.name = some m ∧ m.Follows rule ∧ r = ShapeRule.ofInputs rule := by
  have hop : ∀ {base : String} {pattern : Pattern} {rule : ShapeRule} {rule' : Relay.Rule}
      {m : Rule}, rule = ShapeRule.ofInputs rule' →
      rule? (Relay.dialectName ++ "." ++ base) = some m → m.Follows rule' →
      (Relay.operator base pattern rule).rule = some r →
      ∃ m rule', rule? (Relay.operator base pattern rule).name = some m ∧ m.Follows rule' ∧
        r = ShapeRule.ofInputs rule' := by
    intro base pattern rule rule' m heq hm hfollows hr
    cases hr
    exact ⟨m, rule', hm, hfollows, heq⟩
  simp only [Relay.operators, List.mem_cons, List.not_mem_nil, or_false] at h
  rcases h with rfl | rfl | rfl | rfl | rfl | rfl | rfl | rfl | rfl | rfl | rfl | rfl | rfl | rfl |
    rfl | rfl | rfl | rfl | rfl | rfl | rfl | rfl | rfl | rfl | rfl | rfl | rfl | rfl | rfl | rfl |
    rfl
  iterate 6 exact hop Relay.InContext.unary_eq rfl unary_follows hr
  iterate 6 exact hop Relay.InContext.binary_eq rfl binary_follows hr
  iterate 3 exact hop Relay.InContext.reduction_eq rfl reduction_follows hr
  iterate 2 exact hop Relay.InContext.pool2d_eq rfl pool2d_follows hr
  · exact hop Relay.InContext.globalPool2d_eq rfl globalPool2d_follows hr
  · exact hop Relay.InContext.reshape_eq rfl reshape_follows hr
  · exact hop Relay.InContext.transpose_eq rfl transpose_follows hr
  · exact hop Relay.InContext.expand_eq rfl expand_follows hr
  · exact hop Relay.InContext.squeeze_eq rfl squeeze_follows hr
  · exact hop Relay.InContext.concatenate_eq rfl concatenate_follows hr
  · exact hop Relay.InContext.batchFlatten_eq rfl batchFlatten_follows hr
  · exact hop Relay.InContext.biasAdd_eq rfl biasAdd_follows hr
  · exact hop Relay.InContext.softmax_eq rfl softmax_follows hr
  · exact hop Relay.InContext.dense_eq rfl dense_follows hr
  · exact hop Relay.InContext.batchMatmul_eq rfl batchMatmul_follows hr
  · exact hop Relay.InContext.conv2d_eq rfl conv2d_follows hr
  · exact hop Relay.InContext.cast_eq rfl cast_follows hr
  · cases hr

/-- **No rule of the dialect traps.** Every operator with a rule has one on machine words, and its
evaluation for an operation whose operands and attributes a machine can hold comes to what the rule
says of the operation, be it components or an error. -/
theorem rules_never_trap {name : String} {rule : ShapeRule} {c : Context}
    (hrule : Relay.registry.rule? name = some rule) (hc : Fits c.inputs) :
    ∃ m, rule? name = some m ∧ m.eval c = .ok (rule c) := by
  obtain ⟨o, ho, hrule'⟩ := Option.bind_eq_some_iff.1 hrule
  obtain ⟨hmem, rfl⟩ := Registry.mem_of_get?_ofList ho
  obtain ⟨m, r, hm, hfollows, rfl⟩ := follows_of_mem_operators hmem hrule'
  exact ⟨m, hm, hfollows.eval hc⟩

/-- The greatest extents and strides: the window stops at as many places as a word can count. -/
theorem rules_never_trap_max_pool2d :
    let wide : Dim := .known (2 ^ 64 - 1)
    let ty : Ty := .tensor ⟨.f32, [.known 1, .known 1, wide, wide]⟩
    let op : Operation :=
      { name := ⟨"relay.nn.max_pool2d"⟩, operands := [0]
        attributes := StringMap.ofList
          [("pool_size", .int 1), ("strides", .ints [1, 2 ^ 63 - 1]), ("ceil_mode", .bool true)] }
    let c : Context := ⟨op, (Func.empty "main").after [.addArgument ty]⟩
    Relay.registry.rule? "relay.nn.max_pool2d" = some (ShapeRule.ofInputs Relay.pool2d) ∧
      Fits c.inputs ∧ ∃ m, rule? "relay.nn.max_pool2d" = some m ∧
        m.eval c = .ok (.ok [⟨[.known 1, .known 1, wide, .known 3], none⟩]) := by
  intro wide ty op c
  have hrule : Relay.registry.rule? "relay.nn.max_pool2d" =
      some (ShapeRule.ofInputs Relay.pool2d) :=
    Relay.rule?_of_mem
      (o := Relay.operator "nn.max_pool2d" .outputFusable (.ofInputs Relay.pool2d))
      (by simp [Relay.operators])
  have hfits : Fits c.inputs := by
    constructor
    · have hoperands : c.inputs.operands = [some ty] := rfl
      intro t ht
      rw [hoperands, List.mem_singleton] at ht
      cases ht
      decide
    · intro key a ha
      have hattributes : c.inputs.attributes = ((StringMap.insert ∅ "pool_size" (.int 1)).insert
          "strides" (.ints [1, 2 ^ 63 - 1])).insert "ceil_mode" (.bool true) := rfl
      simp only [hattributes, StringMap.get?_insert] at ha
      split at ha
      · cases ha
        decide
      split at ha
      · cases ha
        decide
      split at ha
      · cases ha
        decide
      · cases ha
  have hok : ShapeRule.ofInputs Relay.pool2d c =
      .ok [⟨[.known 1, .known 1, wide, .known 3], none⟩] := by
    decide +kernel
  obtain ⟨m, hm, heval⟩ := rules_never_trap hrule hfits
  exact ⟨hrule, hfits, m, hm, heval.trans (congrArg Except.ok hok)⟩

end TensorIR.Machine
