import TensorIR.Relay.Dialect
import TensorIR.Proofs.Registry
import TensorIR.Proofs.Relay.InContext

/-!
# The operators of the dialect

Every operator but one has a rule that turns out to be one of `rules`, on the inputs of its context;
the constant has none and is never fused. So a statement about all operators is a statement about
these rules.
-/

namespace TensorIR.Relay

/-- The different rules of the dialect, on inputs. -/
def rules : List Rule :=
  [unary, binary, reduction, pool2d, globalPool2d, reshape, transpose, expand, squeeze, concatenate,
    batchFlatten, biasAdd, softmax, dense, batchMatmul, conv2d, cast]

theorem mem_operators {o : Operator} (h : o ∈ operators) :
    o.rule = none ∧ o.pattern = .isolated ∨
      ∃ rule ∈ rules, o.rule = some (ShapeRule.ofInputs rule) := by
  simp only [operators, List.mem_cons, List.not_mem_nil, or_false] at h
  rcases h with rfl | rfl | rfl | rfl | rfl | rfl | rfl | rfl | rfl | rfl | rfl | rfl | rfl | rfl |
    rfl | rfl | rfl | rfl | rfl | rfl | rfl | rfl | rfl | rfl | rfl | rfl | rfl | rfl | rfl | rfl |
    rfl
  rotate_right
  · -- the constant comes last
    exact .inl ⟨rfl, rfl⟩
  all_goals simp [operator, rules]

/-- Every operator is found under its name. -/
theorem rule?_of_mem {o : Operator} (h : o ∈ operators) : registry.rule? o.name = o.rule := by
  have hnodup : (operators.map Operator.name).Nodup := by
    simp [operators, operator, dialectName]
  rw [Registry.rule?, registry, Registry.get?_ofList_of_mem hnodup h]
  rfl

/-- A name with a rule has one of the rules of the dialect. -/
theorem mem_rules_of_rule? {name : String} {rule : ShapeRule}
    (h : registry.rule? name = some rule) : ∃ r ∈ rules, rule = ShapeRule.ofInputs r := by
  obtain ⟨o, ho, hrule⟩ := Option.bind_eq_some_iff.1 h
  rcases mem_operators (Registry.mem_of_get?_ofList ho).1 with ⟨hnone, -⟩ | ⟨r, hr, hsome⟩
  · rw [hnone] at hrule
    cases hrule
  · rw [hsome] at hrule
    cases hrule
    exact ⟨r, hr, rfl⟩

/-- An operator that can be fused has a rule. -/
theorem exists_rule_of_pattern_ne {name : String} (h : registry.pattern name ≠ .isolated) :
    ∃ r ∈ rules, registry.rule? name = some (ShapeRule.ofInputs r) := by
  unfold Registry.pattern at h
  cases ho : registry.get? name with
  | none =>
    rw [ho] at h
    exact absurd rfl h
  | some o =>
    rw [ho] at h
    rcases mem_operators (Registry.mem_of_get?_ofList ho).1 with ⟨-, hisolated⟩ | ⟨r, hr, hrule⟩
    · exact absurd hisolated h
    · refine ⟨r, hr, ?_⟩
      rw [Registry.rule?, ho, Option.bind_some, hrule]

/-- All names stand in the dialect. -/
theorem dialect_of_mem {o : Operator} (h : o ∈ operators) :
    (OpName.mk o.name).dialect = dialectName := by
  have hall : ∀ o ∈ operators, (OpName.mk o.name).dialect = dialectName := by decide +kernel
  exact hall o h

theorem dialect_of_rule? {name : OpName} {rule : ShapeRule}
    (h : registry.rule? name.text = some rule) : name.dialect = dialectName := by
  obtain ⟨o, ho, -⟩ := Option.bind_eq_some_iff.1 h
  obtain ⟨hmem, hname⟩ := Registry.mem_of_get?_ofList ho
  have hdialect := dialect_of_mem hmem
  rwa [hname] at hdialect

theorem registry_pure : registry.Pure := by
  intro name rule h
  obtain ⟨r, -, rfl⟩ := mem_rules_of_rule? h
  exact ShapeRule.pure_ofInputs r

end TensorIR.Relay
